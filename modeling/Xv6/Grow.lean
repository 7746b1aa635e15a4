import Xv6.Space

/-!
# Growing an address space: `allocuvm` and `growproc`

`allocuvm` maps a zeroed page, taken off the free list, at each page from `PGROUNDUP(oldsz)` up
to `newsz`. A page-table allocation or a user-page allocation can fail at any page; the code
then frees the pages it mapped with `deallocuvm(pgdir, newsz, oldsz)`, frees the page it holds,
and returns 0. Over a whole address space (`Vm.Held`) every page stays free or owned on either
path, never both, and the user pages the process had keep their mappings and their bytes.

`Held.mapPage` is one page of `mappages`, shared with `copyuvm`.
-/

namespace Xv6

/-- The entry `mappages` writes for the page at kernel address `F`: a 32-bit word, present, that
names `F`. -/
theorem entry_of_page {F perm : Nat} (hF : F % pgsize = 0) (hk : kernbase ≤ F) (hp : v2p F < phystop)
    (hperm : perm < 4096) :
    (v2p F ||| perm ||| pteP) % 2 ^ 32 = v2p F ||| perm ||| pteP ∧ (v2p F ||| perm ||| pteP) &&& pteP ≠ 0 ∧
      p2v (pteAddr (v2p F ||| perm ||| pteP)) = F := by
  have hv : v2p F % 4096 = 0 := by simp only [v2p, pgsize, kernbase] at *; omega
  have hlow : perm ||| pteP < 4096 := Nat.or_lt_two_pow (n := 12) hperm (by decide)
  have hodd : (perm ||| pteP) % 2 = 1 := Nat.or_mod_two_eq_one.mpr (.inr rfl)
  rw [Nat.or_assoc, or_low hv hlow, and_pteP]
  simp only [pteAddr, p2v, v2p, phystop, kernbase] at *
  omega

namespace Vm

variable (vm : Vm) (ly : Layout)

/-- The entry of `va`'s walk when it is present: what the MMU translates `va` by. -/
def entry? (pgdir va : Nat) : Option Nat :=
  (vm.pte? pgdir va).filter fun e => e &&& pteP != 0

/-- What `mappages` of the page `F` at the user address `a` leaves in `vm'`, having taken the
page tables `L` off the free list: the address space whole and owning `F` and `L` as well, `a`'s
entry naming `F` with `perm`, every other entry and user page as before, and no byte written
outside the directory's page and its page tables. -/
structure MapsPage (pgdir a F perm : Nat) (vm' : Vm) (L : List Nat) : Prop where
  held : vm'.Held ly pgdir
  free_eq : vm.free = L ++ vm'.free
  owns : ∀ G, vm'.Owns pgdir G ↔ vm.Owns pgdir G ∨ G = F ∨ G ∈ L
  table : ∀ d < 1024, ∀ T, vm'.table? pgdir d = some T → vm.table? pgdir d = some T ∨ T ∈ L
  frame : ∀ va < kernbase, vm'.frame? pgdir va = if va / pgsize = a / pgsize then some F else vm.frame? pgdir va
  pte : vm'.pte? pgdir a = some (v2p F ||| perm ||| pteP)
  pte_ne : ∀ va e, ¬ (pdx va = pdx a ∧ ptx va = ptx a) → vm.pte? pgdir va = some e → vm'.pte? pgdir va = some e
  entry : ∀ va, ¬ (pdx va = pdx a ∧ ptx va = ptx a) → vm'.entry? pgdir va = vm.entry? pgdir va
  keep : ∀ x, vm'.OffTables pgdir x → vm'.mem x = vm.mem x
  /-- At most the one page table the walk needed. -/
  tables_le : L.length ≤ 1

variable {vm ly} {pgdir : Nat}

/-- A user page is what the entry of its walk names, when that entry is present. -/
theorem frame?_eq (vm : Vm) (pgdir va : Nat) : vm.frame? pgdir va =
    (vm.pte? pgdir va).bind fun e => if e &&& pteP ≠ 0 then some (p2v (pteAddr e)) else none := by
  unfold frame? pte?
  cases vm.table? pgdir (pdx va) <;> simp only [Option.map_some', Option.some_bind, Option.map_none', Option.none_bind]

/-- A user page is what the present entry of its walk names. -/
theorem frame?_eq_entry (vm : Vm) (pgdir va : Nat) :
    vm.frame? pgdir va = (vm.entry? pgdir va).map fun e => p2v (pteAddr e) := by
  rw [frame?_eq, entry?]
  cases vm.pte? pgdir va with
  | none => rfl
  | some e => by_cases h : e &&& pteP = 0 <;> simp [Option.filter_some, h]

/-- An entry `mappages` writes is present. -/
theorem entry_present (y : Nat) : (y ||| pteP) % 2 ^ 32 &&& pteP ≠ 0 := by
  have : (y ||| pteP) % 2 = 1 := Nat.or_mod_two_eq_one.mpr (.inr rfl)
  rw [and_pteP]
  omega

/-! ## Mapping one page -/

/-- `mappages` of the one page at a page-aligned user address runs its loop once. -/
theorem mappages_one {a : Nat} (ha : a % pgsize = 0) (hk : a < kernbase) (pa perm : Nat) :
    vm.mappages pgdir a pgsize pa perm = vm.mappagesLoop pgdir perm 0 a pa := by
  have h₁ : pgrounddown a = a := by simp only [pgrounddown, pgsize] at *; omega
  have h₂ : pgrounddown ((a + pgsize + 2 ^ 32 - 1) % 2 ^ 32) = a := by
    simp only [pgrounddown, pgsize, kernbase] at *; omega
  rw [mappages]
  simp only [h₁, h₂]
  congr 1
  simp only [pgsize]; omega

/-- The loop's one pass, once the walk has found an entry that is not present. -/
theorem mappagesLoop_zero {a pte pa perm : Nat} {vm₁ : Vm} (hw : vm.walkpgdir pgdir a true = (pte, vm₁))
    (h0 : pte ≠ 0) (hnp : vm₁.rd32 pte &&& pteP = 0) :
    vm.mappagesLoop pgdir perm 0 a pa = .ok (0, vm₁.wr32 pte (pa ||| perm ||| pteP)) := by
  rw [mappagesLoop, hw]
  simp only
  rw [if_neg h0, if_neg fun h => h hnp]

/-- Writing the entry of a user page whose page table is present and whose entry is not: the
page maps `F`, and the address space, now owning `F`, stays whole. Only the entry's bytes
change. -/
theorem Held.mapEntry (h : vm.Held ly pgdir) {a T F perm : Nat} (hk : a < kernbase)
    (hT : vm.table? pgdir (pdx a) = some T) (hnone : vm.frame? pgdir a = none) (hF : vm.Spare ly pgdir F)
    (hperm : perm < 4096) :
    vm.rd32 (T + 4 * ptx a) &&& pteP = 0 ∧
      (vm.wr32 (T + 4 * ptx a) (v2p F ||| perm ||| pteP)).Held ly pgdir ∧
      (∀ G, (vm.wr32 (T + 4 * ptx a) (v2p F ||| perm ||| pteP)).Owns pgdir G ↔ vm.Owns pgdir G ∨ G = F) ∧
      (∀ va < kernbase, (vm.wr32 (T + 4 * ptx a) (v2p F ||| perm ||| pteP)).frame? pgdir va =
        if va / pgsize = a / pgsize then some F else vm.frame? pgdir va) ∧
      (vm.wr32 (T + 4 * ptx a) (v2p F ||| perm ||| pteP)).pte? pgdir a = some (v2p F ||| perm ||| pteP) ∧
      (∀ d < 1024, (vm.wr32 (T + 4 * ptx a) (v2p F ||| perm ||| pteP)).table? pgdir d = vm.table? pgdir d) ∧
      ∀ x, (x < T ∨ T + pgsize ≤ x) → (vm.wr32 (T + 4 * ptx a) (v2p F ||| perm ||| pteP)).mem x = vm.mem x := by
  obtain ⟨hF₁, hF₂, -, hF₄, -⟩ := id hF
  obtain ⟨hx₁, hx₂, hx₃⟩ := entry_of_page hF₁ hF₂.le hF₄ hperm
  have hf := h.fresh
  have := ptx_lt a
  have hnp : vm.rd32 (T + 4 * ptx a) &&& pteP = 0 := by
    by_contra hp
    rw [frame?_of_table _ hT, if_pos hp] at hnone
    cases hnone
  have ht (d) (hd : d < 1024) :
      (vm.wr32 (T + 4 * ptx a) (v2p F ||| perm ||| pteP)).table? pgdir d = vm.table? pgdir d :=
    vm.table?_congr (Vm.agrees_wr32 _ _ (hf.table_apart (pdx_lt a) hT hd (ptx_lt a)))
  have hpte (va) := hf.pte?_wr32 hT (v2p F ||| perm ||| pteP) va
  have hfr (va) (hva : va < kernbase) :
      (vm.wr32 (T + 4 * ptx a) (v2p F ||| perm ||| pteP)).frame? pgdir va =
        if va / pgsize = a / pgsize then some F else vm.frame? pgdir va := by
    rw [frame?_eq, hpte, frame?_eq vm]
    by_cases hp : va / pgsize = a / pgsize
    · rw [if_pos ((page_eq_iff hva hk).mp hp), if_pos hp, hx₁, Option.some_bind, if_pos hx₂, hx₃]
    · rw [if_neg fun e => hp ((page_eq_iff hva hk).mpr e), if_neg hp]
  obtain ⟨hh, hown⟩ := h.addFrame hF hk hnone (Vm.wr32_free vm _ _) ht hfr
  refine ⟨hnp, hh, hown, hfr, ?_, ht, fun x hx => ?_⟩
  · rw [hpte, if_pos ⟨rfl, rfl⟩, hx₁]
  · exact vm.agrees_wr32 (X := x) (m := 1) _ (by simp only [pgsize] at hx; omega) x le_rfl (by omega)

/-- **One page of `mappages`.** For a whole address space, a page-aligned user address `a` whose
page is not present, and a page `F` the allocator handed out, `mappages(pgdir, a, PGSIZE,
V2P(F), perm)` returns -1 and changes nothing when the page table is absent and the free list
empty, and otherwise returns 0 having mapped `F` at `a` (`MapsPage`). -/
theorem Held.mapPage (h : vm.Held ly pgdir) {a F perm : Nat} (ha : a % pgsize = 0) (hk : a < kernbase)
    (hnone : vm.frame? pgdir a = none) (hF : vm.Spare ly pgdir F) (hperm : perm < 4096) :
    (vm.free = [] ∧ vm.mappages pgdir a pgsize (v2p F) perm = .ok (-1, vm)) ∨
    ∃ vm' L, vm.mappages pgdir a pgsize (v2p F) perm = .ok (0, vm') ∧ vm.MapsPage ly pgdir a F perm vm' L := by
  rw [mappages_one ha hk]
  have hf := h.fresh
  cases hT : vm.table? pgdir (pdx a) with
  | some T =>
    obtain ⟨hnp, hh, hown, hfr, hpte, ht, hkeep⟩ := h.mapEntry hk hT hnone hF hperm
    refine .inr ⟨_, [], mappagesLoop_zero (vm.walkpgdir_present hT true) ?_ hnp, hh, rfl,
      fun G => by rw [hown, List.mem_nil_iff, or_false], fun d hd T' hT' => .inl (by rwa [ht d hd] at hT'),
      hfr, hpte, fun va e hva he => ?_, fun va hva => ?_, fun x hx => hkeep x ?_, Nat.zero_le _⟩
    · have := vm.table?_kernel hT; simp only [kernbase] at this; omega
    · rw [hf.pte?_wr32 hT, if_neg hva, he]
    · unfold entry?
      rw [hf.pte?_wr32 hT, if_neg hva]
    · rw [← ht _ (pdx_lt a)] at hT
      exact hx.2 _ (pdx_lt a) T hT
  | none =>
    cases hfree : vm.free with
    | nil =>
      refine .inl ⟨rfl, ?_⟩
      rw [mappagesLoop, vm.walkpgdir_oom hT hfree]
      simp only [if_true]
    | cons f rest =>
      have hfm : f ∈ vm.free := hfree ▸ List.mem_cons_self f rest
      have hf0 : f ≠ 0 := (Nat.zero_lt_of_lt (hf.head_ok hfree).2.1).ne'
      -- the new page table: owned now, and the user pages as before
      have ht₁ (d) (hd : d < 1024) := table?_newTable (d := pdx a) hf hfree hd
      have hfr₁ (va) (hva : va < kernbase) : (vm.newTable pgdir (pdx a) f rest).frame? pgdir va = vm.frame? pgdir va := by
        rw [frame?_eq, pte?_newTable hf hfree (pdx_lt a)]
        split_ifs with hd
        · rw [frame?_of_no_table _ (hd ▸ hT)]; rfl
        · rw [frame?_eq]
      obtain ⟨h₁, hown₁⟩ := h.addTable hfree (pdx_lt a) hT ht₁ hfr₁
      have hT₁ : (vm.newTable pgdir (pdx a) f rest).table? pgdir (pdx a) = some f := by
        rw [ht₁ _ (pdx_lt a), if_pos rfl]
      obtain ⟨hF₁, hF₂, hF₃, hF₄, hF₅, hF₆⟩ := hF
      have hF' : (vm.newTable pgdir (pdx a) f rest).Spare ly pgdir F :=
        ⟨hF₁, hF₂, hF₃, hF₄, fun e => hF₅ (hfree ▸ List.mem_cons_of_mem f e),
          fun ho => (hown₁ F).mp ho |>.elim hF₆ fun e => hF₅ (e ▸ hfm)⟩
      obtain ⟨hnp, hh, hown, hfr, hpte, ht, hkeep⟩ :=
        h₁.mapEntry hk hT₁ (by rw [hfr₁ a hk, hnone]) hF' hperm
      refine .inr ⟨_, [f], mappagesLoop_zero (vm.walkpgdir_alloc hT hfree hf0) (by omega) hnp, hh, hfree,
        fun G => ?_, fun d hd T' hT' => ?_, fun va hva => (hfr va hva).trans (by rw [hfr₁ va hva]), hpte,
        fun va e hva he => ?_, fun va hva => ?_, fun x hx => ?_, le_rfl⟩
      · rw [hown, hown₁, List.mem_singleton, or_assoc, or_comm (a := G = f)]
      · rw [ht d hd, ht₁ d hd] at hT'
        split_ifs at hT' with e
        · exact .inr (List.mem_singleton.mpr (Option.some.inj hT').symm)
        · exact .inl hT'
      · have hd : pdx va ≠ pdx a := fun e => by rw [pte?, e, hT] at he; cases he
        rw [h₁.fresh.pte?_wr32 hT₁, if_neg hva, pte?_newTable hf hfree (pdx_lt a), if_neg hd, he]
      · unfold entry?
        rw [h₁.fresh.pte?_wr32 hT₁, if_neg hva, pte?_newTable hf hfree (pdx_lt a)]
        split_ifs with hd
        · rw [pte?, hd, hT]; rfl
        · rfl
      · have hxf := hx.2 _ (pdx_lt a) f (by rw [ht _ (pdx_lt a), hT₁])
        have hxd := hx.1
        have := pdx_lt a
        rw [hkeep x hxf]
        exact ((({ vm with free := rest } : Vm).agrees_memset (X := x) (m := 1) 0 (by omega)).trans
          (Vm.agrees_wr32 _ _ (by simp only [pgsize] at hxd; omega))) x le_rfl (by omega)

/-! ## `allocuvm` -/

section Alloc

variable {oldsz newsz : Nat}

theorem allocuvmLoop_oom {k a : Nat} (hlt : a < newsz) (hfree : vm.free = []) :
    vm.allocuvmLoop ly pgdir oldsz newsz (k + 1) a = (vm.deallocuvm ly pgdir newsz oldsz).map fun r => (0, r.2) := by
  rw [allocuvmLoop.eq_2, if_pos hlt, kalloc, hfree]
  rfl

theorem allocuvmLoop_page {k a F : Nat} {rest : List Nat} (hlt : a < newsz) (hfree : vm.free = F :: rest)
    (hF : F ≠ 0) :
    vm.allocuvmLoop ly pgdir oldsz newsz (k + 1) a =
      (({ vm with free := rest } : Vm).memset F 0 pgsize).mappages pgdir a pgsize (v2p F) (pteW ||| pteU) >>= fun p =>
        if p.1 < 0 then p.2.deallocuvm ly pgdir newsz oldsz >>= fun q => q.2.kfree ly F >>= fun vm => .ok (0, vm)
        else p.2.allocuvmLoop ly pgdir oldsz newsz k ((a + pgsize) % 2 ^ 32) := by
  rw [allocuvmLoop.eq_2, if_pos hlt, kalloc, hfree]
  simp only [if_neg hF]

variable (ly) in
/-- `allocuvm`'s loop at page `a`, started from `vm₀`: the pages `L` came off the head of the
free list and the address space owns them now. They are the zeroed, user-writable pages of
`[PGROUNDUP(oldsz), a)` and the page tables these needed; every other user page is as in `vm₀`,
and no byte changed outside the directory, its page tables and the pages that were free. -/
structure Grown (vm₀ : Vm) (pgdir oldsz a : Nat) (vm : Vm) (L : List Nat) : Prop where
  held : vm.Held ly pgdir
  free_eq : vm₀.free = L ++ vm.free
  owns : ∀ G, vm.Owns pgdir G ↔ vm₀.Owns pgdir G ∨ G ∈ L
  table : ∀ d < 1024, ∀ T, vm.table? pgdir d = some T → vm₀.table? pgdir d = some T ∨ T ∈ L
  frame : ∀ va < kernbase, ¬ (pgroundup oldsz ≤ va ∧ va < a) → vm.frame? pgdir va = vm₀.frame? pgdir va
  fresh : ∀ va, va % pgsize = 0 → pgroundup oldsz ≤ va → va < a → ∃ F ∈ L,
    vm.frame? pgdir va = some F ∧ vm.pte? pgdir va = some (v2p F ||| (pteW ||| pteU) ||| pteP) ∧
    ∀ x, F ≤ x → x < F + pgsize → vm.mem x = 0
  keep : ∀ x, vm₀.OffTables pgdir x → (∀ G ∈ vm₀.free, x < G ∨ G + pgsize ≤ x) → vm.mem x = vm₀.mem x
  /-- At most two pages for each page mapped: the page and its page table. -/
  count : L.length ≤ 2 * ((a - pgroundup oldsz) / pgsize)

theorem Grown.start (h : vm.Held ly pgdir) : Grown ly vm pgdir oldsz (pgroundup oldsz) vm [] where
  held := h
  free_eq := rfl
  owns G := by rw [List.mem_nil_iff, or_false]
  table _ _ _ hT := .inl hT
  frame _ _ _ := rfl
  fresh _ _ h₁ h₂ := absurd h₂ (by omega)
  keep _ _ _ := rfl
  count := Nat.zero_le _

/-- One pass of the loop that maps a page: the head `F` of the free list, zeroed, at `a`. -/
theorem Grown.step {vm₀ vm' : Vm} {a F : Nat} {rest L Lt : List Nat} (g : Grown ly vm₀ pgdir oldsz a vm L)
    (ha : a % pgsize = 0) (hlo : pgroundup oldsz ≤ a) (hk : a < kernbase) (hfree : vm.free = F :: rest)
    (m : (({ vm with free := rest } : Vm).memset F 0 pgsize).MapsPage ly pgdir a F (pteW ||| pteU) vm' Lt) :
    Grown ly vm₀ pgdir oldsz (a + pgsize) vm' (L ++ F :: Lt) := by
  obtain ⟨h₁, hF₁⟩ := g.held.kalloc hfree
  obtain ⟨-, -, hown₂, ht₂, hp₂, hf₂⟩ := h₁.write_spare hF₁
    (show (({ vm with free := rest } : Vm).memset F 0 pgsize).free = _ from rfl) fun x hx =>
    ({ vm with free := rest } : Vm).agrees_memset (X := x) (m := 1) 0 (by omega) x le_rfl (by omega)
  have hm₂ (x) : (({ vm with free := rest } : Vm).memset F 0 pgsize).mem x =
      if F ≤ x ∧ x < F + pgsize then 0 else vm.mem x := rfl
  have hLt : rest = Lt ++ vm'.free := m.free_eq
  have hfree' : vm₀.free = (L ++ F :: Lt) ++ vm'.free := by
    rw [g.free_eq, hfree, hLt]; simp only [List.append_assoc, List.cons_append]
  have hsub (G) (hG : G ∈ L ++ F :: Lt) : G ∈ vm₀.free := hfree' ▸ List.mem_append_left _ hG
  refine ⟨m.held, hfree', fun G => ?_, fun d hd T hT => ?_, fun va hva hn => ?_, fun va hm h₁ h₂ => ?_,
    fun x hx hx' => ?_, ?_⟩
  · rw [m.owns, hown₂, show ({ vm with free := rest } : Vm).Owns pgdir G ↔ vm.Owns pgdir G from Iff.rfl, g.owns,
      List.mem_append, List.mem_cons, or_assoc]
  · rcases m.table d hd T hT with hT | hT
    · rcases g.table d hd T (by rwa [ht₂ d hd] at hT) with hT | hT
      · exact .inl hT
      · exact .inr (List.mem_append_left _ hT)
    · exact .inr (List.mem_append_right _ (List.mem_cons_of_mem F hT))
  · have hne : va / pgsize ≠ a / pgsize := by simp only [pgsize] at *; omega
    rw [m.frame va hva, if_neg hne, hf₂]
    exact g.frame va hva fun ⟨h₁, h₂⟩ => hn ⟨h₁, by omega⟩
  · by_cases hva : va < a
    · obtain ⟨G, hG, hfG, hpG, hzG⟩ := g.fresh va hm h₁ hva
      have hne : va / pgsize ≠ a / pgsize := by simp only [pgsize] at *; omega
      have hk' : va < kernbase := by omega
      have hfG' : vm'.frame? pgdir va = some G := by rw [m.frame va hk', if_neg hne, hf₂]; exact hfG
      have hGF : G ≠ F := fun e => hF₁.2.2.2.2.2 (.inr (.inr (mappedIn_of_frame hk' (e ▸ hfG))))
      refine ⟨G, List.mem_append_left _ hG, hfG',
        m.pte_ne va _ (fun e => hne ((page_eq_iff hk' hk).mpr e)) (by rw [hp₂]; exact hpG), fun x hx₁ hx₂ => ?_⟩
      have := g.held.space.frame_ne hk' hfG
      have := vm.frame?_mod hfG
      have := hF₁.1
      rw [m.keep x (m.held.space.offTables_of_frame hk' hfG' hx₁ hx₂), hm₂,
        if_neg (by simp only [pgsize] at *; omega), hzG x hx₁ hx₂]
    · obtain rfl : va = a := by simp only [pgsize] at *; omega
      have hfa : vm'.frame? pgdir va = some F := by rw [m.frame va hk, if_pos rfl]
      refine ⟨F, List.mem_append_right _ (List.mem_cons_self F Lt), hfa, m.pte, fun x hx₁ hx₂ => ?_⟩
      rw [m.keep x (m.held.space.offTables_of_frame hk hfa hx₁ hx₂), hm₂, if_pos ⟨hx₁, hx₂⟩]
  · have hoff : vm'.OffTables pgdir x := ⟨hx.1, fun d hd T hT => ?_⟩
    · rw [m.keep x hoff, hm₂, if_neg ?_, g.keep x hx hx']
      have := hx' F (hsub F (List.mem_append_right _ (List.mem_cons_self F Lt)))
      omega
    · rcases m.table d hd T hT with hT | hT
      · rcases g.table d hd T (by rwa [ht₂ d hd] at hT) with hT | hT
        · exact hx.2 d hd T hT
        · exact hx' T (hsub T (List.mem_append_left _ hT))
      · exact hx' T (hsub T (List.mem_append_right _ (List.mem_cons_of_mem F hT)))
  · have := g.count
    have := m.tables_le
    simp only [List.length_append, List.length_cons, pgsize] at *
    omega

section Run

variable {vm₀ : Vm} {a : Nat} {L : List Nat}

/-- Along the loop every page is free or owned just as at its start. -/
theorem Grown.pool (g : Grown ly vm₀ pgdir oldsz a vm L) (G : Nat) :
    G ∈ vm.free ∨ vm.Owns pgdir G ↔ G ∈ vm₀.free ∨ vm₀.Owns pgdir G := by
  simp only [g.free_eq, g.owns, List.mem_append, or_assoc, or_comm, or_left_comm]

/-- A byte outside the pages that were free or owned lies outside the directory and every page
table, at the start and along the loop. -/
theorem Grown.off (g : Grown ly vm₀ pgdir oldsz a vm L) {x : Nat}
    (hx : ∀ G, G ∈ vm₀.free ∨ vm₀.Owns pgdir G → x < G ∨ G + pgsize ≤ x) :
    vm.OffTables pgdir x ∧ vm₀.OffTables pgdir x := by
  have hL (G) (hG : G ∈ L) : G ∈ vm₀.free := g.free_eq ▸ List.mem_append_left _ hG
  refine ⟨⟨hx _ (.inr (.inl rfl)), fun d hd T hT => ?_⟩, offTables_of_outside fun G hG => hx G (.inr hG)⟩
  rcases g.table d hd T hT with hT | hT
  exacts [hx T (.inr (.inr (.inl ⟨d, hd, hT⟩))), hx T (.inl (hL T hT))]

/-- The pages the loop has mapped at or above `PGROUNDUP(oldsz)` are pages it took. -/
theorem Grown.mapped_new (hb : vm₀.Below pgdir oldsz) (g : Grown ly vm₀ pgdir oldsz a vm L) {G : Nat}
    (hG : vm.MappedIn pgdir (pgroundup oldsz) kernbase G) : G ∈ L := by
  obtain ⟨va, hm, h₁, h₂, hF⟩ := hG
  by_cases hva : va < a
  · obtain ⟨F, hF', hfF, -⟩ := g.fresh va hm h₁ hva
    rw [hF] at hfF
    rwa [Option.some.inj hfF]
  · rw [g.frame va h₂ fun h => hva h.2, hb.2 va h₂ h₁] at hF
    cases hF

/-- A user page of the start is mapped as before, and was not free. -/
theorem Grown.old (h₀ : vm₀.Held ly pgdir) (hb : vm₀.Below pgdir oldsz) (g : Grown ly vm₀ pgdir oldsz a vm L)
    {va F : Nat} (hva : va < kernbase) (hF : vm₀.frame? pgdir va = some F) :
    vm.frame? pgdir va = some F ∧ F ∉ vm₀.free := by
  have := hb.lt_of_frame hva hF
  exact ⟨(g.frame va hva fun h => by omega).trans hF,
    fun hf => h₀.apart F hf (.inr (.inr (mappedIn_of_frame hva hF)))⟩

/-- No byte of a user page of the start changes along the loop. -/
theorem Grown.keep_old (h₀ : vm₀.Held ly pgdir) (hb : vm₀.Below pgdir oldsz) (g : Grown ly vm₀ pgdir oldsz a vm L)
    {va F x : Nat} (hva : va < kernbase) (hF : vm₀.frame? pgdir va = some F) (h₁ : F ≤ x) (h₂ : x < F + pgsize) :
    vm.mem x = vm₀.mem x :=
  g.keep x (h₀.space.offTables_of_frame hva hF h₁ h₂) fun G hG =>
    page_out (h₀.alloc.ok G hG).1 (vm₀.frame?_mod hF) (fun e => (g.old h₀ hb hva hF).2 (e ▸ hG)) h₁ h₂

variable (ly) in
/-- What a failed `allocuvm` leaves, from `vm₀`: the contract of `Moves`, the user pages mapped
as before, and none of their bytes changed. -/
structure Undone (vm₀ : Vm) (pgdir : Nat) (vm : Vm) : Prop where
  moves : vm₀.Moves ly pgdir vm
  frame : ∀ va < kernbase, vm.frame? pgdir va = vm₀.frame? pgdir va
  keep_old : ∀ va F x, va < kernbase → vm₀.frame? pgdir va = some F → F ≤ x → x < F + pgsize → vm.mem x = vm₀.mem x

/-- `deallocuvm(pgdir, newsz, oldsz)` after a failed growth: it frees the pages mapped from
`PGROUNDUP(oldsz)` on, and the user pages are those of `vm₀` again. -/
theorem rollback {w : Vm} (hw : w.Held ly pgdir) (hb : vm₀.Below pgdir oldsz) (hn : newsz < kernbase)
    (hlt : oldsz < newsz)
    (hf : ∀ va < kernbase, ¬ (pgroundup oldsz ≤ va ∧ va < newsz) → w.frame? pgdir va = vm₀.frame? pgdir va) :
    ∃ vm' Ld, w.deallocuvm ly pgdir newsz oldsz = .ok (oldsz, vm') ∧ vm'.Held ly pgdir ∧ vm'.free = Ld ++ w.free ∧
      (∀ G ∈ Ld, w.MappedIn pgdir (pgroundup oldsz) kernbase G) ∧ (∀ G, vm'.Owns pgdir G ↔ w.Owns pgdir G ∧ G ∉ Ld) ∧
      (∀ va < kernbase, vm'.frame? pgdir va = vm₀.frame? pgdir va) ∧
      ∀ x, w.OffTables pgdir x → (∀ G ∈ Ld, x < G ∨ G + pgsize ≤ x) → vm'.mem x = w.mem x := by
  obtain ⟨vm', Ld, hrun, hh, hfree, hmem, hown, -, hfr, hkeep⟩ := hw.dealloc (show newsz ≤ kernbase from hn.le) hlt
  refine ⟨vm', Ld, hrun, hh, hfree, fun G hG => ?_, hown, fun va hva => ?_, hkeep⟩
  · obtain ⟨va, hm, h₁, h₂, hF⟩ := (hmem G).mp hG
    exact ⟨va, hm, h₁, by omega, hF⟩
  · have hd : pgrounddown va < kernbase := lt_of_le_of_lt (Nat.div_mul_le_self va pgsize) hva
    have hp : va / pgsize = pgrounddown va / pgsize := by simp only [pgrounddown, pgsize]; omega
    rw [frame?_page hva hd hp, frame?_page hva hd hp, hfr _ (pgrounddown_mod va) hd]
    split_ifs with hin
    · exact (hb.2 _ hd hin.1).symm
    · exact hf _ hd hin

theorem oldsz_lt (hb : vm₀.Below pgdir oldsz) (hlo : pgroundup oldsz ≤ a) (ha : a < newsz) : oldsz < newsz := by
  have := hb.1
  simp only [pgroundup, pgsize, kernbase] at *; omega

/-- The user page's `kalloc` failed at `a`: `deallocuvm(pgdir, newsz, oldsz)` undoes the
growth. -/
theorem Grown.undo (h₀ : vm₀.Held ly pgdir) (hb : vm₀.Below pgdir oldsz) (hn : newsz < kernbase)
    (g : Grown ly vm₀ pgdir oldsz a vm L) (hlo : pgroundup oldsz ≤ a) (ha : a < newsz) :
    ∃ vm', (vm.deallocuvm ly pgdir newsz oldsz).map (fun r => (0, r.2)) = .ok (0, vm') ∧ Undone ly vm₀ pgdir vm' := by
  obtain ⟨vm', Ld, hrun, hh, hfree, hLd, hown, hfr, hkeep⟩ := rollback g.held hb hn (oldsz_lt hb hlo ha)
    fun va hva hn' => g.frame va hva fun h => hn' ⟨h.1, by omega⟩
  have hLd' (G) (hG : G ∈ Ld) : G ∈ vm₀.free := g.free_eq ▸ List.mem_append_left _ (g.mapped_new hb (hLd G hG))
  refine ⟨vm', by rw [hrun]; rfl, ⟨hh, fun G => ?_, fun x hx => ?_⟩, hfr, fun va F x hva hF h₁ h₂ => ?_⟩
  · rw [pool_of_free hfree hown (fun G hG => .inr (.inr (MappedIn.mono (Nat.zero_le _) (hLd G hG)))) G, g.pool G]
  · obtain ⟨hoff, hoff₀⟩ := g.off hx
    rw [hkeep x hoff fun G hG => hx G (.inl (hLd' G hG)), g.keep x hoff₀ fun G hG => hx G (.inl hG)]
  · have hF' := g.old h₀ hb hva hF
    rw [hkeep x (g.held.space.offTables_of_frame hva hF'.1 h₁ h₂) fun G hG =>
      page_out (h₀.alloc.ok G (hLd' G hG)).1 (vm₀.frame?_mod hF) (fun e => hF'.2 (e ▸ hLd' G hG)) h₁ h₂,
      g.keep_old h₀ hb hva hF h₁ h₂]

/-- `mappages` failed at `a` for want of a page table: `deallocuvm(pgdir, newsz, oldsz)` undoes
the growth and `kfree` returns the page taken for `a`. -/
theorem Grown.undo_page (h₀ : vm₀.Held ly pgdir) (hb : vm₀.Below pgdir oldsz) (hn : newsz < kernbase)
    (g : Grown ly vm₀ pgdir oldsz a vm L) (hlo : pgroundup oldsz ≤ a) (ha : a < newsz) {F : Nat} {rest : List Nat}
    (hfree : vm.free = F :: rest) :
    ∃ vm', ((({ vm with free := rest } : Vm).memset F 0 pgsize).deallocuvm ly pgdir newsz oldsz >>= fun q =>
      q.2.kfree ly F >>= fun vm => .ok (0, vm)) = .ok (0, vm') ∧ Undone ly vm₀ pgdir vm' := by
  obtain ⟨h₁, hF₁⟩ := g.held.kalloc hfree
  obtain ⟨h₂, hF₂, hown₂, ht₂, -, hf₂⟩ := h₁.write_spare hF₁
    (show (({ vm with free := rest } : Vm).memset F 0 pgsize).free = _ from rfl) fun x hx =>
    ({ vm with free := rest } : Vm).agrees_memset (X := x) (m := 1) 0 (by omega) x le_rfl (by omega)
  have hmw (x) (hx : x < F ∨ F + pgsize ≤ x) : (({ vm with free := rest } : Vm).memset F 0 pgsize).mem x = vm.mem x :=
    ({ vm with free := rest } : Vm).agrees_memset (X := x) (m := 1) 0 (by omega) x le_rfl (by omega)
  have hwf : (({ vm with free := rest } : Vm).memset F 0 pgsize).free = rest := rfl
  obtain ⟨vm₄, Ld, hrun, hh₄, hfree₄, hLd, hown₄, hfr₄, hkeep₄⟩ := rollback h₂ hb hn (oldsz_lt hb hlo ha)
    fun va hva hn' => (hf₂ va).trans (g.frame va hva fun h => hn' ⟨h.1, by omega⟩)
  have hLd' (G) (hG : G ∈ Ld) : G ∈ vm₀.free := by
    obtain ⟨va, h₁, h₂, h₃, h₄⟩ := hLd G hG
    exact g.free_eq ▸ List.mem_append_left _ (g.mapped_new hb ⟨va, h₁, h₂, h₃, (hf₂ va) ▸ h₄⟩)
  have hLo (G) (hG : G ∈ Ld) : (({ vm with free := rest } : Vm).memset F 0 pgsize).Owns pgdir G :=
    .inr (.inr (MappedIn.mono (Nat.zero_le _) (hLd G hG)))
  have hF₀ : F ∈ vm₀.free := g.free_eq ▸ List.mem_append_right _ (hfree ▸ List.mem_cons_self F rest)
  obtain ⟨hF₁', hF₂', hF₃', hF₄', hF₅', hF₆'⟩ := hF₂
  obtain ⟨vm₅, hk₅, hh₅, hfree₅, hown₅, hfr₅, hkeep₅⟩ := hh₄.kfree (F := F)
    ⟨hF₁', hF₂', hF₃', hF₄', by rw [hfree₄, List.mem_append]; exact fun h => h.elim (fun h => hF₆' (hLo F h)) hF₅',
      fun ho => hF₆' ((hown₄ F).mp ho).1⟩
  have hoffw {x : Nat} (hx : vm.OffTables pgdir x) : (({ vm with free := rest } : Vm).memset F 0 pgsize).OffTables pgdir x :=
    ⟨hx.1, fun d hd T hT => hx.2 d hd T (by rwa [ht₂ d hd] at hT)⟩
  refine ⟨vm₅, ?_, ⟨hh₅, fun G => ?_, fun x hx => ?_⟩, fun va hva => (hfr₅ va).trans (hfr₄ va hva),
    fun va F' x hva hF hx₁ hx₂ => ?_⟩
  · rw [hrun]
    show (vm₄.kfree ly F >>= fun vm => Except.ok (0, vm)) = _
    rw [hk₅]; rfl
  · rw [hfree₅, List.mem_cons, hown₅, or_assoc, pool_of_free hfree₄ hown₄ hLo G, hown₂, hwf,
      show ({ vm with free := rest } : Vm).Owns pgdir G ↔ vm.Owns pgdir G from Iff.rfl, ← or_assoc,
      ← List.mem_cons, ← hfree, g.pool G]
  · obtain ⟨hoff, hoff₀⟩ := g.off hx
    have hxF := hx F (.inl hF₀)
    rw [hkeep₅ x hxF, hkeep₄ x (hoffw hoff) fun G hG => hx G (.inl (hLd' G hG)), hmw x hxF,
      g.keep x hoff₀ fun G hG => hx G (.inl hG)]
  · have hF' := g.old h₀ hb hva hF
    have hxF := page_out hF₁' (vm₀.frame?_mod hF) (fun e => hF'.2 (e ▸ hF₀)) hx₁ hx₂
    rw [hkeep₅ x hxF, hkeep₄ x (h₂.space.offTables_of_frame hva (by rw [hf₂]; exact hF'.1) hx₁ hx₂) fun G hG =>
      page_out (h₀.alloc.ok G (hLd' G hG)).1 (vm₀.frame?_mod hF) (fun e => hF'.2 (e ▸ hLd' G hG)) hx₁ hx₂,
      hmw x hxF, g.keep_old h₀ hb hva hF hx₁ hx₂]

theorem allocuvmLoop_stop {k a : Nat} (h : newsz ≤ a) :
    vm.allocuvmLoop ly pgdir oldsz newsz (k + 1) a = .ok (newsz, vm) := by
  rw [allocuvmLoop.eq_2, if_neg (by omega)]

/-- **`allocuvm`'s loop.** From a page `a` between `PGROUNDUP(oldsz)` and `PGROUNDUP(newsz)`,
with fuel for the pages up to `newsz`, the loop returns `newsz` having mapped every page up to
`PGROUNDUP(newsz)`, or 0 having undone the growth. -/
theorem allocuvmLoop_spec (h₀ : vm₀.Held ly pgdir) (hb : vm₀.Below pgdir oldsz) (hn : newsz < kernbase) (k : Nat) :
    ∀ a (vm : Vm) L, a % pgsize = 0 → pgroundup oldsz ≤ a → a ≤ pgroundup newsz → newsz ≤ a + k * pgsize →
      Grown ly vm₀ pgdir oldsz a vm L →
      ∃ r vm', vm.allocuvmLoop ly pgdir oldsz newsz (k + 1) a = .ok (r, vm') ∧
        ((r = newsz ∧ ∃ L', Grown ly vm₀ pgdir oldsz (pgroundup newsz) vm' L') ∨ (r = 0 ∧ Undone ly vm₀ pgdir vm' ∧
          vm₀.free.length < 2 * ((pgroundup newsz - pgroundup oldsz) / pgsize))) := by
  have hstop (a) (vm : Vm) (L) (j : Nat) (ha : a % pgsize = 0) (hup : a ≤ pgroundup newsz) (hle : newsz ≤ a)
      (g : Grown ly vm₀ pgdir oldsz a vm L) :
      ∃ r vm', vm.allocuvmLoop ly pgdir oldsz newsz (j + 1) a = .ok (r, vm') ∧
        ((r = newsz ∧ ∃ L', Grown ly vm₀ pgdir oldsz (pgroundup newsz) vm' L') ∨ (r = 0 ∧ Undone ly vm₀ pgdir vm' ∧
          vm₀.free.length < 2 * ((pgroundup newsz - pgroundup oldsz) / pgsize))) := by
    obtain rfl : a = pgroundup newsz := by simp only [pgroundup, pgsize, kernbase] at *; omega
    exact ⟨newsz, vm, allocuvmLoop_stop hle, .inl ⟨rfl, L, g⟩⟩
  induction k with
  | zero => intro a vm L ha _ hup hk g; exact hstop a vm L 0 ha hup (by omega) g
  | succ k ih =>
    intro a vm L ha hlo hup hk g
    by_cases hlt : a < newsz
    swap
    · exact hstop a vm L _ ha hup (by omega) g
    have hak : a < kernbase := by omega
    -- the pages taken so far, and one more, are fewer than the call needs
    have hshort (extra : Nat) (he : extra ≤ 1) (hlen : vm₀.free.length = L.length + extra) :
        vm₀.free.length < 2 * ((pgroundup newsz - pgroundup oldsz) / pgsize) := by
      have := g.count
      simp only [pgroundup, pgsize, kernbase] at *
      omega
    cases hfree : vm.free with
    | nil =>
      obtain ⟨vm', hrun, hud⟩ := g.undo h₀ hb hn hlo hlt
      exact ⟨0, vm', (allocuvmLoop_oom hlt hfree).trans hrun, .inr ⟨rfl, hud,
        hshort 0 (Nat.zero_le _) (by rw [g.free_eq, hfree, List.append_nil, Nat.add_zero])⟩⟩
    | cons F rest =>
      obtain ⟨h₁, hF₁⟩ := g.held.kalloc hfree
      have hF0 : F ≠ 0 := (Nat.zero_lt_of_lt hF₁.2.1).ne'
      obtain ⟨h₂, hF₂, -, -, -, hf₂⟩ := h₁.write_spare hF₁
        (show (({ vm with free := rest } : Vm).memset F 0 pgsize).free = _ from rfl) fun x hx =>
        ({ vm with free := rest } : Vm).agrees_memset (X := x) (m := 1) 0 (by omega) x le_rfl (by omega)
      have hnone : (({ vm with free := rest } : Vm).memset F 0 pgsize).frame? pgdir a = none := by
        rw [hf₂]; exact (g.frame a hak fun h => lt_irrefl a h.2).trans (hb.2 a hak hlo)
      rw [allocuvmLoop_page hlt hfree hF0]
      rcases h₂.mapPage ha hak hnone hF₂ (show pteW ||| pteU < 4096 by decide) with ⟨hrest, hmp⟩ | ⟨vm', Lt, hmp, m⟩
      · obtain ⟨vm', hrun, hud⟩ := g.undo_page h₀ hb hn hlo hlt hfree
        have hrest : rest = [] := hrest
        exact ⟨0, vm', by rw [hmp]; exact hrun, .inr ⟨rfl, hud, hshort 1 le_rfl (by
          rw [g.free_eq, hfree, hrest, List.length_append, List.length_singleton])⟩⟩
      · have hmod : (a + pgsize) % 2 ^ 32 = a + pgsize := by simp only [pgsize, kernbase] at *; omega
        obtain ⟨r, vm'', hrun, hres⟩ := ih (a + pgsize) vm' _ (by simp only [pgsize] at *; omega) (by omega)
          (by simp only [pgroundup, pgsize, kernbase] at *; omega) (by simp only [pgsize] at *; omega)
          (g.step ha hlo hak hfree m)
        refine ⟨r, vm'', ?_, hres⟩
        rw [hmp]
        simp only [bind, Except.bind, if_neg (show ¬ ((0 : Int) < 0) by decide), hmod]
        exact hrun


theorem Grown.moves (g : Grown ly vm₀ pgdir oldsz a vm L) : vm₀.Moves ly pgdir vm :=
  ⟨g.held, g.pool, fun x hx => g.keep x (g.off hx).2 fun G hG => hx G (.inl hG)⟩

/-- At the loop's end nothing is mapped at or above the new size. -/
theorem Grown.below (hb : vm₀.Below pgdir oldsz) (hn : newsz < kernbase) (hup : pgroundup oldsz ≤ pgroundup newsz)
    (g : Grown ly vm₀ pgdir oldsz (pgroundup newsz) vm L) : vm.Below pgdir newsz :=
  ⟨hn, fun va hva h => (g.frame va hva fun h' => by omega).trans (hb.2 va hva (by omega))⟩

/-- At the loop's end, for a process whose pages were all mapped, the pages mapped are exactly
those below the new size. -/
theorem Grown.uvm (hu : vm₀.Uvm pgdir oldsz) (hn : newsz < kernbase) (hup : pgroundup oldsz ≤ pgroundup newsz)
    (g : Grown ly vm₀ pgdir oldsz (pgroundup newsz) vm L) : vm.Uvm pgdir newsz := by
  refine ⟨hn, fun va hm hva => ?_⟩
  by_cases h₁ : pgroundup oldsz ≤ va ∧ va < pgroundup newsz
  · obtain ⟨F, -, hF, -⟩ := g.fresh va hm h₁.1 h₁.2
    simp only [hF, Option.isSome_some, h₁.2]
  · rw [g.frame va hva h₁, hu.2 va hm hva]
    omega

end Run

/-- `allocuvm` from its entry, for `oldsz ≤ newsz < KERNBASE`: the loop returns `newsz` having
grown the address space to `PGROUNDUP(newsz)`, or 0 having undone the growth. -/
theorem allocuvm_run {oldsz newsz : Nat} (h : vm.Held ly pgdir) (hb : vm.Below pgdir oldsz) (hn : newsz < kernbase)
    (hle : oldsz ≤ newsz) :
    ∃ r vm', vm.allocuvm ly pgdir oldsz newsz = .ok (r, vm') ∧ pgroundup oldsz ≤ pgroundup newsz ∧
      ((r = newsz ∧ ∃ L, Grown ly vm pgdir oldsz (pgroundup newsz) vm' L) ∨ (r = 0 ∧ Undone ly vm pgdir vm' ∧
        vm.free.length < 2 * ((pgroundup newsz - pgroundup oldsz) / pgsize))) := by
  have hk := hb.1
  have hup : pgroundup oldsz ≤ pgroundup newsz := by simp only [pgroundup, pgsize, kernbase] at *; omega
  obtain ⟨r, vm', hl, hres⟩ := allocuvmLoop_spec h hb hn (2 ^ 20) _ vm [] (pgroundup_mod oldsz) le_rfl hup
    (by simp only [pgroundup, pgsize, kernbase] at *; omega) (Grown.start h)
  exact ⟨r, vm', by rw [allocuvm, if_neg (by omega), if_neg (by omega), pageFuel, hl], hup, hres⟩

/-- **`allocuvm`.** For a whole address space of a process of size `oldsz`, and
`oldsz ≤ newsz < KERNBASE`, `allocuvm` returns without faulting, keeps the contract of `Moves`
(every page free or owned as before, never both, and no byte written outside those pages), and
keeps every user page the process had, with its bytes. It returns `newsz`, with the pages mapped
now exactly those below `PGROUNDUP(newsz)`, each new one zero-filled, user-writable and taken
off the free list; or it returns 0 with the user pages mapped as before, which it does only with
fewer free pages than two for each page to map (the page and, at most, its page table). -/
theorem allocuvm_spec {oldsz newsz : Nat} (h : vm.Held ly pgdir) (hu : vm.Uvm pgdir oldsz) (hn : newsz < kernbase)
    (hle : oldsz ≤ newsz) :
    ∃ r vm', vm.allocuvm ly pgdir oldsz newsz = .ok (r, vm') ∧ vm.Moves ly pgdir vm' ∧
      (∀ va F, va < kernbase → vm.frame? pgdir va = some F →
        vm'.frame? pgdir va = some F ∧ ∀ x, F ≤ x → x < F + pgsize → vm'.mem x = vm.mem x) ∧
      ((r = newsz ∧ vm'.Uvm pgdir newsz ∧ ∀ va, va % pgsize = 0 → pgroundup oldsz ≤ va → va < newsz →
          ∃ F ∈ vm.free, vm'.pte? pgdir va = some (v2p F ||| (pteW ||| pteU) ||| pteP) ∧
            ∀ x, F ≤ x → x < F + pgsize → vm'.mem x = 0) ∨
        (r = 0 ∧ vm.free.length < 2 * ((pgroundup newsz - pgroundup oldsz) / pgsize) ∧
          ∀ va < kernbase, vm'.frame? pgdir va = vm.frame? pgdir va)) := by
  obtain ⟨r, vm', hrun, hup, ⟨hr, L, g⟩ | ⟨rfl, ud, hshort⟩⟩ := allocuvm_run h hu.below hn hle
  · refine ⟨newsz, vm', hr ▸ hrun, g.moves,
      fun va F hva hF => ⟨(g.old h hu.below hva hF).1, fun x => g.keep_old h hu.below hva hF⟩,
      .inl ⟨rfl, g.uvm hu hn hup, fun va hm h₁ h₂ => ?_⟩⟩
    obtain ⟨F, hF, -, hpte, hz⟩ := g.fresh va hm h₁ (by have := hu.1; simp only [pgroundup, pgsize, kernbase] at *; omega)
    exact ⟨F, g.free_eq ▸ List.mem_append_left _ hF, hpte, hz⟩
  · exact ⟨0, vm', hrun, ud.moves, fun va F hva hF => ⟨(ud.frame va hva).trans hF, fun x => ud.keep_old va F x hva hF⟩,
      .inr ⟨rfl, hshort, ud.frame⟩⟩

/-- The sample address space beside two free pages: enough for the one page and a page table. -/
def oneUserPageTwoFree : Vm :=
  { oneUserPage 0x80400000 0x80401000 0x80402000 with free := [0x80403000, 0x80404000] }

theorem oneUserPageTwoFree_held : oneUserPageTwoFree.Held sampleLayout 0x80400000 :=
  ⟨oneUserPage_held.space.congr (fun _ _ => rfl) (fun _ _ => rfl), ⟨by decide, by decide⟩, fun G hG ho => by
    have : G = 0x80400000 ∨ G = 0x80401000 ∨ G = 0x80402000 := (oneUserPage_owns G).mp ho
    simp only [oneUserPageTwoFree, List.mem_cons, List.mem_singleton, List.not_mem_nil, or_false] at hG
    omega⟩

/-- From size `PGSIZE` to `2 * PGSIZE` with two pages free: `allocuvm` returns the new size, the
new page zeroed and taken off the free list. -/
theorem allocuvm_spec_sample :
    oneUserPageTwoFree.Held sampleLayout 0x80400000 ∧ oneUserPageTwoFree.Uvm 0x80400000 4096 ∧
      ∃ vm', oneUserPageTwoFree.allocuvm sampleLayout 0x80400000 4096 8192 = .ok (8192, vm') ∧
        oneUserPageTwoFree.Moves sampleLayout 0x80400000 vm' ∧ vm'.Uvm 0x80400000 8192 ∧
        ∀ va, va % pgsize = 0 → pgroundup 4096 ≤ va → va < 8192 → ∃ F ∈ oneUserPageTwoFree.free,
          vm'.pte? 0x80400000 va = some (v2p F ||| (pteW ||| pteU) ||| pteP) ∧
          ∀ x, F ≤ x → x < F + pgsize → vm'.mem x = 0 := by
  have hu : oneUserPageTwoFree.Uvm 0x80400000 4096 := oneUserPage_sound.2
  obtain ⟨r, vm', hrun, hmv, -, ⟨rfl, hu', hnew⟩ | ⟨-, hshort, -⟩⟩ :=
    allocuvm_spec oneUserPageTwoFree_held hu (show 8192 < kernbase by decide) (show 4096 ≤ 8192 by decide)
  · exact ⟨oneUserPageTwoFree_held, hu, vm', hrun, hmv, hu', hnew⟩
  · exact absurd hshort (by decide)

end Alloc

/-! ## `growproc` -/

/-- Shrinking a process of size `sz` to `t < sz` keeps the contract of `Moves`, maps nothing at
or above `t`, and keeps every page below `t`. -/
theorem Held.shrink {sz t : Nat} (h : vm.Held ly pgdir) (hb : vm.Below pgdir sz) (ht : t < sz) :
    ∃ vm', vm.deallocuvm ly pgdir sz t = .ok (t, vm') ∧ vm.Moves ly pgdir vm' ∧ vm'.Below pgdir t ∧
      (vm.Uvm pgdir sz → vm'.Uvm pgdir t) := by
  have hk := hb.1
  obtain ⟨vm', Ld, hrun, hh, hfree, hmem, hown, -, hfr, hkeep⟩ := h.dealloc hk.le ht
  refine ⟨vm', hrun, moves_of_free hh hfree hown (fun G hG => ?_) hkeep, ⟨by omega, fun va hva hle => ?_⟩,
    fun hu => ⟨by omega, fun va hm hva => ?_⟩⟩
  · obtain ⟨va, h₁, -, h₃, h₄⟩ := (hmem G).mp hG
    exact .inr (.inr ⟨va, h₁, Nat.zero_le _, by omega, h₄⟩)
  · have hd : pgrounddown va < kernbase := lt_of_le_of_lt (Nat.div_mul_le_self va pgsize) hva
    have hp : va / pgsize = pgrounddown va / pgsize := by simp only [pgrounddown, pgsize]; omega
    have := pgroundup_mod t
    have := pgroundup_mod sz
    rw [frame?_page hva hd hp, hfr _ (pgrounddown_mod va) hd]
    split_ifs with hin
    · rfl
    · exact hb.2 _ hd (by simp only [pgrounddown, pgroundup, pgsize] at *; omega)
  · have e₁ := @lt_pgroundup_iff va sz hm hk
    have e₂ := @lt_pgroundup_iff va t hm (by omega)
    rw [hfr va hm hva]
    split_ifs with hin
    · simp only [Option.isSome_none, Bool.false_eq_true, false_iff, not_lt]; exact hin.1
    · rw [hu.2 va hm hva, e₁, e₂]; omega

/-- **`growproc(n)`.** For a whole address space of a process of size `sz`, `growproc(n)`
returns for every `n` without faulting, keeps the contract of `Moves`, and maps nothing at or
above the size it leaves. For a process whose pages below `sz` were all mapped, the size it
leaves is consistent with the mapping (`Uvm`), except in one case: `n < 0` with `sz + n` zero
modulo 2^32, where `deallocuvm` frees every user page and returns 0, which `growproc` takes for
failure; it returns -1 and leaves the size `sz` over an empty user half. -/
theorem growproc_spec {sz : Nat} (h : vm.Held ly pgdir) (hb : vm.Below pgdir sz) (n : Int) :
    ∃ r sz' vm', vm.growproc ly pgdir sz n = .ok (r, sz', vm') ∧ vm.Moves ly pgdir vm' ∧ vm'.Below pgdir sz' ∧
      (vm.Uvm pgdir sz → vm'.Uvm pgdir sz' ∨
        n < 0 ∧ ((sz : Int) + n) % 2 ^ 32 = 0 ∧ r = -1 ∧ sz' = sz ∧ vm'.Uvm pgdir 0) := by
  have hk := hb.1
  obtain ⟨t, ht⟩ : ∃ t, (((sz : Int) + n) % 2 ^ 32).toNat = t := ⟨_, rfl⟩
  -- the result `growproc` makes of the size `q` that `allocuvm` or `deallocuvm` returns
  have hmap (e : Except Fault (Nat × Vm)) (q : Nat) (w : Vm) (he : e = .ok (q, w)) :
      e.map (fun r => if r.1 = 0 then ((-1 : Int), sz, r.2) else (0, r.1, r.2)) =
        .ok (if q = 0 then (-1, sz, w) else (0, q, w)) := by rw [he]; rfl
  have hsame (q : Nat) (w : Vm) (hw : vm.Moves ly pgdir w) (hq0 : q = 0 → w.Below pgdir sz ∧ (vm.Uvm pgdir sz → w.Uvm pgdir sz))
      (hq : q ≠ 0 → w.Below pgdir q ∧ (vm.Uvm pgdir sz → w.Uvm pgdir q)) :
      ∃ r sz' vm', Except.ok (if q = 0 then ((-1 : Int), sz, w) else (0, q, w)) =
        (Except.ok (r, sz', vm') : Except Fault _) ∧ vm.Moves ly pgdir vm' ∧ vm'.Below pgdir sz' ∧
        (vm.Uvm pgdir sz → vm'.Uvm pgdir sz' ∨
          n < 0 ∧ ((sz : Int) + n) % 2 ^ 32 = 0 ∧ r = -1 ∧ sz' = sz ∧ vm'.Uvm pgdir 0) := by
    by_cases h0 : q = 0
    · exact ⟨-1, sz, w, by rw [if_pos h0], hw, (hq0 h0).1, fun hu => .inl ((hq0 h0).2 hu)⟩
    · exact ⟨0, q, w, by rw [if_neg h0], hw, (hq h0).1, fun hu => .inl ((hq h0).2 hu)⟩
  have hkeep (q : Nat) := hsame q vm (Moves.refl h) (fun _ => ⟨hb, id⟩)
  rcases Int.lt_trichotomy n 0 with hn | rfl | hn
  · have hg : vm.growproc ly pgdir sz n = (vm.deallocuvm ly pgdir sz t).map
        fun r => if r.1 = 0 then ((-1 : Int), sz, r.2) else (0, r.1, r.2) := by
      rw [growproc, if_neg (by omega), if_pos hn, ht]
    by_cases hts : sz ≤ t
    · rw [hg, hmap _ sz vm (by rw [deallocuvm, if_pos hts])]
      exact hkeep sz fun _ => ⟨hb, id⟩
    · obtain ⟨vm', hrun, hmv, hbt, hut⟩ := h.shrink hb (show t < sz by omega)
      rw [hg, hmap _ t vm' hrun]
      by_cases h0 : t = 0
      · refine ⟨-1, sz, vm', by rw [if_pos h0], hmv, ⟨hk, fun va hva hle => hbt.2 va hva (by
          have := pgroundup_mod t; simp only [pgroundup, pgsize, kernbase] at *; omega)⟩,
          fun hu => .inr ⟨hn, by omega, rfl, rfl, h0 ▸ hut hu⟩⟩
      · exact ⟨0, t, vm', by rw [if_neg h0], hmv, hbt, fun hu => .inl (hut hu)⟩
  · exact ⟨0, sz, vm, by rw [growproc, if_neg (by decide), if_neg (by decide)], Moves.refl h, hb, .inl⟩
  · have hg : vm.growproc ly pgdir sz n = (vm.allocuvm ly pgdir sz t).map
        fun r => if r.1 = 0 then ((-1 : Int), sz, r.2) else (0, r.1, r.2) := by
      rw [growproc, if_pos hn, ht]
    by_cases htk : t ≥ kernbase
    · rw [hg, hmap _ 0 vm (by rw [allocuvm, if_pos htk])]
      exact hkeep 0 fun h0 => absurd rfl h0
    by_cases hts : t < sz
    · rw [hg, hmap _ sz vm (by rw [allocuvm, if_neg htk, if_pos hts])]
      exact hkeep sz fun _ => ⟨hb, id⟩
    obtain ⟨r, vm', hrun, hup, ⟨hr, L, g⟩ | ⟨rfl, ud, -⟩⟩ := allocuvm_run h hb (show t < kernbase by omega)
      (show sz ≤ t by omega)
    · rw [hg, hmap _ t vm' (hr ▸ hrun)]
      have hbt := g.below hb (by omega) hup
      refine hsame t vm' g.moves (fun h0 => ?_) fun _ => ⟨hbt, fun hu => g.uvm hu (by omega) hup⟩
      obtain rfl : sz = t := by omega
      exact ⟨hbt, fun hu => g.uvm hu (by omega) hup⟩
    · rw [hg, hmap _ 0 vm' hrun]
      exact hsame 0 vm' ud.moves (fun _ => ⟨hb.congr ud.frame, fun hu => hu.congr ud.frame⟩) fun h0 => absurd rfl h0

end Vm

end Xv6
