import Xv6.Kvm

/-!
# Copying an address space: `copyuvm`

`fork` gives the child a copy of the parent's memory with `copyuvm(pgdir, sz)`: a directory from
`setupkvm`, then for each page below `sz` a page off the free list holding the bytes of the
parent's page, entered with the parent's flags. Running out of pages at any point frees the new
directory and every page it took, and `copyuvm` returns 0.

The loop takes at most two pages for each page it copies, the copy and a page table, on top of
`setupkvm`'s 65, so it returns 0 only when fewer pages than that were free. For a parent whose
directory maps exactly the pages below `PGROUNDUP(sz)` (`Vm.Uvm`), neither of the loop's panics
can happen (`copyuvm_spec`). Every write lands in a page that was free, so the
parent's address space is left as it was, the bytes of its pages included (`Held.of_outside`).
-/

namespace Xv6

/-- `kmap` maps nothing below `KERNBASE`. -/
theorem kernelEntry?_of_lt {ly : Layout} (hly : ly.Ok) {va : Nat} (hva : va < kernbase) :
    kernelEntry? ly va = none := by
  have := hly.link_lt
  simp only [kernelEntry?, kernlink, extmem, devspace, kernbase] at *
  split_ifs <;> first | rfl | omega

namespace Vm

variable {vm : Vm} {ly : Layout} {pgdir : Nat}

/-! ## Writes to free pages only -/

/-- Memory that differs only in pages free in `vm` reads the same page tables, entries and user
pages. -/
theorem Held.reads_of_outside {vm' : Vm} (h : vm.Held ly pgdir)
    (hk : ∀ x, (∀ G ∈ vm.free, x < G ∨ G + pgsize ≤ x) → vm'.mem x = vm.mem x) :
    (∀ d < 1024, vm'.table? pgdir d = vm.table? pgdir d) ∧ (∀ va, vm'.pte? pgdir va = vm.pte? pgdir va) ∧
      ∀ va, vm'.frame? pgdir va = vm.frame? pgdir va :=
  reads_of_keep fun x hx => hk x fun G hG => h.space.apart_of_not_owns (h.alloc.ok G hG).1 (h.apart G hG) hx

/-- A byte of a user page lies outside every free page. -/
theorem Held.frame_outside (h : vm.Held ly pgdir) {va F x : Nat} (hva : va < kernbase)
    (hF : vm.frame? pgdir va = some F) (h₁ : F ≤ x) (h₂ : x < F + pgsize) :
    ∀ G ∈ vm.free, x < G ∨ G + pgsize ≤ x := fun G hG =>
  page_out (h.alloc.ok G hG).1 (vm.frame?_mod hF)
    (fun e => h.apart G hG (e ▸ .inr (.inr (mappedIn_of_frame hva hF)))) h₁ h₂

/-- **Writes apart from an address space.** An allocator whose free pages all lie in a set `S`
of pages the directory does not own, over memory that differs only inside `S`, leaves the
address space `pgdir` as it was: whole, owning the same pages and mapping the same user pages. -/
theorem Held.of_apart {vm' : Vm} {S : Nat → Prop} (h : vm.Held ly pgdir) (ha : vm'.Alloc ly)
    (hS : ∀ G, S G → G % pgsize = 0 ∧ ¬ vm.Owns pgdir G) (hsub : ∀ G ∈ vm'.free, S G)
    (hk : ∀ x, (∀ G, S G → x < G ∨ G + pgsize ≤ x) → vm'.mem x = vm.mem x) :
    vm'.Held ly pgdir ∧ (∀ G, vm'.Owns pgdir G ↔ vm.Owns pgdir G) ∧ ∀ va, vm'.frame? pgdir va = vm.frame? pgdir va := by
  obtain ⟨ht, -, hf⟩ := reads_of_keep fun x hx =>
    hk x fun G hG => h.space.apart_of_not_owns (hS G hG).1 (hS G hG).2 hx
  have hown := owns_congr ht fun va _ => hf va
  exact ⟨⟨h.space.congr ht fun va _ => hf va, ha, fun G hG ho => (hS G (hsub G hG)).2 ((hown G).mp ho)⟩, hown, hf⟩

/-- **Writes to free pages only.** An allocator whose free pages were free in `vm`, over memory
that differs from `vm` only in free pages of `vm`, leaves the address space `pgdir` as it was. -/
theorem Held.of_outside {vm' : Vm} (h : vm.Held ly pgdir) (ha : vm'.Alloc ly) (hsub : ∀ G ∈ vm'.free, G ∈ vm.free)
    (hk : ∀ x, (∀ G ∈ vm.free, x < G ∨ G + pgsize ≤ x) → vm'.mem x = vm.mem x) :
    vm'.Held ly pgdir ∧ (∀ G, vm'.Owns pgdir G ↔ vm.Owns pgdir G) ∧ ∀ va, vm'.frame? pgdir va = vm.frame? pgdir va :=
  h.of_apart ha (fun G hG => ⟨(h.alloc.ok G hG).1, h.apart G hG⟩) hsub hk

/-- A page an address space owns is one `kfree` accepts, above `KERNBASE` once `end` is. -/
theorem Space.owns_ok (hs : vm.Space ly pgdir) (hend : kernbase < ly.kend) {G : Nat} (hG : vm.Owns pgdir G) :
    G % pgsize = 0 ∧ kernbase < G ∧ ly.kend ≤ G ∧ v2p G < phystop := by
  rcases hG with rfl | ⟨d, hd, hT⟩ | ⟨va, -, -, hva, hF⟩
  · have := hs.dir_ok.2.1
    exact ⟨hs.dir_mod, by omega, this, hs.dir_ok.2.2⟩
  · have := hs.table_ok hd hT
    exact ⟨vm.table?_mod hT, by omega, this⟩
  · have := hs.frame_ok hva hF
    exact ⟨vm.frame?_mod hF, by omega, this.1, this.2.1⟩

theorem Alloc.of_perm {vm' : Vm} (ha : vm.Alloc ly) (hp : vm'.free.Perm vm.free) : vm'.Alloc ly :=
  ⟨hp.nodup_iff.mpr ha.nodup, fun f hf => ha.ok f (hp.mem_iff.mp hf)⟩

/-- The allocator once `kalloc` took its head. -/
theorem Alloc.tail {vm' : Vm} (ha : vm.Alloc ly) {k : Nat} {rest : List Nat} (hfr : vm.free = k :: rest)
    (h' : vm'.free = rest) : vm'.Alloc ly :=
  ⟨h' ▸ (List.nodup_cons.mp (hfr ▸ ha.nodup)).2, fun G hG => ha.ok G (hfr ▸ List.mem_cons_of_mem k (h' ▸ hG))⟩

/-- `setupkvm`'s directory maps no user page. -/
theorem Built.frame_user (hly : ly.Ok) {vm₀ : Vm} {d : Nat} {L : List Nat} (b : vm₀.Built ly d (kmap ly) vm L)
    {va : Nat} (hva : va < kernbase) : vm.frame? d va = none := by
  rw [frame?_eq_entry, b.entry va (by simp only [kernbase] at hva; omega),
    kmap_entry hly (by simp only [kernbase] at hva; omega), kernelEntry?_of_lt hly hva]
  rfl

/-! ## The loop -/

variable (ly) in
/-- `copyuvm`'s loop at `i`, started from `vm₀`: the directory `d` and the pages `L` came off the
head of `vm₀`'s free list; `d` is a whole address space owning just these, with `kmap`'s kernel
half, a fresh copy of each of `pgdir`'s pages below `i` entered with its flags, and nothing at or
above `i`; no byte outside a page free in `vm₀` changed. The kernel half took at most 64 page
tables, and each page copied at most two pages. -/
structure Copied (vm₀ : Vm) (pgdir d i : Nat) (vm : Vm) (L : List Nat) : Prop where
  held : vm.Held ly d
  free_eq : vm₀.free = d :: (L ++ vm.free)
  owns : ∀ G, vm.Owns d G ↔ G = d ∨ G ∈ L
  kernel : ∀ va, kernbase ≤ va → va < 2 ^ 32 → vm.entry? d va = kernelEntry? ly va
  copied : ∀ va, va % pgsize = 0 → va < i → ∃ e F, vm₀.entry? pgdir va = some e ∧
    vm.entry? d va = some (v2p F ||| pteFlags e ||| pteP) ∧ vm.frame? d va = some F ∧
    ∀ j < pgsize, vm.mem (F + j) = vm₀.mem (p2v (pteAddr e) + j)
  above : ∀ va < kernbase, i ≤ va → vm.frame? d va = none
  keep : ∀ x, (∀ G ∈ vm₀.free, x < G ∨ G + pgsize ≤ x) → vm.mem x = vm₀.mem x
  count : L.length ≤ 64 + 2 * (i / pgsize)

section Copy

variable {vm₀ : Vm} {d i sz : Nat} {L : List Nat}

theorem Copied.pool (c : Copied ly vm₀ pgdir d i vm L) (G : Nat) : vm.Owns d G ∨ G ∈ vm.free ↔ G ∈ vm₀.free := by
  rw [c.owns, c.free_eq, List.mem_cons, List.mem_append, or_assoc]

/-- `setupkvm`'s directory, before the loop copies anything. -/
theorem Copied.start (hly : ly.Ok) (b : vm₀.Built ly d (kmap ly) vm L) : Copied ly vm₀ pgdir d 0 vm L where
  held := b.held
  free_eq := b.free_eq
  owns := b.owns
  kernel va _ hva := by rw [b.entry va hva, kmap_entry hly hva]
  copied _ _ h := absurd h (Nat.not_lt_zero _)
  above _ hva _ := b.frame_user hly hva
  keep := b.keep
  count := b.length_le

/-- One pass of the loop: the page `mem` off the free list gets the bytes of the parent's page
at `i`, whose entry is `e`, and `mappages` enters it at `i` with `e`'s flags. -/
theorem Copied.step (h₀ : vm₀.Held ly pgdir) (c : Copied ly vm₀ pgdir d i vm L) (hi : i % pgsize = 0)
    (hk : i < kernbase) {mem e : Nat} {rest Lt : List Nat} {vm' : Vm} (hfree : vm.free = mem :: rest)
    (he : vm₀.entry? pgdir i = some e)
    (m : (({ vm with free := rest } : Vm).memmove mem (p2v (pteAddr e)) pgsize).MapsPage ly d i mem (pteFlags e) vm' Lt) :
    Copied ly vm₀ pgdir d (i + pgsize) vm' (L ++ mem :: Lt) := by
  obtain ⟨h₁, hF₁⟩ := c.held.kalloc hfree
  have hmv (x) : (({ vm with free := rest } : Vm).memmove mem (p2v (pteAddr e)) pgsize).mem x =
      if mem ≤ x ∧ x < mem + pgsize then vm.mem (p2v (pteAddr e) + (x - mem)) else vm.mem x := rfl
  have hout (x) (hx : x < mem ∨ mem + pgsize ≤ x) :
      (({ vm with free := rest } : Vm).memmove mem (p2v (pteAddr e)) pgsize).mem x = vm.mem x := by
    rw [hmv, if_neg (by omega)]
  obtain ⟨-, -, hown₂, -, hp₂, hf₂⟩ := h₁.write_spare hF₁
    (show (({ vm with free := rest } : Vm).memmove mem (p2v (pteAddr e)) pgsize).free = _ from rfl) hout
  have hent₂ (va) : (({ vm with free := rest } : Vm).memmove mem (p2v (pteAddr e)) pgsize).entry? d va =
      vm.entry? d va := by
    unfold entry?
    rw [hp₂]
    rfl
  have hfree' : vm₀.free = d :: ((L ++ mem :: Lt) ++ vm'.free) := by
    rw [c.free_eq, hfree, show rest = Lt ++ vm'.free from m.free_eq]
    simp only [List.append_assoc, List.cons_append]
  have hown (G) : vm'.Owns d G ↔ G = d ∨ G ∈ L ++ mem :: Lt := by
    rw [m.owns, hown₂, show ({ vm with free := rest } : Vm).Owns d G ↔ vm.Owns d G from Iff.rfl, c.owns,
      List.mem_append, List.mem_cons]
    simp only [or_assoc]
  have howned (G) (hG : vm'.Owns d G) : G ∈ vm₀.free := by
    rw [hfree', List.mem_cons, List.mem_append]
    exact ((hown G).mp hG).imp id .inl
  have hmem₀ : mem ∈ vm₀.free := howned mem ((m.owns mem).mpr (.inr (.inl rfl)))
  -- the page `i` and the pages below it, in the child, are other pages than `i + PGSIZE` on
  have hne {va} (hva : va < kernbase) (hlt : va < i ∨ i + pgsize ≤ va) : ¬ (pdx va = pdx i ∧ ptx va = ptx i) :=
    fun h' => by have := (page_eq_iff hva hk).mpr h'; simp only [pgsize] at *; omega
  refine ⟨m.held, hfree', hown, fun va hk' hva => ?_, fun va hva hlt => ?_, fun va hva hge => ?_, fun x hx => ?_, ?_⟩
  · rw [m.entry va fun h' => pdx_ne_of_lt hk hk' hva h'.1.symm, hent₂]
    exact c.kernel va hk' hva
  · by_cases hlt' : va < i
    · obtain ⟨e', F, he', hd', hF, hb⟩ := c.copied va hva hlt'
      have hva' : va < kernbase := by omega
      have hF' : vm'.frame? d va = some F := by
        rw [m.frame va hva', if_neg fun h' => hne hva' (.inl hlt') ((page_eq_iff hva' hk).mp h'), hf₂]
        exact hF
      refine ⟨e', F, he', by rw [m.entry va (hne hva' (.inl hlt')), hent₂]; exact hd', hF', fun j hj => ?_⟩
      have hFm : F ≠ mem := fun h' => hF₁.2.2.2.2.2 (.inr (.inr (mappedIn_of_frame hva' (h' ▸ hF))))
      have := vm.frame?_mod hF
      have := hF₁.1
      rw [m.keep _ (m.held.space.offTables_of_frame hva' hF' (by omega) (by omega)),
        hout _ (by simp only [pgsize] at *; omega), hb j hj]
    · obtain rfl : va = i := by simp only [pgsize] at *; omega
      obtain ⟨hx₁, hx₂, hx₃⟩ := entry_of_page hF₁.1 hF₁.2.1.le hF₁.2.2.2.1
        (show pteFlags e < 4096 from Nat.mod_lt _ (by decide))
      have hF' : vm'.frame? d va = some mem := by rw [m.frame va hk, if_pos rfl]
      refine ⟨e, mem, he, ?_, hF', fun j hj => ?_⟩
      · rw [entry?, m.pte, Option.filter_some, if_pos (bne_iff_ne.mpr hx₂)]
      · have hFp : vm₀.frame? pgdir va = some (p2v (pteAddr e)) := by rw [frame?_eq_entry, he]; rfl
        rw [m.keep _ (m.held.space.offTables_of_frame hk hF' (by omega) (by omega)), hmv, if_pos (by omega),
          Nat.add_sub_cancel_left]
        exact c.keep _ (h₀.frame_outside hk hFp (by omega) (by omega))
  · rw [m.frame va hva, if_neg fun h' => hne hva (.inr hge) ((page_eq_iff hva hk).mp h'), hf₂]
    exact c.above va hva (by omega)
  · have hxm := hx mem hmem₀
    rw [m.keep x (offTables_of_outside fun G hG => hx G (howned G hG)), hout x hxm]
    exact c.keep x hx
  · have := c.count
    have := m.tables_le
    simp only [List.length_append, List.length_cons, pgsize] at *
    omega

/-- The loop ran out of pages at `i < sz` with `extra ≤ 1` pages left: the free list held fewer
pages than the directory, 64 page tables and two pages for each page below `PGROUNDUP(sz)`. -/
theorem Copied.short (c : Copied ly vm₀ pgdir d i vm L) (hsz : sz < kernbase) (hi : i % pgsize = 0) (hlt : i < sz)
    {extra : Nat}
    (he : extra ≤ 1) (hlen : vm.free.length = extra) : vm₀.free.length < 65 + 2 * (pgroundup sz / pgsize) := by
  have := c.count
  rw [c.free_eq, List.length_cons, List.length_append, hlen]
  simp only [pgroundup, pgsize, kernbase] at *
  omega

/-- The loop's pass at `i < sz` once the walk of the parent has found `i`'s entry present. -/
theorem copyuvmLoop_walk {k T : Nat} (hlt : i < sz) (hT : vm.table? pgdir (pdx i) = some T)
    (hp : vm.rd32 (T + 4 * ptx i) &&& pteP ≠ 0) :
    vm.copyuvmLoop ly pgdir sz d (k + 1) i =
      match vm.kalloc with
      | (mem, vm') =>
        if mem = 0 then (vm'.freevm ly d).map (0, ·)
        else
          (vm'.memmove mem (p2v (pteAddr (vm.rd32 (T + 4 * ptx i)))) pgsize).mappages d i pgsize (v2p mem)
              (pteFlags (vm.rd32 (T + 4 * ptx i))) >>= fun p =>
            if p.1 < 0 then p.2.kfree ly mem >>= fun vm => (vm.freevm ly d).map (0, ·)
            else p.2.copyuvmLoop ly pgdir sz d k ((i + pgsize) % 2 ^ 32) := by
  have h0 : T + 4 * ptx i ≠ 0 := by have := vm.table?_kernel hT; simp only [kernbase] at this; omega
  rw [copyuvmLoop.eq_2, if_pos hlt, walkpgdir_false, hT, Option.elim_some]
  simp only [if_neg h0, if_neg hp]

/-- `copyuvm`'s two panics, at a page of the parent that is not present. -/
def copyuvmPanic (f : Fault) : Prop :=
  f = .panic "copyuvm: pte should exist" ∨ f = .panic "copyuvm: page not present"

/-- The loop's pass at `i < sz` where the parent has no page present: a panic, "pte should
exist" or "page not present". -/
theorem copyuvmLoop_hole {k : Nat} (hlt : i < sz) (he : vm.entry? pgdir i = none) :
    ∃ f, vm.copyuvmLoop ly pgdir sz d (k + 1) i = .error f ∧ copyuvmPanic f := by
  rw [copyuvmLoop.eq_2, if_pos hlt, walkpgdir_false]
  cases hT : vm.table? pgdir (pdx i) with
  | none => exact ⟨_, rfl, .inl rfl⟩
  | some T =>
    have h0 : T + 4 * ptx i ≠ 0 := by have := vm.table?_kernel hT; simp only [kernbase] at this; omega
    rw [entry?, pte?, hT, Option.map_some', Option.filter_some] at he
    have hp : vm.rd32 (T + 4 * ptx i) &&& pteP = 0 := by
      by_contra hp
      rw [if_pos (bne_iff_ne.mpr hp)] at he
      cases he
    rw [Option.elim_some]
    simp only [if_neg h0, hp, ↓reduceIte]
    exact ⟨_, rfl, .inr rfl⟩

/-- **`copyuvm`'s loop.** From a page `i` up to `PGROUNDUP(sz)`, with fuel for the pages up to
`sz`, the loop either returns, writing only bytes of pages free in `vm₀`: `d` with every page
below `PGROUNDUP(sz)` copied, or 0 with the free list holding `vm₀`'s free pages, too few for the
copy; or it panics, with one of its two panics, at a page-aligned address from `i` on and below
`sz` where the parent has no page present. -/
theorem copyuvmLoop_run (h₀ : vm₀.Held ly pgdir) (hb : vm₀.Below pgdir sz) (k : Nat) :
    ∀ i (vm : Vm) L, i % pgsize = 0 → i ≤ pgroundup sz → pgroundup sz ≤ i + k * pgsize →
      Copied ly vm₀ pgdir d i vm L →
      (∃ r vm', vm.copyuvmLoop ly pgdir sz d (k + 1) i = .ok (r, vm') ∧
        (∀ x, (∀ G ∈ vm₀.free, x < G ∨ G + pgsize ≤ x) → vm'.mem x = vm₀.mem x) ∧
        (r = 0 ∧ vm'.free.Perm vm₀.free ∧ vm₀.free.length < 65 + 2 * (pgroundup sz / pgsize) ∨
          r = d ∧ ∃ L', Copied ly vm₀ pgdir d (pgroundup sz) vm' L')) ∨
      (∃ f, vm.copyuvmLoop ly pgdir sz d (k + 1) i = .error f ∧ copyuvmPanic f) ∧
        ∃ va, va % pgsize = 0 ∧ i ≤ va ∧ va < sz ∧ vm₀.entry? pgdir va = none := by
  have hsz := hb.1
  have hstop (i) (vm : Vm) (L) (j : Nat) (hi : i % pgsize = 0) (hup : i ≤ pgroundup sz) (hle : sz ≤ i)
      (c : Copied ly vm₀ pgdir d i vm L) :
      ∃ r vm', vm.copyuvmLoop ly pgdir sz d (j + 1) i = .ok (r, vm') ∧
        (∀ x, (∀ G ∈ vm₀.free, x < G ∨ G + pgsize ≤ x) → vm'.mem x = vm₀.mem x) ∧
        (r = 0 ∧ vm'.free.Perm vm₀.free ∧ vm₀.free.length < 65 + 2 * (pgroundup sz / pgsize) ∨
          r = d ∧ ∃ L', Copied ly vm₀ pgdir d (pgroundup sz) vm' L') := by
    obtain rfl : i = pgroundup sz := by simp only [pgroundup, pgsize, kernbase] at *; omega
    exact ⟨d, vm, by rw [copyuvmLoop.eq_2, if_neg (by omega)], c.keep, .inr ⟨rfl, L, c⟩⟩
  induction k with
  | zero =>
    intro i vm L hi hup hk c
    exact .inl (hstop i vm L 0 hi hup (by simp only [pgroundup, pgsize, kernbase] at *; omega) c)
  | succ k ih =>
    intro i vm L hi hup hk c
    by_cases hlt : i < sz
    swap
    · exact .inl (hstop i vm L _ hi hup (by omega) c)
    have hik : i < kernbase := by omega
    -- the parent's entry at `i`, read in `vm` as in `vm₀`
    obtain ⟨ht, hpt, -⟩ := h₀.reads_of_outside c.keep
    rcases he : vm₀.entry? pgdir i with _ | e
    · exact .inr ⟨copyuvmLoop_hole hlt (by unfold entry?; rw [hpt i]; exact he), i, hi, le_rfl, hlt, he⟩
    obtain ⟨T, hT⟩ : ∃ T, vm₀.table? pgdir (pdx i) = some T := by
      cases hT : vm₀.table? pgdir (pdx i) with
      | none => rw [entry?, pte?, hT] at he; cases he
      | some T => exact ⟨T, rfl⟩
    have hrd : vm.rd32 (T + 4 * ptx i) = e ∧ e &&& pteP ≠ 0 := by
      have h₁ := hpt i
      rw [pte?, pte?, ht _ (pdx_lt i), hT, Option.map_some', Option.map_some'] at h₁
      rw [entry?, pte?, hT, Option.map_some', Option.filter_some] at he
      split_ifs at he with hp
      obtain rfl := Option.some.inj he
      exact ⟨Option.some.inj h₁, bne_iff_ne.mp hp⟩
    rw [copyuvmLoop_walk hlt (by rw [ht _ (pdx_lt i), hT]) (hrd.1 ▸ hrd.2), hrd.1]
    cases hfree : vm.free with
    | nil =>
      obtain ⟨vm', hrun, hperm, hkeep⟩ := c.held.freevm_back h₀.alloc.nodup c.pool c.keep
      exact .inl ⟨0, vm', by simp only [kalloc, hfree, if_true, hrun]; rfl, hkeep,
        .inl ⟨rfl, hperm, c.short hsz hi hlt (Nat.zero_le 1) (by rw [hfree]; rfl)⟩⟩
    | cons mem rest =>
      obtain ⟨h₁, hF₁⟩ := c.held.kalloc hfree
      have hm0 : mem ≠ 0 := (Nat.zero_lt_of_lt hF₁.2.1).ne'
      have hout (x) (hx : x < mem ∨ mem + pgsize ≤ x) :
          (({ vm with free := rest } : Vm).memmove mem (p2v (pteAddr e)) pgsize).mem x = vm.mem x := by
        show (if mem ≤ x ∧ x < mem + pgsize then _ else _) = _
        rw [if_neg (by omega)]
      obtain ⟨h₂, hF₂, hown₂, -, -, hf₂⟩ := h₁.write_spare hF₁
        (show (({ vm with free := rest } : Vm).memmove mem (p2v (pteAddr e)) pgsize).free = _ from rfl) hout
      simp only [kalloc, hfree, if_neg hm0]
      rcases h₂.mapPage hi hik (by rw [hf₂]; exact c.above i hik le_rfl) hF₂
          (show pteFlags e < 4096 from Nat.mod_lt _ (by decide)) with ⟨hfree₂, hmp⟩ | ⟨vm₃, Lt, hmp, m⟩
      · -- no page for the child's page table: give back `mem`, then the directory
        obtain ⟨vm₄, hk₄, hh₄, hfree₄, hown₄, -, hkeep₄⟩ := h₂.kfree hF₂
        have hpool (G) : vm₄.Owns d G ∨ G ∈ vm₄.free ↔ G ∈ vm₀.free := by
          rw [hown₄, hown₂, hfree₄, hfree₂, show ({ vm with free := rest } : Vm).Owns d G ↔ vm.Owns d G from Iff.rfl,
            ← c.pool G, hfree]
          simp only [List.mem_singleton, List.mem_cons, show rest = [] from hfree₂, List.not_mem_nil, or_false]
        have hmem₀ : mem ∈ vm₀.free := (c.pool mem).mp (.inr (hfree ▸ List.mem_cons_self mem rest))
        obtain ⟨vm', hrun, hperm, hkeep⟩ := hh₄.freevm_back h₀.alloc.nodup hpool fun x hx => by
          rw [hkeep₄ x (hx mem hmem₀), hout x (hx mem hmem₀)]
          exact c.keep x hx
        refine .inl ⟨0, vm', ?_, hkeep, .inl ⟨rfl, hperm, c.short hsz hi hlt le_rfl ?_⟩⟩
        swap
        · rw [hfree, show rest = [] from hfree₂]; rfl
        rw [hmp]
        simp only [bind, Except.bind, if_pos (show (-1 : Int) < 0 by decide), hk₄, hrun]
        rfl
      · have hmod : (i + pgsize) % 2 ^ 32 = i + pgsize := by simp only [pgsize, kernbase] at *; omega
        rw [hmp]
        simp only [bind, Except.bind, if_neg (show ¬ ((0 : Int) < 0) by decide), hmod]
        exact (ih (i + pgsize) vm₃ _ (by simp only [pgsize] at *; omega)
          (by simp only [pgroundup, pgsize, kernbase] at *; omega) (by simp only [pgsize] at *; omega)
          (c.step h₀ hi hik hfree he m)).imp_right fun ⟨hf, va, h₁, h₂, h₃, h₄⟩ => ⟨hf, va, h₁, by omega, h₃, h₄⟩

end Copy

/-- **`copyuvm`, for any whole address space.** For a directory that maps nothing at or above
`PGROUNDUP(sz)`, `copyuvm(pgdir, sz)` either returns, writing only bytes of free pages and leaving
the parent's address space as it was: 0 with the free list holding the same pages as before,
fewer than 65 and two for each page below `PGROUNDUP(sz)`, or a directory `d` holding a copy of
each of the parent's pages below `PGROUNDUP(sz)`; or it panics, "pte should exist" or "page not
present", and then the parent has no page present at some page-aligned address below `sz`. -/
theorem copyuvm_run {sz : Nat} (h : vm.Held ly pgdir) (hb : vm.Below pgdir sz) (hly : ly.Ok) :
    (∃ d vm', vm.copyuvm ly pgdir sz = .ok (d, vm') ∧
      vm'.Held ly pgdir ∧ (∀ G, vm'.Owns pgdir G ↔ vm.Owns pgdir G) ∧
      (∀ va, vm'.frame? pgdir va = vm.frame? pgdir va) ∧
      (∀ x, (∀ G ∈ vm.free, x < G ∨ G + pgsize ≤ x) → vm'.mem x = vm.mem x) ∧
      (d = 0 ∧ vm'.free.Perm vm.free ∧ vm.free.length < 65 + 2 * (pgroundup sz / pgsize) ∨
        ∃ L, Copied ly vm pgdir d (pgroundup sz) vm' L)) ∨
    (∃ f, vm.copyuvm ly pgdir sz = .error f ∧ copyuvmPanic f) ∧ ∃ va, va % pgsize = 0 ∧ va < sz ∧ vm.entry? pgdir va = none := by
  obtain ⟨d, vm₁, hrun₁, hkeep₁, hr₁⟩ := setupkvm_run h.alloc hly
  have hpar (vm' : Vm) (ha : vm'.Alloc ly) (hsub : ∀ G ∈ vm'.free, G ∈ vm.free)
      (hk : ∀ x, (∀ G ∈ vm.free, x < G ∨ G + pgsize ≤ x) → vm'.mem x = vm.mem x) :=
    h.of_outside ha hsub hk
  rcases hr₁ with ⟨rfl, hperm, hshort⟩ | ⟨L, b⟩
  · obtain ⟨hh, hown, hf⟩ := hpar vm₁ (h.alloc.of_perm hperm) (fun G hG => hperm.mem_iff.mp hG) hkeep₁
    exact .inl ⟨0, vm₁, by rw [copyuvm, hrun₁]; rfl, hh, hown, hf, hkeep₁, .inl ⟨rfl, hperm, by omega⟩⟩
  have hd0 : d ≠ 0 :=
    (Nat.zero_lt_of_lt (h.alloc.ok d (by rw [b.free_eq]; exact List.mem_cons_self d _)).2.1).ne'
  have hrun : vm.copyuvm ly pgdir sz = vm₁.copyuvmLoop ly pgdir sz d (2 ^ 20 + 1) 0 := by
    rw [copyuvm, hrun₁]
    simp only [bind, Except.bind, if_neg hd0]
    rfl
  rw [hrun]
  rcases copyuvmLoop_run h hb (2 ^ 20) 0 vm₁ L rfl (Nat.zero_le _)
    (by have := hb.1; simp only [pgroundup, pgsize, kernbase] at *; omega) (Copied.start hly b) with
    ⟨r, vm', hrun, hkeep, ⟨rfl, hperm, hshort⟩ | ⟨rfl, L', c⟩⟩ | ⟨hf, va, h₁, -, h₃, h₄⟩
  · obtain ⟨hh, hown, hf⟩ := hpar vm' (h.alloc.of_perm hperm) (fun G hG => hperm.mem_iff.mp hG) hkeep
    exact .inl ⟨0, vm', hrun, hh, hown, hf, hkeep, .inl ⟨rfl, hperm, hshort⟩⟩
  · obtain ⟨hh, hown, hf⟩ := hpar vm' c.held.alloc (fun G hG => (c.pool G).mp (.inr hG)) hkeep
    exact .inl ⟨_, vm', hrun, hh, hown, hf, hkeep, .inr ⟨L', c⟩⟩
  · exact .inr ⟨hf, va, h₁, h₃, h₄⟩

/-- **`copyuvm`.** For a parent whose whole address space maps exactly the pages below
`PGROUNDUP(sz)`, `copyuvm(pgdir, sz)` returns without a fault and writes only bytes of pages that
were free; the parent's address space stays whole, with the same pages and bytes. It returns 0
with the free list holding the same pages as before, or a child directory `d` taken off the free
list: a whole address space that maps exactly the pages below `PGROUNDUP(sz)`, whose pages and
the free pages are together exactly those that were free, whose kernel half is `kmap`'s, and
whose entry for each page below `PGROUNDUP(sz)` names a page holding the bytes of the parent's,
with the parent's flags. It returns 0 only when fewer pages were free than `setupkvm`'s 65 and two
for each page to copy. -/
theorem copyuvm_spec {sz : Nat} (h : vm.Held ly pgdir) (hu : vm.Uvm pgdir sz) (hly : ly.Ok) :
    ∃ d vm', vm.copyuvm ly pgdir sz = .ok (d, vm') ∧
      vm'.Held ly pgdir ∧ (∀ G, vm'.Owns pgdir G ↔ vm.Owns pgdir G) ∧
      (∀ va, vm'.frame? pgdir va = vm.frame? pgdir va) ∧
      (∀ x, (∀ G ∈ vm.free, x < G ∨ G + pgsize ≤ x) → vm'.mem x = vm.mem x) ∧
      (d = 0 ∧ vm'.free.Perm vm.free ∧ vm.free.length < 65 + 2 * (pgroundup sz / pgsize) ∨
        d ∈ vm.free ∧ vm'.Held ly d ∧ vm'.Uvm d sz ∧ (∀ G, G ∈ vm'.free ∨ vm'.Owns d G ↔ G ∈ vm.free) ∧
          (∀ va, kernbase ≤ va → va < 2 ^ 32 → vm'.entry? d va = kernelEntry? ly va) ∧
          ∀ va, va % pgsize = 0 → va < pgroundup sz → ∃ e F, vm.entry? pgdir va = some e ∧
            vm'.entry? d va = some (v2p F ||| pteFlags e ||| pteP) ∧
            ∀ j < pgsize, vm'.mem (F + j) = vm.mem (p2v (pteAddr e) + j)) := by
  rcases copyuvm_run h hu.below hly with ⟨d, vm', hrun, hh, hown, hf, hkeep, ⟨rfl, hshort⟩ | ⟨L, c⟩⟩ |
    ⟨-, va, hm, hlt, hva⟩
  · exact ⟨0, vm', hrun, hh, hown, hf, hkeep, .inl ⟨rfl, hshort⟩⟩
  · refine ⟨d, vm', hrun, hh, hown, hf, hkeep, .inr ⟨by rw [c.free_eq]; exact List.mem_cons_self d _, c.held,
      ⟨hu.1, fun va hm hva => ?_⟩, fun G => by rw [or_comm]; exact c.pool G, c.kernel, fun va hm hlt => ?_⟩⟩
    · by_cases hlt : va < pgroundup sz
      · obtain ⟨e, F, -, -, hF, -⟩ := c.copied va hm hlt
        rw [hF]
        exact iff_of_true rfl hlt
      · rw [c.above va hva (by omega)]
        exact iff_of_false (by simp) hlt
    · obtain ⟨e, F, he, hd', -, hb⟩ := c.copied va hm hlt
      exact ⟨e, F, he, hd', hb⟩
  · -- the parent's page at `va < sz` is present, since its pages below `PGROUNDUP(sz)` all are
    have hk : va < kernbase := by have := hu.1; omega
    have := (hu.2 va hm hk).mpr (by rw [lt_pgroundup_iff hm hu.1]; exact hlt)
    rw [frame?_eq_entry, hva] at this
    cases this

/-- The sample directory with the `n` pages after its own free. -/
def oneUserPageFree (n : Nat) : Vm :=
  { oneUserPage 0x80400000 0x80401000 0x80402000 with free := (freeRun 0x80403000 n).free }

theorem oneUserPageFree_held {n : Nat} (hn : n ≤ 1000) : (oneUserPageFree n).Held sampleLayout 0x80400000 := by
  have ha : (freeRun 0x80403000 n).Alloc sampleLayout :=
    freeRun_alloc (by decide) (by decide) (by decide) (by simp only [p2v, phystop, kernbase, pgsize]; omega)
  refine ⟨oneUserPage_held.space.congr (fun _ _ => rfl) (fun _ _ => rfl), ⟨ha.1, ha.2⟩, fun G hG ho => ?_⟩
  have := (oneUserPage_owns G).mp ho
  obtain ⟨k, -, rfl⟩ := List.mem_map.mp hG
  simp only [pgsize] at this
  omega

/-- With 67 pages free, `copyuvm` copies the sample's one user page. -/
theorem copyuvm_spec_oneUserPageFree :
    (oneUserPageFree 67).Held sampleLayout 0x80400000 ∧ (oneUserPageFree 67).Uvm 0x80400000 4096 ∧
      sampleLayout.Ok ∧
      ∃ d vm', (oneUserPageFree 67).copyuvm sampleLayout 0x80400000 4096 = .ok (d, vm') ∧
        vm'.Held sampleLayout 0x80400000 ∧ d ∈ (oneUserPageFree 67).free ∧ vm'.Held sampleLayout d ∧
        vm'.Uvm d 4096 ∧ ∃ e F, (oneUserPageFree 67).entry? 0x80400000 0 = some e ∧
          vm'.entry? d 0 = some (v2p F ||| pteFlags e ||| pteP) ∧
          ∀ j < pgsize, vm'.mem (F + j) = (oneUserPageFree 67).mem (p2v (pteAddr e) + j) := by
  have h := oneUserPageFree_held (n := 67) (by decide)
  have hu : (oneUserPageFree 67).Uvm 0x80400000 4096 := oneUserPage_sound.2
  have hly : sampleLayout.Ok := ⟨by decide, by decide, by decide⟩
  obtain ⟨d, vm', hrun, hh, -, -, -, ⟨-, -, hshort⟩ | ⟨hd, hd', hu', -, -, hcopy⟩⟩ := copyuvm_spec h hu hly
  · have hlen : (oneUserPageFree 67).free.length = 67 := length_freeRun _ _
    exact absurd hshort (by rw [hlen]; decide)
  · exact ⟨h, hu, hly, d, vm', hrun, hh, hd, hd', hu', hcopy 0 rfl (by decide)⟩

end Vm

end Xv6
