import Xv6.Mappages

/-!
# Address spaces and the pages they own

A page directory owns three kinds of pages: its own page, the page table of each present
directory entry, in the user half and in the kernel half alike (`setupkvm` allocates the kernel
half's tables for each directory), and the user pages its user half maps present. The kernel
half's pages are shared memory, owned by no directory.

`Vm.Space` is the directory as the kernel keeps it: the owned pages are distinct pages, each one
that `kfree` accepts. Over it, `freevm` frees exactly the pages the directory owns, each once,
and writes no byte outside them (`freevm_spec`).
-/

namespace Xv6

/-- Distinct pages are apart: a word inside one lies outside the other. -/
theorem page_apart {P Q x : Nat} (hP : P % pgsize = 0) (hQ : Q % pgsize = 0) (hne : P ≠ Q)
    (h₁ : Q ≤ x) (h₂ : x + 4 ≤ Q + pgsize) : P + pgsize ≤ x ∨ x + 4 ≤ P := by
  simp only [pgsize] at *; omega

theorem pgroundup_mod (sz : Nat) : pgroundup sz % pgsize = 0 := by
  simp only [pgroundup, pgsize]; omega

/-- A byte of one page lies outside every other page. -/
theorem page_out {G F x : Nat} (hG : G % pgsize = 0) (hF : F % pgsize = 0) (hne : G ≠ F) (h₁ : F ≤ x)
    (h₂ : x < F + pgsize) : x < G ∨ G + pgsize ≤ x := by
  simp only [pgsize] at *; omega

namespace Vm

variable (vm : Vm) (ly : Layout)

/-- `F` is a page that `pgdir` owns: the directory itself, one of its page tables, or a user
page it maps present. -/
def Owns (pgdir F : Nat) : Prop :=
  F = pgdir ∨ (∃ d < 1024, vm.table? pgdir d = some F) ∨ vm.MappedIn pgdir 0 kernbase F

/-- A whole address space: the directory and all its page tables are distinct pages that
`kfree` accepts; its user pages are too, apart from the directory and every table, and none is
physical page 0. -/
structure Space (pgdir : Nat) : Prop where
  dir_mod : pgdir % pgsize = 0
  dir_ok : kernbase ≤ pgdir ∧ ly.kend ≤ pgdir ∧ v2p pgdir < phystop
  table_ne : ∀ {d T}, d < 1024 → vm.table? pgdir d = some T → T ≠ pgdir
  table_inj : ∀ {d d' T}, d < 1024 → d' < 1024 → vm.table? pgdir d = some T →
    vm.table? pgdir d' = some T → d = d'
  table_ok : ∀ {d T}, d < 1024 → vm.table? pgdir d = some T → ly.kend ≤ T ∧ v2p T < phystop
  frame_ne : ∀ {va F}, va < kernbase → vm.frame? pgdir va = some F → F ≠ pgdir
  frame_ne_table : ∀ {va F d}, va < kernbase → d < 1024 → vm.frame? pgdir va = some F →
    vm.table? pgdir d ≠ some F
  frame_inj : ∀ {va va' F}, va < kernbase → va' < kernbase → vm.frame? pgdir va = some F →
    vm.frame? pgdir va' = some F → va / pgsize = va' / pgsize
  frame_ok : ∀ {va F}, va < kernbase → vm.frame? pgdir va = some F →
    ly.kend ≤ F ∧ v2p F < phystop ∧ v2p F ≠ 0

/-- The allocator as `kinit1` and `kinit2` leave it and `kfree` keeps it: the free pages are
distinct pages at or above `end`, above `KERNBASE` and below `P2V(PHYSTOP)`. -/
structure Alloc : Prop where
  nodup : vm.free.Nodup
  ok : ∀ f ∈ vm.free, f % pgsize = 0 ∧ kernbase < f ∧ ly.kend ≤ f ∧ v2p f < phystop

/-- An address space beside the allocator: no free page is one the directory owns. -/
structure Held (pgdir : Nat) : Prop where
  space : vm.Space ly pgdir
  alloc : vm.Alloc ly
  apart : ∀ f ∈ vm.free, ¬ vm.Owns pgdir f

/-- `F` is a page the allocator has handed out: a page `kfree` accepts, above `KERNBASE`,
neither free nor owned by the directory. -/
def Spare (pgdir F : Nat) : Prop :=
  F % pgsize = 0 ∧ kernbase < F ∧ ly.kend ≤ F ∧ v2p F < phystop ∧ F ∉ vm.free ∧ ¬ vm.Owns pgdir F

/-- Byte `x` lies outside the directory's page and outside each of its page tables: no write
there changes what the directory maps. -/
def OffTables (pgdir x : Nat) : Prop :=
  (x < pgdir ∨ pgdir + pgsize ≤ x) ∧ ∀ d < 1024, ∀ T, vm.table? pgdir d = some T → x < T ∨ T + pgsize ≤ x

/-- What an operation on the address space `pgdir` must keep for the address spaces beside it:
the address space whole, every page free or owned by it just as before, never both, and no byte
written outside the pages that were free or its own. -/
structure Moves (pgdir : Nat) (vm' : Vm) : Prop where
  held : vm'.Held ly pgdir
  pool : ∀ G, G ∈ vm'.free ∨ vm'.Owns pgdir G ↔ G ∈ vm.free ∨ vm.Owns pgdir G
  keep : ∀ x, (∀ G, G ∈ vm.free ∨ vm.Owns pgdir G → x < G ∨ G + pgsize ≤ x) → vm'.mem x = vm.mem x

variable {vm ly} {pgdir : Nat}

/-- The user half of an address space is sound. -/
theorem Space.sound (hs : vm.Space ly pgdir) : vm.Sound ly pgdir where
  dir_mod := hs.dir_mod
  table_ne hd := hs.table_ne (by omega)
  table_inj hd hd' := hs.table_inj (by omega) (by omega)
  frame_ne := hs.frame_ne
  frame_ne_table hv hd := hs.frame_ne_table hv (by omega)
  frame_inj := hs.frame_inj
  frame_ok := hs.frame_ok

/-- Writing bytes apart from the directory's page keeps its page tables. -/
theorem table?_of_agrees {vm' : Vm} (h : ∀ d < 1024, vm.Agrees vm' (pgdir + 4 * d) 4) (d : Nat)
    (hd : d < 1024) : vm'.table? pgdir d = vm.table? pgdir d :=
  vm.table?_congr (h d hd)

/-! ## `freevm` -/

theorem freevmLoop_succ (k i : Nat) :
    vm.freevmLoop ly pgdir (k + 1) i =
      match vm.table? pgdir i with
      | some T => vm.kfree ly T >>= fun vm => vm.freevmLoop ly pgdir k (i + 1)
      | none => vm.freevmLoop ly pgdir k (i + 1) := by
  unfold table?
  rw [freevmLoop]
  split_ifs <;> rfl

/-- **`freevm`'s loop over the directory entries.** From entry `i`, it frees the page table of
each present entry below `i + k`, each once, and writes only those pages. -/
theorem freevmLoop_frees (hs : vm.Space ly pgdir) (k : Nat) :
    ∀ (i : Nat) (vm₁ : Vm), i + k ≤ 1024 → (∀ d < 1024, vm₁.table? pgdir d = vm.table? pgdir d) →
      ∃ vm' Ts, vm₁.freevmLoop ly pgdir k i = .ok vm' ∧ vm'.free = Ts ++ vm₁.free ∧ Ts.Nodup ∧
        (∀ T, T ∈ Ts ↔ ∃ d, i ≤ d ∧ d < i + k ∧ vm.table? pgdir d = some T) ∧
        ∀ x, (∀ T ∈ Ts, x < T ∨ T + pgsize ≤ x) → vm'.mem x = vm₁.mem x := by
  induction k with
  | zero =>
    intro i vm₁ _ _
    exact ⟨vm₁, [], rfl, rfl, .nil, fun T => ⟨nofun, fun ⟨d, h₁, h₂, _⟩ => by omega⟩, fun _ _ => rfl⟩
  | succ k ih =>
    intro i vm₁ hk ht
    rw [freevmLoop_succ, ht i (by omega)]
    cases hT : vm.table? pgdir i with
    | none =>
      obtain ⟨vm', Ts, h, hfree, hnd, hmem, hkeep⟩ := ih (i + 1) vm₁ (by omega) ht
      refine ⟨vm', Ts, h, hfree, hnd, fun T => (hmem T).trans ⟨fun ⟨d, h₁, h₂, h₃⟩ => ⟨d, by omega, by omega, h₃⟩,
        fun ⟨d, h₁, h₂, h₃⟩ => ⟨d, Nat.lt_of_le_of_ne h₁ fun e => ?_, by omega, h₃⟩⟩, hkeep⟩
      rw [← e, hT] at h₃
      cases h₃
    | some T =>
      have hTm := vm.table?_mod hT
      obtain ⟨h₁, h₂⟩ := hs.table_ok (by omega) hT
      dsimp only
      rw [kfree_ok _ _ hTm h₁ h₂]
      have ht₂ (d) (hd : d < 1024) :
          ({ vm₁.memset T 1 pgsize with free := T :: vm₁.free } : Vm).table? pgdir d = vm.table? pgdir d :=
        (vm₁.table?_congr (vm₁.agrees_memset 1 (page_apart hTm hs.dir_mod (hs.table_ne (by omega) hT)
          (by omega) (by simp only [pgsize]; omega)))).trans (ht d hd)
      obtain ⟨vm', Ts, h, hfree, hnd, hmem, hkeep⟩ := ih (i + 1) _ (by omega) ht₂
      have hTs (T') (h : T' ∈ Ts) : T' ≠ T := by
        obtain ⟨d, h₁, h₂, h₃⟩ := (hmem T').mp h
        rintro rfl
        have := hs.table_inj (by omega) (by omega) h₃ hT
        omega
      refine ⟨vm', Ts ++ [T], h, by rw [hfree, List.append_assoc]; rfl,
        List.pairwise_append.mpr ⟨hnd, List.pairwise_singleton _ _, fun a ha b hb e => hTs a ha (e.trans (List.mem_singleton.mp hb))⟩,
        fun T' => ⟨fun h' => ?_, fun ⟨d, h₁, h₂, h₃⟩ => ?_⟩, fun x hx => ?_⟩
      · rcases List.mem_append.mp h' with h' | h'
        · obtain ⟨d, h₁, h₂, h₃⟩ := (hmem T').mp h'
          exact ⟨d, by omega, by omega, h₃⟩
        · exact ⟨i, le_rfl, by omega, by rw [List.mem_singleton.mp h']; exact hT⟩
      · rcases Nat.eq_or_lt_of_le h₁ with rfl | h₁
        · rw [hT] at h₃
          exact List.mem_append_right _ (List.mem_singleton.mpr (Option.some.inj h₃).symm)
        · exact List.mem_append_left _ ((hmem T').mpr ⟨d, h₁, by omega, h₃⟩)
      · rw [hkeep x fun T' h => hx T' (List.mem_append_left _ h)]
        have := hx T (List.mem_append_right _ (List.mem_singleton_self T))
        exact vm₁.agrees_memset 1 (m := 1) (by omega) x le_rfl (by omega)

/-- **`freevm`.** For a whole address space, `freevm` frees exactly the pages the directory owns,
each once: its user pages, the page tables of both halves and the directory itself. It writes no
byte outside them. -/
theorem freevm_spec (hs : vm.Space ly pgdir) :
    ∃ vm' L, vm.freevm ly pgdir = .ok vm' ∧ vm'.free = L ++ vm.free ∧ L.Nodup ∧
      (∀ F, F ∈ L ↔ vm.Owns pgdir F) ∧
      ∀ x, (∀ F ∈ L, x < F ∨ F + pgsize ≤ x) → vm'.mem x = vm.mem x := by
  have hsd := hs.sound
  have hk : kernbase ≤ 0 + 2 ^ 20 * pgsize := by simp only [kernbase, pgsize]; omega
  obtain ⟨vm₁, h₁, -, ht₁, -⟩ := deallocuvmLoop_spec (le_refl kernbase) (2 ^ 20) 0 vm hsd rfl hk
  obtain ⟨vm₁', L₁, h₁', hF⟩ := deallocuvmLoop_frees (le_refl kernbase) (2 ^ 20) 0 vm hsd rfl hk
  obtain rfl := Except.ok.inj (h₁.symm.trans h₁')
  obtain ⟨vm₂, Ts, h₂, hfree₂, hnd₂, hmem₂, hkeep₂⟩ := freevmLoop_frees hs 1024 0 vm₁ le_rfl ht₁
  obtain ⟨hk₁, hk₂, hk₃⟩ := hs.dir_ok
  have hTs (T) (h : T ∈ Ts) : ∃ d < 1024, vm.table? pgdir d = some T := by
    obtain ⟨d, -, h₁, h₂⟩ := (hmem₂ T).mp h
    exact ⟨d, h₁, h₂⟩
  have hL₁ (F) (h : F ∈ L₁) : ∃ va < kernbase, vm.frame? pgdir va = some F := by
    obtain ⟨va, -, -, h₁, h₂⟩ := (hF.mem_iff F).mp h
    exact ⟨va, h₁, h₂⟩
  have hrun : vm.freevm ly pgdir = .ok { vm₂.memset pgdir 1 pgsize with free := pgdir :: vm₂.free } := by
    rw [freevm, if_neg (by simp only [kernbase] at hk₁; omega), deallocuvm, if_neg (by decide), pageFuel,
      show pgroundup 0 = 0 from rfl, h₁]
    show (vm₁.freevmLoop ly pgdir 1024 0 >>= fun vm => vm.kfree ly pgdir) = _
    rw [h₂]
    exact kfree_ok _ _ hs.dir_mod hk₂ hk₃
  refine ⟨_, pgdir :: (Ts ++ L₁), hrun, by simp only [hfree₂, hF.free_eq, List.cons_append, List.append_assoc],
    ?_, fun F => ?_, fun x hx => ?_⟩
  · refine List.nodup_cons.mpr ⟨fun h => ?_, List.pairwise_append.mpr ⟨hnd₂, hF.nodup, fun T hT F hF' e => ?_⟩⟩
    · rcases List.mem_append.mp h with h | h
      · obtain ⟨d, hd, h⟩ := hTs pgdir h
        exact hs.table_ne hd h rfl
      · obtain ⟨va, hva, h⟩ := hL₁ pgdir h
        exact hs.frame_ne hva h rfl
    · obtain ⟨d, hd, hT'⟩ := hTs T hT
      obtain ⟨va, hva, hF''⟩ := hL₁ F hF'
      exact hs.frame_ne_table hva hd hF'' (e ▸ hT')
  · simp only [List.mem_cons, List.mem_append, hmem₂, hF.mem_iff, Owns, Nat.zero_le, true_and, Nat.zero_add]
  · have hx₀ := hx pgdir (List.mem_cons_self _ _)
    rw [(vm₂.agrees_memset (X := x) (m := 1) 1 (by omega)) x le_rfl (by omega)]
    rw [hkeep₂ x fun T h => hx T (List.mem_cons_of_mem _ (List.mem_append_left _ h))]
    refine hF.keep x (fun F h => hx F (List.mem_cons_of_mem _ (List.mem_append_right _ h))) ?_
    rintro ⟨va, T, -, -, -, -, hT, h₁, h₂⟩
    have hxT := hx T (List.mem_cons_of_mem _ (List.mem_append_left _ ((hmem₂ T).mpr ⟨_, Nat.zero_le _, pdx_lt va, hT⟩)))
    have := ptx_lt va
    simp only [pgsize] at hxT
    omega

/-- The sample directory of `Uvm.lean`, one page table and one user page, is a whole address
space. -/
theorem oneUserPage_space : (oneUserPage 0x80400000 0x80401000 0x80402000).Space sampleLayout 0x80400000 := by
  have ht {d T} (hd : d < 1024) (h : (oneUserPage 0x80400000 0x80401000 0x80402000).table? 0x80400000 d = some T) :
      d = 0 ∧ T = 0x80401000 := by
    rw [oneUserPage_table hd] at h
    split_ifs at h with h0
    · exact ⟨h0, (Option.some.inj h).symm⟩
  have hf {va F} (hva : va < kernbase) (h : (oneUserPage 0x80400000 0x80401000 0x80402000).frame? 0x80400000 va = some F) :
      va < 4096 ∧ F = 0x80402000 := by
    rw [oneUserPage_frame hva] at h
    split_ifs at h with h0
    · exact ⟨h0, (Option.some.inj h).symm⟩
  refine ⟨by decide, by decide, fun hd h => ?_, fun hd hd' h h' => ?_, fun hd h => ?_, fun hva h => ?_,
    fun hva hd h h' => ?_, fun hva hva' h h' => ?_, fun hva h => ?_⟩
  · rw [(ht hd h).2]; decide
  · rw [(ht hd h).1, (ht hd' h').1]
  · rw [(ht hd h).2]; decide
  · rw [(hf hva h).2]; decide
  · obtain ⟨-, rfl⟩ := hf hva h; have := (ht hd h').2; omega
  · have := (hf hva h).1; have := (hf hva' h').1; simp only [pgsize]; omega
  · rw [(hf hva h).2]; decide

/-- The sample beside an empty free list. -/
theorem oneUserPage_held : (oneUserPage 0x80400000 0x80401000 0x80402000).Held sampleLayout 0x80400000 :=
  ⟨oneUserPage_space, ⟨List.nodup_nil, fun _ h => absurd h (List.not_mem_nil _)⟩,
    fun _ h => absurd h (List.not_mem_nil _)⟩

/-- The pages the sample directory owns: itself, its one page table and its one user page. -/
theorem oneUserPage_owns (G : Nat) :
    (oneUserPage 0x80400000 0x80401000 0x80402000).Owns 0x80400000 G ↔
      G = 0x80400000 ∨ G = 0x80401000 ∨ G = 0x80402000 := by
  refine ⟨fun h => ?_, fun h => ?_⟩
  · rcases h with h | ⟨d, hd, hT⟩ | ⟨va, -, -, hva, hF⟩
    · exact .inl h
    · rw [oneUserPage_table hd] at hT
      split_ifs at hT
      exact .inr (.inl (Option.some.inj hT).symm)
    · rw [oneUserPage_frame hva] at hF
      split_ifs at hF
      exact .inr (.inr (Option.some.inj hF).symm)
  · rcases h with rfl | rfl | rfl
    · exact .inl rfl
    · exact .inr (.inl ⟨0, by decide, by rw [oneUserPage_table (by decide)]; rfl⟩)
    · exact .inr (.inr ⟨0, rfl, le_rfl, by decide, by rw [oneUserPage_frame (by decide)]; rfl⟩)

/-! ## Pages changing hands -/

/-- A user page present at any address is mapped at its page-aligned one. -/
theorem mappedIn_of_frame {va F : Nat} (hva : va < kernbase) (h : vm.frame? pgdir va = some F) :
    vm.MappedIn pgdir 0 kernbase F :=
  have hlt : pgrounddown va < kernbase := lt_of_le_of_lt (Nat.div_mul_le_self va pgsize) hva
  ⟨pgrounddown va, Nat.mul_mod_left _ _, Nat.zero_le _, hlt,
    by rwa [frame?_page hlt hva (by simp only [pgrounddown, pgsize]; omega)]⟩

theorem Held.fresh (h : vm.Held ly pgdir) : vm.Fresh pgdir where
  dir_mod := h.space.dir_mod
  table_ne := h.space.table_ne
  table_inj := h.space.table_inj
  free_nodup := h.alloc.nodup
  free_ok f hf := let ⟨h₁, h₂, _, h₃⟩ := h.alloc.ok f hf; ⟨h₁, h₂.le, h₃⟩
  free_ne f hf e := h.apart f hf (.inl e)
  free_not_table f hf d hd e := h.apart f hf (.inr (.inl ⟨d, hd, e⟩))

/-- What a directory owns is read off its page tables and its user pages. -/
theorem owns_congr {vm' : Vm} (ht : ∀ d < 1024, vm'.table? pgdir d = vm.table? pgdir d)
    (hf : ∀ va < kernbase, vm'.frame? pgdir va = vm.frame? pgdir va) (F : Nat) :
    vm'.Owns pgdir F ↔ vm.Owns pgdir F := by
  simp only [Owns, MappedIn]
  constructor
  · rintro (h | ⟨d, hd, h⟩ | ⟨va, h₁, h₂, h₃, h₄⟩)
    · exact .inl h
    · exact .inr (.inl ⟨d, hd, by rwa [ht d hd] at h⟩)
    · exact .inr (.inr ⟨va, h₁, h₂, h₃, by rwa [hf va h₃] at h₄⟩)
  · rintro (h | ⟨d, hd, h⟩ | ⟨va, h₁, h₂, h₃, h₄⟩)
    · exact .inl h
    · exact .inr (.inl ⟨d, hd, by rwa [ht d hd]⟩)
    · exact .inr (.inr ⟨va, h₁, h₂, h₃, by rwa [hf va h₃]⟩)

/-- A directory with the same page tables and fewer user pages is a whole address space. -/
theorem Space.mono {vm' : Vm} (hs : vm.Space ly pgdir) (ht : ∀ d < 1024, vm'.table? pgdir d = vm.table? pgdir d)
    (hf : ∀ {va F}, va < kernbase → vm'.frame? pgdir va = some F → vm.frame? pgdir va = some F) :
    vm'.Space ly pgdir where
  dir_mod := hs.dir_mod
  dir_ok := hs.dir_ok
  table_ne hd h := hs.table_ne hd (by rwa [ht _ hd] at h)
  table_inj hd hd' h h' := hs.table_inj hd hd' (by rwa [ht _ hd] at h) (by rwa [ht _ hd'] at h')
  table_ok hd h := hs.table_ok hd (by rwa [ht _ hd] at h)
  frame_ne hv h := hs.frame_ne hv (hf hv h)
  frame_ne_table hv hd h := by rw [ht _ hd]; exact hs.frame_ne_table hv hd (hf hv h)
  frame_inj hv hv' h h' := hs.frame_inj hv hv' (hf hv h) (hf hv' h')
  frame_ok hv h := hs.frame_ok hv (hf hv h)

theorem Space.congr {vm' : Vm} (hs : vm.Space ly pgdir) (ht : ∀ d < 1024, vm'.table? pgdir d = vm.table? pgdir d)
    (hf : ∀ va < kernbase, vm'.frame? pgdir va = vm.frame? pgdir va) : vm'.Space ly pgdir :=
  hs.mono ht fun hva h => hf _ hva ▸ h

/-- Memory that reads the same page tables and user pages, with the same free list. -/
theorem Held.congr {vm' : Vm} (h : vm.Held ly pgdir) (ht : ∀ d < 1024, vm'.table? pgdir d = vm.table? pgdir d)
    (hf : ∀ va < kernbase, vm'.frame? pgdir va = vm.frame? pgdir va) (hfree : vm'.free = vm.free) :
    vm'.Held ly pgdir :=
  ⟨h.space.congr ht hf, ⟨hfree ▸ h.alloc.nodup, fun f hf' => h.alloc.ok f (hfree ▸ hf')⟩,
    fun f hf' ho => h.apart f (hfree ▸ hf') ((owns_congr ht hf f).mp ho)⟩

/-- `kalloc` hands out the head of the free list: the rest stays apart from the directory, and
the page handed out is spare. -/
theorem Held.kalloc (h : vm.Held ly pgdir) {F : Nat} {rest : List Nat} (hfree : vm.free = F :: rest) :
    ({ vm with free := rest } : Vm).Held ly pgdir ∧ ({ vm with free := rest } : Vm).Spare ly pgdir F := by
  have hmem : F ∈ vm.free := hfree ▸ List.mem_cons_self F rest
  have hnd := hfree ▸ h.alloc.nodup
  have hrest (g) (hg : g ∈ rest) : g ∈ vm.free := hfree ▸ List.mem_cons_of_mem F hg
  obtain ⟨h₁, h₂, h₃, h₄⟩ := h.alloc.ok F hmem
  exact ⟨⟨h.space.congr (fun _ _ => rfl) fun _ _ => rfl,
    ⟨(List.nodup_cons.mp hnd).2, fun g hg => h.alloc.ok g (hrest g hg)⟩, fun g hg => h.apart g (hrest g hg)⟩,
    h₁, h₂, h₃, h₄, (List.nodup_cons.mp hnd).1, h.apart F hmem⟩

/-- `walkpgdir` takes the head `f` of the free list for the absent page table of entry `d₀`:
the directory now owns `f` as well, and maps the same user pages. -/
theorem Held.addTable (h : vm.Held ly pgdir) {vm₁ : Vm} {f d₀ : Nat} (hfree : vm.free = f :: vm₁.free)
    (hd₀ : d₀ < 1024) (hnone : vm.table? pgdir d₀ = none)
    (ht : ∀ d < 1024, vm₁.table? pgdir d = if d = d₀ then some f else vm.table? pgdir d)
    (hf : ∀ va < kernbase, vm₁.frame? pgdir va = vm.frame? pgdir va) :
    vm₁.Held ly pgdir ∧ ∀ G, vm₁.Owns pgdir G ↔ vm.Owns pgdir G ∨ G = f := by
  obtain ⟨-, hf₁, hf₂, hf₃, hf₄, hf₅, hf₆⟩ := h.kalloc hfree
  have hs := h.space
  have htab {d T} (hd : d < 1024) (hT : vm₁.table? pgdir d = some T) :
      d = d₀ ∧ T = f ∨ vm.table? pgdir d = some T := by
    rw [ht d hd] at hT
    split_ifs at hT with e
    · exact .inl ⟨e, (Option.some.inj hT).symm⟩
    · exact .inr hT
  have hown (G) : vm₁.Owns pgdir G ↔ vm.Owns pgdir G ∨ G = f := by
    simp only [Owns, MappedIn]
    constructor
    · rintro (e | ⟨d, hd, hT⟩ | ⟨va, h₁, h₂, h₃, h₄⟩)
      · exact .inl (.inl e)
      · rcases htab hd hT with ⟨-, rfl⟩ | hT
        · exact .inr rfl
        · exact .inl (.inr (.inl ⟨d, hd, hT⟩))
      · exact .inl (.inr (.inr ⟨va, h₁, h₂, h₃, by rwa [hf va h₃] at h₄⟩))
    · rintro ((e | ⟨d, hd, hT⟩ | ⟨va, h₁, h₂, h₃, h₄⟩) | rfl)
      · exact .inl e
      · refine .inr (.inl ⟨d, hd, ?_⟩)
        rw [ht d hd, if_neg fun e => by rw [e, hnone] at hT; cases hT]
        exact hT
      · exact .inr (.inr ⟨va, h₁, h₂, h₃, by rwa [hf va h₃]⟩)
      · exact .inr (.inl ⟨d₀, hd₀, by rw [ht d₀ hd₀, if_pos rfl]⟩)
  have hnf (T) (hT : T = f) : ¬ vm.Owns pgdir T := hT ▸ hf₆
  refine ⟨⟨⟨hs.dir_mod, hs.dir_ok, fun hd hT => ?_, fun hd hd' hT hT' => ?_, fun hd hT => ?_,
    fun hv hF => hs.frame_ne hv (by rwa [hf _ hv] at hF), fun hv hd hF hT => ?_,
    fun hv hv' hF hF' => hs.frame_inj hv hv' (by rwa [hf _ hv] at hF) (by rwa [hf _ hv'] at hF'),
    fun hv hF => hs.frame_ok hv (by rwa [hf _ hv] at hF)⟩,
    ⟨(List.nodup_cons.mp (hfree ▸ h.alloc.nodup)).2, fun g hg => h.alloc.ok g (hfree ▸ List.mem_cons_of_mem f hg)⟩,
    fun g hg ho => ?_⟩, hown⟩
  · rcases htab hd hT with ⟨-, rfl⟩ | hT
    · exact fun e => hf₆ (.inl e)
    · exact hs.table_ne hd hT
  · rcases htab hd hT with ⟨rfl, rfl⟩ | hT <;> rcases htab hd' hT' with ⟨rfl, e⟩ | hT'
    · rfl
    · exact absurd (.inr (.inl ⟨_, hd', hT'⟩)) hf₆
    · exact absurd (.inr (.inl ⟨_, hd, e ▸ hT⟩)) hf₆
    · exact hs.table_inj hd hd' hT hT'
  · rcases htab hd hT with ⟨-, rfl⟩ | hT
    · exact ⟨hf₃, hf₄⟩
    · exact hs.table_ok hd hT
  · rw [hf _ hv] at hF
    rcases htab hd hT with ⟨-, rfl⟩ | hT
    · exact hf₆ (.inr (.inr (mappedIn_of_frame hv hF)))
    · exact hs.frame_ne_table hv hd hF hT
  · rcases (hown g).mp ho with ho | rfl
    · exact h.apart g (hfree ▸ List.mem_cons_of_mem f hg) ho
    · exact hf₅ hg

/-- `mappages` enters the spare page `F` at the user page of `va`, which was not present: the
directory now owns `F` as well, with the same page tables. -/
theorem Held.addFrame (h : vm.Held ly pgdir) {vm₁ : Vm} {F va : Nat} (hF : vm.Spare ly pgdir F)
    (hva : va < kernbase) (hnone : vm.frame? pgdir va = none) (hfree : vm₁.free = vm.free)
    (ht : ∀ d < 1024, vm₁.table? pgdir d = vm.table? pgdir d)
    (hf : ∀ a < kernbase, vm₁.frame? pgdir a = if a / pgsize = va / pgsize then some F else vm.frame? pgdir a) :
    vm₁.Held ly pgdir ∧ ∀ G, vm₁.Owns pgdir G ↔ vm.Owns pgdir G ∨ G = F := by
  obtain ⟨hF₁, hF₂, hF₃, hF₄, hF₅, hF₆⟩ := hF
  have hs := h.space
  have hfr {a G} (ha : a < kernbase) (hG : vm₁.frame? pgdir a = some G) :
      a / pgsize = va / pgsize ∧ G = F ∨ vm.frame? pgdir a = some G := by
    rw [hf a ha] at hG
    split_ifs at hG with e
    · exact .inl ⟨e, (Option.some.inj hG).symm⟩
    · exact .inr hG
  have hown (G) : vm₁.Owns pgdir G ↔ vm.Owns pgdir G ∨ G = F := by
    simp only [Owns]
    constructor
    · rintro (e | ⟨d, hd, hT⟩ | ⟨a, -, -, ha, hG⟩)
      · exact .inl (.inl e)
      · exact .inl (.inr (.inl ⟨d, hd, by rwa [ht d hd] at hT⟩))
      · rcases hfr ha hG with ⟨-, rfl⟩ | hG
        · exact .inr rfl
        · exact .inl (.inr (.inr (mappedIn_of_frame ha hG)))
    · rintro ((e | ⟨d, hd, hT⟩ | ⟨a, h₁, h₂, ha, hG⟩) | rfl)
      · exact .inl e
      · exact .inr (.inl ⟨d, hd, by rwa [ht d hd]⟩)
      · refine .inr (.inr ⟨a, h₁, h₂, ha, ?_⟩)
        rw [hf a ha, if_neg fun e => by rw [frame?_page ha hva e, hnone] at hG; cases hG]
        exact hG
      · refine .inr (.inr (mappedIn_of_frame hva ?_))
        rw [hf va hva, if_pos rfl]
  refine ⟨⟨⟨hs.dir_mod, hs.dir_ok, fun hd hT => hs.table_ne hd (by rwa [ht _ hd] at hT),
    fun hd hd' hT hT' => hs.table_inj hd hd' (by rwa [ht _ hd] at hT) (by rwa [ht _ hd'] at hT'),
    fun hd hT => hs.table_ok hd (by rwa [ht _ hd] at hT), fun hv hG => ?_, fun hv hd hG => ?_,
    fun hv hv' hG hG' => ?_, fun hv hG => ?_⟩,
    ⟨hfree ▸ h.alloc.nodup, fun g hg => h.alloc.ok g (hfree ▸ hg)⟩, fun g hg ho => ?_⟩, hown⟩
  · rcases hfr hv hG with ⟨-, rfl⟩ | hG
    · exact fun e => hF₆ (.inl e)
    · exact hs.frame_ne hv hG
  · rw [ht _ hd]
    rcases hfr hv hG with ⟨-, rfl⟩ | hG
    · exact fun e => hF₆ (.inr (.inl ⟨_, hd, e⟩))
    · exact hs.frame_ne_table hv hd hG
  · rcases hfr hv hG with ⟨e, rfl⟩ | hG <;> rcases hfr hv' hG' with ⟨e', e''⟩ | hG'
    · exact e.trans e'.symm
    · exact absurd (.inr (.inr (mappedIn_of_frame hv' hG'))) hF₆
    · exact absurd (.inr (.inr (mappedIn_of_frame hv (e'' ▸ hG)))) hF₆
    · exact hs.frame_inj hv hv' hG hG'
  · rcases hfr hv hG with ⟨-, rfl⟩ | hG
    · exact ⟨hF₃, hF₄, by simp only [v2p]; omega⟩
    · exact hs.frame_ok hv hG
  · rcases (hown g).mp ho with ho | rfl
    · exact h.apart g (hfree ▸ hg) ho
    · exact hF₅ (hfree ▸ hg)

/-- Memory that differs from `vm` only outside the directory's page and its page tables reads
the same page tables, the same entries and the same user pages. -/
theorem reads_of_keep {vm' : Vm} (h : ∀ x, ¬ vm.OffTables pgdir x → vm'.mem x = vm.mem x) :
    (∀ d < 1024, vm'.table? pgdir d = vm.table? pgdir d) ∧ (∀ va, vm'.pte? pgdir va = vm.pte? pgdir va) ∧
      ∀ va, vm'.frame? pgdir va = vm.frame? pgdir va := by
  have hp : pgsize = 4096 := rfl
  have hdir (d) (hd : d < 1024) : vm.Agrees vm' (pgdir + 4 * d) 4 := fun x h₁ h₂ =>
    h x fun ho => by have := ho.1; omega
  have htab (va T) (hT : vm.table? pgdir (pdx va) = some T) : vm.Agrees vm' (T + 4 * ptx va) 4 :=
    fun x h₁ h₂ => h x fun ho => by have := ptx_lt va; have := ho.2 _ (pdx_lt va) T hT; omega
  exact ⟨fun d hd => vm.table?_congr (hdir d hd), fun va => pte?_congr (hdir _ (pdx_lt va)) (htab va),
    fun va => vm.frame?_congr (hdir _ (pdx_lt va)) (htab va)⟩

/-- A page the directory does not own lies apart from every byte of the directory and its
tables. -/
theorem Space.apart_of_not_owns (hs : vm.Space ly pgdir) {G x : Nat} (hG : G % pgsize = 0)
    (hn : ¬ vm.Owns pgdir G) (hx : ¬ vm.OffTables pgdir x) : x < G ∨ G + pgsize ≤ x := by
  have := hs.dir_mod
  by_contra hc
  refine hx ⟨?_, fun d hd T hT => ?_⟩
  · by_contra hc'
    exact hn (.inl (by simp only [pgsize] at *; omega))
  · have := vm.table?_mod hT
    by_contra hc'
    exact hn (.inr (.inl ⟨d, hd, by rwa [show G = T by simp only [pgsize] at *; omega]⟩))

/-- `kfree` of a page the allocator handed out and the directory does not own keeps the
address space whole: the page joins the free list and only its bytes change. -/
theorem Held.kfree (h : vm.Held ly pgdir) {F : Nat} (hF : vm.Spare ly pgdir F) :
    ∃ vm', vm.kfree ly F = .ok vm' ∧ vm'.Held ly pgdir ∧ vm'.free = F :: vm.free ∧
      (∀ G, vm'.Owns pgdir G ↔ vm.Owns pgdir G) ∧ (∀ va, vm'.frame? pgdir va = vm.frame? pgdir va) ∧
      ∀ x, (x < F ∨ F + pgsize ≤ x) → vm'.mem x = vm.mem x := by
  obtain ⟨hF₁, hF₂, hF₃, hF₄, hF₅, hF₆⟩ := hF
  have hkeep (x) (hx : x < F ∨ F + pgsize ≤ x) :
      ({ vm.memset F 1 pgsize with free := F :: vm.free } : Vm).mem x = vm.mem x :=
    vm.agrees_memset (X := x) (m := 1) 1 (by omega) x le_rfl (by omega)
  obtain ⟨ht, -, hf⟩ := reads_of_keep fun x hx => hkeep x (h.space.apart_of_not_owns hF₁ hF₆ hx)
  have hown := owns_congr ht fun va _ => hf va
  refine ⟨_, kfree_ok _ _ hF₁ hF₃ hF₄, ⟨h.space.congr ht fun va _ => hf va,
    ⟨List.nodup_cons.mpr ⟨hF₅, h.alloc.nodup⟩, fun g hg => ?_⟩, fun g hg => ?_⟩, rfl, hown, hf, hkeep⟩
  · rcases List.mem_cons.mp hg with rfl | hg
    exacts [⟨hF₁, hF₂, hF₃, hF₄⟩, h.alloc.ok g hg]
  · rw [hown]
    rcases List.mem_cons.mp hg with rfl | hg
    exacts [hF₆, h.apart g hg]

/-- **Shrinking a whole address space.** Below `KERNBASE`, `deallocuvm` moves exactly the user
pages mapped in `[PGROUNDUP(newsz), oldsz)` from the directory to the free list, once each,
keeps the page tables, and writes no byte outside those pages, the directory and its tables. -/
theorem Held.dealloc (h : vm.Held ly pgdir) {oldsz newsz : Nat} (hold : oldsz ≤ kernbase) (hlt : newsz < oldsz) :
    ∃ vm' L, vm.deallocuvm ly pgdir oldsz newsz = .ok (newsz, vm') ∧ vm'.Held ly pgdir ∧
      vm'.free = L ++ vm.free ∧ (∀ G, G ∈ L ↔ vm.MappedIn pgdir (pgroundup newsz) oldsz G) ∧
      (∀ G, vm'.Owns pgdir G ↔ vm.Owns pgdir G ∧ G ∉ L) ∧
      (∀ d < 1024, vm'.table? pgdir d = vm.table? pgdir d) ∧
      (∀ va, va % pgsize = 0 → va < kernbase →
        vm'.frame? pgdir va = if pgroundup newsz ≤ va ∧ va < oldsz then none else vm.frame? pgdir va) ∧
      ∀ x, vm.OffTables pgdir x → (∀ G ∈ L, x < G ∨ G + pgsize ≤ x) → vm'.mem x = vm.mem x := by
  have hs := h.space
  have h₁ := pgroundup_mod newsz
  have h₂ : oldsz ≤ pgroundup newsz + 2 ^ 20 * pgsize := by simp only [pgsize, kernbase] at *; omega
  obtain ⟨vm₁, hrun₁, -, ht, hf⟩ := deallocuvmLoop_spec hold _ _ vm hs.sound h₁ h₂
  obtain ⟨vm', L, hrun, ⟨hfree, hnd, hmem, -, hkeep⟩⟩ := deallocuvmLoop_frees hold _ _ vm hs.sound h₁ h₂
  obtain rfl := Except.ok.inj (hrun₁.symm.trans hrun)
  -- a page of `L` is a user page mapped in the range, and no other mapping names it
  have hL (G) (hG : G ∈ L) : vm.MappedIn pgdir 0 kernbase G ∧ G ∉ vm.free := by
    obtain ⟨va, hm, -, hva, hF⟩ := (hmem G).mp hG
    have hF' : vm.MappedIn pgdir 0 kernbase G := ⟨va, hm, Nat.zero_le _, by omega, hF⟩
    exact ⟨hF', fun hf' => h.apart G hf' (.inr (.inr hF'))⟩
  have hown (G) : vm₁.Owns pgdir G ↔ vm.Owns pgdir G ∧ G ∉ L := by
    simp only [Owns]
    constructor
    · rintro (rfl | ⟨d, hd, hT⟩ | ⟨va, hm, -, hva, hF⟩)
      · refine ⟨.inl rfl, fun hG => ?_⟩
        obtain ⟨va, -, -, hva, hF⟩ := (hL _ hG).1
        exact hs.frame_ne hva hF rfl
      · rw [ht d hd] at hT
        refine ⟨.inr (.inl ⟨d, hd, hT⟩), fun hG => ?_⟩
        obtain ⟨va, -, -, hva, hF⟩ := (hL _ hG).1
        exact hs.frame_ne_table hva hd hF hT
      · rw [hf va hm hva] at hF
        split_ifs at hF with hin
        refine ⟨.inr (.inr ⟨va, hm, Nat.zero_le _, hva, hF⟩), fun hG => hin ?_⟩
        obtain ⟨va', hm', h₁', h₂', hF'⟩ := (hmem G).mp hG
        have := hs.frame_inj hva (by omega) hF hF'
        simp only [pgsize] at *; omega
    · rintro ⟨(rfl | ⟨d, hd, hT⟩ | ⟨va, hm, -, hva, hF⟩), hG⟩
      · exact .inl rfl
      · exact .inr (.inl ⟨d, hd, by rw [ht d hd]; exact hT⟩)
      · refine .inr (.inr ⟨va, hm, Nat.zero_le _, hva, ?_⟩)
        rw [hf va hm hva, if_neg fun hin => hG ((hmem G).mpr ⟨va, hm, hin.1, hin.2, hF⟩)]
        exact hF
  have hf' {va F} (hva : va < kernbase) (hF : vm₁.frame? pgdir va = some F) : vm.frame? pgdir va = some F := by
    have hd : pgrounddown va < kernbase := lt_of_le_of_lt (Nat.div_mul_le_self va pgsize) hva
    have hp : va / pgsize = pgrounddown va / pgsize := by simp only [pgrounddown, pgsize]; omega
    rw [frame?_page hva hd hp] at hF ⊢
    rw [hf _ (pgrounddown_mod va) hd] at hF
    split_ifs at hF
    exact hF
  refine ⟨vm₁, L, by rw [deallocuvm, if_neg (by omega), pageFuel, hrun]; rfl,
    ⟨hs.mono ht hf', ⟨?_, fun g hg => ?_⟩, fun g hg ho => ?_⟩, hfree, hmem, hown, ht, hf,
    fun x hx hxL => hkeep x hxL ?_⟩
  · rw [hfree]
    exact List.pairwise_append.mpr ⟨hnd, h.alloc.nodup, fun G hG G' hG' e => (hL G hG).2 (e ▸ hG')⟩
  · rw [hfree] at hg
    rcases List.mem_append.mp hg with hg | hg
    · obtain ⟨va, -, -, hva, hF⟩ := (hL g hg).1
      obtain ⟨h₁, h₂, h₃⟩ := hs.frame_ok hva hF
      exact ⟨vm.frame?_mod hF, by simp only [v2p] at h₃; omega, h₁, h₂⟩
    · exact h.alloc.ok g hg
  · rw [hfree] at hg
    obtain ⟨ho, hgL⟩ := (hown g).mp ho
    rcases List.mem_append.mp hg with hg | hg
    exacts [hgL hg, h.apart g hg ho]
  · rintro ⟨va, T, -, -, -, -, hT, h₁, h₂⟩
    have := ptx_lt va
    have := hx.2 _ (pdx_lt va) T hT
    simp only [pgsize] at this; omega

/-- Writes apart from the directory and its page tables keep the address space as it is. -/
theorem Held.of_keep {vm' : Vm} (h : vm.Held ly pgdir) (hfree : vm'.free = vm.free)
    (hk : ∀ x, ¬ vm.OffTables pgdir x → vm'.mem x = vm.mem x) :
    vm'.Held ly pgdir ∧ (∀ G, vm'.Owns pgdir G ↔ vm.Owns pgdir G) ∧
      (∀ d < 1024, vm'.table? pgdir d = vm.table? pgdir d) ∧ (∀ va, vm'.pte? pgdir va = vm.pte? pgdir va) ∧
      ∀ va, vm'.frame? pgdir va = vm.frame? pgdir va :=
  have ⟨ht, hp, hf⟩ := reads_of_keep hk
  ⟨h.congr ht (fun va _ => hf va) hfree, owns_congr ht (fun va _ => hf va), ht, hp, hf⟩

/-- A user page lies outside the directory's page and its page tables. -/
theorem Space.offTables_of_frame (hs : vm.Space ly pgdir) {va F x : Nat} (hva : va < kernbase)
    (hF : vm.frame? pgdir va = some F) (h₁ : F ≤ x) (h₂ : x < F + pgsize) : vm.OffTables pgdir x := by
  have := vm.frame?_mod hF
  have := hs.dir_mod
  have := hs.frame_ne hva hF
  refine ⟨by simp only [pgsize] at *; omega, fun d hd T hT => ?_⟩
  have := vm.table?_mod hT
  have : T ≠ F := fun e => hs.frame_ne_table hva hd hF (e ▸ hT)
  simp only [pgsize] at *; omega

/-- Writes inside a spare page keep the address space as it is, and the page spare. -/
theorem Held.write_spare {vm' : Vm} (h : vm.Held ly pgdir) {F : Nat} (hF : vm.Spare ly pgdir F)
    (hfree : vm'.free = vm.free) (hk : ∀ x, (x < F ∨ F + pgsize ≤ x) → vm'.mem x = vm.mem x) :
    vm'.Held ly pgdir ∧ vm'.Spare ly pgdir F ∧ (∀ G, vm'.Owns pgdir G ↔ vm.Owns pgdir G) ∧
      (∀ d < 1024, vm'.table? pgdir d = vm.table? pgdir d) ∧ (∀ va, vm'.pte? pgdir va = vm.pte? pgdir va) ∧
      ∀ va, vm'.frame? pgdir va = vm.frame? pgdir va := by
  obtain ⟨hF₁, hF₂, hF₃, hF₄, hF₅, hF₆⟩ := hF
  obtain ⟨hh, hown, ht, hp, hf⟩ := h.of_keep hfree fun x hx => hk x (h.space.apart_of_not_owns hF₁ hF₆ hx)
  exact ⟨hh, ⟨hF₁, hF₂, hF₃, hF₄, hfree ▸ hF₅, fun ho => hF₆ ((hown F).mp ho)⟩, hown, ht, hp, hf⟩

/-- A byte outside every page the directory owns lies outside the directory and its tables. -/
theorem offTables_of_outside {x : Nat} (hx : ∀ G, vm.Owns pgdir G → x < G ∨ G + pgsize ≤ x) :
    vm.OffTables pgdir x :=
  ⟨hx _ (.inl rfl), fun d hd T hT => hx T (.inr (.inl ⟨d, hd, hT⟩))⟩

/-- Moving the pages `L`, all owned, from the directory to the free list keeps every page free
or owned. -/
theorem pool_of_free {vm' : Vm} {L : List Nat} (hfree : vm'.free = L ++ vm.free)
    (hown : ∀ G, vm'.Owns pgdir G ↔ vm.Owns pgdir G ∧ G ∉ L) (hL : ∀ G ∈ L, vm.Owns pgdir G) (G : Nat) :
    G ∈ vm'.free ∨ vm'.Owns pgdir G ↔ G ∈ vm.free ∨ vm.Owns pgdir G := by
  rw [hfree, List.mem_append, hown]
  by_cases hG : G ∈ L
  · simp only [hG, hL G hG, true_or, or_true]
  · simp only [hG, false_or, not_false_eq_true, and_true]

/-- The half of `Uvm` that every operation keeps: `sz < KERNBASE`, and no user page is mapped at
or above `PGROUNDUP(sz)`. -/
def Below (pgdir sz : Nat) : Prop :=
  sz < kernbase ∧ ∀ va, va < kernbase → pgroundup sz ≤ va → vm.frame? pgdir va = none

theorem Below.lt_of_frame {sz va F : Nat} (hb : vm.Below pgdir sz) (hva : va < kernbase)
    (hF : vm.frame? pgdir va = some F) : va < pgroundup sz := by
  by_contra h
  rw [hb.2 va hva (by omega)] at hF
  cases hF

theorem Uvm.below {sz : Nat} (hu : vm.Uvm pgdir sz) : vm.Below pgdir sz := by
  refine ⟨hu.1, fun va hva h => ?_⟩
  have hd : pgrounddown va < kernbase := lt_of_le_of_lt (Nat.div_mul_le_self va pgsize) hva
  have hd' : ¬ pgrounddown va < pgroundup sz := by
    have := pgroundup_mod sz
    simp only [pgrounddown, pgsize] at *; omega
  rw [frame?_page hva hd (by simp only [pgrounddown, pgsize]; omega)]
  exact Option.not_isSome_iff_eq_none.mp fun e => hd' ((hu.2 _ (pgrounddown_mod va) hd).mp e)

theorem Moves.refl (h : vm.Held ly pgdir) : vm.Moves ly pgdir vm := ⟨h, fun _ => Iff.rfl, fun _ _ => rfl⟩

/-- Moving owned pages `L` to the free list and writing only the directory, its tables and `L`
keeps the contract of `Moves`. -/
theorem moves_of_free {vm' : Vm} {L : List Nat} (h' : vm'.Held ly pgdir) (hfree : vm'.free = L ++ vm.free)
    (hown : ∀ G, vm'.Owns pgdir G ↔ vm.Owns pgdir G ∧ G ∉ L) (hL : ∀ G ∈ L, vm.Owns pgdir G)
    (hkeep : ∀ x, vm.OffTables pgdir x → (∀ G ∈ L, x < G ∨ G + pgsize ≤ x) → vm'.mem x = vm.mem x) :
    vm.Moves ly pgdir vm' :=
  ⟨h', pool_of_free hfree hown hL, fun x hx =>
    hkeep x (offTables_of_outside fun G hG => hx G (.inr hG)) fun G hG => hx G (.inr (hL G hG))⟩

theorem Uvm.congr {vm' : Vm} {sz : Nat} (hu : vm.Uvm pgdir sz)
    (hf : ∀ va < kernbase, vm'.frame? pgdir va = vm.frame? pgdir va) : vm'.Uvm pgdir sz :=
  ⟨hu.1, fun va hm hva => by rw [hf va hva]; exact hu.2 va hm hva⟩

theorem Below.congr {vm' : Vm} {sz : Nat} (hb : vm.Below pgdir sz)
    (hf : ∀ va < kernbase, vm'.frame? pgdir va = vm.frame? pgdir va) : vm'.Below pgdir sz :=
  ⟨hb.1, fun va hva h => by rw [hf va hva]; exact hb.2 va hva h⟩

end Vm

end Xv6
