import Xv6.Uvm

/-!
# Mapping a range: `mappages`

`mappages(pgdir, va, size, pa, perm)` walks the pages from `PGROUNDDOWN(va)` to
`PGROUNDDOWN(va + size - 1)`, allocating each missing page table with `walkpgdir`, and sets each
page's entry to `pa | perm | PTE_P`, `pa` advancing a page at a time.

It relies on the tables it finds being distinct pages apart from the directory, and on `kalloc`
handing it pages apart from both (`Vm.Fresh`). Then each entry it writes is the one the walk of
its own address reads and no other, and the loop either maps every page or stops with -1 when the
free list runs out, after a prefix of the pages (`mappages_spec`). When the allocator can hand out
the directory's own page, the first table `walkpgdir` allocates is the directory itself, and
`mappages` panics with `remap` though no entry was present (`mappages_remap_own_dir`).
-/

namespace Xv6

/-- `n`, the pages from `PGROUNDDOWN(va)` to `PGROUNDDOWN(va + size - 1)`. -/
def npages (va size : Nat) : Nat := (pgrounddown (va + size - 1) - pgrounddown va) / pgsize + 1

/-- A page-aligned address or'ed with flags below the page size is their sum. -/
theorem or_low {x y : Nat} (hx : x % 4096 = 0) (hy : y < 4096) : x ||| y = x + y := by
  obtain ⟨q, rfl⟩ : ∃ q, x = 2 ^ 12 * q := ⟨x / 4096, by omega⟩
  apply Nat.eq_of_testBit_eq
  intro i
  rw [Nat.testBit_or, Nat.testBit_mul_pow_two_add _ (by omega), Nat.testBit_mul_pow_two]
  by_cases hi : i < 12
  · simp [hi]
  · have : y < 2 ^ i :=
      lt_of_lt_of_le (show y < 2 ^ 12 by omega) (Nat.pow_le_pow_right (by decide) (by omega))
    simp [hi, Nat.testBit_lt_two_pow this]
    omega

/-- Below 2^32, an address's page is its directory and table indices. -/
theorem page_eq_iff_idx {va va' : Nat} (h : va < 2 ^ 32) (h' : va' < 2 ^ 32) :
    va / pgsize = va' / pgsize ↔ pdx va = pdx va' ∧ ptx va = ptx va' := by
  simp only [pdx_eq, ptx_eq, pgsize]; omega

namespace Vm

variable (vm : Vm)

/-- The entry the walk of `va` reads, when its page table is present. -/
def pte? (pgdir va : Nat) : Option Nat :=
  (vm.table? pgdir (pdx va)).map fun T => vm.rd32 (T + 4 * ptx va)

/-- The directory and the allocator as `mappages` needs them: the directory's page tables are
distinct pages apart from it, and the free pages are distinct kernel pages below
`P2V(PHYSTOP)`, apart from the directory and its tables. -/
structure Fresh (pgdir : Nat) : Prop where
  dir_mod : pgdir % pgsize = 0
  table_ne : ∀ {d T}, d < 1024 → vm.table? pgdir d = some T → T ≠ pgdir
  table_inj : ∀ {d d' T}, d < 1024 → d' < 1024 → vm.table? pgdir d = some T →
    vm.table? pgdir d' = some T → d = d'
  free_nodup : vm.free.Nodup
  free_ok : ∀ f ∈ vm.free, f % pgsize = 0 ∧ kernbase ≤ f ∧ v2p f < phystop
  free_ne : ∀ f ∈ vm.free, f ≠ pgdir
  free_not_table : ∀ f ∈ vm.free, ∀ d < 1024, vm.table? pgdir d ≠ some f

/-- The first `j` of the `n` pages from `a` are mapped onto `pa` onward with `perm`, and the
others are not present. -/
def Mapped (pgdir perm a pa n j : Nat) : Prop :=
  (∀ k < j, vm.pte? pgdir (a + k * pgsize) =
      some (((pa + k * pgsize) % 2 ^ 32 ||| perm ||| pteP) % 2 ^ 32)) ∧
    ∀ k, j ≤ k → k < n → ∀ e, vm.pte? pgdir (a + k * pgsize) = some e → e &&& pteP = 0

/-- `walkpgdir`'s new page table `f` for directory entry `d`, taken from the free list, whose
rest is `rest`. -/
def newTable (pgdir d f : Nat) (rest : List Nat) : Vm :=
  ({ vm with free := rest }.memset f 0 pgsize).wr32 (pgdir + 4 * d) (v2p f ||| pteP ||| pteW ||| pteU)

/-! ## `walkpgdir` with `alloc` set -/

theorem walkpgdir_present {pgdir va T : Nat} (hT : vm.table? pgdir (pdx va) = some T) (alloc : Bool) :
    vm.walkpgdir pgdir va alloc = (T + 4 * ptx va, vm) := by
  unfold table? at hT
  unfold walkpgdir
  split at hT
  · cases hT; rw [if_pos ‹_›]
  · cases hT

theorem walkpgdir_alloc {pgdir va f : Nat} {rest : List Nat} (hT : vm.table? pgdir (pdx va) = none)
    (hfree : vm.free = f :: rest) (hf : f ≠ 0) :
    vm.walkpgdir pgdir va true = (f + 4 * ptx va, vm.newTable pgdir (pdx va) f rest) := by
  unfold table? at hT
  unfold walkpgdir kalloc
  split at hT
  · cases hT
  · rw [if_neg ‹_›, hfree]
    simp only [Bool.not_true, Bool.false_eq_true, if_false, if_neg hf]
    rfl

theorem walkpgdir_oom {pgdir va : Nat} (hT : vm.table? pgdir (pdx va) = none) (hfree : vm.free = []) :
    vm.walkpgdir pgdir va true = (0, vm) := by
  unfold table? at hT
  unfold walkpgdir kalloc
  split at hT
  · cases hT
  · rw [if_neg ‹_›, hfree]
    simp only [Bool.not_true, Bool.false_eq_true, if_false, if_pos]

/-! ## Writes apart from a walk -/

variable {vm} {pgdir : Nat}

theorem pte?_congr {vm' : Vm} {va : Nat} (hdir : vm.Agrees vm' (pgdir + 4 * pdx va) 4)
    (htab : ∀ T, vm.table? pgdir (pdx va) = some T → vm.Agrees vm' (T + 4 * ptx va) 4) :
    vm'.pte? pgdir va = vm.pte? pgdir va := by
  unfold pte?
  rw [vm.table?_congr hdir]
  cases ht : vm.table? pgdir (pdx va) with
  | none => rfl
  | some T => simp only [Option.map_some']; rw [vm.rd32_congr (htab T ht)]

/-- The directory keeps its tables and the allocator its free list. -/
theorem Fresh.of_tables {vm' : Vm} (hf : vm.Fresh pgdir)
    (ht : ∀ d < 1024, vm'.table? pgdir d = vm.table? pgdir d) (hfree : vm'.free = vm.free) :
    vm'.Fresh pgdir where
  dir_mod := hf.dir_mod
  table_ne hd h := hf.table_ne hd (by rwa [ht _ hd] at h)
  table_inj hd hd' h h' := hf.table_inj hd hd' (by rwa [ht _ hd] at h) (by rwa [ht _ hd'] at h')
  free_nodup := hfree ▸ hf.free_nodup
  free_ok f h := hf.free_ok f (hfree ▸ h)
  free_ne f h := hf.free_ne f (hfree ▸ h)
  free_not_table f h d hd := by rw [ht d hd]; exact hf.free_not_table f (hfree ▸ h) d hd

/-- A page table of a fresh directory lies apart from every directory entry. -/
theorem Fresh.table_apart (hf : vm.Fresh pgdir) {d T : Nat} (hd : d < 1024)
    (hT : vm.table? pgdir d = some T) {d' t : Nat} (hd' : d' < 1024) (ht : t < 1024) :
    T + 4 * t + 4 ≤ pgdir + 4 * d' ∨ pgdir + 4 * d' + 4 ≤ T + 4 * t := by
  have := hf.table_ne hd hT
  have := vm.table?_mod hT
  have := hf.dir_mod
  simp only [pgsize] at *; omega

/-- Writing entry `ptx a` of `a`'s page table changes the entry the walk of `a`'s page reads,
and no other. -/
theorem Fresh.pte?_wr32 (hf : vm.Fresh pgdir) {a T : Nat} (hT : vm.table? pgdir (pdx a) = some T)
    (x va : Nat) : (vm.wr32 (T + 4 * ptx a) x).pte? pgdir va =
      if pdx va = pdx a ∧ ptx va = ptx a then some (x % 2 ^ 32) else vm.pte? pgdir va := by
  have := ptx_lt a
  have hdir (d) (hd : d < 1024) : vm.Agrees (vm.wr32 (T + 4 * ptx a) x) (pgdir + 4 * d) 4 :=
    Vm.agrees_wr32 _ x (hf.table_apart (pdx_lt a) hT hd (ptx_lt a))
  split_ifs with h
  · obtain ⟨hd, ht⟩ := h
    unfold pte?
    rw [vm.table?_congr (hdir _ (pdx_lt _)), hd, hT, ht]
    simp only [Option.map_some', Vm.rd32_wr32_self]
  · refine pte?_congr (hdir _ (pdx_lt _)) fun T' hT' => Vm.agrees_wr32 _ x ?_
    have := ptx_lt va
    by_cases hd : pdx va = pdx a
    · rw [hd, hT] at hT'
      cases hT'
      have : ptx va ≠ ptx a := fun e => h ⟨hd, e⟩
      omega
    · have : T' ≠ T := fun e => hd (hf.table_inj (pdx_lt _) (pdx_lt _) hT' (e ▸ hT))
      have := vm.table?_mod hT
      have := vm.table?_mod hT'
      simp only [pgsize] at *; omega

theorem Fresh.wr32_entry (hf : vm.Fresh pgdir) {a T : Nat} (hT : vm.table? pgdir (pdx a) = some T)
    (x : Nat) : (vm.wr32 (T + 4 * ptx a) x).Fresh pgdir :=
  hf.of_tables (fun _ hd => vm.table?_congr
    (Vm.agrees_wr32 _ x (hf.table_apart (pdx_lt a) hT hd (ptx_lt a)))) rfl

/-! ## A new page table -/

section NewTable

variable {d f : Nat} {rest : List Nat}

theorem Fresh.head_ok (hf : vm.Fresh pgdir) (hfree : vm.free = f :: rest) :
    f % pgsize = 0 ∧ kernbase ≤ f ∧ v2p f < phystop :=
  hf.free_ok f (by rw [hfree]; exact List.mem_cons_self f rest)

/-- The new table's page lies apart from every directory entry. -/
theorem Fresh.head_apart (hf : vm.Fresh pgdir) (hfree : vm.free = f :: rest) (d' : Nat) :
    f + pgsize ≤ pgdir + 4 * d' ∨ pgdir + 4 * d' + 4 ≤ f ∨ d' ≥ 1024 := by
  have := hf.free_ne f (by rw [hfree]; exact List.mem_cons_self f rest)
  have := (hf.head_ok hfree).1
  have := hf.dir_mod
  simp only [pgsize] at *; omega

/-- The directory entry `walkpgdir` writes: present, and naming the new table. -/
theorem pde_newTable (hf : vm.Fresh pgdir) (hfree : vm.free = f :: rest) :
    (vm.newTable pgdir d f rest).rd32 (pgdir + 4 * d) &&& pteP ≠ 0 ∧
      p2v (pteAddr ((vm.newTable pgdir d f rest).rd32 (pgdir + 4 * d))) = f := by
  obtain ⟨h₁, h₂, h₃⟩ := hf.head_ok hfree
  have hv : v2p f % 4096 = 0 := by simp only [v2p, pgsize, kernbase] at *; omega
  have h7 : v2p f ||| pteP ||| pteW ||| pteU = v2p f + 7 := by
    rw [Nat.or_assoc, Nat.or_assoc]; exact or_low hv (by decide)
  rw [newTable, Vm.rd32_wr32_self, h7, Nat.mod_eq_of_lt (by simp only [phystop] at h₃; omega), and_pteP]
  simp only [pteAddr, p2v, v2p, pgsize, kernbase] at *
  omega

theorem table?_newTable (hf : vm.Fresh pgdir) (hfree : vm.free = f :: rest) {d' : Nat} (hd' : d' < 1024) :
    (vm.newTable pgdir d f rest).table? pgdir d' = if d' = d then some f else vm.table? pgdir d' := by
  split_ifs with h
  · obtain ⟨h₁, h₂⟩ := pde_newTable (d := d) hf hfree
    rw [table?, h, if_pos h₁, h₂]
  · refine vm.table?_congr ((({ vm with free := rest } : Vm).agrees_memset 0 ?_).trans
      (Vm.agrees_wr32 _ _ (by omega)))
    rcases hf.head_apart hfree d' with h' | h' | h' <;> omega

/-- The new table reads as zeroes. -/
theorem rd32_newTable (hf : vm.Fresh pgdir) (hfree : vm.free = f :: rest) (hd : d < 1024) {L : Nat} (h₁ : f ≤ L)
    (h₂ : L + 4 ≤ f + pgsize) : (vm.newTable pgdir d f rest).rd32 L = 0 := by
  have := hf.free_ne f (by rw [hfree]; exact List.mem_cons_self f rest)
  have := (hf.head_ok hfree).1
  have := hf.dir_mod
  rw [newTable, Vm.rd32_wr32_of_ne _ _ (by simp only [pgsize] at *; omega), Vm.rd32_memset_zero _ h₁ h₂]

theorem pte?_newTable (hf : vm.Fresh pgdir) (hfree : vm.free = f :: rest) (hd : d < 1024)
    (va : Nat) : (vm.newTable pgdir d f rest).pte? pgdir va =
      if pdx va = d then some 0 else vm.pte? pgdir va := by
  have := ptx_lt va
  split_ifs with h
  · unfold pte?
    rw [table?_newTable hf hfree (pdx_lt va), if_pos h]
    simp only [Option.map_some']
    rw [rd32_newTable hf hfree hd (by omega) (by simp only [pgsize]; omega)]
  · have hfm : f ∈ vm.free := by rw [hfree]; exact List.mem_cons_self f rest
    refine pte?_congr ((({ vm with free := rest } : Vm).agrees_memset 0 ?_).trans
      (Vm.agrees_wr32 _ _ (by omega))) fun T hT => ((({ vm with free := rest } : Vm).agrees_memset 0 ?_).trans
      (Vm.agrees_wr32 _ _ (hf.table_apart (pdx_lt va) hT hd (ptx_lt va)).symm))
    · rcases hf.head_apart hfree (pdx va) with h' | h' | h'
      · exact .inl h'
      · exact .inr h'
      · have := pdx_lt va; omega
    · have : T ≠ f := fun e => hf.free_not_table f hfm (pdx va) (pdx_lt va) (e ▸ hT)
      have := vm.table?_mod hT
      have := (hf.head_ok hfree).1
      simp only [pgsize] at *; omega

theorem Fresh.newTable (hf : vm.Fresh pgdir) (hfree : vm.free = f :: rest) :
    (vm.newTable pgdir d f rest).Fresh pgdir := by
  have hfm : f ∈ vm.free := by rw [hfree]; exact List.mem_cons_self f rest
  have hnd := hfree ▸ hf.free_nodup
  have hrest : ∀ g ∈ rest, g ∈ vm.free := fun g h => by rw [hfree]; exact List.mem_cons_of_mem f h
  have ht := fun {d'} (hd' : d' < 1024) => table?_newTable (d := d) hf hfree hd'
  refine ⟨hf.dir_mod, fun {d' T} hd' h => ?_, fun {d₁ d₂ T} h₁ h₂ e₁ e₂ => ?_, (List.nodup_cons.mp hnd).2,
    fun g h => hf.free_ok g (hrest g h), fun g h => hf.free_ne g (hrest g h), fun g h d' hd' => ?_⟩
  · rw [ht hd'] at h
    split_ifs at h
    · cases h; exact hf.free_ne f hfm
    · exact hf.table_ne hd' h
  · rw [ht h₁] at e₁
    rw [ht h₂] at e₂
    split_ifs at e₁ e₂ with k₁ k₂ k₂
    · rw [k₁, k₂]
    · cases e₁; exact absurd e₂ (hf.free_not_table _ hfm d₂ h₂)
    · cases e₂; exact absurd e₁ (hf.free_not_table _ hfm d₁ h₁)
    · exact hf.table_inj h₁ h₂ e₁ e₂
  · rw [ht hd']
    split_ifs
    · intro e
      cases e
      exact (List.nodup_cons.mp hnd).1 h
    · exact hf.free_not_table g (hrest g h) d' hd'

end NewTable

/-! ## The loop -/

section Loop

variable {perm a pa n : Nat}

/-- Two of the pages from an aligned `a` below 2^32 have different indices. -/
theorem idx_ne {i k : Nat} (ha : a % pgsize = 0) (hi : a + i * pgsize < 2 ^ 32)
    (hk : a + k * pgsize < 2 ^ 32) (hne : k ≠ i) :
    ¬ (pdx (a + k * pgsize) = pdx (a + i * pgsize) ∧ ptx (a + k * pgsize) = ptx (a + i * pgsize)) := by
  rw [← page_eq_iff_idx hk hi]; simp only [pgsize] at *; omega

/-- Writing page `i`'s entry maps it and keeps the others. -/
theorem Mapped.wr32 {i T : Nat} (hm : vm.Mapped pgdir perm a pa n i) (hf : vm.Fresh pgdir)
    (hT : vm.table? pgdir (pdx (a + i * pgsize)) = some T) (ha : a % pgsize = 0) (hi : i < n)
    (hend : a + n * pgsize ≤ 2 ^ 32) :
    (vm.wr32 (T + 4 * ptx (a + i * pgsize)) ((pa + i * pgsize) % 2 ^ 32 ||| perm ||| pteP)).Mapped
      pgdir perm a pa n (i + 1) := by
  have hlt (k) (hk : k < n) : a + k * pgsize < 2 ^ 32 := by simp only [pgsize] at *; omega
  refine ⟨fun k hk => ?_, fun k hk hkn e he => ?_⟩
  · rw [hf.pte?_wr32 hT]
    by_cases hki : k = i
    · rw [if_pos (by rw [hki]; exact ⟨rfl, rfl⟩), hki]
    · rw [if_neg (idx_ne ha (hlt i hi) (hlt k (by omega)) hki)]
      exact hm.1 k (by omega)
  · rw [hf.pte?_wr32 hT, if_neg (idx_ne ha (hlt i hi) (hlt k hkn) (by omega))] at he
    exact hm.2 k (by omega) hkn e he

/-- A table allocated for page `i`, whose table was absent, keeps the pages mapped. -/
theorem Mapped.newTable {i f : Nat} {rest : List Nat} (hm : vm.Mapped pgdir perm a pa n i)
    (hf : vm.Fresh pgdir) (hfree : vm.free = f :: rest) (hT : vm.table? pgdir (pdx (a + i * pgsize)) = none) :
    (vm.newTable pgdir (pdx (a + i * pgsize)) f rest).Mapped pgdir perm a pa n i := by
  refine ⟨fun k hk => ?_, fun k hk hkn e he => ?_⟩
  · rw [pte?_newTable hf hfree (pdx_lt _), if_neg fun hd => ?_]
    · exact hm.1 k hk
    · have := hm.1 k hk
      simp [pte?, hd, hT] at this
  · rw [pte?_newTable hf hfree (pdx_lt _)] at he
    split_ifs at he
    · cases he; exact Nat.zero_and _
    · exact hm.2 k hk hkn e he

/-- One pass of `mappages`'s loop, at page `i`: either the free list is empty and the walk of
page `i` needs a table, and the loop returns -1; or the walk finds or allocates its table and
the pass maps page `i`. -/
theorem mappagesLoop_step {i : Nat} (hf : vm.Fresh pgdir) (hm : vm.Mapped pgdir perm a pa n i)
    (ha : a % pgsize = 0) (hi : i < n) (hend : a + n * pgsize ≤ 2 ^ 32) :
    (vm.free = [] ∧
      ∀ m, vm.mappagesLoop pgdir perm m (a + i * pgsize) ((pa + i * pgsize) % 2 ^ 32) = .ok (-1, vm)) ∨
    ∃ vm₁ : Vm, vm₁.Fresh pgdir ∧ vm₁.Mapped pgdir perm a pa n (i + 1) ∧
      vm.mappagesLoop pgdir perm 0 (a + i * pgsize) ((pa + i * pgsize) % 2 ^ 32) = .ok (0, vm₁) ∧
      ∀ m, i + 1 < n → vm.mappagesLoop pgdir perm (m + 1) (a + i * pgsize) ((pa + i * pgsize) % 2 ^ 32) =
        vm₁.mappagesLoop pgdir perm m (a + (i + 1) * pgsize) ((pa + (i + 1) * pgsize) % 2 ^ 32) := by
  obtain ⟨vm₀, T, hf₀, hm₀, hT₀, hw⟩ | ⟨hfree, hw⟩ :
      (∃ vm₀ T, vm₀.Fresh pgdir ∧ vm₀.Mapped pgdir perm a pa n i ∧
        vm₀.table? pgdir (pdx (a + i * pgsize)) = some T ∧
        vm.walkpgdir pgdir (a + i * pgsize) true = (T + 4 * ptx (a + i * pgsize), vm₀)) ∨
      (vm.free = [] ∧ vm.walkpgdir pgdir (a + i * pgsize) true = (0, vm)) := by
    cases hT : vm.table? pgdir (pdx (a + i * pgsize)) with
    | some T => exact .inl ⟨vm, T, hf, hm, hT, vm.walkpgdir_present hT true⟩
    | none =>
      cases hfree : vm.free with
      | nil => exact .inr ⟨rfl, vm.walkpgdir_oom hT hfree⟩
      | cons f rest =>
        have hf0 : f ≠ 0 := by have := (hf.head_ok hfree).2.1; simp only [kernbase] at this; omega
        exact .inl ⟨_, f, hf.newTable hfree, hm.newTable hf hfree hT,
          by rw [table?_newTable hf hfree (pdx_lt _), if_pos rfl], vm.walkpgdir_alloc hT hfree hf0⟩
  · right
    have hL : T + 4 * ptx (a + i * pgsize) ≠ 0 := by
      have := vm₀.table?_kernel hT₀; simp only [kernbase] at this; omega
    have hnp : vm₀.rd32 (T + 4 * ptx (a + i * pgsize)) &&& pteP = 0 :=
      hm₀.2 i le_rfl hi _ (by simp only [pte?, hT₀, Option.map_some'])
    refine ⟨_, hf₀.wr32_entry hT₀ _, hm₀.wr32 hf₀ hT₀ ha hi hend, ?_, fun m hi' => ?_⟩
    · rw [mappagesLoop, hw]
      simp only
      rw [if_neg hL, if_neg fun h => h hnp]
    · have e₁ : (a + i * pgsize + pgsize) % 2 ^ 32 = a + (i + 1) * pgsize := by
        simp only [pgsize] at *; omega
      have e₂ : ((pa + i * pgsize) % 2 ^ 32 + pgsize) % 2 ^ 32 = (pa + (i + 1) * pgsize) % 2 ^ 32 := by
        simp only [pgsize]; omega
      rw [mappagesLoop, hw]
      simp only
      rw [if_neg hL, if_neg fun h => h hnp, e₁, e₂]
  · left
    exact ⟨hfree, fun m => by rw [mappagesLoop, hw]; simp only [if_true]⟩

/-- **`mappages`'s loop.** From page `i` of the `n` pages from `a`, with the first `i` mapped
and the rest not present, the loop returns 0 with all `n` mapped, or -1 with the free list
empty and a prefix mapped; the directory and allocator stay fresh. -/
theorem mappagesLoop_spec (ha : a % pgsize = 0) (hend : a + n * pgsize ≤ 2 ^ 32) (m : Nat) :
    ∀ i (vm : Vm), i + m + 1 = n → vm.Fresh pgdir → vm.Mapped pgdir perm a pa n i →
      ∃ j r vm', vm.mappagesLoop pgdir perm m (a + i * pgsize) ((pa + i * pgsize) % 2 ^ 32) = .ok (r, vm') ∧
        j ≤ n ∧ (r = 0 ∧ j = n ∨ r = -1 ∧ j < n ∧ vm'.free = []) ∧ vm'.Fresh pgdir ∧
        vm'.Mapped pgdir perm a pa n j := by
  induction m with
  | zero =>
    intro i vm hn hf hm
    rcases mappagesLoop_step hf hm ha (by omega) hend with ⟨hfree, h⟩ | ⟨vm₁, hf₁, hm₁, h₀, -⟩
    · exact ⟨i, -1, vm, h 0, by omega, .inr ⟨rfl, by omega, hfree⟩, hf, hm⟩
    · exact ⟨i + 1, 0, vm₁, h₀, by omega, .inl ⟨rfl, by omega⟩, hf₁, hm₁⟩
  | succ m ih =>
    intro i vm hn hf hm
    rcases mappagesLoop_step hf hm ha (by omega) hend with ⟨hfree, h⟩ | ⟨vm₁, hf₁, hm₁, -, hs⟩
    · exact ⟨i, -1, vm, h _, by omega, .inr ⟨rfl, by omega, hfree⟩, hf, hm⟩
    · rw [hs m (by omega)]
      exact ih (i + 1) vm₁ (by omega) hf₁ hm₁

end Loop

/-! ## `mappages` -/

theorem pgrounddown_mod (a : Nat) : pgrounddown a % pgsize = 0 := by
  simp only [pgrounddown, pgsize]; omega

/-- **`mappages`.** For a fresh directory and allocator, a range `[va, va + size)` with
`0 < size` that ends at or below 2^32 (`DEVSPACE`'s ends exactly there), a 32-bit `pa` and any
`perm`, when none of the range's `n` entries is present: `mappages` terminates without
panicking. It returns 0 after setting the entry of each page `PGROUNDDOWN(va) + k * PGSIZE` to
`(pa + k * PGSIZE) | perm | PTE_P`, or -1, with the free list empty, after setting those of a
prefix of the pages and leaving the rest not present; the directory and allocator stay
fresh. -/
theorem mappages_spec {pgdir va size pa perm : Nat} (hf : vm.Fresh pgdir) (hsize : 0 < size)
    (hend : va + size ≤ 2 ^ 32) (hpa : pa < 2 ^ 32)
    (hnone : ∀ k < npages va size, ∀ e,
      vm.pte? pgdir (pgrounddown va + k * pgsize) = some e → e &&& pteP = 0) :
    ∃ j r vm', vm.mappages pgdir va size pa perm = .ok (r, vm') ∧ j ≤ npages va size ∧
      (r = 0 ∧ j = npages va size ∨ r = -1 ∧ j < npages va size ∧ vm'.free = []) ∧
      (∀ k < j, vm'.pte? pgdir (pgrounddown va + k * pgsize) =
        some (((pa + k * pgsize) % 2 ^ 32 ||| perm ||| pteP) % 2 ^ 32)) ∧
      (∀ k, j ≤ k → k < npages va size → ∀ e,
        vm'.pte? pgdir (pgrounddown va + k * pgsize) = some e → e &&& pteP = 0) ∧
      vm'.Fresh pgdir := by
  have hn : pgrounddown va + npages va size * pgsize ≤ 2 ^ 32 := by
    simp only [npages, pgrounddown, pgsize]; omega
  have hm : vm.Mapped pgdir perm (pgrounddown va) pa (npages va size) 0 :=
    ⟨fun k hk => absurd hk (Nat.not_lt_zero k), fun k _ hkn => hnone k hkn⟩
  obtain ⟨j, r, vm', h, hj, hr, hf', hm'⟩ := mappagesLoop_spec (pgrounddown_mod va) hn
    ((pgrounddown ((va + size + 2 ^ 32 - 1) % 2 ^ 32) + 2 ^ 32 - pgrounddown va) % 2 ^ 32 / pgsize) 0 vm
    (by simp only [npages, pgrounddown, pgsize]; omega) hf hm
  rw [Nat.zero_mul, Nat.add_zero, Nat.add_zero, Nat.mod_eq_of_lt hpa] at h
  exact ⟨j, r, vm', h, hj, hr, hm'.1, hm'.2, hf'⟩

theorem table?_zero (l : List Nat) (pgdir d : Nat) : (⟨fun _ => 0, l⟩ : Vm).table? pgdir d = none := by
  simp [table?, rd32_zero, and_pteP]

theorem pte?_zero (l : List Nat) (pgdir va : Nat) : (⟨fun _ => 0, l⟩ : Vm).pte? pgdir va = none := by
  simp only [pte?, table?_zero, Option.map_none']

/-- **`walkpgdir` can allocate the directory itself.** With zeroed memory and a free list
holding the directory's own page, mapping one page at address 0, whose entry is not present,
panics with `remap`: `walkpgdir` takes the directory's page for the missing page table, writes
the directory entry into it, and hands back that entry as the page's, already present. -/
theorem mappages_remap_own_dir :
    0 < 4096 ∧ 0 + 4096 ≤ 2 ^ 32 ∧ 0 % pgsize = 0 ∧
      (∀ va, (⟨fun _ => 0, [0x80400000]⟩ : Vm).pte? 0x80400000 va = none) ∧
      (⟨fun _ => 0, [0x80400000]⟩ : Vm).mappages 0x80400000 0 4096 0 pteW = .error (.panic "remap") := by
  have hk : (pgrounddown ((0 + 4096 + 2 ^ 32 - 1) % 2 ^ 32) + 2 ^ 32 - pgrounddown 0) % 2 ^ 32 / pgsize = 0 := by
    decide
  refine ⟨by decide, by decide, rfl, pte?_zero _ _, ?_⟩
  rw [mappages, hk, mappagesLoop, show pgrounddown 0 = 0 from rfl,
    walkpgdir_alloc _ (table?_zero _ _ _) rfl (by decide)]
  simp only
  rw [if_neg (by decide), if_pos (by decide)]

/-- Zeroed memory with a directory at `0x80400000` and the eight pages after it free. -/
def eightFree : Vm := ⟨fun _ => 0, (List.range 8).map fun k => 0x80401000 + k * pgsize⟩

theorem eightFree_fresh : eightFree.Fresh 0x80400000 where
  dir_mod := rfl
  table_ne _ h := nomatch (table?_zero _ _ _).symm.trans h
  table_inj _ _ h := nomatch (table?_zero _ _ _).symm.trans h
  free_nodup := by decide
  free_ok := by decide
  free_ne := by decide
  free_not_table _ _ _ _ := by rw [eightFree, table?_zero]; exact Option.noConfusion

/-- `setupkvm`'s `DEVSPACE` entry, which ends exactly at 2^32, on a fresh directory. -/
theorem mappages_spec_devspace :
    eightFree.Fresh 0x80400000 ∧ 0 < (0 + 2 ^ 32 - devspace) % 2 ^ 32 ∧
      devspace + (0 + 2 ^ 32 - devspace) % 2 ^ 32 ≤ 2 ^ 32 ∧ devspace < 2 ^ 32 ∧
      ∃ j r vm', eightFree.mappages 0x80400000 devspace ((0 + 2 ^ 32 - devspace) % 2 ^ 32) devspace pteW =
        .ok (r, vm') ∧ (r = 0 ∨ r = -1) ∧
        ∀ k < j, vm'.pte? 0x80400000 (pgrounddown devspace + k * pgsize) =
          some (((devspace + k * pgsize) % 2 ^ 32 ||| pteW ||| pteP) % 2 ^ 32) := by
  obtain ⟨j, r, vm', h, -, hr, hm, -⟩ := @mappages_spec eightFree 0x80400000 devspace
    ((0 + 2 ^ 32 - devspace) % 2 ^ 32) devspace pteW eightFree_fresh (by decide) (by decide) (by decide)
    fun _ _ _ h => nomatch (pte?_zero _ _ _).symm.trans h
  exact ⟨eightFree_fresh, by decide, by decide, by decide, j, r, vm', h, hr.imp And.left And.left, hm⟩

end Vm

end Xv6
