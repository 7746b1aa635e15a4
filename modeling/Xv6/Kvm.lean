import Xv6.Grow
import Mathlib.Order.Interval.Finset.Nat

/-!
# The kernel half: `setupkvm`

`setupkvm` takes the head of the free list for a new page directory, zeroes it, and enters each
region of `kmap` with `mappages`. The page tables these calls need come off the free list as
well. When one cannot, the code frees the directory with `freevm` and returns 0; the free list
then holds the same pages as before.

What a directory maps is read back from memory as `Vm.entry?`, the entry of each address that is
present. `Kmap.entry?` is what one region asks for, and `kernelEntry?` a plain reading of all of
`kmap`: physical memory from `KERNBASE` up to `P2V(PHYSTOP)`, read-only from `KERNLINK` to
`data`, and the devices from `DEVSPACE` one to one. `setupkvm`'s directory holds exactly these
entries and none below `KERNBASE` (`setupkvm_spec`).

The entries of the kernel half name pages no directory owns, so writing one keeps an address
space whole (`Held.kernelEntry`).
-/

namespace Xv6

/-- A kernel image `setupkvm` can map: `data` page-aligned, above `KERNLINK` and below
`P2V(PHYSTOP)`. -/
structure Layout.Ok (ly : Layout) : Prop where
  data_mod : ly.data % pgsize = 0
  link_lt : kernlink < ly.data
  data_lt : ly.data < p2v phystop

namespace Kmap

/-- `phys_end - phys_start` as a `uint`: the size `setupkvm` passes to `mappages`. -/
def size (k : Kmap) : Nat := (k.physEnd + 2 ^ 32 - k.physStart) % 2 ^ 32

/-- The region's first page. -/
def start (k : Kmap) : Nat := pgrounddown k.virt

/-- The end of the region's last page. -/
def stop (k : Kmap) : Nat := k.start + npages k.virt k.size * pgsize

/-- The entry the region asks for at `va`: present, naming the physical page as far into
`[phys_start, phys_end)` as `va`'s page is into the region, with the region's permissions. -/
def entry? (k : Kmap) (va : Nat) : Option Nat :=
  if k.start ≤ va ∧ va < k.stop then
    some (((k.physStart + (pgrounddown va - k.start)) % 2 ^ 32 ||| k.perm ||| pteP) % 2 ^ 32)
  else none

/-- A region `mappages` can enter for `setupkvm`: in the kernel half, not empty, ending at or
below 2^32, from a 32-bit physical address. -/
structure Ok (k : Kmap) : Prop where
  kernel : kernbase ≤ k.virt
  size_pos : 0 < k.size
  fits : k.virt + k.size ≤ 2 ^ 32
  phys : k.physStart < 2 ^ 32

/-- Two regions with no page in common. -/
def Apart (k k' : Kmap) : Prop := k.stop ≤ k'.start ∨ k'.stop ≤ k.start

theorem Ok.start_ge {k : Kmap} (hk : k.Ok) : kernbase ≤ k.start := by
  have := hk.kernel
  simp only [start, pgrounddown, pgsize, kernbase] at *; omega

theorem Ok.stop_le {k : Kmap} (hk : k.Ok) : k.stop ≤ 2 ^ 32 := by
  have := hk.fits
  have := hk.size_pos
  simp only [stop, start, npages, pgrounddown, pgsize] at *; omega

theorem lt_of_entry? {k : Kmap} (hk : k.Ok) {va : Nat} (h : (k.entry? va).isSome) : va < 2 ^ 32 := by
  have := hk.stop_le
  unfold entry? at h
  split_ifs at h with hin
  · omega
  · cases h

theorem isSome_entry? {k : Kmap} {va : Nat} : (k.entry? va).isSome ↔ k.start ≤ va ∧ va < k.stop := by
  unfold entry?
  split_ifs with hin <;> simp [hin]

theorem entry?_of_apart {k k' : Kmap} (h : k.Apart k') {va : Nat} (hva : (k.entry? va).isSome) :
    k'.entry? va = none := by
  unfold entry? at hva
  split_ifs at hva with hin
  · exact if_neg fun h' => by unfold Apart at h; omega
  · cases hva

end Kmap

/-- The kernel half as `kmap` describes it, read as one table: from `KERNBASE` up to
`P2V(PHYSTOP)` the physical page `V2P` of the address, read-only from `KERNLINK` to `data` and
writable elsewhere, and from `DEVSPACE` on the device page at the address itself, writable;
nothing else. -/
def kernelEntry? (ly : Layout) (va : Nat) : Option Nat :=
  if kernbase ≤ va ∧ va < kernlink then some (v2p (pgrounddown va) ||| pteW ||| pteP)
  else if kernlink ≤ va ∧ va < ly.data then some (v2p (pgrounddown va) ||| pteP)
  else if ly.data ≤ va ∧ va < p2v phystop then some (v2p (pgrounddown va) ||| pteW ||| pteP)
  else if devspace ≤ va then some (pgrounddown va ||| pteW ||| pteP)
  else none

/-! ## `kmap` -/

section Kmap

variable {ly : Layout}

theorem kmap_ok (hly : ly.Ok) : ∀ k ∈ kmap ly, k.Ok := by
  obtain ⟨h₁, h₂, h₃⟩ := hly
  simp only [kmap, List.mem_cons, List.mem_singleton, List.not_mem_nil, or_false, forall_eq_or_imp,
    forall_eq]
  refine ⟨⟨?_, ?_, ?_, ?_⟩, ⟨?_, ?_, ?_, ?_⟩, ⟨?_, ?_, ?_, ?_⟩, ⟨?_, ?_, ?_, ?_⟩⟩ <;>
    simp only [Kmap.size, kernlink, extmem, devspace, p2v, v2p, phystop, kernbase, pgsize, pteW] at * <;> omega

theorem kmap_pairwise (hly : ly.Ok) : (kmap ly).Pairwise Kmap.Apart := by
  obtain ⟨h₁, h₂, h₃⟩ := hly
  simp only [kmap, List.pairwise_cons, List.mem_cons, List.mem_singleton, List.not_mem_nil, or_false,
    forall_eq_or_imp, forall_eq, List.Pairwise.nil, and_true, false_implies, implies_true, Kmap.Apart,
    Kmap.stop, Kmap.start, Kmap.size, npages, pgrounddown]
  simp only [kernlink, extmem, devspace, p2v, v2p, phystop, kernbase, pgsize] at *
  omega

theorem findSome?_cons_or {α β : Type} (f : α → Option β) (a : α) (l : List α) :
    (a :: l).findSome? f = (f a).or (l.findSome? f) := by
  rw [List.findSome?_cons]
  cases f a <;> rfl

/-- A region's entry below 2^32, written with the page's physical address. -/
theorem entry_eq {x y c : Nat} (hx : x < 2 ^ 32) (hc : c < 2 ^ 32) (e : x = y) :
    (x % 2 ^ 32 ||| c ||| pteP) % 2 ^ 32 = y ||| c ||| pteP := by
  rw [Nat.mod_eq_of_lt hx, e]
  exact Nat.mod_eq_of_lt (Nat.or_lt_two_pow (Nat.or_lt_two_pow (e ▸ hx) hc) (by decide))

/-- The same for a region with no permission bits. -/
theorem entry_eq' {x y : Nat} (hx : x < 2 ^ 32) (e : x = y) :
    (x % 2 ^ 32 ||| pteP) % 2 ^ 32 = y ||| pteP := by
  rw [Nat.mod_eq_of_lt hx, e]
  exact Nat.mod_eq_of_lt (Nat.or_lt_two_pow (e ▸ hx) (by decide))

/-- **`kmap` is the kernel half.** Read region by region, `kmap` asks for exactly the entries of
`kernelEntry?`. -/
theorem kmap_entry (hly : ly.Ok) {va : Nat} (hva : va < 2 ^ 32) :
    (kmap ly).findSome? (·.entry? va) = kernelEntry? ly va := by
  obtain ⟨h₁, h₂, h₃⟩ := hly
  have hW : pteW < 2 ^ 32 := by simp only [pteW]; omega
  have hreg : va < kernbase ∨ kernbase ≤ va ∧ va < kernlink ∨ kernlink ≤ va ∧ va < ly.data ∨
      ly.data ≤ va ∧ va < p2v phystop ∨ p2v phystop ≤ va ∧ va < devspace ∨ devspace ≤ va := by
    simp only [kernlink, extmem, devspace, p2v, phystop, kernbase] at *; omega
  simp only [kmap, findSome?_cons_or, List.findSome?_nil, Kmap.entry?, Kmap.stop, Kmap.start,
    Kmap.size, npages, kernelEntry?]
  simp only [kernlink, extmem, devspace, p2v, v2p, phystop, kernbase, pgsize, pgrounddown] at *
  -- one case per region, and the gaps below `KERNBASE` and before `DEVSPACE`
  rcases hreg with h | h | h | h | h | h <;>
    simp (disch := omega) only [if_pos, if_neg, Option.or_some, Option.none_or]
  · exact congrArg some (entry_eq (by omega) hW (by omega))
  · rw [Nat.or_zero]
    exact congrArg some (entry_eq' (by omega) (by omega))
  · exact congrArg some (entry_eq (by omega) hW (by omega))
  · exact congrArg some (entry_eq (by omega) hW (by omega))

end Kmap

/-- The directory entries `kmap` fills: `KERNBASE` up to `P2V(PHYSTOP)`, and `DEVSPACE` on. -/
def kernelIdx : Finset Nat := Finset.Ico 512 568 ∪ Finset.Ico 1016 1024

theorem card_kernelIdx : kernelIdx.card = 64 := by
  rw [kernelIdx, Finset.card_union_of_disjoint (Finset.disjoint_left.mpr fun p h₁ h₂ => by
    rw [Finset.mem_Ico] at h₁ h₂; omega), Nat.card_Ico, Nat.card_Ico]

/-- Every address a region of `kmap` asks for lies under an entry of `kernelIdx`. -/
theorem pdx_mem_kernelIdx {ly : Layout} (hly : ly.Ok) {k : Kmap} (hk : k ∈ kmap ly) {va : Nat}
    (hva : (k.entry? va).isSome) : pdx va ∈ kernelIdx := by
  obtain ⟨h₁, h₂, h₃⟩ := hly
  rw [Kmap.isSome_entry?] at hva
  rw [pdx_eq]
  simp only [kernelIdx, Finset.mem_union, Finset.mem_Ico]
  simp only [kmap, List.mem_cons, List.mem_singleton, List.not_mem_nil, or_false] at hk
  rcases hk with rfl | rfl | rfl | rfl
  all_goals simp only [Kmap.stop, Kmap.start, Kmap.size, npages, pgrounddown, kernlink, extmem, devspace, p2v, v2p,
    phystop, kernbase, pgsize, Nat.reducePow] at hva h₁ h₂ h₃ ⊢
  all_goals omega

namespace Vm

variable (vm : Vm) (ly : Layout)

/-- The directory entries of `pgdir` that hold a page table. -/
def tableIdx (pgdir : Nat) : Finset Nat :=
  (Finset.range 1024).filter fun d => (vm.table? pgdir d).isSome

/-- What `mappages` leaves in `vm'`, having taken the page tables `L` off the free list: the
address space whole and owning `L` as well, no byte written outside the pages it owns, and each
page taken off the free list a new page table. -/
structure Maps (pgdir : Nat) (vm' : Vm) (L : List Nat) : Prop where
  held : vm'.Held ly pgdir
  free_eq : vm.free = L ++ vm'.free
  owns : ∀ G, vm'.Owns pgdir G ↔ vm.Owns pgdir G ∨ G ∈ L
  keep : ∀ x, (∀ G, vm'.Owns pgdir G → x < G ∨ G + pgsize ≤ x) → vm'.mem x = vm.mem x
  count : vm.free.length + (vm.tableIdx pgdir).card = vm'.free.length + (vm'.tableIdx pgdir).card

variable {vm ly} {pgdir : Nat}

theorem mem_tableIdx {d : Nat} : d ∈ vm.tableIdx pgdir ↔ d < 1024 ∧ (vm.table? pgdir d).isSome := by
  rw [tableIdx, Finset.mem_filter, Finset.mem_range]

theorem tableIdx_congr {vm' : Vm} (ht : ∀ d < 1024, vm'.table? pgdir d = vm.table? pgdir d) :
    vm'.tableIdx pgdir = vm.tableIdx pgdir :=
  Finset.filter_congr fun d hd => by rw [ht d (Finset.mem_range.mp hd)]

/-- A user address and a kernel one lie under different directory entries. -/
theorem pdx_ne_of_lt {va a : Nat} (hva : va < kernbase) (hk : kernbase ≤ a) (ha : a < 2 ^ 32) :
    pdx va ≠ pdx a := by
  rw [pdx_eq, pdx_eq]
  simp only [kernbase] at *
  omega

theorem Maps.refl (h : vm.Held ly pgdir) : vm.Maps ly pgdir vm [] :=
  ⟨h, rfl, fun G => by rw [List.mem_nil_iff, or_false], fun _ _ => rfl, rfl⟩

theorem Maps.trans {vm₁ vm₂ : Vm} {L₁ L₂ : List Nat} (m₁ : vm.Maps ly pgdir vm₁ L₁)
    (m₂ : vm₁.Maps ly pgdir vm₂ L₂) : vm.Maps ly pgdir vm₂ (L₁ ++ L₂) where
  held := m₂.held
  free_eq := by rw [m₁.free_eq, m₂.free_eq, List.append_assoc]
  owns G := by rw [m₂.owns, m₁.owns, List.mem_append, or_assoc]
  keep x hx := (m₂.keep x hx).trans (m₁.keep x fun G hG => hx G ((m₂.owns G).mpr (.inl hG)))
  count := m₁.count.trans m₂.count

/-! ## One page of the kernel half -/

/-- `walkpgdir`'s new page table for entry `d`, the head of the free list: the directory owns it,
and every entry reads as before. -/
theorem Held.newTable (h : vm.Held ly pgdir) {d f : Nat} {rest : List Nat} (hd : d < 1024)
    (hT : vm.table? pgdir d = none) (hfree : vm.free = f :: rest) :
    vm.Maps ly pgdir (vm.newTable pgdir d f rest) [f] ∧ (vm.newTable pgdir d f rest).table? pgdir d = some f ∧
      (∀ va, (vm.newTable pgdir d f rest).entry? pgdir va = vm.entry? pgdir va) ∧
      (vm.newTable pgdir d f rest).tableIdx pgdir = insert d (vm.tableIdx pgdir) := by
  have hf := h.fresh
  have ht (d') (hd' : d' < 1024) := table?_newTable (d := d) hf hfree hd'
  have hidx : (vm.newTable pgdir d f rest).tableIdx pgdir = insert d (vm.tableIdx pgdir) := by
    ext d'
    rw [Finset.mem_insert, mem_tableIdx, mem_tableIdx]
    by_cases e : d' = d
    · subst e; simp [ht d' hd, hd]
    · simp only [e, false_or]
      exact and_congr_right fun hd' => by rw [ht d' hd', if_neg e]
  have hnot : d ∉ vm.tableIdx pgdir := fun h' => by simp [mem_tableIdx, hT] at h'
  have hent (va) : (vm.newTable pgdir d f rest).entry? pgdir va = vm.entry? pgdir va := by
    unfold entry?
    rw [pte?_newTable hf hfree hd]
    split_ifs with e
    · rw [pte?, e, hT]; rfl
    · rfl
  obtain ⟨hh, hown⟩ := h.addTable hfree hd hT ht fun va _ => by
    rw [frame?_eq_entry, frame?_eq_entry vm, hent]
  refine ⟨⟨hh, hfree, fun G => by rw [hown, List.mem_singleton], fun x hx => ?_, ?_⟩, by rw [ht d hd, if_pos rfl],
    hent, hidx⟩
  swap
  · show vm.free.length + _ = rest.length + _
    rw [hidx, Finset.card_insert_of_not_mem hnot, hfree, List.length_cons]
    omega
  have hxf := hx f ((hown f).mpr (.inr rfl))
  have hxd := hx pgdir (.inl rfl)
  exact ((({ vm with free := rest } : Vm).agrees_memset (X := x) (m := 1) 0 (by omega)).trans
    (Vm.agrees_wr32 _ _ (by simp only [pgsize] at hxd; omega))) x le_rfl (by omega)

/-- Writing an entry of the kernel half keeps the address space as it was: the page it names is
no directory's to own. -/
theorem Held.kernelEntry (h : vm.Held ly pgdir) {a T : Nat} (hk : kernbase ≤ a) (ha : a < 2 ^ 32)
    (hT : vm.table? pgdir (pdx a) = some T) (x : Nat) :
    vm.Maps ly pgdir (vm.wr32 (T + 4 * ptx a) x) [] ∧ (vm.wr32 (T + 4 * ptx a) x).tableIdx pgdir = vm.tableIdx pgdir ∧
      ∀ va, (vm.wr32 (T + 4 * ptx a) x).entry? pgdir va =
      if pdx va = pdx a ∧ ptx va = ptx a then (some (x % 2 ^ 32)).filter (· &&& pteP != 0)
      else vm.entry? pgdir va := by
  have hf := h.fresh
  have ht (d) (hd : d < 1024) : (vm.wr32 (T + 4 * ptx a) x).table? pgdir d = vm.table? pgdir d :=
    vm.table?_congr (Vm.agrees_wr32 _ _ (hf.table_apart (pdx_lt a) hT hd (ptx_lt a)))
  have hent (va) : (vm.wr32 (T + 4 * ptx a) x).entry? pgdir va =
      if pdx va = pdx a ∧ ptx va = ptx a then (some (x % 2 ^ 32)).filter (· &&& pteP != 0)
      else vm.entry? pgdir va := by
    unfold entry?
    rw [hf.pte?_wr32 hT]
    split_ifs <;> rfl
  have hfr (va) (hva : va < kernbase) : (vm.wr32 (T + 4 * ptx a) x).frame? pgdir va = vm.frame? pgdir va := by
    rw [frame?_eq_entry, frame?_eq_entry vm, hent, if_neg fun e => pdx_ne_of_lt hva hk ha e.1]
  have hown := owns_congr ht hfr
  refine ⟨⟨h.congr ht hfr rfl, rfl, fun G => by rw [hown, List.mem_nil_iff, or_false], fun y hy => ?_,
    by rw [tableIdx_congr ht]; rfl⟩, tableIdx_congr ht, hent⟩
  have := hy T ((hown T).mpr (.inr (.inl ⟨_, pdx_lt a, hT⟩)))
  have := ptx_lt a
  exact vm.agrees_wr32 (X := y) (m := 1) _ (by simp only [pgsize] at *; omega) y le_rfl (by omega)

/-- `walkpgdir` with `alloc` set, over a whole address space: it finds the free list empty, or it
finds `a`'s page table or takes the head of the free list for it. -/
theorem Held.walk (h : vm.Held ly pgdir) (a : Nat) :
    (vm.free = [] ∧ pdx a ∉ vm.tableIdx pgdir ∧ vm.walkpgdir pgdir a true = (0, vm)) ∨
    ∃ vm₀ T L, vm.Maps ly pgdir vm₀ L ∧ vm₀.table? pgdir (pdx a) = some T ∧
      (∀ va, vm₀.entry? pgdir va = vm.entry? pgdir va) ∧ vm₀.tableIdx pgdir ⊆ insert (pdx a) (vm.tableIdx pgdir) ∧
      vm.walkpgdir pgdir a true = (T + 4 * ptx a, vm₀) := by
  cases hT : vm.table? pgdir (pdx a) with
  | some T => exact .inr ⟨vm, T, [], .refl h, hT, fun _ => rfl, Finset.subset_insert _ _, vm.walkpgdir_present hT true⟩
  | none =>
    cases hfree : vm.free with
    | nil => exact .inl ⟨rfl, fun h' => by simp [mem_tableIdx, hT] at h', vm.walkpgdir_oom hT hfree⟩
    | cons f rest =>
      have hf0 : f ≠ 0 := (Nat.zero_lt_of_lt (h.fresh.head_ok hfree).2.1).ne'
      obtain ⟨m, hT', hent, hidx⟩ := h.newTable (pdx_lt a) hT hfree
      exact .inr ⟨_, f, [f], m, hT', hent, hidx.le, vm.walkpgdir_alloc hT hfree hf0⟩

/-- The loop's pass at `a`, once the walk has found an entry that is not present, when pages
remain after `a`. -/
theorem mappagesLoop_succ {a pte pa perm : Nat} {vm₁ : Vm} (hw : vm.walkpgdir pgdir a true = (pte, vm₁))
    (h0 : pte ≠ 0) (hnp : vm₁.rd32 pte &&& pteP = 0) (m : Nat) :
    vm.mappagesLoop pgdir perm (m + 1) a pa = (vm₁.wr32 pte (pa ||| perm ||| pteP)).mappagesLoop pgdir perm m
      ((a + pgsize) % 2 ^ 32) ((pa + pgsize) % 2 ^ 32) := by
  rw [mappagesLoop, hw]
  simp only
  rw [if_neg h0, if_neg fun h => h hnp]

/-- **One kernel page of `mappages`.** Over a whole address space, the loop's pass at a kernel
address whose entry is not present returns -1, changing nothing, when the free list is empty and
the page table absent; otherwise it enters the page and moves on. -/
theorem Held.mapKernelPage (h : vm.Held ly pgdir) {a : Nat} (hk : kernbase ≤ a) (ha : a < 2 ^ 32)
    (hnone : vm.entry? pgdir a = none) (pa perm : Nat) :
    (vm.free = [] ∧ pdx a ∉ vm.tableIdx pgdir ∧ ∀ m, vm.mappagesLoop pgdir perm m a pa = .ok (-1, vm)) ∨
    ∃ vm' L, vm.Maps ly pgdir vm' L ∧ vm'.tableIdx pgdir ⊆ insert (pdx a) (vm.tableIdx pgdir) ∧
      (∀ va < 2 ^ 32, vm'.entry? pgdir va =
        if va / pgsize = a / pgsize then some ((pa ||| perm ||| pteP) % 2 ^ 32) else vm.entry? pgdir va) ∧
      vm.mappagesLoop pgdir perm 0 a pa = .ok (0, vm') ∧
      ∀ m, vm.mappagesLoop pgdir perm (m + 1) a pa =
        vm'.mappagesLoop pgdir perm m ((a + pgsize) % 2 ^ 32) ((pa + pgsize) % 2 ^ 32) := by
  rcases h.walk a with ⟨hfree, hidx, hw⟩ | ⟨vm₀, T, L, m₀, hT, hent₀, hidx, hw⟩
  · exact .inl ⟨hfree, hidx, fun m => by rw [mappagesLoop, hw]; simp only [if_true]⟩
  · have h0 : T + 4 * ptx a ≠ 0 := by have := vm₀.table?_kernel hT; simp only [kernbase] at this; omega
    have hnp : vm₀.rd32 (T + 4 * ptx a) &&& pteP = 0 := by
      have h₀ := (hent₀ a).trans hnone
      unfold entry? pte? at h₀
      rw [hT, Option.map_some', Option.filter_some] at h₀
      by_contra hp
      rw [if_pos (bne_iff_ne.mpr hp)] at h₀
      cases h₀
    obtain ⟨m₁, hidx₁, hent₁⟩ := m₀.held.kernelEntry hk ha hT (pa ||| perm ||| pteP)
    refine .inr ⟨_, L ++ [], m₀.trans m₁, hidx₁.trans_subset hidx, fun va hva => ?_, mappagesLoop_zero hw h0 hnp,
      mappagesLoop_succ hw h0 hnp⟩
    rw [hent₁, hent₀]
    by_cases hpg : va / pgsize = a / pgsize
    · rw [if_pos ((page_eq_iff_idx hva ha).mp hpg), if_pos hpg, Option.filter_some,
        if_pos (bne_iff_ne.mpr (entry_present _))]
    · rw [if_neg fun e => hpg ((page_eq_iff_idx hva ha).mpr e), if_neg hpg]

/-! ## A region of the kernel half -/

section Range

variable {a n : Nat}

/-- **`mappages`' loop over kernel pages.** From page `i` of the `n` pages from `a`, none of them
present, the loop returns -1 with the free list empty and the page table of one of these pages
missing, or 0 with each page from `i` on entered; either way the address space stays whole, and
each page table it adds is one of these pages'. -/
theorem Held.mapKernel (pa perm : Nat) (ha : a % pgsize = 0) (hk : kernbase ≤ a) (hend : a + n * pgsize ≤ 2 ^ 32)
    (m : Nat) :
    ∀ i (vm : Vm), i + m + 1 = n → vm.Held ly pgdir →
      (∀ va, a + i * pgsize ≤ va → va < a + n * pgsize → vm.entry? pgdir va = none) →
      ∃ r vm' L, vm.mappagesLoop pgdir perm m (a + i * pgsize) ((pa + i * pgsize) % 2 ^ 32) = .ok (r, vm') ∧
        vm.Maps ly pgdir vm' L ∧
        (∀ p ∈ vm'.tableIdx pgdir, p ∈ vm.tableIdx pgdir ∨
          ∃ va, a + i * pgsize ≤ va ∧ va < a + n * pgsize ∧ pdx va = p) ∧
        (r = -1 ∧ vm'.free = [] ∧ (∃ va, a + i * pgsize ≤ va ∧ va < a + n * pgsize ∧ pdx va ∉ vm'.tableIdx pgdir) ∨
          r = 0 ∧ ∀ va < 2 ^ 32, vm'.entry? pgdir va =
          if a + i * pgsize ≤ va ∧ va < a + n * pgsize then
            some (((pa + (pgrounddown va - a)) % 2 ^ 32 ||| perm ||| pteP) % 2 ^ 32)
          else vm.entry? pgdir va) := by
  induction m with
  | zero =>
    intro i vm hn h hnone
    have hi : a + i * pgsize < a + n * pgsize := by simp only [pgsize] at *; omega
    rcases h.mapKernelPage (by omega) (by omega) (hnone _ le_rfl hi) ((pa + i * pgsize) % 2 ^ 32) perm with
      ⟨hfree, hidx, hrun⟩ | ⟨vm', L, hm, hidx, hent, hrun, -⟩
    · exact ⟨-1, vm, [], hrun 0, .refl h, fun p hp => .inl hp, .inl ⟨rfl, hfree, _, le_rfl, hi, hidx⟩⟩
    refine ⟨0, vm', L, hrun, hm, fun p hp => ?_, .inr ⟨rfl, fun va hva => ?_⟩⟩
    · rcases Finset.mem_insert.mp (hidx hp) with rfl | hp
      exacts [.inr ⟨_, le_rfl, hi, rfl⟩, .inl hp]
    rw [hent va hva]
    by_cases hpg : va / pgsize = (a + i * pgsize) / pgsize
    · have e : pgrounddown va - a = i * pgsize := by simp only [pgrounddown, pgsize] at *; omega
      rw [if_pos hpg, if_pos (by simp only [pgsize] at *; omega), e]
    · rw [if_neg hpg, if_neg (by simp only [pgsize] at *; omega)]
  | succ m ih =>
    intro i vm hn h hnone
    have hi : a + i * pgsize < a + n * pgsize := by simp only [pgsize] at *; omega
    have hlo : a + i * pgsize ≤ a + (i + 1) * pgsize := by simp only [pgsize]; omega
    rcases h.mapKernelPage (by omega) (by omega) (hnone _ le_rfl hi) ((pa + i * pgsize) % 2 ^ 32) perm with
      ⟨hfree, hidx, hrun⟩ | ⟨vm₁, L₁, hm₁, hidx₁, hent₁, -, hrun₁⟩
    · exact ⟨-1, vm, [], hrun _, .refl h, fun p hp => .inl hp, .inl ⟨rfl, hfree, _, le_rfl, hi, hidx⟩⟩
    have e₁ : (a + i * pgsize + pgsize) % 2 ^ 32 = a + (i + 1) * pgsize := by
      simp only [pgsize] at *; omega
    have e₂ : ((pa + i * pgsize) % 2 ^ 32 + pgsize) % 2 ^ 32 = (pa + (i + 1) * pgsize) % 2 ^ 32 := by
      simp only [pgsize]; omega
    -- the pages after `i` are still not present
    have hnone₁ (va) (h₁ : a + (i + 1) * pgsize ≤ va) (h₂ : va < a + n * pgsize) : vm₁.entry? pgdir va = none := by
      rw [hent₁ va (by simp only [pgsize] at *; omega), if_neg (by simp only [pgsize] at *; omega)]
      exact hnone va (by simp only [pgsize] at *; omega) h₂
    obtain ⟨r, vm', L₂, hrun, hm₂, hidx₂, hr⟩ := ih (i + 1) vm₁ (by omega) hm₁.held hnone₁
    refine ⟨r, vm', L₁ ++ L₂, by rw [hrun₁, e₁, e₂, hrun], hm₁.trans hm₂, fun p hp => ?_, ?_⟩
    · rcases hidx₂ p hp with hp | ⟨va, h₁, h₂, e⟩
      · rcases Finset.mem_insert.mp (hidx₁ hp) with rfl | hp
        exacts [.inr ⟨_, le_rfl, hi, rfl⟩, .inl hp]
      · exact .inr ⟨va, hlo.trans h₁, h₂, e⟩
    rcases hr with ⟨rfl, hfree, va, h₁, h₂, hva⟩ | ⟨rfl, hent⟩
    · exact .inl ⟨rfl, hfree, va, hlo.trans h₁, h₂, hva⟩
    refine .inr ⟨rfl, fun va hva => ?_⟩
    rw [hent va hva, hent₁ va hva]
    by_cases hpg : va / pgsize = (a + i * pgsize) / pgsize
    · have e : pgrounddown va - a = i * pgsize := by simp only [pgrounddown, pgsize] at *; omega
      rw [if_neg (by simp only [pgsize] at *; omega), if_pos hpg, if_pos (by simp only [pgsize] at *; omega), e]
    · rw [if_neg hpg]
      by_cases hin : a + (i + 1) * pgsize ≤ va ∧ va < a + n * pgsize
      · rw [if_pos hin, if_pos (by simp only [pgsize] at *; omega)]
      · rw [if_neg hin, if_neg (by simp only [pgsize] at *; omega)]

end Range

/-- **A region of `kmap`.** Over a whole address space where none of the region's pages is
present, `mappages` returns -1 with the free list empty and the page table of one of the
region's pages missing, or 0 with the region's entries added; either way the address space stays
whole, and each page table it adds is one of the region's pages'. -/
theorem Held.mapRegion (h : vm.Held ly pgdir) {k : Kmap} (hk : k.Ok)
    (hnone : ∀ va, (k.entry? va).isSome → vm.entry? pgdir va = none) :
    ∃ r vm' L, vm.mappages pgdir k.virt k.size k.physStart k.perm = .ok (r, vm') ∧ vm.Maps ly pgdir vm' L ∧
      (∀ p ∈ vm'.tableIdx pgdir, p ∈ vm.tableIdx pgdir ∨ ∃ va, (k.entry? va).isSome ∧ pdx va = p) ∧
      (r = -1 ∧ vm'.free = [] ∧ (∃ va, (k.entry? va).isSome ∧ pdx va ∉ vm'.tableIdx pgdir) ∨
        r = 0 ∧ ∀ va < 2 ^ 32, vm'.entry? pgdir va = (k.entry? va).or (vm.entry? pgdir va)) := by
  have hs := hk.size_pos
  have hf := hk.fits
  have hend : k.start + npages k.virt k.size * pgsize ≤ 2 ^ 32 := hk.stop_le
  have hin (va) (h₁ : pgrounddown k.virt + 0 * pgsize ≤ va) (h₂ : va < k.stop) : (k.entry? va).isSome :=
    Kmap.isSome_entry?.mpr ⟨by simpa using h₁, h₂⟩
  obtain ⟨r, vm', L, hrun, hm, hidx, hr⟩ := Held.mapKernel k.physStart k.perm (pgrounddown_mod k.virt)
    hk.start_ge hend ((pgrounddown ((k.virt + k.size + 2 ^ 32 - 1) % 2 ^ 32) + 2 ^ 32 - pgrounddown k.virt) % 2 ^ 32 /
      pgsize) 0 vm (by simp only [npages, pgrounddown, pgsize] at *; omega) h fun va h₁ h₂ => hnone va (hin va h₁ h₂)
  rw [Nat.zero_mul, Nat.add_zero, Nat.add_zero, Nat.mod_eq_of_lt hk.phys] at hrun
  refine ⟨r, vm', L, hrun, hm, fun p hp => (hidx p hp).imp_right fun ⟨va, h₁, h₂, e⟩ => ⟨va, hin va h₁ h₂, e⟩, ?_⟩
  rcases hr with ⟨hr, hfree, va, h₁, h₂, hva⟩ | ⟨hr, hent⟩
  · exact .inl ⟨hr, hfree, va, hin va h₁ h₂, hva⟩
  refine .inr ⟨hr, fun va hva => ?_⟩
  rw [hent va hva, Kmap.entry?, Kmap.stop, Kmap.start, Nat.zero_mul, Nat.add_zero]
  split_ifs <;> rfl

/-! ## `setupkvm` -/

/-- `freevm` of a directory whose pages and the free pages are together exactly those free in
`vm₀`, with every other byte as in `vm₀`: afterwards the free list holds `vm₀`'s free pages. -/
theorem Held.freevm_back {vm₀ : Vm} (h : vm.Held ly pgdir) (h₀ : vm₀.free.Nodup)
    (hpool : ∀ G, vm.Owns pgdir G ∨ G ∈ vm.free ↔ G ∈ vm₀.free)
    (hkeep : ∀ x, (∀ G ∈ vm₀.free, x < G ∨ G + pgsize ≤ x) → vm.mem x = vm₀.mem x) :
    ∃ vm', vm.freevm ly pgdir = .ok vm' ∧ vm'.free.Perm vm₀.free ∧
      ∀ x, (∀ G ∈ vm₀.free, x < G ∨ G + pgsize ≤ x) → vm'.mem x = vm₀.mem x := by
  obtain ⟨vm', L, hrun, hfree, hnd, hmem, hk⟩ := freevm_spec h.space
  have hnd' : (L ++ vm.free).Nodup := List.pairwise_append.mpr
    ⟨hnd, h.alloc.nodup, fun G hG G' hG' e => h.apart G' hG' (e ▸ (hmem G).mp hG)⟩
  refine ⟨vm', hrun, ?_, fun x hx => ?_⟩
  · rw [hfree]
    exact (List.perm_ext_iff_of_nodup hnd' h₀).mpr fun G => by rw [List.mem_append, hmem]; exact hpool G
  · rw [hk x fun G hG => hx G ((hpool G).mp (.inl ((hmem G).mp hG)))]
    exact hkeep x hx

variable (ly) in
/-- `setupkvm`'s directory `pgdir` once the regions `done` are entered, started from `vm₀`: it
and the page tables `L` came off the head of the free list, the address space is whole and owns
just these, its entries are the regions', and no byte outside a page free in `vm₀` changed. Each
page table is one of the kernel half's 64. -/
structure Built (vm₀ : Vm) (pgdir : Nat) (done : List Kmap) (vm : Vm) (L : List Nat) : Prop where
  held : vm.Held ly pgdir
  free_eq : vm₀.free = pgdir :: (L ++ vm.free)
  owns : ∀ G, vm.Owns pgdir G ↔ G = pgdir ∨ G ∈ L
  entry : ∀ va < 2 ^ 32, vm.entry? pgdir va = done.findSome? (·.entry? va)
  keep : ∀ x, (∀ G ∈ vm₀.free, x < G ∨ G + pgsize ≤ x) → vm.mem x = vm₀.mem x
  tables : (vm.tableIdx pgdir).card = L.length
  within : vm.tableIdx pgdir ⊆ kernelIdx

section Built

variable {vm₀ vm vm' : Vm} {d : Nat} {done : List Kmap} {L L' : List Nat}

/-- The new directory, zeroed: no page table, no entry, owning only itself. -/
theorem Built.start (h₀ : vm₀.Alloc ly) {rest : List Nat} (hfree : vm₀.free = d :: rest) :
    vm₀.Built ly d [] (({ vm₀ with free := rest } : Vm).memset d 0 pgsize) [] := by
  have hd : d ∈ vm₀.free := hfree ▸ List.mem_cons_self d rest
  obtain ⟨hd₁, hd₂, hd₃, hd₄⟩ := h₀.ok d hd
  have hnd := List.nodup_cons.mp (hfree ▸ h₀.nodup)
  have ht (i) (hi : i < 1024) : (({ vm₀ with free := rest } : Vm).memset d 0 pgsize).table? d i = none := by
    rw [table?, Vm.rd32_memset_zero _ (by omega) (by simp only [pgsize]; omega)]
    rfl
  have hfr (va) : (({ vm₀ with free := rest } : Vm).memset d 0 pgsize).frame? d va = none := by
    rw [frame?, ht _ (pdx_lt va)]
    rfl
  have hidx : (({ vm₀ with free := rest } : Vm).memset d 0 pgsize).tableIdx d = ∅ :=
    Finset.filter_false_of_mem fun i hi => by simp [ht i (Finset.mem_range.mp hi)]
  have hown (G) : (({ vm₀ with free := rest } : Vm).memset d 0 pgsize).Owns d G ↔ G = d := by
    refine ⟨fun h => h.elim id fun h => h.elim (fun ⟨i, hi, e⟩ => ?_) fun ⟨va, _, _, _, e⟩ => ?_, .inl⟩
    · rw [ht i hi] at e; cases e
    · rw [hfr] at e; cases e
  refine ⟨⟨⟨hd₁, ⟨hd₂.le, hd₃, hd₄⟩, fun hi e => ?_, fun hi _ e => ?_, fun hi e => ?_, fun _ e => ?_,
    fun _ _ e => ?_, fun _ _ e => ?_, fun _ e => ?_⟩, ⟨hnd.2, fun g hg => h₀.ok g (hfree ▸ List.mem_cons_of_mem d hg)⟩,
    fun g hg ho => hnd.1 ((hown g).mp ho ▸ hg)⟩, by rw [hfree]; rfl, fun G => by rw [hown, List.mem_nil_iff, or_false],
    fun va _ => ?_, fun x hx => ?_, by rw [hidx]; rfl, by rw [hidx]; exact Finset.empty_subset _⟩
  any_goals rw [ht _ hi] at e; cases e
  any_goals rw [hfr] at e; cases e
  · rw [entry?, pte?, ht _ (pdx_lt va)]
    rfl
  · have := hx d hd
    exact ({ vm₀ with free := rest } : Vm).agrees_memset (X := x) (m := 1) 0 (by omega) x le_rfl (by omega)

/-- At most one page table for each of the kernel half's 64 entries. -/
theorem Built.length_le (b : vm₀.Built ly d done vm L) : L.length ≤ 64 :=
  b.tables ▸ card_kernelIdx ▸ Finset.card_le_card b.within

/-- The pages free at the start are the directory's and those still free. -/
theorem Built.mem_iff (b : vm₀.Built ly d done vm L) (G : Nat) : G ∈ vm₀.free ↔ vm.Owns d G ∨ G ∈ vm.free := by
  rw [b.free_eq, List.mem_cons, List.mem_append, ← or_assoc, b.owns]

theorem Built.owned_free (b : vm₀.Built ly d done vm L) {G : Nat} (hG : vm.Owns d G ∨ G ∈ vm.free) :
    G ∈ vm₀.free :=
  (b.mem_iff G).mpr hG

/-- A region entered: its entries join the directory's, and the page tables it took join `L`. -/
theorem Built.step {k : Kmap} (b : vm₀.Built ly d done vm L) (m : vm.Maps ly d vm' L')
    (hent : ∀ va < 2 ^ 32, vm'.entry? d va = (k.entry? va).or (vm.entry? d va))
    (hk : ∀ k' ∈ done, k.Apart k') (hin : vm'.tableIdx d ⊆ kernelIdx) : vm₀.Built ly d (done ++ [k]) vm' (L ++ L') where
  held := m.held
  free_eq := by rw [b.free_eq, m.free_eq, List.append_assoc]
  owns G := by rw [m.owns, b.owns, List.mem_append, or_assoc]
  entry va hva := by
    rw [hent va hva, b.entry va hva, List.findSome?_append, findSome?_cons_or, List.findSome?_nil,
      Option.or_none]
    cases hkv : k.entry? va with
    | none => exact (Option.or_none).symm
    | some e =>
      have hnone : done.findSome? (·.entry? va) = none := List.findSome?_eq_none_iff.mpr fun k' hk' =>
        Kmap.entry?_of_apart (hk k' hk') (by rw [hkv]; rfl)
      rw [hnone]
      rfl
  keep x hx := (m.keep x fun G hG => hx G (b.owned_free (by
    rcases (m.owns G).mp hG with hG | hG
    exacts [.inl hG, .inr (m.free_eq ▸ List.mem_append_left _ hG)]))).trans (b.keep x hx)
  tables := by
    have := m.count
    rw [m.free_eq, List.length_append, b.tables] at this
    rw [List.length_append]
    omega
  within := hin

/-- A region that ran out of pages while the page table of one of the kernel half's entries was
still missing: fewer than 65 pages were free, one for the directory and one for each of the 64
page tables. -/
theorem Built.short (b : vm₀.Built ly d done vm L) (m : vm.Maps ly d vm' L') (hfree : vm'.free = [])
    (hin : vm'.tableIdx d ⊆ kernelIdx) {p : Nat} (hp : p ∈ kernelIdx) (hp' : p ∉ vm'.tableIdx d) :
    vm₀.free.length < 65 := by
  have hlt := Finset.card_lt_card ((Finset.ssubset_iff_of_subset hin).mpr ⟨p, hp, hp'⟩)
  have := m.count
  rw [hfree, List.length_nil, b.tables] at this
  rw [card_kernelIdx] at hlt
  rw [b.free_eq, List.length_cons, List.length_append]
  omega

/-- A region that ran out of pages: `freevm` gives back the directory and every page table, so
the free list holds the pages it held before `setupkvm`. -/
theorem Built.undo (h₀ : vm₀.Alloc ly) (b : vm₀.Built ly d done vm L) (m : vm.Maps ly d vm' L')
    (hfree : vm'.free = []) :
    ∃ vm'', vm'.freevm ly d = .ok vm'' ∧ vm''.free.Perm vm₀.free ∧
      ∀ x, (∀ G ∈ vm₀.free, x < G ∨ G + pgsize ≤ x) → vm''.mem x = vm₀.mem x := by
  have hpool (G) : vm'.Owns d G ∨ G ∈ vm'.free ↔ G ∈ vm₀.free := by
    rw [m.owns, b.owns, b.free_eq, m.free_eq, hfree]
    simp only [List.mem_cons, List.mem_append, List.mem_nil_iff, or_false, or_assoc]
  exact m.held.freevm_back h₀.nodup hpool fun x hx =>
    (m.keep x fun G hG => hx G ((hpool G).mp (.inl hG))).trans (b.keep x hx)

end Built

/-- **`setupkvm`'s loop over `kmap`.** From a directory built from the regions `done`, entering
the regions `ks`, all apart and within the kernel half's 64 entries, gives 0 with the free list as
it was before `setupkvm`, which held fewer than 65 pages, or the directory built from all of
them. -/
theorem setupkvmLoop_spec {vm₀ : Vm} {d : Nat} (h₀ : vm₀.Alloc ly) (ks : List Kmap) :
    ∀ (done : List Kmap) (vm : Vm) (L : List Nat), vm₀.Built ly d done vm L → (∀ k ∈ ks, k.Ok) →
      (∀ k ∈ ks, ∀ va, (k.entry? va).isSome → pdx va ∈ kernelIdx) → (done ++ ks).Pairwise Kmap.Apart →
      ∃ r vm', vm.setupkvmLoop ly d ks = .ok (r, vm') ∧
        (∀ x, (∀ G ∈ vm₀.free, x < G ∨ G + pgsize ≤ x) → vm'.mem x = vm₀.mem x) ∧
        (r = 0 ∧ vm'.free.Perm vm₀.free ∧ vm₀.free.length < 65 ∨ r = d ∧ ∃ L', vm₀.Built ly d (done ++ ks) vm' L') := by
  induction ks with
  | nil =>
    intro done vm L b _ _ _
    exact ⟨d, vm, rfl, b.keep, .inr ⟨rfl, L, by rw [List.append_nil]; exact b⟩⟩
  | cons k ks ih =>
    intro done vm L b hok hks hp
    have hk := hok k (List.mem_cons_self k ks)
    have hkk := hks k (List.mem_cons_self k ks)
    have hap (k') (hk' : k' ∈ done) : k.Apart k' :=
      (List.pairwise_append.mp hp).2.2 k' hk' k (List.mem_cons_self k ks) |>.symm
    obtain ⟨r, vm', L', hrun, m, hidx, hr⟩ := b.held.mapRegion hk fun va hva => by
      rw [b.entry va (Kmap.lt_of_entry? hk hva)]
      exact List.findSome?_eq_none_iff.mpr fun k' hk' => Kmap.entry?_of_apart (hap k' hk') hva
    have hin : vm'.tableIdx d ⊆ kernelIdx := fun p hp =>
      (hidx p hp).elim (fun hp => b.within hp) fun ⟨va, hva, e⟩ => e ▸ hkk va hva
    rw [setupkvmLoop, show vm.mappages d k.virt ((k.physEnd + 2 ^ 32 - k.physStart) % 2 ^ 32) k.physStart k.perm =
      .ok (r, vm') from hrun]
    rcases hr with ⟨rfl, hfree, va, hva, hva'⟩ | ⟨rfl, hent⟩
    · obtain ⟨vm'', hrun', hperm, hkeep⟩ := b.undo h₀ m hfree
      exact ⟨0, vm'', by simp only [bind, Except.bind, if_pos (show (-1 : Int) < 0 by decide), hrun', Except.map],
        hkeep, .inl ⟨rfl, hperm, b.short m hfree hin (hkk va hva) hva'⟩⟩
    · obtain ⟨r', vm'', hrun', hkeep, hr'⟩ := ih (done ++ [k]) vm' (L ++ L') (b.step m hent hap hin)
        (fun k' hk' => hok k' (List.mem_cons_of_mem k hk')) (fun k' hk' => hks k' (List.mem_cons_of_mem k hk'))
        (by rwa [List.append_assoc, List.singleton_append])
      refine ⟨r', vm'', by simpa only [bind, Except.bind, if_neg (show ¬ (0 : Int) < 0 by decide)] using hrun',
        hkeep, ?_⟩
      rwa [List.append_assoc, List.singleton_append] at hr'

/-- `setupkvm` from an allocator as `kinit` leaves it: 0 with the free list holding the same
pages, fewer than 65, or a directory built from all of `kmap`. -/
theorem setupkvm_run (h₀ : vm.Alloc ly) (hly : ly.Ok) :
    ∃ d vm', vm.setupkvm ly = .ok (d, vm') ∧
      (∀ x, (∀ G ∈ vm.free, x < G ∨ G + pgsize ≤ x) → vm'.mem x = vm.mem x) ∧
      (d = 0 ∧ vm'.free.Perm vm.free ∧ vm.free.length < 65 ∨ ∃ L, vm.Built ly d (kmap ly) vm' L) := by
  cases hfree : vm.free with
  | nil =>
    refine ⟨0, vm, ?_, fun _ _ => rfl, .inl ⟨rfl, by rw [hfree], by decide⟩⟩
    rw [setupkvm, kalloc, hfree]
    rfl
  | cons d rest =>
    rw [← hfree]
    have hd0 : d ≠ 0 :=
      (Nat.zero_lt_of_lt (h₀.ok d (hfree ▸ List.mem_cons_self d rest)).2.1).ne'
    obtain ⟨r, vm', hrun, hkeep, hr⟩ := setupkvmLoop_spec h₀ (kmap ly) [] _ [] (Built.start h₀ hfree)
      (kmap_ok hly) (fun _ hk _ hva => pdx_mem_kernelIdx hly hk hva) (kmap_pairwise hly)
    refine ⟨r, vm', ?_, hkeep, hr.imp_right fun ⟨e, L, b⟩ => ⟨L, e ▸ b⟩⟩
    rw [setupkvm, kalloc, hfree]
    simp only [if_neg hd0, if_neg (show ¬ p2v phystop > devspace by decide)]
    exact hrun

/-- **`setupkvm`.** From an allocator as `kinit` leaves it and a kernel image `kmap` can map,
`setupkvm` returns without a fault and writes no byte outside the free pages. It returns 0 only
when fewer than 65 pages were free, one for the directory and 64 for the kernel half's page
tables, and then with the free list holding the same pages as before. Otherwise it returns a
directory `d` taken off the free list: a whole address space whose pages and the free pages are
together exactly the pages that were free, and whose entries are exactly `kmap`'s, none of them
below `KERNBASE`. -/
theorem setupkvm_spec (h₀ : vm.Alloc ly) (hly : ly.Ok) :
    ∃ d vm', vm.setupkvm ly = .ok (d, vm') ∧
      (∀ x, (∀ G ∈ vm.free, x < G ∨ G + pgsize ≤ x) → vm'.mem x = vm.mem x) ∧
      (d = 0 ∧ vm'.free.Perm vm.free ∧ vm.free.length < 65 ∨
        d ∈ vm.free ∧ vm'.Held ly d ∧ (∀ G, G ∈ vm'.free ∨ vm'.Owns d G ↔ G ∈ vm.free) ∧
          ∀ va < 2 ^ 32, vm'.entry? d va = kernelEntry? ly va) := by
  obtain ⟨d, vm', hrun, hkeep, hr⟩ := setupkvm_run h₀ hly
  refine ⟨d, vm', hrun, hkeep, hr.imp_right fun ⟨L, b⟩ => ⟨?_, b.held, fun G => ?_, fun va hva => ?_⟩⟩
  · rw [b.free_eq]
    exact List.mem_cons_self d _
  · rw [b.mem_iff, or_comm]
  · rw [b.entry va hva, kmap_entry hly hva]

/-- Zeroed memory with the `n` pages from `base` free. -/
def freeRun (base n : Nat) : Vm := ⟨fun _ => 0, (List.range n).map fun k => base + k * pgsize⟩

theorem freeRun_alloc {base n : Nat} (hb : base % pgsize = 0) (hlo : kernbase < base) (hk : ly.kend ≤ base)
    (hhi : base + n * pgsize ≤ p2v phystop) : (freeRun base n).Alloc ly where
  nodup := (List.nodup_range n).map fun i j e => by simp only [pgsize] at e; omega
  ok f hf := by
    obtain ⟨i, hi, rfl⟩ := List.mem_map.mp hf
    have := List.mem_range.mp hi
    simp only [p2v, v2p, phystop, kernbase, pgsize] at *
    omega

theorem length_freeRun (base n : Nat) : (freeRun base n).free.length = n :=
  (List.length_map _ _).trans (List.length_range n)

/-- The 65 pages after the kernel image of `sampleLayout` free. -/
def kinitFree : Vm := freeRun 0x80400000 65

theorem kinitFree_alloc : kinitFree.Alloc sampleLayout :=
  freeRun_alloc (by decide) (by decide) (by decide) (by decide)

/-- With 65 pages free `setupkvm` builds the kernel half. -/
theorem setupkvm_spec_kinitFree :
    kinitFree.Alloc sampleLayout ∧ sampleLayout.Ok ∧
      ∃ d vm', kinitFree.setupkvm sampleLayout = .ok (d, vm') ∧ d ∈ kinitFree.free ∧
        vm'.Held sampleLayout d ∧ (∀ G, G ∈ vm'.free ∨ vm'.Owns d G ↔ G ∈ kinitFree.free) ∧
        ∀ va < 2 ^ 32, vm'.entry? d va = kernelEntry? sampleLayout va := by
  have hly : sampleLayout.Ok := ⟨by decide, by decide, by decide⟩
  obtain ⟨d, vm', hrun, -, ⟨-, -, hshort⟩ | hbuilt⟩ := setupkvm_spec kinitFree_alloc hly
  · exact absurd hshort (by rw [kinitFree, length_freeRun]; decide)
  · exact ⟨kinitFree_alloc, hly, d, vm', hrun, hbuilt⟩

end Vm

end Xv6
