import Xv6.Vm

/-!
# User address spaces

What a page directory maps below `KERNBASE`, read back from memory: the page table of each
directory entry (`Vm.table?`) and the page mapped present at each address (`Vm.frame?`).
Reading them looks at the directory's page and at the user page tables only, so a write to any
other page leaves the user half as it was (`frame?_congr`).

`Vm.Sound` is what the rest of the kernel keeps true of a process's directory: its user page
tables and user pages are distinct pages, apart from the directory, and every user page is one
`kfree` accepts. From it, `deallocuvm` frees and unmaps exactly the pages of
`[PGROUNDUP(newsz), oldsz)` and keeps the directory sound (`deallocuvm_spec`).

`growproc` reads `deallocuvm`'s result 0 as failure; but 0 is also the size it returns when
the process shrinks to nothing. `growproc(-sz)` then returns -1 with `sz` as it was and every
user page freed (`growproc_shrink_to_zero`).
-/

namespace Xv6

theorem and_pteP (e : Nat) : e &&& pteP = e % 2 := Nat.and_one_is_mod e

theorem pdx_eq (va : Nat) : pdx va = va / 2 ^ 22 % 1024 := by
  rw [pdx, Nat.shiftRight_eq_div_pow, show (0x3FF : Nat) = 2 ^ 10 - 1 from rfl,
    Nat.and_pow_two_sub_one_eq_mod]

theorem ptx_eq (va : Nat) : ptx va = va / 4096 % 1024 := by
  rw [ptx, Nat.shiftRight_eq_div_pow, show (0x3FF : Nat) = 2 ^ 10 - 1 from rfl,
    Nat.and_pow_two_sub_one_eq_mod]

theorem pdx_lt (va : Nat) : pdx va < 1024 := by rw [pdx_eq]; omega

theorem ptx_lt (va : Nat) : ptx va < 1024 := by rw [ptx_eq]; omega

/-- Two user addresses lie in one page exactly when their directory and table indices agree. -/
theorem page_eq_iff {va va' : Nat} (h : va < kernbase) (h' : va' < kernbase) :
    va / pgsize = va' / pgsize ↔ pdx va = pdx va' ∧ ptx va = ptx va' := by
  simp only [pdx_eq, ptx_eq, pgsize, kernbase] at *; omega

theorem pgaddr_next {a : Nat} (h : a < kernbase) : pgaddr (pdx a + 1) 0 0 = (a / 2 ^ 22 + 1) * 2 ^ 22 := by
  simp only [pgaddr, Nat.shiftLeft_eq, Nat.zero_mul, Nat.or_zero, pdx_eq]
  simp only [kernbase] at h; omega

/-- A page-table entry holds a page-aligned kernel address. -/
theorem p2v_pteAddr_mod (e : Nat) : p2v (pteAddr e) % pgsize = 0 := by
  simp only [p2v, pteAddr, pgsize, kernbase]; omega

namespace Vm

variable (vm : Vm) (ly : Layout)

/-- The page table of directory entry `d` of `pgdir`, when present. -/
def table? (pgdir d : Nat) : Option Nat :=
  if vm.rd32 (pgdir + 4 * d) &&& pteP ≠ 0 then some (p2v (pteAddr (vm.rd32 (pgdir + 4 * d))))
  else none

/-- The page `pgdir` maps present at `va`, as a kernel address. -/
def frame? (pgdir va : Nat) : Option Nat :=
  (vm.table? pgdir (pdx va)).bind fun T =>
    if vm.rd32 (T + 4 * ptx va) &&& pteP ≠ 0 then some (p2v (pteAddr (vm.rd32 (T + 4 * ptx va))))
    else none

theorem walkpgdir_false (pgdir va : Nat) :
    vm.walkpgdir pgdir va false = ((vm.table? pgdir (pdx va)).elim 0 (· + 4 * ptx va), vm) := by
  unfold walkpgdir table?
  by_cases h : vm.rd32 (pgdir + 4 * pdx va) &&& pteP = 0 <;> simp [h]

theorem table?_mod {pgdir d T : Nat} (h : vm.table? pgdir d = some T) : T % pgsize = 0 := by
  unfold table? at h; split at h <;> cases h; exact p2v_pteAddr_mod _

theorem frame?_mod {pgdir va F : Nat} (h : vm.frame? pgdir va = some F) : F % pgsize = 0 := by
  unfold frame? at h
  obtain ⟨T, -, h⟩ := Option.bind_eq_some.mp h
  split at h <;> cases h; exact p2v_pteAddr_mod _

theorem table?_kernel {pgdir d T : Nat} (h : vm.table? pgdir d = some T) : kernbase ≤ T := by
  unfold table? at h; split at h <;> cases h; exact Nat.le_add_left _ _

/-! ## Writes elsewhere -/

theorem table?_congr {vm' : Vm} {pgdir d : Nat} (h : vm.Agrees vm' (pgdir + 4 * d) 4) :
    vm'.table? pgdir d = vm.table? pgdir d := by
  unfold table?; rw [vm.rd32_congr h]

theorem frame?_congr {vm' : Vm} {pgdir va : Nat} (hdir : vm.Agrees vm' (pgdir + 4 * pdx va) 4)
    (htab : ∀ T, vm.table? pgdir (pdx va) = some T → vm.Agrees vm' (T + 4 * ptx va) 4) :
    vm'.frame? pgdir va = vm.frame? pgdir va := by
  unfold frame?
  rw [vm.table?_congr hdir]
  cases ht : vm.table? pgdir (pdx va) with
  | none => simp only [Option.none_bind]
  | some T => simp only [Option.some_bind]; rw [vm.rd32_congr (htab T ht)]

theorem kfree_ok {F : Nat} (h₁ : F % pgsize = 0) (h₂ : ly.kend ≤ F) (h₃ : v2p F < phystop) :
    vm.kfree ly F = .ok { vm.memset F 1 pgsize with free := F :: vm.free } := by
  rw [kfree, if_neg (by omega)]

theorem agrees_kfree {X m F : Nat} {vm' : Vm} (hk : vm.kfree ly F = .ok vm') (h : F + pgsize ≤ X ∨ X + m ≤ F) :
    vm.Agrees vm' X m := by
  unfold kfree at hk; split at hk
  · cases hk
  · cases hk; exact vm.agrees_memset 1 h

/-! ## Sound directories -/

/-- The user half of `pgdir` is sound: its page tables and its user pages are distinct pages,
apart from the directory, and every user page is one that `kfree` accepts. -/
structure Sound (pgdir : Nat) : Prop where
  dir_mod : pgdir % pgsize = 0
  table_ne : ∀ {d T}, d < 512 → vm.table? pgdir d = some T → T ≠ pgdir
  table_inj : ∀ {d d' T}, d < 512 → d' < 512 → vm.table? pgdir d = some T →
    vm.table? pgdir d' = some T → d = d'
  frame_ne : ∀ {va F}, va < kernbase → vm.frame? pgdir va = some F → F ≠ pgdir
  frame_ne_table : ∀ {va F d}, va < kernbase → d < 512 → vm.frame? pgdir va = some F →
    vm.table? pgdir d ≠ some F
  frame_inj : ∀ {va va' F}, va < kernbase → va' < kernbase → vm.frame? pgdir va = some F →
    vm.frame? pgdir va' = some F → va / pgsize = va' / pgsize
  frame_ok : ∀ {va F}, va < kernbase → vm.frame? pgdir va = some F →
    ly.kend ≤ F ∧ v2p F < phystop ∧ v2p F ≠ 0

/-- A directory with the same page tables and fewer user pages is sound. -/
theorem Sound.mono {vm vm' : Vm} {pgdir : Nat} (h : vm.Sound ly pgdir)
    (ht : ∀ d < 1024, vm'.table? pgdir d = vm.table? pgdir d)
    (hf : ∀ {va F}, va < kernbase → vm'.frame? pgdir va = some F → vm.frame? pgdir va = some F) :
    vm'.Sound ly pgdir where
  dir_mod := h.dir_mod
  table_ne hd hT := h.table_ne hd (by rwa [ht _ (by omega)] at hT)
  table_inj hd hd' hT hT' := h.table_inj hd hd' (by rwa [ht _ (by omega)] at hT) (by rwa [ht _ (by omega)] at hT')
  frame_ne hv hF := h.frame_ne hv (hf hv hF)
  frame_ne_table hv hd hF := by rw [ht _ (by omega)]; exact h.frame_ne_table hv hd (hf hv hF)
  frame_inj hv hv' hF hF' := h.frame_inj hv hv' (hf hv hF) (hf hv' hF')
  frame_ok hv hF := h.frame_ok hv (hf hv hF)

theorem frame?_of_table {pgdir va T : Nat} (h : vm.table? pgdir (pdx va) = some T) :
    vm.frame? pgdir va =
      if vm.rd32 (T + 4 * ptx va) &&& pteP ≠ 0 then some (p2v (pteAddr (vm.rd32 (T + 4 * ptx va))))
      else none := by
  simp only [frame?, h, Option.some_bind]

theorem frame?_of_no_table {pgdir va : Nat} (h : vm.table? pgdir (pdx va) = none) :
    vm.frame? pgdir va = none := by
  simp only [frame?, h, Option.none_bind]

theorem v2p_p2v (x : Nat) : v2p (p2v x) = x := by simp only [v2p, p2v, Nat.add_sub_cancel]

/-- A pass of `deallocuvm`'s loop over a present page: `kfree` the page that entry `ptx a` of
the table `T` maps, and clear the entry. -/
def unmapPage (T a : Nat) : Vm :=
  { vm.memset (p2v (pteAddr (vm.rd32 (T + 4 * ptx a)))) 1 pgsize with
    free := p2v (pteAddr (vm.rd32 (T + 4 * ptx a))) :: vm.free }.wr32 (T + 4 * ptx a) 0

/-- `F` is a page that `pgdir` maps present at a page-aligned address of `[lo, hi)`. -/
def MappedIn (pgdir lo hi F : Nat) : Prop :=
  ∃ va, va % pgsize = 0 ∧ lo ≤ va ∧ va < hi ∧ vm.frame? pgdir va = some F

/-- Byte `x` lies in the page-table entry of a page that `pgdir` maps present at a
page-aligned address of `[lo, hi)`. -/
def InEntry (pgdir lo hi x : Nat) : Prop :=
  ∃ va T, va % pgsize = 0 ∧ lo ≤ va ∧ va < hi ∧ (vm.frame? pgdir va).isSome ∧
    vm.table? pgdir (pdx va) = some T ∧ T + 4 * ptx va ≤ x ∧ x < T + 4 * ptx va + 4

theorem MappedIn.mono {vm : Vm} {pgdir lo lo' hi F : Nat} (h : lo ≤ lo') :
    vm.MappedIn pgdir lo' hi F → vm.MappedIn pgdir lo hi F :=
  fun ⟨va, h₁, h₂, h₃⟩ => ⟨va, h₁, h.trans h₂, h₃⟩

theorem InEntry.mono {vm : Vm} {pgdir lo lo' hi x : Nat} (h : lo ≤ lo') :
    vm.InEntry pgdir lo' hi x → vm.InEntry pgdir lo hi x :=
  fun ⟨va, T, h₁, h₂, h₃⟩ => ⟨va, T, h₁, h.trans h₂, h₃⟩

/-- What `deallocuvm`'s loop, run from page `a`, leaves in `vm'` when it has pushed the pages
`L` on the free list: each page mapped present in `[a, oldsz)` once, their entries cleared, and
no other byte written. -/
structure Freed (pgdir oldsz a : Nat) (vm' : Vm) (L : List Nat) : Prop where
  free_eq : vm'.free = L ++ vm.free
  nodup : L.Nodup
  mem_iff : ∀ F, F ∈ L ↔ vm.MappedIn pgdir a oldsz F
  clear : ∀ va T, va % pgsize = 0 → a ≤ va → va < oldsz → (vm.frame? pgdir va).isSome →
    vm.table? pgdir (pdx va) = some T → vm'.rd32 (T + 4 * ptx va) = 0
  keep : ∀ x, (∀ F ∈ L, x < F ∨ F + pgsize ≤ x) → ¬ vm.InEntry pgdir a oldsz x →
    vm'.mem x = vm.mem x

/-! ## Shrinking: `deallocuvm` -/

section Dealloc

variable {ly} {pgdir oldsz : Nat}

theorem agrees_unmapPage {vm : Vm} {T a X m : Nat}
    (hF : p2v (pteAddr (vm.rd32 (T + 4 * ptx a))) + pgsize ≤ X ∨ X + m ≤ p2v (pteAddr (vm.rd32 (T + 4 * ptx a))))
    (hL : T + 4 * ptx a + 4 ≤ X ∨ X + m ≤ T + 4 * ptx a) : vm.Agrees (vm.unmapPage T a) X m :=
  (vm.agrees_memset 1 hF).trans (Vm.agrees_wr32 _ 0 hL)

/-- Unmapping one user page and freeing it keeps the directory's tables and every other
page. -/
theorem unmap_frame {vm : Vm} {a T : Nat} (hs : vm.Sound ly pgdir) (ha : a < kernbase)
    (hT : vm.table? pgdir (pdx a) = some T) (hF : vm.frame? pgdir a = some (p2v (pteAddr (vm.rd32 (T + 4 * ptx a))))) :
    (∀ d < 1024, (vm.unmapPage T a).table? pgdir d = vm.table? pgdir d) ∧
      ∀ va, va < kernbase → (vm.unmapPage T a).frame? pgdir va =
        if va / pgsize = a / pgsize then none else vm.frame? pgdir va := by
  set F := p2v (pteAddr (vm.rd32 (T + 4 * ptx a)))
  have hpa : pdx a < 512 := by rw [pdx_eq]; simp only [kernbase] at ha; omega
  have hPm := hs.dir_mod
  have hTm := vm.table?_mod hT
  have hFm := vm.frame?_mod hF
  have hTd := hs.table_ne hpa hT
  have hFd := hs.frame_ne ha hF
  have := ptx_lt a
  have hdir : ∀ d < 1024, vm.Agrees (vm.unmapPage T a) (pgdir + 4 * d) 4 := fun d hd =>
    agrees_unmapPage (by simp only [pgsize] at *; omega) (by simp only [pgsize] at *; omega)
  refine ⟨fun d hd => vm.table?_congr (hdir d hd), fun va hva => ?_⟩
  have hpv : pdx va < 512 := by rw [pdx_eq]; simp only [kernbase] at hva; omega
  have := ptx_lt va
  split_ifs with hpg
  · obtain ⟨hd, ht⟩ := (page_eq_iff hva ha).mp hpg
    have hT' : (vm.unmapPage T a).table? pgdir (pdx va) = some T := by
      rw [vm.table?_congr (hdir _ (pdx_lt _)), hd, hT]
    rw [frame?_of_table _ hT', ht]
    simp [unmapPage, and_pteP]
  · refine vm.frame?_congr (hdir _ (pdx_lt _)) fun T' hT' => ?_
    have hT'm := vm.table?_mod hT'
    have hFT : F ≠ T' := fun e => hs.frame_ne_table ha hpv hF (e ▸ hT')
    refine agrees_unmapPage (by simp only [pgsize] at *; omega) ?_
    by_cases hd : pdx va = pdx a
    · have hne : ptx va ≠ ptx a := fun ht => hpg ((page_eq_iff hva ha).mpr ⟨hd, ht⟩)
      rw [hd, hT] at hT'; cases hT'; omega
    · have hne : T ≠ T' := fun e => hd (hs.table_inj hpv hpa (e ▸ hT') hT)
      simp only [pgsize] at *; omega

/-- Unmapping one user page of a sound directory leaves it sound. -/
theorem Sound.unmap {vm : Vm} {a T : Nat} (hs : vm.Sound ly pgdir) (ha : a < kernbase)
    (hT : vm.table? pgdir (pdx a) = some T) (hF : vm.frame? pgdir a = some (p2v (pteAddr (vm.rd32 (T + 4 * ptx a))))) :
    (vm.unmapPage T a).Sound ly pgdir :=
  have h := unmap_frame hs ha hT hF
  hs.mono ly h.1 fun hva hF' => by rw [h.2 _ hva] at hF'; split_ifs at hF'; exact hF'

/-- A user address reads the entry of its page. -/
theorem frame?_page {vm : Vm} {va a : Nat} (hva : va < kernbase) (ha : a < kernbase)
    (h : va / pgsize = a / pgsize) : vm.frame? pgdir va = vm.frame? pgdir a := by
  obtain ⟨hd, ht⟩ := (page_eq_iff hva ha).mp h
  simp only [frame?, hd, ht]

/-- One pass of `deallocuvm`'s loop at a page `a` below `oldsz`. Where the page is not mapped
present memory is kept; where it is, the pass is `unmapPage`. The loop goes on at `a'`, the next
page or, past an absent page table, the next directory entry, with nothing mapped in between. -/
theorem deallocuvmLoop_next {vm : Vm} {a : Nat} (k : Nat) (hs : vm.Sound ly pgdir)
    (ha : a % pgsize = 0) (hlt : a < oldsz) (hold : oldsz ≤ kernbase) :
    ∃ a', a + pgsize ≤ a' ∧ a' % pgsize = 0 ∧
      (∀ va, a < va → va < a' → va % pgsize = 0 → vm.frame? pgdir va = none) ∧
      ((vm.frame? pgdir a = none ∧
          vm.deallocuvmLoop ly pgdir oldsz (k + 1) a = vm.deallocuvmLoop ly pgdir oldsz k a') ∨
        ∃ T, a' = a + pgsize ∧ vm.table? pgdir (pdx a) = some T ∧
          vm.frame? pgdir a = some (p2v (pteAddr (vm.rd32 (T + 4 * ptx a)))) ∧
          vm.deallocuvmLoop ly pgdir oldsz (k + 1) a = (vm.unmapPage T a).deallocuvmLoop ly pgdir oldsz k a') := by
  have ha' : a < kernbase := by omega
  have hnext : (a + pgsize) % 2 ^ 32 = a + pgsize := by simp only [pgsize, kernbase] at *; omega
  have after (va) (h₁ : a < va) (h₂ : va < a + pgsize) (h₃ : va % pgsize = 0) :
      vm.frame? pgdir va = none := by simp only [pgsize] at *; omega
  cases hT : vm.table? pgdir (pdx a) with
  | none =>
    refine ⟨pgaddr (pdx a + 1) 0 0, ?_, ?_, fun va h₁ h₂ h₃ => vm.frame?_of_no_table ?_,
      .inl ⟨vm.frame?_of_no_table hT, ?_⟩⟩
    · rw [pgaddr_next ha']; simp only [pgsize] at *; omega
    · rw [pgaddr_next ha']; simp only [pgsize]; omega
    · rw [pgaddr_next ha'] at h₂
      have : pdx va = pdx a := by rw [pdx_eq, pdx_eq]; simp only [kernbase] at *; omega
      rwa [this]
    · simp only [deallocuvmLoop.eq_2, if_pos hlt, walkpgdir_false, hT, Option.elim_none, ↓reduceIte]
  | some T =>
    have hL : T + 4 * ptx a ≠ 0 := by have := vm.table?_kernel hT; simp only [kernbase] at this; omega
    by_cases hp : vm.rd32 (T + 4 * ptx a) &&& pteP ≠ 0
    · have hF : vm.frame? pgdir a = some (p2v (pteAddr (vm.rd32 (T + 4 * ptx a)))) := by
        rw [vm.frame?_of_table hT, if_pos hp]
      obtain ⟨h₁, h₂, h₃⟩ := hs.frame_ok ha' hF
      refine ⟨a + pgsize, le_rfl, by simp only [pgsize] at *; omega, after, .inr ⟨T, rfl, rfl, hF, ?_⟩⟩
      rw [deallocuvmLoop.eq_2, if_pos hlt, walkpgdir_false, hT, Option.elim_some]
      simp only
      rw [if_neg hL, if_pos hp, if_neg (show pteAddr (vm.rd32 (T + 4 * ptx a)) ≠ 0 by rwa [v2p_p2v] at h₃),
        kfree_ok _ _ (vm.frame?_mod hF) h₁ h₂, hnext]
      exact pure_bind _ _
    · have hF : vm.frame? pgdir a = none := by rw [vm.frame?_of_table hT, if_neg hp]
      refine ⟨_, le_rfl, by simp only [pgsize] at *; omega, after, .inl ⟨hF, ?_⟩⟩
      simp only [deallocuvmLoop.eq_2, if_pos hlt, walkpgdir_false, hT, Option.elim_some, if_neg hL, if_neg hp,
        hnext]

/-- One pass of `deallocuvm`'s loop at a page `a` below `oldsz`: it unmaps and frees the page
at `a`, and goes on at `a'`, the next page, or past an absent page table the next directory
entry, with nothing mapped in between. -/
theorem deallocuvmLoop_step {vm : Vm} {a : Nat} (k : Nat) (hs : vm.Sound ly pgdir)
    (ha : a % pgsize = 0) (hlt : a < oldsz) (hold : oldsz ≤ kernbase) :
    ∃ (a' : Nat) (vm' : Vm), a + pgsize ≤ a' ∧ a' % pgsize = 0 ∧
      vm.deallocuvmLoop ly pgdir oldsz (k + 1) a = vm'.deallocuvmLoop ly pgdir oldsz k a' ∧
      vm'.Sound ly pgdir ∧ (∀ d < 1024, vm'.table? pgdir d = vm.table? pgdir d) ∧
      (∀ va, va < kernbase →
        vm'.frame? pgdir va = if va / pgsize = a / pgsize then none else vm.frame? pgdir va) ∧
      ∀ va, a < va → va < a' → va % pgsize = 0 → vm.frame? pgdir va = none := by
  obtain ⟨a', ha', hm, hnone, ⟨hF, heq⟩ | ⟨T, rfl, hT, hF, heq⟩⟩ := deallocuvmLoop_next k hs ha hlt hold
  · refine ⟨a', vm, ha', hm, heq, hs, fun _ _ => rfl, fun va hva => ?_, hnone⟩
    split_ifs with hpg
    · rw [frame?_page hva (by omega) hpg, hF]
    · rfl
  · obtain ⟨ht, hf⟩ := unmap_frame hs (by omega) hT hF
    exact ⟨_, _, ha', hm, heq, hs.unmap (by omega) hT hF, ht, hf, hnone⟩

theorem deallocuvmLoop_stop {vm : Vm} {a : Nat} (k : Nat) (h : oldsz ≤ a) :
    vm.deallocuvmLoop ly pgdir oldsz (k + 1) a = .ok vm := by
  rw [deallocuvmLoop.eq_2, if_neg (by omega)]

/-- **`deallocuvm`'s loop.** From a page `a`, with fuel for the pages up to `oldsz`, it unmaps
and frees every user page of `[a, oldsz)`, keeps every other page and every page table, and
leaves the directory sound. -/
theorem deallocuvmLoop_spec (hold : oldsz ≤ kernbase) (k : Nat) :
    ∀ (a : Nat) (vm : Vm), vm.Sound ly pgdir → a % pgsize = 0 → oldsz ≤ a + k * pgsize →
      ∃ vm', vm.deallocuvmLoop ly pgdir oldsz (k + 1) a = .ok vm' ∧ vm'.Sound ly pgdir ∧
        (∀ d < 1024, vm'.table? pgdir d = vm.table? pgdir d) ∧
        ∀ va, va % pgsize = 0 → va < kernbase →
          vm'.frame? pgdir va = if a ≤ va ∧ va < oldsz then none else vm.frame? pgdir va := by
  induction k with
  | zero =>
    intro a vm hs _ hk
    exact ⟨vm, deallocuvmLoop_stop 0 (by omega), hs, fun _ _ => rfl, fun va _ _ => by rw [if_neg (by omega)]⟩
  | succ j ih =>
    intro a vm hs ha hk
    by_cases hlt : a < oldsz
    · obtain ⟨a', vm₁, ha', hm, heq, hs₁, ht₁, hf₁, hnone⟩ := deallocuvmLoop_step (j + 1) hs ha hlt hold
      obtain ⟨vm', hrun, hs', ht', hf'⟩ := ih a' vm₁ hs₁ hm (by simp only [pgsize] at *; omega)
      refine ⟨vm', heq.trans hrun, hs', fun d hd => (ht' d hd).trans (ht₁ d hd), fun va hm' hva => ?_⟩
      rw [hf' va hm' hva, hf₁ va hva]
      have := hnone va
      simp only [pgsize] at *
      split_ifs <;> first | rfl | omega | exact this (by omega) (by omega) hm'
    · exact ⟨vm, deallocuvmLoop_stop _ (by omega), hs, fun _ _ => rfl,
        fun va _ _ => by rw [if_neg (by omega)]⟩

/-- The entries of two different user pages of a sound directory are apart. -/
theorem entry_apart {vm : Vm} {va va' T T' : Nat} (hs : vm.Sound ly pgdir) (hva : va < kernbase)
    (hva' : va' < kernbase) (hT : vm.table? pgdir (pdx va) = some T)
    (hT' : vm.table? pgdir (pdx va') = some T') (hne : va / pgsize ≠ va' / pgsize) :
    T + 4 * ptx va + 4 ≤ T' + 4 * ptx va' ∨ T' + 4 * ptx va' + 4 ≤ T + 4 * ptx va := by
  have := ptx_lt va
  have := ptx_lt va'
  by_cases hd : pdx va = pdx va'
  · rw [hd, hT'] at hT
    cases hT
    have : ptx va ≠ ptx va' := fun ht => hne ((page_eq_iff hva hva').mpr ⟨hd, ht⟩)
    omega
  · have hp : pdx va < 512 := by rw [pdx_eq]; simp only [kernbase] at hva; omega
    have hp' : pdx va' < 512 := by rw [pdx_eq]; simp only [kernbase] at hva'; omega
    have : T ≠ T' := fun e => hd (hs.table_inj hp hp' hT (e ▸ hT'))
    have := vm.table?_mod hT
    have := vm.table?_mod hT'
    simp only [pgsize] at *; omega

/-- A user page of a sound directory is apart from every user page-table entry. -/
theorem frame_apart_entry {vm : Vm} {va va' T F : Nat} (hs : vm.Sound ly pgdir) (hva : va < kernbase)
    (hva' : va' < kernbase) (hF : vm.frame? pgdir va = some F) (hT : vm.table? pgdir (pdx va') = some T) :
    F + pgsize ≤ T + 4 * ptx va' ∨ T + 4 * ptx va' + 4 ≤ F := by
  have hp : pdx va' < 512 := by rw [pdx_eq]; simp only [kernbase] at hva'; omega
  have : F ≠ T := fun e => hs.frame_ne_table hva hp hF (by rw [e]; exact hT)
  have := vm.frame?_mod hF
  have := vm.table?_mod hT
  have := ptx_lt va'
  simp only [pgsize] at *; omega

theorem mappedIn_none {vm : Vm} {a F : Nat} (h : oldsz ≤ a) : ¬ vm.MappedIn pgdir a oldsz F :=
  fun ⟨_, _, h₁, h₂, _⟩ => by omega

/-- At or past `oldsz` the loop frees nothing. -/
theorem Freed.stop {vm : Vm} {a : Nat} (h : oldsz ≤ a) : vm.Freed pgdir oldsz a vm [] :=
  ⟨rfl, .nil, fun _ => iff_of_false (List.not_mem_nil _) (mappedIn_none h),
    fun _ _ _ h₁ h₂ => absurd h₂ (by omega), fun _ _ _ => rfl⟩

/-- Passing over addresses with no page mapped present frees and writes nothing. -/
theorem Freed.skip {vm vm' : Vm} {L : List Nat} {a a' : Nat} (ha' : a ≤ a')
    (hoff : ∀ va, va % pgsize = 0 → a ≤ va → va < a' → vm.frame? pgdir va = none)
    (h : vm.Freed pgdir oldsz a' vm' L) : vm.Freed pgdir oldsz a vm' L := by
  refine ⟨h.free_eq, h.nodup, fun F => (h.mem_iff F).trans ⟨MappedIn.mono ha', ?_⟩,
    fun va T h₁ h₂ h₃ h₄ h₅ => ?_, fun x hx hn => h.keep x hx (hn ∘ InEntry.mono ha')⟩
  · rintro ⟨va, h₁, h₂, h₃, h₄⟩
    refine ⟨va, h₁, Nat.le_of_not_lt fun h => ?_, h₃, h₄⟩
    rw [hoff va h₁ h₂ h] at h₄
    cases h₄
  · by_cases h' : va < a'
    · simp [hoff va h₁ h₂ h'] at h₄
    · exact h.clear va T h₁ (by omega) h₃ h₄ h₅

/-- Unmapping the page present at `a` pushes its frame after those of the rest of the run. -/
theorem Freed.unmap {vm vm' : Vm} {L : List Nat} {a T : Nat} (hs : vm.Sound ly pgdir)
    (ha : a % pgsize = 0) (hlt : a < oldsz) (hold : oldsz ≤ kernbase)
    (hT : vm.table? pgdir (pdx a) = some T)
    (hF : vm.frame? pgdir a = some (p2v (pteAddr (vm.rd32 (T + 4 * ptx a)))))
    (h : (vm.unmapPage T a).Freed pgdir oldsz (a + pgsize) vm' L) :
    vm.Freed pgdir oldsz a vm' (L ++ [p2v (pteAddr (vm.rd32 (T + 4 * ptx a)))]) := by
  set F := p2v (pteAddr (vm.rd32 (T + 4 * ptx a)))
  have hak : a < kernbase := by omega
  obtain ⟨ht, hf⟩ := unmap_frame hs hak hT hF
  have hoff (va) (h₁ : a + pgsize ≤ va) (h₂ : va < kernbase) :
      (vm.unmapPage T a).frame? pgdir va = vm.frame? pgdir va := by
    rw [hf va h₂, if_neg]; simp only [pgsize] at *; omega
  have hL (F') (h' : F' ∈ L) : vm.MappedIn pgdir (a + pgsize) oldsz F' := by
    obtain ⟨va, h₁, h₂, h₃, h₄⟩ := (h.mem_iff F').mp h'
    exact ⟨va, h₁, h₂, h₃, by rwa [hoff va h₂ (by omega)] at h₄⟩
  have hE (x) (h' : (vm.unmapPage T a).InEntry pgdir (a + pgsize) oldsz x) :
      vm.InEntry pgdir (a + pgsize) oldsz x := by
    obtain ⟨va, T', h₁, h₂, h₃, h₄, h₅, h₆⟩ := h'
    exact ⟨va, T', h₁, h₂, h₃, by rwa [hoff va h₂ (by omega)] at h₄, by rwa [ht _ (pdx_lt _)] at h₅, h₆⟩
  refine ⟨by rw [h.free_eq, List.append_assoc]; rfl,
    List.pairwise_append.mpr ⟨h.nodup, List.pairwise_singleton _ _, fun F' h₁ _ h₂ => ?_⟩,
    fun F' => ⟨fun h' => ?_, ?_⟩, fun va T' h₁ h₂ h₃ h₄ h₅ => ?_, fun x hx hn => ?_⟩
  · -- `F` is not pushed twice: the rest of the run frees only pages mapped past `a`
    obtain ⟨va, -, h₃, h₄, h₅⟩ := hL F' h₁
    rintro rfl
    rw [List.mem_singleton.mp h₂] at h₅
    have := hs.frame_inj (by omega) hak h₅ hF
    simp only [pgsize] at *; omega
  · rcases List.mem_append.mp h' with h' | h'
    · exact MappedIn.mono (by omega) (hL F' h')
    · exact ⟨a, ha, le_rfl, hlt, by rw [List.mem_singleton.mp h']; exact hF⟩
  · rintro ⟨va, h₁, h₂, h₃, h₄⟩
    by_cases hva : va = a
    · rw [hva, hF] at h₄
      exact List.mem_append_right _ (List.mem_singleton.mpr (Option.some.inj h₄).symm)
    · have : a + pgsize ≤ va := by simp only [pgsize] at *; omega
      exact List.mem_append_left _ ((h.mem_iff F').mpr ⟨va, h₁, this, h₃, by rwa [hoff va this (by omega)]⟩)
  · -- the entry of `a` is cleared here and no later pass writes it
    by_cases hva : va = a
    · rw [hva, hT] at h₅
      cases h₅
      rw [hva, Vm.rd32_congr (vm.unmapPage T a) fun x hx₁ hx₂ => h.keep x (fun F'' h => ?_) fun h => ?_]
      · simp only [unmapPage, Vm.rd32_wr32_self, Nat.zero_mod]
      · obtain ⟨va', -, h₂', h₃', h₄'⟩ := hL F'' h
        have := frame_apart_entry hs (by omega) hak h₄' hT
        omega
      · obtain ⟨va', T'', -, h₂', h₃', -, h₅', h₆'⟩ := hE x h
        have := entry_apart hs (by omega) hak h₅' hT (by simp only [pgsize] at *; omega)
        omega
    · have : a + pgsize ≤ va := by simp only [pgsize] at *; omega
      exact h.clear va T' h₁ this h₃ (by rwa [hoff va this (by omega)]) (by rwa [ht _ (pdx_lt _)])
  · -- a byte outside `F` and the entry of `a` is kept by this pass and by the rest
    rw [h.keep x (fun F'' h => hx F'' (List.mem_append_left _ h)) fun h => hn (InEntry.mono (by omega) (hE x h))]
    have hxF := hx F (List.mem_append_right _ (List.mem_singleton_self F))
    have hxT : T + 4 * ptx a + 4 ≤ x ∨ x + 1 ≤ T + 4 * ptx a := by
      by_contra hc
      exact hn ⟨a, T, ha, le_rfl, hlt, by rw [hF]; rfl, hT, by omega, by omega⟩
    exact agrees_unmapPage (by omega) hxT x le_rfl (by omega)

/-- **What `deallocuvm`'s loop frees and writes.** From a page `a`, with fuel for the pages up to
`oldsz`, it pushes on the free list, once each, exactly the pages mapped present in `[a, oldsz)`,
clears their entries, and writes no other byte of memory. -/
theorem deallocuvmLoop_frees (hold : oldsz ≤ kernbase) (k : Nat) :
    ∀ (a : Nat) (vm : Vm), vm.Sound ly pgdir → a % pgsize = 0 → oldsz ≤ a + k * pgsize →
      ∃ vm' L, vm.deallocuvmLoop ly pgdir oldsz (k + 1) a = .ok vm' ∧ vm.Freed pgdir oldsz a vm' L := by
  induction k with
  | zero => intro a vm _ _ hk; exact ⟨vm, [], deallocuvmLoop_stop 0 (by omega), .stop (by omega)⟩
  | succ j ih =>
    intro a vm hs ha hk
    by_cases hlt : a < oldsz
    swap
    · exact ⟨vm, [], deallocuvmLoop_stop _ (by omega), .stop (by omega)⟩
    obtain ⟨a', ha', hm, hnone, ⟨hF, heq⟩ | ⟨T, rfl, hT, hF, heq⟩⟩ := deallocuvmLoop_next (j + 1) hs ha hlt hold
    · obtain ⟨vm', L, hrun, h⟩ := ih a' vm hs hm (by simp only [pgsize] at *; omega)
      refine ⟨vm', L, heq.trans hrun, h.skip (by omega) fun va h₁ h₂ h₃ => ?_⟩
      rcases Nat.eq_or_lt_of_le h₂ with rfl | h₂
      exacts [hF, hnone va h₂ h₃ h₁]
    · obtain ⟨vm', L, hrun, h⟩ := ih (a + pgsize) _ (hs.unmap (by omega) hT hF) hm
        (by simp only [pgsize] at *; omega)
      exact ⟨vm', _, heq.trans hrun, h.unmap hs ha hlt hold hT hF⟩

/-- A page-aligned address lies below `PGROUNDUP(sz)` exactly when it lies below `sz`. -/
theorem lt_pgroundup_iff {va sz : Nat} (hva : va % pgsize = 0) (hsz : sz < kernbase) :
    va < pgroundup sz ↔ va < sz := by
  simp only [pgroundup, pgsize, kernbase] at *; omega

/-- **`deallocuvm`.** Below `KERNBASE`, shrinking a sound directory from `oldsz` to `newsz`
unmaps and frees exactly the user pages of `[PGROUNDUP(newsz), oldsz)`, keeps the page tables,
returns `newsz`, and leaves the directory sound. -/
theorem deallocuvm_spec {vm : Vm} {newsz : Nat} (hs : vm.Sound ly pgdir) (hold : oldsz ≤ kernbase)
    (hlt : newsz < oldsz) :
    ∃ vm', vm.deallocuvm ly pgdir oldsz newsz = .ok (newsz, vm') ∧ vm'.Sound ly pgdir ∧
      (∀ d < 1024, vm'.table? pgdir d = vm.table? pgdir d) ∧
      ∀ va, va % pgsize = 0 → va < kernbase →
        vm'.frame? pgdir va = if pgroundup newsz ≤ va ∧ va < oldsz then none else vm.frame? pgdir va := by
  obtain ⟨vm', h, rest⟩ := deallocuvmLoop_spec hold (2 ^ 20) (pgroundup newsz) vm hs
    (by simp only [pgroundup, pgsize]; omega) (by simp only [pgsize, kernbase] at *; omega)
  refine ⟨vm', ?_, rest⟩
  rw [deallocuvm, if_neg (by omega), pageFuel, h]
  rfl

/-- **`deallocuvm` frees exactly the pages it unmaps.** Below `KERNBASE`, for a sound directory
whose user pages are apart from all its page tables, shrinking from `oldsz` to `newsz` returns
`newsz`. It pushes on the free list, once each, exactly the pages mapped present at the
page-aligned addresses of `[PGROUNDUP(newsz), oldsz)`, unmaps and clears exactly their entries,
and writes no other byte: the directory and every page table are untouched but for those
entries. -/
theorem deallocuvm_frees_exactly {vm : Vm} {newsz : Nat} (hs : vm.Sound ly pgdir)
    (hkt : ∀ {va F d}, va < kernbase → d < 1024 → vm.frame? pgdir va = some F → vm.table? pgdir d ≠ some F)
    (hold : oldsz ≤ kernbase) (hlt : newsz < oldsz) :
    ∃ vm' L, vm.deallocuvm ly pgdir oldsz newsz = .ok (newsz, vm') ∧
      vm'.free = L ++ vm.free ∧ L.Nodup ∧ (∀ F, F ∈ L ↔ vm.MappedIn pgdir (pgroundup newsz) oldsz F) ∧
      (∀ va, va % pgsize = 0 → va < kernbase →
        vm'.frame? pgdir va = if pgroundup newsz ≤ va ∧ va < oldsz then none else vm.frame? pgdir va) ∧
      (∀ va T, va % pgsize = 0 → pgroundup newsz ≤ va → va < oldsz → (vm.frame? pgdir va).isSome →
        vm.table? pgdir (pdx va) = some T → vm'.rd32 (T + 4 * ptx va) = 0) ∧
      (∀ x, (∀ F ∈ L, x < F ∨ F + pgsize ≤ x) → ¬ vm.InEntry pgdir (pgroundup newsz) oldsz x →
        vm'.mem x = vm.mem x) ∧
      ∀ x, (pgdir ≤ x ∧ x < pgdir + pgsize ∨
          ∃ d T, d < 1024 ∧ vm.table? pgdir d = some T ∧ T ≤ x ∧ x < T + pgsize) →
        ¬ vm.InEntry pgdir (pgroundup newsz) oldsz x → vm'.mem x = vm.mem x := by
  have h₁ : pgroundup newsz % pgsize = 0 := by simp only [pgroundup, pgsize]; omega
  have h₂ : oldsz ≤ pgroundup newsz + 2 ^ 20 * pgsize := by simp only [pgsize, kernbase] at *; omega
  obtain ⟨vm₁, hrun₁, -, -, hf⟩ := deallocuvmLoop_spec hold _ _ vm hs h₁ h₂
  obtain ⟨vm', L, hrun, ⟨hfree, hnd, hmem, hclr, hkeep⟩⟩ := deallocuvmLoop_frees hold _ _ vm hs h₁ h₂
  obtain rfl := Except.ok.inj (hrun₁.symm.trans hrun)
  refine ⟨vm₁, L, by rw [deallocuvm, if_neg (by omega), pageFuel, hrun]; rfl, hfree, hnd, hmem, hf, hclr,
    hkeep, fun x hx hn => hkeep x (fun F hF => ?_) hn⟩
  obtain ⟨va, -, -, hva, hva'⟩ := (hmem F).mp hF
  have hk : va < kernbase := by omega
  have := vm.frame?_mod hva'
  rcases hx with hx | ⟨d, T, hd, hT, hx⟩
  · have := hs.frame_ne hk hva'
    have := hs.dir_mod
    simp only [pgsize] at *; omega
  · have : F ≠ T := fun e => hkt hk hd hva' (e ▸ hT)
    have := vm.table?_mod hT
    simp only [pgsize] at *; omega

end Dealloc

/-! ## `growproc` -/

/-- The address-space invariant of a process of size `sz`: `sz < KERNBASE`, and `pgdir` maps
present exactly the user pages below `PGROUNDUP(sz)`. -/
def Uvm (pgdir sz : Nat) : Prop :=
  sz < kernbase ∧
    ∀ va, va % pgsize = 0 → va < kernbase → ((vm.frame? pgdir va).isSome ↔ va < pgroundup sz)

/-- **`growproc(-sz)` fails after freeing everything.** For a process of size `sz > 0` whose
sound directory satisfies the address-space invariant, `growproc(-sz)` unmaps and frees every
user page and then returns -1, because `deallocuvm` returns the new size 0 and `growproc`
takes 0 for failure. The process keeps its size `sz` while its directory maps nothing: the
invariant no longer holds. -/
theorem growproc_shrink_to_zero {vm : Vm} {pgdir sz : Nat} (hs : vm.Sound ly pgdir) (hu : vm.Uvm pgdir sz)
    (hsz : 0 < sz) :
    ∃ vm', vm.growproc ly pgdir sz (-sz) = .ok (-1, sz, vm') ∧ vm'.Uvm pgdir 0 ∧ ¬ vm'.Uvm pgdir sz := by
  obtain ⟨hk, hmap⟩ := hu
  obtain ⟨vm', h, -, -, hf⟩ := deallocuvm_spec hs hk.le hsz
  have hnone (va) (hm : va % pgsize = 0) (hva : va < kernbase) : vm'.frame? pgdir va = none := by
    rw [hf va hm hva]
    split_ifs with hin
    · rfl
    · have := (hmap va hm hva).not.mpr (by rw [lt_pgroundup_iff hm hk]; simp only [pgroundup, pgsize] at hin; omega)
      simpa using this
  have h0 : pgroundup 0 = 0 := rfl
  refine ⟨vm', ?_, ⟨by simp only [kernbase]; omega, fun va hm hva => by simp [hnone va hm hva, h0]⟩,
    fun ⟨_, hmap'⟩ => ?_⟩
  · have ht : ((sz : Int) + -sz) % 2 ^ 32 = 0 := by omega
    simp only [growproc, ht, Int.toNat_zero, h, Except.map, if_true]
    rw [if_neg (by omega), if_pos (by omega)]
  · have := (hmap' 0 rfl (by simp only [kernbase]; omega)).mpr (by rw [lt_pgroundup_iff rfl hk]; exact hsz)
    simp [hnone 0 rfl (by simp only [kernbase]; omega)] at this


/-- Memory that holds only a directory at `P` whose entry 0 points to a page table at `T`,
whose entry 0 maps the page `F` at address 0, each entry as `walkpgdir` and `mappages` write
it. -/
def oneUserPage (P T F : Nat) : Vm :=
  ((⟨fun _ => 0, []⟩ : Vm).wr32 P (v2p T ||| pteP ||| pteW ||| pteU)).wr32 T
    (v2p F ||| (pteW ||| pteU) ||| pteP)

/-- A kernel image whose data starts at 0x80108000 and ends below 0x80116000. -/
def sampleLayout : Layout := ⟨0x80108000, 0x80116000⟩

theorem rd32_zero (l : List Nat) (v : Nat) : (⟨fun _ => 0, l⟩ : Vm).rd32 v = 0 := rfl

theorem oneUserPage_table {d : Nat} (hd : d < 1024) :
    (oneUserPage 0x80400000 0x80401000 0x80402000).table? 0x80400000 d =
      if d = 0 then some 0x80401000 else none := by
  unfold oneUserPage table?
  rw [Vm.rd32_wr32_of_ne _ _ (.inr (by omega))]
  by_cases h0 : d = 0
  · rw [h0, Nat.mul_zero, Nat.add_zero, rd32_wr32_self]; decide
  · rw [rd32_wr32_of_ne _ _ (.inl (by omega)), rd32_zero, if_neg h0]; rfl

theorem oneUserPage_frame {va : Nat} (hva : va < kernbase) :
    (oneUserPage 0x80400000 0x80401000 0x80402000).frame? 0x80400000 va =
      if va < 4096 then some 0x80402000 else none := by
  have := ptx_lt va
  simp only [kernbase] at hva
  by_cases h0 : pdx va = 0
  · rw [frame?_of_table _ (by rw [oneUserPage_table (pdx_lt va), if_pos h0])]
    unfold oneUserPage
    by_cases ht : ptx va = 0
    · have : va < 4096 := by rw [pdx_eq] at h0; rw [ptx_eq] at ht; omega
      rw [ht, Nat.mul_zero, Nat.add_zero, rd32_wr32_self, if_pos this]; decide
    · have : ¬ va < 4096 := by rw [ptx_eq] at ht; omega
      rw [rd32_wr32_of_ne _ _ (.inl (by omega)), rd32_wr32_of_ne _ _ (.inl (by omega)), rd32_zero,
        if_neg this]
      rfl
  · have : ¬ va < 4096 := by rw [pdx_eq] at h0; omega
    rw [frame?_of_no_table _ (by rw [oneUserPage_table (pdx_lt va), if_neg h0]), if_neg this]

/-- The sample directory is sound and maps exactly the page of a process of size `PGSIZE`. -/
theorem oneUserPage_sound :
    (oneUserPage 0x80400000 0x80401000 0x80402000).Sound sampleLayout 0x80400000 ∧
      (oneUserPage 0x80400000 0x80401000 0x80402000).Uvm 0x80400000 4096 := by
  have ht {d T} (hd : d < 512) (h : (oneUserPage 0x80400000 0x80401000 0x80402000).table? 0x80400000 d = some T) :
      d = 0 ∧ T = 0x80401000 := by
    rw [oneUserPage_table (by omega)] at h
    by_cases h0 : d = 0
    · rw [if_pos h0] at h; exact ⟨h0, (Option.some.inj h).symm⟩
    · rw [if_neg h0] at h; cases h
  have hf {va F} (hva : va < kernbase) (h : (oneUserPage 0x80400000 0x80401000 0x80402000).frame? 0x80400000 va = some F) :
      va < 4096 ∧ F = 0x80402000 := by
    rw [oneUserPage_frame hva] at h
    by_cases h0 : va < 4096
    · rw [if_pos h0] at h; exact ⟨h0, (Option.some.inj h).symm⟩
    · rw [if_neg h0] at h; cases h
  refine ⟨⟨by decide, fun hd h => ?_, fun hd hd' h h' => ?_, fun hva h => ?_, fun hva hd h h' => ?_,
    fun hva hva' h h' => ?_, fun hva h => ?_⟩, by simp only [kernbase]; omega, fun va _ hva => ?_⟩
  · rw [(ht hd h).2]; decide
  · rw [(ht hd h).1, (ht hd' h').1]
  · rw [(hf hva h).2]; decide
  · obtain ⟨-, rfl⟩ := hf hva h; have := (ht hd h').2; omega
  · have := (hf hva h).1; have := (hf hva' h').1; simp only [pgsize]; omega
  · rw [(hf hva h).2]; decide
  · rw [oneUserPage_frame hva, show pgroundup 4096 = 4096 from rfl]
    split_ifs <;> simp_all

/-- A directory whose entry for address 0 is present but holds physical address 0: `deallocuvm`
stops at its `panic("kfree")` instead of returning. -/
theorem deallocuvm_pa_zero_panics :
    4096 ≤ kernbase ∧ 0 < 4096 ∧
      (oneUserPage 0x80400000 0x80401000 kernbase).deallocuvm sampleLayout 0x80400000 4096 0 =
        .error (.panic "kfree") := by
  have hT : (oneUserPage 0x80400000 0x80401000 kernbase).table? 0x80400000 (pdx (pgroundup 0)) =
      some 0x80401000 := by decide
  refine ⟨by decide, by decide, ?_⟩
  rw [deallocuvm, if_neg (by decide), pageFuel, deallocuvmLoop.eq_2, if_pos (by decide), walkpgdir_false, hT,
    Option.elim_some]
  simp only
  rw [if_neg (by decide), if_pos (by decide), if_pos (by decide)]
  rfl

/-- The sample's one user page is apart from its one page table, and shrinking the sample to 0
frees exactly that page. -/
theorem deallocuvm_frees_exactly_sample :
    (oneUserPage 0x80400000 0x80401000 0x80402000).Sound sampleLayout 0x80400000 ∧
      (∀ {va F d}, va < kernbase → d < 1024 →
        (oneUserPage 0x80400000 0x80401000 0x80402000).frame? 0x80400000 va = some F →
        (oneUserPage 0x80400000 0x80401000 0x80402000).table? 0x80400000 d ≠ some F) ∧
      4096 ≤ kernbase ∧ 0 < 4096 ∧
      ∃ vm', (oneUserPage 0x80400000 0x80401000 0x80402000).deallocuvm sampleLayout 0x80400000 4096 0 =
        .ok (0, vm') ∧ vm'.free = [0x80402000] := by
  have hkt {va F d} (hva : va < kernbase) (hd : d < 1024)
      (hF : (oneUserPage 0x80400000 0x80401000 0x80402000).frame? 0x80400000 va = some F) :
      (oneUserPage 0x80400000 0x80401000 0x80402000).table? 0x80400000 d ≠ some F := by
    rw [oneUserPage_frame hva] at hF
    rw [oneUserPage_table hd]
    split_ifs at hF ⊢ <;> cases hF <;> decide
  obtain ⟨vm', L, h, hfree, hnd, hmem, -⟩ := deallocuvm_frees_exactly oneUserPage_sound.1 hkt
    (show 4096 ≤ kernbase by decide) (show 0 < 4096 by decide)
  refine ⟨oneUserPage_sound.1, hkt, by decide, by decide, vm', h, ?_⟩
  have hL (F : Nat) : F ∈ L ↔ F ∈ [0x80402000] := by
    rw [hmem, List.mem_singleton]
    constructor
    · rintro ⟨va, -, -, hva, hF⟩
      rw [oneUserPage_frame (by simp only [kernbase]; omega), if_pos hva] at hF
      exact (Option.some.inj hF).symm
    · rintro rfl
      exact ⟨0, rfl, le_rfl, by decide, by rw [oneUserPage_frame (by decide)]; rfl⟩
  rw [hfree, List.perm_singleton.mp ((List.perm_ext_iff_of_nodup hnd (List.pairwise_singleton _ _)).mpr hL)]
  rfl

/-- `growproc(-PGSIZE)` from the sample, a process of size `PGSIZE` with one user page. -/
theorem growproc_shrink_to_zero_sample :
    (oneUserPage 0x80400000 0x80401000 0x80402000).Sound sampleLayout 0x80400000 ∧
      (oneUserPage 0x80400000 0x80401000 0x80402000).Uvm 0x80400000 4096 ∧ 0 < 4096 ∧
      ∃ vm', (oneUserPage 0x80400000 0x80401000 0x80402000).growproc sampleLayout 0x80400000 4096 (-4096) =
        .ok (-1, 4096, vm') ∧ vm'.Uvm 0x80400000 0 ∧ ¬ vm'.Uvm 0x80400000 4096 :=
  ⟨oneUserPage_sound.1, oneUserPage_sound.2, by decide,
    growproc_shrink_to_zero sampleLayout oneUserPage_sound.1 oneUserPage_sound.2 (by decide)⟩

/-! ## `copyout` -/

theorem pdx_pgrounddown (va : Nat) : pdx (pgrounddown va) = pdx va := by
  simp only [pdx_eq, pgrounddown, pgsize]; omega

/-- **`uva2ka` reads through the null pointer.** When the page table for `va` is absent,
`walkpgdir(pgdir, va, 0)` returns 0 and `uva2ka` dereferences it, so `copyout` of a non-empty
buffer to `va` ends in the null dereference before it can return 0 or -1. -/
theorem copyout_null_pte {vm : Vm} {pgdir va p len : Nat} (hlen : 0 < len)
    (hpde : vm.table? pgdir (pdx va) = none) :
    vm.copyout pgdir va p len = .error .nullDeref := by
  rw [copyout, if_neg (by omega)]
  have : vm.uva2ka pgdir (pgrounddown va) = .error .nullDeref := by
    simp only [uva2ka, walkpgdir_false, pdx_pgrounddown, hpde, Option.elim_none, if_true]
  rw [this]
  rfl

/-- On zeroed memory no page table is present: copying one byte to address 0 reads through
the null pointer. -/
theorem copyout_null_pte_zeroed :
    0 < 1 ∧ (⟨fun _ => 0, []⟩ : Vm).table? 0x80400000 (pdx 0) = none ∧
      (⟨fun _ => 0, []⟩ : Vm).copyout 0x80400000 0 0x80500000 1 = .error .nullDeref :=
  ⟨by decide, rfl, copyout_null_pte (by decide) rfl⟩

end Vm

end Xv6
