import Xv6.Fork

/-!
# Handing physical memory to the allocator

`main` fills the free list in two phases: `kinit1(end, P2V(4*1024*1024))` frees the pages that
`entrypgdir` maps, `kvmalloc()` builds `kpgdir` from some of them, and once `kpgdir` maps all of
physical memory `kinit2(P2V(4*1024*1024), P2V(PHYSTOP))` frees the rest. Both `kinit`s are
`freerange` (`Vm.freerange`), beside the lock flag `use_lock`, which the model does not keep.

`freerangeLoop_spec` says what the loop frees: the whole pages from `PGROUNDUP(vstart)` to `vend`,
each filled with ones and pushed once. `kinit_kvmalloc` puts the two phases and `setupkvm`
between them together.
-/

namespace Xv6

namespace Vm

variable (vm : Vm) (ly : Layout)

/-- The loop of `freerange` at `p`: `kfree(p)` while `p + PGSIZE <= vend`. -/
def freerangeLoop (vm : Vm) (vend : Nat) : Nat → Nat → Except Fault Vm
  | 0, _ => .error .hang
  | k + 1, p =>
    if (p + pgsize) % 2 ^ 32 ≤ vend then do
      let vm ← vm.kfree ly p
      vm.freerangeLoop vend k ((p + pgsize) % 2 ^ 32)
    else .ok vm

/-- `freerange(vstart, vend)`: `kfree` each whole page from `PGROUNDUP(vstart)` up to `vend`. -/
def freerange (vstart vend : Nat) : Except Fault Vm :=
  vm.freerangeLoop ly vend pageFuel (pgroundup vstart)

variable {vm ly}

/-- **`freerange`'s loop.** From a page `p` at or above `end`, with fuel for the pages up to
`vend` below `P2V(PHYSTOP)`, and free pages none of which is one of those, the loop returns: it
adds to the free list, each once, exactly the whole pages from `p` to `vend`, and fills them with
ones, changing no other byte. -/
theorem freerangeLoop_spec (hend : kernbase < ly.kend) {vend : Nat} (hv : vend ≤ p2v phystop) (k : Nat) :
    ∀ p (vm : Vm), p % pgsize = 0 → ly.kend ≤ p → p ≤ p2v phystop → (vend - p) / pgsize < k →
      vm.Alloc ly → (∀ f ∈ vm.free, f < p ∨ vend < f + pgsize) →
      ∃ vm', vm.freerangeLoop ly vend k p = .ok vm' ∧ vm'.Alloc ly ∧
        (∀ G, G ∈ vm'.free ↔ G ∈ vm.free ∨ G % pgsize = 0 ∧ p ≤ G ∧ G + pgsize ≤ vend) ∧
        ∀ x, vm'.mem x = if p ≤ x ∧ pgrounddown x + pgsize ≤ vend then 1 else vm.mem x := by
  induction k with
  | zero => intro p vm _ _ _ hk; exact absurd hk (Nat.not_lt_zero _)
  | succ k ih =>
    intro p vm hp hkp hpv hk ha hdis
    have hnw : (p + pgsize) % 2 ^ 32 = p + pgsize :=
      Nat.mod_eq_of_lt (by simp only [p2v, phystop, kernbase, pgsize] at *; omega)
    by_cases hle : p + pgsize ≤ vend
    · -- `kfree(p)`, then the pages after it
      have hp₁ : p ∉ vm.free := fun h => by have := hdis p h; omega
      have hv₁ : v2p p < phystop := by simp only [v2p, p2v, phystop, kernbase, pgsize] at *; omega
      have ha₁ : ({ vm.memset p 1 pgsize with free := p :: vm.free } : Vm).Alloc ly :=
        ⟨List.nodup_cons.mpr ⟨hp₁, ha.nodup⟩, fun f hf => by
          rcases List.mem_cons.mp hf with rfl | hf
          exacts [⟨hp, by omega, hkp, hv₁⟩, ha.ok f hf]⟩
      have hk₁ : (vend - (p + pgsize)) / pgsize < k := by
        simp only [pgsize] at hk hle ⊢; omega
      obtain ⟨vm', hrun, ha', hmem, hbytes⟩ := ih (p + pgsize) _
        (by simp only [pgsize] at *; omega) (by omega) (by omega) hk₁ ha₁
        fun f hf => by
          rcases List.mem_cons.mp hf with rfl | hf
          · exact .inl (Nat.lt_add_of_pos_right (by decide))
          · have := hdis f hf; omega
      refine ⟨vm', ?_, ha', fun G => ?_, fun x => ?_⟩
      · rw [freerangeLoop, hnw, if_pos hle, kfree_ok vm ly hp hkp hv₁]
        exact hrun
      · rw [hmem, List.mem_cons]
        constructor
        · rintro ((rfl | h) | ⟨h₁, h₂, h₃⟩)
          exacts [.inr ⟨hp, le_rfl, hle⟩, .inl h, .inr ⟨h₁, by omega, h₃⟩]
        · rintro (h | ⟨h₁, h₂, h₃⟩)
          · exact .inl (.inr h)
          by_cases e : G = p
          exacts [.inl (.inl e), .inr ⟨h₁, by simp only [pgsize] at *; omega, h₃⟩]
      · rw [hbytes]
        show (if _ then _ else if p ≤ x ∧ x < p + pgsize then _ else _) = _
        simp only [pgrounddown, pgsize] at *
        split_ifs <;> first | rfl | omega
    · -- past the last whole page
      refine ⟨vm, by rw [freerangeLoop, hnw, if_neg hle], ha, fun G => ?_, fun x => ?_⟩
      · simp only [pgsize] at *
        constructor
        · exact .inl
        · rintro (h | ⟨h₁, h₂, h₃⟩)
          exacts [h, absurd hle (by omega)]
      · rw [if_neg]
        simp only [pgrounddown, pgsize] at *
        omega

/-- `freerange(vstart, vend)` from `end` up to `P2V(PHYSTOP)`, beside free pages none of which is
one of its pages. -/
theorem freerange_run (hend : kernbase < ly.kend) {vstart vend : Nat} (hs : ly.kend ≤ vstart)
    (hst : vstart ≤ p2v phystop) (hv : vend ≤ p2v phystop) (ha : vm.Alloc ly)
    (hdis : ∀ f ∈ vm.free, f < pgroundup vstart ∨ vend < f + pgsize) :
    ∃ vm', vm.freerange ly vstart vend = .ok vm' ∧ vm'.Alloc ly ∧
      (∀ G, G ∈ vm'.free ↔ G ∈ vm.free ∨ G % pgsize = 0 ∧ pgroundup vstart ≤ G ∧ G + pgsize ≤ vend) ∧
      ∀ x, vm'.mem x = if pgroundup vstart ≤ x ∧ pgrounddown x + pgsize ≤ vend then 1 else vm.mem x := by
  have : vstart ≤ pgroundup vstart ∧ pgroundup vstart ≤ p2v phystop := by
    simp only [pgroundup, pgsize, p2v, phystop, kernbase] at *; omega
  exact freerangeLoop_spec hend hv pageFuel _ vm (pgroundup_mod vstart) (by omega) this.2
    (by simp only [pageFuel, pgsize, p2v, phystop, kernbase] at *; omega) ha hdis

/-- `freerange` from `p` leaves an address space whose pages all lie below `p` as it was: whole,
owning the same pages and mapping every address the same. -/
theorem Held.freerange {d p vend : Nat} {vm' : Vm} (h : vm.Held ly d) (ha' : vm'.Alloc ly) (hp : p % pgsize = 0)
    (hbelow : ∀ G, vm.Owns d G → G + pgsize ≤ p)
    (hfree : ∀ G, G ∈ vm'.free ↔ G ∈ vm.free ∨ G % pgsize = 0 ∧ p ≤ G ∧ G + pgsize ≤ vend)
    (hmem : ∀ x, vm'.mem x = if p ≤ x ∧ pgrounddown x + pgsize ≤ vend then 1 else vm.mem x) :
    vm'.Held ly d ∧ (∀ G, vm'.Owns d G ↔ vm.Owns d G) ∧ ∀ va, vm'.entry? d va = vm.entry? d va := by
  -- the pages `freerange` may write are free or above the address space
  have hS (G) (hG : G ∈ vm.free ∨ G % pgsize = 0 ∧ p ≤ G ∧ G + pgsize ≤ vend) :
      G % pgsize = 0 ∧ ¬ vm.Owns d G := by
    rcases hG with hG | ⟨h₁, h₂, -⟩
    · exact ⟨(h.alloc.ok G hG).1, h.apart G hG⟩
    · exact ⟨h₁, fun ho => by have := hbelow G ho; simp only [pgsize] at this; omega⟩
  have hkeep (x) (hx : ∀ G, (G ∈ vm.free ∨ G % pgsize = 0 ∧ p ≤ G ∧ G + pgsize ≤ vend) →
      x < G ∨ G + pgsize ≤ x) : vm'.mem x = vm.mem x := by
    rw [hmem, if_neg]
    rintro ⟨h₁, h₂⟩
    have : x < pgrounddown x ∨ pgrounddown x + pgsize ≤ x :=
      hx _ (.inr ⟨by simp only [pgrounddown, pgsize]; omega, by simp only [pgrounddown, pgsize] at hp ⊢; omega, h₂⟩)
    simp only [pgrounddown, pgsize] at this; omega
  obtain ⟨hh, hown, -⟩ := h.of_apart ha' hS (fun G hG => (hfree G).mp hG) hkeep
  obtain ⟨-, hpte, -⟩ := reads_of_keep fun x hx =>
    hkeep x fun G hG => h.space.apart_of_not_owns (hS G hG).1 (hS G hG).2 hx
  exact ⟨hh, hown, fun va => by rw [entry?, hpte, ← entry?]⟩

/-- The first page past the pages `entrypgdir` maps, `P2V(4*1024*1024)`. -/
def fourMeg : Nat := p2v (4 * 1024 * 1024)

/-- **The free list after boot.** From the empty free list, with `end` above `KERNBASE` and at
most `P2V(4*1024*1024)`: `kinit1`, the `setupkvm` of `kvmalloc` and `kinit2` return, and every
whole page from `PGROUNDUP(end)` to `PHYSTOP` is then free, once, or a page of `kpgdir`, never
both, and no other page is free. `kpgdir`, unless `setupkvm` found too few pages and returned 0,
is a whole address space that maps the kernel half as `kmap` asks; and when `kinit1` frees at
least 65 pages, those from `PGROUNDUP(end)` to `P2V(4*1024*1024)`, it is not 0. -/
theorem kinit_kvmalloc (hend : kernbase < ly.kend) (hlow : ly.kend ≤ fourMeg) (hly : ly.Ok)
    (hnil : vm.free = []) :
    ∃ vm₁ d vm₂ vm₃, vm.freerange ly ly.kend fourMeg = .ok vm₁ ∧ vm₁.setupkvm ly = .ok (d, vm₂) ∧
      vm₂.freerange ly fourMeg (p2v phystop) = .ok vm₃ ∧ vm₃.Alloc ly ∧
      (∀ G, G ∈ vm₃.free ∨ d ≠ 0 ∧ vm₃.Owns d G ↔
        G % pgsize = 0 ∧ pgroundup ly.kend ≤ G ∧ G + pgsize ≤ p2v phystop) ∧
      (d ≠ 0 → vm₃.Held ly d ∧ ∀ va < 2 ^ 32, vm₃.entry? d va = kernelEntry? ly va) ∧
      (pgroundup ly.kend + 65 * pgsize ≤ fourMeg → d ≠ 0) := by
  have h4 : fourMeg ≤ p2v phystop := by decide
  have hr4 : pgroundup fourMeg = fourMeg := by decide
  -- `kinit1`
  obtain ⟨vm₁, hrun₁, ha₁, hfree₁, -⟩ := freerange_run hend le_rfl (hlow.trans h4) h4
    (show vm.Alloc ly from ⟨by rw [hnil]; exact List.nodup_nil, by simp only [hnil, List.not_mem_nil, false_implies, implies_true]⟩)
    (by simp only [hnil, List.not_mem_nil, false_implies, implies_true])
  have hlow₁ (G) (hG : G ∈ vm₁.free) : G + pgsize ≤ fourMeg := by
    rw [hfree₁, hnil] at hG
    exact hG.elim (fun h => absurd h (List.not_mem_nil G)) fun h => h.2.2
  -- the 65 pages from `PGROUNDUP(end)`, when they lie below `P2V(4*1024*1024)`, are all free
  have hmany (h65 : pgroundup ly.kend + 65 * pgsize ≤ fourMeg) : 65 ≤ vm₁.free.length := by
    have hsub : (List.range 65).map (fun k => pgroundup ly.kend + k * pgsize) ⊆ vm₁.free := fun G hG => by
      obtain ⟨k, hk, rfl⟩ := List.mem_map.mp hG
      have := List.mem_range.mp hk
      rw [hfree₁]
      refine .inr ⟨?_, Nat.le_add_right _ _, ?_⟩ <;> simp only [pgroundup, pgsize] at * <;> omega
    have := (((List.nodup_range 65).map fun i j e => by simp only [pgsize] at e; omega).subperm hsub).length_le
    rwa [List.length_map, List.length_range] at this
  -- `kvmalloc`'s `setupkvm`, which takes its pages from those
  obtain ⟨d, vm₂, hrun₂, -, hr⟩ := setupkvm_run ha₁ hly
  have hsub₂ (G) (hG : G ∈ vm₂.free) : G ∈ vm₁.free := by
    rcases hr with ⟨-, hp, -⟩ | ⟨L, b⟩
    exacts [hp.mem_iff.mp hG, b.owned_free (.inr hG)]
  have ha₂ : vm₂.Alloc ly := by
    rcases hr with ⟨-, hp, -⟩ | ⟨L, b⟩
    exacts [ha₁.of_perm hp, b.held.alloc]
  -- `kinit2`
  obtain ⟨vm₃, hrun₃, ha₃, hfree₃, hmem₃⟩ := freerange_run hend (hlow.trans (by decide)) h4 le_rfl ha₂
    fun f hf => .inl (by have := hlow₁ f (hsub₂ f hf); rw [hr4]; simp only [pgsize] at this; omega)
  rw [hr4] at hfree₃ hmem₃
  -- the two ranges are one
  have hrange (G) : (G % pgsize = 0 ∧ pgroundup ly.kend ≤ G ∧ G + pgsize ≤ fourMeg) ∨
      (G % pgsize = 0 ∧ fourMeg ≤ G ∧ G + pgsize ≤ p2v phystop) ↔
      G % pgsize = 0 ∧ pgroundup ly.kend ≤ G ∧ G + pgsize ≤ p2v phystop := by
    have : pgroundup ly.kend ≤ fourMeg := by
      simp only [pgroundup, fourMeg, p2v, pgsize, kernbase] at hlow ⊢; omega
    simp only [fourMeg, p2v, phystop, pgsize, kernbase] at this ⊢
    omega
  refine ⟨vm₁, d, vm₂, vm₃, hrun₁, hrun₂, hrun₃, ha₃, ?_⟩
  rcases hr with ⟨rfl, hp, hshort⟩ | ⟨L, b⟩
  · -- `setupkvm` found too few pages and gave them back
    refine ⟨fun G => ?_, fun h => absurd rfl h, fun h65 => absurd (hmany h65) (by omega)⟩
    rw [hfree₃, hp.mem_iff, hfree₁, hnil, ← hrange]
    simp only [ne_eq, not_true_eq_false, false_and, or_false, List.not_mem_nil, false_or]
  -- `kinit2` leaves `kpgdir`, whose pages all lie below `P2V(4*1024*1024)`, as it was
  obtain ⟨hh₃, hown₃, hent₃⟩ := b.held.freerange ha₃ (by decide) (fun G ho => hlow₁ G (b.owned_free (.inl ho))) hfree₃ hmem₃
  have hd : d ≠ 0 := (Nat.zero_lt_of_lt (ha₁.ok d ((b.mem_iff d).mpr (.inl ((b.owns d).mpr (.inl rfl))))).2.1).ne'
  refine ⟨fun G => ?_, fun _ => ⟨hh₃, fun va hva => ?_⟩, fun _ => hd⟩
  · have h₁ := hfree₁ G
    rw [hnil, List.mem_nil_iff, false_or, b.mem_iff] at h₁
    rw [hfree₃, hown₃, ← hrange, ← h₁]
    simp only [hd, ne_eq, not_false_eq_true, true_and, or_assoc, or_comm, or_left_comm]
  · rw [hent₃, b.entry va hva, kmap_entry hly hva]

/-- Memory before `kinit1`: every byte zero and the free list empty. -/
def coldBoot : Vm := ⟨fun _ => 0, []⟩

/-- From a cold boot with the sample kernel image, `kinit1` frees 746 pages, and `kpgdir` is built. -/
theorem kinit_kvmalloc_coldBoot :
    kernbase < sampleLayout.kend ∧ sampleLayout.kend ≤ fourMeg ∧ sampleLayout.Ok ∧ coldBoot.free = [] ∧
      ∃ vm₁ d vm₂ vm₃, coldBoot.freerange sampleLayout sampleLayout.kend fourMeg = .ok vm₁ ∧
        vm₁.setupkvm sampleLayout = .ok (d, vm₂) ∧
        vm₂.freerange sampleLayout fourMeg (p2v phystop) = .ok vm₃ ∧ vm₃.Alloc sampleLayout ∧
        (∀ G, G ∈ vm₃.free ∨ d ≠ 0 ∧ vm₃.Owns d G ↔
          G % pgsize = 0 ∧ pgroundup sampleLayout.kend ≤ G ∧ G + pgsize ≤ p2v phystop) ∧
        d ≠ 0 ∧ vm₃.Held sampleLayout d ∧ ∀ va < 2 ^ 32, vm₃.entry? d va = kernelEntry? sampleLayout va := by
  have hly : sampleLayout.Ok := ⟨by decide, by decide, by decide⟩
  obtain ⟨vm₁, d, vm₂, vm₃, h₁, h₂, h₃, ha, hmem, hkpg, h65⟩ := kinit_kvmalloc (by decide) (by decide) hly
    (show coldBoot.free = [] from rfl)
  have hd := h65 (by decide)
  exact ⟨by decide, by decide, hly, rfl, vm₁, d, vm₂, vm₃, h₁, h₂, h₃, ha, hmem, hd, hkpg hd⟩

end Vm

end Xv6
