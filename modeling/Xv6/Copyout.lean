import Xv6.Grow

/-!
# `copyout`

`copyout(pgdir, va, p, len)` writes a kernel buffer into user memory through the process's own
page table, a page at a time, with `uva2ka` finding each page's kernel address. Over a whole
address space in which every page of `[va, va + len)` is present to the user, it returns 0, and
the process then reads the buffer at `va` (`copyout_reads_back`): `Vm.userByte?` is the byte the
process sees at a user address, through its page table.
-/

namespace Xv6

namespace Vm

variable {vm : Vm} {ly : Layout} {pgdir : Nat}

/-- The byte the process of directory `pgdir` reads at user address `va`. -/
def userByte? (vm : Vm) (pgdir va : Nat) : Option UInt8 :=
  (vm.frame? pgdir va).map fun F => vm.mem (F + va % pgsize)

theorem entry?_pgrounddown (vm : Vm) (pgdir va : Nat) : vm.entry? pgdir (pgrounddown va) = vm.entry? pgdir va := by
  have hd := pdx_pgrounddown va
  have ht : ptx (pgrounddown va) = ptx va := by simp only [ptx_eq, pgrounddown, pgsize]; omega
  simp only [entry?, pte?, hd, ht]

/-- `uva2ka` of an address whose entry is present to the user: the kernel address of its page. -/
theorem uva2ka_of_entry {uva e : Nat} (he : vm.entry? pgdir uva = some e) (hu : e &&& pteU ≠ 0) :
    vm.uva2ka pgdir uva = .ok (p2v (pteAddr e)) := by
  unfold entry? pte? at he
  cases ht : vm.table? pgdir (pdx uva) with
  | none => simp only [ht, Option.map_none', Option.filter_none] at he; cases he
  | some T =>
    simp only [ht, Option.map_some', Option.filter_some] at he
    split at he
    · cases he
      have h0 : T + 4 * ptx uva ≠ 0 := by have := vm.table?_kernel ht; simp only [kernbase] at this; omega
      rename_i hP
      simp only [uva2ka, walkpgdir_false, ht, Option.elim_some, h0, ↓reduceIte, hu, if_neg (by simpa using hP)]
    · cases he

/-- Writing inside a user page of a whole address space keeps it whole, with every entry and page
as before. -/
theorem Space.write_frame (hs : vm.Space ly pgdir) {va F : Nat} (hva : va < kernbase)
    (hF : vm.frame? pgdir va = some F) {vm' : Vm} (hk : ∀ x, x < F ∨ F + pgsize ≤ x → vm'.mem x = vm.mem x) :
    vm'.Space ly pgdir ∧ (∀ a, vm'.entry? pgdir a = vm.entry? pgdir a) ∧
      (∀ a, vm'.frame? pgdir a = vm.frame? pgdir a) ∧ ∀ G, vm'.Owns pgdir G ↔ vm.Owns pgdir G := by
  obtain ⟨ht, hpte, hf⟩ := reads_of_keep fun x hx => hk x (by
    by_contra hc
    exact hx (hs.offTables_of_frame hva hF (by omega) (by omega)))
  exact ⟨hs.congr ht fun a _ => hf a, fun a => by rw [entry?, hpte, ← entry?], hf, owns_congr ht fun a _ => hf a⟩

/-- **`copyout` reads back.** Over a whole address space in which every page of
`[va, va + len)` below `KERNBASE` is present to the user, `copyout` from a kernel buffer apart
from the pages the directory owns returns 0. The process then reads the buffer at `va`, its page
table is as before, and no byte changed except the `len` bytes it reads there. -/
theorem copyout_reads_back (hs : vm.Space ly pgdir) {va p len : Nat} (hk : va + len ≤ kernbase)
    (hu : ∀ j < len, ∃ e, vm.entry? pgdir (va + j) = some e ∧ e &&& pteU ≠ 0)
    (hp : ∀ G, vm.Owns pgdir G → p + len ≤ G ∨ G + pgsize ≤ p) :
    ∃ vm', vm.copyout pgdir va p len = .ok (0, vm') ∧ vm'.free = vm.free ∧ vm'.Space ly pgdir ∧
      (∀ a, vm'.entry? pgdir a = vm.entry? pgdir a) ∧
      (∀ j < len, vm'.userByte? pgdir (va + j) = some (vm.mem (p + j))) ∧
      ∀ x, (∀ j < len, ∀ F, vm.frame? pgdir (va + j) = some F → x ≠ F + (va + j) % pgsize) →
        vm'.mem x = vm.mem x := by
  induction len using Nat.strong_induction_on generalizing vm va p with
  | _ len ih =>
  rcases Nat.eq_zero_or_pos len with rfl | hlen
  · exact ⟨vm, by rw [copyout, if_pos rfl], rfl, hs, fun _ => rfl, fun j hj => absurd hj (Nat.not_lt_zero j),
      fun _ _ => rfl⟩
  -- the first page: `uva2ka` finds it, and `memmove` fills it from `off` on
  obtain ⟨e, he, heu⟩ := hu 0 hlen
  rw [Nat.add_zero] at he
  have hva : va < kernbase := by omega
  obtain ⟨F, hFe⟩ : ∃ F, p2v (pteAddr e) = F := ⟨_, rfl⟩
  have hF : vm.frame? pgdir va = some F := by rw [frame?_eq_entry, he, ← hFe]; rfl
  have hua : vm.uva2ka pgdir (pgrounddown va) = .ok F := by
    rw [← hFe]; exact uva2ka_of_entry (by rw [entry?_pgrounddown]; exact he) heu
  have hF0 : F ≠ 0 := by rw [← hFe]; simp only [p2v, kernbase]; omega
  have hFm := vm.frame?_mod hF
  have hoff : va - pgrounddown va = va % pgsize := by simp only [pgrounddown, pgsize]; omega
  obtain ⟨n, hn⟩ : ∃ n, min (pgsize - (va - pgrounddown va)) len = n := ⟨_, rfl⟩
  have hn₁ : 0 < n ∧ n ≤ len ∧ va % pgsize + n ≤ pgsize ∧ (n < len → va % pgsize + n = pgsize) := by
    rw [← hn, hoff]; simp only [pgsize] at *; omega
  have hnext : (pgrounddown va + pgsize) % 2 ^ 32 = pgrounddown va + pgsize := by
    simp only [pgrounddown, pgsize, kernbase] at *; omega
  have hva' (h : n < len) : pgrounddown va + pgsize = va + n := by
    have := hn₁.2.2.2 h; simp only [pgrounddown, pgsize] at *; omega
  -- the copy into the first page keeps the address space
  obtain ⟨vm₁, hvm₁⟩ : ∃ vm₁, vm.memmove (F + (va - pgrounddown va)) p n = vm₁ := ⟨_, rfl⟩
  have hmem₁ (x) : vm₁.mem x = if F + va % pgsize ≤ x ∧ x < F + va % pgsize + n
      then vm.mem (p + (x - (F + va % pgsize))) else vm.mem x := by rw [← hvm₁, hoff]; rfl
  obtain ⟨hs₁, hent₁, hfr₁, hown₁⟩ := hs.write_frame hva hF
    (show ∀ x, x < F ∨ F + pgsize ≤ x → vm₁.mem x = vm.mem x from fun x hx => by
      rw [hmem₁, if_neg (by omega)])
  -- the rest of the buffer, from the next page on
  obtain ⟨vm', hrun, hfree', hs', hent', hread', hkeep'⟩ := ih (len - n) (by omega) hs₁
    (show (pgrounddown va + pgsize) % 2 ^ 32 + (len - n) ≤ kernbase by
      rw [hnext]; simp only [pgrounddown, pgsize, kernbase] at *; omega)
    (fun j hj => by
      rw [hnext, hva' (by omega), hent₁, Nat.add_assoc]; exact hu (n + j) (by omega))
    (show ∀ G, vm₁.Owns pgdir G → p + n + (len - n) ≤ G ∨ G + pgsize ≤ p + n from fun G hG => by
      have := hp G ((hown₁ G).mp hG); omega)
  -- a byte of the first page lies in no later page
  have hlater (j) (hj : va % pgsize + j < pgsize) (j') (hj' : j' < len - n) (F') (hF' : vm₁.frame? pgdir
      ((pgrounddown va + pgsize) % 2 ^ 32 + j') = some F') :
      F + (va % pgsize + j) ≠ F' + ((pgrounddown va + pgsize) % 2 ^ 32 + j') % pgsize := by
    rw [hfr₁, hnext, hva' (by omega)] at hF'
    have hne : F' ≠ F := fun e => by
      have := hs.frame_inj (by omega) hva hF' (e ▸ hF); simp only [pgsize] at *; omega
    have := vm.frame?_mod hF'
    simp only [pgsize] at *; omega
  refine ⟨vm', ?_, hfree'.trans (hvm₁ ▸ rfl), hs', fun a => (hent' a).trans (hent₁ a), fun j hj => ?_, fun x hx => ?_⟩
  · rw [copyout, if_neg (by omega)]
    simp only [hua, bind, Except.bind, if_neg hF0, hn, hvm₁]
    exact hrun
  · by_cases hjn : j < n
    · -- in the first page
      have hpage : (va + j) / pgsize = va / pgsize := by simp only [pgsize] at *; omega
      have hmod : (va + j) % pgsize = va % pgsize + j := by simp only [pgsize] at *; omega
      have hFj : vm'.frame? pgdir (va + j) = some F := by
        rw [frame?_eq_entry, hent', hent₁, ← frame?_eq_entry, frame?_page (by omega) hva hpage, hF]
      rw [userByte?, hFj, Option.map_some', hmod, hkeep' _ (hlater j (by omega)), hmem₁,
        if_pos (by omega), show F + (va % pgsize + j) - (F + va % pgsize) = j by omega]
    · -- in a later page
      have := hread' (j - n) (by omega)
      rw [hnext, hva' (by omega), show va + n + (j - n) = va + j by omega,
        show p + n + (j - n) = p + j by omega] at this
      rw [this, hmem₁, if_neg]
      have := hp F (.inr (.inr (mappedIn_of_frame hva hF)))
      omega
  · rw [hkeep' x fun j' hj' F' hF' => ?_, hmem₁, if_neg]
    · rintro ⟨h₁, h₂⟩
      have hpage : (va + (x - (F + va % pgsize))) / pgsize = va / pgsize := by simp only [pgsize] at *; omega
      refine hx (x - (F + va % pgsize)) (by omega) F (by rw [frame?_page (by omega) hva hpage, hF]) ?_
      simp only [pgsize] at *; omega
    · rw [hfr₁, hnext, hva' (by omega)] at hF'
      rw [hnext, hva' (by omega)]
      have := hx (n + j') (by omega) F' (by rwa [← Nat.add_assoc])
      rwa [Nat.add_assoc]

theorem copyout_reads_back_oneUserPage :
    (oneUserPage 0x80400000 0x80401000 0x80402000).Space sampleLayout 0x80400000 ∧ 0 + 4 ≤ kernbase ∧
      (∀ j < 4, ∃ e, (oneUserPage 0x80400000 0x80401000 0x80402000).entry? 0x80400000 (0 + j) = some e ∧
        e &&& pteU ≠ 0) ∧
      (∀ G, (oneUserPage 0x80400000 0x80401000 0x80402000).Owns 0x80400000 G →
        0x80500000 + 4 ≤ G ∨ G + pgsize ≤ 0x80500000) ∧
      ∃ vm', (oneUserPage 0x80400000 0x80401000 0x80402000).copyout 0x80400000 0 0x80500000 4 = .ok (0, vm') ∧
        vm'.free = (oneUserPage 0x80400000 0x80401000 0x80402000).free ∧ vm'.Space sampleLayout 0x80400000 ∧
        (∀ a, vm'.entry? 0x80400000 a = (oneUserPage 0x80400000 0x80401000 0x80402000).entry? 0x80400000 a) ∧
        (∀ j < 4, vm'.userByte? 0x80400000 (0 + j) =
          some ((oneUserPage 0x80400000 0x80401000 0x80402000).mem (0x80500000 + j))) ∧
        ∀ x, (∀ j < 4, ∀ F, (oneUserPage 0x80400000 0x80401000 0x80402000).frame? 0x80400000 (0 + j) = some F →
          x ≠ F + (0 + j) % pgsize) →
          vm'.mem x = (oneUserPage 0x80400000 0x80401000 0x80402000).mem x :=
  have hu : ∀ j < 4, ∃ e, (oneUserPage 0x80400000 0x80401000 0x80402000).entry? 0x80400000 (0 + j) = some e ∧
      e &&& pteU ≠ 0
    | 0, _ | 1, _ | 2, _ | 3, _ => ⟨0x402007, rfl, by decide⟩
  have hp : ∀ G, (oneUserPage 0x80400000 0x80401000 0x80402000).Owns 0x80400000 G →
      0x80500000 + 4 ≤ G ∨ G + pgsize ≤ 0x80500000 := fun G hG => by
    rcases (oneUserPage_owns G).mp hG with rfl | rfl | rfl <;> decide
  ⟨oneUserPage_space, by decide, hu, hp, copyout_reads_back oneUserPage_space (by decide) hu hp⟩

end Vm

end Xv6
