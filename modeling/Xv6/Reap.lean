import Xv6.Wait
import Xv6.Pages

/-!
# `wait` on the memory side

`Sys` keeps each slot's size, directory and kernel stack but no pages: in `wait`, its `kfree`
and `freevm` are rounds of `kmem.lock` and nothing more. The pages are `Kmem`'s, where the
reaping of a ZOMBIE is one call, `Kmem.wait`. This module ties the two models of `wait`
together.

What the memory side sees of a slot (`Sys.view`) is its size, directory and kernel stack, and
its state with RUNNING, RUNNABLE and SLEEPING one. A slot that a CPU is reaping it sees as
`Kmem.wait` leaves it: UNUSED, with no kernel stack. `Mirrors s k` says that the slots of `k`
are these views of the slots of `s`. From a reachable state, a step of `wait` either leaves
every view as it was, so that `k` still mirrors the system, or is the scan that starts to reap
a ZOMBIE child, and then it is matched by one `Kmem.wait` (`wait_mirrors`). `wait_reaps` puts
this beside `wait_returns`. `exit`'s step under `ptable.lock` is likewise one `Kmem.exit`, and
`exit_wait_refine` states both as steps of `Kmem.Step`, so that what `Kmem.inv_run` says of runs
of the memory side holds of these steps of the system.
-/

namespace Xv6

variable {n m : Nat}

/-- A state as the memory side tells it: RUNNING, RUNNABLE and SLEEPING are one. -/
def ProcState.toMem : ProcState → ProcState
  | .sleeping | .runnable => .running
  | q => q

theorem ProcState.eq_zombie_of_toMem {q : ProcState} (h : q.toMem = .zombie) : q = .zombie := by
  cases q <;> first | rfl | cases h

theorem ProcState.user_of_toMem {q : ProcState} (h : q.toMem = .running) :
    q = .sleeping ∨ q = .runnable ∨ q = .running := by
  cases q <;> simp [ProcState.toMem] at h ⊢

/-- What the memory side sees of a slot. -/
structure SlotView where
  sz : Nat
  pgdir : Nat
  kstack : Nat
  state : ProcState
  deriving DecidableEq

def Slot.view (q : Slot) : SlotView := ⟨q.sz, q.pgdir, q.kstack, q.state.toMem⟩

def Proc.view (q : Proc n) : SlotView := ⟨q.sz, q.pgdir, q.kstack, q.state.toMem⟩

/-- Some CPU is reaping slot `i`. -/
def Sys.reaping (s : Sys n m) (i : Fin n) : Bool :=
  (List.finRange m).any fun c => (s.cpus c).run.code.reapOf = some i

/-- What the memory side sees of slot `i` of `s`: the slot, or, while a CPU reaps it, the slot as
`Kmem.wait` leaves it. -/
def Sys.view (s : Sys n m) (i : Fin n) : SlotView :=
  if s.reaping i then { (s.mem.procs i).view with kstack := 0, state := .unused }
  else (s.mem.procs i).view

/-- The memory side `k` mirrors the system `s`: each slot of `k` is what the memory side sees of
that slot in `s`. -/
def Mirrors (s : Sys n m) (k : Kmem n) : Prop := ∀ i, (k.procs i).view = s.view i

instance (s : Sys n m) (k : Kmem n) : Decidable (Mirrors s k) :=
  inferInstanceAs (Decidable (∀ i, (k.procs i).view = s.view i))

namespace Sys

variable {s s' : Sys n m} {c : Fin m}

theorem reaping_iff {i : Fin n} : s.reaping i ↔ ∃ c, (s.cpus c).run.code.reapOf = some i := by
  simp [reaping]

/-- After a step of CPU `c` that leaves the other CPUs' code as it was, a slot is reaped by `c`
or by a CPU that was already reaping it. -/
theorem reaping_step (hd : ∀ d, d ≠ c → (s'.cpus d).run.code = (s.cpus d).run.code) (i : Fin n) :
    s'.reaping i ↔ (s'.cpus c).run.code.reapOf = some i ∨
      ∃ d, d ≠ c ∧ (s.cpus d).run.code.reapOf = some i := by
  rw [reaping_iff]
  constructor
  · rintro ⟨d, h⟩
    by_cases e : d = c
    · exact .inl (e ▸ h)
    · exact .inr ⟨d, e, by rwa [← hd d e]⟩
  · rintro (h | ⟨d, e, h⟩)
    exacts [⟨c, h⟩, ⟨d, by rwa [hd d e]⟩]

theorem reaping_congr (hd : ∀ d, d ≠ c → (s'.cpus d).run.code = (s.cpus d).run.code) {j : Fin n}
    (hc : (s'.cpus c).run.code.reapOf = some j ↔ (s.cpus c).run.code.reapOf = some j) :
    s'.reaping j = s.reaping j :=
  Bool.eq_iff_iff.mpr ((reaping_step hd j).trans (by rw [hc, reaping_step (fun _ _ => rfl) j]))

@[simp] theorem view_sz (s : Sys n m) (i : Fin n) : (s.view i).sz = (s.mem.procs i).sz := by
  unfold view; split <;> rfl

@[simp] theorem view_pgdir (s : Sys n m) (i : Fin n) : (s.view i).pgdir = (s.mem.procs i).pgdir := by
  unfold view; split <;> rfl

theorem view_congr {j : Fin n} (hr : s'.reaping j = s.reaping j)
    (hv : (s'.mem.procs j).view = (s.mem.procs j).view) : s'.view j = s.view j := by
  simp only [view, hr, hv]

/-- A step of CPU `c` leaves every other CPU as it was. -/
theorem apply_cpus_ne {e : Effect n} (h : s.apply c e = some s') {d : Fin m} (hd : d ≠ c) :
    s'.cpus d = s.cpus d := by
  have hset (t : Sys n m) (f : Cpu n → Cpu n) (ht : t.cpus = s.cpus) : (t.setCpu c f).cpus d = s.cpus d := by
    rw [setCpu_cpus, if_neg hd, ht]
  cases e with
  | acquire l k' =>
    simp only [apply, acquire] at h
    split_ifs at h <;> cases h <;> exact hset _ _ rfl
  | release l k' | sched p ret =>
    cases h
    simp only [release, sched]
    split_ifs <;> exact hset _ _ rfl
  | dispatch j =>
    cases h
    simp only [dispatch]
    split_ifs
    · exact hset _ _ rfl
    · exact hset _ _ rfl
    · split <;> exact hset _ _ rfl
  | _ => cases h; exact hset _ _ rfl

/-- An effect other than `next` leaves CPU `c` reaping what it was reaping. -/
theorem apply_reapOf (hl : LockInv s) (hi : StackInv s) {e : Effect n}
    (hd : s.mem.Does (s.cpus c).run.owner (s.cpus c).run.code e) (h : s.apply c e = some s')
    (he : ∀ k' mem', e ≠ .next k' mem') :
    (s'.cpus c).run.code.reapOf = (s.cpus c).run.code.reapOf := by
  have hset (t : Sys n m) (f : Cpu n → Cpu n) : (t.setCpu c f).cpus c = f (t.cpus c) := by
    rw [setCpu_cpus, if_pos rfl]
  cases e with
  | next k' mem' => exact absurd rfl (he k' mem')
  | acquire l k' =>
    simp only [apply, acquire] at h
    split_ifs at h <;> cases h <;> simp [hset, (Kernel.Does.lock_reap (.inl hd)).1]
  | release l k' =>
    cases h
    simp only [release]
    split_ifs <;> simp [hset, (Kernel.Does.lock_reap (.inr hd)).1]
  | sched p ret =>
    cases h
    simp only [sched]
    split_ifs <;> first | simp | (simp only [hset]; exact hd.sched_code.1.symm)
  | dispatch j =>
    cases h
    generalize hc : (s.cpus c).run.code = k at hd
    cases hd with
    | dispatch i _ _ hj =>
      obtain ⟨k₁, hk₁, hres, -⟩ := hi.dispatchable hl hc hj
      simp only [dispatch, hk₁]
      split_ifs <;> first | simp [hc] | (simp only [hset]; exact Code.reapOf_of_resumable hres)
  | resume k' =>
    cases h
    generalize hc : (s.cpus c).run.code = k at hd
    cases hd
    simp [hset, Code.reapOf]
  | halt why => cases h; simp

/-- **An effect other than `next`** changes no slot as the memory side sees it: `sched()` saves
a context, and the scheduler makes a RUNNABLE process RUNNING. -/
theorem view_of_apply (hl : LockInv s) (hi : StackInv s) {e : Effect n}
    (hd : s.mem.Does (s.cpus c).run.owner (s.cpus c).run.code e) (h : s.apply c e = some s')
    (he : ∀ k' mem', e ≠ .next k' mem') (j : Fin n) : s'.view j = s.view j := by
  refine view_congr (reaping_congr (fun d hdc => by rw [apply_cpus_ne h hdc])
    (by rw [apply_reapOf hl hi hd h he])) ?_
  rcases apply_mem hd h he with e | ⟨p, ret, -, e⟩ | ⟨q, -, hq, e⟩ <;> rw [e]
  · exact Kernel.setProc_field _ Proc.view rfl j
  · exact Kernel.setProc_field _ Proc.view (by simp [Proc.view, hq, ProcState.toMem]) j

end Sys

theorem Code.reapOf_of_inWait {k : Code n} (h : k.inWait) : k.reapOf = none := by
  induction k with
  | acquire _ _ ih | release _ _ ih => exact ih h
  | _ => first | rfl | cases h

theorem Code.stackState_toMem_of_inWait {k : Code n} (h : k.inWait) : k.stackState.toMem = .running := by
  cases k <;> first | rfl | cases h

/-- A statement of `wait` outside the reap that goes on: the scan that starts to reap a ZOMBIE
`i`, with memory as it was; or a statement that reaps nothing and changes no slot as the memory
side sees it, but for `sleep(curproc)` making the caller SLEEPING. -/
theorem Kernel.Does.next_of_inWait {s s' : Kernel n} {me : Option (Fin n)} {k k' : Code n}
    (h : s.Does me k (.next k' s')) (hw : k.inWait) (hwf : k.wf) :
    (∃ i, k = .waitScan ∧ k' = Code.kmemRound (.waitKstack i) ∧ (s.procs i).state = .zombie ∧ s' = s) ∨
      (k'.reapOf = none ∧ ∀ j, (s'.procs j).view = (s.procs j).view ∨
        me = some j ∧ (s'.procs j).view = { (s.procs j).view with state := .running }) := by
  cases h with
  | plain _ _ _ _ hp _ _ hv =>
    exact .inr ⟨(congrArg Code.View.reapOf (hv hwf).1).trans (Code.reapOf_of_inWait hw),
      fun j => .inl (by rw [hp])⟩
  | waitReap p i _ _ _ hz => exact .inl ⟨i, rfl, rfl, hz, rfl⟩
  | waitSleep => exact .inr ⟨rfl, fun _ => .inl rfl⟩
  | sleep p site _ hp =>
    refine .inr ⟨rfl, fun j => ?_⟩
    by_cases hj : j = p
    · subst hj; exact .inr ⟨hp, by simp [Proc.view, ProcState.toMem]⟩
    · exact .inl (by rw [Kernel.setProc_ne _ _ hj])
  | unsleep p site =>
    cases site <;> simp only [Code.inWait, reduceCtorEq] at hw
    exact .inr ⟨rfl, fun j => .inl (Kernel.setProc_field _ Proc.view rfl j)⟩
  | _ => cases hw

theorem Kernel.exitWake_sz (s : Kernel n) (p j : Fin n) : ((s.exitWake p).procs j).sz = (s.procs j).sz := by
  have h (i : Fin n) : (reparent (wakeup1 s.procs ((s.procs p).parent.map .proc)) p s.initproc i).sz =
      (s.procs i).sz := by
    rw [reparent_apply, wakeup1_apply, wakeSlot_eq]
  by_cases hj : j = p
  · subst hj; rw [Kernel.exitWake_self]; exact h j
  · simp only [Kernel.exitWake, Function.update_noteq hj]; exact h j

/-- `exit` under `ptable.lock` changes, as the memory side sees it, only the exiting process, which
becomes a ZOMBIE: it wakes processes and changes parents, which the memory side does not see. -/
theorem Kernel.exitWake_view (s : Kernel n) (p j : Fin n) :
    ((s.exitWake p).procs j).view =
      if j = p then { (s.procs j).view with state := .zombie } else (s.procs j).view := by
  simp only [Proc.view, s.exitWake_sz, s.exitWake_kstack, s.exitWake_pgdir]
  split_ifs with hj
  · subst hj; simp [Kernel.exitWake_self, ProcState.toMem]
  · rcases (s.exitWake_woken hj).2.2 with e | ⟨e₁, e₂⟩
    · rw [e]
    · rw [e₁, e₂]; rfl

section Steps

variable {s s' : Sys n m} (hl : LockInv s) (hi : StackInv s) (hx : ReapInv s) {c : Fin m}
  {ch : Choice}

include hl hi hx in
/-- **A step of the reap** changes no slot as the memory side sees it: the slot reaped is seen
as UNUSED with no kernel stack from the scan on, and `wait` leaves it so. -/
theorem reap_view {i : Fin n} (h : step s c ch = some s') (hk : (s.cpus c).run.code.reapOf = some i)
    (j : Fin n) : s'.view j = s.view j := by
  obtain ⟨hh, e, he, ha⟩ := Sys.step_eq_some _ _ h
  have hd := Sys.does_of_effect he
  have hcpu (d : Fin m) (hdc : d ≠ c) : (s'.cpus d).run.code = (s.cpus d).run.code := by
    rw [Sys.apply_cpus_ne ha hdc]
  have hri : s.reaping i := Sys.reaping_iff.mpr ⟨c, hk⟩
  cases e with
  | next k' mem' =>
    obtain ⟨-, hk', hm⟩ := Sys.step_next hh ha
    rcases hd.next_of_reapOf (hl.code_wf c) hk with ⟨hp, hr⟩ | ⟨-, rfl, rfl⟩ | ⟨hc, rfl, rfl⟩
    · exact Sys.view_congr (Sys.reaping_congr hcpu (by rw [hk', hr, hk])) (by rw [hm, hp])
    · have hr : s'.reaping j = s.reaping j := Sys.reaping_congr hcpu (by rw [hk', hk]; rfl)
      by_cases hji : j = i
      · subst hji
        simp only [Sys.view, hr, hri, if_true, hm, Kernel.setProc_self]
        rfl
      · exact Sys.view_congr hr (by rw [hm, Kernel.setProc_ne _ _ hji])
    · by_cases hji : j = i
      · subst hji
        have hr : s'.reaping j = false := Bool.eq_false_iff.mpr fun hr' => by
          rcases (Sys.reaping_step hcpu j).mp hr' with hr' | ⟨d, hdc, hd'⟩
          · rw [hk'] at hr'; cases hr'
          · exact hdc (reaper_eq_of_ptable hl (Code.holds_ptable_of_reapOf (hl.code_wf c) hk) hd')
        have h0 : (s.mem.procs j).kstack = 0 := hx.freed c j hk (by rw [hc]; rfl)
        simp only [Sys.view, hr, hri, hm, Kernel.setProc_self]
        simp [Proc.view, h0, ProcState.toMem]
      · refine Sys.view_congr (Sys.reaping_congr hcpu ?_) (by rw [hm, Kernel.setProc_ne _ _ hji])
        rw [hk', hk]
        simp [Code.reapOf, Ne.symm hji]
  | _ => exact Sys.view_of_apply hl hi hd ha (fun _ _ => nofun) j

include hl hi in
/-- **A step of `wait` outside the reap** changes no slot as the memory side sees it, or is the
scan that starts to reap a ZOMBIE `i` no CPU was reaping: memory as it was, and `i` seen from
then on as `Kmem.wait` leaves it. -/
theorem wait_view (h : step s c ch = some s') (hw : (s.cpus c).run.code.inWait) :
    (∀ j, s'.view j = s.view j) ∨
      ∃ i, (s.mem.procs i).state = .zombie ∧ s.reaping i = false ∧
        s'.view i = { (s.mem.procs i).view with kstack := 0, state := .unused } ∧
        ∀ j, j ≠ i → s'.view j = s.view j := by
  obtain ⟨hh, e, he, ha⟩ := Sys.step_eq_some _ _ h
  have hd := Sys.does_of_effect he
  have hcpu (d : Fin m) (hdc : d ≠ c) : (s'.cpus d).run.code = (s.cpus d).run.code := by
    rw [Sys.apply_cpus_ne ha hdc]
  have hnone := Code.reapOf_of_inWait hw
  cases e with
  | next k' mem' =>
    obtain ⟨-, hk', hm⟩ := Sys.step_next hh ha
    rcases hd.next_of_inWait hw (hl.code_wf c) with ⟨i, hc, rfl, hz, rfl⟩ | ⟨hr, hv⟩
    · have hni : s.reaping i = false := Bool.eq_false_iff.mpr fun hr => by
        obtain ⟨d, hd'⟩ := Sys.reaping_iff.mp hr
        obtain rfl := reaper_eq_of_ptable hl (by rw [hc]; rfl) hd'
        rw [hnone] at hd'; cases hd'
      have hri : s'.reaping i := Sys.reaping_iff.mpr ⟨c, by rw [hk']; rfl⟩
      refine .inr ⟨i, hz, hni, by simp only [Sys.view, hri, hm, if_true], fun j hj => ?_⟩
      refine Sys.view_congr (Sys.reaping_congr hcpu ?_) (by rw [hm])
      rw [hk', hnone]
      simp [Code.kmemRound, Code.reapOf, Ne.symm hj]
    · refine .inl fun j => Sys.view_congr (Sys.reaping_congr hcpu (by rw [hk', hr, hnone])) ?_
      rcases hv j with e | ⟨hj, e⟩
      · rw [hm, e]
      · cases hrun : (s.cpus c).run with
        | sched k₀ => rw [hrun] at hj; cases hj
        | proc q k₀ =>
          rw [hrun] at hj hw
          obtain rfl := Option.some.inj hj
          have hw' : k₀.inWait := hw
          rw [hm, e, Proc.view, (hi.runs c _ k₀ hrun).1, Code.stackState_toMem_of_inWait hw']
  | _ => exact .inl (Sys.view_of_apply hl hi hd ha (fun _ _ => nofun))

include hi in
/-- **`exit` under `ptable.lock`** makes, as the memory side sees it, the exiting process, which
was running and no CPU was reaping, a ZOMBIE, and changes no other slot. -/
theorem exit_view (h : step s c ch = some s') (hk : (s.cpus c).run.code = .exitWake) :
    ∃ p, (s.mem.procs p).state = .running ∧ s.reaping p = false ∧
      s'.view p = { (s.mem.procs p).view with state := .zombie } ∧ ∀ j, j ≠ p → s'.view j = s.view j := by
  obtain ⟨hh, e, he, ha⟩ := Sys.step_exec _ _ h (by rw [hk]; rfl)
  rw [hk] at he
  cases hrun : (s.cpus c).run with
  | sched k₀ => simp [Kernel.exec, hrun, Run.owner] at he
  | proc p k₀ =>
    obtain rfl : k₀ = .exitWake := by rw [hrun] at hk; exact hk
    simp only [Kernel.exec, hrun, Run.owner, Option.map_some', Option.some.injEq] at he
    subst he
    obtain ⟨-, hk', hm⟩ := Sys.step_next hh ha
    have hr (j : Fin n) : s'.reaping j = s.reaping j :=
      Sys.reaping_congr (fun d hdc => by rw [Sys.apply_cpus_ne ha hdc]) (by rw [hk', hk]; exact Iff.rfl)
    have hs : (s.mem.procs p).state = .running := (hi.runs c p _ hrun).1
    have hnr : s.reaping p = false := Bool.eq_false_iff.mpr fun hr' => by
      obtain ⟨d, hd⟩ := Sys.reaping_iff.mp hr'
      have := hi.reaping d p hd
      rw [hs] at this; cases this
    refine ⟨p, hs, hnr, ?_, fun j hj => Sys.view_congr (hr j) (by rw [hm, Kernel.exitWake_view, if_neg hj])⟩
    simp only [Sys.view, hr, hnr, hm, Kernel.exitWake_view, if_true, Bool.false_eq_true, if_false]

end Steps

/-! ## The two models of `exit` and `wait` -/

namespace Mirrors

variable {s s' : Sys n m} {k k' : Kmem n}

theorem stutter (hm : Mirrors s k) (hv : ∀ j, s'.view j = s.view j) : Mirrors s' k :=
  fun j => (hm j).trans (hv j).symm

theorem zombie (hm : Mirrors s k) {i : Fin n} (hz : (s.mem.procs i).state = .zombie)
    (hni : s.reaping i = false) : (k.procs i).state = .zombie :=
  ProcState.eq_zombie_of_toMem <| by
    have hv := congrArg SlotView.state (hm i)
    simp only [Slot.view, Sys.view, hni, Proc.view, hz, Bool.false_eq_true, if_false] at hv
    exact hv

/-- The scan that starts to reap `i` is `Kmem.wait` of `i` on the memory side. -/
theorem wait {ly : Layout} (hm : Mirrors s k) {i : Fin n} (hw : Kmem.wait ly k i = .ok k')
    (hi : s'.view i = { (s.mem.procs i).view with kstack := 0, state := .unused })
    (hj : ∀ j, j ≠ i → s'.view j = s.view j) : Mirrors s' k' := by
  intro j
  rw [Kmem.wait_procs hw]
  by_cases hji : j = i
  · subst hji
    have hsz := (congrArg SlotView.sz (hm j)).trans (s.view_sz j)
    have hpg := (congrArg SlotView.pgdir (hm j)).trans (s.view_pgdir j)
    rw [Function.update_same, hi]
    simp only [Slot.view, Proc.view] at hsz hpg ⊢
    rw [hsz, hpg]
    rfl
  · rw [Function.update_noteq hji, hj j hji]
    exact hm j

/-- `exit` of `p` is `Kmem.exit` of `p` on the memory side, where `p` runs user code. -/
theorem exit (hm : Mirrors s k) {p : Fin n} (hs : (s.mem.procs p).state = .running) (hnr : s.reaping p = false)
    (hp : s'.view p = { (s.mem.procs p).view with state := .zombie }) (hj : ∀ j, j ≠ p → s'.view j = s.view j) :
    (k.procs p).User ∧ Mirrors s' (Kmem.exit k p) := by
  have hv : (k.procs p).view = (s.mem.procs p).view := by rw [hm p, Sys.view, hnr]; rfl
  refine ⟨ProcState.user_of_toMem (by rw [show (k.procs p).state.toMem = _ from congrArg SlotView.state hv, Proc.view, hs]; rfl),
    fun j => ?_⟩
  by_cases hjp : j = p
  · subst hjp
    simp only [Kmem.exit, Function.update_same, hp, ← hv]
    rfl
  · simp only [Kmem.exit, Function.update_noteq hjp, hj j hjp]
    exact hm j

end Mirrors

/-- **`wait`, on both models.** From a reachable state whose memory side `k` mirrors it with every
page in one place, a step of `wait` leaves `k` mirroring the system, or is the scan that starts to
reap a ZOMBIE `i`, which on the memory side is `Kmem.wait` of `i`. -/
theorem wait_mirrors {s : Sys n m} (h : Reachable s) {ly : Layout} (hend : kernbase < ly.kend)
    {pages : List Nat} {k : Kmem n} (hm : Mirrors s k) (hinv : Kmem.Inv ly pages k) {c : Fin m}
    {ch : Choice} {s' : Sys n m} (hs : step s c ch = some s')
    (hw : (s.cpus c).run.code.inWait ∨ (s.cpus c).run.code.reapOf.isSome) :
    Mirrors s' k ∨ ∃ i k', (s.mem.procs i).state = .zombie ∧ (k.procs i).state = .zombie ∧
      Kmem.wait ly k i = .ok k' ∧ Kmem.Acts ly k k' i ∧ Mirrors s' k' := by
  obtain ⟨⟨hl, hi, -⟩, -, -⟩ := TableInv.of_reachable h
  have hx := ReapInv.of_reachable h
  rcases hw with hw | hw
  · rcases wait_view hl hi hs hw with hv | ⟨i, hz, hni, hvi, hvj⟩
    · exact .inl (hm.stutter hv)
    · have hkz := hm.zombie hz hni
      obtain ⟨k', hk', ha⟩ := Kmem.wait_acts hend hinv hkz
      exact .inr ⟨i, k', hz, hkz, hk', ha, hm.wait hk' hvi hvj⟩
  · obtain ⟨i, hi'⟩ := Option.isSome_iff_exists.mp hw
    exact .inl (hm.stutter (reap_view hl hi hx hs hi'))

/-- **`exit` and `wait` refine the memory side.** From a reachable state whose memory side `k`
mirrors it with every page in one place, a step of `wait`, or `exit`'s step under `ptable.lock`,
leaves `k` mirroring the system, or is matched by one call of the memory side (`Kmem.Step`),
`Kmem.wait` of the ZOMBIE the scan reaps or `Kmem.exit` of the exiting process, which leaves
every page in one place. -/
theorem exit_wait_refine {s : Sys n m} (h : Reachable s) {ly : Layout} (hend : kernbase < ly.kend)
    (trapretAt forkretAt : Nat) {pages : List Nat} {k : Kmem n} (hm : Mirrors s k) (hinv : Kmem.Inv ly pages k)
    {c : Fin m} {ch : Choice} {s' : Sys n m} (hs : step s c ch = some s')
    (hw : (s.cpus c).run.code.inWait ∨ (s.cpus c).run.code.reapOf.isSome ∨ (s.cpus c).run.code = .exitWake) :
    Mirrors s' k ∨ ∃ k', Kmem.Step ly trapretAt forkretAt k k' ∧ Mirrors s' k' ∧ Kmem.Inv ly pages k' := by
  rcases hw with hw | hw | hw
  · rcases wait_mirrors h hend hm hinv hs (.inl hw) with hm' | ⟨i, k', -, hkz, hk', ha, hm'⟩
    · exact .inl hm'
    · exact .inr ⟨k', .wait hkz hk', hm', hinv.of_acts hend ha⟩
  · rcases wait_mirrors h hend hm hinv hs (.inr hw) with hm' | ⟨i, k', -, hkz, hk', ha, hm'⟩
    · exact .inl hm'
    · exact .inr ⟨k', .wait hkz hk', hm', hinv.of_acts hend ha⟩
  · obtain ⟨⟨-, hi, -⟩, -, -⟩ := TableInv.of_reachable h
    obtain ⟨p, hst, hnr, hp, hj⟩ := exit_view hi hs hw
    obtain ⟨hu, hm'⟩ := hm.exit hst hnr hp hj
    exact .inr ⟨_, .exit hu, hm', hinv.of_acts hend (Kmem.exit_acts hinv hu)⟩

/-- `boot` and `fork` with the kernel stacks and page directories on the pages `Kmem.twoProc`
gives them: init's at 0x80403000 and 0x80400000, the child's at 0x80405000 and 0x80404000. -/
def Trace.bootForkPages : List Choice :=
  .replicate 5 .tau ++ [.alloc 0x80403000, .alloc 0x80400000] ++ .replicate 7 .tau ++
    .sys .fork :: .replicate 5 .tau ++ [.alloc 0x80405000, .alloc 0x80404000] ++ .replicate 5 .tau

/-- Init forks and sleeps in `wait`, and its child calls `exit`: at `exit`'s step under
`ptable.lock`, `Kmem.twoProcAt .running` mirrors the system, and the step is `Kmem.exit` of the
child. -/
theorem exit_wait_refine_twoProc : ∃ s s' : Sys 2 1,
    Sys.init.run (Trace.solo (Trace.bootForkPages ++ Trace.waitSleep ++ [.sys .exit, .tau, .tau])) = some s ∧
      step s 0 .tau = some s' ∧ (s.cpus 0).run.code = .exitWake ∧ Mirrors s (Kmem.twoProcAt .running) ∧
      ¬ Mirrors s' (Kmem.twoProcAt .running) ∧
      ∃ k', Kmem.Step Vm.sampleLayout 0 0 (Kmem.twoProcAt .running) k' ∧ Mirrors s' k' ∧
        Kmem.Inv Vm.sampleLayout Kmem.twoProcPages k' := by
  obtain ⟨s, hr, h⟩ := Sys.exists_run
    (Trace.solo (Trace.bootForkPages ++ Trace.waitSleep ++ [.sys .exit, .tau, .tau]))
    (fun s : Sys 2 1 => match (s.cpus 0).run.code, step s 0 .tau with
      | .exitWake, some s' => decide (Mirrors s (Kmem.twoProcAt .running) ∧ ¬ Mirrors s' (Kmem.twoProcAt .running))
      | _, _ => false) (by decide)
  split at h
  · rename_i s' hc hs'
    obtain ⟨hm, hm'⟩ := of_decide_eq_true h
    rcases exit_wait_refine (Reachable.init.run hr) (show kernbase < Vm.sampleLayout.kend by decide) 0 0 hm
      (Kmem.twoProcAt_inv (by decide)) hs' (.inr (.inr hc)) with h' | h'
    · exact absurd h' hm'
    · exact ⟨s, s', hr, hs', hc, hm, hm', h'⟩
  · cases h

end Xv6
