import Xv6.Locks

/-!
# Kernel stacks and saved contexts

The stack layer of the invariant. The kernel thread of a process is in one place: on its
kernel stack, run by one CPU (`Run.proc`), or parked in its saved `context`. While a CPU
runs on a process's stack, the process's state is the one the code there has set (RUNNING,
except between the state change of `yield`, `sleep` or `exit` and `sched`'s `swtch`) and no
context is saved (`Proc.Runs`). A process no CPU runs is RUNNABLE at a point where `swtch`
returns, SLEEPING in `sleep`, or a ZOMBIE after `exit`'s `sched()` (`Proc.Parked`).
`c->proc` is the process whose stack the CPU runs, or, on the scheduler's stack, the one
`swtch` has just come back from (`Run.current`).

The second part, `BuildInv`, follows the threads that build a process in `allocproc`,
`fork` and `userinit`: each works on an EMBRYO slot no other thread builds, and what it
has set up so far (`Kernel.Stage`) stays set up until it makes the slot RUNNABLE. Such a
thread can be interrupted by the timer and `yield`, so its code may sit in a saved context
(`Sys.thread`).

Both layers are kept by every step (`StackInv.step`, `BuildInv.step`), using the lock
layer: a CPU holding `ptable.lock` is the only one that can be between a state change and
its `swtch`. From them follows the stack discipline of `scheduler` and `sched`
(`stack_discipline`).
-/

namespace Xv6

variable {n m : Nat}

/-! ## Where a kernel thread is -/

namespace Run

/-- `c->proc`: the process whose stack the CPU runs, or, on the scheduler's stack, the one
`swtch` has just come back from (until `c->proc = 0`). -/
def current : Run n → Option (Fin n)
  | .sched k => k.resumeOf
  | .proc p _ => some p

@[simp] theorem current_proc (p : Fin n) (k : Code n) : (Run.proc p k).current = some p := rfl

@[simp] theorem current_sched (k : Code n) : (Run.sched k).current = k.resumeOf := rfl

/-- A CPU at `c->proc = p` without being on `p`'s stack has just come back from `p`. -/
theorem current_cases {r : Run n} {p : Fin n} (h : r.current = some p) :
    r.owner = some p ∨ r.code = .schedResume p := by
  cases r with
  | proc q k => simp_all [owner]
  | sched k => right; cases k <;> simp_all [code, Code.resumeOf]

theorem current_setCode (r : Run n) (k : Code n) (h : k.resumeOf = r.code.resumeOf) :
    (r.setCode k).current = r.current := by
  cases r <;> simp_all [setCode, code]

end Run

namespace Proc

/-- Process `p`, whose kernel stack a CPU runs at `k`: its state is the one `k` has set, no
context is saved, and in `sleep`'s `sched()` its `chan` is the one it sleeps on. -/
def Runs (q : Proc n) (p : Fin n) (k : Code n) : Prop :=
  q.state = k.stackState ∧ q.context = none ∧
    ∀ site, k.schedSite = some site → q.chan = some (site.chan p)

/-- Process `p`, which no CPU runs: RUNNABLE at a point where `swtch` returns (in process
code), SLEEPING in `sleep` on the channel it sleeps on, or a ZOMBIE after `exit`'s
`sched()`; never RUNNING. -/
def Parked (q : Proc n) (p : Fin n) : Prop :=
  match q.state with
  | .runnable => ∃ k, q.context = some k ∧ k.resumable ∧ k.schedStack = false
  | .sleeping => ∃ site, q.context = some (.sleepRet site) ∧ q.chan = some (site.chan p)
  | .zombie => q.context = some .exitRet
  | .running => False
  | .unused | .embryo => True

end Proc

/-- Where a kernel thread can be: on a CPU, or saved in the context of a RUNNABLE process. -/
inductive Loc (n m : Nat) where
  | cpu (c : Fin m)
  | saved (p : Fin n)
  deriving DecidableEq

/-- The kernel thread at `l`: the process it runs for, and its code. -/
def Sys.thread (s : Sys n m) : Loc n m → Option (Option (Fin n) × Code n)
  | .cpu c => some ((s.cpus c).run.owner, (s.cpus c).run.code)
  | .saved p =>
    if (s.mem.procs p).state = .runnable then (s.mem.procs p).context.map (some p, ·) else none

/-! ## What a builder has set up -/

namespace Kernel

/-- `allocproc` has given EMBRYO slot `i` a kernel stack and a context at `forkret`. -/
def Made (s : Kernel n) (i : Fin n) : Prop :=
  (s.procs i).state = .embryo ∧ (s.procs i).kstack ≠ 0 ∧ (s.procs i).context = some .forkret

/-- What a thread at statement `b` of `allocproc`, `fork` or `userinit`, running for `me`,
has set up: the slot is EMBRYO with no parent and, from `fork`'s `copyuvm` on, has its
kernel stack and context; `fork` sets the page directory, then makes `me` the parent;
`userinit` sets `initproc` before anything else. -/
def Stage (s : Kernel n) (me : Option (Fin n)) : Code n → Prop
  | .allocScan .userinit => s.initproc = none
  | .allocKstack site i =>
    (s.procs i).state = .embryo ∧ (s.procs i).parent = none ∧ (site = .userinit → s.initproc = none)
  | .forkCopy i | .forkUndo i => s.Made i ∧ (s.procs i).parent = none
  | .forkSet i => s.Made i ∧ (s.procs i).parent = none ∧ (s.procs i).pgdir ≠ 0
  | .forkRun i => s.Made i ∧ (s.procs i).parent = me ∧ me.isSome ∧ (s.procs i).pgdir ≠ 0
  | .userinitVm i => s.Made i ∧ (s.procs i).parent = none ∧ s.initproc = some i
  | .userinitRun i =>
    s.Made i ∧ (s.procs i).parent = none ∧ (s.procs i).pgdir ≠ 0 ∧ s.initproc = some i
  | _ => True

/-- The thread at `k`, running for `me`, has set up what its statement of `allocproc`,
`fork` or `userinit` needs. -/
def Builds (s : Kernel n) (me : Option (Fin n)) (k : Code n) : Prop :=
  ∀ b, k.build = some b → s.Stage me b

end Kernel

/-- A thread at `k` is in `userinit`. -/
def Code.inInit (k : Code n) : Bool := k.build.any Code.initBuild

/-! ## The invariants -/

/-- **The stack layer.** -/
structure StackInv (s : Sys n m) : Prop where
  proc_eq : ∀ c, (s.cpus c).proc = (s.cpus c).run.current
  current_unique : ∀ c d p, (s.cpus c).run.current = some p → (s.cpus d).run.current = some p →
    c = d
  runs : ∀ c p k, (s.cpus c).run = .proc p k → (s.mem.procs p).Runs p k
  stack_code : ∀ c p k, (s.cpus c).run = .proc p k → k.schedStack = false
  parked : ∀ p, (∀ c, (s.cpus c).run.owner ≠ some p) → (s.mem.procs p).Parked p
  reaping : ∀ c i, (s.cpus c).run.code.reapOf = some i → (s.mem.procs i).state = .zombie
  no_bad_context : ∀ c, (s.cpus c).halt ≠ some .badContext

/-- **The builders' layer.** -/
structure BuildInv (s : Sys n m) : Prop where
  staged : ∀ l me k, s.thread l = some (me, k) → s.mem.Builds me k
  embryo_unique : ∀ l l' me me' k k' i, s.thread l = some (me, k) →
    s.thread l' = some (me', k') → k.embryoOf = some i → k'.embryoOf = some i → l = l'
  init_unique : ∀ l l' me me' k k', s.thread l = some (me, k) → s.thread l' = some (me', k') →
    k.inInit → k'.inInit → l = l'
  unused_parent : ∀ i, (s.mem.procs i).state = .unused → (s.mem.procs i).parent = none

theorem StackInv.init : StackInv (Sys.init : Sys n m) where
  proc_eq c := by simp only [Sys.init]; split <;> rfl
  current_unique c d p := by simp only [Sys.init]; split <;> simp [Code.resumeOf, Code.schedLoop]
  runs c p k := by simp only [Sys.init]; split <;> simp
  stack_code c p k := by simp only [Sys.init]; split <;> simp
  parked p _ := by simp [Sys.init, Proc.empty, Proc.Parked]
  reaping c i := by simp only [Sys.init]; split <;> simp [Code.reapOf, Code.schedLoop, Run.code]
  no_bad_context c := by simp [Sys.init]

/-- At boot every thread is a CPU's: CPU 0 about to run `userinit`, the others their
schedulers. -/
theorem Sys.thread_init {l : Loc n m} {me : Option (Fin n)} {k : Code n}
    (h : (Sys.init : Sys n m).thread l = some (me, k)) :
    ∃ c : Fin m, l = .cpu c ∧
      k = if c.val = 0 then .acquire .ptable (.allocScan .userinit) else Code.schedLoop := by
  cases l with
  | saved p => simp [Sys.thread, Sys.init, Proc.empty] at h
  | cpu c =>
    simp only [Sys.thread, Sys.init, Option.some.injEq, Prod.mk.injEq] at h
    exact ⟨c, rfl, h.2.symm⟩

theorem BuildInv.init : BuildInv (Sys.init : Sys n m) where
  staged l me k h b hb := by
    obtain ⟨c, -, rfl⟩ := Sys.thread_init h
    split at hb <;> simp only [Code.build, Code.schedLoop, reduceCtorEq, Option.some.injEq] at hb
    subst hb; rfl
  embryo_unique l l' me me' k k' i h _ hk := by
    obtain ⟨c, -, rfl⟩ := Sys.thread_init h
    split at hk <;> simp [Code.embryoOf, Code.build, Code.schedLoop, Code.slotOf] at hk
  init_unique l l' me me' k k' h h' hk hk' := by
    obtain ⟨c, rfl, rfl⟩ := Sys.thread_init h
    obtain ⟨d, rfl, rfl⟩ := Sys.thread_init h'
    split at hk <;> split at hk' <;>
      simp_all [Code.inInit, Code.build, Code.schedLoop, Fin.ext_iff]
  unused_parent i _ := rfl

/-! ## Reading the invariants -/

namespace Code

variable {k : Code n}

theorem stackState_ne_unused : k.stackState ≠ .unused := by
  unfold stackState; split <;> simp

theorem stackState_ne_embryo : k.stackState ≠ .embryo := by
  unfold stackState; split <;> simp

/-- Between a state change and its `swtch`, a thread holds `ptable.lock`. -/
theorem holds_ptable_of_stackState (h : k.stackState ≠ .running) : k.holds .ptable := by
  cases k <;> first | rfl | exact absurd rfl h

theorem schedSite_of_holds (h : k.holds .ptable = false) : k.schedSite = none := by
  cases k <;> first | rfl | cases h

theorem schedSite_of_running (h : k.stackState = .running) : k.schedSite = none := by
  cases k <;> first | rfl | cases h

theorem running_of_ordinary (h : k.ordinary) : k.stackState = .running ∧ k.resumeOf = none := by
  simp only [ordinary, Bool.and_eq_true, beq_iff_eq, Option.isNone_iff_eq_none] at h
  exact ⟨h.1.1.1, h.1.1.2⟩

theorem resumeOf_of_schedStack (h : k.schedStack = false) : k.resumeOf = none := by
  cases k <;> first | rfl | cases h

/-- A resumption point is RUNNING code. -/
theorem stackState_of_resumable (h : k.resumable) :
    k.stackState = .running ∧ k.schedSite = none ∧ k.resumeOf = none ∧ k.reapOf = none := by
  cases k <;> first | exact ⟨rfl, rfl, rfl, rfl⟩ | cases h

/-- `wait` reaps in RUNNING code. -/
theorem stackState_of_reapOf {i : Fin n} (h : k.reapOf = some i) : k.stackState = .running := by
  cases k <;> first | rfl | cases h

/-- A builder stands at an EMBRYO slot. -/
theorem embryo_of_builds {s : Kernel n} {me : Option (Fin n)} {i : Fin n} (hb : s.Builds me k)
    (h : k.embryoOf = some i) : (s.procs i).state = .embryo := by
  simp only [embryoOf, Option.bind_eq_some] at h
  obtain ⟨b, hk, hi⟩ := h
  have := hb b hk
  cases b <;> simp only [slotOf, reduceCtorEq, Option.some.injEq] at hi <;> subst hi <;>
    simp only [Kernel.Stage, Kernel.Made] at this <;> first | exact this.1.1 | exact this.1

end Code

theorem LockInv.ptable_unique {s : Sys n m} (hl : LockInv s) {c d : Fin m}
    (hc : (s.cpus c).run.code.holds .ptable) (hd : (s.cpus d).run.code.holds .ptable) : c = d :=
  Option.some.inj (((hl.owner_iff _ c).mpr hc).symm.trans ((hl.owner_iff _ d).mpr hd))

namespace StackInv

variable {s : Sys n m} (hl : LockInv s) (hi : StackInv s) {c : Fin m}

include hi in
/-- No CPU runs on the stack of an UNUSED or EMBRYO process. -/
theorem off_stack {p : Fin n} (h : (s.mem.procs p).state = .unused ∨ (s.mem.procs p).state = .embryo)
    (d : Fin m) : (s.cpus d).run.owner ≠ some p := by
  intro hd
  cases hr : (s.cpus d).run with
  | sched k => simp [hr, Run.owner] at hd
  | proc q k =>
    simp only [hr, Run.owner, Option.some.injEq] at hd
    subst hd
    have := (hi.runs d q k hr).1
    rcases h with h | h <;> rw [h] at this
    exacts [Code.stackState_ne_unused this.symm, Code.stackState_ne_embryo this.symm]

include hl hi in
/-- While CPU `c` holds `ptable.lock`, a process that is not RUNNING is on no other CPU's
stack. -/
theorem off_stack_of_ptable (hc : (s.cpus c).run.code.holds .ptable) {p : Fin n}
    (hp : (s.cpus c).run.owner ≠ some p) (hs : (s.mem.procs p).state ≠ .running) (d : Fin m) :
    (s.cpus d).run.owner ≠ some p := by
  intro hd
  cases hr : (s.cpus d).run with
  | sched k => simp [hr, Run.owner] at hd
  | proc q k =>
    simp only [hr, Run.owner, Option.some.injEq] at hd
    subst hd
    have hk := Code.holds_ptable_of_stackState ((hi.runs d q k hr).1 ▸ hs)
    obtain rfl := hl.ptable_unique hc (by rw [hr]; exact hk)
    simp [hr, Run.owner] at hp

include hi in
theorem owner_unique {p : Fin n} {d : Fin m} (hc : (s.cpus c).run.owner = some p)
    (hd : (s.cpus d).run.owner = some p) : c = d := by
  refine hi.current_unique c d p ?_ ?_ <;>
  · revert hc hd; cases (s.cpus c).run <;> cases (s.cpus d).run <;> simp_all [Run.owner]

end StackInv

/-! ## A CPU going on to new code -/

namespace Proc

variable {q q' : Proc n} {p : Fin n}

/-- `q'` agrees with `q` on what the stack layer reads. -/
def SameCore (q' q : Proc n) : Prop :=
  q'.state = q.state ∧ q'.context = q.context ∧ q'.chan = q.chan

theorem runs_congr (h : q'.SameCore q) {k : Code n} : q'.Runs p k ↔ q.Runs p k := by
  obtain ⟨h1, h2, h3⟩ := h
  simp only [Runs, h1, h2, h3]

theorem parked_congr (h : q'.SameCore q) : q'.Parked p ↔ q.Parked p := by
  obtain ⟨h1, h2, h3⟩ := h
  simp only [Parked, h1, h2, h3]

/-- Code with the same state and `sleep` site needs the same of the process. -/
theorem runs_of_code {k k' : Code n} (hs : k'.stackState = k.stackState)
    (hc : k'.schedSite = k.schedSite) (h : q.Runs p k) : q.Runs p k' := by
  simpa only [Runs, hs, hc] using h

end Proc

/-- What the stack layer reads of slot `p` is kept by the new memory `mem'`, or no CPU runs
on `p`'s stack and it stays parked. -/
def Sys.Frame (s : Sys n m) (mem' : Kernel n) (p : Fin n) : Prop :=
  (mem'.procs p).SameCore (s.mem.procs p) ∨
    ((∀ d, (s.cpus d).run.owner ≠ some p) ∧ ((s.mem.procs p).Parked p → (mem'.procs p).Parked p))

theorem Sys.frame_of_eq {s : Sys n m} {mem' : Kernel n} {p : Fin n}
    (h : mem'.procs p = s.mem.procs p) : s.Frame mem' p :=
  .inl (h ▸ ⟨rfl, rfl, rfl⟩)

namespace StackInv

variable {s : Sys n m} (hl : LockInv s) (hi : StackInv s) {c : Fin m}

include hl hi in
/-- **Step lemma for a CPU that stays on its stack.** CPU `c` goes on to `k'` and memory
changes: the new code keeps `c->proc`, the process `c` runs for is set as `k'` needs, every
other slot keeps what the layer reads of it or stays parked, and ZOMBIEs stay ZOMBIE but
the one `c` is reaping. -/
theorem setCode {s' : Sys n m} {k' : Code n}
    (hrun : ∀ d, (s'.cpus d).run = if d = c then (s.cpus c).run.setCode k' else (s.cpus d).run)
    (hproc : ∀ d, (s'.cpus d).proc = (s.cpus d).proc)
    (hhalt : ∀ d, (s'.cpus d).halt = (s.cpus d).halt)
    (hres : k'.resumeOf = (s.cpus c).run.code.resumeOf)
    (hstk : k'.schedStack = (s.cpus c).run.code.schedStack)
    (hme : ∀ p, (s.cpus c).run.owner = some p → (s.mem.procs p).Runs p (s.cpus c).run.code →
      (s'.mem.procs p).Runs p k')
    (hframe : ∀ p, (s.cpus c).run.owner ≠ some p → s.Frame s'.mem p)
    (hreap : ∀ i, k'.reapOf = some i → (s'.mem.procs i).state = .zombie)
    (hzombie : ∀ i, (s.mem.procs i).state = .zombie →
      (s'.mem.procs i).state = .zombie ∨ (s.cpus c).run.code.reapOf = some i) :
    StackInv s' := by
  have hcur (d) : (s'.cpus d).run.current = (s.cpus d).run.current := by
    rw [hrun]; split
    · subst d; exact Run.current_setCode _ _ hres
    · rfl
  have hown (d) : (s'.cpus d).run.owner = (s.cpus d).run.owner := by
    rw [hrun]; split <;> simp_all
  refine ⟨fun d => by rw [hproc, hcur]; exact hi.proc_eq d,
    fun d d' p => by rw [hcur, hcur]; exact hi.current_unique d d' p, ?_, ?_, ?_, ?_,
    fun d => by rw [hhalt]; exact hi.no_bad_context d⟩
  · intro d p k h
    rw [hrun] at h
    split at h
    · subst d
      cases hr : (s.cpus c).run with
      | sched _ => simp [hr, Run.setCode] at h
      | proc q k0 =>
        simp only [hr, Run.setCode, Run.proc.injEq] at h
        obtain ⟨rfl, rfl⟩ := h
        exact hme q (by simp [hr, Run.owner]) (by simpa [hr, Run.code] using hi.runs c q k0 hr)
    · have hne : (s.cpus c).run.owner ≠ some p := fun hc =>
        ‹¬d = c› (hi.owner_unique (by rw [h]; rfl) hc)
      rcases hframe p hne with hf | ⟨hoff, -⟩
      · exact (Proc.runs_congr hf).mpr (hi.runs d p k h)
      · exact absurd (by rw [h]; rfl) (hoff d)
  · intro d p k h
    rw [hrun] at h
    split at h
    · subst d
      cases hr : (s.cpus c).run with
      | sched _ => simp [hr, Run.setCode] at h
      | proc q k0 =>
        simp only [hr, Run.setCode, Run.proc.injEq] at h
        obtain ⟨rfl, rfl⟩ := h
        rw [hstk, hr]; exact hi.stack_code c q k0 hr
    · exact hi.stack_code d p k h
  · intro p hp
    have hp' (d) : (s.cpus d).run.owner ≠ some p := hown d ▸ hp d
    rcases hframe p (hp' c) with hf | ⟨-, hpk⟩
    · exact (Proc.parked_congr hf).mpr (hi.parked p hp')
    · exact hpk (hi.parked p hp')
  · intro d i h
    rw [hrun] at h
    split at h
    · subst d; exact hreap i (by simpa using h)
    · rcases hzombie i (hi.reaping d i h) with hz | hc
      · exact hz
      · exact absurd (hl.ptable_unique (Code.holds_ptable_of_reapOf (hl.code_wf c) hc)
          (Code.holds_ptable_of_reapOf (hl.code_wf d) h)) (Ne.symm ‹_›)

end StackInv

/-- The threads after CPU `c` goes on to `k'`: CPU `c`'s own, one that was there before, or
one that builds nothing. -/
theorem Sys.thread_setCode {s s' : Sys n m} {c : Fin m} {k' : Code n}
    (hrun : ∀ d, (s'.cpus d).run = if d = c then (s.cpus c).run.setCode k' else (s.cpus d).run)
    (hsaved : ∀ p k, (s'.mem.procs p).state = .runnable → (s'.mem.procs p).context = some k →
      ((s.mem.procs p).state = .runnable ∧ (s.mem.procs p).context = some k) ∨ k.build = none)
    {l : Loc n m} {me : Option (Fin n)} {k : Code n} (h : s'.thread l = some (me, k)) :
    (l = .cpu c ∧ me = (s.cpus c).run.owner ∧ k = k') ∨ (l ≠ .cpu c ∧ s.thread l = some (me, k)) ∨
      k.build = none := by
  cases l with
  | cpu d =>
    simp only [Sys.thread, hrun, Option.some.injEq, Prod.mk.injEq] at h
    split at h
    · subst d
      simp only [Run.owner_setCode, Run.code_setCode] at h
      exact .inl ⟨rfl, h.1.symm, h.2.symm⟩
    · exact .inr (.inl ⟨by simpa using ‹¬d = c›, by simpa [Sys.thread] using h⟩)
  | saved p =>
    simp only [Sys.thread] at h
    split at h
    · obtain ⟨k0, hk0, hk⟩ := Option.map_eq_some'.mp h
      simp only [Prod.mk.injEq] at hk
      obtain ⟨rfl, rfl⟩ := hk
      rcases hsaved p k0 ‹_› hk0 with ⟨h1, h2⟩ | h
      · exact .inr (.inl ⟨by simp, by simp [Sys.thread, h1, h2]⟩)
      · exact .inr (.inr h)
    · cases h

namespace BuildInv

variable {s : Sys n m} (hb : BuildInv s) {c : Fin m}

include hb in
/-- **Step lemma of the builders' layer for a CPU that stays on its stack.** CPU `c` goes
on to `knew`: it has set up what `knew` needs, every other thread keeps what it had set up,
a thread saved anew builds nothing, `knew` builds only what `c` built or a slot that was
UNUSED, and UNUSED slots have no parent. -/
theorem setCode {s' : Sys n m} {knew : Code n}
    (hrun : ∀ d, (s'.cpus d).run = if d = c then (s.cpus c).run.setCode knew else (s.cpus d).run)
    (hsaved : ∀ p k, (s'.mem.procs p).state = .runnable → (s'.mem.procs p).context = some k →
      ((s.mem.procs p).state = .runnable ∧ (s.mem.procs p).context = some k) ∨ k.build = none)
    (hnew : s.mem.Builds (s.cpus c).run.owner (s.cpus c).run.code →
      s'.mem.Builds (s.cpus c).run.owner knew)
    (hold : ∀ l me k, l ≠ .cpu c → s.thread l = some (me, k) → s.mem.Builds me k →
      s'.mem.Builds me k)
    (hkey : ∀ i, knew.embryoOf = some i →
      (s.cpus c).run.code.embryoOf = some i ∨ (s.mem.procs i).state = .unused)
    (hinit : knew.inInit → (s.cpus c).run.code.inInit)
    (hunused : ∀ i, (s'.mem.procs i).state = .unused → (s'.mem.procs i).parent = none) :
    BuildInv s' := by
  have hc : s.thread (.cpu c) = some ((s.cpus c).run.owner, (s.cpus c).run.code) := rfl
  have cls {l me k} (h : s'.thread l = some (me, k)) := Sys.thread_setCode hrun hsaved h
  refine ⟨fun l me k h => ?_, fun l l' me me' k₁ k₂ i h h' e e' => ?_,
    fun l l' me me' k₁ k₂ h h' e e' => ?_, hunused⟩
  · rcases cls h with ⟨-, rfl, rfl⟩ | ⟨hne, ho⟩ | hn
    · exact hnew (hb.staged _ _ _ hc)
    · exact hold l me k hne ho (hb.staged l me k ho)
    · intro b hb'; simp [hn] at hb'
  · have clash {l₀ me₀ k₀} (hne : l₀ ≠ .cpu c) (ho : s.thread l₀ = some (me₀, k₀))
        (e₀ : k₀.embryoOf = some i) (en : knew.embryoOf = some i) : False := by
      rcases hkey i en with hk | hu
      · exact hne (hb.embryo_unique _ _ _ _ _ _ i ho hc e₀ hk)
      · have := Code.embryo_of_builds (hb.staged _ _ _ ho) e₀
        rw [hu] at this; cases this
    rcases cls h with ⟨rfl, -, rfl⟩ | ⟨hne, ho⟩ | hn <;>
    rcases cls h' with ⟨rfl, -, rfl⟩ | ⟨hne', ho'⟩ | hn'
    all_goals first
      | rfl
      | exact (clash hne' ho' e' e).elim
      | exact (clash hne ho e e').elim
      | exact hb.embryo_unique _ _ _ _ _ _ i ho ho' e e'
      | simp [Code.embryoOf, hn] at e
      | simp [Code.embryoOf, hn'] at e'
  · have clash {l₀ me₀ k₀} (hne : l₀ ≠ .cpu c) (ho : s.thread l₀ = some (me₀, k₀))
        (e₀ : k₀.inInit) (en : knew.inInit) : False :=
      hne (hb.init_unique _ _ _ _ _ _ ho hc e₀ (hinit en))
    rcases cls h with ⟨rfl, -, rfl⟩ | ⟨hne, ho⟩ | hn <;>
    rcases cls h' with ⟨rfl, -, rfl⟩ | ⟨hne', ho'⟩ | hn'
    all_goals first
      | rfl
      | exact (clash hne' ho' e' e).elim
      | exact (clash hne ho e e').elim
      | exact hb.init_unique _ _ _ _ _ _ ho ho' e e'
      | simp [Code.inInit, hn] at e
      | simp [Code.inInit, hn'] at e'

end BuildInv

/-! ## Wakeups seen from one slot -/

namespace Proc

/-- `q'` is `q`, or `q` woken up: a SLEEPING state may have become RUNNABLE; the context and
the channel are kept. -/
def Woken (q' q : Proc n) : Prop :=
  q'.context = q.context ∧ q'.chan = q.chan ∧
    (q'.state = q.state ∨ q.state = .sleeping ∧ q'.state = .runnable)

theorem Woken.trans {q q' q'' : Proc n} (h₂ : q''.Woken q') (h₁ : q'.Woken q) : q''.Woken q := by
  obtain ⟨a₂, b₂, c₂⟩ := h₂
  obtain ⟨a₁, b₁, c₁⟩ := h₁
  refine ⟨a₂.trans a₁, b₂.trans b₁, ?_⟩
  rcases c₁ with e₁ | ⟨s₁, r₁⟩ <;> rcases c₂ with e₂ | ⟨s₂, r₂⟩
  · exact .inl (e₂.trans e₁)
  · exact .inr ⟨e₁ ▸ s₂, r₂⟩
  · exact .inr ⟨s₁, e₂.trans r₁⟩
  · rw [r₁] at s₂; cases s₂

theorem woken_wakeSlot (ch : Option (Chan n)) (q : Proc n) : (wakeSlot ch q).Woken q := by
  refine ⟨by simp, by simp, ?_⟩
  simp only [wakeSlot_state]
  split_ifs with h
  · exact .inr ⟨h.1, rfl⟩
  · exact .inl rfl

theorem woken_killSlot (q : Proc n) : (killSlot q).Woken q := by
  refine ⟨rfl, rfl, ?_⟩
  simp only [killSlot]
  split_ifs with h
  · exact .inr ⟨h, rfl⟩
  · exact .inl rfl

theorem woken_reparent (t : Fin n → Proc n) (me : Fin n) (init : Option (Fin n)) (j : Fin n) :
    (reparent t me init j).Woken (t j) := by
  have ha : (adopt t me init j).Woken (t j) := by
    simp only [adopt]; split <;> exact ⟨rfl, rfl, .inl rfl⟩
  rw [reparent_eq]
  split
  · exact (woken_wakeSlot _ _).trans ha
  · exact ha

/-- A woken process the stack layer leaves parked stays parked. -/
theorem parked_of_woken {q q' : Proc n} {p : Fin n} (h : q'.Woken q) (hp : q.Parked p) :
    q'.Parked p := by
  obtain ⟨h1, h2, h3 | ⟨hs, hr⟩⟩ := h
  · exact (parked_congr ⟨h3, h1, h2⟩).mpr hp
  · simp only [Parked, hs] at hp
    obtain ⟨site, hc, -⟩ := hp
    simp only [Parked, hr, h1, hc]
    exact ⟨_, rfl, rfl, rfl⟩

end Proc

/-- Outside the exiting process, `exit` only wakes processes and changes parents. -/
theorem Kernel.exitWake_woken (s : Kernel n) {p j : Fin n} (hj : j ≠ p) :
    ((s.exitWake p).procs j).Woken (s.procs j) := by
  simp only [Kernel.exitWake, Function.update_noteq hj]
  exact (Proc.woken_reparent _ _ _ _).trans (Proc.woken_wakeSlot _ _)

theorem Kernel.exitWake_self (s : Kernel n) (p : Fin n) :
    (s.exitWake p).procs p = { reparent (wakeup1 s.procs ((s.procs p).parent.map .proc)) p s.initproc p
      with state := .zombie } := by
  simp [Kernel.exitWake]

namespace StackInv

variable {s : Sys n m} (hl : LockInv s) (hi : StackInv s) {c : Fin m}

include hi in
/-- The process CPU `c` runs for is as its code has set it. -/
theorem runs_self {p : Fin n} (h : (s.cpus c).run.owner = some p) :
    (s.mem.procs p).Runs p (s.cpus c).run.code := by
  cases hr : (s.cpus c).run with
  | sched k => simp [hr, Run.owner] at h
  | proc q k =>
    simp only [hr, Run.owner, Option.some.injEq] at h
    subst h
    exact hi.runs c q k hr

include hl hi in
/-- While CPU `c` holds `ptable.lock`, a process it does not run may be woken. -/
theorem frame_woken (hc : (s.cpus c).run.code.holds .ptable) {mem' : Kernel n} {p : Fin n}
    (hp : (s.cpus c).run.owner ≠ some p) (h : (mem'.procs p).Woken (s.mem.procs p)) :
    s.Frame mem' p := by
  rcases h with ⟨h1, h2, h3 | ⟨hs, hr⟩⟩
  · exact .inl ⟨h3, h1, h2⟩
  · exact .inr ⟨hi.off_stack_of_ptable hl hc hp (by rw [hs]; decide),
      Proc.parked_of_woken ⟨h1, h2, .inr ⟨hs, hr⟩⟩⟩

end StackInv

/-! ## The stack layer over a statement -/

namespace StackInv

variable {s : Sys n m} (hl : LockInv s) (hi : StackInv s) {c : Fin m}

include hl hi in
/-- CPU `c` goes on to code of the same kind and writes slot `i`, which is either its own
process with what the layer reads kept, or a slot it may write. -/
theorem goto_update {k' : Code n} {mem' : Kernel n} {i : Fin n}
    (hrest : ∀ j, j ≠ i → mem'.procs j = s.mem.procs j)
    (hres : k'.resumeOf = (s.cpus c).run.code.resumeOf)
    (hstk : k'.schedStack = (s.cpus c).run.code.schedStack)
    (hss : k'.stackState = (s.cpus c).run.code.stackState)
    (hsc : k'.schedSite = (s.cpus c).run.code.schedSite)
    (hme : (s.cpus c).run.owner = some i → (mem'.procs i).SameCore (s.mem.procs i))
    (hfi : (s.cpus c).run.owner ≠ some i → s.Frame mem' i)
    (hreap : ∀ j, k'.reapOf = some j → (mem'.procs j).state = .zombie)
    (hzi : (s.mem.procs i).state = .zombie →
      (mem'.procs i).state = .zombie ∨ (s.cpus c).run.code.reapOf = some i) :
    StackInv ({ s with mem := mem' }.goto c k') := by
  refine hi.setCode hl (Sys.goto_run _ _ · _) (fun _ => Sys.goto_proc _ _ _ _)
    (fun _ => Sys.goto_halt _ _ _ _) hres hstk (fun p hp hr => ?_) (fun p hp => ?_) hreap
    (fun j hz => ?_) <;> simp only [Sys.goto_mem]
  · by_cases h : p = i
    · subst h; exact (Proc.runs_congr (hme hp)).mpr (Proc.runs_of_code hss hsc hr)
    · rw [hrest p h]; exact Proc.runs_of_code hss hsc hr
  · by_cases h : p = i
    · subst h; exact hfi hp
    · exact Sys.frame_of_eq (hrest p h)
  · by_cases h : j = i
    · subst h; exact hzi hz
    · exact .inl (by rw [hrest j h, hz])

include hl hi in
/-- CPU `c` goes on to `k'` and only its own process changes. -/
theorem goto_self {k' : Code n} {mem' : Kernel n} {p : Fin n} {q : Proc n}
    (ho : (s.cpus c).run.owner = some p) (hrun : (s.cpus c).run.code.stackState = .running)
    (hprocs : mem'.procs = Function.update s.mem.procs p q)
    (hres : k'.resumeOf = (s.cpus c).run.code.resumeOf)
    (hstk : k'.schedStack = (s.cpus c).run.code.schedStack)
    (hme : (s.mem.procs p).Runs p (s.cpus c).run.code → q.Runs p k')
    (hreap : ∀ j, k'.reapOf = some j → (mem'.procs j).state = .zombie) :
    StackInv ({ s with mem := mem' }.goto c k') := by
  have hrp := hi.runs_self ho
  refine hi.setCode hl (Sys.goto_run _ _ · _) (fun _ => Sys.goto_proc _ _ _ _)
    (fun _ => Sys.goto_halt _ _ _ _) hres hstk (fun p' hp' _ => ?_) (fun p' hp' => ?_) hreap
    (fun j hz => ?_)
  · obtain rfl := Option.some.inj (hp'.symm.trans ho)
    simp only [Sys.goto_mem, hprocs, Function.update_same]; exact hme hrp
  · have hne : p' ≠ p := fun h => hp' (by rw [h]; exact ho)
    exact Sys.frame_of_eq (by simp [hprocs, Function.update_noteq hne])
  · simp only [Sys.goto_mem, hprocs]
    by_cases h : j = p
    · subst h
      have := hrp.1
      rw [hrun, hz] at this
      cases this
    · simp [Function.update_noteq h, hz]

include hl hi in
/-- CPU `c` goes on to code of the same kind and memory keeps the table. -/
theorem goto_same {k' : Code n} {mem' : Kernel n} (hprocs : mem'.procs = s.mem.procs)
    (hres : k'.resumeOf = (s.cpus c).run.code.resumeOf)
    (hstk : k'.schedStack = (s.cpus c).run.code.schedStack)
    (hss : k'.stackState = (s.cpus c).run.code.stackState)
    (hsc : k'.schedSite = (s.cpus c).run.code.schedSite)
    (hreap : ∀ j, k'.reapOf = some j → (s.mem.procs j).state = .zombie) :
    StackInv ({ s with mem := mem' }.goto c k') :=
  hi.setCode hl (Sys.goto_run _ _ · _) (fun _ => Sys.goto_proc _ _ _ _)
    (fun _ => Sys.goto_halt _ _ _ _) hres hstk
    (fun _ _ hr => by simpa only [Sys.goto_mem, hprocs] using Proc.runs_of_code hss hsc hr)
    (fun _ _ => Sys.frame_of_eq (by simp [hprocs]))
    (fun j hj => by simpa only [Sys.goto_mem, hprocs] using hreap j hj)
    (fun j hz => .inl (by simpa only [Sys.goto_mem, hprocs] using hz))

include hl hi in
/-- **The stack layer over a statement that goes on** (`Effect.next`), by what the statement
does. -/
theorem next (hb : BuildInv s) {k' : Code n} {mem' : Kernel n}
    (hd : s.mem.Does (s.cpus c).run.owner (s.cpus c).run.code (.next k' mem')) :
    StackInv ({ s with mem := mem' }.goto c k') := by
  have hw := hl.code_wf c
  have hst := hb.staged (.cpu c) _ _ rfl
  have hrs {p} (h : (s.cpus c).run.owner = some p) := hi.runs_self h
  generalize hk : (s.cpus c).run.code = k at hd hw hst hrs
  generalize ho : (s.cpus c).run.owner = me at hd hst
  cases hd with
  | plain _ _ _ _ hp _ _ hv =>
    obtain ⟨hv, -⟩ := hv hw
    refine hi.goto_same hl hp ?_ ?_ ?_ ?_ fun j hj => hi.reaping c j ?_ <;> rw [hk]
    exacts [congrArg Code.View.resumeOf hv, congrArg Code.View.schedStack hv,
      congrArg Code.View.stackState hv,
      congrArg Code.View.schedSite hv, (congrArg Code.View.reapOf hv).symm.trans hj]
  | exitStart | forkretFirst =>
    refine hi.goto_same hl rfl ?_ ?_ ?_ ?_ fun j hj => hi.reaping c j ?_ <;> rw [hk]
    exacts [rfl, rfl, rfl, rfl, hj]
  | claim site i _ hu =>
    refine hi.goto_update hl (fun j hj => by simp [Kernel.setProc_ne _ _ hj]) (by rw [hk]; rfl)
      (by rw [hk]; cases site <;> rfl) (by rw [hk]; rfl) (by rw [hk]; rfl)
      (fun h => absurd h (hi.off_stack (.inl hu) c))
      (fun _ => .inr ⟨hi.off_stack (.inl hu), fun _ => by simp [Proc.Parked]⟩)
      (fun j h => by simp [Code.reapOf, Code.kmemRound] at h) (fun h => by rw [hu] at h; cases h)
  | unclaim i _ | forkUndo i _ =>
    have he : (s.mem.procs i).state = .embryo := by
      first | exact (hst _ rfl).1 | exact (hst _ rfl).1.1
    refine hi.goto_update hl (fun j hj => Kernel.setProc_ne _ _ hj) (by rw [hk]; rfl)
      (by rw [hk]; rfl) (by rw [hk]; rfl) (by rw [hk]; rfl) (fun h => absurd h (hi.off_stack (.inr he) c))
      (fun _ => .inr ⟨hi.off_stack (.inr he), fun _ => by simp [Proc.Parked]⟩)
      (fun j h => by simp [Code.reapOf] at h) (fun h => by rw [he] at h; cases h)
  | forkKstack i a _ _ | initKstack i a _ _ =>
    have he : (s.mem.procs i).state = .embryo := (hst _ rfl).1
    refine hi.goto_update hl (fun j hj => by simp [Kernel.setProc_ne _ _ hj]) (by rw [hk]; rfl)
      (by rw [hk]; rfl) (by rw [hk]; rfl) (by rw [hk]; rfl) (fun h => absurd h (hi.off_stack (.inr he) c))
      (fun _ => .inr ⟨hi.off_stack (.inr he), fun _ => by simp [Proc.Parked, he]⟩)
      (fun j h => by simp [Code.reapOf] at h) (fun h => by rw [he] at h; cases h)
  | initVm i _ _ _ | forkNoVm i _ | forkVm i _ _ _ | forkSet _ i _ _ =>
    exact hi.goto_update hl (fun j hj => Kernel.setProc_ne _ _ hj) (by rw [hk]; rfl)
      (by rw [hk]; rfl) (by rw [hk]; rfl) (by rw [hk]; rfl) (fun _ => by simp [Proc.SameCore])
      (fun _ => .inl (by simp [Proc.SameCore])) (fun j h => by simp [Code.reapOf] at h)
      (fun h => .inl (by simpa using h))
  | waitKstack i _ _ =>
    have hz := hi.reaping c i (by rw [hk]; rfl)
    refine hi.goto_update hl (fun j hj => Kernel.setProc_ne _ _ hj) (by rw [hk]; rfl)
      (by rw [hk]; rfl) (by rw [hk]; rfl) (by rw [hk]; rfl) (fun _ => by simp [Proc.SameCore])
      (fun _ => .inl (by simp [Proc.SameCore])) (fun j h => ?_) (fun h => .inl (by simpa using h))
    simp only [Code.reapOf, Option.some.injEq] at h
    subst h
    simpa using hz
  | initRun i _ | forkRun i _ =>
    have hm := (hst _ rfl).1
    refine hi.goto_update hl (fun j hj => Kernel.setProc_ne _ _ hj) (by rw [hk]; rfl)
      (by rw [hk]; rfl) (by rw [hk]; rfl) (by rw [hk]; rfl) (fun h => absurd h (hi.off_stack (.inr hm.1) c))
      (fun _ => .inr ⟨hi.off_stack (.inr hm.1), fun _ => ?_⟩)
      (fun j h => by simp [Code.reapOf] at h) (fun h => by rw [hm.1] at h; cases h)
    simp [Proc.Parked, hm.2.2, Code.resumable, Code.schedStack]
  | waitReap p i _ _ _ hz _ =>
    refine hi.goto_same hl rfl (by rw [hk]; rfl) (by rw [hk]; rfl) (by rw [hk]; rfl)
      (by rw [hk]; rfl) fun j h => ?_
    simp only [Code.kmemRound, Code.reapOf, Option.some.injEq] at h
    exact h ▸ hz
  | waitSleep p _ _ _ _ _ =>
    exact hi.goto_same hl rfl (by rw [hk]; rfl) (by rw [hk]; rfl) (by rw [hk]; rfl)
      (by rw [hk]; rfl)
      fun j h => by simp [Code.reapOf] at h
  | waitFreevm i _ =>
    have hz := hi.reaping c i (by rw [hk]; rfl)
    have hp : (s.cpus c).run.owner ≠ some i := fun h => by
      have := (hrs h).1; rw [hz] at this; cases this
    refine hi.goto_update hl (fun j hj => Kernel.setProc_ne _ _ hj) (by rw [hk]; rfl)
      (by rw [hk]; rfl) (by rw [hk]; rfl) (by rw [hk]; rfl) (fun h => absurd h hp)
      (fun _ => .inr ⟨hi.off_stack_of_ptable hl (by rw [hk]; rfl) hp (by rw [hz]; decide),
        fun _ => by simp [Proc.Parked]⟩)
      (fun j h => by simp [Code.reapOf] at h) (fun _ => .inr (by rw [hk]; rfl))
  | kill _ i _ _ =>
    refine hi.goto_update hl (fun j hj => Kernel.setProc_ne _ _ hj) (by rw [hk]; rfl)
      (by rw [hk]; rfl) (by rw [hk]; rfl) (by rw [hk]; rfl) (fun h => ?_)
      (fun hp => hi.frame_woken hl (by rw [hk]; rfl) hp (by simpa using Proc.woken_killSlot _))
      (fun j h => by simp [Code.reapOf] at h) (fun h => .inl (by simp [killSlot, h]))
    have := (hrs h).1
    simp [Proc.SameCore, killSlot, this, Code.stackState]
  | fault p _ _ hme =>
    refine hi.goto_update hl (fun j hj => Kernel.setProc_ne _ _ hj) (by rw [hk]; rfl)
      (by rw [hk]; rfl) (by rw [hk]; rfl) (by rw [hk]; rfl) (fun _ => by simp [Proc.SameCore])
      (fun h => absurd (ho.trans hme) h) (fun j h => by simp [Code.reapOf] at h)
      (fun h => .inl (by simpa using h))
  | sleep p site _ hme =>
    refine hi.goto_self hl (ho.trans hme) (by rw [hk]; rfl) (Kernel.setProc_procs _ _ _) (by rw [hk]; rfl)
      (by rw [hk]; rfl)
      (fun hr => ?_) (fun j h => by simp [Code.reapOf] at h)
    rw [hk] at hr
    exact ⟨rfl, hr.2.1, fun site' h => by cases h; rfl⟩
  | unsleep p site _ hme =>
    refine hi.goto_self hl (ho.trans hme) (by rw [hk]; rfl) (Kernel.setProc_procs _ _ _)
      (by rw [hk]; cases site <;> rfl) (by rw [hk]; cases site <;> rfl) (fun hr => ?_)
      (fun j h => by cases site <;> simp [Kernel.sleepReturn, Code.reapOf] at h)
    rw [hk] at hr
    refine ⟨?_, hr.2.1, fun site' h => ?_⟩ <;> cases site
    all_goals first | exact hr.1 | simp [Kernel.sleepReturn, Code.schedSite] at h
  | yield p r _ hme =>
    refine hi.goto_self hl (ho.trans hme) (by rw [hk]; rfl) (Kernel.setProc_procs _ _ _) (by rw [hk]; rfl)
      (by rw [hk]; rfl)
      (fun hr => ?_) (fun j h => by simp [Code.reapOf] at h)
    rw [hk] at hr
    exact ⟨rfl, hr.2.1, fun site' h => by cases h⟩
  | exitWake p _ hme =>
    have hp := ho.trans hme
    have hr := hrs hp
    refine hi.setCode hl (Sys.goto_run _ _ · _) (fun _ => Sys.goto_proc _ _ _ _)
      (fun _ => Sys.goto_halt _ _ _ _) (by rw [hk]; rfl) (by rw [hk]; rfl) (fun p' hp' _ => ?_)
      (fun p' hp' => hi.frame_woken hl (by rw [hk]; rfl) hp' ?_)
      (fun j h => by simp [Code.reapOf] at h) (fun j hz => .inl ?_) <;> simp only [Sys.goto_mem]
    · obtain rfl := Option.some.inj (hp'.symm.trans hp)
      refine ⟨by simp [Kernel.exitWake_self, Code.stackState], ?_, fun _ h => by cases h⟩
      simpa using hr.2.1
    · exact Kernel.exitWake_woken _ fun h => hp' (h ▸ hp)
    · by_cases h : j = p
      · subst h; rw [hr.1] at hz; cases hz
      · rcases Kernel.exitWake_woken s.mem h with ⟨-, -, e | ⟨e, -⟩⟩
        · rw [e, hz]
        · rw [hz] at e; cases e
  | wakeup ch k₀ _ =>
    refine hi.setCode hl (Sys.goto_run _ _ · _) (fun _ => Sys.goto_proc _ _ _ _)
      (fun _ => Sys.goto_halt _ _ _ _) (by rw [hk]; rfl) (by rw [hk]; rfl) (fun p' hp' hr => ?_)
      (fun p' hp' => hi.frame_woken hl (by rw [hk]; rfl) hp' ?_)
      (fun j h => by simp [hi.reaping c j (by rw [hk]; exact h)]) (fun j hz => .inl ?_) <;>
      simp only [Sys.goto_mem]
    · rw [hk] at hr
      have hns : (s.mem.procs p').state ≠ .sleeping := by rw [hr.1]; simp [Code.stackState]
      simpa [wakeSlot_of_not_sleeping hns] using hr
    · simpa using Proc.woken_wakeSlot _ _
    · simp [hz]

include hl hi in
/-- CPU `c` takes or releases a lock and goes on to ordinary code `k'`. -/
theorem lockOp {s' : Sys n m} {k' : Code n}
    (hrun : ∀ d, (s'.cpus d).run = if d = c then (s.cpus c).run.setCode k' else (s.cpus d).run)
    (hproc : ∀ d, (s'.cpus d).proc = (s.cpus d).proc)
    (hhalt : ∀ d, (s'.cpus d).halt = (s.cpus d).halt) (hmem : s'.mem = s.mem)
    (hf : k'.ordinary ∧ (s.cpus c).run.code.stackState = .running ∧
      (s.cpus c).run.code.resumeOf = none ∧ k'.schedStack = (s.cpus c).run.code.schedStack ∧
      k'.reapOf = (s.cpus c).run.code.reapOf) :
    StackInv s' := by
  obtain ⟨hord, hr0, hres0, hstk, hreap⟩ := hf
  have hk' := Code.running_of_ordinary hord
  refine hi.setCode hl hrun hproc hhalt (hk'.2.trans hres0.symm) hstk (fun p _ hr => ?_)
    (fun p _ => Sys.frame_of_eq (by rw [hmem])) (fun i h => ?_) (fun i hz => .inl (by rw [hmem]; exact hz))
  · rw [hmem]
    exact Proc.runs_of_code (hk'.1.trans hr0.symm)
      ((Code.schedSite_of_running hk'.1).trans (Code.schedSite_of_running hr0).symm) hr
  · rw [hmem]; exact hi.reaping c i (hreap ▸ h)

include hi in
theorem halt {why : Panic} (hwhy : why ≠ .badContext) : StackInv (s.halt c why) where
  proc_eq d := by simpa using hi.proc_eq d
  current_unique := by simpa using hi.current_unique
  runs := by simpa using hi.runs
  stack_code := by simpa using hi.stack_code
  parked := by simpa using hi.parked
  reaping := by simpa using hi.reaping
  no_bad_context d := by
    simp only [Sys.halt, Sys.setCpu_cpus]
    split
    · simpa using hwhy
    · exact hi.no_bad_context d

include hi in
/-- CPU `c`'s process stops where `sched()` saves it, and `c` goes back to its scheduler. -/
theorem sched {p : Fin n} {ret : Code n} (ho : (s.cpus c).run.owner = some p)
    (hret : ({ s.mem.procs p with context := some ret }).Parked p) :
    StackInv ({ s with mem := s.mem.setProc p fun q => { q with context := some ret } }.setCpu c
      fun x => { x with run := .sched (.schedResume p) }) := by
  have hcur : (s.cpus c).run.current = some p := by
    revert ho; cases (s.cpus c).run <;> simp [Run.owner]
  have hown (d) (hd : d ≠ c) (q : Fin n) (h : (s.cpus d).run.owner = some q) : q ≠ p := by
    rintro rfl; exact hd (hi.owner_unique h ho)
  refine ⟨fun d => ?_, fun d d' q => ?_, fun d q k h => ?_, fun d q k h => ?_, fun q hq => ?_,
    fun d i h => ?_, fun d => ?_⟩ <;> simp only [Sys.setCpu_cpus, Sys.setCpu_mem] at *
  · split
    · subst d; rw [hi.proc_eq, hcur]; rfl
    · exact hi.proc_eq d
  · have e (d) : (if d = c then some p else (s.cpus d).run.current) = (s.cpus d).run.current := by
      split <;> simp_all
    split <;> split <;> intro h1 h2 <;> first
      | exact hi.current_unique _ _ q (by simpa [Code.resumeOf, e] using h1) (by simpa [Code.resumeOf, e] using h2)
      | skip
    all_goals subst_vars
    all_goals first
      | rfl
      | exact hi.current_unique _ _ q (by simp_all [Code.resumeOf]) (by simp_all [Code.resumeOf])
  · split at h
    · cases h
    · rw [Kernel.setProc_ne _ _ (hown d ‹_› q (by rw [h]; rfl))]; exact hi.runs d q k h
  · split at h
    · cases h
    · exact hi.stack_code d q k h
  · by_cases hqp : q = p
    · subst hqp; simpa using hret
    · rw [Kernel.setProc_ne _ _ hqp]
      refine hi.parked q fun d hd => ?_
      by_cases hdc : d = c
      · subst hdc; rw [ho] at hd; exact hqp (Option.some.inj hd).symm
      · have := hq d
        simp only [hdc, if_false] at this
        exact this hd
  · split at h
    · simp [Code.reapOf] at h
    · by_cases hip : i = p
      · subst hip; simpa using hi.reaping d i h
      · rw [Kernel.setProc_ne _ _ hip]; exact hi.reaping d i h
  · split
    · subst d; exact hi.no_bad_context _
    · exact hi.no_bad_context d

include hi in
/-- Scheduler code runs on the CPU's own stack. -/
theorem run_of_schedStack {d : Fin m} (h : (s.cpus d).run.code.schedStack) :
    (s.cpus d).run = .sched (s.cpus d).run.code := by
  cases hr : (s.cpus d).run with
  | sched k => rfl
  | proc q k => have := hi.stack_code d q k hr; simp_all [Run.code]

include hl hi in
/-- **What the scheduler finds.** While a CPU scans the table under `ptable.lock`, every
RUNNABLE process has a saved context at a point where `swtch` returns into process code. -/
theorem dispatchable {i : Nat} {j : Fin n} (hc : (s.cpus c).run.code = .schedScan i)
    (hj : (s.mem.procs j).state = .runnable) :
    ∃ k, (s.mem.procs j).context = some k ∧ k.resumable ∧ k.schedStack = false := by
  have hown : (s.cpus c).run.owner = none := by
    rw [hi.run_of_schedStack (by rw [hc]; rfl)]; rfl
  have := hi.parked j (hi.off_stack_of_ptable hl (by rw [hc]; rfl) (by simp [hown]) (by simp [hj]))
  simpa only [Proc.Parked, hj] using this

include hl hi in
/-- The scheduler on CPU `c` switches to RUNNABLE process `j`, at its saved context `k`. -/
theorem dispatch {i : Nat} {j : Fin n} {k : Code n} (hc : (s.cpus c).run.code = .schedScan i)
    (hj : (s.mem.procs j).state = .runnable) (hk : (s.mem.procs j).context = some k) :
    StackInv ({ s with mem := s.mem.setProc j fun q => { q with state := .running, context := none } }.setCpu c
      fun x => { x with proc := some j, run := .proc j k }) := by
  have hrc := hi.run_of_schedStack (d := c) (by rw [hc]; rfl)
  rw [hc] at hrc
  have hptable : (s.cpus c).run.code.holds .ptable := by rw [hc]; rfl
  have hoff := hi.off_stack_of_ptable hl hptable (p := j) (by simp [hrc, Run.owner]) (by simp [hj])
  obtain ⟨k', hk', hres, hstk⟩ := hi.dispatchable hl hc hj
  rw [hk] at hk'; cases hk'
  have hkr := Code.stackState_of_resumable hres
  refine ⟨fun d => ?_, fun d d' q => ?_, fun d q k0 h => ?_, fun d q k0 h => ?_, fun q hq => ?_,
    fun d i0 h => ?_, fun d => ?_⟩ <;> simp only [Sys.setCpu_cpus, Sys.setCpu_mem] at *
  · split
    · rfl
    · exact hi.proc_eq d
  · have other (d) (hd : d ≠ c) : (s.cpus d).run.current ≠ some j := fun h => by
      rcases Run.current_cases h with h | h
      · exact hoff d h
      · exact hd (hl.ptable_unique (by rw [h]; rfl) hptable)
    split <;> split <;> intro h1 h2 <;> (try simp only [Run.current_proc, Option.some.injEq] at h1) <;>
      (try simp only [Run.current_proc, Option.some.injEq] at h2)
    · subst_vars; rfl
    · subst h1; exact absurd h2 (other _ ‹_›)
    · subst h2; exact absurd h1 (other _ ‹_›)
    · exact hi.current_unique _ _ q h1 h2
  · split at h
    · simp only [Run.proc.injEq] at h
      obtain ⟨rfl, rfl⟩ := h
      exact ⟨by simp [hkr.1], by simp, fun _ h => by simp [hkr.2.1] at h⟩
    · have hq : q ≠ j := fun e => hoff d (by rw [h, e]; rfl)
      rw [Kernel.setProc_ne _ _ hq]; exact hi.runs d q k0 h
  · split at h
    · simp only [Run.proc.injEq] at h
      obtain ⟨rfl, rfl⟩ := h
      exact hstk
    · exact hi.stack_code d q k0 h
  · have hqj : q ≠ j := fun e => hq c (by simp [e, Run.owner])
    rw [Kernel.setProc_ne _ _ hqj]
    refine hi.parked q fun d hd => ?_
    by_cases hdc : d = c
    · subst hdc; simp [hrc, Run.owner] at hd
    · have := hq d
      simp only [hdc, if_false] at this
      exact this hd
  · split at h
    · simp [Run.code, hkr.2.2.2] at h
    · have hz := hi.reaping d i0 h
      have hij : i0 ≠ j := fun e => by rw [e, hj] at hz; cases hz
      rw [Kernel.setProc_ne _ _ hij]; exact hz
  · split
    · subst d; exact hi.no_bad_context _
    · exact hi.no_bad_context d

include hi in
/-- The scheduler on CPU `c` is back from process `p`: `c->proc = 0`. -/
theorem resume {p : Fin n} (hc : (s.cpus c).run.code = .schedResume p) :
    StackInv (s.setCpu c fun x => { x with proc := none, run := x.run.setCode (.schedScan (p.val + 1)) }) := by
  have hrc := hi.run_of_schedStack (d := c) (by rw [hc]; rfl)
  rw [hc] at hrc
  refine ⟨fun d => ?_, fun d d' q => ?_, fun d q k0 h => ?_, fun d q k0 h => ?_, fun q hq => ?_,
    fun d i0 h => ?_, fun d => ?_⟩ <;> simp only [Sys.setCpu_cpus, Sys.setCpu_mem] at *
  · split
    · subst d; simp [hrc, Run.setCode, Code.resumeOf]
    · exact hi.proc_eq d
  · split <;> split <;> intro h1 h2
    all_goals first
      | simp [hrc, Run.setCode, Code.resumeOf] at h1
      | simp [hrc, Run.setCode, Code.resumeOf] at h2
      | exact hi.current_unique _ _ q h1 h2
  · split at h
    · simp [hrc, Run.setCode] at h
    · exact hi.runs d q k0 h
  · split at h
    · simp [hrc, Run.setCode] at h
    · exact hi.stack_code d q k0 h
  · refine hi.parked q fun d hd => ?_
    by_cases hdc : d = c
    · subst hdc; simp [hrc, Run.owner] at hd
    · have := hq d
      simp only [hdc, if_false] at this
      exact this hd
  · split at h
    · simp [hrc, Run.setCode, Run.code, Code.reapOf] at h
    · exact hi.reaping d i0 h
  · split
    · subst d; exact hi.no_bad_context _
    · exact hi.no_bad_context d

end StackInv

/-- A lock operation goes from RUNNING code on to ordinary code, keeping what it reaps and
which stack it belongs on. -/
theorem Kernel.Does.lock_facts {s : Kernel n} {me : Option (Fin n)} {k k' : Code n} {l : Lock}
    (h : s.Does me k (.acquire l k') ∨ s.Does me k (.release l k')) (hw : k.wf) :
    k'.ordinary ∧ k.stackState = .running ∧ k.resumeOf = none ∧ k'.schedStack = k.schedStack ∧
      k'.reapOf = k.reapOf := by
  rcases h with h | h <;> cases h
  all_goals first
    | exact ⟨rfl, rfl, rfl, rfl, rfl⟩
    | simp only [Code.wf, Bool.and_eq_true] at hw
      exact ⟨hw.1.2, rfl, rfl, rfl, rfl⟩

namespace StackInv

variable {s : Sys n m} (hl : LockInv s) (hi : StackInv s) {c : Fin m}

include hl hi in
/-- **The stack layer is kept by every effect** of the statement at CPU `c`. -/
theorem apply (hb : BuildInv s) {e : Effect n} {s' : Sys n m}
    (hd : s.mem.Does (s.cpus c).run.owner (s.cpus c).run.code e) (h : s.apply c e = some s') :
    StackInv s' := by
  cases e with
  | next k' mem' => cases h; exact hi.next hl hb hd
  | acquire l k' =>
    simp only [Sys.apply, Sys.acquire] at h
    split at h
    · cases h; exact hi.halt (by decide)
    · split at h <;> cases h
      exact hi.lockOp hl (fun d => by rw [Sys.setCpu_cpus]; split_ifs <;> rfl)
        (fun d => by rw [Sys.setCpu_cpus]; split_ifs with h <;> simp [h])
        (fun d => by rw [Sys.setCpu_cpus]; split_ifs with h <;> simp [h]) rfl
        (Kernel.Does.lock_facts (.inl hd) (hl.code_wf c))
  | release l k' =>
    simp only [Sys.apply, Sys.release, Option.some.injEq] at h
    subst h
    split
    · exact hi.halt (by decide)
    · split
      · exact hi.halt (by decide)
      · exact hi.lockOp hl (fun d => by rw [Sys.setCpu_cpus]; split_ifs <;> rfl)
          (fun d => by rw [Sys.setCpu_cpus]; split_ifs with h <;> simp [h])
          (fun d => by rw [Sys.setCpu_cpus]; split_ifs with h <;> simp [h]) rfl
          (Kernel.Does.lock_facts (.inr hd) (hl.code_wf c))
  | sched p ret =>
    simp only [Sys.apply, Sys.sched, Option.some.injEq] at h
    subst h
    have hstk := hi.stack_code
    generalize hk : (s.cpus c).run.code = k at hd
    split
    · exact hi.halt (by decide)
    split
    · exact hi.halt (by decide)
    split
    · exact hi.halt (by decide)
    split
    · exact hi.halt (by decide)
    cases hd with
    | schedYield _ r _ hme =>
      have hr := hi.runs_self hme
      refine hi.sched hme ?_
      rw [hk] at hr
      simp only [Proc.Parked, hr.1, Code.stackState]
      refine ⟨_, rfl, rfl, ?_⟩
      cases hrc : (s.cpus c).run with
      | sched _ => simp [hrc, Run.owner] at hme
      | proc q k0 => have := hstk c q k0 hrc; simp_all [Run.code, Code.schedStack]
    | schedSleep _ site _ hme =>
      have hr := hi.runs_self hme
      refine hi.sched hme ?_
      rw [hk] at hr
      simp only [Proc.Parked, hr.1, Code.stackState]
      exact ⟨_, rfl, hr.2.2 _ rfl⟩
    | schedExit _ _ hme =>
      have hr := hi.runs_self hme
      refine hi.sched hme ?_
      rw [hk] at hr
      simp only [Proc.Parked, hr.1, Code.stackState]
  | dispatch j =>
    simp only [Sys.apply, Sys.dispatch, Option.some.injEq] at h
    subst h
    generalize hk : (s.cpus c).run.code = k at hd
    cases hd with
    | dispatch i _ _ hj =>
      split
      · exact hi.halt (by decide)
      split
      · exact hi.halt (by decide)
      split
      · obtain ⟨k, hk', -⟩ := hi.dispatchable hl hk hj
        simp_all
      · exact hi.dispatch hl hk hj ‹_›
  | resume k' =>
    simp only [Sys.apply, Option.some.injEq] at h
    subst h
    generalize hk : (s.cpus c).run.code = k at hd
    cases hd with
    | resume j _ => exact hi.resume hk
  | halt why =>
    simp only [Sys.apply, Option.some.injEq] at h
    subst h
    generalize hk : (s.cpus c).run.code = k at hd
    cases hd with
    | halt _ _ _ _ _ _ hb _ _ => exact hi.halt hb
    | zombieExit => exact hi.halt (by decide)
    | initExiting => exact hi.halt (by decide)

end StackInv

/-! ## The builders' layer over a statement -/

/-- `q'` agrees with `q` on what a builder has set up. -/
def Proc.SameSlot (q' q : Proc n) : Prop :=
  q'.state = q.state ∧ q'.parent = q.parent ∧ q'.kstack = q.kstack ∧ q'.pgdir = q.pgdir ∧
    q'.context = q.context

theorem Proc.sameSlot_refl (q : Proc n) : q.SameSlot q := ⟨rfl, rfl, rfl, rfl, rfl⟩

/-- What a builder has set up stays set up while its slot and, in `userinit`, `initproc`
stay as they were. -/
theorem Kernel.builds_of_same {s s' : Kernel n} {me : Option (Fin n)} {k : Code n}
    (hb : s.Builds me k) (hslot : ∀ i, k.embryoOf = some i → (s'.procs i).SameSlot (s.procs i))
    (hinit : k.inInit → s'.initproc = s.initproc) : s'.Builds me k := by
  intro b hk
  have hst := hb b hk
  have hs (i) (h : b.slotOf = some i) := hslot i (by simp [Code.embryoOf, hk, h])
  have hI (h : b.initBuild) : s'.initproc = s.initproc := hinit (by simp [Code.inInit, hk, h])
  cases b
  case allocScan site => cases site <;> simp only [Kernel.Stage] at hst ⊢; rw [hI rfl]; exact hst
  case allocKstack site i =>
    obtain ⟨e1, e2, -, -, -⟩ := hs i rfl
    simp only [Kernel.Stage, e1, e2] at hst ⊢
    exact ⟨hst.1, hst.2.1, fun h => by subst h; rw [hI rfl]; exact hst.2.2 rfl⟩
  case userinitVm i | userinitRun i =>
    obtain ⟨e1, e2, e3, e4, e5⟩ := hs i rfl
    simpa only [Kernel.Stage, Kernel.Made, e1, e2, e3, e4, e5, hI rfl] using hst
  case forkCopy i | forkUndo i | forkSet i | forkRun i =>
    obtain ⟨e1, e2, e3, e4, e5⟩ := hs i rfl
    simpa only [Kernel.Stage, Kernel.Made, e1, e2, e3, e4, e5] using hst
  all_goals trivial

namespace BuildInv

variable {s : Sys n m} (hb : BuildInv s) {c : Fin m}

/-- The other threads keep what they set up when slot `j` changes only in ways their stage
allows, and `initproc` changes only under `userinit`. -/
theorem old_update {mem' : Kernel n} {j : Fin n}
    (hrest : ∀ i, i ≠ j → mem'.procs i = s.mem.procs i)
    (hj : ∀ l me k, l ≠ .cpu c → s.thread l = some (me, k) → k.embryoOf = some j →
      (mem'.procs j).SameSlot (s.mem.procs j))
    (hinit : ∀ l me k, l ≠ .cpu c → s.thread l = some (me, k) → k.inInit →
      mem'.initproc = s.mem.initproc) :
    ∀ l me k, l ≠ .cpu c → s.thread l = some (me, k) → s.mem.Builds me k → mem'.Builds me k :=
  fun l me k hne ho hbk => Kernel.builds_of_same hbk
    (fun i e => by
      by_cases h : i = j
      · subst h; exact hj l me k hne ho e
      · rw [hrest i h]; exact Proc.sameSlot_refl _)
    (hinit l me k hne ho)

include hb in
/-- No other thread builds slot `j` when it is not EMBRYO. -/
theorem not_built {j : Fin n} (hj : (s.mem.procs j).state ≠ .embryo) {l : Loc n m}
    {me : Option (Fin n)} {k : Code n} (ho : s.thread l = some (me, k)) (e : k.embryoOf = some j) :
    False :=
  hj (Code.embryo_of_builds (hb.staged _ _ _ ho) e)

include hb in
/-- No other thread builds the slot CPU `c` builds. -/
theorem built_once {j : Fin n} (hcj : (s.cpus c).run.code.embryoOf = some j) {l : Loc n m}
    {me : Option (Fin n)} {k : Code n} (hne : l ≠ .cpu c) (ho : s.thread l = some (me, k))
    (e : k.embryoOf = some j) : False :=
  hne (hb.embryo_unique _ _ _ _ _ _ j ho rfl e hcj)

include hb in
/-- No other thread is in `userinit` while CPU `c` is. -/
theorem init_once (hc : (s.cpus c).run.code.inInit) {l : Loc n m} {me : Option (Fin n)}
    {k : Code n} (hne : l ≠ .cpu c) (ho : s.thread l = some (me, k)) (e : k.inInit) : False :=
  hne (hb.init_unique _ _ _ _ _ _ ho rfl e hc)

end BuildInv

/-- A slot woken while CPU `c` holds `ptable.lock` was parked in `sleep`: its saved context
builds nothing. -/
theorem StackInv.saved_woken {s : Sys n m} (hl : LockInv s) (hi : StackInv s) {c : Fin m}
    (hc : (s.cpus c).run.code.holds .ptable) {q : Proc n} {p : Fin n}
    (hp : (s.cpus c).run.owner ≠ some p) {k : Code n} (hr : q.state = .runnable)
    (hk : q.context = some k) (hw : q.Woken (s.mem.procs p)) :
    ((s.mem.procs p).state = .runnable ∧ (s.mem.procs p).context = some k) ∨ k.build = none := by
  obtain ⟨h1, -, h3 | ⟨hs, -⟩⟩ := hw
  · exact .inl ⟨h3 ▸ hr, h1 ▸ hk⟩
  · have hpk := hi.parked p (hi.off_stack_of_ptable hl hc hp (by rw [hs]; decide))
    simp only [Proc.Parked, hs] at hpk
    obtain ⟨site, hc', -⟩ := hpk
    rw [h1, hc'] at hk; cases hk
    exact .inr rfl

/-- `exit` leaves alone a slot that is not its own, not SLEEPING and not its child. -/
theorem Kernel.exitWake_eq_of (s : Kernel n) {p i : Fin n} (hip : i ≠ p)
    (hns : (s.procs i).state ≠ .sleeping) (hpar : (s.procs i).parent ≠ some p) :
    (s.exitWake p).procs i = s.procs i := by
  have h1 : wakeup1 s.procs ((s.procs p).parent.map .proc) i = s.procs i :=
    wakeSlot_of_not_sleeping hns
  have h2 : adopt (wakeup1 s.procs ((s.procs p).parent.map .proc)) p s.initproc i = s.procs i := by
    simp only [adopt, h1, hpar, if_false]
  simp only [Kernel.exitWake, Function.update_noteq hip, reparent_eq]
  split
  · rw [wakeup1_apply, h2, wakeSlot_of_not_sleeping hns]
  · exact h2

theorem Kernel.builds_congr {s : Kernel n} {me : Option (Fin n)} {k k' : Code n}
    (h : k'.build = k.build) : s.Builds me k' ↔ s.Builds me k := by
  simp only [Kernel.Builds, h]

/-- A slot under construction has no parent yet, or the process that builds it. -/
theorem Kernel.Builds.parent {s : Kernel n} {me : Option (Fin n)} {k : Code n} {i : Fin n}
    (hb : s.Builds me k) (e : k.embryoOf = some i) :
    (s.procs i).parent = none ∨ (s.procs i).parent = me := by
  simp only [Code.embryoOf, Option.bind_eq_some] at e
  obtain ⟨b, hk, hi⟩ := e
  have := hb b hk
  cases b <;> simp only [Code.slotOf, reduceCtorEq, Option.some.injEq] at hi <;> subst hi <;>
    simp only [Kernel.Stage] at this
  all_goals first | exact .inl this.2.1 | exact .inl this.2 | exact .inr this.2.1

/-- The thread at another place than CPU `c` does not run for the process on `c`'s stack. -/
theorem StackInv.thread_owner_ne {s : Sys n m} (hi : StackInv s) {c : Fin m} {l : Loc n m}
    {me : Option (Fin n)} {k : Code n} {p : Fin n} (hne : l ≠ .cpu c)
    (ho : s.thread l = some (me, k)) (hc : (s.cpus c).run.owner = some p) : me ≠ some p := by
  rintro rfl
  cases l with
  | cpu d =>
    simp only [Sys.thread, Option.some.injEq, Prod.mk.injEq] at ho
    exact hne (congrArg Loc.cpu (hi.owner_unique ho.1 hc))
  | saved q =>
    simp only [Sys.thread] at ho
    split at ho
    · obtain ⟨k0, hk0, he⟩ := Option.map_eq_some'.mp ho
      simp only [Prod.mk.injEq, Option.some.injEq] at he
      obtain ⟨rfl, -⟩ := he
      rw [(hi.runs_self hc).2.1] at hk0
      cases hk0
    · cases ho

namespace BuildInv

variable {s : Sys n m} (hb : BuildInv s) {c : Fin m}

include hb in
/-- CPU `c` goes on to code building what it built, in memory with the same table and
`initproc`. -/
theorem goto_same {k' : Code n} {mem' : Kernel n} (hprocs : mem'.procs = s.mem.procs)
    (hinit : mem'.initproc = s.mem.initproc) (hbuild : k'.build = (s.cpus c).run.code.build) :
    BuildInv ({ s with mem := mem' }.goto c k') := by
  have same {me k} (h : s.mem.Builds me k) : mem'.Builds me k :=
    Kernel.builds_of_same h (fun i _ => by rw [hprocs]; exact Proc.sameSlot_refl _) fun _ => hinit
  refine hb.setCode (Sys.goto_run _ _ · _) (fun p k hr hk => .inl ?_)
    (fun h => same ((Kernel.builds_congr hbuild).mpr h)) (fun _ _ _ _ _ => same) (fun i e => .inl ?_)
    (fun e => ?_) (fun i h => ?_) <;> simp only [Sys.goto_mem] at *
  · rw [hprocs] at hr hk; exact ⟨hr, hk⟩
  · simpa [Code.embryoOf, hbuild] using e
  · simpa [Code.inInit, hbuild] using e
  · rw [hprocs] at h ⊢; exact hb.unused_parent i h

include hb in
/-- CPU `c` goes on to `k'` and writes slot `j` only. -/
theorem goto_update {k' : Code n} {mem' : Kernel n} {j : Fin n}
    (hrest : ∀ i, i ≠ j → mem'.procs i = s.mem.procs i)
    (hsj : ∀ k, (mem'.procs j).state = .runnable → (mem'.procs j).context = some k →
      ((s.mem.procs j).state = .runnable ∧ (s.mem.procs j).context = some k) ∨ k.build = none)
    (hnew : s.mem.Builds (s.cpus c).run.owner (s.cpus c).run.code →
      mem'.Builds (s.cpus c).run.owner k')
    (hj : ∀ l me k, l ≠ .cpu c → s.thread l = some (me, k) → k.embryoOf = some j →
      (mem'.procs j).SameSlot (s.mem.procs j))
    (hI : ∀ l me k, l ≠ .cpu c → s.thread l = some (me, k) → k.inInit →
      mem'.initproc = s.mem.initproc)
    (hkey : ∀ i, k'.embryoOf = some i →
      (s.cpus c).run.code.embryoOf = some i ∨ (s.mem.procs i).state = .unused)
    (hinit : k'.inInit → (s.cpus c).run.code.inInit)
    (huj : (mem'.procs j).state = .unused → (mem'.procs j).parent = none) :
    BuildInv ({ s with mem := mem' }.goto c k') := by
  refine hb.setCode (Sys.goto_run _ _ · _) (fun p k hr hk => ?_) hnew
    (old_update hrest hj hI) hkey hinit (fun i h => ?_) <;> simp only [Sys.goto_mem] at *
  · by_cases h : p = j
    · subst h; exact hsj k hr hk
    · rw [hrest p h] at hr hk; exact .inl ⟨hr, hk⟩
  · by_cases h' : i = j
    · subst h'; exact huj h
    · rw [hrest i h'] at h ⊢; exact hb.unused_parent i h

include hb in
/-- **The builders' layer over a statement that goes on** (`Effect.next`), by what the
statement does. -/
theorem next (hl : LockInv s) (hi : StackInv s) {k' : Code n} {mem' : Kernel n}
    (hd : s.mem.Does (s.cpus c).run.owner (s.cpus c).run.code (.next k' mem')) :
    BuildInv ({ s with mem := mem' }.goto c k') := by
  have hw := hl.code_wf c
  have hst := hb.staged (.cpu c) _ _ rfl
  have hrs {p} (h : (s.cpus c).run.owner = some p) := hi.runs_self h
  have hnot {j} (hj : (s.mem.procs j).state ≠ .embryo) (l) (me) (k) (_ : l ≠ Loc.cpu c)
      (ho : s.thread l = some (me, k)) (e : k.embryoOf = some j) :
      (mem'.procs j).SameSlot (s.mem.procs j) := (hb.not_built hj ho e).elim
  have hnotme {p} (hp : (s.cpus c).run.owner = some p) : (s.mem.procs p).state ≠ .embryo := by
    rw [(hrs hp).1]; exact Code.stackState_ne_embryo
  have hkeep (l : Loc n m) (me : Option (Fin n)) (k : Code n) (_ : l ≠ Loc.cpu c)
      (_ : s.thread l = some (me, k)) (_ : k.inInit) : s.mem.initproc = s.mem.initproc := rfl
  generalize hk : (s.cpus c).run.code = k at hd hw hst hrs hnotme
  generalize ho : (s.cpus c).run.owner = me at hd hst
  cases hd with
  | plain _ _ _ _ hp hI _ hv =>
    exact hb.goto_same hp hI (by rw [hk]; exact congrArg Code.View.build (hv hw).1)
  | waitReap | waitSleep | exitStart | forkretFirst =>
    exact hb.goto_same rfl rfl (by rw [hk]; rfl)
  | claim site i _ hu =>
    refine hb.goto_update (j := i) (fun j hj => by simp [Kernel.setProc_ne _ _ hj])
      (fun k h _ => by simp at h) (fun _ b h => ?_) (hnot (by rw [hu]; decide))
      (fun _ _ _ _ _ _ => rfl) (fun i' e => .inr ?_) (fun e => by rw [hk]; cases site <;> exact e)
      (fun h => by simp at h)
    · simp only [Code.build, Code.kmemRound, Option.some.injEq] at h
      subst h
      refine ⟨by simp, by simpa using hb.unused_parent i hu, fun h => ?_⟩
      subst h
      simpa using hst _ rfl
    · simp only [Code.embryoOf, Code.build, Code.kmemRound, Option.some_bind, Code.slotOf,
        Option.some.injEq] at e
      exact e ▸ hu
  | unclaim i _ =>
    have hs := hst _ rfl
    refine hb.goto_update (fun j hj => Kernel.setProc_ne _ _ hj) (fun k h _ => by simp at h)
      (fun _ b h => by simp [Code.build] at h)
      (fun l _ _ hne ho e => (hb.built_once (by rw [hk]; rfl) hne ho e).elim)
      hkeep (fun i' e => by simp [Code.embryoOf, Code.build] at e)
      (fun e => by simp [Code.inInit, Code.build] at e) (fun _ => by simpa using hs.2.1)
  | forkKstack i a _ ha | initKstack i a _ ha =>
    have hs := hst _ rfl
    refine hb.goto_update (j := i) (fun j hj => by simp [Kernel.setProc_ne _ _ hj])
      (fun k h _ => by simp [hs.1] at h) (fun _ b h => ?_)
      (fun l _ _ hne ho e => (hb.built_once (by rw [hk]; rfl) hne ho e).elim)
      (fun _ _ _ hne ho e => ?_) (fun i' e => .inl (by rw [hk]; exact e))
      (fun e => by rw [hk]; exact e) (fun h => by simp [hs.1] at h)
    · simp only [Code.build, Option.some.injEq] at h
      subst h
      simp [Kernel.Stage, Kernel.Made, hs.1, hs.2.1, ha]
    · first | rfl | exact (hb.init_once (by rw [hk]; rfl) hne ho e).elim
  | initVm i h _ hh | forkNoVm i _ | forkVm i h _ hh | forkSet _ i _ _ =>
    have hs := hst _ rfl
    refine hb.goto_update (fun j hj => Kernel.setProc_ne _ _ hj)
      (fun k h _ => by simp [hs.1.1] at h) (fun _ b h => ?_)
      (fun l _ _ hne ho e => (hb.built_once (by rw [hk]; rfl) hne ho e).elim)
      hkeep (fun i' e => .inl (by rw [hk]; exact e)) (fun e => by rw [hk]; exact e)
      (fun h => by simp [hs.1.1] at h)
    simp only [Code.build, Option.some.injEq] at h
    subst h
    first
    | simpa [Kernel.Stage, Kernel.Made, hh] using hs
    | simpa [Kernel.Stage, Kernel.Made] using hs
    | rw [ho, ‹me = _›]
      simp only [Kernel.Stage, Kernel.Made, Kernel.setProc_self] at hs ⊢
      simp [hs.1, hs.2.2]
  | initRun i _ | forkRun i _ =>
    have hs := hst _ rfl
    refine hb.goto_update (fun j hj => Kernel.setProc_ne _ _ hj)
      (fun k _ h => .inr ?_) (fun _ b h => by simp [Code.build, Code.schedLoop] at h)
      (fun l _ _ hne ho e => (hb.built_once (by rw [hk]; rfl) hne ho e).elim)
      hkeep (fun i' e => by simp [Code.embryoOf, Code.build, Code.schedLoop] at e)
      (fun e => by simp [Code.inInit, Code.build, Code.schedLoop] at e) (fun h => by simp at h)
    simp only [Kernel.setProc_self, hs.1.2.2, Option.some.injEq] at h
    exact h ▸ rfl
  | forkUndo i _ =>
    have hs := hst _ rfl
    refine hb.goto_update (fun j hj => Kernel.setProc_ne _ _ hj) (fun k h _ => by simp at h)
      (fun _ b h => by simp [Code.build] at h)
      (fun l _ _ hne ho e => (hb.built_once (by rw [hk]; rfl) hne ho e).elim)
      hkeep (fun i' e => by simp [Code.embryoOf, Code.build] at e)
      (fun e => by simp [Code.inInit, Code.build] at e) (fun _ => by simpa using hs.2)
  | waitKstack i _ _ | waitFreevm i _ =>
    have hz := hi.reaping c i (by rw [hk]; rfl)
    exact hb.goto_update (fun j hj => Kernel.setProc_ne _ _ hj)
      (fun k h _ => by simp [hz] at h) (fun _ b h => by simp [Code.build] at h)
      (hnot (by rw [hz]; decide)) hkeep (fun i' e => by simp [Code.embryoOf, Code.build] at e)
      (fun e => by simp [Code.inInit, Code.build] at e) (fun h => by simp_all)
  | kill _ i _ _ =>
    refine hb.goto_update (fun j hj => Kernel.setProc_ne _ _ hj) (fun k hr hk' => ?_)
      (fun _ b h => by simp [Code.build] at h) (fun l _ _ _ ho e => ?_) hkeep
      (fun i' e => by simp [Code.embryoOf, Code.build] at e)
      (fun e => by simp [Code.inInit, Code.build] at e) (fun h => ?_)
    · by_cases hp : (s.cpus c).run.owner = some i
      · simp [killSlot, (hrs hp).1, Code.stackState] at hr
      · exact hi.saved_woken hl (by rw [hk]; rfl) hp hr hk' (by simpa using Proc.woken_killSlot _)
    · have := Code.embryo_of_builds (hb.staged _ _ _ ho) e
      simp [Proc.SameSlot, killSlot, this]
    · have hu : (s.mem.procs i).state = .unused := by
        simp only [Kernel.setProc_self, killSlot] at h; split_ifs at h; simp_all
      simpa [killSlot] using hb.unused_parent i hu
  | fault p _ _ hme | yield p _ _ hme =>
    have hp := ho.trans hme
    have hne {k0 : Code n} (hb0 : s.mem.Builds me k0) (i) (e : k0.embryoOf = some i) : i ≠ p :=
      fun h => hnotme hp (h ▸ Code.embryo_of_builds hb0 e)
    refine hb.goto_update (fun j hj => Kernel.setProc_ne _ _ hj) (fun k' hr hk' => ?_) (fun _ => ?_)
      (hnot (hnotme hp)) hkeep (fun i' e => .inl (by rw [hk]; exact e)) (fun e => by rw [hk]; exact e)
      (fun h => ?_)
    · simp [(hrs hp).1, (hrs hp).2.1, Code.stackState] at hr hk'
    · rw [ho]
      exact Kernel.builds_of_same ((Kernel.builds_congr rfl).mpr hst)
        (fun i e => by rw [Kernel.setProc_ne _ _ (hne hst i e)]; exact Proc.sameSlot_refl _) fun _ => rfl
    · simp [(hrs hp).1, Code.stackState] at h
  | sleep p site _ hme | unsleep p site _ hme =>
    have hp := ho.trans hme
    refine hb.goto_update (fun j hj => Kernel.setProc_ne _ _ hj) (fun k' hr _ => ?_)
      (fun _ b h => by cases site <;> simp [Kernel.sleepReturn, Code.build] at h)
      (hnot (hnotme hp)) hkeep
      (fun i' e => by cases site <;> simp [Kernel.sleepReturn, Code.embryoOf, Code.build] at e)
      (fun e => by cases site <;> simp [Kernel.sleepReturn, Code.inInit, Code.build] at e)
      (fun h => ?_) <;> simp [(hrs hp).1, Code.stackState] at *
  | exitWake p _ hme =>
    have hp := ho.trans hme
    have hc : (s.cpus c).run.code.holds .ptable := by rw [hk]; rfl
    have same (l me' k) (hne : l ≠ Loc.cpu c) (hth : s.thread l = some (me', k)) (i) (e : k.embryoOf = some i) :
        (s.mem.exitWake p).procs i = s.mem.procs i := by
      have he := Code.embryo_of_builds (hb.staged _ _ _ hth) e
      refine Kernel.exitWake_eq_of _ (fun h => hnotme hp (h ▸ he)) (by rw [he]; decide) ?_
      rcases (hb.staged _ _ _ hth).parent e with h | h <;> rw [h]
      · simp
      · exact hi.thread_owner_ne hne hth hp
    refine hb.setCode (Sys.goto_run _ _ · _) (fun p' k hr hk' => ?_)
      (fun _ b h => by simp [Code.build] at h)
      (fun l me' k hne hth hbk => Kernel.builds_of_same hbk
        (fun i e => by simp only [Sys.goto_mem, same l me' k hne hth i e]; exact Proc.sameSlot_refl _)
        fun _ => rfl)
      (fun i' e => by simp [Code.embryoOf, Code.build] at e)
      (fun e => by simp [Code.inInit, Code.build] at e) (fun i h => ?_) <;> simp only [Sys.goto_mem] at *
    · by_cases h : p' = p
      · subst h; simp [Kernel.exitWake_self] at hr
      · exact hi.saved_woken hl hc (fun e => h (Option.some.inj (e.symm.trans hp))) hr hk'
          (Kernel.exitWake_woken _ h)
    · by_cases hip : i = p
      · subst hip; simp [Kernel.exitWake_self] at h
      · have hw' := Kernel.exitWake_woken s.mem hip
        have hu : (s.mem.procs i).state = .unused := by
          rcases hw'.2.2 with e | ⟨-, e⟩ <;> rw [e] at h
          · exact h
          · cases h
        rw [Kernel.exitWake_eq_of _ hip (by rw [hu]; decide) (by rw [hb.unused_parent i hu]; simp)]
        exact hb.unused_parent i hu
  | wakeup ch k₀ _ =>
    have hc : (s.cpus c).run.code.holds .ptable := by rw [hk]; rfl
    have same {l me' k} (hth : s.thread l = some (me', k)) (i) (e : k.embryoOf = some i) :
        wakeSlot (some ch) (s.mem.procs i) = s.mem.procs i :=
      wakeSlot_of_not_sleeping (by rw [Code.embryo_of_builds (hb.staged _ _ _ hth) e]; decide)
    refine hb.setCode (Sys.goto_run _ _ · _) (fun p' k hr hk' => ?_) (fun _ => ?_)
      (fun l me' k _ hth hbk => Kernel.builds_of_same hbk
        (fun i e => by simp only [Sys.goto_mem, wakeup1_apply, same hth i e]; exact Proc.sameSlot_refl _)
        fun _ => rfl)
      (fun i' e => .inl (by rw [hk]; exact e)) (fun e => by rw [hk]; exact e) (fun i h => ?_) <;>
      simp only [Sys.goto_mem] at *
    · by_cases hp : (s.cpus c).run.owner = some p'
      · have := (hrs hp).1
        simp [wakeSlot_of_not_sleeping (by rw [this]; simp [Code.stackState] : (s.mem.procs p').state ≠ .sleeping),
          this, Code.stackState] at hr
      · exact hi.saved_woken hl hc hp hr hk' (by simpa using Proc.woken_wakeSlot _ _)
    · rw [ho]
      exact Kernel.builds_of_same ((Kernel.builds_congr (k := Code.wakeup1 ch k₀) rfl).mpr hst)
        (fun i e => by simp only [wakeup1_apply, same (l := .cpu c) (k := Code.wakeup1 ch k₀)
                         (by rw [← hk]; rfl) i e];
                       exact Proc.sameSlot_refl _) fun _ => rfl
    · have hu : (s.mem.procs i).state = .unused := by
        simp only [wakeup1_apply, wakeSlot_state] at h; split_ifs at h; simp_all
      simpa [wakeSlot_of_not_sleeping (by rw [hu]; decide : (s.mem.procs i).state ≠ .sleeping)]
        using hb.unused_parent i hu

end BuildInv

/-! ## The builders' layer over a switch -/

namespace Kernel.Does

variable {s : Kernel n} {me : Option (Fin n)} {k : Code n}

/-- A lock operation goes on to code that builds what it built. -/
theorem lock_build {k' : Code n} {l : Lock}
    (h : s.Does me k (.acquire l k') ∨ s.Does me k (.release l k')) : k'.build = k.build := by
  rcases h with h | h <;> cases h <;> rfl

/-- `sched()` is called by the process on the stack, and saves a context that builds what
the process built, or nothing. -/
theorem sched_facts {p : Fin n} {ret : Code n} (h : s.Does me k (.sched p ret)) :
    me = some p ∧ (ret.build = none ∨ ret.build = k.build) := by
  cases h <;> exact ⟨‹_›, by first | exact .inl rfl | exact .inr rfl⟩

theorem dispatch_runnable {j : Fin n} (h : s.Does me k (.dispatch j)) :
    (s.procs j).state = .runnable := by
  cases h; assumption

theorem resume_build {k' : Code n} (h : s.Does me k (.resume k')) : k'.build = k.build := by
  cases h; rfl

end Kernel.Does

theorem Sys.thread_halt (s : Sys n m) (c : Fin m) (why : Panic) :
    (s.halt c why).thread = s.thread := by
  funext l; cases l <;> simp [Sys.thread]

namespace BuildInv

variable {s : Sys n m} (hb : BuildInv s) {c : Fin m}

include hb in
/-- **The builders' layer when threads only move.** Every thread of `s'` that builds
something was the thread at `f l` of `s`, building the same; the slots under construction
and `initproc` are as they were. -/
theorem transport {s' : Sys n m} (f : Loc n m → Loc n m) (hf : Function.Injective f)
    (hth : ∀ l me k, s'.thread l = some (me, k) →
      k.build = none ∨ ∃ k₀, s.thread (f l) = some (me, k₀) ∧ k₀.build = k.build)
    (hslot : ∀ i, (s.mem.procs i).state = .embryo → (s'.mem.procs i).SameSlot (s.mem.procs i))
    (hinit : s'.mem.initproc = s.mem.initproc)
    (hunused : ∀ i, (s'.mem.procs i).state = .unused → (s'.mem.procs i).parent = none) :
    BuildInv s' := by
  have back {l me k} (h : s'.thread l = some (me, k)) (hk : k.build ≠ none) :=
    (hth l me k h).resolve_left hk
  refine ⟨fun l me k h => ?_, fun l l' me me' k k' i h h' e e' => ?_,
    fun l l' me me' k k' h h' e e' => ?_, hunused⟩
  · rcases hth l me k h with hn | ⟨k₀, h₀, hk⟩
    · intro b hb'; simp [hn] at hb'
    · have hst := (Kernel.builds_congr hk).mp (hb.staged _ _ _ h₀)
      exact Kernel.builds_of_same hst (fun i e => hslot i (Code.embryo_of_builds hst e))
        fun _ => hinit
  · obtain ⟨k₀, h₀, hk⟩ := back h fun hn => by simp [Code.embryoOf, hn] at e
    obtain ⟨k₀', h₀', hk'⟩ := back h' fun hn => by simp [Code.embryoOf, hn] at e'
    exact hf (hb.embryo_unique _ _ _ _ _ _ i h₀ h₀' (by rw [Code.embryoOf, hk]; exact e)
      (by rw [Code.embryoOf, hk']; exact e'))
  · obtain ⟨k₀, h₀, hk⟩ := back h fun hn => by simp [Code.inInit, hn] at e
    obtain ⟨k₀', h₀', hk'⟩ := back h' fun hn => by simp [Code.inInit, hn] at e'
    exact hf (hb.init_unique _ _ _ _ _ _ h₀ h₀' (by rw [Code.inInit, hk]; exact e)
      (by rw [Code.inInit, hk']; exact e'))

include hb in
/-- CPU `c` goes on to code that builds what its code built, with memory as it was: a lock
operation, or the scheduler's return from a process. -/
theorem same_build {s' : Sys n m} {k' : Code n}
    (hrun : ∀ d, (s'.cpus d).run = if d = c then (s.cpus c).run.setCode k' else (s.cpus d).run)
    (hmem : s'.mem = s.mem) (hk : k'.build = (s.cpus c).run.code.build) : BuildInv s' :=
  hb.transport id Function.injective_id
    (fun l me k h => by
      rcases Sys.thread_setCode hrun (fun p k h1 h2 => .inl (by rw [hmem] at h1 h2; exact ⟨h1, h2⟩)) h
        with ⟨rfl, rfl, rfl⟩ | ⟨-, h⟩ | hn
      · exact .inr ⟨_, rfl, hk.symm⟩
      · exact .inr ⟨k, h, rfl⟩
      · exact .inl hn)
    (fun i _ => by rw [hmem]; exact Proc.sameSlot_refl _) (by rw [hmem])
    (by rw [hmem]; exact hb.unused_parent)

include hb in
theorem halt {why : Panic} : BuildInv (s.halt c why) :=
  hb.transport id Function.injective_id (fun l me k h => .inr ⟨k, by rwa [Sys.thread_halt] at h, rfl⟩)
    (fun i _ => by rw [Sys.halt_mem]; exact Proc.sameSlot_refl _) rfl
    (by rw [Sys.halt_mem]; exact hb.unused_parent)

include hb in
/-- CPU `c`'s process `p` stops where `sched()` saves it, at `ret`, which builds what the
CPU's code built, or nothing: the thread moves from the CPU to the slot. -/
theorem sched (hi : StackInv s) {p : Fin n} {ret : Code n} (ho : (s.cpus c).run.owner = some p)
    (hret : ret.build = none ∨ ret.build = (s.cpus c).run.code.build) :
    BuildInv ({ s with mem := s.mem.setProc p fun q => { q with context := some ret } }.setCpu c
      fun x => { x with run := .sched (.schedResume p) }) := by
  have hp : (s.mem.procs p).state ≠ .embryo := by
    rw [(hi.runs_self ho).1]; exact Code.stackState_ne_embryo
  have same (i) (hi : i ≠ p) :=
    Kernel.setProc_ne (s := s.mem) (fun q => { q with context := some ret }) hi
  refine hb.transport (Equiv.swap (.saved p) (.cpu c)) (Equiv.injective _) (fun l me k h => ?_)
    (fun i hi' => ?_) rfl (fun i h => ?_)
  · cases l with
    | cpu d =>
      by_cases hdc : d = c
      · subst hdc
        simp only [Sys.thread, Sys.setCpu_cpus, if_true, Option.some.injEq, Prod.mk.injEq] at h
        exact .inl (by rw [← h.2]; rfl)
      · simp only [Sys.thread, Sys.setCpu_cpus, hdc, if_false] at h
        rw [Equiv.swap_apply_of_ne_of_ne (by simp) (by simpa using hdc)]
        exact .inr ⟨k, h, rfl⟩
    | saved j =>
      simp only [Sys.thread, Sys.setCpu_mem] at h
      by_cases hj : j = p
      · subst hj
        simp only [Kernel.setProc_self] at h
        split at h
        · simp only [Option.map_some', Option.some.injEq, Prod.mk.injEq] at h
          obtain ⟨rfl, rfl⟩ := h
          rw [Equiv.swap_apply_left]
          exact hret.imp_right fun e => ⟨_, by rw [← ho]; rfl, e.symm⟩
        · cases h
      · rw [same j hj] at h
        rw [Equiv.swap_apply_of_ne_of_ne (by simpa using hj) (by simp)]
        exact .inr ⟨k, by simp only [Sys.thread]; exact h, rfl⟩
  · simp only [Sys.setCpu_mem, same i fun e => hp (e ▸ hi')]; exact Proc.sameSlot_refl _
  · simp only [Sys.setCpu_mem] at h ⊢
    by_cases hip : i = p
    · subst hip; simp only [Kernel.setProc_self] at h ⊢; exact hb.unused_parent i h
    · rw [same i hip] at h ⊢; exact hb.unused_parent i h

include hb in
/-- The scheduler on CPU `c` switches to RUNNABLE process `j`: the thread saved in `j`
moves to the CPU. -/
theorem dispatch {j : Fin n} {k : Code n} (hj : (s.mem.procs j).state = .runnable)
    (hk : (s.mem.procs j).context = some k) :
    BuildInv ({ s with mem := s.mem.setProc j fun q => { q with state := .running, context := none } }.setCpu c
      fun x => { x with proc := some j, run := .proc j k }) := by
  have same (i) (hi : i ≠ j) :=
    Kernel.setProc_ne (s := s.mem) (fun q => { q with state := .running, context := none }) hi
  refine hb.transport (Equiv.swap (.cpu c) (.saved j)) (Equiv.injective _) (fun l me k' h => ?_)
    (fun i hi' => ?_) rfl (fun i h => ?_)
  · cases l with
    | cpu d =>
      by_cases hdc : d = c
      · subst hdc
        simp only [Sys.thread, Sys.setCpu_cpus, if_true, Run.owner, Run.code, Option.some.injEq,
          Prod.mk.injEq] at h
        obtain ⟨rfl, rfl⟩ := h
        rw [Equiv.swap_apply_left]
        exact .inr ⟨k, by simp [Sys.thread, hj, hk], rfl⟩
      · simp only [Sys.thread, Sys.setCpu_cpus, hdc, if_false] at h
        rw [Equiv.swap_apply_of_ne_of_ne (by simpa using hdc) (by simp)]
        exact .inr ⟨k', h, rfl⟩
    | saved i =>
      simp only [Sys.thread, Sys.setCpu_mem] at h
      by_cases hij : i = j
      · subst hij; simp at h
      · rw [same i hij] at h
        rw [Equiv.swap_apply_of_ne_of_ne (by simp) (by simpa using hij)]
        exact .inr ⟨k', by simp only [Sys.thread]; exact h, rfl⟩
  · simp only [Sys.setCpu_mem, same i fun e => by rw [e, hj] at hi'; cases hi']
    exact Proc.sameSlot_refl _
  · simp only [Sys.setCpu_mem] at h ⊢
    by_cases hij : i = j
    · subst hij; simp at h
    · rw [same i hij] at h ⊢; exact hb.unused_parent i h

include hb in
/-- **The builders' layer is kept by every effect** of the statement at CPU `c`. -/
theorem apply (hl : LockInv s) (hi : StackInv s) {e : Effect n} {s' : Sys n m}
    (hd : s.mem.Does (s.cpus c).run.owner (s.cpus c).run.code e) (h : s.apply c e = some s') :
    BuildInv s' := by
  cases e with
  | next k' mem' => cases h; exact hb.next hl hi hd
  | acquire l k' =>
    simp only [Sys.apply, Sys.acquire] at h
    split at h
    · cases h; exact hb.halt
    · split at h <;> cases h
      exact hb.same_build (fun d => by rw [Sys.setCpu_cpus]; split_ifs <;> rfl) rfl
        (Kernel.Does.lock_build (.inl hd))
  | release l k' =>
    simp only [Sys.apply, Sys.release, Option.some.injEq] at h
    subst h
    split
    · exact hb.halt
    split
    · exact hb.halt
    · exact hb.same_build (fun d => by rw [Sys.setCpu_cpus]; split_ifs <;> rfl) rfl
        (Kernel.Does.lock_build (.inr hd))
  | sched p ret =>
    simp only [Sys.apply, Sys.sched, Option.some.injEq] at h
    subst h
    obtain ⟨ho, hret⟩ := hd.sched_facts
    split
    · exact hb.halt
    split
    · exact hb.halt
    split
    · exact hb.halt
    split
    · exact hb.halt
    · exact hb.sched hi ho hret
  | dispatch j =>
    simp only [Sys.apply, Sys.dispatch, Option.some.injEq] at h
    subst h
    split
    · exact hb.halt
    split
    · exact hb.halt
    split
    · exact hb.halt
    · exact hb.dispatch hd.dispatch_runnable ‹_›
  | resume k' =>
    simp only [Sys.apply, Option.some.injEq] at h
    subst h
    exact hb.same_build (fun d => by rw [Sys.setCpu_cpus]; split_ifs <;> rfl) rfl hd.resume_build
  | halt why =>
    simp only [Sys.apply, Option.some.injEq] at h
    subst h
    exact hb.halt

end BuildInv

/-! ## Every reachable state -/

/-- The lock, stack and builders' layers together. -/
structure SwitchInv (s : Sys n m) : Prop where
  locks : LockInv s
  stack : StackInv s
  builders : BuildInv s

namespace SwitchInv

theorem step {s s' : Sys n m} {c : Fin m} {ch : Choice} (hi : SwitchInv s)
    (h : step s c ch = some s') : SwitchInv s' := by
  obtain ⟨-, e, he, ha⟩ := Sys.step_eq_some s c h
  have hd := Sys.does_of_effect he
  exact ⟨hi.locks.step h, StackInv.apply hi.locks hi.stack hi.builders hd ha,
    BuildInv.apply hi.builders hi.locks hi.stack hd ha⟩

theorem of_reachable {s : Sys n m} (h : Reachable s) : SwitchInv s := by
  induction h with
  | init => exact ⟨LockInv.init, StackInv.init, BuildInv.init⟩
  | step _ hs ih => exact ih.step hs

end SwitchInv

/-- The stack discipline of state `s`: a CPU still on the kernel stack of a process that is
no longer RUNNING holds `ptable.lock`; no process is `cpu->proc` of two CPUs; a scheduler
scanning the table finds every RUNNABLE process with a context that `sched()` saved or
`allocproc` made, and none stops on a process without one; and no CPU runs on the stack of
a ZOMBIE that `wait` is reaping. -/
def StackDiscipline (s : Sys n m) : Prop :=
  (∀ c p k, (s.cpus c).run = .proc p k → (s.mem.procs p).state ≠ .running →
      s.owner .ptable = some c) ∧
  (∀ c d p, (s.cpus c).proc = some p → (s.cpus d).proc = some p → c = d) ∧
  (∀ c i j, (s.cpus c).run.code = .schedScan i → (s.mem.procs j).state = .runnable →
      ∃ k, (s.mem.procs j).context = some k ∧ k.resumable) ∧
  (∀ c, (s.cpus c).halt ≠ some .badContext) ∧
  (∀ c i, (s.cpus c).run.code.reapOf = some i → ∀ d k, (s.cpus d).run ≠ .proc i k)

/-- **Stack discipline**, for any number of CPUs and processes and every interleaving. -/
theorem stack_discipline {s : Sys n m} (h : Reachable s) : StackDiscipline s := by
  obtain ⟨hl, hi, -⟩ := SwitchInv.of_reachable h
  have owns {c p k} (hr : (s.cpus c).run = .proc p k) (hp : (s.mem.procs p).state ≠ .running) :
      s.owner .ptable = some c := by
    have hk := (hi.runs c p k hr).1
    rw [hl.owner_iff, hr]
    exact Code.holds_ptable_of_stackState (hk ▸ hp)
  refine ⟨fun c p k => owns, fun c d p hc hd => ?_, fun c i j hc hj => ?_, hi.no_bad_context,
    fun c i hc d k hd => ?_⟩
  · rw [hi.proc_eq] at hc hd; exact hi.current_unique c d p hc hd
  · obtain ⟨k, hk, hr, -⟩ := hi.dispatchable hl hc hj; exact ⟨k, hk, hr⟩
  · have hz := hi.reaping c i hc
    have hdc : d = c := Option.some.inj <| (owns hd (by rw [hz]; decide)).symm.trans <|
      (hl.owner_iff .ptable c).mpr (Code.holds_ptable_of_reapOf (hl.code_wf c) hc)
    subst hdc
    simp only [hd, Run.code] at hc
    have hs := (hi.runs d i k hd).1
    rw [hz, Code.stackState_of_reapOf hc] at hs
    cases hs

/-- Init, its child RUNNABLE, has gone to sleep in `wait`: CPU 0 is still on the stack of init,
which is SLEEPING, on its way into `sched`. -/
theorem stack_discipline_waitSleep : ∃ s : Sys 2 1,
    Sys.init.run (Trace.solo (Trace.boot ++ Trace.fork ++ .sys .wait :: .replicate 3 .tau)) = some s ∧
      (s.cpus 0).run.owner = some 0 ∧ (s.mem.procs 0).state = .sleeping ∧ StackDiscipline s := by
  obtain ⟨s, hr, h⟩ := Sys.exists_run
    (Trace.solo (Trace.boot ++ Trace.fork ++ .sys .wait :: .replicate 3 .tau))
    (fun s : Sys 2 1 =>
      decide ((s.cpus 0).run.owner = some 0 ∧ (s.mem.procs 0).state = .sleeping)) (by decide)
  have h := of_decide_eq_true h
  exact ⟨s, hr, h.1, h.2, stack_discipline (Reachable.init.run hr)⟩

end Xv6
