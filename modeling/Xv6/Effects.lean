import Xv6.Machine

/-!
# What a statement does

`Kernel.exec` says what the statement at a code position does; `Kernel.Does` says the same
as a relation with one constructor for each kind of statement, and the guards the code
tests as hypotheses. Every invariant is proved from `Does` rather than from `exec`:
`Does.of_effect` is the one place where the code is unfolded.

A `plain` statement changes neither the process table nor anything an invariant reads of
the code (its `Code.view`); most of the kernel's statements are plain.
-/

namespace Xv6

variable {n m : Nat}

namespace Code

variable {k : Code n}

theorem lockSig_eq_of_free (h : k.free) : k.lockSig = (false, false, false, false) := by
  simp only [free, heldCount, decide_eq_true_eq] at h
  simp only [lockSig, Prod.mk.injEq]
  refine ⟨?_, ?_, ?_, ?_⟩ <;> apply Bool.eq_false_iff.mpr <;> intro h' <;> simp [h'] at h

/-- `wait` reaps holding `ptable.lock`. -/
theorem holds_ptable_of_reapOf {i : Fin n} (hw : k.wf) (h : k.reapOf = some i) :
    k.holds .ptable := by
  induction k with
  | acquire l k ih =>
    simp only [wf, Bool.and_eq_true, Option.isNone_iff_eq_none, Bool.or_eq_true,
      beq_iff_eq] at hw
    simp only [reapOf] at h
    rcases hw.1.1.2 with h' | rfl
    · simp [h'] at h
    · simp [holds, ih hw.2 h]
  | release l k ih =>
    simp only [wf, Bool.and_eq_true] at hw
    simp [holds, ih hw.2 h]
  | wakeup1 | wakeRel | waitKstack | waitFreevm => rfl
  | _ => cases h

/-- What the invariants read of code holding no lock: only the process it builds, if any. -/
theorem kstackFreed_of_reapOf {k : Code n} (h : k.reapOf = none) : k.kstackFreed = false := by
  induction k with
  | acquire _ _ ih | release _ _ ih | wakeup1 _ _ ih | wakeRel _ _ ih => exact ih h
  | waitKstack | waitFreevm => cases h
  | _ => rfl

theorem view_of_free (hw : k.wf) (hf : k.free) :
    k.view =
      ⟨(false, false, false, false), .running, none, k.build, none, none, false, none, k.schedStack,
        k.exiting, k.atZombieExit, k.inForkret, false⟩ := by
  have hr : k.reapOf = none := by
    cases h : k.reapOf with
    | none => rfl
    | some i =>
      have := holds_ptable_of_reapOf hw h
      simp [free, heldCount, this] at hf
  simp only [view, lockSig_eq_of_free hf, hr, kstackFreed_of_reapOf hr, View.mk.injEq, true_and, and_true]
  cases k <;> first | exact ⟨rfl, rfl, rfl, rfl, rfl⟩ | simp [free, heldCount, holds] at hf

theorem eq_user_of_isUser (h : k.isUser) : k = .user := by
  cases k <;> first | rfl | cases h

/-- `ideintr` holds `idelock` from taking the head to the `idestart` of the next. -/
theorem holds_idelock_of_ideGap (h : k.ideGap) : k.holds .idelock := by
  unfold ideGap at h
  split at h <;> first | rfl | cases h

theorem ideGap_of_free (h : k.free) : k.ideGap = false := by
  cases e : k.ideGap
  · rfl
  · simp [free, heldCount, holds_idelock_of_ideGap e] at h

/-- Back from a trap handler to the code it interrupted. -/
theorem ret_plain {r : Code n} (hw : (Code.trapChk2 r).wf) : r.view = (Code.trapChk2 r).view ∧ r.wf := by
  simp only [wf, Bool.and_eq_true] at hw
  exact ⟨view_of_free hw.2 hw.1, hw.2⟩

theorem ret_ideGap {r : Code n} (hw : (Code.trapChk2 r).wf) : r.ideGap = (Code.trapChk2 r).ideGap := by
  simp only [wf, Bool.and_eq_true] at hw
  exact ideGap_of_free hw.1

end Code

namespace Kernel

/-- What a statement at `k` that goes on to `k'` does to the disk queue, the request on the
disk, the buffers and where the thread stands in a disk request: nothing, or one of
`bread`/`bwrite`'s call of `iderw`, `iderw`'s append (with `idestart` when the queue was
empty), the exit of `iderw`'s loop, `ideintr`'s completion of the head and its `idestart` of
the next, and `brelse`. -/
inductive DiskStep : Code n → Kernel n → Code n → Kernel n → Prop
  | keep {k k' : Code n} {s s' : Kernel n} : k'.diskAt = k.diskAt → (k.wf → k'.ideGap = k.ideGap) →
      s'.idequeue = s.idequeue → s'.disk = s.disk → s'.bvalid = s.bvalid → s'.bdirty = s.bdirty →
      s'.blocked = s.blocked → DiskStep k s k' s'
  | request (b : Nat) (w : Bool) (s : Kernel n) : s.blocked b = false →
      (w = true ∨ s.bvalid b = false) →
      DiskStep .user s (.acquire .idelock (.iderwAppend b))
        { s with blocked := Function.update s.blocked b true,
                 bdirty := if w then Function.update s.bdirty b true else s.bdirty }
  | append (b : Nat) {s s' : Kernel n} : s'.idequeue = s.idequeue ++ [b] →
      s'.disk = (if (s.idequeue ++ [b]).head? = some b then some b else s.disk) →
      s'.bvalid = s.bvalid → s'.bdirty = s.bdirty → s'.blocked = s.blocked →
      DiskStep (.iderwAppend b) s (.iderwLoop b) s'
  | loopDone (b : Nat) (s : Kernel n) : (s.bvalid b && !s.bdirty b) = true →
      DiskStep (.iderwLoop b) s (.release .idelock (.brelse b)) s
  | complete (b : Nat) (rest : List Nat) (r : Code n) (s : Kernel n) : s.idequeue = b :: rest →
      DiskStep (.ideHead r) s (.acquire .ptable (.wakeup1 (.buf b) (.ideNext r)))
        { s with idequeue := rest, disk := none, bvalid := Function.update s.bvalid b true,
                 bdirty := Function.update s.bdirty b false }
  | restart (r : Code n) (s : Kernel n) :
      DiskStep (.ideNext r) s (.release .idelock (.trapChk1 false r)) { s with disk := s.idequeue.head? }
  | release (b : Nat) (s : Kernel n) :
      DiskStep (.brelse b) s (.sysRet 0) { s with blocked := Function.update s.blocked b false }

/-- What the statement at `k`, run on the stack of `me` with memory `s`, can do. -/
inductive Does (me : Option (Fin n)) : Code n → Kernel n → Effect n → Prop
  | acquire (l : Lock) (k : Code n) (s : Kernel n) : Does me (.acquire l k) s (.acquire l k)
  | release (l : Lock) (k : Code n) (s : Kernel n) : Does me (.release l k) s (.release l k)
  /-- `wakeup`'s `release(&ptable.lock)`. -/
  | wakeRel (ch : Chan n) (k : Code n) (s : Kernel n) :
      Does me (.wakeRel ch k) s (.release .ptable k)
  /-- `forkret`'s `release(&ptable.lock)`. -/
  | forkret (s : Kernel n) : Does me .forkret s (.release .ptable .forkretFirst)
  /-- `yield`'s `release(&ptable.lock)` once `sched` returns. -/
  | yieldRet (r : Code n) (s : Kernel n) : Does me (.yieldRet r) s (.release .ptable (.trapChk2 r))
  | schedYield (p : Fin n) (r : Code n) (s : Kernel n) :
      me = some p → Does me (.yieldSched r) s (.sched p (.yieldRet r))
  | schedSleep (p : Fin n) (site : SleepSite) (s : Kernel n) :
      me = some p → Does me (.sleepSched site) s (.sched p (.sleepRet site))
  | schedExit (p : Fin n) (s : Kernel n) : me = some p → Does me .exitSched s (.sched p .exitRet)
  /-- The scheduler found RUNNABLE slot `j`. -/
  | dispatch (i : Nat) (j : Fin n) (s : Kernel n) :
      (s.procs j).state = .runnable → Does me (.schedScan i) s (.dispatch j)
  | resume (j : Fin n) (s : Kernel n) :
      Does me (.schedResume j) s (.resume (.schedScan (j.val + 1)))
  | halt (k : Code n) (s : Kernel n) (why : Panic) :
      why.lockPanic = false → why ≠ .zombieExit → why ≠ .initExiting → why ≠ .badContext →
      why ≠ .switchuvmKstack → why ≠ .switchuvmPgdir → Does me k s (.halt why)
  | zombieExit (s : Kernel n) : Does me .exitRet s (.halt .zombieExit)
  | initExiting (p : Fin n) (s : Kernel n) :
      me = some p → s.initproc = some p → Does me .exitStart s (.halt .initExiting)
  /-- A statement that keeps the process table, `initproc`, `first` and the code's view. -/
  | plain (k k' : Code n) (s s' : Kernel n) :
      s'.procs = s.procs → s'.initproc = s.initproc → s'.first = s.first →
      (k.wf → k'.view = k.view ∧ k'.wf) → DiskStep k s k' s' → Does me k s (.next k' s')
  /-- `forkret`'s test of `first`, which it clears (and calls `iinit` and `initlog`) the first
  time. -/
  | forkretFirst (s : Kernel n) : Does me .forkretFirst s (.next .user { s with first := false })
  /-- `allocproc` claims UNUSED slot `i`. -/
  | claim (site : AllocSite) (i : Fin n) (s : Kernel n) :
      (s.procs i).state = .unused →
      Does me (.allocScan site) s (.next (.release .ptable (Code.kmemRound (.allocKstack site i)))
        { s.setProc i (fun q => { q with state := .embryo, pid := s.nextpid }) with
          nextpid := int32Succ s.nextpid })
  /-- `allocproc` out of kernel stacks, under `fork`. -/
  | unclaim (i : Fin n) (s : Kernel n) :
      Does me (.allocKstack .fork i) s
        (.next (.sysRet (-1)) (s.setProc i fun q => { q with state := .unused }))
  | forkKstack (i : Fin n) (a : Nat) (s : Kernel n) : a ≠ 0 →
      Does me (.allocKstack .fork i) s
        (.next (.forkCopy i) (s.setProc i fun q => { q with kstack := a, context := some .forkret }))
  | initKstack (i : Fin n) (a : Nat) (s : Kernel n) : a ≠ 0 →
      Does me (.allocKstack .userinit i) s
        (.next (.userinitVm i)
          { s.setProc i (fun q => { q with kstack := a, context := some .forkret }) with
            initproc := some i })
  | initVm (i : Fin n) (h : Nat) (s : Kernel n) : h ≠ 0 →
      Does me (.userinitVm i) s
        (.next (.acquire .ptable (.userinitRun i)) (s.setProc i fun q => { q with pgdir := h, sz := 4096 }))
  | initRun (i : Fin n) (s : Kernel n) :
      Does me (.userinitRun i) s
        (.next (.release .ptable Code.schedLoop) (s.setProc i fun q => { q with state := .runnable }))
  /-- `copyuvm` failed. -/
  | forkNoVm (i : Fin n) (s : Kernel n) :
      Does me (.forkCopy i) s (.next (.forkUndo i) (s.setProc i fun q => { q with pgdir := 0 }))
  | forkVm (i : Fin n) (h : Nat) (s : Kernel n) : h ≠ 0 →
      Does me (.forkCopy i) s (.next (.forkSet i) (s.setProc i fun q => { q with pgdir := h }))
  | forkUndo (i : Fin n) (s : Kernel n) :
      Does me (.forkUndo i) s
        (.next (.sysRet (-1)) (s.setProc i fun q => { q with kstack := 0, state := .unused }))
  | forkSet (p i : Fin n) (s : Kernel n) : me = some p →
      Does me (.forkSet i) s
        (.next (.acquire .ptable (.forkRun i))
          (s.setProc i fun q => { q with sz := (s.procs p).sz, parent := some p }))
  | forkRun (i : Fin n) (s : Kernel n) :
      Does me (.forkRun i) s
        (.next (.release .ptable (.sysRet (s.procs i).pid))
          (s.setProc i fun q => { q with state := .runnable }))
  /-- `wait` found ZOMBIE child `i` and frees its kernel stack. -/
  | waitReap (p i : Fin n) (s : Kernel n) :
      me = some p → (s.procs i).parent = some p → (s.procs i).state = .zombie →
      (s.procs i).kstack ≠ 0 → Does me .waitScan s (.next (Code.kmemRound (.waitKstack i)) s)
  /-- `wait` found children, none of them ZOMBIE, and was not killed. -/
  | waitSleep (p : Fin n) (s : Kernel n) :
      me = some p → ¬HasZombieChild s.procs p → (∃ j, (s.procs j).parent = some p) →
      (s.procs p).killed = false → Does me .waitScan s (.next (.sleepSet .wait) s)
  | waitKstack (i : Fin n) (s : Kernel n) : (s.procs i).pgdir ≠ 0 →
      Does me (.waitKstack i) s (.next (.waitFreevm i) (s.setProc i fun q => { q with kstack := 0 }))
  | waitFreevm (i : Fin n) (s : Kernel n) :
      Does me (.waitFreevm i) s
        (.next (.release .ptable (.sysRet (s.procs i).pid)) (s.setProc i fun q =>
          { q with pid := 0, parent := none, killed := false, state := .unused }))
  | kill (pid : Int) (i : Fin n) (s : Kernel n) : (s.procs i).pid = pid →
      Does me (.killScan pid) s (.next (.release .ptable (.sysRet 0)) (s.setProc i killSlot))
  | sleep (p : Fin n) (site : SleepSite) (s : Kernel n) : me = some p →
      Does me (.sleepSet site) s
        (.next (.sleepSched site)
          (s.setProc p fun q => { q with chan := some (site.chan p), state := .sleeping }))
  | unsleep (p : Fin n) (site : SleepSite) (s : Kernel n) : me = some p →
      Does me (.sleepRet site) s (.next (sleepReturn site) (s.setProc p fun q => { q with chan := none }))
  /-- `exit`'s `initproc` check passed: on to `acquire(&ptable.lock)`. -/
  | exitStart (p : Fin n) (s : Kernel n) : me = some p → s.initproc ≠ some p →
      Does me .exitStart s (.next (.acquire .ptable .exitWake) s)
  | exitWake (p : Fin n) (s : Kernel n) : me = some p →
      Does me .exitWake s (.next .exitSched (s.exitWake p))
  | fault (p : Fin n) (r : Code n) (s : Kernel n) : me = some p →
      Does me (.fault r) s (.next (.trapChk1 false r) (s.setProc p fun q => { q with killed := true }))
  | yield (p : Fin n) (r : Code n) (s : Kernel n) : me = some p →
      Does me (.yieldSet r) s (.next (.yieldSched r) (s.setProc p fun q => { q with state := .runnable }))
  | wakeup (ch : Chan n) (k : Code n) (s : Kernel n) :
      Does me (.wakeup1 ch k) s (.next (.wakeRel ch k) { s with procs := wakeup1 s.procs (some ch) })

variable (s : Kernel n) {c : Fin m} {me : Option (Fin n)} {k : Code n} {ch : Choice}
  {irq : Irq} {e : Effect n}

/-- A statement that leaves memory as it is and goes on to `k'`, which the invariants read as
they read `k`. -/
theorem Does.pass {k' : Code n} (hk : k'.view = k.view ∧ k'.wf = k.wf) (ha : k'.diskAt = k.diskAt)
    (hg : k'.ideGap = k.ideGap) : s.Does me k (.next k' s) :=
  .plain _ _ _ _ rfl rfl rfl (fun hw => ⟨hk.1, hk.2 ▸ hw⟩) (.keep ha (fun _ => hg) rfl rfl rfl rfl rfl)

/-- `trap`'s `killed` checks send a killed process that trapped from user mode to `exit`. -/
theorem Does.exit_of_isUser {r : Code n} {t : Bool} (hr : r.isUser)
    (hk : k = .trapChk1 t r ∨ k = .trapChk2 r) : s.Does me k (.next .exitStart s) := by
  obtain rfl := Code.eq_user_of_isUser hr
  rcases hk with rfl | rfl <;> exact Does.pass s ⟨rfl, rfl⟩ rfl rfl

theorem Does.of_syscall {p : Fin n} {call : Syscall} (h : s.syscall p call = some e) :
    s.Does (some p) .user e := by
  unfold syscall at h
  split at h
  · cases h; exact Does.pass s ⟨rfl, rfl⟩ rfl rfl
  · cases call with
    | disk b w =>
      dsimp only at h
      split at h
      · cases h
      · rename_i hb
        simp only [Bool.or_eq_true, Bool.and_eq_true, Bool.not_eq_true', not_or, not_and,
          Bool.not_eq_true] at hb
        cases w <;> simp only [Bool.false_eq_true, if_false, if_true] at h <;> split at h <;> cases h
        all_goals first
          | exact .halt _ _ _ rfl (by decide) (by decide) (by decide) (by decide) (by decide)
          | exact .plain _ _ _ _ rfl rfl rfl (fun _ => ⟨rfl, rfl⟩) (.request _ true _ hb.1 (.inl rfl))
          | exact .plain _ _ _ _ rfl rfl rfl (fun _ => ⟨rfl, rfl⟩)
              (.request _ false _ hb.1 (.inr (by simpa using hb.2)))
    | _ => cases h; exact Does.pass s ⟨rfl, rfl⟩ rfl rfl

theorem Does.of_allocScan (site : AllocSite) : s.Does me (.allocScan site) (s.allocScan site) := by
  unfold allocScan
  split
  · split
    · exact Does.pass s ⟨rfl, rfl⟩ rfl rfl
    · exact .halt _ _ _ rfl (by decide) (by decide) (by decide) (by decide) (by decide)
  · exact .claim _ _ _ (of_decide_eq_true (scanFrom_spec ‹_›).2)

theorem Does.of_allocKstack (site : AllocSite) (i : Fin n) (a : Nat) :
    s.Does me (.allocKstack site i) (s.allocKstack site i a) := by
  unfold allocKstack
  split
  · split
    · exact .unclaim _ _
    · exact .halt _ _ _ rfl (by decide) (by decide) (by decide) (by decide) (by decide)
  · split
    · exact .forkKstack _ _ _ ‹_›
    · exact .initKstack _ _ _ ‹_›

theorem Does.of_waitScan (p : Fin n) : s.Does (some p) .waitScan (s.waitScan p) := by
  unfold waitScan
  split
  · rename_i i hi
    have hz : (s.procs i).parent = some p ∧ (s.procs i).state = .zombie := by
      simpa using (scanFrom_spec hi).2
    split
    · exact .halt _ _ _ rfl (by decide) (by decide) (by decide) (by decide) (by decide)
    · exact .waitReap _ _ _ rfl hz.1 hz.2 ‹_›
  · rename_i hn
    split
    · exact Does.pass s ⟨rfl, rfl⟩ rfl rfl
    · rename_i hc
      simp only [Bool.or_eq_true, Bool.not_eq_true', not_or, Bool.not_eq_false,
        List.any_eq_true, List.mem_finRange, true_and, decide_eq_true_eq, Bool.not_eq_true] at hc
      refine .waitSleep _ _ rfl (fun ⟨j, hj⟩ => ?_) hc.1 hc.2
      have := scanFrom_eq_none.mp hn j (Nat.zero_le _)
      simp [hj] at this

theorem Does.of_trapEntry (h : e ∈ s.trapEntry c k irq) : s.Does me k e := by
  simp only [trapEntry, Option.mem_def] at h
  split at h
  · cases h
  · rename_i hi
    simp only [Code.interruptible, Bool.not_eq_true', Bool.and_eq_false_imp, Bool.not_eq_false',
      not_forall, exists_prop] at hi
    split at h <;> (try split at h) <;> cases h <;>
      exact .plain _ _ _ _ rfl rfl rfl (fun hw => ⟨by rw [Code.view_of_free hw hi.1]; rfl,
        by simpa [Code.wf, Code.holds, Code.reapOf, Code.ordinary, Code.stackState, Code.resumeOf,
          Code.waitSleeping, Code.wakeChan, Lock.all, Lock.rank, hi.1] using hw⟩)
        (.keep rfl (fun _ => (Code.ideGap_of_free hi.1).symm) rfl rfl rfl rfl rfl)

/-- **What a statement does**, code site by code site. -/
theorem Does.of_exec (h : e ∈ s.exec c me k ch) : s.Does me k e := by
  simp only [exec, Option.mem_def] at h
  cases k with
  -- the lock operations, and the statements that end in one
  | acquire l k => cases h; exact .acquire _ _ _
  | release l k => cases h; exact .release _ _ _
  | wakeRel ch k => cases h; exact .wakeRel _ _ _
  | forkret => cases h; exact .forkret _
  | yieldRet r => cases h; exact .yieldRet _ _
  -- `sched()` and the scheduler
  | sleepSched site => obtain ⟨p, rfl, rfl⟩ := Option.map_eq_some'.mp h; exact .schedSleep _ _ _ rfl
  | yieldSched r => obtain ⟨p, rfl, rfl⟩ := Option.map_eq_some'.mp h; exact .schedYield _ _ _ rfl
  | exitSched => obtain ⟨p, rfl, rfl⟩ := Option.map_eq_some'.mp h; exact .schedExit _ _ rfl
  | schedResume j => cases h; exact .resume _ _
  | schedScan i =>
    cases h
    split
    · exact .dispatch _ _ _ (of_decide_eq_true (scanFrom_spec ‹_›).2)
    · exact Does.pass s ⟨rfl, rfl⟩ rfl rfl
  -- system calls and their returns
  | user =>
    cases ch with
    | sys call =>
      obtain ⟨p, rfl, hp⟩ := Option.bind_eq_some.mp h
      exact Does.of_syscall s hp
    | _ => cases h
  | sysRet v =>
    obtain ⟨p, rfl, rfl⟩ := Option.map_eq_some'.mp h
    split <;> exact Does.pass s ⟨rfl, rfl⟩ rfl rfl
  -- `allocproc`, `userinit` and `fork`
  | allocScan site => cases h; exact Does.of_allocScan s _
  | allocKstack site i =>
    cases ch <;> try cases h
    exact Does.of_allocKstack s _ _ _
  | userinitVm i =>
    cases ch <;> try cases h
    · split
      · exact .halt _ _ _ rfl (by decide) (by decide) (by decide) (by decide) (by decide)
      · exact .initVm _ _ _ ‹_›
    · exact Does.pass s ⟨rfl, rfl⟩ rfl rfl
  | userinitRun i => cases h; exact .initRun _ _
  | forkCopy i =>
    cases ch <;> try cases h
    · split
      · exact .forkNoVm _ _
      · exact .forkVm _ _ _ ‹_›
    · exact Does.pass s ⟨rfl, rfl⟩ rfl rfl
  | forkUndo i =>
    cases ch <;> try cases h
    · exact .forkUndo _ _
    · exact Does.pass s ⟨rfl, rfl⟩ rfl rfl
  | forkSet i => obtain ⟨p, rfl, rfl⟩ := Option.map_eq_some'.mp h; exact .forkSet _ _ _ rfl
  | forkRun i => cases h; exact .forkRun _ _
  -- `wait` and `kill`
  | waitScan => obtain ⟨p, rfl, rfl⟩ := Option.map_eq_some'.mp h; exact Does.of_waitScan s _
  | waitKstack i =>
    cases h
    split
    · exact .halt _ _ _ rfl (by decide) (by decide) (by decide) (by decide) (by decide)
    · exact .waitKstack _ _ ‹_›
  | waitFreevm i =>
    cases ch <;> try cases h
    · exact .waitFreevm _ _
    · exact Does.pass s ⟨rfl, rfl⟩ rfl rfl
  | killScan pid =>
    cases h
    split
    · exact .kill _ _ _ (of_decide_eq_true (scanFrom_spec ‹_›).2)
    · exact Does.pass s ⟨rfl, rfl⟩ rfl rfl
  -- `sleep` and its callers `sys_sleep` and `sys_uptime`
  | sleepSet site => obtain ⟨p, rfl, rfl⟩ := Option.map_eq_some'.mp h; exact .sleep _ _ _ rfl
  | sleepRet site => obtain ⟨p, rfl, rfl⟩ := Option.map_eq_some'.mp h; exact .unsleep _ _ _ rfl
  | sysSleepStart nt => cases h; exact Does.pass s ⟨rfl, rfl⟩ rfl rfl
  | sysSleepLoop nt t0 =>
    obtain ⟨p, rfl, rfl⟩ := Option.map_eq_some'.mp h
    repeat' split
    all_goals exact Does.pass s ⟨rfl, rfl⟩ rfl rfl
  | uptimeRead => cases h; exact Does.pass s ⟨rfl, rfl⟩ rfl rfl
  -- the disk driver
  | iderwAppend b =>
    cases h
    split
    · exact .plain _ _ _ _ rfl rfl rfl (fun _ => ⟨rfl, rfl⟩) (.append _ rfl (if_pos ‹_›).symm rfl rfl rfl)
    · exact .plain _ _ _ _ rfl rfl rfl (fun _ => ⟨rfl, rfl⟩) (.append _ rfl (if_neg ‹_›).symm rfl rfl rfl)
  | iderwLoop b =>
    cases h
    split
    · exact .plain _ _ _ _ rfl rfl rfl (fun _ => ⟨rfl, rfl⟩) (.loopDone _ _ ‹_›)
    · exact Does.pass s ⟨rfl, rfl⟩ rfl rfl
  | brelse b => cases h; exact .plain _ _ _ _ rfl rfl rfl (fun _ => ⟨rfl, rfl⟩) (.release _ _)
  | ideHead r =>
    cases h
    split
    · exact Does.pass s ⟨rfl, rfl⟩ rfl rfl
    · exact .plain _ _ _ _ rfl rfl rfl (fun hw => ⟨rfl, hw⟩) (.complete _ _ _ _ ‹_›)
  | ideNext r => cases h; exact .plain _ _ _ _ rfl rfl rfl (fun hw => ⟨rfl, hw⟩) (.restart _ _)
  -- `exit`
  | exitStart =>
    obtain ⟨p, rfl, rfl⟩ := Option.map_eq_some'.mp h
    split
    · exact .initExiting _ _ rfl ‹_›
    · exact .exitStart _ _ rfl ‹_›
  | exitWake => obtain ⟨p, rfl, rfl⟩ := Option.map_eq_some'.mp h; exact .exitWake _ _ rfl
  | exitRet => cases h; exact .zombieExit _
  | forkretFirst => cases h; exact .forkretFirst _
  -- `trap`
  | tmr r =>
    cases h
    split <;> exact Does.pass s ⟨rfl, rfl⟩ rfl rfl
  | tick r =>
    cases h
    exact .plain _ _ _ _ rfl rfl rfl (fun hw => ⟨rfl, hw⟩) (.keep rfl (fun _ => rfl) rfl rfl rfl rfl rfl)
  | fault r => obtain ⟨p, rfl, rfl⟩ := Option.map_eq_some'.mp h; exact .fault _ _ _ rfl
  | trapChk1 timer r =>
    cases h
    split
    · split
      · exact Does.exit_of_isUser s (by simp_all) (.inl rfl)
      · split <;> exact Does.pass s ⟨rfl, rfl⟩ rfl rfl
    · exact Does.pass s ⟨rfl, rfl⟩ rfl rfl
  | yieldSet r => obtain ⟨p, rfl, rfl⟩ := Option.map_eq_some'.mp h; exact .yield _ _ _ rfl
  | trapChk2 r =>
    cases h
    split
    · split
      · exact Does.exit_of_isUser s (t := false) (by simp_all) (.inr rfl)
      · exact .plain _ _ _ _ rfl rfl rfl Code.ret_plain (.keep rfl Code.ret_ideGap rfl rfl rfl rfl rfl)
    · exact .plain _ _ _ _ rfl rfl rfl Code.ret_plain (.keep rfl Code.ret_ideGap rfl rfl rfl rfl rfl)
  | wakeup1 ch k => cases h; exact .wakeup _ _ _

end Kernel

/-- **What a CPU's step does**, as `Does` describes it. -/
theorem Sys.does_of_effect {s : Sys n m} {c : Fin m} {ch : Choice} {e : Effect n}
    (h : s.effect c ch = some e) : s.mem.Does (s.cpus c).run.owner (s.cpus c).run.code e := by
  cases ch
  case intr => exact Kernel.Does.of_trapEntry _ h
  all_goals exact Kernel.Does.of_exec _ h

end Xv6
