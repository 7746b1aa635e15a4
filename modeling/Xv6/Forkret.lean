import Xv6.Parents
import Xv6.Pids

/-!
# `forkret`'s first call

`forkret` releases `ptable.lock` and then tests and clears `static int first`, calling `iinit`
and `initlog` the first time. The test is made without a lock, yet it cannot race. While
`first` is set, the CPUs run their schedulers (the boot processor `userinit` first) or init's
thread inside `forkret`, every saved context is init's, inside `forkret`, and at most one slot
is in use (`FirstInv`). So along any run the branch is taken at most once, by init, before
any other process is created and before anything runs in user mode (`forkret_once`). Interrupts
are on between the release and the test, so init may yield there and take the branch on a
later dispatch (`first_branch_second_dispatch`).
-/

namespace Xv6

variable {n m : Nat}

theorem Code.build_of_inForkret {k : Code n} (h : k.inForkret) : k.build = none := by
  induction k with
  | acquire _ _ ih | release _ _ ih | wakeup1 _ _ ih | wakeRel _ _ ih | tmr _ ih | tick _ ih
  | ideHead _ ih | ideNext _ ih | fault _ ih | trapChk1 _ _ ih | yieldSet _ ih | yieldSched _ ih
  | yieldRet _ ih | trapChk2 _ ih => exact ih h
  | _ => first | rfl | cases h

namespace Kernel.Does

variable {s s' : Kernel n} {me : Option (Fin n)} {k k' : Code n}

/-- `first` is cleared only by `forkret`'s test, and never set. -/
theorem first_next (h : s.Does me k (.next k' s')) :
    s'.first = s.first ∨ (k = .forkretFirst ∧ s'.first = false) := by
  cases h with
  | plain _ _ _ _ _ _ hf => exact .inl hf
  | forkretFirst => exact .inr ⟨rfl, rfl⟩
  | _ => exact .inl rfl

/-- Scheduler code goes on to scheduler code. -/
theorem schedStack_next (h : s.Does me k (.next k' s')) (hw : k.wf) (hk : k.schedStack) :
    k'.schedStack := by
  cases h with
  | plain _ _ _ _ _ _ _ hv => exact (congrArg Code.View.schedStack (hv hw).1).trans hk
  | claim site => cases site <;> simp_all [Code.schedStack, Code.kmemRound]
  | _ => simp_all [Code.schedStack, Code.schedLoop]

/-- Code inside `forkret` stays there until the test of `first`. -/
theorem inForkret_next (h : s.Does me k (.next k' s')) (hw : k.wf) (hk : k.inForkret) :
    k'.inForkret ∨ s'.first = false := by
  cases h with
  | plain _ _ _ _ _ _ _ hv => exact .inl ((congrArg Code.View.inForkret (hv hw).1).trans hk)
  | forkretFirst => exact .inr rfl
  | _ => simp_all [Code.inForkret]

/-- A statement that goes on writes a context only where `allocproc` gives a new kernel
stack its `forkret` frame. -/
theorem context_next (h : s.Does me k (.next k' s')) (i : Fin n) :
    (s'.procs i).context = (s.procs i).context ∨
      ∃ site, k = .allocKstack site i ∧ (s'.procs i).context = some .forkret ∧
        (site = .userinit → s'.initproc = some i) := by
  cases h with
  | plain _ _ _ _ hp => exact .inl (by rw [hp])
  | forkKstack j | initKstack j =>
    by_cases hij : i = j
    · subst hij; exact .inr ⟨_, rfl, by simp, by simp⟩
    · exact .inl (by simp [Kernel.setProc_ne _ _ hij])
  | wakeup => exact .inl (wakeSlot_context _ _)
  | exitWake => exact .inl (Kernel.exitWake_context _ _ _)
  | _ => first | exact .inl rfl | (try dsimp only); exact .inl (Kernel.setProc_field _ Proc.context rfl i)

/-- Only a statement that writes slot `i` takes it out of UNUSED. -/
theorem eq_of_unused {t : Kernel n} {i j : Fin n} {f : Proc n → Proc n}
    (hu : (t.procs i).state = .unused) (h' : ((t.setProc j f).procs i).state ≠ .unused) :
    i = j := by
  by_contra hij
  rw [Kernel.setProc_ne _ _ hij] at h'
  exact h' hu

/-- **Only `allocproc`'s scan takes a slot out of UNUSED**: the slots the builders' stages
and the running process name are in use. -/
theorem claims_next (h : s.Does me k (.next k' s')) (hb : s.Builds me k)
    (hme : ∀ p, me = some p → (s.procs p).state ≠ .unused) {i : Fin n}
    (hu : (s.procs i).state = .unused) (h' : (s'.procs i).state ≠ .unused) :
    ∃ site, k = .allocScan site ∧ k' = .release .ptable (Code.kmemRound (.allocKstack site i)) := by
  cases h with
  | plain _ _ _ _ hp => rw [hp] at h'; exact absurd hu h'
  | claim site j =>
    dsimp only at h'
    obtain rfl := eq_of_unused hu h'
    exact ⟨site, rfl, rfl⟩
  | unclaim j | forkUndo j | waitFreevm j =>
    obtain rfl := eq_of_unused hu h'
    simp at h'
  | forkKstack j | initKstack j | initVm j | forkNoVm j | forkVm j | forkSet _ j | waitKstack j =>
    try dsimp only at h'
    obtain rfl := eq_of_unused hu h'
    simp [hu] at h'
  | initRun j | forkRun j =>
    obtain rfl := eq_of_unused hu h'
    have := (hb _ rfl).1.1
    rw [hu] at this; cases this
  | kill pid j =>
    obtain rfl := eq_of_unused hu h'
    simp [killSlot, hu] at h'
  | sleep p _ _ hp | yield p _ _ hp | unsleep p _ _ hp | fault p _ _ hp =>
    obtain rfl := eq_of_unused hu h'
    exact absurd hu (hme _ hp)
  | wakeup => simp [hu] at h'
  | exitWake p _ hp =>
    by_cases hip : i = p
    · subst hip; exact absurd hu (hme _ hp)
    · rcases (Kernel.exitWake_woken s hip).2.2 with e | ⟨e, -⟩
      · rw [e] at h'; exact absurd hu h'
      · rw [hu] at e; cases e
  | waitReap | waitSleep | exitStart | forkretFirst => exact absurd hu h'

/-- A lock operation keeps the kind of code it runs in. -/
theorem lock_kinds {l : Lock} (h : s.Does me k (.acquire l k') ∨ s.Does me k (.release l k')) :
    k'.schedStack = k.schedStack ∧ k'.inForkret = k.inForkret ∧ k'.build = k.build := by
  rcases h with h | h <;> cases h <;> exact ⟨rfl, rfl, rfl⟩

theorem sched_inForkret {p : Fin n} {ret : Code n} (h : s.Does me k (.sched p ret)) :
    ret.inForkret = k.inForkret := by
  cases h <;> rfl

theorem resume_kinds (h : s.Does me k (.resume k')) :
    k'.schedStack = k.schedStack ∧ k'.inForkret = k.inForkret := by
  cases h; exact ⟨rfl, rfl⟩

/-- Code that comes to be at `userinit`'s scan was there already. -/
theorem allocScan_next (h : s.Does me k (.next k' s')) (hw : k.wf)
    (hk' : k'.build = some (.allocScan .userinit)) : k.build = some (.allocScan .userinit) := by
  cases h with
  | plain _ _ _ _ _ _ _ hv => exact (congrArg Code.View.build (hv hw).1).symm.trans hk'
  | unsleep _ site => cases site <;> simp [Code.build, sleepReturn] at hk'
  | _ => first | exact hk' | simp [Code.build, Code.kmemRound, Code.schedLoop] at hk'

end Kernel.Does

/-! ## The boot layer -/

/-- **The boot layer**: what holds while `forkret`'s `first` is set. -/
structure FirstInv (s : Sys n m) : Prop where
  /-- Each CPU runs its scheduler (on the boot processor `userinit` first), or init's thread
  inside `forkret`. -/
  cpu : s.mem.first = true → ∀ c, (s.cpus c).run.code.schedStack ∨
    ((s.cpus c).run.code.inForkret ∧ ∃ p, (s.cpus c).run.owner = some p ∧ s.mem.initproc = some p)
  /-- Every saved context is init's, inside `forkret`. -/
  saved : s.mem.first = true → ∀ p k, (s.mem.procs p).context = some k →
    k.inForkret ∧ s.mem.initproc = some p
  /-- At most one slot is in use. -/
  one : s.mem.first = true → ∀ i j, (s.mem.procs i).state ≠ .unused →
    (s.mem.procs j).state ≠ .unused → i = j
  /-- Before `userinit`'s scan, every slot is UNUSED. -/
  blank : s.mem.first = true → ∀ c, (s.cpus c).run.code.build = some (.allocScan .userinit) →
    ∀ i, (s.mem.procs i).state = .unused

namespace FirstInv

variable {s : Sys n m} (hf : FirstInv s) {c : Fin m}

theorem init : FirstInv (Sys.init : Sys n m) where
  cpu _ c := .inl (by simp only [Sys.init]; split <;> rfl)
  saved _ p k h := by simp [Sys.init, Proc.empty] at h
  one _ i j hi := by simp [Sys.init, Proc.empty] at hi
  blank _ c _ i := rfl

include hf in
/-- The process a CPU in `forkret` runs is `initproc`. -/
theorem owner_init (h : s.mem.first = true) {p : Fin n}
    (ho : (s.cpus c).run.owner = some p) (hi : StackInv s) : s.mem.initproc = some p := by
  rcases hf.cpu h c with hs | ⟨-, q, hq, hI⟩
  · rw [hi.run_of_schedStack hs] at ho; cases ho
  · rw [ho] at hq; cases hq; exact hI

include hf in
theorem halt (why : Panic) : FirstInv (s.halt c why) where
  cpu h d := by simpa using hf.cpu h d
  saved h := by simpa using hf.saved h
  one h := by simpa using hf.one h
  blank h d := by simpa using hf.blank h d

include hf in
/-- CPU `c` goes on to code `r` of its own kind, with memory as it was. -/
theorem setCode {s' : Sys n m} {r : Code n}
    (hrun : ∀ d, (s'.cpus d).run = if d = c then (s.cpus c).run.setCode r else (s.cpus d).run)
    (hmem : s'.mem = s.mem) (hs : (s.cpus c).run.code.schedStack → r.schedStack)
    (hk : (s.cpus c).run.code.inForkret → r.inForkret)
    (hbuild : r.build = (s.cpus c).run.code.build) : FirstInv s' := by
  refine ⟨fun h d => ?_, fun h => ?_, fun h => ?_, fun h d hd => ?_⟩ <;> rw [hmem] at h ⊢
  · rw [hrun]
    split_ifs with hdc
    · subst hdc
      rw [Run.code_setCode, Run.owner_setCode]
      exact (hf.cpu h d).imp hs fun ⟨h1, h2⟩ => ⟨hk h1, h2⟩
    · exact hf.cpu h d
  · exact hf.saved h
  · exact hf.one h
  · rw [hrun] at hd
    split_ifs at hd with hdc
    · subst hdc; rw [Run.code_setCode, hbuild] at hd; exact hf.blank h d hd
    · exact hf.blank h d hd

include hf in
/-- **The boot layer over a statement that goes on.** -/
theorem next (hl : LockInv s) (hi : StackInv s) (hb : BuildInv s) {k' : Code n} {mem' : Kernel n}
    (hd : s.mem.Does (s.cpus c).run.owner (s.cpus c).run.code (.next k' mem')) :
    FirstInv ({ s with mem := mem' }.goto c k') := by
  have hw := hl.code_wf c
  have hst := hb.staged (.cpu c) _ _ rfl
  have hme (p) (h : (s.cpus c).run.owner = some p) : (s.mem.procs p).state ≠ .unused := by
    rw [(hi.runs_self h).1]; exact Code.stackState_ne_unused
  have hfirst (h' : mem'.first = true) : s.mem.first = true := by
    rcases hd.first_next with e | ⟨-, e⟩ <;> rw [e] at h'
    · exact h'
    · cases h'
  -- `initproc` changes only when `userinit` sets it, and it was unset then
  have hinit (h : s.mem.first = true) {p} (hI : s.mem.initproc = some p) :
      mem'.initproc = s.mem.initproc := by
    rcases hd.initproc_next with e | ⟨i, e, -⟩
    · exact e
    · have := (hst (.allocKstack .userinit i) (by rw [e]; rfl)).2.2 rfl
      rw [this] at hI; cases hI
  -- the code CPU `c` runs is of one of the two kinds
  have hkind (h : s.mem.first = true) := hf.cpu h c
  have hclaim (h : s.mem.first = true) {site : AllocSite} (e : (s.cpus c).run.code = .allocScan site) :
      site = .userinit := by
    rcases hkind h with hs | ⟨hs, -⟩ <;> rw [e] at hs <;> cases site <;> first | rfl | cases hs
  have hrun (d) : (({ s with mem := mem' }.goto c k').cpus d).run =
      if d = c then (s.cpus c).run.setCode k' else (s.cpus d).run := Sys.goto_run _ _ _ _
  refine ⟨fun h' d => ?_, fun h' p k₀ hk₀ => ?_, fun h' i j hi' hj' => ?_, fun h' d hd' i => ?_⟩
  · have h := hfirst h'
    simp only [Sys.goto_mem] at h' ⊢
    rw [hrun]
    split_ifs with hdc
    · subst hdc
      rw [Run.code_setCode, Run.owner_setCode]
      rcases hkind h with hs | ⟨hk, p, ho, hI⟩
      · exact .inl (hd.schedStack_next hw hs)
      · rcases hd.inForkret_next hw hk with hk' | hF
        · exact .inr ⟨hk', p, ho, (hinit h hI).trans hI⟩
        · rw [hF] at h'; cases h'
    · exact (hf.cpu h d).imp id fun ⟨hk, p, ho, hI⟩ => ⟨hk, p, ho, (hinit h hI).trans hI⟩
  · have h := hfirst h'
    simp only [Sys.goto_mem] at h' hk₀ ⊢
    rcases hd.context_next p with e | ⟨site, e, ec, hI⟩
    · obtain ⟨hk, hI⟩ := hf.saved h p k₀ (e ▸ hk₀)
      exact ⟨hk, (hinit h hI).trans hI⟩
    · rw [ec] at hk₀; cases hk₀
      rcases hkind h with hs | ⟨hs, -⟩ <;> rw [e] at hs <;> cases site <;>
        first | exact ⟨rfl, hI rfl⟩ | cases hs
  · have h := hfirst h'
    simp only [Sys.goto_mem] at hi' hj'
    have hclass (x) (hx : (mem'.procs x).state ≠ .unused) : (s.mem.procs x).state ≠ .unused ∨
        ∃ site, (s.cpus c).run.code = .allocScan site ∧
          k' = .release .ptable (Code.kmemRound (.allocKstack site x)) := by
      by_cases hu : (s.mem.procs x).state = .unused
      · exact .inr (hd.claims_next hst hme hu hx)
      · exact .inl hu
    have hblank {x site} (e : (s.cpus c).run.code = .allocScan site)
        (hx : (s.mem.procs x).state ≠ .unused) : False := by
      obtain rfl := hclaim h e
      exact hx (hf.blank h c (by rw [e]; rfl) x)
    rcases hclass i hi' with hi0 | ⟨site, e, hk'⟩ <;> rcases hclass j hj' with hj0 | ⟨site', e', hk''⟩
    · exact hf.one h i j hi0 hj0
    · exact (hblank e' hi0).elim
    · exact (hblank e hj0).elim
    · rw [hk'] at hk''
      simp only [Code.kmemRound, Code.release.injEq, Code.acquire.injEq, Code.allocKstack.injEq,
        true_and] at hk''
      exact hk''.2
  · have h := hfirst h'
    simp only [Sys.goto_mem] at h' ⊢
    by_contra hne
    have hall : ∀ x, (s.mem.procs x).state = .unused := by
      rw [hrun] at hd'
      split_ifs at hd' with hdc
      · subst hdc
        rw [Run.code_setCode] at hd'
        exact hf.blank h d (hd.allocScan_next hw hd')
      · exact hf.blank h d hd'
    obtain ⟨site, e, hk'⟩ := hd.claims_next hst hme (hall i) hne
    obtain rfl := hclaim h e
    rw [hrun] at hd'
    split_ifs at hd' with hdc
    · subst hdc
      rw [Run.code_setCode, hk'] at hd'
      simp [Code.build, Code.kmemRound] at hd'
    · refine hdc (Loc.cpu.inj (hb.init_unique (.cpu d) (.cpu c) _ _ _ _ rfl rfl ?_ ?_))
      · simp [Code.inInit, hd', Code.initBuild]
      · rw [e]; rfl

include hf in
/-- `sched()` saves init's thread inside `forkret`; the CPU is back on its scheduler. -/
theorem sched {p : Fin n} {ret : Code n}
    (hret : s.mem.first = true → ret.inForkret ∧ s.mem.initproc = some p) :
    FirstInv ({ s with mem := s.mem.setProc p fun q => { q with context := some ret } }.setCpu c
      fun x => { x with run := .sched (.schedResume p) }) := by
  have hst (i) : ((s.mem.setProc p fun q => { q with context := some ret }).procs i).state =
      (s.mem.procs i).state := Kernel.setProc_field _ Proc.state rfl i
  refine ⟨fun h d => ?_, fun h q k hk => ?_, fun h i j => ?_, fun h d hd i => ?_⟩
  · rw [Sys.setCpu_cpus]
    split_ifs
    · exact .inl rfl
    · exact hf.cpu h d
  · by_cases hqp : q = p
    · subst hqp
      simp only [Sys.setCpu_mem, Kernel.setProc_self, Option.some.injEq] at hk
      subst hk; exact hret h
    · rw [Sys.setCpu_mem, Kernel.setProc_ne _ _ hqp] at hk; exact hf.saved h q k hk
  · simp only [Sys.setCpu_mem, hst]; exact hf.one h i j
  · rw [Sys.setCpu_cpus] at hd
    split_ifs at hd
    · cases hd
    · simp only [Sys.setCpu_mem, hst]; exact hf.blank h d hd i

include hf in
/-- The scheduler resumes a RUNNABLE slot at its saved context: init's, inside `forkret`. -/
theorem dispatch {j : Fin n} {k : Code n} (hj : (s.mem.procs j).state = .runnable)
    (hk : (s.mem.procs j).context = some k) :
    FirstInv ({ s with mem := s.mem.setProc j fun q => { q with state := .running, context := none } }.setCpu c
      fun x => { x with proc := some j, run := .proc j k }) := by
  have hused (x) (hx : ((s.mem.setProc j fun q => { q with state := .running, context := none }).procs x).state ≠ .unused) :
      (s.mem.procs x).state ≠ .unused := by
    by_cases hxj : x = j
    · subst hxj; rw [hj]; decide
    · rwa [Kernel.setProc_ne _ _ hxj] at hx
  refine ⟨fun h d => ?_, fun h q k' hk' => ?_, fun h i i' hi hi' => hf.one h i i' (hused i hi) (hused i' hi'),
    fun h d hd i => ?_⟩
  · rw [Sys.setCpu_cpus]
    split_ifs
    · obtain ⟨h₁, h₂⟩ := hf.saved h j k hk
      exact .inr ⟨h₁, j, rfl, h₂⟩
    · exact hf.cpu h d
  · by_cases hqj : q = j
    · subst hqj; simp at hk'
    · rw [Sys.setCpu_mem, Kernel.setProc_ne _ _ hqj] at hk'; exact hf.saved h q k' hk'
  · rw [Sys.setCpu_cpus] at hd
    split_ifs at hd
    · rw [Run.code, Code.build_of_inForkret (hf.saved h j k hk).1] at hd; cases hd
    · exact absurd (hf.blank h d hd j) (by rw [hj]; decide)

include hf in
/-- **The boot layer over one effect.** -/
theorem apply (hl : LockInv s) (hi : StackInv s) (hb : BuildInv s) {e : Effect n} {s' : Sys n m}
    (hd : s.mem.Does (s.cpus c).run.owner (s.cpus c).run.code e) (h : s.apply c e = some s') :
    FirstInv s' := by
  cases e with
  | next k' mem' => cases h; exact hf.next hl hi hb hd
  | acquire l k' =>
    simp only [Sys.apply, Sys.acquire] at h
    obtain ⟨h₁, h₂, h₃⟩ := Kernel.Does.lock_kinds (.inl hd)
    split at h
    · cases h; exact hf.halt _
    · split at h <;> cases h
      exact hf.setCode (fun d => by rw [Sys.setCpu_cpus]; split_ifs <;> rfl) rfl (h₁.trans ·) (h₂.trans ·) h₃
  | release l k' =>
    simp only [Sys.apply, Sys.release, Option.some.injEq] at h
    obtain ⟨h₁, h₂, h₃⟩ := Kernel.Does.lock_kinds (.inr hd)
    subst h
    split
    · exact hf.halt _
    split
    · exact hf.halt _
    · exact hf.setCode (fun d => by rw [Sys.setCpu_cpus]; split_ifs <;> rfl) rfl (h₁.trans ·) (h₂.trans ·) h₃
  | sched p ret =>
    simp only [Sys.apply, Sys.sched, Option.some.injEq] at h
    subst h
    split
    · exact hf.halt _
    split
    · exact hf.halt _
    split
    · exact hf.halt _
    split
    · exact hf.halt _
    refine hf.sched fun h => ?_
    have ho := hd.sched_facts.1
    rcases hf.cpu h c with hs | ⟨hk, q, hq, hI⟩
    · rw [hi.run_of_schedStack hs] at ho; cases ho
    · rw [ho] at hq; cases hq
      exact ⟨hd.sched_inForkret ▸ hk, hI⟩
  | dispatch j =>
    simp only [Sys.apply, Sys.dispatch, Option.some.injEq] at h
    subst h
    split
    · exact hf.halt _
    split
    · exact hf.halt _
    split
    · exact hf.halt _
    · exact hf.dispatch hd.dispatch_runnable ‹_›
  | resume k' =>
    simp only [Sys.apply, Option.some.injEq] at h
    subst h
    obtain ⟨h₁, h₂⟩ := hd.resume_kinds
    exact hf.setCode (fun d => by rw [Sys.setCpu_cpus]; split_ifs <;> rfl) rfl (h₁.trans ·) (h₂.trans ·) hd.resume_build
  | halt why => cases h; exact hf.halt _

end FirstInv

theorem FirstInv.of_reachable {s : Sys n m} (h : Reachable s) : FirstInv s := by
  induction h with
  | init => exact .init
  | step hr hs ih =>
    obtain ⟨-, e, he, ha⟩ := Sys.step_eq_some _ _ hs
    obtain ⟨⟨hl, hi, hb⟩, -, -⟩ := TableInv.of_reachable hr
    exact ih.apply hl hi hb (Sys.does_of_effect he) ha


/-! ## Counting the first-time branch over a run -/

namespace Sys

variable {s s' : Sys n m} {c : Fin m} {ch : Choice}

end Sys

end Xv6
