import Xv6.Stacks

/-!
# Parent links

`fork` links a child to the process that forked it, `exit` passes the children of the
exiting process to `initproc`, and `wait` clears the link of the child it reaps. This
layer shows that a link always leads to a process that has not exited: every ZOMBIE has a
live parent to reap it, no slot names an exited process as its parent, and a slot that is
reaped and reused starts with no children.

The argument rests on `initproc` never reaching `exit`'s reparenting: `exit` checks
`curproc == initproc` before it takes `ptable.lock`, and a thread past that check carries
the fact with it, on its CPU or in the context `sched()` saves for it (`InitInv`).
-/

namespace Xv6

variable {n m : Nat}

/-! ## Live processes -/

namespace ProcState

/-- RUNNABLE, RUNNING or SLEEPING: a process that has started and not exited. -/
def live : ProcState → Bool
  | .runnable | .running | .sleeping => true
  | _ => false

/-- A process that `fork` or `userinit` has finished: live, or a ZOMBIE. -/
def started : ProcState → Bool
  | .runnable | .running | .sleeping | .zombie => true
  | _ => false

theorem started_of_live {t : ProcState} (h : t.live) : t.started := by
  cases t <;> simp_all [live, started]

end ProcState

/-- A thread on a process's stack is in a started process. -/
theorem Code.stackState_started (k : Code n) : k.stackState.started := by
  unfold Code.stackState; split <;> rfl

theorem Proc.Woken.live_eq {q q' : Proc n} (h : q'.Woken q) : q'.state.live = q.state.live := by
  rcases h.2.2 with e | ⟨e₁, e₂⟩
  · rw [e]
  · rw [e₁, e₂]; rfl

theorem Proc.Woken.started_eq {q q' : Proc n} (h : q'.Woken q) :
    q'.state.started = q.state.started := by
  rcases h.2.2 with e | ⟨e₁, e₂⟩
  · rw [e]
  · rw [e₁, e₂]; rfl

/-- `exit`'s reparenting: each child of `p` becomes a child of `initproc`. -/
theorem Kernel.exitWake_parent (s : Kernel n) (p j : Fin n) :
    ((s.exitWake p).procs j).parent =
      if (s.procs j).parent = some p then s.initproc else (s.procs j).parent := by
  have h (t : Fin n → Proc n) (ht : ∀ i, (t i).parent = (s.procs i).parent) :
      (reparent t p s.initproc j).parent =
        if (s.procs j).parent = some p then s.initproc else (s.procs j).parent := by
    rw [reparent_eq]
    split <;> simp only [wakeup1_apply, wakeSlot_parent, adopt, ht] <;> split <;> simp [ht]
  simp only [Kernel.exitWake, Function.update_apply]
  split
  · subst j; exact h _ fun i => wakeSlot_parent _ _
  · exact h _ fun i => wakeSlot_parent _ _

/-! ## What a statement does to `initproc` and to `exit`'s check -/

namespace Kernel.Does

variable {s s' : Kernel n} {me : Option (Fin n)} {k k' : Code n}

/-- A statement that goes on is past `exit`'s `initproc` check only if it was before, with
`initproc` as it was, or it makes the check. -/
theorem exiting_next (h : s.Does me k (.next k' s')) (hw : k.wf) :
    k'.exiting = false ∨ (k'.exiting = k.exiting ∧ s'.initproc = s.initproc) ∨
      ∃ p, me = some p ∧ s.initproc ≠ some p ∧ s'.initproc = s.initproc := by
  cases h with
  | plain _ _ _ _ _ hI _ hv => exact .inr (.inl ⟨congrArg Code.View.exiting (hv hw).1, hI⟩)
  | exitStart p _ hme hne => exact .inr (.inr ⟨p, hme, hne, rfl⟩)
  | fault | yield | wakeup => exact .inr (.inl ⟨rfl, rfl⟩)
  | unsleep _ site => exact .inl (by cases site <;> rfl)
  | _ => exact .inl rfl

/-- Only `userinit` sets `initproc`: to the slot it has just given a `forkret` context. -/
theorem initproc_next (h : s.Does me k (.next k' s')) :
    s'.initproc = s.initproc ∨
      ∃ i, k = .allocKstack .userinit i ∧ k' = .userinitVm i ∧ s'.initproc = some i ∧
        (s'.procs i).context = some .forkret := by
  cases h with
  | initKstack i => exact .inr ⟨i, rfl, rfl, rfl, by simp⟩
  | plain _ _ _ _ _ hI => exact .inl hI
  | _ => exact .inl rfl

theorem lock_exiting {l : Lock}
    (h : s.Does me k (.acquire l k') ∨ s.Does me k (.release l k')) : k'.exiting = k.exiting := by
  rcases h with h | h <;> cases h <;> rfl

theorem sched_exiting {p : Fin n} {ret : Code n} (h : s.Does me k (.sched p ret)) :
    ret.exiting = k.exiting := by
  cases h <;> rfl

theorem resume_exiting (h : s.Does me k (.resume k')) : k'.exiting = k.exiting := by
  cases h; rfl

end Kernel.Does

/-- What an effect other than `next` does to memory: nothing, `sched()` saving the context of
the process on the CPU, or the scheduler making the process it dispatches RUNNING. -/
theorem Sys.apply_mem {s s' : Sys n m} {c : Fin m} {e : Effect n}
    (hd : s.mem.Does (s.cpus c).run.owner (s.cpus c).run.code e) (h : s.apply c e = some s')
    (he : ∀ k' mem', e ≠ .next k' mem') :
    s'.mem = s.mem ∨
      (∃ p ret, e = .sched p ret ∧ s'.mem = s.mem.setProc p fun q => { q with context := some ret }) ∨
      ∃ j, e = .dispatch j ∧ (s.mem.procs j).state = .runnable ∧
        s'.mem = s.mem.setProc j fun q => { q with state := .running, context := none } := by
  cases e with
  | next k' mem' => exact absurd rfl (he k' mem')
  | acquire l k' =>
    simp only [Sys.apply, Sys.acquire] at h
    split at h
    · cases h; exact .inl rfl
    · split at h <;> cases h; exact .inl rfl
  | release l k' =>
    simp only [Sys.apply, Sys.release, Option.some.injEq] at h
    subst h; split
    · exact .inl rfl
    · split <;> exact .inl rfl
  | sched p ret =>
    simp only [Sys.apply, Sys.sched, Option.some.injEq] at h
    subst h; split
    · exact .inl rfl
    split
    · exact .inl rfl
    split
    · exact .inl rfl
    split
    · exact .inl rfl
    · exact .inr (.inl ⟨p, ret, rfl, rfl⟩)
  | dispatch j =>
    simp only [Sys.apply, Sys.dispatch, Option.some.injEq] at h
    subst h; split
    · exact .inl rfl
    split
    · exact .inl rfl
    split
    · exact .inl rfl
    · exact .inr (.inr ⟨j, rfl, hd.dispatch_runnable, rfl⟩)
  | resume k' => cases h; exact .inl rfl
  | halt why => cases h; exact .inl rfl

/-! ## `initproc` does not exit -/

/-- **`initproc` does not reach `exit`'s reparenting.** A thread past `exit`'s `initproc`
check runs for a process that is not `initproc`, and the context saved for `initproc` is
not such a thread. -/
structure InitInv (s : Sys n m) : Prop where
  cpu : ∀ c, (s.cpus c).run.code.exiting →
    ∃ p, (s.cpus c).run.owner = some p ∧ s.mem.initproc ≠ some p
  saved : ∀ p k, s.mem.initproc = some p → (s.mem.procs p).context = some k → k.exiting = false

namespace InitInv

variable {s : Sys n m} (hx : InitInv s) {c : Fin m}

theorem init : InitInv (Sys.init : Sys n m) where
  cpu c h := by
    simp only [Sys.init] at h
    split at h <;> simp [Run.code, Code.exiting, Code.schedLoop] at h
  saved p k h := by simp [Sys.init] at h

include hx in
/-- CPU `c` goes on to `k'` with memory as it was, and `k'` is past the check only if its
code was. -/
theorem setCode {s' : Sys n m} {k' : Code n}
    (hrun : ∀ d, (s'.cpus d).run = if d = c then (s.cpus c).run.setCode k' else (s.cpus d).run)
    (hmem : s'.mem = s.mem) (hk : k'.exiting → (s.cpus c).run.code.exiting) : InitInv s' where
  cpu d h := by
    rw [hrun, hmem] at *
    split at h
    · subst d; simpa using hx.cpu _ (hk (by simpa using h))
    · simpa [*] using hx.cpu d h
  saved p k := by rw [hmem]; exact hx.saved p k

include hx in
theorem halt {why : Panic} : InitInv (s.halt c why) where
  cpu d h := by simpa using hx.cpu d (by simpa using h)
  saved := by simpa using hx.saved

include hx in
/-- `sched()` saves the thread of `p`, which is past `exit`'s check only if `p` is not
`initproc`. -/
theorem sched {p : Fin n} {ret : Code n} (ho : (s.cpus c).run.owner = some p)
    (hret : ret.exiting = (s.cpus c).run.code.exiting) :
    InitInv ({ s with mem := s.mem.setProc p fun q => { q with context := some ret } }.setCpu c
      fun x => { x with run := .sched (.schedResume p) }) where
  cpu d h := by
    simp only [Sys.setCpu_cpus, Sys.setCpu_mem] at h ⊢
    split at h
    · simp [Run.code, Code.exiting] at h
    · simpa [*] using hx.cpu d h
  saved q k hq hk := by
    simp only [Sys.setCpu_mem] at hq hk
    by_cases hqp : q = p
    · subst hqp
      simp only [Kernel.setProc_self, Option.some.injEq] at hk
      subst hk
      rw [hret]
      by_contra hex
      obtain ⟨p', hp', hne⟩ := hx.cpu c (by simpa using hex)
      rw [ho] at hp'
      exact hne (hp' ▸ hq)
    · rw [Kernel.setProc_ne _ _ hqp] at hk
      exact hx.saved q k hq hk

include hx in
/-- The scheduler resumes `j` at its saved context, which is past `exit`'s check only if `j`
is not `initproc`. -/
theorem dispatch {j : Fin n} {k : Code n} (hk : (s.mem.procs j).context = some k) :
    InitInv ({ s with mem := s.mem.setProc j fun q => { q with state := .running, context := none } }.setCpu c
      fun x => { x with proc := some j, run := .proc j k }) where
  cpu d h := by
    simp only [Sys.setCpu_cpus, Sys.setCpu_mem] at h ⊢
    split at h
    · refine ⟨j, by simp [*, Run.owner], fun hj => ?_⟩
      simp [Run.code, hx.saved j k hj hk] at h
    · simpa [*] using hx.cpu d h
  saved q k' hq hk' := by
    simp only [Sys.setCpu_mem] at hq hk'
    by_cases hqj : q = j
    · subst hqj; simp at hk'
    · rw [Kernel.setProc_ne _ _ hqj] at hk'
      exact hx.saved q k' hq hk'

include hx in
/-- **`InitInv` over a statement that goes on.** -/
theorem next (hl : LockInv s) (hi : StackInv s) (hb : BuildInv s) {k' : Code n} {mem' : Kernel n}
    (hd : s.mem.Does (s.cpus c).run.owner (s.cpus c).run.code (.next k' mem')) :
    InitInv ({ s with mem := mem' }.goto c k') := by
  have hw := hl.code_wf c
  obtain ⟨-, -, hkept⟩ := hd.fits hw
  have hst := hb.staged (.cpu c) _ _ rfl
  have hstate {d p} (h : (s.cpus d).run.owner = some p) : (s.mem.procs p).state ≠ .embryo := by
    rw [(hi.runs_self h).1]; exact Code.stackState_ne_embryo
  rcases hd.initproc_next with hI | ⟨i, hk, rfl, hI, hctx⟩
  · refine ⟨fun d h => ?_, fun p k hp hk => ?_⟩ <;> simp only [Sys.goto_mem, Sys.goto_run] at *
    · rw [hI]
      by_cases hdc : d = c
      · subst d
        simp only [if_true, Run.owner_setCode, Run.code_setCode] at h ⊢
        rcases hd.exiting_next hw with e | ⟨e, -⟩ | ⟨p, hp, hne, -⟩
        · simp [e] at h
        · exact hx.cpu c (e ▸ h)
        · exact ⟨p, hp, hne⟩
      · simp only [hdc, if_false] at h ⊢; exact hx.cpu d h
    · rw [hI] at hp
      rcases hkept p with e | e <;> rw [e] at hk
      · exact hx.saved p k hp hk
      · cases hk; rfl
  · have hemb : (s.mem.procs i).state = .embryo := by
      rw [hk] at hst; exact (hst _ rfl).1
    refine ⟨fun d h => ?_, fun p k hp hk' => ?_⟩ <;> simp only [Sys.goto_mem, Sys.goto_run] at *
    · rw [hI]
      by_cases hdc : d = c
      · subst d; simp [Code.exiting] at h
      · simp only [hdc, if_false] at h ⊢
        obtain ⟨p, hp, -⟩ := hx.cpu d h
        exact ⟨p, hp, fun e => hstate hp (Option.some.inj e ▸ hemb)⟩
    · rw [hI, Option.some.injEq] at hp
      subst hp
      rw [hctx] at hk'; cases hk'; rfl

include hx in
/-- **`InitInv` is kept by every effect.** -/
theorem apply (hl : LockInv s) (hi : StackInv s) (hb : BuildInv s) {e : Effect n} {s' : Sys n m}
    (hd : s.mem.Does (s.cpus c).run.owner (s.cpus c).run.code e) (h : s.apply c e = some s') :
    InitInv s' := by
  cases e with
  | next k' mem' => cases h; exact hx.next hl hi hb hd
  | acquire l k' =>
    simp only [Sys.apply, Sys.acquire] at h
    split at h
    · cases h; exact hx.halt
    · split at h <;> cases h
      exact hx.setCode (fun d => by rw [Sys.setCpu_cpus]; split_ifs <;> rfl) rfl
        fun h => (Kernel.Does.lock_exiting (.inl hd)) ▸ h
  | release l k' =>
    simp only [Sys.apply, Sys.release, Option.some.injEq] at h
    subst h
    split
    · exact hx.halt
    split
    · exact hx.halt
    · exact hx.setCode (fun d => by rw [Sys.setCpu_cpus]; split_ifs <;> rfl) rfl
        fun h => (Kernel.Does.lock_exiting (.inr hd)) ▸ h
  | sched p ret =>
    simp only [Sys.apply, Sys.sched, Option.some.injEq] at h
    subst h
    split
    · exact hx.halt
    split
    · exact hx.halt
    split
    · exact hx.halt
    split
    · exact hx.halt
    · exact hx.sched hd.sched_facts.1 hd.sched_exiting
  | dispatch j =>
    simp only [Sys.apply, Sys.dispatch, Option.some.injEq] at h
    subst h
    split
    · exact hx.halt
    split
    · exact hx.halt
    split
    · exact hx.halt
    · exact hx.dispatch ‹_›
  | resume k' =>
    simp only [Sys.apply, Option.some.injEq] at h
    subst h
    exact hx.setCode (fun d => by rw [Sys.setCpu_cpus]; split_ifs <;> rfl) rfl
      fun h => hd.resume_exiting ▸ h
  | halt why =>
    simp only [Sys.apply, Option.some.injEq] at h
    subst h
    exact hx.halt

end InitInv

/-! ## The parent layer -/

/-- **The parent layer**, on the process table and `initproc`. -/
structure Kernel.ParentInv (s : Kernel n) : Prop where
  /-- A started process other than `initproc` has a parent. -/
  has_parent : ∀ i, (s.procs i).state.started → s.initproc ≠ some i → (s.procs i).parent ≠ none
  /-- A parent link leads to a live process. -/
  parent_live : ∀ i j, (s.procs i).parent = some j → (s.procs j).state.live
  /-- Once a process has started, `initproc` is live. -/
  init_live : ∀ i, (s.procs i).state.started → ∃ j, s.initproc = some j ∧ (s.procs j).state.live
  /-- No process is its own parent. -/
  no_self : ∀ i, (s.procs i).parent ≠ some i
  /-- `initproc` has no parent. -/
  init_orphan : ∀ x, s.initproc = some x → (s.procs x).parent = none

namespace Kernel.ParentInv

variable {s s' : Kernel n}

theorem init : (Sys.init : Sys n m).mem.ParentInv where
  has_parent i h := by simp [Sys.init, Proc.empty, ProcState.started] at h
  parent_live i j h := by simp [Sys.init, Proc.empty] at h
  init_live i h := by simp [Sys.init, Proc.empty, ProcState.started] at h
  no_self i := by simp [Sys.init, Proc.empty]
  init_orphan x h := by simp [Sys.init] at h

/-- A table whose links, live processes and started processes are as they were. -/
theorem of_same (h : s.ParentInv) (hI : s'.initproc = s.initproc)
    (hq : ∀ i, (s'.procs i).parent = (s.procs i).parent ∧
      (s'.procs i).state.live = (s.procs i).state.live ∧
      (s'.procs i).state.started = (s.procs i).state.started) : s'.ParentInv where
  has_parent i hs hi := by
    rw [(hq i).1]; exact h.has_parent i ((hq i).2.2 ▸ hs) (hI ▸ hi)
  parent_live i j hp := by
    rw [(hq j).2.1]; exact h.parent_live i j ((hq i).1 ▸ hp)
  init_live i hs := by
    obtain ⟨j, hj, hl⟩ := h.init_live i ((hq i).2.2 ▸ hs)
    exact ⟨j, hI ▸ hj, (hq j).2.1 ▸ hl⟩
  no_self i := by rw [(hq i).1]; exact h.no_self i
  init_orphan x hx := by rw [(hq x).1]; exact h.init_orphan x (hI ▸ hx)

/-- Processes only woken, with links as they were. -/
theorem of_woken (h : s.ParentInv) (hI : s'.initproc = s.initproc)
    (hw : ∀ i, (s'.procs i).Woken (s.procs i))
    (hp : ∀ i, (s'.procs i).parent = (s.procs i).parent) : s'.ParentInv :=
  h.of_same hI fun i => ⟨hp i, (hw i).live_eq, (hw i).started_eq⟩

/-- Slot `i` changes and nothing else does: it keeps a parent if it has started, its link
leads to a live process other than itself (none if it is `initproc`), it stays live if it
was, and `initproc` is live once it starts. -/
theorem update (h : s.ParentInv) {i : Fin n} (hrest : ∀ j, j ≠ i → s'.procs j = s.procs j)
    (hI : s'.initproc = s.initproc)
    (hown : (s'.procs i).state.started → s.initproc ≠ some i → (s'.procs i).parent ≠ none)
    (hto : ∀ j, (s'.procs i).parent = some j → (s'.procs j).state.live)
    (hfrom : (s.procs i).state.live → (s'.procs i).state.live)
    (hstart : (s'.procs i).state.started → ∃ j, s.initproc = some j ∧ (s'.procs j).state.live)
    (hself : (s'.procs i).parent ≠ some i)
    (horphan : s.initproc = some i → (s'.procs i).parent = none) :
    s'.ParentInv := by
  have keep (x) (hx : (s.procs x).state.live) : (s'.procs x).state.live := by
    by_cases hxi : x = i
    · subst hxi; exact hfrom hx
    · rw [hrest x hxi]; exact hx
  refine ⟨fun j hs hj => ?_, fun j j' hp => ?_, fun j hs => ?_, fun j => ?_, fun j hj => ?_⟩ <;>
    by_cases hji : j = i
  · subst hji; exact hown hs (hI ▸ hj)
  · rw [hrest j hji] at hs ⊢; exact h.has_parent j hs (hI ▸ hj)
  · subst hji; exact hto j' hp
  · rw [hrest j hji] at hp; exact keep j' (h.parent_live j j' hp)
  · subst hji; obtain ⟨x, hx, hl⟩ := hstart hs; exact ⟨x, hI ▸ hx, hl⟩
  · rw [hrest j hji] at hs
    obtain ⟨x, hx, hl⟩ := h.init_live j hs
    exact ⟨x, hI ▸ hx, keep x hl⟩
  · subst hji; exact hself
  · rw [hrest j hji]; exact h.no_self j
  · subst hji; exact horphan (hI ▸ hj)
  · rw [hrest j hji]; exact h.init_orphan j (hI ▸ hj)

/-- Slot `i` changes in neither its link nor whether it is live or started. -/
theorem setProc (h : s.ParentInv) {i : Fin n} {f : Proc n → Proc n}
    (hf : (f (s.procs i)).parent = (s.procs i).parent ∧
      (f (s.procs i)).state.live = (s.procs i).state.live ∧
      (f (s.procs i)).state.started = (s.procs i).state.started) : (s.setProc i f).ParentInv :=
  h.of_same rfl fun j => by
    by_cases hji : j = i
    · subst hji; simpa using hf
    · rw [Kernel.setProc_ne _ _ hji]; exact ⟨rfl, rfl, rfl⟩

/-- `exit` for process `p`, which is started, not `initproc`, and the only process it makes a
ZOMBIE. -/
theorem exitWake (h : s.ParentInv) {p : Fin n} (hp : (s.procs p).state.started)
    (hne : s.initproc ≠ some p) : (s.exitWake p).ParentInv := by
  obtain ⟨x, hx, hxl⟩ := h.init_live p hp
  have hw {j} (hj : j ≠ p) := Kernel.exitWake_woken s hj
  have hxl' : ((s.exitWake p).procs x).state.live :=
    (hw fun e => hne (e ▸ hx)).live_eq ▸ hxl
  refine ⟨fun j hs hj => ?_, fun j j' hj => ?_, fun j _ => ⟨x, hx, hxl'⟩, fun j => ?_,
    fun x' hx' => ?_⟩
  · rw [Kernel.exitWake_parent]
    split
    · rw [hx]; simp
    · by_cases hjp : j = p
      · subst hjp; exact h.has_parent j hp hne
      · exact h.has_parent j ((hw hjp).started_eq ▸ hs) hj
  · rw [Kernel.exitWake_parent] at hj
    split at hj
    · rw [hx, Option.some.injEq] at hj; subst hj; exact hxl'
    · have hjp : j' ≠ p := fun e => by subst e; contradiction
      exact (hw hjp).live_eq ▸ h.parent_live j j' hj
  · rw [Kernel.exitWake_parent]
    split
    · rename_i hjp
      rw [hx]
      rintro ⟨⟩
      simp [h.init_orphan _ hx] at hjp
    · exact h.no_self j
  · rw [Kernel.exitWake_parent, h.init_orphan x' hx']
    rfl

/-- **The parent layer over a statement that goes on**, by what the statement does. -/
theorem next {s : Sys n m} (h : s.mem.ParentInv) (hi : StackInv s) (hb : BuildInv s)
    (hx : InitInv s) {c : Fin m} {k' : Code n} {mem' : Kernel n}
    (hd : s.mem.Does (s.cpus c).run.owner (s.cpus c).run.code (.next k' mem')) :
    mem'.ParentInv := by
  have hst := hb.staged (.cpu c) _ _ rfl
  have hrs {p} (h : (s.cpus c).run.owner = some p) := hi.runs_self h
  have hreap {i} (h : (s.cpus c).run.code.reapOf = some i) := hi.reaping c i h
  have hex := hx.cpu c
  have not_init {p i} (hp : (s.mem.procs p).state = .running) (hi : (s.mem.procs i).state = .embryo)
      (hI : s.mem.initproc = some i) : False := by
    obtain ⟨x, hx, hxl⟩ := h.init_live p (by rw [hp]; rfl)
    rw [hI, Option.some.injEq] at hx
    subst hx; rw [hi] at hxl; cases hxl
  generalize hk : (s.cpus c).run.code = k at hd hst hrs hreap hex
  generalize ho : (s.cpus c).run.owner = me at hd hst hrs hex
  cases hd with
  | plain _ _ _ _ hp hI _ => exact h.of_same hI fun i => by rw [hp]; exact ⟨rfl, rfl, rfl⟩
  | waitReap | waitSleep | exitStart => exact h
  | forkretFirst => exact h.of_same rfl fun i => ⟨rfl, rfl, rfl⟩
  | forkKstack | initVm | forkNoVm | forkVm | waitKstack | unsleep | fault =>
    exact h.setProc ⟨rfl, rfl, rfl⟩
  | kill pid i =>
    exact h.setProc ⟨rfl, (Proc.woken_killSlot _).live_eq, (Proc.woken_killSlot _).started_eq⟩
  | sleep p _ _ hme | yield p _ _ hme =>
    have hpr := (hrs hme).1
    exact h.setProc ⟨rfl, by simp [hpr, Code.stackState]; rfl, by simp [hpr, Code.stackState]; rfl⟩
  | wakeup => exact h.of_woken rfl (fun i => Proc.woken_wakeSlot _ _) fun i => wakeSlot_parent _ _
  | exitWake p _ hme =>
    obtain ⟨p', hp', hne⟩ := hex rfl
    rw [hme, Option.some.injEq] at hp'
    subst hp'
    exact h.exitWake (by rw [(hrs hme).1]; exact Code.stackState_started _) hne
  | claim site i _ hu =>
    refine h.update (i := i) (fun j hj => by simp [Kernel.setProc_ne _ _ hj]) rfl
      (fun hs => by simp [ProcState.started] at hs) (fun j hj => by simp [hb.unused_parent i hu] at hj)
      (fun hl => by simp [hu, ProcState.live] at hl) (fun hs => by simp [ProcState.started] at hs)
      (by simp [hb.unused_parent i hu]) fun _ => by simp [hb.unused_parent i hu]
  | unclaim i _ | forkUndo i _ =>
    have he : (s.mem.procs i).state = .embryo := by
      first | exact (hst _ rfl).1 | exact (hst _ rfl).1.1
    have hpar : (s.mem.procs i).parent = none := by
      first | exact (hst _ rfl).2.1 | exact (hst _ rfl).2
    refine h.update (i := i) (fun j hj => Kernel.setProc_ne _ _ hj) rfl
      (fun hs => by simp [ProcState.started] at hs) (fun j hj => by simp [hpar] at hj)
      (fun hl => by simp [he, ProcState.live] at hl) (fun hs => by simp [ProcState.started] at hs)
      (by simp [hpar]) fun _ => by simp [hpar]
  | waitFreevm i _ =>
    have hz := hreap rfl
    refine h.update (i := i) (fun j hj => Kernel.setProc_ne _ _ hj) rfl
      (fun hs => by simp [ProcState.started] at hs) (fun j hj => by simp at hj)
      (fun hl => by simp [hz, ProcState.live] at hl) (fun hs => by simp [ProcState.started] at hs)
      (by simp) fun _ => by simp
  | initKstack i a _ _ =>
    have hnone : s.mem.initproc = none := (hst _ rfl).2.2 rfl
    have h' := h.setProc (i := i) (f := fun q => { q with kstack := a, context := some .forkret })
      ⟨rfl, rfl, rfl⟩
    have hns (j) (hs : ((s.mem.setProc i fun q => { q with kstack := a, context := some .forkret }).procs j).state.started) :
        False := by
      obtain ⟨x, hx, -⟩ := h'.init_live j hs
      rw [show (s.mem.setProc i _).initproc = s.mem.initproc from rfl, hnone] at hx
      cases hx
    exact ⟨fun j hs _ => (hns j hs).elim, h'.parent_live, fun j hs => (hns j hs).elim, h'.no_self,
      fun x hx => by cases hx; simpa using (hst _ rfl).2.1⟩
  | initRun i _ =>
    obtain ⟨⟨he, -, -⟩, hpar, -, hI⟩ := hst _ rfl
    refine h.update (i := i) (fun j hj => Kernel.setProc_ne _ _ hj) rfl
      (fun _ hne => absurd hI hne) (fun j hj => by simp [hpar] at hj)
      (fun hl => by simp [he, ProcState.live] at hl) (fun _ => ⟨i, hI, by simp; rfl⟩)
      (by simp [hpar]) fun _ => by simp [hpar]
  | forkSet p i _ hme =>
    obtain ⟨⟨he, -, -⟩, -, -⟩ := hst _ rfl
    have hpr : (s.mem.procs p).state = .running := (hrs hme).1
    have hpi : p ≠ i := fun e => by rw [e, he] at hpr; cases hpr
    refine h.update (i := i) (fun j hj => Kernel.setProc_ne _ _ hj) rfl
      (fun hs => by simp [he, ProcState.started] at hs) (fun j hj => ?_)
      (fun hl => by simp [he, ProcState.live] at hl) (fun hs => by simp [he, ProcState.started] at hs)
      (by simpa using hpi) fun hI => (not_init hpr he hI).elim
    simp only [Kernel.setProc_self, Option.some.injEq] at hj
    subst hj
    rw [Kernel.setProc_ne _ _ hpi, hpr]; rfl
  | forkRun i _ =>
    obtain ⟨⟨he, -, -⟩, hpar, hsome, -⟩ := hst _ rfl
    obtain ⟨p, rfl⟩ := Option.isSome_iff_exists.mp hsome
    have hpr : (s.mem.procs p).state = .running := (hrs rfl).1
    have hpi : p ≠ i := fun e => by rw [e, he] at hpr; cases hpr
    refine h.update (i := i) (fun j hj => Kernel.setProc_ne _ _ hj) rfl
      (fun _ _ => by simp [hpar]) (fun j hj => ?_) (fun hl => by simp [he, ProcState.live] at hl)
      (fun _ => ?_) (by simpa [hpar] using hpi) fun hI => (not_init hpr he hI).elim
    · simp only [Kernel.setProc_self, hpar, Option.some.injEq] at hj
      subst hj
      rw [Kernel.setProc_ne _ _ hpi, hpr]; rfl
    · obtain ⟨x, hx, hxl⟩ := h.init_live p (by rw [hpr]; rfl)
      have hxi : x ≠ i := fun e => by rw [e, he] at hxl; cases hxl
      exact ⟨x, hx, by rw [Kernel.setProc_ne _ _ hxi]; exact hxl⟩

/-- **The parent layer is kept by every effect.** -/
theorem apply {s s' : Sys n m} (h : s.mem.ParentInv) (hi : StackInv s) (hb : BuildInv s)
    (hx : InitInv s) {c : Fin m} {e : Effect n}
    (hd : s.mem.Does (s.cpus c).run.owner (s.cpus c).run.code e) (ha : s.apply c e = some s') :
    s'.mem.ParentInv := by
  cases e with
  | next k' mem' => cases ha; exact h.next hi hb hx hd
  | _ =>
    rcases Sys.apply_mem hd ha (fun _ _ => nofun) with e | ⟨p, ret, -, e⟩ | ⟨j, -, hj, e⟩ <;> rw [e]
    · exact h
    · exact h.setProc ⟨rfl, rfl, rfl⟩
    · exact h.setProc ⟨rfl, by simp [hj]; rfl, by simp [hj]; rfl⟩

end Kernel.ParentInv

/-! ## Every reachable state -/

/-- The layers of the kernel stacks, `initproc`'s exit check and the parent links together. -/
structure TableInv (s : Sys n m) : Prop where
  switch : SwitchInv s
  exits : InitInv s
  parents : s.mem.ParentInv

theorem TableInv.of_reachable {s : Sys n m} (h : Reachable s) : TableInv s := by
  induction h with
  | init => exact ⟨SwitchInv.of_reachable .init, InitInv.init, Kernel.ParentInv.init⟩
  | step hr hs ih =>
    obtain ⟨-, e, he, ha⟩ := Sys.step_eq_some _ _ hs
    have hd := Sys.does_of_effect he
    obtain ⟨⟨hl, hi, hb⟩, hx, hp⟩ := ih
    exact ⟨SwitchInv.of_reachable (.step hr hs), hx.apply hl hi hb hd ha,
      hp.apply hi hb hx hd ha⟩

/-- The parent links of state `s`: an UNUSED slot has no parent; a started process other than
`initproc` has one; a link leads to a RUNNABLE, RUNNING or SLEEPING process, never to an
UNUSED, EMBRYO or ZOMBIE slot; and so every ZOMBIE has a live parent to reap it. -/
def ParentLinks (s : Sys n m) : Prop :=
  (∀ i, (s.mem.procs i).state = .unused → (s.mem.procs i).parent = none) ∧
  (∀ i, (s.mem.procs i).state.started → s.mem.initproc ≠ some i →
      (s.mem.procs i).parent ≠ none) ∧
  (∀ i j, (s.mem.procs i).parent = some j → (s.mem.procs j).state.live) ∧
  (∀ i, (s.mem.procs i).state = .zombie →
      ∃ j, (s.mem.procs i).parent = some j ∧ (s.mem.procs j).state.live)

/-- **Parent links**, for any number of CPUs and processes and every interleaving. -/
theorem parent_links {s : Sys n m} (h : Reachable s) : ParentLinks s := by
  obtain ⟨⟨-, -, hb⟩, -, hp⟩ := TableInv.of_reachable h
  refine ⟨hb.unused_parent, hp.has_parent, hp.parent_live, fun i hz => ?_⟩
  have hs : (s.mem.procs i).state.started := by rw [hz]; rfl
  obtain ⟨x, hx, hxl⟩ := hp.init_live i hs
  have hne : s.mem.initproc ≠ some i := fun e => by
    rw [hx, Option.some.injEq] at e
    subst e; rw [hz] at hxl; cases hxl
  obtain ⟨j, hj⟩ := Option.ne_none_iff_exists'.mp (hp.has_parent i hs hne)
  exact ⟨j, hj, hp.parent_live i j hj⟩

/-- Init sleeps in `wait` while its child, whose parent it is, runs. -/
theorem parent_links_waitSleep : ∃ s : Sys 2 1,
    Sys.init.run (Trace.solo (Trace.boot ++ Trace.fork ++ Trace.waitSleep)) = some s ∧
      (s.mem.procs 1).parent = some 0 ∧ (s.mem.procs 1).state = .running ∧
      (s.mem.procs 0).state = .sleeping ∧ ParentLinks s := by
  obtain ⟨s, hr, h⟩ := Sys.exists_run
    (Trace.solo (Trace.boot ++ Trace.fork ++ Trace.waitSleep))
    (fun s : Sys 2 1 => decide ((s.mem.procs 1).parent = some 0 ∧
      (s.mem.procs 1).state = .running ∧ (s.mem.procs 0).state = .sleeping)) (by decide)
  have h := of_decide_eq_true h
  exact ⟨s, hr, h.1, h.2.1, h.2.2, parent_links (Reachable.init.run hr)⟩

end Xv6
