import Xv6.Parents

/-!
# The lifecycle of a slot

Which state changes the steps of `proc.c` make to a slot of `ptable`, and who makes them
(`Legal`): `allocproc` takes an UNUSED slot to EMBRYO, and `userinit` and `fork` make it
RUNNABLE or give it back; only a scheduler makes a process RUNNING; only the process itself
leaves RUNNING; only `wakeup1` and `kill` wake a SLEEPING process; only its parent's `wait`
frees a ZOMBIE.

Along the way (`LifeInv`) a RUNNABLE, RUNNING or SLEEPING slot has its kernel stack and page
directory, and a ZOMBIE keeps them until its parent's `wait` frees them. `wait` clears
`p->kstack` under `ptable.lock` before it marks the slot UNUSED, so for a moment a ZOMBIE has
no kernel stack (`zombie_without_kstack`). No CPU reaches `exit`'s `panic("zombie exit")`,
and the scheduler never fails `switchuvm`'s checks.
-/

namespace Xv6

variable {n m : Nat}

/-! ## The transitions -/

/-- Statements that make a SLEEPING process RUNNABLE: the loop of `wakeup1` (in `wakeup` and
in `exit`) and `kill`. -/
def Code.wakes : Code n → Bool
  | .wakeup1 _ _ | .killScan _ | .exitWake => true
  | _ => false

/-- The state changes a step of CPU `c` from `s` may make to slot `i`, and who may make each. -/
def Legal (s : Sys n m) (c : Fin m) (i : Fin n) : ProcState → ProcState → Prop
  | .unused, .embryo | .embryo, .runnable | .embryo, .unused => True
  | .runnable, .running => ∃ j, (s.cpus c).run = .sched (.schedScan j)
  | .running, .runnable | .running, .sleeping | .running, .zombie => (s.cpus c).proc = some i
  | .sleeping, .runnable => (s.cpus c).run.code.wakes
  | .zombie, .unused => ∃ p, (s.cpus c).proc = some p ∧ (s.mem.procs i).parent = some p ∧
      (s.cpus c).run.code = .waitFreevm i
  | a, b => a = b

namespace Legal

variable {s : Sys n m} {c : Fin m} {i : Fin n}

theorem refl (a : ProcState) : Legal s c i a a := by
  cases a <;> exact rfl

theorem of_woken {q q' : Proc n} (hw : q'.Woken q) (hc : (s.cpus c).run.code.wakes) :
    Legal s c i q.state q'.state := by
  rcases hw.2.2 with e | ⟨e₁, e₂⟩
  · rw [e]; exact refl _
  · rw [e₁, e₂]; exact hc

/-- A step that changes slot `i` alone, as `f` does. -/
theorem setProc {f : Proc n → Proc n} (h : Legal s c i (s.mem.procs i).state (f (s.mem.procs i)).state)
    (j : Fin n) : Legal s c j (s.mem.procs j).state ((s.mem.setProc i f).procs j).state := by
  by_cases hji : j = i
  · subst hji; rw [Kernel.setProc_self]; exact h
  · rw [Kernel.setProc_ne _ _ hji]; exact refl _

end Legal

theorem StackInv.proc_of_owner {s : Sys n m} (hi : StackInv s) {c : Fin m} {p : Fin n}
    (h : (s.cpus c).run.owner = some p) : (s.cpus c).proc = some p := by
  rw [hi.proc_eq]
  cases hr : (s.cpus c).run <;> simp_all [Run.owner]

theorem Kernel.exitWake_kstack (s : Kernel n) (p i : Fin n) :
    ((s.exitWake p).procs i).kstack = (s.procs i).kstack := by
  simp only [exitWake, Function.update_apply]
  split <;> simp_all

theorem Kernel.exitWake_pgdir (s : Kernel n) (p i : Fin n) :
    ((s.exitWake p).procs i).pgdir = (s.procs i).pgdir := by
  simp only [exitWake, Function.update_apply]
  split <;> simp_all

/-! ## Kernel stacks and page directories -/

/-- Slot `q` as its state needs it: a RUNNABLE, RUNNING or SLEEPING slot has a kernel stack
and a page directory; a ZOMBIE has its page directory and, unless `reaped`, its kernel
stack. -/
def Proc.Ready (q : Proc n) (reaped : Prop) : Prop :=
  (q.state.live → q.kstack ≠ 0 ∧ q.pgdir ≠ 0) ∧
    (q.state = .zombie → q.pgdir ≠ 0 ∧ (q.kstack ≠ 0 ∨ reaped))

namespace Proc.Ready

variable {q q' : Proc n} {R R' : Prop}

theorem mono (h : q.Ready R) (hR : R → R') : q.Ready R' :=
  ⟨h.1, fun hz => ⟨(h.2 hz).1, (h.2 hz).2.imp_right hR⟩⟩

theorem of_unused (h : q.state = .unused ∨ q.state = .embryo) : q.Ready R := by
  rcases h with h | h <;> exact ⟨fun hl => by simp [h, ProcState.live] at hl, fun hz => by simp [h] at hz⟩

/-- A slot keeps what it has, and its state stays or goes from SLEEPING to RUNNABLE. -/
theorem of_state (h : q.Ready R)
    (hs : q'.state = q.state ∨ q.state = .sleeping ∧ q'.state = .runnable)
    (hk : q'.kstack = q.kstack) (hp : q'.pgdir = q.pgdir) : q'.Ready R := by
  rw [Ready, hk, hp]
  rcases hs with e | ⟨e₁, e₂⟩
  · rw [e]; exact h
  · exact ⟨fun _ => h.1 (by simp [e₁, ProcState.live]), fun hz => by simp [e₂] at hz⟩

theorem of_woken (h : q.Ready R) (hw : q'.Woken q) (hk : q'.kstack = q.kstack)
    (hp : q'.pgdir = q.pgdir) : q'.Ready R :=
  h.of_state hw.2.2 hk hp

/-- A slot whose state, kernel stack and page directory stay. -/
theorem of_same (h : q.Ready R) (hs : q'.state = q.state) (hk : q'.kstack = q.kstack)
    (hp : q'.pgdir = q.pgdir) : q'.Ready R :=
  h.of_state (.inl hs) hk hp

/-- A live slot that stays live, with its kernel stack and page directory. -/
theorem of_live_of (h : q.Ready R) (hq : q.state.live) (hq' : q'.state.live)
    (hk : q'.kstack = q.kstack) (hp : q'.pgdir = q.pgdir) : q'.Ready R' :=
  ⟨fun _ => hk ▸ hp ▸ h.1 hq, fun hz => by simp [hz, ProcState.live] at hq'⟩

/-- A live slot with a kernel stack and a page directory. -/
theorem of_live (h : q.state.live) (hk : q.kstack ≠ 0) (hp : q.pgdir ≠ 0) : q.Ready R :=
  ⟨fun _ => ⟨hk, hp⟩, fun hz => by simp [hz, ProcState.live] at h⟩

end Proc.Ready

theorem Kernel.ready_setProc {s : Kernel n} {R : Fin n → Prop}
    (h : ∀ j, (s.procs j).Ready (R j)) {i : Fin n} {f : Proc n → Proc n} (hi : (f (s.procs i)).Ready (R i))
    (j : Fin n) : ((s.setProc i f).procs j).Ready (R j) := by
  by_cases hji : j = i
  · subst hji; rw [Kernel.setProc_self]; exact hi
  · rw [Kernel.setProc_ne _ _ hji]; exact h j

theorem Code.reapOf_of_resumable {k : Code n} (h : k.resumable) : k.reapOf = none := by
  cases k <;> first | rfl | cases h

namespace Kernel.Does

variable {s : Kernel n} {me : Option (Fin n)} {k k' : Code n}

theorem lock_atZombieExit {l : Lock}
    (h : s.Does me k (.acquire l k') ∨ s.Does me k (.release l k')) :
    k'.atZombieExit = k.atZombieExit := by
  rcases h with h | h <;> cases h <;> rfl

/-- `sched()` is called where no slot is being reaped, and saves a context the scheduler
resumes only if the caller goes on there. -/
theorem sched_code {p : Fin n} {ret : Code n} (h : s.Does me k (.sched p ret)) :
    k.reapOf = none ∧ (ret.resumable → ret.atZombieExit = k.atZombieExit) := by
  cases h <;> exact ⟨rfl, fun h => by first | rfl | cases h⟩

end Kernel.Does

/-! ## The lifecycle layer -/

/-- **The lifecycle layer.** -/
structure LifeInv (s : Sys n m) : Prop where
  /-- The CPU reaping slot `i` runs for `i`'s parent. -/
  reaper : ∀ c i, (s.cpus c).run.code.reapOf = some i →
    ∃ p, (s.cpus c).run.owner = some p ∧ (s.mem.procs i).parent = some p
  /-- Every slot is as its state needs it; a ZOMBIE lacks its kernel stack only while a CPU
  reaps it. -/
  ready : ∀ i, (s.mem.procs i).Ready (∃ c, (s.cpus c).run.code.reapOf = some i)
  /-- No CPU is at `exit`'s `panic("zombie exit")`. -/
  no_zombie_exit : ∀ c, (s.cpus c).run.code.atZombieExit = false
  /-- Nor is any context the scheduler resumes. -/
  saved : ∀ p k, (s.mem.procs p).context = some k → k.resumable → k.atZombieExit = false
  /-- No CPU has stopped at `panic("zombie exit")` or at `switchuvm`'s checks. -/
  halt_ok : ∀ c, (s.cpus c).halt ≠ some .zombieExit ∧ (s.cpus c).halt ≠ some .switchuvmKstack ∧
    (s.cpus c).halt ≠ some .switchuvmPgdir

namespace LifeInv

variable {s : Sys n m} (hs : LifeInv s) {c : Fin m}

theorem init : LifeInv (Sys.init : Sys n m) where
  reaper c i h := by
    simp only [Sys.init] at h; split at h <;> simp [Run.code, Code.reapOf, Code.schedLoop] at h
  ready i := .of_unused (.inl rfl)
  no_zombie_exit c := by simp only [Sys.init]; split <;> rfl
  saved p k h := by simp [Sys.init, Proc.empty] at h
  halt_ok c := by simp [Sys.init]

include hs in
/-- **A step of CPU `c`** that leaves the other CPUs' code alone and keeps the parents of
the slots they reap. -/
theorem of_step {s' : Sys n m}
    (hrun : ∀ d, d ≠ c → (s'.cpus d).run = (s.cpus d).run)
    (hhalt : ∀ d, d ≠ c → (s'.cpus d).halt = (s.cpus d).halt)
    (hreaper : ∀ i, (s'.cpus c).run.code.reapOf = some i →
      ∃ p, (s'.cpus c).run.owner = some p ∧ (s'.mem.procs i).parent = some p)
    (hpar : ∀ d i, d ≠ c → (s.cpus d).run.code.reapOf = some i →
      (s'.mem.procs i).parent = (s.mem.procs i).parent)
    (hready : ∀ i, (s'.mem.procs i).Ready
      ((∃ d, d ≠ c ∧ (s.cpus d).run.code.reapOf = some i) ∨ (s'.cpus c).run.code.reapOf = some i))
    (hexit : (s'.cpus c).run.code.atZombieExit = false)
    (hsaved : ∀ p k, (s'.mem.procs p).context = some k → k.resumable → k.atZombieExit = false)
    (hhc : (s'.cpus c).halt ≠ some .zombieExit ∧ (s'.cpus c).halt ≠ some .switchuvmKstack ∧
      (s'.cpus c).halt ≠ some .switchuvmPgdir) :
    LifeInv s' where
  reaper d i h := by
    by_cases hdc : d = c
    · subst hdc; exact hreaper i h
    · rw [hrun d hdc] at h ⊢
      obtain ⟨p, ho, hp⟩ := hs.reaper d i h
      exact ⟨p, ho, by rw [hpar d i hdc h]; exact hp⟩
  ready i := (hready i).mono fun
    | .inl ⟨d, hdc, h⟩ => ⟨d, by rw [hrun d hdc]; exact h⟩
    | .inr h => ⟨c, h⟩
  no_zombie_exit d := by
    by_cases hdc : d = c
    · subst hdc; exact hexit
    · rw [hrun d hdc]; exact hs.no_zombie_exit d
  saved := hsaved
  halt_ok d := by
    by_cases hdc : d = c
    · subst hdc; exact hhc
    · rw [hhalt d hdc]; exact hs.halt_ok d

/-- The slots CPU `c` reaps stay reaped when its code goes from `k` to `k'`. -/
theorem reaped_of_code {k k' : Code n} (hk : (s.cpus c).run.code = k) (h : k'.reapOf = k.reapOf)
    {i : Fin n} (hr : ∃ d, (s.cpus d).run.code.reapOf = some i) :
    (∃ d, d ≠ c ∧ (s.cpus d).run.code.reapOf = some i) ∨ k'.reapOf = some i := by
  obtain ⟨d, hd⟩ := hr
  by_cases hdc : d = c
  · subst hdc; exact .inr (by rw [h, ← hk, hd])
  · exact .inl ⟨d, hdc, hd⟩

include hs in
/-- **A statement of CPU `c` that reaps what it reaped**, and keeps the parents of the slots
any CPU reaps. -/
theorem goto_keep {k' : Code n} {mem' : Kernel n}
    (hcode : k'.reapOf = (s.cpus c).run.code.reapOf)
    (hpar : ∀ i, (∃ d, (s.cpus d).run.code.reapOf = some i) →
      (mem'.procs i).parent = (s.mem.procs i).parent)
    (hready : ∀ i, (mem'.procs i).Ready (∃ d, (s.cpus d).run.code.reapOf = some i))
    (hexit : k'.atZombieExit = false)
    (hctx : ∀ i, (mem'.procs i).context = (s.mem.procs i).context ∨
      (mem'.procs i).context = some .forkret) :
    LifeInv ({ s with mem := mem' }.goto c k') := by
  have gc : (({ s with mem := mem' }.goto c k').cpus c).run = (s.cpus c).run.setCode k' := by
    rw [Sys.goto_run, if_pos rfl]
  refine hs.of_step (fun d hd => by rw [Sys.goto_run, if_neg hd])
    (fun d _ => by simp) (fun i h => ?_) (fun d i _ h => hpar i ⟨d, h⟩)
    (fun i => (hready i).mono (reaped_of_code rfl (by rw [gc, Run.code_setCode, hcode])))
    (by rw [gc, Run.code_setCode]; exact hexit) (fun p k h hr => ?_)
    (by rw [Sys.goto_halt]; exact hs.halt_ok c)
  · rw [gc, Run.code_setCode, hcode] at h
    obtain ⟨p, ho, hp⟩ := hs.reaper c i h
    exact ⟨p, by rw [gc, Run.owner_setCode, ho], by rw [← hp]; exact hpar i ⟨c, h⟩⟩
  · change (mem'.procs p).context = some k at h
    rcases hctx p with e | e
    · exact hs.saved p k (e ▸ h) hr
    · rw [e] at h; cases h; rfl

/-- The slots other CPUs reap, when CPU `c` reaps none. -/
theorem reaped_of_none (hk : (s.cpus c).run.code.reapOf = none) {i : Fin n}
    (hr : ∃ d, (s.cpus d).run.code.reapOf = some i) :
    ∃ d, d ≠ c ∧ (s.cpus d).run.code.reapOf = some i := by
  obtain ⟨d, hd⟩ := hr
  exact ⟨d, fun e => by (subst e; rw [hk] at hd; cases hd), hd⟩

include hs in
/-- A statement of CPU `c` that changes slot `i` alone. -/
theorem goto_update {k' : Code n} {mem' : Kernel n} {i : Fin n}
    (hrest : ∀ j, j ≠ i → mem'.procs j = s.mem.procs j)
    (hcode : k'.reapOf = (s.cpus c).run.code.reapOf) (hexit : k'.atZombieExit = false)
    (hpar : (∃ d, (s.cpus d).run.code.reapOf = some i) →
      (mem'.procs i).parent = (s.mem.procs i).parent)
    (hready : (mem'.procs i).Ready (∃ d, (s.cpus d).run.code.reapOf = some i))
    (hctx : (mem'.procs i).context = (s.mem.procs i).context ∨
      (mem'.procs i).context = some .forkret) :
    LifeInv ({ s with mem := mem' }.goto c k') := by
  refine hs.goto_keep hcode (fun j hj => ?_) (fun j => ?_) hexit (fun j => ?_) <;>
    by_cases hji : j = i
  · subst hji; exact hpar hj
  · rw [hrest j hji]
  · subst hji; exact hready
  · rw [hrest j hji]; exact hs.ready j
  · subst hji; exact hctx
  · rw [hrest j hji]; exact .inl rfl

include hs in
theorem halt {why : Panic} (hwhy : why ≠ .zombieExit ∧ why ≠ .switchuvmKstack ∧
    why ≠ .switchuvmPgdir) : LifeInv (s.halt c why) :=
  hs.of_step (c := c) (by simp) (fun d hd => by simp [Sys.halt, Sys.setCpu_cpus, hd])
    (fun i h => by simpa using hs.reaper c i (by simpa using h))
    (fun _ _ _ _ => rfl) (fun i => (hs.ready i).mono (reaped_of_code rfl (by simp)))
    (by simpa using hs.no_zombie_exit c) hs.saved
    (by simp only [Sys.halt, Sys.setCpu_cpus, if_pos rfl]; simpa using hwhy)

include hs in
/-- **The lifecycle layer over a statement that goes on**, by what the statement does. -/
theorem next (hl : LockInv s) (hi : StackInv s) (hb : BuildInv s) {k' : Code n}
    {mem' : Kernel n}
    (hd : s.mem.Does (s.cpus c).run.owner (s.cpus c).run.code (.next k' mem')) :
    LifeInv ({ s with mem := mem' }.goto c k') := by
  have hst := hb.staged (.cpu c) _ _ rfl
  have hrs {p} (h : (s.cpus c).run.owner = some p) := hi.runs_self h
  have hw := hl.code_wf c
  have hexc := hs.no_zombie_exit c
  have hrp := hs.reaper c
  have hrest {i : Fin n} {f : Proc n → Proc n} (j) (hj : j ≠ i) :
      (s.mem.setProc i f).procs j = s.mem.procs j := Kernel.setProc_ne _ _ hj
  have hzomb {i} (h : ∃ d, (s.cpus d).run.code.reapOf = some i) :
      (s.mem.procs i).state = .zombie := h.elim fun d hd => hi.reaping d i hd
  generalize hk : (s.cpus c).run.code = k at hd hst hrs hw hexc hrp
  cases hd with
  | plain _ _ _ _ hpr _ _ hv =>
    obtain ⟨hv, -⟩ := hv hw
    exact hs.goto_keep (by rw [hk]; exact congrArg Code.View.reapOf hv) (fun i _ => by rw [hpr])
      (fun i => by rw [hpr]; exact hs.ready i)
      (by rw [← hexc]; exact congrArg Code.View.atZombieExit hv) fun i => .inl (by rw [hpr])
  | waitSleep | exitStart | forkretFirst =>
    exact hs.goto_keep (by rw [hk]; rfl) (fun _ _ => rfl) hs.ready rfl fun _ => .inl rfl
  | waitReap p i _ hme hpar =>
    refine hs.of_step (fun d hd => by rw [Sys.goto_run, if_neg hd]) (fun d _ => by simp)
      (fun j h => ?_) (fun _ _ _ _ => rfl)
      (fun j => (hs.ready j).mono fun h => .inl (reaped_of_none (by rw [hk]; rfl) h))
      (by simp [Sys.goto_run]; rfl) hs.saved (by rw [Sys.goto_halt]; exact hs.halt_ok c)
    simp only [Sys.goto_run, if_true, Run.code_setCode, Run.owner_setCode, Code.kmemRound,
      Code.reapOf, Option.some.injEq] at h ⊢
    subst h
    exact ⟨p, hme, hpar⟩
  | claim site i _ hu =>
    exact hs.goto_update (i := i) (fun j hj => by simp [Kernel.setProc_ne _ _ hj]) (by rw [hk]; rfl) rfl (fun _ => by simp) (.of_unused (.inr (by simp)))
      (.inl (by simp))
  | unclaim i _ | forkUndo i _ =>
    exact hs.goto_update (i := i) hrest (by rw [hk]; rfl) rfl (fun _ => by simp) (.of_unused (.inl (by simp)))
      (.inl (by simp))
  | forkKstack i a _ _ | initKstack i a _ _ =>
    have he : (s.mem.procs i).state = .embryo := (hst _ rfl).1
    exact hs.goto_update (i := i) (fun j hj => by simp [Kernel.setProc_ne _ _ hj]) (by rw [hk]; rfl) rfl (fun _ => by simp)
      (.of_unused (.inr (by simp [he]))) (.inr (by simp))
  | initVm i _ _ _ | forkNoVm i _ | forkVm i _ _ _ =>
    have he : (s.mem.procs i).state = .embryo := (hst _ rfl).1.1
    exact hs.goto_update (i := i) hrest (by rw [hk]; rfl) rfl (fun _ => by simp)
      (.of_unused (.inr (by simp [he]))) (.inl (by simp))
  | forkSet p i _ hme =>
    have he : (s.mem.procs i).state = .embryo := (hst _ rfl).1.1
    exact hs.goto_update (i := i) hrest (by rw [hk]; rfl) rfl (fun h => by simp [hzomb h] at he)
      (.of_unused (.inr (by simp [he]))) (.inl (by simp))
  | initRun i _ | forkRun i _ =>
    obtain ⟨⟨-, hks, -⟩, -, hpg⟩ : s.mem.Made i ∧ _ ∧ (s.mem.procs i).pgdir ≠ 0 := by
      first
        | exact ⟨(hst _ rfl).1, (hst _ rfl).2.1, (hst _ rfl).2.2.1⟩
        | exact ⟨(hst _ rfl).1, (hst _ rfl).2.1, (hst _ rfl).2.2.2⟩
    exact hs.goto_update (i := i) hrest (by rw [hk]; rfl) rfl (fun _ => by simp)
      (.of_live (by simp [ProcState.live]) (by simpa using hks) (by simpa using hpg)) (.inl (by simp))
  | waitKstack i _ hpg =>
    have hz : (s.mem.procs i).state = .zombie := hi.reaping c i (by rw [hk]; rfl)
    exact hs.goto_update (i := i) hrest (by rw [hk]; rfl) rfl (fun _ => by simp)
      ⟨fun hl => by simp [hz, ProcState.live] at hl,
        fun _ => ⟨by simpa using hpg, .inr ⟨c, by rw [hk]; rfl⟩⟩⟩ (.inl (by simp))
  | waitFreevm i _ =>
    have hown (d) (hd : (s.cpus d).run.code.reapOf = some i) : d = c :=
      hl.ptable_unique (Code.holds_ptable_of_reapOf (hl.code_wf d) hd)
        (by rw [hk]; rfl)
    refine hs.of_step (fun d hd => by rw [Sys.goto_run, if_neg hd]) (fun d _ => by simp)
      (fun j h => by simp [Sys.goto_run, Code.reapOf] at h) (fun d j hdc hd => ?_) (fun j => ?_)
      (by simp [Sys.goto_run]; rfl) (fun p k h hr => ?_) (by rw [Sys.goto_halt]; exact hs.halt_ok c)
    · have hji : j ≠ i := fun e => hdc (hown d (e ▸ hd))
      simp [Kernel.setProc_ne _ _ hji]
    · by_cases hji : j = i
      · subst hji; exact .of_unused (.inl (by simp))
      · simp only [Sys.goto_mem, Kernel.setProc_ne _ _ hji]
        refine (hs.ready j).mono fun ⟨d, hd⟩ => .inl ⟨d, fun e => hji ?_, hd⟩
        subst e; rw [hk] at hd; exact (Option.some.inj hd).symm
    · by_cases hpi : p = i
      · subst hpi; exact hs.saved p k (by simpa using h) hr
      · exact hs.saved p k (by simpa [Kernel.setProc_ne _ _ hpi] using h) hr
  | kill pid i _ =>
    exact hs.goto_update (i := i) hrest (by rw [hk]; rfl) rfl (fun _ => by simp [killSlot])
      (by rw [Kernel.setProc_self]; exact (hs.ready i).of_woken (Proc.woken_killSlot _) rfl rfl)
      (.inl (by simp [killSlot]))
  | sleep p site _ hme | yield p _ _ hme =>
    have hpr : (s.mem.procs p).state = .running := (hrs hme).1
    exact hs.goto_update (i := p) hrest (by rw [hk]; rfl) (by first | rfl | exact hexc) (fun _ => by simp)
      (by rw [Kernel.setProc_self]
          exact (hs.ready p).of_live_of (by simp [hpr, ProcState.live]) (by simp [ProcState.live])
            rfl rfl)
      (.inl (by simp))
  | unsleep p site _ hme | fault p _ _ hme =>
    exact hs.goto_update (i := p) hrest (by rw [hk]; first | rfl | cases site <;> rfl)
      (by first | exact hexc | cases site <;> rfl) (fun _ => by simp)
      (by rw [Kernel.setProc_self]; exact (hs.ready p).of_same rfl rfl rfl) (.inl (by simp))
  | wakeup ch k₀ =>
    exact hs.goto_keep (by rw [hk]; rfl) (fun i _ => wakeSlot_parent _ _)
      (fun i => (hs.ready i).of_woken (Proc.woken_wakeSlot _ _) (wakeSlot_kstack _ _)
        (wakeSlot_pgdir _ _)) hexc (fun i => .inl (wakeSlot_context _ _))
  | exitWake p _ hme =>
    have hpr : (s.mem.procs p).state = .running := (hrs hme).1
    have hown {i} (h : ∃ d, (s.cpus d).run.code.reapOf = some i) : False := by
      obtain ⟨d, hd⟩ := h
      have := hl.ptable_unique (Code.holds_ptable_of_reapOf (hl.code_wf d) hd) (by rw [hk]; rfl)
      subst this; rw [hk] at hd; cases hd
    refine hs.goto_keep (by rw [hk]; rfl) (fun i h => (hown h).elim) (fun i => ?_) rfl
      fun i => .inl (Kernel.exitWake_context _ _ _)
    by_cases hip : i = p
    · subst hip
      obtain ⟨hks, hpg⟩ := (hs.ready i).1 (by simp [hpr, ProcState.live])
      exact ⟨fun hl => by simp [Kernel.exitWake_self, ProcState.live] at hl,
        fun _ => ⟨by rwa [Kernel.exitWake_pgdir], .inl (by rwa [Kernel.exitWake_kstack])⟩⟩
    · exact (hs.ready i).of_woken (Kernel.exitWake_woken _ hip) (Kernel.exitWake_kstack _ _ _)
        (Kernel.exitWake_pgdir _ _ _)

include hs in
/-- CPU `c` goes on to code `r` that reaps what its code reaped, with memory as it was. -/
theorem setCode {s' : Sys n m} {r : Code n}
    (hrun : ∀ d, (s'.cpus d).run = if d = c then (s.cpus c).run.setCode r else (s.cpus d).run)
    (hhalt : ∀ d, (s'.cpus d).halt = (s.cpus d).halt) (hmem : s'.mem = s.mem)
    (hcode : r.reapOf = (s.cpus c).run.code.reapOf) (hexit : r.atZombieExit = false) :
    LifeInv s' := by
  have hc : (s'.cpus c).run = (s.cpus c).run.setCode r := by rw [hrun, if_pos rfl]
  refine hs.of_step (fun d hd => by rw [hrun, if_neg hd]) (fun d _ => hhalt d) (fun i h => ?_)
    (fun _ _ _ _ => by rw [hmem]) (fun i => ?_) (by rw [hc, Run.code_setCode]; exact hexit)
    (by rw [hmem]; exact hs.saved) (by rw [hhalt]; exact hs.halt_ok c)
  · rw [hc, Run.code_setCode, hcode] at h
    rw [hc, Run.owner_setCode, hmem]
    exact hs.reaper c i h
  · rw [hmem]
    exact (hs.ready i).mono (reaped_of_code rfl (by rw [hc, Run.code_setCode, hcode]))

include hs in
/-- `sched()` saves the context `ret` of process `p`, and the CPU goes back to its scheduler. -/
theorem sched {p : Fin n} {ret : Code n} (hk : (s.cpus c).run.code.reapOf = none)
    (hret : ret.resumable → ret.atZombieExit = false) :
    LifeInv ({ s with mem := s.mem.setProc p fun q => { q with context := some ret } }.setCpu c
      fun x => { x with run := .sched (.schedResume p) }) := by
  refine hs.of_step (fun d hd => by simp [Sys.setCpu_cpus, hd]) (fun d hd => by simp [Sys.setCpu_cpus, hd])
    (fun i h => by simp [Sys.setCpu_cpus, Run.code, Code.reapOf] at h)
    (fun d i _ _ => by simp only [Sys.setCpu_mem]; exact Kernel.setProc_field _ Proc.parent rfl i)
    (Kernel.ready_setProc (f := fun q => { q with context := some ret })
      (fun j => (hs.ready j).mono fun h => .inl (reaped_of_none hk h))
      (((hs.ready p).of_same rfl rfl rfl).mono fun h => .inl (reaped_of_none hk h)))
    (by simp [Sys.setCpu_cpus, Run.code, Code.atZombieExit]) (fun q k h hr => ?_)
    (by simpa [Sys.setCpu_cpus] using hs.halt_ok c)
  simp only [Sys.setCpu_mem] at h
  by_cases hqp : q = p
  · subst hqp
    simp only [Kernel.setProc_self, Option.some.injEq] at h
    subst h; exact hret hr
  · rw [Kernel.setProc_ne _ _ hqp] at h
    exact hs.saved q k h hr

include hs in
/-- The scheduler on CPU `c` switches to RUNNABLE process `j`, at its saved context `k`. -/
theorem dispatch {i : Nat} {j : Fin n} {k : Code n} (hc : (s.cpus c).run.code = .schedScan i)
    (hj : (s.mem.procs j).state = .runnable) (hk : (s.mem.procs j).context = some k)
    (hres : k.resumable) :
    LifeInv ({ s with mem := s.mem.setProc j fun q => { q with state := .running, context := none } }.setCpu c
      fun x => { x with proc := some j, run := .proc j k }) := by
  have hnone : (s.cpus c).run.code.reapOf = none := by rw [hc]; rfl
  refine hs.of_step (fun d hd => by simp [Sys.setCpu_cpus, hd]) (fun d hd => by simp [Sys.setCpu_cpus, hd])
    (fun i h => by simp [Sys.setCpu_cpus, Run.code, Code.reapOf_of_resumable hres] at h)
    (fun d i _ _ => by simp only [Sys.setCpu_mem]; exact Kernel.setProc_field _ Proc.parent rfl i)
    (Kernel.ready_setProc (f := fun q => { q with state := .running, context := none })
      (fun j => (hs.ready j).mono fun h => .inl (reaped_of_none hnone h))
      ((hs.ready j).of_live_of (by simp [hj, ProcState.live]) (by simp [ProcState.live]) rfl rfl))
    (by simpa [Sys.setCpu_cpus, Run.code] using hs.saved j k hk hres) (fun q k' h hr => ?_)
    (by simpa [Sys.setCpu_cpus] using hs.halt_ok c)
  simp only [Sys.setCpu_mem] at h
  by_cases hqj : q = j
  · subst hqj; simp at h
  · rw [Kernel.setProc_ne _ _ hqj] at h
    exact hs.saved q k' h hr

include hs in
/-- **The lifecycle layer is kept by every effect.** -/
theorem apply (hl : LockInv s) (hi : StackInv s) (hb : BuildInv s) {e : Effect n} {s' : Sys n m}
    (hd : s.mem.Does (s.cpus c).run.owner (s.cpus c).run.code e) (h : s.apply c e = some s') :
    LifeInv s' := by
  have hexc := hs.no_zombie_exit c
  cases e with
  | next k' mem' => cases h; exact hs.next hl hi hb hd
  | acquire l k' =>
    simp only [Sys.apply, Sys.acquire] at h
    split at h
    · cases h; exact hs.halt (by decide)
    · split at h <;> cases h
      exact hs.setCode (fun d => by rw [Sys.setCpu_cpus]; split_ifs <;> rfl)
        (fun d => by rw [Sys.setCpu_cpus]; split_ifs <;> simp_all) rfl
        (Kernel.Does.lock_facts (.inl hd) (hl.code_wf c)).2.2.2.2
        ((Kernel.Does.lock_atZombieExit (.inl hd)).trans hexc)
  | release l k' =>
    simp only [Sys.apply, Sys.release, Option.some.injEq] at h
    subst h
    split
    · exact hs.halt (by decide)
    split
    · exact hs.halt (by decide)
    · exact hs.setCode (fun d => by rw [Sys.setCpu_cpus]; split_ifs <;> rfl)
        (fun d => by rw [Sys.setCpu_cpus]; split_ifs <;> simp_all) rfl
        (Kernel.Does.lock_facts (.inr hd) (hl.code_wf c)).2.2.2.2
        ((Kernel.Does.lock_atZombieExit (.inr hd)).trans hexc)
  | sched p ret =>
    simp only [Sys.apply, Sys.sched, Option.some.injEq] at h
    subst h
    split
    · exact hs.halt (by decide)
    split
    · exact hs.halt (by decide)
    split
    · exact hs.halt (by decide)
    split
    · exact hs.halt (by decide)
    · exact hs.sched hd.sched_code.1 fun hr => (hd.sched_code.2 hr).trans hexc
  | dispatch j =>
    simp only [Sys.apply, Sys.dispatch, Option.some.injEq] at h
    subst h
    generalize hk : (s.cpus c).run.code = k at hd
    cases hd with
    | dispatch i _ _ hj =>
      have hr := (hs.ready j).1 (by simp [hj, ProcState.live])
      split
      · exact absurd ‹_› hr.1
      split
      · exact absurd ‹_› hr.2
      split
      · exact hs.halt (by decide)
      · rename_i k₀ hk₀
        obtain ⟨k₁, hk₁, hres, -⟩ := hi.dispatchable hl hk hj
        rw [hk₀, Option.some.injEq] at hk₁
        subst hk₁
        exact hs.dispatch hk hj hk₀ hres
  | resume k' =>
    simp only [Sys.apply, Option.some.injEq] at h
    subst h
    generalize hk : (s.cpus c).run.code = k at hd
    cases hd with
    | resume j _ =>
      exact hs.setCode (c := c) (r := .schedScan (j.val + 1))
        (fun d => by by_cases hdc : d = c <;> simp [Sys.setCpu_cpus, hdc])
        (fun d => by rw [Sys.setCpu_cpus]; split_ifs <;> simp_all) rfl (by rw [hk]; rfl) rfl
  | halt why =>
    simp only [Sys.apply, Option.some.injEq] at h
    subst h
    generalize hk : (s.cpus c).run.code = k at hd hexc
    cases hd with
    | halt _ _ _ _ h₁ _ _ h₂ h₃ => exact hs.halt ⟨h₁, h₂, h₃⟩
    | zombieExit => cases hexc
    | initExiting => exact hs.halt (by decide)

end LifeInv

theorem LifeInv.of_reachable {s : Sys n m} (h : Reachable s) : LifeInv s := by
  induction h with
  | init => exact LifeInv.init
  | step hr hs ih =>
    obtain ⟨⟨hl, hi, hb⟩, -, -⟩ := TableInv.of_reachable hr
    obtain ⟨-, e, he, ha⟩ := Sys.step_eq_some _ _ hs
    exact ih.apply hl hi hb (Sys.does_of_effect he) ha

/-! ## Legal steps -/

namespace Legal

variable {s : Sys n m} {c : Fin m}

theorem of_eq {a b : ProcState} {j : Fin n} (h : b = a) : Legal s c j a b := by
  subst h; exact refl _

/-- A step that leaves the process table as it was. -/
theorem of_procs {mem' : Kernel n} (h : mem'.procs = s.mem.procs) (j : Fin n) :
    Legal s c j (s.mem.procs j).state (mem'.procs j).state :=
  of_eq (by rw [h])

/-- A step that changes slot `i` alone. -/
theorem update {mem' : Kernel n} {i : Fin n} (hrest : ∀ j, j ≠ i → mem'.procs j = s.mem.procs j)
    (h : Legal s c i (s.mem.procs i).state (mem'.procs i).state) (j : Fin n) :
    Legal s c j (s.mem.procs j).state (mem'.procs j).state := by
  by_cases hji : j = i
  · subst hji; exact h
  · exact of_eq (by rw [hrest j hji])

/-- **Every statement that goes on changes each slot's state legally.** -/
theorem next (hi : StackInv s) (hb : BuildInv s) (hs : LifeInv s) {k' : Code n} {mem' : Kernel n}
    (hd : s.mem.Does (s.cpus c).run.owner (s.cpus c).run.code (.next k' mem')) (j : Fin n) :
    Legal s c j (s.mem.procs j).state (mem'.procs j).state := by
  have hst := hb.staged (.cpu c) _ _ rfl
  have hrs {p} (h : (s.cpus c).run.owner = some p) := hi.runs_self h
  have hrp := hs.reaper c
  have hz := hi.reaping c
  have hwk {k} (h : (s.cpus c).run.code = k) (hw : k.wakes) : (s.cpus c).run.code.wakes := h ▸ hw
  have hrest {i : Fin n} {f : Proc n → Proc n} (j) (hj : j ≠ i) :
      (s.mem.setProc i f).procs j = s.mem.procs j := Kernel.setProc_ne _ _ hj
  generalize hk : (s.cpus c).run.code = k at hd hst hrp hz hrs
  cases hd with
  | plain _ _ _ _ hpr => exact of_procs hpr j
  | waitReap | waitSleep | exitStart | forkretFirst => exact refl _
  | claim site i _ hu =>
    exact update (i := i) (fun j hj => by simp [Kernel.setProc_ne _ _ hj]) (by simp [hu]; trivial) j
  | unclaim i _ => exact update (i := i) hrest (by simp [(hst _ rfl).1]; trivial) j
  | forkUndo i _ | initRun i _ | forkRun i _ =>
    exact update (i := i) hrest (by simp [(hst _ rfl).1.1]; trivial) j
  | forkKstack i | initKstack i | initVm i | forkNoVm i | forkVm i | forkSet _ i | waitKstack i
  | unsleep i | fault i =>
    exact update (i := i) (fun j hj => by simp [Kernel.setProc_ne _ _ hj]) (of_eq (by simp)) j
  | waitFreevm i _ =>
    obtain ⟨p, ho, hp⟩ := hrp i rfl
    exact update (i := i) hrest (by simp [hz i rfl]; exact ⟨p, hi.proc_of_owner ho, hp, hk⟩) j
  | kill pid i _ =>
    exact update (i := i) hrest
      (by rw [Kernel.setProc_self]; exact of_woken (Proc.woken_killSlot _) (hwk hk rfl)) j
  | sleep p _ _ hme | yield p _ _ hme =>
    have hpr : (s.mem.procs p).state = .running := (hrs hme).1
    exact update (i := p) hrest (by simp [hpr]; exact hi.proc_of_owner hme) j
  | wakeup => exact of_woken (Proc.woken_wakeSlot _ _) (hwk hk rfl)
  | exitWake p _ hme =>
    have hpr : (s.mem.procs p).state = .running := (hrs hme).1
    by_cases hjp : j = p
    · subst hjp
      rw [Kernel.exitWake_self, hpr]; exact hi.proc_of_owner hme
    · exact of_woken (Kernel.exitWake_woken _ hjp) (hwk hk rfl)

/-- **Every step changes each slot's state legally.** -/
theorem step (hi : StackInv s) (hb : BuildInv s) (hs : LifeInv s) {ch : Choice} {s' : Sys n m}
    (h : step s c ch = some s') (j : Fin n) :
    Legal s c j (s.mem.procs j).state (s'.mem.procs j).state := by
  obtain ⟨-, e, he, ha⟩ := Sys.step_eq_some _ _ h
  have hd := Sys.does_of_effect he
  cases e with
  | next k' mem' => cases ha; exact next hi hb hs hd j
  | acquire l k' =>
    simp only [Sys.apply, Sys.acquire] at ha
    split at ha
    · cases ha; exact refl _
    · split at ha <;> cases ha; exact refl _
  | release l k' =>
    cases ha
    exact of_procs (by simp only [Sys.release]; split_ifs <;> rfl) j
  | sched p ret =>
    cases ha
    refine of_eq ?_
    simp only [Sys.sched]
    split_ifs <;> simp only [Sys.halt_mem, Sys.setCpu_mem]
    exact Kernel.setProc_field _ Proc.state rfl j
  | resume | halt => cases ha; exact refl _
  | dispatch i =>
    cases ha
    generalize hk : (s.cpus c).run.code = k at hd
    cases hd with
    | dispatch i₀ _ _ hj =>
      have hrun := hi.run_of_schedStack (d := c) (by rw [hk]; rfl)
      rw [hk] at hrun
      simp only [Sys.dispatch]
      split_ifs
      · exact refl _
      · exact refl _
      · split
        · exact refl _
        · exact update (i := i) (fun j hj => by simp [Kernel.setProc_ne _ _ hj])
            (by simp [hj]; exact ⟨i₀, hrun⟩) j

end Legal

/-- **The lifecycle of the slots** in state `s`. Every step from `s` changes each slot's
state legally (`Legal`); a RUNNABLE, RUNNING or SLEEPING slot has its kernel stack and page
directory; a ZOMBIE has its page directory, and its kernel stack unless its parent's `wait`
is reaping it on some CPU; and no CPU has stopped at `panic("zombie exit")` or at
`switchuvm`'s checks. -/
def Lifecycle (s : Sys n m) : Prop :=
  (∀ c ch s', step s c ch = some s' → ∀ i, Legal s c i (s.mem.procs i).state (s'.mem.procs i).state) ∧
  (∀ i, (s.mem.procs i).state.live → (s.mem.procs i).kstack ≠ 0 ∧ (s.mem.procs i).pgdir ≠ 0) ∧
  (∀ i, (s.mem.procs i).state = .zombie → (s.mem.procs i).pgdir ≠ 0 ∧
    ((s.mem.procs i).kstack ≠ 0 ∨ ∃ c p, (s.cpus c).run.code.reapOf = some i ∧
      (s.cpus c).proc = some p ∧ (s.mem.procs i).parent = some p)) ∧
  (∀ c, (s.cpus c).halt ≠ some .zombieExit ∧ (s.cpus c).halt ≠ some .switchuvmKstack ∧
    (s.cpus c).halt ≠ some .switchuvmPgdir)

theorem lifecycle {s : Sys n m} (h : Reachable s) : Lifecycle s := by
  obtain ⟨⟨-, hi, hb⟩, -, -⟩ := TableInv.of_reachable h
  have hs := LifeInv.of_reachable h
  refine ⟨fun c ch s' hst => Legal.step hi hb hs hst, fun i hl => (hs.ready i).1 hl,
    fun i hz => ⟨((hs.ready i).2 hz).1, ((hs.ready i).2 hz).2.imp_right fun ⟨c, hc⟩ => ?_⟩,
    hs.halt_ok⟩
  obtain ⟨p, ho, hp⟩ := hs.reaper c i hc
  exact ⟨c, p, hc, hi.proc_of_owner ho, hp⟩

/-- Init's `wait` is reaping its ZOMBIE child and has cleared its `kstack`. -/
theorem lifecycle_reapFreevm : ∃ s : Sys 2 1,
    Sys.init.run (Trace.solo (Trace.boot ++ Trace.fork ++ Trace.waitSleep ++ .sys .exit :: .replicate 14 .tau)) =
      some s ∧ (s.mem.procs 1).state = .zombie ∧ (s.mem.procs 1).kstack = 0 ∧
      (s.cpus 0).run.code.reapOf = some 1 ∧ Lifecycle s := by
  obtain ⟨s, hr, h⟩ := Sys.exists_run
    (Trace.solo (Trace.boot ++ Trace.fork ++ Trace.waitSleep ++ .sys .exit :: .replicate 14 .tau))
    (fun s : Sys 2 1 => decide ((s.mem.procs 1).state = .zombie ∧
      (s.mem.procs 1).kstack = 0 ∧ (s.cpus 0).run.code.reapOf = some 1)) (by decide)
  have h := of_decide_eq_true h
  exact ⟨s, hr, h.1, h.2.1, h.2.2, lifecycle (Reachable.init.run hr)⟩

/-- Init forks a child, is preempted, the child exits, and init's `wait` has cleared the
ZOMBIE's `kstack` but not yet marked it UNUSED. -/
theorem zombie_without_kstack : ∃ s : Sys 2 1, Reachable s ∧
    ∃ i, (s.mem.procs i).state = .zombie ∧ (s.mem.procs i).kstack = 0 := by
  obtain ⟨s, hr, h⟩ := Reachable.of_run
    (Trace.solo (Trace.boot ++ Trace.fork ++ Trace.yield ++ Trace.exit ++ Trace.reap))
    (fun s : Sys 2 1 => decide ((s.mem.procs 1).state = .zombie ∧ (s.mem.procs 1).kstack = 0))
    (by decide)
  exact ⟨s, hr, 1, by simpa using h⟩

end Xv6
