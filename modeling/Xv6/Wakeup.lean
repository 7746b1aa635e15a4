import Xv6.Parents

/-!
# Sleep and wakeup

`sleep(chan, lk)` takes `ptable.lock` before it lets go of `lk`, and keeps it until the
scheduler has switched away from the sleeper; `wakeup(chan)` makes every process SLEEPING on
`chan` RUNNABLE under `ptable.lock`. Two consequences hold for every interleaving.

No wakeup is lost: a CPU that has run `wakeup1(chan)` and is about to release `ptable.lock`
leaves nobody asleep on `chan`, and `exit`, at its `sched()`, leaves its parent awake.

No parent waits for nothing: a process asleep in `wait` has a child, no ZOMBIE child, and is
not killed. That is what `wait` checked before it slept, and it stays true because `exit`
wakes the parent it hands a ZOMBIE to (and `initproc` when it passes it one) and `kill`
wakes its target.

Everything `SleepInv` asks of a CPU is asked while it holds `ptable.lock`, so a step of
another CPU either holds no `ptable.lock` and changes little (`Kernel.Quiet`), or is that
CPU's own.
-/

namespace Xv6

variable {n m : Nat}

/-! ## What `sleep` and `wait` read -/

namespace Kernel

variable (s : Kernel n)

/-- Nobody sleeps on `ch`. -/
def NoSleeper (ch : Chan n) : Prop :=
  ∀ p, ¬((s.procs p).state = .sleeping ∧ (s.procs p).chan = some ch)

/-- Process `p` sleeps in `wait`: SLEEPING on its own channel. -/
def InWait (p : Fin n) : Prop :=
  (s.procs p).state = .sleeping ∧ (s.procs p).chan = some (.proc p)

/-- What `wait` checks before it sleeps: `p` has a child, no ZOMBIE child, and is not
killed. -/
def WaitOk (p : Fin n) : Prop :=
  (∃ j, (s.procs j).parent = some p) ∧ ¬HasZombieChild s.procs p ∧ (s.procs p).killed = false

end Kernel

namespace Code

variable {k : Code n}

theorem holds_ptable_of_wakeChan {ch : Chan n} (h : k.wakeChan = some ch) : k.holds .ptable := by
  cases k <;> first | rfl | cases h

theorem holds_ptable_of_waitSleeping (h : k.waitSleeping) : k.holds .ptable := by
  unfold waitSleeping at h; split at h <;> first | rfl | cases h

/-- A thread at `k` owes nothing to `sleep` and `wakeup`: it has not just run `wakeup1` and
is not in `wait`'s sleep. -/
def settled (k : Code n) : Bool :=
  k.wakeChan.isNone && !k.waitSleeping

theorem settled_of_ordinary (h : k.ordinary) : k.settled := by
  simp only [ordinary, Bool.and_eq_true, beq_iff_eq, Option.isNone_iff_eq_none,
    Bool.not_eq_true'] at h
  simp [settled, h.2, h.1.2]

theorem settled_of_resumable (h : k.resumable) : k.settled := by
  cases k <;> first | rfl | cases h

end Code

/-! ## Steps that leave `sleep` and `wait` alone -/

/-- What a step leaves alone of what `wait` reads: links (a slot without one may get one if it
is not a ZOMBIE), the ZOMBIEs, and `killed`, which is set only for `x`. -/
structure Kernel.Calm (s s' : Kernel n) (x : Option (Fin n)) : Prop where
  parent : ∀ i, (s'.procs i).parent = (s.procs i).parent ∨
    (s.procs i).parent = none ∧ (s'.procs i).state ≠ .zombie
  zombie : ∀ i, (s'.procs i).state = .zombie ↔ (s.procs i).state = .zombie
  killed : ∀ i, (s'.procs i).killed = (s.procs i).killed ∨ x = some i

/-- A calm step after which nobody sleeps who did not, on another channel. -/
structure Kernel.Quiet (s s' : Kernel n) (x : Option (Fin n)) extends Kernel.Calm s s' x :
    Prop where
  sleeping : ∀ i, (s'.procs i).state = .sleeping →
    (s.procs i).state = .sleeping ∧ (s'.procs i).chan = (s.procs i).chan

namespace Kernel

variable {s s' : Kernel n} {x : Option (Fin n)}

theorem Calm.waitOk (hq : s.Calm s' x) {p : Fin n} (hx : x ≠ some p) (h : s.WaitOk p) :
    s'.WaitOk p := by
  obtain ⟨⟨j, hj⟩, hz, hk⟩ := h
  refine ⟨⟨j, ?_⟩, fun ⟨i, hi, hzi⟩ => hz ⟨i, ?_, (hq.zombie i).mp hzi⟩, ?_⟩
  · rcases hq.parent j with e | ⟨e, -⟩
    · rw [e, hj]
    · rw [e] at hj; cases hj
  · rcases hq.parent i with e | ⟨-, e⟩
    · rw [← e, hi]
    · exact absurd hzi e
  · rcases hq.killed p with e | e
    · rw [e, hk]
    · exact absurd e hx

theorem Quiet.noSleeper (hq : s.Quiet s' x) {ch : Chan n} (h : s.NoSleeper ch) :
    s'.NoSleeper ch :=
  fun p ⟨hs, hc⟩ => h p ⟨(hq.sleeping p hs).1, (hq.sleeping p hs).2 ▸ hc⟩

theorem Quiet.inWait (hq : s.Quiet s' x) {p : Fin n} (h : s'.InWait p) : s.InWait p :=
  ⟨(hq.sleeping p h.1).1, (hq.sleeping p h.1).2 ▸ h.2⟩

theorem Quiet.of_procs (h : s'.procs = s.procs) : s.Quiet s' x :=
  ⟨⟨fun i => .inl (by rw [h]), fun i => by rw [h], fun i => .inl (by rw [h])⟩,
    fun i hi => by rw [h] at hi ⊢; exact ⟨hi, rfl⟩⟩

/-- Quietness reads only the process table. -/
theorem Quiet.congr {s'' : Kernel n} (hq : s.Quiet s' x) (h : s''.procs = s'.procs) :
    s.Quiet s'' x :=
  ⟨⟨fun i => by rw [h]; exact hq.parent i, fun i => by rw [h]; exact hq.zombie i,
    fun i => by rw [h]; exact hq.killed i⟩, fun i => by rw [h]; exact hq.sleeping i⟩

/-- A calm step that changes only slot `i`, as `f` does. -/
theorem Calm.setProc {i : Fin n} {f : Proc n → Proc n}
    (hp : (f (s.procs i)).parent = (s.procs i).parent ∨
      (s.procs i).parent = none ∧ (f (s.procs i)).state ≠ .zombie)
    (hz : (f (s.procs i)).state = .zombie ↔ (s.procs i).state = .zombie)
    (hk : (f (s.procs i)).killed = (s.procs i).killed ∨ x = some i) :
    s.Calm (s.setProc i f) x := by
  have h (j) (hj : j ≠ i) : (s.setProc i f).procs j = s.procs j := Kernel.setProc_ne _ _ hj
  refine ⟨fun j => ?_, fun j => ?_, fun j => ?_⟩ <;> by_cases hji : j = i
  · subst hji; simpa using hp
  · rw [h j hji]; exact .inl rfl
  · subst hji; simpa using hz
  · rw [h j hji]
  · subst hji; simpa using hk
  · rw [h j hji]; exact .inl rfl

/-- A quiet step that changes only slot `i`, as `f` does. -/
theorem Quiet.setProc {i : Fin n} {f : Proc n → Proc n}
    (hp : (f (s.procs i)).parent = (s.procs i).parent ∨
      (s.procs i).parent = none ∧ (f (s.procs i)).state ≠ .zombie)
    (hz : (f (s.procs i)).state = .zombie ↔ (s.procs i).state = .zombie)
    (hk : (f (s.procs i)).killed = (s.procs i).killed ∨ x = some i)
    (hs : (f (s.procs i)).state = .sleeping →
      (s.procs i).state = .sleeping ∧ (f (s.procs i)).chan = (s.procs i).chan) :
    s.Quiet (s.setProc i f) x := by
  refine ⟨Calm.setProc hp hz hk, fun j => ?_⟩
  by_cases hji : j = i
  · subst hji; simpa using hs
  · rw [Kernel.setProc_ne _ _ hji]; exact fun hs => ⟨hs, rfl⟩

theorem Quiet.wakeup1 (ch : Option (Chan n)) :
    s.Quiet { s with procs := wakeup1 s.procs ch } x := by
  refine ⟨⟨fun i => .inl (wakeSlot_parent _ _), fun i => wakeSlot_state_zombie _ _,
    fun i => .inl (wakeSlot_killed _ _)⟩, fun i h => ⟨?_, wakeSlot_chan _ _⟩⟩
  simp only [wakeup1_apply, wakeSlot_state] at h
  split_ifs at h
  exact h

end Kernel

/-! ## `exit` seen from `sleep` and `wait` -/

theorem Proc.Woken.sleeping {q q' : Proc n} (h : q'.Woken q) (hs : q'.state = .sleeping) :
    q.state = .sleeping ∧ q'.chan = q.chan := by
  refine ⟨?_, h.2.1⟩
  rcases h.2.2 with e | ⟨-, e⟩
  · rw [← e, hs]
  · rw [e] at hs; cases hs

theorem Proc.Woken.zombie {q q' : Proc n} (h : q'.Woken q) (hz : q'.state = .zombie) :
    q.state = .zombie := by
  rcases h.2.2 with e | ⟨-, e⟩
  · rw [← e, hz]
  · rw [e] at hz; cases hz

namespace Kernel

variable (s : Kernel n)

theorem exitWake_killed (p i : Fin n) :
    ((s.exitWake p).procs i).killed = (s.procs i).killed := by
  simp only [exitWake, Function.update_apply]
  split <;> simp_all

/-- `exit` leaves its parent `q` awake: `wakeup1(curproc->parent)`. -/
theorem exitWake_parent_awake {p q : Fin n} (hq : (s.procs p).parent = some q) (hqp : q ≠ p) :
    ¬(s.exitWake p).InWait q := by
  rintro ⟨hs, hc⟩
  have hw := Proc.woken_reparent (wakeup1 s.procs ((s.procs p).parent.map .proc)) p s.initproc q
  simp only [exitWake, Function.update_noteq hqp] at hs hc
  obtain ⟨h₁, h₂, h₃ | ⟨-, h₃⟩⟩ := hw
  · rw [h₃] at hs; rw [h₂] at hc
    exact wakeup1_not_sleeping s.procs _ q ⟨hs, by rw [hc, hq]; rfl⟩
  · rw [h₃] at hs; cases hs

/-- `exit` leaves `initproc` awake when it passes it a ZOMBIE child. -/
theorem exitWake_init_awake {p x : Fin n} (hz : HasZombieChild s.procs p)
    (hx : s.initproc = some x) (hxp : x ≠ p) : ¬(s.exitWake p).InWait x := by
  rintro ⟨hs, hc⟩
  have hz' : HasZombieChild (wakeup1 s.procs ((s.procs p).parent.map .proc)) p := by
    obtain ⟨j, hj, hjz⟩ := hz
    exact ⟨j, by simp [hj], (wakeSlot_state_zombie _ _).mpr hjz⟩
  simp only [exitWake, Function.update_noteq hxp, reparent_eq, if_pos hz', hx] at hs hc
  exact wakeup1_not_sleeping _ _ x ⟨hs, by rw [hc]; rfl⟩

variable {s}

/-- **`exit` keeps `wait`'s checks** for every process asleep in `wait` afterwards: the
parent of the exiting process is woken, and so is `initproc` if it gets a ZOMBIE child; any
other sleeper keeps its children and gets no ZOMBIE. -/
theorem exitWake_waitOk (h : s.ParentInv) {p : Fin n} (hasleep : ∀ q, s.InWait q → s.WaitOk q)
    {q : Fin n} (hq : (s.exitWake p).InWait q) : (s.exitWake p).WaitOk q := by
  have hqp : q ≠ p := by rintro rfl; simp [InWait, exitWake_self] at hq
  have hw := exitWake_woken s hqp
  obtain ⟨⟨j, hj⟩, hz, hk⟩ :=
    hasleep q ⟨(hw.sleeping hq.1).1, (hw.sleeping hq.1).2 ▸ hq.2⟩
  have hpar : (s.procs p).parent ≠ some q := fun e => exitWake_parent_awake s e hqp hq
  refine ⟨⟨j, ?_⟩, fun ⟨i, hi, hiz⟩ => ?_, by rw [exitWake_killed]; exact hk⟩
  · rw [exitWake_parent, hj, if_neg fun e => hqp (Option.some.inj e)]
  · rw [exitWake_parent] at hi
    by_cases hip : i = p
    · subst hip; rw [if_neg (h.no_self i)] at hi; exact hpar hi
    · have hiz₀ := (exitWake_woken s hip).zombie hiz
      split at hi
      · exact exitWake_init_awake s ⟨i, ‹_›, hiz₀⟩ hi hqp hq
      · exact hz ⟨i, hi, hiz₀⟩

end Kernel

/-! ## The sleep layer -/

/-- **The sleep layer.** -/
structure SleepInv (s : Sys n m) : Prop where
  /-- Right after `wakeup1(chan)`, until `release(&ptable.lock)`, nobody sleeps on `chan`. -/
  woken : ∀ c ch, (s.cpus c).run.code.wakeChan = some ch → s.mem.NoSleeper ch
  /-- A process in `wait`'s sleep, before its `sched()`, has passed `wait`'s checks. -/
  waiting : ∀ c p, (s.cpus c).run.code.waitSleeping → (s.cpus c).run.owner = some p →
    s.mem.WaitOk p
  /-- A process asleep in `wait` passed its checks, and they still hold. -/
  asleep : ∀ p, s.mem.InWait p → s.mem.WaitOk p

namespace SleepInv

variable {s : Sys n m} (hs : SleepInv s) {c : Fin m}

theorem init : SleepInv (Sys.init : Sys n m) where
  woken c ch h := by
    simp only [Sys.init] at h; split at h <;> simp [Run.code, Code.wakeChan, Code.schedLoop] at h
  waiting c p h := by
    simp only [Sys.init] at h
    split at h <;> simp [Run.code, Code.waitSleeping, Code.schedLoop] at h
  asleep p h := by simp [Kernel.InWait, Sys.init, Proc.empty] at h

include hs in
/-- **A quiet step of CPU `c`**: it leaves alone what `sleep` and `wait` read, except the
`killed` flag of a process `x` that is not asleep afterwards and is not in `wait`'s sleep on
another CPU; CPU `c` ends at code that owes what it has done. -/
theorem quiet {s' : Sys n m} {x : Option (Fin n)} (hq : s.mem.Quiet s'.mem x)
    (hrun : ∀ d, d ≠ c → (s'.cpus d).run = (s.cpus d).run)
    (hxs : ∀ p, x = some p → (s'.mem.procs p).state ≠ .sleeping)
    (hxw : ∀ d p, x = some p → d ≠ c → (s.cpus d).run.code.waitSleeping →
      (s.cpus d).run.owner ≠ some p)
    (hwake : ∀ ch, (s'.cpus c).run.code.wakeChan = some ch → s'.mem.NoSleeper ch)
    (hwait : (s'.cpus c).run.code.waitSleeping → ∀ p, (s'.cpus c).run.owner = some p →
      s'.mem.WaitOk p) :
    SleepInv s' where
  woken d ch h := by
    by_cases hdc : d = c
    · subst hdc; exact hwake ch h
    · rw [hrun d hdc] at h; exact hq.noSleeper (hs.woken d ch h)
  waiting d p h ho := by
    by_cases hdc : d = c
    · subst hdc; exact hwait h p ho
    · rw [hrun d hdc] at h ho
      exact hq.waitOk (fun e => hxw d p e hdc h ho) (hs.waiting d p h ho)
  asleep p h := hq.waitOk (fun e => hxs p e h.1) (hs.asleep p (hq.inWait h))

include hs in
/-- A quiet step of CPU `c` to code that owes nothing. -/
theorem settled {s' : Sys n m} (hq : s.mem.Quiet s'.mem none)
    (hrun : ∀ d, d ≠ c → (s'.cpus d).run = (s.cpus d).run)
    (hk : (s'.cpus c).run.code.settled) : SleepInv s' := by
  simp only [Code.settled, Bool.and_eq_true, Option.isNone_iff_eq_none, Bool.not_eq_true'] at hk
  refine hs.quiet hq hrun (fun _ h => by cases h) (fun _ _ h => by cases h)
    (fun ch h => ?_) (fun h => ?_)
  · rw [hk.1] at h; cases h
  · rw [hk.2] at h; cases h

include hs in
/-- `quiet` for a statement that goes on to `k'` with kernel state `mem'`. -/
theorem goto_quiet {k' : Code n} {mem' : Kernel n} {x : Option (Fin n)}
    (hq : s.mem.Quiet mem' x) (hxs : ∀ p, x = some p → (mem'.procs p).state ≠ .sleeping)
    (hxw : ∀ d p, x = some p → d ≠ c → (s.cpus d).run.code.waitSleeping →
      (s.cpus d).run.owner ≠ some p)
    (hwake : ∀ ch, k'.wakeChan = some ch → mem'.NoSleeper ch)
    (hwait : k'.waitSleeping → ∀ p, (s.cpus c).run.owner = some p → mem'.WaitOk p) :
    SleepInv ({ s with mem := mem' }.goto c k') :=
  hs.quiet hq (fun d hd => by rw [Sys.goto_run, if_neg hd]) hxs hxw
    (fun ch h => hwake ch (by simpa [Sys.goto_run] using h))
    (fun h p ho => hwait (by simpa [Sys.goto_run] using h) p (by simpa [Sys.goto_run] using ho))

include hs in
/-- A quiet statement to code that owes nothing. -/
theorem goto_settled {k' : Code n} {mem' : Kernel n}
    (hq : s.mem.Quiet mem' none) (hk : k'.settled) :
    SleepInv ({ s with mem := mem' }.goto c k') :=
  hs.settled hq (fun d hd => by rw [Sys.goto_run, if_neg hd]) (by simpa [Sys.goto_run] using hk)

/-- A statement of CPU `c` while it holds `ptable.lock`: every other CPU owes nothing, since
`SleepInv` asks things only of a CPU that holds `ptable.lock`. -/
theorem goto_owned (hl : LockInv s) (hc : (s.cpus c).run.code.holds .ptable) {k' : Code n}
    {mem' : Kernel n} (hwake : ∀ ch, k'.wakeChan = some ch → mem'.NoSleeper ch)
    (hwait : k'.waitSleeping → ∀ p, (s.cpus c).run.owner = some p → mem'.WaitOk p)
    (hasleep : ∀ p, mem'.InWait p → mem'.WaitOk p) :
    SleepInv ({ s with mem := mem' }.goto c k') := by
  have other (d) (hd : (s.cpus d).run.code.holds .ptable) (hdc : d ≠ c) : False :=
    hdc (hl.ptable_unique hd hc)
  refine ⟨fun d ch h => ?_, fun d p h => ?_, hasleep⟩ <;>
    rw [Sys.goto_run] at h <;> split at h <;> rename_i hdc
  · subst hdc; exact hwake ch (by simpa using h)
  · exact (other d (Code.holds_ptable_of_wakeChan h) hdc).elim
  · subst hdc; exact fun ho => hwait (by simpa using h) p (by simpa [Sys.goto_run] using ho)
  · exact (other d (Code.holds_ptable_of_waitSleeping h) hdc).elim

include hs in
theorem halt {why : Panic} : SleepInv (s.halt c why) where
  woken d ch h := by simpa using hs.woken d ch (by simpa using h)
  waiting d p h := by simpa using hs.waiting d p (by simpa using h)
  asleep := by simpa using hs.asleep

include hs in
/-- **The sleep layer over a statement that goes on**, by what the statement does. -/
theorem next (hl : LockInv s) (hi : StackInv s) (hb : BuildInv s) (hp : s.mem.ParentInv)
    {k' : Code n} {mem' : Kernel n}
    (hd : s.mem.Does (s.cpus c).run.owner (s.cpus c).run.code (.next k' mem')) :
    SleepInv ({ s with mem := mem' }.goto c k') := by
  have hw := hl.code_wf c
  have hst := hb.staged (.cpu c) _ _ rfl
  have hrs {p} (h : (s.cpus c).run.owner = some p) := hi.runs_self h
  have hptable {d} (h : (s.cpus d).run.code.holds .ptable)
      (h' : (s.cpus c).run.code.holds .ptable) : d = c := hl.ptable_unique h h'
  have hwc := hs.woken c
  have hwt := hs.waiting c
  have hreap {i} (h : (s.cpus c).run.code.reapOf = some i) := hi.reaping c i h
  generalize hk : (s.cpus c).run.code = k at hd hw hst hrs hwc hwt hreap hptable
  cases hd with
  | plain _ _ _ _ hpr _ _ hv =>
    obtain ⟨hv, -⟩ := hv hw
    have hq : s.mem.Quiet mem' none := .of_procs hpr
    have hwc' : k'.wakeChan = k.wakeChan := congrArg Code.View.wakeChan hv
    have hws' : k'.waitSleeping = k.waitSleeping := congrArg Code.View.waitSleeping hv
    exact hs.goto_quiet hq (fun _ h => by cases h) (fun _ _ h => by cases h)
      (fun ch h => hq.noSleeper (hwc ch (hwc' ▸ h)))
      (fun h p ho => hq.waitOk (by simp) (hwt p (hws' ▸ h) ho))
  | waitReap | exitStart | forkretFirst => exact hs.goto_settled (.of_procs rfl) rfl
  | waitSleep p _ hme hz hch hkl =>
    refine hs.goto_quiet (x := none) (.of_procs rfl) (fun _ h => by cases h)
      (fun _ _ h => by cases h) (fun ch h => by cases h) fun _ q ho => ?_
    rw [ho, Option.some.injEq] at hme
    subst hme
    exact ⟨hch, hz, hkl⟩
  | claim site i _ hu =>
    have hq : s.mem.Quiet (s.mem.setProc i fun q => { q with state := .embryo, pid := s.mem.nextpid })
        none := .setProc (.inl rfl) (by simp [hu]) (.inl rfl) fun h => by simp at h
    exact hs.goto_settled (hq.congr rfl) rfl
  | unclaim i _ | forkUndo i _ =>
    have he : (s.mem.procs i).state = .embryo := by
      first | exact (hst _ rfl).1 | exact (hst _ rfl).1.1
    exact hs.goto_settled (.setProc (.inl rfl) (by simp [he]) (.inl rfl) fun h => by simp at h) rfl
  | forkKstack | initVm | forkNoVm | forkVm | waitKstack =>
    exact hs.goto_settled (.setProc (.inl rfl) Iff.rfl (.inl rfl) fun h => ⟨h, rfl⟩) rfl
  | initKstack i a =>
    have hq : s.mem.Quiet (s.mem.setProc i fun q => { q with kstack := a, context := some .forkret })
        none := .setProc (.inl rfl) Iff.rfl (.inl rfl) fun h => ⟨h, rfl⟩
    exact hs.goto_settled (hq.congr rfl) rfl
  | initRun i _ | forkRun i _ =>
    have he : (s.mem.procs i).state = .embryo := (hst _ rfl).1.1
    exact hs.goto_settled (.setProc (.inl rfl) (by simp [he]) (.inl rfl) fun h => by simp at h) rfl
  | forkSet p i _ hme =>
    obtain ⟨⟨he, -, -⟩, hpar, -⟩ := hst _ rfl
    exact hs.goto_settled (.setProc (.inr ⟨hpar, by simp [he]⟩) Iff.rfl (.inl rfl)
      fun h => ⟨h, rfl⟩) rfl
  | unsleep p site _ hme =>
    have hpr : (s.mem.procs p).state = .running := (hrs hme).1
    exact hs.goto_settled (.setProc (.inl rfl) Iff.rfl (.inl rfl) fun h => by simp [hpr] at h)
      (by cases site <;> rfl)
  | yield p _ _ hme =>
    have hpr : (s.mem.procs p).state = .running := (hrs hme).1
    exact hs.goto_settled (.setProc (.inl rfl) (by simp [hpr]) (.inl rfl) fun h => by simp at h)
      rfl
  | wakeup ch k₀ =>
    refine hs.goto_quiet (x := none) (.wakeup1 _) (fun _ h => by cases h)
      (fun _ _ h => by cases h) (fun ch' h => ?_) (fun h => by cases h)
    cases h
    exact fun p => wakeup1_not_sleeping _ _ p
  | kill pid i =>
    have hq : s.mem.Quiet (s.mem.setProc i killSlot) (some i) :=
      .setProc (.inl rfl) (by simp only [killSlot]; split_ifs with h <;> simp [h]) (.inr rfl)
        fun h => by simp only [killSlot] at h; split_ifs at h; simp_all
    refine hs.goto_quiet hq (fun p e => ?_)
      (fun d p _ hdc hwd _ => hdc (hptable (Code.holds_ptable_of_waitSleeping hwd) rfl))
      (fun ch h => by cases h) (fun h => by cases h)
    cases e; simp only [Kernel.setProc_self, killSlot]; split_ifs <;> simp_all
  | fault p r _ hme =>
    have hpr : (s.mem.procs p).state = .running := (hrs hme).1
    refine hs.goto_quiet (.setProc (.inl rfl) Iff.rfl (.inr rfl) fun h => ⟨h, rfl⟩)
      (fun q e => ?_) (fun d q e hdc _ hd => hdc (hi.owner_unique hd ?_))
      (fun ch h => by cases h) (fun h => by cases h)
    · cases e; simp [hpr]
    · cases e; exact hme
  | sleep p site _ hme =>
    have hpr : (s.mem.procs p).state = .running := (hrs hme).1
    have hc : s.mem.Calm (s.mem.setProc p fun q =>
        { q with chan := some (site.chan p), state := .sleeping }) none :=
      Kernel.Calm.setProc (.inl rfl) (by simp [hpr]) (.inl rfl)
    have hwait (h : site = .wait) : s.mem.WaitOk p := hwt p (by rw [h]; rfl) hme
    refine SleepInv.goto_owned hl (by rw [hk]; rfl) (fun ch h => by cases h)
      (fun h q ho => ?_) fun q hq => ?_
    · rw [ho, Option.some.injEq] at hme
      subst hme
      cases site <;> first | exact hc.waitOk (by simp) (hwait rfl) | cases h
    · by_cases hqp : q = p
      · subst hqp
        have hch := hq.2
        simp only [Kernel.setProc_self, Option.some.injEq] at hch
        cases site <;> first | exact hc.waitOk (by simp) (hwait rfl) | cases hch
      · have hq' : s.mem.InWait q := by
          simpa [Kernel.InWait, Kernel.setProc_ne _ _ hqp] using hq
        exact hc.waitOk (by simp) (hs.asleep q hq')
  | waitFreevm i _ =>
    have hz := hreap rfl
    refine SleepInv.goto_owned hl (by rw [hk]; rfl) (fun ch h => by cases h)
      (fun h => by cases h) fun q hq => ?_
    have hqi : q ≠ i := by rintro rfl; simp [Kernel.InWait] at hq
    have hq' : s.mem.InWait q := by simpa [Kernel.InWait, Kernel.setProc_ne _ _ hqi] using hq
    obtain ⟨⟨j, hj⟩, hzc, hkl⟩ := hs.asleep q hq'
    have hji : j ≠ i := by rintro rfl; exact hzc ⟨j, hj, hz⟩
    refine ⟨⟨j, by simpa [Kernel.setProc_ne _ _ hji] using hj⟩, fun ⟨j', hj', hjz⟩ => ?_,
      by simpa [Kernel.setProc_ne _ _ hqi] using hkl⟩
    by_cases hj'i : j' = i
    · subst hj'i; simp at hjz
    · simp only [Kernel.setProc_ne _ _ hj'i] at hj' hjz
      exact hzc ⟨j', hj', hjz⟩
  | exitWake p _ hme =>
    exact SleepInv.goto_owned hl (by rw [hk]; rfl) (fun ch h => by cases h) (fun h => by cases h)
      fun q hq => Kernel.exitWake_waitOk hp hs.asleep hq

include hs in
/-- **The sleep layer is kept by every effect.** -/
theorem apply (hl : LockInv s) (hi : StackInv s) (hb : BuildInv s) (hp : s.mem.ParentInv)
    {e : Effect n} {s' : Sys n m}
    (hd : s.mem.Does (s.cpus c).run.owner (s.cpus c).run.code e) (h : s.apply c e = some s') :
    SleepInv s' := by
  have hset {f : Cpu n → Cpu n} {t : Sys n m} (ht : t.cpus = s.cpus) (d) (hdc : d ≠ c) :
      ((t.setCpu c f).cpus d).run = (s.cpus d).run := by
    rw [Sys.setCpu_cpus, if_neg hdc, ht]
  cases e with
  | next k' mem' => cases h; exact hs.next hl hi hb hp hd
  | acquire l k' =>
    simp only [Sys.apply, Sys.acquire] at h
    split at h
    · cases h; exact hs.halt
    · split at h <;> cases h
      exact hs.settled (c := c) (.of_procs rfl) (hset rfl)
        (by simpa [Sys.setCpu_cpus] using
          Code.settled_of_ordinary (Kernel.Does.lock_facts (.inl hd) (hl.code_wf c)).1)
  | release l k' =>
    simp only [Sys.apply, Sys.release, Option.some.injEq] at h
    subst h
    split
    · exact hs.halt
    split
    · exact hs.halt
    · exact hs.settled (c := c) (.of_procs rfl) (hset rfl)
        (by simpa [Sys.setCpu_cpus] using
          Code.settled_of_ordinary (Kernel.Does.lock_facts (.inr hd) (hl.code_wf c)).1)
  | sched p ret =>
    simp only [Sys.apply, Sys.sched, Option.some.injEq] at h
    subst h
    split
    · exact hs.halt
    split
    · exact hs.halt
    split
    · exact hs.halt
    split
    · exact hs.halt
    · have hq : s.mem.Quiet (s.mem.setProc p fun q => { q with context := some ret }) none :=
        .setProc (.inl rfl) Iff.rfl (.inl rfl) fun h => ⟨h, rfl⟩
      exact hs.settled (c := c) hq (hset rfl) (by simp [Sys.setCpu_cpus]; rfl)
  | dispatch j =>
    simp only [Sys.apply, Sys.dispatch, Option.some.injEq] at h
    subst h
    generalize hk : (s.cpus c).run.code = k at hd
    cases hd with
    | dispatch i _ _ hj =>
      split
      · exact hs.halt
      split
      · exact hs.halt
      split
      · exact hs.halt
      · rename_i k₀ hk₀
        obtain ⟨k₁, hk₁, hres, -⟩ := hi.dispatchable hl hk hj
        rw [hk₀, Option.some.injEq] at hk₁
        subst hk₁
        have hq : s.mem.Quiet (s.mem.setProc j fun q => { q with state := .running, context := none })
            none := .setProc (.inl rfl) (by simp [hj]) (.inl rfl) fun h => by simp at h
        exact hs.settled (c := c) hq (hset rfl)
          (by simpa [Sys.setCpu_cpus, Run.code] using Code.settled_of_resumable hres)
  | resume k' =>
    simp only [Sys.apply, Option.some.injEq] at h
    subst h
    generalize hk : (s.cpus c).run.code = k at hd
    cases hd with
    | resume j _ =>
      exact hs.settled (c := c) (.of_procs rfl) (hset rfl) (by simp [Sys.setCpu_cpus]; rfl)
  | halt why =>
    simp only [Sys.apply, Option.some.injEq] at h
    subst h
    exact hs.halt

end SleepInv

theorem SleepInv.of_reachable {s : Sys n m} (h : Reachable s) : SleepInv s := by
  induction h with
  | init => exact SleepInv.init
  | step hr hs ih =>
    obtain ⟨⟨hl, hi, hb⟩, -, hp⟩ := TableInv.of_reachable hr
    obtain ⟨-, e, he, ha⟩ := Sys.step_eq_some _ _ hs
    exact ih.apply hl hi hb hp (Sys.does_of_effect he) ha

/-! ## No lost wakeup -/

/-- No wakeup is lost in state `s`: a CPU that has run `wakeup1(chan)` inside `wakeup` and is
about to `release(&ptable.lock)` leaves nobody SLEEPING on `chan` (the timer and `sys_sleep`
on `&ticks`, `ideintr` and `iderw` on a buffer); and the parent of a ZOMBIE, which `exit`
woke with `wakeup1(curproc->parent)` under `ptable.lock`, is not SLEEPING on its own channel
in `wait`, whoever holds or releases `ptable.lock`. -/
def NoLostWakeup (s : Sys n m) : Prop :=
  (∀ c ch k p, (s.cpus c).run.code = .wakeRel ch k →
      ¬((s.mem.procs p).state = .sleeping ∧ (s.mem.procs p).chan = some ch)) ∧
  (∀ p q, (s.mem.procs p).state = .zombie → (s.mem.procs p).parent = some q →
      ¬((s.mem.procs q).state = .sleeping ∧ (s.mem.procs q).chan = some (.proc q)))

/-- **No lost wakeup**, for any number of CPUs and processes and every interleaving. -/
theorem no_lost_wakeup {s : Sys n m} (h : Reachable s) : NoLostWakeup s := by
  have hs := SleepInv.of_reachable h
  exact ⟨fun c ch k p hk => hs.woken c ch (by rw [hk]; rfl) p,
    fun p q hz hq hw => (hs.asleep q hw).2.1 ⟨p, hq, hz⟩⟩

/-- Init sleeps in `wait`; its child exits: the child is a ZOMBIE, and `exit`'s `wakeup1` has
made init RUNNABLE. -/
theorem no_lost_wakeup_exitWake : ∃ s : Sys 2 1,
    Sys.init.run (Trace.solo (Trace.boot ++ Trace.fork ++ Trace.waitSleep ++ .sys .exit :: .replicate 3 .tau)) =
      some s ∧ (s.mem.procs 1).state = .zombie ∧ (s.mem.procs 1).parent = some 0 ∧
      (s.mem.procs 0).state = .runnable ∧ NoLostWakeup s := by
  obtain ⟨s, hr, h⟩ := Sys.exists_run
    (Trace.solo (Trace.boot ++ Trace.fork ++ Trace.waitSleep ++ .sys .exit :: .replicate 3 .tau))
    (fun s : Sys 2 1 => decide ((s.mem.procs 1).state = .zombie ∧
      (s.mem.procs 1).parent = some 0 ∧ (s.mem.procs 0).state = .runnable)) (by decide)
  have h := of_decide_eq_true h
  exact ⟨s, hr, h.1, h.2.1, h.2.2, no_lost_wakeup (Reachable.init.run hr)⟩

/-! ## No parent waits for nothing -/

/-- In state `s`, a process SLEEPING on its own channel (in `wait`) has a child, no ZOMBIE
child, and is not killed. -/
def WaitNotStale (s : Sys n m) : Prop :=
  ∀ p, (s.mem.procs p).state = .sleeping → (s.mem.procs p).chan = some (.proc p) →
    (∃ j, (s.mem.procs j).parent = some p) ∧ ¬HasZombieChild s.mem.procs p ∧
      (s.mem.procs p).killed = false

/-- **No parent waits for nothing**, in every reachable state, whether or not `ptable.lock`
is held. -/
theorem wait_not_stale {s : Sys n m} (h : Reachable s) : WaitNotStale s :=
  fun p hs hc => (SleepInv.of_reachable h).asleep p ⟨hs, hc⟩

/-- Init sleeps in `wait` on its own channel while its child runs in user mode. -/
theorem wait_not_stale_waitSleep : ∃ s : Sys 2 1,
    Sys.init.run (Trace.solo (Trace.boot ++ Trace.fork ++ Trace.waitSleep)) = some s ∧
      (s.mem.procs 0).state = .sleeping ∧ (s.mem.procs 0).chan = some (.proc 0) ∧ WaitNotStale s := by
  obtain ⟨s, hr, h⟩ := Sys.exists_run
    (Trace.solo (Trace.boot ++ Trace.fork ++ Trace.waitSleep))
    (fun s : Sys 2 1 =>
      decide ((s.mem.procs 0).state = .sleeping ∧ (s.mem.procs 0).chan = some (.proc 0))) (by decide)
  have h := of_decide_eq_true h
  exact ⟨s, hr, h.1, h.2, wait_not_stale (Reachable.init.run hr)⟩

end Xv6
