import Xv6.Machine

/-!
# Process ids

`allocproc` gives each new process `pid = nextpid++`, where `nextpid` is a 32-bit `int`. When
the `kalloc` for the kernel stack fails, the slot goes back to UNUSED but the pid stays
spent, so a `fork` that fails there still advances `nextpid`. On a machine with two slots and
one CPU, init alone, forking over and over while `kalloc` fails, drives `nextpid` through
every 32-bit value (`initAlone`, `run_forkNoStack`): after 2^31 - 2 failed forks from boot,
the next `fork` hands its child the negative pid `INT_MIN`, and after 2^32 - 1 of them it
hands out pid 1, init's own.
-/

namespace Xv6

/-- Init's record once it runs in user mode after boot. -/
def bootedInit : Proc 2 :=
  { sz := 4096, pgdir := 2, kstack := 1, state := .running, pid := 1, parent := none,
    context := none, chan := none, killed := false }

/-- Init running in user mode on the one CPU, slot 1 UNUSED with pid `y` left in it, and
`nextpid = x`. -/
def initAlone (x y : Int) : Sys 2 1 where
  mem :=
    { procs := fun i => if i = 0 then bootedInit else { Proc.empty with pid := y }
      nextpid := x, initproc := some 0, first := false, ticks := 0, idequeue := [], disk := none
      bvalid := fun _ => false, bdirty := fun _ => false, blocked := fun _ => false }
  cpus := fun _ => { run := .proc 0 .user, proc := some 0, ncli := 0, halt := none }
  owner := fun _ => none

/-- Everything in a state of the two-slot, one-CPU machine, with the tables read at each
index. -/
def Sys.contents (s : Sys 2 1) :=
  (s.mem.procs 0, s.mem.procs 1, s.mem.nextpid, s.mem.initproc, s.mem.first, s.mem.ticks,
    s.mem.idequeue, s.mem.disk, s.mem.bvalid, s.mem.bdirty, s.mem.blocked, s.cpus 0,
    s.owner .ptable, s.owner .tickslock, s.owner .idelock, s.owner .kmem)

theorem Sys.eq_of_contents {s t : Sys 2 1} (h : s.contents = t.contents) : s = t := by
  obtain ⟨⟨p, a, b, c, d, e, f, g, h₁, h₂⟩, cp, ow⟩ := s
  obtain ⟨⟨p', a', b', c', d', e', f', g', h₁', h₂'⟩, cp', ow'⟩ := t
  simp only [contents, Prod.mk.injEq] at h
  obtain ⟨h0, h1, rfl, rfl, rfl, rfl, rfl, rfl, rfl, rfl, rfl, hc, hpt, htk, hid, hkm⟩ := h
  have hp : p = p' := funext fun
    | 0 => h0
    | 1 => h1
  have hcp : cp = cp' := funext fun | 0 => hc
  have how : ow = ow' := funext fun l => by cases l <;> assumption
  subst hp hcp how
  rfl

/-- A run ends in `t` if it ends in a state with `t`'s contents. -/
theorem Sys.run_eq_of_contents {s t : Sys 2 1} {tr : List (Fin 1 × Choice)}
    (h : (s.run tr).map contents = some t.contents) : s.run tr = some t := by
  cases hr : s.run tr with
  | none => rw [hr] at h; cases h
  | some t' => rw [hr] at h; exact congrArg some (eq_of_contents (Option.some.inj h))

theorem run_boot : (Sys.init : Sys 2 1).run (Trace.solo Trace.boot) = some (initAlone 2 0) :=
  Sys.run_eq_of_contents rfl

/-- The running process calls `fork`; `allocproc` claims a slot, and `kalloc` for its kernel
stack fails. -/
def Trace.forkNoStack : List Choice := .sys .fork :: .replicate 5 .tau ++ [.alloc 0, .tau]

/-- **A failed `fork` spends a pid.** -/
theorem run_forkNoStack (x y : Int) :
    (initAlone x y).run (Trace.solo Trace.forkNoStack) = some (initAlone (int32Succ x) x) :=
  Sys.run_eq_of_contents rfl

theorem reachable_initAlone (k : Nat) : ∃ y, Reachable (initAlone (int32Succ^[k] 2) y) := by
  induction k with
  | zero => exact ⟨0, Reachable.init.run run_boot⟩
  | succ k ih =>
    obtain ⟨y, hy⟩ := ih
    rw [Function.iterate_succ_apply']
    exact ⟨_, hy.run (run_forkNoStack _ y)⟩

/-- `k` increments of a 32-bit `int` from `x`. -/
theorem int32Succ_iterate (k : Nat) {x : Int} (h₁ : -2 ^ 31 ≤ x) (h₂ : x < 2 ^ 31) :
    int32Succ^[k] x = (x + k + 2 ^ 31) % 2 ^ 32 - 2 ^ 31 := by
  induction k with
  | zero => simp only [Function.iterate_zero, id_eq, Nat.cast_zero]; omega
  | succ k ih => rw [Function.iterate_succ_apply', ih, int32Succ]; push_cast; omega

/-- Once init has failed to fork 2^31 - 2 times, its next `fork` hands the child the negative
pid `INT_MIN`; once it has failed 2^32 - 1 times, the child gets pid 1 while init, pid 1, is
running. -/
theorem pid_wraps :
    (∃ s : Sys 2 1, Reachable s ∧ ∃ i, (s.mem.procs i).state = .embryo ∧ (s.mem.procs i).pid < 0) ∧
    ∃ s : Sys 2 1, Reachable s ∧ ∃ i j, i ≠ j ∧ (s.mem.procs i).state ≠ .unused ∧
      (s.mem.procs j).state ≠ .unused ∧ (s.mem.procs i).pid = (s.mem.procs j).pid := by
  have claim (k : Nat) (P : Sys 2 1 → Bool)
      (hP : ∀ y, ((initAlone (int32Succ^[k] 2) y).run (Trace.solo [.sys .fork, .tau, .tau])).any P) :
      ∃ s, Reachable s ∧ P s := by
    obtain ⟨y, hy⟩ := reachable_initAlone k
    exact hy.after _ P (hP y)
  have hmin : int32Succ^[2 ^ 31 - 2] 2 = -2 ^ 31 := by
    rw [int32Succ_iterate _ (by omega) (by omega)]; omega
  have hone : int32Succ^[2 ^ 32 - 1] 2 = 1 := by
    rw [int32Succ_iterate _ (by omega) (by omega)]; omega
  constructor
  · obtain ⟨s, hr, h⟩ := claim (2 ^ 31 - 2)
      (fun s => decide ((s.mem.procs 1).state = .embryo ∧ (s.mem.procs 1).pid < 0))
      (fun y => by rw [hmin]; rfl)
    exact ⟨s, hr, 1, by simpa using h⟩
  · obtain ⟨s, hr, h⟩ := claim (2 ^ 32 - 1)
      (fun s => decide ((s.mem.procs 1).state = .embryo ∧ (s.mem.procs 0).state = .running ∧
        (s.mem.procs 1).pid = (s.mem.procs 0).pid))
      (fun y => by rw [hone]; rfl)
    simp only [decide_eq_true_eq] at h
    exact ⟨s, hr, 1, 0, by decide, by simp [h.1], by simp [h.2.1], h.2.2⟩

end Xv6
