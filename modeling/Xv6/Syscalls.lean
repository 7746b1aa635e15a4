import Xv6.Machine

/-!
# `kill` and `sys_sleep`

`kill(pid)` takes `ptable.lock`, gives the first slot in table order whose `pid` is `pid`
`killed = 1`, makes it RUNNABLE if it was SLEEPING, and returns 0; if no slot matches it
returns -1 (`kill`, `kill_spec`). The loop tests the `pid` field alone, so an UNUSED slot
matches too: a slot never used, or one that `wait` reaped, holds pid 0, and one that
`allocproc` gave back after a failed `kalloc` keeps the pid it was given. The flag set there
stays until `allocproc` builds a new process in the slot, and that process exits at its first
trap. Nothing stops a process from killing `initproc` either: init then calls `exit` at its
next trap from user mode, and `exit` panics.

`sys_sleep(n)` loops while `ticks - ticks0 < n`. The left side is a `uint`, so `n` is
converted to `uint` too, and a negative `n` makes the caller sleep until `ticks` has advanced
by `2^32 + n`.
-/

namespace Xv6

variable {n : Nat}

/-! ## `kill` -/

/-- `kill(pid)` on the table: what it returns and the table it leaves. -/
def kill (t : Fin n → Proc n) (pid : Int) : Int × (Fin n → Proc n) :=
  match scanFrom t 0 (fun q => decide (q.pid = pid)) with
  | some i => (0, Function.update t i (killSlot (t i)))
  | none => (-1, t)

/-- The machine's `killScan` statement runs `kill` on the table. -/
theorem Kernel.exec_killScan {m : Nat} (s : Kernel n) (c : Fin m) (me : Option (Fin n))
    (pid : Int) (ch : Choice) :
    s.exec c me (.killScan pid) ch =
      some (.next (.release .ptable (.sysRet (kill s.procs pid).1))
        { s with procs := (kill s.procs pid).2 }) := by
  cases h : scanFrom s.procs 0 (fun q => decide (q.pid = pid)) <;> simp only [Kernel.exec, kill, h]
  rfl

/-- **What `kill` does.** Either some slot, in whatever state, holds `pid`: `kill` returns 0,
kills one such slot and changes no other. Or none does: it returns -1 and changes nothing. -/
theorem kill_spec (t : Fin n → Proc n) (pid : Int) :
    (∃ i, (t i).pid = pid ∧ kill t pid = (0, Function.update t i (killSlot (t i)))) ∨
      ((∀ i, (t i).pid ≠ pid) ∧ kill t pid = (-1, t)) := by
  cases h : scanFrom t 0 (fun q => decide (q.pid = pid)) with
  | some i => exact .inl ⟨i, by simpa using (scanFrom_spec h).2, by simp only [kill, h]⟩
  | none =>
    exact .inr ⟨fun i => by simpa using scanFrom_eq_none.mp h i (Nat.zero_le _),
      by simp only [kill, h]⟩

/-- Once init runs, `kill(0)` returns 0 though no process has pid 0, and sets `killed` on an
UNUSED slot. -/
theorem kill_unused_slot : ∃ s : Sys 2 1, Reachable s ∧
    (∀ i, (s.mem.procs i).pid = 0 → (s.mem.procs i).state = .unused) ∧
    (kill s.mem.procs 0).1 = 0 ∧
    ∃ i, (s.mem.procs i).state = .unused ∧
      ((kill s.mem.procs 0).2 i).killed ≠ (s.mem.procs i).killed := by
  obtain ⟨s, hr, h⟩ := Reachable.of_run (Trace.solo Trace.boot)
    (fun s : Sys 2 1 => decide ((∀ i, (s.mem.procs i).pid = 0 → (s.mem.procs i).state = .unused) ∧
      (kill s.mem.procs 0).1 = 0 ∧ ∃ i, (s.mem.procs i).state = .unused ∧
        ((kill s.mem.procs 0).2 i).killed ≠ (s.mem.procs i).killed)) (by decide)
  exact ⟨s, hr, by simpa using h⟩

/-- A user process calls `kill(pid)` and is back in user mode. -/
def Trace.kill (pid : Int) : List Choice := .sys (.kill pid) :: .replicate 4 .tau

/-- `kill(0)` marks the UNUSED slot 1 killed; init's next `fork` builds its child there, and
`allocproc` hands `fork` a record with `killed = 1`. -/
theorem killed_embryo : ∃ s : Sys 2 1, Reachable s ∧
    ∃ i, (s.mem.procs i).state = .embryo ∧ (s.mem.procs i).killed = true := by
  obtain ⟨s, hr, h⟩ := Reachable.of_run
    (Trace.solo (Trace.boot ++ Trace.kill 0 ++ [.sys .fork, .tau, .tau]))
    (fun s : Sys 2 1 => decide ((s.mem.procs 1).state = .embryo ∧ (s.mem.procs 1).killed = true))
    (by decide)
  exact ⟨s, hr, 1, by simpa using h⟩

/-- Init forks a child and is preempted; the child kills pid 1; at init's next timer trap,
`trap` sends it to `exit`, and `exit` panics. -/
theorem init_killed_panics : ∃ s : Sys 2 1, Reachable s ∧
    ∃ c, (s.cpus c).halt = some .initExiting := by
  obtain ⟨s, hr, h⟩ := Reachable.of_run
    (Trace.solo (Trace.boot ++ Trace.fork ++ Trace.yield ++ Trace.kill 1 ++
      .intr .timer :: .replicate 19 .tau))
    (fun s : Sys 2 1 => decide ((s.cpus 0).halt = some .initExiting)) (by decide)
  exact ⟨s, hr, 0, by simpa using h⟩

/-! ## `sys_sleep` -/

/-- Init calls `sleep(-1)` and, instead of returning, goes to sleep on `&ticks`. -/
theorem sleep_negative_sleeps : ∃ s : Sys 2 1, Reachable s ∧
    ∃ c p, (s.cpus c).run.owner = some p ∧ (s.cpus c).run.code.schedSite = some (.sysSleep (-1) 0) ∧
      (s.mem.procs p).state = .sleeping ∧ (s.mem.procs p).chan = some .ticks := by
  obtain ⟨s, hr, h⟩ := Reachable.of_run
    (Trace.solo (Trace.boot ++ .sys (.sleep (-1)) :: .replicate 6 .tau))
    (fun s : Sys 2 1 => decide ((s.cpus 0).run.owner = some 0 ∧
      (s.cpus 0).run.code.schedSite = some (.sysSleep (-1) 0) ∧
      (s.mem.procs 0).state = .sleeping ∧ (s.mem.procs 0).chan = some .ticks)) (by decide)
  exact ⟨s, hr, 0, 0, by simpa using h⟩

end Xv6
