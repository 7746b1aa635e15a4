import Xv6.Proc

/-!
# The machine

The whole system as one state machine: the process table, one record per CPU (the stack it
runs on and the code it runs there), the owner of each spin lock, and the globals the
modelled paths touch (`nextpid`, `initproc`, `forkret`'s `first`, `ticks`, the disk queue).
`step s c ch` runs one statement of CPU `c`. The choice `ch` settles what the code leaves
open: the system call a user program makes, the interrupt that arrives, what `kalloc`
returns, whether a loop of `kalloc`s or `kfree`s goes round once more.

A lock's owner is a CPU (`lk->cpu`), so `ptable.lock` taken by a process stays held when
its CPU `swtch`es to the scheduler, as in the code. A CPU waiting in `acquire` for a lock
another CPU holds has no step. `m` is the number of CPUs, `n` the size of the table.
-/

namespace Xv6

/-- The stack a CPU runs on and the code it runs there. -/
inductive Run (n : Nat) where
  /-- The CPU's own stack: the boot stack, then the scheduler's. -/
  | sched (k : Code n)
  /-- The kernel stack of process `p`. -/
  | proc (p : Fin n) (k : Code n)

namespace Run

variable {n : Nat}

def code : Run n → Code n
  | .sched k | .proc _ k => k

/-- The process whose kernel stack the CPU is on: `myproc()` there. -/
def owner : Run n → Option (Fin n)
  | .sched _ => none
  | .proc p _ => some p

def setCode : Run n → Code n → Run n
  | .sched _, k => .sched k
  | .proc p _, k => .proc p k

@[simp] theorem code_setCode (r : Run n) (k : Code n) : (r.setCode k).code = k := by
  cases r <;> rfl

@[simp] theorem owner_setCode (r : Run n) (k : Code n) : (r.setCode k).owner = r.owner := by
  cases r <;> rfl

end Run

/-- `struct cpu`: `proc` and `ncli`, what the CPU runs, and whether it has panicked. -/
structure Cpu (n : Nat) where
  run : Run n
  proc : Option (Fin n)
  ncli : Nat
  halt : Option Panic

/-- The system calls of `sysproc.c`, and a buffer-cache request that reaches `iderw`. -/
inductive Syscall where
  | fork
  | exit
  | wait
  | kill (pid : Int)
  | sleep (n : Int)
  | uptime
  | getpid
  /-- Modelled from the spec: `bread` (`write = false`) or `bwrite` of buffer `b`, which call
  `iderw(b)`. -/
  | disk (b : Nat) (write : Bool)

/-- The traps the modelled paths handle: the timer, the disk, and an exception. -/
inductive Irq where
  | timer
  | disk
  | fault

/-- What the code leaves open at a step. -/
inductive Choice where
  /-- The next statement. -/
  | tau
  /-- A system call from user mode. -/
  | sys (call : Syscall)
  /-- A trap. -/
  | intr (irq : Irq)
  /-- What `kalloc` (or `copyuvm`, `setupkvm`) returned; `0` is failure. -/
  | alloc (a : Nat)
  /-- One more `kalloc` or `kfree` in a loop of them. -/
  | again

/-- The kernel's memory that the modelled paths touch: the process table and the globals. -/
structure Kernel (n : Nat) where
  procs : Fin n → Proc n
  nextpid : Int
  initproc : Option (Fin n)
  /-- `forkret`'s `static int first`. -/
  first : Bool
  ticks : Nat
  idequeue : List Nat
  /-- The request `idestart` gave the disk and `ideintr` has not completed. -/
  disk : Option Nat
  bvalid : Nat → Bool
  bdirty : Nat → Bool
  /-- Modelled from the spec: the buffer's sleep lock is held (between `bread`/`bwrite` and
  `brelse`). -/
  blocked : Nat → Bool

/-- What one statement does. Most statements only change memory and go on (`next`); the
others act on the CPU itself: the lock operations, `sched`'s `swtch` out of a process, the
scheduler's `swtch` into one, the scheduler's `c->proc = 0`, and `panic`. -/
inductive Effect (n : Nat) where
  | next (k : Code n) (mem : Kernel n)
  | acquire (l : Lock) (k : Code n)
  | release (l : Lock) (k : Code n)
  | sched (p : Fin n) (ret : Code n)
  | dispatch (j : Fin n)
  | resume (k : Code n)
  | halt (why : Panic)

/-- The state of the system: memory, the CPUs, and the CPU holding each spin lock. -/
structure Sys (n m : Nat) where
  mem : Kernel n
  cpus : Fin m → Cpu n
  owner : Lock → Option (Fin m)

/-- `nextpid++` on a 32-bit `int`. -/
def int32Succ (x : Int) : Int := (x + 1 + 2 ^ 31) % 2 ^ 32 - 2 ^ 31

/-- A 32-bit value read as an `int`. -/
def int32Of (x : Int) : Int := (x + 2 ^ 31) % 2 ^ 32 - 2 ^ 31

namespace Kernel

variable {n : Nat} (s : Kernel n)

def setProc (p : Fin n) (f : Proc n → Proc n) : Kernel n :=
  { s with procs := Function.update s.procs p (f (s.procs p)) }

/-- `allocproc`'s scan under `ptable.lock`: claim the first UNUSED slot as EMBRYO with
`pid = nextpid++`, release the lock and `kalloc` the kernel stack. `userinit` does not
check for failure and dereferences the null result (a kernel-mode fault). -/
def allocScan (site : AllocSite) : Effect n :=
  match scanFrom s.procs 0 (fun q => decide (q.state = .unused)) with
  | none => match site with
    | .fork => .next (.release .ptable (.sysRet (-1))) s
    | .userinit => .halt .trap
  | some i =>
    .next (.release .ptable (Code.kmemRound (.allocKstack site i)))
      { s.setProc i (fun q => { q with state := .embryo, pid := s.nextpid }) with
        nextpid := int32Succ s.nextpid }

/-- `allocproc` once `kalloc` returned `a` for the kernel stack: back to UNUSED on
failure; otherwise the stack gets a context that resumes at `forkret`. `userinit` then
sets `initproc`. -/
def allocKstack (site : AllocSite) (i : Fin n) (a : Nat) : Effect n :=
  if a = 0 then
    match site with
    | .fork => .next (.sysRet (-1)) (s.setProc i fun q => { q with state := .unused })
    | .userinit => .halt .trap
  else
    let s := s.setProc i fun q => { q with kstack := a, context := some .forkret }
    match site with
    | .fork => .next (.forkCopy i) s
    | .userinit => .next (.userinitVm i) { s with initproc := some i }

/-- `wait`'s scan under `ptable.lock`, for process `p`: reap the first ZOMBIE child
(`kfree(p->kstack)` first), else return -1 if `p` has no child or is killed, else
`sleep(curproc, &ptable.lock)`. -/
def waitScan (p : Fin n) : Effect n :=
  match scanFrom s.procs 0 (fun q => decide (q.parent = some p ∧ q.state = .zombie)) with
  | some i =>
    if (s.procs i).kstack = 0 then .halt .kfree
    else .next (Code.kmemRound (.waitKstack i)) s
  | none =>
    if !(List.finRange n).any (fun j => decide ((s.procs j).parent = some p)) ||
        (s.procs p).killed then
      .next (.release .ptable (.sysRet (-1))) s
    else .next (.sleepSet .wait) s

/-- `exit` under `ptable.lock`, for process `p`: `wakeup1(curproc->parent)`, the
reparenting loop, `curproc->state = ZOMBIE`. -/
def exitWake (p : Fin n) : Kernel n :=
  let t := reparent (wakeup1 s.procs ((s.procs p).parent.map .proc)) p s.initproc
  { s with procs := Function.update t p { t p with state := .zombie } }

/-- `trap(T_SYSCALL)` from user mode for process `p`: the first `killed` check, then
`syscall()` enters the call's code. -/
def syscall (p : Fin n) (call : Syscall) : Option (Effect n) :=
  if (s.procs p).killed then some (.next .exitStart s) else
  match call with
  | .fork => some (.next (.acquire .ptable (.allocScan .fork)) s)
  | .exit => some (.next .exitStart s)
  | .wait => some (.next (.acquire .ptable .waitScan) s)
  | .kill pid => some (.next (.acquire .ptable (.killScan pid)) s)
  | .sleep nt => some (.next (.acquire .tickslock (.sysSleepStart nt)) s)
  | .uptime => some (.next (.acquire .tickslock .uptimeRead) s)
  | .getpid => some (.next (.sysRet (s.procs p).pid) s)
  | .disk b write =>
    if s.blocked b || (!write && s.bvalid b) then none else
    let s := { s with blocked := Function.update s.blocked b true,
                      bdirty := if write then Function.update s.bdirty b true else s.bdirty }
    if s.bvalid b && !s.bdirty b then some (.halt .iderwNothing)
    else some (.next (.acquire .idelock (.iderwAppend b)) s)

/-- Where `sleep` returns to its caller, after `p->chan = 0`. -/
def sleepReturn : SleepSite → Code n
  | .wait => .waitScan
  | .sysSleep nt t0 => .release .ptable (.acquire .tickslock (.sysSleepLoop nt t0))
  | .iderw b => .release .ptable (.acquire .idelock (.iderwLoop b))

/-- A trap arriving at CPU `c` (of `m`) while it runs `k`: only where interrupts are on;
the disk interrupt goes to the last CPU (`ioapicenable(IRQ_IDE, ncpu - 1)`) once the disk
has finished a request; an exception is modelled from user mode only. -/
def trapEntry {m : Nat} (c : Fin m) (k : Code n) (irq : Irq) : Option (Effect n) :=
  if !k.interruptible then none else
  match irq with
  | .timer => some (.next (.tmr k) s)
  | .disk => if c.val + 1 = m ∧ s.disk.isSome then
      some (.next (.acquire .idelock (.ideHead k)) s) else none
  | .fault => if k.isUser then some (.next (.fault k) s) else none

/-- What one statement at code `k` does, run by CPU `c` on the stack of `me`. -/
def exec {m : Nat} (c : Fin m) (me : Option (Fin n)) : Code n → Choice → Option (Effect n)
  | .acquire l k, _ => some (.acquire l k)
  | .release l k, _ => some (.release l k)
  | .user, ch => match ch with
    | .sys call => me.bind fun p => s.syscall p call
    | _ => none
  | .sysRet _, _ => me.map fun p =>
      if (s.procs p).killed then .next .exitStart s else .next .user s
  | .allocScan site, _ => some (s.allocScan site)
  | .allocKstack site i, ch => match ch with
    | .alloc a => some (s.allocKstack site i a)
    | _ => none
  | .userinitVm i, ch => match ch with
    | .again => some (.next (Code.kmemRound (.userinitVm i)) s)
    | .alloc h => some <|
      if h = 0 then .halt .userinitOom
      else .next (.acquire .ptable (.userinitRun i))
        (s.setProc i fun q => { q with pgdir := h, sz := 4096 })
    | _ => none
  | .userinitRun i, _ => some <|
      .next (.release .ptable Code.schedLoop) (s.setProc i fun q => { q with state := .runnable })
  | .forkCopy i, ch => match ch with
    | .again => some (.next (Code.kmemRound (.forkCopy i)) s)
    | .alloc h => some <|
      if h = 0 then .next (.forkUndo i) (s.setProc i fun q => { q with pgdir := 0 })
      else .next (.forkSet i) (s.setProc i fun q => { q with pgdir := h })
    | _ => none
  | .forkUndo i, ch => match ch with
    | .again => some (.next (Code.kmemRound (.forkUndo i)) s)
    | .tau => some <|
      .next (.sysRet (-1)) (s.setProc i fun q => { q with kstack := 0, state := .unused })
    | _ => none
  | .forkSet i, _ => me.map fun p =>
      .next (.acquire .ptable (.forkRun i))
        (s.setProc i fun q => { q with sz := (s.procs p).sz, parent := some p })
  | .forkRun i, _ => some <|
      .next (.release .ptable (.sysRet (s.procs i).pid)) (s.setProc i fun q => { q with state := .runnable })
  | .waitScan, _ => me.map fun p => s.waitScan p
  | .waitKstack i, _ => some <|
      if (s.procs i).pgdir = 0 then .halt .freevm
      else .next (.waitFreevm i) (s.setProc i fun q => { q with kstack := 0 })
  | .waitFreevm i, ch => match ch with
    | .again => some (.next (Code.kmemRound (.waitFreevm i)) s)
    | .tau => some <|
      .next (.release .ptable (.sysRet (s.procs i).pid)) (s.setProc i fun q =>
        { q with pid := 0, parent := none, killed := false, state := .unused })
    | _ => none
  | .killScan pid, _ => some <|
      match scanFrom s.procs 0 (fun q => decide (q.pid = pid)) with
      | some i => .next (.release .ptable (.sysRet 0)) (s.setProc i killSlot)
      | none => .next (.release .ptable (.sysRet (-1))) s
  | .sysSleepStart nt, _ => some (.next (.sysSleepLoop nt s.ticks) s)
  | .sysSleepLoop nt t0, _ => me.map fun p =>
      if (s.ticks + 2 ^ 32 - t0) % 2 ^ 32 < (nt % 2 ^ 32).toNat then
        if (s.procs p).killed then .next (.release .tickslock (.sysRet (-1))) s
        else .next (.acquire .ptable (.release .tickslock (.sleepSet (.sysSleep nt t0)))) s
      else .next (.release .tickslock (.sysRet 0)) s
  | .uptimeRead, _ => some (.next (.release .tickslock (.sysRet (int32Of s.ticks))) s)
  | .iderwAppend b, _ => some <|
      let s := { s with idequeue := s.idequeue ++ [b] }
      .next (.iderwLoop b) (if s.idequeue.head? = some b then { s with disk := some b } else s)
  | .iderwLoop b, _ => some <|
      if s.bvalid b && !s.bdirty b then .next (.release .idelock (.brelse b)) s
      else .next (.acquire .ptable (.release .idelock (.sleepSet (.iderw b)))) s
  | .brelse b, _ => some (.next (.sysRet 0) { s with blocked := Function.update s.blocked b false })
  | .sleepSet site, _ => me.map fun p =>
      .next (.sleepSched site)
        (s.setProc p fun q => { q with chan := some (site.chan p), state := .sleeping })
  | .sleepSched site, _ => me.map fun p => .sched p (.sleepRet site)
  | .sleepRet site, _ => me.map fun p =>
      .next (sleepReturn site) (s.setProc p fun q => { q with chan := none })
  | .exitStart, _ => me.map fun p =>
      if s.initproc = some p then .halt .initExiting else .next (.acquire .ptable .exitWake) s
  | .exitWake, _ => me.map fun p => .next .exitSched (s.exitWake p)
  | .exitSched, _ => me.map fun p => .sched p .exitRet
  | .exitRet, _ => some (.halt .zombieExit)
  | .forkret, _ => some (.release .ptable .forkretFirst)
  | .forkretFirst, _ => some (.next .user { s with first := false })
  | .tmr r, _ => some <|
      if c.val = 0 then .next (.acquire .tickslock (.tick r)) s else .next (.trapChk1 true r) s
  | .tick r, _ => some <|
      .next (.acquire .ptable (.wakeup1 .ticks (.release .tickslock (.trapChk1 true r))))
        { s with ticks := (s.ticks + 1) % 2 ^ 32 }
  | .ideHead r, _ => some <|
      match s.idequeue with
      | [] => .next (.release .idelock (.trapChk1 false r)) s
      | b :: rest =>
        .next (.acquire .ptable (.wakeup1 (.buf b) (.ideNext r)))
          { s with idequeue := rest, disk := none, bvalid := Function.update s.bvalid b true,
                   bdirty := Function.update s.bdirty b false }
  | .ideNext r, _ => some <|
      .next (.release .idelock (.trapChk1 false r)) { s with disk := s.idequeue.head? }
  | .fault r, _ => me.map fun p =>
      .next (.trapChk1 false r) (s.setProc p fun q => { q with killed := true })
  | .trapChk1 timer r, _ => some <|
      match me with
      | some p =>
        if (s.procs p).killed && r.isUser then .next .exitStart s
        else if (s.procs p).state = .running ∧ timer then .next (.acquire .ptable (.yieldSet r)) s
        else .next (.trapChk2 r) s
      | none => .next (.trapChk2 r) s
  | .yieldSet r, _ => me.map fun p =>
      .next (.yieldSched r) (s.setProc p fun q => { q with state := .runnable })
  | .yieldSched r, _ => me.map fun p => .sched p (.yieldRet r)
  | .yieldRet r, _ => some (.release .ptable (.trapChk2 r))
  | .trapChk2 r, _ => some <|
      match me with
      | some p => if (s.procs p).killed && r.isUser then .next .exitStart s else .next r s
      | none => .next r s
  | .wakeup1 ch k, _ => some (.next (.wakeRel ch k) { s with procs := wakeup1 s.procs (some ch) })
  | .wakeRel _ k, _ => some (.release .ptable k)
  | .schedScan i, _ => some <|
      match scanFrom s.procs i (fun q => decide (q.state = .runnable)) with
      | some j => .dispatch j
      | none => .next (.release .ptable Code.schedLoop) s
  | .schedResume j, _ => some (.resume (.schedScan (j.val + 1)))

end Kernel

namespace Sys

variable {n m : Nat}

/-- After `kinit`, `startothers` and before `userinit`: the boot CPU (CPU 0) is about to
create the first process, the others run their schedulers over an empty table. -/
def init : Sys n m where
  mem :=
    { procs := fun _ => Proc.empty
      nextpid := 1
      initproc := none
      first := true
      ticks := 0
      idequeue := []
      disk := none
      bvalid := fun _ => false
      bdirty := fun _ => false
      blocked := fun _ => false }
  cpus := fun c =>
    { run := .sched (if c.val = 0 then .acquire .ptable (.allocScan .userinit)
        else Code.schedLoop)
      proc := none, ncli := 0, halt := none }
  owner := fun _ => none

variable (s : Sys n m)

def setCpu (c : Fin m) (f : Cpu n → Cpu n) : Sys n m :=
  { s with cpus := Function.update s.cpus c (f (s.cpus c)) }

/-- CPU `c` goes on to `k` on the same stack. -/
def goto (c : Fin m) (k : Code n) : Sys n m :=
  s.setCpu c fun x => { x with run := x.run.setCode k }

/-- `panic`: CPU `c` stops where it is, holding what it holds. -/
def halt (c : Fin m) (why : Panic) : Sys n m :=
  s.setCpu c fun x => { x with halt := some why }

/-- `acquire(lk)`, then `k`: a CPU that holds `lk` panics; if another CPU holds it, there
is no step (the CPU spins). -/
def acquire (c : Fin m) (l : Lock) (k : Code n) : Option (Sys n m) :=
  if s.owner l = some c then some (s.halt c .acquire)
  else if s.owner l = none then
    some ({ s with owner := Function.update s.owner l (some c) }.setCpu c fun x =>
      { x with ncli := x.ncli + 1, run := x.run.setCode k })
  else none

/-- `release(lk)`, then `k`. -/
def release (c : Fin m) (l : Lock) (k : Code n) : Sys n m :=
  if s.owner l ≠ some c then s.halt c .release
  else if (s.cpus c).ncli = 0 then s.halt c .popcli
  else { s with owner := Function.update s.owner l none }.setCpu c fun x =>
    { x with ncli := x.ncli - 1, run := x.run.setCode k }

/-- `sched()` for process `p` on CPU `c`, resuming at `ret`: its checks, then
`swtch(&p->context, mycpu()->scheduler)`. The context saves `ret`; the CPU is back on its
scheduler's stack, after the `swtch` that dispatched `p`. Interrupts are on exactly when
no `pushcli` is outstanding. -/
def sched (c : Fin m) (p : Fin n) (ret : Code n) : Sys n m :=
  if s.owner .ptable ≠ some c then s.halt c .schedPtable
  else if (s.cpus c).ncli ≠ 1 then s.halt c .schedLocks
  else if (s.mem.procs p).state = .running then s.halt c .schedRunning
  else if (s.cpus c).ncli = 0 then s.halt c .schedInterruptible
  else { s with mem := s.mem.setProc p fun q => { q with context := some ret } }.setCpu c
    fun x => { x with run := .sched (.schedResume p) }

/-- The scheduler's dispatch of slot `j`: `c->proc = p; switchuvm(p); p->state = RUNNING;
swtch(&(c->scheduler), p->context)`. -/
def dispatch (c : Fin m) (j : Fin n) : Sys n m :=
  if (s.mem.procs j).kstack = 0 then s.halt c .switchuvmKstack
  else if (s.mem.procs j).pgdir = 0 then s.halt c .switchuvmPgdir
  else match (s.mem.procs j).context with
    | none => s.halt c .badContext
    | some k =>
      { s with mem := s.mem.setProc j fun q => { q with state := .running, context := none } }.setCpu c
        fun x => { x with proc := some j, run := .proc j k }

/-- Carry out an effect on CPU `c`. -/
def apply (c : Fin m) : Effect n → Option (Sys n m)
  | .next k mem => some ({ s with mem := mem }.goto c k)
  | .acquire l k => s.acquire c l k
  | .release l k => some (s.release c l k)
  | .sched p ret => some (s.sched c p ret)
  | .dispatch j => some (s.dispatch c j)
  | .resume k => some (s.setCpu c fun x => { x with proc := none, run := x.run.setCode k })
  | .halt why => some (s.halt c why)

/-- What CPU `c` does under choice `ch`: take an interrupt or run its next statement. -/
def effect (c : Fin m) : Choice → Option (Effect n)
  | .intr irq => s.mem.trapEntry c (s.cpus c).run.code irq
  | ch => s.mem.exec c (s.cpus c).run.owner (s.cpus c).run.code ch

end Sys

/-- One step of CPU `c`. A CPU that has panicked does nothing. -/
def step {n m : Nat} (s : Sys n m) (c : Fin m) (ch : Choice) : Option (Sys n m) :=
  match (s.cpus c).halt with
  | some _ => none
  | none => (s.effect c ch).bind (s.apply c)

/-! ## Reading the state after an operation -/

namespace Kernel

variable {n : Nat} (s : Kernel n)

theorem setProc_procs (p : Fin n) (f : Proc n → Proc n) :
    (s.setProc p f).procs = Function.update s.procs p (f (s.procs p)) := rfl

@[simp] theorem setProc_self (p : Fin n) (f : Proc n → Proc n) :
    (s.setProc p f).procs p = f (s.procs p) := by
  simp [setProc]

theorem setProc_ne {p j : Fin n} (f : Proc n → Proc n) (h : j ≠ p) :
    (s.setProc p f).procs j = s.procs j := by
  simp [setProc, Function.update_noteq h]

/-- A field that `f` keeps at slot `i` is kept at every slot. -/
theorem setProc_field {β : Type} (g : Proc n → β) {i : Fin n} {f : Proc n → Proc n}
    (hf : g (f (s.procs i)) = g (s.procs i)) (j : Fin n) :
    g ((s.setProc i f).procs j) = g (s.procs j) := by
  by_cases hji : j = i
  · subst hji; rw [setProc_self]; exact hf
  · rw [setProc_ne _ _ hji]

@[simp] theorem exitWake_context (p i : Fin n) :
    ((s.exitWake p).procs i).context = (s.procs i).context := by
  simp only [exitWake, Function.update_apply]
  split <;> simp_all

end Kernel

namespace Sys

variable {n m : Nat} (s : Sys n m) (c d : Fin m)

theorem setCpu_cpus (f : Cpu n → Cpu n) :
    (s.setCpu c f).cpus d = if d = c then f (s.cpus c) else s.cpus d := by
  simp only [setCpu, Function.update_apply]

@[simp] theorem setCpu_owner (f : Cpu n → Cpu n) : (s.setCpu c f).owner = s.owner := rfl

@[simp] theorem setCpu_mem (f : Cpu n → Cpu n) : (s.setCpu c f).mem = s.mem := rfl

theorem goto_cpus (k : Code n) :
    (s.goto c k).cpus d =
      if d = c then { s.cpus c with run := (s.cpus c).run.setCode k } else s.cpus d :=
  setCpu_cpus s c d _

theorem goto_run (k : Code n) :
    ((s.goto c k).cpus d).run = if d = c then (s.cpus c).run.setCode k else (s.cpus d).run := by
  rw [goto_cpus]; split <;> rfl

@[simp] theorem goto_proc (k : Code n) : ((s.goto c k).cpus d).proc = (s.cpus d).proc := by
  rw [goto_cpus]; split <;> simp_all

@[simp] theorem goto_halt (k : Code n) : ((s.goto c k).cpus d).halt = (s.cpus d).halt := by
  rw [goto_cpus]; split <;> simp_all

@[simp] theorem goto_owner (k : Code n) : (s.goto c k).owner = s.owner := rfl

@[simp] theorem goto_mem (k : Code n) : (s.goto c k).mem = s.mem := rfl

@[simp] theorem halt_run (why : Panic) : ((s.halt c why).cpus d).run = (s.cpus d).run := by
  by_cases h : d = c <;> simp [halt, setCpu, Function.update_apply, h]

@[simp] theorem halt_ncli (why : Panic) : ((s.halt c why).cpus d).ncli = (s.cpus d).ncli := by
  by_cases h : d = c <;> simp [halt, setCpu, Function.update_apply, h]

@[simp] theorem halt_proc (why : Panic) : ((s.halt c why).cpus d).proc = (s.cpus d).proc := by
  by_cases h : d = c <;> simp [halt, setCpu, Function.update_apply, h]

@[simp] theorem halt_owner (why : Panic) : (s.halt c why).owner = s.owner := rfl

@[simp] theorem halt_mem (why : Panic) : (s.halt c why).mem = s.mem := rfl

theorem step_eq_some {s' : Sys n m} {ch : Choice} (h : step s c ch = some s') :
    (s.cpus c).halt = none ∧ ∃ e, s.effect c ch = some e ∧ s.apply c e = some s' := by
  unfold step at h
  split at h
  · cases h
  · exact ⟨‹_›, Option.bind_eq_some.mp h⟩

/-- A step of CPU `c` at code that takes no interrupt runs its statement. -/
theorem step_exec {s' : Sys n m} {ch : Choice} (h : step s c ch = some s')
    (hk : (s.cpus c).run.code.interruptible = false) :
    (s.cpus c).halt = none ∧ ∃ e, s.mem.exec c (s.cpus c).run.owner (s.cpus c).run.code ch = some e ∧
      s.apply c e = some s' := by
  obtain ⟨hh, e, he, ha⟩ := step_eq_some _ _ h
  cases ch with
  | intr irq => simp [effect, Kernel.trapEntry, hk] at he
  | _ => exact ⟨hh, e, he, ha⟩

end Sys

/-- The states the system reaches from `Sys.init`. -/
inductive Reachable {n m : Nat} : Sys n m → Prop
  | init : Reachable Sys.init
  | step {s s' : Sys n m} {c : Fin m} {ch : Choice} :
      Reachable s → step s c ch = some s' → Reachable s'

/-! ## Runs -/

/-- The state after the steps `tr`, one CPU and one choice each, taken one after another. -/
def Sys.run {n m : Nat} (s : Sys n m) : List (Fin m × Choice) → Option (Sys n m)
  | [] => some s
  | (c, ch) :: tr => (step s c ch).bind fun s' => s'.run tr

theorem Reachable.run {n m : Nat} {s s' : Sys n m} {tr : List (Fin m × Choice)} (h : Reachable s)
    (hr : s.run tr = some s') : Reachable s' := by
  induction tr generalizing s with
  | nil => cases hr; exact h
  | cons x tr ih =>
    obtain ⟨s₁, h₁, h₂⟩ := Option.bind_eq_some.mp hr
    exact ih (h.step h₁) h₂

/-- A run from a reachable state that ends where `P` holds shows such a state reachable. -/
theorem Reachable.after {n m : Nat} {s : Sys n m} (hs : Reachable s) (tr : List (Fin m × Choice))
    (P : Sys n m → Bool) (h : (s.run tr).any P) : ∃ s', Reachable s' ∧ P s' := by
  cases hr : s.run tr with
  | none => rw [hr] at h; cases h
  | some s' => rw [hr] at h; exact ⟨s', hs.run hr, h⟩

/-- A run from boot that ends in a state where `P` holds shows such a state reachable. -/
theorem Reachable.of_run {n m : Nat} (tr : List (Fin m × Choice)) (P : Sys n m → Bool)
    (h : (Sys.init.run tr).any P) : ∃ s, Reachable s ∧ P s :=
  Reachable.init.after tr P h

/-- A run from boot that ends in a state where `P` holds: the state it ends in. -/
theorem Sys.exists_run {n m : Nat} (tr : List (Fin m × Choice)) (P : Sys n m → Bool)
    (h : ((Sys.init : Sys n m).run tr).any P) : ∃ s, (Sys.init : Sys n m).run tr = some s ∧ P s := by
  cases hr : (Sys.init : Sys n m).run tr with
  | none => rw [hr] at h; cases h
  | some s => rw [hr] at h; exact ⟨s, rfl, h⟩

/-! ## Runs of a uniprocessor

Pieces of runs of a machine with one CPU, used to exhibit reachable states. Each piece starts
where the one before it ends. -/

namespace Trace

/-- CPU 0 takes every step of `l`. -/
def solo (l : List Choice) : List (Fin 1 × Choice) := l.map ((0 : Fin 1), ·)

/-- `userinit` (its kernel stack at page 1, its page directory at page 2), then the scheduler
dispatches init, which returns to user mode through `forkret`. -/
def boot : List Choice := .replicate 5 .tau ++ [.alloc 1, .alloc 2] ++ .replicate 7 .tau

/-- The running process forks (the child's kernel stack at page 3, its page directory at
page 4) and is back in user mode. -/
def fork : List Choice := .sys .fork :: .replicate 5 .tau ++ [.alloc 3, .alloc 4] ++ .replicate 5 .tau

/-- A timer interrupt in user mode: the running process yields, and the scheduler, scanning on
from it, dispatches a new process that returns to user mode through `forkret`. -/
def yield : List Choice := .intr .timer :: .replicate 15 .tau

/-- The running process, whose parent is not sleeping in `wait`, exits; the scheduler
dispatches the next RUNNABLE slot, which returns to user mode. -/
def exit : List Choice := .sys .exit :: .replicate 11 .tau

/-- The running process calls `wait`, finds its ZOMBIE child, frees its kernel stack and
clears `p->kstack`. -/
def reap : List Choice := .sys .wait :: .replicate 5 .tau

/-- The running process calls `wait` and, its only child RUNNABLE, sleeps on itself; the
scheduler, scanning on, dispatches the child, which returns to user mode through `forkret`. -/
def waitSleep : List Choice := .sys .wait :: .replicate 8 .tau

end Trace

end Xv6
