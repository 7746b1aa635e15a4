import Mathlib.Data.List.Basic

/-!
# Kernel code positions

xv6 runs one kernel thread per CPU (its scheduler) and one per process. Where such a thread
stands in the kernel's code is a continuation `Code n`: the statement it runs next, together
with what it goes on to. Spin-lock acquisition and release are generic (`acquire l k`,
`release l k`), so the spin locks a thread holds are read off its continuation (`holds`).
A trap handler carries the code it interrupted (`ret`). The places where `swtch` returns
into a process (`forkret`, `yieldRet`, `sleepRet`, `exitRet`) are what a process's saved
`context` holds.

`n` is the size of the process table (`NPROC` of `param.h`, which is not among the
sources); a slot is a `Fin n`.
-/

namespace Xv6

/-- The spin locks taken on the modelled paths. -/
inductive Lock where
  | ptable
  | tickslock
  | idelock
  | kmem
  deriving DecidableEq, Repr

/-- The order in which the kernel nests its spin locks: `tickslock` and `idelock` before
`ptable.lock`, `ptable.lock` before `kmem.lock`. -/
def Lock.rank : Lock → Nat
  | .tickslock => 0
  | .idelock => 0
  | .ptable => 1
  | .kmem => 2

/-- Every lock, for counting the ones a thread holds. -/
def Lock.all : List Lock := [.ptable, .tickslock, .idelock, .kmem]

/-- `enum procstate`. -/
inductive ProcState where
  | unused
  | embryo
  | sleeping
  | runnable
  | running
  | zombie
  deriving DecidableEq, Repr

/-- A sleep channel: the address a process sleeps on. Distinct kernel objects have
distinct addresses. -/
inductive Chan (n : Nat) where
  | proc (p : Fin n)
  | ticks
  | buf (b : Nat)
  deriving DecidableEq, Repr

/-- The callers of `sleep` in the sources, with the locals they keep across it. -/
inductive SleepSite where
  /-- `wait`: `sleep(curproc, &ptable.lock)`. -/
  | wait
  /-- `sys_sleep`: `sleep(&ticks, &tickslock)`, for `n` ticks counted from `ticks0`. -/
  | sysSleep (n : Int) (ticks0 : Nat)
  /-- `iderw`: `sleep(b, &idelock)`. -/
  | iderw (b : Nat)
  deriving DecidableEq, Repr

/-- The lock `lk` a caller passes to `sleep`. -/
def SleepSite.lk : SleepSite → Lock
  | .wait => .ptable
  | .sysSleep _ _ => .tickslock
  | .iderw _ => .idelock

/-- The channel a caller passes to `sleep`; `me` is the sleeping process. -/
def SleepSite.chan {n : Nat} (me : Fin n) : SleepSite → Chan n
  | .wait => .proc me
  | .sysSleep _ _ => .ticks
  | .iderw b => .buf b

/-- Where a thread stands in a request for buffer `b` that `bread` or `bwrite` passes to
`iderw`. -/
inductive DiskAt where
  /-- Holding the buffer's sleep lock, before `iderw`'s append. -/
  | append (b : Nat)
  /-- In `iderw` after the append: the `while` loop and its `sleep`. -/
  | wait (b : Nat)
  /-- Back from `iderw`, before `brelse`. -/
  | release (b : Nat)
  deriving DecidableEq, Repr

/-- The buffer of a request. -/
def DiskAt.buf : DiskAt → Nat
  | .append b | .wait b | .release b => b

/-- The callers of `allocproc`. -/
inductive AllocSite where
  | userinit
  | fork
  deriving DecidableEq, Repr

/-- The `panic`s on the modelled paths, and two crashes that are not a `panic` call:
`trap` (a kernel-mode fault, which `trap()` turns into `panic("trap")`) and `badContext`
(a `swtch` into a context no `swtch` saved). -/
inductive Panic where
  | acquire
  | release
  | popcli
  | schedPtable
  | schedLocks
  | schedRunning
  | schedInterruptible
  | initExiting
  | zombieExit
  | switchuvmKstack
  | switchuvmPgdir
  | freevm
  | kfree
  | userinitOom
  | trap
  | iderwNothing
  | badContext
  deriving DecidableEq, Repr

/-- The panics of the spin-lock code: `acquire`, `release`, `popcli`, and `sched`'s checks
of what its caller holds. -/
def Panic.lockPanic : Panic → Bool
  | .acquire | .release | .popcli | .schedPtable | .schedLocks | .schedInterruptible => true
  | _ => false

/-- Where a kernel thread stands. Constructors are named after the statement they run
next; the ones that carry a slot `p` are working on that slot. -/
inductive Code (n : Nat) where
  | acquire (l : Lock) (k : Code n)
  | release (l : Lock) (k : Code n)
  /-- Running in user mode. -/
  | user
  /-- Back in `trap` after `syscall()` has stored the call's return value `v` in `tf->eax`:
  the second `killed` check. -/
  | sysRet (v : Int)
  /-- `allocproc`, holding `ptable.lock`: look for an UNUSED slot. -/
  | allocScan (site : AllocSite)
  /-- `allocproc`, after `kalloc()` for the kernel stack returned. -/
  | allocKstack (site : AllocSite) (p : Fin n)
  /-- `userinit`: `setupkvm()` and `inituvm()`. -/
  | userinitVm (p : Fin n)
  /-- `userinit`, holding `ptable.lock`: `p->state = RUNNABLE`. -/
  | userinitRun (p : Fin n)
  /-- `fork`: `copyuvm()`, one `kalloc` after another. -/
  | forkCopy (p : Fin n)
  /-- `fork` after `copyuvm()` failed: `kfree(np->kstack)` and `np->state = UNUSED`. -/
  | forkUndo (p : Fin n)
  /-- `fork`: copy `sz`, set `parent`, copy the trap frame, files and name. -/
  | forkSet (p : Fin n)
  /-- `fork`, holding `ptable.lock`: `np->state = RUNNABLE`. -/
  | forkRun (p : Fin n)
  /-- `wait`, holding `ptable.lock`: scan for children. -/
  | waitScan
  /-- `wait`, after `kfree(p->kstack)`: `p->kstack = 0; freevm(p->pgdir)`. -/
  | waitKstack (p : Fin n)
  /-- `wait`: the `kfree`s of `freevm`, then reset the slot to UNUSED. -/
  | waitFreevm (p : Fin n)
  /-- `kill`, holding `ptable.lock`. -/
  | killScan (pid : Int)
  /-- `sys_sleep`, holding `tickslock`: `ticks0 = ticks`. -/
  | sysSleepStart (nt : Int)
  /-- `sys_sleep`, holding `tickslock`: the test of the `while` loop. -/
  | sysSleepLoop (nt : Int) (ticks0 : Nat)
  /-- `sys_uptime`, holding `tickslock`. -/
  | uptimeRead
  /-- `iderw`, holding `idelock`: append to `idequeue`, start the disk if first. -/
  | iderwAppend (b : Nat)
  /-- `iderw`, holding `idelock`: the test of the `while` loop. -/
  | iderwLoop (b : Nat)
  /-- Modelled from the spec: back in the buffer cache after `iderw`, release the buffer's
  sleep lock. -/
  | brelse (b : Nat)
  /-- `sleep`, holding `ptable.lock`: `p->chan = chan; p->state = SLEEPING`. -/
  | sleepSet (site : SleepSite)
  /-- `sleep`: `sched()`. -/
  | sleepSched (site : SleepSite)
  /-- `sleep`, where `swtch` returns: `p->chan = 0`, then back to `lk`. -/
  | sleepRet (site : SleepSite)
  /-- `exit`: the `initproc` check, closing files. -/
  | exitStart
  /-- `exit`, holding `ptable.lock`: wake the parent, pass children to init, ZOMBIE. -/
  | exitWake
  /-- `exit`: `sched()`. -/
  | exitSched
  /-- `exit`, where `swtch` would return: `panic("zombie exit")`. -/
  | exitRet
  /-- `forkret`, where a new process starts, holding `ptable.lock`. -/
  | forkret
  /-- `forkret` after the release: the `first` test. -/
  | forkretFirst
  /-- `trap` for a timer interrupt: the `cpuid() == 0` test. -/
  | tmr (ret : Code n)
  /-- `trap`, holding `tickslock`: `ticks++; wakeup(&ticks)`. -/
  | tick (ret : Code n)
  /-- `ideintr`, holding `idelock`: take the head of `idequeue`. -/
  | ideHead (ret : Code n)
  /-- `ideintr`, holding `idelock`, after `wakeup(b)`: start the next request. -/
  | ideNext (ret : Code n)
  /-- `trap` for an exception from user mode: `myproc()->killed = 1`. -/
  | fault (ret : Code n)
  /-- `trap` after the dispatch: the first `killed` check and the timer `yield`. -/
  | trapChk1 (timer : Bool) (ret : Code n)
  /-- `yield`, holding `ptable.lock`: `myproc()->state = RUNNABLE`. -/
  | yieldSet (ret : Code n)
  /-- `yield`: `sched()`. -/
  | yieldSched (ret : Code n)
  /-- `yield`, where `swtch` returns: `release(&ptable.lock)`. -/
  | yieldRet (ret : Code n)
  /-- `trap`: the `killed` check after `yield`, then return to `ret`. -/
  | trapChk2 (ret : Code n)
  /-- `wakeup`, holding `ptable.lock`: `wakeup1(chan)`. -/
  | wakeup1 (ch : Chan n) (k : Code n)
  /-- `wakeup` after `wakeup1(chan)`: `release(&ptable.lock)`. -/
  | wakeRel (ch : Chan n) (k : Code n)
  /-- `scheduler`, holding `ptable.lock`: the scan from slot `i` on. -/
  | schedScan (i : Nat)
  /-- `scheduler`, where `swtch` from process `p` returns. -/
  | schedResume (p : Fin n)
  deriving Repr

namespace Code

variable {n : Nat}

/-- The scheduler's loop head: `sti(); acquire(&ptable.lock)`, then the scan. -/
def schedLoop : Code n := .acquire .ptable (.schedScan 0)

/-- `(tf->cs&3) == DPL_USER` for a trap that interrupted `k`. -/
def isUser : Code n → Bool
  | .user => true
  | _ => false

/-- One `kalloc` or `kfree`: `kmem.lock` around the free list, then back to `k`. -/
def kmemRound (k : Code n) : Code n := .acquire .kmem (.release .kmem k)

/-- Whether a thread at `k` holds spin lock `l`. -/
def holds : Code n → Lock → Bool
  | .acquire l k, l' => l' != l && holds k l'
  | .release l k, l' => l' == l || holds k l'
  | .wakeup1 _ k, l' | .wakeRel _ k, l' => l' == .ptable || holds k l'
  | .allocScan _, l | .userinitRun _, l | .forkRun _, l | .waitScan, l | .waitKstack _, l
  | .waitFreevm _, l | .killScan _, l | .sleepSet _, l | .sleepSched _, l | .sleepRet _, l
  | .exitWake, l | .exitSched, l | .exitRet, l | .forkret, l | .yieldSet _, l
  | .yieldSched _, l | .yieldRet _, l | .schedScan _, l | .schedResume _, l => l == .ptable
  | .sysSleepStart _, l | .sysSleepLoop _ _, l | .uptimeRead, l | .tick _, l =>
    l == .tickslock
  | .iderwAppend _, l | .iderwLoop _, l | .ideHead _, l | .ideNext _, l => l == .idelock
  | _, _ => false

/-- The number of spin locks a thread at `k` holds: its `pushcli` depth. -/
def heldCount (k : Code n) : Nat :=
  (k.holds .ptable).toNat + (k.holds .tickslock).toNat + (k.holds .idelock).toNat +
    (k.holds .kmem).toNat

/-- A thread at `k` holds no spin lock. -/
def free (k : Code n) : Bool := decide (k.heldCount = 0)

/-- Code that runs with interrupts off whatever it holds: a trap handler (entered through
an interrupt gate) and the boot processor's `userinit`. -/
def ifOff : Code n → Bool
  | .acquire _ k | .release _ k => ifOff k
  | .allocScan .userinit | .allocKstack .userinit _ | .userinitVm _ | .userinitRun _ => true
  | .tmr _ | .tick _ | .ideHead _ | .ideNext _ | .fault _ | .trapChk1 _ _ | .yieldSet _
  | .yieldSched _ | .yieldRet _ | .trapChk2 _ | .wakeup1 _ _ | .wakeRel _ _ => true
  | _ => false

/-- An interrupt can be taken at `k`: no spin lock is held (so `pushcli` has not turned
interrupts off) and `k` is not in a handler. -/
def interruptible (k : Code n) : Bool := k.free && !k.ifOff

/-- Where a scheduler's `swtch` can resume a process: where `swtch` returns in `yield`
and `sleep`, or `forkret` for the context `allocproc` builds. -/
def resumable : Code n → Bool
  | .forkret | .yieldRet _ | .sleepRet _ => true
  | _ => false

/-- What a process's saved context can hold: a `resumable` point, or the point after
`exit`'s `sched()`. -/
def savable : Code n → Bool
  | .exitRet => true
  | k => resumable k

/-- A call of `sched()`: from `yield`, `sleep` or `exit`. -/
def schedCall : Code n → Bool
  | .yieldSched _ | .sleepSched _ | .exitSched => true
  | _ => false

/-- The state of a process whose CPU runs `k` on its stack: RUNNING, except between the
state change of `yield`, `sleep` or `exit` and their `swtch`. -/
def stackState : Code n → ProcState
  | .yieldSched _ => .runnable
  | .sleepSched _ => .sleeping
  | .exitSched => .zombie
  | _ => .running

/-- The statement of `allocproc`, `fork` or `userinit` that a thread at `k` is in: `k`
itself, or the statement it comes back to once the lock operations, `wakeup1` and the trap
handlers wrapped around it are done. -/
def build : Code n → Option (Code n)
  | .acquire _ k | .release _ k | .wakeup1 _ k | .wakeRel _ k => build k
  | .tmr r | .tick r | .ideHead r | .ideNext r | .fault r | .trapChk1 _ r | .yieldSet r
  | .yieldSched r | .yieldRet r | .trapChk2 r => build r
  | .allocScan .userinit => some (.allocScan .userinit)
  | .allocKstack site p => some (.allocKstack site p)
  | .userinitVm p => some (.userinitVm p)
  | .userinitRun p => some (.userinitRun p)
  | .forkCopy p => some (.forkCopy p)
  | .forkUndo p => some (.forkUndo p)
  | .forkSet p => some (.forkSet p)
  | .forkRun p => some (.forkRun p)
  | _ => none

/-- The slot a statement of `allocproc`, `fork` or `userinit` works on. -/
def slotOf : Code n → Option (Fin n)
  | .allocKstack _ p | .userinitVm p | .userinitRun p | .forkCopy p | .forkUndo p
  | .forkSet p | .forkRun p => some p
  | _ => none

/-- The EMBRYO slot that `allocproc`, `fork` or `userinit` at `k` is building. -/
def embryoOf (k : Code n) : Option (Fin n) := k.build.bind slotOf

/-- A statement of `userinit` (its `allocproc` included). -/
def initBuild : Code n → Bool
  | .allocScan .userinit | .allocKstack .userinit _ | .userinitVm _ | .userinitRun _ => true
  | _ => false

/-- The ZOMBIE child that `wait` at `k` is reaping. -/
def reapOf : Code n → Option (Fin n)
  | .acquire _ k | .release _ k | .wakeup1 _ k | .wakeRel _ k => reapOf k
  | .waitKstack p | .waitFreevm p => some p
  | _ => none

/-- A thread at `k` is reaping a slot whose kernel stack it has freed: past `wait`'s
`p->kstack = 0`, in `freevm`, with its `kfree`s' lock operations around it. -/
def kstackFreed : Code n → Bool
  | .acquire _ k | .release _ k | .wakeup1 _ k | .wakeRel _ k => kstackFreed k
  | .waitFreevm _ => true
  | _ => false

/-- Where a thread at `k` stands in a disk request, with the lock operations and trap
handlers wrapped around it. -/
def diskAt : Code n → Option DiskAt
  | .acquire _ k | .release _ k | .wakeup1 _ k | .wakeRel _ k => diskAt k
  | .tmr r | .tick r | .ideHead r | .ideNext r | .fault r | .trapChk1 _ r | .yieldSet r
  | .yieldSched r | .yieldRet r | .trapChk2 r => diskAt r
  | .iderwAppend b => some (.append b)
  | .iderwLoop b | .sleepSet (.iderw b) | .sleepSched (.iderw b) | .sleepRet (.iderw b) =>
    some (.wait b)
  | .brelse b => some (.release b)
  | _ => none

/-- A thread at `k` is in `ideintr` between taking the head of `idequeue` and the `idestart`
of the next: in `wakeup(b)`, or at the `idestart`. -/
def ideGap : Code n → Bool
  | .acquire .ptable (.wakeup1 _ (.ideNext _)) | .wakeup1 _ (.ideNext _) | .wakeRel _ (.ideNext _)
  | .ideNext _ => true
  | _ => false

/-- Code of a CPU's own stack: the scheduler, and `userinit` on the boot processor, with the
lock operations and trap handlers wrapped around them. -/
def schedStack : Code n → Bool
  | .acquire _ k | .release _ k | .wakeup1 _ k | .wakeRel _ k => schedStack k
  | .tmr r | .tick r | .ideHead r | .ideNext r | .fault r | .trapChk1 _ r | .yieldSet r
  | .yieldSched r | .yieldRet r | .trapChk2 r => schedStack r
  | .schedScan _ | .schedResume _ | .allocScan .userinit | .allocKstack .userinit _
  | .userinitVm _ | .userinitRun _ => true
  | _ => false

/-- A thread at `k` is in `exit` past its `initproc` check and before the reparenting is
done: at `acquire(&ptable.lock)` or at the reparenting, with the trap handlers wrapped
around them. -/
def exiting : Code n → Bool
  | .acquire _ k | .release _ k | .wakeup1 _ k | .wakeRel _ k => exiting k
  | .tmr r | .tick r | .ideHead r | .ideNext r | .fault r | .trapChk1 _ r | .yieldSet r
  | .yieldSched r | .yieldRet r | .trapChk2 r => exiting r
  | .exitWake => true
  | _ => false

/-- A thread at `k` is where `exit`'s `sched()` would return, at `panic("zombie exit")`, with
the lock operations and trap handlers wrapped around it. -/
def atZombieExit : Code n → Bool
  | .acquire _ k | .release _ k | .wakeup1 _ k | .wakeRel _ k => atZombieExit k
  | .tmr r | .tick r | .ideHead r | .ideNext r | .fault r | .trapChk1 _ r | .yieldSet r
  | .yieldSched r | .yieldRet r | .trapChk2 r => atZombieExit r
  | .exitRet => true
  | _ => false

/-- A thread at `k` is in `forkret`, where a new process starts, with the lock operations and
trap handlers wrapped around it. -/
def inForkret : Code n → Bool
  | .acquire _ k | .release _ k | .wakeup1 _ k | .wakeRel _ k => inForkret k
  | .tmr r | .tick r | .ideHead r | .ideNext r | .fault r | .trapChk1 _ r | .yieldSet r
  | .yieldSched r | .yieldRet r | .trapChk2 r => inForkret r
  | .forkret | .forkretFirst => true
  | _ => false

/-- The caller of `sleep` whose `sched()` a thread at `k` is about to make. -/
def schedSite : Code n → Option SleepSite
  | .sleepSched site => some site
  | _ => none

/-- The process a scheduler at `k` has just switched away from (`c->proc` before
`c->proc = 0`). -/
def resumeOf : Code n → Option (Fin n)
  | .schedResume p => some p
  | _ => none

/-- `wait` at `k` has found no ZOMBIE child and is in `sleep(curproc, &ptable.lock)`,
before its `swtch`. -/
def waitSleeping : Code n → Bool
  | .sleepSet .wait | .sleepSched .wait => true
  | _ => false

/-- The channel of the `wakeup` whose `wakeup1` loop `k` has just run, before it releases
`ptable.lock`. -/
def wakeChan : Code n → Option (Chan n)
  | .wakeRel ch _ => some ch
  | _ => none

/-- An ordinary statement: none of the places the invariants single out (the `swtch` of
`sched`, the scheduler's return from a process, `wait`'s sleep, the end of `wakeup1`). -/
def ordinary (k : Code n) : Bool :=
  k.stackState == .running && k.resumeOf.isNone && !k.waitSleeping && k.wakeChan.isNone

/-- Well-formed code: each `acquire` leads to code that holds the lock and is taken after
every other lock held (the lock order of `Lock.rank`), each `release` leads to code that
does not hold the lock, what a lock operation leads to is an ordinary statement (and only
`kfree` takes `kmem.lock` inside `wait`'s reaping), and a trap handler interrupted code
that held no spin lock. -/
def wf : Code n → Bool
  | .acquire l k => k.holds l &&
      Lock.all.all (fun l' => l' == l || !k.holds l' || decide (l'.rank < l.rank)) &&
      (k.reapOf.isNone || l == .kmem) && k.ordinary && wf k
  | .release l k => !k.holds l && k.ordinary && wf k
  | .wakeup1 _ k | .wakeRel _ k => !k.holds .ptable && k.ordinary && wf k
  | .tmr r | .tick r | .ideHead r | .ideNext r | .fault r | .trapChk1 _ r | .yieldSet r
  | .yieldSched r | .yieldRet r | .trapChk2 r => r.free && wf r
  | _ => true

/-- The locks a thread at `k` holds: `ptable.lock`, `tickslock`, `idelock`, `kmem.lock`. -/
def lockSig (k : Code n) : Bool × Bool × Bool × Bool :=
  (k.holds .ptable, k.holds .tickslock, k.holds .idelock, k.holds .kmem)

end Code

/-- What the invariants read of a thread's code. -/
structure Code.View (n : Nat) where
  lockSig : Bool × Bool × Bool × Bool
  stackState : ProcState
  schedSite : Option SleepSite
  build : Option (Code n)
  reapOf : Option (Fin n)
  resumeOf : Option (Fin n)
  waitSleeping : Bool
  wakeChan : Option (Chan n)
  schedStack : Bool
  exiting : Bool
  atZombieExit : Bool
  inForkret : Bool
  kstackFreed : Bool

namespace Code

variable {n : Nat}

/-- What the invariants read of `k`. -/
def view (k : Code n) : View n :=
  ⟨k.lockSig, k.stackState, k.schedSite, k.build, k.reapOf, k.resumeOf, k.waitSleeping, k.wakeChan,
    k.schedStack, k.exiting, k.atZombieExit, k.inForkret, k.kstackFreed⟩

end Code

end Xv6
