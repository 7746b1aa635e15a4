import Xv6.Effects

/-!
# Spin locks

The lock layer of the invariant. A lock's owner (`lk->cpu`) is the CPU whose code holds
it, `ncli` is the number of locks held, every CPU's code is well formed (it takes each lock
after the locks of lower rank, and never one it holds), and every saved context is a
resumption point. No reachable state has a CPU stopped in a panic of the lock code.

What a statement does to the locks is read off `Kernel.Does` (`Does.fits`); the
invariant's step lemma then only looks at the kind of effect. From the invariant follow the lock order, that `sched()` is called holding
`ptable.lock` alone, and that no CPUs spin on one another in a cycle (`lock_discipline`).
-/

namespace Xv6

variable {n m : Nat}

namespace Code

variable {k k' : Code n}

theorem holds_eq_of_lockSig (h : k'.lockSig = k.lockSig) (l : Lock) : k'.holds l = k.holds l := by
  simp only [lockSig, Prod.mk.injEq] at h
  cases l <;> simp [h]

/-- A resumption point holds `ptable.lock` and nothing else. -/
theorem lockSig_eq_of_savable (h : k.savable) : k.lockSig = (true, false, false, false) := by
  cases k <;> first | rfl | cases h

theorem heldCount_eq_of_lockSig (h : k'.lockSig = k.lockSig) : k'.heldCount = k.heldCount := by
  simp only [heldCount, holds_eq_of_lockSig h]

theorem heldCount_eq_one (h : k.lockSig = (true, false, false, false)) : k.heldCount = 1 := by
  simp only [lockSig, Prod.mk.injEq] at h
  simp [heldCount, h]

theorem heldCount_pos {l : Lock} (hl : k.holds l) : 0 < k.heldCount := by
  cases l <;> simp only [heldCount, hl, Bool.toNat_true] <;> omega

/-- `k` holds `l` and otherwise what `k'` holds: one more lock. -/
theorem heldCount_eq_succ {l : Lock} (hl : k.holds l) (hl' : k'.holds l = false)
    (h : ∀ l', l' ≠ l → k'.holds l' = k.holds l') : k.heldCount = k'.heldCount + 1 := by
  have e (l') (hne : l' ≠ l) : (k'.holds l').toNat = (k.holds l').toNat := by rw [h l' hne]
  unfold heldCount
  cases l <;> simp only [hl, hl', Bool.toNat_true, Bool.toNat_false, e, ne_eq, reduceCtorEq,
    not_false_eq_true]
  all_goals omega

/-- One more than the highest rank among the locks `k` holds; zero if it holds none. -/
def heldRank (k : Code n) : Nat :=
  max (max (if k.holds .ptable then Lock.ptable.rank + 1 else 0)
      (if k.holds .tickslock then Lock.tickslock.rank + 1 else 0))
    (max (if k.holds .idelock then Lock.idelock.rank + 1 else 0)
      (if k.holds .kmem then Lock.kmem.rank + 1 else 0))

theorem rank_lt_heldRank {l : Lock} (h : k.holds l) : l.rank < k.heldRank := by
  unfold heldRank; cases l <;> simp [h]

theorem heldRank_le {r : Nat} (h : ∀ l, k.holds l → l.rank < r) : k.heldRank ≤ r := by
  have e (l : Lock) : (if k.holds l then l.rank + 1 else 0) ≤ r := by
    split
    · exact h l ‹_›
    · exact Nat.zero_le r
  exact max_le (max_le (e _) (e _)) (max_le (e _) (e _))

/-- What a trap handler knows of the code it interrupted. -/
theorem ret_ok {r : Code n} (h : (r.free && r.wf) = true) :
    r.lockSig = (false, false, false, false) ∧ r.wf := by
  rw [Bool.and_eq_true] at h
  exact ⟨lockSig_eq_of_free h.1, h.2⟩

end Code

/-! ## What a statement does to the locks -/

namespace Kernel

/-- Every saved context in `t'` is the one in `t` or `allocproc`'s `forkret`. -/
def ContextsKept (t t' : Fin n → Proc n) : Prop :=
  ∀ p, (t' p).context = (t p).context ∨ (t' p).context = some .forkret

variable (s : Kernel n)

theorem contextsKept_refl (t : Fin n → Proc n) : ContextsKept t t := fun _ => .inl rfl

theorem contextsKept_update {t : Fin n → Proc n} {p : Fin n} {q : Proc n}
    (hq : q.context = (t p).context ∨ q.context = some .forkret) :
    ContextsKept t (Function.update t p q) := by
  intro i
  rw [Function.update_apply]
  split
  · subst i; exact hq
  · exact .inl rfl

theorem contextsKept_wakeup1 (ch : Option (Chan n)) :
    ContextsKept s.procs (wakeup1 s.procs ch) := fun _ => .inl (wakeSlot_context _ _)

theorem contextsKept_exitWake (p : Fin n) : ContextsKept s.procs (s.exitWake p).procs :=
  fun _ => .inl (exitWake_context s _ _)

end Kernel

/-- What the lock layer needs to know of an effect of the statement at `k`, run from memory
`s`. -/
def Effect.Fits (s : Kernel n) (k : Code n) : Effect n → Prop
  | .next k' s' => k.wf → k'.lockSig = k.lockSig ∧ k'.wf ∧ Kernel.ContextsKept s.procs s'.procs
  | .acquire l k' => k = .acquire l k'
  | .release l k' => k.wf →
      k.holds l ∧ k'.holds l = false ∧ (∀ l', l' ≠ l → k'.holds l' = k.holds l') ∧ k'.wf
  | .sched _ ret => k.wf → k.lockSig = (true, false, false, false) ∧ ret.savable ∧ ret.wf
  | .dispatch _ => k.lockSig = (true, false, false, false)
  | .resume k' => k'.lockSig = k.lockSig ∧ k'.wf
  | .halt why => why.lockPanic = false

/-- A `release` of `l` from code that holds `l` on top of what `k'` holds. -/
theorem Effect.fits_release {s : Kernel n} {k k' : Code n} {l : Lock}
    (hk : ∀ l', k.holds l' = (l' == l || k'.holds l')) (hw : k.wf → k'.holds l = false ∧ k'.wf) :
    (Effect.release l k').Fits s k := by
  intro hkw
  obtain ⟨hl, hw'⟩ := hw hkw
  refine ⟨by simp [hk], hl, fun l' hne => ?_, hw'⟩
  simp [hk, hne]

namespace Kernel

theorem sleepReturn_ok (site : SleepSite) :
    (sleepReturn site : Code n).lockSig = (true, false, false, false) ∧ (sleepReturn site : Code n).wf := by
  cases site <;> exact ⟨rfl, rfl⟩

variable (s : Kernel n) {c : Fin m} {me : Option (Fin n)} {k : Code n} {ch : Choice}
  {e : Effect n}

/-- What a statement does to the locks, read off `Does`. -/
theorem Does.fits {s : Kernel n} {me : Option (Fin n)} {k : Code n} {e : Effect n}
    (h : s.Does me k e) : e.Fits s k := by
  cases h
  case release | wakeRel =>
    exact Effect.fits_release (fun _ => rfl)
      fun hw => by
        simp only [Code.wf, Bool.and_eq_true, Bool.not_eq_true'] at hw
        exact ⟨hw.1.1, hw.2⟩
  case forkret | yieldRet =>
    exact Effect.fits_release (fun l => by cases l <;> rfl) fun hw => ⟨rfl, hw⟩
  case halt hwhy _ _ _ _ _ => exact hwhy
  case plain _ _ hv hp _ _ _ =>
    exact fun hw => ⟨congrArg Code.View.lockSig (hv hw).1, (hv hw).2, hp ▸ contextsKept_refl _⟩
  case unsleep =>
    exact fun _ => ⟨(sleepReturn_ok _).1, (sleepReturn_ok _).2, contextsKept_update (.inl rfl)⟩
  all_goals first
    | rfl
    | exact ⟨rfl, rfl⟩
    | exact fun _ => ⟨rfl, rfl, contextsKept_refl _⟩
    | exact fun hw => ⟨rfl, rfl, hw⟩
    | exact fun _ => ⟨rfl, rfl, contextsKept_update (.inl rfl)⟩
    | exact fun _ => ⟨rfl, rfl, contextsKept_update (.inr rfl)⟩
    | exact fun hw => ⟨rfl, hw, contextsKept_update (.inl rfl)⟩
    | exact fun _ => ⟨rfl, rfl, contextsKept_exitWake _ _⟩
    | exact fun hw => ⟨rfl, hw, contextsKept_wakeup1 _ _⟩

end Kernel

/-! ## The lock invariant -/

/-- **The lock layer.** The CPU recorded as a lock's owner is the one whose code holds it,
`ncli` counts the locks held, every CPU's code is well formed, and every saved context is a
resumption point. -/
structure LockInv (s : Sys n m) : Prop where
  owner_iff : ∀ l c, s.owner l = some c ↔ (s.cpus c).run.code.holds l
  ncli_eq : ∀ c, (s.cpus c).ncli = (s.cpus c).run.code.heldCount
  code_wf : ∀ c, (s.cpus c).run.code.wf
  context_ok : ∀ p k, (s.mem.procs p).context = some k → k.savable ∧ k.wf
  no_lock_panic : ∀ c why, (s.cpus c).halt = some why → why.lockPanic = false

namespace LockInv

variable {s : Sys n m} {c : Fin m}

theorem init : LockInv (Sys.init : Sys n m) where
  owner_iff l c := by
    simp only [Sys.init, reduceCtorEq, false_iff, Bool.not_eq_true]
    split <;> cases l <;> rfl
  ncli_eq c := by simp only [Sys.init]; split <;> rfl
  code_wf c := by simp only [Sys.init]; split <;> rfl
  context_ok p k := by simp [Sys.init, Proc.empty]
  no_lock_panic c why := by simp [Sys.init]

theorem halt (hi : LockInv s) {why : Panic} (hwhy : why.lockPanic = false) :
    LockInv (s.halt c why) where
  owner_iff := by simpa using hi.owner_iff
  ncli_eq := by simpa using hi.ncli_eq
  code_wf := by simpa using hi.code_wf
  context_ok := by simpa using hi.context_ok
  no_lock_panic d w := by
    simp only [Sys.halt, Sys.setCpu_cpus]
    split
    · intro h; cases h; exact hwhy
    · exact hi.no_lock_panic d w

/-- CPU `c` changes to code holding the same locks, and every saved context in the new
memory is a resumption point. -/
theorem setCpu (hi : LockInv s) {f : Cpu n → Cpu n} (hncli : (f (s.cpus c)).ncli = (s.cpus c).ncli)
    (hsig : (f (s.cpus c)).run.code.lockSig = (s.cpus c).run.code.lockSig)
    (hw : (f (s.cpus c)).run.code.wf) (hhalt : (f (s.cpus c)).halt = (s.cpus c).halt)
    {mem' : Kernel n}
    (hctx : ∀ p k, (mem'.procs p).context = some k → k.savable ∧ k.wf) :
    LockInv ({ s with mem := mem' }.setCpu c f) where
  owner_iff l d := by
    rw [Sys.setCpu_owner, Sys.setCpu_cpus]
    split
    · subst d; simpa [Code.holds_eq_of_lockSig hsig] using hi.owner_iff l c
    · exact hi.owner_iff l d
  ncli_eq d := by
    rw [Sys.setCpu_cpus]
    split
    · subst d; simpa [hncli, Code.heldCount_eq_of_lockSig hsig] using hi.ncli_eq c
    · exact hi.ncli_eq d
  code_wf d := by
    rw [Sys.setCpu_cpus]
    split
    · exact hw
    · exact hi.code_wf d
  context_ok := hctx
  no_lock_panic d := by
    rw [Sys.setCpu_cpus]
    split
    · subst d; rw [hhalt]; exact hi.no_lock_panic c
    · exact hi.no_lock_panic d

/-- Saved contexts after a step that keeps them or writes `forkret`. -/
theorem context_ok_of_kept (hi : LockInv s) {mem' : Kernel n}
    (hctx : Kernel.ContextsKept s.mem.procs mem'.procs) :
    ∀ p k, (mem'.procs p).context = some k → k.savable ∧ k.wf := by
  intro p k hk
  rcases hctx p with h | h
  · exact hi.context_ok p k (h ▸ hk)
  · rw [hk] at h; cases h; exact ⟨rfl, rfl⟩

theorem acquire (hi : LockInv s) {l : Lock} {k' : Code n}
    (hk : (s.cpus c).run.code = .acquire l k') (hl : s.owner l = none) :
    LockInv ({ s with owner := Function.update s.owner l (some c) }.setCpu c fun x =>
      { x with ncli := x.ncli + 1, run := x.run.setCode k' }) := by
  have hw := hi.code_wf c
  rw [hk] at hw
  simp only [Code.wf, Bool.and_eq_true] at hw
  have hfree : ∀ d, (s.cpus d).run.code.holds l = false := fun d =>
    Bool.eq_false_iff.mpr fun h => by simp [(hi.owner_iff l d).mpr h] at hl
  constructor
  · intro l0 d
    rw [Sys.setCpu_cpus, Sys.setCpu_owner]
    dsimp only
    rw [Function.update_apply]
    by_cases h0 : l0 = l <;> by_cases hd : d = c
    · subst l0 d; simp [hw.1.1.1.1]
    · subst l0; simp [hfree d, Ne.symm hd, hd]
    · subst d; simpa [Code.holds, hk, h0] using hi.owner_iff l0 c
    · simpa [h0, hd] using hi.owner_iff l0 d
  · intro d
    rw [Sys.setCpu_cpus]
    split
    · subst d
      simp only [Run.code_setCode, hi.ncli_eq c, hk]
      exact (Code.heldCount_eq_succ hw.1.1.1.1 (by simp [Code.holds])
        fun l' hne => by simp [Code.holds, hne]).symm
    · exact hi.ncli_eq d
  · intro d
    rw [Sys.setCpu_cpus]
    split
    · simpa using hw.2
    · exact hi.code_wf d
  · exact hi.context_ok
  · intro d; rw [Sys.setCpu_cpus]; split
    · subst d; exact hi.no_lock_panic c
    · exact hi.no_lock_panic d

theorem release (hi : LockInv s) {l : Lock} {k' : Code n}
    (hf : (Effect.release l k').Fits s.mem (s.cpus c).run.code) (hl : s.owner l = some c) :
    LockInv ({ s with owner := Function.update s.owner l none }.setCpu c fun x =>
      { x with ncli := x.ncli - 1, run := x.run.setCode k' }) := by
  obtain ⟨hk, hk', hsame, hw⟩ := hf (hi.code_wf c)
  constructor
  · intro l0 d
    rw [Sys.setCpu_cpus, Sys.setCpu_owner]
    dsimp only
    rw [Function.update_apply]
    by_cases h0 : l0 = l <;> by_cases hd : d = c
    · subst l0 d; simp [hk']
    · subst l0
      have : (s.cpus d).run.code.holds l = false := Bool.eq_false_iff.mpr fun h =>
        hd (Option.some.inj (((hi.owner_iff l d).mpr h).symm.trans hl))
      simp [this, hd]
    · subst d; simpa [h0, hsame l0 h0] using hi.owner_iff l0 c
    · simpa [h0, hd] using hi.owner_iff l0 d
  · intro d
    rw [Sys.setCpu_cpus]
    split
    · subst d
      simp only [Run.code_setCode, hi.ncli_eq c, Code.heldCount_eq_succ hk hk' hsame]
      rfl
    · exact hi.ncli_eq d
  · intro d
    rw [Sys.setCpu_cpus]
    split
    · simpa using hw
    · exact hi.code_wf d
  · exact hi.context_ok
  · intro d; rw [Sys.setCpu_cpus]; split
    · subst d; exact hi.no_lock_panic c
    · exact hi.no_lock_panic d

/-- The lock layer is kept by every effect the statement at the CPU's code can have; none
of them reaches a panic of the lock code. -/
theorem apply (hi : LockInv s) {e : Effect n} {s' : Sys n m}
    (hf : e.Fits s.mem (s.cpus c).run.code) (h : s.apply c e = some s') : LockInv s' := by
  have hw := hi.code_wf c
  have hown (l) : s.owner l = some c ↔ (s.cpus c).run.code.holds l := hi.owner_iff l c
  cases e with
  | next k' mem' =>
    cases h
    obtain ⟨hsig, hw', hctx⟩ := hf hw
    exact hi.setCpu rfl (by simpa using hsig) (by simpa using hw') rfl (hi.context_ok_of_kept hctx)
  | acquire l k' =>
    simp only [Sys.apply, Sys.acquire] at h
    split at h
    · have hl := (hown l).mp ‹_›
      rw [hf] at hl
      simp [Code.holds] at hl
    · split at h
      · cases h; exact hi.acquire hf ‹_›
      · cases h
  | release l k' =>
    simp only [Sys.apply, Sys.release, Option.some.injEq] at h
    subst h
    obtain ⟨hl, -⟩ := hf hw
    have hn := hi.ncli_eq c ▸ Code.heldCount_pos hl
    split
    · exact absurd ((hown l).mpr hl) ‹_›
    · split
      · omega
      · exact hi.release hf (not_not.mp ‹_›)
  | sched p ret =>
    obtain ⟨hsig, hsav, hret⟩ := hf hw
    have hp : s.owner .ptable = some c := (hown _).mpr (Code.holds_eq_of_lockSig (k := .schedScan 0) hsig .ptable)
    have h1 := (hi.ncli_eq c).trans (Code.heldCount_eq_one hsig)
    simp only [Sys.apply, Sys.sched, Option.some.injEq] at h
    subst h
    split
    · exact absurd hp ‹_›
    split
    · exact absurd h1 ‹_›
    split
    · exact hi.halt rfl
    split
    · omega
    refine hi.setCpu ?_ ?_ ?_ ?_ fun q k hk => ?_
    · rfl
    · exact hsig.symm ▸ rfl
    · rfl
    · rfl
    simp only [Kernel.setProc_procs, Function.update_apply] at hk
    split at hk
    · cases hk; exact ⟨hsav, hret⟩
    · exact hi.context_ok q k hk
  | dispatch j =>
    simp only [Sys.apply, Sys.dispatch, Option.some.injEq] at h
    subst h
    repeat' split
    all_goals first
      | exact hi.halt rfl
      | have hj := hi.context_ok j _ ‹_›
        refine hi.setCpu ?_ ?_ ?_ ?_ fun q k hk => ?_
        · rfl
        · exact (Code.lockSig_eq_of_savable hj.1).trans hf.symm
        · exact hj.2
        · rfl
        simp only [Kernel.setProc_procs, Function.update_apply] at hk
        split at hk
        · cases hk
        · exact hi.context_ok q k hk
  | resume k' =>
    cases h
    exact hi.setCpu rfl (by simpa using hf.1) (by simpa using hf.2) rfl hi.context_ok
  | halt why => cases h; exact hi.halt hf

theorem step (hi : LockInv s) {ch : Choice} {s' : Sys n m} (h : step s c ch = some s') :
    LockInv s' := by
  obtain ⟨-, e, he, ha⟩ := Sys.step_eq_some s c h
  exact hi.apply (Sys.does_of_effect he).fits ha

theorem of_reachable {s : Sys n m} (h : Reachable s) : LockInv s := by
  induction h with
  | init => exact init
  | step _ hs ih => exact ih.step hs

/-- At `acquire(l)` the CPU holds only locks of lower rank. -/
theorem acquire_order (hi : LockInv s) {l : Lock} {k : Code n}
    (hk : (s.cpus c).run.code = .acquire l k) (l' : Lock) (hl' : s.owner l' = some c) :
    l'.rank < l.rank := by
  have hw := hi.code_wf c
  have hh := (hi.owner_iff l' c).mp hl'
  rw [hk] at hw hh
  simp only [Code.wf, Bool.and_eq_true, List.all_eq_true] at hw
  simp only [Code.holds, Bool.and_eq_true, bne_iff_ne, ne_eq] at hh
  have := hw.1.1.1.2 l' (by cases l' <;> simp [Lock.all])
  simpa [hh.1, hh.2] using this

end LockInv

/-! ## Lock discipline -/

/-- CPU `c` spins in `acquire` on a lock that CPU `d` holds. -/
def Spins (s : Sys n m) (c d : Fin m) : Prop :=
  (s.cpus c).halt = none ∧ ∃ l k, (s.cpus c).run.code = .acquire l k ∧ s.owner l = some d

namespace LockInv

variable {s : Sys n m}

/-- A spinning CPU waits for a CPU holding a lock of higher rank than any it holds. -/
theorem heldRank_lt_of_spins (hi : LockInv s) {c d : Fin m} (h : Spins s c d) :
    (s.cpus c).run.code.heldRank < (s.cpus d).run.code.heldRank := by
  obtain ⟨-, l, k, hk, hl⟩ := h
  calc (s.cpus c).run.code.heldRank
      ≤ l.rank := Code.heldRank_le fun l' h' => hi.acquire_order hk l' ((hi.owner_iff l' c).mpr h')
    _ < _ := Code.rank_lt_heldRank ((hi.owner_iff l d).mp hl)

theorem heldRank_lt_of_transGen (hi : LockInv s) {c d : Fin m}
    (h : Relation.TransGen (Spins s) c d) :
    (s.cpus c).run.code.heldRank < (s.cpus d).run.code.heldRank := by
  induction h with
  | single h => exact hi.heldRank_lt_of_spins h
  | tail _ h ih => exact ih.trans (hi.heldRank_lt_of_spins h)

end LockInv

/-- The lock discipline of state `s`: a CPU about to acquire a spin lock does not hold it
and holds only locks of lower rank (`tickslock` and `idelock`, then `ptable.lock`, then
`kmem.lock`); a CPU calling `sched()` holds `ptable.lock` and no other spin lock; no CPUs
spin on each other's locks in a cycle; and no CPU has stopped in `sched`'s
`sched ptable.lock` or `sched locks` panic. -/
def LockDiscipline (s : Sys n m) : Prop :=
  (∀ c l k, (s.cpus c).run.code = .acquire l k →
      s.owner l ≠ some c ∧ ∀ l', s.owner l' = some c → l'.rank < l.rank) ∧
  (∀ c, (s.cpus c).run.code.schedCall → ∀ l, s.owner l = some c ↔ l = .ptable) ∧
  (∀ c, ¬ Relation.TransGen (Spins s) c c) ∧
  (∀ c, (s.cpus c).halt ≠ some .schedPtable ∧ (s.cpus c).halt ≠ some .schedLocks)

/-- **Lock discipline**, for any number of CPUs and processes and every interleaving. -/
theorem lock_discipline {s : Sys n m} (h : Reachable s) : LockDiscipline s := by
  have hi := LockInv.of_reachable h
  refine ⟨fun c l k hk => ⟨fun hl => ?_, hi.acquire_order hk⟩, fun c hc l => ?_,
    fun c hc => lt_irrefl _ (hi.heldRank_lt_of_transGen hc), fun c => ⟨fun hp => ?_, fun hp => ?_⟩⟩
  · have := (hi.owner_iff l c).mp hl
    simp [hk, Code.holds] at this
  · rw [hi.owner_iff]
    cases hk : (s.cpus c).run.code <;> simp [hk, Code.schedCall] at hc <;> cases l <;> simp [Code.holds]
  · exact absurd (hi.no_lock_panic c _ hp) (by decide)
  · exact absurd (hi.no_lock_panic c _ hp) (by decide)

/-- Init's `wait`, holding `ptable.lock`, has found its ZOMBIE child and is about to take
`kmem.lock` for the `kfree` of the child's kernel stack. -/
theorem lock_discipline_reapKfree : ∃ s : Sys 2 1,
    Sys.init.run (Trace.solo (Trace.boot ++ Trace.fork ++ Trace.waitSleep ++ .sys .exit :: .replicate 11 .tau)) =
      some s ∧ (s.cpus 0).run.code = Code.kmemRound (.waitKstack 1) ∧ s.owner .ptable = some 0 ∧
      LockDiscipline s := by
  obtain ⟨s, hr, h⟩ := Sys.exists_run
    (Trace.solo (Trace.boot ++ Trace.fork ++ Trace.waitSleep ++ .sys .exit :: .replicate 11 .tau))
    (fun s : Sys 2 1 => match (s.cpus 0).run.code with
      | .acquire .kmem (.release .kmem (.waitKstack i)) => decide (i = 1 ∧ s.owner .ptable = some 0)
      | _ => false) (by decide)
  split at h
  · obtain ⟨rfl, ho⟩ := of_decide_eq_true h
    exact ⟨s, hr, ‹_›, ho, lock_discipline (Reachable.init.run hr)⟩
  · cases h

end Xv6
