import Xv6.Code
import Mathlib.Data.List.FinRange
import Mathlib.Data.Fintype.Basic

/-!
# The process table

`struct proc` with the fields the modelled functions read and write, and the loops of
`proc.c` over `ptable.proc` as functions on the table `Fin n → Proc n`: `wakeup1`, the
first-match scans of `allocproc`, `scheduler`, `wait` and `kill`, and `exit`'s loop that
passes abandoned children to init, together with the closed form the proofs use.

A pointer field is a number with `0` for null (`pgdir`, `kstack`) or an `Option`
(`parent`, `chan`, `context`). The saved `context` is the code the process resumes at;
it is `none` while no frame for it is saved on the kernel stack.
-/

namespace Xv6

/-- `struct proc`, without the fields the modelled paths hand to other subsystems
(`tf`, `ofile`, `cwd`, `name`). -/
structure Proc (n : Nat) where
  sz : Nat
  pgdir : Nat
  kstack : Nat
  state : ProcState
  pid : Int
  parent : Option (Fin n)
  context : Option (Code n)
  chan : Option (Chan n)
  killed : Bool

/-- A slot of the zero-initialised global `ptable`. -/
def Proc.empty {n : Nat} : Proc n := ⟨0, 0, 0, .unused, 0, none, none, none, false⟩

section Table

variable {n : Nat}

/-- What `wakeup1(chan)` does to one slot. -/
def wakeSlot (ch : Option (Chan n)) (q : Proc n) : Proc n :=
  if q.state = .sleeping ∧ q.chan = ch then { q with state := .runnable } else q

/-- `wakeup1(chan)`: each process SLEEPING on `chan` becomes RUNNABLE. The loop touches
only the slot it looks at, so it is a pointwise map. -/
def wakeup1 (t : Fin n → Proc n) (ch : Option (Chan n)) : Fin n → Proc n :=
  fun i => wakeSlot ch (t i)

/-- The first slot from index `i` on, in table order, whose record satisfies `P`: the
searches `for(p = ...; p < &ptable.proc[NPROC]; p++) if(...)`. -/
def scanFrom (t : Fin n → Proc n) (i : Nat) (P : Proc n → Bool) : Option (Fin n) :=
  (List.finRange n).find? fun j => decide (i ≤ j.val) && P (t j)

/-- One turn of `exit`'s loop "Pass abandoned children to init":
`if(p->parent == curproc){ p->parent = initproc; if(p->state == ZOMBIE) wakeup1(initproc); }`. -/
def reparentStep (me : Fin n) (init : Option (Fin n)) (t : Fin n → Proc n) (j : Fin n) :
    Fin n → Proc n :=
  if (t j).parent = some me then
    if (t j).state = .zombie then
      wakeup1 (Function.update t j { t j with parent := init }) (init.map .proc)
    else Function.update t j { t j with parent := init }
  else t

/-- `exit`'s loop over the whole table. -/
def reparent (t : Fin n → Proc n) (me : Fin n) (init : Option (Fin n)) : Fin n → Proc n :=
  (List.finRange n).foldl (reparentStep me init) t

/-- `kill(pid)` on the slot it found: `p->killed = 1`, and RUNNABLE if SLEEPING. -/
def killSlot (q : Proc n) : Proc n :=
  { q with killed := true, state := if q.state = .sleeping then .runnable else q.state }

/-- Each child of `me` made a child of `init`: what the reparenting loop does to `parent`. -/
def adopt (t : Fin n → Proc n) (me : Fin n) (init : Option (Fin n)) : Fin n → Proc n :=
  fun j => if (t j).parent = some me then { t j with parent := init } else t j

/-- `me` has a ZOMBIE child. -/
def HasZombieChild (t : Fin n → Proc n) (me : Fin n) : Prop :=
  ∃ j, (t j).parent = some me ∧ (t j).state = .zombie

instance (t : Fin n → Proc n) (me : Fin n) : Decidable (HasZombieChild t me) :=
  inferInstanceAs (Decidable (∃ j, (t j).parent = some me ∧ (t j).state = .zombie))

/-! ## `wakeup1` -/

@[simp] theorem wakeSlot_state (ch : Option (Chan n)) (q : Proc n) :
    (wakeSlot ch q).state = if q.state = .sleeping ∧ q.chan = ch then .runnable else q.state := by
  unfold wakeSlot; split_ifs <;> rfl

/-- `wakeup1` changes no field but `state`. -/
theorem wakeSlot_eq (ch : Option (Chan n)) (q : Proc n) :
    wakeSlot ch q = { q with state := (wakeSlot ch q).state } := by
  unfold wakeSlot; split_ifs <;> rfl

@[simp] theorem wakeSlot_parent (ch) (q : Proc n) : (wakeSlot ch q).parent = q.parent := by
  rw [wakeSlot_eq]

@[simp] theorem wakeSlot_chan (ch) (q : Proc n) : (wakeSlot ch q).chan = q.chan := by
  rw [wakeSlot_eq]

@[simp] theorem wakeSlot_killed (ch) (q : Proc n) : (wakeSlot ch q).killed = q.killed := by
  rw [wakeSlot_eq]

@[simp] theorem wakeSlot_kstack (ch) (q : Proc n) : (wakeSlot ch q).kstack = q.kstack := by
  rw [wakeSlot_eq]

@[simp] theorem wakeSlot_pgdir (ch) (q : Proc n) : (wakeSlot ch q).pgdir = q.pgdir := by
  rw [wakeSlot_eq]

@[simp] theorem wakeSlot_context (ch) (q : Proc n) :
    (wakeSlot ch q).context = q.context := by
  rw [wakeSlot_eq]

@[simp] theorem wakeSlot_pid (ch) (q : Proc n) : (wakeSlot ch q).pid = q.pid := by
  rw [wakeSlot_eq]

theorem wakeSlot_of_not_sleeping {ch} {q : Proc n} (h : q.state ≠ .sleeping) :
    wakeSlot ch q = q := by
  simp [wakeSlot, h]

theorem wakeSlot_idem (ch) (q : Proc n) : wakeSlot ch (wakeSlot ch q) = wakeSlot ch q := by
  unfold wakeSlot; split_ifs <;> simp_all

theorem wakeSlot_parent_comm (ch) (q : Proc n) (a : Option (Fin n)) :
    wakeSlot ch { q with parent := a } = { wakeSlot ch q with parent := a } := by
  unfold wakeSlot; split_ifs <;> simp_all

@[simp] theorem wakeup1_apply (t : Fin n → Proc n) (ch) (i : Fin n) :
    wakeup1 t ch i = wakeSlot ch (t i) := rfl

theorem wakeup1_idem (t : Fin n → Proc n) (ch : Option (Chan n)) :
    wakeup1 (wakeup1 t ch) ch = wakeup1 t ch := by
  funext i; exact wakeSlot_idem ch (t i)

theorem wakeup1_update (t : Fin n → Proc n) (ch) (j : Fin n) (r : Proc n) :
    wakeup1 (Function.update t j r) ch = Function.update (wakeup1 t ch) j (wakeSlot ch r) := by
  funext i
  by_cases hij : i = j
  · subst hij; simp
  · simp [Function.update_noteq hij]

/-- After `wakeup1(chan)` no process sleeps on `chan`. -/
theorem wakeup1_not_sleeping (t : Fin n → Proc n) (ch : Option (Chan n)) (i : Fin n) :
    ¬((wakeup1 t ch i).state = .sleeping ∧ (wakeup1 t ch i).chan = ch) := by
  simp only [wakeup1_apply, wakeSlot_state, wakeSlot_chan]
  split_ifs with h <;> simp_all

/-! ## Scans -/

theorem scanFrom_spec {t : Fin n → Proc n} {i : Nat} {P : Proc n → Bool} {j : Fin n}
    (h : scanFrom t i P = some j) : i ≤ j.val ∧ P (t j) = true := by
  have := List.find?_some h
  simp only [Bool.and_eq_true, decide_eq_true_eq] at this
  exact this

theorem scanFrom_eq_none {t : Fin n → Proc n} {i : Nat} {P : Proc n → Bool} :
    scanFrom t i P = none ↔ ∀ j : Fin n, i ≤ j.val → P (t j) = false := by
  simp [scanFrom, List.find?_eq_none, List.mem_finRange]

/-! ## The reparenting loop

`wakeup1(initproc)` changes only the state of SLEEPING processes, and the loop only
changes parents and tests `ZOMBIE`, so the wakeups can be made once at the end. -/

/-- `adopt` restricted to the slots in `l`. -/
def adoptOn (l : List (Fin n)) (t : Fin n → Proc n) (me : Fin n) (init : Option (Fin n)) :
    Fin n → Proc n :=
  fun j => if j ∈ l ∧ (t j).parent = some me then { t j with parent := init } else t j

theorem wakeSlot_state_zombie (ch) (q : Proc n) :
    (wakeSlot ch q).state = .zombie ↔ q.state = .zombie := by
  simp only [wakeSlot_state]
  split_ifs with h
  · simp [h.1]
  · exact Iff.rfl

theorem foldl_reparentStep (me : Fin n) (init : Option (Fin n)) :
    ∀ (l : List (Fin n)) (t : Fin n → Proc n), l.Nodup →
      l.foldl (reparentStep me init) t =
        if ∃ j ∈ l, (t j).parent = some me ∧ (t j).state = .zombie then
          wakeup1 (adoptOn l t me init) (init.map .proc)
        else adoptOn l t me init := by
  intro l
  induction l using List.reverseRecOn with
  | nil => intro t _; funext j; simp [adoptOn]
  | append_singleton l j ih =>
    intro t hnd
    have hj : j ∉ l := fun h => (List.nodup_append.mp hnd).2.2 h (List.mem_singleton_self j)
    rw [List.foldl_append, ih t (List.nodup_append.mp hnd).1, List.foldl_cons, List.foldl_nil]
    have hAj : adoptOn l t me init j = t j := by simp [adoptOn, hj]
    have hex : (∃ x ∈ l ++ [j], (t x).parent = some me ∧ (t x).state = .zombie) ↔
        (∃ x ∈ l, (t x).parent = some me ∧ (t x).state = .zombie) ∨
          ((t j).parent = some me ∧ (t j).state = .zombie) := by
      simp [or_and_right, exists_or]
    by_cases hpar : (t j).parent = some me
    · have hA' : adoptOn (l ++ [j]) t me init =
          Function.update (adoptOn l t me init) j { t j with parent := init } := by
        funext i
        by_cases hij : i = j
        · subst hij; simp [adoptOn, hpar]
        · simp [adoptOn, hij, Function.update_noteq hij]
      rw [hA', wakeup1_update]
      by_cases hz : (t j).state = .zombie
      · have hW' : wakeSlot (init.map .proc) { t j with parent := init } =
            { t j with parent := init } := wakeSlot_of_not_sleeping (by simp [hz])
        have hWj : wakeup1 (adoptOn l t me init) (init.map .proc) j = t j := by
          rw [wakeup1_apply, hAj, wakeSlot_of_not_sleeping (by simp [hz])]
        rw [if_pos (hex.mpr (.inr ⟨hpar, hz⟩)), hW']
        split_ifs
        · rw [reparentStep, hWj, if_pos hpar, if_pos hz, wakeup1_update, wakeup1_idem, hW']
        · rw [reparentStep, hAj, if_pos hpar, if_pos hz, wakeup1_update, hW']
      · have hnz : ¬((t j).parent = some me ∧ (t j).state = .zombie) := fun h => hz h.2
        have hWz : (wakeSlot (init.map .proc) (t j)).state ≠ .zombie :=
          fun h => hz ((wakeSlot_state_zombie _ _).mp h)
        simp only [hex, hnz, or_false]
        split_ifs
        · rw [reparentStep, wakeup1_apply, hAj, wakeSlot_parent, if_pos hpar, if_neg hWz,
            wakeSlot_parent_comm (init.map .proc) (t j) init]
        · rw [reparentStep, hAj, if_pos hpar, if_neg hz]
    · have hA' : adoptOn (l ++ [j]) t me init = adoptOn l t me init := by
        funext i
        by_cases hij : i = j
        · subst hij; simp [adoptOn, hpar]
        · simp [adoptOn, hij]
      have hnz : ¬((t j).parent = some me ∧ (t j).state = .zombie) := fun h => hpar h.1
      simp only [hA', hex, hnz, or_false]
      split_ifs
      · rw [reparentStep, wakeup1_apply, hAj, wakeSlot_parent, if_neg hpar]
      · rw [reparentStep, hAj, if_neg hpar]

/-- **`exit`'s reparenting loop, in closed form.** Every child of `me` becomes a child of
`init`, and if one of them was a ZOMBIE, `wakeup1(initproc)` has run. -/
theorem reparent_eq (t : Fin n → Proc n) (me : Fin n) (init : Option (Fin n)) :
    reparent t me init =
      if HasZombieChild t me then wakeup1 (adopt t me init) (init.map .proc)
      else adopt t me init := by
  have hA : adoptOn (List.finRange n) t me init = adopt t me init := by
    funext j; simp [adoptOn, adopt, List.mem_finRange]
  rw [reparent, foldl_reparentStep me init _ t (List.nodup_finRange n), hA]
  simp [HasZombieChild, List.mem_finRange]

/-- The reparenting loop changes only `parent` and `state`. -/
theorem reparent_apply (t : Fin n → Proc n) (me : Fin n) (init : Option (Fin n)) (i : Fin n) :
    reparent t me init i =
      { t i with parent := (reparent t me init i).parent, state := (reparent t me init i).state } := by
  rw [reparent_eq]
  split <;> simp only [wakeup1_apply, adopt] <;> split <;> (try rw [wakeSlot_eq]) <;> rfl

section
variable (t : Fin n → Proc n) (me : Fin n) (init : Option (Fin n)) (i : Fin n)

@[simp] theorem reparent_context : (reparent t me init i).context = (t i).context := by
  rw [reparent_apply]

@[simp] theorem reparent_chan : (reparent t me init i).chan = (t i).chan := by
  rw [reparent_apply]

@[simp] theorem reparent_killed : (reparent t me init i).killed = (t i).killed := by
  rw [reparent_apply]

@[simp] theorem reparent_kstack : (reparent t me init i).kstack = (t i).kstack := by
  rw [reparent_apply]

@[simp] theorem reparent_pgdir : (reparent t me init i).pgdir = (t i).pgdir := by
  rw [reparent_apply]

@[simp] theorem reparent_pid : (reparent t me init i).pid = (t i).pid := by
  rw [reparent_apply]

end

end Table

end Xv6
