import Xv6.Stacks

/-!
# The disk queue

`iderw(b)`, called by `bread` and `bwrite` with the buffer's sleep lock held, appends `b` to
`idequeue` under `idelock`, starts the disk with `idestart(b)` when `b` is the only request,
and sleeps on `b` until its flags read `B_VALID` alone. `ideintr` takes the head off the queue,
sets `B_VALID` and clears `B_DIRTY`, runs `wakeup(b)`, and then starts the disk on the next
request. The queue is a `List`; the disk's one outstanding request is `Kernel.disk`.

The disk layer (`DiskInv`) reads off each thread where it stands in its request
(`Code.diskAt`): one thread per buffer, holding its sleep lock; a queued buffer is not yet in
sync and its `iderw` waits for it; once `iderw` returns its buffer is off the queue and in
sync; the queue has no duplicates; and the request on the disk is the head of the queue,
except inside `ideintr` between taking the head and the `idestart` of the next, where the disk
is idle (`Code.ideGap`). Each step appends what `iderw` appends and takes off what `ideintr`
completes (`queue_step`), so along any run the buffers are completed in the order they were
appended (`queue_run`).
-/

namespace Xv6

variable {n m : Nat}

/-! ## Where the threads stand -/

/-- `(b->flags & (B_VALID|B_DIRTY)) == B_VALID`: buffer `b` holds its block and has no write
pending, the test of `iderw`'s loop. -/
def Kernel.synced (s : Kernel n) (b : Nat) : Bool := s.bvalid b && !s.bdirty b

/-- What the disk layer reads of the kernel. -/
def Kernel.diskState (s : Kernel n) :=
  (s.idequeue, s.disk, s.bvalid, s.bdirty, s.blocked)

/-- Where the thread saved in a process's context stands in a disk request, for a RUNNABLE or
SLEEPING process: the contexts a scheduler can resume. -/
def Proc.diskAt (q : Proc n) : Option DiskAt :=
  if q.state = .runnable ∨ q.state = .sleeping then q.context.bind Code.diskAt else none

/-- Where the kernel thread at `l` stands in a disk request. -/
def Sys.diskAt (s : Sys n m) : Loc n m → Option DiskAt
  | .cpu c => (s.cpus c).run.code.diskAt
  | .saved p => (s.mem.procs p).diskAt

/-- Some CPU is in `ideintr` between taking the head and starting the next request. -/
def Sys.inIdeGap (s : Sys n m) : Prop := ∃ c, (s.cpus c).run.code.ideGap

namespace Proc

variable {q q' : Proc n}

theorem diskAt_of_woken (h : q'.Woken q) : q'.diskAt = q.diskAt := by
  obtain ⟨h1, -, h3 | ⟨hs, hr⟩⟩ := h
  · simp only [diskAt, h1, h3]
  · simp [diskAt, h1, hs, hr]

theorem diskAt_of_context (h : q.context = none) : q.diskAt = none := by
  simp [diskAt, h]

theorem diskAt_of_embryo (h : q.state = .embryo) : q.diskAt = none := by
  simp [diskAt, h]

end Proc

/-! ## The disk layer over any places of threads -/

/-- **The disk layer**, over where the thread at each place `l` stands in its request `t l`,
the kernel's disk state, and whether some CPU is in `ideintr`'s window `gap`. -/
structure DiskOk {L : Type} (t : L → Option DiskAt) (s : Kernel n) (gap : Prop) : Prop where
  /-- A thread in a request holds its buffer's sleep lock. -/
  locked : ∀ l a, t l = some a → s.blocked a.buf
  /-- So there is one request per buffer. -/
  unique : ∀ l l' a a', t l = some a → t l' = some a' → a.buf = a'.buf → l = l'
  /-- Before the append, the buffer is neither queued nor in sync. -/
  pending : ∀ l b, t l = some (.append b) → b ∉ s.idequeue ∧ s.synced b = false
  /-- A queued buffer is not in sync, and its `iderw` waits for it. -/
  queued : ∀ b ∈ s.idequeue, s.synced b = false ∧ ∃ l, t l = some (.wait b)
  /-- Once `iderw` has returned, its buffer is off the queue and in sync. -/
  released : ∀ l b, t l = some (.release b) → b ∉ s.idequeue ∧ s.synced b = true
  nodup : s.idequeue.Nodup
  /-- The request on the disk is the head of the queue, or `ideintr` is in its window and the
  disk is idle. -/
  head : s.disk = s.idequeue.head? ∨ gap ∧ s.disk = none

/-- A function updated at `l` reads `v` there and what it read elsewhere. -/
private theorem update_eq_some {L α : Type} [DecidableEq L] {t : L → Option α} {l l' : L}
    {v : Option α} {a : α} (h : Function.update t l v l' = some a) :
    (l' = l ∧ v = some a) ∨ (l' ≠ l ∧ t l' = some a) := by
  by_cases e : l' = l
  · subst e; rw [Function.update_same] at h; exact .inl ⟨rfl, h⟩
  · rw [Function.update_noteq e] at h; exact .inr ⟨e, h⟩

namespace DiskOk

variable {L : Type} {t : L → Option DiskAt} {s s' : Kernel n} {g g' : Prop} (h : DiskOk t s g)

include h in
/-- A buffer whose sleep lock is free is in no request, so not queued. -/
theorem not_queued {b : Nat} (hb : s.blocked b = false) :
    (∀ l a, t l = some a → a.buf ≠ b) ∧ b ∉ s.idequeue := by
  have hne : ∀ l a, t l = some a → a.buf ≠ b := fun l a ha e => by
    have := h.locked l a ha; rw [e, hb] at this; cases this
  exact ⟨hne, fun hq => let ⟨_, l, hl⟩ := h.queued b hq; hne l _ hl rfl⟩

include h in
/-- **The disk layer when threads only move and the disk state is kept.** -/
theorem transport {L' : Type} {t' : L' → Option DiskAt} (e : L' ≃ L)
    (ht : ∀ l, t' l = t (e l)) (hs : s'.diskState = s.diskState) (hg : g → g') :
    DiskOk t' s' g' := by
  simp only [Kernel.diskState, Prod.mk.injEq] at hs
  obtain ⟨hq, hd, hv, hdi, hb⟩ := hs
  have hsync : s'.synced = s.synced := by funext b; simp only [Kernel.synced, hv, hdi]
  refine ⟨fun l a h' => hb ▸ h.locked (e l) a (ht l ▸ h'),
    fun l l' a a' h1 h2 hab => e.injective (h.unique _ _ a a' (ht l ▸ h1) (ht l' ▸ h2) hab),
    fun l b h' => hq ▸ hsync ▸ h.pending (e l) b (ht l ▸ h'), fun b hb' => ?_,
    fun l b h' => hq ▸ hsync ▸ h.released (e l) b (ht l ▸ h'), hq ▸ h.nodup, ?_⟩
  · obtain ⟨hs, l, hl⟩ := h.queued b (hq ▸ hb')
    exact ⟨hsync ▸ hs, e.symm l, by rw [ht, e.apply_symm_apply]; exact hl⟩
  · rw [hq, hd]; exact h.head.imp_right (And.imp_left hg)

include h in
/-- `ideintr` takes the head `b` off the queue and marks it in sync; the disk is idle. -/
theorem complete (hg' : g') {b : Nat} {rest : List Nat} (hq0 : s.idequeue = b :: rest)
    (hq : s'.idequeue = rest) (hd : s'.disk = none) (hv : s'.bvalid = Function.update s.bvalid b true)
    (hdi : s'.bdirty = Function.update s.bdirty b false) (hbl : s'.blocked = s.blocked) :
    DiskOk t s' g' := by
  have hsync (b') (hb' : b' ≠ b) : s'.synced b' = s.synced b' := by
    simp [Kernel.synced, hv, hdi, Function.update_noteq hb']
  have hnd := hq0 ▸ h.nodup
  refine ⟨fun l a h' => hbl ▸ h.locked l a h', h.unique, fun l b' h' => ?_, fun b' hb' => ?_,
    fun l b' h' => ?_, hq ▸ (List.nodup_cons.mp hnd).2, .inr ⟨hg', hd⟩⟩
  · obtain ⟨hn, hs⟩ := h.pending l b' h'
    rw [hq0, List.mem_cons, not_or] at hn
    rw [hq, hsync b' hn.1]; exact ⟨hn.2, hs⟩
  · rw [hq] at hb'
    have hb'b : b' ≠ b := fun e => (List.nodup_cons.mp hnd).1 (e ▸ hb')
    obtain ⟨hs, hw⟩ := h.queued b' (hq0 ▸ List.mem_cons_of_mem b hb')
    exact ⟨(hsync b' hb'b).trans hs, hw⟩
  · obtain ⟨hn, hs⟩ := h.released l b' h'
    rw [hq0, List.mem_cons, not_or] at hn
    rw [hq, hsync b' hn.1]; exact ⟨hn.2, hs⟩

include h in
/-- `ideintr` starts the disk on the new head of the queue. -/
theorem restart (hq : s'.idequeue = s.idequeue) (hd : s'.disk = s.idequeue.head?)
    (hv : s'.bvalid = s.bvalid) (hdi : s'.bdirty = s.bdirty) (hbl : s'.blocked = s.blocked) :
    DiskOk t s' g' := by
  have hsync : s'.synced = s.synced := by funext b; simp only [Kernel.synced, hv, hdi]
  exact ⟨hbl ▸ h.locked, h.unique, hq ▸ hsync ▸ h.pending, hq ▸ hsync ▸ h.queued,
    hq ▸ hsync ▸ h.released, hq ▸ h.nodup, .inl (hq ▸ hd)⟩

variable [DecidableEq L]

include h in
/-- `bread` or `bwrite` takes the free sleep lock of buffer `b`, marks it dirty for a write, and
calls `iderw`: a thread with no request starts one. -/
theorem request (hg : g → g') {l : L} (hl : t l = none) {b : Nat} (hb : s.blocked b = false)
    (hq : s'.idequeue = s.idequeue) (hd : s'.disk = s.disk)
    (hbl : s'.blocked = Function.update s.blocked b true) (hsb : s'.synced b = false)
    (hsync : ∀ b', b' ≠ b → s'.synced b' = s.synced b') :
    DiskOk (Function.update t l (some (.append b))) s' g' := by
  obtain ⟨hne, hnq⟩ := h.not_queued hb
  refine ⟨fun l' a h' => ?_, fun l₁ l₂ a₁ a₂ h₁ h₂ e => ?_, fun l' b' h' => ?_,
    fun b' hb' => ?_, fun l' b' h' => ?_, hq ▸ h.nodup, ?_⟩
  · rw [hbl]
    rcases update_eq_some h' with ⟨-, ⟨⟩⟩ | ⟨-, h'⟩
    · simp [DiskAt.buf]
    · simp [Function.update_noteq (hne l' a h'), h.locked l' a h']
  · rcases update_eq_some h₁ with ⟨e₁, ⟨⟩⟩ | ⟨-, h₁⟩ <;>
      rcases update_eq_some h₂ with ⟨e₂, ⟨⟩⟩ | ⟨-, h₂⟩
    · exact e₁.trans e₂.symm
    · exact absurd e.symm (hne _ _ h₂)
    · exact absurd e (hne _ _ h₁)
    · exact h.unique _ _ _ _ h₁ h₂ e
  · rw [hq]
    rcases update_eq_some h' with ⟨-, ⟨⟩⟩ | ⟨-, h'⟩
    · exact ⟨hnq, hsb⟩
    · rw [hsync b' (hne _ _ h')]; exact h.pending l' b' h'
  · rw [hq] at hb'
    have hb'b : b' ≠ b := fun e => hnq (e ▸ hb')
    obtain ⟨hs, l₀, hl₀⟩ := h.queued b' hb'
    refine ⟨(hsync b' hb'b).trans hs, l₀, ?_⟩
    rwa [Function.update_noteq fun e => by rw [e, hl] at hl₀; cases hl₀]
  · rw [hq]
    rcases update_eq_some h' with ⟨-, ⟨⟩⟩ | ⟨-, h'⟩
    rw [hsync b' (hne _ _ h')]; exact h.released l' b' h'
  · rw [hq, hd]; exact h.head.imp_right (And.imp_left hg)

include h in
/-- `iderw` appends `b` to the queue and, if `b` is now its head, starts the disk on it. -/
theorem append (hng : ¬g) {l : L} {b : Nat} (hl : t l = some (.append b))
    (hq : s'.idequeue = s.idequeue ++ [b])
    (hd : s'.disk = if (s.idequeue ++ [b]).head? = some b then some b else s.disk)
    (hv : s'.bvalid = s.bvalid) (hdi : s'.bdirty = s.bdirty) (hbl : s'.blocked = s.blocked) :
    DiskOk (Function.update t l (some (.wait b))) s' g' := by
  obtain ⟨hnq, hsb⟩ := h.pending l b hl
  have hsync : s'.synced = s.synced := by funext b; simp only [Kernel.synced, hv, hdi]
  have hbuf (l' a) (h' : t l' = some a) (e : a.buf = b) : l' = l := h.unique _ _ _ _ h' hl e
  refine ⟨fun l' a h' => ?_, fun l₁ l₂ a₁ a₂ h₁ h₂ e => ?_, fun l' b' h' => ?_,
    fun b' hb' => ?_, fun l' b' h' => ?_, ?_, ?_⟩
  · rw [hbl]
    rcases update_eq_some h' with ⟨-, ⟨⟩⟩ | ⟨-, h'⟩
    · exact h.locked l (.append b) hl
    · exact h.locked l' a h'
  · rcases update_eq_some h₁ with ⟨e₁, ⟨⟩⟩ | ⟨-, h₁⟩ <;>
      rcases update_eq_some h₂ with ⟨e₂, ⟨⟩⟩ | ⟨-, h₂⟩
    · exact e₁.trans e₂.symm
    · exact e₁.trans (hbuf _ _ h₂ e.symm).symm
    · exact (hbuf _ _ h₁ e).trans e₂.symm
    · exact h.unique _ _ _ _ h₁ h₂ e
  · rcases update_eq_some h' with ⟨-, ⟨⟩⟩ | ⟨hl', h'⟩
    have hb' : b' ≠ b := fun e => hl' (hbuf _ _ h' e)
    rw [hq, hsync]
    exact ⟨by simpa [hb'] using (h.pending l' b' h').1, (h.pending l' b' h').2⟩
  · rw [hq, List.mem_append, List.mem_singleton] at hb'
    rw [hsync]
    rcases hb' with hb' | rfl
    · obtain ⟨hs, l₀, hl₀⟩ := h.queued b' hb'
      refine ⟨hs, l₀, ?_⟩
      rwa [Function.update_noteq fun e => by rw [e, hl] at hl₀; cases hl₀]
    · exact ⟨hsb, l, by simp⟩
  · rcases update_eq_some h' with ⟨-, ⟨⟩⟩ | ⟨hl', h'⟩
    have hb' : b' ≠ b := fun e => hl' (hbuf _ _ h' e)
    rw [hq, hsync]
    exact ⟨by simpa [hb'] using (h.released l' b' h').1, (h.released l' b' h').2⟩
  · rw [hq]; exact h.nodup.append (List.nodup_singleton b) (List.disjoint_singleton.mpr hnq)
  · refine .inl ?_
    rw [hq, hd]
    rcases h.head with e | ⟨hg, -⟩
    · cases hq0 : s.idequeue with
      | nil => simp
      | cons x xs =>
        have hx : x ≠ b := fun e => hnq (by simp [hq0, e])
        simp [hq0, hx, e]
    · exact absurd hg hng

include h in
/-- `iderw`'s loop finds its buffer in sync and returns. -/
theorem loopDone (hg : g → g') {l : L} {b : Nat} (hl : t l = some (.wait b)) (hsb : s.synced b = true) :
    DiskOk (Function.update t l (some (.release b))) s g' := by
  have hnq : b ∉ s.idequeue := fun hq => by rw [(h.queued b hq).1] at hsb; cases hsb
  have hbuf (l' a) (h' : t l' = some a) (e : a.buf = b) : l' = l := h.unique _ _ _ _ h' hl e
  refine ⟨fun l' a h' => ?_, fun l₁ l₂ a₁ a₂ h₁ h₂ e => ?_, fun l' b' h' => ?_,
    fun b' hb' => ?_, fun l' b' h' => ?_, h.nodup, h.head.imp_right (And.imp_left hg)⟩
  · rcases update_eq_some h' with ⟨-, ⟨⟩⟩ | ⟨-, h'⟩
    · exact h.locked l (.wait b) hl
    · exact h.locked l' a h'
  · rcases update_eq_some h₁ with ⟨e₁, ⟨⟩⟩ | ⟨-, h₁⟩ <;>
      rcases update_eq_some h₂ with ⟨e₂, ⟨⟩⟩ | ⟨-, h₂⟩
    · exact e₁.trans e₂.symm
    · exact e₁.trans (hbuf _ _ h₂ e.symm).symm
    · exact (hbuf _ _ h₁ e).trans e₂.symm
    · exact h.unique _ _ _ _ h₁ h₂ e
  · rcases update_eq_some h' with ⟨-, ⟨⟩⟩ | ⟨-, h'⟩
    exact h.pending l' b' h'
  · obtain ⟨hs, l₀, hl₀⟩ := h.queued b' hb'
    refine ⟨hs, l₀, ?_⟩
    rwa [Function.update_noteq fun e => by rw [e, hl] at hl₀; cases hl₀; exact hnq hb']
  · rcases update_eq_some h' with ⟨-, ⟨⟩⟩ | ⟨-, h'⟩
    · exact ⟨hnq, hsb⟩
    · exact h.released l' b' h'

include h in
/-- `brelse` releases the sleep lock of the buffer `iderw` has synced. -/
theorem release (hg : g → g') {l : L} {b : Nat} (hl : t l = some (.release b))
    (hq : s'.idequeue = s.idequeue) (hd : s'.disk = s.disk) (hv : s'.bvalid = s.bvalid)
    (hdi : s'.bdirty = s.bdirty) (hbl : s'.blocked = Function.update s.blocked b false) :
    DiskOk (Function.update t l none) s' g' := by
  have hsync : s'.synced = s.synced := by funext b; simp only [Kernel.synced, hv, hdi]
  have hold (l' a) (h' : Function.update t l none l' = some a) : l' ≠ l ∧ t l' = some a := by
    rcases update_eq_some h' with ⟨-, ⟨⟩⟩ | h'
    exact h'
  refine ⟨fun l' a h' => ?_, fun l₁ l₂ a₁ a₂ h₁ h₂ => h.unique _ _ _ _ (hold _ _ h₁).2 (hold _ _ h₂).2,
    fun l' b' h' => hq ▸ hsync ▸ h.pending l' b' (hold _ _ h').2, fun b' hb' => ?_,
    fun l' b' h' => hq ▸ hsync ▸ h.released l' b' (hold _ _ h').2, hq ▸ h.nodup,
    hq ▸ hd ▸ h.head.imp_right (And.imp_left hg)⟩
  · obtain ⟨hl', h'⟩ := hold _ _ h'
    have hb : a.buf ≠ b := fun e => hl' (h.unique _ _ _ _ h' hl e)
    rw [hbl, Function.update_noteq hb]; exact h.locked l' a h'
  · obtain ⟨hs, l₀, hl₀⟩ := h.queued b' (hq ▸ hb')
    refine ⟨hsync ▸ hs, l₀, ?_⟩
    rwa [Function.update_noteq fun e => by rw [e, hl] at hl₀; cases hl₀]

end DiskOk


/-! ## What a statement does to the disk -/

namespace Code

variable {k : Code n}

/-- The lock operations around `wakeup(b)` keep `ideintr` in its window. -/
theorem ideGap_of_acquire {l : Lock} (h : (Code.acquire l k).ideGap) : k.ideGap := by
  unfold ideGap at h
  split at h <;> (try cases h) <;> rename_i e <;> first | (cases e; rfl) | cases e

theorem ideGap_of_wakeRel {ch : Chan n} (h : (Code.wakeRel ch k).ideGap) : k.ideGap := by
  unfold ideGap at h
  split at h <;> (try cases h) <;> rename_i e <;> first | (cases e; rfl) | cases e

end Code

namespace Kernel.Does

variable {s s' : Kernel n} {me : Option (Fin n)} {k k' : Code n}

/-- **Every statement that goes on takes one of the disk steps.** -/
theorem diskStep (h : s.Does me k (.next k' s')) : DiskStep k s k' s' := by
  cases h with
  | plain _ _ _ _ _ _ _ _ hd => exact hd
  | sleep _ site | unsleep _ site => cases site <;> exact .keep rfl (fun _ => rfl) rfl rfl rfl rfl rfl
  | wakeup _ k₀ => exact .keep rfl (fun _ => by cases k₀ <;> rfl) rfl rfl rfl rfl rfl
  | _ => exact .keep rfl (fun _ => rfl) rfl rfl rfl rfl rfl

/-- A statement that goes on keeps where each saved context stands in a disk request, for a
thread that runs for `me` with no context saved, reaps only a ZOMBIE and has set up what it
builds. -/
theorem procDisk_next (h : s.Does me k (.next k' s'))
    (hme : ∀ p, me = some p → (s.procs p).context = none) (hb : s.Builds me k)
    (hz : ∀ i, k.reapOf = some i → (s.procs i).state = .zombie) (j : Fin n) :
    (s'.procs j).diskAt = (s.procs j).diskAt := by
  cases h with
  | plain _ _ _ _ hp => rw [hp]
  | claim _ i _ hu =>
    exact Kernel.setProc_field s Proc.diskAt (f := fun q => { q with state := .embryo, pid := s.nextpid })
      (by simp [Proc.diskAt, hu]) j
  | unclaim i | forkKstack i =>
    have he : (s.procs i).state = .embryo := (hb _ rfl).1
    exact Kernel.setProc_field _ Proc.diskAt (by simp [Proc.diskAt, he]) j
  | initKstack i a =>
    have he : (s.procs i).state = .embryo := (hb _ rfl).1
    exact Kernel.setProc_field s Proc.diskAt (f := fun q => { q with kstack := a, context := some .forkret })
      (by simp [Proc.diskAt, he]) j
  | initRun i | forkRun i | forkUndo i =>
    obtain ⟨⟨he, -, hc⟩, -⟩ := hb _ rfl
    exact Kernel.setProc_field _ Proc.diskAt (by simp [Proc.diskAt, he, hc, Code.diskAt]) j
  | waitFreevm i => exact Kernel.setProc_field _ Proc.diskAt (by simp [Proc.diskAt, hz i rfl]) j
  | kill _ i => exact Kernel.setProc_field _ Proc.diskAt (Proc.diskAt_of_woken (Proc.woken_killSlot _)) j
  | sleep p _ _ hp | yield p _ _ hp =>
    exact Kernel.setProc_field _ Proc.diskAt (by simp [Proc.diskAt, hme p hp]) j
  | exitWake p _ hp =>
    by_cases hjp : j = p
    · subst hjp
      rw [Kernel.exitWake_self, Proc.diskAt_of_context (hme j hp)]
      simp [Proc.diskAt]
    · exact Proc.diskAt_of_woken (Kernel.exitWake_woken _ hjp)
  | wakeup => exact Proc.diskAt_of_woken (Proc.woken_wakeSlot _ _)
  | _ => first | rfl | exact Kernel.setProc_field _ Proc.diskAt rfl j

/-- `sched()` saves a context that stands where the thread stood, for a process whose state is
the one its code set; `ideintr` never calls it. -/
theorem sched_disk {p : Fin n} {ret : Code n} (h : s.Does me k (.sched p ret)) {q : Proc n}
    (hq : q.state = k.stackState) : ({ q with context := some ret }).diskAt = k.diskAt ∧ k.ideGap = false := by
  cases h with
  | schedSleep _ site => cases site <;> simp [Proc.diskAt, hq, Code.stackState, Code.diskAt, Code.ideGap]
  | _ => simp [Proc.diskAt, hq, Code.stackState, Code.diskAt, Code.ideGap]

/-- A lock operation keeps where the thread stands and keeps `ideintr` in its window. -/
theorem lock_disk {l : Lock} (h : s.Does me k (.acquire l k') ∨ s.Does me k (.release l k')) :
    k'.diskAt = k.diskAt ∧ (k.ideGap → k'.ideGap) := by
  rcases h with h | h <;> cases h
  all_goals first
    | exact ⟨rfl, Code.ideGap_of_acquire⟩
    | exact ⟨rfl, Code.ideGap_of_wakeRel⟩
    | exact ⟨rfl, fun h => by cases h⟩

end Kernel.Does


/-! ## The disk layer of the machine -/

/-- **The disk layer** of the machine, over where each kernel thread stands in its request. -/
def DiskInv (s : Sys n m) : Prop := DiskOk s.diskAt s.mem s.inIdeGap

private theorem update_self_of {L α : Type} [DecidableEq L] {t : L → α} {l : L} {v : α}
    (h : v = t l) (l' : L) : Function.update t l v l' = t l' := by
  rw [h, Function.update_eq_self]

namespace Sys

variable {s : Sys n m} {c : Fin m}

theorem diskAt_goto {k : Code n} {mem : Kernel n}
    (hp : ∀ j, (mem.procs j).diskAt = (s.mem.procs j).diskAt) :
    ({ s with mem := mem }.goto c k).diskAt = Function.update s.diskAt (.cpu c) k.diskAt := by
  funext l
  cases l with
  | cpu d =>
    by_cases hdc : d = c
    · subst hdc; simp [diskAt, goto_run]
    · simp [diskAt, goto_run, hdc]
  | saved p => simp [diskAt, hp]

/-- A CPU in `ideintr`'s window stays in it while only CPU `c` moves, to code that keeps the
window. -/
theorem inIdeGap_of {s' : Sys n m} (hc : (s.cpus c).run.code.ideGap → (s'.cpus c).run.code.ideGap)
    (hrun : ∀ d, d ≠ c → (s'.cpus d).run.code = (s.cpus d).run.code) (h : s.inIdeGap) :
    s'.inIdeGap := by
  obtain ⟨d, hd⟩ := h
  by_cases hdc : d = c
  · subst hdc; exact ⟨d, hc hd⟩
  · exact ⟨d, hrun d hdc ▸ hd⟩

end Sys

/-- Only the CPU that holds `idelock` can be in `ideintr`'s window. -/
theorem LockInv.not_inIdeGap {s : Sys n m} (hl : LockInv s) {c : Fin m}
    (hc : (s.cpus c).run.code.holds .idelock) (hg : (s.cpus c).run.code.ideGap = false) :
    ¬s.inIdeGap := fun ⟨d, hd⟩ => by
  have : d = c := Option.some.inj (((hl.owner_iff _ d).mpr (Code.holds_idelock_of_ideGap hd)).symm.trans
    ((hl.owner_iff _ c).mpr hc))
  subst this; rw [hg] at hd; cases hd

namespace DiskInv

variable {s : Sys n m} (hx : DiskInv s) {c : Fin m}

include hx in
/-- CPU `c` goes on to code `k'` that stands where its code stood, the rest kept. -/
theorem setCode {s' : Sys n m} {r : Code n} (hc : (s'.cpus c).run.code = r)
    (hrun : ∀ d, d ≠ c → (s'.cpus d).run.code = (s.cpus d).run.code) (hmem : s'.mem = s.mem)
    (hk : r.diskAt = (s.cpus c).run.code.diskAt) (hg : (s.cpus c).run.code.ideGap → r.ideGap) :
    DiskInv s' := by
  refine DiskOk.transport hx (Equiv.refl _) (fun l => ?_) (by rw [hmem]) (Sys.inIdeGap_of (hc ▸ hg) hrun)
  cases l with
  | cpu d =>
    by_cases hdc : d = c
    · subst hdc; simp [Sys.diskAt, hc, hk]
    · simp [Sys.diskAt, hrun d hdc]
  | saved p => simp [Sys.diskAt, hmem]

include hx in
theorem halt (why : Panic) : DiskInv (s.halt c why) :=
  hx.setCode (c := c) (r := (s.cpus c).run.code) (by simp) (fun d _ => by simp) rfl rfl id

include hx in
/-- **The disk layer over a statement that goes on.** -/
theorem next (hl : LockInv s) (hi : StackInv s) (hb : BuildInv s) {k' : Code n} {mem' : Kernel n}
    (hd : s.mem.Does (s.cpus c).run.owner (s.cpus c).run.code (.next k' mem')) :
    DiskInv ({ s with mem := mem' }.goto c k') := by
  have ht := Sys.diskAt_goto (c := c) (k := k') (hd.procDisk_next (fun p hp => (hi.runs_self hp).2.1)
    (hb.staged (.cpu c) _ _ rfl) (hi.reaping c))
  have hgap (hg : (s.cpus c).run.code.ideGap → k'.ideGap) :
      s.inIdeGap → ({ s with mem := mem' }.goto c k').inIdeGap :=
    Sys.inIdeGap_of (c := c) (by simpa [Sys.goto_run] using hg) (fun d hdc => by simp [Sys.goto_run, hdc])
  have hwf := hl.code_wf c
  have hidle := hl.not_inIdeGap (c := c)
  have hstep := hd.diskStep
  unfold DiskInv
  rw [ht]
  generalize hk : (s.cpus c).run.code = k at hstep hgap hwf hidle
  have hself : s.diskAt (.cpu c) = k.diskAt := by rw [← hk]; rfl
  cases hstep with
  | keep hk' hg hq hdk hv hdi hbl =>
    exact hx.transport (Equiv.refl _) (update_self_of (hk'.trans hself.symm))
      (by simp [Kernel.diskState, hq, hdk, hv, hdi, hbl]) (hgap (by rw [hg hwf]; exact id))
  | request b w _ hbf hw =>
    exact hx.request (hgap fun h => by cases h) hself hbf rfl rfl rfl
      (by rcases hw with rfl | hw
          · simp [Kernel.synced]
          · simp [Kernel.synced, hw])
      (fun b' hb' => by cases w <;> simp [Kernel.synced, Function.update_noteq hb'])
  | append b hq hdk hv hdi hbl => exact hx.append (hidle rfl rfl) hself hq hdk hv hdi hbl
  | loopDone b _ hsb => exact hx.loopDone (hgap fun h => by cases h) hself hsb
  | complete b rest r _ hq0 =>
    exact DiskOk.complete (hx.transport (Equiv.refl _) (update_self_of hself.symm) rfl id)
      ⟨c, by rw [Sys.goto_run, if_pos rfl, Run.code_setCode]; rfl⟩ hq0 rfl rfl rfl rfl rfl
  | restart r _ =>
    exact DiskOk.restart (hx.transport (Equiv.refl _) (update_self_of hself.symm) rfl id)
      rfl rfl rfl rfl rfl
  | release b _ => exact hx.release (hgap fun h => by cases h) hself rfl rfl rfl rfl rfl



include hx in
/-- `sched()`: the thread moves from CPU `c` to the context of its process `p`. -/
theorem sched (hi : StackInv s) {p : Fin n} {ret : Code n} (hme : (s.cpus c).run.owner = some p)
    (hd : s.mem.Does (s.cpus c).run.owner (s.cpus c).run.code (.sched p ret)) :
    DiskInv ({ s with mem := s.mem.setProc p fun q => { q with context := some ret } }.setCpu c
      fun x => { x with run := .sched (.schedResume p) }) := by
  have hr := hi.runs_self hme
  obtain ⟨hret, hg⟩ := hd.sched_disk hr.1
  refine DiskOk.transport hx (Equiv.swap (.cpu c) (.saved p)) (fun l => ?_) rfl
    (Sys.inIdeGap_of (c := c) (by rw [hg]; exact fun h => by cases h)
      (fun d hdc => by simp [Sys.setCpu_cpus, hdc]))
  cases l with
  | cpu d =>
    by_cases hdc : d = c
    · subst hdc
      simp [Sys.diskAt, Sys.setCpu_cpus, Proc.diskAt_of_context hr.2.1, Code.diskAt]
    · rw [Equiv.swap_apply_of_ne_of_ne (by simp [hdc]) (by simp)]
      simp [Sys.diskAt, Sys.setCpu_cpus, hdc]
  | saved q =>
    by_cases hqp : q = p
    · subst hqp; simpa [Sys.diskAt] using hret
    · rw [Equiv.swap_apply_of_ne_of_ne (by simp) (by simp [hqp])]
      simp [Sys.diskAt, Kernel.setProc_ne _ _ hqp]

include hx in
/-- The scheduler's `swtch` into RUNNABLE slot `j`: the thread moves from `j`'s context to
CPU `c`. -/
theorem dispatch {i : Nat} {j : Fin n} {k : Code n} (hc : (s.cpus c).run.code = .schedScan i)
    (hj : (s.mem.procs j).state = .runnable) (hk : (s.mem.procs j).context = some k) :
    DiskInv ({ s with mem := s.mem.setProc j fun q => { q with state := .running, context := none } }.setCpu c
      fun x => { x with proc := some j, run := .proc j k }) := by
  refine DiskOk.transport hx (Equiv.swap (.cpu c) (.saved j)) (fun l => ?_) rfl
    (Sys.inIdeGap_of (c := c) (by rw [hc]; exact fun h => by cases h)
      (fun d hdc => by simp [Sys.setCpu_cpus, hdc]))
  cases l with
  | cpu d =>
    by_cases hdc : d = c
    · subst hdc; simp [Sys.diskAt, Sys.setCpu_cpus, Proc.diskAt, hj, hk, Run.code]
    · rw [Equiv.swap_apply_of_ne_of_ne (by simp [hdc]) (by simp)]
      simp [Sys.diskAt, Sys.setCpu_cpus, hdc]
  | saved q =>
    by_cases hqj : q = j
    · subst hqj; simp [Sys.diskAt, Proc.diskAt, hc, Code.diskAt]
    · rw [Equiv.swap_apply_of_ne_of_ne (by simp) (by simp [hqj])]
      simp [Sys.diskAt, Kernel.setProc_ne _ _ hqj]

include hx in
/-- **The disk layer over one effect.** -/
theorem apply (hl : LockInv s) (hi : StackInv s) (hb : BuildInv s) {e : Effect n} {s' : Sys n m}
    (hd : s.mem.Does (s.cpus c).run.owner (s.cpus c).run.code e) (h : s.apply c e = some s') :
    DiskInv s' := by
  cases e with
  | next k' mem' => cases h; exact hx.next hl hi hb hd
  | acquire l k' =>
    obtain ⟨h₁, h₂⟩ := Kernel.Does.lock_disk (.inl hd)
    simp only [Sys.apply, Sys.acquire] at h
    split at h
    · cases h; exact hx.halt _
    · split at h <;> cases h
      exact hx.setCode (by simp [Sys.setCpu_cpus]) (fun d hd => by simp [Sys.setCpu_cpus, hd]) rfl h₁ h₂
  | release l k' =>
    obtain ⟨h₁, h₂⟩ := Kernel.Does.lock_disk (.inr hd)
    simp only [Sys.apply, Sys.release, Option.some.injEq] at h
    subst h
    split
    · exact hx.halt _
    split
    · exact hx.halt _
    · exact hx.setCode (by simp [Sys.setCpu_cpus]) (fun d hd => by simp [Sys.setCpu_cpus, hd]) rfl h₁ h₂
  | sched p ret =>
    simp only [Sys.apply, Sys.sched, Option.some.injEq] at h
    subst h
    split
    · exact hx.halt _
    split
    · exact hx.halt _
    split
    · exact hx.halt _
    split
    · exact hx.halt _
    · exact hx.sched hi hd.sched_facts.1 hd
  | dispatch j =>
    simp only [Sys.apply, Sys.dispatch, Option.some.injEq] at h
    subst h
    generalize hk : (s.cpus c).run.code = k at hd
    cases hd with
    | dispatch i _ _ hj =>
      split
      · exact hx.halt _
      split
      · exact hx.halt _
      split
      · exact hx.halt _
      · exact hx.dispatch hk hj ‹_›
  | resume k' =>
    simp only [Sys.apply, Option.some.injEq] at h
    subst h
    generalize hk : (s.cpus c).run.code = k at hd
    cases hd with
    | resume j _ =>
      exact hx.setCode (c := c) (r := .schedScan (j.val + 1)) (by simp [Sys.setCpu_cpus])
        (fun d hd => by simp [Sys.setCpu_cpus, hd]) rfl (by rw [hk]; rfl) (by rw [hk]; exact fun h => by cases h)
  | halt why => cases h; exact hx.halt _

end DiskInv

theorem Sys.diskAt_init (l : Loc n m) : (Sys.init : Sys n m).diskAt l = none := by
  cases l with
  | cpu c => simp only [diskAt, init]; split <;> rfl
  | saved p => rfl

theorem DiskInv.init : DiskInv (Sys.init : Sys n m) where
  locked l a h := by simp [Sys.diskAt_init] at h
  unique l _ a _ h := by simp [Sys.diskAt_init] at h
  pending l b h := by simp [Sys.diskAt_init] at h
  queued b h := by simp [Sys.init] at h
  released l b h := by simp [Sys.diskAt_init] at h
  nodup := List.nodup_nil
  head := .inl rfl

theorem DiskInv.of_reachable {s : Sys n m} (h : Reachable s) : DiskInv s := by
  induction h with
  | init => exact .init
  | step hr hs ih =>
    obtain ⟨-, e, he, ha⟩ := Sys.step_eq_some _ _ hs
    obtain ⟨hl, hi, hb⟩ := SwitchInv.of_reachable hr
    exact ih.apply hl hi hb (Sys.does_of_effect he) ha


/-! ## The order of the queue -/

/-- The buffer a step of CPU `c` from `s` appends to `idequeue`: `iderw`'s append. -/
def Sys.appended (s : Sys n m) (c : Fin m) : List Nat :=
  match (s.cpus c).run.code with
  | .iderwAppend b => [b]
  | _ => []

/-- The buffer a step of CPU `c` from `s` completes: the head that `ideintr` takes. -/
def Sys.completed (s : Sys n m) (c : Fin m) : List Nat :=
  match (s.cpus c).run.code with
  | .ideHead _ => s.mem.idequeue.take 1
  | _ => []

/-- What the steps of the run from `s` along `tr` do, by `f`, one after another. -/
def Sys.trail (f : Sys n m → Fin m → List Nat) (s : Sys n m) : List (Fin m × Choice) → List Nat
  | [] => []
  | (c, ch) :: tr => match step s c ch with
    | none => []
    | some s' => f s c ++ s'.trail f tr

/-- An effect other than a statement that goes on keeps the disk state. -/
theorem Sys.apply_diskState {s s' : Sys n m} {c : Fin m} {e : Effect n} (h : s.apply c e = some s')
    (he : ∀ k mem, e ≠ .next k mem) : s'.mem.diskState = s.mem.diskState := by
  cases e
  case next k mem => exact absurd rfl (he k mem)
  all_goals simp only [apply, acquire, release, sched, dispatch, Option.some.injEq] at h
  all_goals (repeat' split at h) <;> (try cases h) <;> rfl

/-- **One step of the queue**: `iderw`'s append adds its buffer at the tail, `ideintr` takes the
head, and nothing else changes the queue. -/
theorem Sys.queue_step {s s' : Sys n m} {c : Fin m} {ch : Choice} (h : step s c ch = some s') :
    s.mem.idequeue ++ s.appended c = s.completed c ++ s'.mem.idequeue := by
  unfold appended completed
  split
  · rename_i b hk
    obtain ⟨-, e, he, ha⟩ := step_exec _ _ h (by rw [hk]; rfl)
    simp only [hk, Kernel.exec, Option.some.injEq] at he
    subst he; cases ha
    simp only [goto_mem, hk, List.nil_append]
    split <;> rfl
  · split
    · rename_i r hk
      obtain ⟨-, e, he, ha⟩ := step_exec _ _ h (by rw [hk]; rfl)
      simp only [hk, Kernel.exec, Option.some.injEq] at he
      subst he
      rcases hq : s.mem.idequeue with _ | ⟨b, rest⟩ <;> simp only [hq, apply, Option.some.injEq] at ha <;>
        subst ha <;> simp [hq]
    · rename_i h₂ _ h₁
      obtain ⟨-, e, he, ha⟩ := step_eq_some _ _ h
      have hd := does_of_effect he
      simp only [List.append_nil, List.nil_append]
      cases e
      case next k' mem' =>
        cases ha
        have hstep := hd.diskStep
        generalize hk : (s.cpus c).run.code = k at hstep
        cases hstep with
        | keep _ _ hq => exact hq.symm
        | append b => exact absurd hk (h₂ b)
        | complete b rest r => exact absurd hk (h₁ r)
        | _ => rfl
      all_goals exact (congrArg Prod.fst (apply_diskState ha fun _ _ => nofun)).symm

/-- **The order of the queue along a run**: the queue at the start and the buffers appended
after it are the buffers completed, in the same order, and then the queue at the end. -/
theorem Sys.queue_run {s s' : Sys n m} {tr : List (Fin m × Choice)} (h : s.run tr = some s') :
    s.mem.idequeue ++ s.trail appended tr = s.trail completed tr ++ s'.mem.idequeue := by
  induction tr generalizing s with
  | nil => cases h; simp [trail]
  | cons x tr ih =>
    obtain ⟨c, ch⟩ := x
    obtain ⟨s₁, h₁, h₂⟩ := Option.bind_eq_some.mp h
    simp only [trail, h₁]
    rw [← List.append_assoc, queue_step h₁, List.append_assoc, ih h₂, List.append_assoc]


/-! ## What the disk driver guarantees -/

/-- What the disk driver guarantees at the end `s` of the run `tr` from boot: the buffers that
`iderw` appended are the ones `ideintr` completed, in the same order, and then the queue; the
queue has no duplicates; the request on the disk is the head of the queue, unless `ideintr` is
between taking the head and starting the next, when the disk is idle; and a thread back from
`iderw` has its buffer off the queue and in sync. -/
def DiskSpec (tr : List (Fin m × Choice)) (s : Sys n m) : Prop :=
  (Sys.init : Sys n m).trail Sys.appended tr =
      (Sys.init : Sys n m).trail Sys.completed tr ++ s.mem.idequeue ∧
    s.mem.idequeue.Nodup ∧
    (s.mem.disk = s.mem.idequeue.head? ∨ s.inIdeGap ∧ s.mem.disk = none) ∧
    ∀ l b, s.diskAt l = some (.release b) → b ∉ s.mem.idequeue ∧ s.mem.synced b = true

/-- **The disk queue.** Along every run from boot, on any number of CPUs, the buffers are
completed in the order they were appended, each once; the queue never holds a buffer twice;
outside `ideintr`'s window the disk works on the head of the queue; and `iderw` returns only
once its buffer is off the queue and in sync. -/
theorem disk_queue {tr : List (Fin m × Choice)} {s : Sys n m}
    (h : (Sys.init : Sys n m).run tr = some s) : DiskSpec tr s := by
  have hx := DiskInv.of_reachable (Reachable.init.run h)
  have hq := Sys.queue_run h
  rw [show (Sys.init : Sys n m).mem.idequeue = [] from rfl, List.nil_append] at hq
  exact ⟨hq, hx.nodup, hx.head, hx.released⟩

/-- Init forks; init reads buffer 0 and sleeps in `iderw`; the child, dispatched, reads
buffer 1 and sleeps; with both asleep, the scheduler's loop takes the disk interrupt for
buffer 0, and `ideintr` takes it off the queue. -/
def Trace.diskGap : List Choice :=
  Trace.boot ++ Trace.fork ++ .sys (.disk 0 false) :: .replicate 11 .tau ++
    .sys (.disk 1 false) :: .replicate 10 .tau ++ [.intr .disk, .tau, .tau]

/-- Two reads queued, the first one completed: the queue holds the second, and `ideintr` has
not yet started it. -/
theorem disk_queue_diskGap : ∃ s : Sys 2 1, Sys.init.run (Trace.solo Trace.diskGap) = some s ∧
    s.mem.idequeue = [1] ∧ s.mem.disk = none ∧ DiskSpec (Trace.solo Trace.diskGap) s := by
  obtain ⟨s, hr, h⟩ := Sys.exists_run
    (Trace.solo Trace.diskGap)
    (fun s : Sys 2 1 =>
      decide (s.mem.idequeue = [1] ∧ s.mem.disk = none)) (by decide)
  have h := of_decide_eq_true h
  exact ⟨s, hr, h.1, h.2, disk_queue hr⟩

/-- Inside `ideintr`, between taking the head and starting the next request, the queue holds a
request and the disk has none. -/
theorem disk_idle_queue_nonempty :
    ∃ s : Sys 2 1, Reachable s ∧ s.mem.idequeue = [1] ∧ s.mem.disk = none ∧ s.inIdeGap := by
  obtain ⟨s, hr, h⟩ := Reachable.of_run (Trace.solo Trace.diskGap)
    (fun s : Sys 2 1 => decide (s.mem.idequeue = [1] ∧ s.mem.disk = none) && (s.cpus 0).run.code.ideGap)
    (by decide)
  simp only [Bool.and_eq_true, decide_eq_true_eq] at h
  exact ⟨s, hr, h.1.1, h.1.2, 0, h.2⟩

end Xv6
