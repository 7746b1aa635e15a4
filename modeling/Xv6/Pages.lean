import Xv6.Fork
import Xv6.Swtch
import Xv6.Code

/-!
# Pages across processes

The memory side of the process calls of `proc.c`, over the one allocator and physical memory
that all processes share. `allocproc` takes a kernel stack and builds on it the frame of the
first run; `fork` gives the child a copy of the parent's address space (`copyuvm`); `growproc`
grows or shrinks the caller's; `exit` leaves a ZOMBIE that keeps its pages; and `wait` gives a
ZOMBIE's stack and address space back (`kfree`, `freevm`). A slot of `ptable` is kept with the
fields these calls read and write (`Slot`); the rest of `struct proc` is `Proc`'s. Each call is
one step (`Kmem.Step`). The scheduler's moves between SLEEPING, RUNNABLE and RUNNING touch no
memory, so any process in one of these states may make the next call.

`Kmem.Inv pages` puts each page of `pages` in exactly one place: on the free list, or held by one
slot in use, as its kernel stack or as a page its directory owns; and each slot in use has a
whole address space that maps nothing at or above its size. What a call does is said once, as
`Kmem.Acts` for the one slot it acts on; `Inv.of_acts` keeps the invariant from it, and
`Kmem.inv_run` along every run.
-/

namespace Xv6

/-- The fields of a slot of `ptable` that the memory side of the process calls reads and
writes. -/
structure Slot where
  sz : Nat
  pgdir : Nat
  kstack : Nat
  state : ProcState
  tf : Nat

/-- A slot whose process runs user code: SLEEPING, RUNNABLE or RUNNING. -/
def Slot.User (s : Slot) : Prop :=
  s.state = .sleeping ∨ s.state = .runnable ∨ s.state = .running

theorem Slot.User.ne_unused {s : Slot} (h : s.User) : s.state ≠ .unused := by
  rcases h with h | h | h <;> rw [h] <;> decide

/-- A slot in use: its kernel stack is a page the allocator handed out, and its directory a whole
address space that maps nothing at or above its size. -/
structure Slot.Ok (ly : Layout) (vm : Vm) (s : Slot) : Prop where
  held : vm.Held ly s.pgdir
  kstack : vm.Spare ly s.pgdir s.kstack
  below : vm.Below s.pgdir s.sz

/-- A slot the call does not act on stays sound, owns the same pages and maps the same ones, when
the pages the call may touch are pages it does not hold. -/
theorem Slot.Ok.frame {ly : Layout} {vm vm' : Vm} {s : Slot} {S : Nat → Prop} (h : s.Ok ly vm) (ha : vm'.Alloc ly)
    (hS : ∀ G, S G → G % pgsize = 0 ∧ G ≠ s.kstack ∧ ¬ vm.Owns s.pgdir G) (hsub : ∀ G ∈ vm'.free, S G)
    (hk : ∀ x, (∀ G, S G → x < G ∨ G + pgsize ≤ x) → vm'.mem x = vm.mem x) :
    s.Ok ly vm' ∧ (∀ G, vm'.Owns s.pgdir G ↔ vm.Owns s.pgdir G) ∧
      ∀ va, vm'.frame? s.pgdir va = vm.frame? s.pgdir va := by
  obtain ⟨hh, hown, hf⟩ := h.held.of_apart ha (fun G hG => ⟨(hS G hG).1, (hS G hG).2.2⟩) hsub hk
  obtain ⟨k₁, k₂, k₃, k₄, -, k₆⟩ := h.kstack
  exact ⟨⟨hh, ⟨k₁, k₂, k₃, k₄, fun hm => (hS _ (hsub _ hm)).2.1 rfl, fun ho => k₆ ((hown _).mp ho)⟩,
    h.below.congr fun va _ => hf va⟩, hown, hf⟩

/-- Physical memory with the allocator, and the memory fields of `ptable`. -/
structure Kmem (n : Nat) where
  vm : Vm
  procs : Fin n → Slot

/-- `allocproc`'s frame lies inside the stack page. -/
theorem allocprocFrame_mem (vm : Vm) {k x : Nat} (a b : Nat) (hx : x < k ∨ k + pgsize ≤ x) :
    (allocprocFrame vm k a b).1.mem x = vm.mem x := by
  simp only [allocprocFrame, kstacksize, trapframeSize, contextSize, Vm.wr32, Vm.memset, pgsize] at *
  split_ifs <;> first | rfl | omega

theorem allocprocFrame_free (vm : Vm) (k a b : Nat) : (allocprocFrame vm k a b).1.free = vm.free := rfl

namespace Vm

variable {vm vm' : Vm} {ly : Layout} {pgdir : Nat}

/-- A directory with no page table: a whole address space that owns only itself and maps
nothing. -/
theorem space_of_no_table (hmod : pgdir % pgsize = 0)
    (hok : kernbase ≤ pgdir ∧ ly.kend ≤ pgdir ∧ v2p pgdir < phystop) (ht : ∀ d < 1024, vm.table? pgdir d = none) :
    vm.Space ly pgdir ∧ (∀ G, vm.Owns pgdir G ↔ G = pgdir) ∧ ∀ va, vm.frame? pgdir va = none := by
  have hf (va) : vm.frame? pgdir va = none := frame?_of_no_table _ (ht _ (pdx_lt va))
  refine ⟨⟨hmod, hok, fun hd h => ?_, fun hd _ h => ?_, fun hd h => ?_, fun _ h => ?_, fun _ _ h => ?_,
    fun _ _ h => ?_, fun _ h => ?_⟩, fun G => ⟨fun h => ?_, .inl⟩, hf⟩
  any_goals rw [ht _ hd] at h; cases h
  any_goals rw [hf] at h; cases h
  rcases h with h | ⟨d, hd, h⟩ | ⟨va, -, -, -, h⟩
  · exact h
  · rw [ht d hd] at h; cases h
  · rw [hf] at h; cases h

/-- Bytes below `end` lie outside a whole address space's directory and page tables. -/
theorem Space.offTables_of_lt (hs : vm.Space ly pgdir) {x : Nat} (hx : x < ly.kend) : vm.OffTables pgdir x :=
  ⟨.inl (by have := hs.dir_ok.2.1; omega), fun _ hd _ hT => .inl (by have := (hs.table_ok hd hT).1; omega)⟩

/-- An `inituvm` that returns had fewer than `PGSIZE` bytes to copy and a page to take. -/
theorem inituvm_ok_pre {init sz : Nat} (hrun : vm.inituvm pgdir init sz = .ok vm') :
    sz < pgsize ∧ ∃ F rest, vm.free = F :: rest := by
  unfold Vm.inituvm at hrun
  split_ifs at hrun with hsz
  cases hfree : vm.free with
  | nil =>
    rw [show vm.kalloc = (0, vm) by rw [Vm.kalloc, hfree]] at hrun
    cases hrun
  | cons F rest => exact ⟨by omega, F, rest, rfl⟩

/-- **`inituvm`.** For a whole address space with no page present at 0, fewer than `PGSIZE`
bytes at `init` below `end`, and a page `F` at the head of the free list, `inituvm` returns.
Either `F` was the last free page, so that `mappages` found none for the page table, and the free
list is left empty (the code does not notice, and `F` is neither free nor mapped); or it has
mapped `F` at 0, writable and for the user, with at most one page table `L` taken after it,
holding the `sz` bytes at `init` and zeros after them. -/
theorem Held.inituvm (h : vm.Held ly pgdir) (hnone : vm.frame? pgdir 0 = none) {init sz F : Nat}
    {rest : List Nat} (hinit : init + sz ≤ ly.kend) (hsz : sz < pgsize) (hfree : vm.free = F :: rest) :
    ∃ vm', vm.inituvm pgdir init sz = .ok vm' ∧ (rest = [] ∧ vm'.free = [] ∨
      ∃ L, L.length ≤ 1 ∧ rest = L ++ vm'.free ∧ vm'.Held ly pgdir ∧
      (∀ G, vm'.Owns pgdir G ↔ vm.Owns pgdir G ∨ G = F ∨ G ∈ L) ∧
      (∀ va < kernbase, vm'.frame? pgdir va = if va < pgsize then some F else vm.frame? pgdir va) ∧
      vm'.entry? pgdir 0 = some (v2p F ||| (pteW ||| pteU) ||| pteP) ∧
      (∀ va, ¬ (pdx va = pdx 0 ∧ ptx va = ptx 0) → vm'.entry? pgdir va = vm.entry? pgdir va) ∧
      ∀ j < pgsize, vm'.mem (F + j) = if j < sz then vm.mem (init + j) else 0) := by
  obtain ⟨h₁, hF₁⟩ := h.kalloc hfree
  have hF0 : F ≠ 0 := (Nat.zero_lt_of_lt hF₁.2.1).ne'
  have hout (x) (hx : x < F ∨ F + pgsize ≤ x) :
      (({ vm with free := rest } : Vm).memset F 0 pgsize).mem x = vm.mem x := by
    show (if F ≤ x ∧ x < F + pgsize then _ else _) = _
    rw [if_neg (by omega)]
  obtain ⟨h₂, hF₂, hown₂, -, hpte₂, hf₂⟩ := h₁.write_spare hF₁
    (show (({ vm with free := rest } : Vm).memset F 0 pgsize).free = _ from rfl) hout
  rw [Vm.inituvm, if_neg (by omega), show vm.kalloc = (F, { vm with free := rest }) by rw [Vm.kalloc, hfree]]
  simp only [if_neg hF0]
  rcases h₂.mapPage (a := 0) rfl (by decide) (by rw [hf₂]; exact hnone) hF₂ (show pteW ||| pteU < 4096 by decide) with
    ⟨hfree₂, hmp⟩ | ⟨vm₃, L, hmp, mp⟩
  · rw [hmp]
    exact ⟨_, rfl, .inl ⟨hfree₂, hfree₂⟩⟩
  rw [hmp]
  have hF₃ : vm₃.frame? pgdir 0 = some F := by rw [mp.frame 0 (by decide), if_pos rfl]
  have hmv (x) : (vm₃.memmove F init sz).mem x =
      if F ≤ x ∧ x < F + sz then vm₃.mem (init + (x - F)) else vm₃.mem x := rfl
  obtain ⟨h₄, hown₄, -, hpte₄, hf₄⟩ := mp.held.of_keep (show (vm₃.memmove F init sz).free = vm₃.free from rfl)
    fun x hx => by
      rw [hmv, if_neg fun hx' => hx (mp.held.space.offTables_of_frame (by decide) hF₃ hx'.1 (by omega))]
  have hFk := hF₁.2.2.1
  obtain ⟨e₁, e₂, -⟩ := entry_of_page hF₁.1 hF₁.2.1.le hF₁.2.2.2.1 (show pteW ||| pteU < 4096 by decide)
  refine ⟨_, rfl, .inr ⟨L, mp.tables_le, mp.free_eq, h₄,
    fun G => by rw [hown₄, mp.owns, hown₂]; rfl, fun va hva => ?_, ?_, fun va hva => ?_, fun j hj => ?_⟩⟩
  · rw [hf₄, mp.frame va hva, hf₂]
    simp only [pgsize, Nat.zero_div, Nat.div_eq_zero_iff (show 0 < 4096 by decide)]
    rfl
  · rw [entry?, hpte₄, mp.pte, Option.filter_some, if_pos (bne_iff_ne.mpr e₂)]
  · rw [entry?, hpte₄, ← entry?, mp.entry va hva]
    unfold entry?
    rw [hpte₂]
    rfl
  · rw [hmv, Nat.add_sub_cancel_left]
    split_ifs with h₁ h₂ h₂
    · rw [mp.keep _ (mp.held.space.offTables_of_lt (by omega)), hout _ (.inl (by omega))]
    · omega
    · omega
    · rw [mp.keep _ (mp.held.space.offTables_of_frame (by decide) hF₃ (by omega) (by omega))]
      show (if F ≤ F + j ∧ F + j < F + pgsize then _ else _) = _
      rw [if_pos (by omega)]

end Vm

namespace Kmem

variable {n : Nat}

section Calls

variable (ly : Layout) (trapretAt forkretAt : Nat)

/-- `allocproc()`: the first UNUSED slot becomes EMBRYO with a kernel stack from `kalloc`, on
which `allocprocFrame` builds the frame of its first run and `p->tf`. No slot when none is
UNUSED, or when `kalloc` returns 0, which leaves the slot UNUSED with `kstack` 0. -/
def allocproc (m : Kmem n) : Option (Fin n) × Kmem n :=
  match (List.finRange n).find? fun i => (m.procs i).state = .unused with
  | none => (none, m)
  | some i =>
    match m.vm.kalloc with
    | (k, vm) =>
      if k = 0 then (none, ⟨vm, Function.update m.procs i { m.procs i with kstack := 0 }⟩)
      else (some i, ⟨(allocprocFrame vm k trapretAt forkretAt).1, Function.update m.procs i
        { m.procs i with kstack := k, state := .embryo, tf := (allocprocFrame vm k trapretAt forkretAt).2.1 }⟩)

/-- `fork()` by the process in slot `p`: `allocproc`, then `copyuvm` of the parent's directory
and size. When it returns 0 the child's stack is freed and its slot UNUSED; otherwise the child
gets the new directory, the parent's size and a copy of the parent's trap frame, and is
RUNNABLE. -/
def fork (m : Kmem n) (p : Fin n) : Except Fault (Kmem n) :=
  match allocproc trapretAt forkretAt m with
  | (none, m) => .ok m
  | (some i, m) => do
    let (d, vm) ← m.vm.copyuvm ly (m.procs p).pgdir (m.procs p).sz
    if d = 0 then
      let vm ← vm.kfree ly (m.procs i).kstack
      pure ⟨vm, Function.update m.procs i { m.procs i with pgdir := 0, kstack := 0, state := .unused }⟩
    else
      pure ⟨vm.memmove (m.procs i).tf (m.procs p).tf trapframeSize,
        Function.update m.procs i { m.procs i with sz := (m.procs p).sz, pgdir := d, state := .runnable }⟩

/-- `growproc(n)` by the process in slot `p`: `Vm.growproc` on its directory and size, and the
size it leaves. -/
def growproc (m : Kmem n) (p : Fin n) (k : Int) : Except Fault (Kmem n) :=
  (m.vm.growproc ly (m.procs p).pgdir (m.procs p).sz k).map fun r =>
    ⟨r.2.2, Function.update m.procs p { m.procs p with sz := r.2.1 }⟩

/-- `exit()` by the process in slot `p`: a ZOMBIE, which keeps its pages for `wait`. -/
def exit (m : Kmem n) (p : Fin n) : Kmem n :=
  ⟨m.vm, Function.update m.procs p { m.procs p with state := .zombie }⟩

/-- What `wait()` does to the ZOMBIE it finds in slot `c`: `kfree(p->kstack)`, `p->kstack = 0`,
`freevm(p->pgdir)`, and the slot is UNUSED. -/
def wait (m : Kmem n) (c : Fin n) : Except Fault (Kmem n) := do
  let vm ← m.vm.kfree ly (m.procs c).kstack
  let vm ← vm.freevm ly (m.procs c).pgdir
  pure ⟨vm, Function.update m.procs c { m.procs c with kstack := 0, state := .unused }⟩

/-- `userinit()`: `allocproc`, then a directory from `setupkvm`, a panic if there is none, the
init code at user address 0 (`inituvm`), size `PGSIZE`, a zeroed trap frame, and RUNNABLE.
When `allocproc` returns null, the store to `p->pgdir` is through the null pointer. -/
def userinit (m : Kmem n) (init size : Nat) : Except Fault (Kmem n) :=
  match allocproc trapretAt forkretAt m with
  | (none, _) => .error .nullDeref
  | (some p, m) => do
    let (d, vm) ← m.vm.setupkvm ly
    if d = 0 then .error (.panic "userinit: out of memory?")
    else
      let vm ← vm.inituvm d init size
      pure ⟨vm.memset (m.procs p).tf 0 trapframeSize,
        Function.update m.procs p { m.procs p with sz := pgsize, pgdir := d, state := .runnable }⟩

/-- The calls, one at a time: `fork`, `growproc` and `exit` by a process that runs user code, and
`wait`'s reaping of a ZOMBIE. -/
inductive Step (m : Kmem n) : Kmem n → Prop
  | fork {p : Fin n} {m' : Kmem n} : (m.procs p).User → fork ly trapretAt forkretAt m p = .ok m' → Step m m'
  | growproc {p : Fin n} {k : Int} {m' : Kmem n} : (m.procs p).User → growproc ly m p k = .ok m' → Step m m'
  | exit {p : Fin n} : (m.procs p).User → Step m (exit m p)
  | wait {c : Fin n} {m' : Kmem n} : (m.procs c).state = .zombie → wait ly m c = .ok m' → Step m m'

end Calls

/-- The page `G` is held by the slot `i`: the slot is in use, and `G` is its kernel stack or a
page its directory owns. -/
def Holds (m : Kmem n) (i : Fin n) (G : Nat) : Prop :=
  (m.procs i).state ≠ .unused ∧ (G = (m.procs i).kstack ∨ m.vm.Owns (m.procs i).pgdir G)

theorem exists_holds_iff (m : Kmem n) (a : Fin n) (G : Nat) :
    (∃ i, m.Holds i G) ↔ m.Holds a G ∨ ∃ i, i ≠ a ∧ m.Holds i G := by
  constructor
  · rintro ⟨i, h⟩
    by_cases e : i = a
    exacts [.inl (e ▸ h), .inr ⟨i, e, h⟩]
  · rintro (h | ⟨i, -, h⟩)
    exacts [⟨a, h⟩, ⟨i, h⟩]

variable (ly : Layout)

/-- **Where each page is.** The pages of `pages` are exactly the free pages and the pages held by
the slots in use, and no two slots hold one page; each slot in use is sound, so that none of the
pages it holds is free. -/
structure Inv (pages : List Nat) (m : Kmem n) : Prop where
  alloc : m.vm.Alloc ly
  slot : ∀ i, (m.procs i).state ≠ .unused → (m.procs i).Ok ly m.vm
  apart : ∀ i j, i ≠ j → ∀ G, m.Holds i G → ¬ m.Holds j G
  pool : ∀ G, G ∈ pages ↔ G ∈ m.vm.free ∨ ∃ i, m.Holds i G

/-- What a call does, acting on the slot `a`: every other slot as it was; `a` sound if in use;
the pages free or held by `a` are still exactly those; and no byte outside them changed. -/
structure Acts (m m' : Kmem n) (a : Fin n) : Prop where
  alloc : m'.vm.Alloc ly
  same : ∀ i, i ≠ a → m'.procs i = m.procs i
  slot : (m'.procs a).state ≠ .unused → (m'.procs a).Ok ly m'.vm
  pool : ∀ G, G ∈ m'.vm.free ∨ m'.Holds a G ↔ G ∈ m.vm.free ∨ m.Holds a G
  keep : ∀ x, (∀ G, G ∈ m.vm.free ∨ m.Holds a G → x < G ∨ G + pgsize ≤ x) → m'.vm.mem x = m.vm.mem x

variable {ly} {pages : List Nat} {m m' : Kmem n} {a : Fin n} (trapretAt forkretAt : Nat)

/-! ## Each call, once -/

theorem Acts.refl (hi : Inv ly pages m) (a : Fin n) : Acts ly m m a :=
  ⟨hi.alloc, fun _ _ => rfl, hi.slot a, fun _ => Iff.rfl, fun _ _ => rfl⟩

/-- A call that leaves the UNUSED slot `a` UNUSED and every other slot as it was, and only
reorders the free list, writing only free pages. -/
theorem Acts.of_unused (hi : Inv ly pages m) (ha : (m.procs a).state = .unused)
    (ha' : (m'.procs a).state = .unused) (hsame : ∀ i, i ≠ a → m'.procs i = m.procs i)
    (hperm : m'.vm.free.Perm m.vm.free)
    (hkeep : ∀ x, (∀ G ∈ m.vm.free, x < G ∨ G + pgsize ≤ x) → m'.vm.mem x = m.vm.mem x) :
    Acts ly m m' a where
  alloc := hi.alloc.of_perm hperm
  same := hsame
  slot h := absurd ha' h
  pool G := by simp only [Holds, ha, ha', ne_eq, not_true_eq_false, false_and, or_false, hperm.mem_iff]
  keep x hx := hkeep x fun G hG => hx G (.inl hG)

theorem exit_acts (hi : Inv ly pages m) {p : Fin n} (hu : (m.procs p).User) : Acts ly m (exit m p) p where
  alloc := hi.alloc
  same _ h := Function.update_noteq h _ _
  slot _ := by
    simp only [exit, Function.update_same]
    have h := hi.slot p hu.ne_unused
    exact ⟨h.held, h.kstack, h.below⟩
  pool G := by simp [Holds, exit, hu.ne_unused]
  keep _ _ := rfl

theorem growproc_acts (hi : Inv ly pages m) {p : Fin n} (hu : (m.procs p).state ≠ .unused) (k : Int) :
    ∃ m', growproc ly m p k = .ok m' ∧ Acts ly m m' p := by
  obtain ⟨hh, ⟨k₁, k₂, k₃, k₄, k₅, k₆⟩, hb⟩ := hi.slot p hu
  obtain ⟨r, sz', vm', hrun, hmv, hb', -⟩ := Vm.growproc_spec hh hb k
  refine ⟨⟨vm', Function.update m.procs p { m.procs p with sz := sz' }⟩, by rw [growproc, hrun]; rfl,
    hmv.held.alloc, fun i h => Function.update_noteq h _ _, fun _ => ?_, fun G => ?_,
    fun x hx => hmv.keep x fun G hG => hx G (hG.imp_right fun h => ⟨hu, .inr h⟩)⟩
  · simp only [Function.update_same]
    exact ⟨hmv.held, ⟨k₁, k₂, k₃, k₄, fun h => ((hmv.pool _).mp (.inl h)).elim k₅ k₆,
      fun h => ((hmv.pool _).mp (.inr h)).elim k₅ k₆⟩, hb'⟩
  · simp only [Holds, Function.update_same, hu, ne_eq, not_false_eq_true, true_and]
    rw [or_left_comm, hmv.pool, or_left_comm]

theorem wait_acts (hend : kernbase < ly.kend) (hi : Inv ly pages m) {c : Fin n}
    (hz : (m.procs c).state = .zombie) : ∃ m', wait ly m c = .ok m' ∧ Acts ly m m' c := by
  have hu : (m.procs c).state ≠ .unused := by rw [hz]; decide
  obtain ⟨hh, hk, -⟩ := hi.slot c hu
  obtain ⟨vm₁, hk₁, hh₁, hfree₁, hown₁, -, hkeep₁⟩ := hh.kfree hk
  obtain ⟨vm₂, L, hrun₂, hfree₂, hnd, hmem, hkeep₂⟩ := Vm.freevm_spec hh₁.space
  have hL (G) : G ∈ L ↔ m.vm.Owns (m.procs c).pgdir G := (hmem G).trans (hown₁ G)
  refine ⟨⟨vm₂, Function.update m.procs c { m.procs c with kstack := 0, state := .unused }⟩, ?_,
    ⟨⟨?_, fun G hG => ?_⟩, fun i h => Function.update_noteq h _ _, fun h => ?_, fun G => ?_, fun x hx => ?_⟩⟩
  · rw [wait, hk₁]
    simp only [bind, Except.bind, hrun₂]
    rfl
  · rw [hfree₂]
    exact List.pairwise_append.mpr ⟨hnd, hh₁.alloc.nodup, fun G hG G' hG' e => hh₁.apart G' hG' (e ▸ (hmem G).mp hG)⟩
  · rw [hfree₂, List.mem_append] at hG
    exact hG.elim (fun hG => hh.space.owns_ok hend ((hL G).mp hG)) (hh₁.alloc.ok G)
  · simp only [Function.update_same] at h
    exact absurd rfl h
  · simp only [Holds, Function.update_same, ne_eq, not_true_eq_false, false_and, or_false, hu,
      not_false_eq_true, true_and, hfree₂, hfree₁, List.mem_append, List.mem_cons, hL]
    simp only [or_assoc, or_comm, or_left_comm]
  · rw [hkeep₂ x fun F hF => hx F (.inr ⟨hu, .inr ((hL F).mp hF)⟩), hkeep₁ x (hx _ (.inr ⟨hu, .inl rfl⟩))]

/-- **`fork`.** From a state where every page is in one place, `fork` by a process in use either
returns, acting on one slot (the child's, when it finds one), or panics in `copyuvm`, "pte should
exist" or "page not present", which it does only where the parent has no page present at a
page-aligned address below its size. -/
theorem fork_acts (hly : ly.Ok) (hi : Inv ly pages m) {p : Fin n}
    (hu : (m.procs p).state ≠ .unused) :
    (∃ m' a, fork ly trapretAt forkretAt m p = .ok m' ∧ Acts ly m m' a) ∨
      (∃ f, fork ly trapretAt forkretAt m p = .error f ∧ Vm.copyuvmPanic f) ∧
        ∃ va, va % pgsize = 0 ∧ va < (m.procs p).sz ∧ m.vm.entry? (m.procs p).pgdir va = none := by
  obtain ⟨hh, -, hb⟩ := hi.slot p hu
  rcases hfind : (List.finRange n).find? (fun i => (m.procs i).state = .unused) with _ | i
  · exact .inl ⟨m, p, by simp only [fork, allocproc, hfind], Acts.refl hi p⟩
  have hui : (m.procs i).state = .unused := by simpa using List.find?_some hfind
  have hpi : p ≠ i := fun e => hu (e ▸ hui)
  have hsame (s : Slot) (j) (h : j ≠ i) : Function.update m.procs i s j = m.procs j := Function.update_noteq h _ _
  rcases hfree : m.vm.free with _ | ⟨k, rest⟩
  · -- `kalloc` finds no page: the slot stays UNUSED
    exact .inl ⟨⟨m.vm, Function.update m.procs i { m.procs i with kstack := 0 }⟩, i,
      by simp only [fork, allocproc, hfind, Vm.kalloc, hfree, ↓reduceIte],
      Acts.of_unused hi hui (by simp only [Function.update_same, hui]) (hsame _) (List.Perm.refl _) fun _ _ => rfl⟩
  have hk : k ∈ m.vm.free := by rw [hfree]; exact List.mem_cons_self k rest
  have hk0 : k ≠ 0 := (Nat.zero_lt_of_lt (hi.alloc.ok k hk).2.1).ne'
  -- the stack page off the free list, and the frame `allocproc` builds on it
  obtain ⟨h₀, hF₀⟩ := hh.kalloc hfree
  obtain ⟨vm₁, hvm₁⟩ : ∃ vm₁, (allocprocFrame ⟨m.vm.mem, rest⟩ k trapretAt forkretAt).1 = vm₁ := ⟨_, rfl⟩
  obtain ⟨tf, htf⟩ : ∃ tf, (allocprocFrame ⟨m.vm.mem, rest⟩ k trapretAt forkretAt).2.1 = tf := ⟨_, rfl⟩
  have htf' : tf = k + 4020 := by rw [← htf]; simp only [allocprocFrame, kstacksize, trapframeSize]; omega
  have hfree₁ : vm₁.free = rest := hvm₁ ▸ rfl
  have hout₁ (x) (hx : x < k ∨ k + pgsize ≤ x) : vm₁.mem x = m.vm.mem x := hvm₁ ▸ allocprocFrame_mem _ _ _ hx
  obtain ⟨h₁, -, -, -, hpte₁, hf₁⟩ := h₀.write_spare hF₀ hfree₁ hout₁
  rcases Vm.copyuvm_run h₁ (hb.congr fun va _ => hf₁ va) hly with
    ⟨d, vm₂, hrun, -, -, -, hkeep₂, ⟨rfl, hperm, -⟩ | ⟨L, c⟩⟩ | ⟨⟨f, hf, hpanic⟩, va, hm, hlt, hva⟩
  · -- `copyuvm` returns 0: the stack goes back, and the slot is UNUSED
    have hk₃ := Vm.kfree_ok vm₂ ly hF₀.1 hF₀.2.2.1 hF₀.2.2.2.1
    refine .inl ⟨⟨{ vm₂.memset k 1 pgsize with free := k :: vm₂.free },
      Function.update m.procs i ⟨(m.procs i).sz, 0, 0, .unused, tf⟩⟩, i, ?_,
      Acts.of_unused hi hui (by simp only [Function.update_same]) (hsame _) ?_ fun x hx => ?_⟩
    · simp only [fork, allocproc, hfind, Vm.kalloc, hfree, if_neg hk0, Function.update_noteq hpi,
        Function.update_same, Function.update_idem, hvm₁, htf, hrun, bind, Except.bind, ↓reduceIte, hk₃]
      rfl
    · rw [hfree]
      exact (hperm.trans (by rw [hfree₁])).cons k
    · have hxk := hx k hk
      rw [show ({ vm₂.memset k 1 pgsize with free := k :: vm₂.free } : Vm).mem x = (vm₂.memset k 1 pgsize).mem x from rfl,
        vm₂.agrees_memset (X := x) (m := 1) 1 (by omega) x le_rfl (by omega), hkeep₂ x fun G hG => hx G (by rw [hfree]; exact List.mem_cons_of_mem k (hfree₁ ▸ hG)),
        hout₁ x hxk]
  · -- the child: the new directory, the stack page, the parent's size
    have hd : d ∈ rest := by rw [← hfree₁, c.free_eq]; exact List.mem_cons_self d _
    have hd0 : d ≠ 0 :=
      (Nat.zero_lt_of_lt (hi.alloc.ok d (by rw [hfree]; exact List.mem_cons_of_mem k hd)).2.1).ne'
    have hk₂ : vm₂.Spare ly d k := ⟨hF₀.1, hF₀.2.1, hF₀.2.2.1, hF₀.2.2.2.1,
      fun h => hF₀.2.2.2.2.1 (hfree₁ ▸ (c.pool k).mp (.inr h)), fun h => hF₀.2.2.2.2.1 (hfree₁ ▸ (c.pool k).mp (.inl h))⟩
    have hout₃ (x) (hx : x < k ∨ k + pgsize ≤ x) :
        (vm₂.memmove tf (m.procs p).tf trapframeSize).mem x = vm₂.mem x := by
      show (if tf ≤ x ∧ x < tf + trapframeSize then _ else _) = _
      rw [if_neg (by simp only [trapframeSize, pgsize] at *; omega)]
    obtain ⟨h₃, hk₃, hown₃, -, -, hf₃⟩ := c.held.write_spare hk₂
      (show (vm₂.memmove tf (m.procs p).tf trapframeSize).free = vm₂.free from rfl) hout₃
    refine .inl ⟨⟨vm₂.memmove tf (m.procs p).tf trapframeSize,
      Function.update m.procs i ⟨(m.procs p).sz, d, k, .runnable, tf⟩⟩, i, ?_,
      h₃.alloc, hsame _, fun _ => ?_, fun G => ?_, fun x hx => ?_⟩
    · simp only [fork, allocproc, hfind, Vm.kalloc, hfree, if_neg hk0, Function.update_noteq hpi,
        Function.update_same, Function.update_idem, hvm₁, htf, hrun, bind, Except.bind, if_neg hd0]
      rfl
    · simp only [Function.update_same]
      exact ⟨h₃, hk₃, (show vm₂.Below d (m.procs p).sz from ⟨hb.1, c.above⟩).congr fun va _ => hf₃ va⟩
    · simp only [Holds, Function.update_same, hui, ne_eq, not_true_eq_false, false_and, or_false]
      rw [hfree, List.mem_cons, ← hfree₁, ← c.pool, hown₃]
      simp only [Vm.memmove_free, reduceCtorEq, not_false_eq_true, true_and]
      rw [or_comm, or_assoc]
    · have hxk := hx k (.inl hk)
      rw [hout₃ x hxk, hkeep₂ x fun G hG => hx G (.inl (by rw [hfree]; exact List.mem_cons_of_mem k (hfree₁ ▸ hG))),
        hout₁ x hxk]
  · -- `copyuvm` panics
    refine .inr ⟨⟨f, ?_, hpanic⟩, va, hm, hlt, ?_⟩
    · simp only [fork, allocproc, hfind, Vm.kalloc, hfree, if_neg hk0, Function.update_noteq hpi,
        Function.update_same, hvm₁, hf, bind, Except.bind]
    · have := hpte₁ va
      unfold Vm.entry? at hva ⊢
      rw [this] at hva
      exact hva

/-! ## The invariant -/

/-- The pages a call on the slot `a` may touch, the free ones and those `a` holds, are pages. -/
theorem Inv.touched_mod (hend : kernbase < ly.kend) (hi : Inv ly pages m) {G : Nat}
    (hG : G ∈ m.vm.free ∨ m.Holds a G) : G % pgsize = 0 := by
  rcases hG with hG | ⟨hu, rfl | hG⟩
  exacts [(hi.alloc.ok G hG).1, (hi.slot a hu).kstack.1, ((hi.slot a hu).held.space.owns_ok hend hG).1]

/-- No other slot holds a page that a call on the slot `a` may touch. -/
theorem Inv.not_holds (hi : Inv ly pages m) {j : Fin n} (hj : j ≠ a) {G : Nat}
    (hG : G ∈ m.vm.free ∨ m.Holds a G) : ¬ m.Holds j G := by
  rintro ⟨hu, hk⟩
  rcases hG with hG | hG
  · rcases hk with rfl | ho
    exacts [(hi.slot j hu).kstack.2.2.2.2.1 hG, (hi.slot j hu).held.apart G hG ho]
  · exact hi.apart a j (Ne.symm hj) G hG ⟨hu, hk⟩

/-- A slot in use that a call does not act on stays sound, owning and mapping the same pages. -/
theorem Inv.other (hend : kernbase < ly.kend) (hi : Inv ly pages m) (ha : Acts ly m m' a) {j : Fin n}
    (hj : j ≠ a) (hu : (m.procs j).state ≠ .unused) :
    (m.procs j).Ok ly m'.vm ∧ (∀ G, m'.vm.Owns (m.procs j).pgdir G ↔ m.vm.Owns (m.procs j).pgdir G) ∧
      ∀ va, m'.vm.frame? (m.procs j).pgdir va = m.vm.frame? (m.procs j).pgdir va :=
  (hi.slot j hu).frame ha.alloc (fun _ hG => ⟨hi.touched_mod hend hG, fun e => hi.not_holds hj hG ⟨hu, .inl e⟩,
    fun ho => hi.not_holds hj hG ⟨hu, .inr ho⟩⟩) (fun G hG => (ha.pool G).mp (.inl hG)) ha.keep

/-- **The invariant from one call.** A call that acts on one slot keeps every page in one place:
the slots it does not act on hold no page it may touch, so they keep their pages and stay
sound. -/
theorem Inv.of_acts (hend : kernbase < ly.kend) (hi : Inv ly pages m) (ha : Acts ly m m' a) : Inv ly pages m' := by
  -- every other slot as it was
  have hother (j) (hj : j ≠ a) :
      ((m'.procs j).state ≠ .unused → (m'.procs j).Ok ly m'.vm) ∧ ∀ G, m'.Holds j G ↔ m.Holds j G := by
    unfold Holds
    rw [ha.same j hj]
    by_cases hu : (m.procs j).state = .unused
    · simp only [hu, ne_eq, not_true_eq_false, false_and, false_implies, implies_true, and_self]
    obtain ⟨hok, hown, -⟩ := hi.other hend ha hj hu
    exact ⟨fun _ => hok, fun G => by rw [hown]⟩
  refine ⟨ha.alloc, fun i hu => ?_, fun i j hij G hi' hj' => ?_, fun G => ?_⟩
  · by_cases h : i = a
    · subst h
      exact ha.slot hu
    · exact (hother i h).1 hu
  · by_cases hia : i = a
    · subst hia
      exact hi.not_holds (Ne.symm hij) ((ha.pool G).mp (.inr hi')) (((hother j (Ne.symm hij)).2 G).mp hj')
    by_cases hja : j = a
    · subst hja
      exact hi.not_holds hij ((ha.pool G).mp (.inr hj')) (((hother i hij).2 G).mp hi')
    · exact hi.apart i j hij G (((hother i hia).2 G).mp hi') (((hother j hja).2 G).mp hj')
  · have e : (∃ i, i ≠ a ∧ m'.Holds i G) ↔ ∃ i, i ≠ a ∧ m.Holds i G :=
      exists_congr fun i => and_congr_right fun h => (hother i h).2 G
    rw [hi.pool, exists_holds_iff m a, exists_holds_iff m' a, e, ← or_assoc, ← or_assoc, ha.pool]

/-- Each call acts on one slot. -/
theorem Inv.step_acts (hend : kernbase < ly.kend) (hly : ly.Ok) (hi : Inv ly pages m)
    (hs : Step ly trapretAt forkretAt m m') : ∃ a, Acts ly m m' a := by
  cases hs with
  | fork hu h =>
    rcases fork_acts trapretAt forkretAt hly hi hu.ne_unused with ⟨m'', a, h', ha⟩ | ⟨⟨f, hf, -⟩, -⟩
    · obtain rfl : m' = m'' := Except.ok.inj (h.symm.trans h')
      exact ⟨a, ha⟩
    · exact absurd (h.symm.trans hf) nofun
  | growproc hu h =>
    obtain ⟨m'', h', ha⟩ := growproc_acts hi hu.ne_unused _
    obtain rfl : m' = m'' := Except.ok.inj (h.symm.trans h')
    exact ⟨_, ha⟩
  | exit hu => exact ⟨_, exit_acts hi hu⟩
  | wait hz h =>
    obtain ⟨m'', h', ha⟩ := wait_acts hend hi hz
    obtain rfl : m' = m'' := Except.ok.inj (h.symm.trans h')
    exact ⟨_, ha⟩

theorem Inv.step (hend : kernbase < ly.kend) (hly : ly.Ok) (hi : Inv ly pages m)
    (hs : Step ly trapretAt forkretAt m m') : Inv ly pages m' :=
  have ⟨_, ha⟩ := hi.step_acts trapretAt forkretAt hend hly hs
  hi.of_acts hend ha

/-! ## A state with one process -/

/-- One RUNNABLE process of size `PGSIZE`, with the sample address space of `Uvm.lean` and its
kernel stack at 0x80403000, beside an empty free list. -/
def oneProc : Kmem 1 :=
  ⟨Vm.oneUserPage 0x80400000 0x80401000 0x80402000, fun _ => ⟨4096, 0x80400000, 0x80403000, .runnable, 0x80403FB4⟩⟩

theorem oneProc_inv : Inv Vm.sampleLayout [0x80400000, 0x80401000, 0x80402000, 0x80403000] oneProc where
  alloc := Vm.oneUserPage_held.alloc
  slot _ _ := by
    show Slot.Ok _ _ ⟨4096, 0x80400000, 0x80403000, .runnable, 0x80403FB4⟩
    refine ⟨Vm.oneUserPage_held, ⟨by decide, by decide, by decide, by decide, List.not_mem_nil _, fun h => ?_⟩,
      Vm.oneUserPage_sound.2.below⟩
    rcases (Vm.oneUserPage_owns _).mp h with h | h | h <;> simp at h
  apart i j h := absurd (Subsingleton.elim i j) h
  pool G := by
    simp only [Holds, oneProc, Vm.oneUserPage_owns, List.mem_cons, List.not_mem_nil, ne_eq, reduceCtorEq,
      not_false_eq_true, true_and, exists_const, or_false, show (Vm.oneUserPage 0x80400000 0x80401000 0x80402000).free = [] from rfl,
      false_or]
    simp only [or_assoc, or_comm, or_left_comm]

/-- The sample memory holds no page table under a directory at 0x80404000. -/
theorem oneUserPage_table_none {d : Nat} (hd : d < 1024) :
    (Vm.oneUserPage 0x80400000 0x80401000 0x80402000).table? 0x80404000 d = none := by
  unfold Vm.oneUserPage Vm.table?
  rw [Vm.rd32_wr32_of_ne _ _ (by omega), Vm.rd32_wr32_of_ne _ _ (by omega), Vm.rd32_zero]
  rfl

/-- Two slots in use beside an empty free list: the process of `oneProc`, RUNNING, and a process
in state `q` of size `PGSIZE` whose directory, at 0x80404000, holds no page table, with its kernel
stack at 0x80405000. -/
def twoProcAt (q : ProcState) : Kmem 2 :=
  ⟨Vm.oneUserPage 0x80400000 0x80401000 0x80402000, fun i =>
    if i.val = 0 then ⟨4096, 0x80400000, 0x80403000, .running, 0x80403FB4⟩
    else ⟨4096, 0x80404000, 0x80405000, q, 0x80405FB4⟩⟩

/-- `twoProcAt` with a ZOMBIE in slot 1. -/
def twoProc : Kmem 2 := twoProcAt .zombie

/-- The six pages of `twoProc`: the running process's directory, page table, user page and kernel
stack, and the ZOMBIE's directory and kernel stack. -/
def twoProcPages : List Nat := [0x80400000, 0x80401000, 0x80402000, 0x80403000, 0x80404000, 0x80405000]

theorem twoProcAt_inv {q : ProcState} (hq : q ≠ .unused) : Inv Vm.sampleLayout twoProcPages (twoProcAt q) := by
  obtain ⟨hsp, hown₁, hf₁⟩ := Vm.space_of_no_table (by decide)
    (show kernbase ≤ 0x80404000 ∧ Vm.sampleLayout.kend ≤ 0x80404000 ∧ v2p 0x80404000 < phystop by decide)
    fun _ hd => oneUserPage_table_none hd
  have hnil : (twoProcAt q).vm.free = [] := rfl
  have hold₀ (G) : (twoProcAt q).Holds 0 G ↔
      G = 0x80403000 ∨ G = 0x80400000 ∨ G = 0x80401000 ∨ G = 0x80402000 := by
    show ProcState.running ≠ .unused ∧
      (G = 0x80403000 ∨ (Vm.oneUserPage 0x80400000 0x80401000 0x80402000).Owns 0x80400000 G) ↔ _
    rw [Vm.oneUserPage_owns]
    simp
  have hold₁ (G) : (twoProcAt q).Holds 1 G ↔ G = 0x80405000 ∨ G = 0x80404000 := by
    show q ≠ .unused ∧
      (G = 0x80405000 ∨ (Vm.oneUserPage 0x80400000 0x80401000 0x80402000).Owns 0x80404000 G) ↔ _
    rw [hown₁]
    simp [hq]
  refine ⟨Vm.oneUserPage_held.alloc, Fin.forall_fin_two.mpr ⟨fun _ => ?_, fun _ => ?_⟩, fun i j hij G hi hj => ?_,
    fun G => ?_⟩
  · show Slot.Ok _ _ ⟨4096, 0x80400000, 0x80403000, .running, 0x80403FB4⟩
    refine ⟨Vm.oneUserPage_held, ⟨by decide, by decide, by decide, by decide, List.not_mem_nil _, fun h => ?_⟩,
      Vm.oneUserPage_sound.2.below⟩
    rcases (Vm.oneUserPage_owns _).mp h with h | h | h <;> simp at h
  · show Slot.Ok _ _ ⟨4096, 0x80404000, 0x80405000, q, 0x80405FB4⟩
    refine ⟨⟨hsp, Vm.oneUserPage_held.alloc, fun _ h => absurd h (List.not_mem_nil _)⟩,
      ⟨?_, ?_, ?_, ?_, List.not_mem_nil _, fun h => absurd ((hown₁ _).mp h) ?_⟩, ⟨?_, fun va _ _ => hf₁ va⟩⟩ <;>
      dsimp only <;> decide
  · revert i j
    simp only [Fin.forall_fin_two, ne_eq, not_true_eq_false, false_implies, hold₀, hold₁, true_and, and_true]
    constructor <;> intro h h' <;> omega
  · simp only [twoProcPages, List.mem_cons, List.not_mem_nil, or_false, hnil, false_or, Fin.exists_fin_two, hold₀,
      hold₁]
    omega

theorem twoProc_inv : Inv Vm.sampleLayout twoProcPages twoProc := twoProcAt_inv (by decide)

/-- **Every page in one place, along every run.** From a state where each page of `pages` is
free or held by exactly one slot in use, and each slot in use has a whole address space that maps
nothing at or above its size, every run of the process calls keeps it so: no page is lost, none
is held twice or both held and free, and no call leaves an address space broken. -/
theorem inv_run (hend : kernbase < ly.kend) (hly : ly.Ok) (hi : Inv ly pages m)
    (hr : Relation.ReflTransGen (Step ly trapretAt forkretAt) m m') : Inv ly pages m' := by
  induction hr with
  | refl => exact hi
  | tail _ hs ih => exact ih.step trapretAt forkretAt hend hly hs

/-- `wait` reaps the ZOMBIE of `twoProc`, and the running process keeps its pages. -/
theorem inv_run_twoProc :
    kernbase < Vm.sampleLayout.kend ∧ Vm.sampleLayout.Ok ∧ Inv Vm.sampleLayout twoProcPages twoProc ∧
      ∃ m', wait Vm.sampleLayout twoProc 1 = .ok m' ∧ Relation.ReflTransGen (Step Vm.sampleLayout 0 0) twoProc m' ∧
        Inv Vm.sampleLayout twoProcPages m' := by
  have hend : kernbase < Vm.sampleLayout.kend := by decide
  have hly : Vm.sampleLayout.Ok := ⟨by decide, by decide, by decide⟩
  obtain ⟨m', h, -⟩ := wait_acts hend twoProc_inv (c := 1) rfl
  have hr : Relation.ReflTransGen (Step Vm.sampleLayout 0 0) twoProc m' := .single (.wait (c := 1) rfl h)
  exact ⟨hend, hly, twoProc_inv, m', h, hr, inv_run 0 0 hend hly twoProc_inv hr⟩

/-- **The calls that can fault.** From a state where every page is in one place, `wait` of a
ZOMBIE and `growproc` by a process in use return without a fault, and so does `fork`, as long as
the parent has a page present at each page-aligned address below its size. A `fork` that faults
panics in `copyuvm`, at such an address. -/
theorem calls_return (hend : kernbase < ly.kend) (hly : ly.Ok) (hi : Inv ly pages m) :
    (∀ c, (m.procs c).state = .zombie → ∃ m', wait ly m c = .ok m') ∧
    (∀ p k, (m.procs p).state ≠ .unused → ∃ m', growproc ly m p k = .ok m') ∧
    (∀ p, (m.procs p).state ≠ .unused →
      (∀ va, va % pgsize = 0 → va < (m.procs p).sz → m.vm.entry? (m.procs p).pgdir va ≠ none) →
      ∃ m', fork ly trapretAt forkretAt m p = .ok m') ∧
    ∀ p f, (m.procs p).state ≠ .unused → fork ly trapretAt forkretAt m p = .error f →
      Vm.copyuvmPanic f ∧ ∃ va, va % pgsize = 0 ∧ va < (m.procs p).sz ∧ m.vm.entry? (m.procs p).pgdir va = none := by
  refine ⟨fun c hz => ?_, fun p k hu => ?_, fun p hu hp => ?_, fun p f hu hf => ?_⟩
  · obtain ⟨m', h, -⟩ := wait_acts hend hi hz
    exact ⟨m', h⟩
  · obtain ⟨m', h, -⟩ := growproc_acts hi hu k
    exact ⟨m', h⟩
  · rcases fork_acts trapretAt forkretAt hly hi hu with ⟨m', -, h, -⟩ | ⟨-, va, hm, hlt, hva⟩
    exacts [⟨m', h⟩, absurd hva (hp va hm hlt)]
  · rcases fork_acts trapretAt forkretAt hly hi hu with ⟨m', -, h, -⟩ | ⟨⟨f', hf', hpanic⟩, hhole⟩
    · exact absurd (hf.symm.trans h) nofun
    · obtain rfl : f = f' := Except.error.inj (hf.symm.trans hf')
      exact ⟨hpanic, hhole⟩

theorem calls_return_twoProc :
    kernbase < Vm.sampleLayout.kend ∧ Vm.sampleLayout.Ok ∧ Inv Vm.sampleLayout twoProcPages twoProc ∧
      (∀ c, (twoProc.procs c).state = .zombie → ∃ m', wait Vm.sampleLayout twoProc c = .ok m') ∧
      (∀ p k, (twoProc.procs p).state ≠ .unused → ∃ m', growproc Vm.sampleLayout twoProc p k = .ok m') ∧
      (∀ p, (twoProc.procs p).state ≠ .unused →
        (∀ va, va % pgsize = 0 → va < (twoProc.procs p).sz → twoProc.vm.entry? (twoProc.procs p).pgdir va ≠ none) →
        ∃ m', fork Vm.sampleLayout 0 0 twoProc p = .ok m') ∧
      ∀ p f, (twoProc.procs p).state ≠ .unused → fork Vm.sampleLayout 0 0 twoProc p = .error f →
        Vm.copyuvmPanic f ∧ ∃ va, va % pgsize = 0 ∧ va < (twoProc.procs p).sz ∧
          twoProc.vm.entry? (twoProc.procs p).pgdir va = none :=
  have hend : kernbase < Vm.sampleLayout.kend := by decide
  have hly : Vm.sampleLayout.Ok := ⟨by decide, by decide, by decide⟩
  ⟨hend, hly, twoProc_inv, calls_return 0 0 hend hly twoProc_inv⟩

/-! ## Isolation and reclaim -/

/-- **A call leaves the other processes alone.** From a state where every page is in one place,
each call acts on one slot: every other slot keeps its record, and one in use keeps what its
directory maps at every address and every byte of each page it holds, its kernel stack, its
directory, its page tables and its user pages. -/
theorem step_isolates (hend : kernbase < ly.kend) (hly : ly.Ok) (hi : Inv ly pages m)
    (hs : Step ly trapretAt forkretAt m m') :
    ∃ a, ∀ j, j ≠ a → m'.procs j = m.procs j ∧ ((m.procs j).state ≠ .unused →
      (∀ va, m'.vm.frame? (m.procs j).pgdir va = m.vm.frame? (m.procs j).pgdir va) ∧
      ∀ G x, m.Holds j G → G ≤ x → x < G + pgsize → m'.vm.mem x = m.vm.mem x) := by
  obtain ⟨a, ha⟩ := hi.step_acts trapretAt forkretAt hend hly hs
  refine ⟨a, fun j hj => ⟨ha.same j hj, fun hu => ⟨(hi.other hend ha hj hu).2.2,
    fun G x hG h₁ h₂ => ha.keep x fun G' hG' => ?_⟩⟩⟩
  -- a page the call may touch is another page than `G`
  exact page_out (hi.touched_mod hend hG') (hi.touched_mod hend (a := j) (.inr hG))
    (fun e => hi.not_holds hj hG' (e ▸ hG)) h₁ h₂

/-- `wait` reaps the ZOMBIE of `twoProc`: the running process keeps its record, what its
directory maps, and the bytes of its four pages. -/
theorem step_isolates_twoProc :
    kernbase < Vm.sampleLayout.kend ∧ Vm.sampleLayout.Ok ∧ Inv Vm.sampleLayout twoProcPages twoProc ∧
      ∃ m', wait Vm.sampleLayout twoProc 1 = .ok m' ∧ Step Vm.sampleLayout 0 0 twoProc m' ∧
        ∃ a, ∀ j, j ≠ a → m'.procs j = twoProc.procs j ∧ ((twoProc.procs j).state ≠ .unused →
          (∀ va, m'.vm.frame? (twoProc.procs j).pgdir va = twoProc.vm.frame? (twoProc.procs j).pgdir va) ∧
          ∀ G x, twoProc.Holds j G → G ≤ x → x < G + pgsize → m'.vm.mem x = twoProc.vm.mem x) := by
  have hend : kernbase < Vm.sampleLayout.kend := by decide
  have hly : Vm.sampleLayout.Ok := ⟨by decide, by decide, by decide⟩
  obtain ⟨m', h, -⟩ := wait_acts hend twoProc_inv (c := 1) rfl
  have hs : Step Vm.sampleLayout 0 0 twoProc m' := .wait (c := 1) rfl h
  exact ⟨hend, hly, twoProc_inv, m', h, hs, step_isolates 0 0 hend hly twoProc_inv hs⟩

/-- What `wait` leaves in the slots: the one it reaps UNUSED with no kernel stack, the others as
they were. -/
theorem wait_procs {c : Fin n} (h : wait ly m c = .ok m') :
    m'.procs = Function.update m.procs c { m.procs c with kstack := 0, state := .unused } := by
  simp only [wait, bind, Except.bind] at h
  split at h
  · cases h
  split at h
  · cases h
  cases h
  rfl

/-- `wait` leaves the slot it reaps UNUSED. -/
theorem wait_unused {c : Fin n} (h : wait ly m c = .ok m') : (m'.procs c).state = .unused := by
  rw [wait_procs h, Function.update_same]

/-- A call that leaves the slot it acts on UNUSED puts every page that slot held on the free
list. -/
theorem Acts.free_iff (ha : Acts ly m m' a) (hu : (m'.procs a).state = .unused) (G : Nat) :
    G ∈ m'.vm.free ↔ G ∈ m.vm.free ∨ m.Holds a G := by
  rw [← ha.pool, Holds, hu]
  simp

/-- **`wait` gives back every page of its ZOMBIE.** From a state where every page is in one place,
`wait` of a ZOMBIE returns, and the free list it leaves holds, each once, exactly the pages that
were free and the pages the ZOMBIE held: its kernel stack, its directory, its page tables and its
user pages. -/
theorem wait_frees (hend : kernbase < ly.kend) (hi : Inv ly pages m) {c : Fin n}
    (hz : (m.procs c).state = .zombie) :
    ∃ m', wait ly m c = .ok m' ∧ (m'.procs c).state = .unused ∧ m'.vm.free.Nodup ∧
      ∀ G, G ∈ m'.vm.free ↔ G ∈ m.vm.free ∨ m.Holds c G := by
  obtain ⟨m', h, ha⟩ := wait_acts hend hi hz
  have hu := wait_unused h
  exact ⟨m', h, hu, ha.alloc.nodup, ha.free_iff hu⟩

theorem wait_frees_exitOne :
    kernbase < Vm.sampleLayout.kend ∧
      Inv Vm.sampleLayout [0x80400000, 0x80401000, 0x80402000, 0x80403000] (exit oneProc 0) ∧
      ((exit oneProc 0).procs 0).state = .zombie ∧
      ∃ m', wait Vm.sampleLayout (exit oneProc 0) 0 = .ok m' ∧ (m'.procs 0).state = .unused ∧
        m'.vm.free.Nodup ∧ ∀ G, G ∈ m'.vm.free ↔ G ∈ (exit oneProc 0).vm.free ∨ (exit oneProc 0).Holds 0 G :=
  have hend : kernbase < Vm.sampleLayout.kend := by decide
  have hi := oneProc_inv.of_acts hend (exit_acts oneProc_inv (.inr (.inl rfl)))
  ⟨hend, hi, rfl, wait_frees hend hi rfl⟩

/-! ## Boot -/

/-- What a `userinit` that returns did: the first UNUSED slot `i` got the head `k` of the free list
for its kernel stack, a directory `d` that `setupkvm` took from the rest, and the init code at 0
(`inituvm`); then size `PGSIZE`, a zeroed trap frame, and RUNNABLE. -/
theorem userinit_ok {init size : Nat} (hrun : userinit ly trapretAt forkretAt m init size = .ok m') :
    ∃ i k rest d vm₂ vm₃, (List.finRange n).find? (fun i => (m.procs i).state = .unused) = some i ∧
      m.vm.free = k :: rest ∧ k ≠ 0 ∧
      (allocprocFrame ⟨m.vm.mem, rest⟩ k trapretAt forkretAt).1.setupkvm ly = .ok (d, vm₂) ∧ d ≠ 0 ∧
      vm₂.inituvm d init size = .ok vm₃ ∧
      m' = ⟨vm₃.memset (allocprocFrame ⟨m.vm.mem, rest⟩ k trapretAt forkretAt).2.1 0 trapframeSize,
        Function.update m.procs i
          ⟨pgsize, d, k, .runnable, (allocprocFrame ⟨m.vm.mem, rest⟩ k trapretAt forkretAt).2.1⟩⟩ := by
  rcases hfind : (List.finRange n).find? (fun i => (m.procs i).state = .unused) with _ | i
  · simp only [userinit, allocproc, hfind] at hrun
    cases hrun
  rcases hfr : m.vm.free with _ | ⟨k, rest⟩
  · simp only [userinit, allocproc, hfind, Vm.kalloc, hfr, ↓reduceIte] at hrun
    cases hrun
  by_cases hk0 : k = 0
  · simp only [userinit, allocproc, hfind, Vm.kalloc, hfr, hk0, ↓reduceIte] at hrun
    cases hrun
  rcases h₂ : (allocprocFrame ⟨m.vm.mem, rest⟩ k trapretAt forkretAt).1.setupkvm ly with _ | ⟨d, vm₂⟩
  all_goals simp only [userinit, allocproc, hfind, Vm.kalloc, hfr, if_neg hk0, h₂, bind, Except.bind] at hrun
  · cases hrun
  by_cases hd0 : d = 0
  · simp only [hd0, ↓reduceIte] at hrun
    cases hrun
  rcases h₃ : vm₂.inituvm d init size with _ | vm₃
  all_goals simp only [if_neg hd0, h₃] at hrun
  · cases hrun
  refine ⟨i, k, rest, d, vm₂, vm₃, rfl, rfl, hk0, h₂, hd0, h₃, ?_⟩
  simp only [Function.update_same, Function.update_idem] at hrun
  exact (Except.ok.inj hrun).symm

/-- **`userinit` puts every page in one place.** From the boot state, every slot UNUSED beside a
free list as `kinit` leaves it, with the init code below `end`, a `userinit` that returns with a
page still free leaves each page of the former free list free or held by the one process it
made, with the invariant of `inv_run`. That process is RUNNABLE with size `PGSIZE`; its kernel
half is the kernel map, and its only user page, at 0, holds the init code and zeros after it.
The condition is needed: when `mappages` finds no page for the page table, `inituvm` does not
notice, and returns with the free list empty. -/
theorem userinit_inv (hly : ly.Ok) (ha : m.vm.Alloc ly) (hboot : ∀ i, (m.procs i).state = .unused)
    {init size : Nat} (hinit : init + size ≤ ly.kend) :
    ∀ m', userinit ly trapretAt forkretAt m init size = .ok m' → m'.vm.free ≠ [] →
    Inv ly m.vm.free m' ∧ ∃ i, (m'.procs i).state = .runnable ∧ (m'.procs i).sz = pgsize ∧
      (∀ j, j ≠ i → (m'.procs j).state = .unused) ∧
      (∀ va, kernbase ≤ va → va < 2 ^ 32 → m'.vm.entry? (m'.procs i).pgdir va = kernelEntry? ly va) ∧
      ∃ F, (∀ va < kernbase, m'.vm.frame? (m'.procs i).pgdir va = if va < pgsize then some F else none) ∧
        ∀ j < pgsize, m'.vm.mem (F + j) = if j < size then m.vm.mem (init + j) else 0 := by
  intro m' hrun hfree
  obtain ⟨i, k, rest, d, vm₂, vm₃, -, hfr, -, hrun₂, hd0, hi, rfl⟩ := userinit_ok trapretAt forkretAt hrun
  generalize hvm₁ : (allocprocFrame ⟨m.vm.mem, rest⟩ k trapretAt forkretAt).1 = vm₁ at hrun₂
  generalize htf : (allocprocFrame ⟨m.vm.mem, rest⟩ k trapretAt forkretAt).2.1 = tf
  have hk : k ∈ m.vm.free := by rw [hfr]; exact List.mem_cons_self k rest
  have htf' : tf = k + 4020 := by rw [← htf]; simp only [allocprocFrame, kstacksize, trapframeSize]; omega
  have hfree₁ : vm₁.free = rest := hvm₁ ▸ rfl
  have hnd : (k :: rest).Nodup := hfr ▸ ha.nodup
  have ha₁ : vm₁.Alloc ly := ha.tail hfr hfree₁
  obtain ⟨d', vm₂', hrun₂', hkeep₂, ⟨rfl, -⟩ | ⟨L, b⟩⟩ := Vm.setupkvm_run ha₁ hly
  · exact absurd (Prod.mk.inj (Except.ok.inj (hrun₂.symm.trans hrun₂'))).1 hd0
  obtain ⟨rfl, rfl⟩ := Prod.mk.inj (Except.ok.inj (hrun₂.symm.trans hrun₂'))
  -- the new directory maps no user page
  have hkern (va) (hva : va < kernbase) : vm₂.frame? d va = none := b.frame_user hly hva
  obtain ⟨hsz, F, rest₂, hfr₂⟩ := Vm.inituvm_ok_pre hi
  obtain ⟨vm₃', hi', hnil | ⟨Lt, -, hfree₃, h₃, hown₃, hfr₃, -, hent₃, hbytes⟩⟩ :=
    b.held.inituvm (hkern 0 (by decide)) hinit hsz hfr₂
  all_goals obtain rfl := Except.ok.inj (hi.symm.trans hi')
  · exact absurd hnil.2 hfree
  -- the directory's pages and the free pages are the pages `rest` after the kernel stack
  have hpool (G) : G ∈ vm₃.free ∨ vm₃.Owns d G ↔ G ∈ rest := by
    rw [hown₃, b.owns, ← hfree₁, b.free_eq, hfr₂, hfree₃]
    simp only [List.mem_cons, List.mem_append]
    rw [or_comm, or_assoc, or_assoc, or_assoc]
  have hkr : k ∉ rest := (List.nodup_cons.mp hnd).1
  obtain ⟨k₁, k₂, k₃, k₄⟩ := ha.ok k hk
  have hout₄ (x) (hx : x < k ∨ k + pgsize ≤ x) : (vm₃.memset tf 0 trapframeSize).mem x = vm₃.mem x := by
    show (if tf ≤ x ∧ x < tf + trapframeSize then _ else _) = _
    rw [if_neg (by simp only [trapframeSize, pgsize] at *; omega)]
  obtain ⟨h₄, hk₄, hown₄, -, hpte₄, hf₄⟩ := h₃.write_spare
    ⟨k₁, k₂, k₃, k₄, fun h => hkr ((hpool k).mp (.inl h)), fun h => hkr ((hpool k).mp (.inr h))⟩
    (show (vm₃.memset tf 0 trapframeSize).free = vm₃.free from rfl) hout₄
  have hst (j) (hj : j ≠ i) : (Function.update m.procs i ⟨pgsize, d, k, .runnable, tf⟩ j).state = .unused := by
    rw [Function.update_noteq hj]
    exact hboot j
  have hframe (va) (hva : va < kernbase) :
      (vm₃.memset tf 0 trapframeSize).frame? d va = if va < pgsize then some F else none := by
    rw [hf₄, hfr₃ va hva, hkern va hva]
  refine ⟨⟨h₄.alloc, fun j hu => ?_, fun j j' hne G h h' => ?_, fun G => ?_⟩, i, by simp, by simp, hst,
    fun va h₁ h₂ => ?_, F, fun va hva => by simp only [Function.update_same]; exact hframe va hva,
    fun j hj => ?_⟩
  · by_cases hj : j = i
    · subst hj
      simp only [Function.update_same]
      refine ⟨h₄, hk₄, show pgsize < kernbase by decide, fun va hva hle => ?_⟩
      rw [hframe va hva, if_neg (by simp only [pgroundup, pgsize] at *; omega)]
    · exact absurd (hst j hj) hu
  · by_cases hj : j = i
    · subst hj
      exact h'.1 (hst j' (Ne.symm hne))
    · exact h.1 (hst j hj)
  · have hex : (∃ j, Holds ⟨vm₃.memset tf 0 trapframeSize, Function.update m.procs i ⟨pgsize, d, k, .runnable, tf⟩⟩ j G) ↔
        G = k ∨ vm₃.Owns d G := by
      refine ⟨fun ⟨j, hu, hG⟩ => ?_, fun hG => ⟨i, by simp, by simpa [hown₄] using hG⟩⟩
      by_cases hj : j = i
      · subst hj
        simpa [hown₄] using hG
      · exact absurd (hst j hj) hu
    rw [hex, hfr, List.mem_cons, ← hpool, show (vm₃.memset tf 0 trapframeSize).free = vm₃.free from rfl]
    exact or_left_comm
  · simp only [Function.update_same]
    unfold Vm.entry?
    rw [hpte₄, ← Vm.entry?, hent₃ va fun h' => Vm.pdx_ne_of_lt (show 0 < kernbase by decide) h₁ h₂ h'.1.symm,
      Vm.entry?, ← Vm.entry?, b.entry va h₂, kmap_entry hly h₂]
  · have hF : F ∈ rest := (hpool F).mp (.inr ((hown₃ F).mpr (.inr (.inl rfl))))
    have hFm := (ha.ok F (by rw [hfr]; exact List.mem_cons_of_mem k hF)).1
    rw [hout₄ _ (page_out k₁ hFm (fun e => hkr (e ▸ hF)) (by omega) (by omega)), hbytes j hj]
    split_ifs with hs
    · rw [hkeep₂ _ fun G hG => .inl (by have := (ha₁.ok G hG).2.2.1; omega), ← hvm₁,
        allocprocFrame_mem _ _ _ (.inl (by omega))]
    · rfl

/-- **`userinit` returns.** From the boot state, every slot UNUSED beside at least 69 free pages
(the kernel stack, `setupkvm`'s 65, the init page and its page table, and one more), with fewer
than `PGSIZE` bytes of init code below `end`, `userinit` returns with a page still free. -/
theorem userinit_returns (hly : ly.Ok) (ha : m.vm.Alloc ly) (hboot : ∀ i, (m.procs i).state = .unused)
    (i₀ : Fin n) {init size : Nat} (hinit : init + size ≤ ly.kend) (hsz : size < pgsize)
    (h69 : 69 ≤ m.vm.free.length) :
    ∃ m', userinit ly trapretAt forkretAt m init size = .ok m' ∧ m'.vm.free ≠ [] := by
  have hsome : ((List.finRange n).find? fun i => (m.procs i).state = .unused).isSome :=
    List.find?_isSome.mpr ⟨i₀, List.mem_finRange i₀, by simp [hboot]⟩
  obtain ⟨i, hfind⟩ := Option.isSome_iff_exists.mp hsome
  obtain ⟨k, rest, hfr⟩ := List.exists_cons_of_length_pos (show 0 < m.vm.free.length by omega)
  have hlen : 68 ≤ rest.length := by rw [hfr, List.length_cons] at h69; omega
  have hk0 : k ≠ 0 := (Nat.zero_lt_of_lt (ha.ok k (by rw [hfr]; exact List.mem_cons_self k rest)).2.1).ne'
  have hfree₁ : (allocprocFrame ⟨m.vm.mem, rest⟩ k trapretAt forkretAt).1.free = rest := rfl
  have ha₁ := ha.tail hfr hfree₁
  obtain ⟨d, vm₂, hrun₂, -, ⟨-, -, hshort⟩ | ⟨L, b⟩⟩ := Vm.setupkvm_run ha₁ hly
  · rw [hfree₁] at hshort
    omega
  have hd0 : d ≠ 0 := (Nat.zero_lt_of_lt (ha₁.ok d (by rw [b.free_eq]; exact List.mem_cons_self d _)).2.1).ne'
  -- `setupkvm` took at most 65 pages, so that at least three are left
  have hfree₂ := congrArg List.length b.free_eq
  have hL := b.length_le
  rw [hfree₁, List.length_cons, List.length_append] at hfree₂
  obtain ⟨F, rest₂, hfr₂⟩ := List.exists_cons_of_length_pos (show 0 < vm₂.free.length by omega)
  obtain ⟨vm₃, hi, ⟨rfl, -⟩ | ⟨Lt, hLt, hrest, -⟩⟩ := b.held.inituvm (b.frame_user hly (by decide)) hinit hsz hfr₂
  · rw [hfr₂, List.length_singleton] at hfree₂
    omega
  refine ⟨⟨vm₃.memset (allocprocFrame ⟨m.vm.mem, rest⟩ k trapretAt forkretAt).2.1 0 trapframeSize,
    Function.update m.procs i ⟨pgsize, d, k, .runnable, (allocprocFrame ⟨m.vm.mem, rest⟩ k trapretAt forkretAt).2.1⟩⟩,
    ?_, fun h => ?_⟩
  · simp only [userinit, allocproc, hfind, Vm.kalloc, hfr, if_neg hk0, Function.update_same, Function.update_idem,
      hrun₂, bind, Except.bind, if_neg hd0, hi]
    rfl
  · rw [show vm₃.free = [] from h, List.append_nil] at hrest
    rw [hfr₂, List.length_cons, hrest] at hfree₂
    omega

/-- The boot state of one slot beside the 69 pages after the kernel image. -/
def bootSixtyNine : Kmem 1 := ⟨Vm.freeRun 0x80400000 69, fun _ => ⟨0, 0, 0, .unused, 0⟩⟩

/-- From 69 free pages `userinit` returns with a page free, having made the first process. -/
theorem userinit_inv_bootSixtyNine :
    Vm.sampleLayout.Ok ∧ bootSixtyNine.vm.Alloc Vm.sampleLayout ∧ (∀ i, (bootSixtyNine.procs i).state = .unused) ∧
      0x80100000 + 0x2c ≤ Vm.sampleLayout.kend ∧
      ∃ m', userinit Vm.sampleLayout 0 0 bootSixtyNine 0x80100000 0x2c = .ok m' ∧ m'.vm.free ≠ [] ∧
        Inv Vm.sampleLayout bootSixtyNine.vm.free m' ∧ ∃ i, (m'.procs i).state = .runnable ∧ (m'.procs i).sz = pgsize ∧
          (∀ j, j ≠ i → (m'.procs j).state = .unused) ∧
          (∀ va, kernbase ≤ va → va < 2 ^ 32 →
            m'.vm.entry? (m'.procs i).pgdir va = kernelEntry? Vm.sampleLayout va) ∧
          ∃ F, (∀ va < kernbase, m'.vm.frame? (m'.procs i).pgdir va = if va < pgsize then some F else none) ∧
            ∀ j < pgsize, m'.vm.mem (F + j) = if j < 0x2c then bootSixtyNine.vm.mem (0x80100000 + j) else 0 := by
  have hly : Vm.sampleLayout.Ok := ⟨by decide, by decide, by decide⟩
  have ha : bootSixtyNine.vm.Alloc Vm.sampleLayout :=
    Vm.freeRun_alloc (by decide) (by decide) (by decide) (by decide)
  obtain ⟨m', hrun, hfree⟩ := userinit_returns 0 0 hly ha (fun _ => rfl) 0
    (show 0x80100000 + 0x2c ≤ Vm.sampleLayout.kend by decide) (show 0x2c < pgsize by decide)
    (le_of_eq (Vm.length_freeRun _ _).symm)
  exact ⟨hly, ha, fun _ => rfl, by decide, m', hrun, hfree,
    userinit_inv 0 0 hly ha (fun _ => rfl) (by decide) m' hrun hfree⟩

end Kmem

end Xv6
