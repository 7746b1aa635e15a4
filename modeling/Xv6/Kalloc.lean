import Mathlib.Data.List.Basic
import Mathlib.Algebra.Group.Nat.Basic

/-!
# Physical memory and the page allocator

The kernel reaches physical memory only through its map at `KERNBASE`: every pointer it uses is
a kernel virtual address `v` for the physical address `V2P(v)`. The model therefore keeps
memory as the byte at each kernel address, and applies `V2P` and `P2V` only where the code
does, to the addresses it stores in page-table entries. A page-table entry is a 32-bit
little-endian word in memory (`Vm.rd32`, `Vm.wr32`).

`kalloc.c` threads its free list through the free pages themselves; the model keeps
`kmem.freelist` as the list of the free pages' kernel addresses, head first. `kfree` fills the
page with ones, as the code does, and pushes it; `kalloc` pops the head, or returns 0.

The constants of `mmu.h` and `memlayout.h`, which the sources include but do not contain, have
xv6's values; the linker symbols `data` and `end` are parameters (`Layout`).
-/

namespace Xv6

/-- `PGSIZE`: the bytes of a page. -/
def pgsize : Nat := 4096

/-- `KERNBASE`: the first kernel virtual address. -/
def kernbase : Nat := 0x80000000

/-- `PHYSTOP`: the top of physical memory. -/
def phystop : Nat := 0xE000000

/-- `V2P(a)`: the physical address of kernel address `a`. -/
def v2p (a : Nat) : Nat := a - kernbase

/-- `P2V(a)`: the kernel address of physical address `a`. -/
def p2v (a : Nat) : Nat := a + kernbase

/-- `PGROUNDUP(sz)`, `((sz)+PGSIZE-1) & ~(PGSIZE-1)` on a 32-bit `uint`. -/
def pgroundup (sz : Nat) : Nat := (sz + pgsize - 1) % 2 ^ 32 / pgsize * pgsize

/-- `PGROUNDDOWN(a)`, `(a) & ~(PGSIZE-1)`. -/
def pgrounddown (a : Nat) : Nat := a / pgsize * pgsize

/-- The kernel image's linker symbols: `data`, where its data starts, and `end`, the first
address after it. -/
structure Layout where
  data : Nat
  kend : Nat

/-- How a modelled call can fail to return: a `panic`, a read through the null pointer, or a
loop it never leaves. -/
inductive Fault where
  | panic (msg : String)
  | nullDeref
  | hang
  deriving DecidableEq, Repr

/-- Physical memory and the allocator's free list. -/
structure Vm where
  /-- The byte of physical memory at each kernel address. -/
  mem : Nat → UInt8
  /-- `kmem.freelist`: the kernel addresses of the free pages, head first. -/
  free : List Nat

namespace Vm

/-- `*(uint*)v`: the little-endian word at kernel address `v`. -/
def rd32 (vm : Vm) (v : Nat) : Nat :=
  (vm.mem v).toNat + 2 ^ 8 * (vm.mem (v + 1)).toNat + 2 ^ 16 * (vm.mem (v + 2)).toNat +
    2 ^ 24 * (vm.mem (v + 3)).toNat

/-- `*(uint*)v = x`. -/
def wr32 (vm : Vm) (v x : Nat) : Vm :=
  { vm with mem := fun a =>
      if v ≤ a ∧ a < v + 4 then (x / 2 ^ (8 * (a - v))).toUInt8 else vm.mem a }

/-- `memset(v, c, n)`. -/
def memset (vm : Vm) (v : Nat) (c : UInt8) (n : Nat) : Vm :=
  { vm with mem := fun a => if v ≤ a ∧ a < v + n then c else vm.mem a }

/-- `memmove(dst, src, n)`: every byte read before any is written. -/
def memmove (vm : Vm) (dst src n : Nat) : Vm :=
  { vm with mem := fun a =>
      if dst ≤ a ∧ a < dst + n then vm.mem (src + (a - dst)) else vm.mem a }

/-- `kalloc()`: the head of the free list, or 0 when it is empty. -/
def kalloc (vm : Vm) : Nat × Vm :=
  match vm.free with
  | [] => (0, vm)
  | r :: rest => (r, { vm with free := rest })

/-- `kfree(v)`: check the page, fill it with junk, push it on the free list. -/
def kfree (ly : Layout) (vm : Vm) (v : Nat) : Except Fault Vm :=
  if v % pgsize ≠ 0 ∨ v < ly.kend ∨ v2p v ≥ phystop then .error (.panic "kfree")
  else .ok { vm.memset v 1 pgsize with free := v :: vm.free }

/-! ## Reading memory back -/

variable (vm : Vm)

@[simp] theorem wr32_free (v x : Nat) : (vm.wr32 v x).free = vm.free := rfl

@[simp] theorem memset_free (v : Nat) (c : UInt8) (n : Nat) : (vm.memset v c n).free = vm.free := rfl

@[simp] theorem memmove_free (dst src n : Nat) : (vm.memmove dst src n).free = vm.free := rfl

theorem wr32_mem (v x a : Nat) : (vm.wr32 v x).mem a =
    if v ≤ a ∧ a < v + 4 then (x / 2 ^ (8 * (a - v))).toUInt8 else vm.mem a := rfl

theorem toNat_toUInt8 (x : Nat) : x.toUInt8.toNat = x % 2 ^ 8 := by
  simp [Nat.toUInt8, UInt8.ofNat, UInt8.toNat, BitVec.toNat_ofNat]

/-- A word reads only its four bytes. -/
theorem rd32_congr {vm' : Vm} {v : Nat} (h : ∀ a, v ≤ a → a < v + 4 → vm'.mem a = vm.mem a) :
    vm'.rd32 v = vm.rd32 v := by
  simp only [rd32, h _ (Nat.le_refl _) (by omega), h (v + 1) (by omega) (by omega),
    h (v + 2) (by omega) (by omega), h (v + 3) (by omega) (by omega)]

theorem rd32_lt (v : Nat) : vm.rd32 v < 2 ^ 32 := by
  have h (a) : (vm.mem a).toNat < 2 ^ 8 := (vm.mem a).toBitVec.isLt
  have := h v; have := h (v + 1); have := h (v + 2); have := h (v + 3)
  simp only [rd32]; omega

@[simp] theorem rd32_wr32_self (v x : Nat) : (vm.wr32 v x).rd32 v = x % 2 ^ 32 := by
  have byte (i) (h : i < 4) : ((vm.wr32 v x).mem (v + i)).toNat = x / 2 ^ (8 * i) % 2 ^ 8 := by
    simp [wr32_mem, h, toNat_toUInt8]
  have b0 := byte 0 (by omega)
  rw [Nat.add_zero] at b0
  simp only [rd32, b0, byte 1 (by omega), byte 2 (by omega), byte 3 (by omega), Nat.reduceMul,
    Nat.reducePow, Nat.div_one]
  omega

theorem rd32_wr32_of_eq {v w : Nat} (x : Nat) (h : v = w) : (vm.wr32 v x).rd32 w = x % 2 ^ 32 :=
  h ▸ vm.rd32_wr32_self v x

/-- A word written elsewhere leaves the word at `w` as it was. -/
theorem rd32_wr32_of_ne {v w : Nat} (x : Nat) (h : v + 4 ≤ w ∨ w + 4 ≤ v) :
    (vm.wr32 v x).rd32 w = vm.rd32 w :=
  vm.rd32_congr fun a h₁ h₂ => by simp only [wr32]; rw [if_neg (by omega)]

/-- Bytes set elsewhere leave the word at `w` as it was. -/
theorem rd32_memset_of_ne {v w : Nat} (c : UInt8) (n : Nat) (h : v + n ≤ w ∨ w + 4 ≤ v) :
    (vm.memset v c n).rd32 w = vm.rd32 w :=
  vm.rd32_congr fun a h₁ h₂ => by simp only [memset]; rw [if_neg (by omega)]

/-- A word inside a zeroed range reads 0. -/
theorem rd32_memset_zero {v w n : Nat} (h₁ : v ≤ w) (h₂ : w + 4 ≤ v + n) :
    (vm.memset v 0 n).rd32 w = 0 := by
  simp only [rd32, memset]
  rw [if_pos (by omega), if_pos (by omega), if_pos (by omega), if_pos (by omega)]
  rfl

/-- `vm'` holds the bytes of `vm` at `[X, X + n)`. -/
def Agrees (vm' : Vm) (X n : Nat) : Prop := ∀ a, X ≤ a → a < X + n → vm'.mem a = vm.mem a

theorem Agrees.trans {vm vm₁ vm₂ : Vm} {X n : Nat} (h₁ : vm.Agrees vm₁ X n) (h₂ : vm₁.Agrees vm₂ X n) :
    vm.Agrees vm₂ X n := fun a h h' => (h₂ a h h').trans (h₁ a h h')

theorem Agrees.mono {vm vm' : Vm} {X n m : Nat} (h : vm.Agrees vm' X n) (hm : m ≤ n) :
    vm.Agrees vm' X m :=
  fun a h₁ h₂ => h a h₁ (by omega)

theorem agrees_memset {X F n m : Nat} (c : UInt8) (h : F + n ≤ X ∨ X + m ≤ F) :
    vm.Agrees (vm.memset F c n) X m := fun a h₁ h₂ => by
  simp only [memset]; rw [if_neg]; omega

theorem agrees_wr32 {X L m : Nat} (x : Nat) (h : L + 4 ≤ X ∨ X + m ≤ L) :
    vm.Agrees (vm.wr32 L x) X m := fun a h₁ h₂ => by
  simp only [wr32_mem]; rw [if_neg]; omega

end Vm

end Xv6
