import Xv6.Kalloc

/-!
# Context switch: `swtch.S`, `struct context`, `allocproc`'s frame, `trapasm.S`

The machine model of the rest of the development treats a context switch as one step that
parks a thread and resumes another. This module checks that abstraction against the code that
implements it, at the level of x86 instructions: 32-bit registers, and the kernel stack in the
byte memory of `Kalloc`.

* `swtch(&old, new)` pushes `%ebp, %ebx, %esi, %edi` below the return address that `call`
  pushed, so the words from the new `%esp` up are a `struct context` in field order; it stores
  that `%esp` in `*old`, loads `new` into `%esp`, pops the four registers and returns
  (`swtch_spec`). A thread parked by one `swtch` and resumed by another therefore returns from
  its call with its callee-saved registers and stack pointer as they were (`swtch_resume`).
* `allocproc` builds, on a fresh kernel stack, the trap frame, the address of `trapret`
  below it, and below that a zeroed context whose `eip` is `forkret`; the scheduler's `swtch`
  into it runs `forkret`, whose return enters `trapret` with `%esp = p->tf`
  (`allocproc_frame_resume`).
* `trapret` pops the frame that `alltraps` pushes, in reverse order, and leaves `%esp` at the
  part the processor pushed, for `iret` (`trapret_pops_alltraps`).

`KSTACKSIZE` (`param.h`) and the size of `struct trapframe` (`x86.h`) are not in the sources;
they have xv6's values, and the 76 bytes of the trap frame are the 48 that `alltraps` pushes,
the 8 of the trap number and error code, and the 20 the processor pushes on a trap from user
mode.
-/

namespace Xv6

/-- The general-purpose registers, in the order `pushal` pushes them. -/
inductive Reg where
  | eax | ecx | edx | ebx | esp | ebp | esi | edi
  deriving DecidableEq, Repr

/-- The data segment registers `alltraps` saves. -/
inductive Seg where
  | ds | es | fs | gs
  deriving DecidableEq, Repr

/-- The instructions of `swtch.S` and of the trap frame's code in `trapasm.S`. -/
inductive Instr where
  /-- `movl off(%base), %dst` -/
  | movlLoad (off : Nat) (base dst : Reg)
  /-- `movl %src, (%base)` -/
  | movlStore (src base : Reg)
  /-- `movl %src, %dst` -/
  | movl (src dst : Reg)
  | pushl (r : Reg)
  | popl (r : Reg)
  | pushSeg (g : Seg)
  | popSeg (g : Seg)
  | pushal
  | popal
  /-- `addl $n, %esp` -/
  | addlEsp (n : Nat)
  | ret
  deriving DecidableEq, Repr

/-- A processor: its registers, its data segment selectors, `%eip`, and memory. -/
structure X86 where
  reg : Reg → BitVec 32
  seg : Seg → BitVec 16
  eip : BitVec 32
  vm : Vm

namespace X86

variable (s : X86)

/-- The word at address `a`. -/
def word (a : Nat) : BitVec 32 := BitVec.ofNat 32 (s.vm.rd32 a)

def setReg (r : Reg) (x : BitVec 32) : X86 := { s with reg := Function.update s.reg r x }

def setSeg (g : Seg) (x : BitVec 16) : X86 := { s with seg := Function.update s.seg g x }

def store (a : Nat) (x : BitVec 32) : X86 := { s with vm := s.vm.wr32 a x.toNat }

def push (x : BitVec 32) : X86 := (s.setReg .esp (s.reg .esp - 4)).store (s.reg .esp - 4).toNat x

/-- The word at the top of the stack. -/
def top : BitVec 32 := s.word (s.reg .esp).toNat

/-- `%esp += n`. -/
def drop (n : Nat) : X86 := s.setReg .esp (s.reg .esp + BitVec.ofNat 32 n)

/-- One instruction. `pushal` pushes `%eax, %ecx, %edx, %ebx`, the `%esp` it started with,
`%ebp, %esi, %edi`; `popal` pops them back in reverse and skips the saved `%esp`. -/
def exec : Instr → X86
  | .movlLoad off base dst => s.setReg dst (s.word (s.reg base + BitVec.ofNat 32 off).toNat)
  | .movlStore src base => s.store (s.reg base).toNat (s.reg src)
  | .movl src dst => s.setReg dst (s.reg src)
  | .pushl r => s.push (s.reg r)
  | .popl r => (s.drop 4).setReg r s.top
  | .pushSeg g => s.push ((s.seg g).zeroExtend 32)
  | .popSeg g => (s.drop 4).setSeg g (s.top.truncate 16)
  | .pushal =>
    let t := (((s.push (s.reg .eax)).push (s.reg .ecx)).push (s.reg .edx)).push (s.reg .ebx)
    (((t.push (s.reg .esp)).push (s.reg .ebp)).push (s.reg .esi)).push (s.reg .edi)
  | .popal =>
    let e := (s.reg .esp).toNat
    let t := (((s.drop 32).setReg .edi (s.word e)).setReg .esi (s.word (e + 4))).setReg .ebp
      (s.word (e + 8))
    (((t.setReg .ebx (s.word (e + 16))).setReg .edx (s.word (e + 20))).setReg .ecx
      (s.word (e + 24))).setReg .eax (s.word (e + 28))
  | .addlEsp n => s.drop n
  | .ret => { s.drop 4 with eip := s.top }

/-- A straight-line run. -/
def run (p : List Instr) : X86 := p.foldl exec s

/-! ### Each operation, field by field -/

@[simp] theorem setReg_reg (r r' : Reg) (x : BitVec 32) :
    (s.setReg r x).reg r' = if r' = r then x else s.reg r' := by
  simp only [setReg, Function.update_apply]

@[simp] theorem setReg_vm (r : Reg) (x : BitVec 32) : (s.setReg r x).vm = s.vm := rfl

@[simp] theorem setReg_seg (r : Reg) (x : BitVec 32) : (s.setReg r x).seg = s.seg := rfl

@[simp] theorem setReg_eip (r : Reg) (x : BitVec 32) : (s.setReg r x).eip = s.eip := rfl

@[simp] theorem setSeg_reg (g : Seg) (x : BitVec 16) (r : Reg) : (s.setSeg g x).reg r = s.reg r := rfl

@[simp] theorem setSeg_vm (g : Seg) (x : BitVec 16) : (s.setSeg g x).vm = s.vm := rfl

@[simp] theorem setSeg_seg (g g' : Seg) (x : BitVec 16) :
    (s.setSeg g x).seg g' = if g' = g then x else s.seg g' := by
  simp only [setSeg, Function.update_apply]

@[simp] theorem word_setReg (r : Reg) (x : BitVec 32) (a : Nat) : (s.setReg r x).word a = s.word a := rfl

@[simp] theorem word_setSeg (g : Seg) (x : BitVec 16) (a : Nat) : (s.setSeg g x).word a = s.word a :=
  rfl

@[simp] theorem store_reg (a : Nat) (x : BitVec 32) (r : Reg) : (s.store a x).reg r = s.reg r := rfl

@[simp] theorem store_vm (a : Nat) (x : BitVec 32) : (s.store a x).vm = s.vm.wr32 a x.toNat := rfl

@[simp] theorem store_seg (a : Nat) (x : BitVec 32) : (s.store a x).seg = s.seg := rfl

@[simp] theorem store_eip (a : Nat) (x : BitVec 32) : (s.store a x).eip = s.eip := rfl

end X86

/-- `swtch.S`. -/
def swtch : List Instr :=
  [.movlLoad 4 .esp .eax, .movlLoad 8 .esp .edx,
    .pushl .ebp, .pushl .ebx, .pushl .esi, .pushl .edi,
    .movlStore .esp .eax, .movl .edx .esp,
    .popl .edi, .popl .esi, .popl .ebx, .popl .ebp, .ret]

/-- `struct context`: the callee-saved registers and the return address, in field order. -/
structure Context where
  edi : BitVec 32
  esi : BitVec 32
  ebx : BitVec 32
  ebp : BitVec 32
  eip : BitVec 32
  deriving DecidableEq, Repr

/-- The `struct context` at address `c`: field `i` is the word at `c + 4 i`. -/
def Context.read (vm : Vm) (c : Nat) : Context :=
  ⟨.ofNat 32 (vm.rd32 c), .ofNat 32 (vm.rd32 (c + 4)), .ofNat 32 (vm.rd32 (c + 8)),
    .ofNat 32 (vm.rd32 (c + 12)), .ofNat 32 (vm.rd32 (c + 16))⟩

/-! ## Addresses -/

theorem ofNat_sub_ofNat {e k : Nat} (h : k ≤ e) :
    BitVec.ofNat 32 e - BitVec.ofNat 32 k = BitVec.ofNat 32 (e - k) := by
  apply BitVec.eq_of_toNat_eq; simp [BitVec.toNat_sub]; omega

theorem ofNat_add_ofNat (e k : Nat) : BitVec.ofNat 32 e + BitVec.ofNat 32 k = BitVec.ofNat 32 (e + k) := by
  apply BitVec.eq_of_toNat_eq; simp [BitVec.toNat_add]

theorem toNat_ofNat_of_lt {e : Nat} (h : e < 2 ^ 32) : (BitVec.ofNat 32 e).toNat = e := by
  rw [BitVec.toNat_ofNat, Nat.mod_eq_of_lt h]

theorem ofNat_toNat_mod (x : BitVec 32) : BitVec.ofNat 32 (x.toNat % 2 ^ 32) = x := by
  apply BitVec.eq_of_toNat_eq
  rw [BitVec.toNat_ofNat, Nat.mod_mod, Nat.mod_eq_of_lt x.isLt]

/-- A `struct context` reads only its twenty bytes. -/
theorem Context.read_congr {vm vm' : Vm} {c : Nat} (h : vm.Agrees vm' c 20) :
    Context.read vm' c = Context.read vm c := by
  have w (o) (ho : o + 4 ≤ 20) : vm'.rd32 (c + o) = vm.rd32 (c + o) :=
    vm.rd32_congr fun a h₁ h₂ => h a (by omega) (by omega)
  have w0 := w 0 (by omega)
  rw [Nat.add_zero] at w0
  simp only [Context.read, w0, w 4 (by omega), w 8 (by omega), w 12 (by omega), w 16 (by omega)]

/-! ## `swtch` -/

/-- The memory `swtch` leaves behind: `%ebp, %ebx, %esi, %edi` pushed below the return address
at `%esp`, and the new stack pointer stored at `old`, the first argument. -/
def swtchSaved (s : X86) : Vm :=
  let e := (s.reg .esp).toNat
  ((((s.vm.wr32 (e - 4) (s.reg .ebp).toNat).wr32 (e - 8) (s.reg .ebx).toNat).wr32 (e - 12)
    (s.reg .esi).toNat).wr32 (e - 16) (s.reg .edi).toNat).wr32 (s.word (e + 4)).toNat (e - 16)

/-- **`swtch`.** Entered with the return address at `%esp` and the arguments `old` and `new`
above it, `swtch` leaves memory as `swtchSaved` says, and takes `%edi, %esi, %ebx, %ebp` and
`%eip` from the `struct context` at `new`, fields in order, with `%esp` just above it. It
clobbers only the caller-saved `%eax` and `%edx`. -/
theorem swtch_spec (s : X86) (h16 : 16 ≤ (s.reg .esp).toNat) (h12 : (s.reg .esp).toNat + 12 ≤ 2 ^ 32)
    (hnew : (s.word ((s.reg .esp).toNat + 8)).toNat + 20 < 2 ^ 32) :
    let e := (s.reg .esp).toNat
    let new := s.word (e + 8)
    let c := Context.read (swtchSaved s) new.toNat
    let t := s.run swtch
    t.vm = swtchSaved s ∧ t.seg = s.seg ∧ t.eip = c.eip ∧ (t.reg .esp).toNat = new.toNat + 20 ∧
      t.reg .edi = c.edi ∧ t.reg .esi = c.esi ∧ t.reg .ebx = c.ebx ∧ t.reg .ebp = c.ebp ∧
      t.reg .eax = s.word (e + 4) ∧ t.reg .edx = new ∧ t.reg .ecx = s.reg .ecx := by
  intro e new c t
  have he : s.reg .esp = BitVec.ofNat 32 e := by simp [e]
  have hw : new.toNat = s.vm.rd32 (e + 8) := toNat_ofNat_of_lt (s.vm.rd32_lt _)
  have hw' : s.vm.rd32 (e + 8) + 20 < 2 ^ 32 := hw ▸ hnew
  simp (disch := omega) only [t, X86.run, swtch, List.foldl, X86.exec, X86.push, X86.drop, X86.top,
    X86.word, X86.setReg_reg, X86.setReg_vm, X86.setReg_seg, X86.setReg_eip, X86.store_vm,
    X86.store_reg, X86.store_seg, X86.store_eip, he, reduceCtorEq, ofNat_sub_ofNat, ofNat_add_ofNat,
    toNat_ofNat_of_lt, BitVec.ofNat_eq_ofNat, ite_true, ite_false, Nat.sub_sub, Nat.add_assoc,
    Nat.reduceAdd, and_true, true_and, c, Context.read, hw, swtchSaved]
  rfl

/-- The `struct context` that `swtch` saves at the new `%esp` holds the caller's `%edi, %esi,
%ebx, %ebp` and its return address, and `*old` points to it, when `old` lies apart from it. -/
theorem swtch_saves (s : X86) (h16 : 16 ≤ (s.reg .esp).toNat) (h12 : (s.reg .esp).toNat + 12 ≤ 2 ^ 32)
    (hold : (s.word ((s.reg .esp).toNat + 4)).toNat + 4 ≤ (s.reg .esp).toNat - 16 ∨
      (s.reg .esp).toNat + 4 ≤ (s.word ((s.reg .esp).toNat + 4)).toNat) :
    Context.read (swtchSaved s) ((s.reg .esp).toNat - 16) =
        ⟨s.reg .edi, s.reg .esi, s.reg .ebx, s.reg .ebp, s.word (s.reg .esp).toNat⟩ ∧
      (swtchSaved s).rd32 (s.word ((s.reg .esp).toNat + 4)).toNat = (s.reg .esp).toNat - 16 := by
  unfold X86.word at hold
  simp (disch := omega) only [swtchSaved, Context.read, Vm.rd32_wr32_self, Vm.rd32_wr32_of_ne,
    ofNat_toNat_mod, X86.word, Nat.sub_add_cancel, Nat.sub_sub, Nat.reduceAdd,
    show (s.reg .esp).toNat - 16 + 4 = (s.reg .esp).toNat - 12 by omega,
    show (s.reg .esp).toNat - 16 + 8 = (s.reg .esp).toNat - 8 by omega,
    show (s.reg .esp).toNat - 16 + 12 = (s.reg .esp).toNat - 4 by omega,
    show (s.reg .esp).toNat - 16 + 16 = (s.reg .esp).toNat by omega]
  exact ⟨trivial, Nat.mod_eq_of_lt (by omega)⟩

/-- **A parked thread resumes as it was.** Let thread `a` call `swtch` with `old` apart from its
stack. Let `b` be any later state in which the context `a` saved is intact, and which calls
`swtch` with `new` pointing to it, its own writes leaving it alone. Then `a` returns from its
call to its return address, with its `%edi, %esi, %ebx, %ebp`, and `%esp` just above the
return address, as they were at the call. -/
theorem swtch_resume (a b : X86)
    (ha16 : 16 ≤ (a.reg .esp).toNat) (ha12 : (a.reg .esp).toNat + 12 ≤ 2 ^ 32)
    (hold : (a.word ((a.reg .esp).toNat + 4)).toNat + 4 ≤ (a.reg .esp).toNat - 16 ∨
      (a.reg .esp).toNat + 4 ≤ (a.word ((a.reg .esp).toNat + 4)).toNat)
    (hb16 : 16 ≤ (b.reg .esp).toNat) (hb12 : (b.reg .esp).toNat + 12 ≤ 2 ^ 32)
    (hnew : (b.word ((b.reg .esp).toNat + 8)).toNat = (a.reg .esp).toNat - 16)
    (hkept : (swtchSaved a).Agrees b.vm ((a.reg .esp).toNat - 16) 20)
    (hleft : b.vm.Agrees (swtchSaved b) ((a.reg .esp).toNat - 16) 20) :
    let t := b.run swtch
    t.eip = a.word (a.reg .esp).toNat ∧ t.reg .edi = a.reg .edi ∧ t.reg .esi = a.reg .esi ∧
      t.reg .ebx = a.reg .ebx ∧ t.reg .ebp = a.reg .ebp ∧
      (t.reg .esp).toNat = (a.reg .esp).toNat + 4 := by
  obtain ⟨-, -, hip, hsp, hdi, hsi, hbx, hbp, -⟩ := swtch_spec b hb16 hb12 (by omega)
  have hc := (Context.read_congr (hkept.trans hleft)).trans (swtch_saves a ha16 ha12 hold).1
  rw [hnew] at hip hsp hdi hsi hbx hbp
  rw [hc] at hip hdi hsi hbx hbp
  exact ⟨hip, hdi, hsi, hbx, hbp, by omega⟩

/-! ## The first run of a process -/

/-- `KSTACKSIZE`: the bytes of a kernel stack. -/
def kstacksize : Nat := 4096

/-- `sizeof(struct trapframe)`: the 48 bytes `alltraps` pushes, the trap number and error code,
and the 20 bytes the processor pushes on a trap from user mode. -/
def trapframeSize : Nat := 76

/-- `sizeof(struct context)`. -/
def contextSize : Nat := 20

/-- The frame `allocproc` builds on the fresh kernel stack at `kstack`, for the code addresses
`trapretAt` and `forkretAt`: memory after it, `p->tf` and `p->context`. -/
def allocprocFrame (vm : Vm) (kstack trapretAt forkretAt : Nat) : Vm × Nat × Nat :=
  let tf := kstack + kstacksize - trapframeSize
  let context := tf - 4 - contextSize
  (((vm.wr32 (tf - 4) trapretAt).memset context 0 contextSize).wr32 (context + 16) forkretAt, tf,
    context)

/-- **A fresh process starts in `forkret`, then `trapret`.** Let the scheduler, in any state
whose memory still holds the frame `allocproc` built, `swtch` to its context without writing
over it. It enters `forkret` with `%edi, %esi, %ebx, %ebp` zero; `forkret` is C code that
returns with its stack balanced, and its `ret` enters `trapret` with `%esp = p->tf`. -/
theorem allocproc_frame_resume (vm : Vm) (kstack trapretAt forkretAt : Nat) (s : X86)
    (hk : kstack + kstacksize < 2 ^ 32) (htr : trapretAt < 2 ^ 32) (hfr : forkretAt < 2 ^ 32)
    (h16 : 16 ≤ (s.reg .esp).toNat) (h12 : (s.reg .esp).toNat + 12 ≤ 2 ^ 32)
    (hnew : (s.word ((s.reg .esp).toNat + 8)).toNat = (allocprocFrame vm kstack trapretAt forkretAt).2.2)
    (hkept : (allocprocFrame vm kstack trapretAt forkretAt).1.Agrees s.vm
      (allocprocFrame vm kstack trapretAt forkretAt).2.2 24)
    (hleft : s.vm.Agrees (swtchSaved s) (allocprocFrame vm kstack trapretAt forkretAt).2.2 24) :
    let t := s.run swtch
    t.eip = BitVec.ofNat 32 forkretAt ∧ t.reg .edi = 0 ∧ t.reg .esi = 0 ∧ t.reg .ebx = 0 ∧
      t.reg .ebp = 0 ∧ (t.exec .ret).eip = BitVec.ofNat 32 trapretAt ∧
      ((t.exec .ret).reg .esp).toNat = (allocprocFrame vm kstack trapretAt forkretAt).2.1 := by
  intro t
  have hk' : kstack + 4096 < 2 ^ 32 := hk
  set F := (allocprocFrame vm kstack trapretAt forkretAt).1 with hF
  set ctx := (allocprocFrame vm kstack trapretAt forkretAt).2.2 with hctx
  have hc : ctx = kstack + 3996 := by simp only [hctx, allocprocFrame, kstacksize, trapframeSize, contextSize]; omega
  have htf : (allocprocFrame vm kstack trapretAt forkretAt).2.1 = ctx + 24 := by
    simp only [hc, allocprocFrame, kstacksize, trapframeSize]; omega
  have hFm : F = ((vm.wr32 (ctx + 20) trapretAt).memset ctx 0 20).wr32 (ctx + 16) forkretAt := by
    simp only [hF, hc, allocprocFrame, kstacksize, trapframeSize, contextSize]
    rw [show kstack + 4096 - 76 - 4 = kstack + 3996 + 20 by omega, show kstack + 3996 + 20 - 20 = kstack + 3996 by omega]
  have hFc : Context.read F ctx = ⟨0, 0, 0, 0, BitVec.ofNat 32 forkretAt⟩ := by
    simp (disch := omega) only [hFm, Context.read, Vm.rd32_wr32_self, Vm.rd32_wr32_of_ne,
      Vm.rd32_memset_zero, Nat.mod_eq_of_lt hfr, BitVec.ofNat_eq_ofNat]
  have hFr : F.rd32 (ctx + 20) = trapretAt := by
    simp (disch := omega) only [hFm, Vm.rd32_wr32_self, Vm.rd32_wr32_of_ne, Vm.rd32_memset_of_ne,
      Nat.mod_eq_of_lt htr]
  have hag : F.Agrees (swtchSaved s) ctx 24 := hkept.trans hleft
  obtain ⟨hvm, -, hip, hsp, hdi, hsi, hbx, hbp, -⟩ := swtch_spec s h16 h12 (by rw [hnew]; omega)
  rw [hnew, Context.read_congr (hag.mono (by omega)), hFc] at hip hdi hsi hbx hbp
  rw [hnew] at hsp
  refine ⟨hip, hdi, hsi, hbx, hbp, ?_, ?_⟩
  · show BitVec.ofNat 32 (t.vm.rd32 (t.reg .esp).toNat) = _
    rw [hsp, hvm, Vm.rd32_congr F fun a h₁ h₂ => hag a (by omega) (by omega), hFr]
  · show (t.reg .esp + BitVec.ofNat 32 4).toNat = _
    rw [htf, BitVec.toNat_add, hsp, BitVec.toNat_ofNat]
    omega

/-! ## The trap frame -/

/-- `alltraps` up to `call trap`: the pushes that build the trap frame. -/
def alltraps : List Instr :=
  [.pushSeg .ds, .pushSeg .es, .pushSeg .fs, .pushSeg .gs, .pushal]

/-- `trapret` up to `iret`. -/
def trapret : List Instr :=
  [.popal, .popSeg .gs, .popSeg .fs, .popSeg .es, .popSeg .ds, .addlEsp 8]

/-- The memory `alltraps` leaves: the trap frame's first 48 bytes, at `f = %esp - 48`. From `f`
up, `pushal`'s `%edi, %esi, %ebp`, the `%esp` it found, `%ebx, %edx, %ecx, %eax`, then
`%gs, %fs, %es, %ds`. -/
def alltrapsFrame (s : X86) : Vm :=
  let f := (s.reg .esp).toNat - 48
  let segs := (((s.vm.wr32 (f + 44) ((s.seg .ds).zeroExtend 32).toNat).wr32 (f + 40)
    ((s.seg .es).zeroExtend 32).toNat).wr32 (f + 36) ((s.seg .fs).zeroExtend 32).toNat).wr32 (f + 32)
    ((s.seg .gs).zeroExtend 32).toNat
  (((((((segs.wr32 (f + 28) (s.reg .eax).toNat).wr32 (f + 24) (s.reg .ecx).toNat).wr32 (f + 20)
    (s.reg .edx).toNat).wr32 (f + 16) (s.reg .ebx).toNat).wr32 (f + 12) (f + 32)).wr32 (f + 8)
    (s.reg .ebp).toNat).wr32 (f + 4) (s.reg .esi).toNat).wr32 f (s.reg .edi).toNat

theorem alltraps_spec (s : X86) (h48 : 48 ≤ (s.reg .esp).toNat) :
    (s.run alltraps).reg .esp = BitVec.ofNat 32 ((s.reg .esp).toNat - 48) ∧
      (s.run alltraps).vm = alltrapsFrame s := by
  obtain ⟨f, hf⟩ : ∃ f, (s.reg .esp).toNat = f + 48 := ⟨_, (Nat.sub_add_cancel h48).symm⟩
  have he : s.reg .esp = BitVec.ofNat 32 (f + 48) := by rw [← hf]; simp
  simp (disch := omega) only [X86.run, alltraps, List.foldl, X86.exec, X86.push, X86.setReg_reg,
    X86.store_reg, X86.store_vm, X86.setReg_vm, X86.setReg_seg, X86.store_seg, he, reduceCtorEq,
    BitVec.ofNat_eq_ofNat, ofNat_sub_ofNat, ite_true, ite_false, Nat.sub_sub, Nat.reduceAdd,
    Nat.reduceSubDiff, toNat_ofNat_of_lt, alltrapsFrame, Nat.add_sub_cancel, Nat.add_zero, and_self]

theorem truncate_zeroExtend (x : BitVec 16) : (x.zeroExtend 32).truncate 16 = x := by
  apply BitVec.eq_of_toNat_eq; simp

/-- **`trapret` undoes `alltraps`.** Whatever runs between them (`trap`, or a context switch
away and back), if `%esp` is back at the frame and the frame's 48 bytes are intact, `trapret`
restores every general-purpose register and segment selector that `alltraps` saved, and leaves
`%esp` 8 bytes above where `alltraps` started, past the trap number and error code. -/
theorem trapret_pops_alltraps (s w : X86) (h48 : 48 ≤ (s.reg .esp).toNat)
    (h8 : (s.reg .esp).toNat + 8 < 2 ^ 32) (hw : w.reg .esp = (s.run alltraps).reg .esp)
    (hm : (s.run alltraps).vm.Agrees w.vm ((s.reg .esp).toNat - 48) 48) :
    let t := w.run trapret
    (∀ r, r ≠ .esp → t.reg r = s.reg r) ∧ t.seg = s.seg ∧
      (t.reg .esp).toNat = (s.reg .esp).toNat + 8 := by
  intro t
  obtain ⟨hA, hM⟩ := alltraps_spec s h48
  obtain ⟨f, hf⟩ : ∃ f, (s.reg .esp).toNat = f + 48 := ⟨_, (Nat.sub_add_cancel h48).symm⟩
  rw [hf, Nat.add_sub_cancel] at hA hm
  have hword (c) (hc : c + 4 ≤ 48) : w.word (f + c) = .ofNat 32 ((alltrapsFrame s).rd32 (f + c)) := by
    rw [X86.word, Vm.rd32_congr _ fun a h₁ h₂ => hm a (by omega) (by omega), hM]
  have hword0 := hword 0 (by omega)
  rw [Nat.add_zero] at hword0
  simp only [alltrapsFrame, hf, Nat.add_sub_cancel] at hword hword0
  simp only [t, X86.run, trapret, List.foldl, X86.exec, X86.drop, X86.top, X86.setReg_reg,
    X86.setSeg_seg, X86.setSeg_reg, X86.setReg_seg, X86.word_setReg, X86.word_setSeg, reduceCtorEq,
    ite_true, ite_false, hw.trans hA]
  refine ⟨fun r hr => ?_, funext fun g => ?_, ?_⟩
  · cases r <;> simp (disch := omega) only [reduceCtorEq, ite_true, ite_false, BitVec.ofNat_eq_ofNat,
      ofNat_add_ofNat, toNat_ofNat_of_lt, Nat.add_assoc, Nat.reduceAdd, hword0, hword,
      Vm.rd32_wr32_self, Vm.rd32_wr32_of_ne, ofNat_toNat_mod]
    exact absurd rfl hr
  · cases g <;> simp (disch := omega) only [X86.setSeg_seg, X86.setReg_seg, reduceCtorEq, ite_true,
      ite_false, BitVec.ofNat_eq_ofNat,
      ofNat_add_ofNat, toNat_ofNat_of_lt, Nat.add_assoc, Nat.reduceAdd, hword,
      Vm.rd32_wr32_self, Vm.rd32_wr32_of_ne, ofNat_toNat_mod, truncate_zeroExtend]
  · simp (disch := omega) only [hf, BitVec.ofNat_eq_ofNat, ofNat_add_ofNat, toNat_ofNat_of_lt]

/-! ## The four artefacts together -/

/-- **`swtch`, `struct context`, `allocproc`'s frame and `trapasm.S` agree**, over every register
state and every stack address that does not wrap: `swtch` saves a `struct context` in field
order and stores its address at `*old`; it resumes the context at `new`; a thread it parks
resumes as it was; the frame `allocproc` builds resumes into `forkret` and then `trapret`
with `%esp = p->tf`; and `trapret` pops what `alltraps` pushed. -/
theorem swtch_agrees_with_context :
    (∀ s : X86, 16 ≤ (s.reg .esp).toNat → (s.reg .esp).toNat + 12 ≤ 2 ^ 32 →
      ((s.word ((s.reg .esp).toNat + 4)).toNat + 4 ≤ (s.reg .esp).toNat - 16 ∨
        (s.reg .esp).toNat + 4 ≤ (s.word ((s.reg .esp).toNat + 4)).toNat) →
      Context.read (swtchSaved s) ((s.reg .esp).toNat - 16) =
          ⟨s.reg .edi, s.reg .esi, s.reg .ebx, s.reg .ebp, s.word (s.reg .esp).toNat⟩ ∧
        (swtchSaved s).rd32 (s.word ((s.reg .esp).toNat + 4)).toNat = (s.reg .esp).toNat - 16) ∧
    (∀ s : X86, 16 ≤ (s.reg .esp).toNat → (s.reg .esp).toNat + 12 ≤ 2 ^ 32 →
      (s.word ((s.reg .esp).toNat + 8)).toNat + 20 < 2 ^ 32 →
      let new := s.word ((s.reg .esp).toNat + 8)
      let c := Context.read (swtchSaved s) new.toNat
      let t := s.run swtch
      t.vm = swtchSaved s ∧ t.seg = s.seg ∧ t.eip = c.eip ∧ (t.reg .esp).toNat = new.toNat + 20 ∧
        t.reg .edi = c.edi ∧ t.reg .esi = c.esi ∧ t.reg .ebx = c.ebx ∧ t.reg .ebp = c.ebp ∧
        t.reg .eax = s.word ((s.reg .esp).toNat + 4) ∧ t.reg .edx = new ∧ t.reg .ecx = s.reg .ecx) ∧
    (∀ a b : X86, 16 ≤ (a.reg .esp).toNat → (a.reg .esp).toNat + 12 ≤ 2 ^ 32 →
      ((a.word ((a.reg .esp).toNat + 4)).toNat + 4 ≤ (a.reg .esp).toNat - 16 ∨
        (a.reg .esp).toNat + 4 ≤ (a.word ((a.reg .esp).toNat + 4)).toNat) →
      16 ≤ (b.reg .esp).toNat → (b.reg .esp).toNat + 12 ≤ 2 ^ 32 →
      (b.word ((b.reg .esp).toNat + 8)).toNat = (a.reg .esp).toNat - 16 →
      (swtchSaved a).Agrees b.vm ((a.reg .esp).toNat - 16) 20 →
      b.vm.Agrees (swtchSaved b) ((a.reg .esp).toNat - 16) 20 →
      let t := b.run swtch
      t.eip = a.word (a.reg .esp).toNat ∧ t.reg .edi = a.reg .edi ∧ t.reg .esi = a.reg .esi ∧
        t.reg .ebx = a.reg .ebx ∧ t.reg .ebp = a.reg .ebp ∧
        (t.reg .esp).toNat = (a.reg .esp).toNat + 4) ∧
    (∀ (vm : Vm) (kstack trapretAt forkretAt : Nat) (s : X86),
      kstack + kstacksize < 2 ^ 32 → trapretAt < 2 ^ 32 → forkretAt < 2 ^ 32 →
      16 ≤ (s.reg .esp).toNat → (s.reg .esp).toNat + 12 ≤ 2 ^ 32 →
      (s.word ((s.reg .esp).toNat + 8)).toNat = (allocprocFrame vm kstack trapretAt forkretAt).2.2 →
      (allocprocFrame vm kstack trapretAt forkretAt).1.Agrees s.vm
        (allocprocFrame vm kstack trapretAt forkretAt).2.2 24 →
      s.vm.Agrees (swtchSaved s) (allocprocFrame vm kstack trapretAt forkretAt).2.2 24 →
      let t := s.run swtch
      t.eip = BitVec.ofNat 32 forkretAt ∧ t.reg .edi = 0 ∧ t.reg .esi = 0 ∧ t.reg .ebx = 0 ∧
        t.reg .ebp = 0 ∧ (t.exec .ret).eip = BitVec.ofNat 32 trapretAt ∧
        ((t.exec .ret).reg .esp).toNat = (allocprocFrame vm kstack trapretAt forkretAt).2.1) ∧
    (∀ s w : X86, 48 ≤ (s.reg .esp).toNat → (s.reg .esp).toNat + 8 < 2 ^ 32 →
      w.reg .esp = (s.run alltraps).reg .esp →
      (s.run alltraps).vm.Agrees w.vm ((s.reg .esp).toNat - 48) 48 →
      let t := w.run trapret
      (∀ r, r ≠ .esp → t.reg r = s.reg r) ∧ t.seg = s.seg ∧
        (t.reg .esp).toNat = (s.reg .esp).toNat + 8) :=
  ⟨swtch_saves, swtch_spec, swtch_resume, allocproc_frame_resume, trapret_pops_alltraps⟩

/-- `swtch` writes only the sixteen bytes below `%esp` and the word at `old`. -/
theorem agrees_swtchSaved (s : X86) {X m : Nat} (h16 : 16 ≤ (s.reg .esp).toNat)
    (hst : (s.reg .esp).toNat ≤ X ∨ X + m + 16 ≤ (s.reg .esp).toNat)
    (hold : (s.word ((s.reg .esp).toNat + 4)).toNat + 4 ≤ X ∨ X + m ≤ (s.word ((s.reg .esp).toNat + 4)).toNat) :
    s.vm.Agrees (swtchSaved s) X m :=
  ((((s.vm.agrees_wr32 _ (by omega)).trans (Vm.agrees_wr32 _ _ (by omega))).trans
    (Vm.agrees_wr32 _ _ (by omega))).trans (Vm.agrees_wr32 _ _ (by omega))).trans (Vm.agrees_wr32 _ _ hold)

/-- A thread about to `swtch` out: its return address 0x80104000 at `%esp` = 0x1000, `old` =
0x2000 above it, and 1 to 4 in `%edi, %esi, %ebx, %ebp`. -/
def parkedThread : X86 where
  reg r := match r with
    | .esp => 0x1000 | .edi => 1 | .esi => 2 | .ebx => 3 | .ebp => 4 | _ => 0
  seg _ := 0
  eip := 0
  vm := ((⟨fun _ => 0, []⟩ : Vm).wr32 0x1000 0x80104000).wr32 0x1004 0x2000

/-- Another thread, on the memory `parkedThread`'s `swtch` left, switching from its stack at
0x3000 (`old` = 0x4000) to the context `parkedThread` saved at 0xFF0. -/
def resumingThread : X86 where
  reg r := match r with
    | .esp => 0x3000 | _ => 0
  seg _ := 0
  eip := 0
  vm := ((swtchSaved parkedThread).wr32 0x3004 0x4000).wr32 0x3008 0xFF0

/-- The second thread's `swtch` returns into the first at 0x80104000, with its registers and
with `%esp` just above the return address. -/
theorem swtch_agrees_with_context_resume :
    (resumingThread.word 0x3008).toNat = 0xFF0 ∧
      let t := resumingThread.run swtch
      t.eip = parkedThread.word (parkedThread.reg .esp).toNat ∧ t.reg .edi = parkedThread.reg .edi ∧
        t.reg .esi = parkedThread.reg .esi ∧ t.reg .ebx = parkedThread.reg .ebx ∧
        t.reg .ebp = parkedThread.reg .ebp ∧ (t.reg .esp).toNat = (parkedThread.reg .esp).toNat + 4 :=
  have hkept : (swtchSaved parkedThread).Agrees resumingThread.vm 0xFF0 20 :=
    (Vm.agrees_wr32 _ _ (by decide)).trans (Vm.agrees_wr32 _ _ (by decide))
  ⟨by decide, swtch_agrees_with_context.2.2.1 parkedThread resumingThread (by decide) (by decide)
    (.inr (by decide)) (by decide) (by decide) (by decide) hkept
    (agrees_swtchSaved resumingThread (by decide) (.inr (by decide)) (.inr (by decide)))⟩

end Xv6
