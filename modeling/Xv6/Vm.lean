import Xv6.Kalloc
import Mathlib.Data.Nat.Bitwise
import Mathlib.Algebra.Group.Int

/-!
# Page tables: `vm.c`

The two-level x86 page table as `vm.c` walks it. A page directory is a page of 1024 entries;
a present entry (`PTE_P`) holds the physical address of a page table, whose 1024 entries map
the pages of a 4 MB region. Pointers are kernel addresses, and a `NULL` pointer is 0, so that
`walkpgdir` returns 0 when a page table is absent, as the code does.

Every function takes the memory `vm` and returns the memory after it, in `Except Fault` when
it can `panic` or read through a null pointer. The `for` loops count a `uint` index modulo
2^32 as the code does, and take fuel enough for every run that leaves: a loop that has not
left after 2^20 + 1 tests of its condition has wrapped past 2^32, and from there the code never
leaves it (`Fault.hang`). `cprintf` and the TSS and `cr3` updates of `switchuvm` are not modelled.
-/

namespace Xv6

/-- `PTE_P`: present. -/
def pteP : Nat := 1

/-- `PTE_W`: writeable. -/
def pteW : Nat := 2

/-- `PTE_U`: user. -/
def pteU : Nat := 4

/-- `EXTMEM`: start of extended memory. -/
def extmem : Nat := 0x100000

/-- `DEVSPACE`: where the other devices are mapped. -/
def devspace : Nat := 0xFE000000

/-- `KERNLINK`: the address the kernel is linked at. -/
def kernlink : Nat := kernbase + extmem

/-- `NPDENTRIES`: entries of a page directory. -/
def npdentries : Nat := 1024

/-- `PDX(va)`: the page-directory index of `va`. -/
def pdx (va : Nat) : Nat := (va >>> 22) &&& 0x3FF

/-- `PTX(va)`: the page-table index of `va`. -/
def ptx (va : Nat) : Nat := (va >>> 12) &&& 0x3FF

/-- `PGADDR(d, t, o)`, as a `uint`. -/
def pgaddr (d t o : Nat) : Nat := (d <<< 22 ||| t <<< 12 ||| o) % 2 ^ 32

/-- `PTE_ADDR(pte)`, `(uint)(pte) & ~0xFFF`, of a 32-bit entry. -/
def pteAddr (e : Nat) : Nat := e / 4096 * 4096

/-- `PTE_FLAGS(pte)`, `(uint)(pte) & 0xFFF`. -/
def pteFlags (e : Nat) : Nat := e % 4096

/-- Fuel for a loop over the pages of the 32-bit address space: a run that leaves tests its
condition at most once per page and once more. -/
def pageFuel : Nat := 2 ^ 20 + 1

/-- An entry of `kmap`: `virt`, `phys_start`, `phys_end`, `perm`. -/
structure Kmap where
  virt : Nat
  physStart : Nat
  physEnd : Nat
  perm : Nat

/-- `kmap[]`: the kernel's mappings, present in every page directory. -/
def kmap (ly : Layout) : List Kmap :=
  [⟨kernbase, 0, extmem, pteW⟩, ⟨kernlink, v2p kernlink, v2p ly.data, 0⟩,
    ⟨ly.data, v2p ly.data, phystop, pteW⟩, ⟨devspace, devspace, 0, pteW⟩]

namespace Vm

variable (vm : Vm) (ly : Layout)

/-- `walkpgdir(pgdir, va, alloc)`: the kernel address of `va`'s page-table entry, after
allocating and zeroing its page table if it is absent and `alloc` is set; 0 when it is absent
and `alloc` is clear or `kalloc` fails. -/
def walkpgdir (pgdir va : Nat) (alloc : Bool) : Nat × Vm :=
  let pde := pgdir + 4 * pdx va
  if vm.rd32 pde &&& pteP ≠ 0 then (p2v (pteAddr (vm.rd32 pde)) + 4 * ptx va, vm)
  else if !alloc then (0, vm)
  else
    match vm.kalloc with
    | (pgtab, vm) =>
      if pgtab = 0 then (0, vm)
      else
        (pgtab + 4 * ptx va,
          (vm.memset pgtab 0 pgsize).wr32 pde (v2p pgtab ||| pteP ||| pteW ||| pteU))

/-- The loop of `mappages`: map page `a` to `pa`, then the `k` pages after it. -/
def mappagesLoop (vm : Vm) (pgdir perm : Nat) : Nat → Nat → Nat → Except Fault (Int × Vm)
  | k, a, pa =>
    match vm.walkpgdir pgdir a true with
    | (pte, vm) =>
      if pte = 0 then .ok (-1, vm)
      else if vm.rd32 pte &&& pteP ≠ 0 then .error (.panic "remap")
      else
        match k with
        | 0 => .ok (0, vm.wr32 pte (pa ||| perm ||| pteP))
        | k + 1 =>
          (vm.wr32 pte (pa ||| perm ||| pteP)).mappagesLoop pgdir perm k
            ((a + pgsize) % 2 ^ 32) ((pa + pgsize) % 2 ^ 32)

/-- `mappages(pgdir, va, size, pa, perm)`: map the pages from `PGROUNDDOWN(va)` to
`last = PGROUNDDOWN(va + size - 1)`, in `uint` arithmetic, onto `pa` onward. The loop's exit
test `a == last` holds after `(last - a) / PGSIZE` pages past the first. -/
def mappages (pgdir va size pa perm : Nat) : Except Fault (Int × Vm) :=
  let a := pgrounddown va
  let last := pgrounddown ((va + size + 2 ^ 32 - 1) % 2 ^ 32)
  vm.mappagesLoop pgdir perm ((last + 2 ^ 32 - a) % 2 ^ 32 / pgsize) a pa

/-- The loop of `deallocuvm` at `a`: where the page table is absent, `a` moves on to the next
directory entry, `PGADDR(PDX(a) + 1, 0, 0)` after the loop's `a += PGSIZE`. -/
def deallocuvmLoop (vm : Vm) (pgdir oldsz : Nat) : Nat → Nat → Except Fault Vm
  | 0, _ => .error .hang
  | k + 1, a =>
    if a < oldsz then
      match vm.walkpgdir pgdir a false with
      | (pte, vm) =>
        if pte = 0 then vm.deallocuvmLoop pgdir oldsz k (pgaddr (pdx a + 1) 0 0)
        else if vm.rd32 pte &&& pteP ≠ 0 then
          if pteAddr (vm.rd32 pte) = 0 then .error (.panic "kfree")
          else do
            let vm' ← vm.kfree ly (p2v (pteAddr (vm.rd32 pte)))
            (vm'.wr32 pte 0).deallocuvmLoop pgdir oldsz k ((a + pgsize) % 2 ^ 32)
        else vm.deallocuvmLoop pgdir oldsz k ((a + pgsize) % 2 ^ 32)
    else .ok vm

/-- `deallocuvm(pgdir, oldsz, newsz)`: free the user pages from `PGROUNDUP(newsz)` up to
`oldsz` and clear their entries; returns the new size. -/
def deallocuvm (pgdir oldsz newsz : Nat) : Except Fault (Nat × Vm) :=
  if newsz ≥ oldsz then .ok (oldsz, vm)
  else (vm.deallocuvmLoop ly pgdir oldsz pageFuel (pgroundup newsz)).map (newsz, ·)

/-- The loop of `allocuvm` at `a`. On either failure it undoes the growth with
`deallocuvm(pgdir, newsz, oldsz)`, and after a failed `mappages` frees the new page. -/
def allocuvmLoop (vm : Vm) (pgdir oldsz newsz : Nat) : Nat → Nat → Except Fault (Nat × Vm)
  | 0, _ => .error .hang
  | k + 1, a =>
    if a < newsz then
      match vm.kalloc with
      | (mem, vm) =>
        if mem = 0 then (vm.deallocuvm ly pgdir newsz oldsz).map fun r => (0, r.2)
        else do
          let (r, vm) ← (vm.memset mem 0 pgsize).mappages pgdir a pgsize (v2p mem) (pteW ||| pteU)
          if r < 0 then
            let (_, vm) ← vm.deallocuvm ly pgdir newsz oldsz
            let vm ← vm.kfree ly mem
            .ok (0, vm)
          else vm.allocuvmLoop pgdir oldsz newsz k ((a + pgsize) % 2 ^ 32)
    else .ok (newsz, vm)

/-- `allocuvm(pgdir, oldsz, newsz)`: map zeroed pages from `PGROUNDUP(oldsz)` up to `newsz`;
returns the new size, or 0 on failure. -/
def allocuvm (pgdir oldsz newsz : Nat) : Except Fault (Nat × Vm) :=
  if newsz ≥ kernbase then .ok (0, vm)
  else if newsz < oldsz then .ok (oldsz, vm)
  else vm.allocuvmLoop ly pgdir oldsz newsz pageFuel (pgroundup oldsz)

/-- The loop of `freevm` over the directory entries from `i`, freeing each present page
table. -/
def freevmLoop (vm : Vm) (pgdir : Nat) : Nat → Nat → Except Fault Vm
  | 0, _ => .ok vm
  | k + 1, i =>
    if vm.rd32 (pgdir + 4 * i) &&& pteP ≠ 0 then do
      let vm ← vm.kfree ly (p2v (pteAddr (vm.rd32 (pgdir + 4 * i))))
      vm.freevmLoop pgdir k (i + 1)
    else vm.freevmLoop pgdir k (i + 1)

/-- `freevm(pgdir)`: free the user pages, the page tables and the directory. -/
def freevm (pgdir : Nat) : Except Fault Vm :=
  if pgdir = 0 then .error (.panic "freevm: no pgdir")
  else do
    let (_, vm) ← vm.deallocuvm ly pgdir kernbase 0
    let vm ← vm.freevmLoop ly pgdir npdentries 0
    vm.kfree ly pgdir

/-- The loop of `setupkvm` over `kmap`; a failed `mappages` frees the directory. -/
def setupkvmLoop (vm : Vm) (pgdir : Nat) : List Kmap → Except Fault (Nat × Vm)
  | [] => .ok (pgdir, vm)
  | k :: ks => do
    let (r, vm) ← vm.mappages pgdir k.virt ((k.physEnd + 2 ^ 32 - k.physStart) % 2 ^ 32) k.physStart k.perm
    if r < 0 then (vm.freevm ly pgdir).map (0, ·) else vm.setupkvmLoop pgdir ks

/-- `setupkvm()`: a new page directory holding the kernel's mappings, or 0. -/
def setupkvm : Except Fault (Nat × Vm) :=
  match vm.kalloc with
  | (pgdir, vm) =>
    if pgdir = 0 then .ok (0, vm)
    else if p2v phystop > devspace then .error (.panic "PHYSTOP too high")
    else (vm.memset pgdir 0 pgsize).setupkvmLoop ly pgdir (kmap ly)

/-- `inituvm(pgdir, init, sz)`: map one zeroed page at address 0 and copy `sz` bytes of `init`
into it. The code does not test `kalloc`'s result: when it fails, `memset` writes through the
null pointer. -/
def inituvm (pgdir init sz : Nat) : Except Fault Vm :=
  if sz ≥ pgsize then .error (.panic "inituvm: more than a page")
  else
    match vm.kalloc with
    | (mem, vm) =>
      if mem = 0 then .error .nullDeref
      else do
        let (_, vm) ← (vm.memset mem 0 pgsize).mappages pgdir 0 pgsize (v2p mem) (pteW ||| pteU)
        .ok (vm.memmove mem init sz)

/-- The loop of `copyuvm` at `i`, copying into the new directory `d`. -/
def copyuvmLoop (vm : Vm) (pgdir sz d : Nat) : Nat → Nat → Except Fault (Nat × Vm)
  | 0, _ => .error .hang
  | k + 1, i =>
    if i < sz then
      match vm.walkpgdir pgdir i false with
      | (pte, vm) =>
        if pte = 0 then .error (.panic "copyuvm: pte should exist")
        else if vm.rd32 pte &&& pteP = 0 then .error (.panic "copyuvm: page not present")
        else
          match vm.kalloc with
          | (mem, vm') =>
            if mem = 0 then (vm'.freevm ly d).map (0, ·)
            else do
              let (r, vm) ← (vm'.memmove mem (p2v (pteAddr (vm.rd32 pte))) pgsize).mappages d i pgsize
                (v2p mem) (pteFlags (vm.rd32 pte))
              if r < 0 then
                let vm ← vm.kfree ly mem
                (vm.freevm ly d).map (0, ·)
              else vm.copyuvmLoop pgdir sz d k ((i + pgsize) % 2 ^ 32)
    else .ok (d, vm)

/-- `copyuvm(pgdir, sz)`: a new page directory with the kernel's mappings and a copy of each
user page below `sz`, or 0. -/
def copyuvm (pgdir sz : Nat) : Except Fault (Nat × Vm) := do
  let (d, vm) ← vm.setupkvm ly
  if d = 0 then .ok (0, vm) else vm.copyuvmLoop ly pgdir sz d pageFuel 0

/-- `uva2ka(pgdir, uva)`: the kernel address of a present user page, or 0. The code reads
`*pte` without testing it, so where the page table is absent it reads through the null
pointer. -/
def uva2ka (pgdir uva : Nat) : Except Fault Nat :=
  let pte := (vm.walkpgdir pgdir uva false).1
  if pte = 0 then .error .nullDeref
  else if vm.rd32 pte &&& pteP = 0 then .ok 0
  else if vm.rd32 pte &&& pteU = 0 then .ok 0
  else .ok (p2v (pteAddr (vm.rd32 pte)))

/-- `copyout(pgdir, va, p, len)`: copy `len` bytes from kernel address `p` to user address
`va`, a page at a time; 0, or -1 at the first page that is not present to the user. -/
def copyout (vm : Vm) (pgdir va p len : Nat) : Except Fault (Int × Vm) :=
  if len = 0 then .ok (0, vm)
  else do
    let pa0 ← vm.uva2ka pgdir (pgrounddown va)
    if pa0 = 0 then .ok (-1, vm)
    else
      let n := min (pgsize - (va - pgrounddown va)) len
      (vm.memmove (pa0 + (va - pgrounddown va)) p n).copyout pgdir
        ((pgrounddown va + pgsize) % 2 ^ 32) (p + n) (len - n)
termination_by len
decreasing_by simp only [pgrounddown, pgsize] at *; omega

/-- `growproc(n)` for a process of size `sz` and directory `pgdir`: the return value, the
process's size after it, and memory. `sz + n` is `uint` arithmetic. -/
def growproc (pgdir sz : Nat) (n : Int) : Except Fault (Int × Nat × Vm) :=
  let target := ((sz + n) % 2 ^ 32).toNat
  if n > 0 then
    (vm.allocuvm ly pgdir sz target).map fun r => if r.1 = 0 then (-1, sz, r.2) else (0, r.1, r.2)
  else if n < 0 then
    (vm.deallocuvm ly pgdir sz target).map fun r => if r.1 = 0 then (-1, sz, r.2) else (0, r.1, r.2)
  else .ok (0, sz, vm)

end Vm

end Xv6
