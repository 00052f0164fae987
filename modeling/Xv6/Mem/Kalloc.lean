import Xv6.Lib.Bytes
import Xv6.Lib.Returns
import Xv6.Mem.Riscv

/-!
# Physical memory and its allocator

`kernel/kalloc.c`. The free pages are linked through their first word, as in
the source: `kfree` writes the list into the page it is given, and `kalloc`
reads it from there. A program over physical memory may stop in a panic.
-/

namespace Xv6.Mem

open Lib

/-- The bytes of physical memory. -/
abbrev Bytes := Nat → UInt8

/-- Physical memory and `kmem`. -/
structure Phys where
  mem : Bytes
  /-- `kmem.freelist`, the address of the first free page or 0. -/
  freelist : Nat

/-- The panics of `kalloc.c`, `vm.c`, `exec.c`, `proc.c` and `file.c`. -/
inductive Panic where
  | kfree
  | walk
  | mappagesSize
  | mappagesRemap
  | uvmunmapNotAligned
  | uvmunmapWalk
  | uvmunmapNotMapped
  | uvmunmapNotALeaf
  | uvmfirst
  | freewalkLeaf
  /-- `freewalk` calls itself deeper than a page table is. -/
  | freewalkDepth
  | uvmcopyPteShouldExist
  | uvmcopyPageNotPresent
  | uvmclear
  | loadseg
  /-- A null pointer is used. -/
  | kerneltrap
  | filedup
  | fileclose
  | initExiting
  deriving DecidableEq, Repr

/-- A program over physical memory. -/
abbrev PhysM := StateT Phys (Except Panic)

/-! ## Loads and stores -/

/-- `n` bytes set to `c`. -/
def fill (m : Bytes) (dst : Nat) (c : UInt8) (n : Nat) : Bytes := fun x =>
  if dst ≤ x ∧ x < dst + n then c else m x

/-- `n` bytes copied. -/
def copy (m : Bytes) (dst src n : Nat) : Bytes := fun x =>
  if dst ≤ x ∧ x < dst + n then m (src + (x - dst)) else m x

/-- Bytes from elsewhere stored. -/
def blit (m : Bytes) (dst : Nat) (bs : List UInt8) : Bytes := fun x =>
  if dst ≤ x ∧ x < dst + bs.length then bs.getD (x - dst) 0 else m x

/-- A memory with other bytes. -/
def Phys.withMem (s : Phys) (m : Bytes) : Phys := { s with mem := m }

def load64 (a : Nat) : PhysM Nat := do return getLE (← get).mem a 8

def load32 (a : Nat) : PhysM Nat := do return getLE (← get).mem a 4

def store64 (a v : Nat) : PhysM Unit := modify fun s => s.withMem (putLE s.mem a 8 v)

def store32 (a v : Nat) : PhysM Unit := modify fun s => s.withMem (putLE s.mem a 4 v)

def memset (dst : Nat) (c : UInt8) (n : Nat) : PhysM Unit :=
  modify fun s => s.withMem (fill s.mem dst c n)

def memmove (dst src n : Nat) : PhysM Unit := modify fun s => s.withMem (copy s.mem dst src n)

/-- `memmove` from outside physical memory. -/
def storeBytes (dst : Nat) (bs : List UInt8) : PhysM Unit :=
  modify fun s => s.withMem (blit s.mem dst bs)

/-- `n` bytes from an address on. -/
def loadBytes (a n : Nat) : PhysM (List UInt8) := do
  let s ← get
  return (List.range n).map fun j => s.mem (a + j)

/-! ## `kalloc.c` -/

variable [Layout]

/-- `kfree`. -/
def kfree (pa : Nat) : PhysM Unit :=
  if pa % pgSize ≠ 0 ∨ pa < Layout.kend ∨ pa ≥ physTop then throw .kfree
  else do
    memset pa 1 pgSize
    let s ← get
    store64 pa s.freelist
    modify fun s => { s with freelist := pa }

/-- `kalloc`. -/
def kalloc : PhysM Nat := do
  let s ← get
  let r := s.freelist
  if r ≠ 0 then do
    let next ← load64 r
    modify fun s => { s with freelist := next }
    memset r 5 pgSize
    return r
  else return r

/-- The loop of `freerange`. -/
def freeRounds (p : Nat) : Nat → PhysM Unit
  | 0 => pure ()
  | n + 1 => do
    kfree p
    freeRounds (p + pgSize) n

/-- `freerange`: every page that lies in the range. -/
def freerange (paStart paEnd : Nat) : PhysM Unit :=
  freeRounds (pgRoundUp paStart) ((paEnd - pgRoundUp paStart) / pgSize)

/-- `kinit`. -/
def kinit : PhysM Unit := freerange Layout.kend physTop

end Xv6.Mem
