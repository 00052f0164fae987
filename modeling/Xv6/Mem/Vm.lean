import Xv6.Mem.Kalloc

/-!
# Page tables

The user part of `kernel/vm.c`. A page table is the physical address of its
root page, and pointers to entries are physical addresses too, with 0 for the
null pointer. A loop of the source is a recursion on the number of rounds it
makes, and a `goto` or an early `return` ends the recursion.
-/

namespace Xv6.Mem

open Lib

variable [Layout]

/-! ## `walk` and `mappages` -/

/-- The loop of `walk`, from a level down to level 0. -/
def walkLevels (va : Nat) (alloc : Bool) : Nat → Nat → PhysM (Option Nat)
  | 0, pagetable => pure (some pagetable)
  | level + 1, pagetable => do
    let pte := pagetable + 8 * px (level + 1) va
    let v ← load64 pte
    if v &&& pteV ≠ 0 then walkLevels va alloc level (pte2pa v)
    else if alloc = false then pure none
    else do
      let page ← kalloc
      if page = 0 then pure none
      else do
        memset page 0 pgSize
        store64 pte (pa2pte page ||| pteV)
        walkLevels va alloc level page

/-- `walk`: the address of the entry of `va`, or 0. -/
def walk (pagetable va : Nat) (alloc : Bool) : PhysM Nat :=
  if va ≥ maxVa then throw .walk
  else do
    match ← walkLevels va alloc 2 pagetable with
    | none => pure 0
    | some pagetable => pure (pagetable + 8 * px 0 va)

/-- The entry that `walk` finds, or 0. -/
def lookup (s : Phys) (pagetable va : Nat) : Nat :=
  match walk pagetable va false s with
  | .ok (pte, _) => if pte = 0 then 0 else getLE s.mem pte 8
  | .error _ => 0

/-- `walkaddr`: the physical page of a user address, or 0. -/
def walkaddr (pagetable va : Nat) : PhysM Nat :=
  if va ≥ maxVa then pure 0
  else do
    let pte ← walk pagetable va false
    if pte = 0 then pure 0
    else do
      let v ← load64 pte
      if v &&& pteV = 0 then pure 0
      else if v &&& pteU = 0 then pure 0
      else pure (pte2pa v)

/-- The loop of `mappages`, with the number of pages after the first. -/
def mapRounds (pagetable perm : Nat) : Nat → Nat → Nat → PhysM Int
  | a, pa, more => do
    let pte ← walk pagetable a true
    if pte = 0 then pure (-1)
    else do
      let v ← load64 pte
      if v &&& pteV ≠ 0 then throw .mappagesRemap
      else do
        store64 pte (pa2pte pa ||| perm ||| pteV)
        match more with
        | 0 => pure 0
        | more + 1 => mapRounds pagetable perm (a + pgSize) ((pa + pgSize) % 2 ^ 64) more

/-- `mappages`. If the end of the range is not after its start then `a` would have to go
over the end of the `uint64` numbers to get there. -/
def mappages (pagetable va size pa perm : Nat) : PhysM Int :=
  if size = 0 then throw .mappagesSize
  else
    let a := pgRoundDown va
    let last := pgRoundDown ((va + size - 1) % 2 ^ 64)
    mapRounds pagetable perm a pa ((last + 2 ^ 64 - a) % 2 ^ 64 / pgSize)

/-! ## User memory -/

/-- The loop of `uvmunmap`. -/
def unmapRounds (pagetable : Nat) (doFree : Bool) (a : Nat) : Nat → PhysM Unit
  | 0 => pure ()
  | n + 1 => do
    let pte ← walk pagetable a false
    if pte = 0 then throw .uvmunmapWalk
    else do
      let v ← load64 pte
      if v &&& pteV = 0 then throw .uvmunmapNotMapped
      else if pteFlags v = pteV then throw .uvmunmapNotALeaf
      else do
        (if doFree then kfree (pte2pa v) else pure ())
        store64 pte 0
        unmapRounds pagetable doFree (a + pgSize) n

/-- `uvmunmap`. -/
def uvmunmap (pagetable va npages : Nat) (doFree : Bool) : PhysM Unit :=
  if va % pgSize ≠ 0 then throw .uvmunmapNotAligned
  else unmapRounds pagetable doFree va (((va + npages * pgSize) % 2 ^ 64 - va) / pgSize)

/-- `uvmcreate`. -/
def uvmcreate : PhysM Nat := do
  let pagetable ← kalloc
  if pagetable = 0 then pure 0
  else do
    memset pagetable 0 pgSize
    pure pagetable

/-- `uvmfirst`. Nothing checks that its `kalloc` or its `mappages` succeed. -/
def uvmfirst (pagetable : Nat) (src : List UInt8) : PhysM Unit :=
  if src.length ≥ pgSize then throw .uvmfirst
  else do
    let mem ← kalloc
    if mem = 0 then throw .kerneltrap
    else do
      memset mem 0 pgSize
      let _ ← mappages pagetable 0 pgSize mem (pteW ||| pteR ||| pteX ||| pteU)
      storeBytes mem src

/-- `uvmdealloc`. -/
def uvmdealloc (pagetable oldsz newsz : Nat) : PhysM Nat :=
  if newsz ≥ oldsz then pure oldsz
  else do
    (if pgRoundUp newsz < pgRoundUp oldsz then
      uvmunmap pagetable (pgRoundUp newsz)
        ((pgRoundUp oldsz - pgRoundUp newsz) / pgSize) true
    else pure ())
    pure newsz

/-- The loop of `uvmalloc`. It says whether every page was added; if one could
not be, the pages added before it are gone again. -/
def allocRounds (pagetable oldsz xperm a : Nat) : Nat → PhysM Bool
  | 0 => pure true
  | n + 1 => do
    let mem ← kalloc
    if mem = 0 then do
      let _ ← uvmdealloc pagetable a oldsz
      pure false
    else do
      memset mem 0 pgSize
      let r ← mappages pagetable a pgSize mem (pteR ||| pteU ||| xperm)
      if r ≠ 0 then do
        kfree mem
        let _ ← uvmdealloc pagetable a oldsz
        pure false
      else allocRounds pagetable oldsz xperm (a + pgSize) n

/-- `uvmalloc`. -/
def uvmalloc (pagetable oldsz newsz xperm : Nat) : PhysM Nat :=
  if newsz < oldsz then pure oldsz
  else do
    let oldsz := pgRoundUp oldsz
    let done ← allocRounds pagetable oldsz xperm oldsz ((newsz - oldsz + pgSize - 1) / pgSize)
    if done then pure newsz else pure 0

/-- The loop of `freewalk` over the entries from `i` on. -/
def freewalkRounds (freewalk : Nat → PhysM Unit) (pagetable i : Nat) : Nat → PhysM Unit
  | 0 => pure ()
  | n + 1 => do
    let pte ← load64 (pagetable + 8 * i)
    if pte &&& pteV ≠ 0 ∧ pte &&& (pteR ||| pteW ||| pteX) = 0 then do
      freewalk (pte2pa pte)
      store64 (pagetable + 8 * i) 0
      freewalkRounds freewalk pagetable (i + 1) n
    else if pte &&& pteV ≠ 0 then throw .freewalkLeaf
    else freewalkRounds freewalk pagetable (i + 1) n

/-- `freewalk`, with a bound on how deep it calls itself. -/
def freewalk : Nat → Nat → PhysM Unit
  | 0, _ => throw .freewalkDepth
  | depth + 1, pagetable => do
    freewalkRounds (freewalk depth) pagetable 0 512
    kfree pagetable

/-- `uvmfree`. -/
def uvmfree (pagetable sz : Nat) : PhysM Unit := do
  (if sz > 0 then uvmunmap pagetable 0 (pgRoundUp sz / pgSize) true else pure ())
  freewalk 3 pagetable

/-- The loop of `uvmcopy`. -/
def copyRounds (old new i : Nat) : Nat → PhysM Int
  | 0 => pure 0
  | n + 1 => do
    let pte ← walk old i false
    if pte = 0 then throw .uvmcopyPteShouldExist
    else do
      let v ← load64 pte
      if v &&& pteV = 0 then throw .uvmcopyPageNotPresent
      else do
        let mem ← kalloc
        if mem = 0 then do
          uvmunmap new 0 (i / pgSize) true
          pure (-1)
        else do
          memmove mem (pte2pa v) pgSize
          let r ← mappages new i pgSize mem (pteFlags v)
          if r ≠ 0 then do
            kfree mem
            uvmunmap new 0 (i / pgSize) true
            pure (-1)
          else copyRounds old new (i + pgSize) n

/-- `uvmcopy`. -/
def uvmcopy (old new sz : Nat) : PhysM Int := copyRounds old new 0 ((sz + pgSize - 1) / pgSize)

/-- `uvmclear`. -/
def uvmclear (pagetable va : Nat) : PhysM Unit := do
  let pte ← walk pagetable va false
  if pte = 0 then throw .uvmclear
  else do
    let v ← load64 pte
    store64 pte (v &&& (2 ^ 64 - 1 - pteU))

/-! ## Copies between kernel and user memory -/

/-- The loop of `copyout`. Every round stores at least one byte, so there are
no more rounds than bytes. -/
def copyoutRounds (pagetable : Nat) : Nat → Nat → List UInt8 → PhysM Int
  | 0, _, _ => pure 0
  | fuel + 1, dstva, src =>
    if src = [] then pure 0
    else do
      let va0 := pgRoundDown dstva
      let pa0 ← walkaddr pagetable va0
      if pa0 = 0 then pure (-1)
      else do
        let n := min (pgSize - (dstva - va0)) src.length
        storeBytes (pa0 + (dstva - va0)) (src.take n)
        copyoutRounds pagetable fuel ((va0 + pgSize) % 2 ^ 64) (src.drop n)

/-- `copyout`. -/
def copyout (pagetable dstva : Nat) (src : List UInt8) : PhysM Int :=
  copyoutRounds pagetable src.length dstva src

/-- The loop of `copyin`. The bytes copied so far are part of the result, also
when a page is missing. -/
def copyinRounds (pagetable : Nat) : Nat → Nat → Nat → PhysM (Int × List UInt8)
  | 0, _, _ => pure (0, [])
  | fuel + 1, srcva, len =>
    if len = 0 then pure (0, [])
    else do
      let va0 := pgRoundDown srcva
      let pa0 ← walkaddr pagetable va0
      if pa0 = 0 then pure (-1, [])
      else do
        let n := min (pgSize - (srcva - va0)) len
        let bs ← loadBytes (pa0 + (srcva - va0)) n
        let (r, rest) ← copyinRounds pagetable fuel ((va0 + pgSize) % 2 ^ 64) (len - n)
        pure (r, bs ++ rest)

/-- `copyin`. -/
def copyin (pagetable srcva len : Nat) : PhysM (Int × List UInt8) :=
  copyinRounds pagetable len srcva len

/-- The bytes up to and including the first NUL, and whether there is one. -/
def upToNul : List UInt8 → List UInt8 × Bool
  | [] => ([], false)
  | b :: bs => if b = 0 then ([0], true) else ((b :: (upToNul bs).1), (upToNul bs).2)

/-- The loop of `copyinstr`. -/
def copyinstrRounds (pagetable : Nat) : Nat → Nat → Nat → PhysM (Int × List UInt8)
  | 0, _, _ => pure (-1, [])
  | fuel + 1, srcva, max =>
    if max = 0 then pure (-1, [])
    else do
      let va0 := pgRoundDown srcva
      let pa0 ← walkaddr pagetable va0
      if pa0 = 0 then pure (-1, [])
      else do
        let n := min (pgSize - (srcva - va0)) max
        let bs ← loadBytes (pa0 + (srcva - va0)) n
        if (upToNul bs).2 then pure (0, (upToNul bs).1)
        else do
          let (r, rest) ← copyinstrRounds pagetable fuel ((va0 + pgSize) % 2 ^ 64) (max - n)
          pure (r, bs ++ rest)

/-- `copyinstr`: the bytes it stores, and whether they end in a NUL. -/
def copyinstr (pagetable srcva max : Nat) : PhysM (Int × List UInt8) :=
  copyinstrRounds pagetable max srcva max

/-! ## The page tables of `proc.c` -/

/-- `proc_pagetable`, given `p->trapframe`. -/
def procPagetable (trapframe : Nat) : PhysM Nat := do
  let pagetable ← uvmcreate
  if pagetable = 0 then pure 0
  else do
    let r ← mappages pagetable trampolineVa pgSize Layout.trampoline (pteR ||| pteX)
    if r < 0 then do
      uvmfree pagetable 0
      pure 0
    else do
      let r ← mappages pagetable trapframeVa pgSize trapframe (pteR ||| pteW)
      if r < 0 then do
        uvmunmap pagetable trampolineVa 1 false
        uvmfree pagetable 0
        pure 0
      else pure pagetable

/-- `proc_freepagetable`. -/
def procFreepagetable (pagetable sz : Nat) : PhysM Unit := do
  uvmunmap pagetable trampolineVa 1 false
  uvmunmap pagetable trapframeVa 1 false
  uvmfree pagetable sz

end Xv6.Mem
