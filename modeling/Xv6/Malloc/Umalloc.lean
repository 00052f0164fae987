import Xv6.Lib.Run

/-!
# The allocator of user programs

`user/umalloc.c`. Memory is handed out in units of one `Header`, 16 bytes. A block
starts with its header; a free block has in it the pointer to the next free block, in
a circle that starts at the static header `base`.

The memory here is the header at every address that has one, and a pointer is an
address. Sizes are `uint`. The system's side of `sbrk` is `top`, the end of the
regions handed out so far, and `limit`, how many units it has for this process. An
answer of `sbrk` is the gap it leaves below the new region, or a failure.

The loops take a bound on their rounds.
-/

namespace Xv6.Malloc

/-- `Header`. -/
structure Header where
  ptr : Nat
  size : Nat
  deriving DecidableEq, Repr

/-- `sizeof(Header)` -/
def headerSize : Nat := 16

/-- The allocator's variables and what the system has given it. -/
structure Heap where
  /-- `&base` -/
  base : Nat
  freep : Option Nat
  mem : Nat → Header
  /-- the end of the regions that `sbrk` has returned -/
  top : Nat
  /-- how many units `sbrk` can give altogether -/
  limit : Nat
  /-- the regions, by address and units, the last one first -/
  regions : List (Nat × Nat)

namespace Heap

/-- `p->s.ptr` -/
def ptr (h : Heap) (p : Nat) : Nat := (h.mem p).ptr

/-- `p->s.size` -/
def size (h : Heap) (p : Nat) : Nat := (h.mem p).size

def setPtr (h : Heap) (p q : Nat) : Heap :=
  { h with mem := Function.update h.mem p { h.mem p with ptr := q } }

def setSize (h : Heap) (p n : Nat) : Heap :=
  { h with mem := Function.update h.mem p { h.mem p with size := n % 2 ^ 32 } }

/-- `p + n` for a header pointer. -/
def skip (p n : Nat) : Nat := p + headerSize * n

/-- How many units the regions have. -/
def units (h : Heap) : Nat := (h.regions.map Prod.snd).sum

/-- A bound on the nodes of the circle: `base`, and one free block a unit. -/
def rounds (h : Heap) : Nat := h.units + 1

/-! ## `free` -/

/-- The `for` loop of `free`: the node behind which the block belongs. -/
def freeLoop (h : Heap) (bp : Nat) : Nat → Nat → Option Nat
  | 0, _ => none
  | k + 1, p =>
    if bp > p ∧ bp < h.ptr p then some p
    else if p ≥ h.ptr p ∧ (bp > p ∨ bp < h.ptr p) then some p
    else freeLoop h bp k (h.ptr p)

/-- Join the block with the one behind it. -/
def joinNext (h : Heap) (bp p : Nat) : Heap :=
  if skip bp (h.size bp) = h.ptr p then
    (h.setSize bp (h.size bp + h.size (h.ptr p))).setPtr bp (h.ptr (h.ptr p))
  else h.setPtr bp (h.ptr p)

/-- Join the block with the one before it. -/
def joinPrev (h : Heap) (bp p : Nat) : Heap :=
  if skip p (h.size p) = bp then (h.setSize p (h.size p + h.size bp)).setPtr p (h.ptr bp)
  else h.setPtr p bp

/-- `free((void*)(bp + 1))` -/
def free (h : Heap) (bp : Nat) : Option Heap := do
  let freep ← h.freep
  let p ← h.freeLoop bp h.rounds freep
  pure { (h.joinNext bp p).joinPrev bp p with freep := some p }

/-! ## `malloc` -/

/-- The region of `nu` units that starts `gap` bytes above the last one. -/
def grow (h : Heap) (gap nu : Nat) : Heap :=
  { h with
    top := skip (h.top + gap) nu
    regions := (h.top + gap, nu) :: h.regions }

/-- `sbrk(nu * sizeof(Header))`: the new region, if there is one. -/
def sbrk (h : Heap) (nu : Nat) : Option Nat → Option (Nat × Heap)
  | none => none
  | some gap =>
    if h.units + nu ≤ h.limit then some (h.top + gap, h.grow gap nu) else none

/-- `morecore`, with the answer of its `sbrk`. The outer `none` is a loop that did not
end, the inner one the null pointer. -/
def morecore (h : Heap) (nu : Nat) (answer : Option Nat) : Option (Heap × Option Nat) :=
  let nu := if nu < 4096 then 4096 else nu
  match h.sbrk nu answer with
  | none => some (h, none)
  | some (hp, h) => do
    let h ← (h.setSize hp nu).free hp
    pure (h, h.freep)

/-- What `malloc` does with a block that is large enough. -/
def take (h : Heap) (nunits prevp p : Nat) : Heap × Nat :=
  if h.size p = nunits then ({ h.setPtr prevp (h.ptr p) with freep := some prevp }, p)
  else
    let h := h.setSize p (h.size p - nunits)
    let p := skip p (h.size p)
    ({ h.setSize p nunits with freep := some prevp }, p)

/-- The `for` loop of `malloc`, with the answers of `sbrk`: the header of the block. -/
def mallocLoop (nunits : Nat) :
    Nat → Heap → List (Option Nat) → Nat → Nat → Option (Heap × Option Nat)
  | 0, _, _, _, _ => none
  | k + 1, h, answers, prevp, p =>
    if h.size p ≥ nunits then
      let (h, p) := h.take nunits prevp p
      some (h, some p)
    else if h.freep = some p then
      match h.morecore nunits answers.head?.join with
      | none => none
      | some (h, none) => some (h, none)
      | some (h, some p) => mallocLoop nunits k h answers.tail p (h.ptr p)
    else mallocLoop nunits k h answers p (h.ptr p)

/-- `nunits` -/
def nunits (nbytes : Nat) : Nat := (nbytes + headerSize - 1) / headerSize + 1

/-- `malloc`, with the answers of `sbrk`. It returns the header of the block, one unit
below the pointer that the program gets. -/
def malloc (h : Heap) (nbytes : Nat) (answers : List (Option Nat)) : Option (Heap × Option Nat) :=
  match h.freep with
  | none =>
    let h := { (h.setPtr h.base h.base).setSize h.base 0 with freep := some h.base }
    mallocLoop (nunits nbytes) (2 * h.rounds + 2) h answers h.base (h.ptr h.base)
  | some prevp => mallocLoop (nunits nbytes) (2 * h.rounds + 2) h answers prevp (h.ptr prevp)

end Heap

/-! ## A program that uses it -/

/-- The heap and the blocks that the program has, by header and by the number of bytes
that it asked for. -/
structure State where
  heap : Heap
  live : List (Nat × Nat)

inductive Op where
  | malloc (nbytes : Nat) (answers : List (Option Nat))
  /-- free the block with this header -/
  | free (bp : Nat)

/-- The request in bytes fits in an `int`. -/
def Small (nbytes : Nat) : Prop := Heap.nunits nbytes * headerSize < 2 ^ 31

instance (nbytes : Nat) : Decidable (Small nbytes) := inferInstanceAs (Decidable (_ < _))

def step (s : State) : Op → Option State
  | .malloc nbytes answers =>
    if Small nbytes then
      match s.heap.malloc nbytes answers with
      | none => none
      | some (h, none) => some { s with heap := h }
      | some (h, some p) => some { heap := h, live := (p, nbytes) :: s.live }
    else none
  | .free bp =>
    match s.live.find? fun b => b.1 = bp with
    | none => none
    | some b =>
      match s.heap.free bp with
      | none => none
      | some h => some { heap := h, live := s.live.erase b }

/-- Before the first call: `base` is below the heap, whose first address is `top`. -/
def init (base top limit : Nat) : State where
  heap :=
    { base := base
      freep := none
      mem := fun _ => ⟨0, 0⟩
      top := top
      limit := limit
      regions := [] }
  live := []

end Xv6.Malloc
