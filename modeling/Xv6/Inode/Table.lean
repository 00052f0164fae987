import Xv6.Lib.Run
import Xv6.Lib.Count
import Xv6.Param

/-!
# The inode table

`iget`, `idup`, `ilock`, `iunlock`, `iput`, `ialloc` and `iupdate` of `kernel/fs.c` as
steps of processes that run at once. What runs under `itable.lock` is one step, and so is
what runs under the lock of the buffer of an inode block. The sleep-lock of an entry is a
field, and a step that needs it waits.

`iput` frees an inode in steps of its own: it takes the sleep-lock while it has
`itable.lock`, truncates, writes type 0, clears `valid` and releases the sleep-lock, and
only then drops its reference. In between `ialloc` may find the inode free, and `iget` may
find the entry.

`refs`, `owners` and `fresh` are not in the source. They say who has which reference,
which calls of `ialloc` returned an inode since it was last free, and which process has got
an inode from `ialloc` and has not used it yet.
-/

namespace Xv6.Inode

open Function Lib

/-- `NINODE`: how many inodes may be in use at once. -/
def ninode : Nat := 50

/-- A device and an inode number. -/
abbrev Key := Nat × Nat

/-- `struct dinode`. -/
structure Dinode where
  type : Nat
  major : Nat
  minor : Nat
  nlink : Nat
  size : Nat
  addrs : List Nat
  deriving DecidableEq

/-- What `ialloc` writes: zeros, but for the type. -/
def Dinode.fresh (type : Nat) : Dinode where
  type := type
  major := 0
  minor := 0
  nlink := 0
  size := 0
  addrs := List.replicate 13 0

/-- `struct inode`. -/
structure Entry where
  key : Key
  ref : Nat
  valid : Bool
  /-- The holder of the sleep-lock. -/
  lock : Option Nat
  /-- The copy of the inode. -/
  copy : Dinode

/-- Where a process is. -/
inductive Pc where
  /-- In none of the calls below. -/
  | idle
  /-- `ialloc` looks at an inode. -/
  | scan (type dev inum : Nat)
  /-- `ialloc` has marked the inode and is before `iget`. -/
  | marked (type : Nat) (k : Key)
  /-- In `acquiresleep` of `ilock`. -/
  | acquire (e : Nat)
  /-- `ilock` has the lock, and reads the inode. -/
  | read (e : Nat)
  /-- `iput` is before `acquire(&itable.lock)`. -/
  | put (e : Nat)
  /-- `iput` has the sleep-lock, before `itrunc`. -/
  | trunc (e : Nat)
  /-- `iput` is after `itrunc`. -/
  | clear (e : Nat)
  /-- `iput` has written type 0. -/
  | cleared (e : Nat)
  /-- `iput` has released the sleep-lock. -/
  | drop (e : Nat)
  deriving DecidableEq

/-- `itable`, the inodes on the disk, and the processes. -/
structure Itable where
  /-- `sb.ninodes`. -/
  ninodes : Nat
  disk : Key → Dinode
  entry : Nat → Entry
  pc : Nat → Pc
  /-- A process and an entry that it has a reference to. -/
  refs : List (Nat × Nat)
  owners : Key → List Nat
  fresh : Nat → Option (Nat × Nat)

/-- The table is empty, whatever is on the disk. -/
def start (ninodes : Nat) (disk : Key → Dinode) : Itable where
  ninodes := ninodes
  disk := disk
  entry := fun _ => { key := (0, 0), ref := 0, valid := false, lock := none, copy := Dinode.fresh 0 }
  pc := fun _ => .idle
  refs := []
  owners := fun _ => []
  fresh := fun _ => none

namespace Itable

/-- Replace one entry. -/
def set (s : Itable) (e : Nat) (x : Entry) : Itable := { s with entry := update s.entry e x }

/-- Process `p` goes on at `pc`. -/
def goto (s : Itable) (p : Nat) (pc : Pc) : Itable := { s with pc := update s.pc p pc }

/-- Write an inode to the disk. -/
def write (s : Itable) (k : Key) (d : Dinode) : Itable := { s with disk := update s.disk k d }

/-- Process `p` uses entry `e`, which `ialloc` may have given it. -/
def use (s : Itable) (p e : Nat) : Itable :=
  { s with fresh := update s.fresh p ((s.fresh p).filter fun x => x.1 ≠ e) }

/-- The first loop of `iget`: the entry of the inode. -/
def find (s : Itable) (k : Key) : Option Nat :=
  (List.range ninode).find? fun e => 0 < (s.entry e).ref ∧ (s.entry e).key = k

/-- `empty` in `iget`: the first entry that is not in use. -/
def empty (s : Itable) : Option Nat := (List.range ninode).find? fun e => (s.entry e).ref = 0

/-- `iget`, called by `p`, and the entry. `none` is its panic. -/
def iget (s : Itable) (p : Nat) (k : Key) : Option (Itable × Nat) :=
  match s.find k with
  | some e =>
    some ({ s.set e { s.entry e with ref := (s.entry e).ref + 1 } with refs := (p, e) :: s.refs }, e)
  | none => match s.empty with
    | some e =>
      some ({ s.set e { s.entry e with key := k, ref := 1, valid := false } with
              refs := (p, e) :: s.refs }, e)
    | none => none

/-- `ip->ref--` at the end of `iput`. -/
def unref (s : Itable) (p e : Nat) : Itable :=
  { s.set e { s.entry e with ref := (s.entry e).ref - 1 } with refs := s.refs.erase (p, e) }

/-- Nobody has got the inode from `ialloc`: it is free. -/
def disown (s : Itable) (k : Key) : Itable := { s with owners := update s.owners k [] }

/-- `iupdate`, after the copy has become `d`. -/
def iupdate (s : Itable) (e : Nat) (d : Dinode) : Itable :=
  (s.set e { s.entry e with copy := d }).write (s.entry e).key d

/-- `ialloc` returns entry `e` to `p`. -/
def give (s : Itable) (p e type : Nat) (k : Key) : Itable :=
  { s with
    owners := update s.owners k (s.owners k ++ [p])
    fresh := update s.fresh p (some (e, type)) }

/-- Process `p` goes on in its call. -/
def next (s : Itable) (p : Nat) : Option Itable :=
  match s.pc p with
  | .idle => none
  | .scan type dev inum =>
    if inum < s.ninodes then
      if (s.disk (dev, inum)).type = 0 then
        some ((s.write (dev, inum) (Dinode.fresh type)).goto p (.marked type (dev, inum)))
      else some (s.goto p (.scan type dev (inum + 1)))
    else some (s.goto p .idle)
  | .marked type k =>
    (s.iget p k).map fun (s, e) => (s.goto p .idle).give p e type k
  | .acquire e =>
    if (s.entry e).lock = none then
      let s := s.set e { s.entry e with lock := some p }
      some (s.goto p (if (s.entry e).valid then .idle else .read e))
    else none
  | .read e =>
    let d := s.disk (s.entry e).key
    -- panic("ilock: no type")
    if d.type = 0 then none
    else some ((s.set e { s.entry e with copy := d, valid := true }).goto p .idle)
  | .put e =>
    let x := s.entry e
    if x.ref = 1 ∧ x.valid ∧ x.copy.nlink = 0 then
      -- with `itable.lock` held, so this should not wait
      if x.lock = none then some ((s.set e { x with lock := some p }).goto p (.trunc e)) else none
    else some ((s.unref p e).goto p .idle)
  | .trunc e =>
    some ((s.iupdate e { (s.entry e).copy with size := 0, addrs := List.replicate 13 0 }).goto p (.clear e))
  | .clear e =>
    let k := (s.entry e).key
    some (((s.iupdate e { (s.entry e).copy with type := 0 }).disown k).goto p (.cleared e))
  | .cleared e =>
    some ((s.set e { s.entry e with valid := false, lock := none }).goto p (.drop e))
  | .drop e => some ((s.unref p e).goto p .idle)

/-- What processes do. -/
inductive Action where
  | iget (p : Nat) (k : Key)
  /-- Process `p` gives `q` a reference. -/
  | idup (p q e : Nat)
  | ilock (p e : Nat)
  | iunlock (p e : Nat)
  /-- The holder of the lock changes the inode, but not its type, and calls `iupdate`. -/
  | update (p e : Nat) (d : Dinode)
  | iput (p e : Nat)
  | ialloc (p type dev : Nat)
  | next (p : Nat)

/-- One step, if it is possible. A call of `iget` from outside needs `may`. -/
def step (may : Itable → Key → Bool) (s : Itable) : Action → Option Itable
  | .iget p k => if s.pc p = .idle ∧ may s k then (s.iget p k).map Prod.fst else none
  | .idup p q e =>
    if s.pc p = .idle ∧ (p, e) ∈ s.refs then
      some { (s.use p e).set e { s.entry e with ref := (s.entry e).ref + 1 } with
             refs := (q, e) :: s.refs }
    else none
  | .ilock p e =>
    if s.pc p = .idle ∧ (p, e) ∈ s.refs ∧ (s.entry e).lock ≠ some p then
      some (s.goto p (.acquire e))
    else none
  | .iunlock p e =>
    if s.pc p = .idle ∧ (s.entry e).lock = some p then
      some ((s.use p e).set e { s.entry e with lock := none })
    else none
  | .update p e d =>
    if s.pc p = .idle ∧ (s.entry e).lock = some p ∧ (s.entry e).valid ∧
        d.type = (s.entry e).copy.type then
      some ((s.use p e).iupdate e d)
    else none
  | .iput p e =>
    if s.pc p = .idle ∧ (p, e) ∈ s.refs ∧ (s.entry e).lock ≠ some p then
      some ((s.use p e).goto p (.put e))
    else none
  | .ialloc p type dev =>
    if s.pc p = .idle ∧ type ≠ 0 then some (s.goto p (.scan type dev 1)) else none
  | .next p => s.next p

/-- The inode number is not free. -/
def allocated (s : Itable) (k : Key) : Bool := (s.disk k).type ≠ 0

/-- The inode has a link. -/
def linked (s : Itable) (k : Key) : Bool := (s.disk k).type ≠ 0 ∧ (s.disk k).nlink ≠ 0

end Itable

end Xv6.Inode
