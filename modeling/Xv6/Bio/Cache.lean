import Xv6.Log.Commit
import Xv6.Log.Protocol

/-!
# The buffer cache under the log

`kernel/bio.c` together with the part of `kernel/log.c` that pins buffers and
writes them back. The cache is an array of `NBUF` buffers and their order on
the list from `bcache.head`, most recently released first.

`bread` is two actions. `bget` runs under `bcache.lock`: it finds or recycles
a buffer, raises its reference count, and leaves the caller waiting for the
sleep-lock. `acquire` is the caller getting that lock, with the read from disk
if the buffer is not valid. Anything may happen between the two.

`none` stands for a panic (no
buffers left) or for a lock that will never be free.

The field `dirty` is not part of `struct buf`. It marks a buffer whose data
was changed since its last `log_write`, and no action reads it.
-/

namespace Xv6.Bio

open Log

lemma lawfulWaiting : LawfulBEq (Nat × Nat) := inferInstance

attribute [local instance] lawfulWaiting

/-- `struct buf`. -/
structure Buf where
  /-- Has data been read from disk? -/
  valid : Bool := false
  dev : Nat := 0
  blockno : Nat := 0
  refcnt : Nat := 0
  /-- The sleep-lock is held. -/
  locked : Bool := false
  data : Block := Block.zero
  /-- Changed since the last `log_write`. -/
  dirty : Bool := false

/-- The disk, the cache and the log. -/
structure Cache where
  disk : Disk
  /-- `bcache.buf`. -/
  buf : Nat → Buf := fun _ => {}
  /-- The list from `bcache.head.next` to `bcache.head.prev`. -/
  order : List Nat := (List.range nbuf).reverse
  /-- Callers of `bread(dev, b)` that have a buffer and not yet its lock. -/
  waiting : List (Nat × Nat) := []
  /-- `log.lh`. -/
  lh : List Nat := []
  /-- `log.outstanding`. -/
  outstanding : Int := 0

/-- The buffer caches block `b` of the root device. -/
def Buf.Holds (x : Buf) (b : Nat) : Prop := x.dev = rootDev ∧ x.blockno = b

instance (x : Buf) (b : Nat) : Decidable (x.Holds b) := inferInstanceAs (Decidable (_ ∧ _))

/-- Replace one buffer. -/
def Cache.set (s : Cache) (i : Nat) (x : Buf) : Cache :=
  { s with buf := Function.update s.buf i x }

/-! ## `bio.c` -/

/-- `bget`: the cached buffer of a block, or the least recently used one that
nobody refers to. -/
def Cache.bget (s : Cache) (b : Nat) : Option (Nat × Cache) :=
  match s.order.find? fun i => (s.buf i).Holds b with
  | some i =>
    some (i, { s.set i { s.buf i with refcnt := (s.buf i).refcnt + 1 } with
               waiting := (i, b) :: s.waiting })
  | none => match s.order.reverse.find? fun i => (s.buf i).refcnt = 0 with
    | some i =>
      some (i, { s.set i { s.buf i with dev := rootDev, blockno := b, valid := false,
                                        refcnt := 1 } with
                 waiting := (i, b) :: s.waiting })
    | none => none

/-- `acquiresleep` at the end of `bget`, and the rest of `bread`. -/
def Cache.acquire (s : Cache) (i b : Nat) : Option Cache :=
  if (i, b) ∈ s.waiting ∧ (s.buf i).locked = false then
    let x := s.buf i
    some { s.set i { x with locked := true, valid := true,
                            data := if x.valid then x.data else s.disk x.blockno } with
           waiting := s.waiting.erase (i, b) }
  else none

/-- `bread` by a caller that nobody overtakes. -/
def Cache.bread (s : Cache) (b : Nat) : Option (Nat × Cache) :=
  (s.bget b).bind fun r => (r.2.acquire r.1 b).map fun s' => (r.1, s')

/-- `bwrite`: the data goes to disk. -/
def Cache.bwrite (s : Cache) (i : Nat) : Cache :=
  { s with disk := Function.update s.disk (s.buf i).blockno (s.buf i).data }

/-- `brelse`: a buffer that nobody refers to any more goes to the head of the
list. -/
def Cache.brelse (s : Cache) (i : Nat) : Cache :=
  let x := s.buf i
  let s' := s.set i { x with locked := false, refcnt := x.refcnt - 1 }
  if x.refcnt - 1 = 0 then { s' with order := i :: s.order.erase i } else s'

/-- `bpin`. -/
def Cache.bpin (s : Cache) (i : Nat) : Cache :=
  s.set i { s.buf i with refcnt := (s.buf i).refcnt + 1 }

/-- `bunpin`. -/
def Cache.bunpin (s : Cache) (i : Nat) : Cache :=
  s.set i { s.buf i with refcnt := (s.buf i).refcnt - 1 }

/-- The holder of a buffer changes its data in place. -/
def Cache.modify (s : Cache) (i : Nat) (v : Block) : Cache :=
  s.set i { s.buf i with data := v, dirty := true }

/-! ## `log.c` -/

/-- One round of `write_log`. -/
def writeLogRound (L : LogArea) (s : Cache) (tail : Nat) : Option Cache := do
  let (tbuf, s) ← s.bread (L.start + tail + 1)
  let (fbuf, s) ← s.bread (s.lh.getD tail 0)
  let s := s.set tbuf { s.buf tbuf with data := (s.buf fbuf).data }
  let s := s.bwrite tbuf
  return (s.brelse fbuf).brelse tbuf

/-- `write_log`. -/
def Cache.writeLog (L : LogArea) (s : Cache) : Option Cache :=
  (List.range s.lh.length).foldlM (writeLogRound L) s

/-- `write_head`. -/
def Cache.writeHead (L : LogArea) (s : Cache) : Option Cache := do
  let (i, s) ← s.bread L.start
  let s := s.set i { s.buf i with data := Log.writeHead (s.buf i).data s.lh }
  return (s.bwrite i).brelse i

/-- One round of `install_trans(0)`. -/
def installRound (L : LogArea) (s : Cache) (tail : Nat) : Option Cache := do
  let (lbuf, s) ← s.bread (L.start + tail + 1)
  let (dbuf, s) ← s.bread (s.lh.getD tail 0)
  let s := s.set dbuf { s.buf dbuf with data := (s.buf lbuf).data }
  let s := (s.bwrite dbuf).bunpin dbuf
  return (s.brelse lbuf).brelse dbuf

/-- `install_trans(0)`. -/
def Cache.installTrans (L : LogArea) (s : Cache) : Option Cache :=
  (List.range s.lh.length).foldlM (installRound L) s

/-- `commit()`. -/
def Cache.commit (L : LogArea) (s : Cache) : Option Cache :=
  if s.lh.length > 0 then do
    let s ← s.writeLog L
    let s ← s.writeHead L
    let s ← s.installTrans L
    let s := { s with lh := [] }
    s.writeHead L
  else some s

/-- `log_write` of a held buffer. `none` is one of its two panics. -/
def Cache.logWrite (L : LogArea) (s : Cache) (i : Nat) : Option Cache :=
  if s.lh.length ≥ logSize ∨ (s.lh.length : Int) ≥ L.size - 1 then none
  else if s.outstanding < 1 then none
  else
    let b := (s.buf i).blockno
    let s' := if b ∈ s.lh then s else s.bpin i
    some { s'.set i { s'.buf i with dirty := false } with lh := absorb s.lh b }

/-- What a caller can do. -/
inductive Act where
  /-- `begin_op()`. -/
  | beginOp
  /-- `end_op()`, with the commit if it is the last. -/
  | endOp
  /-- The first half of `bread(dev, b)`. -/
  | bget (b : Nat)
  /-- The second half, for a caller that was given buffer `i`. -/
  | acquire (i b : Nat)
  /-- Change the data of a held buffer. -/
  | modify (i : Nat) (v : Block)
  | logWrite (i : Nat)
  | brelse (i : Nat)

/-- One action of the code. Only the holder of a buffer touches it. -/
def Cache.step (L : LogArea) (s : Cache) : Act → Option Cache
  | .beginOp =>
    if (s.lh.length : Int) + (s.outstanding + 1) * maxOpBlocks > logSize then some s
    else some { s with outstanding := s.outstanding + 1 }
  | .endOp =>
    if s.outstanding < 1 then none
    else if s.outstanding - 1 = 0 then
      ({ s with outstanding := s.outstanding - 1 }).commit L
    else some { s with outstanding := s.outstanding - 1 }
  | .bget b => (s.bget b).map Prod.snd
  | .acquire i b => s.acquire i b
  | .modify i v => if (s.buf i).locked then some (s.modify i v) else none
  | .logWrite i => if (s.buf i).locked then s.logWrite L i else none
  | .brelse i => if (s.buf i).locked then some (s.brelse i) else none

end Xv6.Bio
