import Xv6.Lib.Ring
import Xv6.Lib.Run

/-!
# The driver of the disk

`kernel/virtio_disk.c` after its initialisation, and the device. A request is a chain of three
descriptors. The driver puts the head of the chain in the `avail` ring. The device takes it
from there, and when it is done it puts the head in the `used` ring.

`virtio_disk_rw` and `virtio_disk_intr` run under `vdisk_lock`, and the device at any time.
`virtio_disk_rw` has the lock between the descriptors being filled in and the device being told
of them, and `virtio_disk_intr` has it from one entry of the `used` ring to the next. A call
that sleeps may wake up for no reason. The caller of `virtio_disk_rw` holds the sleep-lock of
the buffer, so there is one call for a buffer at a time.
-/

namespace Xv6.Virtio

open Function Lib

/-- `NUM`: how many descriptors there are. -/
def num : Nat := 8

/-- The rings have `NUM` places, and their indices are `uint16`. -/
def ring : RingShape where
  size := num
  modulus := 2 ^ 16
  size_pos := by decide
  size_lt := by decide
  size_dvd := by decide

/-- `VRING_DESC_F_NEXT`. -/
def descNext : Nat := 1

/-- `VRING_DESC_F_WRITE`. -/
def descWrite : Nat := 2

/-- `VIRTIO_BLK_T_IN`. -/
def blkIn : Nat := 0

/-- `VIRTIO_BLK_T_OUT`. -/
def blkOut : Nat := 1

/-- What the address in a descriptor points to. -/
inductive Ptr where
  | null
  /-- `disk.ops[i]` -/
  | op (i : Nat)
  /-- `b->data` -/
  | data (b : Nat)
  /-- `disk.info[i].status` -/
  | status (i : Nat)
  deriving DecidableEq

/-- `struct virtq_desc`. -/
structure Desc where
  addr : Ptr
  len : Nat
  flags : Nat
  next : Nat
  deriving DecidableEq

def Desc.zero : Desc := ⟨.null, 0, 0, 0⟩

/-- `struct virtio_blk_req`. -/
structure BlkReq where
  type : Nat
  reserved : Nat
  sector : Nat
  deriving DecidableEq

/-- An element of `disk.info`. -/
structure Info where
  b : Option Nat
  status : Nat
  deriving DecidableEq

/-- The arguments of `virtio_disk_rw`. -/
structure Req where
  b : Nat
  blockno : Nat
  write : Bool
  deriving DecidableEq

/-- `int idx[3]`. -/
structure Chain where
  idx0 : Nat
  idx1 : Nat
  idx2 : Nat
  deriving DecidableEq

/-- Where a process is in `virtio_disk_rw`. -/
inductive Pc where
  | idle
  /-- Asleep on `&disk.free[0]`. -/
  | blocked (r : Req)
  /-- The descriptors are filled in, and the device does not know yet. -/
  | formatted (r : Req) (c : Chain)
  /-- In the loop that waits for `b->disk`. -/
  | waiting (r : Req) (c : Chain)
  deriving DecidableEq

/-- Who has `vdisk_lock`. -/
inductive Holder where
  | proc (p : Nat)
  | intr
  deriving DecidableEq

inductive Panic where
  /-- `free_desc 1` -/
  | freeDesc1
  /-- `free_desc 2` -/
  | freeDesc2
  /-- The loop of `free_chain` does not end. -/
  | freeChain
  /-- `virtio_disk_intr status` -/
  | intrStatus
  /-- A null pointer is used. -/
  | kerneltrap
  deriving DecidableEq

/-- The driver, the device and the processes. -/
structure State where
  desc : Nat → Desc
  /-- The driver writes and the device reads. -/
  avail : RingBuf Nat
  /-- The device writes and the driver reads: `used_idx` counts what it has read. -/
  used : RingBuf Nat
  free : Nat → Bool
  info : Nat → Info
  ops : Nat → BlkReq
  lock : Option Holder
  /-- The heads of the chains that the device works on. -/
  inflight : List Nat
  /-- `b->disk` -/
  disk : Nat → Bool
  /-- Whether some process holds `b->lock`. -/
  taken : Nat → Bool
  pc : Nat → Pc
  panic : Option Panic

/-- After `virtio_disk_init`. -/
def init : State where
  desc := fun _ => .zero
  avail := ⟨fun _ => 0, 0, 0⟩
  used := ⟨fun _ => 0, 0, 0⟩
  free := fun _ => true
  info := fun _ => ⟨none, 0⟩
  ops := fun _ => ⟨0, 0, 0⟩
  lock := none
  inflight := []
  disk := fun _ => false
  taken := fun _ => false
  pc := fun _ => .idle
  panic := none

namespace State

/-- Process `p` goes on at `pc`. -/
def goto (s : State) (p : Nat) (pc : Pc) : State := { s with pc := update s.pc p pc }

def fail (s : State) (e : Panic) : State := { s with panic := some e }

/-! ## Descriptors -/

/-- `alloc_desc`. -/
def allocDesc (s : State) : Option Nat × State :=
  match (List.range num).find? s.free with
  | some i => (some i, { s with free := update s.free i false })
  | none => (none, s)

/-- `free_desc`. -/
def freeDesc (s : State) (i : Nat) : State :=
  if i ≥ num then s.fail .freeDesc1
  else if s.free i then s.fail .freeDesc2
  else { s with desc := update s.desc i .zero, free := update s.free i true }

/-- `free_chain`, with a bound on the number of rounds. -/
def freeChain : Nat → State → Nat → State
  | 0, s, _ => s.fail .freeChain
  | n + 1, s, i =>
    let d := s.desc i
    let s := s.freeDesc i
    if d.flags &&& descNext ≠ 0 then freeChain n s d.next else s

/-- `alloc3_desc`. -/
def alloc3Desc (s : State) : Option Chain × State :=
  match s.allocDesc with
  | (none, s) => (none, s)
  | (some idx0, s) =>
    match s.allocDesc with
    | (none, s) => (none, s.freeDesc idx0)
    | (some idx1, s) =>
      match s.allocDesc with
      | (none, s) => (none, (s.freeDesc idx0).freeDesc idx1)
      | (some idx2, s) => (some ⟨idx0, idx1, idx2⟩, s)

/-! ## `virtio_disk_rw` -/

/-- The three descriptors, `b->disk` and `disk.info`. -/
def format (s : State) (r : Req) (c : Chain) : State :=
  let buf0 : BlkReq := ⟨if r.write then blkOut else blkIn, 0, r.blockno * 2 % 2 ^ 32⟩
  let flags := (if r.write then 0 else descWrite) ||| descNext
  { s with
    ops := update s.ops c.idx0 buf0
    desc := update (update (update s.desc
      c.idx0 ⟨.op c.idx0, 16, descNext, c.idx1⟩)
      c.idx1 ⟨.data r.b, 1024, flags, c.idx2⟩)
      c.idx2 ⟨.status c.idx0, 1, descWrite, 0⟩
    disk := update s.disk r.b true
    info := update s.info c.idx0 ⟨some r.b, 0xff⟩ }

/-- The loop that allocates the descriptors: it goes on or it sleeps. -/
def start (s : State) (p : Nat) (r : Req) : State :=
  match s.alloc3Desc with
  | (none, s) => s.goto p (.blocked r)
  | (some c, s) => { s.format r c with lock := some (.proc p) }.goto p (.formatted r c)

/-- The end of `virtio_disk_rw`. -/
def finish (s : State) (p : Nat) (r : Req) (c : Chain) : State :=
  let s := { s with info := update s.info c.idx0 { s.info c.idx0 with b := none } }
  let s := freeChain num s c.idx0
  { s with taken := update s.taken r.b false }.goto p .idle

/-! ## The device -/

/-- The device is done with a chain: it stores the status and adds the chain to the `used`
ring. -/
def complete (s : State) (head : Nat) : State :=
  let data := (s.desc head).next
  let info := match (s.desc (s.desc data).next).addr with
    | .status i => update s.info i { s.info i with status := 0 }
    | _ => s.info
  { s with info := info, used := s.used.push ring head, inflight := s.inflight.erase head }

/-! ## `virtio_disk_intr` -/

/-- One round of the loop of `virtio_disk_intr`. -/
def handle (s : State) : State :=
  let id := s.used.front ring
  if (s.info id).status ≠ 0 then s.fail .intrStatus
  else
    match (s.info id).b with
    | none => s.fail .kerneltrap
    | some b => { s with disk := update s.disk b false, used := s.used.pop ring }

/-! ## Steps -/

/-- What happens. -/
inductive Action where
  /-- Process `p` calls `virtio_disk_rw`. -/
  | rw (p : Nat) (r : Req)
  /-- A process that had no descriptors tries again. -/
  | retry (p : Nat)
  /-- A process tells the device of its chain, and waits. -/
  | notify (p : Nat)
  /-- A process sees that its request has finished. -/
  | finish (p : Nat)
  /-- The device takes a chain from the `avail` ring. -/
  | fetch
  | complete (head : Nat)
  /-- `virtio_disk_intr` starts. -/
  | intr
  | handle
  /-- `virtio_disk_intr` ends. -/
  | leave

/-- One step, if it is possible. -/
def step (s : State) (a : Action) : Option State :=
  if s.panic ≠ none then none
  else
    match a with
    | .rw p r =>
      if s.pc p = .idle ∧ s.lock = none ∧ s.taken r.b = false then
        some ({ s with taken := update s.taken r.b true }.start p r)
      else none
    | .retry p =>
      match s.pc p with
      | .blocked r => if s.lock = none then some (s.start p r) else none
      | _ => none
    | .notify p =>
      match s.pc p with
      | .formatted r c => some ({ s with avail := s.avail.push ring c.idx0, lock := none }.goto p (.waiting r c))
      | _ => none
    | .finish p =>
      match s.pc p with
      | .waiting r c => if s.lock = none ∧ s.disk r.b = false then some (s.finish p r c) else none
      | _ => none
    | .fetch =>
      if s.avail.nread ≠ s.avail.nwrite then
        some { s with avail := s.avail.pop ring, inflight := s.inflight ++ [s.avail.front ring] }
      else none
    | .complete head => if head ∈ s.inflight then some (s.complete head) else none
    | .intr => if s.lock = none then some { s with lock := some .intr } else none
    | .handle => if s.lock = some .intr ∧ s.used.nread ≠ s.used.nwrite then some s.handle else none
    | .leave =>
      if s.lock = some .intr ∧ s.used.nread = s.used.nwrite then some { s with lock := none } else none

end State

end Xv6.Virtio
