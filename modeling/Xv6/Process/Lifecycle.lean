import Xv6.Lib.Run
import Xv6.Param

/-!
# The life of a process

`fork`, `exit`, `wait`, `reparent`, `sleep`, `wakeup` and `kill` of `kernel/proc.c` as
steps of processes that run at once. `wait_lock` is a field of the state. What runs
under a `p->lock` is one step, and the step waits while the lock is held over several
steps: by `fork` between `allocproc` and the release, by `sleep` after it has released
`wait_lock`, and by `exit` until the scheduler takes over.

Each process has a program counter. `trace` is not in the source: it records the exits,
and what the calls of `wait` return.
-/

namespace Xv6.ProcTable

open Lib

/-- `enum procstate`. -/
inductive State where
  | unused | used | sleeping | runnable | running | zombie
  deriving DecidableEq

/-- What a process sleeps on: a process, in `wait`, or something else. -/
inductive Chan where
  | proc (p : Nat)
  | other (n : Nat)
  deriving DecidableEq

/-- Where a process is. -/
inductive Pc where
  /-- In none of the calls below. -/
  | user
  /-- `allocproc` looks at slot `i`. -/
  | alloc (i : Nat)
  /-- `fork` has the slot `np` with its lock. -/
  | filled (np : Nat)
  /-- `fork` is before `acquire(&wait_lock)`. -/
  | publish (np : Nat)
  /-- `fork` has `wait_lock`. -/
  | published (np : Nat)
  /-- `fork` has set the parent of `np`. -/
  | ready (np : Nat)
  /-- `exit` is before `acquire(&wait_lock)`. -/
  | exit (status : Int)
  /-- The loop of `reparent`. -/
  | reparent (status : Int) (i : Nat)
  /-- `wakeup(initproc)` in round `i` of that loop. -/
  | wakeInit (status : Int) (i j : Nat)
  /-- `wakeup(p->parent)`. -/
  | wakeParent (status : Int) (j : Nat)
  /-- In `sched`, at the end of `exit`. -/
  | dead
  /-- `wait` is before `acquire(&wait_lock)`. -/
  | wait (addr : Nat)
  /-- The loop of `wait` over the table. -/
  | scan (addr i : Nat) (havekids : Bool)
  /-- `wait` calls `sleep`. -/
  | sleep (addr : Nat)
  /-- `sleep` has `p->lock` and has released `wait_lock`. -/
  | locked (addr : Nat)
  /-- In `sched`, in `sleep`. -/
  | asleep (addr : Nat)
  deriving DecidableEq

/-- A process can be interrupted there: it holds no spinlock. -/
def Pc.interruptible : Pc → Bool
  | .user | .alloc _ | .publish _ | .ready _ | .exit _ | .wait _ => true
  | _ => false

/-- It has `wait_lock` there. -/
def Pc.holdsWait : Pc → Bool
  | .published _ | .reparent _ _ | .wakeInit _ _ _ | .wakeParent _ _ | .scan _ _ _ | .sleep _ => true
  | _ => false

/-- The slot that `fork` fills. -/
def Pc.child : Pc → Option Nat
  | .filled np | .publish np | .published np | .ready np => some np
  | _ => none

/-- It sleeps there, or is about to. -/
def Pc.sleeps : Pc → Bool
  | .locked _ | .asleep _ => true
  | _ => false

/-- `struct proc`, as far as these calls read it. -/
structure Proc where
  state : State
  chan : Option Chan
  killed : Bool
  xstate : Int
  pid : Int
  parent : Option Nat
  /-- `p->lock` is held between steps. -/
  lock : Bool
  pc : Pc

/-- What happened. -/
inductive Event where
  /-- The process in the slot exits. -/
  | exited (c : Nat) (pid status : Int)
  /-- `wait` of process `q` frees the slot, returns the pid and stores the status. -/
  | reaped (q c : Nat) (pid status : Int)
  /-- `wait` returns -1. -/
  | failed (q : Nat)
  deriving DecidableEq

/-- The process table. -/
structure Table where
  proc : Nat → Proc
  waitLock : Option Nat
  nextpid : Int
  trace : List Event

/-- `initproc`: the first slot. -/
def initproc : Nat := 0

/-- A slot that nothing was allocated in. -/
def Proc.free : Proc where
  state := .unused
  chan := none
  killed := false
  xstate := 0
  pid := 0
  parent := none
  lock := false
  pc := .user

/-- After `userinit`. -/
def userinit : Table where
  proc := Function.update (fun _ => Proc.free) initproc { Proc.free with state := .runnable, pid := 1 }
  waitLock := none
  nextpid := 2
  trace := []

namespace Table

/-- Replace one slot. -/
def set (s : Table) (i : Nat) (x : Proc) : Table := { s with proc := Function.update s.proc i x }

/-- Process `p` goes on at `pc`. -/
def goto (s : Table) (p : Nat) (pc : Pc) : Table := s.set p { s.proc p with pc := pc }

/-- `acquire(&wait_lock)`. -/
def acquire (s : Table) (p : Nat) : Option Table :=
  if s.waitLock = none then some { s with waitLock := some p } else none

/-- `release(&wait_lock)`. -/
def release (s : Table) : Table := { s with waitLock := none }

/-- Add to the trace. -/
def emit (s : Table) (e : Event) : Table := { s with trace := s.trace ++ [e] }

/-- `freeproc`. -/
def freeproc (s : Table) (i : Nat) : Table := s.set i Proc.free

/-- The body of the loop of `wakeup(chan)`, called by `p`, for slot `j`. -/
def wakeup (s : Table) (p : Nat) (chan : Option Chan) (j : Nat) : Option Table :=
  if j = p then some s
  else if (s.proc j).lock then none
  else if (s.proc j).state = .sleeping ∧ (s.proc j).chan = chan then
    some (s.set j { s.proc j with state := .runnable })
  else some s

/-- Process `p` goes on. `ok` is what the memory allocations of `fork` and the `copyout`
of `wait` give. -/
def next (s : Table) (p : Nat) (ok : Bool) : Option Table :=
  match (s.proc p).pc with
  | .user => none
  | .alloc i =>
    if i < nproc then
      if (s.proc i).lock then none
      else if (s.proc i).state = .unused then
        let s := s.set i { s.proc i with state := .used, pid := s.nextpid, lock := true }
        some ({ s with nextpid := int (s.nextpid + 1) }.goto p (.filled i))
      else some (s.goto p (.alloc (i + 1)))
    else some (s.goto p .user)
  | .filled np =>
    if ok then some ((s.set np { s.proc np with lock := false }).goto p (.publish np))
    else some ((s.freeproc np).goto p .user)
  | .publish np => (s.acquire p).map fun s => s.goto p (.published np)
  | .published np => some ((s.set np { s.proc np with parent := some p }).release.goto p (.ready np))
  | .ready np =>
    if (s.proc np).lock then none
    else some ((s.set np { s.proc np with state := .runnable }).goto p .user)
  | .exit status => (s.acquire p).map fun s => s.goto p (.reparent status 0)
  | .reparent status i =>
    if i < nproc then
      if (s.proc i).parent = some p then
        some ((s.set i { s.proc i with parent := some initproc }).goto p (.wakeInit status i 0))
      else some (s.goto p (.reparent status (i + 1)))
    else some (s.goto p (.wakeParent status 0))
  | .wakeInit status i j =>
    if j < nproc then
      (s.wakeup p (some (.proc initproc)) j).map fun s => s.goto p (.wakeInit status i (j + 1))
    else some (s.goto p (.reparent status (i + 1)))
  | .wakeParent status j =>
    if j < nproc then
      (s.wakeup p ((s.proc p).parent.map .proc) j).map fun s => s.goto p (.wakeParent status (j + 1))
    else
      -- `p->lock` stays locked until the scheduler runs
      some ((s.set p { s.proc p with
        xstate := status, state := .zombie, lock := true, pc := .dead }).release.emit
        (.exited p (s.proc p).pid status))
  | .dead => none
  | .wait addr => (s.acquire p).map fun s => s.goto p (.scan addr 0 false)
  | .scan addr i havekids =>
    if i < nproc then
      if (s.proc i).parent = some p then
        if (s.proc i).lock then none
        else if (s.proc i).state = .zombie then
          if addr ≠ 0 ∧ ok = false then some ((s.release.emit (.failed p)).goto p .user)
          else
            let e := .reaped p i (s.proc i).pid (s.proc i).xstate
            some (((s.freeproc i).release.emit e).goto p .user)
        else some (s.goto p (.scan addr (i + 1) true))
      else some (s.goto p (.scan addr (i + 1) havekids))
    else if havekids = false ∨ (s.proc p).killed then
      some ((s.release.emit (.failed p)).goto p .user)
    else some (s.goto p (.sleep addr))
  | .sleep addr =>
    if (s.proc p).lock then none
    else some ((s.set p { s.proc p with lock := true }).release.goto p (.locked addr))
  | .locked addr =>
    some (s.set p { s.proc p with
      chan := some (.proc p), state := .sleeping, lock := false, pc := .asleep addr })
  | .asleep _ => none

/-- What happens in the system. -/
inductive Action where
  /-- The scheduler runs a process. -/
  | run (p : Nat)
  /-- The scheduler releases the lock of a process that has exited. -/
  | switch (p : Nat)
  | yield (p : Nat)
  /-- Another system call sleeps. -/
  | sleep (p n : Nat)
  /-- Somebody wakes what sleeps on `n`. -/
  | wakeup (p n j : Nat)
  | kill (p i : Nat)
  | fork (p : Nat)
  | exit (p : Nat) (status : Int)
  | wait (p addr : Nat)
  | next (p : Nat) (ok : Bool)

/-- The process runs, in none of the calls. -/
def InUser (s : Table) (p : Nat) : Prop := (s.proc p).state = .running ∧ (s.proc p).pc = .user

instance (s : Table) (p : Nat) : Decidable (s.InUser p) := inferInstanceAs (Decidable (_ ∧ _))

/-- The scheduler switches to the process. If that is in `sleep`, `wait` starts its loop
again. -/
def resume (s : Table) (p : Nat) : Table :=
  let x := { s.proc p with state := .running, chan := none }
  match (s.proc p).pc with
  | .asleep addr => s.set p { x with pc := .wait addr }
  | _ => s.set p x

/-- One step, if it is possible. -/
def step (s : Table) : Action → Option Table
  | .run p =>
    if (s.proc p).state = .runnable ∧ (s.proc p).lock = false then some (s.resume p) else none
  | .switch p =>
    if (s.proc p).pc = .dead then some (s.set p { s.proc p with lock := false }) else none
  | .yield p =>
    if (s.proc p).state = .running ∧ (s.proc p).pc.interruptible ∧ (s.proc p).lock = false then
      some (s.set p { s.proc p with state := .runnable })
    else none
  | .sleep p n =>
    if s.InUser p ∧ (s.proc p).lock = false then
      some (s.set p { s.proc p with state := .sleeping, chan := some (.other n) })
    else none
  | .wakeup p n j => s.wakeup p (some (.other n)) j
  | .kill p i =>
    if s.InUser p ∧ (s.proc i).lock = false then
      let state := if (s.proc i).state = .sleeping then .runnable else (s.proc i).state
      some (s.set i { s.proc i with killed := true, state := state })
    else none
  | .fork p => if s.InUser p then some (s.goto p (.alloc 0)) else none
  | .exit p status =>
    -- init may not exit
    if s.InUser p ∧ p ≠ initproc then some (s.goto p (.exit status)) else none
  | .wait p addr => if s.InUser p then some (s.goto p (.wait addr)) else none
  | .next p ok => if (s.proc p).state = .running then s.next p ok else none

end Table

end Xv6.ProcTable
