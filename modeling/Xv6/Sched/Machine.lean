import Xv6.Process.Lifecycle

/-!
# CPUs and the processes they run

`scheduler`, `sched`, `yield`, `forkret`, `sleep`, `wakeup` and `kill` of `kernel/proc.c` on any
number of CPUs. A CPU is in its scheduler loop or in the kernel thread of a process, and `swtch`
takes it from one to the other. `swtch` stores the registers before it loads the others, so the
CPU is still on the old stack when the context can already be read.

`p->lock` is held over several steps where `swtch` hands it over: the scheduler acquires it and the
thread releases it, and the other way round. What else runs under it is one step, which waits
for the lock to be free. A thread that is not in `sched` may make any call at any time, and a CPU
may take an interrupt whose handler calls `wakeup`.
-/

namespace Xv6.Sched

open Function Lib ProcTable

/-- Where a thread goes on when its context is loaded: the return address in `p->context`. -/
inductive Resume where
  | forkret
  | yield
  | sleep
  | exit
  deriving DecidableEq

/-- `struct proc`, as far as these functions read it. -/
structure Proc where
  state : State
  /-- What the process sleeps on. -/
  chan : Option Nat
  killed : Bool
  /-- The CPU that holds `p->lock`. -/
  lock : Option Nat
  context : Resume
  /-- `np` in `fork`: the slot that the thread has allocated and not made `RUNNABLE`. -/
  np : Option Nat
  deriving DecidableEq

/-- Where a CPU is. -/
inductive Pc where
  /-- The scheduler is before `acquire(&p->lock)` of slot `i`. -/
  | scan (i : Nat)
  /-- The scheduler has set `p->state` and `c->proc`, and calls `swtch`. -/
  | chosen (i : Nat)
  /-- In the thread, after `swtch`, with the lock that the scheduler acquired. -/
  | enter (i : Nat)
  /-- In the thread, without `p->lock`. -/
  | run (i : Nat)
  /-- The thread has acquired `p->lock`. -/
  | hold (i : Nat)
  /-- The thread has set `p->state`, and calls `sched`. -/
  | leave (i : Nat) (k : Resume)
  /-- In `swtch`: the context is stored, and the stack is still that of the thread. -/
  | saved (i : Nat)
  /-- The scheduler is after `swtch`. -/
  | back (i : Nat)
  deriving DecidableEq

/-- `struct cpu`, and where it is. -/
structure Cpu where
  proc : Option Nat
  pc : Pc
  deriving DecidableEq

inductive Panic where
  /-- `zombie exit` -/
  | zombieExit
  /-- `sched p->lock` -/
  | schedLock
  /-- `sched running` -/
  | schedRunning
  /-- `myproc()` is not the process whose thread runs. -/
  | myproc
  deriving DecidableEq

structure Machine where
  proc : Nat → Proc
  cpu : Nat → Cpu
  panic : Option Panic

/-- A slot that was never used. -/
def Proc.unused : Proc where
  state := .unused
  chan := none
  killed := false
  lock := none
  context := .forkret
  np := none

/-- What `wakeup(chan)` does to a process. -/
def Proc.wakeup (p : Proc) (chan : Nat) : Proc :=
  if p.state = .sleeping ∧ p.chan = some chan then { p with state := .runnable } else p

/-- What `kill` does to the process it finds. -/
def Proc.kill (p : Proc) : Proc :=
  { p with killed := true, state := if p.state = .sleeping then .runnable else p.state }

/-- `freeproc`. -/
def Proc.free (p : Proc) : Proc := { p with chan := none, killed := false, state := .unused }

/-- An interrupt can come there. -/
def Pc.interruptible : Pc → Bool
  | .scan _ | .run _ => true
  | _ => false

/-- After `userinit`, when the CPUs call `scheduler`. -/
def boot : Machine where
  proc := update (fun _ => Proc.unused) initproc { Proc.unused with state := .runnable }
  cpu := fun _ => ⟨none, .scan 0⟩
  panic := none

namespace Machine

def setProc (s : Machine) (i : Nat) (p : Proc) : Machine := { s with proc := update s.proc i p }

def setCpu (s : Machine) (c : Nat) (x : Cpu) : Machine := { s with cpu := update s.cpu c x }

/-- CPU `c` goes on at `pc`. -/
def goto (s : Machine) (c : Nat) (pc : Pc) : Machine := s.setCpu c { s.cpu c with pc := pc }

def fail (s : Machine) (e : Panic) : Machine := { s with panic := some e }

/-! ## The scheduler -/

/-- A round of `scheduler` up to `swtch`, or to its end. -/
def pick (s : Machine) (c : Nat) : Option Machine :=
  match (s.cpu c).pc with
  | .scan i =>
    if (s.proc i).lock ≠ none then none
    else if (s.proc i).state = .runnable then
      some ((s.setProc i { s.proc i with state := .running, lock := some c }).setCpu c ⟨some i, .chosen i⟩)
    else some (s.goto c (.scan ((i + 1) % nproc)))
  | _ => none

/-- `swtch(&c->context, &p->context)`. -/
def swtch (s : Machine) (c : Nat) : Option Machine :=
  match (s.cpu c).pc with
  | .chosen i => some (s.goto c (.enter i))
  | _ => none

/-- The rest of the round: `c->proc = 0` and the release. -/
def done (s : Machine) (c : Nat) : Option Machine :=
  match (s.cpu c).pc with
  | .back i =>
    some ((s.setProc i { s.proc i with lock := none }).setCpu c ⟨none, .scan ((i + 1) % nproc)⟩)
  | _ => none

/-! ## Threads -/

/-- What a thread does when its context is loaded: `forkret`, or the end of `yield` or `sleep`. -/
def resume (s : Machine) (c : Nat) : Option Machine :=
  match (s.cpu c).pc with
  | .enter i =>
    match (s.proc i).context with
    | .forkret =>
      if (s.cpu c).proc ≠ some i then some (s.fail .myproc)
      else some ((s.setProc i { s.proc i with lock := none }).goto c (.run i))
    | .yield => some ((s.setProc i { s.proc i with lock := none }).goto c (.run i))
    | .sleep => some ((s.setProc i { s.proc i with chan := none, lock := none }).goto c (.run i))
    | .exit => some (s.fail .zombieExit)
  | _ => none

/-- `acquire(&p->lock)` of the process itself, in `yield`, `sleep` and `exit`. -/
def acquire (s : Machine) (c : Nat) : Option Machine :=
  match (s.cpu c).pc with
  | .run i =>
    if (s.cpu c).proc ≠ some i then some (s.fail .myproc)
    else if (s.proc i).lock ≠ none then none
    else some ((s.setProc i { s.proc i with lock := some c }).goto c (.hold i))
  | _ => none

/-- `yield` after the acquire. -/
def yield (s : Machine) (c : Nat) : Option Machine :=
  match (s.cpu c).pc with
  | .hold i => some ((s.setProc i { s.proc i with state := .runnable }).goto c (.leave i .yield))
  | _ => none

/-- `sleep` after the acquire. -/
def sleep (s : Machine) (c chan : Nat) : Option Machine :=
  match (s.cpu c).pc with
  | .hold i =>
    if (s.proc i).np = none then
      some ((s.setProc i { s.proc i with chan := some chan, state := .sleeping }).goto c (.leave i .sleep))
    else none
  | _ => none

/-- `exit` after the acquire. -/
def exit (s : Machine) (c : Nat) : Option Machine :=
  match (s.cpu c).pc with
  | .hold i =>
    if (s.proc i).np = none then
      some ((s.setProc i { s.proc i with state := .zombie }).goto c (.leave i .exit))
    else none
  | _ => none

/-- `sched` up to the point where `swtch` has stored the context. -/
def sched (s : Machine) (c : Nat) : Option Machine :=
  match (s.cpu c).pc with
  | .leave i k =>
    if (s.cpu c).proc ≠ some i then some (s.fail .myproc)
    else if (s.proc i).lock ≠ some c then some (s.fail .schedLock)
    else if (s.proc i).state = .running then some (s.fail .schedRunning)
    else some ((s.setProc i { s.proc i with context := k }).goto c (.saved i))
  | _ => none

/-- `swtch` loads the context of the scheduler. -/
def back (s : Machine) (c : Nat) : Option Machine :=
  match (s.cpu c).pc with
  | .saved i => some (s.goto c (.back i))
  | _ => none

/-! ## Other processes -/

/-- The thread that CPU `c` runs, if it can make a call. -/
def caller (s : Machine) (c : Nat) : Option Nat :=
  match (s.cpu c).pc with
  | .run i => some i
  | _ => none

/-- A round of the loop of `wakeup`, also in the handler of an interrupt. -/
def wakeup (s : Machine) (c j chan : Nat) : Option Machine :=
  if (s.cpu c).pc.interruptible = true ∧ (s.cpu c).proc ≠ some j ∧ (s.proc j).lock = none then
    some (s.setProc j ((s.proc j).wakeup chan))
  else none

/-- The round of the loop of `kill` that finds the pid. -/
def kill (s : Machine) (c j : Nat) : Option Machine :=
  if (s.caller c).isSome ∧ (s.proc j).lock = none then some (s.setProc j (s.proc j).kill) else none

/-- `allocproc` in `fork`, up to the release of the lock. -/
def alloc (s : Machine) (c j : Nat) : Option Machine :=
  match s.caller c with
  | some i =>
    if (s.proc i).np = none ∧ j < nproc ∧ (s.proc j).lock = none ∧ (s.proc j).state = .unused then
      some ((s.setProc j { s.proc j with state := .used, context := .forkret, np := none }).setProc i
        { s.proc i with np := some j })
    else none
  | none => none

/-- `fork` makes the child `RUNNABLE`. -/
def ready (s : Machine) (c : Nat) : Option Machine :=
  match s.caller c with
  | some i =>
    match (s.proc i).np with
    | some j =>
      if (s.proc j).lock = none then
        some ((s.setProc i { s.proc i with np := none }).setProc j { s.proc j with state := .runnable })
      else none
    | none => none
  | none => none

/-- `wait` finds a zombie: `freeproc`. -/
def reap (s : Machine) (c j : Nat) : Option Machine :=
  if (s.caller c).isSome ∧ (s.proc j).lock = none ∧ (s.proc j).state = .zombie then
    some (s.setProc j (s.proc j).free)
  else none

/-! ## Steps -/

/-- What CPU `c` does. -/
inductive Action where
  | pick (c : Nat)
  | swtch (c : Nat)
  | done (c : Nat)
  | resume (c : Nat)
  | acquire (c : Nat)
  | yield (c : Nat)
  | sleep (c chan : Nat)
  | exit (c : Nat)
  | sched (c : Nat)
  | back (c : Nat)
  | wakeup (c j chan : Nat)
  | kill (c j : Nat)
  | alloc (c j : Nat)
  | ready (c : Nat)
  | reap (c j : Nat)

/-- One step, if it is possible. -/
def step (s : Machine) (a : Action) : Option Machine :=
  if s.panic ≠ none then none
  else
    match a with
    | .pick c => s.pick c
    | .swtch c => s.swtch c
    | .done c => s.done c
    | .resume c => s.resume c
    | .acquire c => s.acquire c
    | .yield c => s.yield c
    | .sleep c chan => s.sleep c chan
    | .exit c => s.exit c
    | .sched c => s.sched c
    | .back c => s.back c
    | .wakeup c j chan => s.wakeup c j chan
    | .kill c j => s.kill c j
    | .alloc c j => s.alloc c j
    | .ready c => s.ready c
    | .reap c j => s.reap c j

end Machine

end Xv6.Sched
