import Xv6.Mem.Heap
import Xv6.Process.Exec

/-!
# The system

From `kinit` to `userinit`, and the calls that processes make afterwards. A
call runs to its end before the next one starts; a process that would sleep in
`wait` makes the call again later. Between calls the processes write to their
own memory.
-/

namespace Xv6.Process

open Lib Mem

variable [Layout]

/-! ## Boot -/

/-- How many pages `[PGROUNDUP(end), PHYSTOP)` has. -/
def areaPages : Nat := (physTop - pgRoundUp Layout.kend) / pgSize

/-- The pages that `kvminit`, `procinit` and `virtio_disk_init` take. -/
def bootPages : Nat → PhysM (List Nat)
  | 0 => pure []
  | n + 1 => do
    let pa ← kalloc
    if pa = 0 then throw .kerneltrap
    else do
      let rest ← bootPages n
      pure (pa :: rest)

/-- What happens before the first process. -/
structure Machine where
  /-- The contents of memory when the machine starts. -/
  mem : Bytes
  /-- How many pages the kernel takes for itself. -/
  count : Nat
  /-- `userinit` does not check its allocations: there are pages left for them. -/
  room : count + 9 ≤ areaPages
  /-- What the kernel writes to its pages, and to memory that the allocator does
  not have. -/
  own : List Nat → Bytes → Bytes
  own_agree : ∀ A m q, InArea q → 4096 * q ∉ A → Agree m (own A m) q

/-- The tables of the kernel are global variables, all zero at first. -/
def Kernel.fresh (s : Phys) : Kernel where
  phys := s
  proc := fun _ => Proc.zero
  ftable := fun _ => File.zero
  initproc := none
  nextpid := 1

/-- The kernel before `userinit`, and the pages it has taken. -/
def Machine.boot (M : Machine) : Except Panic (List Nat × Kernel) := do
  let (_, s) ← kinit ⟨M.mem, 0⟩
  let (A, s) ← bootPages M.count s
  pure (A, Kernel.fresh (s.withMem (M.own A s.mem)))

/-- The kernel after `userinit`, and the pages taken at boot. -/
def Machine.start (M : Machine) : Except Panic (List Nat × Kernel) := do
  let (A, K) ← M.boot
  let (_, K) ← userinit K
  pure (A, K)

/-! ## Calls -/

/-- A call, and the process that makes it. -/
inductive Call where
  | fork (p : Nat)
  | exec (p : Nat) (namei : Namei) (upath uargv : Nat)
  | sbrk (p : Nat) (n : Int)
  | exit (p : Nat) (status : Int)
  | wait (p addr : Nat)
  | pipe (p fdarray : Nat)
  | dup (p : Nat) (fd : Int)
  | close (p : Nat) (fd : Int)
  | kill (p : Nat) (pid : Int)
  /-- The process writes to its memory. -/
  | store (p va : Nat) (bs : List UInt8)

/-- The process that makes a call. -/
def Call.proc : Call → Nat
  | fork p => p
  | exec p _ _ _ => p
  | sbrk p _ => p
  | exit p _ => p
  | wait p _ => p
  | pipe p _ => p
  | dup p _ => p
  | close p _ => p
  | kill p _ => p
  | store p _ _ => p

/-- What a call does. Its result goes to a register of the process. -/
def Call.run : Call → KernelM Unit
  | fork p => do let _ ← Process.fork p
  | exec p namei upath uargv => do let _ ← sysExec p namei upath uargv
  | sbrk p n => do let _ ← sysSbrk p n
  | exit p status => Process.exit p status
  | wait p addr => do let _ ← Process.wait p addr
  | pipe p fdarray => do let _ ← sysPipe p fdarray
  | dup p fd => do let _ ← sysDup p fd
  | close p fd => do let _ ← sysClose p fd
  | kill _ pid => do let _ ← Process.kill pid
  | store p va bs => do
    let pr ← getProc p
    let _ ← onPhys (copyout pr.pagetable va bs)

/-- A process makes calls when it is runnable. -/
def Call.enabled (K : Kernel) (c : Call) : Prop :=
  c.proc < nproc ∧ (K.proc c.proc).state = .runnable

instance (K : Kernel) (c : Call) : Decidable (c.enabled K) := inferInstanceAs (Decidable (_ ∧ _))

/-- One call. A panic ends the run. -/
def step (K : Kernel) (c : Call) : Option Kernel :=
  if c.enabled K then
    match c.run K with
    | .ok (_, K') => some K'
    | .error _ => none
  else none

end Xv6.Process
