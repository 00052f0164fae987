import Xv6.Lib.Ends
import Xv6.Process.System

/-!
# Calls that work on memory and on slots

`exec`, `sbrk` and `wait` work on physical memory, free the slot of a process, and change
fields of the caller other than its state, its pid, its flag `killed` and its descriptors.
So they keep every relation that such changes keep (`Slotwise`).
-/

namespace Xv6.Process

open Lib Mem

/-- What is before and after the program is related, whatever the program returns. -/
def Leaves {α : Type} (R : Kernel → Kernel → Prop) (m : KernelM α) : Prop := Keeps R (fun _ => True) m

/-- The process keeps its state, its pid, its flag and its descriptors. -/
structure Proc.Same (pr pr' : Proc) : Prop where
  state : pr'.state = pr.state
  pid : pr'.pid = pr.pid
  killed : pr'.killed = pr.killed
  ofile : pr'.ofile = pr.ofile

/-- A relation that these calls keep. -/
structure Slotwise (R : Kernel → Kernel → Prop) : Prop where
  phys : ∀ K s, R K { K with phys := s }
  proc : ∀ K p pr, (K.proc p).Same pr → R K (K.setProc p pr)
  /-- What `freeproc` does. -/
  free : ∀ K p pr, pr.state = .unused → pr.pid = 0 → pr.killed = false →
    pr.ofile = (K.proc p).ofile → R K (K.setProc p pr)

variable {α : Type} {R : Kernel → Kernel → Prop}

lemma Leaves.ite {c : Prop} [Decidable c] {m m' : KernelM α} (h : Leaves R m) (h' : Leaves R m') :
    Leaves R (if c then m else m') := keeps_ite (fun _ => h) fun _ => h'

lemma Slotwise.onPhys (h : Slotwise R) (m : PhysM α) : Leaves R (onPhys m) := by
  intro K
  unfold Ends Process.onPhys
  cases m K.phys with
  | error e => trivial
  | ok x => exact h.phys K x.2

lemma Slotwise.modifyProc (h : Slotwise R) (p : Nat) {g : Proc → Proc} (hg : ∀ pr : Proc, pr.Same (g pr)) :
    Leaves R (modifyProc p g) := keeps_modify fun K => h.proc K p _ (hg _)

section

variable [Std.Refl R] [IsTrans Kernel R]

lemma leaves_getProc (p : Nat) : Leaves R (getProc p) := Keeps.bind keeps_get fun _ => keeps_pure _

variable [Layout] (h : Slotwise R)
include h

lemma Slotwise.freeproc (p : Nat) : Leaves R (freeproc p) := by
  refine (leaves_getProc p).bind fun pr => Keeps.bind (Leaves.ite (h.onPhys _) (keeps_pure _)) fun _ => ?_
  refine Keeps.bind (Leaves.ite (h.onPhys _) (keeps_pure _)) fun _ => ?_
  exact keeps_modify fun K => h.free K p _ rfl rfl rfl rfl

lemma Slotwise.growproc (p : Nat) (n : Int) : Leaves R (growproc p n) := by
  refine (leaves_getProc p).bind fun pr => Leaves.ite ?_ (Leaves.ite ?_ (keeps_pure _))
  · refine (h.onPhys _).bind fun sz => Leaves.ite (keeps_pure _) ?_
    exact Keeps.bind (h.modifyProc p fun _ => ⟨rfl, rfl, rfl, rfl⟩) fun _ => keeps_pure _
  · refine (h.onPhys _).bind fun sz => ?_
    exact Keeps.bind (h.modifyProc p fun _ => ⟨rfl, rfl, rfl, rfl⟩) fun _ => keeps_pure _

lemma Slotwise.sysSbrk (p : Nat) (n : Int) : Leaves R (sysSbrk p n) :=
  (leaves_getProc p).bind fun _ => (h.growproc p n).bind fun _ => Leaves.ite (keeps_pure _) (keeps_pure _)

lemma Slotwise.exec (p : Nat) (namei : Namei) (path : List UInt8) (argv : List Nat) :
    Leaves R (exec p namei path argv) := by
  have hbad : ∀ pagetable sz, Leaves R (do
      Process.onPhys (procFreepagetable pagetable sz)
      pure (-1 : Int)) := fun _ _ => (h.onPhys _).bind fun _ => keeps_pure _
  unfold Process.exec
  cases namei path with
  | none => exact keeps_pure _
  | some ip =>
    refine Leaves.ite (keeps_pure _) (Leaves.ite (keeps_pure _) ?_)
    refine (leaves_getProc p).bind fun pr => (h.onPhys _).bind fun pagetable =>
      Leaves.ite (keeps_pure _) ((h.onPhys _).bind fun res => ?_)
    obtain ⟨loaded, sz⟩ := res
    refine Leaves.ite (hbad _ _) ((h.onPhys _).bind fun res => ?_)
    obtain ⟨sz', stack⟩ := res
    cases stack with
    | none => exact hbad _ _
    | some sp =>
      refine (h.onPhys _).bind fun _ => Keeps.bind
        (h.modifyProc p fun _ => ⟨rfl, rfl, rfl, rfl⟩) fun _ => ?_
      refine (h.onPhys _).bind fun _ => (h.onPhys _).bind fun _ => ?_
      exact (h.onPhys _).bind fun _ => keeps_pure _

lemma Slotwise.sysExec (p : Nat) (namei : Namei) (upath uargv : Nat) :
    Leaves R (sysExec p namei upath uargv) := by
  refine (leaves_getProc p).bind fun pr => (h.onPhys _).bind fun res => ?_
  obtain ⟨r, path⟩ := res
  refine Leaves.ite (keeps_pure _) ((h.onPhys _).bind fun res => ?_)
  obtain ⟨fetched, argv⟩ := res
  refine Leaves.ite ((h.onPhys _).bind fun _ => keeps_pure _) ?_
  exact (h.exec p namei _ argv).bind fun ret => (h.onPhys _).bind fun _ => keeps_pure _

lemma Slotwise.wait (p addr : Nat) : Leaves R (wait p addr) := by
  refine Keeps.bind keeps_get fun K => ?_
  split
  next pp _ =>
    refine Keeps.bind (Leaves.ite (h.onPhys _) (keeps_pure _)) fun r => Leaves.ite (keeps_pure _) ?_
    exact (h.freeproc pp).bind fun _ => keeps_pure _
  next => exact Leaves.ite (keeps_pure _) (keeps_pure _)

end

end Xv6.Process
