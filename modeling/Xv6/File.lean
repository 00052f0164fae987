import Xv6.Param

/-!
# The file table

The data of `kernel/file.h` and the search of `filealloc`. A pointer to a
`struct file` is an index of the table.
-/

namespace Xv6

/-- The types of open files. -/
inductive FileType where
  | none
  | pipe
  | inode
  | device
  deriving DecidableEq, Repr

/-- `struct file`. -/
structure File where
  type : FileType
  /-- How many descriptors refer to it. -/
  ref : Nat
  readable : Bool
  writable : Bool
  /-- The address of the pipe, for `FD_PIPE`. -/
  pipe : Nat
  /-- The in-memory inode, for `FD_INODE` and `FD_DEVICE`. -/
  ip : Nat
  off : Nat
  major : Nat
  deriving DecidableEq, Repr

/-- A file of the table before its first use. -/
def File.zero : File where
  type := .none
  ref := 0
  readable := false
  writable := false
  pipe := 0
  ip := 0
  off := 0
  major := 0

/-- The file that `filealloc` takes: the first without references. -/
def freeFile (ftable : Nat → File) : Option Nat :=
  (List.range nfile).find? fun f => (ftable f).ref = 0

/-- The descriptor that `fdalloc` takes: the lowest free one. -/
def freeFd (ofile : Nat → Option Nat) : Option Nat :=
  (List.range nofile).find? fun fd => ofile fd = none

lemma freeFile_spec {ftable : Nat → File} {f : Nat} (h : freeFile ftable = some f) :
    f < nfile ∧ (ftable f).ref = 0 := by
  have hmem := List.mem_of_find?_eq_some h
  have href := List.find?_some h
  exact ⟨List.mem_range.mp hmem, of_decide_eq_true href⟩

lemma freeFd_spec {ofile : Nat → Option Nat} {fd : Nat} (h : freeFd ofile = some fd) :
    fd < nofile ∧ ofile fd = none := by
  have hmem := List.mem_of_find?_eq_some h
  have hnone := List.find?_some h
  exact ⟨List.mem_range.mp hmem, of_decide_eq_true hnone⟩

/-- The places of descriptors. -/
@[irreducible] def slots : Finset (Nat × Nat) := Finset.range nproc ×ˢ Finset.range nofile

lemma mem_slots {p fd : Nat} : (p, fd) ∈ slots ↔ p < nproc ∧ fd < nofile := by
  unfold slots
  rw [Finset.mem_product, Finset.mem_range, Finset.mem_range]

end Xv6
