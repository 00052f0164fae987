import Xv6.Fs.Frame

/-!
# Reference counts

The reference count of a file is the number of descriptors that hold it, and the
reference count of an inode is the number of files and current directories that
refer to it. In the middle of a call there are more references than that: those
in the local variables of the call. `Refs P o g T F s` counts all of them. The
lists `T` and `F` are the inodes and the files in local variables. `o` and `g`
are the descriptors and the current directories that count; they are those of the
processes except where a call drops a reference before it clears the variable.

Nothing here depends on what is on the disk.
-/

namespace Xv6.Fs

open Function Lib Finset
open Xv6.Inode (Dinode ninode)

/-- What a descriptor holds. -/
def slotsOf (P : Nat → Proc) (x : Nat × Nat) : Option Nat := (P x.1).ofile x.2

/-- The current directory of a process. -/
def cwdOf (P : Nat → Proc) (p : Nat) : Option Nat := (P p).cwd

/-- The inode that a file in use refers to. -/
def fileInode (file : File) : Option Nat :=
  if 0 < file.ref ∧ (file.type = .inode ∨ file.type = .device) then some file.ip else none

/-- The inodes of the file table. -/
def filesOf (t : Nat → File) (f : Nat) : Option Nat := fileInode (t f)

/-- Every reference is counted. -/
structure Refs (P : Nat → Proc) (o : Nat × Nat → Option Nat) (g : Nat → Option Nat)
    (T F : List Nat) (s : Fs) : Prop where
  proc : s.proc = P
  file : ∀ f < nfile, (s.ftable f).ref = count slots o f + F.count f
  unused : ∀ f < nfile, (s.ftable f).ref = 0 → (s.ftable f).type = .none
  inode : ∀ e < ninode, (s.itable e).ref =
    count (range nfile) (filesOf s.ftable) e + count (range nproc) g e + T.count e
  slot_lt : ∀ x ∈ slots, ∀ f, o x = some f → f < nfile
  cwd_lt : ∀ p < nproc, ∀ e, g p = some e → e < ninode
  ip_lt : ∀ f < nfile, ∀ e, filesOf s.ftable f = some e → e < ninode
  temp_lt : ∀ e ∈ T, e < ninode
  held_lt : ∀ f ∈ F, f < nfile

variable {P : Nat → Proc} {o : Nat × Nat → Option Nat} {g : Nat → Option Nat} {T F : List Nat}
variable {s s' : Fs}

lemma Refs.same (h : Refs P o g T F s) (hs : Same s s') : Refs P o g T F s' where
  proc := hs.proc.trans h.proc
  file := by
    rw [hs.ftable]
    exact h.file
  unused := by
    rw [hs.ftable]
    exact h.unused
  inode := by
    intro e he
    rw [hs.ref, hs.ftable]
    exact h.inode e he
  slot_lt := h.slot_lt
  cwd_lt := h.cwd_lt
  ip_lt := by
    rw [hs.ftable]
    exact h.ip_lt
  temp_lt := h.temp_lt
  held_lt := h.held_lt

lemma Refs.perm {T' : List Nat} (h : Refs P o g T F s) (hT : T.Perm T') : Refs P o g T' F s :=
  { h with
    inode := by
      intro e he
      rw [h.inode e he, hT.count_eq]
    temp_lt := fun e he => h.temp_lt e (hT.mem_iff.mpr he) }

lemma Refs.swap {a b : Nat} (h : Refs P o g (a :: b :: T) F s) : Refs P o g (b :: a :: T) F s :=
  h.perm (List.Perm.swap ..)

/-- A program that does not touch the tables. -/
lemma aside_refs {α : Type} {m : FsM α} (h : Aside m) :
    Triple (Refs P o g T F) m (fun _ => Refs P o g T F) NotFile :=
  Keeps.triple h fun _ _ hs hr => hr.same hs

lemma Aside.refs {α β : Type} {m : FsM α} {f : α → FsM β} {Q : β → Fs → Prop} (h : Aside m)
    (hf : ∀ a, Triple (Refs P o g T F) (f a) Q NotFile) :
    Triple (Refs P o g T F) (m >>= f) Q NotFile :=
  (aside_refs h).bind hf

lemma endOp_refs {α : Type} (a : α) :
    Triple (Refs P o g T F) (do endOp; pure a) (fun _ => Refs P o g T F) NotFile :=
  Aside.refs endOp_aside fun _ => triple_pure fun _ => id

/-! ## Inodes -/

/-- One more reference to an inode, or one less. -/
lemma Refs.setRef {T' : List Nat} {e : Nat} {x : Inode} (h : Refs P o g T F s)
    (hother : ∀ e' ≠ e, T'.count e' = T.count e') (hx : x.ref + T.count e = (s.itable e).ref + T'.count e)
    (hlt : ∀ e' ∈ T', e' < ninode) :
    Refs P o g T' F { s with itable := update s.itable e x } :=
  { h with
    inode := by
      intro e' he'
      by_cases hee : e' = e
      · subst hee
        have hold := h.inode e' he'
        show (update s.itable e' x e').ref = _
        rw [update_self]
        show x.ref = count (range nfile) (filesOf s.ftable) e' + _ + _
        omega
      · show (update s.itable e x e').ref = _
        rw [update_of_ne hee, h.inode e' he', hother e' hee]
    temp_lt := hlt }

lemma Refs.gain {e : Nat} {x : Inode} (h : Refs P o g T F s) (he : e < ninode)
    (hx : x.ref = (s.itable e).ref + 1) :
    Refs P o g (e :: T) F { s with itable := update s.itable e x } := by
  apply h.setRef
  · intro e' hne
    exact List.count_cons_of_ne hne.symm
  · rw [List.count_cons_self]
    omega
  · intro e' he'
    rcases List.mem_cons.mp he' with rfl | he'
    · exact he
    · exact h.temp_lt e' he'

lemma iget_refs (inum : Nat) :
    Triple (Refs P o g T F) (iget inum) (fun e => Refs P o g (e :: T) F) NotFile := by
  intro s hs
  apply ends_get_bind
  split
  next e hfind =>
    have hlt : e < ninode := List.mem_range.mp (List.mem_of_find?_eq_some hfind)
    exact hs.gain hlt rfl
  next =>
    split
    next e hfind =>
      have hlt : e < ninode := List.mem_range.mp (List.mem_of_find?_eq_some hfind)
      have hfound := List.find?_some hfind
      have hzero : (s.itable e).ref = 0 := of_decide_eq_true hfound
      refine hs.gain hlt ?_
      show 1 = (s.itable e).ref + 1
      rw [hzero]
    next => exact ends_throw (by decide)

lemma idup_refs {e : Nat} (he : e < ninode) :
    Triple (Refs P o g T F) (idup e) (fun e => Refs P o g (e :: T) F) NotFile :=
  fun _ hs => hs.gain he rfl

variable [Superblock]

lemma iput_refs (e : Nat) :
    Triple (Refs P o g (e :: T) F) (iput e) (fun _ => Refs P o g T F) NotFile := by
  refine (getInode_aside e).refs fun inode => ?_
  refine Triple.bind (Q := fun _ => Refs P o g (e :: T) F) (triple_ite (fun _ => aside_refs ?_)
    fun _ => triple_pure fun _ => id) fun _ => triple_modify fun s hs => ?_
  · refine (acquiresleep_aside e).bind fun _ => (itrunc_aside e).bind fun _ =>
      (modifyCopy_aside e _).bind fun _ => (iupdate_aside e).bind fun _ =>
      Keeps.bind (modifyInode_aside e ?_ ?_) fun _ => releasesleep_aside e
    · exact fun _ => rfl
    · exact fun _ => rfl
  · apply hs.setRef
    · intro e' hne
      exact (List.count_cons_of_ne hne.symm).symm
    · have hinode := hs.inode e (hs.temp_lt e (by simp))
      rw [List.count_cons_self] at hinode ⊢
      show (s.itable e).ref - 1 + _ = _
      omega
    · exact fun e' he' => hs.temp_lt e' (List.mem_cons_of_mem e he')

lemma iunlockput_refs (e : Nat) :
    Triple (Refs P o g (e :: T) F) (iunlockput e) (fun _ => Refs P o g T F) NotFile :=
  (iunlock_aside e).refs fun _ => iput_refs e

lemma iallocRounds_refs (type inum n : Nat) :
    Triple (Refs P o g T F) (iallocRounds type inum n)
      (fun r s => match r with
        | none => Refs P o g T F s
        | some e => Refs P o g (e :: T) F s) NotFile := by
  induction n generalizing inum with
  | zero => exact triple_pure fun _ => id
  | succ n ih =>
    refine (bread_aside _).refs fun data => triple_ite (fun _ => ?_) fun _ => ih _
    refine (logWrite_aside _ _).refs fun _ => (iget_refs inum).bind fun e => ?_
    exact triple_pure fun _ => id

lemma ialloc_refs (type : Nat) :
    Triple (Refs P o g T F) (ialloc type)
      (fun r s => match r with
        | none => Refs P o g T F s
        | some e => Refs P o g (e :: T) F s) NotFile :=
  iallocRounds_refs type 1 _

/-! ## Directories and paths -/

lemma dirlookup_refs (dp : Nat) (name : Name) :
    Triple (Refs P o g T F) (dirlookup dp name)
      (fun r s => match r with
        | none => Refs P o g T F s
        | some (e, _) => Refs P o g (e :: T) F s) NotFile := by
  refine (getInode_aside dp).refs fun inode => ?_
  refine triple_ite (fun _ => triple_throw (by decide)) fun _ => ?_
  refine (lookupRounds_aside dp name _ _ _).refs fun r => ?_
  match r with
  | none => exact triple_pure fun _ => id
  | some (inum, off) => exact (iget_refs inum).bind fun e => triple_pure fun _ => id

lemma dirlink_refs (dp : Nat) (name : Name) (inum : Nat) :
    Triple (Refs P o g T F) (dirlink dp name inum) (fun _ => Refs P o g T F) NotFile := by
  refine (dirlookup_refs dp name).bind fun r => ?_
  match r with
  | some (e, off) => exact (iput_refs e).bind fun _ => triple_pure fun _ => id
  | none =>
    refine aside_refs ((getInode_aside dp).bind fun _ => (emptyRounds_aside dp _ _ _).bind fun off => ?_)
    exact (writei_aside dp _ _ _).bind fun _ => keeps_ite (fun _ => keeps_pure _) fun _ => keeps_pure _

lemma namexRounds_refs (parent : Bool) (k ip : Nat) (path : List UInt8) :
    Triple (Refs P o g (ip :: T) F) (namexRounds parent k ip path)
      (fun r s => match r with
        | none => Refs P o g T F s
        | some (e, _) => Refs P o g (e :: T) F s) NotFile := by
  induction k generalizing ip path with
  | zero => exact triple_throw (by decide)
  | succ k ih =>
    rw [namexRounds]
    split
    next =>
      refine triple_ite (fun _ => ?_) fun _ => triple_pure fun _ => id
      exact (iput_refs ip).bind fun _ => triple_pure fun _ => id
    next name path' _ =>
      refine (ilock_aside ip).refs fun _ => (getInode_aside ip).refs fun inode => ?_
      refine triple_ite (fun _ => ?_) fun _ => triple_ite (fun _ => ?_) fun _ => ?_
      · exact (iunlockput_refs ip).bind fun _ => triple_pure fun _ => id
      · exact (iunlock_aside ip).refs fun _ => triple_pure fun _ => id
      · refine (dirlookup_refs ip name).bind fun r => ?_
        match r with
        | none => exact (iunlockput_refs ip).bind fun _ => triple_pure fun _ => id
        | some (next, off) =>
          exact ((iunlockput_refs ip).pre fun _ hs => hs.swap).bind fun _ => ih next path'

lemma namex_refs {p : Nat} (hp : p < nproc) (parent : Bool) (path : List UInt8) :
    Triple (Refs P o (cwdOf P) T F) (namex p parent path)
      (fun r s => match r with
        | none => Refs P o (cwdOf P) T F s
        | some (e, _) => Refs P o (cwdOf P) (e :: T) F s) NotFile := by
  apply triple_get_bind
  intro s hs
  refine Triple.bind (Q := fun e => Refs P o (cwdOf P) (e :: T) F) (triple_ite (fun _ => ?_) fun _ => ?_)
    fun ip => namexRounds_refs parent _ ip path
  · exact (iget_refs rootIno).pre fun t ht => ht ▸ hs
  · split
    next cwd hcwd =>
      have hlt : cwd < ninode := hs.cwd_lt p hp cwd (by rw [cwdOf, ← hs.proc, hcwd])
      exact (idup_refs hlt).pre fun t ht => ht ▸ hs
    next => exact triple_throw (by decide)

lemma namei_refs {p : Nat} (hp : p < nproc) (path : List UInt8) :
    Triple (Refs P o (cwdOf P) T F) (namei p path)
      (fun r s => match r with
        | none => Refs P o (cwdOf P) T F s
        | some e => Refs P o (cwdOf P) (e :: T) F s) NotFile := by
  refine (namex_refs hp false path).bind fun r => ?_
  match r with
  | none => exact triple_pure fun _ => id
  | some (e, _) => exact triple_pure fun _ => id

end Xv6.Fs
