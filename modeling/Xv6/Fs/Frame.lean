import Xv6.Fs.Sysfile
import Xv6.Lib.Ends

/-!
# What does not touch the tables

Reading and writing blocks, and locking an inode, leave the files, the
processes and the reference counts alone. So do `bmap`, `itrunc`, `readi` and
`writei`, and the loops over the entries of a directory. None of them stops
with a panic of `kernel/file.c`.
-/

namespace Xv6.Fs

open Function Lib
open Xv6.Inode (Dinode ninode)

/-- The files, the processes, the reference counts and the inode numbers are the
same. -/
structure Same (s s' : Fs) : Prop where
  ftable : s'.ftable = s.ftable
  proc : s'.proc = s.proc
  ref : ∀ e, (s'.itable e).ref = (s.itable e).ref
  inum : ∀ e, (s'.itable e).inum = (s.itable e).inum

instance : Std.Refl Same := ⟨fun _ => ⟨rfl, rfl, fun _ => rfl, fun _ => rfl⟩⟩

instance : IsTrans Fs Same := ⟨fun _ _ _ h h' =>
  ⟨h'.ftable.trans h.ftable, h'.proc.trans h.proc, fun e => (h'.ref e).trans (h.ref e),
    fun e => (h'.inum e).trans (h.inum e)⟩⟩

/-- Not a panic of `filedup` or `fileclose`. -/
def NotFile (e : Stop) : Prop := e ≠ .filedup ∧ e ≠ .fileclose

instance (e : Stop) : Decidable (NotFile e) := inferInstanceAs (Decidable (_ ∧ _))

/-- The program does not touch the tables. -/
abbrev Aside {α : Type} (m : FsM α) : Prop := Keeps Same NotFile m

lemma aside_modify {g : Fs → Fs} (h : ∀ s, Same s (g s)) : Aside (modify g) := keeps_modify h

lemma modifyInode_aside (ip : Nat) {g : Inode → Inode} (href : ∀ x, (g x).ref = x.ref)
    (hinum : ∀ x, (g x).inum = x.inum) : Aside (modifyInode ip g) := by
  apply aside_modify
  intro s
  refine ⟨rfl, rfl, fun e => ?_, fun e => ?_⟩
  · by_cases he : e = ip
    · subst he
      show (update s.itable e _ e).ref = _
      rw [update_self]
      exact href _
    · show (update s.itable ip _ e).ref = _
      rw [update_of_ne he]
  · by_cases he : e = ip
    · subst he
      show (update s.itable e _ e).inum = _
      rw [update_self]
      exact hinum _
    · show (update s.itable ip _ e).inum = _
      rw [update_of_ne he]

lemma getInode_aside (ip : Nat) : Aside (getInode ip) := keeps_get.bind fun _ => keeps_pure _

lemma modifyCopy_aside (ip : Nat) (g : Dinode → Dinode) : Aside (modifyCopy ip g) :=
  modifyInode_aside ip (fun _ => rfl) fun _ => rfl

lemma setAddr_aside (ip n addr : Nat) : Aside (setAddr ip n addr) := modifyCopy_aside ip _

lemma setBuf_aside (b : Nat) (data : Block) : Aside (setBuf b data) :=
  aside_modify fun _ => ⟨rfl, rfl, fun _ => rfl, fun _ => rfl⟩

lemma bread_aside (b : Nat) : Aside (bread b) := by
  intro s
  apply ends_get_bind
  dsimp only
  split
  · exact ⟨rfl, rfl, fun _ => rfl, fun _ => rfl⟩
  · exact ⟨rfl, rfl, fun _ => rfl, fun _ => rfl⟩

variable [Superblock]

section

omit [Superblock]

lemma beginOp_aside : Aside beginOp := by
  intro s
  apply ends_get_bind
  split
  · exact ends_throw (by decide)
  · exact ⟨rfl, rfl, fun _ => rfl, fun _ => rfl⟩

lemma endOp_aside : Aside endOp := by
  have hcommit : Aside commit := aside_modify fun _ => ⟨rfl, rfl, fun _ => rfl, fun _ => rfl⟩
  refine Keeps.bind (aside_modify ?_) fun _ => ?_
  · exact fun _ => ⟨rfl, rfl, fun _ => rfl, fun _ => rfl⟩
  exact keeps_get.bind fun s => keeps_ite (fun _ => hcommit) fun _ => keeps_pure _

lemma acquiresleep_aside (ip : Nat) : Aside (acquiresleep ip) :=
  (getInode_aside ip).bind fun _ => keeps_ite (fun _ => keeps_throw (by decide)) fun _ =>
    modifyInode_aside ip (fun _ => rfl) fun _ => rfl

lemma releasesleep_aside (ip : Nat) : Aside (releasesleep ip) :=
  modifyInode_aside ip (fun _ => rfl) fun _ => rfl

lemma iunlock_aside (ip : Nat) : Aside (iunlock ip) :=
  (getInode_aside ip).bind fun _ => keeps_ite (fun _ => keeps_throw (by decide)) fun _ =>
    releasesleep_aside ip

end

lemma logWrite_aside (b : Nat) (data : Block) : Aside (logWrite b data) := by
  refine keeps_get.bind fun s => keeps_ite (fun _ => keeps_throw (by decide)) fun _ =>
    keeps_ite (fun _ => keeps_throw (by decide)) fun _ => ?_
  exact (setBuf_aside b data).bind fun _ =>
    aside_modify fun _ => ⟨rfl, rfl, fun _ => rfl, fun _ => rfl⟩

lemma bzero_aside (b : Nat) : Aside (bzero b) := (bread_aside b).bind fun _ => logWrite_aside b _

lemma ballocRounds_aside (b n : Nat) : Aside (ballocRounds b n) := by
  induction n generalizing b with
  | zero => exact keeps_pure _
  | succ n ih =>
    refine (bread_aside _).bind fun data => ?_
    split
    · exact (logWrite_aside _ _).bind fun _ => (bzero_aside _).bind fun _ => keeps_pure _
    · exact ih _

lemma balloc_aside : Aside balloc := ballocRounds_aside _ _

lemma bfree_aside (b : Nat) : Aside (bfree b) :=
  (bread_aside _).bind fun _ => keeps_ite (fun _ => logWrite_aside _ _) fun _ =>
    keeps_throw (by decide)

lemma iupdate_aside (ip : Nat) : Aside (iupdate ip) :=
  (getInode_aside ip).bind fun _ => (bread_aside _).bind fun _ => logWrite_aside _ _

lemma ilock_aside (ip : Nat) : Aside (ilock ip) := by
  refine (getInode_aside ip).bind fun inode => keeps_ite (fun _ => keeps_throw (by decide)) fun _ => ?_
  refine (acquiresleep_aside ip).bind fun _ => keeps_ite (fun _ => keeps_pure _) fun _ => ?_
  refine (bread_aside _).bind fun data => Keeps.bind (modifyInode_aside ip ?_ ?_) fun _ => ?_
  · exact fun _ => rfl
  · exact fun _ => rfl
  exact keeps_ite (fun _ => keeps_throw (by decide)) fun _ => keeps_pure _

/-- `balloc`, and then something unless the disk is full. -/
lemma ballocThen_aside {m : Nat → FsM Unit} (hm : ∀ addr, Aside (m addr)) :
    Aside (do
      let addr ← balloc
      (if addr = 0 then pure () else m addr)
      pure addr) :=
  balloc_aside.bind fun addr =>
    (keeps_ite (fun _ => keeps_pure _) fun _ => hm addr).bind fun _ => keeps_pure _

lemma bmap_aside (ip bn : Nat) : Aside (bmap ip bn) := by
  refine (getInode_aside ip).bind fun inode => keeps_ite (fun _ => ?direct) fun _ =>
    keeps_ite (fun _ => ?indirect) fun _ => keeps_throw (by decide)
  case direct =>
    exact keeps_ite (fun _ => ballocThen_aside fun _ => setAddr_aside ip _ _) fun _ => keeps_pure _
  case indirect =>
    refine (keeps_ite (fun _ => ballocThen_aside fun _ => setAddr_aside ip _ _)
      fun _ => keeps_pure _).bind fun addr => ?_
    refine keeps_ite (fun _ => keeps_pure _) fun _ => (bread_aside addr).bind fun data => ?_
    exact keeps_ite (fun _ => ballocThen_aside fun _ => logWrite_aside _ _) fun _ => keeps_pure _

lemma truncDirect_aside (ip i n : Nat) : Aside (truncDirect ip i n) := by
  induction n generalizing i with
  | zero => exact keeps_pure _
  | succ n ih =>
    refine (getInode_aside ip).bind fun inode => ?_
    refine (keeps_ite (fun _ => keeps_pure _) fun _ => ?_).bind fun _ => ih _
    exact (bfree_aside _).bind fun _ => setAddr_aside ip _ _

lemma truncEntries_aside (data : Block) (j n : Nat) : Aside (truncEntries data j n) := by
  induction n generalizing j with
  | zero => exact keeps_pure _
  | succ n ih => exact (keeps_ite (fun _ => keeps_pure _) fun _ => bfree_aside _).bind fun _ => ih _

lemma itrunc_aside (ip : Nat) : Aside (itrunc ip) := by
  refine (truncDirect_aside ip _ _).bind fun _ => (getInode_aside ip).bind fun inode => ?_
  refine (keeps_ite (fun _ => keeps_pure _) fun _ => ?_).bind fun _ =>
    (modifyCopy_aside ip _).bind fun _ => iupdate_aside ip
  exact (bread_aside _).bind fun data => (truncEntries_aside data _ _).bind fun _ =>
    (bfree_aside _).bind fun _ => setAddr_aside ip _ _

lemma readRounds_aside (ip k : Nat) (dst : Dst) (off n : Nat) :
    Aside (readRounds ip k dst off n) := by
  induction k generalizing dst off n with
  | zero => exact keeps_pure _
  | succ k ih =>
    refine keeps_ite (fun _ => keeps_pure _) fun _ => (bmap_aside ip _).bind fun addr => ?_
    refine keeps_ite (fun _ => keeps_pure _) fun _ => (bread_aside addr).bind fun data => ?_
    exact keeps_ite (fun _ => (ih _ _ _).bind fun _ => keeps_pure _) fun _ => keeps_pure _

lemma readi_aside (ip : Nat) (dst : Dst) (off n : Nat) : Aside (readi ip dst off n) :=
  (getInode_aside ip).bind fun _ => keeps_ite (fun _ => keeps_pure _) fun _ =>
    readRounds_aside ip _ dst off _

lemma writeRounds_aside (ip k : Nat) (src : Src) (off n : Nat) :
    Aside (writeRounds ip k src off n) := by
  induction k generalizing src off n with
  | zero => exact keeps_pure _
  | succ k ih =>
    refine keeps_ite (fun _ => keeps_pure _) fun _ => (bmap_aside ip _).bind fun addr => ?_
    refine keeps_ite (fun _ => keeps_pure _) fun _ => (bread_aside addr).bind fun data => ?_
    refine keeps_ite (fun _ => ?_) fun _ => (setBuf_aside addr _).bind fun _ => keeps_pure _
    exact (logWrite_aside addr _).bind fun _ => (ih _ _ _).bind fun _ => keeps_pure _

lemma writei_aside (ip : Nat) (src : Src) (off n : Nat) : Aside (writei ip src off n) := by
  refine (getInode_aside ip).bind fun inode => keeps_ite (fun _ => keeps_pure _) fun _ =>
    keeps_ite (fun _ => keeps_pure _) fun _ => ?_
  refine (writeRounds_aside ip _ src off n).bind fun tot => ?_
  refine (keeps_ite (fun _ => modifyCopy_aside ip _) fun _ => keeps_pure _).bind fun _ => ?_
  exact (iupdate_aside ip).bind fun _ => keeps_pure _

/-! ## Directories -/

lemma readEntry_aside (dp off : Nat) : Aside (readEntry dp off) := by
  refine (readi_aside dp _ _ _).bind fun r => ?_
  cases r with
  | none => exact keeps_pure _
  | some bs => exact keeps_ite (fun _ => keeps_pure _) fun _ => keeps_pure _

lemma lookupRounds_aside (dp : Nat) (name : Name) (size k off : Nat) :
    Aside (lookupRounds dp name size k off) := by
  induction k generalizing off with
  | zero => exact keeps_pure _
  | succ k ih =>
    refine keeps_ite (fun _ => (readEntry_aside dp off).bind fun r => ?_) fun _ => keeps_pure _
    cases r with
    | none => exact keeps_throw (by decide)
    | some de => exact keeps_ite (fun _ => keeps_pure _) fun _ => ih _

lemma emptyRounds_aside (dp size k off : Nat) : Aside (emptyRounds dp size k off) := by
  induction k generalizing off with
  | zero => exact keeps_pure _
  | succ k ih =>
    refine keeps_ite (fun _ => (readEntry_aside dp off).bind fun r => ?_) fun _ => keeps_pure _
    cases r with
    | none => exact keeps_throw (by decide)
    | some de => exact keeps_ite (fun _ => keeps_pure _) fun _ => ih _

lemma isdiremptyRounds_aside (dp size k off : Nat) : Aside (isdiremptyRounds dp size k off) := by
  induction k generalizing off with
  | zero => exact keeps_pure _
  | succ k ih =>
    refine keeps_ite (fun _ => (readEntry_aside dp off).bind fun r => ?_) fun _ => keeps_pure _
    cases r with
    | none => exact keeps_throw (by decide)
    | some de => exact keeps_ite (fun _ => keeps_pure _) fun _ => ih _

lemma isdirempty_aside (dp : Nat) : Aside (isdirempty dp) :=
  (getInode_aside dp).bind fun _ => isdiremptyRounds_aside dp _ _ _

end Xv6.Fs
