import Xv6.Fs.RefFiles

/-!
# Reference counts across calls

Each call, on each of its paths, drops the references that it has taken. So the
counts are exact whenever no call is in progress, and neither `filedup` nor
`fileclose` meets a file without references.
-/

namespace Xv6.Fs

open Function Lib Finset
open Xv6.Inode (Dinode ninode)

variable {P : Nat → Proc} {o : Nat × Nat → Option Nat} {g : Nat → Option Nat} {T F : List Nat}
variable {s s' : Fs}

variable [Superblock]

/-! ## Calls -/

section

omit [Superblock]

/-- A process that does not run holds nothing. -/
def Idle (P : Nat → Proc) : Prop :=
  ∀ p < nproc, (P p).state ≠ .runnable → (∀ fd < nofile, (P p).ofile fd = none) ∧ (P p).cwd = none

/-- Every reference is that of a descriptor, of a file or of a current
directory. -/
def Exact (s : Fs) : Prop := Refs s.proc (slotsOf s.proc) (cwdOf s.proc) [] [] s ∧ Idle s.proc

lemma idle_setOfile {p fd : Nat} {f : Option Nat} (h : Idle P) (hp : (P p).state = .runnable) :
    Idle (setOfile P p fd f) := by
  intro q hq hstate
  by_cases hqp : q = p
  · subst hqp
    exact absurd hp (by simpa [setOfile] using hstate)
  · simp only [setOfile, update_of_ne hqp] at hstate ⊢
    exact h q hq hstate

lemma Refs.exact (h : Refs P (slotsOf P) (cwdOf P) [] [] s) (hidle : Idle P) : Exact s := by
  unfold Exact
  rw [h.proc]
  exact ⟨h, hidle⟩

end

/-- What the calls of a process may rely on. -/
structure Ready (P : Nat → Proc) (p : Nat) : Prop where
  lt : p < nproc
  runnable : (P p).state = .runnable
  idle : Idle P

variable {p : Nat}

section

omit [Superblock]

/-- A call that leaves the process table alone. -/
lemma triple_exact {α : Type} {m : FsM α} (hr : Ready P p)
    (h : Triple (Refs P (slotsOf P) (cwdOf P) [] []) m (fun _ => Refs P (slotsOf P) (cwdOf P) [] []) NotFile) :
    Triple (Refs P (slotsOf P) (cwdOf P) [] []) m (fun _ => Exact) NotFile :=
  h.post fun _ _ hs => hs.exact hr.idle

lemma Ready.setOfile (hr : Ready P p) (fd : Nat) (f : Option Nat) : Ready (setOfile P p fd f) p where
  lt := hr.lt
  runnable := by
    rw [Fs.setOfile, update_self]
    exact hr.runnable
  idle := idle_setOfile hr.idle hr.runnable

lemma exact_setOfile (hr : Ready P p) (fd : Nat) (f : Option Nat)
    (h : Refs (setOfile P p fd f) (slotsOf (setOfile P p fd f)) (cwdOf P) [] [] s) : Exact s := by
  rw [← cwdOf_setOfile (P := P) p fd f] at h
  exact h.exact (hr.setOfile fd f).idle

/-- `p->ofile[fd] = 0`, where the call takes the reference. -/
lemma clearFd_refs (hp : p < nproc) {fd f : Nat} (hfd : fd < nofile) (hf : (P p).ofile fd = some f) :
    Triple (Refs P (slotsOf P) g T F) (setFd p fd none)
      (fun _ => Refs (setOfile P p fd none) (slotsOf (setOfile P p fd none)) g T (f :: F)) NotFile := by
  intro s hs
  refine (setFd_refs p fd none s (hs.clear (mem_slots.mpr ⟨hp, hfd⟩) hf)).mono fun _ t ht => ?_
  rw [slotsOf_setOfile]
  exact ht

lemma sysDup_exact (hr : Ready P p) (n : Int) :
    Triple (Refs P (slotsOf P) (cwdOf P) [] []) (sysDup p n) (fun _ => Exact) NotFile := by
  refine (argfd_refs p n).bind fun r => ?_
  match r with
  | none => exact triple_pure fun _ hs => hs.1.exact hr.idle
  | some (fd, f) =>
    intro s hs
    obtain ⟨hlt, hf⟩ := hs.2 fd f rfl
    refine (fdalloc_setFd s hs.1).bind fun r => ?_
    match r with
    | none => exact triple_pure fun _ hs => hs.exact hr.idle
    | some gd =>
      intro s' hs'
      -- the old descriptor holds the file, so there is a reference to copy
      refine (filedup_refs (mem_slots.mpr ⟨hr.lt, hlt⟩) hf s' hs'.2.2).bind fun _ => ?_
      refine triple_pure fun t ht => exact_setOfile hr gd (some f) ?_
      rw [slotsOf_setOfile]
      exact ht.fill (mem_slots.mpr ⟨hr.lt, hs'.1⟩) hs'.2.1

/-- A call on a descriptor. -/
lemma argfd_bind {α : Type} {k : Option (Nat × Nat) → FsM α} (n : Int)
    (h : ∀ r, Triple (Refs P o g T F) (k r) (fun _ => Refs P o g T F) NotFile) :
    Triple (Refs P o g T F) (argfd p n >>= k) (fun _ => Refs P o g T F) NotFile :=
  ((argfd_refs p n).post fun _ _ hs => hs.1).bind h

end

lemma sysClose_exact (hr : Ready P p) (n : Int) :
    Triple (Refs P (slotsOf P) (cwdOf P) [] []) (sysClose p n) (fun _ => Exact) NotFile := by
  refine (argfd_refs p n).bind fun r => ?_
  match r with
  | none => exact triple_pure fun _ hs => hs.1.exact hr.idle
  | some (fd, f) =>
    intro s hs
    obtain ⟨hlt, hf⟩ := hs.2 fd f rfl
    refine (clearFd_refs hr.lt hlt hf s hs.1).bind fun _ => (fileclose_refs f).bind fun _ => ?_
    exact triple_pure fun _ ht => exact_setOfile hr fd none ht

lemma filestat_refs (f : Nat) (ok : Bool) :
    Triple (Refs P o g T F) (filestat f ok) (fun _ => Refs P o g T F) NotFile := by
  refine aside_refs (keeps_get.bind fun s => keeps_ite (fun _ => ?_) fun _ => keeps_pure _)
  refine (ilock_aside _).bind fun _ => (iunlock_aside _).bind fun _ => ?_
  exact keeps_ite (fun _ => keeps_pure _) fun _ => keeps_pure _

lemma fileread_refs (f : Nat) (m : UserMem) (addr : Nat) (n io : Int) :
    Triple (Refs P o g T F) (fileread f m addr n io) (fun _ => Refs P o g T F) NotFile := by
  refine (aside_refs keeps_get).bind fun s => ?_
  dsimp only
  refine triple_ite (fun _ => triple_pure fun _ => id) fun _ => ?_
  split
  next => exact triple_pure fun _ => id
  next => exact triple_pure fun _ => id
  next =>
    refine (ilock_aside _).refs fun _ => (aside_refs keeps_get).bind fun _ => ?_
    refine (readi_aside _ _ _ _).refs fun r => ?_
    match r with
    | none => exact (iunlock_aside _).refs fun _ => triple_pure fun _ => id
    | some bs =>
      refine Triple.bind (modifyFile_refs ?_ ?_ ?_) fun _ =>
        (iunlock_aside _).refs fun _ => triple_pure fun _ => id
      · exact fun _ => rfl
      · exact fun _ => rfl
      · exact fun _ => rfl
  next => exact triple_throw (by decide)

lemma filewriteRounds_refs (f : Nat) (m : UserMem) (addr n k i : Nat) :
    Triple (Refs P o g T F) (filewriteRounds f m addr n k i) (fun _ => Refs P o g T F) NotFile := by
  induction k generalizing i with
  | zero => exact triple_pure fun _ => id
  | succ k ih =>
    refine triple_ite (fun _ => beginOp_aside.refs fun _ => ?_) fun _ => triple_pure fun _ => id
    refine (aside_refs keeps_get).bind fun _ => (ilock_aside _).refs fun _ => ?_
    refine (aside_refs keeps_get).bind fun _ => (writei_aside _ _ _ _).refs fun r => ?_
    refine Triple.bind (Q := fun _ => Refs P o g T F) (triple_ite (fun _ => modifyFile_refs ?_ ?_ ?_)
      fun _ => triple_pure fun _ => id) fun _ => ?_
    · exact fun _ => rfl
    · exact fun _ => rfl
    · exact fun _ => rfl
    refine (iunlock_aside _).refs fun _ => endOp_aside.refs fun _ => ?_
    exact triple_ite (fun _ => triple_pure fun _ => id) fun _ => ih _

lemma filewrite_refs (f : Nat) (m : UserMem) (addr : Nat) (n io : Int) :
    Triple (Refs P o g T F) (filewrite f m addr n io) (fun _ => Refs P o g T F) NotFile := by
  refine (aside_refs keeps_get).bind fun s => ?_
  dsimp only
  refine triple_ite (fun _ => triple_pure fun _ => id) fun _ => ?_
  split
  next => exact triple_pure fun _ => id
  next => exact triple_pure fun _ => id
  next => exact (filewriteRounds_refs f m addr _ _ _).bind fun _ => triple_pure fun _ => id
  next => exact triple_throw (by decide)

/-! ## Names -/

section

omit [Superblock]

/-- A process with another current directory and state. -/
def setCwdOf (P : Nat → Proc) (p : Nat) (cwd : Option Nat) (state : ProcTable.State) : Nat → Proc :=
  update P p { P p with cwd := cwd, state := state }

lemma slotsOf_setCwdOf (p : Nat) (cwd : Option Nat) (state : ProcTable.State) :
    slotsOf (setCwdOf P p cwd state) = slotsOf P := by
  funext ⟨q, fd⟩
  unfold slotsOf setCwdOf
  by_cases hq : q = p
  · subst hq
    simp
  · simp [hq]

lemma cwdOf_setCwdOf (p : Nat) (cwd : Option Nat) (state : ProcTable.State) :
    cwdOf (setCwdOf P p cwd state) = update (cwdOf P) p cwd := by
  funext q
  unfold cwdOf setCwdOf
  by_cases hq : q = p
  · subst hq
    simp
  · simp [hq]

/-- The process that makes a call changes its current directory. -/
lemma exact_setCwdOf (cwd : Option Nat) (state : ProcTable.State)
    (hidle : ∀ q < nproc, q ≠ p → (P q).state ≠ .runnable →
      (∀ fd < nofile, (P q).ofile fd = none) ∧ (P q).cwd = none)
    (hstate : p < nproc → state ≠ .runnable → (∀ fd < nofile, (P p).ofile fd = none) ∧ cwd = none)
    (h : Refs (setCwdOf P p cwd state) (slotsOf P) (update (cwdOf P) p cwd) [] [] s) :
    Exact s := by
  rw [← slotsOf_setCwdOf p cwd state, ← cwdOf_setCwdOf p cwd state] at h
  refine h.exact fun q hq hne => ?_
  by_cases hqp : q = p
  · subst hqp
    simp only [setCwdOf, update_self] at hne ⊢
    exact hstate hq hne
  · simp only [setCwdOf, update_of_ne hqp] at hne ⊢
    exact hidle q hq hqp hne

end

lemma sysLinkBad_refs (ip : Nat) :
    Triple (Refs P o g (ip :: T) F) (sysLinkBad ip) (fun _ => Refs P o g T F) NotFile := by
  refine (ilock_aside ip).refs fun _ => (modifyCopy_aside ip _).refs fun _ =>
    (iupdate_aside ip).refs fun _ => (iunlockput_refs ip).bind fun _ => ?_
  exact endOp_refs _

lemma sysLinkNew_refs (hp : p < nproc) (ip : Nat) (new : List UInt8) :
    Triple (Refs P o (cwdOf P) (ip :: T) F) (sysLinkNew p ip new)
      (fun _ => Refs P o (cwdOf P) T F) NotFile := by
  refine (namex_refs hp true new).bind fun r => ?_
  match r with
  | none => exact sysLinkBad_refs ip
  | some (dp, name) =>
    refine (ilock_aside dp).refs fun _ => (getInode_aside ip).refs fun inode => ?_
    refine (dirlink_refs dp name _).bind fun r => triple_ite (fun _ => ?_) fun _ => ?_
    · exact (iunlockput_refs dp).bind fun _ => sysLinkBad_refs ip
    · refine (iunlockput_refs dp).bind fun _ => (iput_refs ip).bind fun _ => ?_
      exact endOp_refs _

lemma sysLink_refs (hp : p < nproc) (old new : Option (List UInt8)) :
    Triple (Refs P o (cwdOf P) T F) (sysLink p old new) (fun _ => Refs P o (cwdOf P) T F) NotFile := by
  unfold sysLink
  split
  next old new =>
    refine beginOp_aside.refs fun _ => (namei_refs hp old).bind fun r => ?_
    match r with
    | none => exact endOp_refs _
    | some ip =>
      refine (ilock_aside ip).refs fun _ => (getInode_aside ip).refs fun inode => ?_
      refine triple_ite (fun _ => ?_) fun _ => ?_
      · exact (iunlockput_refs ip).bind fun _ => endOp_refs _
      · exact (modifyCopy_aside ip _).refs fun _ => (iupdate_aside ip).refs fun _ =>
          (iunlock_aside ip).refs fun _ => sysLinkNew_refs hp ip new
  next => exact triple_pure fun _ => id

lemma sysUnlinkBad_refs (dp : Nat) :
    Triple (Refs P o g (dp :: T) F) (sysUnlinkBad dp) (fun _ => Refs P o g T F) NotFile :=
  (iunlockput_refs dp).bind fun _ => endOp_refs _

lemma sysUnlinkEntry_refs (dp ip off : Nat) :
    Triple (Refs P o g (ip :: dp :: T) F) (sysUnlinkEntry dp ip off) (fun _ => Refs P o g T F) NotFile := by
  refine (ilock_aside ip).refs fun _ => (getInode_aside ip).refs fun inode => ?_
  refine triple_ite (fun _ => triple_throw (by decide)) fun _ => ?_
  refine (aside_refs (keeps_ite (fun _ => (isdirempty_aside ip).bind fun _ => keeps_pure _)
    fun _ => keeps_pure _)).bind fun keep => triple_ite (fun _ => ?_) fun _ => ?_
  · exact (iunlockput_refs ip).bind fun _ => sysUnlinkBad_refs dp
  · refine (writei_aside dp _ _ _).refs fun r =>
      triple_ite (fun _ => triple_throw (by decide)) fun _ => ?_
    refine (aside_refs (keeps_ite (fun _ => (modifyCopy_aside dp _).bind fun _ => iupdate_aside dp)
      fun _ => keeps_pure _)).bind fun _ => ?_
    refine ((iunlockput_refs dp).pre fun _ hs => hs.swap).bind fun _ => ?_
    refine (modifyCopy_aside ip _).refs fun _ => (iupdate_aside ip).refs fun _ =>
      (iunlockput_refs ip).bind fun _ => ?_
    exact endOp_refs _

lemma sysUnlink_refs (hp : p < nproc) (path : Option (List UInt8)) :
    Triple (Refs P o (cwdOf P) T F) (sysUnlink p path) (fun _ => Refs P o (cwdOf P) T F) NotFile := by
  cases path with
  | none => exact triple_pure fun _ => id
  | some path =>
    refine beginOp_aside.refs fun _ => (namex_refs hp true path).bind fun r => ?_
    match r with
    | none => exact endOp_refs _
    | some (dp, name) =>
      refine (ilock_aside dp).refs fun _ => triple_ite (fun _ => sysUnlinkBad_refs dp) fun _ => ?_
      refine (dirlookup_refs dp name).bind fun r => ?_
      match r with
      | none => exact sysUnlinkBad_refs dp
      | some (ip, off) => exact sysUnlinkEntry_refs dp ip off

lemma createFail_refs (dp ip : Nat) :
    Triple (Refs P o g (ip :: dp :: T) F) (createFail dp ip)
      (fun r s => r = none ∧ Refs P o g T F s) NotFile := by
  refine (modifyCopy_aside ip _).refs fun _ => (iupdate_aside ip).refs fun _ =>
    (iunlockput_refs ip).bind fun _ => (iunlockput_refs dp).bind fun _ => ?_
  exact triple_pure fun _ hs => ⟨rfl, hs⟩

lemma createDots_refs (dp ip : Nat) :
    Triple (Refs P o g T F) (createDots dp ip) (fun _ => Refs P o g T F) NotFile := by
  refine (getInode_aside ip).refs fun _ => (dirlink_refs ip dot _).bind fun r => ?_
  refine triple_ite (fun _ => triple_pure fun _ => id) fun _ => ?_
  refine (getInode_aside dp).refs fun _ => (dirlink_refs ip dotdot _).bind fun r => ?_
  exact triple_pure fun _ => id

/-- What `create` leaves: a reference to the inode that it returns. -/
def Created (P : Nat → Proc) (o : Nat × Nat → Option Nat) (g : Nat → Option Nat) (T F : List Nat)
    (r : Option Nat) (s : Fs) : Prop :=
  match r with
  | none => Refs P o g T F s
  | some e => Refs P o g (e :: T) F s

lemma createNew_refs (dp ip : Nat) (name : Name) (type major minor : Nat) :
    Triple (Refs P o g (ip :: dp :: T) F) (createNew dp ip name type major minor)
      (Created P o g T F) NotFile := by
  have hfail : Triple (Refs P o g (ip :: dp :: T) F) (createFail dp ip) (Created P o g T F) NotFile :=
    (createFail_refs dp ip).post fun r s hs => by
      rw [hs.1]
      exact hs.2
  refine (ilock_aside ip).refs fun _ => (modifyCopy_aside ip _).refs fun _ =>
    (iupdate_aside ip).refs fun _ => ?_
  refine (triple_ite (fun _ => createDots_refs dp ip) fun _ => triple_pure fun _ => id).bind fun ok => ?_
  refine triple_ite (fun _ => ?_) fun _ => hfail
  refine (getInode_aside ip).refs fun _ => (dirlink_refs dp name _).bind fun r => ?_
  refine triple_ite (fun _ => hfail) fun _ => ?_
  refine (aside_refs (keeps_ite (fun _ => (modifyCopy_aside dp _).bind fun _ => iupdate_aside dp)
    fun _ => keeps_pure _)).bind fun _ => ?_
  refine ((iunlockput_refs dp).pre fun _ hs => hs.swap).bind fun _ => ?_
  exact triple_pure fun _ => id

lemma create_refs (hp : p < nproc) (path : List UInt8) (type major minor : Nat) :
    Triple (Refs P o (cwdOf P) T F) (create p path type major minor)
      (Created P o (cwdOf P) T F) NotFile := by
  refine (namex_refs hp true path).bind fun r => ?_
  match r with
  | none => exact triple_pure fun _ => id
  | some (dp, name) =>
    refine (ilock_aside dp).refs fun _ => (dirlookup_refs dp name).bind fun r => ?_
    match r with
    | some (ip, off) =>
      refine ((iunlockput_refs dp).pre fun _ hs => hs.swap).bind fun _ => ?_
      refine (ilock_aside ip).refs fun _ => (getInode_aside ip).refs fun inode => ?_
      refine triple_ite (fun _ => triple_pure fun _ => id) fun _ => ?_
      exact (iunlockput_refs ip).bind fun _ => triple_pure fun _ => id
    | none =>
      refine (ialloc_refs type).bind fun r => ?_
      match r with
      | none => exact (iunlockput_refs dp).bind fun _ => triple_pure fun _ => id
      | some ip => exact createNew_refs dp ip name type major minor

lemma openInode_refs (hp : p < nproc) (path : List UInt8) (omode : Nat) :
    Triple (Refs P o (cwdOf P) T F) (openInode p path omode) (Created P o (cwdOf P) T F) NotFile := by
  refine triple_ite (fun _ => create_refs hp path _ _ _) fun _ => (namei_refs hp path).bind fun r => ?_
  match r with
  | none => exact triple_pure fun _ => id
  | some ip =>
    refine (ilock_aside ip).refs fun _ => (getInode_aside ip).refs fun inode => ?_
    refine triple_ite (fun _ => ?_) fun _ => triple_pure fun _ => id
    exact (iunlockput_refs ip).bind fun _ => triple_pure fun _ => id

lemma sysOpenBad_refs (ip : Nat) :
    Triple (Refs P o g (ip :: T) F) (sysOpenBad ip) (fun _ => Refs P o g T F) NotFile :=
  (iunlockput_refs ip).bind fun _ => endOp_refs _

lemma openFile_exact (hr : Ready P p) (ip omode : Nat) :
    Triple (Refs P (slotsOf P) (cwdOf P) [ip] []) (openFile p ip omode) (fun _ => Exact) NotFile := by
  have hbad : Triple (Refs P (slotsOf P) (cwdOf P) [ip] []) (sysOpenBad ip) (fun _ => Exact) NotFile :=
    (sysOpenBad_refs ip).post fun _ _ hs => hs.exact hr.idle
  refine (getInode_aside ip).refs fun inode => triple_ite (fun _ => hbad) fun _ => ?_
  intro s hs
  refine (filealloc_refs hs).bind fun r s₁ hs₁ => ?_
  match r, hs₁ with
  | none, hs₁ => exact hbad s₁ hs₁
  | some f, ⟨hs₁, hlt, hnone, _, _⟩ =>
    -- `fdalloc` does not touch the file table
    have hfd : Ends (fdalloc p f) s₁ (fun _ s₂ => s₂.ftable = s₁.ftable) NotFile := by
      apply ends_get_bind
      split
      · exact ends_pure rfl
      · exact rfl
    refine ((fdalloc_refs hr.lt s₁ hs₁).and hfd |>.errors fun _ he => he.1).bind fun r s₂ hs₂ => ?_
    match r, hs₂ with
    | none, ⟨hs₂, _⟩ => exact ((fileclose_refs f).bind fun _ => hbad) s₂ hs₂
    | some fd, ⟨⟨hfdlt, hfree, hs₂⟩, htable⟩ =>
      have hold : fileInode (s₂.ftable f) = none := fileInode_of_type (by rw [htable, hnone])
      have hpos : 0 < (s₂.ftable f).ref := by
        have hslot := mem_slots.mpr ⟨hr.lt, hfdlt⟩
        have hcount := count_pos (g := slotsOf (setOfile P p fd (some f))) (a := f) hslot (by
          rw [slotsOf_setOfile, update_self])
        rw [hs₂.file f hlt]
        omega
      -- the two assignments to the file, whatever the type
      have hgive : ∀ t major off, (t = .inode ∨ t = .device) →
          Refs (setOfile P p fd (some f)) (slotsOf (setOfile P p fd (some f))) (cwdOf P) [] []
            { s₂ with ftable := update s₂.ftable f { s₂.ftable f with
                type := t, major := major, off := off, ip := ip
                readable := omode &&& oWronly = 0
                writable := omode &&& oWronly ≠ 0 ∨ omode &&& oRdwr ≠ 0 } } := by
        intro t major off ht
        refine hs₂.giveInode hlt hold ?_ rfl
        rw [fileInode, if_pos ⟨hpos, ht⟩]
      have hend : ∀ d : Dinode, Triple (Refs (setOfile P p fd (some f))
          (slotsOf (setOfile P p fd (some f))) (cwdOf P) [] [])
          (do (if omode &&& oTrunc ≠ 0 ∧ d.type = tFile then itrunc ip else pure ())
              iunlock ip
              endOp
              pure (fd : Int)) (fun _ => Exact) NotFile := by
        intro d
        refine (aside_refs (keeps_ite (fun _ => itrunc_aside ip) fun _ => keeps_pure _)).bind fun _ => ?_
        refine (iunlock_aside ip).refs fun _ => endOp_aside.refs fun _ => ?_
        exact triple_pure fun _ hs => exact_setOfile hr fd (some f) hs
      dsimp only
      split
      · apply ends_modify_bind
        apply ends_modify_bind
        refine hend _ _ ?_
        simpa using hgive .device inode.copy.major (s₂.ftable f).off (.inr rfl)
      · apply ends_modify_bind
        apply ends_modify_bind
        refine hend _ _ ?_
        simpa using hgive .inode (s₂.ftable f).major 0 (.inl rfl)

lemma sysOpen_exact (hr : Ready P p) (path : Option (List UInt8)) (omode : Nat) :
    Triple (Refs P (slotsOf P) (cwdOf P) [] []) (sysOpen p path omode) (fun _ => Exact) NotFile := by
  cases path with
  | none => exact triple_pure fun _ hs => hs.exact hr.idle
  | some path =>
    refine beginOp_aside.refs fun _ => (openInode_refs hr.lt path omode).bind fun r => ?_
    match r with
    | none => exact endOp_aside.refs fun _ => triple_pure fun _ hs => hs.exact hr.idle
    | some ip => exact openFile_exact hr ip omode

lemma sysCreate_refs (hp : p < nproc) (path : Option (List UInt8)) (type major minor : Nat) :
    Triple (Refs P o (cwdOf P) T F) (sysCreate p path type major minor)
      (fun _ => Refs P o (cwdOf P) T F) NotFile := by
  refine beginOp_aside.refs fun _ => ?_
  cases path with
  | none => exact endOp_refs _
  | some path =>
    refine (create_refs hp path type major minor).bind fun r => ?_
    match r with
    | none => exact endOp_refs _
    | some ip =>
      exact (iunlockput_refs ip).bind fun _ => endOp_refs _

lemma sysChdir_exact (hr : Ready P p) (path : Option (List UInt8)) :
    Triple (Refs P (slotsOf P) (cwdOf P) [] []) (sysChdir p path) (fun _ => Exact) NotFile := by
  refine beginOp_aside.refs fun _ => ?_
  cases path with
  | none => exact endOp_aside.refs fun _ => triple_pure fun _ hs => hs.exact hr.idle
  | some path =>
    refine (namei_refs hr.lt path).bind fun r => ?_
    match r with
    | none => exact endOp_aside.refs fun _ => triple_pure fun _ hs => hs.exact hr.idle
    | some ip =>
      refine (ilock_aside ip).refs fun _ => (getInode_aside ip).refs fun inode => ?_
      refine triple_ite (fun _ => ?_) fun _ => ?_
      · exact (iunlockput_refs ip).bind fun _ => endOp_aside.refs fun _ =>
          triple_pure fun _ hs => hs.exact hr.idle
      · refine (iunlock_aside ip).refs fun _ => triple_get_bind fun s hs => ?_
        split
        next => exact triple_throw (by decide)
        next cwd hcwd =>
          have hold : cwdOf P p = some cwd := by rw [cwdOf, ← hs.proc, hcwd]
          refine ((iput_refs cwd).pre fun t ht => ht ▸ hs.dropCwd hr.lt hold).bind fun _ => ?_
          refine endOp_aside.refs fun _ => (modifyProc_refs p _).bind fun _ => ?_
          refine triple_pure fun t ht => exact_setCwdOf (p := p) (some ip) (P p).state
            (fun q hq _ => hr.idle q hq) (fun _ hne => absurd hr.runnable hne) ?_
          have hset := ht.setCwd hr.lt (update_self ..)
          rw [update_idem] at hset
          exact hset

/-! ## Pipes -/

section

omit [Superblock]

/-- What `pipealloc` leaves: a reference to each end. -/
def Piped (P : Nat → Proc) (o : Nat × Nat → Option Nat) (g : Nat → Option Nat) (T F : List Nat)
    (r : Option (Nat × Nat)) (s : Fs) : Prop :=
  match r with
  | none => Refs P o g T F s
  | some (f0, f1) => Refs P o g T (f0 :: f1 :: F) s

lemma piped_none {r : Option (Nat × Nat)} (h : r = none ∧ Refs P o g T F s) : Piped P o g T F r s := by
  rw [h.1]
  exact h.2

lemma Refs.swapFiles {a b : Nat} (h : Refs P o g T (a :: b :: F) s) : Refs P o g T (b :: a :: F) s :=
  { h with
    file := fun f hf => by rw [h.file f hf, (List.Perm.swap b a F).count_eq]
    held_lt := fun f hf => h.held_lt f ((List.Perm.swap b a F).mem_iff.mpr hf) }

lemma setOfile_self (P : Nat → Proc) (p fd : Nat) (f : Option Nat) :
    (setOfile P p fd f p).ofile fd = f := by
  rw [setOfile, update_self]
  exact update_self ..

lemma setOfile_other (P : Nat → Proc) (p : Nat) {fd gd : Nat} (f : Option Nat) (h : gd ≠ fd) :
    (setOfile P p fd f p).ofile gd = (P p).ofile gd := by
  rw [setOfile, update_self]
  exact update_of_ne h ..

end

lemma pipeallocBad_refs (f0 : Nat) (f1 : Option Nat) :
    Triple (Refs P o g T (f0 :: (f1.toList ++ F))) (pipeallocBad (some f0) f1)
      (fun r s => r = none ∧ Refs P o g T F s) NotFile := by
  refine Triple.bind (fileclose_refs f0) fun _ => ?_
  cases f1 with
  | none => exact triple_pure fun _ hs => ⟨rfl, hs⟩
  | some f1 => exact (fileclose_refs f1).bind fun _ => triple_pure fun _ hs => ⟨rfl, hs⟩

lemma pipealloc_refs (pi : Nat) (h : Refs P o g T F s) :
    Ends (pipealloc pi) s (Piped P o g T F) NotFile := by
  refine (filealloc_refs h).bind fun r s₁ hs₁ => ?_
  match r, hs₁ with
  | none, hs₁ => exact ends_pure hs₁
  | some f0, ⟨hs₁, hlt₀, hnone₀, _, _⟩ =>
    refine (filealloc_refs hs₁).bind fun r s₂ hs₂ => ?_
    match r, hs₂ with
    | none, hs₂ => exact (pipeallocBad_refs f0 none s₂ hs₂).mono fun _ _ => piped_none
    | some f1, ⟨hs₂, hlt₁, hnone₁, hzero₁, hother⟩ =>
      dsimp only
      split
      · exact (pipeallocBad_refs f0 (some f1) s₂ hs₂.swapFiles).mono fun _ _ => piped_none
      · have hne : f0 ≠ f1 := by
          rintro rfl
          have hfile := hs₁.file f0 hlt₀
          rw [List.count_cons_self] at hfile
          omega
        have hnone₀' : (s₂.ftable f0).type = .none := by rw [hother f0 hne, hnone₀]
        -- an end of a pipe refers to no inode
        have hset : ∀ {t : Fs} {f : Nat} {x : File}, Refs P o g T (f1 :: f0 :: F) t →
            (t.ftable f).type = .none → x.type = .pipe → x.ref = (t.ftable f).ref →
            x.ref ≠ 0 →
            Refs P o g T (f1 :: f0 :: F) { t with ftable := update t.ftable f x } := by
          intro t f x ht hnone hpipe href hpos
          refine ht.setFile (fun _ _ => rfl) (by rw [href]) (fun hc => absurd hc hpos) ?_ ht.held_lt
          rw [fileInode_of_type hnone, fileInode, hpipe, if_neg]
          rintro ⟨-, hc | hc⟩ <;> cases hc
        have hpos : ∀ f, f = f0 ∨ f = f1 → (s₂.ftable f).ref ≠ 0 := by
          rintro f (rfl | rfl)
          · have hfile := hs₂.file f hlt₀
            rw [List.count_cons_of_ne (Ne.symm hne), List.count_cons_self] at hfile
            omega
          · have hfile := hs₂.file f hlt₁
            rw [List.count_cons_self] at hfile
            omega
        apply ends_modify_bind
        apply ends_modify_bind
        refine Refs.swapFiles (hset (hset hs₂ hnone₀' rfl rfl (hpos f0 (.inl rfl))) ?_ rfl rfl ?_)
        · show (update s₂.ftable f0 _ f1).type = _
          rw [update_of_ne (Ne.symm hne), hnone₁]
        · show (update s₂.ftable f0 _ f1).ref ≠ 0
          rw [update_of_ne (Ne.symm hne)]
          exact hpos f1 (.inr rfl)

lemma sysPipeBad_refs (rf wf : Nat) :
    Triple (Refs P o g T (rf :: wf :: F)) (sysPipeBad rf wf) (fun _ => Refs P o g T F) NotFile :=
  (fileclose_refs rf).bind fun _ => (fileclose_refs wf).bind fun _ => triple_pure fun _ => id

lemma sysPipe_exact (hr : Ready P p) (pi : Nat) (ok : Bool) :
    Triple (Refs P (slotsOf P) (cwdOf P) [] []) (sysPipe p pi ok) (fun _ => Exact) NotFile := by
  refine Triple.bind (fun s hs => pipealloc_refs pi hs) fun r => ?_
  match r with
  | none => exact triple_pure fun _ hs => hs.exact hr.idle
  | some (rf, wf) =>
    refine (fdalloc_refs hr.lt).bind fun r => ?_
    match r with
    | none => exact (sysPipeBad_refs rf wf).post fun _ _ hs => hs.exact hr.idle
    | some fd0 =>
      rintro s ⟨hlt₀, hnone₀, hs⟩
      have hr₁ := hr.setOfile fd0 (some rf)
      have hself := setOfile_self P p fd0 (some rf)
      rw [← cwdOf_setOfile (P := P) p fd0 (some rf)] at hs
      generalize setOfile P p fd0 (some rf) = P₁ at hr₁ hself hs
      refine (fdalloc_refs hr.lt s hs).bind fun r s' hs' => ?_
      match r, hs' with
      | none, hs' =>
        refine (clearFd_refs hr.lt hlt₀ hself s' hs').bind fun _ => ?_
        exact (sysPipeBad_refs rf wf).post fun _ t ht => exact_setOfile hr₁ fd0 none ht
      | some fd1, ⟨hlt₁, hnone₁, hs'⟩ =>
        have hr₂ := hr₁.setOfile fd1 (some wf)
        have hself₁ := setOfile_self P₁ p fd1 (some wf)
        have hne : fd0 ≠ fd1 := by
          rintro rfl
          rw [hself] at hnone₁
          cases hnone₁
        have hself₀ := (setOfile_other P₁ p (some wf) hne).trans hself
        rw [← cwdOf_setOfile (P := P₁) p fd1 (some wf)] at hs'
        generalize setOfile P₁ p fd1 (some wf) = P₂ at hr₂ hself₁ hself₀ hs'
        refine triple_ite (fun _ => triple_pure fun _ ht => ht.exact hr₂.idle) (fun _ => ?_) s' hs'
        refine (clearFd_refs hr.lt hlt₀ hself₀).bind fun _ => ?_
        rw [← cwdOf_setOfile (P := P₂) p fd0 none]
        refine (clearFd_refs hr.lt hlt₁ ((setOfile_other P₂ p none hne.symm).trans hself₁)).bind fun _ => ?_
        refine ((sysPipeBad_refs rf wf).pre fun _ ht => ht.swapFiles).post fun _ t ht => ?_
        exact exact_setOfile (hr₂.setOfile fd0 none) fd1 none ht

/-! ## Processes -/

section

omit [Superblock]

/-- The process table while `fork` copies the descriptors of `p` to `np`, from `fd`
on. -/
structure Copying (P P' : Nat → Proc) (np fd : Nat) : Prop where
  other : ∀ q ≠ np, P' q = P q
  cwd : (P' np).cwd = none
  state : (P' np).state = (P np).state
  free : ∀ gd < nofile, fd ≤ gd → (P' np).ofile gd = none

lemma dupRounds_refs {np : Nat} (hp : p < nproc) (hnp : np < nproc) (fd n : Nat)
    (hfd : fd + n = nofile) :
    Triple (fun s => ∃ P', Copying P P' np fd ∧ Refs P' (slotsOf P') (cwdOf P') T F s) (dupRounds p np fd n)
      (fun _ s => ∃ P', Copying P P' np nofile ∧ Refs P' (slotsOf P') (cwdOf P') T F s) NotFile := by
  induction n generalizing fd with
  | zero =>
    refine triple_pure fun s hs => ?_
    rw [Nat.add_zero] at hfd
    rw [← hfd]
    exact hs
  | succ n ih =>
    apply triple_get_bind
    rintro s ⟨P', hc, hs⟩
    refine Triple.bind (Q := fun _ s => ∃ P', Copying P P' np (fd + 1) ∧
      Refs P' (slotsOf P') (cwdOf P') T F s) ?_ fun _ => ih (fd + 1) (by omega)
    split
    next hnone =>
      exact triple_pure fun t ht => ⟨P', { hc with free := fun gd hgd hle => hc.free gd hgd (by omega) }, ht ▸ hs⟩
    next f hf =>
      rw [hs.proc] at hf
      have hslot := mem_slots.mpr ⟨hp, show fd < nofile by omega⟩
      refine ((filedup_refs hslot hf).pre fun t ht => ht ▸ hs).bind fun _ => ?_
      refine (setFd_refs np fd (some f)).post fun _ t ht => ⟨setOfile P' np fd (some f), ?_, ?_⟩
      · refine ⟨fun q hq => ?_, ?_, ?_, fun gd hgd hle => ?_⟩
        · rw [setOfile, update_of_ne hq]
          exact hc.other q hq
        · rw [setOfile, update_self]
          exact hc.cwd
        · rw [setOfile, update_self]
          exact hc.state
        · rw [setOfile_other P' np (some f) (by omega)]
          exact hc.free gd hgd (by omega)
      · rw [slotsOf_setOfile, cwdOf_setOfile]
        exact ht.fill (mem_slots.mpr ⟨hnp, by omega⟩) (hc.free fd (by omega) (Nat.le_refl fd))

lemma fork_exact (hr : Ready P p) (ok : Bool) :
    Triple (Refs P (slotsOf P) (cwdOf P) [] []) (fork p ok) (fun _ => Exact) NotFile := by
  apply triple_get_bind
  intro s hs
  split
  next => exact triple_pure fun t ht => ht ▸ hs.exact hr.idle
  next np hfind =>
    have hlt : np < nproc := List.mem_range.mp (List.mem_of_find?_eq_some hfind)
    have hfound := List.find?_some hfind
    have hunused : (P np).state = .unused := by
      rw [← hs.proc]
      exact of_decide_eq_true hfound
    obtain ⟨hfree, hcwd⟩ := hr.idle np hlt (by rw [hunused]; decide)
    refine triple_ite (fun _ => ?_) fun _ => triple_pure fun t ht => ht ▸ hs.exact hr.idle
    have hstart : Copying P P np 0 := ⟨fun _ _ => rfl, hcwd, rfl, fun gd hgd _ => hfree gd hgd⟩
    refine ((dupRounds_refs hr.lt hlt 0 nofile (Nat.zero_add _)).pre fun t ht => ⟨P, hstart, ht ▸ hs⟩).bind
      fun _ => triple_get_bind ?_
    rintro t ⟨P', hc, ht⟩
    split
    next => exact triple_throw (by decide)
    next cwd hcwd' =>
      have hold : cwdOf P' p = some cwd := by rw [cwdOf, ← ht.proc, hcwd']
      refine ((idup_refs (ht.cwd_lt p hr.lt cwd hold)).pre fun u hu => hu ▸ ht).bind fun cwd => ?_
      refine (modifyProc_refs np _).bind fun _ => triple_pure fun u hu => ?_
      refine exact_setCwdOf (P := P') (p := np) (some cwd) .runnable ?_
        (fun _ hc => absurd rfl hc) (hu.setCwd hlt hc.cwd)
      intro q hq hqn hstate
      rw [hc.other q hqn] at hstate ⊢
      exact hr.idle q hq hstate

end

lemma execReads_aside (ip : Nat) (l : List (Nat × Nat)) : Aside (execReads ip l) := by
  induction l with
  | nil => exact keeps_pure _
  | cons x l ih => exact (readi_aside ip _ _ _).bind fun _ => ih

lemma exec_refs (hp : p < nproc) (path : Option (List UInt8)) (l : List (Nat × Nat)) (loaded ok : Bool) :
    Triple (Refs P o (cwdOf P) T F) (exec p path l loaded ok) (fun _ => Refs P o (cwdOf P) T F) NotFile := by
  cases path with
  | none => exact triple_pure fun _ => id
  | some path =>
    refine beginOp_aside.refs fun _ => (namei_refs hp path).bind fun r => ?_
    match r with
    | none => exact endOp_refs _
    | some ip =>
      refine (ilock_aside ip).refs fun _ => (execReads_aside ip l).refs fun _ => ?_
      refine triple_ite (fun _ => ?_) fun _ => (iunlockput_refs ip).bind fun _ => endOp_refs _
      refine (iunlockput_refs ip).bind fun _ => endOp_aside.refs fun _ => ?_
      exact triple_ite (fun _ => triple_pure fun _ => id) fun _ => triple_pure fun _ => id

/-- The process table while `exit` closes the descriptors of `p`, from `fd` on. -/
structure Closing (P P' : Nat → Proc) (p fd : Nat) : Prop where
  other : ∀ q ≠ p, P' q = P q
  closed : ∀ gd < fd, (P' p).ofile gd = none

lemma closeRounds_refs (hp : p < nproc) (fd n : Nat) (hfd : fd + n = nofile) :
    Triple (fun s => ∃ P', Closing P P' p fd ∧ Refs P' (slotsOf P') (cwdOf P') T F s) (closeRounds p fd n)
      (fun _ s => ∃ P', Closing P P' p nofile ∧ Refs P' (slotsOf P') (cwdOf P') T F s) NotFile := by
  induction n generalizing fd with
  | zero =>
    refine triple_pure fun s hs => ?_
    rw [Nat.add_zero] at hfd
    rw [← hfd]
    exact hs
  | succ n ih =>
    apply triple_get_bind
    rintro s ⟨P', hc, hs⟩
    refine Triple.bind (Q := fun _ s => ∃ P', Closing P P' p (fd + 1) ∧
      Refs P' (slotsOf P') (cwdOf P') T F s) ?_ fun _ => ih (fd + 1) (by omega)
    split
    next hnone =>
      rw [hs.proc] at hnone
      refine triple_pure fun t ht => ⟨P', { hc with closed := fun gd hgd => ?_ }, ht ▸ hs⟩
      rcases Nat.lt_succ_iff_lt_or_eq.mp hgd with hlt | rfl
      · exact hc.closed gd hlt
      · exact hnone
    next f hf =>
      rw [hs.proc] at hf
      -- the descriptor stops counting before it is cleared
      have hclear := hs.clear (mem_slots.mpr ⟨hp, show fd < nofile by omega⟩) hf
      refine ((fileclose_refs f).pre fun t ht => ht ▸ hclear).bind fun _ => ?_
      refine (setFd_refs p fd none).post fun _ t ht => ⟨setOfile P' p fd none, ?_, ?_⟩
      · refine ⟨fun q hq => ?_, fun gd hgd => ?_⟩
        · rw [setOfile, update_of_ne hq]
          exact hc.other q hq
        · by_cases hgf : gd = fd
          · rw [hgf, setOfile_self]
          · rw [setOfile_other P' p none hgf]
            exact hc.closed gd (by omega)
      · rw [slotsOf_setOfile, cwdOf_setOfile]
        exact ht

lemma exit_exact (hr : Ready P p) :
    Triple (Refs P (slotsOf P) (cwdOf P) [] []) (exit p) (fun _ => Exact) NotFile := by
  refine triple_ite (fun _ => triple_throw (by decide)) fun _ => ?_
  have hstart : Closing P P p 0 := ⟨fun _ _ => rfl, fun _ h => absurd h (Nat.not_lt_zero _)⟩
  refine ((closeRounds_refs hr.lt 0 nofile (Nat.zero_add _)).pre fun s hs => ⟨P, hstart, hs⟩).bind
    fun _ => triple_get_bind ?_
  rintro s ⟨P', hc, hs⟩
  split
  next => exact triple_throw (by decide)
  next cwd hcwd =>
    have hold : cwdOf P' p = some cwd := by rw [cwdOf, ← hs.proc, hcwd]
    refine Triple.bind ((aside_refs beginOp_aside).pre fun t ht => ht ▸ hs.dropCwd hr.lt hold) fun _ => ?_
    refine (iput_refs cwd).bind fun _ => endOp_aside.refs fun _ => ?_
    refine (modifyProc_refs p _).post fun _ t ht => ?_
    refine exact_setCwdOf (P := P') (p := p) none .zombie ?_
      (fun _ _ => ⟨hc.closed, rfl⟩) ht
    intro q hq hqp hstate
    rw [hc.other q hqp] at hstate ⊢
    exact hr.idle q hq hstate

/-! ## Runs -/

lemma run_exact {s : Fs} {c : Call} (h : Exact s) (hc : c.enabled s) :
    Ends (c.run) s (fun _ => Exact) NotFile := by
  obtain ⟨hs, hidle⟩ := h
  have hr : Ready s.proc c.proc := ⟨hc.1, hc.2, hidle⟩
  generalize hP : s.proc = P at hs hr
  have hkeep : ∀ {α : Type} {m : FsM α},
      Triple (Refs P (slotsOf P) (cwdOf P) [] []) m (fun _ => Refs P (slotsOf P) (cwdOf P) [] []) NotFile →
      Ends (do let _ ← m) s (fun _ => Exact) NotFile :=
    fun hm => ((triple_exact hr hm) s hs).bind fun _ _ ht => ends_pure ht
  cases c with
  | dup p fd => exact (sysDup_exact hr fd s hs).bind fun _ _ ht => ends_pure ht
  | read p fd m addr n io =>
    refine hkeep (argfd_bind fd fun r => ?_)
    match r with
    | none => exact triple_pure fun _ => id
    | some (_, f) => exact fileread_refs f m addr n io
  | write p fd m addr n io =>
    refine hkeep (argfd_bind fd fun r => ?_)
    match r with
    | none => exact triple_pure fun _ => id
    | some (_, f) => exact filewrite_refs f m addr n io
  | close p fd => exact (sysClose_exact hr fd s hs).bind fun _ _ ht => ends_pure ht
  | fstat p fd ok =>
    refine hkeep (argfd_bind fd fun r => ?_)
    match r with
    | none => exact triple_pure fun _ => id
    | some (_, f) => exact filestat_refs f ok
  | link p old new => exact hkeep (sysLink_refs hr.lt _ _)
  | unlink p path => exact hkeep (sysUnlink_refs hr.lt _)
  | «open» p path omode => exact (sysOpen_exact hr _ omode s hs).bind fun _ _ ht => ends_pure ht
  | mkdir p path | mknod p path major minor => exact hkeep (sysCreate_refs hr.lt _ _ _ _)
  | chdir p path => exact (sysChdir_exact hr _ s hs).bind fun _ _ ht => ends_pure ht
  | pipe p pi ok => exact (sysPipe_exact hr pi ok s hs).bind fun _ _ ht => ends_pure ht
  | exec p path l loaded ok => exact hkeep (exec_refs hr.lt _ l loaded ok)
  | fork p ok => exact (fork_exact hr ok s hs).bind fun _ _ ht => ends_pure ht
  | exit p => exact exit_exact hr s hs
  | wait p q =>
    apply ends_get_bind
    split
    next hzombie =>
      refine (modifyProc_refs q _ s hs).mono fun _ t ht => ?_
      refine exact_setCwdOf (P := P) (p := q) (cwdOf P q) .unused
        (fun r hlt _ => hr.idle r hlt) (fun hlt _ => hr.idle q hlt ?_) ?_
      · rw [← hP, hzombie]
        decide
      · rw [update_eq_self]
        exact ht
    next => exact ends_pure (hs.exact hr.idle)

lemma step_exact {s s' : Fs} {c : Call} (h : Exact s) (hs : step s c = some s') : Exact s' := by
  unfold step at hs
  split at hs
  next hc =>
    split at hs
    next hrun =>
      cases hs
      exact (run_exact h hc).ok hrun
    next => cases hs
  next => cases hs

omit [Superblock] in
lemma boot_exact (disk : Disk) (evict : Nat → List Nat) : Exact (boot disk evict) := by
  have hslots : ∀ f, count slots (slotsOf (boot disk evict).proc) f = 0 :=
    count_eq_zero fun x _ => by
      show ((boot disk evict).proc x.1).ofile x.2 = none
      simp only [boot]
      split <;> rfl
  have hcwd : cwdOf (boot disk evict).proc = update (fun _ => none) initproc (some 0) := by
    funext p
    show ((boot disk evict).proc p).cwd = _
    by_cases hp : p = initproc
    · rw [hp]
      rfl
    · rw [update_of_ne hp]
      simp only [boot, if_neg hp]
  have hinode : ∀ e, ((boot disk evict).itable e).ref = if e = 0 then 1 else 0 := by
    intro e
    simp only [boot]
    split <;> rfl
  refine ⟨⟨rfl, fun f _ => ?_, fun f _ _ => rfl, fun e _ => ?_, ?_, ?_, ?_, ?_, ?_⟩, ?_⟩
  · rw [hslots]
    rfl
  · have hfill := count_fill (S := range nproc) (g := fun _ => none) (i := initproc) (a := e) (b := 0)
      (mem_range.mpr (by decide)) rfl
    have hfiles : count (range nfile) (filesOf (boot disk evict).ftable) e = 0 :=
      count_eq_zero (fun _ _ => rfl) e
    rw [hinode, hcwd, hfill, hfiles, count_eq_zero (fun _ _ => rfl)]
    simp
  · intro x _ f hf
    simp only [slotsOf, boot] at hf
    split at hf <;> cases hf
  · intro p _ e he
    rw [hcwd] at he
    by_cases hp : p = initproc
    · rw [hp, update_self] at he
      cases he
      decide
    · rw [update_of_ne hp] at he
      cases he
  · intro f _ e he
    cases he
  · exact fun _ h => absurd h List.not_mem_nil
  · exact fun _ h => absurd h List.not_mem_nil
  · intro p _ hstate
    simp only [boot] at hstate ⊢
    split at hstate
    · exact absurd rfl hstate
    next hp =>
      rw [if_neg hp]
      exact ⟨fun _ _ => rfl, rfl⟩

lemma run_boot_exact {disk : Disk} {evict : Nat → List Nat} {cs : List Call} {s : Fs}
    (h : run step (boot disk evict) cs = some s) : Exact s :=
  run_induction (P := fun _ s => Exact s) h (boot_exact disk evict) fun _ _ _ _ ht hstep =>
    step_exact ht hstep

/-- Whatever is on the disk and whatever processes do: whenever no call is in
progress, the count of a file is the number of descriptors that hold it, a file
without references has no type, and the count of an inode is the number of files
and of processes that refer to it. The calls never reach the panics of `filedup`
and `fileclose`. -/
theorem reference_counts_exact {disk : Disk} {evict : Nat → List Nat} {cs : List Call} {s : Fs}
    (h : run step (boot disk evict) cs = some s) :
    (∀ f < nfile,
      (s.ftable f).ref = count slots (fun x => (s.proc x.1).ofile x.2) f ∧
      ((s.ftable f).ref = 0 → (s.ftable f).type = .none)) ∧
    (∀ e < ninode, (s.itable e).ref =
      count (range nfile) (fun f => fileInode (s.ftable f)) e +
        count (range nproc) (fun p => (s.proc p).cwd) e) ∧
    ∀ c : Call, c.enabled s → c.run s ≠ .error .filedup ∧ c.run s ≠ .error .fileclose := by
  have hexact := run_boot_exact h
  refine ⟨fun f hf => ⟨hexact.1.file f hf, hexact.1.unused f hf⟩, hexact.1.inode, fun c hc => ?_⟩
  constructor
  · exact fun he => ((run_exact hexact hc).error he).1 rfl
  · exact fun he => ((run_exact hexact hc).error he).2 rfl

/-- A process opens a file twice over, makes a directory and forks; the child goes
to the directory and closes one descriptor. -/
def sharing : List Call :=
  [.open 0 (some pathF) 0x202, .dup 0 0, .mkdir 0 (some pathA), .fork 0 true, .chdir 1 (some pathA),
    .close 1 0]

omit [Superblock] in
theorem reference_counts_exact_sharing :
    ∃ s, run (@step small) (boot emptyDisk fun _ => []) sharing = some s ∧
      (s.ftable 0).ref = 3 ∧ (s.itable 1).ref = 1 ∧
      (s.ftable 0).ref = count slots (fun x => (s.proc x.1).ofile x.2) 0 ∧
      (s.itable 1).ref = count (range nfile) (fun f => fileInode (s.ftable f)) 1 +
        count (range nproc) (fun p => (s.proc p).cwd) 1 := by
  have heval : (run (@step small) (boot emptyDisk fun _ => []) sharing).map
      (fun s => ((s.ftable 0).ref, (s.itable 1).ref)) = some (3, 1) := by decide +kernel
  obtain ⟨s, hs, hv⟩ := Option.map_eq_some_iff.mp heval
  obtain ⟨hfile, hinode⟩ := Prod.mk.inj hv
  have hall := @reference_counts_exact small _ _ _ _ hs
  exact ⟨s, hs, hfile, hinode, (hall.1 0 (by decide)).1, hall.2.1 1 (by decide)⟩

end Xv6.Fs
