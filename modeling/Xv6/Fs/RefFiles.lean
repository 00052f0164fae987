import Xv6.Fs.Refs

/-!
# References to files

`filealloc`, `filedup` and `fileclose`, and the descriptors of processes. A
reference moves from a call to a file, a descriptor or a process and back. Each
such move is one lemma.
-/

namespace Xv6.Fs

open Function Lib Finset
open Xv6.Inode (Dinode ninode)

variable {P : Nat → Proc} {o : Nat × Nat → Option Nat} {g : Nat → Option Nat} {T F : List Nat}
variable {s s' : Fs}

/-! ## Files -/

lemma filesOf_update (t : Nat → File) (f : Nat) (x : File) :
    filesOf (update t f x) = update (filesOf t) f (fileInode x) :=
  comp_update fileInode t f x

lemma Refs.unused_update {f : Nat} {x : File} (h : Refs P o g T F s)
    (hnone : x.ref = 0 → x.type = .none) (f' : Nat) (hf' : f' < nfile) :
    (update s.ftable f x f').ref = 0 → (update s.ftable f x f').type = .none := by
  by_cases hff : f' = f
  · subst hff
    rw [update_self]
    exact hnone
  · rw [update_of_ne hff]
    exact h.unused f' hf'

/-- A file gets another value. What its references lose the call has. -/
lemma Refs.updateFile {T' F' : List Nat} {f : Nat} {x : File} (h : Refs P o g T F s)
    (hother : ∀ f' ≠ f, F'.count f' = F.count f')
    (hx : x.ref + F.count f = (s.ftable f).ref + F'.count f) (hnone : x.ref = 0 → x.type = .none)
    (hlt : ∀ f' ∈ F', f' < nfile)
    (hinode : ∀ e, count (range nfile) (update (filesOf s.ftable) f (fileInode x)) e + T'.count e =
      count (range nfile) (filesOf s.ftable) e + T.count e)
    (hip : f < nfile → ∀ e, fileInode x = some e → e < ninode) (htemp : ∀ e ∈ T', e < ninode) :
    Refs P o g T' F' { s with ftable := update s.ftable f x } :=
  { h with
    file := by
      intro f' hf'
      have hold := h.file f' hf'
      show (update s.ftable f x f').ref = _
      by_cases hff : f' = f
      · subst hff
        rw [update_self]
        omega
      · rw [update_of_ne hff, hold, hother f' hff]
    unused := h.unused_update hnone
    inode := by
      intro e he
      have hcount := hinode e
      show (s.itable e).ref = count (range nfile) (filesOf (update s.ftable f x)) e + _ + _
      rw [filesOf_update, h.inode e he]
      omega
    ip_lt := by
      show ∀ f' < nfile, ∀ e, filesOf (update s.ftable f x) f' = some e → e < ninode
      rw [filesOf_update]
      intro f' hf' e he
      by_cases hff : f' = f
      · subst hff
        rw [update_self] at he
        exact hip hf' e he
      · rw [update_of_ne hff] at he
        exact h.ip_lt f' hf' e he
    held_lt := hlt
    temp_lt := htemp }

/-- It refers to the same inode. -/
lemma Refs.setFile {F' : List Nat} {f : Nat} {x : File} (h : Refs P o g T F s)
    (hother : ∀ f' ≠ f, F'.count f' = F.count f')
    (hx : x.ref + F.count f = (s.ftable f).ref + F'.count f)
    (hnone : x.ref = 0 → x.type = .none) (hip : fileInode x = fileInode (s.ftable f))
    (hlt : ∀ f' ∈ F', f' < nfile) :
    Refs P o g T F' { s with ftable := update s.ftable f x } := by
  refine h.updateFile hother hx hnone hlt (fun e => ?_) (fun hf e he => ?_) h.temp_lt
  · have hsame : update (filesOf s.ftable) f (fileInode (s.ftable f)) = filesOf s.ftable :=
      update_eq_self f _
    rw [hip, hsame]
  · exact h.ip_lt f hf e (hip.symm.trans he)

/-- A file drops its inode, and the call has the reference. -/
lemma Refs.takeInode {f e : Nat} {x : File} (h : Refs P o g T (f :: F) s) (hf : f < nfile)
    (hold : fileInode (s.ftable f) = some e) (hx : fileInode x = none)
    (href : x.ref + 1 = (s.ftable f).ref) (hnone : x.ref = 0 → x.type = .none) :
    Refs P o g (e :: T) F { s with ftable := update s.ftable f x } := by
  refine h.updateFile (fun f' hff => ?_) ?_ hnone (List.forall_mem_cons.mp h.held_lt).2
    (fun e' => ?_) (fun _ e' he' => ?_) (List.forall_mem_cons.mpr ⟨h.ip_lt f hf e hold, h.temp_lt⟩)
  · rw [List.count_cons_of_ne (Ne.symm hff)]
  · rw [List.count_cons_self]
    omega
  · rw [hx]
    exact count_clear_cons (mem_range.mpr hf) hold T e'
  · rw [hx] at he'
    cases he'

/-- A file gets an inode, and the reference of the call becomes that of the file. -/
lemma Refs.giveInode {f e : Nat} {x : File} (h : Refs P o g (e :: T) F s) (hf : f < nfile)
    (hold : fileInode (s.ftable f) = none) (hx : fileInode x = some e)
    (href : x.ref = (s.ftable f).ref) :
    Refs P o g T F { s with ftable := update s.ftable f x } := by
  obtain ⟨he, htemp⟩ := List.forall_mem_cons.mp h.temp_lt
  have hpos : x.ref ≠ 0 := by
    intro hzero
    rw [fileInode, if_neg fun hc => Nat.ne_of_gt hc.1 hzero] at hx
    cases hx
  refine h.updateFile (fun _ _ => rfl) (by rw [href]) (fun hzero => absurd hzero hpos) h.held_lt
    (fun e' => ?_) (fun _ e' he' => ?_) htemp
  · rw [hx]
    exact count_fill_cons (mem_range.mpr hf) hold T e'
  · rw [hx] at he'
    cases he'
    exact he

lemma fileInode_of_type {file : File} (h : file.type = .none) : fileInode file = none := by
  rw [fileInode, h, if_neg]
  rintro ⟨-, hc | hc⟩ <;> cases hc

/-- The outcome of `filealloc`. -/
lemma filealloc_refs (h : Refs P o g T F s) :
    Ends filealloc s (fun r s' => match r with
      | none => Refs P o g T F s'
      | some f => Refs P o g T (f :: F) s' ∧ f < nfile ∧ (s'.ftable f).type = .none ∧
          (s.ftable f).ref = 0 ∧ ∀ f' ≠ f, s'.ftable f' = s.ftable f') NotFile := by
  apply ends_get_bind
  split
  next => exact ends_pure h
  next f hfree =>
    obtain ⟨hlt, hzero⟩ := freeFile_spec hfree
    have hnone := h.unused f hlt hzero
    refine ⟨h.setFile ?_ ?_ ?_ ?_ ?_, hlt, ?_, hzero, ?_⟩
    · exact fun f' hne => List.count_cons_of_ne hne.symm
    · rw [List.count_cons_self]
      show 1 + _ = (s.ftable f).ref + _
      omega
    · exact fun hc => by cases hc
    · rw [fileInode_of_type hnone]
      exact fileInode_of_type hnone
    · exact List.forall_mem_cons.mpr ⟨hlt, h.held_lt⟩
    · show (update s.ftable f _ f).type = _
      rw [update_self]
      exact hnone
    · exact fun f' hne => update_of_ne hne ..

/-- `filedup` of a file that some descriptor holds. -/
lemma filedup_refs {f : Nat} {x : Nat × Nat} (hx : x ∈ slots) (ho : o x = some f) :
    Triple (Refs P o g T F) (filedup f) (fun _ => Refs P o g T (f :: F)) NotFile := by
  intro s hs
  have hlt := hs.slot_lt x hx f ho
  have hfile := hs.file f hlt
  have hpos := count_pos hx ho
  apply ends_get_bind
  rw [if_neg (by omega)]
  refine hs.setFile ?_ ?_ ?_ ?_ ?_
  · exact fun f' hne => List.count_cons_of_ne hne.symm
  · rw [List.count_cons_self]
    show (s.ftable f).ref + 1 + _ = _
    omega
  · exact fun hc => by cases hc
  · have href : 0 < (s.ftable f).ref := by omega
    simp [fileInode, href]
  · exact List.forall_mem_cons.mpr ⟨hlt, hs.held_lt⟩

variable [Superblock]

lemma fileclose_refs (f : Nat) :
    Triple (Refs P o g T (f :: F)) (fileclose f) (fun _ => Refs P o g T F) NotFile := by
  intro s hs
  obtain ⟨hlt, hheld⟩ := List.forall_mem_cons.mp hs.held_lt
  have hfile := hs.file f hlt
  rw [List.count_cons_self] at hfile
  apply ends_get_bind
  dsimp only
  rw [if_neg (by omega)]
  split
  next hmore =>
    refine hs.setFile ?_ ?_ ?_ ?_ ?_
    · exact fun f' hne => (List.count_cons_of_ne hne.symm).symm
    · rw [List.count_cons_self]
      show (s.ftable f).ref - 1 + _ = _
      omega
    · exact fun hc => absurd hc (by show (s.ftable f).ref - 1 ≠ 0; omega)
    · have hone : 0 < (s.ftable f).ref := by omega
      have hone' : 0 < (s.ftable f).ref - 1 := by omega
      simp only [fileInode, hone, hone', true_and]
    · exact hheld
  next hlast =>
    have hone : (s.ftable f).ref = 1 := by omega
    apply ends_modify_bind
    split
    next htype =>
      have hold : fileInode (s.ftable f) = some (s.ftable f).ip := by
        rw [fileInode, if_pos ⟨by omega, htype⟩]
      refine (beginOp_aside.refs fun _ => (iput_refs _).bind fun _ =>
        aside_refs endOp_aside) _ (hs.takeInode hlt hold (fileInode_of_type rfl) ?_ fun _ => rfl)
      show 0 + 1 = _
      omega
    next htype =>
      refine hs.setFile ?_ ?_ ?_ ?_ ?_
      · exact fun f' hne => (List.count_cons_of_ne hne.symm).symm
      · rw [List.count_cons_self]
        show 0 + _ = _
        omega
      · exact fun _ => rfl
      · rw [fileInode_of_type rfl, fileInode, if_neg fun hc => htype hc.2]
      · exact hheld

/-! ## Descriptors -/

section

omit [Superblock]

/-- A process with another value in a descriptor. -/
def setOfile (P : Nat → Proc) (p fd : Nat) (f : Option Nat) : Nat → Proc :=
  update P p { P p with ofile := update (P p).ofile fd f }

lemma slotsOf_setOfile (p fd : Nat) (f : Option Nat) :
    slotsOf (setOfile P p fd f) = update (slotsOf P) (p, fd) f := by
  funext ⟨q, gd⟩
  by_cases hq : q = p
  · subst hq
    by_cases hfd : gd = fd
    · subst hfd
      simp [slotsOf, setOfile]
    · have hne : ((q, gd) : Nat × Nat) ≠ (q, fd) := fun hc => hfd (Prod.mk.inj hc).2
      rw [update_of_ne hne]
      simp [slotsOf, setOfile, hfd]
  · have hne : ((q, gd) : Nat × Nat) ≠ (p, fd) := fun hc => hq (Prod.mk.inj hc).1
    rw [update_of_ne hne]
    simp [slotsOf, setOfile, hq]

lemma cwdOf_setOfile (p fd : Nat) (f : Option Nat) : cwdOf (setOfile P p fd f) = cwdOf P := by
  funext q
  unfold cwdOf setOfile
  by_cases hq : q = p
  · subst hq
    rw [update_self]
  · rw [update_of_ne hq]

/-- The process table changes, but not which references count. -/
lemma modifyProc_refs (p : Nat) (h : Proc → Proc) :
    Triple (Refs P o g T F) (modifyProc p h)
      (fun _ => Refs (update P p (h (P p))) o g T F) NotFile :=
  triple_modify fun s hs => { hs with
    proc := by
      show update s.proc p (h (s.proc p)) = _
      rw [hs.proc] }

lemma setFd_refs (p fd : Nat) (f : Option Nat) :
    Triple (Refs P o g T F) (setFd p fd f) (fun _ => Refs (setOfile P p fd f) o g T F) NotFile :=
  modifyProc_refs p _

/-- A descriptor takes over the reference of a call. -/
lemma Refs.fill {f : Nat} {x : Nat × Nat} (h : Refs P o g T (f :: F) s) (hx : x ∈ slots)
    (ho : o x = none) : Refs P (update o x (some f)) g T F s := by
  obtain ⟨hlt, hheld⟩ := List.forall_mem_cons.mp h.held_lt
  exact { h with
    file := by
      intro f' hf'
      rw [h.file f' hf', ← count_fill_cons hx ho]
    slot_lt := by
      refine forall_some_update h.slot_lt ?_
      rintro f' ⟨⟩
      exact hlt
    held_lt := hheld }

/-- A call takes over the reference of a descriptor. -/
lemma Refs.clear {f : Nat} {x : Nat × Nat} (h : Refs P o g T F s) (hx : x ∈ slots)
    (ho : o x = some f) : Refs P (update o x none) g T (f :: F) s :=
  { h with
    file := by
      intro f' hf'
      rw [h.file f' hf', ← count_clear_cons hx ho]
    slot_lt := forall_some_update h.slot_lt nofun
    held_lt := List.forall_mem_cons.mpr ⟨h.slot_lt x hx f ho, h.held_lt⟩ }

/-- A call takes over the reference of a process to its current directory. -/
lemma Refs.dropCwd {p e : Nat} (h : Refs P o g T F s) (hp : p < nproc) (hg : g p = some e) :
    Refs P o (update g p none) (e :: T) F s :=
  { h with
    inode := by
      intro e' he'
      have hclear := count_clear_cons (mem_range.mpr hp) hg T e'
      rw [h.inode e' he']
      omega
    cwd_lt := forall_some_update h.cwd_lt nofun
    temp_lt := List.forall_mem_cons.mpr ⟨h.cwd_lt p hp e hg, h.temp_lt⟩ }

/-- A process takes over the reference of a call. -/
lemma Refs.setCwd {p e : Nat} (h : Refs P o g (e :: T) F s) (hp : p < nproc) (hg : g p = none) :
    Refs P o (update g p (some e)) T F s := by
  obtain ⟨he, htemp⟩ := List.forall_mem_cons.mp h.temp_lt
  exact { h with
    inode := by
      intro e' he'
      have hfill := count_fill_cons (b := e) (mem_range.mpr hp) hg T e'
      rw [h.inode e' he']
      omega
    cwd_lt := by
      refine forall_some_update h.cwd_lt ?_
      rintro e' ⟨⟩
      exact he
    temp_lt := htemp }

lemma fdalloc_setFd {p f : Nat} :
    Triple (Refs P o g T F) (fdalloc p f)
      (fun r s => match r with
        | none => Refs P o g T F s
        | some fd => fd < nofile ∧ (P p).ofile fd = none ∧ Refs (setOfile P p fd (some f)) o g T F s)
      NotFile := by
  apply triple_get_bind
  intro s hs
  split
  next => exact triple_pure fun t ht => ht ▸ hs
  next fd hfree =>
    obtain ⟨hlt, hnone⟩ := freeFd_spec hfree
    rw [hs.proc] at hnone
    refine Triple.bind ((setFd_refs p fd (some f)).pre fun t ht => ht ▸ hs) fun _ => ?_
    exact triple_pure fun t ht => ⟨hlt, hnone, ht⟩

/-- `fdalloc`: the descriptor holds the file. -/
lemma fdalloc_refs {p f : Nat} (hp : p < nproc) :
    Triple (Refs P (slotsOf P) g T (f :: F)) (fdalloc p f)
      (fun r s => match r with
        | none => Refs P (slotsOf P) g T (f :: F) s
        | some fd => fd < nofile ∧ (P p).ofile fd = none ∧
            Refs (setOfile P p fd (some f)) (slotsOf (setOfile P p fd (some f))) g T F s) NotFile := by
  refine fdalloc_setFd.post fun r s hs => ?_
  match r, hs with
  | none, hs => exact hs
  | some fd, ⟨hlt, hnone, hs⟩ =>
    refine ⟨hlt, hnone, ?_⟩
    rw [slotsOf_setOfile]
    exact hs.fill (mem_slots.mpr ⟨hp, hlt⟩) hnone

lemma argfd_refs (p : Nat) (n : Int) :
    Triple (Refs P o g T F) (argfd p n)
      (fun r s => Refs P o g T F s ∧
        ∀ fd f, r = some (fd, f) → fd < nofile ∧ (P p).ofile fd = some f) NotFile := by
  apply triple_get_bind
  intro s hs
  refine triple_ite (fun _ => triple_pure fun t ht => ⟨ht ▸ hs, by simp⟩) fun hrange => ?_
  split
  next => exact triple_pure fun t ht => ⟨ht ▸ hs, by simp⟩
  next f hf =>
    refine triple_pure fun t ht => ⟨ht ▸ hs, ?_⟩
    rintro fd f' ⟨⟩
    rw [hs.proc] at hf
    exact ⟨by omega, hf⟩

/-- A file keeps its type, its inode and its count. -/
lemma modifyFile_refs {f : Nat} {h : File → File} (href : ∀ x, (h x).ref = x.ref)
    (htype : ∀ x, (h x).type = x.type) (hip : ∀ x, (h x).ip = x.ip) :
    Triple (Refs P o g T F) (modifyFile f h) (fun _ => Refs P o g T F) NotFile := by
  refine triple_modify fun s hs => ?_
  by_cases hf : f < nfile
  · refine hs.setFile (fun _ _ => rfl) ?_ ?_ ?_ hs.held_lt
    · rw [href]
    · rw [href, htype]
      exact hs.unused f hf
    · rw [fileInode, fileInode, href, htype, hip]
  · -- an entry outside the table
    have hother : ∀ f' < nfile, update s.ftable f (h (s.ftable f)) f' = s.ftable f' :=
      fun f' hf' => update_of_ne (by omega) ..
    exact { hs with
      file := fun f' hf' => by
        rw [← hs.file f' hf']
        exact congrArg File.ref (hother f' hf')
      unused := fun f' hf' => by
        show (update s.ftable f (h (s.ftable f)) f').ref = 0 → _
        rw [hother f' hf']
        intro hzero
        exact (congrArg File.type (hother f' hf')).trans (hs.unused f' hf' hzero)
      inode := fun e he => by
        rw [hs.inode e he]
        congr 2
        exact count_congr (fun f' hf' => congrArg fileInode (hother f' (mem_range.mp hf')).symm) e
      ip_lt := fun f' hf' e he =>
        hs.ip_lt f' hf' e ((congrArg fileInode (hother f' hf')).symm.trans he) }

end

end Xv6.Fs
