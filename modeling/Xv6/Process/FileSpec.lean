import Xv6.Mem.FreeList
import Xv6.Process.ProcSpec

/-!
# What the functions on files do

A call that works on files keeps `MemInv` and may hold references of its own for
a while: `FileInv K o held` counts them in `held`. A function of `file.c` moves
a reference between the descriptors, the call and nobody.
-/

namespace Xv6.Process

open Function Lib Mem

variable [Layout] {K K' K'' : Kernel} {o o' o'' : Nat → Owner} {held : Nat → Int} {p f fd : Nat}

/-- The state changes in the files and pipes, and in the descriptors. -/
structure Filed (K : Kernel) (o : Nat → Owner) (K' : Kernel) (o' : Nat → Owner) : Prop where
  mem : MemInv K' o'
  frame : Frame PipeOwner K.phys o K'.phys o'
  hand : SameHand o o'
  initproc : K'.initproc = K.initproc
  proc : ∀ p, K'.proc p = { K.proc p with ofile := (K'.proc p).ofile }

lemma Filed.refl (h : MemInv K o) : Filed K o K o := 
  ⟨h, Frame.refl _ _ _, SameHand.refl o, rfl, fun _ => rfl⟩

lemma Filed.trans (h : Filed K o K' o') (h' : Filed K' o' K'' o'') : Filed K o K'' o'' :=
  ⟨h'.mem, h.frame.trans h'.frame, h.hand.trans h'.hand, h'.initproc.trans h.initproc,
    fun p => by rw [h'.proc p, h.proc p]⟩

/-- A step that touches pipes, files and descriptors. -/
lemma Filed.of_step (h : MemInv K o) (hF : Frame PipeOwner K.phys o K'.phys o')
    (hheap : Heap K'.phys (tables K) o') (hhand : SameHand o o')
    (hinit : K'.initproc = K.initproc)
    (hproc : ∀ p, K'.proc p = { K.proc p with ofile := (K'.proc p).ofile }) : Filed K o K' o' := by
  have htables : tables K' = tables K := tables_congr fun p => by rw [hproc p]
  refine ⟨h.step hF (htables ▸ hheap) (fun p => .inl ⟨id, fun _ _ => id, ?_, ?_, ?_⟩), hF,
    hhand, hinit, hproc⟩
  all_goals rw [hproc p]

lemma Filed.setFile (h : MemInv K o) (f : Nat) (file : File) : Filed K o (K.setFile f file) o :=
  Filed.of_step h (Frame.refl _ _ _) h.heap (SameHand.refl o) rfl fun _ => rfl

lemma Filed.setFd (h : MemInv K o) (p : Nat) (g : Nat → Option Nat) :
    Filed K o (K.setProc p { K.proc p with ofile := g }) o := by
  refine Filed.of_step h (Frame.refl _ _ _) h.heap (SameHand.refl o) rfl fun p' => ?_
  by_cases he : p' = p
  · rw [he, setProc_self]
  · rw [setProc_other _ _ _ he]

/-! ## References -/

section

omit [Layout]

/-- Only reference counts change, and pipes keep theirs. -/
lemma Pipes.refs {ftable ftable' : Nat → File} {m : Bytes} (h : Pipes ftable m o)
    (hend : ∀ f, (ftable' f).type = (ftable f).type ∧ (ftable' f).pipe = (ftable f).pipe ∧
      (ftable' f).writable = (ftable f).writable)
    (hlive : ∀ f, (ftable f).type = .pipe → (ftable' f).ref ≠ 0) : Pipes ftable' m o := by
  have hiff : ∀ {q w f}, End ftable' q w f ↔ End ftable q w f := by
    intro q w f
    obtain ⟨h₁, h₂, h₃⟩ := hend f
    unfold End
    rw [h₁, h₂, h₃]
  refine ⟨fun {f} hf => ?_, fun {f} hf => ?_, fun hf hg => h.uniq (hiff.mp hf) (hiff.mp hg),
    fun hq => ?_, fun w hq => ?_⟩
  · rw [(hend f).1] at hf
    exact ⟨hlive f hf, (h.live hf).2⟩
  · rw [(hend f).1] at hf
    rw [(hend f).2.1]
    exact h.page hf
  · simpa only [hiff] using h.used hq
  · simpa only [hiff] using h.opened w hq

/-- The reference count of one file changes, by a reference of the running call. -/
lemma FileInv.setRef (h : FileInv K o held) {n : Nat} {k : Int}
    (hn : (n : Int) = (K.ftable f).ref + k) (hlive : (K.ftable f).type = .pipe → n ≠ 0) :
    FileInv (K.setFile f { K.ftable f with ref := n }) o (held + Pi.single f k) := by
  refine ⟨fun g => ?_, h.bound, h.pipes.refs (fun g => ?_) fun g hg => ?_⟩
  · have hrefs := h.refs g
    rw [Pi.add_apply, Pi.single_apply]
    by_cases he : g = f
    · subst he
      rw [setFile_self, if_pos rfl]
      show (n : Int) = _
      have hfds : fds (K.setFile g { K.ftable g with ref := n }) = fds K := rfl
      rw [hfds]
      omega
    · rw [setFile_other _ _ _ he, if_neg he, Int.add_zero]
      exact hrefs
  · by_cases he : g = f
    · subst he
      rw [setFile_self]
      exact ⟨rfl, rfl, rfl⟩
    · rw [setFile_other _ _ _ he]
      exact ⟨rfl, rfl, rfl⟩
  · by_cases he : g = f
    · subst he
      rw [setFile_self]
      exact hlive hg
    · rw [setFile_other _ _ _ he]
      exact (h.pipes.live hg).1

lemma FileInv.ref_pos (h : FileInv K o held) (hf : (K.proc p).ofile fd = some f)
    (hh : 0 ≤ held f) : 1 ≤ (K.ftable f).ref := by
  have hcount := count_pos (g := fds K) (h.bound hf) hf
  have hrefs := h.refs f
  omega

lemma fds_setFd (K : Kernel) (p fd : Nat) (v : Option Nat) :
    fds (K.setProc p { K.proc p with ofile := update (K.proc p).ofile fd v }) =
      update (fds K) (p, fd) v := by
  funext x
  obtain ⟨p', fd'⟩ := x
  by_cases hp : p' = p
  · subst hp
    by_cases hfd : fd' = fd
    · subst hfd
      rw [update_self, fds, setProc_self]
      exact update_self ..
    · rw [update_of_ne (fun he => hfd (Prod.mk.inj he).2), fds, setProc_self]
      exact update_of_ne hfd _ _
  · rw [update_of_ne (fun he => hp (Prod.mk.inj he).1), fds, setProc_other _ _ _ hp]
    rfl

/-- A free descriptor takes over a reference of the running call. -/
lemma FileInv.fillFd (h : FileInv K o held) (hs : (p, fd) ∈ slots)
    (hnone : (K.proc p).ofile fd = none) :
    FileInv (K.setProc p { K.proc p with ofile := update (K.proc p).ofile fd (some f) }) o
      (held - Pi.single f 1) := by
  refine ⟨fun g => ?_, fun {p' fd' g} hg => ?_, h.pipes⟩
  · rw [fds_setFd, count_fill hs hnone, Pi.sub_apply, Pi.single_apply, setProc_ftable]
    have hrefs := h.refs g
    split <;> push_cast <;> omega
  · by_cases hp : p' = p
    · subst hp
      rw [setProc_self] at hg
      by_cases hfd : fd' = fd
      · rw [hfd]
        exact hs
      · exact h.bound ((update_of_ne hfd _ _).symm.trans hg)
    · rw [setProc_other _ _ _ hp] at hg
      exact h.bound hg

/-- A descriptor hands its reference to the running call. -/
lemma FileInv.clearFd (h : FileInv K o held) (hf : (K.proc p).ofile fd = some f) :
    FileInv (K.setProc p { K.proc p with ofile := update (K.proc p).ofile fd none }) o
      (held + Pi.single f 1) := by
  refine ⟨fun g => ?_, fun {p' fd' g} hg => ?_, h.pipes⟩
  · have hcount := count_clear (S := slots) (g := fds K) (a := g) (h.bound hf) hf
    rw [fds_setFd, Pi.add_apply, Pi.single_apply, setProc_ftable]
    have hrefs := h.refs g
    split at hcount
    next he => rw [if_pos he]; omega
    next he => rw [if_neg he]; omega
  · by_cases hp : p' = p
    · subst hp
      rw [setProc_self] at hg
      by_cases hfd : fd' = fd
      · subst hfd
        exact absurd ((update_self ..).symm.trans hg) (by rintro ⟨⟩)
      · exact h.bound ((update_of_ne hfd _ _).symm.trans hg)
    · rw [setProc_other _ _ _ hp] at hg
      exact h.bound hg

end

/-! ## `filealloc`, `filedup` and `fdalloc` -/

/-- `filealloc`: the call holds the only reference to the file. -/
lemma filealloc_spec (h : MemInv K o) (hf : FileInv K o held) :
    Returns filealloc K fun res K' => Filed K o K' o ∧ K'.proc = K.proc ∧ K'.phys = K.phys ∧
      (res = none ∧ K'.ftable = K.ftable ∧ FileInv K' o held ∨
        ∃ f, res = some f ∧ f < nfile ∧ (K'.ftable f).type ≠ .pipe ∧ (K.ftable f).ref = 0 ∧
          (K'.ftable f).ref = 1 ∧ FileInv K' o (held + Pi.single f 1) ∧
          ∀ g, g ≠ f → K'.ftable g = K.ftable g) := by
  unfold filealloc
  apply returns_get_bind
  cases hfree : freeFile K.ftable with
  | none => exact returns_pure ⟨Filed.refl h, rfl, rfl, .inl ⟨rfl, rfl, hf⟩⟩
  | some f =>
    obtain ⟨hlt, href⟩ := freeFile_spec hfree
    have htype : (K.ftable f).type ≠ .pipe := fun ht => (hf.pipes.live ht).1 href
    apply returns_modifyFile
    refine returns_pure ⟨Filed.setFile h f _, rfl, rfl, .inr ⟨f, rfl, hlt, ?_, href, ?_,
      hf.setRef (by rw [href]; rfl) fun _ => by decide, fun g hg => setFile_other _ _ _ hg⟩⟩
    · rw [setFile_self]
      exact htype
    · rw [setFile_self]

/-- `filedup`: the call holds one more reference. -/
lemma filedup_spec (h : MemInv K o) (hf : FileInv K o held) (href : 1 ≤ (K.ftable f).ref) :
    Returns (filedup f) K fun _ K' => Filed K o K' o ∧ K'.proc = K.proc ∧ K'.phys = K.phys ∧
      FileInv K' o (held + Pi.single f 1) := by
  unfold filedup
  apply returns_get_bind
  rw [if_neg (by omega)]
  exact returns_modify ⟨Filed.setFile h f _, rfl, rfl, hf.setRef (by push_cast; rfl) fun _ => by omega⟩

/-- `fdalloc`. -/
lemma fdalloc_spec (h : MemInv K o) (hf : FileInv K o held) (hp : p < nproc) (f : Nat) :
    Returns (fdalloc p f) K fun res K' => Filed K o K' o ∧ K'.ftable = K.ftable ∧
      K'.phys = K.phys ∧ (∀ p', p' ≠ p → K'.proc p' = K.proc p') ∧
      (res = none ∧ K' = K ∨ ∃ fd, res = some fd ∧ (K.proc p).ofile fd = none ∧
        (K'.proc p).ofile = update (K.proc p).ofile fd (some f) ∧
        FileInv K' o (held - Pi.single f 1)) := by
  unfold fdalloc
  apply returns_getProc
  cases hfree : freeFd (K.proc p).ofile with
  | none => exact returns_pure ⟨Filed.refl h, rfl, rfl, fun _ _ => rfl, .inl ⟨rfl, rfl⟩⟩
  | some fd =>
    obtain ⟨hlt, hnone⟩ := freeFd_spec hfree
    apply returns_modifyProc
    refine returns_pure ⟨Filed.setFd h p _, rfl, rfl, fun p' hne => setProc_other _ _ _ hne,
      .inr ⟨fd, rfl, hnone, ?_, hf.fillFd (mem_slots.mpr ⟨hp, hlt⟩) hnone⟩⟩
    rw [setProc_self]

/-! ## `fileclose` -/

/-- A store to a page of a pipe. -/
lemma Heap.writePipe {s : Phys} {R : Tag → Option Nat} {q : Nat} {m : Bytes} (h : Heap s R o)
    (hq : o q = .pipe) (hm : ∀ q', q' ≠ q → Agree s.mem m q') : Heap (s.withMem m) R o := by
  refine h.write fun q' hq' => hm q' ?_
  rintro rfl
  rw [hq] at hq'
  rcases hq' with he | ⟨t, d, x, he⟩ <;> cases he

/-- `pipeclose`: the page is freed if the other end is closed too. -/
lemma pipeclose_spec {s : Phys} {R : Tag → Option Nat} {q : Nat} (h : Heap s R o)
    (hq : o q = .pipe) (w : Bool) :
    Returns (pipeclose (4096 * q) w) s fun _ s' => (∀ q', q' ≠ q → Agree s.mem s'.mem q') ∧
      (getLE s.mem (4096 * q + openOffset (!w)) 4 = 0 ∧ Heap s' R (update o q .free) ∧
          Dropped s o s' (update o q .free) [q] ∨
        getLE s.mem (4096 * q + openOffset (!w)) 4 ≠ 0 ∧ Heap s' R o ∧ Dropped s o s' o [] ∧
          getLE s'.mem (4096 * q + openOffset w) 4 = 0 ∧
          getLE s'.mem (4096 * q + openOffset (!w)) 4 =
            getLE s.mem (4096 * q + openOffset (!w)) 4) := by
  have hagree : ∀ q', q' ≠ q → Agree s.mem (putLE s.mem (4096 * q + openOffset w) 4 0) q' :=
    fun q' hq' => agree_putLE (openOffset_le w) hq'
  have hheap : Heap (s.withMem (putLE s.mem (4096 * q + openOffset w) 4 0)) R o :=
    Heap.writePipe h hq hagree
  have hput : Dropped s o (s.withMem (putLE s.mem (4096 * q + openOffset w) 4 0)) o [] :=
    Dropped.of_agree rfl fun q' hq' => hagree q' (by
      rintro rfl
      rw [hq] at hq'
      cases hq')
  have hown : getLE (putLE s.mem (4096 * q + openOffset w) 4 0) (4096 * q + openOffset w) 4 = 0 := by
    rw [getLE_putLE]
    rfl
  have hother : getLE (putLE s.mem (4096 * q + openOffset w) 4 0) (4096 * q + openOffset (!w)) 4 =
      getLE s.mem (4096 * q + openOffset (!w)) 4 := by
    refine getLE_putLE_of_disjoint ?_
    cases w <;> simp [openOffset, pipeWriteopen, pipeReadopen]
  unfold pipeclose
  have hstore : (if w then store32 (4096 * q + pipeWriteopen) 0
      else store32 (4096 * q + pipeReadopen) 0 : PhysM Unit) s =
        .ok ((), s.withMem (putLE s.mem (4096 * q + openOffset w) 4 0)) := by
    cases w <;> rfl
  refine returns_bind_of_eq hstore ?_
  apply returns_load32
  apply returns_load32
  have hcond : (getLE (s.withMem (putLE s.mem (4096 * q + openOffset w) 4 0)).mem
        (4096 * q + pipeReadopen) 4 = 0 ∧
      getLE (s.withMem (putLE s.mem (4096 * q + openOffset w) 4 0)).mem
        (4096 * q + pipeWriteopen) 4 = 0) ↔ getLE s.mem (4096 * q + openOffset (!w)) 4 = 0 := by
    rw [← hother]
    cases w with
    | true => exact ⟨fun hc => hc.1, fun hc => ⟨hc, hown⟩⟩
    | false => exact ⟨fun hc => hc.2, fun hc => ⟨hown, hc⟩⟩
  split
  next hc =>
    refine (kfree_spec hheap (by rw [hq]; trivial)).mono ?_
    rintro _ s' ⟨rfl, hfree⟩
    exact ⟨fun q' hq' => (hagree q' hq').trans (Phys.agree_release _ hq'),
      .inl ⟨hcond.mp hc, hfree, hput.trans (Dropped.of_release hheap hq)⟩⟩
  next hc =>
    exact returns_pure ⟨hagree, .inr ⟨fun hz => hc (hcond.mpr hz), hheap, hput, hown, hother⟩⟩

section Drop

omit [Layout]

variable {ftable : Nat → File} {file : File} {q : Nat} {w : Bool}

/-- The ends of pipes after a file is no longer one. -/
lemma end_drop (hfile : file.type ≠ .pipe) {g : Nat} :
    End (update ftable f file) q w g ↔ g ≠ f ∧ End ftable q w g := by
  by_cases he : g = f
  · subst he
    unfold End
    rw [update_self]
    exact ⟨fun hg => absurd hg.1 hfile, fun hg => absurd rfl hg.1⟩
  · unfold End
    rw [update_of_ne he]
    exact ⟨fun hg => ⟨he, hg⟩, fun hg => hg.2⟩

lemma type_drop (hfile : file.type ≠ .pipe) {g : Nat}
    (hg : (update ftable f file g).type = .pipe) :
    g ≠ f ∧ update ftable f file g = ftable g := by
  have he : g ≠ f := by
    rintro rfl
    rw [update_self] at hg
    exact hfile hg
  exact ⟨he, update_of_ne he _ _⟩

/-- A file that is no pipe is closed. -/
lemma Pipes.drop {m : Bytes} (h : Pipes ftable m o) (hfile : file.type ≠ .pipe)
    (hold : (ftable f).type ≠ .pipe) : Pipes (update ftable f file) m o := by
  have hiff : ∀ {q w g}, End (update ftable f file) q w g ↔ End ftable q w g := by
    intro q w g
    rw [end_drop hfile]
    exact ⟨fun hg => hg.2, fun hg => ⟨by rintro rfl; exact hold hg.1, hg⟩⟩
  refine ⟨fun hg => ?_, fun hg => ?_, fun hf hg => h.uniq (hiff.mp hf) (hiff.mp hg), fun hq => ?_,
    fun w hq => ?_⟩
  · obtain ⟨-, he⟩ := type_drop hfile hg
    rw [he] at hg ⊢
    exact h.live hg
  · obtain ⟨-, he⟩ := type_drop hfile hg
    rw [he] at hg ⊢
    exact h.page hg
  · simpa only [hiff] using h.used hq
  · simpa only [hiff] using h.opened w hq

lemma flag_congr {m m' : Bytes} {k : Nat} {c c' : Prop} (h : Flag m (4096 * q + k) c)
    (hk : k + 4 ≤ 4096) (hm : Agree m m' q) (hc : c' ↔ c) : Flag m' (4096 * q + k) c' := by
  have he : getLE m' (4096 * q + k) 4 = getLE m (4096 * q + k) 4 :=
    getLE_congr fun x hx hx' => hm x (by omega)
  unfold Flag at *
  rw [he, hc]
  exact h

/-- Another pipe does not notice that file `f` is no longer an end of pipe `q`. -/
lemma end_drop_other (hfile : file.type ≠ .pipe) (hf : End ftable q w f) {q' g : Nat} {w' : Bool}
    (hne : q' ≠ q) : End (update ftable f file) q' w' g ↔ End ftable q' w' g := by
  rw [end_drop hfile]
  refine ⟨fun hg => hg.2, fun hg => ⟨?_, hg⟩⟩
  rintro rfl
  have h₁ := hg.2.1
  rw [hf.2.1] at h₁
  omega

/-- The other end of the pipe keeps its file. -/
lemma end_drop_not (hfile : file.type ≠ .pipe) (hf : End ftable q w f) {g : Nat} :
    End (update ftable f file) q (!w) g ↔ End ftable q (!w) g := by
  rw [end_drop hfile]
  refine ⟨fun hg => hg.2, fun hg => ⟨?_, hg⟩⟩
  rintro rfl
  have h₁ := hg.2.2
  rw [hf.2.2] at h₁
  cases w <;> cases h₁

lemma Pipes.end_self {m : Bytes} (h : Pipes ftable m o) (hfile : file.type ≠ .pipe)
    (hf : End ftable q w f) (g : Nat) : ¬ End (update ftable f file) q w g := by
  rw [end_drop hfile]
  rintro ⟨hne, hg⟩
  exact hne (h.uniq hg hf)

/-- One end of a pipe is closed, the other is open. -/
lemma Pipes.closeEnd {m m' : Bytes} (h : Pipes ftable m o) (hfile : file.type ≠ .pipe)
    (hq : o q = .pipe) (hf : End ftable q w f) (hother : ∃ g, End ftable q (!w) g)
    (hm : ∀ q', q' ≠ q → Agree m m' q') (hown : getLE m' (4096 * q + openOffset w) 4 = 0)
    (hkeep : getLE m' (4096 * q + openOffset (!w)) 4 = getLE m (4096 * q + openOffset (!w)) 4) :
    Pipes (update ftable f file) m' o := by
  have hopen : ∃ g, End (update ftable f file) q (!w) g :=
    hother.imp fun g hg => (end_drop_not hfile hf).mpr hg
  refine ⟨fun hg => ?_, fun hg => ?_, fun hg hg' => ?_, fun {q'} hq' => ?_, fun {q'} w' hq' => ?_⟩
  · obtain ⟨-, he⟩ := type_drop hfile hg
    rw [he] at hg ⊢
    exact h.live hg
  · obtain ⟨-, he⟩ := type_drop hfile hg
    rw [he] at hg ⊢
    exact h.page hg
  · exact h.uniq ((end_drop hfile).mp hg).2 ((end_drop hfile).mp hg').2
  · by_cases he : q' = q
    · subst he
      exact ⟨!w, hopen⟩
    · obtain ⟨w', g, hg⟩ := h.used hq'
      exact ⟨w', g, (end_drop_other hfile hf he).mpr hg⟩
  · by_cases he : q' = q
    · subst he
      by_cases hw : w' = w
      · subst hw
        exact .inr ⟨fun ⟨g, hg⟩ => h.end_self hfile hf g hg, hown⟩
      · obtain rfl : w' = !w := by cases w <;> cases w' <;> simp_all
        refine .inl ⟨hopen, ?_⟩
        rw [hkeep]
        exact ((h.opened (!w) hq).resolve_right fun hn => hn.1 hother).2
    · exact flag_congr (h.opened w' hq') (openOffset_le w') (hm q' he)
        (exists_congr fun g => end_drop_other hfile hf he)

/-- The last end of a pipe is closed. -/
lemma Pipes.closeLast {m m' : Bytes} (h : Pipes ftable m o) (hfile : file.type ≠ .pipe)
    (hf : End ftable q w f) (hother : ¬ ∃ g, End ftable q (!w) g)
    (hm : ∀ q', q' ≠ q → Agree m m' q') :
    Pipes (update ftable f file) m' (update o q .free) := by
  have hnone : ∀ w' g, ¬ End (update ftable f file) q w' g := by
    intro w' g hg
    by_cases hw : w' = w
    · subst hw
      exact h.end_self hfile hf g hg
    · obtain rfl : w' = !w := by cases w <;> cases w' <;> simp_all
      exact hother ⟨g, (end_drop_not hfile hf).mp hg⟩
  have hown : ∀ {q'}, update o q .free q' = .pipe → q' ≠ q ∧ o q' = .pipe := by
    intro q' hq'
    by_cases he : q' = q
    · rw [he, update_self] at hq'
      cases hq'
    · rw [update_of_ne he] at hq'
      exact ⟨he, hq'⟩
  refine ⟨fun hg => ?_, fun {g} hg => ?_, fun hg hg' => ?_, fun {q'} hq' => ?_, fun {q'} w' hq' => ?_⟩
  · obtain ⟨-, he⟩ := type_drop hfile hg
    rw [he] at hg ⊢
    exact h.live hg
  · obtain ⟨hne, he⟩ := type_drop hfile hg
    have hg' := hg
    rw [he] at hg ⊢
    obtain ⟨q', hq', ho⟩ := h.page hg
    refine ⟨q', hq', ?_⟩
    rw [update_of_ne, ho]
    rintro rfl
    exact hnone _ g ⟨hg', by rw [he]; exact hq', rfl⟩
  · exact h.uniq ((end_drop hfile).mp hg).2 ((end_drop hfile).mp hg').2
  · obtain ⟨he, ho⟩ := hown hq'
    obtain ⟨w', g, hg⟩ := h.used ho
    exact ⟨w', g, (end_drop_other hfile hf he).mpr hg⟩
  · obtain ⟨he, ho⟩ := hown hq'
    exact flag_congr (h.opened w' ho) (openOffset_le w') (hm q' he)
      (exists_congr fun g => end_drop_other hfile hf he)

end Drop

section

omit [Layout]

/-- The last reference to a file is given up: what is left to show is about
pipes. -/
lemma FileInv.dropFile (h : FileInv K o held) {file : File} {s : Phys}
    (href : (K.ftable f).ref = 1) (hfile : file.ref = 0)
    (hpipes : Pipes (update K.ftable f file) s.mem o') :
    FileInv { K.setFile f file with phys := s } o' (held - Pi.single f 1) := by
  refine ⟨fun g => ?_, h.bound, hpipes⟩
  have hrefs := h.refs g
  have hfds : fds { K.setFile f file with phys := s } = fds K := rfl
  show (((K.setFile f file).ftable g).ref : Int) = _
  rw [hfds, Pi.sub_apply, Pi.single_apply]
  by_cases he : g = f
  · subst he
    rw [setFile_self, hfile, if_pos rfl]
    omega
  · rw [setFile_other _ _ _ he, if_neg he, sub_zero]
    exact hrefs

lemma FileInv.ref_of_held (h : FileInv K o held) (hh : 1 ≤ held f) : 1 ≤ (K.ftable f).ref := by
  have hrefs := h.refs f
  omega

end

/-- `fileclose`: the call gives up a reference. No other file changes, and the pages
that it frees are those of pipes. -/
lemma fileclose_spec (h : MemInv K o) (hf : FileInv K o held) (href : 1 ≤ (K.ftable f).ref) :
    Returns (fileclose f) K fun _ K' => ∃ o', Filed K o K' o' ∧ K'.proc = K.proc ∧
      FileInv K' o' (held - Pi.single f 1) ∧ (∀ g, g ≠ f → K'.ftable g = K.ftable g) ∧
      ∃ L, Dropped K.phys o K'.phys o' L := by
  unfold fileclose
  apply returns_get_bind
  simp only
  rw [if_neg (by omega)]
  split
  next hmore =>
    refine returns_modify ⟨o, Filed.setFile h f _, rfl, ?_, fun g hg => setFile_other _ _ _ hg, [],
      Dropped.refl _ _⟩
    rw [sub_eq_add_neg, ← Pi.single_neg]
    exact hf.setRef (by omega) fun _ => by omega
  next hlast =>
    have hone : (K.ftable f).ref = 1 := by omega
    apply returns_modifyFile
    have hfiled := Filed.setFile h f { K.ftable f with ref := 0, type := .none }
    have hfiles : ∀ file g, g ≠ f → (K.setFile f file).ftable g = K.ftable g := fun _ _ hg =>
      setFile_other _ _ _ hg
    split
    next htype =>
      obtain ⟨q, hpipe, hq⟩ := hf.pipes.page htype
      have hend : End K.ftable q (K.ftable f).writable f := ⟨htype, hpipe, rfl⟩
      rw [hpipe]
      refine returns_onPhys (pipeclose_spec hfiled.mem.heap hq _) ?_
      rintro _ s ⟨hagree, ⟨hzero, hheap, hdrop⟩ | ⟨hnz, hheap, hdrop, hown, hkeep⟩⟩
      · -- the page of the pipe is freed
        have hother : ¬ ∃ g, End K.ftable q (!(K.ftable f).writable) g := fun hg => by
          rcases hf.pipes.opened (!(K.ftable f).writable) hq with ⟨-, h1⟩ | ⟨hn, -⟩
          · exact absurd (h1.symm.trans hzero) (by decide)
          · exact hn hg
        exact ⟨_, hfiled.trans (Filed.of_step hfiled.mem (Frame.of_update (q := q) (y := .free)
          (by rw [hq]; trivial) trivial hagree) hheap (SameHand.update (by rw [hq]; exact id) id) rfl
          fun _ => rfl), rfl,
          hf.dropFile hone rfl (hf.pipes.closeLast (by rintro ⟨⟩) hend hother hagree), hfiles _, _, hdrop⟩
      · have hother : ∃ g, End K.ftable q (!(K.ftable f).writable) g := by
          rcases hf.pipes.opened (!(K.ftable f).writable) hq with ⟨hg, -⟩ | ⟨-, h0⟩
          · exact hg
          · exact absurd h0 hnz
        exact ⟨o, hfiled.trans (Filed.of_step hfiled.mem (Frame.of_write (q := q)
          (by rw [hq]; trivial) hagree) hheap (SameHand.refl o) rfl fun _ => rfl), rfl,
          hf.dropFile hone rfl (hf.pipes.closeEnd (by rintro ⟨⟩) hq hend hother hagree hown hkeep),
          hfiles _, _, hdrop⟩
    next htype =>
      exact returns_pure ⟨o, hfiled, rfl,
        hf.dropFile (s := K.phys) hone rfl (hf.pipes.drop (by rintro ⟨⟩) htype), hfiles _, [],
        Dropped.refl _ _⟩

/-! ## `pipealloc` -/

section Open

omit [Layout]

variable {ftable ftable' : Nat → File} {q f0 f1 : Nat}

/-- Two files become the ends of a new pipe. -/
lemma Pipes.open {m m' : Bytes} (h : Pipes ftable m o) (hq : o q ≠ .pipe)
    (hold0 : (ftable f0).type ≠ .pipe) (hold1 : (ftable f1).type ≠ .pipe)
    (h0 : End ftable' q false f0 ∧ (ftable' f0).ref ≠ 0 ∧ f0 < nfile)
    (h1 : End ftable' q true f1 ∧ (ftable' f1).ref ≠ 0 ∧ f1 < nfile)
    (hother : ∀ g, g ≠ f0 → g ≠ f1 → ftable' g = ftable g)
    (hm : ∀ q', q' ≠ q → Agree m m' q') (hopen : ∀ w, getLE m' (4096 * q + openOffset w) 4 = 1) :
    Pipes ftable' m' (update o q .pipe) := by
  have hne : ∀ {q' w g}, End ftable' q' w g → q' ≠ q → End ftable q' w g := by
    intro q' w g hg hq'
    have hg0 : g ≠ f0 := by
      rintro rfl
      have he := hg.2.1.symm.trans h0.1.2.1
      omega
    have hg1 : g ≠ f1 := by
      rintro rfl
      have he := hg.2.1.symm.trans h1.1.2.1
      omega
    unfold End at *
    rwa [hother g hg0 hg1] at hg
  have hkeep : ∀ {q' w g}, End ftable q' w g → End ftable' q' w g := by
    intro q' w g hg
    unfold End at *
    rwa [hother g (by rintro rfl; exact hold0 hg.1) (by rintro rfl; exact hold1 hg.1)]
  have hself : ∀ {w g}, End ftable' q w g → g = if w then f1 else f0 := by
    intro w g hg
    by_contra hgne
    have hg0 : g ≠ f0 := by
      rintro rfl
      have hw := hg.2.2.symm.trans h0.1.2.2
      exact hgne (by rw [hw]; rfl)
    have hg1 : g ≠ f1 := by
      rintro rfl
      have hw := hg.2.2.symm.trans h1.1.2.2
      exact hgne (by rw [hw]; rfl)
    unfold End at hg
    rw [hother g hg0 hg1] at hg
    obtain ⟨q', hq', ho⟩ := h.page hg.1
    obtain rfl : q' = q := by
      have := hq'.symm.trans hg.2.1
      omega
    exact hq ho
  have hown : ∀ {q'}, q' ≠ q → update o q .pipe q' = .pipe → o q' = .pipe :=
    fun he hq' => (update_of_ne he _ _).symm.trans hq'
  have hends : ∀ w, ∃ g, End ftable' q w g := fun w => by
    cases w with
    | false => exact ⟨f0, h0.1⟩
    | true => exact ⟨f1, h1.1⟩
  refine ⟨fun {g} hg => ?_, fun {g} hg => ?_, fun {q' w g g'} hg hg' => ?_, fun {q'} hq' => ?_,
    fun {q'} w hq' => ?_⟩
  · by_cases hg0 : g = f0
    · exact hg0 ▸ h0.2
    · by_cases hg1 : g = f1
      · exact hg1 ▸ h1.2
      · rw [hother g hg0 hg1] at hg ⊢
        exact h.live hg
  · by_cases hg0 : g = f0
    · exact hg0 ▸ ⟨q, h0.1.2.1, update_self ..⟩
    · by_cases hg1 : g = f1
      · exact hg1 ▸ ⟨q, h1.1.2.1, update_self ..⟩
      · rw [hother g hg0 hg1] at hg ⊢
        obtain ⟨q', hq', ho⟩ := h.page hg
        refine ⟨q', hq', ?_⟩
        rwa [update_of_ne]
        rintro rfl
        exact hq ho
  · by_cases he : q' = q
    · subst he
      rw [hself hg, hself hg']
    · exact h.uniq (hne hg he) (hne hg' he)
  · by_cases he : q' = q
    · subst he
      exact ⟨false, hends false⟩
    · obtain ⟨w, g, hg⟩ := h.used (hown he hq')
      exact ⟨w, g, hkeep hg⟩
  · by_cases he : q' = q
    · subst he
      exact .inl ⟨hends w, hopen w⟩
    · exact flag_congr (h.opened w (hown he hq')) (openOffset_le w) (hm q' he)
        (exists_congr fun g => ⟨fun hg => hne hg he, hkeep⟩)

end Open

section

omit [Layout]

/-- The memory of a new pipe. -/
def pipeFields (m : Bytes) (q : Nat) : Bytes :=
  putLE (putLE (putLE (putLE m (4096 * q + pipeReadopen) 4 1) (4096 * q + pipeWriteopen) 4 1)
    (4096 * q + pipeNwrite) 4 0) (4096 * q + pipeNread) 4 0

lemma agree_pipeFields (m : Bytes) {q q' : Nat} (hq : q' ≠ q) : Agree m (pipeFields m q) q' :=
  (((agree_putLE (by decide) hq).trans (agree_putLE (by decide) hq)).trans
    (agree_putLE (by decide) hq)).trans (agree_putLE (by decide) hq)

lemma pipeFields_open (m : Bytes) (q : Nat) (w : Bool) :
    getLE (pipeFields m q) (4096 * q + openOffset w) 4 = 1 := by
  unfold pipeFields
  cases w with
  | false =>
    rw [show openOffset false = pipeReadopen from rfl,
      getLE_putLE_of_disjoint (by simp [pipeReadopen, pipeNread]),
      getLE_putLE_of_disjoint (by simp [pipeReadopen, pipeNwrite]),
      getLE_putLE_of_disjoint (by simp [pipeReadopen, pipeWriteopen]), getLE_putLE]
    rfl
  | true =>
    rw [show openOffset true = pipeWriteopen from rfl,
      getLE_putLE_of_disjoint (by simp [pipeWriteopen, pipeNread]),
      getLE_putLE_of_disjoint (by simp [pipeWriteopen, pipeNwrite]), getLE_putLE]
    rfl

end

/-- A page in hand becomes a pipe, once its fields are set. -/
lemma Heap.makePipe {s : Phys} {R : Tag → Option Nat} {q : Nat} {m : Bytes}
    (h : Heap s R (update o q .temp)) (hm : ∀ q', q' ≠ q → Agree s.mem m q') :
    Heap (s.withMem m) R (update o q .pipe) := by
  have hwrite : Heap (s.withMem m) R (update o q .temp) := by
    refine h.write fun q' hq' => hm q' ?_
    rintro rfl
    rw [update_self] at hq'
    rcases hq' with he | ⟨t, d, x, he⟩ <;> cases he
  have hretag := hwrite.retag (q := q) (w := .pipe) (by rw [update_self]; trivial) trivial
  rwa [update_idem] at hretag

/-- The end of `pipealloc` when it fails: the call gives up the files it has. -/
lemma pipeallocBad_spec (h : MemInv K o) {f0 : Nat} (hf : FileInv K o (held + Pi.single f0 1))
    (hh : ∀ f, 0 ≤ held f) :
    Returns (pipeallocBad (some f0) none) K fun res K' => ∃ o', Filed K o K' o' ∧
      K'.proc = K.proc ∧ res = none ∧ FileInv K' o' held ∧
      (∀ g, g ≠ f0 → K'.ftable g = K.ftable g) ∧ ∃ L, Dropped K.phys o K'.phys o' L := by
  unfold pipeallocBad
  refine (fileclose_spec h hf (hf.ref_of_held ?_)).bind ?_
  · have := hh f0
    rw [Pi.add_apply, Pi.single_eq_same]
    omega
  · rintro _ K' ⟨o', hfiled, hproc, hf', hrest⟩
    rw [add_sub_cancel_right] at hf'
    exact returns_bind_pure (returns_pure ⟨o', hfiled, hproc, rfl, hf', hrest⟩)

lemma pipeallocBad_spec_two (h : MemInv K o) {f0 f1 : Nat}
    (hf : FileInv K o (held + Pi.single f0 1 + Pi.single f1 1)) (hh : ∀ f, 0 ≤ held f) :
    Returns (pipeallocBad (some f0) (some f1)) K fun res K' => ∃ o', Filed K o K' o' ∧
      K'.proc = K.proc ∧ res = none ∧ FileInv K' o' held ∧
      (∀ g, g ≠ f0 → g ≠ f1 → K'.ftable g = K.ftable g) ∧ ∃ L, Dropped K.phys o K'.phys o' L := by
  unfold pipeallocBad
  rw [add_right_comm] at hf
  refine (fileclose_spec h hf (hf.ref_of_held ?_)).bind ?_
  · have h0 := hh f0
    have h1 : (0 : Int) ≤ Pi.single (M := fun _ : Nat => Int) f1 1 f0 := by
      rw [Pi.single_apply]
      split <;> omega
    rw [Pi.add_apply, Pi.add_apply, Pi.single_eq_same]
    omega
  · rintro _ K₁ ⟨o₁, hfiled, hproc, hf₁, hfiles₁, L₁, hdrop₁⟩
    rw [add_sub_cancel_right] at hf₁
    refine (fileclose_spec hfiled.mem hf₁ (hf₁.ref_of_held ?_)).bind ?_
    · have := hh f1
      rw [Pi.add_apply, Pi.single_eq_same]
      omega
    · rintro _ K₂ ⟨o₂, hfiled₂, hproc₂, hf₂, hfiles₂, L₂, hdrop₂⟩
      rw [add_sub_cancel_right] at hf₂
      exact returns_pure ⟨o₂, hfiled.trans hfiled₂, hproc₂.trans hproc, rfl, hf₂,
        fun g h0 h1 => (hfiles₂ g h1).trans (hfiles₁ g h0), _, hdrop₁.trans hdrop₂⟩

/-- The files in use are as they were. -/
def SameFiles (K K' : Kernel) : Prop := ∀ g, (K.ftable g).ref ≠ 0 → K'.ftable g = K.ftable g

/-- `pipealloc`: the call holds a reference to each end. -/
lemma pipealloc_spec (h : MemInv K o) (hf : FileInv K o held) (hh : ∀ f, 0 ≤ held f) :
    Returns pipealloc K fun res K' => ∃ o', Filed K o K' o' ∧ K'.proc = K.proc ∧
      (res = none ∧ FileInv K' o' held ∧ SameFiles K K' ∧ (∃ L, Dropped K.phys o K'.phys o' L) ∨
        ∃ f0 f1 q, res = some (f0, f1) ∧ FileInv K' o' (held + Pi.single f0 1 + Pi.single f1 1) ∧
          (K.ftable f0).ref = 0 ∧ (K.ftable f1).ref = 0 ∧ SameFiles K K' ∧ o q = .free ∧
          o' = update o q .pipe ∧
          ∀ F, FreeList K.phys o F → ∃ F', F = q :: F' ∧ FreeList K'.phys o' F') := by
  unfold pipealloc
  refine (filealloc_spec h hf).bind ?_
  rintro r0 K₁ ⟨hm₁, hproc₁, hphys₁, ⟨rfl, hft, hf₁⟩ | ⟨f0, rfl, hlt0, htype0, hzero0, href0, hf₁, hother0⟩⟩
  · unfold pipeallocBad
    refine returns_bind_pure (returns_bind_pure (returns_pure ⟨o, hm₁, hproc₁, .inl ⟨rfl, hf₁,
      fun g _ => by rw [hft], [], ?_⟩⟩))
    rw [hphys₁]
    exact Dropped.refl _ _
  refine (filealloc_spec hm₁.mem hf₁).bind ?_
  rintro r1 K₂ ⟨hm₂, hproc₂, hphys₂, ⟨rfl, hft, hf₂⟩ | ⟨f1, rfl, hlt1, htype1, hzero1, href1, hf₂, hother⟩⟩
  · refine (pipeallocBad_spec hm₂.mem hf₂ hh).mono ?_
    rintro res K' ⟨o', hm', hproc', rfl, hf', hfiles, hdrop⟩
    rw [hphys₂, hphys₁] at hdrop
    refine ⟨o', (hm₁.trans hm₂).trans hm', hproc'.trans (hproc₂.trans hproc₁),
      .inl ⟨rfl, hf', fun g hg => ?_, hdrop⟩⟩
    have h0 : g ≠ f0 := by
      rintro rfl
      exact hg hzero0
    rw [hfiles g h0, hft, hother0 g h0]
  have hne : f0 ≠ f1 := by
    rintro rfl
    omega
  have hzero1' : (K.ftable f1).ref = 0 := by
    rw [← hother0 f1 hne.symm]
    exact hzero1
  have hlive : ∀ g, (K.ftable g).ref ≠ 0 → g ≠ f0 ∧ g ≠ f1 ∧ K₂.ftable g = K.ftable g := by
    intro g hg
    have h0 : g ≠ f0 := by
      rintro rfl
      exact hg hzero0
    have h1 : g ≠ f1 := by
      rintro rfl
      exact hg hzero1'
    exact ⟨h0, h1, (hother g h1).trans (hother0 g h0)⟩
  refine returns_onPhys_bind (kalloc_list hm₂.mem.heap) ?_
  rintro pa s₃ ⟨hhead, ⟨rfl, rfl, -⟩ | ⟨q, rfl, hq, hfree, rfl, htake⟩⟩
  · rw [if_pos rfl]
    refine (pipeallocBad_spec_two hm₂.mem hf₂ hh).mono ?_
    rintro res K' ⟨o', hm', hproc', rfl, hf', hfiles, hdrop⟩
    rw [hphys₂, hphys₁] at hdrop
    refine ⟨o', (hm₁.trans hm₂).trans hm', hproc'.trans (hproc₂.trans hproc₁),
      .inl ⟨rfl, hf', fun g hg => ?_, hdrop⟩⟩
    obtain ⟨h0, h1, he⟩ := hlive g hg
    rw [hfiles g h0 h1, he]
  rw [if_neg (by omega)]
  iterate 4 apply returns_store32
  apply returns_modifyFile
  apply returns_modifyFile
  -- the fields of the pipe, and the two files
  have hagree : ∀ q', q' ≠ q →
      Agree K₂.phys.mem (pipeFields (K₂.phys.take q).mem q) q' := fun q' hq' =>
    (K₂.phys.agree_take hq').trans (agree_pipeFields _ hq')
  have hheap : Heap ((K₂.phys.take q).withMem (pipeFields (K₂.phys.take q).mem q)) (tables K₂)
      (update o q .pipe) := Heap.makePipe htake fun q' hq' => agree_pipeFields _ hq'
  refine returns_pure ⟨update o q .pipe, (hm₁.trans hm₂).trans (Filed.of_step hm₂.mem
    (Frame.of_update (q := q) (by rw [hfree]; trivial) trivial hagree) hheap
    (SameHand.update (by rw [hfree]; exact id) id) rfl fun _ => rfl), hproc₂.trans hproc₁,
    .inr ⟨f0, f1, q, rfl, ⟨?_, hf₂.bound, ?_⟩, hzero0, hzero1', fun g hg => ?_, hfree, rfl,
      fun F hF => ?_⟩⟩
  · intro g
    have hrefs := hf₂.refs g
    refine Eq.trans ?_ hrefs
    by_cases h1 : g = f1
    · subst h1
      rw [setFile_self, setFile_other _ _ _ hne.symm]
    · rw [setFile_other _ _ _ h1]
      by_cases h0 : g = f0
      · subst h0
        rw [setFile_self]
      · rw [setFile_other _ _ _ h0]
  · rw [← hother f0 hne] at htype0
    refine hf₂.pipes.open (by rw [hfree]; rintro ⟨⟩) htype0 htype1 ⟨?_, ?_, hlt0⟩
      ⟨?_, ?_, hlt1⟩ (fun g h0 h1 => ?_) hagree (pipeFields_open _ q)
    · unfold End
      rw [setFile_other _ _ _ hne, setFile_self]
      exact ⟨rfl, rfl, rfl⟩
    · rw [setFile_other _ _ _ hne, setFile_self]
      show (K₂.ftable f0).ref ≠ 0
      rw [hother f0 hne, href0]
      decide
    · unfold End
      rw [setFile_self, setFile_other _ _ _ hne.symm]
      exact ⟨rfl, rfl, rfl⟩
    · rw [setFile_self, setFile_other _ _ _ hne.symm]
      show (K₂.ftable f1).ref ≠ 0
      rw [href1]
      decide
    · rw [setFile_other _ _ _ h1, setFile_other _ _ _ h0]
  · obtain ⟨h0, h1, he⟩ := hlive g hg
    rw [setFile_other _ _ _ h1, setFile_other _ _ _ h0, ← he]
  · rw [← hphys₁, ← hphys₂] at hF
    obtain ⟨F', rfl, hF'⟩ := hF.take hhead.symm hq
    refine ⟨F', rfl, hF'.congr rfl (fun q' hq' => agree_pipeFields _ ?_) fun q' => ?_⟩
    · rintro rfl
      rw [update_self] at hq'
      cases hq'
    · by_cases he : q' = q
      · rw [he, update_self, update_self]
        exact ⟨fun hx => (by cases hx), fun hx => by cases hx⟩
      · rw [update_of_ne he, update_of_ne he]

end Xv6.Process
