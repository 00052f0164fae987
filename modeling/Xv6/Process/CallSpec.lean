import Xv6.Process.FileSpec

/-!
# What the system calls do

`Inv` is what holds between calls, and while a call holds references to files.
Each call keeps it, whether it succeeds or fails, and returns.
-/

namespace Xv6.Process

open Function Lib Mem

variable [Layout] {B : Nat → Prop} {K K' : Kernel} {o o' : Nat → Owner} {held : Nat → Int}
variable {p f fd : Nat}

/-- The invariant of the kernel, with the pages `B` taken at boot. -/
structure Inv (B : Nat → Prop) (K : Kernel) (o : Nat → Owner) (held : Nat → Int) : Prop where
  mem : MemInv K o
  complete : Complete K
  file : FileInv K o held
  boot : ∀ q, o q = .boot ↔ B q
  /-- No page is in the hands of a call. -/
  idle : ∀ q, ¬ Hand (o q)

/-- A process that runs. -/
structure Running (K : Kernel) (p : Nat) : Prop where
  lt : p < nproc
  used : (K.proc p).state ≠ .unused
  alive : (K.proc p).state ≠ .zombie

lemma Inv.moved (h : Inv B K o held) (hm : Moved p K o K' o') (hc : Complete K') :
    Inv B K' o' held :=
  ⟨hm.mem, hc, hm.fileInv h.file, fun q => (hm.frame.owner_iff id).trans (h.boot q),
    hm.hand.empty h.idle⟩

/-- A step for `p` that keeps what `Complete` speaks of. -/
lemma Inv.movedSame (h : Inv B K o held) (hm : Moved p K o K' o')
    (hstate : (K'.proc p).state = (K.proc p).state)
    (hpagetable : (K'.proc p).pagetable = (K.proc p).pagetable)
    (htrapframe : (K'.proc p).trapframe = (K.proc p).trapframe) : Inv B K' o' held := by
  have hp := h.complete p
  refine h.moved hm (h.complete.of_proc hm.others ⟨?_, ?_, ?_⟩)
  · rw [hstate, hpagetable, htrapframe]
    exact hp.unused
  · rw [hstate, hpagetable]
    exact hp.used
  · rw [hstate, hm.ofile]
    exact hp.closed

lemma Inv.filed {held' : Nat → Int} (h : Inv B K o held) (hF : Filed K o K' o')
    (hf : FileInv K' o' held')
    (hofile : ∀ p, (K.proc p).state = .unused ∨ (K.proc p).state = .zombie →
      (K'.proc p).ofile = (K.proc p).ofile) : Inv B K' o' held' := by
  refine ⟨hF.mem, fun p => ?_, hf, fun q => (hF.frame.owner_iff id).trans (h.boot q),
    hF.hand.empty h.idle⟩
  have hp := h.complete p
  rw [hF.proc p]
  refine ⟨hp.unused, hp.used, fun hs fd => ?_⟩
  rw [hofile p hs]
  exact hp.closed hs fd

section

omit [Layout]

lemma Running.congr (h : Running K p) (hs : (K'.proc p).state = (K.proc p).state) : Running K' p :=
  ⟨h.lt, by rw [hs]; exact h.used, by rw [hs]; exact h.alive⟩

lemma Running.ne (h : Running K p) {p' : Nat}
    (hs : (K.proc p').state = .unused ∨ (K.proc p').state = .zombie) : p' ≠ p := by
  rintro rfl
  exact hs.elim h.used h.alive

end

/-! ## Files -/

section

omit [Layout]

/-- The descriptors of process `p` are replaced, and nothing else. -/
structure Refilled (p : Nat) (K K' : Kernel) (ofile : Nat → Option Nat) : Prop where
  phys : K'.phys = K.phys
  ftable : K'.ftable = K.ftable
  others : ∀ p', p' ≠ p → K'.proc p' = K.proc p'
  self : K'.proc p = { K.proc p with ofile := ofile }

lemma Refilled.running {ofile : Nat → Option Nat} (h : Refilled p K K' ofile) (hr : Running K p) :
    Running K' p := hr.congr (by rw [h.self])

lemma Refilled.ofile {ofile : Nat → Option Nat} (h : Refilled p K K' ofile) :
    (K'.proc p).ofile = ofile := by rw [h.self]

/-- Descriptors that are filled and cleared again are as they were. -/
lemma Refilled.undo {L K'' : Kernel} {g : Nat → Option Nat} (h : Refilled p K K' g)
    (hL : L.proc = K'.proc) (h' : Refilled p L K'' (K.proc p).ofile) : K''.proc = K.proc := by
  funext p'
  by_cases he : p' = p
  · subst he
    rw [h'.self, hL, h.self]
  · rw [h'.others p' he, hL, h.others p' he]

/-- `argfd` finds an open descriptor. -/
lemma argfd_spec (n : Int) : Returns (argfd p n) K fun res K' => K' = K ∧
    (res = none ∨ ∃ fd f, res = some (fd, f) ∧ (K.proc p).ofile fd = some f) := by
  unfold argfd
  apply returns_getProc
  split
  next => exact returns_pure ⟨rfl, .inl rfl⟩
  next =>
    cases hf : (K.proc p).ofile n.toNat with
    | none => exact returns_pure ⟨rfl, .inl rfl⟩
    | some f => exact returns_pure ⟨rfl, .inr ⟨_, f, rfl, hf⟩⟩

end

lemma Inv.fileclose (h : Inv B K o held) (href : 1 ≤ (K.ftable f).ref) :
    Returns (fileclose f) K fun _ K' => ∃ o', Inv B K' o' (held - Pi.single f 1) ∧
      K'.proc = K.proc ∧ Frame PipeOwner K.phys o K'.phys o' ∧
      (∀ g, g ≠ f → K'.ftable g = K.ftable g) ∧ ∃ L, Dropped K.phys o K'.phys o' L := by
  refine (fileclose_spec h.mem h.file href).mono ?_
  rintro _ K' ⟨o', hF, hproc, hf, hrest⟩
  exact ⟨o', h.filed hF hf fun p _ => by rw [hproc], hproc, hF.frame, hrest⟩

lemma Inv.filedup (h : Inv B K o held) (href : 1 ≤ (K.ftable f).ref) :
    Returns (filedup f) K fun _ K' => Inv B K' o (held + Pi.single f 1) ∧ K'.proc = K.proc ∧
      K'.phys = K.phys := by
  refine (filedup_spec h.mem h.file href).mono ?_
  rintro _ K' ⟨hF, hproc, hphys, hf⟩
  exact ⟨h.filed hF hf fun p _ => by rw [hproc], hproc, hphys⟩

lemma Inv.fdalloc (h : Inv B K o held) (hr : Running K p) (f : Nat) :
    Returns (fdalloc p f) K fun res K' => res = none ∧ K' = K ∨
      ∃ fd, res = some fd ∧ (K.proc p).ofile fd = none ∧
        Refilled p K K' (update (K.proc p).ofile fd (some f)) ∧
        Inv B K' o (held - Pi.single f 1) := by
  refine (fdalloc_spec h.mem h.file hr.lt f).mono ?_
  rintro res K' ⟨hF, hft, hphys, hothers, ⟨rfl, rfl⟩ | ⟨fd, rfl, hnone, hofile, hf⟩⟩
  · exact .inl ⟨rfl, rfl⟩
  · exact .inr ⟨fd, rfl, hnone, ⟨hphys, hft, hothers, by rw [hF.proc p, hofile]⟩,
      h.filed hF hf fun p' hs => by rw [hothers p' (hr.ne hs)]⟩

lemma Inv.clearFd (h : Inv B K o held) (hr : Running K p) (hfd : (K.proc p).ofile fd = some f) :
    Returns (clearFd p fd) K fun _ K' => Refilled p K K' (update (K.proc p).ofile fd none) ∧
      Inv B K' o (held + Pi.single f 1) := by
  have hF := Filed.setFd h.mem p (update (K.proc p).ofile fd none)
  exact returns_modify ⟨⟨rfl, rfl, fun p' hne => setProc_other _ _ _ hne, by rw [setProc_self]⟩,
    h.filed hF (h.file.clearFd hfd) fun p' hs => by rw [setProc_other _ _ _ (hr.ne hs)]⟩

lemma sysDup_spec (h : Inv B K o 0) (hr : Running K p) (n : Int) :
    Returns (sysDup p n) K fun _ K' => Inv B K' o 0 ∧ K'.phys = K.phys := by
  unfold sysDup
  refine (argfd_spec n).bind ?_
  rintro res _ ⟨rfl, rfl | ⟨fd, f, rfl, hfd⟩⟩
  · exact returns_pure ⟨h, rfl⟩
  refine (h.fdalloc hr f).bind ?_
  rintro res K₁ (⟨rfl, rfl⟩ | ⟨fd', rfl, -, hfill, h₁⟩)
  · exact returns_pure ⟨h, rfl⟩
  · have href := h.file.ref_pos hfd (Int.le_refl 0)
    refine (h₁.filedup (by rw [hfill.ftable]; exact href)).bind ?_
    rintro _ K₂ ⟨h₂, -, hphys₂⟩
    rw [sub_add_cancel] at h₂
    exact returns_pure ⟨h₂, hphys₂.trans hfill.phys⟩

lemma sysClose_spec (h : Inv B K o 0) (hr : Running K p) (n : Int) :
    Returns (sysClose p n) K fun _ K' => ∃ o', Inv B K' o' 0 ∧ ∃ L, Dropped K.phys o K'.phys o' L := by
  unfold sysClose
  refine (argfd_spec n).bind ?_
  rintro res _ ⟨rfl, rfl | ⟨fd, f, rfl, hfd⟩⟩
  · exact returns_pure ⟨o, h, [], Dropped.refl _ _⟩
  have href := h.file.ref_pos hfd (Int.le_refl 0)
  refine (h.clearFd hr hfd).bind ?_
  rintro _ K₁ ⟨hclear, h₁⟩
  refine (h₁.fileclose (by rw [hclear.ftable]; exact href)).bind ?_
  rintro _ K₂ ⟨o₂, h₂, -, -, -, L, hdrop⟩
  rw [add_sub_cancel_right] at h₂
  rw [hclear.phys] at hdrop
  exact returns_pure ⟨o₂, h₂, L, hdrop⟩

/-- Both ends of a new pipe are closed again. -/
lemma sysPipeBad_spec {rf wf : Nat} (h : Inv B K o (Pi.single rf 1 + Pi.single wf 1)) :
    Returns (sysPipeBad rf wf) K fun res K' => res = -1 ∧ ∃ o', Inv B K' o' 0 ∧ K'.proc = K.proc ∧
      Frame PipeOwner K.phys o K'.phys o' ∧
      (∀ g, g ≠ rf → g ≠ wf → K'.ftable g = K.ftable g) ∧ ∃ L, Dropped K.phys o K'.phys o' L := by
  unfold sysPipeBad
  refine (h.fileclose (h.file.ref_of_held ?_)).bind ?_
  · rw [Pi.add_apply, Pi.single_eq_same, Pi.single_apply]
    split <;> omega
  rintro _ K₁ ⟨o₁, h₁, hproc₁, hF₁, hfiles₁, L₁, hdrop₁⟩
  rw [add_sub_cancel_left] at h₁
  refine (h₁.fileclose (h₁.file.ref_of_held (by rw [Pi.single_eq_same]))).bind ?_
  rintro _ K₂ ⟨o₂, h₂, hproc₂, hF₂, hfiles₂, L₂, hdrop₂⟩
  rw [sub_self] at h₂
  exact returns_pure ⟨rfl, o₂, h₂, hproc₂.trans hproc₁, hF₁.trans hF₂,
    fun g hr hw => (hfiles₂ g hw).trans (hfiles₁ g hr), _, hdrop₁.trans hdrop₂⟩

/-! ## Copies to user memory -/

lemma MemInv.poked {s : Phys} (h : MemInv K o) {r : Nat} (hr : (K.proc p).pagetable = 4096 * r)
    (hne : (K.proc p).pagetable ≠ 0) (hp : Poked (tables K) (.proc p) K.phys o s) :
    Moved p K o { K with phys := s } o := by
  obtain ⟨r', tf, hr', htf, hown, hspace⟩ := (h.proc p).space hne
  obtain rfl : r' = r := by omega
  have hF : Frame (Private p) K.phys o s o :=
    hp.within.mono fun y hy => Private.of_proc hy
  refine Moved.of_step (L := { K with phys := s }) h hF hp.heap (fun _ => rfl) ?_ (SameHand.refl o)
    rfl rfl rfl
  refine ⟨fun _ => ⟨r', tf, hr, htf, hown, space_congr hspace fun v hv =>
    hp.ptes h.heap (tables_proc hr hne) hv⟩, (h.proc p).trap, (h.proc p).trapLive, (h.proc p).small,
    (h.proc p).empty⟩

/-- `copyout` to the memory of process `p`. -/
lemma Inv.copyout (h : Inv B K o held) (hne : (K.proc p).pagetable ≠ 0) (dstva : Nat)
    (src : List UInt8) :
    Returns (onPhys (copyout (K.proc p).pagetable dstva src)) K fun _ K' =>
      Inv B K' o held ∧ K'.proc = K.proc ∧ K'.ftable = K.ftable ∧
      Poked (tables K) (.proc p) K.phys o K'.phys ∧ K'.phys.freelist = K.phys.freelist := by
  obtain ⟨r, tf, hr, -, -, hspace⟩ := (h.mem.proc p).space hne
  rw [hr]
  refine returns_onPhys ((copyout_spec h.mem.heap (tables_proc hr hne) hspace.sealed dstva src).and_ends
    (copyout_freelist _ _ _)) ?_
  rintro _ s ⟨hp, hlist⟩
  exact ⟨h.movedSame (h.mem.poked hr hne hp) rfl rfl rfl, rfl, rfl, hp, hlist⟩

/-! ## `pipe` -/

/-- Between two points of a call only descriptors and user memory change. -/
structure Quiet (K : Kernel) (o : Nat → Owner) (K' : Kernel) : Prop where
  ftable : K'.ftable = K.ftable
  freelist : K'.phys.freelist = K.phys.freelist
  mem : ∀ {q}, (∀ t v, o q ≠ .user t v) → Agree K.phys.mem K'.phys.mem q

section

omit [Layout]

lemma Quiet.refl (K : Kernel) (o : Nat → Owner) : Quiet K o K := ⟨rfl, rfl, fun _ => Agree.refl _ _⟩

lemma Quiet.trans {K'' : Kernel} (h : Quiet K o K') (h' : Quiet K' o K'') : Quiet K o K'' :=
  ⟨h'.ftable.trans h.ftable, h'.freelist.trans h.freelist, fun hq => (h.mem hq).trans (h'.mem hq)⟩

lemma Quiet.refilled {ofile : Nat → Option Nat} (h : Refilled p K K' ofile) : Quiet K o K' :=
  ⟨h.ftable, by rw [h.phys], fun _ => by rw [h.phys]; exact Agree.refl _ _⟩

lemma Quiet.freeList {F : List Nat} (h : Quiet K o K') (hF : FreeList K.phys o F) :
    FreeList K'.phys o F :=
  hF.congr h.freelist (fun q hq => h.mem fun t v he => by rw [hq] at he; cases he) fun _ => Iff.rfl

end

section

omit [Layout]

/-- The references of the descriptors are all references. -/
lemma FileInv.ref_congr (h : FileInv K o 0) (h' : FileInv K' o' 0)
    (hofile : ∀ p, (K'.proc p).ofile = (K.proc p).ofile) (f : Nat) :
    (K'.ftable f).ref = (K.ftable f).ref := by
  have hfds : fds K' = fds K := by
    funext x
    rw [fds, fds, hofile]
  have h₁ := h.refs f
  have h₂ := h'.refs f
  rw [hfds] at h₂
  exact Int.ofNat.inj (h₂.trans h₁.symm)

/-- A page is a pipe as long as its files are there. -/
lemma Pipes.owner_pipe {ftable ftable' : Nat → File} {m m' : Bytes} {q : Nat}
    (h : Pipes ftable m o) (h' : Pipes ftable' m' o')
    (hfiles : ∀ g, (ftable g).ref ≠ 0 → ftable' g = ftable g) (hq : o q = .pipe) : o' q = .pipe := by
  obtain ⟨w, f, hend⟩ := h.used hq
  have he := hfiles f (h.live hend.1).1
  obtain ⟨q', hq', ho⟩ := h'.page (f := f) (by rw [he]; exact hend.1)
  obtain rfl : q' = q := by
    have := hq'.symm.trans (by rw [he, hend.2.1])
    omega
  exact ho

lemma FileInv.pipe_iff {q : Nat} (h : FileInv K o 0) (h' : FileInv K' o' 0)
    (hofile : ∀ p, (K'.proc p).ofile = (K.proc p).ofile) (hfiles : SameFiles K K') :
    o' q = .pipe ↔ o q = .pipe := by
  refine ⟨fun hq => h'.pipes.owner_pipe h.pipes (fun g hg => ?_) hq, fun hq =>
    h.pipes.owner_pipe h'.pipes hfiles hq⟩
  rw [h.ref_congr h' hofile] at hg
  exact (hfiles g hg).symm

/-- Two free places are filled and cleared again. -/
lemma update_clear_two {g : Nat → Option Nat} {a b : Nat} {x y : Option Nat} (ha : g a = none)
    (hb : g b = none) (hne : b ≠ a) :
    update (update (update (update g a x) b y) a none) b none =
      g := by
  have hclear : ∀ {i}, g i = none → update g i none = g := fun hi =>
    update_eq_self_iff.mpr hi.symm
  rw [update_comm hne.symm, update_idem, update_comm hne,
    update_idem, hclear ha, hclear hb]

end

lemma Quiet.poked (hf : K'.ftable = K.ftable) (hp : Poked (tables K) (.proc p) K.phys o K'.phys)
    (hlist : K'.phys.freelist = K.phys.freelist) : Quiet K o K' :=
  ⟨hf, hlist, fun hq => hp.mem fun v => hq (.proc p) v⟩

/-- A call that has failed and left nothing behind. -/
structure Undone (B : Nat → Prop) (K : Kernel) (o : Nat → Owner) (K' : Kernel) : Prop where
  inv : Inv B K' o 0
  proc : K'.proc = K.proc
  files : SameFiles K K'
  list : ∀ {F}, FreeList K.phys o F → FreeList K'.phys o F
  tables : ∀ {q t d x}, o q = .table t d x → Agree K.phys.mem K'.phys.mem q

/-- A call that has made a pipe in page `q`. -/
structure Piped (B : Nat → Prop) (K : Kernel) (o : Nat → Owner) (K' : Kernel) (q : Nat) : Prop where
  inv : Inv B K' (update o q .pipe) 0
  free : o q = .free
  list : ∀ {F}, FreeList K.phys o F → ∃ F', F = q :: F' ∧
    FreeList K'.phys (update o q .pipe) F'

lemma Inv.pipealloc (h : Inv B K o 0) :
    Returns pipealloc K fun res K' => res = none ∧ Undone B K o K' ∨
      ∃ rf wf q, res = some (rf, wf) ∧ K'.proc = K.proc ∧ (K.ftable rf).ref = 0 ∧
        (K.ftable wf).ref = 0 ∧ SameFiles K K' ∧ o q = .free ∧
        Frame PipeOwner K.phys o K'.phys (update o q .pipe) ∧
        Inv B K' (update o q .pipe) (Pi.single rf 1 + Pi.single wf 1) ∧
        ∀ {F}, FreeList K.phys o F → ∃ F', F = q :: F' ∧
          FreeList K'.phys (update o q .pipe) F' := by
  refine (pipealloc_spec h.mem h.file fun _ => Int.le_refl 0).mono ?_
  rintro res K' ⟨o', hF, hproc, ⟨rfl, hf, hfiles, L, hdrop⟩ |
    ⟨rf, wf, q, rfl, hf, hr, hw, hfiles, hq, rfl, hlist⟩⟩
  · -- no page of a pipe was freed, since all files are there
    obtain ⟨rfl, rfl⟩ := hdrop.eq_nil fun q hq =>
      (h.file.pipe_iff hf (fun p => by rw [hproc]) hfiles).mpr hq
    exact .inl ⟨rfl, h.filed hF hf fun p _ => by rw [hproc], hproc, hfiles, hdrop.list, fun hq =>
      hF.frame.mem (by rw [hq]; exact id)⟩
  · rw [zero_add] at hf
    exact .inr ⟨rf, wf, q, rfl, hproc, hr, hw, hfiles, hq, hF.frame,
      h.filed hF hf fun p _ => by rw [hproc], fun hF => hlist _ hF⟩

/-- The end of `sys_pipe` when it fails: the new pipe is gone again. -/
lemma Inv.sysPipeBad {K₁ K₂ : Kernel} {rf wf q : Nat} (h : Inv B K o 0)
    (hrf : (K.ftable rf).ref = 0) (hwf : (K.ftable wf).ref = 0) (hfiles : SameFiles K K₁)
    (hq : o q = .free) (hF : Frame PipeOwner K.phys o K₁.phys (update o q .pipe))
    (hlist : ∀ {F}, FreeList K.phys o F → ∃ F', F = q :: F' ∧
      FreeList K₁.phys (update o q .pipe) F')
    (hquiet : Quiet K₁ (update o q .pipe) K₂) (hproc : K₂.proc = K.proc)
    (h₂ : Inv B K₂ (update o q .pipe) (Pi.single rf 1 + Pi.single wf 1)) :
    Returns (sysPipeBad rf wf) K₂ fun res K' => res = -1 ∧ Undone B K o K' := by
  refine (sysPipeBad_spec h₂).mono ?_
  rintro _ K' ⟨rfl, o', h', hproc', hF', hfiles', L, hdrop⟩
  have hproc'' : K'.proc = K.proc := hproc'.trans hproc
  have hlive : SameFiles K K' := fun g hg => by
    rw [hfiles' g (by rintro rfl; exact hg hrf) (by rintro rfl; exact hg hwf), hquiet.ftable]
    exact hfiles g hg
  have hpipe : ∀ q', o' q' = .pipe ↔ o q' = .pipe := fun q' =>
    h.file.pipe_iff h'.file (fun p => by rw [hproc'']) hlive
  -- the page of the new pipe is the only one that is freed
  have hL : ∀ q', q' ∈ L ↔ q' = q := by
    intro q'
    rw [hdrop.mem_iff, Ne, hpipe]
    by_cases he : q' = q
    · rw [he, update_self, hq]
      exact ⟨fun _ => rfl, fun _ => ⟨rfl, by rintro ⟨⟩⟩⟩
    · rw [update_of_ne he]
      exact ⟨fun hx => absurd hx.1 hx.2, fun hx => absurd hx he⟩
  obtain rfl : o = o' := by
    funext q'
    by_cases he : q' = q
    · rw [(hdrop.pipe ((hL q').mpr he)).2, he, hq]
    · rw [hdrop.other fun hm => he ((hL q').mp hm), update_of_ne he]
  refine ⟨rfl, h', hproc'', hlive, fun {F} hFree => ?_, fun {q' t d x} hq' => ?_⟩
  · obtain ⟨F', rfl, hF₁⟩ := hlist hFree
    have hend := hdrop.list (hquiet.freeList hF₁)
    have hone : L = [q] := List.perm_singleton.mp ((List.perm_ext_iff_of_nodup
      hend.nodup.of_append_left (List.nodup_singleton q)).mpr fun q' => by
        rw [hL, List.mem_singleton])
    rw [hone] at hend
    exact hend
  · have hne : q' ≠ q := by
      rintro rfl
      rw [hq] at hq'
      cases hq'
    have hown : update o q .pipe q' = .table t d x := by
      rw [update_of_ne hne, hq']
    refine ((hF.mem (by rw [hq']; exact id)).trans (hquiet.mem fun t' v he => ?_)).trans
      (hF'.mem (by rw [hown]; exact id))
    rw [hown] at he
    cases he

/-- The copies of the two descriptors to user memory. -/
lemma copyFds_spec (h : Inv B K o 0) (hr : Running K p) (fdarray fd0 fd1 : Nat) :
    Returns (do
      let r0 ← onPhys (copyout (K.proc p).pagetable fdarray (leBytes 4 fd0))
      (if r0 < 0 then pure (-1)
        else onPhys (copyout (K.proc p).pagetable ((fdarray + 4) % 2 ^ 64) (leBytes 4 fd1)))) K
      fun _ K' => Inv B K' o 0 ∧ K'.proc = K.proc ∧ Quiet K o K' := by
  have hpt := (h.complete p).used hr.used
  refine (h.copyout hpt fdarray (leBytes 4 fd0)).bind ?_
  rintro r0 K₁ ⟨h₁, hproc₁, hft₁, hp₁, hlist₁⟩
  have hq₁ : Quiet K o K₁ := Quiet.poked hft₁ hp₁ hlist₁
  split
  next => exact returns_pure ⟨h₁, hproc₁, hq₁⟩
  next =>
    rw [← hproc₁]
    refine (h₁.copyout (p := p) (by rw [hproc₁]; exact hpt) _ _).mono ?_
    rintro _ K₂ ⟨h₂, hproc₂, hft₂, hp₂, hlist₂⟩
    exact ⟨h₂, hproc₂, hq₁.trans (Quiet.poked hft₂ hp₂ hlist₂)⟩

lemma sysPipe_spec (h : Inv B K o 0) (hr : Running K p) (fdarray : Nat) :
    Returns (sysPipe p fdarray) K fun res K' => res = -1 ∧ Undone B K o K' ∨
      res = 0 ∧ ∃ q, Piped B K o K' q := by
  unfold sysPipe
  refine h.pipealloc.bind ?_
  rintro res K₁ (⟨rfl, hundone⟩ | ⟨rf, wf, q, rfl, hproc₁, hrf, hwf, hfiles, hq, hF, h₁, hlist⟩)
  · exact returns_pure (.inl ⟨rfl, hundone⟩)
  have hbad : ∀ {K₂ : Kernel}, Quiet K₁ (update o q .pipe) K₂ → K₂.proc = K.proc →
      Inv B K₂ (update o q .pipe) (Pi.single rf 1 + Pi.single wf 1) →
      Returns (sysPipeBad rf wf) K₂ fun res K' => res = -1 ∧ Undone B K o K' ∨
        res = 0 ∧ ∃ q, Piped B K o K' q := fun hquiet hproc h₂ =>
    (h.sysPipeBad hrf hwf hfiles hq hF hlist hquiet hproc h₂).mono fun _ _ hu => .inl hu
  have hr₁ : Running K₁ p := hr.congr (by rw [hproc₁])
  refine (h₁.fdalloc hr₁ rf).bind ?_
  rintro res K₂ (⟨rfl, rfl⟩ | ⟨fd0, rfl, hnone₀, hfill₂, h₂⟩)
  · exact hbad (Quiet.refl _ _) hproc₁ h₁
  rw [add_sub_cancel_left] at h₂
  have hr₂ := hfill₂.running hr₁
  refine (h₂.fdalloc hr₂ wf).bind ?_
  rintro res K₃ (⟨rfl, rfl⟩ | ⟨fd1, rfl, hnone₁, hfill₃, h₃⟩)
  · -- no second descriptor: the first one is given back
    have hfd0 : (K₃.proc p).ofile fd0 = some rf := by rw [hfill₂.ofile, update_self]
    refine (h₂.clearFd hr₂ hfd0).bind ?_
    rintro _ K₄ ⟨hclear, h₄⟩
    rw [add_comm] at h₄
    refine hbad ((Quiet.refilled hfill₂).trans (Quiet.refilled hclear)) ?_ h₄
    rw [hfill₂.ofile, update_idem, ← hnone₀, update_eq_self] at hclear
    rw [hfill₂.undo rfl hclear, hproc₁]
  rw [sub_self] at h₃
  rw [hfill₂.ofile] at hnone₁ hfill₃
  have hne : fd1 ≠ fd0 := by
    rintro rfl
    rw [update_self] at hnone₁
    cases hnone₁
  rw [update_of_ne hne] at hnone₁
  have hr₃ := hfill₃.running hr₂
  have hquiet₃ := (Quiet.refilled (o := update o q .pipe) hfill₂).trans (Quiet.refilled hfill₃)
  apply returns_getProc
  rw [← bind_assoc]
  refine (copyFds_spec h₃ hr₃ fdarray fd0 fd1).bind ?_
  rintro r1 K₄ ⟨h₄, hproc₄, hquiet₄⟩
  have hquiet := hquiet₃.trans hquiet₄
  split
  next =>
    have hofile₄ : (K₄.proc p).ofile =
        update (update (K₁.proc p).ofile fd0 (some rf)) fd1 (some wf) := by
      rw [hproc₄, hfill₃.ofile]
    have hrf : (K₄.proc p).ofile fd0 = some rf := by
      rw [hofile₄, update_of_ne hne.symm, update_self]
    refine (h₄.clearFd (hr₃.congr (by rw [hproc₄])) hrf).bind ?_
    rintro _ K₅ ⟨hclear₅, h₅⟩
    have hwf : (K₅.proc p).ofile fd1 = some wf := by
      rw [hclear₅.ofile, hofile₄, update_of_ne hne, update_self]
    refine (h₅.clearFd (hclear₅.running (hr₃.congr (by rw [hproc₄]))) hwf).bind ?_
    rintro _ K₆ ⟨hclear₆, h₆⟩
    rw [zero_add] at h₆
    refine hbad (hquiet.trans ((Quiet.refilled hclear₅).trans (Quiet.refilled hclear₆))) ?_ h₆
    rw [← hproc₁]
    rw [hclear₅.ofile, hofile₄, update_clear_two hnone₀ hnone₁ hne] at hclear₆
    funext p'
    by_cases he : p' = p
    · subst he
      rw [hclear₆.self, hclear₅.self, hproc₄, hfill₃.self, hfill₂.self]
    · rw [hclear₆.others p' he, hclear₅.others p' he, hproc₄, hfill₃.others p' he, hfill₂.others p' he]
  next => exact returns_pure (.inr ⟨rfl, q, h₄, hq, fun hFree => by
      obtain ⟨F', hF', hfree'⟩ := hlist hFree
      exact ⟨F', hF', hquiet.freeList hfree'⟩⟩)

/-! ## `sbrk` -/

lemma sysSbrk_spec (h : Inv B K o 0) (hr : Running K p) (n : Int) :
    Returns (sysSbrk p n) K fun _ K' => ∃ o', Inv B K' o' 0 := by
  unfold sysSbrk
  apply returns_getProc
  refine (growproc_spec h.mem ((h.complete p).used hr.used) n).bind ?_
  rintro res K' ⟨o', sz, hm, hself, -⟩
  have h' : Inv B K' o' 0 := h.movedSame hm (by rw [hself]) (by rw [hself]) (by rw [hself])
  split
  next => exact returns_pure ⟨o', h'⟩
  next => exact returns_pure ⟨o', h'⟩

end Xv6.Process
