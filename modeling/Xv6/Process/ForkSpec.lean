import Xv6.Process.CallSpec

/-!
# `fork`, `exit` and `wait`

The calls that change who has memory. A new process gets its pages from the
free list, and gives them back when its parent waits for it.
-/

namespace Xv6.Process

open Function Lib Mem

variable [Layout] {B : Nat → Prop} {K K' : Kernel} {o o' : Nat → Owner} {p np fd : Nat}

/-! ## Parts of `fork` -/

/-- A store to the trapframe of process `p`. -/
lemma Inv.writeTrapframe {held : Nat → Int} {tf : Nat} {m : Bytes} (h : Inv B K o held)
    (hown : o tf = .trapframe p) (hm : ∀ q, q ≠ tf → Agree K.phys.mem m q) :
    Inv B { K with phys := K.phys.withMem m } o held :=
  h.movedSame (h.mem.writeTrapframe hown hm) rfl rfl rfl

/-- The loop of `fork` over the descriptors. -/
lemma dupRounds_spec :
    ∀ (n : Nat) {K : Kernel} {fd : Nat}, Inv B K o 0 → Running K np → fd + n = nofile →
      (∀ fd', fd ≤ fd' → (K.proc np).ofile fd' = none) →
      Returns (dupRounds p np fd n) K fun _ K' => Inv B K' o 0 ∧ Running K' np ∧
        (∃ ofile, K'.proc = update K.proc np { K.proc np with ofile := ofile }) ∧
        K'.phys = K.phys := by
  intro n
  induction n with
  | zero =>
    intro K fd h hr _ _
    exact returns_pure ⟨h, hr, ⟨_, (update_eq_self np K.proc).symm⟩, rfl⟩
  | succ n ih =>
    intro K fd h hr hfd hnone
    rw [dupRounds]
    apply returns_getProc
    cases hf : (K.proc p).ofile fd with
    | none =>
      exact returns_bind_pure (ih h hr (by omega) fun fd' hfd' => hnone fd' (by omega))
    | some f =>
      have hdup : Returns (do
          filedup f
          modifyProc np fun pr => { pr with ofile := update pr.ofile fd (some f) }) K
          fun _ K' => Inv B K' o 0 ∧ Running K' np ∧ K'.phys = K.phys ∧
            K'.proc = update K.proc np
              { K.proc np with ofile := update (K.proc np).ofile fd (some f) } := by
        refine (h.filedup (h.file.ref_pos hf (Int.le_refl 0))).bind ?_
        rintro _ K₁ ⟨h₁, hproc₁, hphys₁⟩
        have hnone₁ : (K₁.proc np).ofile fd = none := by
          rw [hproc₁]
          exact hnone fd (Nat.le_refl fd)
        have hr₁ : Running K₁ np := hr.congr (by rw [hproc₁])
        have hfill := h₁.file.fillFd (f := f) (mem_slots.mpr ⟨hr.lt, by omega⟩) hnone₁
        rw [zero_add, sub_self] at hfill
        refine returns_modify ⟨h₁.filed (Filed.setFd h₁.mem np _) hfill fun p' hs => ?_,
          hr₁.congr (by rw [setProc_self]), hphys₁, ?_⟩
        · rw [setProc_other _ _ _ (hr₁.ne hs)]
        · rw [← hproc₁]
          rfl
      refine hdup.bind ?_
      rintro _ K₁ ⟨h₁, hr₁, hphys₁, hproc₁⟩
      refine (ih h₁ hr₁ (by omega) fun fd' hfd' => ?_).mono ?_
      · rw [hproc₁, update_self]
        show update _ _ _ _ = _
        rw [update_of_ne (by omega)]
        exact hnone fd' (by omega)
      · rintro _ K₂ ⟨h₂, hr₂, ⟨ofile, hproc₂⟩, hphys₂⟩
        refine ⟨h₂, hr₂, ⟨ofile, ?_⟩, hphys₂.trans hphys₁⟩
        rw [hproc₂, hproc₁, update_idem, update_self]

/-- A process that has been allocated is in use. -/
lemma Inv.allocated (h : Inv B K o 0) (hm : Moved np K o K' o') (hs : (K'.proc np).state = .used)
    (hpt : (K'.proc np).pagetable ≠ 0) : Inv B K' o' 0 := by
  refine h.moved hm (h.complete.of_proc hm.others ⟨fun hu => ?_, fun _ => hpt, fun hu => ?_⟩)
  · rw [hs] at hu
    cases hu
  · rw [hs] at hu
    rcases hu with hu | hu <;> cases hu

/-- `freeproc` of a process without open files. -/
lemma Inv.freeproc (h : Inv B K o 0) (hofile : ∀ fd, (K.proc p).ofile fd = none) :
    Returns (freeproc p) K fun _ K' => ∃ o', Inv B K' o' 0 ∧ Moved p K o K' o' ∧
      (K'.proc p).state = .unused := by
  refine (freeproc_spec h.mem p).mono ?_
  rintro _ K' ⟨o', hm, hself⟩
  refine ⟨o', h.moved hm (h.complete.of_proc hm.others ⟨fun _ => ?_, fun hs => ?_, fun _ fd => ?_⟩),
    hm, by rw [hself]⟩
  · rw [hself]
    exact ⟨rfl, rfl⟩
  · exact absurd (by rw [hself]) hs
  · rw [hm.ofile]
    exact hofile fd

/-- The end of `fork`: the registers, the files, the parent and the state. -/
lemma forkRest_spec (h : Inv B K o 0) (hr : Running K np) {tf src : Nat}
    (htf : o tf = .trapframe np) (hofile : ∀ fd, (K.proc np).ofile fd = none) (pid : Int) :
    Returns (do
      onPhys (memmove (4096 * tf) src trapframeSize)
      onPhys (store64 (4096 * tf + trapframeA0) 0)
      dupRounds p np 0 nofile
      modifyProc np fun npr => { npr with parent := some p }
      modifyProc np fun npr => { npr with state := .runnable }
      pure pid) K fun res K' => res = pid ∧ Inv B K' o 0 ∧
        Frame (Private np) K.phys o K'.phys o ∧
        K'.phys.mem = putLE (copy K.phys.mem (4096 * tf) src trapframeSize)
          (4096 * tf + trapframeA0) 8 0 ∧ (∀ q, q ≠ tf → Agree K.phys.mem K'.phys.mem q) ∧
        ∃ ofile, K'.proc = update K.proc np
          { K.proc np with ofile := ofile, parent := some p, state := .runnable } := by
  apply returns_memmove
  have hm₁ : ∀ q, q ≠ tf → Agree K.phys.mem (copy K.phys.mem (4096 * tf) src trapframeSize) q :=
    fun q hq x hx => if_neg (by unfold trapframeSize; omega)
  have h₁ := h.writeTrapframe htf hm₁
  apply returns_store64
  have hm₂ : ∀ q, q ≠ tf → Agree (copy K.phys.mem (4096 * tf) src trapframeSize)
      (putLE (copy K.phys.mem (4096 * tf) src trapframeSize) (4096 * tf + trapframeA0) 8 0) q :=
    fun q hq => agree_putLE (by decide) hq
  have h₂ := h₁.writeTrapframe htf hm₂
  refine (dupRounds_spec nofile h₂ (hr.congr rfl) (Nat.zero_add _) fun fd _ => hofile fd).bind ?_
  rintro _ K₃ ⟨h₃, hr₃, ⟨ofile, hproc₃⟩, hphys₃⟩
  apply returns_modifyProc
  apply returns_modifyProc
  have h₄ := h₃.movedSame (Moved.of_fields h₃.mem (p := np)
    { K₃.proc np with parent := some p } rfl rfl rfl rfl) (by rw [setProc_self])
    (by rw [setProc_self]) (by rw [setProc_self])
  refine returns_pure ⟨rfl, h₄.moved (Moved.of_fields h₄.mem _ rfl rfl rfl rfl)
    (h₄.complete.of_proc (fun hne => setProc_other _ _ _ hne) ?_), ?_, ?_, ?_, ofile, ?_⟩
  · rw [setProc_self, setProc_self]
    refine ⟨fun hs => (by cases hs), fun _ => ?_, fun hs => ?_⟩
    · exact (h₃.complete np).used hr₃.used
    · rcases hs with hs | hs <;> cases hs
  · show Frame _ K.phys o K₃.phys o
    rw [hphys₃]
    exact Frame.of_write (q := tf) (by rw [htf]; rfl) fun q hq => (hm₁ q hq).trans (hm₂ q hq)
  · show K₃.phys.mem = _
    rw [hphys₃]
    rfl
  · intro q hq
    show Agree _ K₃.phys.mem q
    rw [hphys₃]
    exact (hm₁ q hq).trans (hm₂ q hq)
  · show update (update K₃.proc np _) np _ = _
    rw [hproc₃]
    simp only [update_idem, update_self, setProc_self]

/-! ## `fork` -/

omit [Layout] in
/-- The registers that `fork` stores. -/
lemma forkRegs_byte {m : Bytes} {tf src x : Nat} (hx : x < trapframeSize) :
    putLE (copy m (4096 * tf) src trapframeSize) (4096 * tf + trapframeA0) 8 0 (4096 * tf + x) =
      if trapframeA0 ≤ x ∧ x < trapframeA0 + 8 then 0 else m (src + x) := by
  split
  next hin =>
    rw [putLE, if_pos (by omega), Nat.zero_div]
    rfl
  next hout =>
    rw [putLE, if_neg (by omega), copy, if_pos (by omega), Nat.add_sub_cancel_left]

/-- Process `np` has been made as the child of `p`: its registers but `a0` and its user pages
are copies. -/
structure Forked (p np : Nat) (K : Kernel) (o : Nat → Owner) (K' : Kernel) (o' : Nat → Owner) :
    Prop where
  frame : Frame (Private np) K.phys o K'.phys o'
  lt : np < nproc
  unused : (K.proc np).state = .unused
  others : ∀ {p'}, p' ≠ np → K'.proc p' = K.proc p'
  pid : (K'.proc np).pid = K.nextpid
  sz : (K'.proc np).sz = (K.proc p).sz
  parent : (K'.proc np).parent = some p
  state : (K'.proc np).state = .runnable
  trapframe : ∀ {x}, x < trapframeSize → K'.phys.mem ((K'.proc np).trapframe + x) =
    if trapframeA0 ≤ x ∧ x < trapframeA0 + 8 then 0 else K.phys.mem ((K.proc p).trapframe + x)
  twin : ∃ r₀ r, (K.proc p).pagetable = 4096 * r₀ ∧ (K'.proc np).pagetable = 4096 * r ∧
    ∀ v, v < pages (K.proc p).sz → Twin K.phys.mem r₀ K'.phys.mem r v

lemma fork_spec (h : Inv B K o 0) (hr : Running K p) :
    Returns (fork p) K fun res K' => ∃ o', Inv B K' o' 0 ∧
      (∃ np, Frame (Private np) K.phys o K'.phys o') ∧
      (res = K.nextpid ∧ (∃ np, Forked p np K o K' o') ∨
        res = -1 ∧ ∃ np, Moved np K o K' o' ∧ Cancelled np K o K' o') := by
  unfold fork
  refine (allocproc_spec h.mem h.complete).bind ?_
  rintro res K₁ ⟨np, o₁, hm₁, ⟨rfl, hc₁, -, hcancel⟩ | ⟨rfl, hlt, hunused, hused, hpt, hsz, hpid, -⟩⟩
  · exact returns_pure ⟨o₁, h.moved hm₁ hc₁, ⟨np, hm₁.frame⟩, .inr ⟨rfl, np, hm₁, hcancel⟩⟩
  have hne : np ≠ p := hr.ne (.inl hunused)
  have h₁ := h.allocated hm₁ hused hpt
  have hofile₁ : ∀ fd, (K₁.proc np).ofile fd = none := fun fd => by
    rw [hm₁.ofile]
    exact (h.complete np).closed (.inl hunused) fd
  have hptp : (K₁.proc p).pagetable ≠ 0 := (h₁.complete p).used (by
    rw [hm₁.others hne.symm]
    exact hr.used)
  obtain ⟨r₀, tf₀, hr₀, htf₀, hown₀, hspace₀⟩ := (h₁.mem.proc p).space hptp
  obtain ⟨r, tf, hrn, htf, hown, hspace⟩ := (h₁.mem.proc np).space hpt
  rw [hsz] at hspace
  have hR := tables_proc hrn hpt
  apply returns_getProc
  apply returns_getProc
  rw [hr₀, hrn, htf]
  refine returns_onPhys_bind (uvmcopy_spec h₁.mem.heap (tables_proc hr₀ hptp) hR
    (fun he => hne (Tag.proc.inj he).symm) hspace₀.user hspace.user) ?_
  rintro res s ⟨o₂, hch, ⟨rfl, hpages, htwin⟩ | ⟨rfl, hpages⟩⟩
  · rw [if_neg (by decide)]
    apply returns_modifyProc
    have hm₂ := h₁.mem.resize (L := ({ K₁ with phys := s }).setProc np
      { K₁.proc np with sz := (K₁.proc p).sz }) hrn hpt hch hpages
      (fun hne => setProc_other _ _ _ hne) (setProc_self ..) rfl rfl
    have h₂ := h₁.movedSame hm₂ (by rw [setProc_self]) (by rw [setProc_self]) (by rw [setProc_self])
    have htf₂ : o₂ tf = .trapframe np := (hch.within.other (by rw [hown]; exact id)).trans hown
    refine (forkRest_spec h₂ ⟨hlt, ?_, ?_⟩ htf₂ (fun fd => ?_) _).mono ?_
    · rw [setProc_self, hused]
      rintro ⟨⟩
    · rw [setProc_self, hused]
      rintro ⟨⟩
    · rw [setProc_self]
      exact hofile₁ fd
    · rintro _ K' ⟨rfl, h', hF, hmem, hkept, ofile, hproc⟩
      have hcopied := hm₁.frame.trans hm₂.frame
      have hparent : K₁.proc p = K.proc p := hm₁.others hne.symm
      have hself : K'.proc np = { K₁.proc np with
          sz := (K₁.proc p).sz, ofile := ofile, parent := some p, state := .runnable } := by
        rw [hproc, update_self, setProc_self]
      rw [hparent] at hr₀ htf₀ hspace₀ htwin
      refine ⟨o₂, h', ⟨np, hcopied.trans hF⟩, .inl ⟨hpid, np, ?_⟩⟩
      constructor
      case frame => exact hcopied.trans hF
      case lt => exact hlt
      case unused => exact hunused
      case others =>
        intro p' hne'
        rw [hproc, update_of_ne hne', setProc_other _ _ _ hne']
        exact hm₁.others hne'
      case pid =>
        rw [hself]
        exact hpid
      case sz => rw [hself, hparent]
      case parent => rw [hself]
      case state => rw [hself]
      case trapframe =>
        intro x hx
        have hown₀' : ¬ Private np (o tf₀) := by
          intro hpriv
          have hpriv₁ := hm₁.frame.mine hpriv
          rw [hown₀] at hpriv₁
          exact hne hpriv₁.symm
        rw [hself, hmem, htf, forkRegs_byte hx, hparent, htf₀]
        congr 1
        exact hcopied.mem hown₀' _ (by unfold trapframeSize at hx; omega)
      case twin =>
        refine ⟨r₀, r, hr₀, by rw [hself]; exact hrn, fun v hv => ?_⟩
        rw [hparent] at hptp hpages
        have hother : Twin K.phys.mem r₀ K₁.phys.mem r₀ v := by
          obtain ⟨r', tf', hr', -, -, hspace'⟩ := (h.mem.proc p).space hptp
          obtain rfl : r' = r₀ := by omega
          refine h.mem.heap.twin (tables_proc hr₀ hptp) hspace'.user hv (fun hq => ?_) fun hq => ?_
          · exact hm₁.frame.mem (by rw [hq]; exact not_private_table hne.symm)
          · exact hm₁.frame.mem (by rw [hq]; exact not_private_user hne.symm)
        have hchild : Twin s.mem r K'.phys.mem r v := by
          refine hch.heap.twin hR hpages hv (fun hq => hkept _ ?_) fun hq => hkept _ ?_ <;>
            (rintro rfl; rw [htf₂] at hq; cases hq)
        exact (hother.trans (htwin v hv)).trans hchild
  · rw [if_pos (by decide)]
    have hm₂ := h₁.mem.resize (L := { K₁ with phys := s }) (z := 0) hrn hpt hch hpages
      (fun _ => rfl) (by rw [← hsz]) rfl rfl
    have h₂ := h₁.movedSame hm₂ rfl rfl rfl
    refine (h₂.freeproc hofile₁).bind ?_
    rintro _ K' ⟨o', h', hm', hstate⟩
    have hm := (hm₁.trans hm₂).trans hm'
    exact returns_pure ⟨o', h', ⟨np, hm.frame⟩, .inr ⟨rfl, np, hm, .inr ⟨hunused, hstate⟩⟩⟩

/-! ## `exit` -/

/-- The loop of `exit` over the descriptors. -/
lemma closeRounds_spec :
    ∀ (n : Nat) {K : Kernel} {o : Nat → Owner} {fd : Nat}, Inv B K o 0 → Running K p →
      (∀ fd', fd' < fd → (K.proc p).ofile fd' = none) →
      Returns (closeRounds p fd n) K fun _ K' => ∃ o', Inv B K' o' 0 ∧ Running K' p ∧
        (∀ fd', fd' < fd + n → (K'.proc p).ofile fd' = none) ∧
        ∃ L, Dropped K.phys o K'.phys o' L := by
  intro n
  induction n with
  | zero =>
    intro K o fd h hr hclosed
    exact returns_pure ⟨o, h, hr, hclosed, [], Dropped.refl _ _⟩
  | succ n ih =>
    intro K o fd h hr hclosed
    have hnext : fd + 1 + n = fd + (n + 1) := by omega
    rw [closeRounds, ← hnext]
    apply returns_getProc
    cases hf : (K.proc p).ofile fd with
    | none =>
      refine returns_bind_pure (ih h hr fun fd' hfd' => ?_)
      by_cases he : fd' = fd
      · rw [he]
        exact hf
      · exact hclosed fd' (by omega)
    | some f =>
      have hclose : Returns (do
          fileclose f
          clearFd p fd) K fun _ K' => ∃ o', Inv B K' o' 0 ∧ Running K' p ∧
            (K'.proc p).ofile = update (K.proc p).ofile fd none ∧
            ∃ L, Dropped K.phys o K'.phys o' L := by
        refine (h.fileclose (h.file.ref_pos hf (Int.le_refl 0))).bind ?_
        rintro _ K₁ ⟨o₁, h₁, hproc₁, -, -, L, hdrop⟩
        have hr₁ : Running K₁ p := hr.congr (by rw [hproc₁])
        refine (h₁.clearFd hr₁ (f := f) (by rw [hproc₁]; exact hf)).mono ?_
        rintro _ K₂ ⟨hclear, h₂⟩
        rw [sub_add_cancel] at h₂
        rw [← hclear.phys] at hdrop
        exact ⟨o₁, h₂, hclear.running hr₁, by rw [hclear.ofile, hproc₁], L, hdrop⟩
      refine hclose.bind ?_
      rintro _ K₁ ⟨o₁, h₁, hr₁, hofile₁, L₁, hdrop₁⟩
      refine (ih h₁ hr₁ fun fd' hfd' => ?_).mono ?_
      · rw [hofile₁]
        by_cases he : fd' = fd
        · rw [he, update_self]
        · rw [update_of_ne he]
          exact hclosed fd' (by omega)
      · rintro _ K₂ ⟨o₂, h₂, hr₂, hclosed₂, L₂, hdrop₂⟩
        exact ⟨o₂, h₂, hr₂, hclosed₂, _, hdrop₁.trans hdrop₂⟩

/-- Changing the parents of processes. -/
lemma Inv.reparent (h : Inv B K o 0) (p : Nat) : Inv B { K with proc := K.adopt p } o 0 := by
  have hadopt : ∀ pp, K.adopt p pp = { K.proc pp with parent := (K.adopt p pp).parent } := by
    intro pp
    unfold Kernel.adopt
    split <;> rfl
  have htables : tables { K with proc := K.adopt p } = tables K := tables_congr fun pp => by
    show (K.adopt p pp).pagetable = _
    rw [hadopt pp]
  refine ⟨⟨htables ▸ h.mem.heap, fun pp => ?_⟩, fun pp => ?_, ?_, h.boot, h.idle⟩
  · have hp := h.mem.proc pp
    show ProcMem K.phys o pp (K.adopt p pp)
    rw [hadopt pp]
    exact ⟨hp.space, hp.trap, hp.trapLive, hp.small, hp.empty⟩
  · have hp := h.complete pp
    show ProcComplete (K.adopt p pp)
    rw [hadopt pp]
    exact ⟨hp.unused, hp.used, hp.closed⟩
  · refine h.file.frame (Frame.refl (fun _ => False) _ _) id rfl fun pp => ?_
    show (K.adopt p pp).ofile = _
    rw [hadopt pp]

lemma exit_spec (h : Inv B K o 0) (hr : Running K p) (hinit : K.initproc ≠ some p)
    (status : Int) : Returns (exit p status) K fun _ K' => ∃ o', Inv B K' o' 0 ∧
      ∃ L, Dropped K.phys o K'.phys o' L := by
  unfold exit
  apply returns_get_bind
  rw [if_neg hinit]
  have hstart : ∀ fd', fd' < 0 → (K.proc p).ofile fd' = none := fun _ hlt => absurd hlt (Nat.not_lt_zero _)
  refine (closeRounds_spec nofile h hr hstart).bind ?_
  rintro _ K₁ ⟨o₁, h₁, hr₁, hclosed, hdrop⟩
  refine returns_bind_of_eq rfl ?_
  have h₂ := h₁.reparent p
  have hpt := (h₂.complete p).used (show (K₁.adopt p p).state ≠ .unused by
    unfold Kernel.adopt
    split <;> exact hr₁.used)
  have hofile : ∀ fd, (K₁.adopt p p).ofile fd = none := by
    intro fd
    have hsame : (K₁.adopt p p).ofile = (K₁.proc p).ofile := by
      unfold Kernel.adopt
      split <;> rfl
    rw [hsame]
    cases hf : (K₁.proc p).ofile fd with
    | none => rfl
    | some f =>
      have hlt := (mem_slots.mp (h₁.file.bound hf)).2
      rw [hclosed fd (by omega)] at hf
      cases hf
  refine returns_modify ⟨o₁, h₂.moved (Moved.of_fields h₂.mem _ rfl rfl rfl rfl)
    (h₂.complete.of_proc (fun hne => setProc_other _ _ _ hne) ?_), hdrop⟩
  rw [setProc_self]
  exact ⟨fun hs => (by cases hs), fun _ => hpt, fun _ => hofile⟩

/-! ## `wait` and `kill` -/

lemma wait_spec (h : Inv B K o 0) (hr : Running K p) (addr : Nat) :
    Returns (wait p addr) K fun _ K' => ∃ o', Inv B K' o' 0 := by
  unfold wait
  apply returns_get_bind
  cases hfind : (List.range nproc).find? fun pp =>
      (K.proc pp).parent = some p ∧ (K.proc pp).state = .zombie with
  | none =>
    dsimp only
    split
    next => exact returns_pure ⟨o, h⟩
    next => exact returns_pure ⟨o, h⟩
  | some pp =>
    have hz : (K.proc pp).parent = some p ∧ (K.proc pp).state = .zombie := by
      simpa using List.find?_some hfind
    have hcopy : Returns (if addr ≠ 0 then
          onPhys (copyout (K.proc p).pagetable addr (leBytes 4 (word32 (K.proc pp).xstate)))
        else pure 0) K fun _ K' => Inv B K' o 0 ∧ K'.proc = K.proc := by
      split
      next =>
        refine (h.copyout ((h.complete p).used hr.used) _ _).mono ?_
        rintro _ K' ⟨h', hproc, -⟩
        exact ⟨h', hproc⟩
      next => exact returns_pure ⟨h, rfl⟩
    refine hcopy.bind ?_
    rintro r K₁ ⟨h₁, hproc₁⟩
    split
    next => exact returns_pure ⟨o, h₁⟩
    next =>
      refine (h₁.freeproc (p := pp) fun fd => ?_).bind fun _ K' ⟨o', h', _⟩ => returns_pure ⟨o', h'⟩
      rw [hproc₁]
      exact (h.complete pp).closed (.inr hz.2) fd

lemma kill_spec (h : Inv B K o 0) (pid : Int) :
    Returns (kill pid) K fun _ K' => ∃ o', Inv B K' o' 0 := by
  unfold kill
  apply returns_get_bind
  cases hfind : (List.range nproc).find? fun p => (K.proc p).pid = pid with
  | none => exact returns_pure ⟨o, h⟩
  | some p =>
    apply returns_modifyProc
    refine returns_pure ⟨o, h.moved (Moved.of_fields h.mem _ rfl rfl rfl rfl)
      (h.complete.of_proc (fun hne => setProc_other _ _ _ hne) ?_)⟩
    have hp := h.complete p
    rw [setProc_self]
    by_cases hs : (K.proc p).state = .sleeping
    · simp only [if_pos hs]
      refine ⟨fun hu => (by cases hu), fun _ => hp.used (by rw [hs]; rintro ⟨⟩), fun hu => ?_⟩
      rcases hu with hu | hu <;> cases hu
    · simp only [if_neg hs]
      exact ⟨hp.unused, hp.used, hp.closed⟩

end Xv6.Process
