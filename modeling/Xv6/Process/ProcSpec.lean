import Xv6.Process.Invariant

/-!
# What the functions of `proc.c` do to memory

`Moved p` says what a function does that works for process `p` only: it keeps the
invariant, and touches no other process, no file and no pipe.
-/

namespace Xv6.Process

open Function Lib Mem

variable [Layout] {K K' K'' : Kernel} {o o' o'' : Nat → Owner} {p : Nat}

/-- The state changes for process `p` alone. -/
structure Moved (p : Nat) (K : Kernel) (o : Nat → Owner) (K' : Kernel) (o' : Nat → Owner) : Prop where
  mem : MemInv K' o'
  frame : Frame (Private p) K.phys o K'.phys o'
  hand : SameHand o o'
  ftable : K'.ftable = K.ftable
  initproc : K'.initproc = K.initproc
  others : ∀ {p'}, p' ≠ p → K'.proc p' = K.proc p'
  ofile : (K'.proc p).ofile = (K.proc p).ofile

lemma Moved.refl (h : MemInv K o) (p : Nat) : Moved p K o K o :=
  ⟨h, Frame.refl _ _ _, SameHand.refl o, rfl, rfl, fun _ => rfl, rfl⟩

lemma Moved.trans (h : Moved p K o K' o') (h' : Moved p K' o' K'' o'') : Moved p K o K'' o'' :=
  ⟨h'.mem, h.frame.trans h'.frame, h.hand.trans h'.hand, h'.ftable.trans h.ftable,
    h'.initproc.trans h.initproc,
    fun hne => (h'.others hne).trans (h.others hne), h'.ofile.trans h.ofile⟩

lemma Moved.fileInv {held : Nat → Int} (h : Moved p K o K' o') (hf : FileInv K o held) :
    FileInv K' o' held := by
  refine hf.frame h.frame (fun hp => hp) h.ftable fun p' => ?_
  by_cases he : p' = p
  · rw [he]
    exact h.ofile
  · rw [h.others he]

/-- A step for `p`, when the invariant holds for `p` afterwards. -/
lemma Moved.of_step {L : Kernel} (h : MemInv K o) (hF : Frame (Private p) K.phys o L.phys o')
    (hheap : Heap L.phys (tables L) o') (hothers : ∀ {p'}, p' ≠ p → L.proc p' = K.proc p')
    (hp : ProcMem L.phys o' p (L.proc p)) (hhand : SameHand o o')
    (hftable : L.ftable = K.ftable) (hinit : L.initproc = K.initproc)
    (hofile : (L.proc p).ofile = (K.proc p).ofile) : Moved p K o L o' := by
  refine ⟨h.step hF hheap fun p' => ?_, hF, hhand, hftable, hinit, hothers, hofile⟩
  by_cases he : p' = p
  · exact .inr (he ▸ hp)
  · left
    apply Private.untouched he <;> rw [hothers he]

/-- Fields of `p` change that say nothing about memory. -/
lemma Moved.of_fields (h : MemInv K o) (pr : Proc) (hsz : pr.sz = (K.proc p).sz)
    (hpagetable : pr.pagetable = (K.proc p).pagetable)
    (htrapframe : pr.trapframe = (K.proc p).trapframe) (hofile : pr.ofile = (K.proc p).ofile) :
    Moved p K o (K.setProc p pr) o := by
  have hp := h.proc p
  refine Moved.of_step h (Frame.refl _ _ _) ?_ (fun hne => setProc_other _ _ _ hne) ?_
    (SameHand.refl o) rfl rfl (by rw [setProc_self, hofile])
  · rw [tables_congr (K := K) fun p' => ?_]
    · exact h.heap
    · by_cases he : p' = p
      · rw [he, setProc_self, hpagetable]
      · rw [setProc_other _ _ _ he]
  · rw [setProc_self]
    refine ⟨?_, ?_, ?_, ?_, ?_⟩
    · rw [hpagetable, htrapframe, hsz]
      exact hp.space
    · rw [htrapframe]
      exact hp.trap
    · intro q hq
      rw [htrapframe]
      exact hp.trapLive hq
    · rw [hsz]
      exact hp.small
    · rw [hpagetable, hsz]
      exact hp.empty

/-! ## `freeproc` -/

section

omit [Layout]

lemma Mine.priv {p : Nat} {y : Owner} (h : y.Mine (.proc p)) : Private p y := by
  rcases h with ⟨d, x, rfl⟩ | ⟨v, rfl⟩
  · exact .inl rfl
  · exact .inl rfl

lemma Mine.not_hand {t : Tag} {y : Owner} (h : y.Mine t) : ¬ Hand y := by
  rcases h with ⟨d, x, rfl⟩ | ⟨v, rfl⟩
  · exact id
  · exact id

end

/-- Taking the table of `p` apart touches only what is private to `p`. -/
lemma Frame.of_gone {R : Tag → Option Nat} {s s' : Phys} (h : Gone R (.proc p) s o s' o') :
    Frame (Private p) s o s' o' := by
  refine ⟨fun hq => h.other fun hm => hq (Mine.priv hm), fun {q} hq => ?_,
    fun hq => h.mem fun hm => hq (Mine.priv hm)⟩
  by_cases hm : (o q).Mine (.proc p)
  · rw [h.freed hm]
    trivial
  · rw [h.other hm]
    exact hq

/-- The trapframe page of `p` is given back. -/
lemma freeTrapframe_spec (h : MemInv K o) (p : Nat) :
    Returns (if (K.proc p).trapframe ≠ 0 then onPhys (kfree (K.proc p).trapframe) else pure ()) K
      fun _ K' => ∃ s o', K' = { K with phys := s } ∧ Heap s (tables K) o' ∧
        Frame (Private p) K.phys o s o' ∧ (∀ q, o' q ≠ .trapframe p) ∧
        SameHand o o' ∧
        ∀ {q t d x}, o q = .table t d x → o' q = .table t d x ∧ Agree K.phys.mem s.mem q := by
  have hp := h.proc p
  split
  next hne =>
    obtain ⟨tf, htf, hown⟩ := hp.trap hne
    rw [htf]
    refine returns_onPhys (kfree_spec h.heap (by rw [hown]; trivial)) ?_
    rintro _ s ⟨rfl, hheap⟩
    refine ⟨_, _, rfl, hheap, Frame.of_update (by rw [hown]; rfl) trivial fun q hq =>
      K.phys.agree_release hq, ?_, SameHand.update (by rw [hown]; exact id) id, ?_⟩
    · intro q
      by_cases he : q = tf
      · rw [he, update_self]
        rintro ⟨⟩
      · rw [update_of_ne he]
        intro hq
        have := hp.trapLive hq
        omega
    · intro q t d x hq
      have hne' : q ≠ tf := by
        rintro rfl
        rw [hown] at hq
        cases hq
      exact ⟨(update_of_ne hne' _ _).trans hq, K.phys.agree_release hne'⟩
  next hz =>
    refine returns_pure ⟨K.phys, o, rfl, h.heap, Frame.refl _ _ _, ?_,
      SameHand.refl o, fun hq => ⟨hq, Agree.refl _ _⟩⟩
    intro q hq
    have hq' := hp.trapLive hq
    have hpos : q ≠ 0 := inArea_pos (h.heap.inArea (by rw [hq]; rintro ⟨⟩))
    exact hz (by omega)

/-- `freeproc`. -/
lemma freeproc_spec (h : MemInv K o) (p : Nat) :
    Returns (freeproc p) K fun _ K' => ∃ o', Moved p K o K' o' ∧
      K'.proc p = { K.proc p with
        trapframe := 0, pagetable := 0, sz := 0, pid := 0, parent := none, killed := false,
        xstate := 0, state := .unused } := by
  have hp := h.proc p
  unfold freeproc
  apply returns_getProc
  refine (freeTrapframe_spec h p).bind ?_
  rintro _ K₁ ⟨s₁, o₁, rfl, hheap₁, hF₁, htrap₁, hhand₁, htab₁⟩
  -- the page table, if there is one
  have htable : Returns (if (K.proc p).pagetable ≠ 0 then
        onPhys (procFreepagetable (K.proc p).pagetable (K.proc p).sz) else pure ())
      { K with phys := s₁ } fun _ K' => ∃ s o', K' = { K with phys := s } ∧
        Heap s (update (tables K) (.proc p) none) o' ∧ Frame (Private p) s₁ o₁ s o' ∧
        ∀ q, o' q = o₁ q ∨ ¬ Hand (o₁ q) ∧ o' q = .free := by
    split
    next hne =>
      obtain ⟨r, tf, hr, -, -, hspace⟩ := hp.space hne
      have hR := tables_proc hr hne
      have hspace₁ := space_congr hspace fun v hv =>
        (h.heap.table_congr hR fun q d x hq => (htab₁ hq).2).2 v hv
      rw [hr]
      refine returns_onPhys (procFreepagetable_spec hheap₁ hR hp.small hspace₁) ?_
      rintro _ s ⟨o', hg⟩
      refine ⟨s, o', rfl, hg.heap, Frame.of_gone hg, fun q => ?_⟩
      by_cases hm : (o₁ q).Mine (.proc p)
      · exact .inr ⟨Mine.not_hand hm, hg.freed hm⟩
      · exact .inl (hg.other hm)
    next hz =>
      have hnone := tables_none (K := K) (p := p) (by simpa using hz)
      refine returns_pure ⟨s₁, o₁, rfl, ?_, Frame.refl _ _ _, fun _ => .inl rfl⟩
      rw [update_eq_self_iff.mpr hnone.symm]
      exact hheap₁
  refine htable.bind ?_
  rintro _ K₂ ⟨s₂, o₂, rfl, hheap₂, hF₂, howner₂⟩
  have hhand₂ : SameHand o₁ o₂ := SameHand.of_cases fun q =>
    (howner₂ q).imp id fun hf => ⟨hf.1, by rw [hf.2]; exact id⟩
  refine returns_modify ⟨o₂, Moved.of_step h (hF₁.trans hF₂) ?_ (fun hne => setProc_other _ _ _ hne)
    ?_ (hhand₁.trans hhand₂) rfl rfl (by rw [setProc_self]), setProc_self ..⟩
  · rw [tables_update (K := K) (p := p) fun p' hne => by rw [setProc_other _ _ _ hne], setProc_self]
    exact hheap₂
  · rw [setProc_self]
    refine ⟨fun hne => absurd rfl hne, fun hne => absurd rfl hne, ?_, Nat.two_pow_pos 40, fun _ => rfl⟩
    intro q hq
    rcases howner₂ q with hsame | ⟨-, hfree⟩
    · exact absurd (hsame.symm.trans hq) (htrap₁ q)
    · rw [hfree] at hq
      cases hq

/-! ## `allocproc` -/

/-- What the state of a process says about its fields, between calls. -/
structure ProcComplete (pr : Proc) : Prop where
  unused : pr.state = .unused → pr.pagetable = 0 ∧ pr.trapframe = 0
  used : pr.state ≠ .unused → pr.pagetable ≠ 0
  closed : pr.state = .unused ∨ pr.state = .zombie → ∀ fd, pr.ofile fd = none

/-- A process has a page table if and only if it is in use. -/
def Complete (K : Kernel) : Prop := ∀ p, ProcComplete (K.proc p)

omit [Layout] in
lemma Complete.of_proc (h : Complete K) (hothers : ∀ {p'}, p' ≠ p → K'.proc p' = K.proc p')
    (hp : ProcComplete (K'.proc p)) : Complete K' := by
  intro p'
  by_cases he : p' = p
  · exact he ▸ hp
  · rw [hothers he]
    exact h p'

/-- No page is the trapframe of a process that has none. -/
lemma MemInv.no_trapframe (h : MemInv K o) (hz : (K.proc p).trapframe = 0) (q : Nat) :
    o q ≠ .trapframe p := by
  intro hq
  have hlive := (h.proc p).trapLive hq
  have hpos : q ≠ 0 := inArea_pos (h.heap.inArea (by rw [hq]; rintro ⟨⟩))
  omega

/-- A page becomes the trapframe of a process without memory. -/
lemma MemInv.setTrapframe (h : MemInv K o) {q : Nat} (hz : (K.proc p).trapframe = 0)
    (hnone : (K.proc p).pagetable = 0) (hfree : o q = .free)
    (htake : Heap (K.phys.take q) (tables K) (update o q .temp)) :
    Moved p K o (({ K with phys := K.phys.take q }).setProc p
      { K.proc p with trapframe := 4096 * q }) (update o q (.trapframe p)) := by
  have hp := h.proc p
  have hheap := htake.retag (q := q) (w := .trapframe p)
    (by rw [update_self]; trivial) trivial
  rw [update_idem] at hheap
  refine Moved.of_step h (Frame.of_update (by rw [hfree]; trivial) rfl fun q' hq' =>
    K.phys.agree_take hq') ?_ (fun hne => setProc_other _ _ _ hne) ?_
    (SameHand.update (by rw [hfree]; exact id) id) rfl rfl (by rw [setProc_self])
  · rw [tables_congr (K := K) fun p' => ?_]
    · exact hheap
    · by_cases he : p' = p
      · rw [he, setProc_self]
      · rw [setProc_other _ _ _ he]
  · rw [setProc_self]
    refine ⟨fun hne => absurd hnone hne, fun _ => ⟨q, rfl, update_self ..⟩, ?_, hp.small,
      hp.empty⟩
    intro q' hq'
    by_cases he : q' = q
    · rw [he]
    · rw [update_of_ne he] at hq'
      exact absurd hq' (h.no_trapframe hz q')

/-- Building a table for `p` touches only what is private to `p`. -/
lemma Frame.of_built {R : Tag → Option Nat} {t : Tag} {r : Nat} {s s' : Phys}
    (h : Built R t r s o s' o') (ht : t = .proc p ∨ t = .image) : Frame (Private p) s o s' o' := by
  refine ⟨fun {q} hq => ?_, fun {q} hq => ?_, fun {q} hq => h.mem fun hf => hq (by rw [hf]; trivial)⟩
  · exact (h.owners q).resolve_right fun hf => hq (by rw [hf.1]; trivial)
  · rcases h.owners q with he | ⟨-, d, x, he⟩
    · rw [he]
      exact hq
    · rw [he]
      exact ht

lemma SameHand.of_built {R : Tag → Option Nat} {t : Tag} {r : Nat} {s s' : Phys}
    (h : Built R t r s o s' o') : SameHand o o' := by
  refine SameHand.of_cases fun q => (h.owners q).imp id ?_
  rintro ⟨hf, d, x, he⟩
  rw [hf, he]
  exact ⟨id, id⟩

/-- A new address space becomes that of process `p`. -/
lemma MemInv.setPagetable (h : MemInv K o) {r tf : Nat} {s' : Phys}
    (hnone : (K.proc p).pagetable = 0) (htf : (K.proc p).trapframe = 4096 * tf)
    (hne : (K.proc p).trapframe ≠ 0) (hr : r ≠ 0)
    (hb : Built (tables K) (.proc p) r K.phys o s' o')
    (hspace : Space (fun v => pteAt s'.mem r v) 0 tf) :
    Moved p K o (({ K with phys := s' }).setProc p { K.proc p with pagetable := 4096 * r }) o' := by
  have hp := h.proc p
  have hsz := hp.empty hnone
  have howner : ∀ {q}, o' q = .trapframe p ↔ o q = .trapframe p := by
    intro q
    rcases hb.owners q with he | ⟨hf, d, x, he⟩
    · rw [he]
    · rw [he, hf]
      exact ⟨fun hx => (by cases hx), fun hx => by cases hx⟩
  refine Moved.of_step h (Frame.of_built hb (.inl rfl)) ?_ (fun hne => setProc_other _ _ _ hne) ?_
    (SameHand.of_built hb) rfl rfl (by rw [setProc_self])
  · rw [tables_update (K := K) (p := p) fun p' hne => by rw [setProc_other _ _ _ hne], setProc_self,
      if_neg (show 4096 * r ≠ 0 by omega), Nat.mul_div_cancel_left r (by decide)]
    exact hb.heap
  · rw [setProc_self]
    obtain ⟨tf', htf', hown⟩ := hp.trap hne
    obtain rfl : tf' = tf := by omega
    refine ⟨fun _ => ⟨r, tf', rfl, htf, howner.mpr hown, ?_⟩,
      fun _ => ⟨tf', htf, howner.mpr hown⟩, fun hq => hp.trapLive (howner.mp hq), hp.small,
      fun hz => absurd (show 4096 * r = 0 from hz) (by omega)⟩
    rw [show pages (K.proc p).sz = 0 by rw [hsz]; rfl]
    exact hspace

/-- Free pages are written. -/
lemma MemInv.writeFree (h : MemInv K o) {s' : Phys} (hheap : Heap s' (tables K) o)
    (hm : ∀ {q}, o q ≠ .free → o q ≠ .temp → Agree K.phys.mem s'.mem q) (p : Nat) :
    Moved p K o { K with phys := s' } o := by
  have hF : Frame (fun y => y = .free ∨ y = .temp) K.phys o s' o :=
    ⟨fun _ => rfl, id, fun hq => hm (fun hf => hq (.inl hf)) fun ht => hq (.inr ht)⟩
  refine ⟨h.step hF hheap fun p' => ?_, hF.mono ?_, SameHand.refl o, rfl, rfl, fun _ => rfl, rfl⟩
  · exact .inl ⟨by simp, by simp, rfl, rfl, rfl⟩
  · rintro y (rfl | rfl) <;> trivial

/-- A slot that is not in use is so again, or was not touched. -/
def Cancelled (p : Nat) (K : Kernel) (o : Nat → Owner) (K' : Kernel) (o' : Nat → Owner) : Prop :=
  K' = K ∧ o' = o ∨ (K.proc p).state = .unused ∧ (K'.proc p).state = .unused

/-- `allocproc`. -/
lemma allocproc_spec (h : MemInv K o) (hc : Complete K) :
    Returns allocproc K fun res K' => ∃ p o', Moved p K o K' o' ∧
      (res = none ∧ Complete K' ∧ (¬ Room 6 o ∨ ∀ p, p < nproc → (K.proc p).state ≠ .unused) ∧
          Cancelled p K o K' o' ∨
        res = some p ∧ p < nproc ∧ (K.proc p).state = .unused ∧ (K'.proc p).state = .used ∧
          (K'.proc p).pagetable ≠ 0 ∧ (K'.proc p).sz = 0 ∧ (K'.proc p).pid = K.nextpid ∧
          Spent 6 o o') := by
  unfold allocproc
  apply returns_get_bind
  cases hfind : (List.range nproc).find? fun p => (K.proc p).state = .unused with
  | none =>
    refine returns_pure ⟨0, o, Moved.refl h 0, .inl ⟨rfl, hc, .inr fun p hp hs => ?_,
      .inl ⟨rfl, rfl⟩⟩⟩
    have := List.find?_eq_none.mp hfind p (List.mem_range.mpr hp)
    exact this (decide_eq_true hs)
  | some p =>
    have hp : p < nproc := List.mem_range.mp (List.mem_of_find?_eq_some hfind)
    have hs : (K.proc p).state = .unused := by simpa using List.find?_some hfind
    obtain ⟨hpt, htf⟩ := (hc p).unused hs
    refine returns_bind_of_eq rfl ?_
    apply returns_modifyProc
    have h₀ : MemInv { K with nextpid := int (K.nextpid + 1) } o := ⟨h.heap, h.proc⟩
    have hm₁ := Moved.of_fields h₀ (p := p)
      { K.proc p with pid := K.nextpid, state := .used } rfl rfl rfl rfl
    have hm₁' : Moved p K o _ o :=
      ⟨hm₁.mem, hm₁.frame, hm₁.hand, hm₁.ftable, hm₁.initproc, hm₁.others, hm₁.ofile⟩
    -- what is left when an allocation fails
    have hfail : ∀ {K₂ : Kernel} {o₂ : Nat → Owner}, Moved p K o K₂ o₂ → ¬ Room 6 o →
        Returns (freeproc p >>= fun _ => pure (none : Option Nat)) K₂ fun res K' => ∃ p o',
          Moved p K o K' o' ∧
          (res = none ∧ Complete K' ∧
              (¬ Room 6 o ∨ ∀ p, p < nproc → (K.proc p).state ≠ .unused) ∧ Cancelled p K o K' o' ∨
            res = some p ∧ p < nproc ∧ (K.proc p).state = .unused ∧ (K'.proc p).state = .used ∧
              (K'.proc p).pagetable ≠ 0 ∧ (K'.proc p).sz = 0 ∧ (K'.proc p).pid = K.nextpid ∧
              Spent 6 o o') := by
      intro K₂ o₂ hm₂ hroom
      refine (freeproc_spec hm₂.mem p).bind ?_
      rintro _ K₃ ⟨o₃, hm₃, hp₃⟩
      have hm := hm₂.trans hm₃
      refine returns_pure ⟨p, o₃, hm, .inl ⟨rfl, ?_, .inl hroom, .inr ⟨hs, by rw [hp₃]⟩⟩⟩
      refine hc.of_proc hm.others ⟨fun _ => ⟨by rw [hp₃], by rw [hp₃]⟩,
        fun hne => absurd (by rw [hp₃]) hne, fun _ fd => ?_⟩
      rw [hm.ofile]
      exact (hc p).closed (.inl hs) fd
    refine returns_onPhys_bind (kalloc_spec hm₁'.mem.heap) ?_
    rintro pa s₂ (⟨rfl, rfl, hnone⟩ | ⟨q, rfl, hq, hfree, rfl, htake⟩)
    · apply returns_modifyProc
      rw [if_pos rfl]
      refine hfail (hm₁'.trans (Moved.of_fields hm₁'.mem _ rfl rfl ?_ rfl))
        (not_room_of_none hnone 5)
      show 0 = _
      rw [setProc_self]
      exact htf.symm
    · apply returns_modifyProc
      rw [if_neg (by omega)]
      have hm₂ := hm₁'.mem.setTrapframe (p := p) (by rw [setProc_self]; exact htf)
        (by rw [setProc_self]; exact hpt) hfree htake
      have hspent₂ : Spent 1 o (update o q (.trapframe p)) := Spent.update ..
      have hm₂' := hm₁'.trans hm₂
      have htf₂ := hm₂.mem.heap.inArea (q := q) (by rw [update_self]; rintro ⟨⟩)
      refine returns_onPhys_bind (procPagetable_spec hm₂.mem.heap (t := .proc p)
        (tables_none (by rw [setProc_self, setProc_self]; exact hpt)) (inArea_lt htf₂)) ?_
      rintro pagetable s₃ (⟨rfl, hroom, hheap, hagree⟩ | ⟨r, o₃, rfl, hr, hb, hspent, hspace⟩)
      · apply returns_modifyProc
        rw [if_pos rfl]
        have hm₃ := hm₂'.trans (hm₂.mem.writeFree hheap (fun hq _ => hagree hq) p)
        refine hfail (hm₃.trans (Moved.of_fields hm₃.mem _ rfl ?_ rfl rfl)) fun hr =>
          hroom (hr.spend hspent₂)
        show 0 = _
        rw [setProc_self, setProc_self]
        exact hpt.symm
      · apply returns_modifyProc
        rw [if_neg (by omega)]
        have hm₃ := hm₂.mem.setPagetable (p := p) (by rw [setProc_self, setProc_self]; exact hpt)
          (by rw [setProc_self]) (by rw [setProc_self]; exact (by omega : 4096 * q ≠ 0)) hr hb hspace
        refine returns_pure ⟨p, o₃, hm₂'.trans hm₃, .inr ⟨rfl, hp, hs, ?_, ?_, ?_, ?_,
          hspent₂.trans hspent⟩⟩
        · rw [setProc_self, setProc_self, setProc_self]
        · rw [setProc_self]
          exact (by omega : 4096 * r ≠ 0)
        · rw [setProc_self, setProc_self, setProc_self]
          exact (h.proc p).empty hpt
        · rw [setProc_self, setProc_self, setProc_self]

/-! ## `growproc` -/

lemma SameHand.of_changed {R : Tag → Option Nat} {t : Tag} {r keep : Nat} {s s' : Phys}
    (h : Changed R t r keep s o s' o') : SameHand o o' := by
  intro q y hy
  cases y with
  | temp => exact h.temp
  | held k => exact h.within.owner_iff id
  | outside | free | table | user | trapframe | pipe | boot => exact hy.elim

/-- The memory of process `p` changes its size. -/
lemma MemInv.resize {L : Kernel} (h : MemInv K o) {r keep z : Nat} (hr : (K.proc p).pagetable = 4096 * r)
    (hne : (K.proc p).pagetable ≠ 0)
    (hch : Changed (tables K) (.proc p) r keep K.phys o L.phys o')
    (hpages : UserPages (fun v => pteAt L.phys.mem r v) (pages z))
    (hothers : ∀ {p'}, p' ≠ p → L.proc p' = K.proc p')
    (hself : L.proc p = { K.proc p with sz := z }) (hftable : L.ftable = K.ftable)
    (hinit : L.initproc = K.initproc) : Moved p K o L o' := by
  have hp := h.proc p
  have hR := tables_proc hr hne
  have hF := hch.within
  have htables : tables L = tables K := by
    refine tables_congr fun p' => ?_
    by_cases he : p' = p
    · rw [he, hself]
    · rw [hothers he]
  have htrap : ∀ {q}, o' q = .trapframe p ↔ o q = .trapframe p := hF.owner_iff id
  refine Moved.of_step h (hF.mono fun y hy => Private.of_proc hy) (htables ▸ hch.heap) hothers ?_
    (SameHand.of_changed hch) hftable hinit (by rw [hself])
  · rw [hself]
    obtain ⟨r', tf, hr', htf, hown, hspace⟩ := hp.space hne
    obtain rfl : r' = r := by omega
    refine ⟨fun _ => ⟨r', tf, hr, htf, htrap.mpr hown, hpages, ?_, ?_⟩, fun _ =>
      ⟨tf, htf, htrap.mpr hown⟩, fun hq => hp.trapLive (htrap.mp hq), ?_, fun hz => absurd hz hne⟩
    · rw [hch.ptes trapframeVpn_lt (.inr not_userVpn_trapframe)]
      exact hspace.trapframe
    · rw [hch.ptes trampolineVpn_lt (.inr not_userVpn_trampoline)]
      exact hspace.trampoline
    · have harea := hpages.le_area hch.heap hR
      unfold pages at harea
      show z < 2 ^ 40
      omega

/-- The size that `growproc` sets if it succeeds: `uvmalloc` never makes a process smaller, and
`uvmdealloc` never larger. -/
def grownSize (sz : Nat) (n : Int) : Nat :=
  if n > 0 then max sz ((sz + n) % 2 ^ 64).toNat else min sz ((sz + n) % 2 ^ 64).toNat

/-- `growproc` of a process with a page table. -/
lemma growproc_spec (h : MemInv K o) (hne : (K.proc p).pagetable ≠ 0) (n : Int) :
    Returns (growproc p n) K fun res K' => ∃ o' sz, Moved p K o K' o' ∧
      K'.proc p = { K.proc p with sz := sz } ∧ (res = -1 → sz = (K.proc p).sz ∧
        ∃ r, (K.proc p).pagetable = 4096 * r ∧
          Changed (tables K) (.proc p) r (pages sz) K.phys o K'.phys o' ∧
          UserPages (fun v => pteAt K'.phys.mem r v) (pages sz)) ∧
      (res = -1 ∧ 0 < n ∨ res = 0 ∧ sz = grownSize (K.proc p).sz n) := by
  have hp := h.proc p
  obtain ⟨r, tf, hr, -, -, hspace⟩ := hp.space hne
  have hR := tables_proc hr hne
  unfold growproc
  apply returns_getProc
  rw [hr]
  split
  next hpos =>
    refine returns_onPhys_bind (uvmalloc_spec h.heap hR hspace.user hp.small (by decide)) ?_
    rintro res s ⟨o', hch, hres⟩
    have hkeep : UserPages (fun v => pteAt s.mem r v) (pages (K.proc p).sz) →
        Moved p K o { K with phys := s } o' := fun hpages =>
      h.resize (L := { K with phys := s }) hr hne hch hpages (fun _ => rfl) rfl rfl rfl
    rcases hres with ⟨rfl, hpages, -⟩ | ⟨rfl, hpages⟩
    · split
      next hz =>
        rw [hz] at hpages
        have hsz : (K.proc p).sz = 0 := by omega
        rw [← hsz] at hpages
        exact returns_pure ⟨o', _, hkeep hpages, rfl, fun _ => ⟨rfl, r, rfl, hch, hpages⟩,
          .inl ⟨rfl, hpos⟩⟩
      next =>
        apply returns_modifyProc
        refine returns_pure ⟨o', _, h.resize hr hne hch hpages (fun hne => setProc_other _ _ _ hne)
          (setProc_self ..) rfl rfl, setProc_self .., fun hz => absurd hz (by decide), .inr ⟨rfl, ?_⟩⟩
        rw [grownSize, if_pos hpos]
    · rw [if_pos rfl]
      exact returns_pure ⟨o', _, hkeep hpages, rfl, fun _ => ⟨rfl, r, rfl, hch, hpages⟩,
        .inl ⟨rfl, hpos⟩⟩
  next hneg =>
    split
    next hlt =>
      refine returns_onPhys_bind (uvmdealloc_spec h.heap hR hspace.user hp.small rfl) ?_
      rintro res s ⟨rfl, o', hu⟩
      apply returns_modifyProc
      have hle : ∀ newsz, pages (min (K.proc p).sz newsz) ≤ pages (K.proc p).sz := fun newsz =>
        Nat.div_le_div_right (Nat.add_le_add_right (Nat.min_le_left ..) _)
      exact returns_pure ⟨o', _, h.resize hr hne (hu.changed hspace.user.le)
        (hu.userPages hspace.user (hle _)) (fun hne => setProc_other _ _ _ hne) (setProc_self ..) rfl rfl,
        setProc_self .., fun hz => absurd hz (by decide), .inr ⟨rfl, (if_neg hneg).symm⟩⟩
    next hge =>
      refine returns_pure ⟨o, _, Moved.refl h p, rfl, fun hz => absurd hz (by decide), .inr ⟨rfl, ?_⟩⟩
      obtain rfl : n = 0 := by omega
      have hsmall := hp.small
      have hmod : (((K.proc p).sz : Int) + 0) % 2 ^ 64 = (K.proc p).sz := by omega
      rw [grownSize, if_neg hneg, hmod, Int.toNat_natCast, min_self]

/-- The trapframe page of process `p` is written. -/
lemma MemInv.writeTrapframe (h : MemInv K o) {tf : Nat} {m : Bytes} (hown : o tf = .trapframe p)
    (hm : ∀ q, q ≠ tf → Agree K.phys.mem m q) :
    Moved p K o { K with phys := K.phys.withMem m } o := by
  have hp := h.proc p
  have hF : Frame (Private p) K.phys o (K.phys.withMem m) o :=
    Frame.of_write (q := tf) (by rw [hown]; rfl) hm
  have hheap : Heap (K.phys.withMem m) (tables K) o := by
    refine h.heap.write fun q hq => hm q ?_
    rintro rfl
    rw [hown] at hq
    rcases hq with hq | ⟨t, d, x, hq⟩ <;> cases hq
  refine Moved.of_step (L := { K with phys := K.phys.withMem m }) h hF hheap (fun _ => rfl) ?_
    (SameHand.refl o) rfl rfl rfl
  refine ⟨fun hne => ?_, hp.trap, hp.trapLive, hp.small, hp.empty⟩
  obtain ⟨r, tf', hr, htf', hown', hspace⟩ := hp.space hne
  refine ⟨r, tf', hr, htf', hown', space_congr hspace fun v hv => ?_⟩
  refine (h.heap.table_congr (tables_proc hr hne) fun q d x hq => hm q ?_).2 v hv
  rintro rfl
  rw [hown] at hq
  cases hq

end Xv6.Process
