import Xv6.Process.LoadSpec

/-!
# `exec`

The new image is built in a table of its own, `Tag.image`, and the pages of the
arguments are in the hands of the call. When the image is complete its table
becomes that of the process, and the old one is taken apart; when something
fails the image is taken apart instead.
-/

namespace Xv6.Process

open Function Lib Mem

variable [Layout] {s s' : Phys} {R : Tag → Option Nat} {o o' : Nat → Owner} {t : Tag}
variable {r n : Nat}

/-! ## Taking the image apart -/

variable {K K' : Kernel} {p tf : Nat}

section

omit [Layout]

lemma Mine.of {y : Owner} (h : y.Mine t) : y.Of t := by
  rcases h with ⟨d, x, rfl⟩ | ⟨v, rfl⟩
  · rfl
  · rfl

lemma Of.scratch {y : Owner} (h : y.Of t) (hm : ¬ y.Mine t) : y = .free ∨ y = .temp := by
  cases y with
  | free => exact .inl rfl
  | temp => exact .inr rfl
  | table t' d x =>
    obtain rfl : t' = t := h
    exact absurd (.inl ⟨d, x, rfl⟩) hm
  | user t' v =>
    obtain rfl : t' = t := h
    exact absurd (.inr ⟨v, rfl⟩) hm
  | outside | trapframe | pipe | boot | held => exact h.elim

end

/-- A step that touches no process. -/
lemma MemInv.outside {T : Owner → Prop} (h : MemInv K o) (hF : Frame T K.phys o s o')
    (hheap : Heap s (tables K) o') (htrap : ∀ p, ¬ T (.trapframe p))
    (htable : ∀ p d x, ¬ T (.table (.proc p) d x)) : MemInv { K with phys := s } o' :=
  h.step hF hheap fun p => .inl ⟨htrap p, htable p, rfl, rfl, rfl⟩

lemma Frame.of_built_image (h : Built R t r s o s' o') : Frame (Owner.Of t) s o s' o' := by
  refine ⟨fun {q} hq => ?_, fun {q} hq => ?_, fun {q} hq => h.mem fun hf => hq (by rw [hf]; trivial)⟩
  · exact (h.owners q).resolve_right fun hf => hq (by rw [hf.1]; trivial)
  · rcases h.owners q with he | ⟨-, d, x, he⟩
    · rw [he]
      exact hq
    · rw [he]
      rfl

lemma Frame.of_gone_image (h : Gone R t s o s' o') : Frame (Owner.Of t) s o s' o' := by
  refine ⟨fun hq => h.other fun hm => hq (Mine.of hm), fun {q} hq => ?_,
    fun hq => h.mem fun hm => hq (Mine.of hm)⟩
  by_cases hm : (o q).Mine t
  · rw [h.freed hm]
    trivial
  · rw [h.other hm]
    exact hq

lemma SameHand.of_gone (h : Gone R t s o s' o') : SameHand o o' := by
  refine SameHand.of_cases fun q => ?_
  by_cases hm : (o q).Mine t
  · exact .inr ⟨Mine.not_hand hm, by rw [h.freed hm]; exact id⟩
  · exact .inl (h.other hm)

/-- An image under construction, in the middle of `exec`. -/
structure Building (K : Kernel) (o : Nat → Owner) (r tf sz : Nat) (s : Phys) (o' : Nat → Owner) :
    Prop where
  heap : Heap s (update (tables K) .image (some r)) o'
  frame : Frame (Owner.Of .image) K.phys o s o'
  hand : SameHand o o'
  space : Space (fun v => pteAt s.mem r v) (pages sz) tf

lemma Building.changed {sz z : Nat} (h : Building K o r tf sz s o')
    {s'' : Phys} {o'' : Nat → Owner}
    (hc : Changed (update (tables K) .image (some r)) .image r 0 s o' s'' o'')
    (hp : UserPages (fun v => pteAt s''.mem r v) (pages z)) : Building K o r tf z s'' o'' where
  heap := hc.heap
  frame := h.frame.trans hc.within
  hand := h.hand.trans (SameHand.of_changed hc)
  space := ⟨hp, (hc.ptes trapframeVpn_lt (.inr not_userVpn_trapframe)).trans h.space.trapframe,
    (hc.ptes trampolineVpn_lt (.inr not_userVpn_trampoline)).trans h.space.trampoline⟩

lemma Building.small {sz : Nat} (h : Building K o r tf sz s o') : sz < 2 ^ 40 :=
  small_of_pages h.heap (update_self ..) h.space.user

/-- Only pages that nobody owns have changed. -/
structure Unmoved (K : Kernel) (o : Nat → Owner) (s : Phys) : Prop where
  heap : Heap s (tables K) o
  mem : ∀ {q}, o q ≠ .free → o q ≠ .temp → Agree K.phys.mem s.mem q

lemma not_mine_of_none (h : Heap s R o) (hR : R t = none) (q : Nat) : ¬ (o q).Mine t := by
  rintro (⟨d, x, hq⟩ | ⟨v, hq⟩)
  · exact not_table_of_none h hR q d x hq
  · exact not_user_of_none h hR q v hq

/-- The pages of an image that is given up are free again. -/
lemma Building.owners {sz : Nat} {s' : Phys} {o'' : Nat → Owner} (h : Building K o r tf sz s o')
    (hm : MemInv K o)
    (hg : Gone (update (tables K) .image (some r)) .image s o' s' o'') : o'' = o := by
  funext q
  have hnot : ¬ (o q).Mine .image := not_mine_of_none hm.heap rfl q
  by_cases hof : (o q).Of .image
  · rcases Of.scratch hof hnot with hq | hq
    · -- a page that was free is free again, or still
      rw [hq]
      by_cases hmine : (o' q).Mine .image
      · exact hg.freed hmine
      · rw [hg.other hmine]
        refine (Of.scratch (h.frame.mine hof) hmine).resolve_right fun ht => ?_
        rw [(h.hand q .temp trivial).mp ht] at hq
        cases hq
    · have ht := (h.hand q .temp trivial).mpr hq
      rw [hq, ← ht]
      refine hg.other fun hmine => Mine.not_hand hmine ?_
      rw [ht]
      trivial
  · have he := h.frame.other hof
    rw [hg.other (by rw [he]; exact hnot), he]

/-- The image is given up. -/
lemma Building.giveUp {sz : Nat} (h : Building K o r tf sz s o') (hm : MemInv K o) :
    Returns (procFreepagetable (4096 * r) sz) s fun _ s' => Unmoved K o s' := by
  refine (procFreepagetable_spec h.heap (update_self ..) h.small h.space).mono ?_
  rintro _ s' ⟨o'', hg⟩
  have hheap := hg.heap
  have htables : update (tables K) .image none = tables K :=
    update_eq_self_iff.mpr rfl
  rw [update_idem, htables, h.owners hm hg] at hheap
  refine ⟨hheap, fun {q} hfree htemp => (h.frame.trans (Frame.of_gone_image hg)).mem fun hof => ?_⟩
  exact (Of.scratch hof (not_mine_of_none hm.heap rfl q)).elim hfree htemp

/-! ## The new image replaces the old one -/

section

omit [Layout]

lemma Private.rename {y : Owner} (h : Private p y) : Private p (y.rename .image (.proc p)) := by
  cases y with
  | table t d x | user t v =>
    rw [Owner.rename]
    split
    next => exact .inl rfl
    next => exact h
  | outside | free | temp | trapframe | pipe | boot | held => exact h

lemma rename_of_not_private {y : Owner} (h : ¬ Private p y) : y.rename .image (.proc p) = y := by
  refine (Owner.rename_eq (z := y) ⟨?_, ?_⟩).mpr rfl
  · rintro (⟨d, x, rfl⟩ | ⟨v, rfl⟩)
    · exact h (.inr rfl)
    · exact h (.inr rfl)
  · rintro (⟨d, x, rfl⟩ | ⟨v, rfl⟩)
    · exact h (.inl rfl)
    · exact h (.inl rfl)

lemma hand_rename {y z : Owner} (hz : Hand z) : y.rename .image (.proc p) = z ↔ y = z := by
  refine Owner.rename_eq ⟨fun hm => Mine.not_hand hm hz, fun hm => Mine.not_hand hm hz⟩

end

/-- The trapframe of `p` is written while the image is complete. -/
lemma Building.write {sz : Nat} {m : Bytes} (h : Building K o r tf sz s o')
    (hown : o' tf = .trapframe p) (hm : ∀ q, q ≠ tf → Agree s.mem m q) :
    Heap (s.withMem m) (update (tables K) .image (some r)) o' ∧
      Space (fun v => pteAt (s.withMem m).mem r v) (pages sz) tf := by
  have hne : ∀ {q t d x}, o' q = .table t d x → q ≠ tf := by
    rintro q t d x hq rfl
    rw [hown] at hq
    cases hq
  refine ⟨h.heap.write fun q hq => hm q ?_, space_congr h.space fun v hv => ?_⟩
  · rcases hq with hq | ⟨t, d, x, hq⟩
    · rintro rfl
      rw [hown] at hq
      cases hq
    · exact hne hq
  · exact (h.heap.table_congr (update_self ..) fun q d x hq => hm q (hne hq)).2 v hv

/-- What is left after the old table is gone is the invariant for the process
with the new table. -/
lemma MemInv.commit {sz : Nat} {s₁ s₂ : Phys} {o₁ o₂ : Nat → Owner} (h : MemInv K o)
    (hr : r ≠ 0) (hown : o tf = .trapframe p)
    (hF : Frame (Private p) K.phys o s₁ o₁) (hhand : SameHand o o₁)
    (htrap : ∀ q, o₁ q = .trapframe p ↔ o q = .trapframe p)
    (hheap : Heap s₁ (update (tables K) .image (some r)) o₁)
    (hspace : Space (fun v => pteAt s₁.mem r v) (pages sz) tf)
    (hg : Gone (update (tables K) .image (some r)) (.proc p) s₁ o₁ s₂ o₂) :
    Moved p K o (({ K with phys := s₂ }).setProc p { K.proc p with pagetable := 4096 * r, sz := sz })
      fun q => (o₂ q).rename .image (.proc p) := by
  have hp := h.proc p
  have hne : (Tag.image : Tag) ≠ .proc p := by rintro ⟨⟩
  have hR : update (update (tables K) .image (some r)) (.proc p) none .image =
      some r := by rw [update_of_ne hne, update_self]
  have htf : (K.proc p).trapframe = 4096 * tf := hp.trapLive hown
  have hrename := hg.heap.rename (update_self ..) hR hne
  have htrap₂ : ∀ q, (o₂ q).rename .image (.proc p) = .trapframe p ↔ o q = .trapframe p := by
    intro q
    rw [Owner.rename_eq (by constructor <;> rintro (⟨d, x, he⟩ | ⟨v, he⟩) <;> cases he), ← htrap q]
    by_cases hm : (o₁ q).Mine (.proc p)
    · rw [hg.freed hm]
      refine ⟨fun he => (by cases he), fun he => ?_⟩
      rw [he] at hm
      rcases hm with ⟨d, x, he⟩ | ⟨v, he⟩ <;> cases he
    · rw [hg.other hm]
  have hF₂ : Frame (Private p) K.phys o s₂ fun q => (o₂ q).rename .image (.proc p) := by
    have hall := hF.trans (Frame.of_gone hg)
    refine ⟨fun {q} hq => ?_, fun {q} hq => (hall.mine hq).rename, hall.mem⟩
    have he := hall.other hq
    rw [rename_of_not_private (by rw [he]; exact hq), he]
  refine Moved.of_step h hF₂ ?_ (fun hne => setProc_other _ _ _ hne) ?_ ?_ rfl rfl
    (by rw [setProc_self])
  · rw [tables_update (K := K) (p := p) fun p' hne => by rw [setProc_other _ _ _ hne], setProc_self,
      if_neg (show 4096 * r ≠ 0 by omega), Nat.mul_div_cancel_left r (by decide)]
    -- the tables are those of the old processes, and the image for `p`
    have htables : update (update (update (update (tables K) .image
        (some r)) (.proc p) none) .image none) (.proc p) (some r) =
        update (tables K) (.proc p) (some r) := by
      funext t
      by_cases hp : t = .proc p
      · rw [hp, update_self, update_self]
      · rw [update_of_ne hp, update_of_ne hp]
        by_cases hi : t = .image
        · rw [hi, update_self]
          rfl
        · rw [update_of_ne hi, update_of_ne hp, update_of_ne hi]
    rw [htables] at hrename
    exact hrename
  · rw [setProc_self]
    have hpages : Space (fun v => pteAt s₂.mem r v) (pages sz) tf := by
      refine space_congr hspace fun v hv => ?_
      refine (hheap.table_congr (update_self ..) fun q d x hq => hg.mem ?_).2 v hv
      rw [hq]
      rintro (⟨d', x', he⟩ | ⟨v', he⟩) <;> cases he
    refine ⟨fun _ => ⟨r, tf, rfl, htf, (htrap₂ tf).mpr hown, hpages⟩,
      fun _ => ⟨tf, htf, (htrap₂ tf).mpr hown⟩, fun {q} hq => hp.trapLive ((htrap₂ q).mp hq), ?_,
      fun hz => absurd (show 4096 * r = 0 from hz) (by omega)⟩
    exact small_of_pages hheap (update_self ..) hspace.user
  · refine (hhand.trans (SameHand.of_gone hg)).trans fun q y hy => hand_rename hy

/-! ## `exec` -/

section

omit [Layout]

/-- The registers that `exec` sets in the trapframe page `tf`. -/
def execRegs (m : Bytes) (tf sp entry : Nat) : Bytes :=
  putLE (putLE (putLE m (4096 * tf + trapframeA1) 8 sp) (4096 * tf + trapframeEpc) 8 entry)
    (4096 * tf + trapframeSp) 8 sp

lemma agree_execRegs (m : Bytes) (sp entry : Nat) {q : Nat} (hq : q ≠ tf) :
    Agree m (execRegs m tf sp entry) q :=
  ((agree_putLE (by decide) hq).trans (agree_putLE (by decide) hq)).trans (agree_putLE (by decide) hq)

/-- The registers do not overlap. -/
lemma getLE_execRegs (m : Bytes) (tf sp entry : Nat) :
    getLE (execRegs m tf sp entry) (4096 * tf + trapframeA1) 8 = sp % 2 ^ 64 ∧
      getLE (execRegs m tf sp entry) (4096 * tf + trapframeEpc) 8 = entry % 2 ^ 64 ∧
      getLE (execRegs m tf sp entry) (4096 * tf + trapframeSp) 8 = sp % 2 ^ 64 := by
  have hword : (256 : Nat) ^ 8 = 2 ^ 64 := by norm_num
  unfold execRegs trapframeA1 trapframeEpc trapframeSp
  rw [← hword]
  refine ⟨?_, ?_, getLE_putLE ..⟩
  · rw [getLE_putLE_of_disjoint (by omega), getLE_putLE_of_disjoint (by omega), getLE_putLE]
  · rw [getLE_putLE_of_disjoint (by omega), getLE_putLE]

end

/-- What `exec` does: process `p` may get other memory, and stays in use. -/
structure Replaced (p : Nat) (K : Kernel) (o : Nat → Owner) (K' : Kernel) (o' : Nat → Owner) :
    Prop where
  moved : Moved p K o K' o'
  state : (K'.proc p).state = (K.proc p).state
  pagetable : (K'.proc p).pagetable ≠ 0
  trapframe : (K'.proc p).trapframe = (K.proc p).trapframe

/-- Process `p` runs the new image. -/
structure Committed (p : Nat) (K : Kernel) (o : Nat → Owner) (K' : Kernel) (r tf : Nat)
    (img : Image) (sp entry : Nat) : Prop where
  replaced : ∃ o', Replaced p K o K' o'
  pagetable : (K'.proc p).pagetable = 4096 * r
  sz : (K'.proc p).sz = img.size
  trapframe : (K'.proc p).trapframe = 4096 * tf
  shows : Shows K'.phys r img
  sealed : Sealed fun v => pteAt K'.phys.mem r v
  a1 : getLE K'.phys.mem (4096 * tf + trapframeA1) 8 = sp % 2 ^ 64
  epc : getLE K'.phys.mem (4096 * tf + trapframeEpc) 8 = entry % 2 ^ 64
  sp : getLE K'.phys.mem (4096 * tf + trapframeSp) 8 = sp % 2 ^ 64

/-- The end of `exec`: the registers, the new table, and the old one freed. -/
lemma execCommit_spec {r₀ : Nat} {img : Image} (h : MemInv K o)
    (hr₀ : (K.proc p).pagetable = 4096 * r₀) (hne : (K.proc p).pagetable ≠ 0) (hr : r ≠ 0)
    (htf : (K.proc p).trapframe = 4096 * tf) (hown : o tf = .trapframe p)
    (hb : Building K o r tf img.size s o') (hi : Shows s r img) (sp entry argc : Nat) :
    Returns (do
      onPhys (store64 (4096 * tf + trapframeA1) sp)
      modifyProc p fun pr => { pr with pagetable := 4096 * r, sz := img.size }
      onPhys (store64 (4096 * tf + trapframeEpc) entry)
      onPhys (store64 (4096 * tf + trapframeSp) sp)
      onPhys (procFreepagetable (4096 * r₀) (K.proc p).sz)
      pure (argc : Int)) { K with phys := s } fun res K' => res = argc ∧
        Committed p K o K' r tf img sp entry := by
  have hp := h.proc p
  have hown' : o' tf = .trapframe p := (hb.frame.owner_iff id).mpr hown
  obtain ⟨r', tf', hr', htf', hown₀, hspace₀⟩ := hp.space hne
  obtain rfl : r' = r₀ := by omega
  apply returns_store64
  apply returns_modifyProc
  apply returns_store64
  apply returns_store64
  -- the three stores are one write to the trapframe
  have hm : ∀ q, q ≠ tf → Agree s.mem (execRegs s.mem tf sp entry) q := fun q hq =>
    agree_execRegs s.mem sp entry hq
  obtain ⟨hheap, hspace⟩ := hb.write hown' hm
  have hF : Frame (Private p) K.phys o (s.withMem (execRegs s.mem tf sp entry)) o' :=
    (hb.frame.mono fun y hy => Private.of_image hy).trans
      (Frame.of_write (q := tf) (by rw [hown']; rfl) hm)
  have hR₀ : update (tables K) .image (some r) (.proc p) = some r' := by
    rw [update_of_ne (by rintro ⟨⟩), tables_proc hr' hne]
  have hR : update (tables K) .image (some r) .image = some r := update_self ..
  -- the old address space is unchanged
  have hspace₁ : Space (fun v => pteAt (execRegs s.mem tf sp entry) r' v) (pages (K.proc p).sz) tf' := by
    refine space_congr hspace₀ fun v hv => ?_
    refine (h.heap.table_congr (tables_proc hr' hne) fun q d x hq => ?_).2 v hv
    refine (hb.frame.mem (by rw [hq]; rintro ⟨⟩)).trans (hm q ?_)
    rintro rfl
    rw [hown] at hq
    cases hq
  refine returns_onPhys_bind (procFreepagetable_spec hheap hR₀ hp.small hspace₁) ?_
  rintro _ s₂ ⟨o₂, hg⟩
  -- neither the registers nor the old address space are part of the image
  have hkeep : ∀ {q}, (o' q).Mine .image → Agree s.mem s₂.mem q := by
    intro q hmine
    refine (hm q ?_).trans (hg.mem ?_)
    · rintro rfl
      rw [hown'] at hmine
      rcases hmine with ⟨d, x, he⟩ | ⟨v, he⟩ <;> cases he
    · rcases hmine with ⟨d, x, he⟩ | ⟨v, he⟩ <;> rw [he] <;>
        rintro (⟨d', x', he'⟩ | ⟨v', he'⟩) <;> cases he'
  have hptes := (hb.heap.table_congr hR fun q d x hq => hkeep (.inl ⟨d, x, hq⟩)).2
  have hi₂ : Shows s₂ r img := by
    refine hi.congr (fun v hv => hptes v (hi.user.userVpn hv).1)
      (fun v hv => hkeep (.inr ⟨v, hi.owner hb.heap hR hv⟩)) ?_
    exact hi.user.congr fun v hv _ => hptes v hv
  have hregs : Agree (execRegs s.mem tf sp entry) s₂.mem tf := by
    refine hg.mem ?_
    rw [hown']
    rintro (⟨d, x, he⟩ | ⟨v, he⟩) <;> cases he
  have hword : ∀ {i}, i + 8 ≤ 4096 → getLE s₂.mem (4096 * tf + i) 8 =
      getLE (execRegs s.mem tf sp entry) (4096 * tf + i) 8 := fun hi =>
    getLE_congr fun x hlo hhi => hregs x (by omega)
  refine returns_pure ⟨rfl, ⟨_, h.commit hr hown hF hb.hand (fun q => hb.frame.owner_iff id) hheap
    hspace hg, ?_, ?_, ?_⟩, ?_, ?_, ?_, hi₂, ?_, ?_, ?_, ?_⟩
  · rw [setProc_self]
  · rw [setProc_self]
    exact (by omega : 4096 * r ≠ 0)
  · rw [setProc_self]
  · rw [setProc_self]
  · rw [setProc_self]
  · rw [setProc_self]
    exact htf
  · exact hb.space.sealed.congr hptes
  · exact (hword (by decide)).trans (getLE_execRegs ..).1
  · exact (hword (by decide)).trans (getLE_execRegs ..).2.1
  · exact (hword (by decide)).trans (getLE_execRegs ..).2.2

/-- `exec` of the file `ip` from the page table on. -/
def execLoad (p : Nat) (pr : Proc) (ip : Inode) (pagetable : Nat) (argv : List Nat) : KernelM Int := do
  if pagetable = 0 then pure (-1)
  else do
    let (loaded, sz) ← onPhys (segRounds pagetable ip
      ((elfhdr (ip.readi 0 elfSize)).phoff % 2 ^ 32) 0 (elfhdr (ip.readi 0 elfSize)).phnum)
    if loaded = false then do
      onPhys (procFreepagetable pagetable sz)
      pure (-1)
    else do
      let (sz, stack) ← onPhys (makeStack pagetable sz argv)
      match stack with
      | none => do
        onPhys (procFreepagetable pagetable sz)
        pure (-1)
      | some sp => do
        onPhys (store64 (pr.trapframe + trapframeA1) sp)
        modifyProc p fun pr => { pr with pagetable := pagetable, sz := sz }
        onPhys (store64 (pr.trapframe + trapframeEpc) (elfhdr (ip.readi 0 elfSize)).entry)
        onPhys (store64 (pr.trapframe + trapframeSp) sp)
        onPhys (procFreepagetable pr.pagetable pr.sz)
        pure argv.length

/-- `exec` from the arguments on. -/
def execEnd (p : Nat) (pr : Proc) (pagetable sz entry : Nat) (argv : List Nat) : KernelM Int := do
  match ← onPhys (pushArgs pagetable sz argv) with
  | none => do
    onPhys (procFreepagetable pagetable sz)
    pure (-1)
  | some sp => do
    onPhys (store64 (pr.trapframe + trapframeA1) sp)
    modifyProc p fun pr => { pr with pagetable := pagetable, sz := sz }
    onPhys (store64 (pr.trapframe + trapframeEpc) entry)
    onPhys (store64 (pr.trapframe + trapframeSp) sp)
    onPhys (procFreepagetable pr.pagetable pr.sz)
    pure argv.length

/-- The image of a program, before it has arguments. -/
def imageOf (ip : Inode) (phs : List Proghdr) : Image := withStack (phs.foldl (place ip) .empty)

/-- `exec` of the file `ip` has come to the arguments. -/
structure Ready (p : Nat) (K : Kernel) (o : Nat → Owner) (ip : Inode) (phs : List Proghdr)
    (r tf : Nat) (s : Phys) (o' : Nat → Owner) : Prop where
  magic : (elfhdr (ip.readi 0 elfSize)).magic = elfMagic
  whole : (ip.readi 0 elfSize).length = elfSize
  headers : ip.headers ((elfhdr (ip.readi 0 elfSize)).phoff % 2 ^ 32)
    (elfhdr (ip.readi 0 elfSize)).phnum = some phs
  accepted : ∀ ph ∈ phs, ph.type = elfProgLoad → Accepted ip ph
  stacked : Stacked s r (imageOf ip phs) ((imageOf ip phs).size - 4096)
  building : Building K o r tf (imageOf ip phs).size s o'
  root : r ≠ 0
  trapframe : (K.proc p).trapframe = 4096 * tf
  owner : o tf = .trapframe p

/-- Before the arguments, `exec` does the same for all of them. -/
lemma exec_run (h : MemInv K o) (hne : (K.proc p).pagetable ≠ 0) (namei : Namei)
    (path : List UInt8) :
    (∃ s, Unmoved K o s ∧ ∀ argv, exec p namei path argv K = .ok (-1, { K with phys := s })) ∨
    ∃ ip phs r tf s o', namei path = some ip ∧ Ready p K o ip phs r tf s o' ∧
      ∀ argv, exec p namei path argv K = execEnd p (K.proc p) (4096 * r) (imageOf ip phs).size
        (elfhdr (ip.readi 0 elfSize)).entry argv { K with phys := s } := by
  have hstay : Unmoved K o K.phys := ⟨h.heap, fun _ _ => Agree.refl _ _⟩
  obtain ⟨r₀, tf, hr₀, htf, hown, hspace₀⟩ := (h.proc p).space hne
  have harea : InArea tf := h.heap.inArea (by rw [hown]; rintro ⟨⟩)
  cases hn : namei path with
  | none =>
    refine .inl ⟨K.phys, hstay, fun argv => ?_⟩
    unfold exec
    rw [hn]
    rfl
  | some ip =>
  by_cases hlen : (ip.readi 0 elfSize).length = elfSize
  swap
  · refine .inl ⟨K.phys, hstay, fun argv => ?_⟩
    unfold exec
    rw [hn]
    dsimp only
    rw [if_pos hlen]
    rfl
  by_cases hmagic : (elfhdr (ip.readi 0 elfSize)).magic = elfMagic
  swap
  · refine .inl ⟨K.phys, hstay, fun argv => ?_⟩
    unfold exec
    rw [hn]
    dsimp only
    rw [if_neg (not_not_intro hlen), if_pos hmagic]
    rfl
  obtain ⟨pagetable, s₁, hrun₁, hres₁⟩ :=
    procPagetable_spec h.heap (t := .image) rfl (inArea_lt harea)
  -- `exec` has its page table
  have hstart : ∀ argv, exec p namei path argv K =
      execLoad p (K.proc p) ip pagetable argv { K with phys := s₁ } := by
    intro argv
    unfold exec execLoad
    rw [hn]
    dsimp only
    rw [if_neg (not_not_intro hlen), if_neg (not_not_intro hmagic)]
    refine (bind_of_ok (m := getProc p) rfl).trans ?_
    rw [htf]
    exact onPhys_bind_of_ok hrun₁
  rcases hres₁ with ⟨rfl, -, hheap, hagree⟩ | ⟨r, o₁, rfl, hr, hb, -, hspace⟩
  · exact .inl ⟨s₁, ⟨hheap, fun hq _ => hagree hq⟩, fun argv => (hstart argv).trans rfl⟩
  have hbuild : Building K o r tf 0 s₁ o₁ :=
    ⟨hb.heap, Frame.of_built_image hb, SameHand.of_built hb, hspace⟩
  have hR : update (tables K) .image (some r) .image = some r := update_self ..
  have hloadable : Loadable (fun v => pteAt s₁.mem r v) (pages Image.empty.size) :=
    ⟨hspace.user, fun v hv => absurd hv (Nat.not_lt_zero v), hspace.sealed⟩
  have hshows : Shows s₁ r .empty :=
    ⟨hspace.user, fun hv => absurd hv (Nat.not_lt_zero _), fun hv => absurd hv (Nat.not_lt_zero _)⟩
  obtain ⟨⟨loaded, sz⟩, s₂, hrun₂, o₂, hc₂, hl₂, hres₂⟩ :
      Returns (segRounds (4096 * r) ip ((elfhdr (ip.readi 0 elfSize)).phoff % 2 ^ 32) 0 _) s₁ _ :=
    segRounds_spec hb.heap hR ip _ (Changed.refl hb.heap 0) hloadable hshows
  simp only [execLoad, if_neg (show ¬ 4096 * r = 0 by omega)] at hstart
  cases loaded with
  | false =>
    obtain ⟨_, s₃, hrun₃, hun⟩ := (hbuild.changed hc₂ hl₂.user).giveUp h
    refine .inl ⟨s₃, hun, fun argv => ?_⟩
    rw [hstart]
    refine (onPhys_bind_of_ok hrun₂).trans ?_
    exact onPhys_bind_of_ok hrun₃
  | true =>
    obtain ⟨phs, hloaded, hsize⟩ := hres₂ rfl
    dsimp only at hsize
    subst hsize
    obtain ⟨s₃, o₃, hc₃, ⟨hstack, hp₃⟩ | ⟨hstack, hst⟩⟩ := makeStack_run hb.heap hR hc₂ hl₂ hloaded.shows
    · obtain ⟨_, s₄, hrun₄, hun⟩ := (hbuild.changed (z := 4096 * pages _) hc₃
        (by rw [pages_mul]; exact hp₃)).giveUp h
      refine .inl ⟨s₄, hun, fun argv => ?_⟩
      rw [hstart]
      refine (onPhys_bind_of_ok hrun₂).trans ?_
      refine (onPhys_bind_of_ok (hstack argv)).trans ?_
      exact onPhys_bind_of_ok hrun₄
    · have hbase : 4096 * (pages (phs.foldl (place ip) .empty).size + 1) =
          (imageOf ip phs).size - 4096 := by
        rw [imageOf, withStack_size]
        omega
      rw [hbase] at hst
      refine .inr ⟨ip, phs, r, tf, s₃, o₃, rfl, ⟨hmagic, hlen, hloaded.headers, hloaded.accepted,
        hst, hbuild.changed hc₃ hst.shows.user, hr, htf, hown⟩, fun argv => ?_⟩
      rw [hstart]
      refine (onPhys_bind_of_ok hrun₂).trans ?_
      dsimp only
      rw [if_neg (by decide)]
      exact onPhys_bind_of_eq (K := { K with phys := s₂ })
        (u := fun sp => ((imageOf ip phs).size, sp)) (hstack argv)

/-- What `exec` does from the arguments on. -/
lemma Ready.finish {ip : Inode} {phs : List Proghdr} (h : MemInv K o)
    (hne : (K.proc p).pagetable ≠ 0) (hr : Ready p K o ip phs r tf s o') (entry : Nat)
    (argv : List Nat) :
    Returns (execEnd p (K.proc p) (4096 * r) (imageOf ip phs).size entry argv) { K with phys := s }
      fun res K' => ∃ strs,
        List.Forall₂ (Read (update (tables K) .image (some r)) .image s o') argv strs ∧
        (res = -1 ∧ ¬ (argv.length ≤ maxArg ∧ Fits strs) ∧
          (∃ s', Unmoved K o s' ∧ K' = { K with phys := s' }) ∨
          res = argv.length ∧ (argv.length ≤ maxArg ∧ Fits strs) ∧
            Committed p K o K' r tf (argImage (imageOf ip phs) (imageOf ip phs).size strs)
              (argTop (imageOf ip phs).size strs) entry) := by
  have hR : update (tables K) .image (some r) .image = some r := update_self ..
  have hlow := hr.stacked.low
  have hbase : (imageOf ip phs).size - 4096 + 4096 = (imageOf ip phs).size := by omega
  have hpush := pushArgs_spec hr.building.heap hR hr.stacked argv
  rw [hbase] at hpush
  unfold execEnd
  refine returns_onPhys_bind hpush ?_
  rintro res s₁ ⟨hp, strs, hread, ⟨rfl, hbad⟩ | ⟨rfl, hok, hst⟩⟩
  · have hb := hr.building.changed (hp.changed hr.building.heap hR)
      (hr.building.space.user.congr fun v hv _ => hp.ptes hr.building.heap hR hv)
    refine returns_onPhys_bind (hb.giveUp h) fun _ s' hun => ?_
    exact returns_pure ⟨strs, hread, .inl ⟨rfl, hbad, s', hun, rfl⟩⟩
  · obtain ⟨r₀, -, hr₀, -⟩ := (h.proc p).space hne
    have hb : Building K o r tf (argImage (imageOf ip phs) (imageOf ip phs).size strs).size s₁ o' := by
      exact hr.building.changed (hp.changed hr.building.heap hR) hst.shows.user
    have hsize : (argImage (imageOf ip phs) (imageOf ip phs).size strs).size = (imageOf ip phs).size :=
      pushStrs_size ..
    have hcommit := execCommit_spec h hr₀ hne hr.root hr.trapframe hr.owner hb hst.shows
      (argTop (imageOf ip phs).size strs) entry argv.length
    rw [hsize] at hcommit
    dsimp only
    rw [hr.trapframe, hr₀]
    exact hcommit.mono fun res K' hK' => ⟨strs, hread, .inr ⟨hK'.1, hok, hK'.2⟩⟩

/-- `exec` keeps the invariant, whatever the file holds. -/
lemma exec_spec (h : MemInv K o) (hne : (K.proc p).pagetable ≠ 0) (namei : Namei)
    (path : List UInt8) (argv : List Nat) :
    Returns (exec p namei path argv) K fun _ K' => ∃ o', Replaced p K o K' o' := by
  have hstay : ∀ {s : Phys}, Unmoved K o s → Replaced p K o { K with phys := s } o := fun hun =>
    ⟨h.writeFree hun.heap hun.mem p, rfl, hne, rfl⟩
  rcases exec_run h hne namei path with ⟨s, hun, hrun⟩ | ⟨ip, phs, r, tf, s, o', -, hr, hrun⟩
  · exact returns_of_eq (hrun argv) ⟨o, hstay hun⟩
  · obtain ⟨res, K', hend, strs, -, ⟨-, -, s', hun, rfl⟩ | ⟨-, -, hc⟩⟩ := hr.finish h hne _ argv
    · exact returns_of_eq ((hrun argv).trans hend) ⟨o, hstay hun⟩
    · exact returns_of_eq ((hrun argv).trans hend) hc.replaced

/-! ## The arguments -/

/-- Free pages and pages in hand. -/
def FreeOrHand (y : Owner) : Prop := y = .free ∨ Hand y

omit [Layout] in
lemma FreeOrHand.priv {y : Owner} (h : FreeOrHand y) : Private p y := by
  rcases h with rfl | h
  · trivial
  · cases y <;> first | exact h.elim | trivial

/-- The call has the pages `A` in hand, and nothing else has changed. -/
structure Fetched (K : Kernel) (o : Nat → Owner) (A : List Nat) (s : Phys) (o' : Nat → Owner) :
    Prop where
  mem : MemInv { K with phys := s } o'
  frame : Frame FreeOrHand K.phys o s o'
  nodup : A.Nodup
  hand : ∀ q, Hand (o' q) ↔ q ∈ A
  held : ∀ q ∈ A, ∃ k, o' q = .held k

lemma MemInv.hand (h : MemInv K o) (hF : Frame FreeOrHand K.phys o s o')
    (hheap : Heap s (tables K) o') : MemInv { K with phys := s } o' := by
  refine h.outside hF hheap ?_ ?_
  · rintro p (h | h)
    · cases h
    · exact h
  · rintro p d x (h | h)
    · cases h
    · exact h

/-- A page is taken for an argument. -/
lemma Fetched.take {A : List Nat} {q : Nat} (h : Fetched K o A s o') (hfree : o' q = .free)
    (htake : Heap (s.take q) (tables K) (update o' q .temp)) :
    Fetched K o (A ++ [q]) (s.take q) (update o' q (.held A.length)) := by
  have hheap := htake.retag (q := q) (w := .held A.length)
    (by rw [update_self]; trivial) trivial
  rw [update_idem] at hheap
  have hF : Frame FreeOrHand s o' (s.take q) (update o' q (.held A.length)) :=
    Frame.of_update (.inl hfree) (.inr trivial) fun q' hq' => s.agree_take hq'
  have hnot : q ∉ A := fun hm => by
    have := (h.hand q).mpr hm
    rw [hfree] at this
    exact this
  refine ⟨h.mem.hand hF hheap, h.frame.trans hF, ?_, fun q' => ?_, fun q' hq' => ?_⟩
  · rw [List.nodup_append]
    refine ⟨h.nodup, List.nodup_singleton q, fun a ha b hb => ?_⟩
    rw [List.mem_singleton] at hb
    subst hb
    rintro rfl
    exact hnot ha
  · rw [List.mem_append, List.mem_singleton]
    by_cases he : q' = q
    · subst he
      rw [update_self]
      exact ⟨fun _ => .inr rfl, fun _ => trivial⟩
    · rw [update_of_ne he, h.hand q']
      exact ⟨.inl, fun hq => hq.resolve_right he⟩
  · by_cases he : q' = q
    · exact ⟨A.length, by rw [he, update_self]⟩
    · rw [update_of_ne he]
      rw [List.mem_append, List.mem_singleton] at hq'
      exact h.held q' (hq'.resolve_right he)

/-- An argument is written to its page. -/
lemma Fetched.write {A : List Nat} {q : Nat} {bs : List UInt8} (h : Fetched K o A s o')
    (hq : q ∈ A) (hlen : bs.length ≤ 4096) :
    Fetched K o A (s.withMem (blit s.mem (4096 * q) bs)) o' := by
  have hm : ∀ q', q' ≠ q → Agree s.mem (blit s.mem (4096 * q) bs) q' := fun q' hq' =>
    agree_blit (k := 0) (by omega) hq'
  have hhand := (h.hand q).mpr hq
  have hF : Frame FreeOrHand s o' (s.withMem (blit s.mem (4096 * q) bs)) o' :=
    Frame.of_write (q := q) (.inr hhand) hm
  have hheap : Heap (s.withMem (blit s.mem (4096 * q) bs)) (tables K) o' := by
    refine h.mem.heap.write fun q' hq' => hm q' ?_
    rintro rfl
    rcases hq' with he | ⟨t, d, x, he⟩
    · rw [he] at hhand
      exact hhand
    · rw [he] at hhand
      exact hhand
  exact ⟨h.mem.hand hF hheap, h.frame.trans hF, h.nodup, h.hand, h.held⟩

/-- The page table of the process that makes the call. -/
lemma MemInv.sealed (h : MemInv K o) (hne : (K.proc p).pagetable ≠ 0) :
    ∃ r, (K.proc p).pagetable = 4096 * r ∧ tables K (.proc p) = some r ∧
      Sealed fun v => pteAt K.phys.mem r v := by
  obtain ⟨r, tf, hr, -, -, hspace⟩ := (h.proc p).space hne
  exact ⟨r, hr, tables_proc hr hne, hspace.sealed⟩

lemma fetchaddr_spec (h : MemInv K o) (hne : (K.proc p).pagetable ≠ 0) (addr : Nat) :
    Returns (fetchaddr (K.proc p) addr) K.phys fun _ s' => s' = K.phys := by
  obtain ⟨r, hr, hR, hs⟩ := h.sealed hne
  unfold fetchaddr
  split
  next => exact returns_pure rfl
  next =>
    rw [hr]
    refine (copyin_spec h.heap hR hs _ _).bind ?_
    rintro ⟨res, bs⟩ s' rfl
    dsimp only
    split
    next => exact returns_pure rfl
    next => exact returns_pure rfl

/-- The loop of `sys_exec` that fetches the arguments. -/
lemma argvRounds_spec (hne : (K.proc p).pagetable ≠ 0) (uargv : Nat) :
    ∀ (n : Nat) {s : Phys} {o' : Nat → Owner} {A : List Nat}, Fetched K o A s o' →
      Returns (argvRounds (K.proc p) uargv (A.map (4096 * ·)) n) s fun res s' => ∃ A' o'',
        Fetched K o A' s' o'' ∧ res.2 = A'.map (4096 * ·) := by
  intro n
  induction n with
  | zero =>
    intro s o' A h
    exact returns_pure ⟨A, o', h, rfl⟩
  | succ n ih =>
    intro s o' A h
    rw [argvRounds]
    refine (fetchaddr_spec (K := { K with phys := s }) h.mem hne _).bind ?_
    rintro res s₁ hs₁
    obtain rfl : s₁ = s := hs₁
    cases res with
    | none => exact returns_pure ⟨A, o', h, rfl⟩
    | some uarg =>
      dsimp only
      split
      next => exact returns_pure ⟨A, o', h, rfl⟩
      next =>
        refine (kalloc_spec h.mem.heap).bind ?_
        rintro pa s₂ (⟨rfl, rfl, -⟩ | ⟨q, rfl, hq, hfree, rfl, htake⟩)
        · rw [if_pos rfl]
          exact returns_pure ⟨A, o', h, rfl⟩
        rw [if_neg (by omega)]
        have h₂ := h.take hfree htake
        obtain ⟨r, hr, hR, hs⟩ := h₂.mem.sealed (p := p) hne
        have hfetch : Returns (fetchstr (K.proc p) uarg (4096 * q) pgSize) (s₁.take q)
            fun _ s' => ∃ bs : List UInt8, bs.length ≤ 4096 ∧
              s' = (s₁.take q).withMem (blit (s₁.take q).mem (4096 * q) bs) := by
          unfold fetchstr
          rw [show (K.proc p).pagetable = 4096 * r from hr]
          refine (copyinstr_spec h₂.mem.heap hR hs _ _).bind ?_
          rintro ⟨res, bs⟩ s' ⟨rfl, hlen⟩
          apply Mem.returns_storeBytes
          dsimp only
          split
          next => exact returns_pure ⟨bs, hlen, rfl⟩
          next => exact returns_pure ⟨bs, hlen, rfl⟩
        refine hfetch.bind ?_
        rintro res s₃ ⟨bs, hlen, rfl⟩
        have h₃ := h₂.write (List.mem_append_right A (List.mem_singleton_self q)) hlen
        have hmap : A.map (4096 * ·) ++ [4096 * q] = (A ++ [q]).map (4096 * ·) := by
          rw [List.map_append]
          rfl
        rw [hmap]
        split
        next => exact returns_pure ⟨_, _, h₃, rfl⟩
        next => exact ih h₃

/-- The pages of the arguments are freed. -/
lemma freeArgs_spec :
    ∀ (A : List Nat) {s : Phys} {o' : Nat → Owner}, Fetched K o A s o' →
      Returns (freeArgs (A.map (4096 * ·))) s fun _ s' => ∃ o'', Fetched K o [] s' o'' := by
  intro A
  induction A with
  | nil =>
    intro s o' h
    exact returns_pure ⟨o', h⟩
  | cons q A ih =>
    intro s o' h
    obtain ⟨k, hk⟩ := h.held q List.mem_cons_self
    have hnot : q ∉ A := (List.nodup_cons.mp h.nodup).1
    rw [List.map_cons, freeArgs]
    refine (kfree_spec h.mem.heap (by rw [hk]; trivial)).bind ?_
    rintro _ s₁ ⟨rfl, hheap⟩
    have hF : Frame FreeOrHand s o' (s.release q) (update o' q .free) :=
      Frame.of_update (.inr (by rw [hk]; trivial)) (.inl rfl) fun q' hq' => s.agree_release hq'
    refine ih ⟨h.mem.hand hF hheap, h.frame.trans hF, (List.nodup_cons.mp h.nodup).2,
      fun q' => ?_, fun q' hq' => ?_⟩
    · by_cases he : q' = q
      · subst he
        rw [update_self]
        exact ⟨fun hh => hh.elim, fun hm => absurd hm hnot⟩
      · rw [update_of_ne he, h.hand q', List.mem_cons]
        exact ⟨fun hm => hm.resolve_left he, .inr⟩
    · have he : q' ≠ q := by
        rintro rfl
        exact hnot hq'
      rw [update_of_ne he]
      exact h.held q' (List.mem_cons_of_mem q hq')

/-- Between the calls of `exec`, nothing is in hand. -/
lemma Fetched.inv {B : Nat → Prop} (h : Inv B K o 0) (hm : Moved p K o K' o')
    (hc : Complete K') {o'' : Nat → Owner} (hf : Fetched K' o' [] s o'') :
    Inv B { K' with phys := s } o'' 0 := by
  have hF : Frame (Private p) K'.phys o' s o'' := hf.frame.mono fun y hy => FreeOrHand.priv hy
  refine ⟨hf.mem, hc, (hm.fileInv h.file).frame hF id rfl fun _ => rfl, fun q => ?_, fun q hq => ?_⟩
  · exact ((hF.owner_iff id).trans (hm.frame.owner_iff id)).trans (h.boot q)
  · exact absurd ((hf.hand q).mp hq) List.not_mem_nil

/-- The pages of the arguments are in hand after `exec` as before. -/
lemma Fetched.moved {A : List Nat} {o'' : Nat → Owner} (h : Fetched K o A s o')
    (hm : Moved p { K with phys := s } o' K' o'') : Fetched K' o'' A K'.phys o'' := by
  refine ⟨hm.mem, Frame.refl _ _ _, h.nodup, fun q => ?_, fun q hq => ?_⟩
  · rw [← h.hand q]
    constructor
    · intro hq
      have he := (hm.hand q _ hq).mp rfl
      rwa [he]
    · intro hq
      have he := (hm.hand q _ hq).mpr rfl
      rwa [he]
  · obtain ⟨k, hk⟩ := h.held q hq
    exact ⟨k, (hm.hand q (.held k) trivial).mpr hk⟩

lemma sysExec_spec {B : Nat → Prop} (h : Inv B K o 0) (hr : Running K p) (namei : Namei)
    (upath uargv : Nat) : Returns (sysExec p namei upath uargv) K fun _ K' => ∃ o', Inv B K' o' 0 := by
  have hne := (h.complete p).used hr.used
  obtain ⟨r, hrt, hR, hs⟩ := h.mem.sealed hne
  have hstart : Fetched K o [] K.phys o :=
    ⟨h.mem, Frame.refl _ _ _, List.nodup_nil,
      fun q => ⟨fun hq => absurd hq (h.idle q), fun hm => absurd hm List.not_mem_nil⟩,
      fun q hm => absurd hm List.not_mem_nil⟩
  unfold sysExec
  apply returns_getProc
  have hpath : Returns (copyinstr (K.proc p).pagetable upath maxPath) K.phys fun _ s' => s' = K.phys := by
    rw [hrt]
    exact (copyinstr_spec h.mem.heap hR hs _ _).mono fun _ _ hs' => hs'.1
  refine returns_onPhys_bind hpath ?_
  rintro ⟨res, path⟩ s hs
  subst hs
  dsimp only
  split
  next => exact returns_pure ⟨o, h⟩
  next =>
    refine returns_onPhys_bind (argvRounds_spec hne uargv maxArg hstart) ?_
    rintro ⟨fetched, argv⟩ s₁ ⟨A, o₁, hf, hargv⟩
    obtain rfl : argv = A.map (4096 * ·) := hargv
    dsimp only
    split
    next =>
      refine returns_onPhys_bind (freeArgs_spec A hf) ?_
      rintro _ s₂ ⟨o₂, hf₂⟩
      exact returns_pure ⟨o₂, hf₂.inv h (Moved.refl h.mem p) h.complete⟩
    next =>
      refine (exec_spec (K := { K with phys := s₁ }) hf.mem hne namei _ _).bind ?_
      rintro ret K₂ ⟨o₂, hrep⟩
      have hmoved := hrep.moved
      refine returns_onPhys_bind (freeArgs_spec A (hf.moved hmoved)) ?_
      rintro _ s₃ ⟨o₃, hf₃⟩
      -- the process has other memory, and the pages of the arguments are free again
      have hF : Frame (Private p) K.phys o s₃ o₃ :=
        ((hf.frame.mono fun y hy => FreeOrHand.priv hy).trans hmoved.frame).trans
          (hf₃.frame.mono fun y hy => FreeOrHand.priv hy)
      refine returns_pure ⟨o₃, hf₃.mem, ?_, ?_, fun q => (hF.owner_iff id).trans (h.boot q), fun q hq => ?_⟩
      · have hc := h.complete p
        refine h.complete.of_proc (p := p) hmoved.others ⟨fun hu => ?_, fun _ => hrep.pagetable,
          fun hu => ?_⟩
        · have hst : (K₂.proc p).state = (K.proc p).state := hrep.state
          exact absurd (hst.symm.trans hu) hr.used
        · have hst : (K₂.proc p).state = (K.proc p).state := hrep.state
          have hu' : (K₂.proc p).state = .unused ∨ (K₂.proc p).state = .zombie := hu
          rw [hst] at hu'
          exact absurd hu' fun ho => ho.elim hr.used hr.alive
      · refine h.file.frame hF id hmoved.ftable fun p' => ?_
        by_cases he : p' = p
        · rw [he]
          exact hmoved.ofile
        · exact congrArg Proc.ofile (hmoved.others he)
      · exact absurd ((hf₃.hand q).mp hq) List.not_mem_nil

end Xv6.Process
