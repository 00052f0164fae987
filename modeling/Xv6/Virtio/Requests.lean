import Xv6.Virtio.Disk

/-!
# Every request is completed once

The heads of the chains that are under way are in one of three places: in the `avail` ring, with
the device, or in the `used` ring. Together they are a list without repetition, and it has the
heads of the calls whose buffer the disk still owns. There are no more heads than descriptors,
so the rings never overflow.
-/

namespace Xv6.Virtio

open Function Lib List

/-- The descriptors of a chain. -/
def Chain.has (c : Chain) (i : Nat) : Prop := i = c.idx0 ∨ i = c.idx1 ∨ i = c.idx2

/-- The three descriptors are in order. -/
structure Linked (desc : Nat → Desc) (c : Chain) : Prop where
  lt : ∀ {i}, c.has i → i < num
  ne01 : c.idx0 ≠ c.idx1
  ne02 : c.idx0 ≠ c.idx2
  ne12 : c.idx1 ≠ c.idx2
  next0 : (desc c.idx0).flags &&& descNext ≠ 0 ∧ (desc c.idx0).next = c.idx1
  next1 : (desc c.idx1).flags &&& descNext ≠ 0 ∧ (desc c.idx1).next = c.idx2
  last : (desc c.idx2).flags &&& descNext = 0 ∧ (desc c.idx2).addr = .status c.idx0

/-- The buffer of a call. -/
def Pc.buf : Pc → Option Nat
  | .idle => none
  | .blocked r => some r.b
  | .formatted r _ => some r.b
  | .waiting r _ => some r.b

lemma Chain.has_idx0 (c : Chain) : c.has c.idx0 := .inl rfl

lemma Chain.has_idx1 (c : Chain) : c.has c.idx1 := .inr (.inl rfl)

lemma Chain.has_idx2 (c : Chain) : c.has c.idx2 := .inr (.inr rfl)

lemma Linked.congr {desc desc' : Nat → Desc} {c : Chain} (h : Linked desc c)
    (hd : ∀ i, c.has i → desc' i = desc i) : Linked desc' c :=
  { h with
    next0 := by
      rw [hd _ c.has_idx0]
      exact h.next0
    next1 := by
      rw [hd _ c.has_idx1]
      exact h.next1
    last := by
      rw [hd _ c.has_idx2]
      exact h.last }

namespace State

variable {s s' : State} {p q i h : Nat} {r : Req} {c : Chain}

/-- The call has a chain. -/
def Live (s : State) (p : Nat) (r : Req) (c : Chain) : Prop :=
  s.pc p = .formatted r c ∨ s.pc p = .waiting r c

/-- The heads of the chains under way. -/
def queue (s : State) : List Nat := s.avail.contents ring ++ (s.inflight ++ s.used.contents ring)

structure Inv (s : State) : Prop where
  panic : s.panic = none
  linked : ∀ {p r c}, s.Live p r c → Linked s.desc c
  info : ∀ {p r c}, s.Live p r c → (s.info c.idx0).b = some r.b
  free : ∀ {i}, i < num → (s.free i = false ↔ ∃ p r c, s.Live p r c ∧ c.has i)
  disjoint : ∀ {p q r r' c c' i}, s.Live p r c → s.Live q r' c' → c.has i → c'.has i → p = q
  taken : ∀ {p b}, (s.pc p).buf = some b → s.taken b = true
  excl : ∀ {p q b}, (s.pc p).buf = some b → (s.pc q).buf = some b → p = q
  lock : ∀ {p r c}, s.pc p = .formatted r c → s.lock = some (.proc p)
  busy : ∀ {p r c}, s.pc p = .formatted r c → s.disk r.b = true
  avail : s.avail.Ok ring
  used : s.used.Ok ring
  nodup : s.queue.Nodup
  queue : ∀ {h}, h ∈ s.queue ↔ ∃ p r c, s.pc p = .waiting r c ∧ c.idx0 = h ∧ s.disk r.b = true
  status : ∀ {h}, h ∈ s.used.contents ring → (s.info h).status = 0

/-! ## Descriptors -/

lemma allocDesc_some (h : s.allocDesc = (some i, s')) :
    i < num ∧ s.free i = true ∧ s' = { s with free := update s.free i false } := by
  unfold allocDesc at h
  split at h
  next j hfind =>
    cases h
    exact ⟨mem_range.mp (mem_of_find?_eq_some hfind), find?_some hfind, rfl⟩
  next => cases h

lemma allocDesc_none (h : s.allocDesc = (none, s')) : s' = s := by
  unfold allocDesc at h
  split at h
  next => cases h
  next =>
    cases h
    rfl

lemma update_false_iff {f : Nat → Bool} : update f p false q = false ↔ q = p ∨ f q = false := by
  rw [update_apply]
  split <;> simp_all

lemma update_true_iff {f : Nat → Bool} : update f p true q = false ↔ q ≠ p ∧ f q = false := by
  rw [update_apply]
  split <;> simp_all

/-- What is free after one was taken was free before. -/
lemma of_update_false {f : Nat → Bool} (h : update f p false q = true) : q ≠ p ∧ f q = true := by
  rw [← Bool.not_eq_false, update_false_iff] at h
  push Not at h
  exact ⟨h.1, Bool.eq_true_of_not_eq_false h.2⟩

lemma freeDesc_eq (hi : i < num) (hfree : s.free i = false) :
    s.freeDesc i = { s with
      desc := update s.desc i .zero, free := update s.free i true } := by
  unfold freeDesc
  rw [if_neg (by omega), if_neg (by rw [hfree]; decide)]

/-- A failed `alloc3_desc` gives back what it took. It clears descriptors, but only such that
are free. -/
lemma alloc3Desc_none (h : s.alloc3Desc = (none, s')) :
    ∃ desc, (∀ i, s.free i = false → desc i = s.desc i) ∧ s' = { s with desc := desc } := by
  unfold alloc3Desc at h
  split at h
  next s₁ h₁ =>
    cases h
    rw [allocDesc_none h₁]
    exact ⟨s.desc, fun _ _ => rfl, rfl⟩
  next i₀ s₁ h₁ =>
    obtain ⟨hlt₀, hfree₀, rfl⟩ := allocDesc_some h₁
    split at h
    next s₂ h₂ =>
      cases h
      rw [allocDesc_none h₂, freeDesc_eq hlt₀ (update_self ..)]
      refine ⟨update s.desc i₀ .zero, fun i hi => update_of_ne (ne_of_apply_ne s.free ?_) .., ?_⟩
      · rw [hi, hfree₀]
        decide
      · dsimp only
        rw [update_idem, ← hfree₀, update_eq_self]
    next i₁ s₂ h₂ =>
      obtain ⟨hlt₁, hfree₁, rfl⟩ := allocDesc_some h₂
      obtain ⟨hne, hfree₁⟩ := of_update_false hfree₁
      split at h
      next s₃ h₃ =>
        cases h
        have hf₀ : update (update s.free i₀ false) i₁ false i₀ = false := by
          rw [update_of_ne hne.symm, update_self]
        rw [allocDesc_none h₃, freeDesc_eq hlt₀ hf₀, freeDesc_eq hlt₁]
        · refine ⟨update (update s.desc i₀ .zero) i₁ .zero, fun i hi => ?_, ?_⟩
          · have hother : ∀ j, s.free j = true → i ≠ j := fun j hj =>
              ne_of_apply_ne s.free (by rw [hi, hj]; decide)
            rw [update_of_ne (hother i₁ hfree₁), update_of_ne (hother i₀ hfree₀)]
          · dsimp only
            have hback : update (update (update (update s.free i₀ false)
                i₁ false) i₀ true) i₁ true = s.free := by
              funext i
              by_cases h₁ : i = i₁
              · rw [h₁, update_self, hfree₁]
              · rw [update_of_ne h₁]
                by_cases h₀ : i = i₀
                · rw [h₀, update_self, hfree₀]
                · rw [update_of_ne h₀, update_of_ne h₁, update_of_ne h₀]
            rw [hback]
        · dsimp only
          rw [update_of_ne hne, update_self]
      next => cases h

/-- `alloc3_desc` takes three free descriptors. -/
lemma alloc3Desc_some (h : s.alloc3Desc = (some c, s')) :
    (∀ i, c.has i → i < num ∧ s.free i = true) ∧ c.idx0 ≠ c.idx1 ∧ c.idx0 ≠ c.idx2 ∧ c.idx1 ≠ c.idx2 ∧
      ∃ free, (∀ i, free i = false ↔ s.free i = false ∨ c.has i) ∧ s' = { s with free := free } := by
  unfold alloc3Desc at h
  split at h
  next => cases h
  next i₀ s₁ h₁ =>
    obtain ⟨hlt₀, hfree₀, rfl⟩ := allocDesc_some h₁
    split at h
    next => cases h
    next i₁ s₂ h₂ =>
      obtain ⟨hlt₁, hfree₁, rfl⟩ := allocDesc_some h₂
      split at h
      next => cases h
      next i₂ s₃ h₃ =>
        obtain ⟨hlt₂, hfree₂, rfl⟩ := allocDesc_some h₃
        cases h
        obtain ⟨h10, hfree₁⟩ := of_update_false hfree₁
        obtain ⟨h21, hfree₂⟩ := of_update_false hfree₂
        obtain ⟨h20, hfree₂⟩ := of_update_false hfree₂
        refine ⟨?_, h10.symm, h20.symm, h21.symm, _, fun i => ?_, rfl⟩
        · rintro i (rfl | rfl | rfl)
          · exact ⟨hlt₀, hfree₀⟩
          · exact ⟨hlt₁, hfree₁⟩
          · exact ⟨hlt₂, hfree₂⟩
        · rw [update_false_iff, update_false_iff, update_false_iff, Chain.has]
          tauto

/-- A round of `free_chain`. -/
lemma freeChain_next {n : Nat} {d : Desc} (hi : i < num) (hfree : s.free i = false)
    (hd : s.desc i = d) (hnext : d.flags &&& descNext ≠ 0) :
    freeChain (n + 1) s i = freeChain n { s with
      desc := update s.desc i .zero, free := update s.free i true } d.next := by
  subst hd
  rw [freeChain, freeDesc_eq hi hfree, if_pos hnext]

/-- The last round. -/
lemma freeChain_last {n : Nat} {d : Desc} (hi : i < num) (hfree : s.free i = false)
    (hd : s.desc i = d) (hlast : d.flags &&& descNext = 0) :
    freeChain (n + 1) s i = { s with
      desc := update s.desc i .zero, free := update s.free i true } := by
  subst hd
  rw [freeChain, freeDesc_eq hi hfree, if_neg (by rw [hlast]; decide)]

/-- `free_chain` frees the three descriptors. -/
lemma freeChain_eq (hc : Linked s.desc c) (hfree : ∀ i, c.has i → s.free i = false) :
    ∃ desc free, (∀ i, ¬ c.has i → desc i = s.desc i) ∧
      (∀ i, free i = false ↔ s.free i = false ∧ ¬ c.has i) ∧
      freeChain num s c.idx0 = { s with desc := desc, free := free } := by
  have hlt₀ := hc.lt c.has_idx0
  have hlt₁ := hc.lt c.has_idx1
  have hlt₂ := hc.lt c.has_idx2
  refine ⟨update (update (update s.desc c.idx0 .zero) c.idx1 .zero) c.idx2 .zero,
    update (update (update s.free c.idx0 true) c.idx1 true) c.idx2 true,
    fun i hi => ?_, fun i => ?_, ?_⟩
  · unfold Chain.has at hi
    push Not at hi
    rw [update_of_ne hi.2.2, update_of_ne hi.2.1, update_of_ne hi.1]
  · rw [update_true_iff, update_true_iff, update_true_iff, Chain.has]
    tauto
  · have hd₁ : update s.desc c.idx0 .zero c.idx1 = s.desc c.idx1 :=
      update_of_ne hc.ne01.symm ..
    have hd₂ : update (update s.desc c.idx0 .zero) c.idx1 .zero c.idx2 = s.desc c.idx2 := by
      rw [update_of_ne hc.ne12.symm, update_of_ne hc.ne02.symm]
    have hf₁ : update s.free c.idx0 true c.idx1 = false := by
      rw [update_of_ne hc.ne01.symm]
      exact hfree _ c.has_idx1
    have hf₂ : update (update s.free c.idx0 true) c.idx1 true c.idx2 = false := by
      rw [update_of_ne hc.ne12.symm, update_of_ne hc.ne02.symm]
      exact hfree _ c.has_idx2
    show freeChain (5 + 1 + 1 + 1) s c.idx0 = _
    rw [freeChain_next hlt₀ (hfree _ c.has_idx0) rfl hc.next0.1, hc.next0.2,
      freeChain_next hlt₁ hf₁ hd₁ hc.next1.1, hc.next1.2,
      freeChain_last hlt₂ hf₂ hd₂ hc.last.1]

/-- The three descriptors that `virtio_disk_rw` fills in are a chain. -/
lemma linked_format (s : State) (r : Req) (hlt : ∀ i, c.has i → i < num) (h01 : c.idx0 ≠ c.idx1)
    (h02 : c.idx0 ≠ c.idx2) (h12 : c.idx1 ≠ c.idx2) : Linked (s.format r c).desc c := by
  have hd₀ : (s.format r c).desc c.idx0 = ⟨.op c.idx0, 16, descNext, c.idx1⟩ := by
    unfold format
    dsimp only
    rw [update_of_ne h02, update_of_ne h01, update_self]
  have hd₁ : (s.format r c).desc c.idx1 =
      ⟨.data r.b, 1024, (if r.write then 0 else descWrite) ||| descNext, c.idx2⟩ := by
    unfold format
    dsimp only
    rw [update_of_ne h12, update_self]
  have hd₂ : (s.format r c).desc c.idx2 = ⟨.status c.idx0, 1, descWrite, 0⟩ :=
    update_self ..
  exact
    { lt := fun {i} => hlt i
      ne01 := h01
      ne02 := h02
      ne12 := h12
      next0 := by
        rw [hd₀]
        exact ⟨(by decide : descNext &&& descNext ≠ 0), rfl⟩
      next1 := by
        rw [hd₁]
        refine ⟨?_, rfl⟩
        have hflags : ∀ write : Bool,
            ((if write then 0 else descWrite) ||| descNext) &&& descNext ≠ 0 := by decide
        exact hflags r.write
      last := by
        rw [hd₂]
        exact ⟨(by decide : descWrite &&& descNext = 0), rfl⟩ }

/-! ## The heads under way -/

lemma goto_pc (s : State) (p q : Nat) (pc : Pc) :
    (s.goto p pc).pc q = if q = p then pc else s.pc q :=
  update_apply ..

/-- Where a process is after another has gone on. -/
lemma of_goto_pc {pc pc' : Pc} (h : (s.goto p pc).pc q = pc') :
    q = p ∧ pc = pc' ∨ q ≠ p ∧ s.pc q = pc' := by
  rw [goto_pc] at h
  split at h
  next hq => exact .inl ⟨hq, h⟩
  next hq => exact .inr ⟨hq, h⟩

lemma Live.buf (h : s.Live p r c) : (s.pc p).buf = some r.b := by
  rcases h with h | h
  · rw [h]
    rfl
  · rw [h]
    rfl

lemma Live.inj {r' : Req} {c' : Chain} (h : s.Live p r c) (h' : s.Live p r' c') : r = r' ∧ c = c' := by
  rcases h with h | h <;> rcases h' with h' | h' <;> rw [h] at h' <;> cases h' <;> exact ⟨rfl, rfl⟩

namespace Inv

variable (hs : s.Inv)
include hs

/-- A call that has its descriptors has them to itself. -/
lemma not_free (hl : s.Live p r c) (hi : c.has i) : s.free i = false :=
  (hs.free ((hs.linked hl).lt hi)).mpr ⟨p, r, c, hl, hi⟩

/-- With the lock free, nobody has told the device half of what it needs. -/
lemma not_formatted (hlock : ∀ p, s.lock ≠ some (.proc p)) : s.pc p ≠ .formatted r c :=
  fun h => hlock p (hs.lock h)

lemma mem_queue (hq : h ∈ s.queue) :
    ∃ p r c, s.pc p = .waiting r c ∧ c.idx0 = h ∧ s.disk r.b = true :=
  hs.queue.mp hq

lemma queue_lt (hq : h ∈ s.queue) : h < num := by
  obtain ⟨p, r, c, hpc, rfl, -⟩ := hs.mem_queue hq
  exact (hs.linked (.inr hpc)).lt c.has_idx0

/-- There are no more heads than descriptors. -/
lemma length_queue : s.queue.length ≤ num := by
  have hsub : s.queue.Subperm (range num) :=
    subperm_of_subset hs.nodup fun h hq => mem_range.mpr (hs.queue_lt hq)
  simpa using hsub.length_le

/-- The head of a chain that the device does not know is not under way. -/
lemma formatted_notMem (hpc : s.pc p = .formatted r c) : c.idx0 ∉ s.queue := by
  intro hq
  obtain ⟨q, r', c', hq', he, -⟩ := hs.mem_queue hq
  have hpq : q = p := hs.disjoint (.inr hq') (.inl hpc) (.inl he.symm) (.inl rfl)
  rw [hpq, hpc] at hq'
  cases hq'

/-- There is room in the `avail` ring. -/
lemma avail_room (hpc : s.pc p = .formatted r c) : s.avail.count ring < num := by
  have hnodup : (c.idx0 :: s.queue).Nodup := nodup_cons.mpr ⟨hs.formatted_notMem hpc, hs.nodup⟩
  have hsub : (c.idx0 :: s.queue).Subperm (range num) := by
    refine subperm_of_subset hnodup fun h hq => mem_range.mpr ?_
    rcases mem_cons.mp hq with rfl | hq
    · exact (hs.linked (.inl hpc)).lt c.has_idx0
    · exact hs.queue_lt hq
  have hlen := hsub.length_le
  simp only [State.queue, RingBuf.contents, length_cons, length_append, length_map,
    length_range] at hlen
  omega

/-- There is room in the `used` ring. -/
lemma used_room (hh : h ∈ s.inflight) : s.used.count ring < num := by
  have hlen := hs.length_queue
  have hpos := length_pos_of_mem hh
  simp only [State.queue, RingBuf.contents, length_append, length_map,
    length_range] at hlen
  omega

/-! ## Steps -/

lemma setLock (hlock : ∀ p, s.lock ≠ some (.proc p)) (l : Option Holder) :
    { s with lock := l }.Inv :=
  { hs with lock := fun hpc => absurd hpc (hs.not_formatted hlock) }

lemma notify (hpc : s.pc p = .formatted r c) :
    ({ s with avail := s.avail.push ring c.idx0, lock := none }.goto p (.waiting r c)).Inv := by
  set s' := { s with avail := s.avail.push ring c.idx0, lock := none }.goto p (.waiting r c) with hs'
  have hroom := hs.avail_room hpc
  have hpc' : ∀ q, s'.pc q = if q = p then .waiting r c else s.pc q := fun q => goto_pc _ p q _
  have hlive : ∀ {q r' c'}, s'.Live q r' c' ↔ s.Live q r' c' := by
    intro q r' c'
    unfold Live
    rw [hpc']
    split
    next he => simp [he, hpc]
    next => exact Iff.rfl
  have hbuf : ∀ q, (s'.pc q).buf = (s.pc q).buf := by
    intro q
    rw [hpc']
    split
    next he =>
      rw [he, hpc]
      rfl
    next => rfl
  have hperm : s'.queue.Perm (c.idx0 :: s.queue) := by
    show List.Perm ((s.avail.push ring c.idx0).contents ring ++ _) _
    rw [hs.avail.contents_push hroom, append_assoc]
    exact perm_middle
  have hother : ∀ {q r' c'}, s'.pc q ≠ .formatted r' c' := by
    intro q r' c' hq
    obtain ⟨-, ⟨⟩⟩ | ⟨hne, hq⟩ := of_goto_pc hq
    have hlock := (hs.lock hq).symm.trans (hs.lock hpc)
    cases hlock
    exact hne rfl
  exact
    { panic := hs.panic
      linked := fun hl => hs.linked (hlive.mp hl)
      info := fun hl => hs.info (hlive.mp hl)
      free := fun hi => by
        simp only [hlive]
        exact hs.free hi
      disjoint := fun hl hl' => hs.disjoint (hlive.mp hl) (hlive.mp hl')
      taken := fun hb => hs.taken ((hbuf _).symm.trans hb)
      excl := fun hb hb' => hs.excl ((hbuf _).symm.trans hb) ((hbuf _).symm.trans hb')
      lock := fun hq => absurd hq hother
      busy := fun hq => absurd hq hother
      avail := hs.avail.push hroom
      used := hs.used
      nodup := hperm.nodup_iff.mpr (nodup_cons.mpr ⟨hs.formatted_notMem hpc, hs.nodup⟩)
      queue := by
        intro h
        rw [hperm.mem_iff, mem_cons, hs.queue]
        constructor
        · rintro (rfl | ⟨q, r', c', hq, he, hd⟩)
          · exact ⟨p, r, c, (hpc' p).trans (if_pos rfl), rfl, hs.busy hpc⟩
          · refine ⟨q, r', c', ?_, he, hd⟩
            rw [hpc', if_neg, hq]
            rintro rfl
            rw [hpc] at hq
            cases hq
        · rintro ⟨q, r', c', hq, he, hd⟩
          obtain ⟨-, ⟨⟩⟩ | ⟨-, hq⟩ := of_goto_pc hq
          · exact .inl he.symm
          · exact .inr ⟨q, r', c', hq, he, hd⟩
      status := hs.status }

lemma fetch (hne : s.avail.nread ≠ s.avail.nwrite) :
    { s with avail := s.avail.pop ring, inflight := s.inflight ++ [s.avail.front ring] }.Inv := by
  have hpos : 0 < s.avail.count ring :=
    Nat.pos_of_ne_zero fun h => hne (hs.avail.nread_eq_nwrite_iff.mpr h)
  have hperm : ((s.avail.pop ring).contents ring ++
      ((s.inflight ++ [s.avail.front ring]) ++ s.used.contents ring)).Perm s.queue := by
    unfold State.queue
    rw [hs.avail.contents_pop hpos, append_assoc, singleton_append, ← append_assoc,
      cons_append, ← append_assoc]
    exact perm_middle
  exact
    { hs with
      avail := hs.avail.pop hpos
      nodup := hperm.nodup_iff.mpr hs.nodup
      queue := hperm.mem_iff.trans hs.queue }

/-- What the device does at the end of a chain. -/
lemma complete_eq (hh : h ∈ s.inflight) :
    s.complete h = { s with
      info := update s.info h { s.info h with status := 0 }
      used := s.used.push ring h, inflight := s.inflight.erase h } := by
  obtain ⟨p, r, c, hpc, rfl, -⟩ := hs.mem_queue (mem_append_right _ (mem_append_left _ hh))
  have hc := hs.linked (.inr hpc)
  have haddr : (s.desc (s.desc (s.desc c.idx0).next).next).addr = .status c.idx0 := by
    rw [hc.next0.2, hc.next1.2, hc.last.2]
  unfold State.complete
  dsimp only
  rw [haddr]

lemma complete (hh : h ∈ s.inflight) : (s.complete h).Inv := by
  have hroom := hs.used_room hh
  have hperm : (s.avail.contents ring ++
      (s.inflight.erase h ++ (s.used.push ring h).contents ring)).Perm s.queue := by
    unfold State.queue
    rw [hs.used.contents_push hroom]
    refine List.Perm.append_left _ ?_
    calc s.inflight.erase h ++ (s.used.contents ring ++ [h])
        = (s.inflight.erase h ++ s.used.contents ring) ++ [h] := (append_assoc ..).symm
      List.Perm _ (h :: (s.inflight.erase h ++ s.used.contents ring)) := perm_append_singleton ..
      List.Perm _ (s.inflight ++ s.used.contents ring) := (perm_cons_erase hh).symm.append_right _
  rw [hs.complete_eq hh]
  exact
    { hs with
      info := by
        intro p r c hl
        show (update s.info h _ c.idx0).b = _
        by_cases he : c.idx0 = h
        · rw [← he, update_self]
          exact hs.info hl
        · rw [update_of_ne he]
          exact hs.info hl
      used := hs.used.push hroom
      nodup := hperm.nodup_iff.mpr hs.nodup
      queue := hperm.mem_iff.trans hs.queue
      status := by
        intro i hi
        show (update s.info h _ i).status = 0
        by_cases he : i = h
        · rw [he, update_self]
        · rw [update_of_ne he]
          rw [hs.used.contents_push hroom] at hi
          rcases mem_append.mp hi with hi | hi
          · exact hs.status hi
          · exact absurd (mem_singleton.mp hi) he }

/-- The buffer that a round of `virtio_disk_intr` is about. -/
lemma handle_eq (hne : s.used.nread ≠ s.used.nwrite) :
    ∃ p r c, s.pc p = .waiting r c ∧ c.idx0 = s.used.front ring ∧ s.disk r.b = true ∧
      s.handle = { s with disk := update s.disk r.b false, used := s.used.pop ring } := by
  have hpos : 0 < s.used.count ring :=
    Nat.pos_of_ne_zero fun h => hne (hs.used.nread_eq_nwrite_iff.mpr h)
  have hmem : s.used.front ring ∈ s.used.contents ring := by
    rw [hs.used.contents_pop hpos]
    exact mem_cons_self
  obtain ⟨p, r, c, hpc, he, hd⟩ := hs.mem_queue (mem_append_right _ (mem_append_right _ hmem))
  refine ⟨p, r, c, hpc, he, hd, ?_⟩
  have hb := hs.info (.inr hpc)
  rw [he] at hb
  unfold State.handle
  rw [if_neg (not_not.mpr (hs.status hmem)), hb]

lemma handle (hne : s.used.nread ≠ s.used.nwrite) : s.handle.Inv := by
  have hpos : 0 < s.used.count ring :=
    Nat.pos_of_ne_zero fun h => hne (hs.used.nread_eq_nwrite_iff.mpr h)
  obtain ⟨p, r, c, hpc, he, -, heq⟩ := hs.handle_eq hne
  have hpop := hs.used.contents_pop hpos
  have hperm : s.queue.Perm (s.used.front ring :: s.handle.queue) := by
    rw [heq]
    show List.Perm (s.avail.contents ring ++ (s.inflight ++ s.used.contents ring)) _
    rw [hpop, ← append_assoc]
    refine perm_middle.trans (List.Perm.cons _ ?_)
    rw [append_assoc]
    exact List.Perm.refl _
  have hnodup := nodup_cons.mp (hperm.nodup_iff.mp hs.nodup)
  -- the buffers of the other calls are not touched
  have hdisk : ∀ {q r'}, (s.pc q).buf = some r' → q ≠ p → s.handle.disk r' = s.disk r' := by
    intro q b hb hqp
    rw [heq]
    refine update_of_ne ?_ ..
    rintro rfl
    exact hqp (hs.excl hb (Live.buf (.inr hpc)))
  have hqueue : ∀ {h}, h ∈ s.handle.queue ↔
      ∃ p r c, s.pc p = .waiting r c ∧ c.idx0 = h ∧ s.handle.disk r.b = true := by
    intro h
    constructor
    · intro hq
      obtain ⟨q, r', c', hq', he', hd⟩ := hs.mem_queue (hperm.mem_iff.mpr (mem_cons_of_mem _ hq))
      refine ⟨q, r', c', hq', he', ?_⟩
      rw [hdisk (Live.buf (.inr hq')), hd]
      rintro rfl
      rw [hpc] at hq'
      cases hq'
      exact hnodup.1 (he ▸ he' ▸ hq)
    · rintro ⟨q, r', c', hq', he', hd⟩
      have hqp : q ≠ p := by
        rintro rfl
        rw [hpc] at hq'
        cases hq'
        rw [heq] at hd
        dsimp only at hd
        rw [update_self] at hd
        cases hd
      rw [hdisk (Live.buf (.inr hq')) hqp] at hd
      have hq : h ∈ s.queue := hs.queue.mpr ⟨q, r', c', hq', he', hd⟩
      rcases mem_cons.mp (hperm.mem_iff.mp hq) with rfl | hq
      · exact absurd (hs.disjoint (.inr hq') (.inr hpc) (.inl he'.symm) (.inl he.symm)) hqp
      · exact hq
  have hbusy : ∀ {q r' c'}, s.pc q = .formatted r' c' → s.handle.disk r'.b = true := by
    intro q r' c' hq
    rw [hdisk (Live.buf (.inl hq))]
    · exact hs.busy hq
    · rintro rfl
      rw [hpc] at hq
      cases hq
  have hused := hs.used.pop hpos
  rw [heq] at hnodup hqueue hbusy ⊢
  exact
    { hs with
      busy := hbusy
      used := hused
      nodup := hnodup.2
      queue := hqueue
      status := fun hi => hs.status (hpop ▸ mem_cons_of_mem _ hi) }

/-- The calls after `virtio_disk_rw` has returned. -/
lemma finish (hpc : s.pc p = .waiting r c) (hdone : s.disk r.b = false) : (s.finish p r c).Inv := by
  have hc := hs.linked (.inr hpc)
  obtain ⟨desc, free, hdesc, hfree, heq⟩ :=
    freeChain_eq (s := { s with info := update s.info c.idx0 { s.info c.idx0 with b := none } })
      hc fun i hi => hs.not_free (.inr hpc) hi
  have hs' : s.finish p r c = State.goto { s with
      info := update s.info c.idx0 { s.info c.idx0 with b := none }
      desc := desc, free := free, taken := update s.taken r.b false } p .idle := by
    unfold State.finish
    dsimp only
    rw [heq]
  rw [hs']
  set s' := State.goto _ p .idle
  have hpc' : ∀ q, s'.pc q = if q = p then .idle else s.pc q := fun q => goto_pc _ p q _
  have hlive : ∀ {q r' c'}, s'.Live q r' c' ↔ q ≠ p ∧ s.Live q r' c' := by
    intro q r' c'
    unfold Live
    rw [hpc']
    by_cases hq : q = p <;> simp [hq]
  have hapart : ∀ {q r' c' i}, s'.Live q r' c' → c'.has i → ¬ c.has i := fun hl hi hi' =>
    (hlive.mp hl).1 (hs.disjoint (hlive.mp hl).2 (.inr hpc) hi hi')
  have hbuf : ∀ {q b}, (s'.pc q).buf = some b → q ≠ p ∧ (s.pc q).buf = some b := by
    intro q b hb
    rw [hpc'] at hb
    split at hb
    next => cases hb
    next hq => exact ⟨hq, hb⟩
  have hform : ∀ {q r' c'}, s'.pc q = .formatted r' c' → s.pc q = .formatted r' c' := by
    intro q r' c' hq
    obtain ⟨-, ⟨⟩⟩ | ⟨-, hq⟩ := of_goto_pc hq
    exact hq
  exact
    { panic := hs.panic
      linked := fun hl => (hs.linked (hlive.mp hl).2).congr fun i hi => hdesc i (hapart hl hi)
      info := by
        intro q r' c' hl
        show (update s.info c.idx0 _ c'.idx0).b = _
        rw [update_of_ne fun he => hapart hl c'.has_idx0 (.inl he)]
        exact hs.info (hlive.mp hl).2
      free := by
        intro i hi
        refine (hfree i).trans ?_
        rw [hs.free hi]
        constructor
        · rintro ⟨⟨q, r', c', hl, hi'⟩, hno⟩
          refine ⟨q, r', c', hlive.mpr ⟨?_, hl⟩, hi'⟩
          rintro rfl
          obtain ⟨rfl, rfl⟩ := hl.inj (.inr hpc)
          exact hno hi'
        · rintro ⟨q, r', c', hl, hi'⟩
          exact ⟨⟨q, r', c', (hlive.mp hl).2, hi'⟩, hapart hl hi'⟩
      disjoint := fun hl hl' => hs.disjoint (hlive.mp hl).2 (hlive.mp hl').2
      taken := by
        intro q b hb
        obtain ⟨hq, hb⟩ := hbuf hb
        show update s.taken r.b false b = true
        rw [update_of_ne, hs.taken hb]
        rintro rfl
        exact hq (hs.excl hb (Live.buf (.inr hpc)))
      excl := fun hb hb' => hs.excl (hbuf hb).2 (hbuf hb').2
      lock := fun hq => hs.lock (hform hq)
      busy := fun hq => hs.busy (hform hq)
      avail := hs.avail
      used := hs.used
      nodup := hs.nodup
      queue := by
        intro h
        refine hs.queue.trans ⟨?_, ?_⟩
        · rintro ⟨q, r', c', hq, he, hd⟩
          refine ⟨q, r', c', ?_, he, hd⟩
          rw [hpc', if_neg, hq]
          rintro rfl
          rw [hpc] at hq
          cases hq
          rw [hdone] at hd
          cases hd
        · rintro ⟨q, r', c', hq, he, hd⟩
          obtain ⟨-, ⟨⟩⟩ | ⟨-, hq⟩ := of_goto_pc hq
          exact ⟨q, r', c', hq, he, hd⟩
      status := by
        intro h hh
        show (update s.info c.idx0 _ h).status = 0
        by_cases he : h = c.idx0
        · rw [← he, update_self]
          exact hs.status hh
        · rw [update_of_ne he]
          exact hs.status hh }

/-- A call without descriptors goes to sleep. -/
lemma block {desc : Nat → Desc} (hdesc : ∀ i, s.free i = false → desc i = s.desc i)
    (hno : ∀ r c, ¬ s.Live p r c) (htaken : s.taken r.b = true)
    (hexcl : ∀ {q}, (s.pc q).buf = some r.b → q = p) :
    (State.goto { s with desc := desc } p (.blocked r)).Inv := by
  set s' := State.goto { s with desc := desc } p (.blocked r)
  have hpc' : ∀ q, s'.pc q = if q = p then .blocked r else s.pc q := fun q => goto_pc _ p q _
  have hlive : ∀ {q r' c'}, s'.Live q r' c' ↔ s.Live q r' c' := by
    intro q r' c'
    by_cases hq : q = p
    · rw [hq]
      refine ⟨fun hl => ?_, fun hl => absurd hl (hno r' c')⟩
      unfold Live at hl
      rw [hpc', if_pos rfl] at hl
      rcases hl with hl | hl <;> cases hl
    · unfold Live
      rw [hpc', if_neg hq]
  have hbuf : ∀ {q b}, (s'.pc q).buf = some b → q = p ∧ b = r.b ∨ (s.pc q).buf = some b := by
    intro q b hb
    rw [hpc'] at hb
    split at hb
    next hq =>
      cases hb
      exact .inl ⟨hq, rfl⟩
    next => exact .inr hb
  have hform : ∀ {q r' c'}, s'.pc q = .formatted r' c' → s.pc q = .formatted r' c' := by
    intro q r' c' hq
    obtain ⟨-, ⟨⟩⟩ | ⟨-, hq⟩ := of_goto_pc hq
    exact hq
  exact
    { panic := hs.panic
      linked := fun hl => (hs.linked (hlive.mp hl)).congr fun i hi => hdesc i (hs.not_free (hlive.mp hl) hi)
      info := fun hl => hs.info (hlive.mp hl)
      free := fun hi => by
        simp only [hlive]
        exact hs.free hi
      disjoint := fun hl hl' => hs.disjoint (hlive.mp hl) (hlive.mp hl')
      taken := by
        intro q b hb
        rcases hbuf hb with ⟨-, rfl⟩ | hb
        · exact htaken
        · exact hs.taken hb
      excl := by
        intro q q' b hb hb'
        rcases hbuf hb with ⟨hq, he⟩ | h₁ <;> rcases hbuf hb' with ⟨hq', he'⟩ | h₂
        · exact hq.trans hq'.symm
        · exact hq.trans (hexcl (he ▸ h₂)).symm
        · exact (hexcl (he' ▸ h₁)).trans hq'.symm
        · exact hs.excl h₁ h₂
      lock := fun hq => hs.lock (hform hq)
      busy := fun hq => hs.busy (hform hq)
      avail := hs.avail
      used := hs.used
      nodup := hs.nodup
      queue := by
        intro h
        refine hs.queue.trans ⟨?_, ?_⟩
        · rintro ⟨q, r', c', hq, he, hd⟩
          refine ⟨q, r', c', ?_, he, hd⟩
          rw [hpc', if_neg, hq]
          rintro rfl
          exact hno r' c' (.inr hq)
        · rintro ⟨q, r', c', hq, he, hd⟩
          obtain ⟨-, ⟨⟩⟩ | ⟨-, hq⟩ := of_goto_pc hq
          exact ⟨q, r', c', hq, he, hd⟩
      status := hs.status }

/-- A call fills in its descriptors. -/
lemma fill {free : Nat → Bool} (hpc : s.pc p = .blocked r)
    (hchain : ∀ i, c.has i → i < num ∧ s.free i = true) (h01 : c.idx0 ≠ c.idx1)
    (h02 : c.idx0 ≠ c.idx2) (h12 : c.idx1 ≠ c.idx2)
    (hfree : ∀ i, free i = false ↔ s.free i = false ∨ c.has i) (hlock : s.lock = none) :
    ({ format { s with free := free } r c with lock := some (.proc p) }.goto p (.formatted r c)).Inv := by
  set s' := { format { s with free := free } r c with lock := some (.proc p) }.goto p (.formatted r c)
  have hpc' : ∀ q, s'.pc q = if q = p then .formatted r c else s.pc q := fun q => goto_pc _ p q _
  have hlive : ∀ {q r' c'}, s'.Live q r' c' ↔ s.Live q r' c' ∨ q = p ∧ r' = r ∧ c' = c := by
    intro q r' c'
    unfold Live
    rw [hpc']
    split
    next he => simp [he, hpc, eq_comm]
    next he => simp [he]
  -- the chain was free, so it meets no other
  have hapart : ∀ {q r' c' i}, s.Live q r' c' → c'.has i → ¬ c.has i := by
    intro q r' c' i hl hi hi'
    have hf := hs.not_free hl hi
    rw [(hchain i hi').2] at hf
    cases hf
  have hbuf : ∀ q, (s'.pc q).buf = (s.pc q).buf := by
    intro q
    rw [hpc']
    split
    next he =>
      rw [he, hpc]
      rfl
    next => rfl
  have hform : ∀ {q r' c'}, s'.pc q = .formatted r' c' → q = p ∧ r' = r := by
    intro q r' c' hq
    obtain ⟨he, ⟨⟩⟩ | ⟨-, hq⟩ := of_goto_pc hq
    · exact ⟨he, rfl⟩
    · exact absurd hq (hs.not_formatted (by rw [hlock]; nofun))
  have hdesc : ∀ {i}, ¬ c.has i → s'.desc i = s.desc i := by
    intro i hi
    unfold Chain.has at hi
    push Not at hi
    show update (update (update s.desc _ _) _ _) _ _ i = _
    rw [update_of_ne hi.2.2, update_of_ne hi.2.1, update_of_ne hi.1]
  have hinfo : ∀ {q r' c'}, s.Live q r' c' → s'.info c'.idx0 = s.info c'.idx0 := fun hl =>
    update_of_ne (fun he => hapart hl (Chain.has_idx0 _) (.inl he)) ..
  have hdisk : ∀ {q b}, (s.pc q).buf = some b → q ≠ p → s'.disk b = s.disk b := by
    intro q b hb hq
    refine update_of_ne ?_ ..
    rintro rfl
    exact hq (hs.excl hb (by rw [hpc]; rfl))
  exact
    { panic := hs.panic
      linked := by
        intro q r' c' hl
        rcases hlive.mp hl with hl | ⟨-, -, rfl⟩
        · exact (hs.linked hl).congr fun i hi => hdesc (hapart hl hi)
        · exact linked_format _ r (fun i hi => (hchain i hi).1) h01 h02 h12
      info := by
        intro q r' c' hl
        rcases hlive.mp hl with hl | ⟨-, rfl, rfl⟩
        · rw [hinfo hl]
          exact hs.info hl
        · show (update s.info c'.idx0 _ c'.idx0).b = _
          rw [update_self]
      free := by
        intro i hi
        refine (hfree i).trans ?_
        rw [hs.free hi]
        constructor
        · rintro (⟨q, r', c', hl, hi'⟩ | hi')
          · exact ⟨q, r', c', hlive.mpr (.inl hl), hi'⟩
          · exact ⟨p, r, c, hlive.mpr (.inr ⟨rfl, rfl, rfl⟩), hi'⟩
        · rintro ⟨q, r', c', hl, hi'⟩
          rcases hlive.mp hl with hl | ⟨-, -, rfl⟩
          · exact .inl ⟨q, r', c', hl, hi'⟩
          · exact .inr hi'
      disjoint := by
        intro q q' r₁ r₂ c₁ c₂ i hl hl' hi hi'
        rcases hlive.mp hl with h₁ | ⟨hq, -, he⟩ <;> rcases hlive.mp hl' with h₂ | ⟨hq', -, he'⟩
        · exact hs.disjoint h₁ h₂ hi hi'
        · exact absurd (he' ▸ hi') (hapart h₁ hi)
        · exact absurd (he ▸ hi) (hapart h₂ hi')
        · exact hq.trans hq'.symm
      taken := fun hb => hs.taken ((hbuf _).symm.trans hb)
      excl := fun hb hb' => hs.excl ((hbuf _).symm.trans hb) ((hbuf _).symm.trans hb')
      lock := fun hq => by
        rw [(hform hq).1]
        rfl
      busy := fun hq => by
        rw [(hform hq).2]
        exact update_self ..
      avail := hs.avail
      used := hs.used
      nodup := hs.nodup
      queue := by
        intro h
        refine hs.queue.trans ⟨?_, ?_⟩
        · rintro ⟨q, r', c', hq, he, hd⟩
          have hqp : q ≠ p := ne_of_apply_ne s.pc (by rw [hq, hpc]; nofun)
          refine ⟨q, r', c', ?_, he, ?_⟩
          · rw [hpc', if_neg hqp, hq]
          · rw [hdisk (Live.buf (.inr hq)) hqp, hd]
        · rintro ⟨q, r', c', hq, he, hd⟩
          obtain ⟨-, ⟨⟩⟩ | ⟨hqp, hq⟩ := of_goto_pc hq
          rw [hdisk (Live.buf (.inr hq)) hqp] at hd
          exact ⟨q, r', c', hq, he, hd⟩
      status := by
        intro h hh
        obtain ⟨q, r', c', hq, rfl, -⟩ := hs.mem_queue (mem_append_right _ (mem_append_right _ hh))
        rw [hinfo (.inr hq)]
        exact hs.status hh }

/-- A call asks for descriptors. -/
lemma start (hlock : s.lock = none) (hno : ∀ r c, ¬ s.Live p r c) (htaken : s.taken r.b = true)
    (hexcl : ∀ {q}, (s.pc q).buf = some r.b → q = p) : (s.start p r).Inv := by
  unfold State.start
  split
  next s₁ h₁ =>
    obtain ⟨desc, hdesc, rfl⟩ := alloc3Desc_none h₁
    exact hs.block hdesc hno htaken hexcl
  next c s₁ h₁ =>
    obtain ⟨hchain, h01, h02, h12, free, hfree, rfl⟩ := alloc3Desc_some h₁
    -- as if it had slept before
    have hblock := hs.block (fun _ _ => rfl) hno htaken hexcl
    have hfill := hblock.fill (update_self ..) hchain h01 h02 h12 hfree hlock
    simp only [goto, format, update_idem] at hfill
    exact hfill

lemma rw (hpc : s.pc p = .idle) (hlock : s.lock = none) (hb : s.taken r.b = false) :
    ({ s with taken := update s.taken r.b true }.start p r).Inv := by
  have htaken : { s with taken := update s.taken r.b true }.Inv :=
    { hs with
      taken := by
        intro q b hq
        show update s.taken r.b true b = true
        by_cases he : b = r.b
        · rw [he, update_self]
        · rw [update_of_ne he]
          exact hs.taken hq }
  refine htaken.start hlock ?_ (update_self ..) ?_
  · rintro r' c' (hl | hl)
    · cases hpc.symm.trans hl
    · cases hpc.symm.trans hl
  · intro q hq
    have hq' := hs.taken hq
    rw [hb] at hq'
    cases hq'

lemma retry (hpc : s.pc p = .blocked r) (hlock : s.lock = none) : (s.start p r).Inv := by
  have hbuf : (s.pc p).buf = some r.b := by
    rw [hpc]
    rfl
  refine hs.start hlock ?_ (hs.taken hbuf) fun hq => hs.excl hq hbuf
  rintro r' c' (hl | hl)
  · cases hpc.symm.trans hl
  · cases hpc.symm.trans hl

/-- Every step keeps the invariant. -/
lemma step {a : Action} (hstep : s.step a = some s') : s'.Inv := by
  unfold State.step at hstep
  rw [if_neg (not_not.mpr hs.panic)] at hstep
  cases a with
  | rw p r =>
    obtain ⟨hg, rfl⟩ := of_guard hstep
    exact hs.rw hg.1 hg.2.1 hg.2.2
  | retry p =>
    dsimp only at hstep
    split at hstep
    next r hpc =>
      obtain ⟨hlock, rfl⟩ := of_guard hstep
      exact hs.retry hpc hlock
    next => cases hstep
  | notify p =>
    dsimp only at hstep
    split at hstep
    next r c hpc =>
      cases hstep
      exact hs.notify hpc
    next => cases hstep
  | finish p =>
    dsimp only at hstep
    split at hstep
    next r c hpc =>
      obtain ⟨hg, rfl⟩ := of_guard hstep
      exact hs.finish hpc hg.2
    next => cases hstep
  | fetch =>
    obtain ⟨hne, rfl⟩ := of_guard hstep
    exact hs.fetch hne
  | complete head =>
    obtain ⟨hh, rfl⟩ := of_guard hstep
    exact hs.complete hh
  | intr =>
    obtain ⟨hlock, rfl⟩ := of_guard hstep
    exact hs.setLock (by rw [hlock]; nofun) _
  | handle =>
    obtain ⟨hg, rfl⟩ := of_guard hstep
    exact hs.handle hg.2
  | leave =>
    obtain ⟨hg, rfl⟩ := of_guard hstep
    exact hs.setLock (by rw [hg.1]; nofun) _

end Inv

lemma inv_init : init.Inv where
  panic := rfl
  linked := by rintro p r c (hl | hl) <;> cases hl
  info := by rintro p r c (hl | hl) <;> cases hl
  free := by
    refine fun _ => ⟨nofun, ?_⟩
    rintro ⟨p, r, c, hl | hl, -⟩ <;> cases hl
  disjoint := by rintro p q r r' c c' i (hl | hl) <;> cases hl
  taken := nofun
  excl := nofun
  lock := nofun
  busy := nofun
  avail := ⟨by decide, by decide, by decide⟩
  used := ⟨by decide, by decide, by decide⟩
  nodup := nodup_nil
  queue := by
    refine ⟨nofun, ?_⟩
    rintro ⟨p, r, c, hl, -⟩
    cases hl
  status := nofun

lemma run_inv {as : List Action} (hrun : run step init as = some s) : s.Inv :=
  run_induction (P := fun _ s => s.Inv) hrun inv_init fun _ _ _ _ hs => hs.step

/-- What the driver and the device may rely on. -/
structure Protocol (s : State) : Prop where
  /-- The descriptors that are not free are those of the unfinished calls. -/
  free : ∀ i < num, s.free i = false ↔ ∃ p r c, s.Live p r c ∧ c.has i
  /-- The three descriptors of a chain differ. -/
  distinct : ∀ p r c, s.Live p r c → c.idx0 ≠ c.idx1 ∧ c.idx0 ≠ c.idx2 ∧ c.idx1 ≠ c.idx2
  /-- No descriptor is in two chains. -/
  disjoint : ∀ p q r r' c c' i, s.Live p r c → s.Live q r' c' → c.has i → c'.has i → p = q
  /-- What the device adds to the `used` ring overwrites nothing. -/
  used : ∀ s' head, s.step (.complete head) = some s' →
    s'.used.contents ring = s.used.contents ring ++ [head]
  /-- A round of `virtio_disk_intr` is about the buffer of the call that made the chain. -/
  handle : ∀ s', s.step .handle = some s' →
    ∃ p r c, s.pc p = .waiting r c ∧ c.idx0 = s.used.front ring ∧ s.disk r.b = true ∧
      s'.disk = update s.disk r.b false
  panic : s.panic = none
  /-- A failed `alloc3_desc` gives back what it took. -/
  alloc3 : ∀ s', s.alloc3Desc = (none, s') → s'.free = s.free ∧ s'.panic = none

/-- The protocol holds however the calls, the device and the interrupts interleave. -/
theorem virtio_protocol {as : List Action} (hrun : run step init as = some s) : s.Protocol := by
  have hs := run_inv hrun
  constructor
  case free => exact fun i hi => hs.free hi
  case distinct =>
    intro p r c hl
    have hc := hs.linked hl
    exact ⟨hc.ne01, hc.ne02, hc.ne12⟩
  case disjoint => exact fun p q r r' c c' i hl hl' => hs.disjoint hl hl'
  case used =>
    intro s' head hstep
    unfold step at hstep
    rw [if_neg (not_not.mpr hs.panic)] at hstep
    obtain ⟨hh, rfl⟩ := of_guard hstep
    exact hs.used.contents_push (hs.used_room hh)
  case handle =>
    intro s' hstep
    unfold step at hstep
    rw [if_neg (not_not.mpr hs.panic)] at hstep
    obtain ⟨hg, rfl⟩ := of_guard hstep
    obtain ⟨p, r, c, hpc, he, hd, heq⟩ := hs.handle_eq hg.2
    exact ⟨p, r, c, hpc, he, hd, by rw [heq]⟩
  case panic => exact hs.panic
  case alloc3 =>
    intro s' h
    obtain ⟨desc, -, rfl⟩ := alloc3Desc_none h
    exact ⟨rfl, hs.panic⟩

/-- Two requests, of which the second is completed first; a third call finds no descriptors. -/
def twoRequests : List Action :=
  [.rw 0 ⟨5, 40, true⟩, .notify 0, .rw 1 ⟨6, 41, false⟩, .notify 1, .rw 2 ⟨7, 42, false⟩, .fetch, .fetch,
    .complete 3, .complete 0, .intr, .handle]

theorem virtio_protocol_twoRequests :
    ∃ s, run step init twoRequests = some s ∧ s.pc 2 = .blocked ⟨7, 42, false⟩ ∧ s.Protocol := by
  obtain ⟨s, hs, hpc⟩ := Option.map_eq_some_iff.mp
    (by decide +kernel : (run step init twoRequests).map (fun s => s.pc 2) = some (.blocked ⟨7, 42, false⟩))
  exact ⟨s, hs, hpc, virtio_protocol hs⟩

end State

end Xv6.Virtio
