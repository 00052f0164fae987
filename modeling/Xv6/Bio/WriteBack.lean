import Xv6.Bio.Coherence

/-!
# `commit()` through the cache

`write_log` copies every pinned buffer to its log block, `install_trans` copies
the log blocks to their home blocks and drops the pins. Both go through
`bread`, so any free buffer may be recycled on the way. After `commit()` the
disk holds the flat array and nothing is pinned.
-/

namespace Xv6.Bio

open Function Log

variable {L : LogArea} {s s' : Cache} {V : Disk} {P P' : List Nat} {i j b c : Nat}

/-! ## What a locked buffer keeps -/

/-- The fields that the cache functions called by `commit()` leave alone, and
the buffers that are locked throughout. -/
structure Keeps (s s' : Cache) : Prop where
  disk : s'.disk = s.disk
  lh : s'.lh = s.lh
  outstanding : s'.outstanding = s.outstanding
  waiting : s'.waiting = s.waiting
  buf : ∀ {j}, (s.buf j).locked = true → s'.buf j = s.buf j

lemma Held.of_buf (h : Held s i b) (he : s'.buf i = s.buf i) : Held s' i b := by
  constructor
  · rw [he]; exact h.locked
  · rw [he]; exact h.holds
  · rw [he]; exact h.logged

lemma Held.keeps (h : Held s i b) (hk : Keeps s s') : Held s' i b :=
  h.of_buf (hk.buf h.locked)

lemma Cache.bget_locked (h : s.bget b = some (i, s')) : (s'.buf i).locked = (s.buf i).locked := by
  rcases Cache.bget_cases h with ⟨-, -, rfl⟩ | ⟨-, -, -, rfl⟩
  · simp
  · simp

lemma Cache.bget_keeps (h : s.bget b = some (i, s')) :
    s'.disk = s.disk ∧ s'.lh = s.lh ∧ s'.outstanding = s.outstanding ∧
      s'.waiting = (i, b) :: s.waiting ∧ ∀ j, j ≠ i → s'.buf j = s.buf j := by
  rcases Cache.bget_cases h with ⟨-, -, rfl⟩ | ⟨-, -, -, rfl⟩
  · exact ⟨rfl, rfl, rfl, rfl, fun j hj => update_of_ne hj _ _⟩
  · exact ⟨rfl, rfl, rfl, rfl, fun j hj => update_of_ne hj _ _⟩

lemma Cache.bread_keeps (h : s.bread b = some (i, s')) :
    (s.buf i).locked = false ∧ Keeps s s' := by
  simp only [Cache.bread, Option.bind_eq_some_iff, Option.map_eq_some_iff] at h
  obtain ⟨⟨k, s₁⟩, hget, s₂, hacq, heq⟩ := h
  cases heq
  obtain ⟨hdisk, hlh, hout, hwait, hbuf⟩ := Cache.bget_keeps hget
  obtain ⟨-, hl, rfl⟩ := Cache.acquire_eq hacq
  have hfree : (s.buf k).locked = false := by
    rw [← Cache.bget_locked hget]
    exact hl
  refine ⟨hfree, hdisk, hlh, hout, by simp [hwait], ?_⟩
  intro j hj
  have hjk : j ≠ k := by
    rintro rfl
    simp [hfree] at hj
  rw [Cache.set_buf, update_of_ne hjk]
  exact hbuf j hjk

/-- `bread` returns the contents of the block, in a buffer that nobody else holds. -/
lemma Coherent.bread (h : Coherent L s V P) (hs : s.bread b = some (i, s')) :
    Coherent L s' V P ∧ Held s' i b ∧ (s'.buf i).data = view L V s.disk b := by
  simp only [Cache.bread, Option.bind_eq_some_iff, Option.map_eq_some_iff] at hs
  obtain ⟨⟨k, s₁⟩, hget, s₂, hacq, heq⟩ := hs
  cases heq
  rw [← (Cache.bget_keeps hget).1]
  exact (h.bget hget).acquire hacq

lemma Cache.brelse_keeps (s : Cache) (i : Nat) :
    (s.brelse i).disk = s.disk ∧ (s.brelse i).lh = s.lh ∧
      (s.brelse i).outstanding = s.outstanding ∧ (s.brelse i).waiting = s.waiting ∧
      ∀ j, j ≠ i → (s.brelse i).buf j = s.buf j := by
  unfold Cache.brelse
  simp only
  split
  next => exact ⟨rfl, rfl, rfl, rfl, fun j hj => update_of_ne hj _ _⟩
  next => exact ⟨rfl, rfl, rfl, rfl, fun j hj => update_of_ne hj _ _⟩

/-! ## Writing a held buffer to disk -/

lemma view_update_log (hb : ¬ L.Home b) (v : Block) (V d : Disk) :
    view L V (update d b v) c = if c = b then v else view L V d c := by
  split
  next hc =>
    subst hc
    rw [view_log hb, update_self]
  next hc => simp only [view, update_of_ne hc]

/-- A held buffer of the log area is filled and written. -/
lemma Coherent.writeLogBlock (h : Coherent L s V P) (hh : Held s i b) (hb : ¬ L.Home b)
    (v : Block) : Coherent L ((s.set i { s.buf i with data := v }).bwrite i) V P := by
  obtain ⟨hi, hv, -⟩ := h.locked hh.locked
  obtain rfl := hh.holds.2
  have hne : ∀ {c}, L.Home c → c ≠ (s.buf i).blockno := by
    rintro c hc rfl
    exact hb hc
  simp only [Cache.bwrite, Cache.set, update_self]
  apply h.change hi hh.holds (x := { s.buf i with data := v }) hh.holds h.perm
  · exact h.refcnt_eq hi hh.holds
  · exact fun _ _ => rfl
  · exact fun _ _ => Iff.rfl
  · intro _ _
    rw [view_update_log hb, if_pos rfl]
  · intro c hc
    rw [view_update_log hb, if_neg hc]
  · exact fun _ => hv
  · exact fun _ => hh.locked
  · exact fun _ => hv
  · exact fun j c hjc => .inl hjc
  · intro c hc hcP
    rw [update_of_ne (hne hc)]
    exact h.clean hc hcP
  · exact fun c => h.home

/-- A held buffer of a pinned home block is filled with the block's contents,
written and unpinned. -/
lemma Coherent.installBlock (h : Coherent L s V P) (hh : Held s i b) (hb : b ∈ P)
    (hnot : b ∉ P') (hrest : ∀ c, c ≠ b → (c ∈ P' ↔ c ∈ P)) :
    Coherent L (((s.set i { s.buf i with data := V b }).bwrite i).bunpin i) V P' := by
  obtain ⟨hi, hv, -⟩ := h.locked hh.locked
  obtain rfl := hh.holds.2
  have hhome := h.home hb
  have href := h.refcnt_eq hi hh.holds
  simp only [Cache.bunpin, Cache.bwrite, Cache.set, update_self, update_idem]
  apply h.change hi hh.holds
    (x := { s.buf i with data := V (s.buf i).blockno, refcnt := (s.buf i).refcnt - 1 }) hh.holds h.perm
  · rw [if_pos hb] at href
    rw [if_neg hnot]
    simp only at href ⊢
    omega
  · exact fun _ _ => rfl
  · exact hrest
  · exact fun _ _ => (view_home hhome _ _).symm
  · intro c hc
    simp only [view, update_of_ne hc]
  · exact fun _ => hv
  · exact fun _ => hh.locked
  · exact fun _ => hv
  · exact fun j c hjc => .inl hjc
  · intro c hc hcP
    by_cases hcb : c = (s.buf i).blockno
    · rw [hcb, update_self]
    · rw [update_of_ne hcb]
      exact h.clean hc fun hP => hcP ((hrest c hcb).mpr hP)
  · intro c hc
    have hcb : c ≠ (s.buf i).blockno := by
      rintro rfl
      exact hnot hc
    exact h.home ((hrest c hcb).mp hc)

/-! ## The rounds of `write_log` and `install_trans` -/

/-- Two held buffers, released one after the other. -/
lemma Coherent.brelse_brelse (h : Coherent L s V P) (hi : Held s i b) (hj : Held s j c)
    (hne : j ≠ i) :
    Coherent L ((s.brelse i).brelse j) V P ∧ ((s.brelse i).brelse j).disk = s.disk ∧
      ((s.brelse i).brelse j).lh = s.lh ∧
      ((s.brelse i).brelse j).outstanding = s.outstanding := by
  obtain ⟨hd, hl, ho, -, hbuf⟩ := s.brelse_keeps i
  obtain ⟨hd', hl', ho', -, -⟩ := (s.brelse i).brelse_keeps j
  have hj' : Held (s.brelse i) j c := hj.of_buf (hbuf j hne)
  exact ⟨(h.brelse hi).brelse hj', hd'.trans hd, hl'.trans hl, ho'.trans ho⟩

/-- One round of `write_log` copies the contents of the block to its log block. -/
lemma Coherent.writeLogRound {tail : Nat} (h : Coherent L s V P)
    (hlog : ¬ L.Home (L.start + tail + 1)) (hhome : L.Home (s.lh.getD tail 0))
    (hs : writeLogRound L s tail = some s') :
    Coherent L s' V P ∧
      s'.disk = update s.disk (L.start + tail + 1) (V (s.lh.getD tail 0)) ∧
      s'.lh = s.lh ∧ s'.outstanding = s.outstanding := by
  simp only [Bio.writeLogRound, Option.bind_eq_bind, Option.bind_eq_some_iff] at hs
  obtain ⟨⟨tbuf, s₁⟩, ht, ⟨fbuf, s₂⟩, hf, heq⟩ := hs
  cases heq
  obtain ⟨-, hk₁⟩ := Cache.bread_keeps ht
  obtain ⟨hfree, hk₂⟩ := Cache.bread_keeps hf
  obtain ⟨h₁, heldt, -⟩ := h.bread ht
  obtain ⟨h₂, heldf, hdata⟩ := h₁.bread hf
  have hne : tbuf ≠ fbuf := by
    rintro rfl
    exact Bool.false_ne_true (hfree.symm.trans heldt.locked)
  have heldt₂ := heldt.keeps hk₂
  simp only [hk₁.lh] at hdata
  rw [view_home hhome] at hdata
  rw [hdata]
  have h₃ := h₂.writeLogBlock heldt₂ hlog (V (s.lh.getD tail 0))
  have heldf₃ : Held ((s₂.set tbuf { s₂.buf tbuf with data := V (s.lh.getD tail 0) }).bwrite tbuf)
      fbuf (s₁.lh.getD tail 0) := heldf.of_buf (update_of_ne hne.symm _ _)
  have heldt₃ : Held ((s₂.set tbuf { s₂.buf tbuf with data := V (s.lh.getD tail 0) }).bwrite tbuf)
      tbuf (L.start + tail + 1) := by
    refine ⟨?_, ?_, ?_⟩
    · simpa [Cache.bwrite] using heldt₂.locked
    · simpa [Cache.bwrite, Buf.Holds] using heldt₂.holds
    · simpa [Cache.bwrite] using heldt₂.logged
  obtain ⟨h₄, hd, hl, ho⟩ := h₃.brelse_brelse heldf₃ heldt₃ hne
  refine ⟨h₄, ?_, ?_, ?_⟩
  · rw [hd]
    simp only [Cache.bwrite, Cache.set, update_self, hk₂.disk, hk₁.disk, heldt₂.holds.2]
  · exact hl.trans (hk₂.lh.trans hk₁.lh)
  · exact ho.trans (hk₂.outstanding.trans hk₁.outstanding)

/-- One round of `install_trans` copies the log block to its home and unpins it. -/
lemma Coherent.installRound {tail : Nat} (h : Coherent L s V P)
    (hlog : ¬ L.Home (L.start + tail + 1)) (hb : s.lh.getD tail 0 ∈ P)
    (hcopy : s.disk (L.start + tail + 1) = V (s.lh.getD tail 0))
    (hnot : s.lh.getD tail 0 ∉ P') (hrest : ∀ c, c ≠ s.lh.getD tail 0 → (c ∈ P' ↔ c ∈ P))
    (hs : installRound L s tail = some s') :
    Coherent L s' V P' ∧
      s'.disk = update s.disk (s.lh.getD tail 0) (V (s.lh.getD tail 0)) ∧
      s'.lh = s.lh ∧ s'.outstanding = s.outstanding := by
  simp only [Bio.installRound, Option.bind_eq_bind, Option.bind_eq_some_iff] at hs
  obtain ⟨⟨lbuf, s₁⟩, hlb, ⟨dbuf, s₂⟩, hdb, heq⟩ := hs
  cases heq
  obtain ⟨-, hk₁⟩ := Cache.bread_keeps hlb
  obtain ⟨hfree, hk₂⟩ := Cache.bread_keeps hdb
  obtain ⟨h₁, heldl, hdata⟩ := h.bread hlb
  obtain ⟨h₂, heldd, -⟩ := h₁.bread hdb
  rw [hk₁.lh] at heldd
  have hne : dbuf ≠ lbuf := by
    rintro rfl
    exact Bool.false_ne_true (hfree.symm.trans heldl.locked)
  have hldata : (s₂.buf lbuf).data = V (s.lh.getD tail 0) := by
    rw [hk₂.buf heldl.locked, hdata, view_log hlog, hcopy]
  rw [hldata]
  have h₃ := h₂.installBlock heldd hb hnot hrest
  have heldl₃ : Held (((s₂.set dbuf { s₂.buf dbuf with data := V (s.lh.getD tail 0) }).bwrite
      dbuf).bunpin dbuf) lbuf (L.start + tail + 1) := by
    apply (heldl.keeps hk₂).of_buf
    simp [Cache.bunpin, Cache.bwrite, hne.symm]
  have heldd₃ : Held (((s₂.set dbuf { s₂.buf dbuf with data := V (s.lh.getD tail 0) }).bwrite
      dbuf).bunpin dbuf) dbuf (s.lh.getD tail 0) := by
    refine ⟨?_, ?_, ?_⟩
    · simpa [Cache.bunpin, Cache.bwrite] using heldd.locked
    · simpa [Cache.bunpin, Cache.bwrite, Buf.Holds] using heldd.holds
    · simpa [Cache.bunpin, Cache.bwrite] using heldd.logged
  obtain ⟨h₄, hd, hl, ho⟩ := h₃.brelse_brelse heldl₃ heldd₃ hne
  refine ⟨h₄, ?_, ?_, ?_⟩
  · rw [hd]
    simp only [Cache.bunpin, Cache.bwrite, Cache.set, update_self, hk₂.disk, hk₁.disk,
      heldd.holds.2]
  · exact hl.trans (hk₂.lh.trans hk₁.lh)
  · exact ho.trans (hk₂.outstanding.trans hk₁.outstanding)

/-! ## `commit()` -/

/-- After `write_log` the log blocks hold the contents of the pinned blocks. -/
lemma Coherent.writeLog (h : Coherent L s V P) (hhome : ∀ c ∈ s.lh, L.Home c)
    (hfit : s.lh.length < L.size) (hs : s.writeLog L = some s') :
    Coherent L s' V P ∧ s'.lh = s.lh ∧ s'.outstanding = s.outstanding ∧
      ∀ k < s.lh.length, s'.disk (L.start + k + 1) = V (s.lh.getD k 0) := by
  refine Lib.foldlM_range_induction
    (P := fun n t => Coherent L t V P ∧ t.lh = s.lh ∧ t.outstanding = s.outstanding ∧
      ∀ k < n, t.disk (L.start + k + 1) = V (s.lh.getD k 0)) ?_ ?_ hs
  · exact ⟨h, rfl, rfl, fun k hk => absurd hk (Nat.not_lt_zero k)⟩
  · rintro n t t' hn ⟨ht, hlh, hout, hcopy⟩ hround
    have hmem : t.lh.getD n 0 ∈ s.lh := by
      rw [hlh, List.getD_eq_getElem _ _ hn]
      exact List.getElem_mem hn
    obtain ⟨ht', hdisk, hlh', hout'⟩ :=
      ht.writeLogRound (LogArea.not_home_log (i := n + 1) (by omega)) (hhome _ hmem) hround
    refine ⟨ht', hlh'.trans hlh, hout'.trans hout, ?_⟩
    intro k hk
    rw [hdisk, hlh]
    by_cases hkn : k = n
    · rw [hkn, update_self]
    · rw [update_of_ne (by omega)]
      exact hcopy k (by omega)

/-- After `install_trans` nothing is pinned. -/
lemma Coherent.installTrans (h : Coherent L s V s.lh) (hnodup : s.lh.Nodup)
    (hfit : s.lh.length < L.size)
    (hcopy : ∀ k < s.lh.length, s.disk (L.start + k + 1) = V (s.lh.getD k 0))
    (hs : s.installTrans L = some s') :
    Coherent L s' V [] ∧ s'.outstanding = s.outstanding := by
  have hrun : Coherent L s' V (s.lh.drop s.lh.length) ∧ s'.lh = s.lh ∧
      s'.outstanding = s.outstanding ∧
      ∀ k < s.lh.length, s'.disk (L.start + k + 1) = V (s.lh.getD k 0) := by
    refine Lib.foldlM_range_induction
      (P := fun n t => Coherent L t V (s.lh.drop n) ∧ t.lh = s.lh ∧
        t.outstanding = s.outstanding ∧
        ∀ k < s.lh.length, t.disk (L.start + k + 1) = V (s.lh.getD k 0)) ?_ ?_ hs
    · exact ⟨by simpa using h, rfl, rfl, hcopy⟩
    · rintro n t t' hn ⟨ht, hlh, hout, hc⟩ hround
      have hget : t.lh.getD n 0 = s.lh[n] := by rw [hlh, List.getD_eq_getElem _ _ hn]
      have hdrop : s.lh.drop n = s.lh[n] :: s.lh.drop (n + 1) := List.drop_eq_getElem_cons hn
      have hnd : (s.lh.drop n).Nodup := hnodup.sublist (List.drop_sublist _ _)
      rw [hdrop, List.nodup_cons] at hnd
      have hin : s.lh[n] ∈ s.lh.drop n := by
        rw [hdrop]
        exact List.mem_cons_self
      have hrest : ∀ c, c ≠ s.lh[n] → (c ∈ s.lh.drop (n + 1) ↔ c ∈ s.lh.drop n) := by
        intro c hcn
        rw [hdrop, List.mem_cons]
        exact ⟨.inr, fun hor => hor.resolve_left hcn⟩
      rw [← hget] at hnd hin hrest
      obtain ⟨ht', hdisk, hlh', hout'⟩ :=
        ht.installRound (LogArea.not_home_log (i := n + 1) (by omega)) hin (by rw [hc n hn, hlh])
          hnd.1 hrest hround
      refine ⟨ht', hlh'.trans hlh, hout'.trans hout, ?_⟩
      intro k hk
      -- a home block is not one of the log blocks
      have hne : L.start + k + 1 ≠ t.lh.getD n 0 := by
        intro he
        have hhome := ht.home hin
        rw [← he] at hhome
        exact LogArea.not_home_log (i := k + 1) (by omega) hhome
      rw [hdisk, update_of_ne hne]
      exact hc k hk
  rw [List.drop_length] at hrun
  exact ⟨hrun.1, hrun.2.2.1⟩

/-- `write_head` touches only the header block. -/
lemma Coherent.writeHead (h : Coherent L s V P) (hs : s.writeHead L = some s') :
    Coherent L s' V P ∧ s'.lh = s.lh ∧ s'.outstanding = s.outstanding ∧
      ∀ c, c ≠ L.start → s'.disk c = s.disk c := by
  simp only [Cache.writeHead, Option.bind_eq_bind, Option.bind_eq_some_iff] at hs
  obtain ⟨⟨i, s₁⟩, hread, heq⟩ := hs
  cases heq
  obtain ⟨-, hk⟩ := Cache.bread_keeps hread
  obtain ⟨h₁, held, -⟩ := h.bread hread
  have hlog : ¬ L.Home L.start := LogArea.not_home_log L.size_pos
  have h₂ := h₁.writeLogBlock held hlog (Log.writeHead (s₁.buf i).data s₁.lh)
  have held₂ : Held ((s₁.set i { s₁.buf i with
      data := Log.writeHead (s₁.buf i).data s₁.lh }).bwrite i) i L.start := by
    refine ⟨?_, ?_, ?_⟩
    · simpa [Cache.bwrite] using held.locked
    · simpa [Cache.bwrite, Buf.Holds] using held.holds
    · simpa [Cache.bwrite] using held.logged
  obtain ⟨hd, hl, ho, -, -⟩ := Cache.brelse_keeps ((s₁.set i { s₁.buf i with
      data := Log.writeHead (s₁.buf i).data s₁.lh }).bwrite i) i
  refine ⟨h₂.brelse held₂, hl.trans hk.lh, ho.trans hk.outstanding, ?_⟩
  intro c hc
  rw [hd]
  simp only [Cache.bwrite, Cache.set, update_self, held.holds.2]
  rw [update_of_ne hc, hk.disk]

/-- `commit()` installs every pinned block and unpins it. -/
lemma Coherent.commit (h : Coherent L s V s.lh) (hnodup : s.lh.Nodup)
    (hfit : s.lh.length < L.size) (hs : s.commit L = some s') :
    Coherent L s' V [] ∧ s'.lh = [] ∧ s'.outstanding = s.outstanding := by
  unfold Cache.commit at hs
  split at hs
  next =>
    simp only [Option.bind_eq_bind, Option.bind_eq_some_iff] at hs
    obtain ⟨s₁, hlog, s₂, hhead, s₃, hinstall, hclear⟩ := hs
    obtain ⟨h₁, hlh₁, hout₁, hcopy⟩ := h.writeLog (fun c => h.home) hfit hlog
    obtain ⟨h₂, hlh₂, hout₂, hdisk⟩ := h₁.writeHead hhead
    have hlh : s₂.lh = s.lh := hlh₂.trans hlh₁
    obtain ⟨h₃, hout₃⟩ := Coherent.installTrans (s := s₂) (by rw [hlh]; exact h₂)
      (by rw [hlh]; exact hnodup) (by rw [hlh]; exact hfit)
      (by
        intro k hk
        rw [hlh] at hk ⊢
        rw [hdisk _ (by omega)]
        exact hcopy k hk) hinstall
    have h₃' : Coherent L { s₃ with lh := [] } V [] :=
      ⟨h₃.perm, h₃.uniq, h₃.ref, h₃.data, h₃.locked, h₃.dirty, h₃.pinned, h₃.waits, h₃.clean,
        h₃.home⟩
    obtain ⟨h₄, hlh₄, hout₄, -⟩ := h₃'.writeHead hclear
    exact ⟨h₄, hlh₄, hout₄.trans (hout₃.trans (hout₂.trans hout₁))⟩
  next hempty =>
    cases hs
    have hnil : s.lh = [] := by
      rw [← List.length_eq_zero_iff]
      omega
    rw [hnil] at h
    exact ⟨h, hnil, rfl⟩

end Xv6.Bio
