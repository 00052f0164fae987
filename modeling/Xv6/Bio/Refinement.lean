import Xv6.Bio.WriteBack

/-!
# The cache and the log refine a flat array

The abstract machine is two arrays of blocks: what was last logged for each
block, and what was last committed. It has no buffers. The concrete system
runs beside it, with callers that only change home blocks and that never
release a buffer with an unlogged change.
-/

namespace Xv6.Bio

open Log

/-- The abstract machine. -/
structure Flat where
  /-- The contents most recently logged for each block. -/
  logged : Disk
  /-- The contents at the last commit. -/
  committed : Disk

/-- What an action of the concrete system means for the arrays. -/
def Flat.step (f : Flat) (s : Cache) : Act → Flat
  | .logWrite i => { f with logged := Function.update f.logged (s.buf i).blockno (s.buf i).data }
  | .endOp => if s.outstanding = 1 then { f with committed := f.logged } else f
  | _ => f

/-- The callers' discipline: home blocks only, and every change is logged before
the buffer is released. -/
def Disciplined (L : LogArea) (s : Cache) : Act → Prop
  | .modify i _ => L.Home (s.buf i).blockno
  | .logWrite i => L.Home (s.buf i).blockno
  | .brelse i => (s.buf i).dirty = false
  | _ => True

instance (L : LogArea) (s : Cache) (a : Act) : Decidable (Disciplined L s a) :=
  match a with
  | .modify _ _ => inferInstanceAs (Decidable (L.Home _))
  | .logWrite _ => inferInstanceAs (Decidable (L.Home _))
  | .brelse _ => inferInstanceAs (Decidable (_ = _))
  | .beginOp => isTrue trivial
  | .endOp => isTrue trivial
  | .bget _ => isTrue trivial
  | .acquire _ _ => isTrue trivial

/-- The two machines side by side. -/
structure Pair where
  cache : Cache
  flat : Flat

/-- An empty cache over a disk. -/
def Pair.boot (d : Disk) : Pair := ⟨{ disk := d }, ⟨d, d⟩⟩

/-- One action of disciplined callers. -/
def Pair.step (L : LogArea) (x : Pair) (a : Act) : Option Pair :=
  if Disciplined L x.cache a then
    (x.cache.step L a).map fun s => ⟨s, x.flat.step x.cache a⟩
  else none

/-- The simulation relation. -/
structure Refines (L : LogArea) (x : Pair) : Prop where
  coherent : Coherent L x.cache x.flat.logged x.cache.lh
  nodup : x.cache.lh.Nodup
  /-- The log area has room for the transaction and its header. -/
  fit : x.cache.lh.length < L.size
  committed : ∀ {b}, L.Home b → x.cache.disk b = x.flat.committed b

variable {L : LogArea} {s s' : Cache} {x x' : Pair} {a : Act} {V : Disk} {P : List Nat} {i b : Nat}

lemma Refines.boot (L : LogArea) (d : Disk) : Refines L (Pair.boot d) where
  coherent := Coherent.init L d
  nodup := List.nodup_nil
  fit := L.size_pos
  committed := fun _ => rfl

lemma Coherent.withOutstanding (h : Coherent L s V P) (n : Int) :
    Coherent L { s with outstanding := n } V P :=
  ⟨h.perm, h.uniq, h.ref, h.data, h.locked, h.dirty, h.pinned, h.waits, h.clean, h.home⟩

/-- A step that leaves disk, log header and array alone need only keep the cache
coherent. -/
lemma Refines.of_coherent {f : Flat} (h : Refines L ⟨s, f⟩) (hc : Coherent L s' f.logged s.lh)
    (hlh : s'.lh = s.lh) (hdisk : s'.disk = s.disk) : Refines L ⟨s', f⟩ where
  coherent := by simpa only [hlh] using hc
  nodup := by simpa only [hlh] using h.nodup
  fit := by simpa only [hlh] using h.fit
  committed := fun hb => by
    simp only [hdisk]
    exact h.committed hb

lemma Refines.endOp {f : Flat} (h : Refines L ⟨s, f⟩) (hs : s.step L .endOp = some s') :
    Refines L ⟨s', f.step s .endOp⟩ := by
  simp only [Cache.step] at hs
  split at hs
  next => cases hs
  next hpos =>
    split at hs
    next hlast =>
      have hone : s.outstanding = 1 := by omega
      obtain ⟨hc, hlh, -⟩ := (h.coherent.withOutstanding (s.outstanding - 1)).commit
        h.nodup h.fit hs
      simp only [Flat.step, if_pos hone]
      constructor
      · simpa only [hlh] using hc
      · simp only [hlh, List.nodup_nil]
      · simpa only [hlh, List.length_nil] using L.size_pos
      · exact fun hb => (hc.clean hb List.not_mem_nil).symm
    next hmore =>
      have hone : ¬ s.outstanding = 1 := by omega
      cases hs
      simp only [Flat.step, if_neg hone]
      exact h.of_coherent (h.coherent.withOutstanding _) rfl rfl

lemma Refines.logWrite {f : Flat} (h : Refines L ⟨s, f⟩) (hl : (s.buf i).locked = true)
    (hhome : L.Home (s.buf i).blockno) (hs : s.logWrite L i = some s') :
    Refines L ⟨s', f.step s (.logWrite i)⟩ := by
  have hc := h.coherent.logWrite hl hhome hs
  unfold Cache.logWrite at hs
  split at hs
  next => cases hs
  next hroom =>
    split at hs
    next => cases hs
    next =>
      have hfit := length_absorb_le s.lh (s.buf i).blockno
      cases hs
      refine ⟨hc, absorb_nodup h.nodup _, ?_, ?_⟩
      · have hsize : (s.lh.length : Int) < L.size - 1 := by omega
        show (absorb s.lh (s.buf i).blockno).length < L.size
        omega
      · intro c hcb
        simp only [Flat.step]
        rw [← h.committed hcb]
        split
        next => rfl
        next => rfl

/-- One step of the cache and the log is one step of the flat array. -/
lemma Refines.step (h : Refines L x) (hs : x.step L a = some x') : Refines L x' := by
  obtain ⟨s, f⟩ := x
  unfold Pair.step at hs
  split at hs
  next hd =>
    simp only [Option.map_eq_some_iff] at hs
    obtain ⟨s', hs, rfl⟩ := hs
    cases a with
    | beginOp =>
      simp only [Cache.step] at hs
      split at hs
      next =>
        cases hs
        exact h
      next =>
        cases hs
        exact h.of_coherent (h.coherent.withOutstanding _) rfl rfl
    | endOp => exact h.endOp hs
    | bget b =>
      simp only [Cache.step, Option.map_eq_some_iff] at hs
      obtain ⟨⟨i, s₁⟩, hget, rfl⟩ := hs
      obtain ⟨hdisk, hlh, -⟩ := Cache.bget_keeps hget
      exact h.of_coherent (h.coherent.bget hget) hlh hdisk
    | acquire i b =>
      have hc := (h.coherent.acquire hs).1
      obtain ⟨-, -, rfl⟩ := Cache.acquire_eq hs
      exact h.of_coherent hc rfl rfl
    | modify i v =>
      simp only [Cache.step] at hs
      obtain ⟨hl, rfl⟩ := Lib.of_guard hs
      exact h.of_coherent (h.coherent.modify hl v) rfl rfl
    | logWrite i =>
      simp only [Cache.step] at hs
      split at hs
      next hl => exact h.logWrite hl hd hs
      next => cases hs
    | brelse i =>
      simp only [Cache.step] at hs
      obtain ⟨hl, rfl⟩ := Lib.of_guard hs
      obtain ⟨hi, hv, hdev⟩ := h.coherent.locked hl
      have hheld : Held s i (s.buf i).blockno := ⟨hl, ⟨hdev, rfl⟩, hd⟩
      obtain ⟨hdisk, hlh, -⟩ := s.brelse_keeps i
      exact h.of_coherent (h.coherent.brelse hheld) hlh hdisk
  next => cases hs

lemma Refines.run {d : Disk} {as : List Act}
    (hrun : Lib.run (Pair.step L) (Pair.boot d) as = some x) : Refines L x :=
  Lib.run_induction (P := fun _ => Refines L) hrun (Refines.boot L d)
    fun _ _ _ _ h hs => h.step hs

/-- `bget` gives another block's buffer only when that block has no update
to lose. -/
lemma Refines.recycled (h : Refines L x) {c : Nat} (hs : x.cache.bget b = some (i, s))
    (hc : (x.cache.buf i).Holds c) (hnot : ¬ (s.buf i).Holds c) :
    (x.cache.buf i).dirty = false ∧ (L.Home c → x.flat.logged c = x.flat.committed c) := by
  rcases Cache.bget_cases hs with ⟨-, -, rfl⟩ | ⟨hi, h0, -, rfl⟩
  · -- a cached block keeps its buffer
    exact absurd (by simpa [Buf.Holds] using hc) hnot
  · obtain ⟨hunlocked, -, hunpinned⟩ := h.coherent.free (h.coherent.mem_order.mp hi) h0
    refine ⟨h.coherent.not_dirty hunlocked, fun hhome => ?_⟩
    rw [← h.committed hhome]
    apply h.coherent.clean hhome
    intro hmem
    exact hunpinned ⟨hc.1, by rw [hc.2]; exact hmem⟩

/-- An update that is logged and not committed is in the cache. -/
lemma Refines.uncommitted (h : Refines L x) (hb : L.Home b)
    (hne : x.flat.logged b ≠ x.flat.committed b) :
    ∃ i, i < nbuf ∧ (x.cache.buf i).Holds b ∧
      ((x.cache.buf i).dirty = false → (x.cache.buf i).data = x.flat.logged b) := by
  have hpin : b ∈ x.cache.lh := by
    by_contra hnot
    apply hne
    rw [h.coherent.clean hb hnot, h.committed hb]
  obtain ⟨i, hi, hib, hv⟩ := h.coherent.pinned hpin
  refine ⟨i, hi, hib, fun hd => ?_⟩
  rw [h.coherent.data hi hib hv hd, view_home hb]

/-- `bget` finds a buffer unless all of them are in use. -/
lemma Coherent.bget_isSome (h : Coherent L s V P) (hi : i < nbuf) (h0 : (s.buf i).refcnt = 0) :
    (s.bget b).isSome = true := by
  unfold Cache.bget
  split
  next => rfl
  next =>
    split
    next => rfl
    next hnone =>
      rw [List.find?_eq_none] at hnone
      have := hnone i (by simpa using h.mem_order.mpr hi)
      simp [h0] at this

/-- The cache and the log refine the flat array. In every run of disciplined
callers, over any initial disk: `bread` of a home block returns what was last
logged for it; `bget` takes no buffer that holds an update nobody has committed,
and every such update is cached; and the disk holds the committed contents of
every home block. -/
theorem cache_refines_flat (L : LogArea) (d : Disk) (as : List Act) (x : Pair)
    (hrun : Lib.run (Pair.step L) (Pair.boot d) as = some x) :
    (∀ i b s, L.Home b → x.cache.acquire i b = some s →
      (s.buf i).Holds b ∧ (s.buf i).data = x.flat.logged b) ∧
    (∀ i b c s, x.cache.bget b = some (i, s) → (x.cache.buf i).Holds c → ¬ (s.buf i).Holds c →
      (x.cache.buf i).dirty = false ∧ (L.Home c → x.flat.logged c = x.flat.committed c)) ∧
    (∀ b, L.Home b → x.flat.logged b ≠ x.flat.committed b →
      ∃ i, i < nbuf ∧ (x.cache.buf i).Holds b ∧
        ((x.cache.buf i).dirty = false → (x.cache.buf i).data = x.flat.logged b)) ∧
    (∀ b, L.Home b → x.cache.disk b = x.flat.committed b) ∧
    (∀ i b, i < nbuf → (x.cache.buf i).refcnt = 0 → (x.cache.bget b).isSome = true) := by
  have h : Refines L x := Refines.run hrun
  refine ⟨?_, ?_, ?_, ?_, ?_⟩
  · intro i b s hb hs
    obtain ⟨-, held, hdata⟩ := h.coherent.acquire hs
    exact ⟨held.holds, hdata.trans (view_home hb _ _)⟩
  · exact fun i b c s hs hc hnot => h.recycled hs hc hnot
  · exact fun b hb hne => h.uncommitted hb hne
  · exact fun b hb => h.committed hb
  · exact fun i b hi h0 => h.coherent.bget_isSome hi h0

/-- A block is changed, logged, released and looked up again before the commit. -/
def relookup : List Act :=
  [.beginOp, .bget 40, .acquire 0 40, .modify 0 (Block.zero.setByte 0 7), .logWrite 0, .brelse 0,
    .bget 40]

theorem cache_refines_flat_relookup :
    ∃ x s, Lib.run (Pair.step ⟨2, nlog, by decide⟩) (Pair.boot fun _ => Block.zero) relookup =
        some x ∧ x.cache.acquire 0 40 = some s ∧
      x.flat.logged 40 = Block.zero.setByte 0 7 ∧ (s.buf 0).data = x.flat.logged 40 :=
  ⟨_, _, rfl, rfl, rfl,
    ((cache_refines_flat ⟨2, nlog, by decide⟩ (fun _ => Block.zero) relookup _ rfl).1 0 40 _
      (by decide) rfl).2⟩

end Xv6.Bio
