import Xv6.Bio.List

/-!
# Running out of buffers

The processes of the system over the list of buffers. A process is a reader or
is between `begin_op` and `end_op`; the last one to leave commits. No call holds
more than two buffers at once: `bmap` holds the indirect block while it allocates,
and `commit` holds a log block and its home block. `log_write` pins the buffer of
a block that is new to the transaction, and the commit unpins it.

`begin_op` bounds the pinned blocks and the operations, but nothing bounds the number of
readers, and each of them keeps a buffer while it waits for the disk.
-/

namespace Xv6.Bio

open Finset Function Lib

attribute [local instance] lawfulPair

/-- How many buffers a call holds at once. -/
def maxHeld : Nat := 2

/-- The cache, the log and the processes. -/
structure Sys where
  cache : Bcache
  /-- The process is between `begin_op` and `end_op`. -/
  inOp : Nat → Bool
  /-- `log.lh`. -/
  lh : List Nat
  /-- The process that runs `commit`. -/
  committing : Option Nat
  /-- The calls of `bread` whose `brelse` has not come yet, as process and block. Not in the
  source, and neither is the next one. -/
  asked : List (Nat × Nat)
  /-- The blocks that `log_write` has pinned and `install_trans` has not unpinned. -/
  pinned : List Nat

namespace Sys

/-- The processes between `begin_op` and `end_op`. -/
def ops (s : Sys) : Finset Nat := (range nproc).filter fun p => s.inOp p = true

/-- `log.outstanding`. -/
def outstanding (s : Sys) : Nat := s.ops.card

/-- The processes that have asked for buffers, once for each buffer. -/
def callers (s : Sys) : List Nat := s.asked.map Prod.fst

/-- The blocks that somebody has asked for and not given back, and those of the log. -/
def demands (s : Sys) : List Nat := s.asked.map Prod.snd ++ s.pinned

def demand (s : Sys) : Finset Nat := s.demands.toFinset

/-- The processes with buffers that have no reservation and do not commit. -/
def unreserved (s : Sys) : Finset Nat :=
  s.callers.toFinset.filter fun p => s.inOp p = false ∧ s.committing ≠ some p

/-- What processes do. -/
inductive Action where
  /-- A call wants the buffer of a block. -/
  | bread (p blockno : Nat)
  /-- It gets the buffer's lock. -/
  | acquiresleep (p b : Nat)
  /-- It gives the buffer back. -/
  | releasesleep (p b : Nat)
  | brelse (p b : Nat)
  | beginOp (p : Nat)
  | logWrite (p b : Nat)
  | endOp (p : Nat)
  /-- `install_trans` unpins a buffer. -/
  | install (p b : Nat)
  /-- The last step of `commit`. -/
  | commitEnd (p : Nat)

/-- A process that may call `bread`: it does not wait for a buffer, does not give one back,
and has fewer than a call may have. -/
def CanRead (s : Sys) (p : Nat) : Prop :=
  p < nproc ∧ (∀ w ∈ s.cache.waiting ++ s.cache.releasing, w.1 ≠ p) ∧ s.callers.count p < maxHeld

instance (s : Sys) (p : Nat) : Decidable (s.CanRead p) := inferInstanceAs (Decidable (_ ∧ _ ∧ _))

/-- The processes go on with another cache, if there is one. -/
def onCache (s : Sys) (c : Option Bcache) : Option Sys := c.map fun c => { s with cache := c }

/-- One step, if it is possible. A call of `bread` that panics has none. -/
def step (s : Sys) : Action → Option Sys
  | .bread p blockno =>
    if s.CanRead p then
      { s with asked := (p, blockno) :: s.asked }.onCache (s.cache.step (.bget p rootDev blockno))
    else none
  | .acquiresleep p b => s.onCache (s.cache.step (.acquiresleep p b))
  | .releasesleep p b => s.onCache (s.cache.step (.releasesleep p b))
  | .brelse p b =>
    -- it belongs to a call of `bread`
    let n := (s.cache.buf b).blockno
    if (p, n) ∈ s.asked then
      { s with asked := s.asked.erase (p, n) }.onCache (s.cache.step (.brelse p b))
    else none
  | .beginOp p =>
    if p < nproc ∧ s.inOp p = false ∧ s.committing = none ∧
        s.lh.length + (s.outstanding + 1) * maxOpBlocks ≤ logSize then
      some { s with inOp := update s.inOp p true }
    else none
  | .logWrite p b =>
    if b < nbuf ∧ s.inOp p = true ∧ (s.cache.buf b).lock = some p ∧ s.lh.length < nlog - 1 then
      let n := (s.cache.buf b).blockno
      if n ∈ s.lh then some s
      else { s with lh := s.lh ++ [n], pinned := n :: s.pinned }.onCache (s.cache.step (.bpin b))
    else none
  | .endOp p =>
    if s.inOp p = true then
      let s := { s with inOp := update s.inOp p false }
      some { s with committing := if s.outstanding = 0 then some p else none }
    else none
  | .install p b =>
    let n := (s.cache.buf b).blockno
    if s.committing = some p ∧ n ∈ s.pinned then
      { s with pinned := s.pinned.erase n }.onCache (s.cache.step (.bunpin p b))
    else none
  | .commitEnd p =>
    if s.committing = some p ∧ s.pinned = [] then
      some { s with lh := [], committing := none }
    else none

/-- After `binit`. -/
def init : Sys where
  cache := Bcache.binit
  inOp := fun _ => false
  lh := []
  committing := none
  asked := []
  pinned := []

end Sys

namespace Bcache

/-- Some buffer has the block. -/
def Cached (s : Bcache) (dev blockno : Nat) : Prop :=
  ∃ b, b < nbuf ∧ (s.buf b).dev = dev ∧ (s.buf b).blockno = blockno

variable {s s' : Bcache} {order : List Nat} {a b n p q dev blockno : Nat}

lemma Inv.cached_eq_none (h : Inv s order) :
    s.cached dev blockno = none ↔ ¬ s.Cached dev blockno := by
  constructor
  · rintro hc ⟨b, hb, hhas⟩
    exact h.cached_none hc hb hhas
  · intro hc
    cases hcase : s.cached dev blockno with
    | none => rfl
    | some b => exact absurd ⟨b, h.cached_some hcase⟩ hc

lemma Inv.unused_eq_none (h : Inv s order) :
    s.unused = none ↔ ∀ b, b < nbuf → (s.buf b).refcnt ≠ 0 := by
  simp only [h.unused_eq, List.find?_eq_none, List.mem_reverse, h.mem_iff, decide_eq_true_eq]

/-- `bget` panics when no buffer has the block and all are in use. -/
lemma Inv.bget_eq_none (h : Inv s order) :
    s.bget p dev blockno = none ↔ ¬ s.Cached dev blockno ∧ ∀ b, b < nbuf → (s.buf b).refcnt ≠ 0 := by
  rw [← h.cached_eq_none, ← h.unused_eq_none, Bcache.bget]
  cases s.cached dev blockno with
  | some b => simp
  | none =>
    cases s.unused with
    | some b => simp
    | none => simp

lemma forall_lt_iff_card {n : Nat} {P : Nat → Prop} [DecidablePred P] :
    (∀ b, b < n → P b) ↔ n ≤ ((range n).filter P).card := by
  have hle := card_filter_le (range n) P
  have heq := card_filter_eq_iff (s := range n) (p := P)
  rw [card_range] at hle heq
  simp only [mem_range] at heq
  rw [← heq]
  omega

/-! ## What the processes have asked for -/

/-- Each reference to a buffer is for a demand of its block, and all demands have buffers. -/
structure Tracks (s : Bcache) (D : List Nat) : Prop where
  root : ∀ {b}, b < nbuf → (s.buf b).refcnt ≠ 0 → (s.buf b).dev = rootDev
  refcnt : ∀ {b}, b < nbuf → (s.buf b).dev = rootDev → (s.buf b).refcnt = D.count (s.buf b).blockno
  cached : ∀ {n}, n ∈ D → s.Cached rootDev n

section

variable {D D' : List Nat} {x : Slot}

lemma Inv.refcnt_of_lock (h : Inv s order) (hb : b < nbuf) (hlock : (s.buf b).lock = some p) :
    (s.buf b).refcnt ≠ 0 := by
  intro hzero
  have hnone := (h.idle hb hzero).1
  rw [hlock] at hnone
  cases hnone

lemma Inv.refcnt_of_releasing (h : Inv s order) (hm : (p, b) ∈ s.releasing) :
    (s.buf b).refcnt ≠ 0 := by
  have hpos : 0 < s.releasing.countP fun w => w.2 = b := List.countP_pos_iff.mpr ⟨(p, b), hm, by simp⟩
  rw [h.refs (h.releasing_lt hm), users]
  omega

/-- Two buffers of the root device have different blocks. -/
lemma Inv.block_inj (h : Inv s order) (hb : b < nbuf) (hroot : (s.buf b).dev = rootDev)
    (ha : a < nbuf) (hdev : (s.buf a).dev = rootDev) (he : (s.buf b).blockno = (s.buf a).blockno) :
    b = a :=
  h.unique hb ha (by rw [hroot]; decide) (hroot.trans hdev.symm) he

lemma Tracks.in_use (h : s.Tracks D) (hn : n ∈ D) :
    ∃ b, b < nbuf ∧ (s.buf b).refcnt ≠ 0 ∧ (s.buf b).dev = rootDev ∧ (s.buf b).blockno = n := by
  obtain ⟨b, hb, hdev, rfl⟩ := h.cached hn
  refine ⟨b, hb, ?_, hdev, rfl⟩
  rw [h.refcnt hb hdev]
  exact Nat.ne_of_gt (List.count_pos_iff.mpr hn)

/-- Locks are about nobody's demand. -/
lemma Tracks.setLock {l : Option Nat} (h : s.Tracks D)
    (hbuf : s'.buf = update s.buf b { s.buf b with lock := l }) : s'.Tracks D := by
  have hsame : ∀ a, (s'.buf a).dev = (s.buf a).dev ∧ (s'.buf a).blockno = (s.buf a).blockno ∧
      (s'.buf a).refcnt = (s.buf a).refcnt := by
    intro a
    by_cases hab : a = b
    · simp [hbuf, hab]
    · simp [hbuf, hab]
  refine ⟨fun {a} ha => ?_, fun {a} ha => ?_, fun hn => ?_⟩
  · simp only [hsame]
    exact h.root ha
  · simp only [hsame]
    exact h.refcnt ha
  · obtain ⟨a, ha, hhas⟩ := h.cached hn
    exact ⟨a, ha, by simpa only [hsame] using hhas⟩

/-- The demands of one block change, and so does the number of its references. -/
lemma Tracks.recount (h : s.Tracks D) (hinv : Inv s order) (hb : b < nbuf)
    (hroot : (s.buf b).dev = rootDev) (hbuf : s'.buf = update s.buf b { s.buf b with refcnt := n })
    (hself : n = D'.count (s.buf b).blockno)
    (hother : ∀ m, m ≠ (s.buf b).blockno → D'.count m = D.count m) : s'.Tracks D' := by
  have hother' : ∀ {a}, a < nbuf → a ≠ b → (s.buf a).dev = rootDev →
      D'.count (s.buf a).blockno = D.count (s.buf a).blockno := fun ha hab hdev =>
    hother _ fun he => hab (hinv.block_inj ha hdev hb hroot he)
  refine ⟨fun {a} ha => ?_, fun {a} ha => ?_, fun {m} hm => ?_⟩
  · by_cases hab : a = b
    · simp [hbuf, hab, hroot]
    · simpa [hbuf, hab] using h.root ha
  · by_cases hab : a = b
    · simpa [hbuf, hab] using fun _ => hself
    · simp only [hbuf, update_of_ne hab]
      exact fun hdev => (h.refcnt ha hdev).trans (hother' ha hab hdev).symm
  · by_cases he : m = (s.buf b).blockno
    · exact ⟨b, hb, by simp [hbuf, hroot, he]⟩
    · rw [← List.count_pos_iff, hother m he, List.count_pos_iff] at hm
      obtain ⟨a, ha, hhas⟩ := h.cached hm
      have hab : a ≠ b := by
        rintro rfl
        exact he hhas.2.symm
      exact ⟨a, ha, by simpa [hbuf, hab] using hhas⟩

/-- One demand more for a block that has a buffer. -/
lemma Tracks.more (h : s.Tracks D) (hinv : Inv s order) (hb : b < nbuf)
    (hroot : (s.buf b).dev = rootDev) (hD : D'.Perm ((s.buf b).blockno :: D))
    (hbuf : s'.buf = update s.buf b { s.buf b with refcnt := (s.buf b).refcnt + 1 }) : s'.Tracks D' := by
  refine h.recount hinv hb hroot hbuf ?_ fun m hm => ?_
  · rw [hD.count_eq, List.count_cons_self, h.refcnt hb hroot]
  · rw [hD.count_eq, List.count_cons_of_ne hm.symm]

/-- One demand less. -/
lemma Tracks.less (h : s.Tracks D) (hinv : Inv s order) (hb : b < nbuf)
    (hroot : (s.buf b).dev = rootDev) (hD : D.Perm ((s.buf b).blockno :: D'))
    (hbuf : s'.buf = update s.buf b { s.buf b with refcnt := (s.buf b).refcnt - 1 }) : s'.Tracks D' := by
  refine h.recount hinv hb hroot hbuf ?_ fun m hm => ?_
  · rw [h.refcnt hb hroot, hD.count_eq, List.count_cons_self, Nat.add_sub_cancel]
  · rw [hD.count_eq, List.count_cons_of_ne hm.symm]

/-- A buffer that nobody uses gets a block that no buffer has. -/
lemma Tracks.recycle (h : s.Tracks D) (hn : ¬ s.Cached rootDev n) (hb : b < nbuf)
    (hzero : (s.buf b).refcnt = 0)
    (hbuf : s'.buf = update s.buf b { s.buf b with dev := rootDev, blockno := n, valid := false, refcnt := 1 }) :
    s'.Tracks (n :: D) := by
  refine ⟨fun {a} ha => ?_, fun {a} ha => ?_, fun {m} hm => ?_⟩
  · by_cases hab : a = b
    · simp [hbuf, hab]
    · simpa [hbuf, hab] using h.root ha
  · by_cases hab : a = b
    · have hnew : D.count n = 0 := List.count_eq_zero.mpr fun hm => hn (h.cached hm)
      simp [hbuf, hab, hnew]
    · simp only [hbuf, update_of_ne hab]
      intro hdev
      rw [List.count_cons_of_ne fun he => hn ⟨a, ha, hdev, he.symm⟩, h.refcnt ha hdev]
  · rcases List.mem_cons.mp hm with rfl | hm
    · exact ⟨b, hb, by simp [hbuf]⟩
    · obtain ⟨a, ha, hne, hhas⟩ := h.in_use hm
      have hab : a ≠ b := by
        rintro rfl
        exact hne hzero
      exact ⟨a, ha, by simpa [hbuf, hab] using hhas⟩

lemma Tracks.bget (h : s.Tracks D) (hinv : Inv s order) (hs : s.bget p rootDev n = some s') :
    s'.Tracks (n :: D) := by
  cases hc : s.cached rootDev n with
  | some b =>
    obtain ⟨hb, hdev, rfl⟩ := hinv.cached_some hc
    simp only [Bcache.bget, hc] at hs
    cases hs
    exact h.more hinv hb hdev (List.Perm.refl _) rfl
  | none =>
    obtain ⟨b, hb, hzero, hbuf, -⟩ := hinv.bget_recycles hs fun a ha => hinv.cached_none hc ha
    exact h.recycle (hinv.cached_eq_none.mp hc) hb hzero hbuf

end

lemma bget_waiting (hs : s.bget p dev blockno = some s') :
    ∃ b, s'.waiting = (p, b) :: s.waiting ∧ s'.releasing = s.releasing := by
  unfold Bcache.bget at hs
  split at hs
  next b hc =>
    cases hs
    exact ⟨b, rfl, rfl⟩
  next hc =>
    split at hs
    next b hu =>
      cases hs
      exact ⟨b, rfl, rfl⟩
    next => cases hs

end Bcache

namespace Sys

variable {s s' : Sys} {p blockno : Nat}

/-- What holds after every step. -/
structure Inv (s : Sys) : Prop where
  cache : ∃ order, Bcache.Inv s.cache order
  tracks : s.cache.Tracks s.demands
  callers_lt : ∀ p ∈ s.callers, p < nproc
  callers_le : ∀ p, s.callers.count p ≤ maxHeld
  nodup : s.pinned.Nodup
  logged : s.pinned ⊆ s.lh
  lh_lt : s.lh.length < nlog
  /-- What `begin_op` lets in. -/
  admitted : s.outstanding ≤ logSize / maxOpBlocks
  commit : s.committing ≠ none → s.outstanding = 0

lemma onCache_eq_some {c : Option Bcache} :
    s.onCache c = some s' ↔ ∃ c', c = some c' ∧ s' = { s with cache := c' } := by
  cases c with
  | none => simp [onCache]
  | some c => simp [onCache, eq_comm]

lemma Inv.bread (h : s.Inv) (hp : s.CanRead p) {c : Bcache} (hc : s.cache.bget p rootDev blockno = some c) :
    Inv { s with cache := c, asked := (p, blockno) :: s.asked } := by
  obtain ⟨order, hcache⟩ := h.cache
  refine { h with
    cache := ⟨order, hcache.bget hc⟩
    tracks := h.tracks.bget hcache hc
    callers_lt := ?_
    callers_le := fun q => ?_ }
  · simp only [callers, List.map_cons, List.mem_cons]
    rintro q (rfl | hq)
    · exact hp.1
    · exact h.callers_lt q hq
  · have hle := h.callers_le q
    simp only [callers, List.map_cons, List.count_cons, beq_iff_eq] at hle ⊢
    split
    next he => exact he ▸ hp.2.2
    next => exact hle

lemma brelse_buf (s : Bcache) (p b : Nat) :
    (s.brelse p b).buf = update s.buf b { s.buf b with refcnt := (s.buf b).refcnt - 1 } := by
  unfold Bcache.brelse
  dsimp only
  split <;> rfl

lemma Inv.brelse {b : Nat} (h : s.Inv) (hm : (p, b) ∈ s.cache.releasing)
    (hasked : (p, (s.cache.buf b).blockno) ∈ s.asked) :
    Inv { s with cache := s.cache.brelse p b, asked := s.asked.erase (p, (s.cache.buf b).blockno) } := by
  obtain ⟨order, hcache⟩ := h.cache
  have hb := hcache.releasing_lt hm
  have hsub : ((s.asked.erase (p, (s.cache.buf b).blockno)).map Prod.fst).Sublist s.callers :=
    List.erase_sublist.map Prod.fst
  exact { h with
    cache := hcache.brelse hm
    tracks := h.tracks.less hcache hb (h.tracks.root hb (hcache.refcnt_of_releasing hm))
      (((List.perm_cons_erase hasked).map Prod.snd).append_right s.pinned) (brelse_buf s.cache p b)
    callers_lt := fun q hq => h.callers_lt q (hsub.subset hq)
    callers_le := fun q => (hsub.count_le q).trans (h.callers_le q) }

lemma Inv.logWrite {b : Nat} (h : s.Inv) (hb : b < nbuf) (hlock : (s.cache.buf b).lock = some p)
    (hlen : s.lh.length < nlog - 1) (hnew : (s.cache.buf b).blockno ∉ s.lh) {c : Bcache}
    (hc : s.cache.step (.bpin b) = some c) :
    Inv { s with
      cache := c
      lh := s.lh ++ [(s.cache.buf b).blockno]
      pinned := (s.cache.buf b).blockno :: s.pinned } := by
  obtain ⟨order, hcache⟩ := h.cache
  have hroot := h.tracks.root hb (hcache.refcnt_of_lock hb hlock)
  obtain ⟨-, hc'⟩ := Option.ite_none_right_eq_some.mp hc
  refine { h with
    cache := hcache.step hc
    tracks := h.tracks.more hcache hb hroot List.perm_middle (by rw [← Option.some.inj hc']; rfl)
    nodup := List.nodup_cons.mpr ⟨fun hm => hnew (h.logged hm), h.nodup⟩
    logged := ?_
    lh_lt := ?_ }
  · exact List.cons_subset.mpr ⟨by simp, fun n hn => List.mem_append_left _ (h.logged hn)⟩
  · rw [List.length_append, List.length_singleton]
    omega

lemma Inv.step {x : Action} (h : s.Inv) (hs : s.step x = some s') : s'.Inv := by
  obtain ⟨order, hcache⟩ := h.cache
  cases x with
  | bread p blockno =>
    obtain ⟨hp, hs⟩ := Option.ite_none_right_eq_some.mp hs
    obtain ⟨c, hc, rfl⟩ := onCache_eq_some.mp hs
    exact h.bread hp hc
  | acquiresleep p b | releasesleep p b =>
    obtain ⟨c, hc, rfl⟩ := onCache_eq_some.mp hs
    obtain ⟨-, hc'⟩ := Option.ite_none_right_eq_some.mp hc
    exact { h with
      cache := hcache.step hc
      tracks := h.tracks.setLock (by rw [← Option.some.inj hc']; rfl) }
  | brelse p b =>
    obtain ⟨hasked, hs⟩ := Option.ite_none_right_eq_some.mp hs
    obtain ⟨c, hc, rfl⟩ := onCache_eq_some.mp hs
    obtain ⟨hm, hc⟩ := Option.ite_none_right_eq_some.mp hc
    cases hc
    exact h.brelse hm hasked
  | beginOp p =>
    obtain ⟨⟨-, -, hcommit, hroom⟩, hs⟩ := Option.ite_none_right_eq_some.mp hs
    cases hs
    refine { h with admitted := ?_, commit := fun hne => absurd hcommit hne }
    have hsub : ops { s with inOp := update s.inOp p true } ⊆ insert p s.ops := by
      intro q
      simp only [ops, mem_filter, mem_insert]
      by_cases hq : q = p
      · exact fun _ => .inl hq
      · rw [update_of_ne hq]
        exact .inr
    have hcard := (card_le_card hsub).trans (card_insert_le p s.ops)
    change (ops _).card ≤ _
    rw [outstanding] at hroom
    rw [Nat.le_div_iff_mul_le (by decide)]
    exact (Nat.mul_le_mul_right _ hcard).trans (by omega)
  | endOp p =>
    obtain ⟨-, hs⟩ := Option.ite_none_right_eq_some.mp hs
    cases hs
    refine { h with admitted := ?_, commit := fun hne => ?_ }
    · refine le_trans (card_le_card fun q => ?_) h.admitted
      simp only [ops, mem_filter]
      by_cases hq : q = p
      · simp [hq]
      · rw [update_of_ne hq]
        exact id
    · by_contra hpos
      exact hne (if_neg hpos)
  | logWrite p b =>
    obtain ⟨⟨hb, -, hlock, hlen⟩, hs⟩ := Option.ite_none_right_eq_some.mp hs
    split at hs
    next =>
      cases hs
      exact h
    next hnew =>
      obtain ⟨c, hc, rfl⟩ := onCache_eq_some.mp hs
      exact h.logWrite hb hlock hlen hnew hc
  | install p b =>
    obtain ⟨⟨-, hpinned⟩, hs⟩ := Option.ite_none_right_eq_some.mp hs
    obtain ⟨c, hc, rfl⟩ := onCache_eq_some.mp hs
    obtain ⟨⟨hb, hlock, -⟩, hc'⟩ := Option.ite_none_right_eq_some.mp hc
    exact { h with
      cache := hcache.step hc
      tracks := h.tracks.less hcache hb (h.tracks.root hb (hcache.refcnt_of_lock hb hlock))
        (((List.perm_cons_erase hpinned).append_left _).trans List.perm_middle)
        (by rw [← Option.some.inj hc']; rfl)
      nodup := h.nodup.erase _
      logged := fun n hn => h.logged (List.mem_of_mem_erase hn) }
  | commitEnd p =>
    obtain ⟨⟨-, hnone⟩, hs⟩ := Option.ite_none_right_eq_some.mp hs
    cases hs
    exact { h with logged := by simp [hnone], lh_lt := Nat.zero_lt_succ _, commit := nofun }

lemma Inv.init : init.Inv where
  cache := ⟨_, Bcache.Inv.binit⟩
  tracks := ⟨fun _ hne => absurd rfl hne, fun _ _ => rfl, nofun⟩
  callers_lt := nofun
  callers_le := fun _ => Nat.zero_le _
  nodup := List.nodup_nil
  logged := List.nil_subset _
  lh_lt := by decide
  admitted := by decide
  commit := fun hne => absurd rfl hne

lemma run_inv {as : List Action} (hrun : run step init as = some s) : s.Inv :=
  run_induction (P := fun _ s => s.Inv) hrun Inv.init fun _ _ _ _ h hs => h.step hs

lemma step_bread_eq_none (hp : s.CanRead p) :
    s.step (.bread p blockno) = none ↔ s.cache.bget p rootDev blockno = none := by
  simp [step, onCache, Bcache.step, hp]

/-- The blocks in demand are those of the buffers in use. -/
lemma Inv.mem_demand (h : s.Inv) {n : Nat} :
    n ∈ s.demand ↔ ∃ b, b < nbuf ∧ (s.cache.buf b).refcnt ≠ 0 ∧ (s.cache.buf b).blockno = n := by
  rw [demand, List.mem_toFinset]
  constructor
  · intro hn
    obtain ⟨b, hb, hne, -, hblockno⟩ := h.tracks.in_use hn
    exact ⟨b, hb, hne, hblockno⟩
  · rintro ⟨b, hb, hne, rfl⟩
    rw [h.tracks.refcnt hb (h.tracks.root hb hne)] at hne
    exact List.count_pos_iff.mp (Nat.pos_of_ne_zero hne)

/-- All buffers are in use when as many blocks are in demand. -/
lemma Inv.all_used_iff (h : s.Inv) :
    (∀ b, b < nbuf → (s.cache.buf b).refcnt ≠ 0) ↔ nbuf ≤ s.demand.card := by
  obtain ⟨order, hcache⟩ := h.cache
  have himage : s.demand =
      ((range nbuf).filter fun b => (s.cache.buf b).refcnt ≠ 0).image fun b => (s.cache.buf b).blockno := by
    ext n
    simp only [h.mem_demand, mem_image, mem_filter, mem_range, and_assoc]
  rw [himage, card_image_of_injOn, Bcache.forall_lt_iff_card]
  intro a ha b hb
  simp only [coe_filter, mem_range, Set.mem_ofPred_eq] at ha hb
  exact hcache.block_inj ha.1 (h.tracks.root ha.1 ha.2) hb.1 (h.tracks.root hb.1 hb.2)

/-- What the limits of the kernel give. -/
lemma Inv.demand_le (h : s.Inv) :
    s.demand.card ≤ maxHeld * (s.unreserved.card + logSize / maxOpBlocks) + s.lh.length := by
  have hasked : s.asked.length ≤ maxHeld * s.callers.toFinset.card := by
    rw [← List.length_map (f := Prod.fst), ← List.sum_toFinset_count_eq_length, Nat.mul_comm]
    exact sum_le_card_nsmul _ _ _ fun p _ => h.callers_le p
  have hpinned : s.pinned.length ≤ s.lh.length := (h.nodup.subperm h.logged).length_le
  have hsplit : s.callers.toFinset ⊆ s.unreserved ∪ (s.ops ∪ s.committing.toFinset) := by
    intro p hp
    by_cases hop : s.inOp p = true
    · have hlt := h.callers_lt p (List.mem_toFinset.mp hp)
      simp [ops, hop, hlt]
    · by_cases hcommit : s.committing = some p
      · simp [hcommit]
      · simp [unreserved, hp, hop, hcommit]
  -- nobody is between `begin_op` and `end_op` during a commit
  have hops : (s.ops ∪ s.committing.toFinset).card ≤ logSize / maxOpBlocks := by
    cases hc : s.committing with
    | none => simpa [outstanding] using h.admitted
    | some p =>
      have hzero := card_eq_zero.mp (h.commit (by simp [hc]))
      rw [hzero, Option.toFinset_some, empty_union, card_singleton]
      decide
  calc s.demand.card ≤ s.asked.length + s.pinned.length := by
        refine (List.toFinset_card_le _).trans (le_of_eq ?_)
        rw [demands, List.length_append, List.length_map]
    _ ≤ maxHeld * (s.unreserved.card + logSize / maxOpBlocks) + s.lh.length := by
        refine Nat.add_le_add (hasked.trans (Nat.mul_le_mul_left _ ?_)) hpinned
        exact (card_le_card hsplit).trans ((card_union_le _ _).trans (Nat.add_le_add_left hops _))

/-- A call of `bread` panics when its block is not in demand and all buffers are in use. -/
lemma Inv.bread_eq_none (h : s.Inv) (hp : s.CanRead p) :
    s.step (.bread p blockno) = none ↔ blockno ∉ s.demand ∧ nbuf ≤ s.demand.card := by
  obtain ⟨order, hcache⟩ := h.cache
  rw [step_bread_eq_none hp, hcache.bget_eq_none, ← h.all_used_iff]
  refine and_congr_left fun hall => not_congr ⟨?_, fun hn => h.tracks.cached (List.mem_toFinset.mp hn)⟩
  rintro ⟨b, hb, -, hblockno⟩
  exact h.mem_demand.mpr ⟨b, hb, hall b hb, hblockno⟩

/-- In every run, a call of `bread` panics exactly when its block is not in demand and as many
others are as there are buffers. `begin_op` lets three operations in and `log_write` bounds the
log, and each process has two buffers at most, but up to `NPROC` processes may read. -/
theorem bread_panics_iff {as : List Action} (hrun : run step init as = some s)
    (hp : s.CanRead p) (blockno : Nat) :
    (s.step (.bread p blockno) = none ↔ blockno ∉ s.demand ∧ nbuf ≤ s.demand.card) ∧
      s.demand.card ≤ maxHeld * (s.unreserved.card + logSize / maxOpBlocks) + s.lh.length ∧
      s.lh.length < nlog ∧ s.unreserved.card ≤ nproc := by
  have h := run_inv hrun
  refine ⟨h.bread_eq_none hp, h.demand_le, h.lh_lt, ?_⟩
  rw [← card_range nproc]
  refine card_le_card fun p hm => mem_range.mpr (h.callers_lt p ?_)
  exact List.mem_toFinset.mp (mem_filter.mp hm).1

/-! ## Readers only

Process `p` reads block `100 + p` of some file, and waits for the disk. -/

/-- The first `n` processes call `bread`. -/
def readers (n : Nat) : List Action := (List.range n).map fun p => .bread p (100 + p)

/-- What holds after `n` processes called `bread`, with `u` blocks in demand. -/
structure Reading (n u : Nat) (s : Sys) : Prop where
  waiting : ∀ w ∈ s.cache.waiting ++ s.cache.releasing, w.1 < n
  callers : ∀ p ∈ s.callers, p < n
  blocks : ∀ m ∈ s.demand, m < 100 + n
  card : s.demand.card = u

lemma Reading.canRead {n u : Nat} (h : Reading n u s) (hn : n < nproc) : s.CanRead n := by
  refine ⟨hn, fun w hw => Nat.ne_of_lt (h.waiting w hw), ?_⟩
  rw [List.count_eq_zero.mpr fun hm => Nat.lt_irrefl n (h.callers n hm)]
  decide

lemma Reading.new {n u : Nat} (h : Reading n u s) : 100 + n ∉ s.demand := fun hm =>
  Nat.lt_irrefl _ (h.blocks _ hm)

/-- One more reader gets a buffer. -/
lemma Reading.bread {n u : Nat} (h : Reading n u s) (hinv : s.Inv) (hn : n < nproc) (hu : u < nbuf) :
    ∃ s', s.step (.bread n (100 + n)) = some s' ∧ Reading (n + 1) (u + 1) s' := by
  cases hs : s.step (.bread n (100 + n)) with
  | none =>
    obtain ⟨-, hfull⟩ := (hinv.bread_eq_none (h.canRead hn)).mp hs
    rw [h.card] at hfull
    omega
  | some s' =>
    obtain ⟨-, hs⟩ := Option.ite_none_right_eq_some.mp hs
    obtain ⟨c, hget, rfl⟩ := onCache_eq_some.mp hs
    obtain ⟨b, hwaiting, hreleasing⟩ := Bcache.bget_waiting hget
    have hdemand : demand { s with cache := c, asked := (n, 100 + n) :: s.asked } =
        insert (100 + n) s.demand := by simp [demand, demands]
    refine ⟨_, rfl, ?_, ?_, ?_, ?_⟩
    · simp only [hwaiting, hreleasing, List.cons_append, List.mem_cons]
      rintro w (rfl | hw)
      · exact Nat.lt_succ_self n
      · exact Nat.lt_succ_of_lt (h.waiting w hw)
    · simp only [Sys.callers, List.map_cons, List.mem_cons]
      rintro p (rfl | hp)
      · exact Nat.lt_succ_self p
      · exact Nat.lt_succ_of_lt (h.callers p hp)
    · rw [hdemand, forall_mem_insert]
      exact ⟨Nat.lt_succ_self _, fun m hm => Nat.lt_succ_of_lt (h.blocks m hm)⟩
    · rw [hdemand, card_insert_of_notMem h.new, h.card]

lemma readers_run {as : List Action} {s₀ : Sys} {u : Nat} (hrun₀ : run step init as = some s₀)
    (h₀ : Reading 0 u s₀) : ∀ n, u + n ≤ nbuf →
      ∃ s, run step init (as ++ readers n) = some s ∧ Reading n (u + n) s
  | 0, _ => ⟨s₀, by rwa [readers, List.range_zero, List.map_nil, List.append_nil], h₀⟩
  | n + 1, hn => by
    obtain ⟨s, hrun, h⟩ := readers_run hrun₀ h₀ n (Nat.le_of_succ_le hn)
    obtain ⟨s', hs, h'⟩ := h.bread (run_inv hrun)
      (lt_of_lt_of_le (lt_of_le_of_lt (Nat.le_add_left n u) hn) (by decide)) hn
    refine ⟨s', ?_, h'⟩
    rw [readers, List.range_succ, List.map_append, ← List.append_assoc]
    exact run_concat.mpr ⟨s, hrun, hs⟩

/-- With all buffers in use, the next reader panics. -/
lemma Reading.panics {n : Nat} (h : Reading n nbuf s) (hinv : s.Inv) (hn : n < nproc) :
    s.CanRead n ∧ s.step (.bread n (100 + n)) = none :=
  ⟨h.canRead hn, (hinv.bread_eq_none (h.canRead hn)).mpr ⟨h.new, h.card.ge⟩⟩

lemma reading_init : Reading 0 0 init := ⟨nofun, nofun, nofun, rfl⟩

/-- One process more than there are buffers, and each of them may call `bread`. -/
theorem readers_panic : ∃ s, run step init (readers nbuf) = some s ∧ s.CanRead nbuf ∧
    s.step (.bread nbuf (100 + nbuf)) = none := by
  obtain ⟨s, hrun, h⟩ := @readers_run [] _ _ rfl reading_init nbuf (by decide)
  rw [Nat.zero_add] at h
  exact ⟨s, hrun, h.panics (run_inv hrun) (by decide)⟩

/-- An operation logs block 50 and gives the buffer back, which stays pinned. -/
def logsOne : List Action :=
  [.beginOp 63, .bread 63 50, .acquiresleep 63 0, .logWrite 63 0, .releasesleep 63 0, .brelse 63 0]

lemma reading_logsOne : ∃ s, run step init logsOne = some s ∧ Reading 0 1 s := by
  obtain ⟨s, hs, he⟩ := Option.map_eq_some_iff.mp
    (by decide +kernel : (run step init logsOne).map (fun s =>
      (s.cache.waiting ++ s.cache.releasing, s.callers, s.demands)) = some ([], [], [50]))
  simp only [Prod.mk.injEq] at he
  obtain ⟨hwaiting, hcallers, hdemands⟩ := he
  exact ⟨s, hs, by rw [hwaiting]; nofun, by rw [hcallers]; nofun, by simp [demand, hdemands],
    by rw [demand, hdemands]; rfl⟩

/-- The pinned block and 29 readers. -/
theorem bread_panics_iff_logsOne : ∃ s, run step init (logsOne ++ readers 29) = some s ∧ s.CanRead 29 ∧
    129 ∉ s.demand ∧ nbuf ≤ s.demand.card ∧ nbuf ≤ maxHeld * (s.unreserved.card + 3) + s.lh.length := by
  obtain ⟨s₀, hrun₀, h₀⟩ := reading_logsOne
  obtain ⟨s, hrun, h⟩ := readers_run hrun₀ h₀ 29 (by decide)
  obtain ⟨hp, hnone⟩ := h.panics (run_inv hrun) (by decide)
  obtain ⟨hiff, hle, -⟩ := bread_panics_iff hrun hp 129
  obtain ⟨hnew, hfull⟩ := hiff.mp hnone
  exact ⟨s, hrun, hp, hnew, hfull, hfull.trans hle⟩

end Sys

end Xv6.Bio
