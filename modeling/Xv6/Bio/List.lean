import Xv6.Lib.Circle
import Xv6.Lib.Count
import Xv6.Lib.Run
import Xv6.Param

/-!
# The list of buffers

`binit`, `bget`, `brelse`, `bpin` and `bunpin` of `kernel/bio.c` with the pointers
of the list from `bcache.head`. A pointer to a buffer is its index in
`bcache.buf`, and `&bcache.head` is the index after the last one. What runs
under `bcache.lock` is one step. `acquiresleep` at the end of `bget` is a step
of its own, and so is `releasesleep` at the start of `brelse`.

The fields `pins`, `clock` and `stamp` are not in the source. They count the
pins of a buffer that are not undone yet, the calls of `brelse` that left a
buffer unused, and the number of the last such call for each buffer.
-/

namespace Xv6.Bio

open Function Lib List

/-- Pairs are looked up in lists. -/
lemma lawfulPair : LawfulBEq (Nat × Nat) := inferInstance

attribute [local instance] lawfulPair

/-- What `struct buf` has besides its data and its pointers. -/
structure Slot where
  valid : Bool
  dev : Nat
  blockno : Nat
  refcnt : Nat
  /-- The holder of the sleep-lock. -/
  lock : Option Nat

/-- `bcache`, and the processes that use it. -/
structure Bcache where
  links : Links Nat
  buf : Nat → Slot
  /-- Processes in `acquiresleep` at the end of `bget`, and the buffer. -/
  waiting : List (Nat × Nat)
  /-- Processes in `brelse` after `releasesleep`, and the buffer. -/
  releasing : List (Nat × Nat)
  pins : Nat → Nat
  clock : Nat
  stamp : Nat → Nat

/-- `&bcache.head`. -/
def head : Nat := nbuf

namespace Bcache

/-- Replace one buffer. -/
def set (s : Bcache) (b : Nat) (x : Slot) : Bcache := { s with buf := update s.buf b x }

/-- The loop of `binit`, with `n` buffers inserted. -/
def initLinks : Nat → Links Nat
  | 0 => { next := fun _ => head, prev := fun _ => head }
  | n + 1 => (initLinks n).insertAfter head n

/-- `binit`: no buffer is in use. -/
def binit : Bcache where
  links := initLinks nbuf
  buf := fun _ => { valid := false, dev := 0, blockno := 0, refcnt := 0, lock := none }
  waiting := []
  releasing := []
  pins := fun _ => 0
  clock := 0
  stamp := fun _ => 0

/-- The first loop of `bget`: the buffer that has the block. -/
def cached (s : Bcache) (dev blockno : Nat) : Option Nat :=
  search s.links.next head (fun b => (s.buf b).dev = dev ∧ (s.buf b).blockno = blockno)
    (nbuf + 1) (s.links.next head)

/-- The second loop of `bget`: an unused buffer, from the end of the list. -/
def unused (s : Bcache) : Option Nat :=
  search s.links.prev head (fun b => (s.buf b).refcnt = 0) (nbuf + 1) (s.links.prev head)

/-- `bget` up to `acquiresleep`. `none` is its panic. -/
def bget (s : Bcache) (p dev blockno : Nat) : Option Bcache :=
  match s.cached dev blockno with
  | some b =>
    some { s.set b { s.buf b with refcnt := (s.buf b).refcnt + 1 } with
           waiting := (p, b) :: s.waiting }
  | none => match s.unused with
    | some b =>
      some { s.set b { s.buf b with dev := dev, blockno := blockno, valid := false, refcnt := 1 } with
             waiting := (p, b) :: s.waiting }
    | none => none

/-- `brelse` after `releasesleep`. -/
def brelse (s : Bcache) (p b : Nat) : Bcache :=
  let s := { s.set b { s.buf b with refcnt := (s.buf b).refcnt - 1 } with
             releasing := s.releasing.erase (p, b) }
  if (s.buf b).refcnt = 0 then
    { s with links := (s.links.unlink b).insertAfter head b
             clock := s.clock + 1
             stamp := update s.stamp b (s.clock + 1) }
  else s

/-- What processes do. -/
inductive Action where
  | bget (p dev blockno : Nat)
  /-- A process gets the sleep-lock it waits for. -/
  | acquiresleep (p b : Nat)
  /-- The holder of a buffer starts `brelse`. -/
  | releasesleep (p b : Nat)
  | brelse (p b : Nat)
  | bpin (b : Nat)
  | bunpin (p b : Nat)

/-- One step, if it is possible. -/
def step (s : Bcache) : Action → Option Bcache
  | .bget p dev blockno => s.bget p dev blockno
  | .acquiresleep p b =>
    if (p, b) ∈ s.waiting ∧ (s.buf b).lock = none then
      some { s.set b { s.buf b with lock := some p } with waiting := s.waiting.erase (p, b) }
    else none
  | .releasesleep p b =>
    if b < nbuf ∧ (s.buf b).lock = some p then
      some { s.set b { s.buf b with lock := none } with releasing := (p, b) :: s.releasing }
    else none
  | .brelse p b => if (p, b) ∈ s.releasing then some (s.brelse p b) else none
  | .bpin b =>
    if b < nbuf then
      some { s.set b { s.buf b with refcnt := (s.buf b).refcnt + 1 } with
             pins := update s.pins b (s.pins b + 1) }
    else none
  | .bunpin p b =>
    -- an unpin belongs to a pin, and its caller holds the buffer
    if b < nbuf ∧ (s.buf b).lock = some p ∧ 0 < s.pins b then
      some { s.set b { s.buf b with refcnt := (s.buf b).refcnt - 1 } with
             pins := update s.pins b (s.pins b - 1) }
    else none

/-! ## The invariant -/

/-- How many processes and pins refer to buffer `b`. -/
def users (s : Bcache) (b : Nat) : Nat :=
  s.waiting.countP (fun w => w.2 = b) + (if (s.buf b).lock = none then 0 else 1) +
    s.releasing.countP (fun w => w.2 = b) + s.pins b

/-- Buffer `a` was left unused after `b`, or both never were. -/
def Later (s : Bcache) (a b : Nat) : Prop := s.stamp b < s.stamp a ∨ s.stamp a = 0 ∧ s.stamp b = 0

/-- What holds after every step, with the buffers in the order of the list. -/
structure Inv (s : Bcache) (order : List Nat) : Prop where
  circle : s.links.Circle head order
  perm : order.Perm (range nbuf)
  refs : ∀ {b}, b < nbuf → (s.buf b).refcnt = s.users b
  waiting_lt : ∀ {p b}, (p, b) ∈ s.waiting → b < nbuf
  releasing_lt : ∀ {p b}, (p, b) ∈ s.releasing → b < nbuf
  /-- No two buffers have the same block of a device. -/
  unique : ∀ {a b}, a < nbuf → b < nbuf → 1 ≤ (s.buf a).dev → (s.buf a).dev = (s.buf b).dev →
    (s.buf a).blockno = (s.buf b).blockno → a = b
  sorted : order.Pairwise s.Later
  stamp_le : ∀ b, s.stamp b ≤ s.clock

variable {s s' : Bcache} {order : List Nat} {a b p dev blockno : Nat}

lemma Inv.mem_iff (h : Inv s order) : b ∈ order ↔ b < nbuf := by
  rw [h.perm.mem_iff, mem_range]

lemma Inv.length (h : Inv s order) : order.length = nbuf := by
  rw [h.perm.length_eq, length_range]

lemma Inv.cached_eq (h : Inv s order) : s.cached dev blockno =
    order.find? fun b => (s.buf b).dev = dev ∧ (s.buf b).blockno = blockno :=
  h.circle.search_next (by rw [h.length]; exact Nat.lt_succ_self nbuf)

lemma Inv.unused_eq (h : Inv s order) :
    s.unused = order.reverse.find? fun b => (s.buf b).refcnt = 0 :=
  h.circle.search_prev (by rw [h.length]; exact Nat.lt_succ_self nbuf)

lemma Inv.cached_some (h : Inv s order) (hc : s.cached dev blockno = some b) :
    b < nbuf ∧ (s.buf b).dev = dev ∧ (s.buf b).blockno = blockno := by
  rw [h.cached_eq] at hc
  exact ⟨h.mem_iff.mp (mem_of_find?_eq_some hc), by simpa using find?_some hc⟩

lemma Inv.cached_none (h : Inv s order) (hc : s.cached dev blockno = none) (hb : b < nbuf) :
    ¬ ((s.buf b).dev = dev ∧ (s.buf b).blockno = blockno) := by
  rw [h.cached_eq, find?_eq_none] at hc
  simpa using hc b (h.mem_iff.mpr hb)

/-- The buffer that `bget` recycles was left unused before all others. -/
lemma Inv.unused_some (h : Inv s order) (hu : s.unused = some b) :
    b < nbuf ∧ (s.buf b).refcnt = 0 ∧
      ∀ a, a < nbuf → a ≠ b → (s.buf a).refcnt = 0 → s.Later a b := by
  rw [h.unused_eq] at hu
  have href : (s.buf b).refcnt = 0 := by simpa using find?_some hu
  have hmem : b ∈ order := by simpa using mem_of_find?_eq_some hu
  refine ⟨h.mem_iff.mp hmem, href, fun a ha hne hzero => ?_⟩
  -- the nodes after `b` in the list are in use
  obtain ⟨-, zs, ys, hsplit, hnone⟩ := find?_eq_some_iff_append.mp hu
  have horder : order = ys.reverse ++ b :: zs.reverse := by
    rw [← reverse_reverse order, hsplit]
    simp
  have ha' := h.mem_iff.mpr ha
  have hsorted := h.sorted
  rw [horder] at ha' hsorted
  rcases mem_append.mp ha' with hleft | hright
  · exact (pairwise_append.mp hsorted).2.2 a hleft b (by simp)
  · rcases mem_cons.mp hright with rfl | hright
    · exact absurd rfl hne
    · have := hnone a (mem_reverse.mp hright)
      simp [hzero] at this

/-! ## The steps -/

/-- A buffer changes its number of users, and nothing else that the invariant speaks of. -/
lemma Inv.recount {x : Slot} {w r : List (Nat × Nat)} {pins : Nat → Nat} (h : Inv s order)
    (hdev : x.dev = (s.buf b).dev) (hblockno : x.blockno = (s.buf b).blockno)
    (hw : ∀ {p b}, (p, b) ∈ w → b < nbuf) (hr : ∀ {p b}, (p, b) ∈ r → b < nbuf)
    (hself : b < nbuf → x.refcnt = w.countP (fun w => w.2 = b) + (if x.lock = none then 0 else 1) +
      r.countP (fun w => w.2 = b) + pins b)
    (hother : ∀ a, a ≠ b → w.countP (fun w => w.2 = a) = s.waiting.countP (fun w => w.2 = a) ∧
      r.countP (fun w => w.2 = a) = s.releasing.countP (fun w => w.2 = a) ∧ pins a = s.pins a) :
    Inv { s.set b x with waiting := w, releasing := r, pins := pins } order where
  circle := h.circle
  perm := h.perm
  refs := fun {a} ha => by
    by_cases he : a = b
    · subst he
      simp only [users, set, update_self]
      exact hself ha
    · obtain ⟨h₁, h₂, h₃⟩ := hother a he
      simp only [users, set, update_of_ne he, h₁, h₂, h₃]
      exact h.refs ha
  waiting_lt := hw
  releasing_lt := hr
  unique := by
    have hsame : ∀ a, (update s.buf b x a).dev = (s.buf a).dev ∧
        (update s.buf b x a).blockno = (s.buf a).blockno := by
      intro a
      by_cases he : a = b
      · rw [he, update_self]
        exact ⟨hdev, hblockno⟩
      · rw [update_of_ne he]
        exact ⟨rfl, rfl⟩
    intro a c ha hc
    simp only [set, hsame]
    exact h.unique ha hc
  sorted := h.sorted
  stamp_le := h.stamp_le

/-- A buffer gets a block that no buffer has. -/
lemma Inv.rename {x : Slot} (h : Inv s order) (hlock : x.lock = (s.buf b).lock)
    (hrefcnt : x.refcnt = (s.buf b).refcnt)
    (hnew : ∀ a, a < nbuf → ¬ ((s.buf a).dev = x.dev ∧ (s.buf a).blockno = x.blockno)) :
    Inv (s.set b x) order where
  circle := h.circle
  perm := h.perm
  refs := fun {a} ha => by
    by_cases he : a = b
    · subst he
      simp only [users, set, update_self, hlock, hrefcnt]
      exact h.refs ha
    · simp only [users, set, update_of_ne he]
      exact h.refs ha
  waiting_lt := h.waiting_lt
  releasing_lt := h.releasing_lt
  unique := by
    intro a c ha hc hpos hdev hblockno
    simp only [set] at hpos hdev hblockno
    by_cases hab : a = b <;> by_cases hcb : c = b
    · rw [hab, hcb]
    · rw [hab, update_self, update_of_ne hcb] at hdev hblockno
      exact absurd ⟨hdev.symm, hblockno.symm⟩ (hnew c hc)
    · rw [hcb, update_self, update_of_ne hab] at hdev hblockno
      exact absurd ⟨hdev, hblockno⟩ (hnew a ha)
    · rw [update_of_ne hab] at hpos hdev hblockno
      rw [update_of_ne hcb] at hdev hblockno
      exact h.unique ha hc hpos hdev hblockno
  sorted := h.sorted
  stamp_le := h.stamp_le

lemma Inv.wait (h : Inv s order) (hb : b < nbuf) (p : Nat) :
    Inv { s.set b { s.buf b with refcnt := (s.buf b).refcnt + 1 } with
          waiting := (p, b) :: s.waiting } order := by
  refine h.recount rfl rfl (fun hm => ?_) h.releasing_lt (fun _ => ?_) fun a hne => ⟨?_, rfl, rfl⟩
  · rcases mem_cons.mp hm with he | hm
    · cases he
      exact hb
    · exact h.waiting_lt hm
  · have hrefs := h.refs hb
    rw [users] at hrefs
    rw [countP_cons_of_pos (by simp)]
    dsimp only [set]
    omega
  · rw [countP_cons_of_neg (by simpa using hne.symm)]

lemma Inv.bget (h : Inv s order) (hs : s.bget p dev blockno = some s') : Inv s' order := by
  unfold Bcache.bget at hs
  split at hs
  next b hc =>
    cases hs
    exact h.wait (h.cached_some hc).1 p
  next hc =>
    split at hs
    next b hu =>
      cases hs
      obtain ⟨hb, hzero, -⟩ := h.unused_some hu
      have h₁ := h.rename (b := b)
        (x := { s.buf b with dev := dev, blockno := blockno, valid := false }) rfl rfl
        fun a ha => h.cached_none hc ha
      have h₂ := h₁.wait hb p
      simpa [set, update_idem, hzero] using h₂
    next => cases hs

lemma Inv.acquiresleep (h : Inv s order) (hm : (p, b) ∈ s.waiting) (hlock : (s.buf b).lock = none) :
    Inv { s.set b { s.buf b with lock := some p } with waiting := s.waiting.erase (p, b) } order := by
  have hb := h.waiting_lt hm
  refine h.recount rfl rfl (fun hm' => h.waiting_lt (mem_of_mem_erase hm')) h.releasing_lt
    (fun _ => ?_) fun a hne => ⟨countP_erase_other hne, rfl, rfl⟩
  have hcount := countP_erase_self hm
  have hrefs := h.refs hb
  rw [users, hlock, if_pos rfl] at hrefs
  dsimp only [set]
  rw [if_neg (by simp)]
  omega

lemma Inv.releasesleep (h : Inv s order) (hb : b < nbuf) (hlock : (s.buf b).lock = some p) :
    Inv { s.set b { s.buf b with lock := none } with releasing := (p, b) :: s.releasing } order := by
  refine h.recount rfl rfl h.waiting_lt (fun hm => ?_) (fun _ => ?_) fun a hne => ⟨rfl, ?_, rfl⟩
  · rcases mem_cons.mp hm with he | hm
    · cases he
      exact hb
    · exact h.releasing_lt hm
  · have hrefs := h.refs hb
    rw [users, hlock, if_neg (by simp)] at hrefs
    rw [countP_cons_of_pos (by simp), if_pos rfl]
    dsimp only [set]
    omega
  · rw [countP_cons_of_neg (by simpa using hne.symm)]

lemma Inv.bpin (h : Inv s order) (hb : b < nbuf) :
    Inv { s.set b { s.buf b with refcnt := (s.buf b).refcnt + 1 } with
          pins := update s.pins b (s.pins b + 1) } order := by
  refine h.recount rfl rfl h.waiting_lt h.releasing_lt (fun _ => ?_)
    fun a hne => ⟨rfl, rfl, update_of_ne hne _ _⟩
  have hrefs := h.refs hb
  rw [users] at hrefs
  rw [update_self]
  dsimp only [set]
  omega

lemma Inv.bunpin (h : Inv s order) (hb : b < nbuf) (hpin : 0 < s.pins b) :
    Inv { s.set b { s.buf b with refcnt := (s.buf b).refcnt - 1 } with
          pins := update s.pins b (s.pins b - 1) } order := by
  refine h.recount rfl rfl h.waiting_lt h.releasing_lt (fun _ => ?_)
    fun a hne => ⟨rfl, rfl, update_of_ne hne _ _⟩
  have hrefs := h.refs hb
  rw [users] at hrefs
  rw [update_self]
  dsimp only [set]
  omega

/-- An unused buffer goes to the front of the list. -/
lemma Inv.toFront (h : Inv s order) (hb : b < nbuf) :
    ∃ order', Inv { s with links := (s.links.unlink b).insertAfter head b
                           clock := s.clock + 1
                           stamp := update s.stamp b (s.clock + 1) } order' := by
  obtain ⟨xs, ys, rfl⟩ := append_of_mem (h.mem_iff.mpr hb)
  have hnodup := h.circle.nodup
  rw [nodup_middle, nodup_cons] at hnodup
  refine ⟨b :: (xs ++ ys), ?_, ?_, h.refs, h.waiting_lt, h.releasing_lt, h.unique, ?_, fun a => ?_⟩
  · exact h.circle.unlink.insertAfter (Nat.ne_of_lt hb) hnodup.1
  · exact perm_middle.symm.trans h.perm
  · have hold : ∀ a, a ∈ xs ++ ys → update s.stamp b (s.clock + 1) a = s.stamp a := by
      intro a ha
      rw [update_of_ne]
      rintro rfl
      exact hnodup.1 ha
    refine pairwise_cons.mpr ⟨fun a ha => .inl ?_, ?_⟩
    · show update s.stamp b (s.clock + 1) a < update s.stamp b (s.clock + 1) b
      rw [hold a ha, update_self]
      exact Nat.lt_succ_of_le (h.stamp_le a)
    · have hsub : (xs ++ ys).Sublist (xs ++ b :: ys) :=
        List.Sublist.append_left (sublist_cons_self b ys) xs
      refine (h.sorted.sublist hsub).imp_of_mem fun {c d} hc hd hlater => ?_
      simp only [Later, hold c hc, hold d hd]
      exact hlater
  · show update s.stamp b (s.clock + 1) a ≤ s.clock + 1
    by_cases he : a = b
    · rw [he, update_self]
    · rw [update_of_ne he]
      exact Nat.le_succ_of_le (h.stamp_le a)

lemma Inv.brelse (h : Inv s order) (hm : (p, b) ∈ s.releasing) :
    ∃ order', Inv (s.brelse p b) order' := by
  have hb := h.releasing_lt hm
  have h₁ : Inv { s.set b { s.buf b with refcnt := (s.buf b).refcnt - 1 } with
      releasing := s.releasing.erase (p, b) } order := by
    refine h.recount rfl rfl h.waiting_lt (fun hm' => h.releasing_lt (mem_of_mem_erase hm'))
      (fun _ => ?_) fun a hne => ⟨rfl, countP_erase_other hne, rfl⟩
    have hcount := countP_erase_self hm
    have hrefs := h.refs hb
    rw [users] at hrefs
    dsimp only [set]
    omega
  unfold Bcache.brelse
  dsimp only
  split
  next => exact h₁.toFront hb
  next => exact ⟨order, h₁⟩

lemma Inv.step {x : Action} (h : Inv s order) (hs : s.step x = some s') :
    ∃ order', Inv s' order' := by
  cases x with
  | bget p dev blockno => exact ⟨order, h.bget hs⟩
  | acquiresleep p b =>
    simp only [Bcache.step, Option.ite_none_right_eq_some] at hs
    obtain ⟨⟨hm, hlock⟩, hs⟩ := hs
    cases hs
    exact ⟨order, h.acquiresleep hm hlock⟩
  | releasesleep p b =>
    simp only [Bcache.step, Option.ite_none_right_eq_some] at hs
    obtain ⟨⟨hb, hlock⟩, hs⟩ := hs
    cases hs
    exact ⟨order, h.releasesleep hb hlock⟩
  | brelse p b =>
    simp only [Bcache.step, Option.ite_none_right_eq_some] at hs
    obtain ⟨hm, hs⟩ := hs
    cases hs
    exact h.brelse hm
  | bpin b =>
    simp only [Bcache.step, Option.ite_none_right_eq_some] at hs
    obtain ⟨hb, hs⟩ := hs
    cases hs
    exact ⟨order, h.bpin hb⟩
  | bunpin p b =>
    simp only [Bcache.step, Option.ite_none_right_eq_some] at hs
    obtain ⟨⟨hb, -, hpin⟩, hs⟩ := hs
    cases hs
    exact ⟨order, h.bunpin hb hpin⟩

/-- The loop of `binit` puts each buffer to the front. -/
lemma initLinks_circle : ∀ n, n ≤ nbuf → (initLinks n).Circle head (range n).reverse
  | 0, _ => ⟨⟨rfl, rfl⟩, by simp, by simp⟩
  | n + 1, hn => by
    have ih := initLinks_circle n (Nat.le_of_succ_le hn)
    rw [range_succ, reverse_append, reverse_singleton, singleton_append]
    refine ih.insertAfter (Nat.ne_of_lt hn) ?_
    simp

lemma Inv.binit : Inv binit (range nbuf).reverse where
  circle := initLinks_circle nbuf (Nat.le_refl nbuf)
  perm := reverse_perm _
  refs := fun _ => rfl
  waiting_lt := fun hm => absurd hm not_mem_nil
  releasing_lt := fun hm => absurd hm not_mem_nil
  unique := fun _ _ hpos => absurd (show 1 ≤ 0 from hpos) (by decide)
  sorted := pairwise_of_forall fun _ _ => .inr ⟨rfl, rfl⟩
  stamp_le := fun _ => Nat.le_refl 0

/-! ## Every run -/

lemma Inv.idle (h : Inv s order) (hb : b < nbuf) (hzero : (s.buf b).refcnt = 0) :
    (s.buf b).lock = none ∧ ∀ p, (p, b) ∉ s.waiting := by
  have hrefs := h.refs hb
  rw [hzero, users] at hrefs
  constructor
  · by_contra hlock
    rw [if_neg hlock] at hrefs
    omega
  · intro p hm
    have hpos : 0 < s.waiting.countP fun w => w.2 = b := countP_pos_iff.mpr ⟨(p, b), hm, by simp⟩
    omega

lemma set_identity {x : Slot} (hdev : x.dev = (s.buf b).dev)
    (hblockno : x.blockno = (s.buf b).blockno) (a : Nat) :
    ((s.set b x).buf a).dev = (s.buf a).dev ∧ ((s.set b x).buf a).blockno = (s.buf a).blockno := by
  simp only [set]
  by_cases he : a = b
  · rw [he, update_self]
    exact ⟨hdev, hblockno⟩
  · rw [update_of_ne he]
    exact ⟨rfl, rfl⟩

/-- What `bget` does when no buffer has the block: the buffer that was left unused
first gets it. -/
lemma Inv.bget_recycles (h : Inv s order) (hs : s.bget p dev blockno = some s')
    (hnew : ∀ b, b < nbuf → ¬ ((s.buf b).dev = dev ∧ (s.buf b).blockno = blockno)) :
    ∃ b, b < nbuf ∧ (s.buf b).refcnt = 0 ∧
      s'.buf = update s.buf b
        { s.buf b with dev := dev, blockno := blockno, valid := false, refcnt := 1 } ∧
      ∀ a, a < nbuf → a ≠ b → (s.buf a).refcnt = 0 → s.Later a b := by
  unfold Bcache.bget at hs
  split at hs
  next b hc =>
    obtain ⟨hb, hhas⟩ := h.cached_some hc
    exact absurd hhas (hnew b hb)
  next hc =>
    split at hs
    next b hu =>
      cases hs
      obtain ⟨hb, hzero, hlater⟩ := h.unused_some hu
      exact ⟨b, hb, hzero, rfl, hlater⟩
    next => cases hs

/-- Only `bget` changes which block a buffer has, and only for an idle buffer. -/
lemma Inv.identity {x : Action} (h : Inv s order) (hs : s.step x = some s')
    (hchange : (s'.buf b).dev ≠ (s.buf b).dev ∨ (s'.buf b).blockno ≠ (s.buf b).blockno) :
    (s.buf b).refcnt = 0 ∧ (s.buf b).lock = none ∧ ∀ p, (p, b) ∉ s.waiting := by
  have hkeep : ∀ {c : Nat} {x : Slot}, x.dev = (s.buf c).dev → x.blockno = (s.buf c).blockno →
      s'.buf = (s.set c x).buf → False := by
    intro c x hdev hblockno he
    rw [he] at hchange
    obtain ⟨h₁, h₂⟩ := set_identity hdev hblockno b
    exact hchange.elim (fun hne => hne h₁) fun hne => hne h₂
  cases x with
  | bget p dev blockno =>
    cases hc : s.cached dev blockno with
    | some c =>
      simp only [Bcache.step, Bcache.bget, hc] at hs
      cases hs
      exact (hkeep (c := c) (x := { s.buf c with refcnt := (s.buf c).refcnt + 1 }) rfl rfl rfl).elim
    | none =>
      obtain ⟨c, hc', hzero, hbuf, -⟩ := h.bget_recycles hs fun a ha => h.cached_none hc ha
      rw [hbuf] at hchange
      by_cases he : b = c
      · rw [he]
        exact ⟨hzero, h.idle hc' hzero⟩
      · rw [update_of_ne he] at hchange
        exact absurd rfl (hchange.elim id fun hne => absurd rfl hne)
  | acquiresleep p c =>
    simp only [Bcache.step, Option.ite_none_right_eq_some] at hs
    obtain ⟨-, hs⟩ := hs
    cases hs
    exact (hkeep (c := c) (x := { s.buf c with lock := some p }) rfl rfl rfl).elim
  | releasesleep p c =>
    simp only [Bcache.step, Option.ite_none_right_eq_some] at hs
    obtain ⟨-, hs⟩ := hs
    cases hs
    exact (hkeep (c := c) (x := { s.buf c with lock := none }) rfl rfl rfl).elim
  | brelse p c =>
    simp only [Bcache.step, Option.ite_none_right_eq_some] at hs
    obtain ⟨-, hs⟩ := hs
    cases hs
    refine (hkeep (c := c) (x := { s.buf c with refcnt := (s.buf c).refcnt - 1 }) rfl rfl ?_).elim
    unfold Bcache.brelse
    dsimp only
    split <;> rfl
  | bpin c =>
    simp only [Bcache.step, Option.ite_none_right_eq_some] at hs
    obtain ⟨-, hs⟩ := hs
    cases hs
    exact (hkeep (c := c) (x := { s.buf c with refcnt := (s.buf c).refcnt + 1 }) rfl rfl rfl).elim
  | bunpin p c =>
    simp only [Bcache.step, Option.ite_none_right_eq_some] at hs
    obtain ⟨-, hs⟩ := hs
    cases hs
    exact (hkeep (c := c) (x := { s.buf c with refcnt := (s.buf c).refcnt - 1 }) rfl rfl rfl).elim

lemma run_inv {as : List Action} (hrun : run step Bcache.binit as = some s) :
    ∃ order, Inv s order :=
  run_induction (P := fun _ s => ∃ order, Inv s order) hrun ⟨_, Inv.binit⟩
    fun _ _ _ _ ⟨_, h⟩ hs => h.step hs

/-- Every run: the list has each buffer once, no block has two buffers, a buffer gets
another block only while nobody uses it, and `bget` recycles the buffer that was left
unused first. -/
theorem list_run {as : List Action} (hrun : run step Bcache.binit as = some s) :
    (∃ order, order.Perm (range nbuf) ∧ s.links.Circle head order) ∧
    (∀ x, x ≤ nbuf → s.links.next (s.links.prev x) = x ∧ s.links.prev (s.links.next x) = x) ∧
    (∀ a b, a < nbuf → b < nbuf → 1 ≤ (s.buf a).dev → (s.buf a).dev = (s.buf b).dev →
      (s.buf a).blockno = (s.buf b).blockno → a = b) ∧
    (∀ x s' b, s.step x = some s' →
      (s'.buf b).dev ≠ (s.buf b).dev ∨ (s'.buf b).blockno ≠ (s.buf b).blockno →
      (s.buf b).refcnt = 0 ∧ (s.buf b).lock = none ∧ ∀ p, (p, b) ∉ s.waiting) ∧
    ∀ p dev blockno s', s.step (.bget p dev blockno) = some s' →
      (∀ b, b < nbuf → ¬ ((s.buf b).dev = dev ∧ (s.buf b).blockno = blockno)) →
      ∃ b, b < nbuf ∧ (s.buf b).refcnt = 0 ∧
        s'.buf = update s.buf b
          { s.buf b with dev := dev, blockno := blockno, valid := false, refcnt := 1 } ∧
        ∀ a, a < nbuf → a ≠ b → (s.buf a).refcnt = 0 → s.Later a b := by
  obtain ⟨order, h⟩ := run_inv hrun
  refine ⟨⟨order, h.perm, h.circle⟩, fun x hx => h.circle.next_prev ?_, fun a b => h.unique,
    fun x s' b => h.identity, fun p dev blockno s' => h.bget_recycles⟩
  rcases Nat.lt_or_eq_of_le hx with hlt | rfl
  · exact mem_cons_of_mem _ (h.mem_iff.mpr hlt)
  · exact mem_cons_self

/-- A process reads block 5, another one block 6. -/
def twoReads : List Action :=
  [.bget 0 1 5, .acquiresleep 0 0, .bget 1 1 6, .releasesleep 0 0, .brelse 0 0, .acquiresleep 1 1]

theorem list_run_twoReads : ∃ s, run step Bcache.binit twoReads = some s ∧
    ∃ order, order.Perm (range nbuf) ∧ s.links.Circle head order := by
  have hsome : (run step Bcache.binit twoReads).isSome = true := by decide +kernel
  obtain ⟨s, hs⟩ := Option.isSome_iff_exists.mp hsome
  exact ⟨s, hs, (list_run hs).1⟩

end Bcache

end Xv6.Bio
