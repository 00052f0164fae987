import Mathlib

/-!
# Circular singly linked lists

Nodes of any type with a `next` pointer. `Linked next l` says that the pointers go
through the nodes of `l` one after the other, so `Linked next (a :: xs ++ [a])` is a
circle through `a` and `xs`. A circle may be entered at any of its nodes
(`Linked.rotate`), and part of it may be replaced (`Linked.replace`).
-/

namespace Lib

variable {α : Type} {next next' : α → α}

/-- The pointers lead through the list. -/
def Linked (next : α → α) (l : List α) : Prop := l.IsChain fun x y => next x = y

lemma linked_cons_cons {a b : α} {l : List α} :
    Linked next (a :: b :: l) ↔ next a = b ∧ Linked next (b :: l) :=
  List.isChain_cons_cons

lemma linked_split {c : α} {l₁ l₂ : List α} :
    Linked next (l₁ ++ c :: l₂) ↔ Linked next (l₁ ++ [c]) ∧ Linked next (c :: l₂) :=
  List.isChain_split

/-- Only the pointers of the nodes before the last one matter. -/
lemma Linked.congr {a : α} {l : List α} (h : Linked next (l ++ [a]))
    (hnext : ∀ x ∈ l, next' x = next x) : Linked next' (l ++ [a]) := by
  induction l with
  | nil => exact List.isChain_singleton a
  | cons x l ih =>
    have htail := ih (List.IsChain.tail h) fun y hy => hnext y (List.mem_cons_of_mem x hy)
    cases l with
    | nil | cons y l =>
      have hx := (linked_cons_cons.1 h).1
      exact linked_cons_cons.2 ⟨(hnext x List.mem_cons_self).trans hx, htail⟩

/-- Another node takes the place of the first one. -/
lemma Linked.replace {a b d : α} {l : List α} (h : Linked next (d :: l ++ [a]))
    (hb : next' b = next d) (hnext : ∀ x ∈ l, next' x = next x) :
    Linked next' (b :: l ++ [a]) := by
  have htail := Linked.congr (List.IsChain.tail h) hnext
  cases l with
  | nil | cons x l => exact linked_cons_cons.2 ⟨hb.trans (linked_cons_cons.1 h).1, htail⟩

/-- A circle entered at another node. -/
lemma Linked.rotate {a p : α} {xs : List α} (h : Linked next (a :: xs ++ [a]))
    (hp : p ∈ a :: xs) : ∃ ys, Linked next (p :: ys ++ [p]) ∧ (p :: ys).Perm (a :: xs) := by
  obtain ⟨l, r, hl⟩ := List.append_of_mem hp
  rw [hl, List.append_assoc, List.cons_append, linked_split] at h
  cases l with
  | nil =>
    obtain ⟨rfl, rfl⟩ := List.cons.inj hl
    exact ⟨xs, h.2, .refl _⟩
  | cons b l =>
    obtain ⟨rfl, hxs⟩ := List.cons.inj hl
    refine ⟨r ++ a :: l, ?_, ?_⟩
    · have hnext : Linked next ((p :: r) ++ a :: (l ++ [p])) := linked_split.2 ⟨h.2, h.1⟩
      simpa using hnext
    · rw [hl]
      exact (List.perm_append_comm : ((p :: r) ++ (a :: l)).Perm _)

/-! ## Walking -/

/-- Follow the pointers to a node that satisfies `stop`. -/
def walk (next : α → α) (stop : α → Bool) : Nat → α → Option α
  | 0, _ => none
  | k + 1, p => if stop p then some p else walk next stop k (next p)

/-- A walk finds a node to stop at if there is one on its way. -/
lemma Linked.walk_eq {stop : α → Bool} {p a : α} {ys : List α} {k : Nat}
    (h : Linked next (p :: ys ++ [a])) (hstop : ∃ t ∈ p :: ys, stop t = true)
    (hk : ys.length < k) : ∃ r ∈ p :: ys, stop r = true ∧ walk next stop k p = some r := by
  induction ys generalizing p k with
  | nil =>
    obtain ⟨t, ht, hst⟩ := hstop
    obtain rfl := List.mem_singleton.1 ht
    cases k with
    | zero => cases hk
    | succ k => exact ⟨t, ht, hst, by rw [walk, if_pos hst]⟩
  | cons y ys ih =>
    cases k with
    | zero => cases hk
    | succ k =>
      cases hp : stop p with
      | true => exact ⟨p, List.mem_cons_self, hp, by rw [walk, if_pos hp]⟩
      | false =>
        obtain ⟨t, ht, hst⟩ := hstop
        obtain ⟨hy, htail⟩ := linked_cons_cons.1 h
        have htail' : ∃ t ∈ y :: ys, stop t = true := by
          rcases List.mem_cons.1 ht with rfl | ht
          · rw [hp] at hst
            cases hst
          · exact ⟨t, ht, hst⟩
        obtain ⟨r, hr, hsr, hwalk⟩ := ih htail htail' (Nat.lt_of_succ_lt_succ hk)
        refine ⟨r, List.mem_cons_of_mem p hr, hsr, ?_⟩
        rw [walk, hp, if_neg Bool.false_ne_true, hy, hwalk]

/-- A walk on a circle finds a node to stop at if there is one, wherever it starts. -/
lemma Linked.walk_circle {stop : α → Bool} {a p : α} {xs : List α} {k : Nat}
    (h : Linked next (a :: xs ++ [a])) (hp : p ∈ a :: xs) (hstop : ∃ t ∈ a :: xs, stop t = true)
    (hk : xs.length < k) : ∃ r ∈ a :: xs, stop r = true ∧ walk next stop k p = some r := by
  obtain ⟨ys, hys, hperm⟩ := h.rotate hp
  obtain ⟨t, ht, hst⟩ := hstop
  have hlen : ys.length = xs.length := by simpa using hperm.length_eq
  obtain ⟨r, hr, hsr, hwalk⟩ := hys.walk_eq ⟨t, hperm.mem_iff.2 ht, hst⟩ (k := k) (by omega)
  exact ⟨r, hperm.mem_iff.1 hr, hsr, hwalk⟩

end Lib
