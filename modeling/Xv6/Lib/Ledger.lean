import Mathlib

/-!
# Who owns what

A set of places refers to resources, and an allocator has a mark for each
resource in use. The ledger is kept in order by an owner map: a resource is owned
by the one place that refers to it. That the owner is a function says that no two
places refer to the same resource. A resource that has been taken from the
allocator and is not yet, or no longer, referred to is *at hand*.
-/

namespace Lib

open Function

variable {ι α : Type*}

/-- `ref` is what the places refer to, `own` the owners, `L` the resources at hand,
and `used` the marks of the allocator. -/
structure Ledger (ref : ι → Option α) (own : α → Option ι) (L : Set α) (used : α → Prop) : Prop where
  own_iff : ∀ {a x}, own a = some x ↔ ref x = some a
  at_hand : ∀ a ∈ L, own a = none
  used_iff : ∀ a, used a ↔ own a ≠ none ∨ a ∈ L

namespace Ledger

variable {ref ref' : ι → Option α} {own : α → Option ι} {L : Set α} {used used' : α → Prop}
variable {a : α} {x : ι}

lemma ne_of_at_hand (h : Ledger ref own L used) (ha : a ∈ L) : ref x ≠ some a := by
  intro hx
  have hnone := h.at_hand a ha
  rw [h.own_iff.mpr hx] at hnone
  cases hnone

lemma congr (h : Ledger ref own L used) (href : ∀ x, ref' x = ref x) (hused : ∀ a, used' a ↔ used a) :
    Ledger ref' own L used' where
  own_iff := by
    intro a x
    rw [href]
    exact h.own_iff
  at_hand := h.at_hand
  used_iff a := (hused a).trans (h.used_iff a)

/-- The allocator hands out a resource that was not in use. -/
lemma take (h : Ledger ref own L used) (ha : ¬ used a) (hused : ∀ b, used' b ↔ used b ∨ b = a) :
    Ledger ref own (insert a L) used' where
  own_iff := h.own_iff
  at_hand := by
    intro b hb
    rcases hb with rfl | hb
    · by_contra hne
      exact ha ((h.used_iff b).mpr (.inl hne))
    · exact h.at_hand b hb
  used_iff b := by
    rw [hused, h.used_iff, Set.mem_insert_iff]
    tauto

/-- An empty place gets a resource that is at hand. -/
lemma attach [DecidableEq ι] [DecidableEq α] (h : Ledger ref own L used) (ha : a ∈ L)
    (hx : ref x = none) (href : ∀ y, ref' y = if y = x then some a else ref y) :
    Ledger ref' (update own a (some x)) (L \ {a}) used where
  own_iff := by
    intro b y
    rw [href]
    by_cases hba : b = a
    · subst hba
      rw [update_self]
      by_cases hyx : y = x
      · simp [hyx]
      · rw [if_neg hyx]
        exact ⟨fun hc => absurd (Option.some.inj hc).symm hyx, fun hc => absurd hc (h.ne_of_at_hand ha)⟩
    · rw [update_of_ne hba]
      by_cases hyx : y = x
      · subst hyx
        rw [if_pos rfl, h.own_iff, hx]
        exact ⟨fun hc => (by cases hc), fun hc => absurd (Option.some.inj hc).symm hba⟩
      · rw [if_neg hyx, h.own_iff]
  at_hand b hb := by
    rw [update_of_ne hb.2]
    exact h.at_hand b hb.1
  used_iff b := by
    rw [h.used_iff, Set.mem_sdiff, Set.mem_singleton_iff]
    by_cases hba : b = a
    · subst hba
      rw [update_self]
      simp [ha]
    · rw [update_of_ne hba]
      simp [hba]

/-- The owners without the places of `D`. -/
def drop (D : ι → Bool) (own : α → Option ι) (a : α) : Option ι := (own a).filter fun x => !D x

/-- The places of `D` are emptied, and the allocator gets back what they referred to. -/
lemma release (h : Ledger ref own L used) (D : ι → Bool) (href : ∀ y, ref' y = if D y then none else ref y)
    (hused : ∀ b, used' b ↔ used b ∧ ∀ x, own b = some x → D x = false) :
    Ledger ref' (drop D own) L used' where
  own_iff := by
    intro b y
    rw [href, drop, Option.filter_eq_some_iff]
    by_cases hy : D y
    · simp [hy]
    · simp [hy, h.own_iff]
  at_hand b hb := by
    rw [drop, h.at_hand b hb]
    rfl
  used_iff b := by
    rw [hused, h.used_iff, drop]
    cases hb : own b with
    | none => simp
    | some x =>
      have hnot : b ∉ L := fun hL => by
        rw [h.at_hand b hL] at hb
        cases hb
      cases hD : D x with
      | true => simp [hD, hnot]
      | false => simp [hD]

end Ledger

end Lib
