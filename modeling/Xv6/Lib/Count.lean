import Mathlib

/-!
# Counting references

Slots hold references, or nothing. `count S g a` is how many slots of `S` refer
to `a`. A reference count that a program keeps is exact when it equals this
number, so what is needed is how the number changes with one slot.
-/

namespace Lib

open Finset Function

variable {ι α : Type*} [DecidableEq ι] [DecidableEq α] {S : Finset ι} {g h : ι → Option α}
variable {i : ι} {a b : α}

/-- How many slots of `S` refer to `a`. -/
def count (S : Finset ι) (g : ι → Option α) (a : α) : Nat := (S.filter fun i => g i = some a).card

omit [DecidableEq ι] in
lemma count_congr (hgh : ∀ i ∈ S, g i = h i) (a : α) : count S g a = count S h a := by
  unfold count
  congr 1
  exact filter_congr fun i hi => by rw [hgh i hi]

omit [DecidableEq ι] in
lemma count_pos (hi : i ∈ S) (hg : g i = some a) : 0 < count S g a :=
  card_pos.mpr ⟨i, mem_filter.mpr ⟨hi, hg⟩⟩

omit [DecidableEq ι] in
lemma exists_of_count_pos (h : 0 < count S g a) : ∃ i ∈ S, g i = some a := by
  obtain ⟨i, hi⟩ := card_pos.mp h
  exact ⟨i, mem_filter.mp hi⟩

omit [DecidableEq ι] in
/-- No slot refers to anything. -/
lemma count_eq_zero (h : ∀ i ∈ S, g i = none) (a : α) : count S g a = 0 := by
  by_contra hne
  obtain ⟨i, hi, hg⟩ := exists_of_count_pos (Nat.pos_of_ne_zero hne)
  rw [h i hi] at hg
  cases hg

/-- An empty slot is filled. -/
lemma count_fill (hi : i ∈ S) (hg : g i = none) :
    count S (update g i (some b)) a = count S g a + if a = b then 1 else 0 := by
  have hnot : i ∉ S.filter fun j => g j = some a := by
    rw [mem_filter, hg]
    rintro ⟨-, ⟨⟩⟩
  unfold count
  split
  next he =>
    subst he
    rw [← card_insert_of_notMem hnot]
    congr 1
    ext j
    rw [mem_filter, mem_insert, mem_filter]
    by_cases hj : j = i
    · subst hj
      simp [hi]
    · simp [hj]
  next hne =>
    rw [Nat.add_zero]
    congr 1
    refine filter_congr fun j _ => ?_
    by_cases hj : j = i
    · subst hj
      rw [update_self, hg, Option.some.injEq]
      exact ⟨fun he => absurd he.symm hne, fun he => by cases he⟩
    · rw [update_of_ne hj]

/-- A slot is emptied. -/
lemma count_clear (hi : i ∈ S) (hg : g i = some b) :
    count S (update g i none) a + (if a = b then 1 else 0) = count S g a := by
  have hfill := count_fill (S := S) (g := update g i none) (a := a) (b := b) hi
    (update_self ..)
  rw [update_idem, ← hg, update_eq_self] at hfill
  exact hfill.symm

/-- A reference moves from a list to an empty slot. -/
lemma count_fill_cons (hi : i ∈ S) (hg : g i = none) (l : List α) (a : α) :
    count S (update g i (some b)) a + l.count a = count S g a + (b :: l).count a := by
  rw [count_fill hi hg, List.count_cons]
  simp only [beq_iff_eq, eq_comm (a := b)]
  omega

/-- A reference moves from a slot to a list. -/
lemma count_clear_cons (hi : i ∈ S) (hg : g i = some b) (l : List α) (a : α) :
    count S (update g i none) a + (b :: l).count a = count S g a + l.count a := by
  rw [← count_clear hi hg, List.count_cons]
  simp only [beq_iff_eq, eq_comm (a := b)]
  omega

omit [DecidableEq α] in
/-- What every slot refers to, with another value in one of them. -/
lemma forall_some_update {D : ι → Prop} {p : α → Prop} {v : Option α}
    (h : ∀ j, D j → ∀ a, g j = some a → p a) (hv : ∀ a, v = some a → p a) (j : ι) (hj : D j) (a : α)
    (ha : update g i v j = some a) : p a := by
  by_cases hji : j = i
  · subst hji
    rw [update_self] at ha
    exact hv a ha
  · rw [update_of_ne hji] at ha
    exact h j hj a ha

/-! ## References in a list

A list of pairs says who refers to what, and `countP` counts the references to `b`. -/

variable {β : Type*} [DecidableEq β] {l : List (α × β)} {x y : β}

lemma countP_erase_self (hm : (a, x) ∈ l) :
    (l.erase (a, x)).countP (fun w => w.2 = x) + 1 = l.countP fun w => w.2 = x := by
  have hpos : 0 < l.countP fun w => w.2 = x := List.countP_pos_iff.mpr ⟨(a, x), hm, by simp⟩
  rw [List.countP_erase]
  simp only [hm, decide_true, and_self, if_true]
  omega

lemma countP_erase_other (hne : x ≠ y) :
    (l.erase (a, y)).countP (fun w => w.2 = x) = l.countP fun w => w.2 = x := by
  rw [List.countP_erase]
  simp [hne.symm]

/-- With one reference there is one that has it. -/
lemma eq_of_countP_eq_one (hone : l.countP (fun w => w.2 = x) = 1) (ha : (a, x) ∈ l)
    (hb : (b, x) ∈ l) : b = a := by
  by_contra hne
  have hcount := countP_erase_self ha
  have hmem : (b, x) ∈ l.erase (a, x) := (List.mem_erase_of_ne (by simp [hne])).mpr hb
  have hpos : 0 < (l.erase (a, x)).countP fun w => w.2 = x :=
    List.countP_pos_iff.mpr ⟨(b, x), hmem, by simp⟩
  omega

end Lib
