import Mathlib

/-!
# Lists of writes to a store

A store is a function from addresses to values. A list of writes acts on it
from left to right. Two facts carry every argument about a redo log: a write
list read at an address it does not mention changes nothing
(`applyWrites_of_notMem`), and running a prefix of a list before the whole list
is the same as running the whole list (`applyWrites_take`).
-/

namespace Lib

open Function

variable {ι β : Type*} [DecidableEq ι]

/-- Perform the writes of `ws` on the store `f`, the first one first. -/
def applyWrites : List (ι × β) → (ι → β) → ι → β
  | [], f => f
  | w :: ws, f => applyWrites ws (update f w.1 w.2)

@[simp] lemma applyWrites_nil (f : ι → β) : applyWrites [] f = f := rfl

@[simp] lemma applyWrites_cons (w : ι × β) (ws : List (ι × β)) (f : ι → β) :
    applyWrites (w :: ws) f = applyWrites ws (update f w.1 w.2) := rfl

lemma applyWrites_append (ws vs : List (ι × β)) (f : ι → β) :
    applyWrites (ws ++ vs) f = applyWrites vs (applyWrites ws f) := by
  induction ws generalizing f with
  | nil => rfl
  | cons w ws ih => exact ih (update f w.1 w.2)

/-- An address that no write names keeps its value. -/
lemma applyWrites_of_notMem {ws : List (ι × β)} {a : ι} (h : a ∉ ws.map Prod.fst)
    (f : ι → β) : applyWrites ws f a = f a := by
  induction ws generalizing f with
  | nil => rfl
  | cons w ws ih =>
    simp only [List.map_cons, List.mem_cons, not_or] at h
    rw [applyWrites_cons, ih h.2, update_of_ne h.1]

/-- The value of an address that the list names does not depend on the store. -/
lemma applyWrites_congr {ws : List (ι × β)} {a : ι} {f g : ι → β}
    (h : a ∉ ws.map Prod.fst → f a = g a) : applyWrites ws f a = applyWrites ws g a := by
  induction ws generalizing f g with
  | nil => exact h (by simp)
  | cons w ws ih =>
    apply ih
    intro hws
    by_cases ha : a = w.1
    · subst ha; simp
    · rw [update_of_ne ha, update_of_ne ha]
      exact h (by simp [ha, hws])

/-- Running a prefix first does not change the result of the whole list. -/
lemma applyWrites_take (ws : List (ι × β)) (m : Nat) (f : ι → β) (a : ι) :
    applyWrites ws (applyWrites (ws.take m) f) a = applyWrites ws f a := by
  apply applyWrites_congr
  intro h
  apply applyWrites_of_notMem
  intro ha
  rw [List.map_take] at ha
  exact h (List.mem_of_mem_take ha)

/-- With distinct addresses, a write of the list is what its address holds
afterwards. -/
lemma applyWrites_of_mem {ws : List (ι × β)} (hnd : (ws.map Prod.fst).Nodup) {a : ι} {v : β}
    (h : (a, v) ∈ ws) (f : ι → β) : applyWrites ws f a = v := by
  induction ws generalizing f with
  | nil => cases h
  | cons w ws ih =>
    simp only [List.map_cons, List.nodup_cons] at hnd
    rcases List.mem_cons.mp h with rfl | h
    · rw [applyWrites_cons, applyWrites_of_notMem hnd.1, update_self]
    · exact ih hnd.2 h _

/-- The state after `n + 1` writes of a list is one write after the state
after `n`. -/
lemma applyWrites_take_succ {ws : List (ι × β)} {n : Nat} (h : n < ws.length) (f : ι → β) :
    applyWrites (ws.take (n + 1)) f =
      update (applyWrites (ws.take n) f) (ws[n]).1 (ws[n]).2 := by
  rw [List.take_succ_eq_append_getElem h, applyWrites_append]
  rfl

end Lib
