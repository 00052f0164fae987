import Mathlib

/-!
# Rings with wrapping counters

A ring of `size` places with two counters that never stop: `nwrite` counts the
elements that went in, `nread` those that came out, both modulo `modulus`. The
place of an element is its number modulo `size`. When `size` divides `modulus`,
the counters may wrap at any time: what went in comes out in order, as long as
there are never more than `size` elements inside.
-/

namespace Lib

open Function

variable {α : Type}

/-- The places and the two counters. -/
structure RingBuf (α : Type) where
  data : Nat → α
  /-- How many elements have been taken out. -/
  nread : Nat
  /-- How many have been put in. -/
  nwrite : Nat

/-- How a ring is laid out. -/
structure RingShape where
  size : Nat
  modulus : Nat
  size_pos : 0 < size
  size_lt : size < modulus
  size_dvd : size ∣ modulus

variable (S : RingShape)

/-- How many elements are inside. -/
def RingBuf.count (x : RingBuf α) : Nat := (x.nwrite + S.modulus - x.nread) % S.modulus

/-- The elements inside, the oldest first. -/
def RingBuf.contents (x : RingBuf α) : List α :=
  (List.range (x.count S)).map fun j => x.data ((x.nread + j) % S.size)

/-- Put an element in. -/
def RingBuf.push (x : RingBuf α) (a : α) : RingBuf α :=
  { x with data := update x.data (x.nwrite % S.size) a
           nwrite := (x.nwrite + 1) % S.modulus }

/-- The element that comes out next. -/
def RingBuf.front (x : RingBuf α) : α := x.data (x.nread % S.size)

/-- Take an element out. -/
def RingBuf.pop (x : RingBuf α) : RingBuf α := { x with nread := (x.nread + 1) % S.modulus }

/-- The counters are numbers below the modulus, and the elements fit. -/
structure RingBuf.Ok (x : RingBuf α) : Prop where
  nread_lt : x.nread < S.modulus
  nwrite_lt : x.nwrite < S.modulus
  count_le : x.count S ≤ S.size

variable {S} {x : RingBuf α} {a : α}

/-- The write counter runs ahead of the read counter by the number of elements. -/
lemma RingBuf.Ok.nwrite_eq (h : x.Ok S) : x.nwrite = (x.nread + x.count S) % S.modulus := by
  have hr := h.nread_lt
  have hw := h.nwrite_lt
  unfold RingBuf.count
  rcases Nat.lt_or_ge x.nwrite x.nread with hlt | hge
  · have hsub : (x.nwrite + S.modulus - x.nread) % S.modulus = x.nwrite + S.modulus - x.nread :=
      Nat.mod_eq_of_lt (by omega)
    have hsum : x.nread + (x.nwrite + S.modulus - x.nread) = x.nwrite + S.modulus := by omega
    rw [hsub, hsum, Nat.add_mod_right, Nat.mod_eq_of_lt hw]
  · have hsplit : x.nwrite + S.modulus - x.nread = x.nwrite - x.nread + S.modulus := by omega
    have hsum : x.nread + (x.nwrite - x.nread) = x.nwrite := by omega
    rw [hsplit, Nat.add_mod_right, Nat.mod_eq_of_lt (by omega : x.nwrite - x.nread < S.modulus),
      hsum, Nat.mod_eq_of_lt hw]

/-- The number of elements, from the counters. -/
lemma RingBuf.count_eq {k : Nat} (hr : x.nread < S.modulus) (hk : k < S.modulus)
    (hw : x.nwrite = (x.nread + k) % S.modulus) : x.count S = k := by
  unfold RingBuf.count
  rw [hw]
  rcases Nat.lt_or_ge (x.nread + k) S.modulus with hlt | hge
  · have hsum : x.nread + k + S.modulus - x.nread = k + S.modulus := by omega
    rw [Nat.mod_eq_of_lt hlt, hsum, Nat.add_mod_right, Nat.mod_eq_of_lt hk]
  · have hwrap : (x.nread + k) % S.modulus = x.nread + k - S.modulus := by
      rw [Nat.mod_eq_sub_mod hge, Nat.mod_eq_of_lt (by omega)]
    have hsum : x.nread + k - S.modulus + S.modulus - x.nread = k := by omega
    rw [hwrap, hsum, Nat.mod_eq_of_lt hk]

lemma RingBuf.Ok.count_lt (h : x.Ok S) : x.count S < S.modulus :=
  Nat.lt_of_le_of_lt h.count_le S.size_lt

/-- The ring is empty. -/
lemma RingBuf.Ok.nread_eq_nwrite_iff (h : x.Ok S) : x.nread = x.nwrite ↔ x.count S = 0 := by
  constructor
  · intro he
    exact RingBuf.count_eq h.nread_lt (Nat.lt_trans S.size_pos S.size_lt)
      (by rw [Nat.add_zero, Nat.mod_eq_of_lt h.nread_lt, he])
  · intro hz
    rw [h.nwrite_eq, hz, Nat.add_zero, Nat.mod_eq_of_lt h.nread_lt]

/-- The ring is full. -/
lemma RingBuf.Ok.full_iff (h : x.Ok S) :
    x.nwrite = (x.nread + S.size) % S.modulus ↔ x.count S = S.size := by
  constructor
  · exact RingBuf.count_eq h.nread_lt S.size_lt
  · intro hfull
    rw [← hfull]
    exact h.nwrite_eq

/-- The place of the element `j` after `n` does not depend on the wraps. -/
lemma RingShape.mod_size (S : RingShape) (n : Nat) : n % S.modulus % S.size = n % S.size :=
  Nat.mod_mod_of_dvd n S.size_dvd

/-- Elements that are inside together have different places. -/
lemma RingShape.place_ne (S : RingShape) {n j k : Nat} (hj : j < k) (hk : k < j + S.size) :
    (n + j) % S.size ≠ (n + k) % S.size := by
  intro he
  have hdvd : S.size ∣ (n + k) - (n + j) := (Nat.modEq_iff_dvd' (by omega)).mp he
  have hle := Nat.le_of_dvd (by omega) hdvd
  omega

lemma RingBuf.Ok.count_push (h : x.Ok S) (hroom : x.count S < S.size) :
    (x.push S a).count S = x.count S + 1 := by
  have hlt := S.size_lt
  refine RingBuf.count_eq (x := x.push S a) h.nread_lt (by omega) ?_
  show (x.nwrite + 1) % S.modulus = _
  rw [h.nwrite_eq, Nat.mod_add_mod]
  rfl

lemma RingBuf.Ok.push (h : x.Ok S) (hroom : x.count S < S.size) : (x.push S a).Ok S where
  nread_lt := h.nread_lt
  nwrite_lt := Nat.mod_lt _ (Nat.lt_trans S.size_pos S.size_lt)
  count_le := by
    rw [h.count_push hroom]
    exact hroom

/-- An element that is put in goes to the end. -/
lemma RingBuf.Ok.contents_push (h : x.Ok S) (hroom : x.count S < S.size) :
    (x.push S a).contents S = x.contents S ++ [a] := by
  have hplace : x.nwrite % S.size = (x.nread + x.count S) % S.size := by
    rw [h.nwrite_eq, S.mod_size]
  unfold RingBuf.contents
  rw [h.count_push hroom, List.range_succ, List.map_append]
  congr 1
  · refine List.map_congr_left fun j hj => ?_
    have hlt := List.mem_range.mp hj
    show update x.data _ a ((x.nread + j) % S.size) = _
    rw [update_of_ne]
    rw [hplace]
    exact S.place_ne hlt (by omega)
  · show [update x.data _ a ((x.nread + x.count S) % S.size)] = [a]
    rw [← hplace, update_self]

lemma RingBuf.Ok.count_pop (h : x.Ok S) (hpos : 0 < x.count S) :
    (x.pop S).count S + 1 = x.count S := by
  have hlt := h.count_lt
  have hcount : (x.pop S).count S = x.count S - 1 := by
    refine RingBuf.count_eq (x := x.pop S) (Nat.mod_lt _ (by omega)) (by omega) ?_
    show x.nwrite = ((x.nread + 1) % S.modulus + _) % S.modulus
    have hsum : x.nread + 1 + (x.count S - 1) = x.nread + x.count S := by omega
    rw [Nat.mod_add_mod, hsum]
    exact h.nwrite_eq
  omega

lemma RingBuf.Ok.pop (h : x.Ok S) (hpos : 0 < x.count S) : (x.pop S).Ok S where
  nread_lt := Nat.mod_lt _ (Nat.lt_trans S.size_pos S.size_lt)
  nwrite_lt := h.nwrite_lt
  count_le := by
    have := h.count_pop hpos
    have := h.count_le
    omega

/-- The oldest element comes out. -/
lemma RingBuf.Ok.contents_pop (h : x.Ok S) (hpos : 0 < x.count S) :
    x.contents S = x.front S :: (x.pop S).contents S := by
  unfold RingBuf.contents
  rw [← h.count_pop hpos, List.range_succ_eq_map, List.map_cons, List.map_map]
  congr 1
  refine List.map_congr_left fun j _ => ?_
  show x.data ((x.nread + (j + 1)) % S.size) = x.data (((x.nread + 1) % S.modulus + j) % S.size)
  have hwrap : ((x.nread + 1) % S.modulus + j) % S.size = (x.nread + 1 + j) % S.size := by
    rw [← Nat.mod_add_mod ((x.nread + 1) % S.modulus), S.mod_size, Nat.mod_add_mod]
  rw [hwrap, Nat.add_right_comm, Nat.add_assoc]

end Lib
