import Mathlib

/-!
# Little-endian numbers in memory

A memory is a function from addresses to bytes. `getLE m a k` is the number
that the `k` bytes from `a` on hold, least significant byte first, and `putLE`
stores one.
-/

namespace Lib

/-- The number in the `k` bytes from address `a` on. -/
def getLE (m : Nat → UInt8) (a : Nat) : Nat → Nat
  | 0 => 0
  | k + 1 => (m a).toNat + 256 * getLE m (a + 1) k

/-- Store the low `k` bytes of a number from address `a` on. -/
def putLE (m : Nat → UInt8) (a k v : Nat) : Nat → UInt8 := fun x =>
  if a ≤ x ∧ x < a + k then UInt8.ofNat (v / 256 ^ (x - a)) else m x

variable {m m' : Nat → UInt8} {a b k l v : Nat}

lemma getLE_lt (m : Nat → UInt8) (a k : Nat) : getLE m a k < 256 ^ k := by
  induction k generalizing a with
  | zero => simp [getLE]
  | succ k ih =>
    have hhead := (m a).toNat_lt
    have htail := ih (a + 1)
    rw [getLE, pow_succ]
    omega

lemma getLE_congr (h : ∀ x, a ≤ x → x < a + k → m x = m' x) : getLE m a k = getLE m' a k := by
  induction k generalizing a with
  | zero => rfl
  | succ k ih =>
    rw [getLE, getLE, h a (Nat.le_refl a) (by omega)]
    rw [ih fun x hx hxk => h x (by omega) (by omega)]

lemma putLE_of_lt {x : Nat} (h : x < a) : putLE m a k v x = m x :=
  if_neg (by omega)

lemma putLE_of_ge {x : Nat} (h : a + k ≤ x) : putLE m a k v x = m x :=
  if_neg (by omega)

/-- Storing the tail of a number leaves the tail. -/
lemma putLE_succ {x : Nat} (h : a + 1 ≤ x) :
    putLE m a (k + 1) v x = putLE m (a + 1) k (v / 256) x := by
  by_cases hx : x < a + (k + 1)
  · have hexp : x - a = (x - (a + 1)) + 1 := by omega
    rw [putLE, putLE, if_pos ⟨by omega, hx⟩, if_pos ⟨h, by omega⟩, hexp, pow_succ',
      ← Nat.div_div_eq_div_mul]
  · rw [putLE_of_ge (by omega), putLE_of_ge (by omega)]

lemma getLE_putLE (m : Nat → UInt8) (a k v : Nat) :
    getLE (putLE m a k v) a k = v % 256 ^ k := by
  induction k generalizing a v with
  | zero => simp [getLE, Nat.mod_one]
  | succ k ih =>
    have hhead : putLE m a (k + 1) v a = UInt8.ofNat v := by
      rw [putLE, if_pos ⟨Nat.le_refl a, by omega⟩]
      simp
    have htail : getLE (putLE m a (k + 1) v) (a + 1) k = v / 256 % 256 ^ k := by
      rw [← ih (a + 1) (v / 256)]
      exact getLE_congr fun x hx _ => putLE_succ hx
    have hbyte : (UInt8.ofNat v).toNat = v % 256 := UInt8.toNat_ofNat'
    rw [getLE, hhead, htail, hbyte, pow_succ', Nat.mod_mul]

lemma getLE_putLE_of_disjoint (h : a + k ≤ b ∨ b + l ≤ a) :
    getLE (putLE m a k v) b l = getLE m b l := by
  apply getLE_congr
  intro x hx hxl
  rcases h with h | h
  · exact putLE_of_ge (by omega)
  · exact putLE_of_lt (by omega)

lemma getLE_zero (h : ∀ x, a ≤ x → x < a + k → m x = 0) : getLE m a k = 0 := by
  induction k generalizing a with
  | zero => rfl
  | succ k ih =>
    rw [getLE, h a (Nat.le_refl a) (by omega), ih fun x hx hxk => h x (by omega) (by omega)]
    rfl

end Lib
