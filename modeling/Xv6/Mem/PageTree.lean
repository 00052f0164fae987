import Xv6.Mem.Vm

/-!
# Page tables as trees in memory

The pages of a table are addressed from its root. At depth `d` there are up to
`512 ^ d` nodes, numbered so that node `x` is entry `x % 512` of its parent, node
`x / 512` one level up. Depths 0 to 2 are the page-table pages, and the entry of
virtual page `v` is entry `v % 512` of node `v / 512` at depth 2.
-/

namespace Xv6.Mem

open Lib

/-- Entry `i` of the table on page `q`. -/
@[irreducible] def entry (m : Bytes) (q i : Nat) : Nat := getLE m (4096 * q + 8 * i) 8

/-- The page that an entry refers to, if it is valid. -/
def pteKid (v : Nat) : Option Nat := if v % 2 = 1 then some (v / 1024) else none

/-- The page behind an entry of a table. -/
def kid (m : Bytes) (q i : Nat) : Option Nat := pteKid (entry m q i)

/-- The page of a node. -/
def node (m : Bytes) (r : Nat) : Nat → Nat → Option Nat
  | 0, _ => some r
  | d + 1, x => (node m r d (x / 512)).bind fun q => kid m q (x % 512)

/-- The entry of a virtual page, 0 if there is no table for it. -/
def pteAt (m : Bytes) (r v : Nat) : Nat :=
  match node m r 2 (v / 512) with
  | none => 0
  | some q => entry m q (v % 512)

/-- Page `q` has the same bytes in both memories. -/
def Agree (m m' : Bytes) (q : Nat) : Prop := ∀ x, x / 4096 = q → m' x = m x

variable {m m' m'' : Bytes} {r q q₀ i d d₀ x x₀ v : Nat}

lemma Agree.refl (m : Bytes) (q : Nat) : Agree m m q := fun _ _ => rfl

lemma Agree.trans (h : Agree m m' q) (h' : Agree m' m'' q) : Agree m m'' q :=
  fun x hx => (h' x hx).trans (h x hx)

lemma entry_congr (h : Agree m m' q) (hi : i < 512) : entry m' q i = entry m q i := by
  unfold entry
  apply getLE_congr
  intro x hx hx'
  exact h x (by omega)

lemma kid_congr (h : Agree m m' q) (hi : i < 512) : kid m' q i = kid m q i := by
  rw [kid, kid, entry_congr h hi]

@[simp] lemma pteKid_zero : pteKid 0 = none := rfl

lemma node_succ (m : Bytes) (r d x : Nat) :
    node m r (d + 1) x = (node m r d (x / 512)).bind fun q => kid m q (x % 512) := rfl

/-- The nodes of the last level are the pages that the entries refer to. -/
lemma pteKid_pteAt (m : Bytes) (r v : Nat) : pteKid (pteAt m r v) = node m r 3 v := by
  rw [node_succ, pteAt]
  cases node m r 2 (v / 512) with
  | none => rfl
  | some q => rw [Option.bind_some, kid]

lemma pteAt_of_node (h : node m r 2 (v / 512) = some q) : pteAt m r v = entry m q (v % 512) := by
  rw [pteAt, h]

lemma pteAt_of_none (h : node m r 2 (v / 512) = none) : pteAt m r v = 0 := by
  rw [pteAt, h]

lemma div_lt_pow (hx : x < 512 ^ (d + 1)) : x / 512 < 512 ^ d := by
  rw [Nat.div_lt_iff_lt_mul (by decide), ← pow_succ]
  exact hx

/-- A node depends only on the pages above it. -/
lemma node_congr (h : ∀ d' x' q, d' < d → x' < 512 ^ d' → node m r d' x' = some q →
    Agree m m' q) (hx : x < 512 ^ d) : node m' r d x = node m r d x := by
  induction d generalizing x with
  | zero => rfl
  | succ d ih =>
    have hx' := div_lt_pow hx
    rw [node_succ, node_succ, ih (fun d' x' q hd' => h d' x' q (by omega)) hx']
    cases hq : node m r d (x / 512) with
    | none => rfl
    | some q =>
      rw [Option.bind_some, Option.bind_some]
      exact kid_congr (h d (x / 512) q (by omega) hx' hq) (Nat.mod_lt x (by decide))

/-- The entry of a virtual page depends only on the page-table pages. -/
lemma pteAt_congr (h : ∀ d x q, d ≤ 2 → x < 512 ^ d → node m r d x = some q → Agree m m' q)
    (hv : v < 512 ^ 3) : pteAt m' r v = pteAt m r v := by
  have hx := div_lt_pow hv
  have he := node_congr (fun d x q hd => h d x q (by omega)) hx
  cases hq : node m r 2 (v / 512) with
  | none => rw [pteAt_of_none hq, pteAt_of_none (he.trans hq)]
  | some q =>
    rw [pteAt_of_node hq, pteAt_of_node (he.trans hq)]
    exact entry_congr (h 2 _ q (by decide) hx hq) (Nat.mod_lt v (by decide))

/-- A store to entry `i` of node `x₀` changes that child and nothing else. Above
the last level the entry was not valid, and the page it now refers to is empty. -/
lemma node_set (hq₀ : node m r d₀ x₀ = some q₀) (hi : i < 512)
    (huniq : ∀ d x, d ≤ 2 → x < 512 ^ d → node m r d x = some q₀ → d = d₀ ∧ x = x₀)
    (hsame : ∀ d x q j, d ≤ 2 → x < 512 ^ d → node m r d x = some q → j < 512 →
      (q = q₀ → j ≠ i) → entry m' q j = entry m q j)
    (hbelow : d₀ < 2 → kid m q₀ i = none ∧
      ∀ q₁, kid m' q₀ i = some q₁ → ∀ j, j < 512 → entry m' q₁ j = 0) :
    ∀ {d x}, d ≤ 3 → x < 512 ^ d →
      node m' r d x = if d = d₀ + 1 ∧ x = 512 * x₀ + i then kid m' q₀ i else node m r d x := by
  intro d
  induction d with
  | zero =>
    intro x _ _
    rw [if_neg (by omega)]
    rfl
  | succ d ih =>
    intro x hd hx
    have hx' := div_lt_pow hx
    have hj : x % 512 < 512 := Nat.mod_lt x (by decide)
    rw [node_succ, ih (by omega) hx']
    by_cases hnew : d = d₀ + 1 ∧ x / 512 = 512 * x₀ + i
    · -- below the stored entry there is nothing, before and after
      obtain ⟨hold, hempty⟩ := hbelow (by omega)
      have hbefore : node m r d (x / 512) = none := by
        have hdiv : x / 512 / 512 = x₀ := by omega
        have hmod : x / 512 % 512 = i := by omega
        rw [hnew.1, node_succ, hdiv, hq₀, hmod, Option.bind_some]
        exact hold
      rw [if_pos hnew, if_neg (by omega), node_succ, hbefore]
      cases hk : kid m' q₀ i with
      | none => rfl
      | some q₁ =>
        rw [Option.bind_some, Option.bind_none, kid, hempty q₁ hk _ hj, pteKid_zero]
    · rw [if_neg hnew]
      by_cases hhere : d + 1 = d₀ + 1 ∧ x = 512 * x₀ + i
      · have hdd : d = d₀ := by omega
        have hdiv : x / 512 = x₀ := by omega
        have hmod : x % 512 = i := by omega
        rw [if_pos hhere, hdd, hdiv, hmod, hq₀, Option.bind_some]
      · rw [if_neg hhere, node_succ]
        cases hq : node m r d (x / 512) with
        | none => rfl
        | some q =>
          have hother : q = q₀ → x % 512 ≠ i := by
            rintro rfl he
            obtain ⟨h₁, h₂⟩ := huniq d (x / 512) (by omega) hx' hq
            omega
          rw [Option.bind_some, Option.bind_some, kid, kid, hsame d _ q _ (by omega) hx' hq hj hother]

/-- A store to an entry of the last level changes the entry of one virtual page. -/
lemma pteAt_set (hq₀ : node m r 2 x₀ = some q₀) (hi : i < 512)
    (huniq : ∀ d x, d ≤ 2 → x < 512 ^ d → node m r d x = some q₀ → d = 2 ∧ x = x₀)
    (hsame : ∀ d x q j, d ≤ 2 → x < 512 ^ d → node m r d x = some q → j < 512 →
      (q = q₀ → j ≠ i) → entry m' q j = entry m q j) (hv : v < 512 ^ 3) :
    pteAt m' r v = if v = 512 * x₀ + i then entry m' q₀ i else pteAt m r v := by
  have hset := node_set hq₀ hi huniq hsame (fun h => absurd h (by decide)) (d := 2) (x := v / 512)
    (by omega) (div_lt_pow hv)
  rw [if_neg (by omega)] at hset
  cases hq : node m r 2 (v / 512) with
  | none =>
    rw [hq] at hset
    rw [pteAt_of_none hset, pteAt_of_none hq, if_neg]
    rintro rfl
    have hdiv : (512 * x₀ + i) / 512 = x₀ := by omega
    rw [hdiv, hq₀] at hq
    cases hq
  | some q =>
    rw [hq] at hset
    rw [pteAt_of_node hset, pteAt_of_node hq]
    have hx' := div_lt_pow hv
    split
    next he =>
      have hdiv : v / 512 = x₀ := by omega
      have hmod : v % 512 = i := by omega
      rw [hdiv, hq₀] at hq
      cases hq
      rw [hmod]
    next hne =>
      apply hsame 2 (v / 512) q _ (by omega) hx' hq (Nat.mod_lt v (by decide))
      rintro rfl he
      obtain ⟨-, h₂⟩ := huniq 2 (v / 512) (by omega) hx' hq
      omega

/-- Adding an empty page-table page changes no entry of a virtual page. -/
lemma pteAt_grow (hq₀ : node m r d₀ x₀ = some q₀) (hi : i < 512) (hd₀ : d₀ < 2)
    (huniq : ∀ d x, d ≤ 2 → x < 512 ^ d → node m r d x = some q₀ → d = d₀ ∧ x = x₀)
    (hsame : ∀ d x q j, d ≤ 2 → x < 512 ^ d → node m r d x = some q → j < 512 →
      (q = q₀ → j ≠ i) → entry m' q j = entry m q j)
    (hold : kid m q₀ i = none)
    (hnew : ∀ q₁, kid m' q₀ i = some q₁ → ∀ j, j < 512 → entry m' q₁ j = 0)
    (hv : v < 512 ^ 3) : pteAt m' r v = pteAt m r v := by
  have hx' := div_lt_pow hv
  have hset := node_set hq₀ hi huniq hsame (fun _ => ⟨hold, hnew⟩) (d := 2) (by omega) hx'
  have hj : v % 512 < 512 := Nat.mod_lt v (by decide)
  by_cases hc : 2 = d₀ + 1 ∧ v / 512 = 512 * x₀ + i
  · rw [if_pos hc] at hset
    have hbefore : node m r 2 (v / 512) = none := by
      have hdiv : v / 512 / 512 = x₀ := by omega
      have hmod : v / 512 % 512 = i := by omega
      have hd : d₀ = 1 := by omega
      rw [hd] at hq₀
      rw [node_succ, hdiv, hq₀, hmod, Option.bind_some]
      exact hold
    rw [pteAt_of_none hbefore]
    cases hk : kid m' q₀ i with
    | none =>
      rw [hk] at hset
      exact pteAt_of_none hset
    | some q₁ =>
      rw [hk] at hset
      rw [pteAt_of_node hset, hnew q₁ hk _ hj]
  · rw [if_neg hc] at hset
    cases hq : node m r 2 (v / 512) with
    | none =>
      rw [hq] at hset
      rw [pteAt_of_none hset, pteAt_of_none hq]
    | some q =>
      rw [hq] at hset
      rw [pteAt_of_node hset, pteAt_of_node hq]
      apply hsame 2 _ q _ (by omega) hx' hq hj
      rintro rfl
      obtain ⟨h₁, -⟩ := huniq 2 _ (by omega) hx' hq
      omega

/-- A table seen from its root: the nodes below entry `i` are the nodes of the
table that this entry refers to. -/
lemma node_top (m : Bytes) (q i d y : Nat) (hi : i < 512) (hy : y < 512 ^ d) :
    node m q (d + 1) (512 ^ d * i + y) = (kid m q i).bind fun c => node m c d y := by
  induction d generalizing y with
  | zero =>
    obtain rfl : y = 0 := by omega
    have hmod : (512 ^ 0 * i + 0) % 512 = i := by omega
    rw [node_succ, hmod, node, Option.bind_some]
    cases kid m q i with
    | none => rfl
    | some c => rfl
  | succ d ih =>
    have hy' := div_lt_pow hy
    have hshift : 512 ^ (d + 1) * i + y = 512 * (512 ^ d * i) + y := by rw [pow_succ', Nat.mul_assoc]
    have hdiv : (512 ^ (d + 1) * i + y) / 512 = 512 ^ d * i + y / 512 := by omega
    have hmod : (512 ^ (d + 1) * i + y) % 512 = y % 512 := by omega
    rw [node_succ, hdiv, hmod, ih (y / 512) hy', Option.bind_assoc]
    simp only [node_succ]

end Xv6.Mem
