import Mathlib

/-!
# Tilings by intervals

An interval is a start and a length. `Tiles bs U` says that the intervals `bs` are
not empty, that no two of them meet, and that together they are the set `U`. Two
intervals that touch may be joined and one may be cut in two (`tiles_join`). `Row a bs b`
says that each interval begins where the one before it ends, so they tile what lies
between `a` and `b`.
-/

namespace Lib

/-- The numbers of an interval. -/
def span (b : Nat × Nat) : Set Nat := {x | b.1 ≤ x ∧ x < b.1 + b.2}

@[simp] lemma mem_span {x : Nat} {b : Nat × Nat} : x ∈ span b ↔ b.1 ≤ x ∧ x < b.1 + b.2 :=
  Iff.rfl

/-- One interval ends before the other begins. -/
def Apart (b c : Nat × Nat) : Prop := b.1 + b.2 ≤ c.1 ∨ c.1 + c.2 ≤ b.1

lemma Apart.symm {b c : Nat × Nat} (h : Apart b c) : Apart c b := Or.symm h

/-- The intervals are not empty, apart from one another, and together the whole set. -/
structure Tiles (bs : List (Nat × Nat)) (U : Set Nat) : Prop where
  pos : ∀ b ∈ bs, 0 < b.2
  apart : bs.Pairwise Apart
  cover : ∀ x, x ∈ U ↔ ∃ b ∈ bs, x ∈ span b

variable {bs cs : List (Nat × Nat)} {U : Set Nat}

lemma tiles_nil : Tiles [] ∅ := ⟨by simp, .nil, by simp⟩

lemma Tiles.perm (h : Tiles bs U) (hperm : bs.Perm cs) : Tiles cs U := by
  refine ⟨fun b hb => h.pos b (hperm.mem_iff.2 hb), hperm.pairwise h.apart Apart.symm, fun x => ?_⟩
  simp only [h.cover, hperm.mem_iff]

/-- Joining two intervals that touch, and cutting one in two. -/
lemma tiles_join {a s t : Nat} (hs : 0 < s) (ht : 0 < t) :
    Tiles ((a, s) :: (a + s, t) :: bs) U ↔ Tiles ((a, s + t) :: bs) U := by
  constructor
  · rintro ⟨hpos, hapart, hcover⟩
    simp only [List.pairwise_cons, List.mem_cons, forall_eq_or_imp, Apart] at hpos hapart
    refine ⟨?_, ?_, fun x => ?_⟩
    · simp only [List.mem_cons, forall_eq_or_imp]
      exact ⟨by omega, hpos.2.2⟩
    · rw [List.pairwise_cons]
      refine ⟨fun c hc => ?_, hapart.2.2⟩
      have h₁ := hapart.1.2 c hc
      have h₂ := hapart.2.1 c hc
      have hc' := hpos.2.2 c hc
      simp only [Apart]
      omega
    · rw [hcover]
      simp only [List.mem_cons, exists_eq_or_imp, mem_span]
      rw [← or_assoc]
      refine or_congr ?_ Iff.rfl
      omega
  · rintro ⟨hpos, hapart, hcover⟩
    simp only [List.pairwise_cons, List.mem_cons, forall_eq_or_imp, Apart] at hpos hapart
    refine ⟨?_, ?_, fun x => ?_⟩
    · simp only [List.mem_cons, forall_eq_or_imp]
      exact ⟨hs, ht, hpos.2⟩
    · simp only [List.pairwise_cons, List.mem_cons, forall_eq_or_imp, Apart]
      refine ⟨⟨by omega, fun c hc => ?_⟩, fun c hc => ?_, hapart.2⟩
      · have := hapart.1 c hc
        omega
      · have := hapart.1 c hc
        omega
    · rw [hcover]
      simp only [List.mem_cons, exists_eq_or_imp, mem_span]
      rw [← or_assoc]
      refine or_congr ?_ Iff.rfl
      omega

/-- A new interval outside the set. -/
lemma Tiles.add {r : Nat × Nat} (h : Tiles bs U) (hr : 0 < r.2) (hout : ∀ b ∈ bs, Apart r b) :
    Tiles (r :: bs) (span r ∪ U) := by
  refine ⟨?_, List.pairwise_cons.2 ⟨hout, h.apart⟩, fun x => ?_⟩
  · simp only [List.mem_cons, forall_eq_or_imp]
    exact ⟨hr, h.pos⟩
  · simp only [Set.mem_union, h.cover, List.mem_cons, exists_eq_or_imp]

/-- Different intervals start at different places. -/
lemma Tiles.nodup (h : Tiles bs U) : (bs.map Prod.fst).Nodup := by
  rw [List.Nodup, List.pairwise_map]
  refine h.apart.imp_of_mem fun {b c} hb hc hbc heq => ?_
  have hbpos := h.pos b hb
  have hcpos := h.pos c hc
  rcases hbc with hbc | hbc <;> omega

/-! ## Rows -/

/-- The intervals follow one another from `a` to `b`. -/
def Row : Nat → List (Nat × Nat) → Nat → Prop
  | a, [], b => a = b
  | a, p :: ps, b => p.1 = a ∧ 0 < p.2 ∧ Row (a + p.2) ps b

lemma Row.append {a b c : Nat} (h : Row a bs b) (h' : Row b cs c) : Row a (bs ++ cs) c := by
  induction bs generalizing a with
  | nil =>
    cases h
    exact h'
  | cons p ps ih => exact ⟨h.1, h.2.1, ih h.2.2⟩

lemma row_singleton {a n : Nat} (hn : 0 < n) : Row a [(a, n)] (a + n) := ⟨rfl, hn, rfl⟩

lemma Row.le {a b : Nat} (h : Row a bs b) : a ≤ b ∧ ∀ p ∈ bs, a ≤ p.1 := by
  induction bs generalizing a with
  | nil => exact ⟨Nat.le_of_eq h, nofun⟩
  | cons p ps ih =>
    obtain ⟨hle, hps⟩ := ih h.2.2
    refine ⟨by omega, fun q hq => ?_⟩
    rcases List.mem_cons.mp hq with rfl | hq
    · exact Nat.le_of_eq h.1.symm
    · exact Nat.le_trans (Nat.le_add_right _ _) (hps q hq)

lemma Row.tiles {a b : Nat} (h : Row a bs b) : Tiles bs {x | a ≤ x ∧ x < b} := by
  induction bs generalizing a with
  | nil =>
    obtain rfl : a = b := h
    refine ⟨nofun, .nil, fun x => ?_⟩
    simp only [Set.mem_ofPred_eq, List.not_mem_nil, false_and, exists_false, iff_false]
    omega
  | cons p ps ih =>
    obtain ⟨hstart, hpos, hrow⟩ := h
    have hle := hrow.le
    have hadd := (ih hrow).add hpos fun q hq => .inl (by rw [hstart]; exact hle.2 q hq)
    refine ⟨hadd.pos, hadd.apart, fun x => ?_⟩
    rw [← hadd.cover x]
    simp only [Set.mem_union, mem_span, Set.mem_ofPred_eq]
    omega

end Lib
