import Mathlib

/-!
# Runs of a step function

A system is a state type, an action type and a partial step function. A run
performs a list of actions and stops at the first that is not enabled. A
property that the first state has and that every enabled step keeps holds at
the end of every run (`run_induction`).
-/

namespace Lib

variable {σ α : Type*}

/-- Perform a list of actions, the first one first. -/
def run (step : σ → α → Option σ) : σ → List α → Option σ
  | s, [] => some s
  | s, a :: as => (step s a).bind fun s' => run step s' as

variable {step : σ → α → Option σ}

@[simp] lemma run_nil (s : σ) : run step s [] = some s := rfl

lemma run_cons {s s' : σ} {a : α} {as : List α} :
    run step s (a :: as) = some s' ↔ ∃ s₁, step s a = some s₁ ∧ run step s₁ as = some s' :=
  Option.bind_eq_some_iff

lemma run_append {s s' : σ} {as bs : List α} :
    run step s (as ++ bs) = some s' ↔
      ∃ s₁, run step s as = some s₁ ∧ run step s₁ bs = some s' := by
  induction as generalizing s with
  | nil => simp
  | cons a as ih =>
    simp only [List.cons_append, run_cons, ih]
    constructor
    · rintro ⟨s₁, h₁, s₂, h₂, h₃⟩
      exact ⟨s₂, ⟨s₁, h₁, h₂⟩, h₃⟩
    · rintro ⟨s₂, ⟨s₁, h₁, h₂⟩, h₃⟩
      exact ⟨s₁, h₁, s₂, h₂, h₃⟩

lemma run_concat {s s' : σ} {as : List α} {a : α} :
    run step s (as ++ [a]) = some s' ↔
      ∃ s₁, run step s as = some s₁ ∧ step s₁ a = some s' := by
  rw [run_append]
  simp [run]

/-- The invariant rule. The property may speak of the actions performed so
far. -/
lemma run_induction {P : List α → σ → Prop} {s s' : σ} {as : List α}
    (hrun : run step s as = some s') (init : P [] s)
    (next : ∀ bs t a t', P bs t → step t a = some t' → P (bs ++ [a]) t') : P as s' := by
  induction as using List.reverseRecOn generalizing s' with
  | nil =>
    cases hrun
    exact init
  | append_singleton as a ih =>
    obtain ⟨s₁, h₁, h₂⟩ := run_concat.mp hrun
    exact next as s₁ a s' (ih h₁) h₂

/-- The rule for a loop over `0 .. n-1` whose rounds may fail: `P k` holds before
round `k`. -/
lemma foldlM_range_induction {P : Nat → σ → Prop} {f : σ → Nat → Option σ} {n : Nat}
    {s s' : σ} (init : P 0 s)
    (next : ∀ {k t t'}, k < n → P k t → f t k = some t' → P (k + 1) t')
    (hrun : (List.range n).foldlM f s = some s') : P n s' := by
  induction n generalizing s' with
  | zero =>
    cases hrun
    exact init
  | succ n ih =>
    rw [List.range_succ, List.foldlM_append, Option.bind_eq_bind,
      Option.bind_eq_some_iff] at hrun
    obtain ⟨t, ht, hlast⟩ := hrun
    have hP : P n t := ih (fun hk => next (Nat.lt_succ_of_lt hk)) ht
    simp only [List.foldlM_cons, List.foldlM_nil, Option.bind_eq_bind,
      Option.bind_eq_some_iff] at hlast
    obtain ⟨u, hu, hlast⟩ := hlast
    cases hlast
    exact next (Nat.lt_succ_self n) hP hu

/-- A step that needs `c`. -/
lemma of_guard {c : Prop} [Decidable c] {s s' : σ} (h : (if c then some s else none) = some s') :
    c ∧ s = s' := by
  rw [Option.ite_none_right_eq_some, Option.some.injEq] at h
  exact h

end Lib
