import Mathlib

/-!
# Programs that may stop with an error

A program over a state `σ` is a function that returns a value and a new state,
or stops with an error. `Returns m s Q` says that `m` started in `s` does
return, and that `Q` holds of what it returns. There is one rule per construct,
so a proof about a program follows its text.
-/

namespace Lib

variable {σ ε α β : Type}

/-- Started in `s`, the program returns a value and a state that satisfy `Q`. -/
def Returns (m : StateT σ (Except ε) α) (s : σ) (Q : α → σ → Prop) : Prop :=
  ∃ a s', m s = .ok (a, s') ∧ Q a s'

variable {m : StateT σ (Except ε) α} {f : α → StateT σ (Except ε) β} {s : σ}
variable {Q Q' : α → σ → Prop} {R : β → σ → Prop}

lemma returns_pure {a : α} (h : Q a s) :
    Returns (pure a : StateT σ (Except ε) α) s Q :=
  ⟨a, s, rfl, h⟩

lemma Returns.mono (h : Returns m s Q) (himp : ∀ a s', Q a s' → Q' a s') : Returns m s Q' := by
  obtain ⟨a, s', hm, hQ⟩ := h
  exact ⟨a, s', hm, himp a s' hQ⟩

lemma bind_of_ok {a : α} {s' : σ} (h : m s = .ok (a, s')) : (m >>= f) s = f a s' := by
  show (m s >>= fun p => f p.1 p.2) = _
  rw [h]
  rfl

/-- The rule for sequences. -/
lemma Returns.bind (h : Returns m s Q) (hf : ∀ a s', Q a s' → Returns (f a) s' R) :
    Returns (m >>= f) s R := by
  obtain ⟨a, s', hm, hQ⟩ := h
  obtain ⟨b, s'', hfa, hR⟩ := hf a s' hQ
  exact ⟨b, s'', (bind_of_ok hm).trans hfa, hR⟩

lemma returns_bind_pure {a : α} (h : Returns (f a) s R) :
    Returns ((pure a : StateT σ (Except ε) α) >>= f) s R := by
  rw [pure_bind]
  exact h

lemma returns_get_bind {f : σ → StateT σ (Except ε) β} (h : Returns (f s) s R) :
    Returns (get >>= f) s R := by
  obtain ⟨b, s', hf, hR⟩ := h
  exact ⟨b, s', hf, hR⟩

lemma returns_modify {g : σ → σ} {Q : PUnit → σ → Prop} (h : Q ⟨⟩ (g s)) :
    Returns (modify g : StateT σ (Except ε) PUnit) s Q :=
  ⟨⟨⟩, g s, rfl, h⟩

/-- A program that returns and has one outcome. -/
lemma returns_of_eq {a : α} {s' : σ} (h : m s = .ok (a, s')) (hQ : Q a s') : Returns m s Q :=
  ⟨a, s', h, hQ⟩

lemma returns_bind_of_eq {a : α} {s' : σ} (h : m s = .ok (a, s')) (hf : Returns (f a) s' R) :
    Returns (m >>= f) s R :=
  (returns_of_eq (Q := fun b t => b = a ∧ t = s') h ⟨rfl, rfl⟩).bind fun b t hbt => by
    rw [hbt.1, hbt.2]
    exact hf

lemma Returns.eq {a : α} {s' : σ} (h : Returns m s Q) (hm : m s = .ok (a, s')) : Q a s' := by
  obtain ⟨b, t, hb, hQ⟩ := h
  rw [hm] at hb
  cases hb
  exact hQ

/-- A program has one outcome, so two things that are known of it hold together. -/
lemma Returns.and (h : Returns m s Q) (h' : Returns m s Q') :
    Returns m s fun a s' => Q a s' ∧ Q' a s' := by
  obtain ⟨a, s', hm, hQ⟩ := h
  exact ⟨a, s', hm, hQ, h'.eq hm⟩

/-- A program whose value is not used. -/
lemma Returns.discard {b c : β} {s' : σ} (h : Returns m s Q)
    (hm : (m >>= fun _ => pure b) s = .ok (c, s')) : ∃ a, Q a s' :=
  (h.bind (R := fun _ s' => ∃ a, Q a s') fun a _ hQ => returns_pure ⟨a, hQ⟩).eq hm

lemma Returns.not_error {e : ε} (h : Returns m s Q) : m s ≠ .error e := by
  obtain ⟨b, t, hb, -⟩ := h
  rw [hb]
  exact fun he => by cases he

end Lib
