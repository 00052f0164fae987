import Xv6.Lib.Returns

/-!
# Programs that may stop with some errors

`Ends m s Q E` is the weaker sister of `Returns`: the program started in `s`
either returns something that satisfies `Q`, or stops with an error that
satisfies `E`.

Many programs only touch a part of the state. `Keeps R E m` says that every
outcome of `m` is related to the start by `R`, whatever the start. `R` is
reflexive and transitive, so `Keeps` composes along the text of a program.
-/

namespace Lib

variable {σ ε α β : Type}

/-- Started in `s`, the program returns a value and a state that satisfy `Q`, or it
stops with an error that satisfies `E`. -/
def Ends (m : StateT σ (Except ε) α) (s : σ) (Q : α → σ → Prop) (E : ε → Prop) : Prop :=
  match m s with
  | .ok (a, s') => Q a s'
  | .error e => E e

variable {m : StateT σ (Except ε) α} {f : α → StateT σ (Except ε) β} {s : σ}
variable {Q Q' : α → σ → Prop} {R : β → σ → Prop} {E E' : ε → Prop}

lemma ends_pure {a : α} (h : Q a s) : Ends (pure a : StateT σ (Except ε) α) s Q E := h

lemma ends_throw {e : ε} (h : E e) : Ends (throw e : StateT σ (Except ε) α) s Q E := h

lemma ends_get {Q : σ → σ → Prop} (h : Q s s) : Ends (get : StateT σ (Except ε) σ) s Q E := h

lemma ends_modify {g : σ → σ} {Q : PUnit → σ → Prop} (h : Q ⟨⟩ (g s)) :
    Ends (modify g : StateT σ (Except ε) PUnit) s Q E := h

lemma ends_trivial (m : StateT σ (Except ε) α) (s : σ) :
    Ends m s (fun _ _ => True) fun _ => True := by
  unfold Ends
  split <;> trivial

lemma Ends.mono (h : Ends m s Q E) (himp : ∀ a s', Q a s' → Q' a s') : Ends m s Q' E := by
  unfold Ends at h ⊢
  split at h
  next a s' _ => exact himp a s' h
  next e _ => exact h

lemma Ends.errors (h : Ends m s Q E) (himp : ∀ e, E e → E' e) : Ends m s Q E' := by
  unfold Ends at h ⊢
  split at h
  next a s' _ => exact h
  next e _ => exact himp e h

lemma Ends.and (h : Ends m s Q E) (h' : Ends m s Q' E') :
    Ends m s (fun a t => Q a t ∧ Q' a t) fun e => E e ∧ E' e := by
  unfold Ends at h h' ⊢
  split at h
  next a s' hm =>
    rw [hm] at h'
    exact ⟨h, h'⟩
  next e hm =>
    rw [hm] at h'
    exact ⟨h, h'⟩

/-- What else is known of the outcome, whatever else the program may stop with. -/
lemma Ends.also (h : Ends m s Q E) (h' : Ends m s Q' E') : Ends m s (fun a t => Q a t ∧ Q' a t) E :=
  (h.and h').errors fun _ he => he.1

/-- The rule for sequences. -/
lemma Ends.bind (h : Ends m s Q E) (hf : ∀ a s', Q a s' → Ends (f a) s' R E) :
    Ends (m >>= f) s R E := by
  unfold Ends at h
  split at h
  next a s' hm =>
    have hbind : (m >>= f) s = f a s' := bind_of_ok hm
    have hnext := hf a s' h
    unfold Ends at hnext ⊢
    rw [hbind]
    exact hnext
  next e hm =>
    have hbind : (m >>= f) s = .error e := by
      show (m s >>= fun p => f p.1 p.2) = _
      rw [hm]
      rfl
    unfold Ends
    rw [hbind]
    exact h

lemma ends_get_bind {f : σ → StateT σ (Except ε) β} (h : Ends (f s) s R E) :
    Ends (get >>= f) s R E :=
  Ends.bind (Q := fun a t => a = s ∧ t = s) (ends_get ⟨rfl, rfl⟩) fun _ _ ⟨ha, ht⟩ => by
    rw [ha, ht]
    exact h

lemma ends_modify_bind {g : σ → σ} {f : PUnit → StateT σ (Except ε) β}
    (h : Ends (f ⟨⟩) (g s) R E) : Ends (modify g >>= f) s R E :=
  Ends.bind (Q := fun _ t => t = g s) (ends_modify rfl) fun _ _ ht => by
    rw [ht]
    exact h

/-- The first program is known to return. -/
lemma ends_bind_of_eq {a : α} {s' : σ} (hm : m s = .ok (a, s')) (h : Ends (f a) s' R E) :
    Ends (m >>= f) s R E :=
  Ends.bind (Q := fun b t => b = a ∧ t = s') (by rw [Ends, hm]; exact ⟨rfl, rfl⟩) fun _ _ ⟨ha, ht⟩ => by
    rw [ha, ht]
    exact h

/-- The program is known to return. -/
lemma ends_of_eq {a : α} {s' : σ} (hm : m s = .ok (a, s')) (h : Q a s') : Ends m s Q E := by
  rw [Ends, hm]
  exact h

lemma Ends.ok {a : α} {s' : σ} (h : Ends m s Q E) (hm : m s = .ok (a, s')) : Q a s' := by
  unfold Ends at h
  rw [hm] at h
  exact h

lemma Ends.error {e : ε} (h : Ends m s Q E) (hm : m s = .error e) : E e := by
  unfold Ends at h
  rw [hm] at h
  exact h

/-- There is no error to stop with. -/
lemma Ends.returns (h : Ends m s Q fun _ => False) : Returns m s Q := by
  unfold Ends at h
  split at h
  next a s' hm => exact ⟨a, s', hm, h⟩
  next => exact h.elim

/-- What is known of every outcome is known of the one that the program has. -/
lemma Returns.and_ends (h : Returns m s Q) (h' : Ends m s Q' E) :
    Returns m s fun a t => Q a t ∧ Q' a t := by
  obtain ⟨a, s', hm, hQ⟩ := h
  exact ⟨a, s', hm, hQ, h'.ok hm⟩

/-! ## Programs that keep part of the state -/

/-- Every outcome is related to the start. -/
def Keeps (R : σ → σ → Prop) (E : ε → Prop) (m : StateT σ (Except ε) α) : Prop :=
  ∀ s, Ends m s (fun _ s' => R s s') E

section

variable {K : σ → σ → Prop}

lemma keeps_pure [Std.Refl K] (a : α) : Keeps K E (pure a : StateT σ (Except ε) α) :=
  fun s => ends_pure (Std.Refl.refl s)

lemma keeps_throw {e : ε} (h : E e) : Keeps K E (throw e : StateT σ (Except ε) α) :=
  fun _ => ends_throw h

lemma keeps_get [Std.Refl K] : Keeps K E (get : StateT σ (Except ε) σ) :=
  fun s => ends_get (Std.Refl.refl s)

lemma keeps_modify {g : σ → σ} (h : ∀ s, K s (g s)) :
    Keeps K E (modify g : StateT σ (Except ε) PUnit) :=
  fun s => ends_modify (h s)

lemma Keeps.bind [IsTrans σ K] (h : Keeps K E m) (hf : ∀ a, Keeps K E (f a)) :
    Keeps K E (m >>= f) := fun s =>
  (h s).bind fun a s' hs => ((hf a) s').mono fun _ _ hs' => IsTrans.trans s s' _ hs hs'

lemma keeps_ite {c : Prop} [Decidable c] {m m' : StateT σ (Except ε) α}
    (h : c → Keeps K E m) (h' : ¬ c → Keeps K E m') : Keeps K E (if c then m else m') := by
  split
  next hc => exact h hc
  next hc => exact h' hc

end

/-! ## Pre- and postconditions -/

/-- Started in a state of `P`, the program returns something of `Q`, or it stops with
an error of `E`. -/
def Triple (P : σ → Prop) (m : StateT σ (Except ε) α) (Q : α → σ → Prop) (E : ε → Prop) : Prop :=
  ∀ s, P s → Ends m s Q E

section

variable {P P' : σ → Prop} {K : σ → σ → Prop}

lemma triple_pure {a : α} (h : ∀ s, P s → Q a s) :
    Triple P (pure a : StateT σ (Except ε) α) Q E :=
  fun s hs => ends_pure (h s hs)

lemma triple_throw {e : ε} (h : E e) : Triple P (throw e : StateT σ (Except ε) α) Q E :=
  fun _ _ => ends_throw h

lemma triple_modify {g : σ → σ} {Q : PUnit → σ → Prop} (h : ∀ s, P s → Q ⟨⟩ (g s)) :
    Triple P (modify g : StateT σ (Except ε) PUnit) Q E :=
  fun s hs => ends_modify (h s hs)

lemma triple_get_bind {f : σ → StateT σ (Except ε) β}
    (h : ∀ s, P s → Triple (fun t => t = s) (f s) R E) : Triple P (get >>= f) R E :=
  fun s hs => ends_get_bind (h s hs s rfl)

lemma Triple.bind (h : Triple P m Q E) (hf : ∀ a, Triple (Q a) (f a) R E) :
    Triple P (m >>= f) R E :=
  fun s hs => (h s hs).bind fun a s' hQ => hf a s' hQ

lemma Triple.pre (h : Triple P m Q E) (himp : ∀ s, P' s → P s) : Triple P' m Q E :=
  fun s hs => h s (himp s hs)

lemma Triple.post (h : Triple P m Q E) (himp : ∀ a s, Q a s → Q' a s) : Triple P m Q' E :=
  fun s hs => (h s hs).mono himp

lemma triple_ite {c : Prop} [Decidable c] {m m' : StateT σ (Except ε) α}
    (h : c → Triple P m Q E) (h' : ¬ c → Triple P m' Q E) :
    Triple P (if c then m else m') Q E := by
  split
  next hc => exact h hc
  next hc => exact h' hc

/-- What the relation keeps, the program keeps. -/
lemma Keeps.triple (h : Keeps K E m) (hP : ∀ s s', K s s' → P s → P s') :
    Triple P m (fun _ => P) E :=
  fun s hs => (h s).mono fun _ s' hK => hP s s' hK hs

end

end Lib
