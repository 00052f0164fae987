import Xv6.Inode.TableInv

/-!
# Inodes that are freed and allocated again

The steps of `iget`, `ialloc` and `iput`, and what every run keeps in which `iget` from outside
is only called for inodes with links. Between the two halves of `ialloc` the inode has a type but
no reference and no link, and a process that gets it then can free it again (`stolen_twice`).
The kernel lets that happen: `..` of a directory that is unlinked but still the current one of a
process names an inode that may have no link, and `chdir("..")` gets it.
-/

namespace Xv6.Inode

open Function Lib

namespace Itable

variable {s s' : Itable} {p q e : Nat} {k : Key} {t : Nat} {d : Dinode}

/-- What `iget` does. -/
lemma iget_eq_some (h : s.Inv) (hs : s.iget p k = some (s', e)) :
    e < ninode ∧ ∃ x : Entry, s' = { s.set e x with refs := (p, e) :: s.refs } ∧ x.key = k ∧
      x.ref = (s.entry e).ref + 1 ∧ x.lock = (s.entry e).lock ∧ x.copy = (s.entry e).copy ∧
      (0 < (s.entry e).ref → x.key = (s.entry e).key ∧ x.valid = (s.entry e).valid) ∧
      ((s.entry e).ref = 0 → x.valid = false) ∧
      ∀ a, a ≠ e → 0 < (s.entry a).ref → (s.entry a).key ≠ k := by
  unfold Itable.iget at hs
  split at hs
  next a hfind =>
    cases hs
    have hmem := List.mem_of_find?_eq_some hfind
    have hhas := List.find?_some hfind
    simp only [decide_eq_true_eq] at hhas
    refine ⟨List.mem_range.mp hmem, _, rfl, hhas.2, rfl, rfl, rfl, fun _ => ⟨rfl, rfl⟩,
      fun hz => absurd hhas.1 (by omega), fun b hb hpos hk => hb (h.unique hpos hhas.1 (hk.trans hhas.2.symm))⟩
  next hfind =>
    split at hs
    next a hempty =>
      cases hs
      have hmem := List.mem_of_find?_eq_some hempty
      have hzero := List.find?_some hempty
      simp only [decide_eq_true_eq] at hzero
      refine ⟨List.mem_range.mp hmem, _, rfl, rfl, by rw [hzero], rfl, rfl,
        fun hpos => absurd hpos (by omega), fun _ => rfl, fun b _ hpos hk => ?_⟩
      have hlt : b < ninode := by
        rw [h.refs] at hpos
        obtain ⟨⟨r, b'⟩, hm, hb⟩ := List.countP_pos_iff.mp hpos
        simp only [decide_eq_true_eq] at hb
        exact hb ▸ h.refs_lt hm
      have hnone := List.find?_eq_none.mp hfind b (List.mem_range.mpr hlt)
      simp [hpos, hk] at hnone
    next => cases hs

/-- An inode with links is not about to be freed, nor has `ialloc` just returned it. -/
lemma Inv.linked_iget (h : s.Inv) (hk : s.linked k) (hs : s.iget p k = some (s', e)) : s'.Inv := by
  simp only [Itable.linked, decide_eq_true_eq] at hk
  obtain ⟨htype, hnlink⟩ := hk
  obtain ⟨he, x, rfl, rfl, href, hlock, hcopy, hold, hnew, hnone⟩ := iget_eq_some h hs
  refine h.gain ⟨he, href, hlock, hcopy, hold, hnew, hnone, htype, fun r t hr => ?_,
    fun r hf => ?_, fun r t hf => ?_⟩ p
  · have hl := h.here r
    rw [hr] at hl
    rw [hl.2.1] at hnlink
    exact hnlink rfl
  · have hfree := h.freeing hf
    have hne : s.pc r ≠ .cleared e := fun hc => by
      rw [hc] at hf
      cases hf
    have heq := h.copy_eq hfree.lock hne hfree.valid
    rw [(hold (h.ref_pos (h.lock hfree.lock))).1, ← heq, hfree.nlink] at hnlink
    exact hnlink rfl
  · obtain ⟨h₁, -, -, h₄, -⟩ := h.fresh hf
    rw [(hold (h.ref_pos h₁)).1, h₄] at hnlink
    exact hnlink rfl

/-- The last step of `ialloc`. -/
lemma Inv.grant (h : s.Inv) (hpc : s.pc p = .marked t k) (hs : s.iget p k = some (s', e)) :
    ((s'.goto p .idle).give p e t k).Inv := by
  have hl := h.here p
  rw [hpc] at hl
  obtain ⟨ht, hdisk, hquiet, hnone⟩ := hl
  obtain ⟨he, x, rfl, rfl, href, hlock, hcopy, hold, hnew, hsole⟩ := iget_eq_some h hs
  -- the references that the entry has belong to an `iput` that is about to end
  have hfin : ∀ q, (q, e) ∈ s.refs → (s.pc q).finishing = some e := fun q hq =>
    (hquiet e (h.ref_pos hq) (hold (h.ref_pos hq)).1.symm).2.1 q hq
  have hone : (s.entry e).ref ≤ 1 := by
    rcases Nat.eq_zero_or_pos (s.entry e).ref with hz | hz
    · omega
    · exact Nat.le_of_eq (hquiet e hz (hold hz).1.symm).1
  have hpcs : ∀ q, q ≠ p → (s.goto p .idle).pc q = s.pc q := fun q hq => by rw [goto_pc, if_neg hq]
  have hunmarked : ∀ r t', (s.goto p .idle).pc r ≠ .marked t' x.key := fun r t' hr => by
    by_cases hrp : r = p
    · simp [hrp] at hr
    · rw [hpcs r hrp] at hr
      exact hrp (h.marked hr hpc)
  have h₀ : (s.goto p .idle).Inv :=
    h.move (.inl (by rw [hpc]; rfl)) (by simp [hpc]) (by simp) (by simp [Pc.puts]) trivial
  have h₁ : { (s.goto p .idle).set e x with refs := (p, e) :: s.refs }.Inv := by
    refine h₀.gain ⟨he, href, hlock, hcopy, hold, hnew, hsole, ?_, hunmarked, fun r hr => ?_,
      fun r t' hf => ?_⟩ p
    · show (s.disk x.key).type ≠ 0
      rw [hdisk]
      exact ht
    · by_cases hrp : r = p
      · simp [hrp, Pc.frees] at hr
      · rw [hpcs r hrp] at hr
        have hf := hfin r (h.lock (h.freeing hr).lock)
        cases hc : s.pc r <;> simp [hc, Pc.frees, Pc.finishing] at hr hf
    · obtain ⟨hm, hp, -⟩ := h.fresh (show s.fresh r = some (e, t') from hf)
      have hf := hfin r hm
      cases hc : s.pc r <;> simp [hc, Pc.puts, Pc.finishing] at hp hf
      · exact hp hf
      · exact hp hf
  refine h₁.record (fun {q t' k} hq => ?_) (fun {k} hk => ?_) (fun {q a t'} hf => ?_) fun k => ?_
  · have hne : k ≠ x.key := by
      rintro rfl
      exact hunmarked q t' hq
    have hl := h₀.here q
    rw [show (s.goto p .idle).pc q = .marked t' k from hq] at hl
    exact (update_of_ne hne _ _).trans hl.2.2.2
  · have hne : k ≠ x.key := by
      rintro rfl
      have hk' : (s.disk x.key).type = 0 := hk
      rw [hdisk] at hk'
      exact ht hk'
    exact (update_of_ne hne _ _).trans (h.free hk).2
  · by_cases hq : q = p
    · subst hq
      simp only [update_self, Option.some.injEq, Prod.mk.injEq] at hf
      obtain ⟨rfl, rfl⟩ := hf
      refine .inr ⟨List.mem_cons_self, by simp [set, Pc.puts], ht, ?_, ?_, fun r hr => ?_⟩
      · simpa [set, goto] using hdisk
      · simp only [set_entry, if_pos, href]
        omega
      · rcases List.mem_cons.mp hr with hr | hr
        · cases hr
          exact .inl rfl
        · by_cases hrp : r = q
          · exact .inl hrp
          · right
            show ((s.goto q .idle).pc r).finishing = some e
            rw [hpcs r hrp]
            exact hfin r hr
    · rw [update_of_ne hq] at hf
      exact .inl hf
  · by_cases hk : k = x.key
    · subst hk
      simp [goto, set, hnone]
    · rw [update_of_ne hk]
      exact h.owners k

lemma Inv.mark {dev inum : Nat} (h : s.Inv) (hpc : s.pc p = .scan t dev inum)
    (hfree : (s.disk k).type = 0) : ((s.write k (Dinode.fresh t)).goto p (.marked t k)).Inv := by
  have ht : t ≠ 0 := by
    have hl := h.here p
    rwa [hpc] at hl
  obtain ⟨hquiet, howners⟩ := h.free hfree
  have hpc' : (s.write k (Dinode.fresh t)).pc p = .scan t dev inum := hpc
  refine (h.write ht hfree).move (.inl (by rw [hpc']; rfl)) (by simp [hpc']) ?_ (by simp [Pc.puts])
    ⟨ht, update_self _ _ _, hquiet, howners⟩
  intro t' k' hk q t'' _ hq
  cases hk
  have hl := h.here q
  rw [show s.pc q = .marked t'' k from hq] at hl
  rw [hl.2.1] at hfree
  exact hl.1 hfree

lemma Inv.fresh_ne (h : s.Inv) (hp : (s.pc p).puts = some e) (t : Nat) : s.fresh p ≠ some (e, t) :=
  fun hf => (h.fresh hf).2.1 hp

/-- `iput` truncates the file. -/
lemma Inv.trunc (h : s.Inv) (hpc : s.pc p = .trunc e) (hd : d.type = (s.entry e).copy.type)
    (hnlink : d.nlink = (s.entry e).copy.nlink) : ((s.iupdate e d).goto p (.clear e)).Inv := by
  have hf := h.freeing (p := p) (e := e) (by rw [hpc]; rfl)
  have hm := h.lock hf.lock
  have hfin : (s.pc p).finishing ≠ some e := by simp [hpc, Pc.finishing]
  have hfresh := h.fresh_ne (p := p) (e := e) (by rw [hpc]; rfl)
  have hcopy := h.copy_eq hf.lock (by simp [hpc]) hf.valid
  have hfree' : (s.iupdate e d).Freeing p e := by
    refine ⟨?_, ?_, ?_, ?_⟩ <;> simp [Itable.iupdate, Itable.write, hf.lock, hf.valid, hf.nlink,
      hf.ref, hnlink]
  have h₁ : (s.iupdate e d).Inv := by
    refine h.iupdate hf.lock (h.not_marked hm hfin) (fun q t hq => ?_) (fun hz => ?_) ?_
    · obtain ⟨rfl, -⟩ := h.fresh_self hm hfin hq rfl
      exact hfresh t hq
    · rw [hd, hcopy] at hz
      exact absurd hz (h.type_ne hm hfin)
    · rw [hpc]
      exact hfree'
  have hpc' : (s.iupdate e d).pc p = .trunc e := hpc
  refine h₁.move (.inl (by rw [hpc']; rfl)) (by simp [hpc']) (by simp) (fun a t ha hq => ?_) hfree'
  cases ha
  exact hfresh t hq

/-- `iput` writes type 0. -/
lemma Inv.clear (h : s.Inv) (hpc : s.pc p = .clear e) :
    (((s.iupdate e { (s.entry e).copy with type := 0 }).disown (s.entry e).key).goto p
      (.cleared e)).Inv := by
  have hf := h.freeing (p := p) (e := e) (by rw [hpc]; rfl)
  have hm := h.lock hf.lock
  have hfin : (s.pc p).finishing ≠ some e := by simp [hpc, Pc.finishing]
  have hfresh : ∀ q t, s.fresh q ≠ some (e, t) := fun q t hq => by
    obtain ⟨rfl, -⟩ := h.fresh_self hm hfin hq rfl
    exact h.fresh_ne (by rw [hpc]; rfl) t hq
  -- the steps in another order: first nobody relies on the inode any more
  have h₁ : (s.goto p (.cleared e)).Inv := by
    refine h.move (.inl (by rw [hpc]; rfl)) (by simp [hpc]) (by simp) (fun a t ha hq => ?_) hf.lock
    cases ha
    exact hfresh p t hq
  have hpcs : ∀ q, (s.goto p (.cleared e)).pc q = if q = p then .cleared e else s.pc q := goto_pc s p _
  have hunmarked : ∀ q t, (s.goto p (.cleared e)).pc q ≠ .marked t (s.entry e).key := fun q t hq => by
    rw [hpcs] at hq
    split at hq
    next => cases hq
    next => exact h.not_marked hm hfin q t hq
  have hquiet : (s.goto p (.cleared e)).Quiet (s.entry e).key := fun a hpos ha => by
    obtain rfl := h.unique hpos (h.ref_pos hm) ha
    refine ⟨hf.ref, fun q hq => ?_, fun _ => ⟨p, by rw [hpcs, if_pos rfl]⟩⟩
    rw [h.ref_one hf.ref hm hq, hpcs, if_pos rfl]
    rfl
  have h₂ : ((s.goto p (.cleared e)).disown (s.entry e).key).Inv := by
    refine h₁.record (fun {q t k} hq => ?_) (fun {k} hk => ?_) (fun hq => .inl hq) fun k => ?_
    · have hne : k ≠ (s.entry e).key := by
        rintro rfl
        exact hunmarked q t hq
      have hl := h₁.here q
      rw [hq] at hl
      exact (update_of_ne hne _ _).trans hl.2.2.2
    · have hne : k ≠ (s.entry e).key := by
        rintro rfl
        exact h.type_ne hm hfin hk
      exact (update_of_ne hne _ _).trans (h.free hk).2
    · by_cases hk : k = (s.entry e).key
      · subst hk
        simp [goto]
      · exact (congrArg List.length (update_of_ne hk _ _)).trans_le (h.owners k)
  have h₃ := h₂.iupdate (p := p) (e := e) (d := { (s.entry e).copy with type := 0 }) hf.lock hunmarked
    hfresh (fun _ => ⟨hquiet, update_self _ _ _⟩) ?_
  · exact h₃
  · rw [show ((s.goto p (.cleared e)).disown (s.entry e).key).pc p = .cleared e from by
      rw [disown, hpcs, if_pos rfl]]
    simp [Local, Itable.iupdate, Itable.write, disown, goto, set, hf.lock]

lemma Inv.next (h : s.Inv) (hs : s.next p = some s') : s'.Inv := by
  have hl := h.here p
  unfold Itable.next at hs
  cases hpc : s.pc p with
  | idle => simp [hpc] at hs
  | scan t dev inum =>
    simp only [hpc] at hs hl
    split at hs
    next =>
      split at hs
      next hfree =>
        cases hs
        exact h.mark hpc hfree
      next =>
        cases hs
        exact h.move (.inl (by rw [hpc]; rfl)) (by simp [hpc]) (by simp) (by simp [Pc.puts]) hl
    next =>
      cases hs
      exact h.move (.inl (by rw [hpc]; rfl)) (by simp [hpc]) (by simp) (by simp [Pc.puts]) trivial
  | marked t k =>
    simp only [hpc] at hs
    obtain ⟨⟨s₁, e⟩, hget, rfl⟩ := Option.map_eq_some_iff.mp hs
    exact h.grant hpc hget
  | acquire e =>
    rw [hpc] at hs hl
    obtain ⟨hnone, hs⟩ := Option.ite_none_right_eq_some.mp hs
    cases hs
    refine h.touch rfl rfl hl (.inr (.inl ⟨hnone, rfl⟩)) (.inl ⟨rfl, rfl⟩)
      (.inl (by rw [hpc]; rfl)) (by simp [hpc]) ?_ ?_ ?_
    · intro t k
      split <;> simp
    · intro a t
      split <;> simp [Pc.puts]
    · split
      next => trivial
      next => simp [Local]
  | read e =>
    rw [hpc] at hs hl
    obtain ⟨-, hs⟩ := Option.ite_none_left_eq_some.mp hs
    cases hs
    exact h.touch rfl rfl (h.lock hl) (.inl rfl)
      (.inr ⟨hl, .inr ⟨by simp [hpc, Pc.finishing], rfl⟩⟩) (.inl (by rw [hpc]; rfl))
      (by simp [hpc]) (by simp) (by simp [Pc.puts]) trivial
  | put e =>
    rw [hpc] at hs hl
    have hfresh := h.fresh_ne (p := p) (e := e) (by rw [hpc]; rfl)
    simp only at hs
    split at hs
    next hcond =>
      obtain ⟨hnone, hs⟩ := Option.ite_none_right_eq_some.mp hs
      cases hs
      refine h.touch rfl rfl hl.1 (.inr (.inl ⟨hnone, rfl⟩)) (.inl ⟨rfl, rfl⟩)
        (.inl (by rw [hpc]; rfl)) (by simp [hpc]) (by simp) (fun a t ha hq => ?_) ?_
      · cases ha
        exact hfresh t hq
      · exact ⟨by simp, by simp [hcond.2.1], by simp [hcond.2.2], by simp [hcond.1]⟩
    next =>
      cases hs
      exact h.unref (.inl hpc)
  | trunc e =>
    rw [hpc] at hs
    cases hs
    exact h.trunc hpc rfl rfl
  | clear e =>
    rw [hpc] at hs
    cases hs
    exact h.clear hpc
  | cleared e =>
    rw [hpc] at hs hl
    cases hs
    refine h.touch rfl rfl (h.lock hl) (.inr (.inr ⟨hl, rfl⟩)) (.inr ⟨hl, .inl rfl⟩)
      (.inr (by rw [hpc]; rfl)) (fun a ha => ?_) (by simp) (fun a t ha hq => ?_) ⟨h.lock hl, by simp⟩
    · rw [hpc] at ha
      cases ha
      exact ⟨rfl, rfl⟩
    · cases ha
      exact h.fresh_ne (by rw [hpc]; rfl) t hq
  | drop e =>
    rw [hpc] at hs
    cases hs
    exact h.unref (.inr hpc)

lemma goto_self {pc : Pc} (hpc : s.pc p = pc) : s.goto p pc = s := by
  rw [goto, ← hpc, update_eq_self]

lemma Inv.step {a : Action} (h : s.Inv) (hs : s.step linked a = some s') : s'.Inv := by
  cases a with
  | iget p k =>
    simp only [Itable.step, Option.ite_none_right_eq_some] at hs
    obtain ⟨⟨-, hk⟩, hs⟩ := hs
    obtain ⟨⟨s₁, e⟩, hget, rfl⟩ := Option.map_eq_some_iff.mp hs
    exact h.linked_iget hk hget
  | idup p q e =>
    simp only [Itable.step, Option.ite_none_right_eq_some] at hs
    obtain ⟨⟨hpc, hm⟩, hs⟩ := hs
    cases hs
    have hfin : (s.pc p).finishing ≠ some e := by simp [hpc, Pc.finishing]
    have hpos := h.ref_pos hm
    refine (h.use p e).gain (x := { s.entry e with ref := (s.entry e).ref + 1 }) ⟨h.refs_lt hm, rfl, rfl,
      rfl, fun _ => ⟨rfl, rfl⟩, fun hz => ?_,
      fun a hne hpos' hk => hne (h.unique hpos' hpos hk), h.type_ne hm hfin,
      h.not_marked hm hfin, fun r hr => ?_, fun r t hf => ?_⟩ q
    · exact absurd hpos (by simp [show (s.entry e).ref = 0 from hz])
    · have hf := h.freeing hr
      rw [h.ref_one hf.ref hm (h.lock hf.lock)] at hr
      rw [show (s.use p e).pc p = .idle from hpc] at hr
      cases hr
    · obtain ⟨rfl, -⟩ := (h.use p e).fresh_self hm hfin hf rfl
      exact use_fresh s r e t hf
  | ilock p e =>
    simp only [Itable.step, Option.ite_none_right_eq_some] at hs
    obtain ⟨⟨hpc, hm, -⟩, hs⟩ := hs
    cases hs
    exact h.move (.inl (by rw [hpc]; rfl)) (by simp [hpc]) (by simp) (by simp [Pc.puts]) hm
  | iunlock p e =>
    simp only [Itable.step, Option.ite_none_right_eq_some] at hs
    obtain ⟨⟨hpc, hl⟩, hs⟩ := hs
    cases hs
    have hpc' : ((s.use p e).set e { s.entry e with lock := none }).pc p = .idle := hpc
    rw [← goto_self hpc']
    exact (h.use p e).touch rfl rfl (h.lock hl) (.inr (.inr ⟨hl, rfl⟩)) (.inl ⟨rfl, rfl⟩)
      (.inl (by rw [show (s.use p e).pc p = .idle from hpc]; rfl))
      (by simp [show (s.use p e).pc p = .idle from hpc]) (by simp) (by simp [Pc.puts]) trivial
  | update p e d =>
    simp only [Itable.step, Option.ite_none_right_eq_some] at hs
    obtain ⟨⟨hpc, hl, hv, hd⟩, hs⟩ := hs
    cases hs
    have hm := h.lock hl
    have hfin : (s.pc p).finishing ≠ some e := by simp [hpc, Pc.finishing]
    refine (h.use p e).iupdate hl (h.not_marked hm hfin) (fun q t hf => ?_) (fun hz => ?_) ?_
    · obtain ⟨rfl, -⟩ := (h.use p e).fresh_self hm hfin hf rfl
      exact use_fresh s q e t hf
    · rw [hd, h.copy_eq hl (by simp [hpc]) hv] at hz
      exact absurd hz (h.type_ne hm hfin)
    · rw [show (s.use p e).pc p = .idle from hpc]
      trivial
  | iput p e =>
    simp only [Itable.step, Option.ite_none_right_eq_some] at hs
    obtain ⟨⟨hpc, hm, hl⟩, hs⟩ := hs
    cases hs
    have hpc' : (s.use p e).pc p = .idle := hpc
    refine (h.use p e).move (.inl (by rw [hpc']; rfl)) (by simp [hpc']) (by simp) (fun a t ha => ?_)
      ⟨hm, hl⟩
    cases ha
    exact use_fresh s p e t
  | ialloc p type dev =>
    simp only [Itable.step, Option.ite_none_right_eq_some] at hs
    obtain ⟨⟨hpc, ht⟩, hs⟩ := hs
    cases hs
    exact h.move (.inl (by rw [hpc]; rfl)) (by simp [hpc]) (by simp) (by simp [Pc.puts]) ht
  | next p => exact h.next hs

/-! ## Every run -/

lemma run_inv {n : Nat} {disk : Key → Dinode} {as : List Action}
    (hrun : run (step linked) (start n disk) as = some s) : s.Inv :=
  run_induction (P := fun _ s => s.Inv) hrun (start_inv n disk) fun _ _ _ _ h hs => h.step hs

/-- Every run from any disk in which `iget` is called, but by `ialloc`, for inodes with links
only. No inode has two entries, the lock that `iput` takes is free, an inode is returned by
one call of `ialloc` before it is freed again, and the caller of `ialloc` finds in it what
`ialloc` wrote. -/
theorem reuse_run {n : Nat} {disk : Key → Dinode} {as : List Action}
    (hrun : run (step linked) (start n disk) as = some s) :
    (∀ e e', 0 < (s.entry e).ref → 0 < (s.entry e').ref → (s.entry e).key = (s.entry e').key → e = e') ∧
    (∀ p e, s.pc p = .put e → (s.entry e).ref = 1 → (s.entry e).valid →
      (s.entry e).copy.nlink = 0 → (s.entry e).lock = none) ∧
    (∀ k, (s.owners k).length ≤ 1) ∧
    (∀ p t k, s.pc p = .marked t k → s.disk k = Dinode.fresh t ∧ s.owners k = []) ∧
    ∀ p e t, s.fresh p = some (e, t) → (s.entry e).lock = some p → (s.entry e).valid →
      (s.entry e).copy = Dinode.fresh t := by
  have h := run_inv hrun
  refine ⟨fun e e' => h.unique, fun p e hpc href _ _ => ?_, h.owners, fun p t k hpc => ?_,
    fun p e t hf hl hv => ?_⟩
  · have hl := h.here p
    rw [hpc] at hl
    cases hlock : (s.entry e).lock with
    | none => rfl
    | some q =>
      have hq := h.ref_one href hl.1 (h.lock hlock)
      rw [hq] at hlock
      exact absurd hlock hl.2
  · have hl := h.here p
    rw [hpc] at hl
    exact ⟨hl.2.1, hl.2.2.2⟩
  · obtain ⟨-, hp, -, hd, -⟩ := h.fresh hf
    rw [h.copy_eq hl (fun hc => hp (by rw [hc]; rfl)) hv, hd]

/-- A disk whose only inode with links is the root directory. -/
def smallDisk (k : Key) : Dinode :=
  if k = (1, 1) then { Dinode.fresh 1 with nlink := 1, size := 32 } else Dinode.fresh 0

/-- Process 0 allocates an inode and puts it without a link. While it is freed, process 1
allocates it again, and locks it. -/
def reuse : List Action :=
  [.ialloc 0 2 1, .next 0, .next 0, .next 0, .ilock 0 0, .next 0, .next 0, .iunlock 0 0, .iput 0 0,
   .next 0, .next 0, .next 0, .ialloc 1 3 1, .next 1, .next 1, .next 1, .ilock 1 0, .next 0, .next 1,
   .next 1]

theorem reuse_run_small : ∃ s, run (step linked) (start 10 smallDisk) reuse = some s ∧
    s.fresh 1 = some (0, 3) ∧ (s.entry 0).lock = some 1 ∧ (s.entry 0).copy = Dinode.fresh 3 := by
  have hsome : (run (step linked) (start 10 smallDisk) reuse).map
      (fun s => (s.fresh 1, (s.entry 0).lock, (s.entry 0).valid)) = some (some (0, 3), some 1, true) := by
    decide +kernel
  obtain ⟨s, hs, hall⟩ := Option.map_eq_some_iff.mp hsome
  simp only [Prod.mk.injEq] at hall
  obtain ⟨hfresh, hlock, hvalid⟩ := hall
  exact ⟨s, hs, hfresh, hlock, (reuse_run hs).2.2.2.2 1 0 3 hfresh hlock hvalid⟩

/-- Process 0 has marked inode 2 when process 1 gets it, locks it and puts it, as in `chdir("..")`
to a file. So it is freed, and process 2 allocates it. -/
def stolen : List Action :=
  [.ialloc 0 2 1, .next 0, .next 0, .iget 1 (1, 2), .ilock 1 0, .next 1, .next 1, .iunlock 1 0,
   .iput 1 0, .next 1, .next 1, .next 1, .next 1, .next 1, .ialloc 2 2 1, .next 2, .next 2, .next 0,
   .next 2]

/-- If `iget` may be called for any inode that is not free, two calls of `ialloc` can return
the same one. -/
theorem stolen_twice : ∃ s, run (step allocated) (start 10 smallDisk) stolen = some s ∧
    s.owners (1, 2) = [0, 2] ∧ (s.disk (1, 2)).type ≠ 0 := by
  have hsome : (run (step allocated) (start 10 smallDisk) stolen).map
      (fun s => (s.owners (1, 2), (s.disk (1, 2)).type)) = some ([0, 2], 2) := by decide +kernel
  obtain ⟨s, hs, hall⟩ := Option.map_eq_some_iff.mp hsome
  simp only [Prod.mk.injEq] at hall
  exact ⟨s, hs, hall.1, by rw [hall.2]; decide⟩

end Itable

end Xv6.Inode
