import Xv6.Fs.Files

/-!
# The inode table in the middle of a call

A call locks inodes and unlocks them again. The specifications here say what `ilock` and
`iunlock` do to a table that is in order, with `begin_op` and `end_op` around them.
-/

namespace Xv6.Fs

open Function Lib
open Xv6.Inode (Dinode ninode)

/-! ## Entries -/

/-- The entry `x` may stand at place `e` of the table. -/
structure GoodEntry [Superblock] (N : Nat → Dinode) (I : Nat → Inode) (e : Nat) (x : Inode) : Prop where
  inum : x.valid = true → x.inum < ninodes
  uniq : ∀ e' < ninode, e' ≠ e → 0 < (I e').ref → (I e').inum ≠ x.inum
  copy : x.valid = true → x.copy = N x.inum ∧ (N x.inum).type ≠ 0

variable {v : Nat → Block} {N : Nat → Dinode} {o : Nat → Option (Nat × Nat)} {I : Nat → Inode}
variable {s s₀ : Fs} {i e : Nat} {K : Nat → Bool} {S : Set Nat} {T : Finset Nat}
variable {E : Stop → Prop}

/-- The entries that are loaded after a change. -/
lemma loaded_update {x : Inode} {e' : Nat} (h : Loaded (update I e x) e') :
    e' = e ∧ 0 < x.ref ∧ x.valid = true ∨ e' ≠ e ∧ Loaded I e' := by
  obtain ⟨hlt, href, hvalid⟩ := h
  by_cases hee : e' = e
  · subst hee
    rw [update_self] at href hvalid
    exact .inl ⟨rfl, href, hvalid⟩
  · rw [update_of_ne hee] at href hvalid
    exact .inr ⟨hee, hlt, href, hvalid⟩

variable [Geometry]

lemma Nodes.good (h : Nodes v N I S) (he : e < ninode) (href : 0 < (I e).ref) : GoodEntry N I e (I e) where
  inum hvalid := h.inum e ⟨he, href, hvalid⟩
  uniq e' he' hne hpos hc := hne (h.uniq e' he' e he hpos href hc)
  copy hvalid := h.copy e ⟨he, href, hvalid⟩

lemma Nodes.setEntry {x : Inode} (h : Nodes v N I S) (hx : 0 < x.ref → GoodEntry N I e x) :
    Nodes v N (update I e x) S where
  disk := h.disk
  fits := h.fits
  copy e' he' := by
    rcases loaded_update he' with ⟨rfl, href, hvalid⟩ | ⟨hee, hl⟩
    · rw [update_self]
      exact (hx href).copy hvalid
    · rw [update_of_ne hee]
      exact h.copy e' hl
  inum e' he' := by
    rcases loaded_update he' with ⟨rfl, href, hvalid⟩ | ⟨hee, hl⟩
    · rw [update_self]
      exact (hx href).inum hvalid
    · rw [update_of_ne hee]
      exact h.inum e' hl
  uniq e₁ h₁ e₂ h₂ hp₁ hp₂ hc := by
    by_cases he₁ : e₁ = e
    · subst he₁
      by_cases he₂ : e₂ = e₁
      · exact he₂.symm
      · rw [update_self] at hp₁ hc
        rw [update_of_ne he₂] at hp₂ hc
        exact absurd hc.symm ((hx hp₁).uniq e₂ h₂ he₂ hp₂)
    · rw [update_of_ne he₁] at hp₁ hc
      by_cases he₂ : e₂ = e
      · subst he₂
        rw [update_self] at hp₂ hc
        exact absurd hc ((hx hp₂).uniq e₁ h₁ he₁ hp₁)
      · rw [update_of_ne he₂] at hp₂ hc
        exact h.uniq e₁ h₁ e₂ h₂ hp₁ hp₂ hc

/-- An entry of the table changes. -/
lemma modifyInode_spec {g : Inode → Inode} (hg : ∀ s, Busy s₀ T K v N o I S s → 0 < (g (I e)).ref →
    GoodEntry N I e (g (I e))) :
    Triple (Busy s₀ T K v N o I S) (modifyInode e g)
      (fun _ => Busy s₀ T K v N o (update I e (g (I e))) S) E :=
  triple_modify fun s hs => {
    at_ := ⟨hs.at_.view, hs.at_.clean, hs.at_.pinned, by
      show update s.itable e (g (s.itable e)) = _
      rw [hs.at_.itable]⟩
    owned := hs.owned
    nodes := hs.nodes.setEntry (hg s hs)
    outstanding := hs.outstanding
    length := hs.length
    mem := hs.mem
    logged := hs.logged }

/-! ## Locks -/

lemma acquiresleep_spec (he : e < ninode) (href : 0 < (I e).ref) (hlock : (I e).lock = false) :
    Triple (Busy s₀ T K v N o I S) (acquiresleep e)
      (fun _ => Busy s₀ T K v N o (update I e { I e with lock := true }) S) E := by
  intro s hs
  refine getInode_bind hs.at_.itable ?_
  rw [if_neg (by simp [hlock])]
  refine modifyInode_spec (fun s hs _ => ?_) s hs
  have hgood := hs.nodes.good he href
  exact ⟨hgood.inum, hgood.uniq, hgood.copy⟩

lemma ilock_spec (he : e < ninode) (href : 0 < (I e).ref) (hi : (I e).inum = i)
    (hlt : i < ninodes) (hlock : (I e).lock = false) (hS : (I e).valid = false → i ∉ S) :
    Triple (Busy s₀ T K v N o I S) (ilock e)
      (fun _ s => (N i).type ≠ 0 ∧
        Busy s₀ T K v N o (update I e { I e with lock := true, valid := true, copy := N i }) S s)
      (fun err => err = .ilockNoType ∧ (N i).type = 0) := by
  intro s hs
  have hgood := hs.nodes.good he href
  refine getInode_bind hs.at_.itable ?_
  rw [if_neg (by omega)]
  refine (acquiresleep_spec he href hlock s hs).bind fun _ t ht => ?_
  cases hvalid : (I e).valid with
  | true =>
    obtain ⟨hcopy, htype⟩ := hgood.copy hvalid
    rw [hi] at hcopy htype
    rw [if_pos rfl]
    have hentry : ({ I e with lock := true, valid := true, copy := N i } : Inode) = { I e with lock := true } := by
      rw [← hcopy, ← hvalid]
    exact ends_pure ⟨htype, hentry ▸ ht⟩
  | false =>
    rw [if_neg (by decide), hi]
    refine (bread_at _ t ht.held).bind fun data u hu => ?_
    have hbusy := ht.of_held hu.1
    rw [hu.2 (.inl (iblock_lt_data hlt)), hs.nodes.disk i hlt (hS hvalid)]
    dsimp only
    by_cases htype : (N i).type = 0
    · apply ends_modify_bind
      rw [if_pos htype]
      exact ends_throw ⟨rfl, htype⟩
    · rw [if_neg htype]
      refine (modifyInode_spec (fun _ _ _ => ?_) u hbusy).bind fun _ w hw => ends_pure ⟨htype, ?_⟩
      · rw [update_self]
        refine ⟨fun _ => hi.symm ▸ hlt, fun e' he' hne hpos => ?_, fun _ => ?_⟩
        · rw [update_of_ne hne] at hpos ⊢
          exact hgood.uniq e' he' hne hpos
        · exact ⟨congrArg N hi.symm, by rwa [hi]⟩
      · rw [update_self, update_idem] at hw
        exact hw

lemma iunlock_spec (he : e < ninode) (href : 0 < (I e).ref) (hlock : (I e).lock = true) :
    Triple (Busy s₀ T K v N o I S) (iunlock e)
      (fun _ => Busy s₀ T K v N o (update I e { I e with lock := false }) S) E := by
  intro s hs
  refine getInode_bind hs.at_.itable ?_
  rw [if_neg (by simp [hlock]; omega)]
  refine modifyInode_spec (fun s hs _ => ?_) s hs
  have hgood := hs.nodes.good he href
  exact ⟨hgood.inum, hgood.uniq, hgood.copy⟩

/-! ## Transactions -/

section

omit [Geometry]

/-- `begin_op` when there is room in the log. -/
lemma beginOp_eq (h : s.lh.length + (s.outstanding + 1) * maxOpBlocks ≤ logSize) :
    beginOp s = .ok ((), { s with outstanding := s.outstanding + 1, logged := [] :: s.logged }) := by
  show (if s.lh.length + (s.outstanding + 1) * maxOpBlocks > logSize then throw .sleeps
    else set { s with outstanding := s.outstanding + 1, logged := [] :: s.logged } : FsM PUnit) s = _
  rw [if_neg (by omega)]
  rfl

/-- The last operation commits. -/
lemma endOp_quiet (h : s.outstanding = 1) :
    Ends endOp s (fun _ s' => s'.lh = [] ∧ s'.outstanding = 0) E := by
  apply ends_modify_bind
  apply ends_get_bind
  rw [if_pos (by show s.outstanding - 1 = 0; omega)]
  refine ends_modify ⟨rfl, ?_⟩
  show s.outstanding - 1 = 0
  omega

end

/-- What concerns neither the blocks nor the table. -/
lemma Sys.same {s' : Fs} (h : Sys K v N o I S s) (hdisk : s'.disk = s.disk) (hcache : s'.cache = s.cache)
    (hlh : s'.lh = s.lh) (hitable : s'.itable = s.itable) : Sys K v N o I S s' where
  at_ := {
    view := fun b hb => by
      rw [← h.at_.view b hb]
      unfold view
      rw [hcache, hdisk]
    clean := by
      rw [hcache, hdisk, hlh]
      exact h.at_.clean
    pinned := by
      rw [hcache, hlh]
      exact h.at_.pinned
    itable := hitable.trans h.at_.itable }
  owned := h.owned
  nodes := h.nodes

lemma endOp_sys : Triple (Sys K v N o I S) endOp (fun _ => Sys K v N o I S) E := fun s hs =>
  (endOp_at s hs.at_).mono fun _ _ hat => ⟨hat, hs.owned, hs.nodes⟩

end Xv6.Fs
