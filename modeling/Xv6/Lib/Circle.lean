import Mathlib

/-!
# Circular doubly linked lists

Nodes of any type with a `next` and a `prev` pointer. `Circle L h xs` says that
from `h` the `next` pointers go through the nodes `xs` and back to `h`, and that
the `prev` pointers go the same way backwards. Inserting a node behind `h`,
taking a node out, and searching in either direction are the list operations
one expects.
-/

namespace Lib

open Function

variable {α : Type} [DecidableEq α]

/-- The pointers of all nodes. -/
structure Links (α : Type) where
  next : α → α
  prev : α → α

/-- Put `b` between `h` and the node after it. -/
def Links.insertAfter (L : Links α) (h b : α) : Links α :=
  let L := { L with next := update L.next b (L.next h) }
  let L := { L with prev := update L.prev b h }
  let L := { L with prev := update L.prev (L.next h) b }
  { L with next := update L.next h b }

/-- Take `b` out. -/
def Links.unlink (L : Links α) (b : α) : Links α :=
  let L := { L with prev := update L.prev (L.next b) (L.prev b) }
  { L with next := update L.next (L.prev b) (L.next b) }

/-- Follow pointers from `b` to the first node that satisfies `good`, or to `h`. -/
def search (next : α → α) (h : α) (good : α → Bool) : Nat → α → Option α
  | 0, _ => none
  | fuel + 1, b => if b = h then none else if good b then some b else search next h good fuel (next b)

omit [DecidableEq α] in
/-- The pointers of `a` and `b` refer to each other. -/
def Links.Joined (L : Links α) (a b : α) : Prop := L.next a = b ∧ L.prev b = a

/-- From `a` through `xs` to `b`. -/
def Links.Path (L : Links α) : α → List α → α → Prop
  | a, [], b => L.Joined a b
  | a, x :: xs, b => L.Joined a x ∧ L.Path x xs b

/-- From `h` through `xs` back to `h`. -/
structure Links.Circle (L : Links α) (h : α) (xs : List α) : Prop where
  path : L.Path h xs h
  fresh : h ∉ xs
  nodup : xs.Nodup

variable {L L' : Links α} {a b c h x : α} {xs ys : List α}

section Path

omit [DecidableEq α]

lemma Links.path_append :
    L.Path a (xs ++ x :: ys) b ↔ L.Path a xs x ∧ L.Path x ys b := by
  induction xs generalizing a with
  | nil => rfl
  | cons y xs ih => simp only [List.cons_append, Links.Path, ih, and_assoc]

/-- A path depends on the `next` pointers of its nodes but the last, and on the
`prev` pointers of its nodes but the first. -/
lemma Links.Path.congr (hp : L.Path a xs b) (hnext : ∀ y ∈ a :: xs, L'.next y = L.next y)
    (hprev : ∀ y ∈ xs ++ [b], L'.prev y = L.prev y) : L'.Path a xs b := by
  induction xs generalizing a with
  | nil =>
    constructor
    · rw [hnext a (by simp)]
      exact hp.1
    · rw [hprev b (by simp)]
      exact hp.2
  | cons x xs ih =>
    obtain ⟨hax, hp⟩ := hp
    refine ⟨⟨?_, ?_⟩, ih hp (fun y hy => hnext y (List.mem_cons_of_mem a hy))
      fun y hy => hprev y (List.mem_cons_of_mem x hy)⟩
    · rw [hnext a (by simp)]
      exact hax.1
    · rw [hprev x (by simp)]
      exact hax.2

lemma Links.Path.prev_mem (hp : L.Path a xs b) : L.prev b ∈ a :: xs := by
  induction xs generalizing a with
  | nil =>
    rw [hp.2]
    simp
  | cons x xs ih => exact List.mem_cons_of_mem a (ih hp.2)

lemma Links.Path.next_mem (hp : L.Path a xs b) : L.next a ∈ xs ++ [b] := by
  cases xs with
  | nil => simp [hp.1]
  | cons x xs => simp [hp.1.1]

/-- The last pointers of a path are bent to another node. -/
lemma Links.Path.bend (hp : L.Path a xs b) (hnodup : (a :: xs).Nodup)
    (hnext : ∀ y ∈ a :: xs, y ≠ L.prev b → L'.next y = L.next y) (hlast : L'.next (L.prev b) = c)
    (hprev : ∀ y ∈ xs, L'.prev y = L.prev y) (hc : L'.prev c = L.prev b) : L'.Path a xs c := by
  induction xs generalizing a with
  | nil =>
    have he : L.prev b = a := hp.2
    rw [he] at hlast hc
    exact ⟨hlast, hc⟩
  | cons x xs ih =>
    obtain ⟨hax, hp⟩ := hp
    have hne : a ≠ L.prev b := by
      intro he
      rw [List.nodup_cons] at hnodup
      exact hnodup.1 (he ▸ hp.prev_mem)
    refine ⟨⟨?_, ?_⟩, ih hp (List.nodup_cons.mp hnodup).2
      (fun y hy => hnext y (List.mem_cons_of_mem a hy))
      fun y hy => hprev y (List.mem_cons_of_mem x hy)⟩
    · rw [hnext a (by simp) hne]
      exact hax.1
    · rw [hprev x (by simp)]
      exact hax.2

/-- The same path backwards. -/
lemma Links.Path.reverse (hp : L.Path a xs b) :
    Links.Path { next := L.prev, prev := L.next } b xs.reverse a := by
  induction xs generalizing a with
  | nil => exact ⟨hp.2, hp.1⟩
  | cons x xs ih =>
    rw [List.reverse_cons]
    exact Links.path_append.mpr ⟨ih hp.2, hp.1.2, hp.1.1⟩

lemma Links.Path.prev_next (hp : L.Path a xs b) : L.prev (L.next a) = a := by
  cases xs with
  | nil => rw [hp.1, hp.2]
  | cons x xs => rw [hp.1.1, hp.1.2]

lemma Links.Path.next_prev (hp : L.Path a xs b) : L.next (L.prev b) = b := hp.reverse.prev_next

end Path

/-- A search along a path finds the first good node of it. -/
lemma Links.Path.search_eq {good : α → Bool} {fuel : Nat} (hp : L.Path a xs h) (hfresh : h ∉ xs)
    (hfuel : xs.length < fuel) : search L.next h good fuel (L.next a) = xs.find? good := by
  induction xs generalizing a fuel with
  | nil =>
    cases fuel with
    | zero => simp at hfuel
    | succ fuel => simp [search, hp.1]
  | cons x xs ih =>
    cases fuel with
    | zero => simp at hfuel
    | succ fuel =>
      obtain ⟨hax, hp⟩ := hp
      have hne : x ≠ h := fun he => hfresh (by simp [he])
      have hrest := ih hp (fun hm => hfresh (List.mem_cons_of_mem x hm))
        (Nat.lt_of_succ_lt_succ hfuel)
      rw [hax.1, search, if_neg hne, List.find?_cons, hrest]
      cases good x <;> rfl

/-! ## Circles -/

namespace Links.Circle

lemma search_next {good : α → Bool} {fuel : Nat} (hc : L.Circle h xs) (hfuel : xs.length < fuel) :
    search L.next h good fuel (L.next h) = xs.find? good :=
  hc.path.search_eq hc.fresh hfuel

lemma search_prev {good : α → Bool} {fuel : Nat} (hc : L.Circle h xs) (hfuel : xs.length < fuel) :
    search L.prev h good fuel (L.prev h) = xs.reverse.find? good :=
  hc.path.reverse.search_eq (by simpa using hc.fresh) (by simpa using hfuel)

/-- A node that is not in the circle goes to its front. -/
lemma insertAfter (hc : L.Circle h xs) (hb : b ≠ h) (hfresh : b ∉ xs) :
    (L.insertAfter h b).Circle h (b :: xs) where
  path := by
    have hjoin : (L.insertAfter h b).Joined h b := by
      have hnext : L.next h ≠ b := by
        intro he
        have := hc.path.next_mem
        rw [he, List.mem_append, List.mem_singleton] at this
        exact this.elim hfresh hb
      simp [Links.Joined, Links.insertAfter, update_of_ne hb.symm, update_of_ne hnext.symm]
    refine ⟨hjoin, ?_⟩
    have hpath := hc.path
    cases xs with
    | nil =>
      have he : L.next h = h := hpath.1
      simp [Links.Path, Links.Joined, Links.insertAfter, update_of_ne hb, he,
        update_of_ne hb.symm]
    | cons c xs =>
      obtain ⟨hhc, hpath⟩ := hpath
      have hcb : c ≠ b := fun he => hfresh (by simp [he])
      have hch : c ≠ h := fun he => hc.fresh (by simp [he])
      refine ⟨?_, hpath.congr (fun y hy => ?_) fun y hy => ?_⟩
      · simp [Links.Joined, Links.insertAfter, update_of_ne hb, hhc.1,
          update_of_ne hb.symm]
      · have hyb : y ≠ b := fun he => hfresh (he ▸ hy)
        have hyh : y ≠ h := fun he => hc.fresh (he ▸ hy)
        simp [Links.insertAfter, update_of_ne hyh, update_of_ne hyb]
      · have hyc : y ≠ c := by
          intro he
          rw [he, List.mem_append, List.mem_singleton] at hy
          exact hy.elim (List.nodup_cons.mp hc.nodup).1 hch
        have hyb : y ≠ b := by
          intro he
          rw [he, List.mem_append, List.mem_singleton] at hy
          exact hy.elim (fun hm => hfresh (List.mem_cons_of_mem c hm)) hb
        simp [Links.insertAfter, hhc.1, update_of_ne hyc, update_of_ne hyb,
          update_of_ne hb.symm]
  fresh := by
    rw [List.mem_cons]
    exact fun hm => hm.elim (fun he => hb he.symm) hc.fresh
  nodup := List.nodup_cons.mpr ⟨hfresh, hc.nodup⟩

/-- A node of the circle is taken out. -/
lemma unlink (hc : L.Circle h (xs ++ b :: ys)) : (L.unlink b).Circle h (xs ++ ys) := by
  obtain ⟨hleft, hright⟩ := Links.path_append.mp hc.path
  have hnodup := hc.nodup
  rw [List.nodup_middle, List.nodup_cons, List.mem_append] at hnodup
  obtain ⟨hb, hnodup⟩ := hnodup
  have hfresh : h ≠ b ∧ h ∉ xs ++ ys := by
    have := hc.fresh
    simp only [List.mem_append, List.mem_cons] at this ⊢
    tauto
  have hdisjoint : ∀ {y}, y ∈ h :: xs → y ∈ ys → False := by
    intro y hy hy'
    rcases List.mem_cons.mp hy with rfl | hy
    · exact hfresh.2 (List.mem_append_right xs hy')
    · exact (List.nodup_append.mp hnodup).2.2 y hy y hy' rfl
  have hleftNodup : (h :: xs).Nodup :=
    List.nodup_cons.mpr ⟨fun hm => hfresh.2 (List.mem_append_left ys hm), (List.nodup_append.mp hnodup).1⟩
  have hmem := hleft.prev_mem
  have hbnext : b ≠ L.next b := by
    intro he
    have := hright.next_mem
    rw [← he, List.mem_append, List.mem_singleton] at this
    exact this.elim (fun hm => hb (.inr hm)) fun hbh => hfresh.1 hbh.symm
  have hnext : (L.unlink b).next = update L.next (L.prev b) (L.next b) := by
    simp [Links.unlink, update_of_ne hbnext]
  have hprev : (L.unlink b).prev = update L.prev (L.next b) (L.prev b) := rfl
  -- the nodes up to `b`, with the end bent to the node after `b`
  have hbent : (∀ y ∈ xs, y ≠ L.next b) → (L.unlink b).Path h xs (L.next b) := fun hne =>
    hleft.bend hleftNodup (fun y _ hy => by rw [hnext, update_of_ne hy])
      (by rw [hnext, update_self]) (fun y hy => by rw [hprev, update_of_ne (hne y hy)])
      (by rw [hprev, update_self])
  refine ⟨?_, hfresh.2, hnodup⟩
  cases ys with
  | nil =>
    have he : L.next b = h := hright.1
    rw [List.append_nil]
    rw [he] at hbent
    exact hbent fun y hy hyh => hfresh.2 (by simp [← hyh, hy])
  | cons d ys =>
    obtain ⟨hbd, hright⟩ := hright
    rw [hbd.1] at hbent hnext hprev
    refine Links.path_append.mpr ⟨hbent fun y hy hyd => ?_, hright.congr (fun y hy => ?_) fun y hy => ?_⟩
    · exact hdisjoint (List.mem_cons_of_mem h hy) (by simp [hyd])
    · rw [hnext, update_of_ne]
      rintro rfl
      exact hdisjoint hmem hy
    · rw [hprev, update_of_ne]
      rintro rfl
      rcases List.mem_append.mp hy with hy | hy
      · exact (List.nodup_cons.mp (List.nodup_append.mp hnodup).2.1).1 hy
      · rw [List.mem_singleton] at hy
        exact hfresh.2 (by simp [hy])

omit [DecidableEq α] in
/-- Every node of the circle is where its neighbours point. -/
lemma next_prev (hc : L.Circle h xs) (hx : x ∈ h :: xs) :
    L.next (L.prev x) = x ∧ L.prev (L.next x) = x := by
  rcases List.mem_cons.mp hx with rfl | hx
  · exact ⟨hc.path.next_prev, hc.path.prev_next⟩
  · obtain ⟨ys, zs, rfl⟩ := List.append_of_mem hx
    obtain ⟨hleft, hright⟩ := Links.path_append.mp hc.path
    exact ⟨hleft.next_prev, hright.prev_next⟩

end Links.Circle

end Lib
