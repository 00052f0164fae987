import Xv6.Mem.PageTree

/-!
# Who owns a physical page

Every page of the area that `kinit` hands to the allocator has one owner: the
free list, a node of a page table, the entry of a virtual page, or one of the
other users of pages. `Heap s R o` says that the owner map `o` is what memory
says: the free list links the free pages, and the page tables with roots `R` are
trees of pages that they own. A map assigns one owner to a page, so that owners
are disjoint and no page is forgotten is part of what `o` is.
-/

namespace Xv6.Mem

open Function Lib

/-- Names for page tables. -/
inductive Tag where
  /-- The page table of a process. -/
  | proc (p : Nat)
  /-- The table that `exec` builds. -/
  | image
  deriving DecidableEq

/-- What a page is used for. -/
inductive Owner where
  /-- Not a page of the allocator. -/
  | outside
  | free
  /-- In the hands of the running function. -/
  | temp
  /-- A page-table page, node `x` at depth `d`. -/
  | table (t : Tag) (d x : Nat)
  /-- The page behind virtual page `v`. -/
  | user (t : Tag) (v : Nat)
  | trapframe (p : Nat)
  | pipe
  /-- Taken before the first process. -/
  | boot
  /-- An argument string of `exec`. -/
  | held (k : Nat)
  deriving DecidableEq

/-- The virtual page of `TRAMPOLINE`. -/
def trampolineVpn : Nat := 67108863

/-- The virtual page of `TRAPFRAME`. -/
def trapframeVpn : Nat := 67108862

lemma trampolineVa_eq : trampolineVa = 4096 * trampolineVpn := by decide

lemma trapframeVa_eq : trapframeVa = 4096 * trapframeVpn := by decide

/-- A virtual page whose physical page belongs to its entry. -/
def UserVpn (v : Nat) : Prop := v < 512 ^ 3 ∧ v ≠ trapframeVpn ∧ v ≠ trampolineVpn

/-- The list of free pages, linked through their first words. -/
def Chain (m : Bytes) : Nat → List Nat → Prop
  | a, [] => a = 0
  | a, q :: F => a = 4096 * q ∧ q ≠ 0 ∧ Chain m (getLE m (4096 * q) 8) F

/-- An owner that says nothing about the contents of the page. -/
def Owner.Plain : Owner → Prop
  | .outside => False
  | .free => False
  | .table _ _ _ => False
  | .user _ _ => False
  | .temp => True
  | .trapframe _ => True
  | .pipe => True
  | .boot => True
  | .held _ => True

/-- Plain, or the free list. -/
def Owner.Loose : Owner → Prop
  | .outside => False
  | .table _ _ _ => False
  | .user _ _ => False
  | .free => True
  | .temp => True
  | .trapframe _ => True
  | .pipe => True
  | .boot => True
  | .held _ => True

lemma Owner.Plain.loose {w : Owner} (h : w.Plain) : w.Loose := by
  cases w <;> first | exact h | trivial

lemma Owner.Plain.ne_free {w : Owner} (h : w.Plain) : w ≠ .free := by
  rintro rfl
  exact h

lemma Owner.Plain.ne_outside {w : Owner} (h : w.Plain) : w ≠ .outside := by
  rintro rfl
  exact h

/-- Pages that a function on table `t` may touch: free ones, those in its hands, the page-table
pages of `t` and the pages behind its entries. -/
def Owner.Of (t : Tag) : Owner → Prop
  | .free => True
  | .temp => True
  | .table t' _ _ => t' = t
  | .user t' _ => t' = t
  | .outside => False
  | .trapframe _ => False
  | .pipe => False
  | .boot => False
  | .held _ => False

section

variable [Layout]

/-- A page of `[PGROUNDUP(end), PHYSTOP)`. -/
def InArea (q : Nat) : Prop := pgRoundUp Layout.kend ≤ 4096 * q ∧ 4096 * q < physTop

/-- The owner map `o` agrees with memory and with the page tables rooted at `R`. -/
structure Heap (s : Phys) (R : Tag → Option Nat) (o : Nat → Owner) : Prop where
  area : ∀ {q}, o q = .outside ↔ ¬ InArea q
  free : ∃ F, Chain s.mem s.freelist F ∧ F.Nodup ∧ ∀ q, q ∈ F ↔ o q = .free
  table : ∀ {t r d x q}, R t = some r → d ≤ 2 → x < 512 ^ d →
    (node s.mem r d x = some q ↔ o q = .table t d x)
  user : ∀ {t r v q}, R t = some r → UserVpn v →
    (pteKid (pteAt s.mem r v) = some q ↔ o q = .user t v)
  /-- The entries that refer to page-table pages have no permissions. -/
  dir : ∀ {t r d x q i}, R t = some r → d < 2 → x < 512 ^ d → node s.mem r d x = some q →
    i < 512 → kid s.mem q i ≠ none → entry s.mem q i % 1024 = 1
  tableLive : ∀ {q t d x}, o q = .table t d x → (∃ r, R t = some r) ∧ d ≤ 2 ∧ x < 512 ^ d
  userLive : ∀ {q t v}, o q = .user t v → (∃ r, R t = some r) ∧ UserVpn v

end

/-- A step that touches only pages whose owners satisfy `T`. -/
structure Frame (T : Owner → Prop) (s : Phys) (o : Nat → Owner) (s' : Phys) (o' : Nat → Owner) :
    Prop where
  other : ∀ {q}, ¬ T (o q) → o' q = o q
  mine : ∀ {q}, T (o q) → T (o' q)
  mem : ∀ {q}, ¬ T (o q) → Agree s.mem s'.mem q

section Frame

variable {T T' : Owner → Prop} {s s' s'' : Phys} {o o' o'' : Nat → Owner} {q : Nat}

lemma Frame.refl (T : Owner → Prop) (s : Phys) (o : Nat → Owner) : Frame T s o s o :=
  ⟨fun _ => rfl, id, fun _ => Agree.refl _ _⟩

lemma Frame.trans (h : Frame T s o s' o') (h' : Frame T s' o' s'' o'') : Frame T s o s'' o'' := by
  refine ⟨fun hq => ?_, fun hq => h'.mine (h.mine hq), fun hq => ?_⟩
  · have he := h.other hq
    rw [h'.other (by rw [he]; exact hq), he]
  · have he := h.other hq
    exact (h.mem hq).trans (h'.mem (by rw [he]; exact hq))

lemma Frame.mono (h : Frame T s o s' o') (hT : ∀ y, T y → T' y) : Frame T' s o s' o' := by
  refine ⟨fun hq => h.other fun hm => hq (hT _ hm), fun {q} hq => ?_,
    fun hq => h.mem fun hm => hq (hT _ hm)⟩
  by_cases hm : T (o q)
  · exact hT _ (h.mine hm)
  · rw [h.other hm]
    exact hq

/-- Pages of other owners stay with them, and no page joins them. -/
lemma Frame.owner_iff (h : Frame T s o s' o') {y : Owner} (hy : ¬ T y) : o' q = y ↔ o q = y := by
  constructor
  · intro hq
    by_cases hm : T (o q)
    · exact absurd (hq ▸ h.mine hm) hy
    · rw [← h.other hm, hq]
  · intro hq
    rw [h.other (by rw [hq]; exact hy), hq]

/-- One page changes hands. -/
lemma Frame.of_update {y : Owner} (hq : T (o q)) (hy : T y)
    (hm : ∀ q', q' ≠ q → Agree s.mem s'.mem q') : Frame T s o s' (update o q y) := by
  have hne : ∀ {q'}, ¬ T (o q') → q' ≠ q := by
    rintro q' hq' rfl
    exact hq' hq
  refine ⟨fun hq' => update_of_ne (hne hq') _ _, fun {q'} hq' => ?_,
    fun hq' => hm _ (hne hq')⟩
  by_cases he : q' = q
  · rw [he, update_self]
    exact hy
  · rw [update_of_ne he]
    exact hq'

/-- A page is written. -/
lemma Frame.of_write (hq : T (o q)) (hm : ∀ q', q' ≠ q → Agree s.mem s'.mem q') :
    Frame T s o s' o :=
  ⟨fun _ => rfl, id, fun hq' => hm _ (by rintro rfl; exact hq' hq)⟩

end Frame

/-! ## Bytes of one page -/

section Bytes

variable {m m' : Bytes} {q q' i j v n : Nat} {c : UInt8}

lemma agree_putLE (hi : i + n ≤ 4096) (hq : q ≠ q') : Agree m (putLE m (4096 * q' + i) n v) q := by
  intro x hx
  by_cases hlt : x < 4096 * q' + i
  · exact putLE_of_lt hlt
  · exact putLE_of_ge (by omega)

lemma agree_fill (hq : q ≠ q') : Agree m (fill m (4096 * q') c 4096) q := by
  intro x hx
  exact if_neg (by omega)

lemma agree_copy {src : Nat} (hq : q ≠ q') : Agree m (copy m (4096 * q') src 4096) q := by
  intro x hx
  exact if_neg (by omega)

lemma agree_blit {k : Nat} {bs : List UInt8} (hk : k + bs.length ≤ 4096) (hq : q ≠ q') :
    Agree m (blit m (4096 * q' + k) bs) q := by
  intro x hx
  exact if_neg (by omega)

lemma entry_putLE (hv : v < 2 ^ 64) : entry (putLE m (4096 * q + 8 * i) 8 v) q i = v := by
  unfold entry
  rw [getLE_putLE]
  exact Nat.mod_eq_of_lt hv

lemma entry_putLE_of_ne (hij : i ≠ j) :
    entry (putLE m (4096 * q + 8 * i) 8 v) q j = entry m q j := by
  unfold entry
  exact getLE_putLE_of_disjoint (by omega)

lemma entry_fill_zero (hi : i < 512) : entry (fill m (4096 * q) 0 4096) q i = 0 := by
  unfold entry
  apply getLE_zero
  intro x hx hx'
  exact if_pos (by omega)

lemma Chain.congr {a : Nat} {F : List Nat} (h : Chain m a F) (hF : ∀ q ∈ F, Agree m m' q) :
    Chain m' a F := by
  induction F generalizing a with
  | nil => exact h
  | cons q F ih =>
    obtain ⟨ha, hq, hrest⟩ := h
    have hnext : getLE m' (4096 * q) 8 = getLE m (4096 * q) 8 :=
      getLE_congr fun x hx hx' => hF q List.mem_cons_self x (by omega)
    refine ⟨ha, hq, ?_⟩
    rw [hnext]
    exact ih hrest fun q' hq' => hF q' (List.mem_cons_of_mem _ hq')

end Bytes

/-! ## What the map says -/

section Facts

variable [Layout] {s s' : Phys} {R : Tag → Option Nat} {o : Nat → Owner} {t : Tag}
variable {r q q' d x v : Nat}

lemma inArea_bounds (h : InArea q) : Layout.kend ≤ 4096 * q ∧ 4096 * q < physTop := by
  refine ⟨?_, h.2⟩
  have hle := Layout.kend_le
  have h1 := h.1
  unfold physTop kernBase at hle
  rw [pgRoundUp_eq (by omega)] at h1
  omega

lemma inArea_pos (h : InArea q) : q ≠ 0 := by
  have hge := Layout.trampoline_ge
  have hle := Layout.trampoline_le
  obtain ⟨hlow, -⟩ := inArea_bounds h
  unfold kernBase at hge
  omega

lemma inArea_lt (h : InArea q) : q < 2 ^ 40 := by
  have h2 := h.2
  unfold physTop kernBase at h2
  omega

lemma Heap.inArea (h : Heap s R o) (hq : o q ≠ .outside) : InArea q := by
  by_contra hnot
  exact hq (h.area.mpr hnot)

lemma Heap.root (h : Heap s R o) (hR : R t = some r) : o r = .table t 0 0 :=
  (h.table hR (by decide) (by decide)).mp rfl

lemma Heap.node_inArea (h : Heap s R o) (hR : R t = some r) (hd : d ≤ 2) (hx : x < 512 ^ d)
    (hq : node s.mem r d x = some q) : InArea q := by
  apply h.inArea
  rw [(h.table hR hd hx).mp hq]
  exact fun he => by cases he

/-- The nodes of a table are different pages. -/
lemma Heap.node_unique (h : Heap s R o) (hR : R t = some r) {d' x' : Nat} (hd : d ≤ 2)
    (hx : x < 512 ^ d) (hd' : d' ≤ 2) (hx' : x' < 512 ^ d') (hq : node s.mem r d x = some q)
    (hq' : node s.mem r d' x' = some q) : d = d' ∧ x = x' := by
  have h₁ := (h.table hR hd hx).mp hq
  have h₂ := (h.table hR hd' hx').mp hq'
  rw [h₁] at h₂
  cases h₂
  exact ⟨rfl, rfl⟩

/-- A table that lies in unchanged pages is unchanged. -/
lemma Heap.table_congr (h : Heap s R o) (hR : R t = some r) {n : Bytes}
    (hm : ∀ q d x, o q = .table t d x → Agree s.mem n q) :
    (∀ d x, d ≤ 3 → x < 512 ^ d → node n r d x = node s.mem r d x) ∧
      ∀ v, v < 512 ^ 3 → pteAt n r v = pteAt s.mem r v := by
  constructor
  · intro d x hd hx
    refine node_congr (fun d' x' q hd' hx' hq => ?_) hx
    exact hm q d' x' ((h.table hR (by omega) hx').mp hq)
  · intro v hv
    refine pteAt_congr (fun d x q hd hx hq => ?_) hv
    exact hm q d x ((h.table hR hd hx).mp hq)

lemma Heap.dir_congr (h : Heap s R o) (hR : R t = some r) {n : Bytes} {i : Nat}
    (hm : ∀ q d x, o q = .table t d x → Agree s.mem n q) (hd : d < 2) (hx : x < 512 ^ d)
    (hq : node n r d x = some q) (hi : i < 512) (hk : kid n q i ≠ none) :
    entry n q i % 1024 = 1 := by
  rw [(h.table_congr hR hm).1 d x (by omega) hx] at hq
  have hown := (h.table hR (by omega) hx).mp hq
  rw [kid_congr (hm q d x hown) hi] at hk
  rw [entry_congr (hm q d x hown) hi]
  exact h.dir hR hd hx hq hi hk

/-- Another table does not notice a step within this one. -/
lemma Heap.other_table {t' : Tag} {r' : Nat} {o' : Nat → Owner} (h : Heap s R o)
    (hW : Frame (Owner.Of t) s o s' o') (ht : t' ≠ t) (hR : R t' = some r') (hv : v < 512 ^ 3) :
    pteAt s'.mem r' v = pteAt s.mem r' v := by
  refine (h.table_congr hR ?_).2 v hv
  intro q d x hq
  apply hW.mem
  rw [hq]
  exact ht

/-- A write that spares the free pages and the page-table pages. -/
lemma Heap.write (h : Heap s R o) {m' : Bytes}
    (hm : ∀ q, (o q = .free ∨ ∃ t d x, o q = .table t d x) → Agree s.mem m' q) :
    Heap (s.withMem m') R o := by
  have hcongr : ∀ {t r}, R t = some r → _ := fun hR =>
    h.table_congr hR (n := m') fun q d x hq => hm q (.inr ⟨_, d, x, hq⟩)
  constructor
  · exact h.area
  · obtain ⟨F, hchain, hnodup, hF⟩ := h.free
    exact ⟨F, hchain.congr fun q hq => hm q (.inl ((hF q).mp hq)), hnodup, hF⟩
  · intro t r d x q hR hd hx
    show node m' r d x = some q ↔ _
    rw [(hcongr hR).1 d x (by omega) hx]
    exact h.table hR hd hx
  · intro t r v q hR hv
    show pteKid (pteAt m' r v) = some q ↔ _
    rw [(hcongr hR).2 v hv.1]
    exact h.user hR hv
  · exact fun hR => h.dir_congr hR fun q d x hq => hm q (.inr ⟨_, d, x, hq⟩)
  · exact h.tableLive
  · exact h.userLive

/-- A page passes between the free list and plain owners. What is left to show
is that the free list is right. -/
lemma Heap.move (h : Heap s R o) {w : Owner} (hq : (o q).Loose) (hw : w.Loose)
    (hm : ∀ q t d x, o q = .table t d x → Agree s.mem s'.mem q)
    (hfree : ∃ F, Chain s'.mem s'.freelist F ∧ F.Nodup ∧
      ∀ q', q' ∈ F ↔ update o q w q' = .free) :
    Heap s' R (update o q w) := by
  have key : ∀ (y : Owner) {q' : Nat}, ¬ y.Loose →
      (update o q w q' = y ↔ o q' = y) := by
    intro y q' hy
    by_cases he : q' = q
    · subst he
      rw [update_self]
      constructor
      · rintro rfl
        exact absurd hw hy
      · rintro rfl
        exact absurd hq hy
    · rw [update_of_ne he]
  constructor
  · intro q'
    rw [key .outside id]
    exact h.area
  · exact hfree
  · intro t r d x q' hR hd hx
    rw [key (.table t d x) id, (h.table_congr hR fun q d x => hm q t d x).1 d x (by omega) hx]
    exact h.table hR hd hx
  · intro t r v q' hR hv
    rw [key (.user t v) id, (h.table_congr hR fun q d x => hm q t d x).2 v hv.1]
    exact h.user hR hv
  · exact fun hR => h.dir_congr hR fun q d x => hm q _ d x
  · intro q' t d x hq'
    exact h.tableLive ((key (.table t d x) id).mp hq')
  · intro q' t v hq'
    exact h.userLive ((key (.user t v) id).mp hq')

/-- A page passes from one plain owner to another. -/
lemma Heap.retag (h : Heap s R o) {w : Owner} (hq : (o q).Plain) (hw : w.Plain) :
    Heap s R (update o q w) := by
  refine h.move hq.loose hw.loose (fun q t d x _ => Agree.refl _ q) ?_
  obtain ⟨F, hchain, hnodup, hF⟩ := h.free
  refine ⟨F, hchain, hnodup, fun q' => ?_⟩
  rw [hF q']
  by_cases he : q' = q
  · subst he
    rw [update_self]
    exact ⟨fun hf => absurd hf hq.ne_free, fun hf => absurd hf hw.ne_free⟩
  · rw [update_of_ne he]

/-- The address of the free list fits a word. -/
lemma Heap.freelist_lt (h : Heap s R o) : s.freelist < 2 ^ 64 := by
  obtain ⟨F, hchain, -, hF⟩ := h.free
  cases F with
  | nil =>
    rw [show s.freelist = 0 from hchain]
    decide
  | cons q F =>
    have hq : InArea q := by
      apply h.inArea
      rw [(hF q).mp List.mem_cons_self]
      exact fun he => by cases he
    have := inArea_lt hq
    rw [hchain.1]
    omega

/-- The state after `kalloc` takes page `q`. -/
def Phys.take (s : Phys) (q : Nat) : Phys where
  mem := fill s.mem (4096 * q) 5 4096
  freelist := getLE s.mem (4096 * q) 8

/-- The state after `kfree` of page `q`. -/
def Phys.release (s : Phys) (q : Nat) : Phys where
  mem := putLE (fill s.mem (4096 * q) 1 4096) (4096 * q) 8 s.freelist
  freelist := 4096 * q

omit [Layout] in
lemma Phys.agree_take (s : Phys) (hq : q' ≠ q) : Agree s.mem (s.take q).mem q' :=
  agree_fill hq

omit [Layout] in
lemma Phys.agree_release (s : Phys) (hq : q' ≠ q) : Agree s.mem (s.release q).mem q' :=
  (agree_fill hq).trans (agree_putLE (i := 0) (by decide) hq)

/-- The first page of the free list becomes the caller's. -/
lemma Heap.take (h : Heap s R o) {F : List Nat} (hchain : Chain s.mem s.freelist (q :: F))
    (hnodup : (q :: F).Nodup) (hF : ∀ q', q' ∈ q :: F ↔ o q' = .free) :
    Heap (s.take q) R (update o q .temp) := by
  have hq : o q = .free := (hF q).mp List.mem_cons_self
  have hnot : q ∉ F := (List.nodup_cons.mp hnodup).1
  refine h.move (by rw [hq]; trivial) trivial ?_ ?_
  · rintro q' t d x hq'
    apply s.agree_take
    rintro rfl
    rw [hq] at hq'
    cases hq'
  · refine ⟨F, hchain.2.2.congr ?_, (List.nodup_cons.mp hnodup).2, fun q' => ?_⟩
    · rintro q' hq'
      apply s.agree_take
      rintro rfl
      exact hnot hq'
    · by_cases he : q' = q
      · subst he
        rw [update_self]
        exact ⟨fun hm => absurd hm hnot, fun hf => by cases hf⟩
      · rw [update_of_ne he, ← hF q', List.mem_cons]
        exact ⟨.inr, fun hor => hor.resolve_left he⟩

/-- A page with a plain owner goes to the head of the free list. -/
lemma Heap.release (h : Heap s R o) (hq : (o q).Plain) :
    Heap (s.release q) R (update o q .free) := by
  have harea : InArea q := h.inArea hq.ne_outside
  have hne : ∀ {q'}, ¬ (o q').Plain → q' ≠ q := by
    rintro q' hq' rfl
    exact hq' hq
  refine h.move hq.loose trivial ?_ ?_
  · intro q' t d x hq'
    apply s.agree_release
    apply hne
    rw [hq']
    exact id
  · obtain ⟨F, hchain, hnodup, hF⟩ := h.free
    have hFne : ∀ q' ∈ F, q' ≠ q := by
      intro q' hq'
      apply hne
      rw [(hF q').mp hq']
      exact id
    refine ⟨q :: F, ⟨rfl, inArea_pos harea, ?_⟩, ?_, fun q' => ?_⟩
    · have hnext : getLE (s.release q).mem (4096 * q) 8 = s.freelist := by
        unfold Phys.release
        rw [getLE_putLE]
        exact Nat.mod_eq_of_lt h.freelist_lt
      rw [hnext]
      exact hchain.congr fun q' hq' => s.agree_release (hFne q' hq')
    · exact List.nodup_cons.mpr ⟨fun hm => hFne q hm rfl, hnodup⟩
    · by_cases he : q' = q
      · subst he
        simp
      · rw [update_of_ne he, List.mem_cons, hF q']
        exact ⟨fun hor => hor.resolve_left he, .inr⟩

end Facts

end Xv6.Mem
