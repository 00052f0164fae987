import Xv6.Bio.Cache

/-!
# Coherence of the buffer cache

`Coherent L s V P` relates the cache to a flat array. `V` gives the contents
most recently logged for each home block, and `P` lists the blocks that are
still pinned for the transaction. A buffer holds its block's contents in `V`,
or on disk for a block of the log area, unless its holder has changed it since
the last `log_write`. Its reference count is exactly one for the lock, one for
each waiting caller and one for the pin, which is why a pinned buffer is never
recycled.
-/

namespace Xv6.Bio

open Function Log

/-- What a block contains, seen through the cache. -/
def view (L : LogArea) (V d : Disk) (b : Nat) : Block :=
  if L.Home b then V b else d b

lemma view_home {L : LogArea} {b : Nat} (h : L.Home b) (V d : Disk) : view L V d b = V b :=
  if_pos h

lemma view_log {L : LogArea} {b : Nat} (h : ¬ L.Home b) (V d : Disk) : view L V d b = d b :=
  if_neg h

/-- The cache agrees with the flat array `V`, and `P` is pinned. -/
structure Coherent (L : LogArea) (s : Cache) (V : Disk) (P : List Nat) : Prop where
  /-- The list holds every buffer once. -/
  perm : s.order.Perm (List.range nbuf)
  /-- A block is cached at most once. -/
  uniq : ∀ {i j b}, i < nbuf → j < nbuf → (s.buf i).Holds b → (s.buf j).Holds b → i = j
  /-- What a reference count counts. -/
  ref : ∀ {i}, i < nbuf → (s.buf i).refcnt = (s.buf i).locked.toNat +
    s.waiting.countP (fun w => w.1 = i) +
    if (s.buf i).dev = rootDev ∧ (s.buf i).blockno ∈ P then 1 else 0
  /-- A valid buffer without unlogged changes holds its block. -/
  data : ∀ {i b}, i < nbuf → (s.buf i).Holds b → (s.buf i).valid = true →
    (s.buf i).dirty = false → (s.buf i).data = view L V s.disk b
  locked : ∀ {i}, (s.buf i).locked = true →
    i < nbuf ∧ (s.buf i).valid = true ∧ (s.buf i).dev = rootDev
  dirty : ∀ {i}, (s.buf i).dirty = true → (s.buf i).locked = true
  /-- A pinned block is cached. -/
  pinned : ∀ {b}, b ∈ P → ∃ i, i < nbuf ∧ (s.buf i).Holds b ∧ (s.buf i).valid = true
  waits : ∀ {i b}, (i, b) ∈ s.waiting → i < nbuf ∧ (s.buf i).Holds b
  /-- A home block that is not pinned is the same on disk. -/
  clean : ∀ {b}, L.Home b → b ∉ P → V b = s.disk b
  home : ∀ {b}, b ∈ P → L.Home b

lemma Coherent.init (L : LogArea) (d : Disk) : Coherent L { disk := d } d [] where
  perm := List.reverse_perm _
  uniq := by
    intro i j b _ _ hi
    simp [Buf.Holds, rootDev] at hi
  ref := by intro i _; rfl
  data := by
    intro i b _ hi
    simp [Buf.Holds, rootDev] at hi
  locked := by intro i h; cases h
  dirty := by intro i h; cases h
  pinned := by intro b h; cases h
  waits := by intro i b h; cases h
  clean := by intro b _ _; rfl
  home := by intro b h; cases h

variable {L : LogArea} {s s' : Cache} {V : Disk} {P : List Nat} {i b : Nat}

lemma Coherent.mem_order (h : Coherent L s V P) : i ∈ s.order ↔ i < nbuf := by
  rw [h.perm.mem_iff, List.mem_range]

lemma Coherent.not_dirty (h : Coherent L s V P) (hl : (s.buf i).locked = false) :
    (s.buf i).dirty = false := by
  cases hd : (s.buf i).dirty with
  | false => rfl
  | true =>
    have := h.dirty hd
    simp [hl] at this

@[simp] lemma Cache.set_buf (s : Cache) (i : Nat) (x : Buf) :
    (s.set i x).buf = update s.buf i x := rfl
@[simp] lemma Cache.set_waiting (s : Cache) (i : Nat) (x : Buf) :
    (s.set i x).waiting = s.waiting := rfl

/-! ## `bget` -/

/-- A buffer that nobody refers to is unlocked, nobody waits for it, and it is
not pinned. -/
lemma Coherent.free (h : Coherent L s V P) (hi : i < nbuf) (h0 : (s.buf i).refcnt = 0) :
    (s.buf i).locked = false ∧ (∀ c, (i, c) ∉ s.waiting) ∧
      ¬ ((s.buf i).dev = rootDev ∧ (s.buf i).blockno ∈ P) := by
  have href := h.ref hi
  rw [h0] at href
  have hcount : s.waiting.countP (fun w => w.1 = i) = 0 := by omega
  rw [List.countP_eq_zero] at hcount
  refine ⟨?_, ?_, ?_⟩
  · cases hl : (s.buf i).locked with
    | false => rfl
    | true =>
      simp only [hl, Bool.toNat_true] at href
      omega
  · intro c hc
    simpa using hcount _ hc
  · intro hp
    simp [hp] at href

/-- The buffer of a pinned block is valid. -/
lemma Coherent.valid_of_pinned (h : Coherent L s V P) (hi : i < nbuf) (hb : (s.buf i).Holds b)
    (hP : b ∈ P) : (s.buf i).valid = true := by
  obtain ⟨j, hj, hjb, hv⟩ := h.pinned hP
  rw [h.uniq hj hi hjb hb] at hv
  exact hv

/-- The reference count of the buffer of a block. -/
lemma Coherent.refcnt_eq (h : Coherent L s V P) (hi : i < nbuf) (hb : (s.buf i).Holds b) :
    (s.buf i).refcnt = (s.buf i).locked.toNat + s.waiting.countP (fun w => w.1 = i) +
      if b ∈ P then 1 else 0 := by
  have href := h.ref hi
  simpa only [hb.1, hb.2, true_and] using href

/-- Changing the buffer of one block. The new waiting list, disk, array and pins
may differ from the old ones only in what concerns that block. -/
lemma Coherent.change (h : Coherent L s V P) (hi : i < nbuf) (hb : (s.buf i).Holds b) {x : Buf}
    (hx : x.Holds b) {order : List Nat} {waiting : List (Nat × Nat)} {disk V' : Disk}
    {P' lh : List Nat} {outstanding : Int} (hperm : order.Perm (List.range nbuf))
    (href : x.refcnt = x.locked.toNat + waiting.countP (fun w => w.1 = i) +
      if b ∈ P' then 1 else 0)
    (hcount : ∀ j, j ≠ i →
      waiting.countP (fun w => w.1 = j) = s.waiting.countP fun w => w.1 = j)
    (hpin : ∀ c, c ≠ b → (c ∈ P' ↔ c ∈ P))
    (hdata : x.valid = true → x.dirty = false → x.data = view L V' disk b)
    (hview : ∀ c, c ≠ b → view L V' disk c = view L V s.disk c)
    (hlocked : x.locked = true → x.valid = true) (hdirty : x.dirty = true → x.locked = true)
    (hvalid : b ∈ P' → x.valid = true)
    (hwaits : ∀ j c, (j, c) ∈ waiting → (j, c) ∈ s.waiting ∨ j = i ∧ c = b)
    (hclean : ∀ c, L.Home c → c ∉ P' → V' c = disk c) (hhome : ∀ c ∈ P', L.Home c) :
    Coherent L { disk := disk, buf := update s.buf i x, order := order,
                 waiting := waiting, lh := lh, outstanding := outstanding } V' P' := by
  have hholds : ∀ {j c}, (update s.buf i x j).Holds c ↔ (s.buf j).Holds c := by
    intro j c
    by_cases hj : j = i
    · subst hj
      simp only [update_self, Buf.Holds, hx.1, hx.2, hb.1, hb.2]
    · simp only [update_of_ne hj]
  -- another buffer holds another block
  have hother : ∀ {j c}, j < nbuf → j ≠ i → (s.buf j).Holds c → c ≠ b := by
    rintro j c hj hji hc rfl
    exact hji (h.uniq hj hi hc hb)
  constructor
  · exact hperm
  · intro j k c hj hk hjc hkc
    exact h.uniq hj hk (hholds.mp hjc) (hholds.mp hkc)
  · intro j hj
    by_cases hji : j = i
    · subst hji
      simpa [hx.1, hx.2] using href
    · simp only [update_of_ne hji, hcount j hji, h.ref hj]
      by_cases hroot : (s.buf j).dev = rootDev
      · simp only [hpin _ (hother hj hji ⟨hroot, rfl⟩)]
      · simp only [hroot, false_and]
  · intro j c hj hjc hv hd
    by_cases hji : j = i
    · subst hji
      simp only [update_self] at hjc hv hd ⊢
      rw [hdata hv hd, show b = c from hx.2.symm.trans hjc.2]
    · simp only [update_of_ne hji] at hjc hv hd ⊢
      rw [h.data hj hjc hv hd]
      exact (hview c (hother hj hji hjc)).symm
  · intro j hl
    by_cases hji : j = i
    · subst hji
      simp only [update_self] at hl ⊢
      exact ⟨hi, hlocked hl, hx.1⟩
    · simp only [update_of_ne hji] at hl ⊢
      exact h.locked hl
  · intro j hd
    by_cases hji : j = i
    · subst hji
      simp only [update_self] at hd ⊢
      exact hdirty hd
    · simp only [update_of_ne hji] at hd ⊢
      exact h.dirty hd
  · intro c hc
    by_cases hcb : c = b
    · subst hcb
      exact ⟨i, hi, hholds.mpr hb, by simpa using hvalid hc⟩
    · obtain ⟨j, hj, hjc, hv⟩ := h.pinned ((hpin c hcb).mp hc)
      have hji : j ≠ i := by
        rintro rfl
        exact hcb (hjc.2.symm.trans hb.2)
      exact ⟨j, hj, hholds.mpr hjc, by simpa only [update_of_ne hji] using hv⟩
  · intro j c hjc
    rcases hwaits j c hjc with hold | ⟨rfl, rfl⟩
    · exact ⟨(h.waits hold).1, hholds.mpr (h.waits hold).2⟩
    · exact ⟨hi, hholds.mpr hb⟩
  · exact fun hc => hclean _ hc
  · exact fun hc => hhome _ hc

/-- The cached buffer gets one more reference and one more waiting caller. -/
lemma Coherent.share (h : Coherent L s V P) (hi : i < nbuf) (hb : (s.buf i).Holds b) :
    Coherent L { s.set i { s.buf i with refcnt := (s.buf i).refcnt + 1 } with
                 waiting := (i, b) :: s.waiting } V P := by
  have href := h.refcnt_eq hi hb
  apply h.change hi hb (x := { s.buf i with refcnt := (s.buf i).refcnt + 1 }) hb h.perm
  · simp only [List.countP_cons, decide_true, if_true]
    omega
  · intro j hj
    simp [Ne.symm hj]
  · exact fun _ _ => Iff.rfl
  · exact fun hv hd => h.data hi hb hv hd
  · exact fun _ _ => rfl
  · exact fun hl => (h.locked hl).2.1
  · exact h.dirty
  · exact h.valid_of_pinned hi hb
  · intro j c hjc
    rcases List.mem_cons.mp hjc with heq | hjc
    · cases heq
      exact .inr ⟨rfl, rfl⟩
    · exact .inl hjc
  · exact fun c => h.clean
  · exact fun c => h.home

/-- A free buffer is given to a block that is not cached. -/
lemma Coherent.recycle (h : Coherent L s V P) (hi : i < nbuf) (h0 : (s.buf i).refcnt = 0)
    (hnew : ∀ j, j < nbuf → ¬ (s.buf j).Holds b) :
    Coherent L { s.set i { s.buf i with dev := rootDev, blockno := b, valid := false,
                                        refcnt := 1 } with
                 waiting := (i, b) :: s.waiting } V P := by
  obtain ⟨hunlocked, hnowait, hunpinned⟩ := h.free hi h0
  have hnd := h.not_dirty hunlocked
  have hbP : b ∉ P := by
    intro hb
    obtain ⟨j, hj, hjb, -⟩ := h.pinned hb
    exact hnew j hj hjb
  constructor
  · exact h.perm
  · intro j k c hj hk hjc hkc
    simp only [Cache.set_buf, update_apply] at hjc hkc
    split at hjc <;> split at hkc
    next hji hki => rw [hji, hki]
    next hji hki =>
      obtain rfl : b = c := hjc.2
      exact absurd hkc (hnew k hk)
    next hji hki =>
      obtain rfl : b = c := hkc.2
      exact absurd hjc (hnew j hj)
    next => exact h.uniq hj hk hjc hkc
  · intro j hj
    by_cases hji : j = i
    · subst hji
      have hcount : s.waiting.countP (fun w => w.1 = j) = 0 := by
        rw [List.countP_eq_zero]
        rintro ⟨k, c⟩ hw hk
        obtain rfl : k = j := by simpa using hk
        exact hnowait c hw
      simp [hunlocked, hcount, hbP]
    · have hij : ¬ i = j := fun e => hji e.symm
      simp only [Cache.set_buf, update_of_ne hji, List.countP_cons, hij, decide_false,
        Bool.false_eq_true, if_false, Nat.add_zero]
      exact h.ref hj
  · intro j c hj hjc hv hd
    by_cases hji : j = i
    · subst hji
      simp at hv
    · simp only [Cache.set_buf, update_of_ne hji] at hjc hv hd ⊢
      exact h.data hj hjc hv hd
  · intro j hl
    by_cases hji : j = i
    · subst hji
      simp [hunlocked] at hl
    · simp only [Cache.set_buf, update_of_ne hji] at hl ⊢
      exact h.locked hl
  · intro j hd
    by_cases hji : j = i
    · subst hji
      simp [hnd] at hd
    · simp only [Cache.set_buf, update_of_ne hji] at hd ⊢
      exact h.dirty hd
  · intro c hc
    obtain ⟨j, hj, hjc, hv⟩ := h.pinned hc
    have hji : j ≠ i := by
      rintro rfl
      exact hunpinned ⟨hjc.1, by rw [hjc.2]; exact hc⟩
    exact ⟨j, hj, by simpa only [Cache.set_buf, update_of_ne hji] using hjc,
      by simpa only [Cache.set_buf, update_of_ne hji] using hv⟩
  · intro j c hjc
    rcases List.mem_cons.mp hjc with heq | hmem
    · cases heq
      exact ⟨hi, by simp [Buf.Holds]⟩
    · have hji : j ≠ i := by
        rintro rfl
        exact hnowait c hmem
      simpa only [Cache.set_buf, update_of_ne hji] using h.waits hmem
  · exact h.clean
  · exact h.home

/-- The two ways `bget` succeeds. -/
lemma Cache.bget_cases (h : s.bget b = some (i, s')) :
    (i ∈ s.order ∧ (s.buf i).Holds b ∧
        s' = { s.set i { s.buf i with refcnt := (s.buf i).refcnt + 1 } with
               waiting := (i, b) :: s.waiting }) ∨
      (i ∈ s.order ∧ (s.buf i).refcnt = 0 ∧ (∀ j ∈ s.order, ¬ (s.buf j).Holds b) ∧
        s' = { s.set i { s.buf i with dev := rootDev, blockno := b, valid := false,
                                      refcnt := 1 } with
               waiting := (i, b) :: s.waiting }) := by
  unfold Cache.bget at h
  split at h
  next j hj =>
    cases h
    exact .inl ⟨List.mem_of_find?_eq_some hj, by simpa using List.find?_some hj, rfl⟩
  next hnone =>
    split at h
    next j hj =>
      cases h
      refine .inr ⟨?_, by simpa using List.find?_some hj, ?_, rfl⟩
      · simpa using List.mem_of_find?_eq_some hj
      · simpa using hnone
    next => cases h

lemma Coherent.bget (h : Coherent L s V P) (hs : s.bget b = some (i, s')) :
    Coherent L s' V P := by
  rcases Cache.bget_cases hs with ⟨hi, hb, rfl⟩ | ⟨hi, h0, hnew, rfl⟩
  · exact h.share (h.mem_order.mp hi) hb
  · exact h.recycle (h.mem_order.mp hi) h0 fun j hj => hnew j (h.mem_order.mpr hj)

/-! ## `acquire`, `brelse` and changes in place -/

/-- Buffer `i` is locked, caches block `b` and has no unlogged change. -/
structure Held (s : Cache) (i b : Nat) : Prop where
  locked : (s.buf i).locked = true
  holds : (s.buf i).Holds b
  logged : (s.buf i).dirty = false

lemma Cache.acquire_eq (h : s.acquire i b = some s') :
    (i, b) ∈ s.waiting ∧ (s.buf i).locked = false ∧
      s' = { s.set i { s.buf i with locked := true, valid := true,
                                    data := if (s.buf i).valid then (s.buf i).data
                                            else s.disk (s.buf i).blockno } with
             waiting := s.waiting.erase (i, b) } := by
  unfold Cache.acquire at h
  obtain ⟨hc, rfl⟩ := Lib.of_guard h
  exact ⟨hc.1, hc.2, rfl⟩

/-- What the second half of `bread` hands to its caller: the block as the flat
array has it. -/
lemma Coherent.acquire (h : Coherent L s V P) (hs : s.acquire i b = some s') :
    Coherent L s' V P ∧ Held s' i b ∧ (s'.buf i).data = view L V s.disk b := by
  obtain ⟨hw, hl, rfl⟩ := Cache.acquire_eq hs
  obtain ⟨hi, hb⟩ := h.waits hw
  have hnd := h.not_dirty hl
  have href := h.refcnt_eq hi hb
  -- a buffer that must be read from disk is not pinned
  have hdata : (if (s.buf i).valid then (s.buf i).data else s.disk (s.buf i).blockno) =
      view L V s.disk b := by
    split
    next hv => exact h.data hi hb hv hnd
    next hv =>
      rw [hb.2]
      by_cases hh : L.Home b
      · rw [view_home hh, h.clean hh fun hP => hv (h.valid_of_pinned hi hb hP)]
      · rw [view_log hh]
  refine ⟨?_, ⟨by simp, by simpa [Buf.Holds] using hb, by simpa using hnd⟩, by simpa using hdata⟩
  apply h.change hi hb
    (x := { s.buf i with
      locked := true, valid := true
      data := if (s.buf i).valid then (s.buf i).data else s.disk (s.buf i).blockno }) hb h.perm
  · have hone : 0 < s.waiting.countP fun w => w.1 = i :=
      List.countP_pos_iff.mpr ⟨(i, b), hw, by simp⟩
    have hcount : (s.waiting.erase (i, b)).countP (fun w => w.1 = i) =
        s.waiting.countP (fun w => w.1 = i) - 1 := by
      rw [List.countP_erase]
      simp [hw]
    simp only [hl, Bool.toNat_false, Bool.toNat_true, hcount] at href ⊢
    omega
  · intro j hj
    rw [List.countP_erase, if_neg (by simp [Ne.symm hj])]
    rfl
  · exact fun _ _ => Iff.rfl
  · exact fun _ _ => hdata
  · exact fun _ _ => rfl
  · exact fun _ => rfl
  · exact fun _ => rfl
  · exact fun _ => rfl
  · exact fun j c hjc => .inl (List.mem_of_mem_erase hjc)
  · exact fun c => h.clean
  · exact fun c => h.home

lemma Coherent.brelse (h : Coherent L s V P) (hh : Held s i b) : Coherent L (s.brelse i) V P := by
  obtain ⟨hi, hv, -⟩ := h.locked hh.locked
  have href := h.refcnt_eq hi hh.holds
  have key : ∀ order : List Nat, order.Perm (List.range nbuf) →
      Coherent L { s.set i { s.buf i with locked := false, refcnt := (s.buf i).refcnt - 1 } with
                   order := order } V P := by
    intro order hperm
    apply h.change hi hh.holds (x := { s.buf i with locked := false, refcnt := (s.buf i).refcnt - 1 }) hh.holds hperm
    · simp only [hh.locked, Bool.toNat_true, Bool.toNat_false, Cache.set_waiting] at href ⊢
      omega
    · exact fun _ _ => rfl
    · exact fun _ _ => Iff.rfl
    · exact fun _ _ => h.data hi hh.holds hv hh.logged
    · exact fun _ _ => rfl
    · exact fun hl => by cases hl
    · intro hd
      have := hh.logged
      simp [this] at hd
    · exact fun _ => hv
    · exact fun j c hjc => .inl hjc
    · exact fun c => h.clean
    · exact fun c => h.home
  unfold Cache.brelse
  simp only
  split
  next =>
    apply key
    have hmem : i ∈ s.order := h.mem_order.mpr hi
    exact (List.perm_cons_erase hmem).symm.trans h.perm
  next => exact key s.order h.perm

lemma Coherent.modify (h : Coherent L s V P) (hl : (s.buf i).locked = true) (v : Block) :
    Coherent L (s.modify i v) V P := by
  obtain ⟨hi, hv, hdev⟩ := h.locked hl
  have hb : (s.buf i).Holds (s.buf i).blockno := ⟨hdev, rfl⟩
  apply h.change hi hb (x := { s.buf i with data := v, dirty := true }) hb h.perm
  · exact h.refcnt_eq hi hb
  · exact fun _ _ => rfl
  · exact fun _ _ => Iff.rfl
  · exact fun _ hd => by cases hd
  · exact fun _ _ => rfl
  · exact fun _ => hv
  · exact fun _ => hl
  · exact fun _ => hv
  · exact fun j c hjc => .inl hjc
  · exact fun c => h.clean
  · exact fun c => h.home

/-! ## `log_write` -/

lemma view_update_of_ne {c : Nat} (hc : c ≠ b) (v : Block) (d : Disk) :
    view L (update V b v) d c = view L V d c := by
  simp only [view, update_of_ne hc]

/-- `log_write` makes the data of a held home buffer the block's new contents. -/
lemma Coherent.logWrite (h : Coherent L s V s.lh) (hl : (s.buf i).locked = true)
    (hhome : L.Home (s.buf i).blockno) (hs : s.logWrite L i = some s') :
    Coherent L s' (update V (s.buf i).blockno (s.buf i).data) s'.lh := by
  obtain ⟨hi, hv, hdev⟩ := h.locked hl
  have hb : (s.buf i).Holds (s.buf i).blockno := ⟨hdev, rfl⟩
  have href := h.refcnt_eq hi hb
  unfold Cache.logWrite at hs
  split at hs
  next => cases hs
  next =>
    split at hs
    next => cases hs
    next =>
      -- both branches leave the same buffer but for the count
      have key : ∀ n, n = (s.buf i).refcnt + (if (s.buf i).blockno ∈ s.lh then 0 else 1) →
          Coherent L { s.set i { s.buf i with refcnt := n, dirty := false } with
                       lh := absorb s.lh (s.buf i).blockno }
            (update V (s.buf i).blockno (s.buf i).data)
            (absorb s.lh (s.buf i).blockno) := by
        intro n hn
        apply h.change hi hb (x := { s.buf i with refcnt := n, dirty := false }) hb h.perm
        · simp only [mem_absorb, or_true, if_true, hn, Cache.set_waiting]
          split at href
          next hin =>
            simp only [hin, if_true]
            omega
          next hin =>
            simp only [hin, if_false]
            omega
        · exact fun _ _ => rfl
        · intro c hc
          simp [hc]
        · intro _ _
          rw [view_home hhome, update_self]
        · exact fun c hc => view_update_of_ne hc _ _
        · exact fun _ => hv
        · exact fun hd => by cases hd
        · exact fun _ => hv
        · exact fun j c hjc => .inl hjc
        · intro c hc hcP
          simp only [mem_absorb, not_or] at hcP
          rw [update_of_ne hcP.2]
          exact h.clean hc hcP.1
        · intro c hc
          rcases mem_absorb.mp hc with hc | rfl
          · exact h.home hc
          · exact hhome
      cases hs
      by_cases hin : (s.buf i).blockno ∈ s.lh
      · simpa [hin] using key (s.buf i).refcnt (by simp [hin])
      · simpa [hin, Cache.bpin, Cache.set] using key ((s.buf i).refcnt + 1) (by simp [hin])

end Xv6.Bio
