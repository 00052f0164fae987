import Xv6.Fs.Sysfile
import Xv6.Lib.Ends

/-!
# Blocks through the cache

A buffer that has been changed without `log_write` goes back to what is on the
disk when it is recycled. So it is not enough to look at the cache to know what a
later read gives. `At X v I s` says that the blocks of `X` hold `v` for good: the
cache shows `v`, and a buffer that may be recycled agrees with the disk. Nothing
is said about the other blocks. `I` is the inode table.

A transaction has room for so many blocks, and `log_write` panics when it is full.
`Logs s₀ T s` says that the blocks of `T` are those that were written since `s₀`.
A specification has a budget, the number of blocks that `T` may have at the end. So
a stop is known to be one of the log (`Over`), and not to happen when the log has
room for the budget.
-/

namespace Xv6.Fs

open Function Lib

/-- The blocks of `X` hold `v`, and the inode table is `I`. -/
structure At (X : Nat → Prop) (v : Nat → Block) (I : Nat → Inode) (s : Fs) : Prop where
  view : ∀ b, X b → s.view b = v b
  clean : ∀ b, X b → ∀ x, s.cache b = some x → b ∉ s.lh → x = s.disk b
  pinned : ∀ b ∈ s.lh, s.cache b ≠ none
  itable : s.itable = I

/-- Since `s₀`, the blocks of `T` were written to the log, and no others. -/
structure Logs (s₀ : Fs) (T : Finset Nat) (s : Fs) : Prop where
  outstanding : s.outstanding = s₀.outstanding
  length : s.lh.length ≤ s₀.lh.length + T.card
  mem : ∀ b ∈ T, b ∈ s.lh
  logged : ∃ l : List Nat, l.toFinset = T ∧ s.logged.headD [] = l ++ s₀.logged.headD []

lemma Logs.refl (s : Fs) : Logs s ∅ s where
  outstanding := rfl
  length := Nat.le_refl _
  mem := nofun
  logged := ⟨[], rfl, rfl⟩

/-- What concerns neither the header of the log nor its history. -/
lemma Logs.same {s₀ s s' : Fs} {T : Finset Nat} (h : Logs s₀ T s) (hout : s'.outstanding = s.outstanding)
    (hlh : s'.lh = s.lh) (hlogged : s'.logged = s.logged) : Logs s₀ T s' where
  outstanding := hout.trans h.outstanding
  length := hlh ▸ h.length
  mem := hlh ▸ h.mem
  logged := hlogged ▸ h.logged

/-- `At` and `Logs`. -/
structure Held (s₀ : Fs) (T : Finset Nat) (X : Nat → Prop) (v : Nat → Block) (I : Nat → Inode) (s : Fs) :
    Prop extends At X v I s, Logs s₀ T s

/-- How many blocks a transaction may have. -/
def logCap [Superblock] : Nat := min logSize (Superblock.nlog - 1)

/-- `n` blocks are within the budget `c`, if there is one. -/
def Within (n : Nat) (c : Option Nat) : Prop := ∀ m ∈ c, n ≤ m

lemma Within.mono {n n' : Nat} {c : Option Nat} (h : Within n c) (hle : n' ≤ n) : Within n' c :=
  fun m hm => Nat.le_trans hle (h m hm)

lemma within_some {n m : Nat} : Within n (some m) ↔ n ≤ m := by simp [Within]

/-- The log has had no room for the blocks of the budget, or there was no
transaction. -/
def Over [Superblock] (c : Option Nat) (s₀ : Fs) (e : Stop) : Prop :=
  e = .logTooBig ∧ (∀ n ∈ c, logCap < s₀.lh.length + n) ∨ e = .logOutside ∧ s₀.outstanding = 0

variable {X X' : Nat → Prop} {v v' : Nat → Block} {I : Nat → Inode} {s s₀ : Fs} {E : Stop → Prop}
variable {T : Finset Nat} {c : Option Nat}

lemma At.weaken (h : At X v I s) (hX : ∀ b, X' b → X b ∧ v' b = v b) : At X' v' I s where
  view b hb := (h.view b (hX b hb).1).trans (hX b hb).2.symm
  clean b hb := h.clean b (hX b hb).1
  pinned := h.pinned
  itable := h.itable

lemma Held.weaken (h : Held s₀ T X v I s) (hX : ∀ b, X' b → X b ∧ v' b = v b) : Held s₀ T X' v' I s :=
  ⟨h.toAt.weaken hX, h.toLogs⟩

/-! ## Reading -/

/-- What recycling leaves of the cache. -/
lemma foldl_recycle (lh : List Nat) (l : List Nat) (cache : Nat → Option Block) (b : Nat) :
    l.foldl (recycle lh) cache b = cache b ∨ b ∉ lh ∧ l.foldl (recycle lh) cache b = none := by
  induction l generalizing cache with
  | nil => exact .inl rfl
  | cons c l ih =>
    have hstep : recycle lh cache c b = cache b ∨ b ∉ lh ∧ recycle lh cache c b = none := by
      unfold recycle
      split
      · exact .inl rfl
      next hc =>
        by_cases hbc : b = c
        · subst hbc
          exact .inr ⟨hc, update_self ..⟩
        · exact .inl (update_of_ne hbc ..)
    rcases ih (recycle lh cache c) with hrest | hrest
    · rw [List.foldl_cons, hrest]
      exact hstep
    · exact .inr hrest

/-- The cache loses buffers that agree with the disk, and gains some. -/
lemma At.recache {cache : Nat → Option Block} {n : Nat} (h : At X v I s)
    (hc : ∀ b, cache b = s.cache b ∨ b ∉ s.lh ∧ (cache b = none ∨ cache b = some (s.disk b)) ∨
      s.cache b = none ∧ cache b = some (s.disk b)) :
    At X v I { s with cache := cache, reads := n } where
  view b hb := by
    have hold := h.view b hb
    have hclean := h.clean b hb
    show (cache b).getD (s.disk b) = v b
    rw [← hold, Fs.view]
    rcases hc b with hcb | ⟨hlh, hcb⟩ | ⟨hnone, hcb⟩
    · rw [hcb]
    · cases hx : s.cache b with
      | none =>
        rcases hcb with hcb | hcb
        · rw [hcb]
        · rw [hcb]
          rfl
      | some x =>
        rw [hclean x hx hlh]
        rcases hcb with hcb | hcb
        · rw [hcb]
          rfl
        · rw [hcb]
    · rw [hcb, hnone]
      rfl
  clean b hb x hx hlh := by
    change cache b = some x at hx
    rcases hc b with hcb | ⟨-, hcb | hcb⟩ | ⟨-, hcb⟩
    · exact h.clean b hb x (hcb ▸ hx) hlh
    · rw [hcb] at hx
      cases hx
    · rw [hcb] at hx
      exact (Option.some.inj hx).symm
    · rw [hcb] at hx
      exact (Option.some.inj hx).symm
  pinned b hb hnone := by
    change cache b = none at hnone
    rcases hc b with hcb | ⟨hlh, -⟩ | ⟨-, hcb⟩
    · exact h.pinned b hb (hcb ▸ hnone)
    · exact hlh hb
    · rw [hcb] at hnone
      cases hnone
  itable := h.itable

lemma bread_at (b : Nat) : Triple (Held s₀ T X v I) (bread b)
    (fun data s => Held s₀ T X v I s ∧ (X b → data = v b)) E := by
  intro s hs
  have hfold := foldl_recycle s.lh (s.evict s.reads) s.cache
  apply ends_get_bind
  dsimp only
  generalize (s.evict s.reads).foldl (recycle s.lh) s.cache = cache at hfold
  split
  next data hdata =>
    have hat : At X v I { s with cache := cache, reads := s.reads + 1 } := by
      refine hs.toAt.recache fun c => ?_
      rcases hfold c with hc | ⟨hlh, hc⟩
      · exact .inl hc
      · exact .inr (.inl ⟨hlh, .inl hc⟩)
    refine ⟨⟨hat, hs.toLogs.same rfl rfl rfl⟩, fun hX => ?_⟩
    rw [← hat.view b hX]
    show data = (cache b).getD (s.disk b)
    rw [hdata]
    rfl
  next hnone =>
    have hat : At X v I { s with
        cache := update cache b (some (s.disk b)), reads := s.reads + 1 } := by
      refine hs.toAt.recache fun c => ?_
      by_cases hcb : c = b
      · subst hcb
        rw [update_self]
        rcases hfold c with hc | ⟨hlh, -⟩
        · exact .inr (.inr ⟨hc ▸ hnone, rfl⟩)
        · exact .inr (.inl ⟨hlh, .inr rfl⟩)
      · rw [update_of_ne hcb]
        rcases hfold c with hc | ⟨hlh, hc⟩
        · exact .inl hc
        · exact .inr (.inl ⟨hlh, .inl hc⟩)
    refine ⟨⟨hat, hs.toLogs.same rfl rfl rfl⟩, fun hX => ?_⟩
    rw [← hat.view b hX]
    show s.disk b = (update cache b (some (s.disk b)) b).getD (s.disk b)
    rw [update_self]
    rfl

/-! ## Writing -/

lemma setBuf_at {b : Nat} (data : Block) (hb : ¬ X b) :
    Triple (Held s₀ T X v I) (setBuf b data) (fun _ => Held s₀ T X v I) E := by
  refine triple_modify fun s hs => ⟨?_, hs.toLogs.same rfl rfl rfl⟩
  have hother : ∀ c, X c → update s.cache b (some data) c = s.cache c := by
    intro c hc
    have hne : c ≠ b := by
      rintro rfl
      exact hb hc
    exact update_of_ne hne ..
  exact {
    view := fun c hc => by
      rw [← hs.view c hc]
      show (update s.cache b (some data) c).getD _ = _
      rw [hother c hc]
      rfl
    clean := fun c hc x hx => hs.clean c hc x ((hother c hc).symm.trans hx)
    pinned := by
      intro c hc
      show update s.cache b (some data) c ≠ none
      by_cases hcb : c = b
      · subst hcb
        rw [update_self]
        exact fun hn => by cases hn
      · rw [update_of_ne hcb]
        exact hs.pinned c hc
    itable := hs.itable }

variable [Superblock]

section

omit [Superblock]

lemma mem_addHeader {lh : List Nat} {b c : Nat} :
    c ∈ (if b ∈ lh then lh else lh ++ [b]) ↔ c ∈ lh ∨ c = b := by
  split
  next hb =>
    constructor
    · exact .inl
    · rintro (hc | rfl)
      · exact hc
      · exact hb
  next => simp

/-- The header after a `log_write`. -/
lemma Logs.insert {b : Nat} {cache : Nat → Option Block} (h : Logs s₀ T s) :
    Logs s₀ (insert b T) { s with
      cache := cache
      lh := if b ∈ s.lh then s.lh else s.lh ++ [b]
      logged := (b :: s.logged.headD []) :: s.logged.tail } where
  outstanding := h.outstanding
  length := by
    have hlen := h.length
    show (if b ∈ s.lh then s.lh else s.lh ++ [b]).length ≤ _
    split
    next =>
      have hcard : T.card ≤ (Insert.insert b T).card := Finset.card_le_card (Finset.subset_insert b T)
      omega
    next hb =>
      have hcard : (Insert.insert b T).card = T.card + 1 :=
        Finset.card_insert_of_notMem fun hc => hb (h.mem b hc)
      rw [List.length_append, List.length_singleton]
      omega
  mem c hc := by
    refine mem_addHeader.mpr ?_
    rcases Finset.mem_insert.mp hc with rfl | hc
    · exact .inr rfl
    · exact .inl (h.mem c hc)
  logged := by
    obtain ⟨l, hl, hhead⟩ := h.logged
    refine ⟨b :: l, by rw [List.toFinset_cons, hl], ?_⟩
    show b :: s.logged.headD [] = _
    rw [hhead, List.cons_append]

/-- What `commit` writes to the disk. -/
lemma foldl_install (view : Nat → Block) (lh : List Nat) (disk : Disk) (b : Nat) :
    lh.foldl (fun d b => update d b (view b)) disk b = if b ∈ lh then view b else disk b := by
  induction lh generalizing disk with
  | nil => rfl
  | cons c lh ih =>
    rw [List.foldl_cons, ih]
    by_cases hbc : b = c
    · subst hbc
      simp
    · simp [hbc]

lemma commit_at : Triple (At X v I) commit (fun _ => At X v I) E := by
  refine triple_modify fun s hs => ?_
  have hdisk := foldl_install s.view s.lh s.disk
  refine { view := fun b hb => ?_, clean := fun b hb x hx _ => ?_, pinned := fun b hb => ?_,
           itable := hs.itable }
  · rw [← hs.view b hb]
    show (s.cache b).getD (s.lh.foldl (fun d b => update d b (s.view b)) s.disk b) = s.view b
    rw [hdisk]
    unfold view
    split
    · cases s.cache b <;> rfl
    · rfl
  · change s.cache b = some x at hx
    show x = s.lh.foldl (fun d b => update d b (s.view b)) s.disk b
    rw [hdisk]
    split
    · rw [view, hx]
      rfl
    next hlh => exact hs.clean b hb x hx hlh
  · cases hb

lemma endOp_at : Triple (At X v I) endOp (fun _ => At X v I) E := by
  refine Triple.bind (Q := fun _ => At X v I) (triple_modify fun s hs => ?_) fun _ => ?_
  · exact ⟨hs.view, hs.clean, hs.pinned, hs.itable⟩
  · refine triple_get_bind fun s hs => triple_ite (fun _ => ?_) fun _ => ?_
    · exact commit_at.pre fun t ht => ht ▸ hs
    · exact triple_pure fun t ht => ht ▸ hs

end

lemma logWrite_at (b : Nat) (data : Block) (hc : Within (T.card + 1) c) :
    Triple (Held s₀ T X v I) (logWrite b data)
      (fun _ => Held s₀ (insert b T) (fun c => X c ∨ c = b) (update v b data) I) (Over c s₀) := by
  intro s hs
  have hlen := hs.length
  apply ends_get_bind
  split
  next hfull =>
    refine ends_throw (.inl ⟨rfl, fun n hn => ?_⟩)
    have hcn := hc n hn
    unfold logCap
    omega
  split
  next hout =>
    have hzero : s.outstanding = 0 := by omega
    exact ends_throw (.inr ⟨rfl, hs.outstanding ▸ hzero⟩)
  apply ends_modify_bind
  refine ends_modify ⟨?_, hs.toLogs.insert⟩
  refine { view := fun c hc => ?_, clean := fun c hc x hx hlh => ?_, pinned := fun c hc => ?_,
           itable := hs.itable }
  · show (update s.cache b (some data) c).getD (s.disk c) = _
    by_cases hcb : c = b
    · subst hcb
      rw [update_self, update_self]
      rfl
    · rw [update_of_ne hcb, update_of_ne hcb]
      exact hs.view c (hc.resolve_right hcb)
  · change c ∉ (if b ∈ s.lh then s.lh else s.lh ++ [b]) at hlh
    rw [mem_addHeader, not_or] at hlh
    change update s.cache b (some data) c = some x at hx
    rw [update_of_ne hlh.2] at hx
    exact hs.clean c (hc.resolve_right hlh.2) x hx hlh.1
  · change c ∈ (if b ∈ s.lh then s.lh else s.lh ++ [b]) at hc
    rw [mem_addHeader] at hc
    show update s.cache b (some data) c ≠ none
    by_cases hcb : c = b
    · subst hcb
      rw [update_self]
      exact fun hn => by cases hn
    · rw [update_of_ne hcb]
      exact hs.pinned c (hc.resolve_right hcb)

/-! ## The bitmap -/

section

omit [Superblock]

lemma clearBit_spec {data : Block} {bi n r : Nat} (h : clearBit data bi n = some r) :
    bi ≤ r ∧ r < bi + n ∧ data.bit r = false := by
  induction n generalizing bi with
  | zero => cases h
  | succ n ih =>
    rw [clearBit] at h
    split at h
    · obtain ⟨h1, h2, h3⟩ := ih h
      exact ⟨by omega, by omega, h3⟩
    next hbit =>
      cases h
      exact ⟨Nat.le_refl _, by omega, by simpa using hbit⟩

lemma clearBit_none {data : Block} {bi n : Nat} (h : clearBit data bi n = none) {j : Nat} (hj : bi ≤ j)
    (hj' : j < bi + n) : data.bit j = true := by
  induction n generalizing bi with
  | zero => omega
  | succ n ih =>
    rw [clearBit] at h
    split at h
    next hbit =>
      rcases Nat.eq_or_lt_of_le hj with rfl | hlt
      · exact hbit
      · exact ih h hlt (by omega)
    next => cases h

lemma mod_bpb_add {b i : Nat} (hb : bpb ∣ b) (hi : i < bpb) : (b + i) % bpb = i := by
  obtain ⟨k, rfl⟩ := hb
  rw [Nat.mul_add_mod, Nat.mod_eq_of_lt hi]

end

/-- Whether the bitmap says that a block is in use. -/
def bitOf (v : Nat → Block) (b : Nat) : Bool := (v (bblock b)).bit (b % bpb)

/-- The bitmap with the bit of `b` set. -/
def markBlock (v : Nat → Block) (b : Nat) : Nat → Block :=
  update v (bblock b) ((v (bblock b)).setBit (b % bpb))

/-- The bitmap with the bit of `b` clear. -/
def unmarkBlock (v : Nat → Block) (b : Nat) : Nat → Block :=
  update v (bblock b) ((v (bblock b)).clearBit (b % bpb))

lemma bit_index {b c : Nat} (h : bblock c = bblock b) : c % bpb = b % bpb ↔ c = b := by
  have hdiv : c / bpb = b / bpb := by
    unfold bblock at h
    omega
  constructor
  · intro hmod
    rw [← Nat.div_add_mod c bpb, ← Nat.div_add_mod b bpb, hdiv, hmod]
  · rintro rfl
    rfl

lemma bitOf_markBlock (v : Nat → Block) (b c : Nat) :
    bitOf (markBlock v b) c = (bitOf v c || decide (c = b)) := by
  have hlt : b % bpb < 8 * bsize := Nat.mod_lt _ (by decide)
  unfold bitOf markBlock
  by_cases hblock : bblock c = bblock b
  · rw [hblock, update_self, Block.bit_setBit _ _ hlt]
    simp only [bit_index hblock]
  · have hne : c ≠ b := fun he => hblock (by rw [he])
    rw [update_of_ne hblock]
    simp [hne]

lemma bitOf_unmarkBlock (v : Nat → Block) (b c : Nat) :
    bitOf (unmarkBlock v b) c = (bitOf v c && decide (c ≠ b)) := by
  have hlt : b % bpb < 8 * bsize := Nat.mod_lt _ (by decide)
  unfold bitOf unmarkBlock
  by_cases hblock : bblock c = bblock b
  · rw [hblock, update_self, Block.bit_clearBit _ _ hlt]
    simp only [ne_eq, bit_index hblock]
  · have hne : c ≠ b := fun he => hblock (by rw [he])
    rw [update_of_ne hblock]
    simp [hne]

lemma bzero_at (b : Nat) (hc : Within (T.card + 1) c) :
    Triple (Held s₀ T X v I) (bzero b)
      (fun _ => Held s₀ (insert b T) (fun c => X c ∨ c = b) (update v b Block.zero) I) (Over c s₀) :=
  ((bread_at b).post fun _ _ hs => hs.1).bind fun _ => logWrite_at b Block.zero hc

/-- No block is free. -/
def Full (v : Nat → Block) : Prop := ∀ b < Superblock.size, bitOf v b = true

instance (v : Nat → Block) : Decidable (Full v) :=
  inferInstanceAs (Decidable (∀ b < Superblock.size, bitOf v b = true))

lemma bblock_add {b i : Nat} (hb : bpb ∣ b) (hi : i < bpb) : bblock (b + i) = bblock b := by
  obtain ⟨k, rfl⟩ := hb
  unfold bblock
  rw [Nat.mul_add_div (by decide), Nat.div_eq_of_lt hi, Nat.mul_div_cancel_left _ (by decide)]
  rfl

/-- The outcome of `balloc`: nothing as no block is free, or a block that was free and is zeroed. -/
lemma ballocRounds_at (b n : Nat) (hb : bpb ∣ b) (hX : ∀ c, c < Superblock.size → X (bblock c))
    (hc : Within (T.card + 2) c) :
    Triple (Held s₀ T X v I) (ballocRounds b n)
      (fun r s => r = 0 ∧ (∀ c, b ≤ c → c < b + n * bpb → c < Superblock.size → bitOf v c = true) ∧
          Held s₀ T X v I s ∨
        r < Superblock.size ∧ bitOf v r = false ∧
        Held s₀ (insert r (insert (bblock r) T)) (fun c => X c ∨ c = r)
          (update (markBlock v r) r Block.zero) I s) (Over c s₀) := by
  induction n generalizing b with
  | zero => exact triple_pure fun s hs => .inl ⟨rfl, fun c h h' => by omega, hs⟩
  | succ n ih =>
    refine (bread_at (bblock b)).bind fun data => ?_
    split
    next bi hfind =>
      obtain ⟨-, hlt, hclear⟩ := clearBit_spec hfind
      have hbi : bi < bpb := by omega
      have hsize : b + bi < Superblock.size := by omega
      -- the bit found is that of block `b + bi`
      have hblock := bblock_add hb hbi
      have hmod := mod_bpb_add hb hbi
      intro s hs
      have hXb : X (bblock b) := hblock ▸ hX (b + bi) hsize
      have hdata := hs.2 hXb
      have hcard := Finset.card_insert_le (bblock b) T
      refine ((logWrite_at (bblock b) _ (hc.mono (by omega))).bind fun _ =>
        (bzero_at (b + bi) (hc.mono (by omega))).bind fun _ => ?_) s hs.1
      refine triple_pure fun t ht => .inr ⟨hsize, ?_, ?_⟩
      · rw [bitOf, hblock, hmod, ← hdata]
        exact hclear
      · rw [hblock]
        refine ht.weaken fun c hc => ⟨?_, ?_⟩
        · rcases hc with hc | hc
          · exact .inl (.inl hc)
          · exact .inr hc
        · rw [markBlock, hblock, hmod, hdata]
    next hnone =>
      intro s hs
      refine (ih (b + bpb) (Dvd.dvd.add hb (dvd_refl bpb)) s hs.1).mono fun r t hr => ?_
      rcases hr with ⟨hr, hfull, ht⟩ | hr
      · refine .inl ⟨hr, fun c hbc hlt hsize => ?_, ht⟩
        rcases Nat.lt_or_ge c (b + bpb) with hin | hout
        · -- a bit of this block of the bitmap
          obtain ⟨i, rfl⟩ := Nat.exists_eq_add_of_le hbc
          have hi : i < bpb := by omega
          have hdata := hs.2 (bblock_add hb hi ▸ hX (b + i) hsize)
          rw [bitOf, bblock_add hb hi, mod_bpb_add hb hi, ← hdata]
          exact clearBit_none hnone (Nat.zero_le i) (by omega)
        · exact hfull c hout (by rw [Nat.add_mul] at hlt; omega) hsize
      · exact .inr hr

lemma balloc_at (hX : ∀ c, c < Superblock.size → X (bblock c)) (hc : Within (T.card + 2) c) :
    Triple (Held s₀ T X v I) balloc
      (fun r s => r = 0 ∧ Full v ∧ Held s₀ T X v I s ∨ r < Superblock.size ∧ bitOf v r = false ∧
        Held s₀ (insert r (insert (bblock r) T)) (fun c => X c ∨ c = r)
          (update (markBlock v r) r Block.zero) I s) (Over c s₀) := by
  refine (ballocRounds_at 0 _ (dvd_zero _) hX hc).post fun r s hr => hr.imp_left fun ⟨hr, hfull, hs⟩ => ?_
  refine ⟨hr, fun b hb => hfull b (Nat.zero_le b) ?_ hb, hs⟩
  have hdiv := Nat.div_add_mod (Superblock.size + bpb - 1) bpb
  have hmod := Nat.mod_lt (Superblock.size + bpb - 1) (show 0 < bpb by decide)
  rw [Nat.mul_comm] at hdiv
  omega

/-- `bfree` of a block that is in use. -/
lemma bfree_at {b : Nat} (hX : X (bblock b)) (hbit : bitOf v b = true) (hc : Within (T.card + 1) c) :
    Triple (Held s₀ T X v I) (bfree b) (fun _ => Held s₀ (insert (bblock b) T) X (unmarkBlock v b) I)
      (Over c s₀) := by
  refine (bread_at (bblock b)).bind fun data => ?_
  intro s hs
  have hdata := hs.2 hX
  subst hdata
  change (v (bblock b)).bit (b % bpb) = true at hbit
  rw [if_pos hbit]
  refine (logWrite_at (bblock b) _ hc s hs.1).mono fun _ t ht => ht.weaken fun c hc => ⟨.inl hc, rfl⟩

end Xv6.Fs
