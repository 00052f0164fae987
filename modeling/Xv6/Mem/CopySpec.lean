import Xv6.Mem.SpaceSpec

/-!
# Copies

`uvmcopy` gives a table the user pages of another one. The copies between
kernel and user memory go through `walkaddr`, which finds no page that lacks
`PTE_U`: of the pages of an address space they reach the user pages alone.
-/

namespace Xv6.Mem

open Function Lib

variable [Layout] {s s' : Phys} {R : Tag → Option Nat} {o o' : Nat → Owner} {t : Tag}
variable {r q v n tf : Nat}

/-! ## `uvmcopy` -/

/-- Unmapping all user pages. -/
lemma uvmunmap_all (h : Heap s R o) (hR : R t = some r)
    (hp : UserPages (fun v => pteAt s.mem r v) n) :
    Returns (uvmunmap (4096 * r) 0 n true) s fun _ s' => ∃ o',
      Changed R t r 0 s o s' o' ∧ UserPages (fun v => pteAt s'.mem r v) 0 := by
  have hle := hp.le
  unfold uvmunmap
  rw [if_neg (by decide), unmap_count (v := 0) (by unfold trapframeVpn at hle; omega)]
  have hspec := unmapRounds_spec hR n (v := 0) h (by rw [Nat.zero_add]; exact hp.le)
    (fun v' _ hv' => ⟨hp.kid_ne_none (by omega), hp.flags_ne (by omega)⟩)
  rw [Nat.zero_add] at hspec
  refine hspec.mono ?_
  rintro _ s' ⟨o', hu⟩
  exact ⟨o', hu.changed hp.le, hu.userPages hp (Nat.zero_le n)⟩

section

omit [Layout]

variable {m m' m'' : Bytes} {r' r'' : Nat}

/-- Virtual page `v` has in table `r'` of memory `m'` the permissions and the bytes that it has
in table `r` of memory `m`. -/
structure Twin (m : Bytes) (r : Nat) (m' : Bytes) (r' v : Nat) : Prop where
  flags : pteAt m' r' v % 1024 = pteAt m r v % 1024
  byte : ∀ {x}, x < 4096 →
    m' (4096 * (pteAt m' r' v / 1024) + x) = m (4096 * (pteAt m r v / 1024) + x)

lemma Twin.trans (h : Twin m r m' r' v) (h' : Twin m' r' m'' r'' v) : Twin m r m'' r'' v :=
  ⟨h'.flags.trans h.flags, fun hx => (h'.byte hx).trans (h.byte hx)⟩

/-- An entry and its page that stay. -/
lemma Twin.of_same (hpte : pteAt m' r v = pteAt m r v) (hpage : Agree m m' (pteAt m r v / 1024)) :
    Twin m r m' r v := by
  refine ⟨by rw [hpte], fun hx => ?_⟩
  rw [hpte]
  exact hpage _ (by omega)

/-- A valid entry has its permissions again in the copy. -/
lemma flags_or_valid {w : Nat} (hw : w % 4 = 3) : w % 1024 ||| 1 = w % 1024 := by
  apply Nat.eq_of_testBit_eq
  intro i
  rw [Nat.testBit_or]
  cases i with
  | zero =>
    have hodd : w % 1024 % 2 = 1 := by omega
    simp [hodd]
  | succ i => simp [Nat.testBit_succ 1]

end

/-- The pages below `keep` stay. -/
lemma Changed.twin {keep : Nat} (hc : Changed R t r keep s o s' o') (h : Heap s R o)
    (hR : R t = some r) (hp : UserPages (fun v => pteAt s.mem r v) keep) (hv : v < keep) :
    Twin s.mem r s'.mem r v :=
  have hu := hp.userVpn hv
  Twin.of_same (hc.ptes hu.1 (.inl hv)) (hc.mem hv ((h.user hR hu).mp (hp.kid hv)))

/-- The user pages of a table stay if neither they nor the pages of the table are written. -/
lemma Heap.twin {m' : Bytes} (h : Heap s R o) (hR : R t = some r)
    (hp : UserPages (fun v => pteAt s.mem r v) n) (hv : v < n)
    (htable : ∀ {q d x}, o q = .table t d x → Agree s.mem m' q)
    (huser : ∀ {q v}, o q = .user t v → Agree s.mem m' q) : Twin s.mem r m' r v := by
  have hu := hp.userVpn hv
  exact Twin.of_same ((h.table_congr hR fun _ _ _ => htable).2 v hu.1)
    (huser ((h.user hR hu).mp (hp.kid hv)))

/-- The page that a round of `uvmcopy` has mapped. -/
lemma Mapped.twin {r₀ q₁ : Nat} {s₂ s₃ : Phys} {o₃ : Nat → Owner}
    (hm : Mapped R t r v q₁ (leafPte q₁ (pteFlags (pteAt s.mem r₀ v))) s₂
      (update o q₁ .temp) s₃ o₃)
    (hv : v < 512 ^ 3) (hvalid : pteAt s.mem r₀ v % 4 = 3)
    (hcopy : ∀ {x}, x < 4096 →
      s₂.mem (4096 * q₁ + x) = s.mem (4096 * (pteAt s.mem r₀ v / 1024) + x)) :
    Twin s.mem r₀ s₃.mem r v := by
  have hperm : pteFlags (pteAt s.mem r₀ v) < 1024 := by
    rw [pteFlags_eq]
    exact Nat.mod_lt _ (by decide)
  have hpte : pteAt s₃.mem r v = leafPte q₁ (pteFlags (pteAt s.mem r₀ v)) := by
    rw [hm.ptes hv, if_pos rfl]
  refine ⟨?_, fun {x} hx => ?_⟩
  · rw [hpte, leafPte_mod hperm, pteFlags_eq, flags_or_valid hvalid]
  · rw [hpte, leafPte_div hperm, ← hcopy hx]
    refine hm.mem (q := q₁) ?_ ?_ _ (by omega)
    · rw [update_self]
      rintro ⟨⟩
    · rw [update_self]
      rintro d x ⟨⟩

/-- A new page after a user page has been copied to it. -/
lemma copy_of_take {q₁ w x : Nat} (h : Heap s R o) (hfree : o q₁ = .free)
    (hown : o (w / 1024) = .user t v) (hx : x < 4096) :
    copy (s.take q₁).mem (4096 * q₁) (pte2pa w) pgSize (4096 * q₁ + x) =
      s.mem (4096 * (w / 1024) + x) := by
  have hne : w / 1024 ≠ q₁ := by
    intro he
    rw [he, hfree] at hown
    cases hown
  have hsmall := inArea_lt (h.inArea (q := w / 1024) (by rw [hown]; rintro ⟨⟩))
  have hpa : pte2pa w = 4096 * (w / 1024) := by
    rw [pte2pa_eq]
    omega
  unfold copy
  rw [if_pos (by unfold pgSize; omega), hpa, Nat.add_sub_cancel_left]
  exact s.agree_take hne _ (by omega)

/-- The loop of `uvmcopy`, from `v` copied pages on. -/
lemma copyRounds_spec {t₀ : Tag} {r₀ m : Nat} {sᵢ : Phys} {oᵢ : Nat → Owner} (h : Heap sᵢ R oᵢ)
    (hR₀ : R t₀ = some r₀) (hR : R t = some r) (ht : t₀ ≠ t)
    (hold : UserPages (fun v => pteAt sᵢ.mem r₀ v) m) :
    ∀ (n : Nat) {s : Phys} {o : Nat → Owner} {v : Nat}, Changed R t r 0 sᵢ oᵢ s o →
      UserPages (fun v => pteAt s.mem r v) v → v + n = m →
      (∀ v', v' < v → Twin sᵢ.mem r₀ s.mem r v') →
      Returns (copyRounds (4096 * r₀) (4096 * r) (4096 * v) n) s fun res s' => ∃ o',
        Changed R t r 0 sᵢ oᵢ s' o' ∧ (res = 0 ∧ UserPages (fun v => pteAt s'.mem r v) m ∧
            (∀ v, v < m → Twin sᵢ.mem r₀ s'.mem r v) ∨
          res = -1 ∧ UserPages (fun v => pteAt s'.mem r v) 0) := by
  intro n
  induction n with
  | zero =>
    intro s o v hc hp hm htw
    obtain rfl : v = m := by omega
    exact returns_pure ⟨o, hc, .inl ⟨rfl, hp, htw⟩⟩
  | succ n ih =>
    intro s o v hc hp hm htw
    have hvm : v < m := by omega
    have hv : v < trapframeVpn := Nat.lt_of_lt_of_le hvm hold.le
    have hu := userVpn_of_lt hv
    have hpte : pteAt s.mem r₀ v = pteAt sᵢ.mem r₀ v := h.other_table hc.within ht hR₀ hu.1
    have hkid : pteKid (pteAt s.mem r₀ v) ≠ none := by
      rw [hpte]
      exact hold.kid_ne_none hvm
    have hmod : pteAt s.mem r₀ v % 4 = 3 := by
      rw [hpte]
      exact hold.mapped hvm
    obtain ⟨q, hq⟩ := node_of_mapped hkid
    have hpos := inArea_pos (hc.heap.node_inArea hR₀ (by decide) (div_lt_pow hu.1) hq)
    have hundo : ∀ {s₁ : Phys} {o₁ : Nat → Owner}, Changed R t r 0 sᵢ oᵢ s₁ o₁ →
        UserPages (fun v => pteAt s₁.mem r v) v →
        Returns (uvmunmap (4096 * r) 0 (4096 * v / pgSize) true >>= fun _ => pure (-1 : Int)) s₁
          fun res s' => ∃ o', Changed R t r 0 sᵢ oᵢ s' o' ∧
            (res = 0 ∧ UserPages (fun v => pteAt s'.mem r v) m ∧
                (∀ v, v < m → Twin sᵢ.mem r₀ s'.mem r v) ∨
              res = -1 ∧ UserPages (fun v => pteAt s'.mem r v) 0) := by
      intro s₁ o₁ hc₁ hp₁
      rw [show 4096 * v / pgSize = v from Nat.mul_div_cancel_left v (by decide)]
      refine (uvmunmap_all hc₁.heap hR hp₁).bind ?_
      rintro _ s' ⟨o', hc', hp'⟩
      exact returns_pure ⟨o', hc₁.trans h hR hc', .inr ⟨rfl, hp'⟩⟩
    rw [copyRounds]
    refine returns_bind_of_eq (walk_lookup hc.heap hR₀ (vpn_lt_maxVa hv)) ?_
    rw [pteAddr_of_node hq, if_neg (by omega)]
    apply returns_load64
    rw [entry_eq, ← pteAt_of_node hq, if_neg (fun h0 => hkid (pteKid_eq_none.mpr h0))]
    refine (kalloc_spec hc.heap).bind ?_
    rintro pa s₁ (⟨rfl, rfl, -⟩ | ⟨q₁, rfl, hq₁, hfree, rfl, htake⟩)
    · rw [if_pos rfl]
      exact hundo hc hp
    · rw [if_neg (by omega)]
      apply returns_memmove
      have hf : Fresh R q₁ s o ((s.take q₁).withMem (copy (s.take q₁).mem (4096 * q₁)
          (pte2pa (pteAt s.mem r₀ v)) pgSize)) :=
        Fresh.of_take hfree htake fun hq => agree_copy hq
      have hperm : pteFlags (pteAt s.mem r₀ v) < 1024 := by
        rw [pteFlags_eq]
        exact Nat.mod_lt _ (by decide)
      refine (mappages_spec hf.heap hR (vpn_lt_maxVa hv)
        (by rw [hf.ptes hc.heap hR hu.1]; exact hp.unmapped hu (Nat.le_refl v))
        (inArea_lt hf.inArea) hperm (fun _ => update_self ..)).bind ?_
      rintro res s₃ (⟨rfl, -, o₃, hg⟩ | ⟨rfl, o₃, hmapped, -⟩)
      · rw [if_pos (by decide)]
        refine returns_bind_of_eq (kfree_eq hf.inArea s₃) ?_
        obtain ⟨hback, hptes⟩ := hf.giveBack hc.heap hR hg 0
        exact hundo (hc.trans h hR hback) (hp.congr fun v hv _ => hptes hv)
      · rw [if_neg (by decide)]
        obtain ⟨hadd, hp', -⟩ := hf.added hc.heap hR hv hmapped hp (by
          have hleaf := leafPte_mod (q := q₁) hperm
          rw [pteFlags_eq, flags_or_valid hmod] at hleaf
          rw [pteFlags_eq]
          omega)
        have hadd' : Changed R t r 0 s o s₃ o₃ :=
          ⟨hadd.heap, hadd.within, hadd.temp,
            fun hv' hk' => hadd.ptes hv' (hk'.imp (fun hlt => by omega) id),
            fun hv' => hadd.mem (by omega)⟩
        have hnew : Twin s.mem r₀ s₃.mem r v := by
          have hown : o (pteAt s.mem r₀ v / 1024) = .user t₀ v :=
            (hc.heap.user hR₀ hu).mp
              (pteKid_of_valid fun h0 => hkid (pteKid_eq_none.mpr h0))
          exact hmapped.twin hu.1 hmod fun hx => copy_of_take hc.heap hfree hown hx
        refine ih (v := v + 1) (hc.trans h hR hadd') hp' (by omega) fun v' hv' => ?_
        by_cases he : v' = v
        · rw [he]
          refine Twin.trans (h.twin hR₀ hold hvm (fun hq => ?_) fun hq => ?_) hnew
          · exact hc.within.mem (by rw [hq]; exact ht)
          · exact hc.within.mem (by rw [hq]; exact ht)
        · exact (htw v' (by omega)).trans (hadd.twin hc.heap hR hp (by omega))

/-- `uvmcopy` into a table without user pages. -/
lemma uvmcopy_spec {t₀ : Tag} {r₀ sz : Nat} (h : Heap s R o) (hR₀ : R t₀ = some r₀)
    (hR : R t = some r) (ht : t₀ ≠ t) (hold : UserPages (fun v => pteAt s.mem r₀ v) (pages sz))
    (hnew : UserPages (fun v => pteAt s.mem r v) 0) :
    Returns (uvmcopy (4096 * r₀) (4096 * r) sz) s fun res s' => ∃ o',
      Changed R t r 0 s o s' o' ∧ (res = 0 ∧ UserPages (fun v => pteAt s'.mem r v) (pages sz) ∧
          (∀ v, v < pages sz → Twin s.mem r₀ s'.mem r v) ∨
        res = -1 ∧ UserPages (fun v => pteAt s'.mem r v) 0) :=
  copyRounds_spec h hR₀ hR ht hold (pages sz) (v := 0) (Changed.refl h 0) hnew (Nat.zero_add _)
    fun v hv => absurd hv (Nat.not_lt_zero v)

/-! ## `uvmclear` -/

section Bits

omit [Layout]

variable {w : Nat}

lemma clearU_mod (w : Nat) : (w &&& (2 ^ 64 - 1 - pteU)) % 4 = w % 4 := by
  have h := Nat.and_mod_two_pow (a := w) (b := 2 ^ 64 - 1 - pteU) (n := 2)
  have hmask : (2 ^ 64 - 1 - pteU) % 2 ^ 2 = 2 ^ 2 - 1 := by decide
  rw [hmask, Nat.and_two_pow_sub_one_eq_mod, Nat.mod_mod] at h
  exact h

lemma clearU_div (hw : w < 2 ^ 64) : (w &&& (2 ^ 64 - 1 - pteU)) / 1024 = w / 1024 := by
  have h := Nat.and_div_two_pow (a := w) (b := 2 ^ 64 - 1 - pteU) (n := 10)
  have hmask : (2 ^ 64 - 1 - pteU) / 2 ^ 10 = 2 ^ 54 - 1 := by decide
  rw [hmask, Nat.and_two_pow_sub_one_eq_mod] at h
  have hlt : w / 2 ^ 10 < 2 ^ 54 := by omega
  rw [Nat.mod_eq_of_lt hlt] at h
  exact h

/-- An entry without `PTE_U` refers to the same page. -/
lemma pteKid_clearU (hw : w < 2 ^ 64) : pteKid (w &&& (2 ^ 64 - 1 - pteU)) = pteKid w := by
  have hmod := clearU_mod w
  have h2 : (w &&& (2 ^ 64 - 1 - pteU)) % 2 = w % 2 := by omega
  unfold pteKid
  rw [h2, clearU_div hw]

/-- One bit of an entry. -/
lemma and_bit (w k : Nat) : w &&& 2 ^ k = 2 ^ k * (w / 2 ^ k % 2) := by
  rw [Nat.and_two_pow, Nat.testBit_eq_decide_div_mod_eq, Nat.mul_comm]
  rcases Nat.mod_two_eq_zero_or_one (w / 2 ^ k) with h | h <;> simp [h]

lemma and_pteU (w : Nat) : w &&& pteU = 16 * (w / 16 % 2) := and_bit w 4

lemma and_pteW (w : Nat) : w &&& pteW = 4 * (w / 4 % 2) := and_bit w 2

lemma entry_lt (m : Bytes) (q i : Nat) : entry m q i < 2 ^ 64 := by
  rw [← entry_eq]
  exact getLE_lt ..

lemma pteAt_lt (m : Bytes) (r v : Nat) : pteAt m r v < 2 ^ 64 := by
  unfold pteAt
  split
  next => decide
  next => exact entry_lt ..

end Bits

/-- `uvmclear` of a user page. -/
lemma uvmclear_spec (h : Heap s R o) (hR : R t = some r)
    (hp : UserPages (fun v => pteAt s.mem r v) n) (hv : v < n) :
    Returns (uvmclear (4096 * r) (4096 * v)) s fun _ s' =>
      Changed R t r v s o s' o ∧ UserPages (fun v => pteAt s'.mem r v) n ∧
      (∀ v', v' < 512 ^ 3 → pteAt s'.mem r v' =
        if v' = v then pteAt s.mem r v &&& (2 ^ 64 - 1 - pteU) else pteAt s.mem r v') ∧
      ∀ q, (∀ d x, o q ≠ .table t d x) → Agree s.mem s'.mem q := by
  have hu := hp.userVpn hv
  have hlt := Nat.lt_of_lt_of_le hv hp.le
  obtain ⟨q, hq⟩ := node_of_mapped (hp.kid_ne_none hv)
  have htable := (h.table hR (by decide) (div_lt_pow hu.1)).mp hq
  have hpos := inArea_pos (h.node_inArea hR (by decide) (div_lt_pow hu.1) hq)
  have hpte : pteAt s.mem r v < 2 ^ 64 := pteAt_lt ..
  unfold uvmclear
  refine returns_bind_of_eq (walk_lookup h hR (vpn_lt_maxVa hlt)) ?_
  rw [pteAddr_of_node hq, if_neg (by omega)]
  apply returns_load64
  rw [entry_eq, ← pteAt_of_node hq]
  obtain ⟨hheap, hptes⟩ := h.changeLeaf hR hu.1 hq (Nat.and_le_left.trans_lt hpte)
    (fun _ => pteKid_clearU hpte)
  have hagree : ∀ {q'}, (∀ d x, o q' ≠ .table t d x) → Agree s.mem (putLE s.mem
      (4096 * q + 8 * (v % 512)) 8 (pteAt s.mem r v &&& (2 ^ 64 - 1 - pteU))) q' := by
    intro q' hq'
    refine agree_putLE (by omega) ?_
    rintro rfl
    exact hq' _ _ htable
  have hptes' : ∀ v', v' < 512 ^ 3 → pteAt (s.withMem (putLE s.mem (4096 * q + 8 * (v % 512)) 8
      (pteAt s.mem r v &&& (2 ^ 64 - 1 - pteU)))).mem r v' =
        if v' = v then pteAt s.mem r v &&& (2 ^ 64 - 1 - pteU) else pteAt s.mem r v' := hptes
  suffices hspec : Changed R t r v s o (s.withMem (putLE s.mem (4096 * q + 8 * (v % 512)) 8
      (pteAt s.mem r v &&& (2 ^ 64 - 1 - pteU)))) o ∧ UserPages _ n from
    returns_of_eq rfl ⟨hspec.1, hspec.2, hptes', fun q' hq' => hagree hq'⟩
  refine ⟨⟨hheap, Frame.of_mem fun q' hq' => hagree ?_, Iff.rfl, ?_, ?_⟩, ?_⟩
  · intro d x he
    rw [he] at hq'
    exact hq' rfl
  · intro v' hv' hk
    rw [hptes' v' hv', if_neg]
    rintro rfl
    exact hk.elim (Nat.lt_irrefl v') fun hn => hn hu
  · intro q' v' _ hq'
    refine hagree ?_
    rw [hq']
    rintro d x ⟨⟩
  · refine ⟨hp.le, fun {v'} hv' => ?_, fun {v'} hu' hle => ?_⟩
    · rw [hptes' v' (hp.userVpn hv').1]
      split
      next he => rw [clearU_mod]; exact hp.mapped hv
      next => exact hp.mapped hv'
    · rw [hptes' v' hu'.1, if_neg (by omega)]
      exact hp.unmapped hu' hle

/-! ## Copies between kernel and user memory -/

section

omit [Layout]

/-- The entries of the trapframe and the trampoline lack `PTE_U`. -/
def Sealed (f : Nat → Nat) : Prop := ∀ v, v < 512 ^ 3 → ¬ UserVpn v → f v &&& pteU = 0

lemma Sealed.congr {f g : Nat → Nat} (h : Sealed f) (hfg : ∀ v, v < 512 ^ 3 → g v = f v) :
    Sealed g := by
  intro v hv hf
  rw [hfg v hv]
  exact h v hv hf

lemma leafPte_noU {perm : Nat} (hp : perm < 1024) (h : (perm ||| 1) / 16 % 2 = 0) :
    leafPte q perm &&& pteU = 0 := by
  have hmod := leafPte_mod (q := q) hp
  rw [and_pteU]
  omega

end

section

omit [Layout]

lemma pgRoundDown_eq (a : Nat) : pgRoundDown a = 4096 * (a / 4096) := by
  unfold pgRoundDown pgSize
  omega

lemma length_upToNul (bs : List UInt8) : (upToNul bs).1.length ≤ bs.length := by
  induction bs with
  | nil => exact Nat.le_refl 0
  | cons b bs ih =>
    rw [upToNul]
    split
    next => exact Nat.succ_le_succ (Nat.zero_le _)
    next => exact Nat.succ_le_succ ih

end

lemma Space.sealed {f : Nat → Nat} (h : Space f n tf) : Sealed f := by
  intro v hv hfixed
  rcases fixed_cases hv hfixed with rfl | rfl
  · rw [h.trapframe]
    exact leafPte_noU (by decide) (by decide)
  · rw [h.trampoline]
    exact leafPte_noU (by decide) (by decide)

/-- `walkaddr` finds a user page of the table. -/
lemma walkaddr_spec (h : Heap s R o) (hR : R t = some r)
    (hs : Sealed fun v => pteAt s.mem r v) (va : Nat) :
    Returns (walkaddr (4096 * r) va) s fun pa s' => s' = s ∧
      (pa = 0 ∧ (va < maxVa → pteAt s.mem r (va / 4096) &&& pteV = 0 ∨
          pteAt s.mem r (va / 4096) &&& pteU = 0) ∨
        ∃ q, pa = 4096 * q ∧ q ≠ 0 ∧ o q = .user t (va / 4096) ∧ va < maxVa ∧
          pteAt s.mem r (va / 4096) &&& pteV ≠ 0 ∧ pteAt s.mem r (va / 4096) &&& pteU ≠ 0) := by
  unfold walkaddr
  split
  next hge => exact returns_pure ⟨rfl, .inl ⟨rfl, fun hlt => absurd hlt (by omega)⟩⟩
  next hlt =>
    have hva : va < maxVa := by omega
    have hv3 : va / 4096 < 512 ^ 3 := by
      unfold maxVa at hva
      omega
    refine returns_bind_of_eq (walk_lookup h hR hva) ?_
    cases hq : node s.mem r 2 (va / 4096 / 512) with
    | none =>
      rw [show pteAddr s.mem r va = 0 by rw [pteAddr, hq], if_pos rfl]
      exact returns_pure ⟨rfl, .inl ⟨rfl, fun _ => by
        rw [pteAt_of_none hq]
        exact .inl rfl⟩⟩
    | some q =>
      have hpos := inArea_pos (h.node_inArea hR (by decide) (div_lt_pow hv3) hq)
      rw [show pteAddr s.mem r va = 4096 * q + 8 * (va / 4096 % 512) by rw [pteAddr, hq],
        if_neg (by omega)]
      apply returns_load64
      rw [entry_eq, ← pteAt_of_node hq]
      split
      next hinvalid => exact returns_pure ⟨rfl, .inl ⟨rfl, fun _ => .inl hinvalid⟩⟩
      next hvalid =>
        split
        next hsuper => exact returns_pure ⟨rfl, .inl ⟨rfl, fun _ => .inr hsuper⟩⟩
        next huser =>
          have hu : UserVpn (va / 4096) := by
            by_contra hfixed
            exact huser (hs _ hv3 hfixed)
          have hkid := pteKid_of_valid hvalid
          have hown := (h.user hR hu).mp hkid
          have harea : InArea (pteAt s.mem r (va / 4096) / 1024) := by
            apply h.inArea
            rw [hown]
            rintro ⟨⟩
          exact returns_pure ⟨rfl, .inr ⟨_, pte2pa_kid harea hkid, inArea_pos harea, hown, hva,
            hvalid, huser⟩⟩

/-- User pages of table `t` are written. -/
structure Poked (R : Tag → Option Nat) (t : Tag) (s : Phys) (o : Nat → Owner) (s' : Phys) :
    Prop where
  heap : Heap s' R o
  mem : ∀ {q}, (∀ v, o q ≠ .user t v) → Agree s.mem s'.mem q

lemma Poked.refl (h : Heap s R o) : Poked R t s o s := ⟨h, fun _ => Agree.refl _ _⟩

lemma Poked.trans {s'' : Phys} (h : Poked R t s o s') (h' : Poked R t s' o s'') :
    Poked R t s o s'' :=
  ⟨h'.heap, fun hq => (h.mem hq).trans (h'.mem hq)⟩

lemma Poked.within (h : Poked R t s o s') : Frame (Owner.Of t) s o s' o :=
  Frame.of_mem fun q hq => h.mem fun v he => hq (by rw [he]; rfl)

/-- No table changes. -/
lemma Poked.ptes {t' : Tag} {r' : Nat} (h : Poked R t s o s') (hheap : Heap s R o)
    (hR : R t' = some r') (hv : v < 512 ^ 3) : pteAt s'.mem r' v = pteAt s.mem r' v := by
  refine (hheap.table_congr hR fun q d x hq => h.mem fun v he => ?_).2 v hv
  rw [hq] at he
  cases he

/-- A store to a user page. -/
lemma Heap.poke {k : Nat} {bs : List UInt8} (h : Heap s R o) (hq : o q = .user t v)
    (hk : k + bs.length ≤ 4096) :
    Poked R t s o (s.withMem (blit s.mem (4096 * q + k) bs)) := by
  refine ⟨h.write fun q' hq' => agree_blit hk ?_, fun hq' => agree_blit hk ?_⟩
  · rintro rfl
    rw [hq] at hq'
    rcases hq' with he | ⟨t, d, x, he⟩ <;> cases he
  · rintro rfl
    exact hq' v hq

/-- The loop of `copyout`. -/
lemma copyoutRounds_spec (hR : R t = some r) :
    ∀ (fuel : Nat) {s : Phys} (dstva : Nat) (src : List UInt8), Heap s R o →
      Sealed (fun v => pteAt s.mem r v) →
      Returns (copyoutRounds (4096 * r) fuel dstva src) s fun _ s' => Poked R t s o s' := by
  intro fuel
  induction fuel with
  | zero =>
    intro s dstva src h _
    exact returns_pure (Poked.refl h)
  | succ fuel ih =>
    intro s dstva src h hs
    rw [copyoutRounds]
    split
    next => exact returns_pure (Poked.refl h)
    next =>
      refine (walkaddr_spec h hR hs _).bind ?_
      rintro pa s₁ ⟨rfl, ⟨rfl, -⟩ | ⟨q, rfl, hq, hown, -⟩⟩
      · rw [if_pos rfl]
        exact returns_pure (Poked.refl h)
      · rw [if_neg (by omega)]
        apply returns_storeBytes
        have hlen : dstva - pgRoundDown dstva +
            (src.take (min (pgSize - (dstva - pgRoundDown dstva)) src.length)).length ≤ 4096 := by
          rw [List.length_take, pgRoundDown_eq]
          unfold pgSize
          omega
        have hpoke := h.poke hown hlen
        exact (ih _ _ hpoke.heap (hs.congr fun v hv => hpoke.ptes h hR hv)).mono
          fun _ s' hp => hpoke.trans hp

lemma copyout_spec (h : Heap s R o) (hR : R t = some r)
    (hs : Sealed fun v => pteAt s.mem r v) (dstva : Nat) (src : List UInt8) :
    Returns (copyout (4096 * r) dstva src) s fun _ s' => Poked R t s o s' :=
  copyoutRounds_spec hR src.length dstva src h hs

/-- The loop of `copyin` writes nothing. -/
lemma copyinRounds_spec (h : Heap s R o) (hR : R t = some r)
    (hs : Sealed fun v => pteAt s.mem r v) :
    ∀ fuel srcva len, Returns (copyinRounds (4096 * r) fuel srcva len) s fun _ s' => s' = s := by
  intro fuel
  induction fuel with
  | zero => exact fun _ _ => returns_pure rfl
  | succ fuel ih =>
    intro srcva len
    rw [copyinRounds]
    split
    next => exact returns_pure rfl
    next =>
      refine (walkaddr_spec h hR hs _).bind ?_
      rintro pa s₁ ⟨rfl, -⟩
      split
      next => exact returns_pure rfl
      next =>
        apply returns_loadBytes
        refine (ih _ _).bind ?_
        rintro ⟨res, rest⟩ s₂ rfl
        exact returns_pure rfl

lemma copyin_spec (h : Heap s R o) (hR : R t = some r)
    (hs : Sealed fun v => pteAt s.mem r v) (srcva len : Nat) :
    Returns (copyin (4096 * r) srcva len) s fun _ s' => s' = s :=
  copyinRounds_spec h hR hs len srcva len

/-- The loop of `copyinstr` writes nothing, and returns no more bytes than it may. -/
lemma copyinstrRounds_spec (h : Heap s R o) (hR : R t = some r)
    (hs : Sealed fun v => pteAt s.mem r v) :
    ∀ fuel srcva max, Returns (copyinstrRounds (4096 * r) fuel srcva max) s fun res s' =>
      s' = s ∧ res.2.length ≤ max := by
  intro fuel
  induction fuel with
  | zero => exact fun _ _ => returns_pure ⟨rfl, Nat.zero_le _⟩
  | succ fuel ih =>
    intro srcva max
    rw [copyinstrRounds]
    split
    next => exact returns_pure ⟨rfl, Nat.zero_le _⟩
    next =>
      refine (walkaddr_spec h hR hs _).bind ?_
      rintro pa s₁ ⟨rfl, -⟩
      split
      next => exact returns_pure ⟨rfl, Nat.zero_le _⟩
      next =>
        apply returns_loadBytes
        have hn : (List.map (fun j => s₁.mem (pa + (srcva - pgRoundDown srcva) + j))
            (List.range (min (pgSize - (srcva - pgRoundDown srcva)) max))).length =
              min (pgSize - (srcva - pgRoundDown srcva)) max := by
          rw [List.length_map, List.length_range]
        split
        next => exact returns_pure ⟨rfl, (length_upToNul _).trans (by omega)⟩
        next =>
          refine (ih _ _).bind ?_
          rintro ⟨res, rest⟩ s₂ ⟨rfl, hrest⟩
          refine returns_pure ⟨rfl, ?_⟩
          simp only [List.length_append, hn]
          exact (Nat.add_le_add_left hrest _).trans (by omega)

lemma copyinstr_spec (h : Heap s R o) (hR : R t = some r)
    (hs : Sealed fun v => pteAt s.mem r v) (srcva max : Nat) :
    Returns (copyinstr (4096 * r) srcva max) s fun res s' => s' = s ∧ res.2.length ≤ max :=
  copyinstrRounds_spec h hR hs max srcva max

/-! ## Changes of a table -/

lemma Poked.changed (hp : Poked R t s o s') (h : Heap s R o) (hR : R t = some r) :
    Changed R t r 0 s o s' o :=
  ⟨hp.heap, hp.within, Iff.rfl, fun hv _ => hp.ptes h hR hv, fun hv => absurd hv (Nat.not_lt_zero _)⟩

lemma Changed.weaken {keep : Nat} (h : Changed R t r keep s o s' o') : Changed R t r 0 s o s' o' :=
  ⟨h.heap, h.within, h.temp, fun hv hk => h.ptes hv (.inr (hk.resolve_left (Nat.not_lt_zero _))),
    fun hv => absurd hv (Nat.not_lt_zero _)⟩

lemma Sealed.changed {keep : Nat} (hs : Sealed fun v => pteAt s.mem r v)
    (h : Changed R t r keep s o s' o') : Sealed fun v => pteAt s'.mem r v := by
  intro v hv hf
  have he := h.ptes hv (.inr hf)
  simp only [he]
  exact hs v hv hf

/-! ## `uvmfirst` -/

/-- `uvmfirst` with three pages at hand: one user page. -/
lemma uvmfirst_spec {src : List UInt8} (h : Heap s R o) (hR : R t = some r)
    (hp : UserPages (fun v => pteAt s.mem r v) 0) (hroom : Room 3 o) (hsrc : src.length < 4096) :
    Returns (uvmfirst (4096 * r) src) s fun _ s' => ∃ o',
      Changed R t r 0 s o s' o' ∧ UserPages (fun v => pteAt s'.mem r v) 1 := by
  unfold uvmfirst
  rw [if_neg (by unfold pgSize; omega)]
  refine (kalloc_spec h).bind ?_
  rintro pa s₁ (⟨rfl, rfl, hnone⟩ | ⟨q₁, rfl, hq₁, hfree, rfl, htake⟩)
  · exact absurd hroom (not_room_of_none hnone 2)
  rw [if_neg (by omega)]
  apply returns_memset
  have hf : Fresh R q₁ s o ((s.take q₁).withMem (fill (s.take q₁).mem (4096 * q₁) 0 pgSize)) :=
    Fresh.of_take hfree htake fun hq => agree_fill hq
  have hv : 0 < trapframeVpn := by decide
  have hu := userVpn_of_lt hv
  have hperm : pteW ||| pteR ||| pteX ||| pteU < 1024 := by decide
  have hmap := mappages_spec (v := 0) hf.heap hR
    (vpn_lt_maxVa hv) (by rw [hf.ptes h hR hu.1]; exact hp.unmapped hu (Nat.le_refl 0))
    (inArea_lt hf.inArea) hperm (fun _ => update_self ..)
  rw [Nat.mul_zero] at hmap
  refine hmap.bind ?_
  rintro res s₃ (⟨-, hfull, -⟩ | ⟨-, o₃, hm, -⟩)
  · exact absurd (hroom.spend (Spent.update o q₁ .temp)) hfull
  obtain ⟨hadd, hp', -⟩ := hf.added h hR hv hm hp
    (by rw [← Nat.mod_mod_of_dvd _ (by decide : 4 ∣ 1024), leafPte_mod hperm]; decide)
  have hlen : 0 + src.length ≤ 4096 := by omega
  have hpoke := hm.heap.poke (hm.own hu) hlen
  refine ⟨(), _, rfl, o₃, hadd.trans h hR (hpoke.changed hm.heap hR), hp'.congr fun v hv _ => ?_⟩
  exact hpoke.ptes hm.heap hR hv

end Xv6.Mem
