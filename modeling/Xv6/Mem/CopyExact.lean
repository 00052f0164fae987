import Xv6.Mem.CopySpec

/-!
# What the copies store and find

`walkaddr` translates the addresses that are valid and have `PTE_U`. `copyout`
goes through the range page by page and stops at the first page that has no
translation. So a byte of the source is stored if and only if all bytes of the
range up to it have one, and no other byte of memory changes. `copyin` and
`copyinstr` find the bytes up to there.
-/

namespace Xv6.Mem

open Lib

variable [Layout] {s s' : Phys} {R : Tag → Option Nat} {o : Nat → Owner} {t : Tag} {r : Nat}
variable {f : Nat → Nat} {va : Nat}

/-- User code can use the address, by the entries `f`. -/
def Visible (f : Nat → Nat) (va : Nat) : Prop :=
  va < maxVa ∧ f (va / 4096) &&& pteV ≠ 0 ∧ f (va / 4096) &&& pteU ≠ 0

instance (f : Nat → Nat) (va : Nat) : Decidable (Visible f va) :=
  inferInstanceAs (Decidable (_ ∧ _ ∧ _))

/-- The physical address behind a virtual one, by the entries `f`. -/
def physAddr (f : Nat → Nat) (va : Nat) : Nat := 4096 * (f (va / 4096) / 1024) + va % 4096

/-- The first `i + 1` bytes of a range are visible. -/
def Reached (f : Nat → Nat) (dstva i : Nat) : Prop := ∀ j, j ≤ i → Visible f (dstva + j)

/-- The bytes of `src` that are reached are stored, and nothing else changes. -/
structure Copied (f : Nat → Nat) (dstva : Nat) (src : List UInt8) (m m' : Bytes) : Prop where
  stored : ∀ {i}, i < src.length → Reached f dstva i → m' (physAddr f (dstva + i)) = src.getD i 0
  kept : ∀ {x}, (∀ i, i < src.length → Reached f dstva i → physAddr f (dstva + i) ≠ x) → m' x = m x

section

omit [Layout]

lemma Visible.page (h : Visible f va) {k : Nat} (hk : k < 4096) :
    Visible f (4096 * (va / 4096) + k) := by
  have hdiv : (4096 * (va / 4096) + k) / 4096 = va / 4096 := by omega
  refine ⟨?_, ?_, ?_⟩
  · have := h.1
    unfold maxVa at this ⊢
    omega
  · rw [hdiv]
    exact h.2.1
  · rw [hdiv]
    exact h.2.2

lemma Visible.vpn_lt (h : Visible f va) : va / 4096 < 512 ^ 3 := by
  have hlt := h.1
  unfold maxVa at hlt
  omega

lemma visible_page_iff {va va' : Nat} (h : va / 4096 = va' / 4096) :
    Visible f va ↔ Visible f va' := by
  have hmod : ∀ a b : Nat, a / 4096 = b / 4096 → Visible f a → Visible f b := by
    intro a b hab ha
    have hb := ha.page (Nat.mod_lt b (by decide : 0 < 4096))
    rwa [hab, Nat.div_add_mod] at hb
  exact ⟨hmod va va' h, hmod va' va h.symm⟩

lemma physAddr_page (va : Nat) : physAddr f va / 4096 = f (va / 4096) / 1024 := by
  unfold physAddr
  omega

end

/-- The owner of the page behind a visible address. -/
lemma Visible.owner (hv : Visible f va) (h : Heap s R o) (hR : R t = some r)
    (hf : ∀ v, v < 512 ^ 3 → pteAt s.mem r v = f v) (hs : Sealed f) :
    o (f (va / 4096) / 1024) = .user t (va / 4096) := by
  have hlt := hv.vpn_lt
  have hu : UserVpn (va / 4096) := by
    by_contra hfixed
    exact hv.2.2 (hs _ hlt hfixed)
  have hvalid := hv.2.1
  rw [← hf _ hlt] at hvalid ⊢
  exact (h.user hR hu).mp (pteKid_of_valid hvalid)

/-- Two visible addresses with one translation are equal. -/
lemma physAddr_inj {va va' : Nat} (h : Heap s R o) (hR : R t = some r)
    (hf : ∀ v, v < 512 ^ 3 → pteAt s.mem r v = f v) (hs : Sealed f) (hv : Visible f va)
    (hv' : Visible f va') (he : physAddr f va = physAddr f va') : va = va' := by
  have hpage : f (va / 4096) / 1024 = f (va' / 4096) / 1024 := by
    rw [← physAddr_page va, ← physAddr_page va', he]
  have howner := hv.owner h hR hf hs
  rw [hpage, hv'.owner h hR hf hs] at howner
  have hvpn : va' / 4096 = va / 4096 := (Owner.user.inj howner).2
  unfold physAddr at he
  omega

/-- `walkaddr` of the start of a page. -/
lemma walkaddr_page (h : Heap s R o) (hR : R t = some r)
    (hf : ∀ v, v < 512 ^ 3 → pteAt s.mem r v = f v) (hs : Sealed f) (va : Nat) :
    Returns (walkaddr (4096 * r) (pgRoundDown va)) s fun pa s' => s' = s ∧
      (pa = 0 ∧ ¬ Visible f va ∨ pa ≠ 0 ∧ Visible f va ∧ pa = 4096 * (f (va / 4096) / 1024)) := by
  have hs' : Sealed fun v => pteAt s.mem r v := hs.congr fun v hv => hf v hv
  have hdiv : pgRoundDown va / 4096 = va / 4096 := by
    rw [pgRoundDown_eq]
    omega
  refine (walkaddr_spec h hR hs' (pgRoundDown va)).mono ?_
  rintro pa s₁ ⟨rfl, ⟨rfl, hbad⟩ | ⟨q, rfl, hq, hown, hlt, hvalid, huser⟩⟩
  · refine ⟨rfl, .inl ⟨rfl, fun hv => ?_⟩⟩
    have hlt : pgRoundDown va < maxVa := by
      have := hv.1
      rw [pgRoundDown_eq]
      omega
    rw [hdiv, hf _ hv.vpn_lt] at hbad
    exact (hbad hlt).elim hv.2.1 hv.2.2
  · rw [hdiv] at hown hvalid huser
    have hu := (h.userLive hown).2
    have hkid := (h.user hR hu).mpr hown
    rw [hf _ hu.1] at hkid hvalid huser
    have hpage : f (va / 4096) / 1024 = q := by
      rw [pteKid_of_valid hvalid] at hkid
      exact Option.some.inj hkid
    have hva : va < maxVa := by
      rw [pgRoundDown_eq] at hlt
      unfold maxVa at hlt ⊢
      omega
    exact ⟨rfl, .inr ⟨by omega, ⟨hva, hvalid, huser⟩, by rw [hpage]⟩⟩

/-- `walkaddr` goes by the entries `f`, and finds no page at address 0. -/
structure Translates (f : Nat → Nat) (pagetable : Nat) (s : Phys) : Prop where
  page : ∀ va, walkaddr pagetable (pgRoundDown va) s =
    .ok (if Visible f va then 4096 * (f (va / 4096) / 1024) else 0, s)
  pos : ∀ {va}, Visible f va → f (va / 4096) / 1024 ≠ 0

/-- The tables of the heap are such tables. -/
lemma Heap.translates (h : Heap s R o) (hR : R t = some r)
    (hf : ∀ v, v < 512 ^ 3 → pteAt s.mem r v = f v) (hs : Sealed f) : Translates f (4096 * r) s := by
  constructor
  · intro va
    obtain ⟨pa, s', hwalk, rfl, ⟨rfl, hbad⟩ | ⟨-, hv, rfl⟩⟩ := walkaddr_page h hR hf hs va
    · rw [hwalk, if_neg hbad]
    · rw [hwalk, if_pos hv]
  · intro va hv
    exact inArea_pos (h.inArea (by rw [hv.owner h hR hf hs]; rintro ⟨⟩))

/-! ## One round -/

section

omit [Layout]

/-- Where the copies go on after the page of `va`. -/
lemma Visible.next (hv : Visible f va) :
    (pgRoundDown va + pgSize) % 2 ^ 64 = va - va % 4096 + 4096 := by
  have hlt := hv.1
  rw [pgRoundDown_eq]
  unfold maxVa at hlt
  unfold pgSize
  omega

lemma sub_pgRoundDown (va : Nat) : va - pgRoundDown va = va % 4096 := by
  rw [pgRoundDown_eq]
  omega

/-- Within a page, virtual and physical addresses advance together. -/
lemma physAddr_add {k : Nat} (hk : va % 4096 + k < 4096) :
    physAddr f (va + k) = physAddr f va + k := by
  have hdiv : (va + k) / 4096 = va / 4096 := by omega
  unfold physAddr
  rw [hdiv]
  omega

end

omit [Layout] in
/-- Stores to one page, of bytes that are all reached, and the rest of the copy. -/
lemma Copied.round {dstva n : Nat} {src : List UInt8} {m m₁ m' : Bytes}
    (hv : Visible f dstva) (hn : n ≤ src.length) (hpage : dstva % 4096 + n ≤ 4096)
    (hm₁ : m₁ = blit m (physAddr f dstva) (src.take n))
    (hrest : Copied f (dstva + n) (src.drop n) m₁ m')
    (hinj : ∀ {i j}, i < n → Visible f (dstva + n + j) →
      physAddr f (dstva + i) ≠ physAddr f (dstva + n + j)) :
    Copied f dstva src m m' := by
  have hstep : ∀ {i}, i < n → physAddr f (dstva + i) = physAddr f dstva + i :=
    fun hi => physAddr_add (by omega)
  have hvis : ∀ {i}, i < n → Visible f (dstva + i) := fun {i} hi =>
    (visible_page_iff (by omega)).mp hv
  have hlen : (src.take n).length = n := by
    rw [List.length_take]
    omega
  constructor
  · intro i hi hreach
    by_cases hin : i < n
    · have hkeep : m' (physAddr f (dstva + i)) = m₁ (physAddr f (dstva + i)) :=
        hrest.kept fun j _ hr he => hinj hin (hr j (Nat.le_refl j)) he.symm
      rw [hkeep, hstep hin, hm₁, blit, hlen, if_pos ⟨by omega, by omega⟩]
      have hsub : physAddr f dstva + i - physAddr f dstva = i := by omega
      rw [hsub]
      simp [List.getD, hin]
    · have hj : dstva + n + (i - n) = dstva + i := by omega
      have hst := hrest.stored (i := i - n) (by rw [List.length_drop]; omega) fun j hj => by
        have := hreach (n + j) (by omega)
        rwa [← Nat.add_assoc] at this
      rw [hj] at hst
      rw [hst]
      have hidx : n + (i - n) = i := by omega
      simp [List.getD, List.getElem?_drop, hidx]
  · intro x hx
    rw [hrest.kept fun j hj hr => ?_, hm₁, blit, hlen, if_neg]
    · rintro ⟨hlo, hhi⟩
      refine hx (x - physAddr f dstva) (by omega) (fun j hj => hvis (by omega)) ?_
      rw [hstep (by omega)]
      omega
    · have hidx : dstva + n + j = dstva + (n + j) := by omega
      rw [hidx]
      refine hx (n + j) (by rw [List.length_drop] at hj; omega) fun k hk => ?_
      by_cases hin : k < n
      · exact hvis hin
      · have := hr (k - n) (by omega)
        have hk' : dstva + n + (k - n) = dstva + k := by omega
        rwa [hk'] at this

/-! ## `copyout` -/

section

omit [Layout]

variable {I : Phys → Prop} {pagetable : Nat}

/-- The loop of `copyout` stores exactly the bytes that are reached, in states that all
translate by `f`. -/
lemma copyoutRounds_copied (htr : ∀ {s}, I s → Translates f pagetable s)
    (hstore : ∀ {s va} {bs : List UInt8}, I s → Visible f va → va % 4096 + bs.length ≤ 4096 →
      I (s.withMem (blit s.mem (physAddr f va) bs)))
    (hinj : ∀ {va va'}, Visible f va → Visible f va' → physAddr f va = physAddr f va' → va = va') :
    ∀ (fuel : Nat) {s : Phys} (dstva : Nat) (src : List UInt8), src.length ≤ fuel → I s →
      Returns (copyoutRounds pagetable fuel dstva src) s fun res s' => I s' ∧
        Copied f dstva src s.mem s'.mem ∧
        (res = 0 ∧ (∀ i, i < src.length → Visible f (dstva + i)) ∨
          res = -1 ∧ ¬ ∀ i, i < src.length → Visible f (dstva + i)) := by
  intro fuel
  induction fuel with
  | zero =>
    intro s dstva src hlen hI
    have hnil : src = [] := List.eq_nil_of_length_eq_zero (by omega)
    subst hnil
    exact returns_pure ⟨hI, ⟨fun hi => absurd hi (by simp), fun _ => rfl⟩, .inl ⟨rfl, by simp⟩⟩
  | succ fuel ih =>
    intro s dstva src hlen hI
    rw [copyoutRounds]
    split
    next hnil =>
      subst hnil
      exact returns_pure ⟨hI, ⟨fun hi => absurd hi (by simp), fun _ => rfl⟩, .inl ⟨rfl, by simp⟩⟩
    next hne =>
      have hpos : 0 < src.length := List.length_pos_iff.mpr hne
      refine returns_bind_of_eq ((htr hI).page dstva) ?_
      by_cases hv : Visible f dstva
      · have hpa := (htr hI).pos hv
        rw [if_pos hv, if_neg (by omega)]
        apply returns_storeBytes
        have haddr : 4096 * (f (dstva / 4096) / 1024) + dstva % 4096 = physAddr f dstva := rfl
        rw [sub_pgRoundDown, haddr, hv.next]
        generalize hn : min (pgSize - dstva % 4096) src.length = n
        have hn' : n = min (4096 - dstva % 4096) src.length := hn.symm
        have hmod : dstva % 4096 < 4096 := Nat.mod_lt dstva (by decide)
        have hfit : dstva % 4096 + (src.take n).length ≤ 4096 := by
          rw [List.length_take]
          omega
        refine (ih (dstva - dstva % 4096 + 4096) (src.drop n) (by rw [List.length_drop]; omega)
          (hstore hI hv hfit)).mono ?_
        rintro res s' ⟨hI', hcopied, hres⟩
        -- the next page, or nothing is left
        have hrest : Copied f (dstva + n) (src.drop n)
            (blit s.mem (physAddr f dstva) (src.take n)) s'.mem := by
          by_cases hend : n = src.length
          · rw [hend, List.drop_length] at hcopied ⊢
            exact ⟨fun hi => absurd hi (by simp), fun _ => hcopied.kept fun i hi => absurd hi (by simp)⟩
          · have he : dstva + n = dstva - dstva % 4096 + 4096 := by omega
            rw [he]
            exact hcopied
        have hall : (∀ i, i < (src.drop n).length → Visible f (dstva - dstva % 4096 + 4096 + i)) ↔
            ∀ i, i < src.length → Visible f (dstva + i) := by
          rw [List.length_drop]
          constructor
          · intro hall i hi
            by_cases hin : i < n
            · exact (visible_page_iff (by omega)).mp hv
            · have he : dstva - dstva % 4096 + 4096 + (i - n) = dstva + i := by omega
              rw [← he]
              exact hall (i - n) (by omega)
          · intro hall i hi
            have he : dstva + (n + i) = dstva - dstva % 4096 + 4096 + i := by omega
            rw [← he]
            exact hall (n + i) (by omega)
        rw [hall] at hres
        refine ⟨hI', Copied.round hv (by omega) (by omega) rfl hrest fun {i j} hi hj he => ?_, hres⟩
        have hi' : Visible f (dstva + i) := (visible_page_iff (by omega)).mp hv
        have := hinj hi' hj he
        omega
      · rw [if_neg hv, if_pos rfl]
        refine returns_pure ⟨hI, ⟨fun _ hr => absurd (hr 0 (Nat.zero_le _)) hv, fun _ => rfl⟩, ?_⟩
        exact .inr ⟨rfl, fun hall => hv (hall 0 hpos)⟩

end

/-- `copyout` stores exactly the bytes that are reached, and returns 0 if these are all. -/
lemma copyout_exact (h : Heap s R o) (hR : R t = some r)
    (hs : Sealed fun v => pteAt s.mem r v) (dstva : Nat) (src : List UInt8) :
    Returns (copyout (4096 * r) dstva src) s fun res s' =>
      Copied (fun v => pteAt s.mem r v) dstva src s.mem s'.mem ∧
      (res = 0 ↔ ∀ i, i < src.length → Visible (fun v => pteAt s.mem r v) (dstva + i)) := by
  refine (copyoutRounds_copied
    (I := fun s₁ => Heap s₁ R o ∧ ∀ v, v < 512 ^ 3 → pteAt s₁.mem r v = pteAt s.mem r v)
    (fun hI => hI.1.translates hR hI.2 hs) (fun hI hv hfit => ?_)
    (fun hv hv' he => physAddr_inj h hR (fun _ _ => rfl) hs hv hv' he)
    src.length dstva src (Nat.le_refl _) ⟨h, fun _ _ => rfl⟩).mono ?_
  · have hpoke := hI.1.poke (hv.owner hI.1 hR hI.2 hs) hfit
    exact ⟨hpoke.heap, fun v hv => (hpoke.ptes hI.1 hR hv).trans (hI.2 v hv)⟩
  · rintro res s' ⟨-, hcopied, ⟨rfl, hall⟩ | ⟨rfl, hnot⟩⟩
    · exact ⟨hcopied, iff_of_true rfl hall⟩
    · exact ⟨hcopied, iff_of_false (by decide) hnot⟩

/-! ## `copyin` and `copyinstr` -/

section

omit [Layout]

/-- The `n` bytes from `va` on, by the entries `f`. -/
def found (f : Nat → Nat) (m : Bytes) (va n : Nat) : List UInt8 :=
  (List.range n).map fun i => m (physAddr f (va + i))

@[simp] lemma length_found (m : Bytes) (va n : Nat) : (found f m va n).length = n := by
  rw [found, List.length_map, List.length_range]

lemma getElem?_found {m : Bytes} {n i : Nat} (hi : i < n) :
    (found f m va n)[i]? = some (m (physAddr f (va + i))) := by
  simp [found, hi]

lemma found_add (m : Bytes) (va n k : Nat) :
    found f m va (n + k) = found f m va n ++ found f m (va + n) k := by
  simp only [found, List.range_add, List.map_append, List.map_map, Function.comp_def, Nat.add_assoc]

lemma take_found {m : Bytes} {n k : Nat} (h : k ≤ n) : (found f m va n).take k = found f m va k := by
  rw [found, found, ← List.map_take, List.take_range, Nat.min_eq_left h]

/-- The bytes of one page. -/
lemma found_page {m : Bytes} {n : Nat} (h : va % 4096 + n ≤ 4096) :
    (List.range n).map (fun j => m (4096 * (f (va / 4096) / 1024) + va % 4096 + j)) =
      found f m va n := by
  refine List.map_congr_left fun j hj => ?_
  rw [physAddr_add (by have := List.mem_range.mp hj; omega)]
  rfl

/-- Either there is a first NUL, and it ends what is copied, or all is copied. -/
lemma upToNul_cases (bs : List UInt8) :
    (∃ j, bs[j]? = some 0 ∧ (∀ i, i < j → bs[i]? ≠ some 0) ∧ upToNul bs = (bs.take (j + 1), true)) ∨
      (∀ i : Nat, bs[i]? ≠ some 0) ∧ upToNul bs = (bs, false) := by
  induction bs with
  | nil => exact .inr ⟨fun i => by simp, rfl⟩
  | cons b bs ih =>
    rw [upToNul]
    by_cases hb : b = 0
    · rw [if_pos hb]
      exact .inl ⟨0, by simp [hb], fun i hi => absurd hi (Nat.not_lt_zero i), by simp [hb]⟩
    · rw [if_neg hb]
      rcases ih with ⟨j, hj, hbefore, heq⟩ | ⟨hnone, heq⟩
      · refine .inl ⟨j + 1, by simpa using hj, fun i hi => ?_, by rw [heq]; rfl⟩
        cases i with
        | zero => simpa using hb
        | succ i => simpa using hbefore i (by omega)
      · refine .inr ⟨fun i => ?_, by rw [heq]⟩
        cases i with
        | zero => simpa using hb
        | succ i => simpa using hnone i

end

section

variable {pagetable : Nat}

section

omit [Layout]

/-- The loop of `copyin` finds the bytes up to the first address that is not visible. -/
lemma copyinRounds_exact (h : Translates f pagetable s) :
    ∀ fuel srcva len, len ≤ fuel →
      Returns (copyinRounds pagetable fuel srcva len) s fun res s' => s' = s ∧ ∃ k, k ≤ len ∧
        res.2 = found f s.mem srcva k ∧ (∀ i, i < k → Visible f (srcva + i)) ∧
        (res.1 = 0 ∧ k = len ∨ res.1 = -1 ∧ k < len ∧ ¬ Visible f (srcva + k)) := by
  intro fuel
  induction fuel with
  | zero =>
    intro srcva len hlen
    obtain rfl : len = 0 := by omega
    exact returns_pure ⟨rfl, 0, Nat.le_refl 0, rfl, fun i hi => absurd hi (Nat.not_lt_zero i),
      .inl ⟨rfl, rfl⟩⟩
  | succ fuel ih =>
    intro srcva len hlen
    rw [copyinRounds]
    split
    next hzero =>
      subst hzero
      exact returns_pure ⟨rfl, 0, Nat.le_refl 0, rfl, fun i hi => absurd hi (Nat.not_lt_zero i),
        .inl ⟨rfl, rfl⟩⟩
    next hne =>
      refine returns_bind_of_eq (h.page srcva) ?_
      by_cases hv : Visible f srcva
      · have hpa := h.pos hv
        rw [if_pos hv, if_neg (by omega)]
        apply returns_loadBytes
        rw [sub_pgRoundDown, hv.next]
        generalize hn : min (pgSize - srcva % 4096) len = n
        have hn' : n = min (4096 - srcva % 4096) len := hn.symm
        rw [found_page (by omega)]
        refine (ih (srcva - srcva % 4096 + 4096) (len - n) (by omega)).bind ?_
        rintro ⟨res, rest⟩ s' ⟨rfl, k, hk, hrest, hvis, hres⟩
        obtain rfl : rest = found f s'.mem (srcva - srcva % 4096 + 4096) k := hrest
        have hpage : ∀ i, i < n → Visible f (srcva + i) := fun i hi =>
          (visible_page_iff (by omega)).mp hv
        -- the range ends in this page, or goes on with the next one
        by_cases hend : n = len
        · obtain rfl : k = 0 := by omega
          refine returns_pure ⟨rfl, n, by omega, by simp [found], hpage, .inl ⟨?_, hend⟩⟩
          rcases hres with ⟨hres, -⟩ | ⟨-, hlt, -⟩
          · exact hres
          · omega
        · have he : srcva - srcva % 4096 + 4096 = srcva + n := by omega
          rw [he] at hvis hres ⊢
          refine returns_pure ⟨rfl, n + k, by omega, (found_add ..).symm, fun i hi => ?_, ?_⟩
          · by_cases hin : i < n
            · exact hpage i hin
            · have hi' := hvis (i - n) (by omega)
              rwa [show srcva + n + (i - n) = srcva + i by omega] at hi'
          · rw [← Nat.add_assoc]
            exact hres.imp (fun hr => ⟨hr.1, by omega⟩) fun hr => ⟨hr.1, by omega, hr.2.2⟩
      · rw [if_neg hv, if_pos rfl]
        exact returns_pure ⟨rfl, 0, Nat.zero_le _, rfl, fun i hi => absurd hi (Nat.not_lt_zero i),
          .inr ⟨rfl, by omega, hv⟩⟩

/-- The loop of `copyinstr` finds the bytes up to a NUL, to the first address that is not
visible or to its bound, whichever is first. -/
lemma copyinstrRounds_exact (h : Translates f pagetable s) :
    ∀ fuel srcva max, max ≤ fuel →
      Returns (copyinstrRounds pagetable fuel srcva max) s fun res s' => s' = s ∧ ∃ k, k ≤ max ∧
        (∀ i, i < k → Visible f (srcva + i) ∧ s.mem (physAddr f (srcva + i)) ≠ 0) ∧
        (res = (0, found f s.mem srcva (k + 1)) ∧ k < max ∧ Visible f (srcva + k) ∧
            s.mem (physAddr f (srcva + k)) = 0 ∨
          res = (-1, found f s.mem srcva k) ∧ (k = max ∨ ¬ Visible f (srcva + k))) := by
  intro fuel
  induction fuel with
  | zero =>
    intro srcva max hmax
    obtain rfl : max = 0 := by omega
    exact returns_pure ⟨rfl, 0, Nat.le_refl 0, fun i hi => absurd hi (Nat.not_lt_zero i),
      .inr ⟨rfl, .inl rfl⟩⟩
  | succ fuel ih =>
    intro srcva max hmax
    rw [copyinstrRounds]
    split
    next hzero =>
      subst hzero
      exact returns_pure ⟨rfl, 0, Nat.le_refl 0, fun i hi => absurd hi (Nat.not_lt_zero i),
        .inr ⟨rfl, .inl rfl⟩⟩
    next hne =>
      refine returns_bind_of_eq (h.page srcva) ?_
      by_cases hv : Visible f srcva
      · have hpa := h.pos hv
        rw [if_pos hv, if_neg (by omega)]
        apply returns_loadBytes
        rw [sub_pgRoundDown, hv.next]
        generalize hn : min (pgSize - srcva % 4096) max = n
        have hn' : n = min (4096 - srcva % 4096) max := hn.symm
        rw [found_page (by omega)]
        have hpage : ∀ i, i < n → Visible f (srcva + i) := fun i hi =>
          (visible_page_iff (by omega)).mp hv
        rcases upToNul_cases (found f s.mem srcva n) with ⟨j, hj, hbefore, heq⟩ | ⟨hnone, heq⟩
        · -- the string ends in this page
          have hjn : j < n := by
            have hlt := (List.getElem?_eq_some_iff.mp hj).1
            rwa [length_found] at hlt
          rw [getElem?_found hjn] at hj
          rw [heq, if_pos rfl, take_found (by omega)]
          refine returns_pure ⟨rfl, j, by omega, fun i hi => ⟨hpage i (by omega), ?_⟩,
            .inl ⟨rfl, by omega, hpage j hjn, Option.some.inj hj⟩⟩
          have hi' := hbefore i hi
          rw [getElem?_found (by omega)] at hi'
          exact fun hz => hi' (congrArg some hz)
        · have hbytes : ∀ i, i < n → Visible f (srcva + i) ∧ s.mem (physAddr f (srcva + i)) ≠ 0 := by
            intro i hi
            have hi' := hnone i
            rw [getElem?_found hi] at hi'
            exact ⟨hpage i hi, fun hz => hi' (congrArg some hz)⟩
          rw [heq, if_neg Bool.false_ne_true]
          refine (ih (srcva - srcva % 4096 + 4096) (max - n) (by omega)).bind ?_
          rintro ⟨res, rest⟩ s' ⟨rfl, k, hk, hvis, hres⟩
          by_cases hend : n = max
          · obtain rfl : k = 0 := by omega
            rcases hres with ⟨-, hlt, -⟩ | ⟨hres, -⟩
            · omega
            · cases hres
              exact returns_pure ⟨rfl, n, by omega, hbytes, .inr ⟨by simp [found], .inl hend⟩⟩
          · have he : srcva - srcva % 4096 + 4096 = srcva + n := by omega
            rw [he] at hvis hres
            refine returns_pure ⟨rfl, n + k, by omega, fun i hi => ?_, ?_⟩
            · by_cases hin : i < n
              · exact hbytes i hin
              · have hi' := hvis (i - n) (by omega)
                rwa [show srcva + n + (i - n) = srcva + i by omega] at hi'
            · rw [← Nat.add_assoc]
              rcases hres with ⟨hres, hlt, hnul⟩ | ⟨hres, hstop⟩
              · cases hres
                exact .inl ⟨by rw [Nat.add_assoc, found_add _ _ n], by omega, hnul⟩
              · cases hres
                exact .inr ⟨by rw [found_add], hstop.imp_left fun hk => by omega⟩
      · rw [if_neg hv, if_pos rfl]
        exact returns_pure ⟨rfl, 0, Nat.zero_le _, fun i hi => absurd hi (Nat.not_lt_zero i),
          .inr ⟨rfl, .inr hv⟩⟩

end

end

end Xv6.Mem
