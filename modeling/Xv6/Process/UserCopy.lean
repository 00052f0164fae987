import Xv6.Process.Permissions

/-!
# Copies through any page table

The copies between kernel and user memory are given the address of a page table, and find
in it what `walk` finds, whatever the table is. The bytes that they store and fetch are
those that user code has at the addresses of the range.
-/

namespace Xv6.Process

open Lib Mem

variable {s s' : Phys} {pagetable va : Nat}

/-! ## Looking up an address -/

/-- The table that the indices of `va` lead to, from a table at a level down to level 0. -/
def tableOf (m : Bytes) (va : Nat) : Nat → Nat → Option Nat
  | 0, table => some table
  | level + 1, table =>
    if getLE m (table + 8 * px (level + 1) va) 8 &&& pteV = 0 then none
    else tableOf m va level (pte2pa (getLE m (table + 8 * px (level + 1) va) 8))

lemma walkLevels_lookup (va level table : Nat) :
    walkLevels va false level table s = .ok (tableOf s.mem va level table, s) := by
  induction level generalizing table with
  | zero => rfl
  | succ level ih =>
    rw [walkLevels, tableOf]
    refine (Lib.bind_of_ok (m := load64 _) rfl).trans ?_
    by_cases hv : getLE s.mem (table + 8 * px (level + 1) va) 8 &&& pteV = 0
    · rw [if_neg (not_not.mpr hv), if_pos rfl, if_pos hv]
      rfl
    · rw [if_pos hv, if_neg hv]
      exact ih _

/-- The entry for `va` in the table at level 0. -/
def entryAddr (m : Bytes) (pagetable va : Nat) : Nat :=
  match tableOf m va 2 pagetable with
  | some table => table + 8 * px 0 va
  | none => 0

lemma walk_eq (hva : va < maxVa) :
    Mem.walk pagetable va false s = .ok (entryAddr s.mem pagetable va, s) := by
  rw [Mem.walk, if_neg (Nat.not_le.mpr hva)]
  refine (Lib.bind_of_ok (walkLevels_lookup va 2 pagetable)).trans ?_
  unfold entryAddr
  cases tableOf s.mem va 2 pagetable with
  | none => rfl
  | some table => rfl

lemma mapping_lookup (hva : va < maxVa) : mapping s pagetable va =
    if entryAddr s.mem pagetable va = 0 ∨ getLE s.mem (entryAddr s.mem pagetable va) 8 &&& pteV = 0
      then none else some (getLE s.mem (entryAddr s.mem pagetable va) 8) := by
  have hlookup : lookup s pagetable va =
      if entryAddr s.mem pagetable va = 0 then 0 else getLE s.mem (entryAddr s.mem pagetable va) 8 := by
    rw [lookup, walk_eq hva]
  rw [mapping, hlookup]
  by_cases hzero : entryAddr s.mem pagetable va = 0
  · simp [hzero]
  · simp [hzero]

/-- An entry that is found is valid. -/
lemma mapping_valid {pte : Nat} (h : mapping s pagetable va = some pte) :
    va < maxVa ∧ pte &&& pteV ≠ 0 := by
  by_cases hva : va < maxVa
  · rw [mapping_lookup hva] at h
    split at h
    next => cases h
    next hne =>
      cases h
      exact ⟨hva, fun hz => hne (.inr hz)⟩
  · rw [mapping_ge (by omega)] at h
    cases h

/-- All addresses of a page have one entry. -/
lemma mapping_page {va va' : Nat} (h : va / 4096 = va' / 4096) :
    mapping s pagetable va = mapping s pagetable va' := by
  have hpx : ∀ level, px level va = px level va' := fun level => by rw [px_level, px_level, h]
  have hlookup : ∀ level table, tableOf s.mem va level table = tableOf s.mem va' level table := by
    intro level
    induction level with
    | zero => exact fun _ => rfl
    | succ level ih =>
      intro table
      rw [tableOf, tableOf, hpx, ih]
  by_cases hva : va < maxVa
  · have hva' : va' < maxVa := by
      unfold maxVa at hva ⊢
      omega
    have hentry : entryAddr s.mem pagetable va = entryAddr s.mem pagetable va' := by
      rw [entryAddr, entryAddr, hlookup, hpx]
    rw [mapping_lookup hva, mapping_lookup hva', hentry]
  · rw [mapping_ge (by omega), mapping_ge (by unfold maxVa at hva ⊢; omega)]

/-! ## What user code has -/

/-- The physical address that user code has at `va`. Address 0 is no page: it is what
`walkaddr` returns when there is none. -/
def userAddr (s : Phys) (pagetable va : Nat) : Option Nat :=
  match mapping s pagetable va with
  | some pte => if pte &&& pteU = 0 ∨ pte2pa pte = 0 then none else some (pte2pa pte + va % pgSize)
  | none => none

lemma walkaddr_eq (s : Phys) (pagetable va : Nat) : walkaddr pagetable va s =
    .ok (match mapping s pagetable va with
      | some pte => if pte &&& pteU = 0 then 0 else pte2pa pte
      | none => 0, s) := by
  by_cases hva : va < maxVa
  · rw [walkaddr, if_neg (Nat.not_le.mpr hva), mapping_lookup hva]
    refine (Lib.bind_of_ok (walk_eq hva)).trans ?_
    by_cases hzero : entryAddr s.mem pagetable va = 0
    · rw [if_pos hzero, if_pos (.inl hzero)]
      rfl
    · rw [if_neg hzero]
      refine (Lib.bind_of_ok (m := load64 _) rfl).trans ?_
      by_cases hvalid : getLE s.mem (entryAddr s.mem pagetable va) 8 &&& pteV = 0
      · rw [if_pos hvalid, if_pos (.inr hvalid)]
        rfl
      · have hboth : ¬ (entryAddr s.mem pagetable va = 0 ∨
            getLE s.mem (entryAddr s.mem pagetable va) 8 &&& pteV = 0) := fun hor => hor.elim hzero hvalid
        simp only [if_neg hvalid, if_neg hboth]
        split <;> rfl
  · rw [walkaddr, if_pos (by omega), mapping_ge (by omega)]
    rfl

/-- The entries of a table for user code, with the pages at address 0 left out. -/
def entries (s : Phys) (pagetable v : Nat) : Nat :=
  match mapping s pagetable (4096 * v) with
  | some pte => if pte2pa pte = 0 then 0 else 1024 * (pte2pa pte / 4096) + pte % 1024
  | none => 0

/-- The entry behind an address of user code. -/
def UserEntry (s : Phys) (pagetable va pte : Nat) : Prop :=
  mapping s pagetable va = some pte ∧ pte &&& pteU ≠ 0 ∧ pte2pa pte ≠ 0

lemma userAddr_eq_some {x : Nat} : userAddr s pagetable va = some x ↔
    ∃ pte, UserEntry s pagetable va pte ∧ x = pte2pa pte + va % 4096 := by
  unfold userAddr UserEntry
  cases mapping s pagetable va with
  | none => simp
  | some pte =>
    dsimp only
    split
    next hz =>
      refine iff_of_false (fun h => by cases h) ?_
      rintro ⟨pte', ⟨he, hu, hpos⟩, -⟩
      cases he
      exact hz.elim hu hpos
    next hne =>
      constructor
      · rintro ⟨⟩
        exact ⟨pte, ⟨rfl, fun hu => hne (.inl hu), fun hz => hne (.inr hz)⟩, rfl⟩
      · rintro ⟨pte', ⟨he, -, -⟩, rfl⟩
        cases he
        rfl

lemma UserEntry.entries {pte : Nat} (h : UserEntry s pagetable va pte) :
    entries s pagetable (va / 4096) = 1024 * (pte2pa pte / 4096) + pte % 1024 := by
  have hpage : mapping s pagetable (4096 * (va / 4096)) = mapping s pagetable va :=
    mapping_page (by omega)
  simp only [Process.entries, hpage, h.1, if_neg h.2.2]

lemma UserEntry.physAddr {pte : Nat} (h : UserEntry s pagetable va pte) :
    physAddr (Process.entries s pagetable) va = pte2pa pte + va % 4096 := by
  have hmod : pte2pa pte % 4096 = 0 := by
    rw [pte2pa_eq]
    omega
  rw [Mem.physAddr, h.entries]
  omega

lemma visible_entries :
    Visible (entries s pagetable) va ↔ ∃ pte, UserEntry s pagetable va pte := by
  constructor
  · rintro ⟨hva, hvalid, huser⟩
    have hpage : mapping s pagetable (4096 * (va / 4096)) = mapping s pagetable va :=
      mapping_page (by omega)
    cases hm : mapping s pagetable va with
    | none => simp [entries, hpage, hm] at hvalid
    | some pte =>
      by_cases hzero : pte2pa pte = 0
      · simp [entries, hpage, hm, hzero] at hvalid
      · refine ⟨pte, hm, ?_, hzero⟩
        simp only [entries, hpage, hm, if_neg hzero, and_pteU] at huser ⊢
        omega
  · rintro ⟨pte, h⟩
    obtain ⟨hva, hvalid⟩ := mapping_valid h.1
    have huser := h.2.1
    refine ⟨hva, ?_, ?_⟩
    · rw [h.entries]
      rw [and_pteV] at hvalid ⊢
      omega
    · rw [h.entries]
      rw [and_pteU] at huser ⊢
      omega

lemma visible_iff_userAddr : Visible (entries s pagetable) va ↔ userAddr s pagetable va ≠ none := by
  rw [visible_entries, Option.ne_none_iff_exists']
  constructor
  · rintro ⟨pte, h⟩
    exact ⟨_, userAddr_eq_some.mpr ⟨pte, h, rfl⟩⟩
  · rintro ⟨x, hx⟩
    obtain ⟨pte, h, -⟩ := userAddr_eq_some.mp hx
    exact ⟨pte, h⟩

lemma userAddr_of_visible (h : Visible (entries s pagetable) va) :
    userAddr s pagetable va = some (physAddr (entries s pagetable) va) := by
  obtain ⟨pte, hpte⟩ := visible_entries.mp h
  rw [hpte.physAddr]
  exact userAddr_eq_some.mpr ⟨pte, hpte, rfl⟩

/-- Every table translates by its entries. -/
lemma translates_entries (s : Phys) (pagetable : Nat) :
    Translates (entries s pagetable) pagetable s := by
  constructor
  · intro va
    have hpage : mapping s pagetable (pgRoundDown va) = mapping s pagetable va :=
      mapping_page (by rw [pgRoundDown_eq]; omega)
    rw [walkaddr_eq, hpage]
    by_cases hv : Visible (entries s pagetable) va
    · obtain ⟨pte, h⟩ := visible_entries.mp hv
      have haddr := h.physAddr
      unfold physAddr at haddr
      simp only [if_pos hv, h.1, if_neg h.2.1]
      congr 2
      omega
    · rw [if_neg hv]
      cases hm : mapping s pagetable va with
      | none => rfl
      | some pte =>
        dsimp only
        split
        next => rfl
        next hu =>
          have hzero : pte2pa pte = 0 := by
            by_contra hpos
            exact hv (visible_entries.mpr ⟨pte, hm, hu, hpos⟩)
          rw [hzero]
  · intro va hv
    obtain ⟨pte, h⟩ := visible_entries.mp hv
    have haddr := h.physAddr
    have hpos := h.2.2
    unfold physAddr at haddr
    omega

/-! ## Strings -/

/-- The byte that user code has at `va`. -/
def byteAt (s : Phys) (pagetable va : Nat) : Option UInt8 := (userAddr s pagetable va).map s.mem

lemma byteAt_eq_some {b : UInt8} : byteAt s pagetable va = some b ↔
    Visible (entries s pagetable) va ∧ s.mem (physAddr (entries s pagetable) va) = b := by
  constructor
  · intro h
    obtain ⟨x, hx, hb⟩ := Option.map_eq_some_iff.mp h
    have hv := visible_iff_userAddr.mpr (by rw [hx]; rintro ⟨⟩)
    rw [userAddr_of_visible hv] at hx
    cases hx
    exact ⟨hv, hb⟩
  · rintro ⟨hv, hb⟩
    rw [byteAt, userAddr_of_visible hv, Option.map_some, hb]

/-- The bytes that user code has from an address on. -/
def UserBytes (s : Phys) (pagetable va : Nat) (bs : List UInt8) : Prop :=
  bs.map some = (List.range bs.length).map fun i => byteAt s pagetable (va + i)

lemma userBytes_found {n : Nat} (h : ∀ i, i < n → Visible (entries s pagetable) (va + i)) :
    UserBytes s pagetable va (found (entries s pagetable) s.mem va n) := by
  rw [UserBytes, length_found, found, List.map_map]
  refine List.map_congr_left fun i hi => ?_
  exact (byteAt_eq_some.mpr ⟨h i (List.mem_range.mp hi), rfl⟩).symm

/-- A string of `k` bytes, and the NUL after it. -/
def StringAt (s : Phys) (pagetable srcva k : Nat) : Prop :=
  byteAt s pagetable (srcva + k) = some 0 ∧
    ∀ i, i < k → ∃ b, b ≠ 0 ∧ byteAt s pagetable (srcva + i) = some b

lemma StringAt.le {srcva k k' : Nat} (h : StringAt s pagetable srcva k)
    (h' : StringAt s pagetable srcva k') : k ≤ k' := by
  by_contra hlt
  obtain ⟨b, hb, hbyte⟩ := h.2 k' (by omega)
  rw [h'.1] at hbyte
  exact hb (Option.some.inj hbyte).symm

lemma StringAt.unique {srcva k k' : Nat} (h : StringAt s pagetable srcva k)
    (h' : StringAt s pagetable srcva k') : k = k' := Nat.le_antisymm (h.le h') (h'.le h)

/-- What `copyinstr` stores and returns. -/
lemma copyinstr_cases (s : Phys) (pagetable srcva max : Nat) : ∃ res bs,
    copyinstr pagetable srcva max s = .ok ((res, bs), s) ∧ bs.length ≤ max ∧
      (res = 0 ∧ UserBytes s pagetable srcva bs ∧
          (∃ k, k < max ∧ bs.length = k + 1 ∧ StringAt s pagetable srcva k) ∨
        res = -1 ∧ ∀ k, k < max → ¬ StringAt s pagetable srcva k) := by
  obtain ⟨⟨res, bs⟩, s', hrun, rfl, k, hk, hbefore, hres⟩ :=
    copyinstrRounds_exact (translates_entries s pagetable) max srcva max (Nat.le_refl max)
  have hbytes : ∀ i, i < k → ∃ b, b ≠ 0 ∧ byteAt s' pagetable (srcva + i) = some b := fun i hi =>
    ⟨_, (hbefore i hi).2, byteAt_eq_some.mpr ⟨(hbefore i hi).1, rfl⟩⟩
  refine ⟨res, bs, hrun, ?_⟩
  rcases hres with ⟨he, hlt, hv, hnul⟩ | ⟨he, hstop⟩
  · cases he
    refine ⟨by rw [length_found]; exact hlt, .inl ⟨rfl, userBytes_found fun i hi => ?_, k, hlt,
      length_found .., byteAt_eq_some.mpr ⟨hv, hnul⟩, hbytes⟩⟩
    rcases Nat.lt_succ_iff_lt_or_eq.mp hi with hi | rfl
    · exact (hbefore i hi).1
    · exact hv
  · cases he
    refine ⟨by rw [length_found]; exact hk, .inr ⟨rfl, fun k' hk' hs => ?_⟩⟩
    -- a NUL before `k` would have ended the loop, and one from there on is not reached
    by_cases hlt : k' < k
    · exact (hbefore k' hlt).2 (byteAt_eq_some.mp hs.1).2
    · rcases hstop with rfl | hbad
      · exact hlt hk'
      · rcases Nat.lt_or_eq_of_le (Nat.le_of_not_lt hlt) with hlt | rfl
        · obtain ⟨b, -, hb⟩ := hs.2 k hlt
          exact hbad (byteAt_eq_some.mp hb).1
        · exact hbad (byteAt_eq_some.mp hs.1).1

/-- The loop of `strlen` in a buffer with `left` more bytes, or `none` if it leaves the buffer. -/
def strlenRounds (m : Bytes) (s n : Nat) : Nat → Option Nat
  | 0 => none
  | left + 1 => if m (s + n) = 0 then some n else strlenRounds m s (n + 1) left

lemma strlenRounds_eq {m : Bytes} {buf k : Nat} (hnul : m (buf + k) = 0)
    (hbefore : ∀ i, i < k → m (buf + i) ≠ 0) :
    ∀ (left : Nat) {n : Nat}, n ≤ k → k < n + left → strlenRounds m buf n left = some k := by
  intro left
  induction left with
  | zero =>
    intro n hn hk
    omega
  | succ left ih =>
    intro n hn hk
    rw [strlenRounds]
    rcases Nat.lt_or_eq_of_le hn with hlt | rfl
    · rw [if_neg (hbefore n hlt)]
      exact ih hlt (by omega)
    · rw [if_pos hnul]

lemma UserBytes.getD {bs : List UInt8} {i : Nat} (h : UserBytes s pagetable va bs)
    (hi : i < bs.length) : byteAt s pagetable (va + i) = some (bs.getD i 0) := by
  have hget := congrArg (·[i]?) h
  simp only [List.getElem?_map, List.getElem?_range hi, Option.map_some,
    List.getElem?_eq_getElem hi] at hget
  rw [← Option.some.inj hget, List.getD_eq_getElem?_getD, List.getElem?_eq_getElem hi,
    Option.getD_some]

/-- Bytes that are the same for user code in two states. -/
lemma UserBytes.unique {pagetable' : Nat} {bs bs' : List UInt8} (h : UserBytes s pagetable va bs)
    (h' : UserBytes s' pagetable' va bs') (hlen : bs'.length = bs.length)
    (hsame : ∀ i, i < bs.length → byteAt s' pagetable' (va + i) = byteAt s pagetable (va + i)) :
    bs' = bs := by
  refine List.map_injective_iff.mpr (Option.some_injective UInt8) ?_
  rw [h, h', hlen]
  exact List.map_congr_left fun i hi => hsame i (List.mem_range.mp hi)

lemma StringAt.congr {pagetable' srcva k : Nat} (h : StringAt s pagetable srcva k)
    (hsame : ∀ i, i ≤ k → byteAt s' pagetable' (srcva + i) = byteAt s pagetable (srcva + i)) :
    StringAt s' pagetable' srcva k := by
  refine ⟨(hsame k (Nat.le_refl k)).trans h.1, fun i hi => ?_⟩
  obtain ⟨b, hb, hbyte⟩ := h.2 i hi
  exact ⟨b, hb, (hsame i (Nat.le_of_lt hi)).trans hbyte⟩

/-- `copyinstr` of a string that is there. -/
lemma StringAt.copyinstr {srcva k max : Nat} (h : StringAt s pagetable srcva k) (hk : k < max) :
    ∃ bs, copyinstr pagetable srcva max s = .ok ((0, bs), s) ∧ bs.length = k + 1 ∧
      UserBytes s pagetable srcva bs := by
  obtain ⟨res, bs, hrun, -, ⟨rfl, hbytes, k', -, hlen, hs⟩ | ⟨-, hnone⟩⟩ :=
    copyinstr_cases s pagetable srcva max
  · rw [hs.unique h] at hlen
    exact ⟨bs, hrun, hlen, hbytes⟩
  · exact absurd h (hnone k hk)

/-- The length that `fetchstr` returns is the one that `strlen` finds in the buffer. -/
lemma fetchstr_strlen (s : Phys) (pr : Proc) (addr buf max : Nat) :
    Returns (fetchstr pr addr buf max) s fun r s' =>
      r = -1 ∨ ∃ k, k < max ∧ r = k ∧ strlenRounds s'.mem buf 0 max = some k := by
  obtain ⟨res, bs, hrun, -, hres⟩ := copyinstr_cases s pr.pagetable addr max
  refine returns_bind_of_eq hrun ?_
  apply Mem.returns_storeBytes
  rcases hres with ⟨rfl, hbytes, k, hk, hlen, hs⟩ | ⟨rfl, -⟩
  · rw [if_neg (by decide)]
    have hstored : ∀ i, i ≤ k → blit s.mem buf bs (buf + i) = bs.getD i 0 := by
      intro i hi
      rw [blit, if_pos (by omega), Nat.add_sub_cancel_left]
    refine returns_pure (.inr ⟨k, hk, by rw [hlen]; omega, strlenRounds_eq ?_ (fun i hi => ?_) max
      (Nat.zero_le k) (by omega)⟩)
    · have hnul := hbytes.getD (i := k) (by omega)
      rw [hs.1] at hnul
      exact (hstored k (Nat.le_refl k)).trans (Option.some.inj hnul).symm
    · obtain ⟨b, hb, hbyte⟩ := hs.2 i hi
      rw [hbytes.getD (by omega)] at hbyte
      rw [← Option.some.inj hbyte] at hb
      exact fun hz => hb ((hstored i (by omega)).symm.trans hz)
  · rw [if_pos (by decide)]
    exact returns_pure (.inl rfl)

/-- For every table: `copyinstr` returns 0 exactly if there is a string that ends before its
bound, and then it has stored this string. What is behind the string does not matter, and
`strlen` finds the end in the buffer of `fetchstr`. -/
theorem copyinstr_exact (s : Phys) (pagetable srcva max : Nat) : ∃ res bs,
    copyinstr pagetable srcva max s = .ok ((res, bs), s) ∧ (res = 0 ∨ res = -1) ∧ bs.length ≤ max ∧
      (res = 0 ↔ ∃ k, k < max ∧ StringAt s pagetable srcva k) ∧
      (∀ k, k < max → StringAt s pagetable srcva k →
        bs.length = k + 1 ∧ UserBytes s pagetable srcva bs ∧
        ∀ s' pagetable',
          (∀ i, i ≤ k → byteAt s' pagetable' (srcva + i) = byteAt s pagetable (srcva + i)) →
          copyinstr pagetable' srcva max s' = .ok ((0, bs), s')) ∧
      ∀ pr buf, pr.pagetable = pagetable → Returns (fetchstr pr srcva buf max) s fun r s' =>
        r = -1 ∨ ∃ k, k < max ∧ r = k ∧ strlenRounds s'.mem buf 0 max = some k := by
  obtain ⟨res, bs, hrun, hlen, hres⟩ := copyinstr_cases s pagetable srcva max
  refine ⟨res, bs, hrun, hres.imp And.left And.left, hlen, ?_, fun k hk hs => ?_, ?_⟩
  · rcases hres with ⟨rfl, -, k, hk, -, hs⟩ | ⟨rfl, hnone⟩
    · exact iff_of_true rfl ⟨k, hk, hs⟩
    · exact iff_of_false (by decide) fun ⟨k, hk, hs⟩ => hnone k hk hs
  · obtain ⟨bs₁, hrun₁, hlen₁, hbytes₁⟩ := hs.copyinstr hk
    rw [hrun] at hrun₁
    cases hrun₁
    refine ⟨hlen₁, hbytes₁, fun s' pagetable' hsame => ?_⟩
    obtain ⟨bs', hrun', hlen', hbytes'⟩ := (hs.congr hsame).copyinstr hk
    rw [hrun', hbytes₁.unique hbytes' (hlen'.trans hlen₁.symm) fun i hi => hsame i (by omega)]
  · rintro pr buf rfl
    exact fetchstr_strlen s pr srcva buf max

/-! ## Copies of known length -/

/-- User code has no physical page at two virtual pages. -/
def Distinct (s : Phys) (pagetable : Nat) : Prop :=
  ∀ va va' x, userAddr s pagetable va = some x → userAddr s pagetable va' = some x → va = va'

/-- The pages of a table, each with its level. -/
inductive IsTable (m : Bytes) (pagetable : Nat) : Nat → Nat → Prop where
  | root : IsTable m pagetable 2 pagetable
  | kid {level table i : Nat} : IsTable m pagetable (level + 1) table → i < 512 →
      getLE m (table + 8 * i) 8 &&& pteV ≠ 0 →
      IsTable m pagetable level (pte2pa (getLE m (table + 8 * i) 8))

/-- No page of the table is a page of user code. -/
def Apart (s : Phys) (pagetable : Nat) : Prop :=
  ∀ va x, userAddr s pagetable va = some x → ∀ level table, IsTable s.mem pagetable level table →
    x < table ∨ table + 4096 ≤ x

/-- Only memory of user code differs. -/
def UserWritten (s : Phys) (pagetable : Nat) (s' : Phys) : Prop :=
  s'.freelist = s.freelist ∧ ∀ x, (∀ va, userAddr s pagetable va ≠ some x) → s'.mem x = s.mem x

lemma px_lt (level va : Nat) : px level va < 512 := by
  rw [px_level]
  exact Nat.mod_lt _ (by decide)

section

variable {level table : Nat}

/-- The entries of a table stay when user code writes. -/
lemma Apart.entry (h : Apart s pagetable) (hw : UserWritten s pagetable s')
    (ht : IsTable s.mem pagetable level table) {i : Nat} (hi : i < 512) :
    getLE s'.mem (table + 8 * i) 8 = getLE s.mem (table + 8 * i) 8 := by
  refine getLE_congr fun x hlo hhi => hw.2 x fun va hx => ?_
  rcases h va x hx level table ht with hlt | hge <;> omega

lemma Apart.tableOf_eq (h : Apart s pagetable) (hw : UserWritten s pagetable s') (va : Nat) :
    ∀ {level table : Nat}, IsTable s.mem pagetable level table →
      tableOf s'.mem va level table = tableOf s.mem va level table ∧
        ∀ table', tableOf s.mem va level table = some table' → IsTable s.mem pagetable 0 table' := by
  intro level
  induction level with
  | zero =>
    intro table ht
    refine ⟨rfl, fun table' he => ?_⟩
    cases he
    exact ht
  | succ level ih =>
    intro table ht
    have hentry := h.entry hw ht (px_lt (level + 1) va)
    rw [tableOf, tableOf, hentry]
    split
    next => exact ⟨rfl, fun table' he => by cases he⟩
    next hv => exact ih (.kid ht (px_lt (level + 1) va) hv)

/-- The table stays when user code writes. -/
lemma Apart.mapping (h : Apart s pagetable) (hw : UserWritten s pagetable s') (va : Nat) :
    mapping s' pagetable va = Process.mapping s pagetable va := by
  by_cases hva : va < maxVa
  · obtain ⟨hlookup, htable⟩ := h.tableOf_eq hw va .root
    have haddr : entryAddr s'.mem pagetable va = entryAddr s.mem pagetable va := by
      rw [entryAddr, entryAddr, hlookup]
    rw [mapping_lookup hva, mapping_lookup hva, haddr]
    cases hl : tableOf s.mem va 2 pagetable with
    | none => simp [entryAddr, hl]
    | some table =>
      have hentry : entryAddr s.mem pagetable va = table + 8 * px 0 va := by rw [entryAddr, hl]
      rw [hentry, h.entry hw (htable table hl) (px_lt 0 va)]
  · rw [mapping_ge (by omega), mapping_ge (by omega)]

end

lemma Apart.userAddr (h : Apart s pagetable) (hw : UserWritten s pagetable s') (va : Nat) :
    userAddr s' pagetable va = Process.userAddr s pagetable va := by
  unfold Process.userAddr
  rw [h.mapping hw]

lemma Apart.entries (h : Apart s pagetable) (hw : UserWritten s pagetable s') :
    entries s' pagetable = Process.entries s pagetable := by
  funext v
  unfold Process.entries
  rw [h.mapping hw]

lemma UserWritten.refl (s : Phys) (pagetable : Nat) : UserWritten s pagetable s :=
  ⟨rfl, fun _ _ => rfl⟩

/-- A store to visible bytes of one page. -/
lemma UserWritten.blit {s₁ : Phys} {bs : List UInt8} (hw : UserWritten s pagetable s₁)
    (hv : Visible (Process.entries s pagetable) va) (hfit : va % 4096 + bs.length ≤ 4096) :
    UserWritten s pagetable
      (s₁.withMem (blit s₁.mem (physAddr (Process.entries s pagetable) va) bs)) := by
  refine ⟨hw.1, fun x hx => ?_⟩
  show Mem.blit _ _ _ x = _
  rw [Mem.blit, if_neg, hw.2 x hx]
  rintro ⟨hlo, hhi⟩
  obtain ⟨k, rfl⟩ := Nat.exists_eq_add_of_le hlo
  refine hx (va + k) ?_
  rw [← physAddr_add (by omega)]
  exact userAddr_of_visible ((visible_page_iff (by omega)).mp hv)

lemma Distinct.physAddr_inj {va va' : Nat} (h : Distinct s pagetable)
    (hv : Visible (Process.entries s pagetable) va) (hv' : Visible (Process.entries s pagetable) va')
    (he : physAddr (Process.entries s pagetable) va = physAddr (Process.entries s pagetable) va') :
    va = va' :=
  h va va' _ (userAddr_of_visible hv) (by rw [he]; exact userAddr_of_visible hv')

/-- `copyout` through a table apart from its user pages. -/
lemma Apart.copyout (ha : Apart s pagetable) (hd : Distinct s pagetable) (dstva : Nat)
    (src : List UInt8) :
    Returns (copyout pagetable dstva src) s fun res s' => UserWritten s pagetable s' ∧
      Copied (Process.entries s pagetable) dstva src s.mem s'.mem ∧
      (res = 0 ∧ (∀ i, i < src.length → Visible (Process.entries s pagetable) (dstva + i)) ∨
        res = -1 ∧ ¬ ∀ i, i < src.length → Visible (Process.entries s pagetable) (dstva + i)) := by
  refine copyoutRounds_copied (fun {s₁} hw => ?_) (fun hw hv hfit => hw.blit hv hfit)
    (fun hv hv' he => hd.physAddr_inj hv hv' he) src.length dstva src (Nat.le_refl _)
    (UserWritten.refl s pagetable)
  rw [← ha.entries hw]
  exact translates_entries s₁ pagetable

/-- `copyin` returns bytes that user code has, all of them exactly if all are there. -/
lemma copyin_cases (s : Phys) (pagetable srcva len : Nat) : ∃ res bs,
    copyin pagetable srcva len s = .ok ((res, bs), s) ∧ UserBytes s pagetable srcva bs ∧
      (res = 0 ∧ bs.length = len ∧ (∀ i, i < len → userAddr s pagetable (srcva + i) ≠ none) ∨
        res = -1 ∧ bs.length < len ∧ userAddr s pagetable (srcva + bs.length) = none) := by
  obtain ⟨⟨res, bs⟩, s', hrun, rfl, k, hk, hbs, hvis, hres⟩ :=
    copyinRounds_exact (translates_entries s pagetable) len srcva len (Nat.le_refl len)
  obtain rfl : bs = found (entries s' pagetable) s'.mem srcva k := hbs
  refine ⟨res, _, hrun, userBytes_found hvis, ?_⟩
  rw [length_found]
  rcases hres with ⟨rfl, rfl⟩ | ⟨rfl, hlt, hbad⟩
  · exact .inl ⟨rfl, rfl, fun i hi => visible_iff_userAddr.mp (hvis i hi)⟩
  · exact .inr ⟨rfl, hlt, not_not.mp fun hne => hbad (visible_iff_userAddr.mpr hne)⟩

/-- The bytes of a list, if user code has them. -/
lemma userBytes_of_getD {bs : List UInt8}
    (h : ∀ i, i < bs.length → byteAt s pagetable (va + i) = some (bs.getD i 0)) :
    UserBytes s pagetable va bs := by
  refine List.ext_getElem (by simp) fun i hi hi' => ?_
  have hlt : i < bs.length := by simpa using hi
  simp only [List.getElem_map, List.getElem_range]
  rw [h i hlt, List.getD_eq_getElem?_getD, List.getElem?_eq_getElem hlt, Option.getD_some]

/-- `copyout` and `copyin` of a range that user code has are exact, and of one that it has not
they fail after the bytes before the first missing page. -/
theorem userCopies_exact (hd : Distinct s pagetable) (ha : Apart s pagetable) (va : Nat)
    (src : List UInt8) : ∃ res s', copyout pagetable va src s = .ok (res, s') ∧
      s'.freelist = s.freelist ∧
      ((∀ i, i < src.length → userAddr s pagetable (va + i) ≠ none) ∧ res = 0 ∧
          (∀ i x, i < src.length → userAddr s pagetable (va + i) = some x → s'.mem x = src.getD i 0) ∧
          (∀ x, (∀ i, i < src.length → userAddr s pagetable (va + i) ≠ some x) → s'.mem x = s.mem x) ∧
          copyin pagetable va src.length s' = .ok ((0, src), s') ∨
        (∃ i, i < src.length ∧ userAddr s pagetable (va + i) = none) ∧ res = -1 ∧
          (∀ x, s'.mem x ≠ s.mem x → ∃ i, i < src.length ∧
            (∀ j, j ≤ i → userAddr s pagetable (va + j) ≠ none) ∧
            userAddr s pagetable (va + i) = some x) ∧
          ∀ t, t = s ∨ t = s' → ∃ bs, copyin pagetable va src.length t = .ok ((-1, bs), t)) ∧
      ∀ len, ∃ r bs, copyin pagetable va len s = .ok ((r, bs), s) ∧ bs.length ≤ len ∧
        UserBytes s pagetable va bs := by
  obtain ⟨res, s', hrun, hw, hcopied, hres⟩ := ha.copyout hd va src
  have hread : ∀ len, ∃ r bs, copyin pagetable va len s = .ok ((r, bs), s) ∧ bs.length ≤ len ∧
      UserBytes s pagetable va bs := by
    intro len
    obtain ⟨r, bs, hcopyin, hbytes, ⟨-, hlen, -⟩ | ⟨-, hlen, -⟩⟩ := copyin_cases s pagetable va len
    · exact ⟨r, bs, hcopyin, Nat.le_of_eq hlen, hbytes⟩
    · exact ⟨r, bs, hcopyin, Nat.le_of_lt hlen, hbytes⟩
  refine ⟨res, s', hrun, hw.1, ?_, hread⟩
  rcases hres with ⟨rfl, hvis⟩ | ⟨rfl, hbad⟩
  · have hreach : ∀ {i}, i < src.length → Reached (entries s pagetable) va i := fun hi j hj =>
      hvis j (by omega)
    have hall : ∀ i, i < src.length → userAddr s pagetable (va + i) ≠ none := fun i hi =>
      visible_iff_userAddr.mp (hvis i hi)
    refine .inl ⟨hall, rfl, fun i x hi hx => ?_, fun x hx => ?_, ?_⟩
    · rw [userAddr_of_visible (hvis i hi)] at hx
      cases hx
      exact hcopied.stored hi (hreach hi)
    · refine hcopied.kept fun i hi _ he => hx i hi ?_
      rw [userAddr_of_visible (hvis i hi), he]
    · have hsrc : UserBytes s' pagetable va src := by
        refine userBytes_of_getD fun i hi => ?_
        rw [byteAt, ha.userAddr hw, userAddr_of_visible (hvis i hi), Option.map_some,
          hcopied.stored hi (hreach hi)]
      obtain ⟨r, bs, hcopyin, hbytes, ⟨rfl, hlen, -⟩ | ⟨-, hlt, hnone⟩⟩ :=
        copyin_cases s' pagetable va src.length
      · rw [hcopyin, hsrc.unique hbytes hlen fun _ _ => rfl]
      · rw [ha.userAddr hw] at hnone
        exact absurd hnone (hall _ hlt)
  · obtain ⟨i, hi⟩ := not_forall.mp hbad
    obtain ⟨hi, hnot⟩ := Classical.not_imp.mp hi
    have hnone : userAddr s pagetable (va + i) = none :=
      not_not.mp fun hne => hnot (visible_iff_userAddr.mpr hne)
    refine .inr ⟨⟨i, hi, hnone⟩, rfl, fun x hx => ?_, fun t ht => ?_⟩
    · by_contra hno
      refine hx (hcopied.kept fun j hj hreach he => hno ⟨j, hj, fun k hk => ?_, ?_⟩)
      · exact visible_iff_userAddr.mp (hreach k hk)
      · rw [userAddr_of_visible (hreach j (Nat.le_refl j)), he]
    · have hnone' : userAddr t pagetable (va + i) = none := by
        rcases ht with rfl | rfl
        · exact hnone
        · rw [ha.userAddr hw, hnone]
      obtain ⟨r, bs, hcopyin, -, ⟨-, -, hall⟩ | ⟨rfl, -, -⟩⟩ := copyin_cases t pagetable va src.length
      · exact absurd hnone' (hall i hi)
      · exact ⟨bs, hcopyin⟩

/-! ## A table with one page -/

/-- Memory with a table at page 1 that has only virtual page 0, at physical page `q`. -/
def onePage (q : Nat) : Phys where
  mem := putLE (putLE (putLE (fun _ => 0) 0x1000 8 (2 * 1024 + pteV)) 0x2000 8 (3 * 1024 + pteV))
    0x3000 8 (q * 1024 + (pteV ||| pteR ||| pteW ||| pteU))
  freelist := 0

lemma getLE_putLE_aligned {m : Bytes} {a b v : Nat} (ha : a % 8 = 0) (hb : b % 8 = 0) :
    getLE (putLE m a 8 v) b 8 = if b = a then v % 256 ^ 8 else getLE m b 8 := by
  split
  next he => rw [he, getLE_putLE]
  next hne => exact getLE_putLE_of_disjoint (by omega)

lemma onePage_entry {q a : Nat} (ha : a % 8 = 0) : getLE (onePage q).mem a 8 =
    if a = 0x3000 then (q * 1024 + (pteV ||| pteR ||| pteW ||| pteU)) % 256 ^ 8
    else if a = 0x2000 then 3 * 1024 + pteV else if a = 0x1000 then 2 * 1024 + pteV else 0 := by
  unfold onePage
  dsimp only
  rw [getLE_putLE_aligned (by decide) ha, getLE_putLE_aligned (by decide) ha,
    getLE_putLE_aligned (by decide) ha, getLE_zero fun _ _ _ => rfl]
  rfl

lemma onePage_root {q i : Nat} (hi : i < 512) : getLE (onePage q).mem (0x1000 + 8 * i) 8 =
    if i = 0 then 2 * 1024 + pteV else 0 := by
  rw [onePage_entry (by omega), if_neg (by omega), if_neg (by omega)]
  exact if_congr (by omega) rfl rfl

lemma onePage_middle {q i : Nat} (hi : i < 512) : getLE (onePage q).mem (0x2000 + 8 * i) 8 =
    if i = 0 then 3 * 1024 + pteV else 0 := by
  rw [onePage_entry (by omega), if_neg (by omega), if_neg (show ¬ 0x2000 + 8 * i = 0x1000 by omega)]
  exact if_congr (by omega) rfl rfl

lemma onePage_leaf {q i : Nat} (hi : i < 512) (hq : q < 2 ^ 20) :
    getLE (onePage q).mem (0x3000 + 8 * i) 8 =
      if i = 0 then q * 1024 + (pteV ||| pteR ||| pteW ||| pteU) else 0 := by
  have hflags : pteV ||| pteR ||| pteW ||| pteU = 23 := rfl
  rw [onePage_entry (by omega), if_neg (show ¬ 0x3000 + 8 * i = 0x2000 by omega),
    if_neg (show ¬ 0x3000 + 8 * i = 0x1000 by omega), Nat.mod_eq_of_lt (by omega)]
  exact if_congr (by omega) rfl rfl

/-- The tables of the memory with one page. -/
lemma isTable_onePage {q level table : Nat} (h : IsTable (onePage q).mem 0x1000 level table) :
    level = 2 ∧ table = 0x1000 ∨ level = 1 ∧ table = 0x2000 ∨ level = 0 ∧ table = 0x3000 := by
  induction h with
  | root => exact .inl ⟨rfl, rfl⟩
  | @kid level table i _ hi hv ih =>
    rcases ih with ⟨hl, rfl⟩ | ⟨hl, rfl⟩ | ⟨hl, -⟩
    · rw [onePage_root hi] at hv ⊢
      by_cases hzero : i = 0
      · rw [if_pos hzero]
        exact .inr (.inl ⟨by omega, rfl⟩)
      · rw [if_neg hzero] at hv
        exact absurd rfl hv
    · rw [onePage_middle hi] at hv ⊢
      by_cases hzero : i = 0
      · rw [if_pos hzero]
        exact .inr (.inr ⟨by omega, rfl⟩)
      · rw [if_neg hzero] at hv
        exact absurd rfl hv
    · omega

/-- The one page that user code has. -/
lemma userAddr_onePage {q va x : Nat} (hq : q < 2 ^ 20)
    (h : userAddr (onePage q) 0x1000 va = some x) : va < 4096 ∧ x = 4096 * q + va := by
  obtain ⟨pte, ⟨hm, -, -⟩, rfl⟩ := userAddr_eq_some.mp h
  obtain ⟨hva, hvalid⟩ := mapping_valid hm
  rw [mapping_lookup hva] at hm
  have hlookup : tableOf (onePage q).mem va 2 0x1000 =
      if px 2 va = 0 then if px 1 va = 0 then some 0x3000 else none else none := by
    rw [tableOf, onePage_root (px_lt 2 va)]
    by_cases h2 : px 2 va = 0
    · rw [if_pos h2, if_pos h2, if_neg (by decide), tableOf]
      have hmid : pte2pa (2 * 1024 + pteV) = 0x2000 := rfl
      rw [hmid, onePage_middle (px_lt 1 va)]
      by_cases h1 : px 1 va = 0
      · rw [if_pos h1, if_pos h1, if_neg (by decide), tableOf]
        rfl
      · rw [if_neg h1, if_neg h1]
        rfl
    · rw [if_neg h2, if_neg h2]
      rfl
  rw [entryAddr, hlookup] at hm
  by_cases h2 : px 2 va = 0
  · by_cases h1 : px 1 va = 0
    · simp only [if_pos h2, if_pos h1, onePage_leaf (px_lt 0 va) hq] at hm
      by_cases h0 : px 0 va = 0
      · simp only [if_pos h0] at hm
        split at hm
        next => cases hm
        next =>
          have hflags : pteV ||| pteR ||| pteW ||| pteU = 23 := rfl
          rw [px_level] at h0 h1 h2
          unfold maxVa at hva
          rw [← Option.some.inj hm, hflags, pte2pa_eq]
          omega
      · simp [h0] at hm
    · simp [h2, h1] at hm
  · simp [h2] at hm

lemma distinct_onePage {q : Nat} (hq : q < 2 ^ 20) : Distinct (onePage q) 0x1000 := by
  intro va va' x h h'
  obtain ⟨-, hx⟩ := userAddr_onePage hq h
  obtain ⟨-, hx'⟩ := userAddr_onePage hq h'
  omega

lemma apart_onePage : Apart (onePage 4) 0x1000 := by
  intro va x hx level table ht
  obtain ⟨hva, rfl⟩ := userAddr_onePage (by decide) hx
  rcases isTable_onePage ht with ⟨-, rfl⟩ | ⟨-, rfl⟩ | ⟨-, rfl⟩ <;> omega

theorem userCopies_exact_onePage : Distinct (onePage 4) 0x1000 ∧ Apart (onePage 4) 0x1000 ∧
    ∃ s', copyout 0x1000 4094 [7, 8] (onePage 4) = .ok (0, s') ∧
      copyin 0x1000 4094 2 s' = .ok ((0, [7, 8]), s') := by
  have hd := distinct_onePage (q := 4) (by decide)
  refine ⟨hd, apart_onePage, ?_⟩
  obtain ⟨res, s', hrun, -, ⟨-, rfl, -, -, hcopyin⟩ | ⟨⟨i, hi, hnone⟩, -⟩, -⟩ :=
    userCopies_exact hd apart_onePage 4094 [7, 8]
  · exact ⟨s', hrun, hcopyin⟩
  · have hi' : i = 0 ∨ i = 1 := by
      have hlen : i < 2 := hi
      omega
    rcases hi' with rfl | rfl
    · exact absurd hnone (by decide +kernel)
    · exact absurd hnone (by decide +kernel)

/-- The table maps its own last page for user code, and `copyout` clears the entry. -/
def clearsItself : Bool :=
  match copyout 0x1000 0 (List.replicate 8 0) (onePage 3) with
  | .ok (r, s') => r == 0 && (mapping s' 0x1000 0).isNone
  | .error _ => false

lemma clearsItself_eq : clearsItself = true := by decide +kernel

theorem copyout_own_table : Distinct (onePage 3) 0x1000 ∧
    (∀ i, i < 8 → userAddr (onePage 3) 0x1000 (0 + i) ≠ none) ∧
    ∃ s' bs, copyout 0x1000 0 (List.replicate 8 0) (onePage 3) = .ok (0, s') ∧
      copyin 0x1000 0 8 s' = .ok ((-1, bs), s') := by
  refine ⟨distinct_onePage (by decide), by decide +kernel, ?_⟩
  have hclears := clearsItself_eq
  unfold clearsItself at hclears
  cases hrun : copyout 0x1000 0 (List.replicate 8 0) (onePage 3) with
  | error e =>
    rw [hrun] at hclears
    cases hclears
  | ok x =>
    obtain ⟨r, s'⟩ := x
    rw [hrun] at hclears
    simp only [Bool.and_eq_true, beq_iff_eq, Option.isNone_iff_eq_none] at hclears
    obtain ⟨rfl, hnone⟩ := hclears
    have haddr : userAddr s' 0x1000 (0 + 0) = none := by
      unfold userAddr
      rw [hnone]
    obtain ⟨r, bs, hcopyin, -, ⟨-, -, hall⟩ | ⟨rfl, -, -⟩⟩ := copyin_cases s' 0x1000 0 8
    · exact absurd haddr (hall 0 (by decide))
    · exact ⟨s', bs, rfl, hcopyin⟩

end Xv6.Process
