import Xv6.Fs.Layout

/-!
# Names and entries

The name in an entry ends at the first NUL or after `DIRSIZ` characters. `cstr` is the name as a
list of characters, and `namecmp` compares these lists. `strncpy` stores a name so that it reads
back cut to `DIRSIZ` characters, if it has no NUL itself.

The bytes of a directory are those of its entries, one after the other (`readDirent_flatMap`).
-/

namespace Xv6.Fs

/-- The characters that count, of at most `n`. -/
def cstr (n : Nat) (s : List UInt8) : Name := (s.take n).takeWhile (· ≠ 0)

variable {s t : List UInt8} {n : Nat}

@[simp]
lemma cstr_cons (c : UInt8) : cstr (n + 1) (c :: s) = if c = 0 then [] else c :: cstr n s := by
  unfold cstr
  rw [List.take_succ_cons, List.takeWhile_cons]
  split <;> simp_all

lemma cstr_succ : cstr (n + 1) s = if s.headD 0 = 0 then [] else s.headD 0 :: cstr n s.tail := by
  cases s with
  | nil => simp [cstr]
  | cons c s => simp

lemma strncmp_eq_zero : strncmp s t n = 0 ↔ cstr n s = cstr n t := by
  induction n generalizing s t with
  | zero => simp [cstr, strncmp]
  | succ n ih =>
    unfold strncmp
    rw [cstr_succ, cstr_succ]
    split
    next h =>
      rw [ih, if_neg h.1, if_neg (h.2 ▸ h.1), h.2, List.cons.injEq, eq_self, true_and]
    next h =>
      have hdiff : ((s.headD 0).toNat : Int) - (t.headD 0).toNat = 0 ↔ s.headD 0 = t.headD 0 := by
        rw [Int.sub_eq_zero, Int.natCast_inj, UInt8.toNat_inj]
      rw [hdiff]
      grind

lemma cstr_eq_take (hs : ∀ c ∈ s, c ≠ 0) : cstr n s = s.take n := by
  refine List.takeWhile_eq_self_iff.mpr fun c hc => ?_
  exact decide_eq_true (hs c (List.mem_of_mem_take hc))

/-- What `strncpy` stores is read back. -/
lemma cstr_strncpy (s : List UInt8) (n : Nat) : cstr n (strncpy s n) = cstr n s := by
  induction n generalizing s with
  | zero => simp [cstr]
  | succ n ih =>
    cases s with
    | nil => simp [cstr, strncpy]
    | cons c s =>
      rw [strncpy, cstr_cons, cstr_cons]
      split
      · rfl
      · rw [ih]

lemma length_strncpy (s : List UInt8) (n : Nat) : (strncpy s n).length = n := by
  induction n generalizing s with
  | zero => rw [strncpy, List.length_nil]
  | succ n ih =>
    cases s with
    | nil | cons c t => rw [strncpy, List.length_cons, ih]

lemma namecmp_eq_zero : namecmp s t = 0 ↔ cstr dirsiz s = cstr dirsiz t := strncmp_eq_zero

/-! ## Entries -/

/-- The fields are in the range of their types. -/
structure Dirent.Fits (de : Dirent) : Prop where
  inum : de.inum < 2 ^ 16
  name : de.name.length = dirsiz

/-- An entry of zeroes. -/
def Dirent.zero : Dirent := ⟨0, List.replicate dirsiz 0⟩

lemma Dirent.fits_zero : Dirent.zero.Fits := ⟨Nat.two_pow_pos 16, List.length_replicate⟩

lemma Dirent.getD_zero (j : Nat) : Dirent.zero.bytes.getD j 0 = 0 := by
  have hbytes : Dirent.zero.bytes = List.replicate direntSize 0 := by decide
  rw [hbytes, List.getD_eq_getElem?_getD, List.getElem?_replicate]
  split <;> rfl

lemma Dirent.length_bytes {de : Dirent} (h : de.Fits) : de.bytes.length = direntSize := by
  rw [Dirent.bytes, List.length_cons, List.length_cons, h.name]
  rfl

/-- An entry reads back as it was stored. -/
lemma readDirent_bytes {de : Dirent} (h : de.Fits) : readDirent de.bytes = de := by
  have hinum := h.inum
  have hlow : (UInt8.ofNat de.inum).toNat = de.inum % 256 := UInt8.toNat_ofNat'
  have hhigh : (UInt8.ofNat (de.inum / 256)).toNat = de.inum / 256 % 256 := UInt8.toNat_ofNat'
  show Dirent.mk ((UInt8.ofNat de.inum).toNat + 256 * (UInt8.ofNat (de.inum / 256)).toNat) de.name = de
  rw [hlow, hhigh, show de.inum % 256 + 256 * (de.inum / 256 % 256) = de.inum by omega]

section

variable {l : List Dirent}

/-- The bytes of the `k`-th entry. -/
lemma getD_flatMap_bytes (hl : ∀ de ∈ l, de.Fits) (k : Nat) {j : Nat} (hj : j < direntSize) :
    (l.flatMap Dirent.bytes).getD (direntSize * k + j) 0 = (l.getD k Dirent.zero).bytes.getD j 0 := by
  induction l generalizing k with
  | nil =>
    rw [List.flatMap_nil, List.getD_nil, List.getD_nil, Dirent.getD_zero]
  | cons de l ih =>
    have hlen := Dirent.length_bytes (hl de List.mem_cons_self)
    rw [List.flatMap_cons]
    cases k with
    | zero =>
      rw [Nat.mul_zero, Nat.zero_add, List.getD_append _ _ _ _ (by omega)]
      rfl
    | succ k =>
      rw [Nat.mul_succ, List.getD_append_right _ _ _ _ (by omega), hlen,
        show direntSize * k + direntSize + j - direntSize = direntSize * k + j by omega,
        ih (fun d hd => hl d (List.mem_cons_of_mem de hd)) k, List.getD_cons_succ]

/-- The `k`-th entry of a directory, of zeroes behind the last one. -/
lemma readDirent_flatMap (hl : ∀ de ∈ l, de.Fits) (k : Nat) :
    readDirent ((List.range direntSize).map fun j => (l.flatMap Dirent.bytes).getD (direntSize * k + j) 0) =
      l.getD k Dirent.zero := by
  have hfits : (l.getD k Dirent.zero).Fits := by
    by_cases hk : k < l.length
    · rw [List.getD_eq_getElem _ _ hk]
      exact hl _ (List.getElem_mem hk)
    · rw [List.getD_eq_default _ _ (by omega)]
      exact Dirent.fits_zero
  have hbytes : ((List.range direntSize).map fun j => (l.flatMap Dirent.bytes).getD (direntSize * k + j) 0) =
      (l.getD k Dirent.zero).bytes := by
    apply List.ext_getElem
    · rw [List.length_map, List.length_range, Dirent.length_bytes hfits]
    · intro j hj hj'
      rw [List.getElem_map, List.getElem_range, getD_flatMap_bytes hl k (by simpa using hj),
        List.getD_eq_getElem _ _ hj']
  rw [hbytes, readDirent_bytes hfits]

end

end Xv6.Fs
