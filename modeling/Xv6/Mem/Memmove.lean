import Xv6.Mem.Kalloc

/-!
# The two versions of `memmove`

`memmove` of `kernel/string.c` copies backwards only if the destination starts inside the
source, and `memmove` of `user/ulib.c` does so unless the source lies above the destination.
Pointers are 64-bit words, so a pointer to the end of a range may wrap to 0. Either way, what
is still to be read has not been overwritten, and the result is `copy`.
-/

namespace Xv6

open Function Mem

/-- `while(n-- > 0) *d++ = *s++;` -/
def copyUp (m : Bytes) (d s : BitVec 64) : Nat → Bytes
  | 0 => m
  | n + 1 => copyUp (update m d.toNat (m s.toNat)) (d + 1) (s + 1) n

/-- `while(n-- > 0) *--d = *--s;` -/
def copyDown (m : Bytes) (d s : BitVec 64) : Nat → Bytes
  | 0 => m
  | n + 1 => copyDown (update m (d - 1).toNat (m (s - 1).toNat)) (d - 1) (s - 1) n

/-- `memmove` of the kernel, with `uint n`. -/
def KernelString.memmove (m : Bytes) (dst src : BitVec 64) (n : BitVec 32) : BitVec 64 × Bytes :=
  if n = 0 then (dst, m)
  else if src < dst ∧ src + n.setWidth 64 > dst then
    (dst, copyDown m (dst + n.setWidth 64) (src + n.setWidth 64) n.toNat)
  else (dst, copyUp m dst src n.toNat)

/-- `memmove` of the user library, with `int n`. -/
def Ulib.memmove (m : Bytes) (vdst vsrc : BitVec 64) (n : BitVec 32) : BitVec 64 × Bytes :=
  if vsrc > vdst then (vdst, copyUp m vdst vsrc n.toInt.toNat)
  else (vdst, copyDown m (vdst + n.signExtend 64) (vsrc + n.signExtend 64) n.toInt.toNat)

variable {m : Bytes} {a d s j k : Nat}

/-! ## One round -/

lemma copy_inside (h : d ≤ a) (h' : a < d + k) : copy m d s k a = m (s + (a - d)) := if_pos ⟨h, h'⟩

lemma copy_outside (h : a < d ∨ d + k ≤ a) : copy m d s k a = m a := if_neg (by omega)

lemma copy_zero (m : Bytes) (d s : Nat) : copy m d s 0 = m :=
  funext fun _ => copy_outside (by omega)

/-- The next byte of a copy upwards, if it has not been overwritten. -/
lemma copy_succ (h : s + k < d ∨ d ≤ s) :
    update (copy m d s k) (d + k) (copy m d s k (s + k)) = copy m d s (k + 1) := by
  rw [copy_outside (a := s + k) (by omega)]
  funext a
  rcases Nat.lt_trichotomy a (d + k) with hlt | rfl | hgt
  · rw [update_of_ne (by omega)]
    rcases Nat.lt_or_ge a d with ha | ha
    · rw [copy_outside (.inl ha), copy_outside (.inl ha)]
    · rw [copy_inside ha hlt, copy_inside ha (by omega)]
  · rw [update_self, copy_inside (by omega) (by omega), Nat.add_sub_cancel_left]
  · rw [update_of_ne (by omega), copy_outside (by omega), copy_outside (by omega)]

/-- The next byte of a copy downwards. -/
lemma copy_cons (h : s ≤ d ∨ d + k < s) :
    update (copy m (d + 1) (s + 1) k) d (copy m (d + 1) (s + 1) k s) = copy m d s (k + 1) := by
  rw [copy_outside (a := s) (by omega)]
  funext a
  rcases Nat.lt_trichotomy a d with hlt | rfl | hgt
  · rw [update_of_ne (by omega), copy_outside (by omega), copy_outside (by omega)]
  · rw [update_self, copy_inside (by omega) (by omega), Nat.sub_self, Nat.add_zero]
  · rw [update_of_ne (by omega)]
    rcases Nat.lt_or_ge a (d + 1 + k) with ha | ha
    · rw [copy_inside (by omega) ha, copy_inside (by omega) (by omega)]
      congr 1
      omega
    · rw [copy_outside (by omega), copy_outside (by omega)]

/-! ## The loops -/

lemma toNat_add_ofNat {p : BitVec 64} (h : p.toNat + k < 2 ^ 64) :
    (p + BitVec.ofNat 64 k).toNat = p.toNat + k := by
  rw [BitVec.toNat_add, BitVec.toNat_ofNat, Nat.add_mod_mod, Nat.mod_eq_of_lt h]

lemma add_ofNat_succ (p : BitVec 64) (k : Nat) :
    p + BitVec.ofNat 64 (k + 1) = p + BitVec.ofNat 64 k + 1 := by
  rw [BitVec.ofNat_add, BitVec.add_assoc]
  rfl

variable {dst src : BitVec 64}

/-- After `k` rounds of a copy upwards, `j` are left. -/
lemma copyUp_copy (hdst : dst.toNat + (k + j) ≤ 2 ^ 64) (hsrc : src.toNat + (k + j) ≤ 2 ^ 64)
    (h : src.toNat + (k + j) ≤ dst.toNat ∨ dst.toNat ≤ src.toNat) :
    copyUp (copy m dst.toNat src.toNat k) (dst + BitVec.ofNat 64 k) (src + BitVec.ofNat 64 k) j =
      copy m dst.toNat src.toNat (k + j) := by
  induction j generalizing k with
  | zero => rfl
  | succ j ih =>
    rw [copyUp, toNat_add_ofNat (by omega), toNat_add_ofNat (by omega), copy_succ (by omega),
      ← add_ofNat_succ, ← add_ofNat_succ, ih (by omega) (by omega) (by omega), Nat.add_assoc,
      Nat.add_comm 1 j]

/-- A copy downwards has `j` rounds left after `k`. -/
lemma copyDown_copy (hdst : dst.toNat + (j + k) ≤ 2 ^ 64) (hsrc : src.toNat + (j + k) ≤ 2 ^ 64)
    (h : src.toNat ≤ dst.toNat ∨ dst.toNat + (j + k) ≤ src.toNat) :
    copyDown (copy m (dst.toNat + j) (src.toNat + j) k) (dst + BitVec.ofNat 64 j)
      (src + BitVec.ofNat 64 j) j = copy m dst.toNat src.toNat (j + k) := by
  induction j generalizing k with
  | zero => rw [copyDown, Nat.zero_add, Nat.add_zero, Nat.add_zero]
  | succ j ih =>
    rw [copyDown, add_ofNat_succ, add_ofNat_succ, BitVec.add_sub_cancel, BitVec.add_sub_cancel,
      toNat_add_ofNat (by omega), toNat_add_ofNat (by omega), ← Nat.add_assoc, ← Nat.add_assoc,
      copy_cons (by omega), ih (by omega) (by omega) (by omega), Nat.add_assoc, Nat.add_comm 1 k]

lemma copyUp_eq {n : Nat} (hdst : dst.toNat + n ≤ 2 ^ 64) (hsrc : src.toNat + n ≤ 2 ^ 64)
    (h : src.toNat + n ≤ dst.toNat ∨ dst.toNat ≤ src.toNat) :
    copyUp m dst src n = copy m dst.toNat src.toNat n := by
  rw [← Nat.zero_add n] at hdst hsrc h
  have hrun := copyUp_copy (m := m) hdst hsrc h
  rwa [copy_zero, BitVec.add_zero, BitVec.add_zero, Nat.zero_add] at hrun

lemma copyDown_eq {n : Nat} (hdst : dst.toNat + n ≤ 2 ^ 64) (hsrc : src.toNat + n ≤ 2 ^ 64)
    (h : src.toNat ≤ dst.toNat ∨ dst.toNat + n ≤ src.toNat) :
    copyDown m (dst + BitVec.ofNat 64 n) (src + BitVec.ofNat 64 n) n = copy m dst.toNat src.toNat n := by
  have hrun := copyDown_copy (m := m) (k := 0) hdst hsrc h
  rwa [copy_zero] at hrun

/-! ## The functions -/

section

variable {n : BitVec 32} (hdst : dst.toNat + n.toNat ≤ 2 ^ 64) (hsrc : src.toNat + n.toNat ≤ 2 ^ 64)
include hdst hsrc

lemma KernelString.memmove_eq :
    KernelString.memmove m dst src n = (dst, copy m dst.toNat src.toNat n.toNat) := by
  rw [KernelString.memmove, ← BitVec.ofNat_toNat]
  split
  next hzero =>
    rw [hzero]
    exact congrArg (Prod.mk dst) (copy_zero m _ _).symm
  next =>
    split
    next hback => rw [copyDown_eq hdst hsrc (.inl (Nat.le_of_lt (BitVec.lt_def.mp hback.1)))]
    next hback =>
      rw [copyUp_eq hdst hsrc]
      by_contra hover
      -- an end at `2 ^ 64` is 0, but then the destination would end later still
      refine hback ⟨BitVec.lt_def.mpr (by omega), BitVec.lt_def.mpr ?_⟩
      rw [toNat_add_ofNat (by omega)]
      omega

lemma Ulib.memmove_eq (hn : n.toNat < 2 ^ 31) :
    Ulib.memmove m dst src n = (dst, copy m dst.toNat src.toNat n.toNat) := by
  have hint : n.toInt.toNat = n.toNat := by rw [BitVec.toInt_eq_toNat_of_lt (by omega), Int.toNat_natCast]
  have hmsb : n.msb = false := BitVec.msb_eq_false_iff_two_mul_lt.mpr (by omega)
  rw [Ulib.memmove, hint, BitVec.signExtend_eq_setWidth_of_msb_false hmsb, ← BitVec.ofNat_toNat]
  split
  next hup => rw [copyUp_eq hdst hsrc (.inr (Nat.le_of_lt (BitVec.lt_def.mp hup)))]
  next hup => rw [copyDown_eq hdst hsrc (.inl (Nat.le_of_not_lt fun hlt => hup (BitVec.lt_def.mpr hlt)))]

end

/-- Both versions return the destination and copy all bytes at once: the destination has what
the source had before, overlapping or not, and every other byte is as it was. -/
theorem memmove_simultaneous (m : Bytes) {dst src : BitVec 64} {n : BitVec 32} (hn : n.toNat < 2 ^ 31)
    (hdst : dst.toNat + n.toNat ≤ 2 ^ 64) (hsrc : src.toNat + n.toNat ≤ 2 ^ 64) :
    ∃ m' : Bytes, KernelString.memmove m dst src n = (dst, m') ∧ Ulib.memmove m dst src n = (dst, m') ∧
      (∀ i < n.toNat, m' (dst.toNat + i) = m (src.toNat + i)) ∧
      ∀ a, a < dst.toNat ∨ dst.toNat + n.toNat ≤ a → m' a = m a := by
  refine ⟨copy m dst.toNat src.toNat n.toNat, KernelString.memmove_eq hdst hsrc,
    Ulib.memmove_eq hdst hsrc hn, fun i hi => ?_, fun a ha => copy_outside ha⟩
  rw [copy_inside (by omega) (by omega), Nat.add_sub_cancel_left]

/-- Three bytes move up by one. -/
theorem memmove_simultaneous_overlap :
    ∃ m' : Bytes, KernelString.memmove (fun a => UInt8.ofNat a) 2 1 3 = (2, m') ∧
      Ulib.memmove (fun a => UInt8.ofNat a) 2 1 3 = (2, m') ∧ m' 3 = 2 ∧ m' 5 = 5 := by
  have hn : (3 : BitVec 32).toNat < 2 ^ 31 := by decide
  have hdst : (2 : BitVec 64).toNat + (3 : BitVec 32).toNat ≤ 2 ^ 64 := by decide
  have hsrc : (1 : BitVec 64).toNat + (3 : BitVec 32).toNat ≤ 2 ^ 64 := by decide
  obtain ⟨m', hkernel, huser, hin, hout⟩ := memmove_simultaneous (fun a => UInt8.ofNat a) hn hdst hsrc
  exact ⟨m', hkernel, huser, hin 1 (by decide), hout 5 (by decide)⟩

end Xv6
