import Xv6.Param

/-!
# Disk blocks

A block is an array of `BSIZE` bytes, and a disk is an array of blocks. The
kernel reads `int` and `uint` fields out of a block by casting its data to a
struct. `Block.word` is that load: four bytes, least significant first, as the
RISC-V does. A store of a word is read back at its own offset
(`Block.word_setWord`) and leaves the words beside it alone
(`Block.word_setWord_of_disjoint`).
-/

namespace Xv6

/-- `uchar data[BSIZE]`. -/
abbrev Block := Fin bsize → UInt8

/-- The blocks of a disk, by block number. -/
abbrev Disk := Nat → Block

/-- The byte at an offset of a block, `0` outside it. -/
def Block.byte (b : Block) (i : Nat) : Nat :=
  if h : i < bsize then (b ⟨i, h⟩).toNat else 0

/-- Store one byte at an offset of a block. -/
def Block.setByte (b : Block) (i v : Nat) : Block :=
  fun j => if j.val = i then UInt8.ofNat v else b j

/-- The block of zeroes that `bzero` leaves. -/
def Block.zero : Block := fun _ => 0

lemma Block.byte_lt (b : Block) (i : Nat) : b.byte i < 256 := by
  unfold Block.byte
  split
  · exact UInt8.toNat_lt _
  · omega

lemma Block.byte_setByte (b : Block) {i : Nat} (v : Nat) (hi : i < bsize) :
    (b.setByte i v).byte i = v % 256 := by
  simp [Block.byte, Block.setByte, hi]

lemma Block.byte_setByte_of_ne (b : Block) {i j : Nat} (v : Nat) (h : j ≠ i) :
    (b.setByte i v).byte j = b.byte j := by
  by_cases hj : j < bsize
  · simp [Block.byte, Block.setByte, hj, h]
  · simp [Block.byte, hj]

/-- The 32-bit word at a byte offset of a block. -/
def Block.word (b : Block) (off : Nat) : Nat :=
  b.byte off + 256 * b.byte (off + 1) + 65536 * b.byte (off + 2) + 16777216 * b.byte (off + 3)

/-- Store a 32-bit word at a byte offset of a block. -/
def Block.setWord (b : Block) (off v : Nat) : Block :=
  (((b.setByte off v).setByte (off + 1) (v / 256)).setByte (off + 2) (v / 65536)).setByte
    (off + 3) (v / 16777216)

lemma Block.word_lt (b : Block) (off : Nat) : b.word off < 2 ^ 32 := by
  have h0 := b.byte_lt off
  have h1 := b.byte_lt (off + 1)
  have h2 := b.byte_lt (off + 2)
  have h3 := b.byte_lt (off + 3)
  unfold Block.word
  omega

lemma Block.byte_setWord_of_disjoint (b : Block) {off i : Nat} (v : Nat)
    (h : i < off ∨ off + 4 ≤ i) : (b.setWord off v).byte i = b.byte i := by
  unfold Block.setWord
  rw [byte_setByte_of_ne _ _ (by omega), byte_setByte_of_ne _ _ (by omega),
    byte_setByte_of_ne _ _ (by omega), byte_setByte_of_ne _ _ (by omega)]

/-- A word reads back what was stored, cut to 32 bits. -/
lemma Block.word_setWord (b : Block) {off : Nat} (v : Nat) (h : off + 4 ≤ bsize) :
    (b.setWord off v).word off = v % 2 ^ 32 := by
  have e0 : (b.setWord off v).byte off = v % 256 := by
    unfold Block.setWord
    rw [byte_setByte_of_ne _ _ (by omega), byte_setByte_of_ne _ _ (by omega),
      byte_setByte_of_ne _ _ (by omega), byte_setByte _ _ (by omega)]
  have e1 : (b.setWord off v).byte (off + 1) = v / 256 % 256 := by
    unfold Block.setWord
    rw [byte_setByte_of_ne _ _ (by omega), byte_setByte_of_ne _ _ (by omega),
      byte_setByte _ _ (by omega)]
  have e2 : (b.setWord off v).byte (off + 2) = v / 65536 % 256 := by
    unfold Block.setWord
    rw [byte_setByte_of_ne _ _ (by omega), byte_setByte _ _ (by omega)]
  have e3 : (b.setWord off v).byte (off + 3) = v / 16777216 % 256 := by
    unfold Block.setWord
    rw [byte_setByte _ _ (by omega)]
  unfold Block.word
  rw [e0, e1, e2, e3]
  omega

/-- A word that does not overlap the stored one is unchanged. -/
lemma Block.word_setWord_of_disjoint (b : Block) {off i : Nat} (v : Nat)
    (h : i + 4 ≤ off ∨ off + 4 ≤ i) : (b.setWord off v).word i = b.word i := by
  unfold Block.word
  rw [byte_setWord_of_disjoint _ _ (by omega), byte_setWord_of_disjoint _ _ (by omega),
    byte_setWord_of_disjoint _ _ (by omega), byte_setWord_of_disjoint _ _ (by omega)]

/-! ## Runs of words, runs of bytes and bits -/

/-- Store `n` words from a byte offset of a block on. -/
def Block.putWords (b : Block) (off n : Nat) (f : Nat → Nat) : Block := fun j =>
  if off ≤ j.val ∧ j.val < off + 4 * n then
    UInt8.ofNat (f ((j.val - off) / 4) / 256 ^ ((j.val - off) % 4))
  else b j

/-- The `n` bytes from an offset of a block on. -/
def Block.slice (b : Block) (off n : Nat) : List UInt8 :=
  (List.range n).map fun j => UInt8.ofNat (b.byte (off + j))

/-- Store bytes from an offset of a block on. -/
def Block.splice (b : Block) (off : Nat) (bs : List UInt8) : Block := fun j =>
  if off ≤ j.val then bs[j.val - off]?.getD (b j) else b j

/-- The `i`-th bit of a block. -/
def Block.bit (b : Block) (i : Nat) : Bool := (b.byte (i / 8)).testBit (i % 8)

/-- Set a bit of a block: `data[i/8] |= 1 << (i % 8)`. -/
def Block.setBit (b : Block) (i : Nat) : Block :=
  b.setByte (i / 8) (b.byte (i / 8) ||| 1 <<< (i % 8))

/-- Clear a bit of a block: `data[i/8] &= ~(1 << (i % 8))`. -/
def Block.clearBit (b : Block) (i : Nat) : Block :=
  b.setByte (i / 8) (b.byte (i / 8) &&& (255 ^^^ 1 <<< (i % 8)))

lemma Block.byte_eq (b : Block) {i : Nat} (h : i < bsize) : b.byte i = (b ⟨i, h⟩).toNat := by
  rw [Block.byte, dif_pos h]

lemma Block.byte_putWords (b : Block) {off n i : Nat} (f : Nat → Nat) (hi : i < bsize)
    (h : off ≤ i ∧ i < off + 4 * n) :
    (b.putWords off n f).byte i = f ((i - off) / 4) / 256 ^ ((i - off) % 4) % 256 := by
  rw [Block.byte_eq _ hi, Block.putWords, if_pos h]
  exact UInt8.toNat_ofNat'

lemma Block.byte_putWords_of_disjoint (b : Block) {off n i : Nat} (f : Nat → Nat)
    (h : i < off ∨ off + 4 * n ≤ i) : (b.putWords off n f).byte i = b.byte i := by
  by_cases hi : i < bsize
  · rw [Block.byte_eq _ hi, Block.byte_eq _ hi, Block.putWords,
      if_neg (show ¬ (off ≤ i ∧ i < off + 4 * n) by omega)]
  · rw [Block.byte, Block.byte, dif_neg hi, dif_neg hi]

/-- The `w`-th word of the run reads back what was stored. -/
lemma Block.word_putWords (b : Block) {off n w : Nat} (f : Nat → Nat) (hw : w < n)
    (hfit : off + 4 * n ≤ bsize) :
    (b.putWords off n f).word (off + 4 * w) = f w % 2 ^ 32 := by
  have hbyte : ∀ j < 4, (b.putWords off n f).byte (off + 4 * w + j) = f w / 256 ^ j % 256 := by
    intro j hj
    rw [Block.byte_putWords b f (by omega) (by omega),
      show (off + 4 * w + j - off) / 4 = w by omega, show (off + 4 * w + j - off) % 4 = j by omega]
  have h0 := hbyte 0 (by omega)
  have h1 := hbyte 1 (by omega)
  have h2 := hbyte 2 (by omega)
  have h3 := hbyte 3 (by omega)
  unfold Block.word
  rw [Nat.add_zero] at h0
  rw [h0, h1, h2, h3]
  norm_num
  omega

lemma Block.word_putWords_of_disjoint (b : Block) {off n i : Nat} (f : Nat → Nat)
    (h : i + 4 ≤ off ∨ off + 4 * n ≤ i) : (b.putWords off n f).word i = b.word i := by
  unfold Block.word
  rw [byte_putWords_of_disjoint _ _ (by omega), byte_putWords_of_disjoint _ _ (by omega),
    byte_putWords_of_disjoint _ _ (by omega), byte_putWords_of_disjoint _ _ (by omega)]

lemma Block.byte_zero (i : Nat) : Block.zero.byte i = 0 := by
  unfold Block.byte
  split <;> rfl

lemma Block.word_zero (i : Nat) : Block.zero.word i = 0 := by simp [Block.word, Block.byte_zero]

lemma Block.byte_splice (b : Block) {off i : Nat} {bs : List UInt8} (hi : i < bsize)
    (h : off ≤ i ∧ i < off + bs.length) : (b.splice off bs).byte i = (bs.getD (i - off) 0).toNat := by
  have hlt : i - off < bs.length := by omega
  rw [Block.byte_eq _ hi, Block.splice, if_pos h.1, List.getD_eq_getElem _ _ hlt]
  show (bs[i - off]?.getD _).toNat = _
  rw [List.getElem?_eq_getElem hlt]
  rfl

lemma Block.byte_splice_of_disjoint (b : Block) {off i : Nat} {bs : List UInt8}
    (h : i < off ∨ off + bs.length ≤ i) : (b.splice off bs).byte i = b.byte i := by
  by_cases hi : i < bsize
  · rw [Block.byte_eq _ hi, Block.byte_eq _ hi, Block.splice]
    split
    next hle =>
      have hge : bs.length ≤ i - off := by
        have : off ≤ i := hle
        omega
      show (bs[i - off]?.getD _).toNat = _
      rw [List.getElem?_eq_none hge]
      rfl
    next => rfl
  · rw [Block.byte, Block.byte, dif_neg hi, dif_neg hi]

lemma Block.bit_setBit (b : Block) {i : Nat} (j : Nat) (hi : i < 8 * bsize) :
    (b.setBit i).bit j = (b.bit j || decide (j = i)) := by
  unfold Block.bit Block.setBit
  by_cases hbyte : j / 8 = i / 8
  · have hlt := b.byte_lt (i / 8)
    have hor : b.byte (i / 8) ||| 1 <<< (i % 8) < 256 := by
      refine Nat.or_lt_two_pow (n := 8) hlt ?_
      rw [Nat.shiftLeft_eq, Nat.one_mul]
      exact Nat.pow_lt_pow_right (by omega) (by omega)
    have hji : (i % 8 = j % 8) = (j = i) := by
      apply propext
      omega
    rw [hbyte, byte_setByte _ _ (by omega), Nat.mod_eq_of_lt hor, Nat.testBit_or, Nat.shiftLeft_eq,
      Nat.one_mul, Nat.testBit_two_pow]
    simp only [hji]
  · rw [byte_setByte_of_ne _ _ hbyte]
    have hne : j ≠ i := fun hc => hbyte (by rw [hc])
    simp [hne]

lemma Block.bit_clearBit (b : Block) {i : Nat} (j : Nat) (hi : i < 8 * bsize) :
    (b.clearBit i).bit j = (b.bit j && decide (j ≠ i)) := by
  unfold Block.bit Block.clearBit
  by_cases hbyte : j / 8 = i / 8
  · have hlt := b.byte_lt (i / 8)
    have hand : b.byte (i / 8) &&& (255 ^^^ 1 <<< (i % 8)) < 256 :=
      Nat.lt_of_le_of_lt Nat.and_le_left hlt
    have hji : (i % 8 = j % 8) = (j = i) := by
      apply propext
      omega
    have hmask : Nat.testBit 255 (j % 8) = true := by
      have : j % 8 < 8 := by omega
      interval_cases j % 8 <;> decide
    rw [hbyte, byte_setByte _ _ (by omega), Nat.mod_eq_of_lt hand, Nat.testBit_and, Nat.testBit_xor,
      Nat.shiftLeft_eq, Nat.one_mul, Nat.testBit_two_pow, hmask]
    simp only [hji]
    by_cases hne : j = i
    · simp [hne]
    · simp [hne]
  · rw [byte_setByte_of_ne _ _ hbyte]
    have hne : j ≠ i := fun hc => hbyte (by rw [hc])
    simp [hne]

end Xv6
