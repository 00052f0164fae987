import Xv6.Pipe
import Xv6.Process.UserCopy

/-!
# What a read takes from a pipe

`piperead` with the `copyout` of `kernel/vm.c`, for a buffer that may be mapped in part
or not at all. The loop takes a byte from the ring before it knows that the byte can be
stored, so a byte that meets a page that is not there is gone: the ring has moved by one
more than the call reports.
-/

namespace Xv6.Process

open Lib Mem Pipe

/-- The second loop of `piperead` before byte `i`, with `k` bytes to go: the number of
bytes and the ring. -/
def pipereadRounds (pagetable addr : Nat) : Nat → Nat → RingBuf UInt8 → PhysM (Nat × RingBuf UInt8)
  | 0, i, x => pure (i, x)
  | k + 1, i, x =>
    if x.nread = x.nwrite then pure (i, x)
    else do
      let ch := x.front shape
      let x := x.pop shape
      let r ← copyout pagetable ((addr + i) % 2 ^ 64) [ch]
      if r = -1 then pure (i, x) else pipereadRounds pagetable addr k (i + 1) x

/-- `piperead` with the lock, up to where it sleeps or returns: what it returns and the
ring, or nothing if it sleeps. -/
def piperead (x : RingBuf UInt8) (writeopen killed : Bool) (pagetable addr : Nat) (n : Int) :
    PhysM (Option (Int × RingBuf UInt8)) :=
  if x.nread = x.nwrite ∧ writeopen = true then
    if killed then pure (some (-1, x)) else pure none
  else do
    let (i, x) ← pipereadRounds pagetable addr n.toNat 0 x
    pure (some (i, x))

/-- By how much `nread` has grown. -/
def consumed (x x' : RingBuf UInt8) : Nat := (x'.nread + 2 ^ 32 - x.nread) % 2 ^ 32

variable {s s₀ : Phys} {pagetable addr : Nat} {x x' : RingBuf UInt8}

/-! ## One byte -/

lemma copyout_byte (s : Phys) (pagetable va : Nat) (b : UInt8) :
    Returns (copyout pagetable va [b]) s fun r s' =>
      userAddr s pagetable va = none ∧ r = -1 ∧ s' = s ∨
      ∃ a, userAddr s pagetable va = some a ∧ r = 0 ∧ s' = s.withMem (blit s.mem a [b]) := by
  have hpage : mapping s pagetable (pgRoundDown va) = mapping s pagetable va :=
    mapping_page (by rw [pgRoundDown_eq]; omega)
  have hoff : va - pgRoundDown va = va % 4096 := sub_pgRoundDown va
  have hlt := Nat.mod_lt va (show 0 < 4096 by decide)
  show Returns (copyoutRounds pagetable 1 va [b]) s _
  rw [copyoutRounds, if_neg (by simp)]
  refine returns_bind_of_eq (walkaddr_eq s pagetable _) ?_
  rw [hpage, hoff]
  unfold userAddr
  cases mapping s pagetable va with
  | none => exact returns_pure (.inl ⟨rfl, rfl, rfl⟩)
  | some pte =>
    dsimp only
    by_cases hpte : pte &&& pteU = 0 ∨ pte2pa pte = 0
    · have hzero : (if pte &&& pteU = 0 then 0 else pte2pa pte) = 0 := by
        rcases hpte with hu | hpa
        · exact if_pos hu
        · rw [hpa, ite_self]
      rw [if_pos hzero, if_pos hpte]
      exact returns_pure (.inl ⟨rfl, rfl, rfl⟩)
    · obtain ⟨hu, hpa⟩ := not_or.mp hpte
      have hmin : min (pgSize - va % 4096) [b].length = 1 := by
        rw [List.length_singleton]
        unfold pgSize
        omega
      simp only [if_neg hpte, if_neg hu, if_neg hpa, hmin]
      exact ⟨0, _, rfl, .inr ⟨_, rfl, rfl, rfl⟩⟩

/-- A byte of user code is stored. -/
lemma UserWritten.byte {a va : Nat} (hw : UserWritten s₀ pagetable s)
    (ha : userAddr s₀ pagetable va = some a)
    (b : UInt8) : UserWritten s₀ pagetable (s.withMem (Mem.blit s.mem a [b])) := by
  refine ⟨hw.1, fun y hy => ?_⟩
  show Mem.blit s.mem a [b] y = _
  rw [Mem.blit, if_neg, hw.2 y hy]
  rintro ⟨hlo, hhi⟩
  rw [List.length_singleton] at hhi
  obtain rfl : y = a := by omega
  exact hy va ha

/-! ## The loop -/

/-- What the loop has done when it began before byte `i` and ends before byte `i'`: it has
taken `g` bytes, all it could, or the last one had no place. -/
def Took (s₀ : Phys) (pagetable addr k i : Nat) (x : RingBuf UInt8) (i' : Nat)
    (x' : RingBuf UInt8) : Prop :=
  ∃ g ≤ min k (x.count shape), x' = (RingBuf.pop shape)^[g] x ∧
    (i' = i + g ∧ g = min k (x.count shape) ∧
        (∀ j, i ≤ j → j < i + g → userAddr s₀ pagetable ((addr + j) % 2 ^ 64) ≠ none) ∨
      i' + 1 = i + g ∧ i ≤ i' ∧ userAddr s₀ pagetable ((addr + i') % 2 ^ 64) = none)

lemma pipereadRounds_spec (ha : Apart s₀ pagetable) {k i : Nat} (hx : x.Ok shape)
    (hw : UserWritten s₀ pagetable s) :
    Returns (pipereadRounds pagetable addr k i x) s fun r _ => Took s₀ pagetable addr k i x r.1 r.2 := by
  induction k generalizing i x s with
  | zero => exact returns_pure ⟨0, Nat.zero_le _, rfl, .inl ⟨rfl, (Nat.zero_min _).symm, by omega⟩⟩
  | succ k ih =>
    rw [pipereadRounds]
    split
    next hempty =>
      have hcount := hx.nread_eq_nwrite_iff.mp hempty
      exact returns_pure ⟨0, Nat.zero_le _, rfl, .inl ⟨rfl, by rw [hcount, Nat.min_zero], by omega⟩⟩
    next hmore =>
      have hpos : 0 < x.count shape := Nat.pos_of_ne_zero fun hz => hmore (hx.nread_eq_nwrite_iff.mpr hz)
      have hpop := hx.count_pop hpos
      have haddr := ha.userAddr hw ((addr + i) % 2 ^ 64)
      refine (copyout_byte s pagetable _ _).bind fun r t ht => ?_
      rcases ht with ⟨hnone, rfl, rfl⟩ | ⟨a, hsome, rfl, rfl⟩
      · rw [if_pos rfl]
        refine returns_pure ⟨1, by omega, rfl, .inr ⟨rfl, Nat.le_refl i, ?_⟩⟩
        rw [← haddr]
        exact hnone
      · rw [haddr] at hsome
        rw [if_neg (by decide)]
        refine (ih (hx.pop hpos) (hw.byte hsome _)).mono fun r _ ⟨g, hg, hring, hend⟩ => ?_
        refine ⟨g + 1, by omega, hring, ?_⟩
        rcases hend with ⟨hi, hall, hmapped⟩ | ⟨hi, hle, hnone⟩
        · refine .inl ⟨by omega, by omega, fun j hj hj' => ?_⟩
          rcases Nat.eq_or_lt_of_le hj with rfl | hlt
          · rw [hsome]
            simp
          · exact hmapped j hlt (by omega)
        · exact .inr ⟨by omega, by omega, hnone⟩

/-! ## The whole call -/

lemma nread_pop_iterate (x : RingBuf UInt8) (g : Nat) (hx : x.nread < 2 ^ 32) :
    ((RingBuf.pop shape)^[g] x).nread = (x.nread + g) % 2 ^ 32 := by
  induction g with
  | zero => exact (Nat.mod_eq_of_lt hx).symm
  | succ g ih =>
    rw [Function.iterate_succ_apply']
    show (((RingBuf.pop shape)^[g] x).nread + 1) % 2 ^ 32 = _
    rw [ih]
    omega

lemma consumed_iterate {g : Nat} (hx : x.Ok shape) (hg : g ≤ x.count shape) :
    consumed x ((RingBuf.pop shape)^[g] x) = g := by
  have hlt : x.nread < 2 ^ 32 := hx.nread_lt
  have hcount : x.count shape ≤ 512 := hx.count_le
  unfold consumed
  rw [nread_pop_iterate x g hlt]
  omega

/-- A call of `piperead` removes as many bytes as it reports if and only if every byte that
it could take has a place in the buffer. -/
theorem piperead_consumes_iff (ha : Apart s pagetable) (hx : x.Ok shape) (writeopen killed : Bool)
    (addr : Nat)
    (n : Int) :
    Returns (piperead x writeopen killed pagetable addr n) s fun out _ =>
      ∀ i x', out = some (i, x') → 0 ≤ i →
        ((consumed x x' : Int) = i ↔
          ∀ j < min n.toNat (x.count shape), userAddr s pagetable ((addr + j) % 2 ^ 64) ≠ none) := by
  unfold piperead
  split
  next =>
    split
    · refine returns_pure fun i x' hout hi => ?_
      cases hout
      omega
    · exact returns_pure nofun
  next =>
    refine (pipereadRounds_spec ha hx (.refl s pagetable)).bind fun r _ htook => returns_pure ?_
    rintro i x' hout -
    cases hout
    obtain ⟨g, hg, hring, hend⟩ := htook
    rw [hring, consumed_iterate hx (by omega)]
    rcases hend with ⟨hi, hall, hmapped⟩ | ⟨hi, -, hnone⟩
    · have heq : (g : Int) = r.1 := by omega
      refine ⟨fun _ j hj => hmapped j (Nat.zero_le j) (by omega), fun _ => heq⟩
    · refine ⟨fun heq => by omega, fun hmapped => absurd hnone (hmapped _ (by omega))⟩

/-- One byte in the pipe. -/
def oneByte : RingBuf UInt8 := ⟨fun _ => 7, 0, 1⟩

lemma oneByte_ok : oneByte.Ok shape := ⟨by decide, by decide, by decide⟩

theorem piperead_consumes_iff_mapped :
    Returns (piperead oneByte true false 0x1000 0 1) (onePage 4) fun out _ =>
      ∀ i x', out = some (i, x') → 0 ≤ i → (consumed oneByte x' : Int) = i := by
  refine (piperead_consumes_iff apart_onePage oneByte_ok true false 0 1).mono fun out _ h i x' hout hi =>
    (h i x' hout hi).mpr fun j hj => ?_
  obtain rfl : j = 0 := by
    have hlt : j < 1 := Nat.lt_of_lt_of_le hj (Nat.min_le_left _ _)
    omega
  decide +kernel

/-- What a read of one byte to the page that is not there returns, and what it takes. -/
def readOutside : Option (Int × Nat) :=
  match piperead oneByte true false 0x1000 4096 1 (onePage 4) with
  | .ok (some (i, x'), _) => some (i, consumed oneByte x')
  | _ => none

/-- The call returns 0, and the byte is gone. -/
theorem piperead_loses_byte : oneByte.Ok shape ∧ Apart (onePage 4) 0x1000 ∧ readOutside = some (0, 1) :=
  ⟨oneByte_ok, apart_onePage, by decide +kernel⟩

end Xv6.Process
