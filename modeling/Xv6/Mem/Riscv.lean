import Xv6.Param

/-!
# Pages and page-table entries

The constants and macros of `kernel/riscv.h` and `kernel/memlayout.h`, and the
addresses that the linker fixes. Addresses and entries are `uint64` values, kept
as natural numbers below `2 ^ 64`.
-/

namespace Xv6.Mem

/-- `PGSIZE`. -/
def pgSize : Nat := 4096

/-- `MAXVA`, one bit less than Sv39 allows. -/
def maxVa : Nat := 2 ^ 38

/-- `KERNBASE`. -/
def kernBase : Nat := 0x80000000

/-- `PHYSTOP`. -/
def physTop : Nat := kernBase + 128 * 1024 * 1024

/-- `TRAMPOLINE`, the highest page of every address space. -/
def trampolineVa : Nat := maxVa - pgSize

/-- `TRAPFRAME`, the page below it. -/
def trapframeVa : Nat := trampolineVa - pgSize

/-- `PGROUNDUP`. -/
def pgRoundUp (sz : Nat) : Nat := (sz + pgSize - 1) % 2 ^ 64 / pgSize * pgSize

/-- `PGROUNDDOWN`. -/
def pgRoundDown (a : Nat) : Nat := a / pgSize * pgSize

/-! ## Page-table entries -/

/-- Valid. -/
def pteV : Nat := 1
def pteR : Nat := 2
def pteW : Nat := 4
def pteX : Nat := 8
/-- User code may use the page. -/
def pteU : Nat := 16

/-- `PA2PTE`. -/
def pa2pte (pa : Nat) : Nat := (pa >>> 12) <<< 10

/-- `PTE2PA`. -/
def pte2pa (pte : Nat) : Nat := ((pte >>> 10) <<< 12) % 2 ^ 64

/-- `PTE_FLAGS`. -/
def pteFlags (pte : Nat) : Nat := pte &&& 0x3FF

/-- `PX`, the 9-bit index of an address at a level. -/
def px (level va : Nat) : Nat := (va >>> (12 + 9 * level)) &&& 0x1FF

/-- What the linker decides. -/
class Layout where
  /-- `end`, the first address after the kernel. -/
  kend : Nat
  /-- `trampoline`, the page of kernel text that is mapped at `TRAMPOLINE`. -/
  trampoline : Nat
  kend_le : kend ≤ physTop
  trampoline_aligned : trampoline % pgSize = 0
  /-- The kernel is linked at `KERNBASE`. -/
  trampoline_ge : kernBase ≤ trampoline
  /-- The trampoline page is kernel text. -/
  trampoline_le : trampoline + pgSize ≤ kend

lemma kernBase_aligned : kernBase % pgSize = 0 := by decide

/-! ## The macros as arithmetic -/

lemma pa2pte_page (q : Nat) : pa2pte (4096 * q) = 1024 * q := by
  simp only [pa2pte, Nat.shiftRight_eq_div_pow, Nat.shiftLeft_eq]
  omega

lemma pte2pa_eq (pte : Nat) : pte2pa pte = 4096 * (pte / 1024) % 2 ^ 64 := by
  simp only [pte2pa, Nat.shiftRight_eq_div_pow, Nat.shiftLeft_eq]
  rw [Nat.mul_comm]

lemma pteFlags_eq (pte : Nat) : pteFlags pte = pte % 1024 :=
  Nat.and_two_pow_sub_one_eq_mod pte 10

lemma and_pteV (pte : Nat) : pte &&& pteV = pte % 2 :=
  Nat.and_two_pow_sub_one_eq_mod pte 1

lemma px_eq (level va : Nat) : px level va = va / 2 ^ (12 + 9 * level) % 512 := by
  rw [px, Nat.shiftRight_eq_div_pow]
  exact Nat.and_two_pow_sub_one_eq_mod _ 9

/-- An entry built from a page and flags. -/
lemma or_flags {q f : Nat} (hf : f < 1024) : 1024 * q ||| f = 1024 * q + f :=
  (Nat.two_pow_add_eq_or_of_lt (i := 10) hf q).symm

lemma pgRoundDown_page {v k : Nat} (hk : k < 4096) : pgRoundDown (4096 * v + k) = 4096 * v := by
  unfold pgRoundDown pgSize
  omega

/-- `PGROUNDUP` in pages, for sizes that do not wrap. -/
lemma pgRoundUp_eq {sz : Nat} (h : sz + 4095 < 2 ^ 64) :
    pgRoundUp sz = 4096 * ((sz + 4095) / 4096) := by
  unfold pgRoundUp pgSize
  omega

end Xv6.Mem
