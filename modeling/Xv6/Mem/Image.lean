import Xv6.Mem.CopyExact

/-!
# The image of a program

What `exec` builds, without page tables: an `Image` has a size, the flags of its pages and
its bytes. The functions that `exec` calls are operations on it. `uvmalloc` adds pages of
zeros, `loadseg` and `copyout` write bytes, and `uvmclear` takes a page away from user code.
`Shows` connects the image to memory and a page table.
-/

namespace Xv6.Mem

open Function Lib

structure Image where
  size : Nat
  /-- The low bits of the entries, by page number. -/
  flags : Nat → Nat
  byte : Nat → UInt8

namespace Image

def empty : Image := ⟨0, fun _ => 0, fun _ => 0⟩

/-- Pages of zeros up to a size. -/
def grow (img : Image) (size flags : Nat) : Image where
  size := max img.size size
  flags := fun v => if v < pages img.size then img.flags v else flags
  byte := fun va => if va < 4096 * pages img.size then img.byte va else 0

/-- Bytes stored at an address. -/
def write (img : Image) (va : Nat) (bs : List UInt8) : Image :=
  { img with byte := blit img.byte va bs }

/-- Page `v` without `PTE_U`. -/
def guard (img : Image) (v : Nat) : Image :=
  { img with flags := update img.flags v (img.flags v &&& (1023 - pteU)) }

/-- User code can use the address. -/
def User (img : Image) (va : Nat) : Prop :=
  va < 4096 * pages img.size ∧ img.flags (va / 4096) &&& pteU ≠ 0

end Image

/-- The image in memory, by the page table in page `r`. -/
structure Shows (s : Phys) (r : Nat) (img : Image) : Prop where
  user : UserPages (fun v => pteAt s.mem r v) (pages img.size)
  flags : ∀ {v}, v < pages img.size → pteAt s.mem r v % 1024 = img.flags v
  byte : ∀ {va}, va < 4096 * pages img.size →
    s.mem (physAddr (fun v => pteAt s.mem r v) va) = img.byte va

section

variable [Layout] {s s' : Phys} {R : Tag → Option Nat} {o o' : Nat → Owner} {t : Tag} {r : Nat}
variable {img : Image}

section

omit [Layout]

lemma div_lt_of_lt {va n : Nat} (h : va < 4096 * n) : va / 4096 < n := by omega

/-- Nothing of the image changes. -/
lemma Shows.congr (hi : Shows s r img)
    (hptes : ∀ v, v < pages img.size → pteAt s'.mem r v = pteAt s.mem r v)
    (hmem : ∀ v, v < pages img.size → Agree s.mem s'.mem (pteAt s.mem r v / 1024))
    (hp : UserPages (fun v => pteAt s'.mem r v) (pages img.size)) : Shows s' r img := by
  refine ⟨hp, fun hv => ?_, fun {va} hva => ?_⟩
  · rw [hptes _ hv]
    exact hi.flags hv
  · have hv := div_lt_of_lt hva
    rw [← hi.byte hva]
    simp only [physAddr, hptes _ hv]
    exact hmem _ hv _ (by omega)

lemma flags_and (w : Nat) {b : Nat} (hb : b < 1024) : w % 1024 &&& b = w &&& b := by
  have h := Nat.and_mod_two_pow (a := w) (b := b) (n := 10)
  rw [Nat.mod_eq_of_lt hb, Nat.mod_eq_of_lt (Nat.and_le_right.trans_lt hb)] at h
  exact h.symm

/-- User code sees of the table what it sees of the image. -/
lemma Shows.visible_iff (hi : Shows s r img) (hs : Sealed fun v => pteAt s.mem r v) {va : Nat} :
    Visible (fun v => pteAt s.mem r v) va ↔ img.User va := by
  constructor
  · intro hv
    have hlt := hv.vpn_lt
    have hu : UserVpn (va / 4096) := by
      by_contra hfixed
      exact hv.2.2 (hs _ hlt hfixed)
    have hpage : va / 4096 < pages img.size := by
      by_contra hge
      have hnone := hi.user.unmapped hu (by omega)
      rw [pteKid_of_valid hv.2.1] at hnone
      cases hnone
    refine ⟨by omega, ?_⟩
    rw [← hi.flags hpage, flags_and _ (by decide)]
    exact hv.2.2
  · rintro ⟨hva, huser⟩
    have hpage := div_lt_of_lt hva
    have hmod : pteAt s.mem r (va / 4096) % 4 = 3 := hi.user.mapped hpage
    rw [← hi.flags hpage, flags_and _ (by decide)] at huser
    refine ⟨?_, ?_, huser⟩
    · have hle := hi.user.le
      unfold trapframeVpn at hle
      unfold maxVa
      omega
    · rw [and_pteV]
      dsimp only
      omega

lemma pages_mul (n : Nat) : pages (4096 * n) = n := by
  unfold pages
  omega

/-- The last page belongs to the image as a whole. -/
lemma Shows.roundUp (hi : Shows s r img) :
    Shows s r { img with size := 4096 * pages img.size } := by
  refine ⟨?_, fun hv => hi.flags ?_, fun hva => hi.byte ?_⟩
  · show UserPages _ (pages (4096 * pages img.size))
    rw [pages_mul]
    exact hi.user
  · rwa [pages_mul] at hv
  · rwa [pages_mul] at hva

end

/-- The page behind an address of the image. -/
lemma Shows.owner (hi : Shows s r img) (h : Heap s R o) (hR : R t = some r) {v : Nat}
    (hv : v < pages img.size) : o (pteAt s.mem r v / 1024) = .user t v :=
  (h.user hR (hi.user.userVpn hv)).mp (hi.user.kid hv)

/-- Different addresses of the image are at different places in memory. -/
lemma Shows.physAddr_inj (hi : Shows s r img) (h : Heap s R o) (hR : R t = some r) {va va' : Nat}
    (hva : va < 4096 * pages img.size) (hva' : va' < 4096 * pages img.size)
    (he : physAddr (fun v => pteAt s.mem r v) va = physAddr (fun v => pteAt s.mem r v) va') :
    va = va' := by
  have hpage : pteAt s.mem r (va / 4096) / 1024 = pteAt s.mem r (va' / 4096) / 1024 := by
    rw [← physAddr_page (f := fun v => pteAt s.mem r v) va, he, physAddr_page]
  have howner := hi.owner h hR (div_lt_of_lt hva)
  rw [hpage, hi.owner h hR (div_lt_of_lt hva')] at howner
  have hvpn : va' / 4096 = va / 4096 := (Owner.user.inj howner).2
  unfold physAddr at he
  omega

/-! ## The operations -/

/-- `uvmalloc`. -/
lemma Shows.grow (hi : Shows s r img) (h : Heap s R o) (hR : R t = some r) {newsz xperm : Nat}
    (hx : xperm < 1024) (hch : Changed R t r (pages img.size) s o s' o')
    (hp : UserPages (fun v => pteAt s'.mem r v) (pages (max img.size newsz)))
    (hg : Granted (fun v => pteAt s'.mem r v) (pteR ||| pteU ||| xperm) (pages img.size)
      (pages (max img.size newsz)))
    (hz : Zeroed s'.mem r (pages img.size) (pages (max img.size newsz))) :
    Shows s' r (img.grow newsz (pteR ||| pteU ||| xperm ||| pteV)) := by
  have hperm : pteR ||| pteU ||| xperm < 1024 := Nat.or_lt_two_pow (n := 10) (by decide) hx
  have hkeep : ∀ {v}, v < pages img.size → pteAt s'.mem r v = pteAt s.mem r v := fun hv =>
    hch.ptes (hi.user.userVpn hv).1 (.inl hv)
  refine ⟨hp, fun {v} hv => ?_, fun {va} hva => ?_⟩
  · show _ = if v < pages img.size then _ else _
    split
    next hlt =>
      rw [hkeep hlt]
      exact hi.flags hlt
    next hge =>
      obtain ⟨q, hq⟩ := hg v (by omega) hv
      dsimp only at hq
      rw [hq]
      exact leafPte_mod hperm
  · show _ = if va < 4096 * pages img.size then _ else _
    split
    next hlt =>
      have hv := div_lt_of_lt hlt
      rw [← hi.byte hlt]
      simp only [physAddr, hkeep hv]
      exact hch.mem hv (hi.owner h hR hv) _ (by omega)
    next hge =>
      exact hz (va / 4096) (by omega) (div_lt_of_lt hva) _ (physAddr_page va)

/-- Bytes that are stored through the table, all of them where user code could. -/
lemma Shows.write (hi : Shows s r img) (h : Heap s R o) (hR : R t = some r)
    (hs : Sealed fun v => pteAt s.mem r v) {va : Nat} {bs : List UInt8}
    (hc : Copied (fun v => pteAt s.mem r v) va bs s.mem s'.mem) (hp : Poked R t s o s')
    (hall : ∀ i, i < bs.length → img.User (va + i)) : Shows s' r (img.write va bs) := by
  have hvis : ∀ {i}, i < bs.length → Visible (fun v => pteAt s.mem r v) (va + i) := fun {i} hlt =>
    (hi.visible_iff hs).mpr (hall i hlt)
  have hreach : ∀ {i}, i < bs.length → Reached (fun v => pteAt s.mem r v) va i := fun hlt j hj =>
    hvis (by omega)
  have hptes : ∀ v, v < 512 ^ 3 → pteAt s'.mem r v = pteAt s.mem r v := fun v hv => hp.ptes h hR hv
  have hlt : ∀ {v}, v < pages img.size → v < 512 ^ 3 := fun hv => (hi.user.userVpn hv).1
  refine ⟨hi.user.congr fun v hv _ => hptes v hv, fun hv => ?_, fun {x} hx => ?_⟩
  · rw [hptes _ (hlt hv)]
    exact hi.flags hv
  · have hx' : x < 4096 * pages img.size := hx
    have haddr : physAddr (fun v => pteAt s'.mem r v) x = physAddr (fun v => pteAt s.mem r v) x := by
      simp only [physAddr, hptes _ (hlt (div_lt_of_lt hx'))]
    show _ = blit img.byte va bs x
    rw [haddr, blit]
    split
    next hin =>
      have hstored := hc.stored (i := x - va) (by omega) (hreach (by omega))
      have hsum : va + (x - va) = x := by omega
      rwa [hsum] at hstored
    next hout =>
      rw [← hi.byte hx']
      refine hc.kept fun i hlt _ he => hout ?_
      have := hi.physAddr_inj h hR (hall i hlt).1 hx' he
      omega

/-- `uvmclear`. -/
lemma Shows.guard (hi : Shows s r img) (h : Heap s R o) (hR : R t = some r) {v : Nat}
    (hptes : ∀ v', v' < 512 ^ 3 → pteAt s'.mem r v' =
      if v' = v then pteAt s.mem r v &&& (2 ^ 64 - 1 - pteU) else pteAt s.mem r v')
    (hmem : ∀ q, (∀ d x, o q ≠ .table t d x) → Agree s.mem s'.mem q) (hv : v < pages img.size)
    (hp : UserPages (fun v => pteAt s'.mem r v) (pages img.size)) : Shows s' r (img.guard v) := by
  have hlt : ∀ {v'}, v' < pages img.size → v' < 512 ^ 3 := fun hv' => (hi.user.userVpn hv').1
  have hpage : ∀ {v'}, v' < pages img.size →
      pteAt s'.mem r v' / 1024 = pteAt s.mem r v' / 1024 := by
    intro v' hv'
    rw [hptes v' (hlt hv')]
    split
    next he =>
      rw [he, clearU_div]
      exact pteAt_lt ..
    next => rfl
  refine ⟨hp, fun {v'} hv' => ?_, fun {va} hva => ?_⟩
  · rw [hptes v' (hlt hv')]
    show _ = update img.flags v _ v'
    by_cases he : v' = v
    · subst he
      rw [if_pos rfl, update_self, ← hi.flags hv]
      exact Nat.and_mod_two_pow (n := 10)
    · rw [if_neg he, update_of_ne he]
      exact hi.flags hv'
  · have hva' : va < 4096 * pages img.size := hva
    have hv' := div_lt_of_lt hva'
    show _ = img.byte va
    rw [← hi.byte hva']
    simp only [physAddr, hpage hv']
    refine hmem (pteAt s.mem r (va / 4096) / 1024) ?_ _ (by omega)
    rw [hi.owner h hR hv']
    rintro d x ⟨⟩

end

end Xv6.Mem
