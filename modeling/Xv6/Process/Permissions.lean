import Xv6.Process.Safety

/-!
# `copyout` and the permissions of pages

`exec` maps the text of a program without `PTE_W`, by `flags2perm`. `copyout`
asks `walkaddr` for the page, and `walkaddr` looks at `PTE_V` and `PTE_U` only.
So the kernel does write to read-only pages for a system call; it leaves them as
they are only when the bytes that it would store are there already.
-/

namespace Xv6.Process

open Lib Mem

variable [Layout] {s s' : Phys} {R : Tag → Option Nat} {o : Nat → Owner} {t : Tag}
variable {r n tf dstva : Nat} {src : List UInt8}

/-- No byte changes of a page that is mapped in the range of `len` bytes from
`dstva` on without `PTE_W`. -/
def ReadOnlyKept (s s' : Phys) (pagetable dstva len : Nat) : Prop :=
  ∀ i pte, i < len → mapping s pagetable ((dstva + i) % 2 ^ 64) = some pte → pte &&& pteW = 0 →
    ∀ k, k < pgSize → s'.mem (pte2pa pte + k) = s.mem (pte2pa pte + k)

/-- User code can read the first `i + 1` bytes of the range. -/
def UserRange (s : Phys) (pagetable dstva i : Nat) : Prop :=
  ∀ j, j ≤ i → ∃ pte, mapping s pagetable (dstva + j) = some pte ∧ pte &&& pteU ≠ 0

/-- Of the source bytes before the first page that user code cannot read, those
for a page without `PTE_W` are there already. -/
def SameOnReadOnly (s : Phys) (pagetable dstva : Nat) (src : List UInt8) : Prop :=
  ∀ i pte, i < src.length → UserRange s pagetable dstva i →
    mapping s pagetable (dstva + i) = some pte → pte &&& pteW = 0 →
    s.mem (pte2pa pte + (dstva + i) % pgSize) = src.getD i 0

omit [Layout] in
lemma mapping_ge {pagetable va : Nat} (h : va ≥ maxVa) : mapping s pagetable va = none := by
  have hzero : lookup s pagetable va = 0 := by
    rw [lookup, Mem.walk, if_pos h]
    rfl
  rw [mapping, hzero, if_pos (Nat.zero_and _)]

lemma mapping_some {va pte : Nat} (h : Heap s R o) (hR : R t = some r)
    (hm : mapping s (4096 * r) va = some pte) :
    va < maxVa ∧ pteAt s.mem r (va / 4096) = pte ∧ pte &&& pteV ≠ 0 := by
  by_cases hva : va < maxVa
  · rw [mapping_eq h hR hva] at hm
    split at hm
    next => cases hm
    next hvalid =>
      cases hm
      exact ⟨hva, rfl, hvalid⟩
  · rw [mapping_ge (by omega)] at hm
    cases hm

lemma visible_iff {va : Nat} (h : Heap s R o) (hR : R t = some r) :
    Visible (fun v => pteAt s.mem r v) va ↔
      ∃ pte, mapping s (4096 * r) va = some pte ∧ pte &&& pteU ≠ 0 := by
  constructor
  · intro hv
    refine ⟨pteAt s.mem r (va / 4096), ?_, hv.2.2⟩
    rw [mapping_eq h hR hv.1, if_neg hv.2.1]
  · rintro ⟨pte, hm, huser⟩
    obtain ⟨hva, hpte, hvalid⟩ := mapping_some h hR hm
    subst hpte
    exact ⟨hva, hvalid, huser⟩

lemma reached_iff {i : Nat} (h : Heap s R o) (hR : R t = some r) :
    Reached (fun v => pteAt s.mem r v) dstva i ↔ UserRange s (4096 * r) dstva i :=
  forall₂_congr fun _ _ => visible_iff h hR

/-- The page of a valid entry without `PTE_W` is that of a user page, or no page of
the allocator. -/
lemma readOnly_page {va pte : Nat} (h : Heap s R o) (hR : R t = some r)
    (hspace : Space (fun v => pteAt s.mem r v) n tf) (hm : mapping s (4096 * r) va = some pte)
    (hw : pte &&& pteW = 0) :
    pte2pa pte = 4096 * (pte / 1024) ∧
      (o (pte / 1024) = .user t (va / 4096) ∨ ¬ InArea (pte / 1024)) := by
  obtain ⟨hva, hpte, hvalid⟩ := mapping_some h hR hm
  have hlt : va / 4096 < 512 ^ 3 := by
    unfold maxVa at hva
    omega
  by_cases hu : UserVpn (va / 4096)
  · have hkid := pteKid_of_valid hvalid
    have hown : o (pte / 1024) = .user t (va / 4096) := (h.user hR hu).mp (by rw [hpte]; exact hkid)
    exact ⟨pte2pa_kid (h.inArea (by rw [hown]; rintro ⟨⟩)) hkid, .inl hown⟩
  · rcases fixed_cases hlt hu with hv | hv
    · -- the trapframe is writable
      have htf : leafPte tf (pteR ||| pteW) = pte := by
        rw [← hpte, hv]
        exact hspace.trapframe.symm
      have hmod := leafPte_mod (q := tf) (by decide : pteR ||| pteW < 1024)
      rw [htf] at hmod
      have hbits : pte % 1024 = 7 := hmod
      rw [and_pteW] at hw
      omega
    · have htramp : leafPte (Layout.trampoline / 4096) (pteR ||| pteX) = pte := by
        rw [← hpte, hv]
        exact hspace.trampoline.symm
      have hpage : pte / 1024 = Layout.trampoline / 4096 := by
        have := pteKid_leafPte (q := Layout.trampoline / 4096) (by decide : pteR ||| pteX < 1024)
        rw [htramp, pteKid_of_valid hvalid] at this
        exact Option.some.inj this
      have hsmall := trampoline_page_lt
      refine ⟨?_, .inr fun harea => ?_⟩
      · rw [pte2pa_eq, hpage]
        omega
      · obtain ⟨hlow, -⟩ := inArea_bounds harea
        have hle := Layout.trampoline_le
        rw [hpage] at hlow
        unfold pgSize at hle
        omega

/-- `copyout` keeps the read-only pages of its range exactly if it would store there
what they hold. -/
theorem copyout_readOnly_iff (h : Heap s R o) (hR : R t = some r)
    (hspace : Space (fun v => pteAt s.mem r v) n tf) (dstva : Nat) (src : List UInt8) :
    Returns (copyout (4096 * r) dstva src) s fun _ s' =>
      ReadOnlyKept s s' (4096 * r) dstva src.length ↔ SameOnReadOnly s (4096 * r) dstva src := by
  refine (copyout_exact h hR hspace.sealed dstva src).mono ?_
  rintro _ s' ⟨hcopied, -⟩
  constructor
  · intro hkept i pte hi hrange hm hw
    have hreach := (reached_iff h hR).mpr hrange
    obtain ⟨hva, hpte, -⟩ := mapping_some h hR hm
    obtain ⟨hpa, -⟩ := readOnly_page h hR hspace hm hw
    have haddr : physAddr (fun v => pteAt s.mem r v) (dstva + i) = pte2pa pte + (dstva + i) % pgSize := by
      rw [physAddr, hpte, hpa]
      rfl
    have hwrap : (dstva + i) % 2 ^ 64 = dstva + i := by
      unfold maxVa at hva
      omega
    rw [← hkept i pte hi (by rw [hwrap]; exact hm) hw _ (Nat.mod_lt _ (by decide)), ← haddr]
    exact hcopied.stored hi hreach
  · intro hsame i pte hi hm hw k hk
    obtain ⟨hva, hpte, -⟩ := mapping_some h hR hm
    obtain ⟨hpa, hpage⟩ := readOnly_page h hR hspace hm hw
    by_cases hhit : ∃ j, j < src.length ∧ Reached (fun v => pteAt s.mem r v) dstva j ∧
        physAddr (fun v => pteAt s.mem r v) (dstva + j) = pte2pa pte + k
    · obtain ⟨j, hj, hreach, haddr⟩ := hhit
      have hown := (hreach j (Nat.le_refl j)).owner h hR (fun _ _ => rfl) hspace.sealed
      have hsamePage : pteAt s.mem r ((dstva + j) / 4096) / 1024 = pte / 1024 := by
        rw [← physAddr_page (f := fun v => pteAt s.mem r v) (dstva + j), haddr, hpa]
        unfold pgSize at hk
        omega
      rw [hsamePage] at hown
      -- the page is a user page, so it is the one at `dstva + j`
      have hvpn : (dstva + i) % 2 ^ 64 / 4096 = (dstva + j) / 4096 := by
        rcases hpage with hown' | hout
        · rw [hown] at hown'
          exact ((Owner.user.inj hown').2).symm
        · exact absurd (h.inArea (by rw [hown]; rintro ⟨⟩)) hout
      obtain ⟨pte', hm', -⟩ := (reached_iff h hR).mp hreach j (Nat.le_refl j)
      obtain ⟨-, hpte', -⟩ := mapping_some h hR hm'
      obtain rfl : pte = pte' := by rw [← hpte, ← hpte', hvpn]
      have hoff : physAddr (fun v => pteAt s.mem r v) (dstva + j) =
          pte2pa pte + (dstva + j) % pgSize := by
        rw [physAddr, hpte', hpa]
        rfl
      rw [← haddr, hcopied.stored hj hreach, hoff]
      exact (hsame j pte hj ((reached_iff h hR).mp hreach) hm' hw).symm
    · exact hcopied.kept fun j hj hreach he => hhit ⟨j, hj, hreach, he⟩

/-! ## A page of text -/

/-- A kernel that leaves sixteen pages to the allocator. -/
@[reducible] def crowded : Layout where
  kend := physTop - 16 * pgSize
  trampoline := kernBase
  kend_le := by decide
  trampoline_aligned := kernBase_aligned
  trampoline_ge := Nat.le_refl kernBase
  trampoline_le := by decide

omit [Layout] in
/-- A machine of which the kernel takes none of the sixteen pages. -/
def Machine.sixteen : @Machine crowded :=
  letI := crowded
  { mem := fun _ => 0, count := 0, room := by decide, own := fun _ m => m,
    own_agree := fun _ _ _ _ _ => Agree.refl _ _ }

/-- The steps of `exec` for a program with one page of text: a page table with a
trapframe, and a segment with the flags of text, `R` and `X`. -/
def loadText : PhysM Nat := do
  kinit
  let trapframe ← kalloc
  let pagetable ← procPagetable trapframe
  let _ ← uvmalloc pagetable 0 pgSize (flags2perm 5)
  pure pagetable

/-- If `loadText` returns a table, it is that of a process. -/
lemma loadText_spec {m : Bytes} {pagetable : Nat} (h : loadText ⟨m, 0⟩ = .ok (pagetable, s))
    (hne : pagetable ≠ 0) : ∃ R o r n tf, pagetable = 4096 * r ∧ Heap s R o ∧ R (.proc 0) = some r ∧
      Space (fun v => pteAt s.mem r v) n tf := by
  unfold loadText at h
  obtain ⟨_, s₁, hk, o, h₁, -⟩ := kinit_spec m
  rw [bind_of_ok hk] at h
  obtain ⟨trapframe, s₂, ha, htake⟩ := kalloc_spec h₁
  rw [bind_of_ok ha] at h
  obtain ⟨tf, o₂, rfl, htf, h₂⟩ :
      ∃ tf o, trapframe = 4096 * tf ∧ tf < 2 ^ 40 ∧ Heap s₂ (fun _ => none) o := by
    rcases htake with ⟨rfl, rfl, -⟩ | ⟨q, rfl, -, hfree, -, h₂⟩
    · exact ⟨0, o, rfl, by decide, h₁⟩
    · obtain ⟨-, hlt⟩ := inArea_bounds (h₁.inArea (by rw [hfree]; nofun))
      refine ⟨q, _, rfl, ?_, h₂⟩
      unfold physTop kernBase at hlt
      omega
  obtain ⟨_, s₃, hp, hmade⟩ := procPagetable_spec (t := .proc 0) h₂ rfl htf
  rw [bind_of_ok hp] at h
  rcases hmade with ⟨rfl, -⟩ | ⟨r, o₃, rfl, -, hb, -, hspace⟩
  · -- without a table it returns 0
    change (uvmalloc 0 0 pgSize (flags2perm 5) s₃ >>= fun p => .ok (0, p.2)) = .ok (pagetable, s) at h
    cases hu : uvmalloc 0 0 pgSize (flags2perm 5) s₃ with
    | error e =>
      rw [hu] at h
      cases h
    | ok res =>
      rw [hu] at h
      cases h
      exact absurd rfl hne
  · have hR : Function.update (fun _ : Tag => none) (.proc 0) (some r) (.proc 0) = some r :=
      Function.update_self ..
    obtain ⟨_, s₄, hu, o₄, hch, hpages⟩ : Returns (uvmalloc (4096 * r) 0 pgSize (flags2perm 5)) s₃ _ :=
      uvmalloc_spec hb.heap hR hspace.user (by decide) (by decide)
    rw [bind_of_ok hu] at h
    cases h
    obtain ⟨n, hn⟩ : ∃ n, UserPages (fun v => pteAt s.mem r v) n := by
      rcases hpages with ⟨-, hn, -⟩ | ⟨-, hn⟩
      · exact ⟨_, hn⟩
      · exact ⟨_, hn⟩
    refine ⟨_, o₄, r, n, tf, rfl, hch.heap, hR, hn, ?_, ?_⟩
    · rw [hch.ptes trapframeVpn_lt (.inr not_userVpn_trapframe)]
      exact hspace.trapframe
    · rw [hch.ptes trampolineVpn_lt (.inr not_userVpn_trampoline)]
      exact hspace.trampoline

/-- `copyout` of one byte to address 0 changes a page there that is mapped without
`PTE_W`. -/
def textChanged : Except Panic (Nat × Phys) → Bool
  | .ok (pagetable, s) =>
    match mapping s pagetable 0, copyout pagetable 0 [7] s with
    | some pte, .ok (0, s') =>
      pagetable != 0 && pte &&& pteW = 0 && s'.mem (pte2pa pte) != s.mem (pte2pa pte)
    | _, _ => false
  | .error _ => false

section

omit [Layout]

lemma not_readOnlyKept_of_textChanged {pagetable : Nat} {s : Phys}
    (h : textChanged (.ok (pagetable, s)) = true) : pagetable ≠ 0 ∧
      ∃ s', copyout pagetable 0 [7] s = .ok (0, s') ∧ ¬ ReadOnlyKept s s' pagetable 0 1 := by
  unfold textChanged at h
  dsimp only at h
  split at h
  next pte s' hm hcopy =>
    obtain ⟨⟨hne, hw⟩, hdiff⟩ : (pagetable ≠ 0 ∧ pte &&& pteW = 0) ∧
        s'.mem (pte2pa pte) ≠ s.mem (pte2pa pte) := by
      simpa using h
    exact ⟨hne, s', hcopy, fun hkept => hdiff (hkept 0 pte (by decide) hm hw 0 (by decide))⟩
  next => cases h

lemma loadText_crowded : letI := crowded
    ∃ pagetable s, loadText ⟨fun _ => 0, 0⟩ = .ok (pagetable, s) ∧
      textChanged (.ok (pagetable, s)) = true := by
  let _ := crowded
  have hchanged : textChanged (loadText ⟨fun _ => 0, 0⟩) = true := by decide +kernel
  cases hload : loadText ⟨fun _ => 0, 0⟩ with
  | error e =>
    rw [hload] at hchanged
    cases hchanged
  | ok res =>
    rw [hload] at hchanged
    exact ⟨res.1, res.2, rfl, hchanged⟩

/-- The byte that `copyout` stores is not the one in the page. -/
theorem copyout_readOnly_iff_text :
    letI := crowded
    ∃ pagetable s, loadText ⟨fun _ => 0, 0⟩ = .ok (pagetable, s) ∧ ¬ SameOnReadOnly s pagetable 0 [7] := by
  let _ := crowded
  obtain ⟨pagetable, s, hload, hchanged⟩ := loadText_crowded
  obtain ⟨hne, s', hcopy, hkept⟩ := not_readOnlyKept_of_textChanged hchanged
  obtain ⟨R, o, r, n, tf, rfl, hheap, hR, hspace⟩ := loadText_spec hload hne
  have hiff := (copyout_readOnly_iff hheap hR hspace 0 [7]).eq hcopy
  exact ⟨_, s, hload, fun hsame => hkept (hiff.mpr hsame)⟩

/-- A system call changes a byte of a program's text. -/
theorem copyout_changes_text :
    letI := crowded
    ∃ pagetable s s', loadText ⟨fun _ => 0, 0⟩ = .ok (pagetable, s) ∧
      copyout pagetable 0 [7] s = .ok (0, s') ∧ ¬ ReadOnlyKept s s' pagetable 0 1 := by
  let _ := crowded
  obtain ⟨pagetable, s, hload, hchanged⟩ := loadText_crowded
  obtain ⟨-, s', hs'⟩ := not_readOnlyKept_of_textChanged hchanged
  exact ⟨pagetable, s, s', hload, hs'⟩

end

end Xv6.Process
