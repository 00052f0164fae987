import Xv6.Process.BootSpec

/-!
# Address spaces and physical pages

What the invariant means for a reader of the process table: the entries that
`walk` finds in the table of a process, and what each page of physical memory is
used for.
-/

namespace Xv6.Process

open Lib Mem

variable [Layout]

/-! ## Address spaces -/

/-- The entry of an address, if it is valid. -/
def mapping (s : Phys) (pagetable va : Nat) : Option Nat :=
  if lookup s pagetable va &&& pteV = 0 then none else some (lookup s pagetable va)

/-- The address space of a process, as its table tells. -/
structure AddressSpace (s : Phys) (pr : Proc) : Prop where
  fits : pgRoundUp pr.sz ≤ trapframeVa
  /-- Below the trapframe, exactly the addresses below `PGROUNDUP(p->sz)` are mapped. -/
  user : ∀ {va}, va < trapframeVa → (mapping s pr.pagetable va ≠ none ↔ va < pgRoundUp pr.sz)
  /-- The entries are leaves. -/
  leaf : ∀ {va pte}, va < trapframeVa → mapping s pr.pagetable va = some pte → pteFlags pte ≠ pteV
  trapframe : ∀ {va}, pgRoundDown va = trapframeVa →
    mapping s pr.pagetable va = some (pa2pte pr.trapframe ||| (pteR ||| pteW) ||| pteV)
  trampoline : ∀ {va}, pgRoundDown va = trampolineVa →
    mapping s pr.pagetable va = some (pa2pte Layout.trampoline ||| (pteR ||| pteX) ||| pteV)
  /-- User code can use neither of the two. -/
  kernel : ∀ {va pte}, trapframeVa ≤ va → va < maxVa → mapping s pr.pagetable va = some pte →
    pte &&& pteU = 0

section

variable {s : Phys} {R : Tag → Option Nat} {o : Nat → Owner} {t : Tag} {r va : Nat}

lemma mapping_eq (h : Heap s R o) (hR : R t = some r) (hva : va < maxVa) :
    mapping s (4096 * r) va = if pteAt s.mem r (va / 4096) &&& pteV = 0 then none
      else some (pteAt s.mem r (va / 4096)) := by
  rw [mapping, lookup_eq_pteAt hva fun hd hx hq => h.node_inArea hR hd hx hq]

lemma mapping_leaf {q perm : Nat} (h : Heap s R o) (hR : R t = some r) (hva : va < maxVa)
    (hperm : perm < 1024) (hpte : pteAt s.mem r (va / 4096) = leafPte q perm) :
    mapping s (4096 * r) va = some (pa2pte (4096 * q) ||| perm ||| pteV) := by
  rw [mapping_eq h hR hva, hpte, if_neg, leafPte_eq hperm]
  rw [and_pteV, ← Nat.mod_mod_of_dvd _ (by decide : 2 ∣ 1024), leafPte_mod hperm, flags_odd]
  decide

end

variable {K : Kernel} {o : Nat → Owner} {p : Nat}

lemma MemInv.addressSpace (h : MemInv K o) (hne : (K.proc p).pagetable ≠ 0) :
    AddressSpace K.phys (K.proc p) := by
  have hp := h.proc p
  obtain ⟨r, tf, hr, htf, -, hspace⟩ := hp.space hne
  have hR := tables_proc hr hne
  have hup := pgRoundUp_pages hp.small
  have hle := hspace.user.le
  have hvpn : ∀ {va}, va < trapframeVa → va / 4096 < trapframeVpn := fun hva => by
    rw [trapframeVa_eq] at hva
    omega
  have hmax : ∀ {va}, va < trapframeVa → va < maxVa := fun hva => by
    rw [trapframeVa_eq] at hva
    unfold trapframeVpn at hva
    unfold maxVa
    omega
  constructor
  · rw [hup, trapframeVa_eq]
    omega
  · intro va hva
    have hu := userVpn_of_lt (hvpn hva)
    rw [hr, mapping_eq h.heap hR (hmax hva), hup]
    by_cases hlt : va / 4096 < pages (K.proc p).sz
    · have hpte := hspace.user.mapped hlt
      rw [if_neg (by rw [and_pteV]; omega)]
      exact ⟨fun _ => (by omega), fun _ hn => by cases hn⟩
    · have hpte := hspace.user.unmapped hu (Nat.le_of_not_lt hlt)
      rw [if_pos (pteKid_eq_none.mp hpte)]
      exact ⟨fun hn => absurd rfl hn, fun hva' => absurd hva' (by omega)⟩
  · intro va pte hva hpte
    rw [hr, mapping_eq h.heap hR (hmax hva)] at hpte
    split at hpte
    next => cases hpte
    next hvalid =>
      cases hpte
      have hlt : va / 4096 < pages (K.proc p).sz := by
        by_contra hge
        exact hvalid (pteKid_eq_none.mp
          (hspace.user.unmapped (userVpn_of_lt (hvpn hva)) (Nat.le_of_not_lt hge)))
      rw [pteFlags_eq]
      exact hspace.user.flags_ne hlt
  · intro va hva
    rw [pgRoundDown_eq, trapframeVa_eq] at hva
    have hpage : va / 4096 = trapframeVpn := by omega
    rw [hr, htf]
    exact mapping_leaf h.heap hR (by unfold trapframeVpn at hpage; unfold maxVa; omega) (by decide)
      (hpage ▸ hspace.trapframe)
  · intro va hva
    rw [pgRoundDown_eq, trampolineVa_eq] at hva
    have hpage : va / 4096 = trampolineVpn := by omega
    rw [hr, trampoline_page]
    exact mapping_leaf h.heap hR (by unfold trampolineVpn at hpage; unfold maxVa; omega) (by decide)
      (hpage ▸ hspace.trampoline)
  · intro va pte hlo hva hpte
    rw [hr, mapping_eq h.heap hR hva] at hpte
    split at hpte
    next => cases hpte
    next =>
      cases hpte
      refine hspace.sealed (va / 4096) (by unfold maxVa at hva; omega) fun hu => ?_
      rw [trapframeVa_eq] at hlo
      unfold maxVa at hva
      have h₁ := hu.2.1
      have h₂ := hu.2.2
      unfold trapframeVpn at h₁ hlo
      unfold trampolineVpn at h₂
      omega

/-- After `userinit`, and after any calls: the address space of every process with a
page table is that of its size, and the only panic ahead is that of the first process
exiting. -/
theorem Machine.addressSpaces (M : Machine) : ∃ A K₀, M.start = .ok (A, K₀) ∧
    ∀ cs K, run step K₀ cs = some K →
      (∀ p, (K.proc p).pagetable ≠ 0 → AddressSpace K.phys (K.proc p)) ∧
      ∀ (c : Call) (e : Panic), c.enabled K → c.run K = .error e → e = .initExiting := by
  obtain ⟨A, K₀, hstart, hinv, -⟩ := M.start_spec
  refine ⟨A, K₀, hstart, fun cs K hrun => ?_⟩
  obtain ⟨o, h⟩ := run_inv hinv hrun
  exact ⟨fun p hne => h.mem.addressSpace hne, fun c e hc he => Call.run_error h hc he⟩

/-! ## A machine -/

/-- Where the linker puts a kernel of 136 kilobytes. -/
@[reducible] def linked : Layout where
  kend := kernBase + 0x22000
  trampoline := kernBase + 0x7000
  kend_le := by decide
  trampoline_aligned := by decide
  trampoline_ge := by decide
  trampoline_le := by decide

/-- A machine whose memory is all zero, and whose kernel takes 70 pages. -/
def Machine.cleared : @Machine linked :=
  letI := linked
  { mem := fun _ => 0, count := 70, room := by decide, own := fun _ m => m,
    own_agree := fun _ _ _ _ _ => Agree.refl _ _ }

/-- The first process can fork. -/
lemma Machine.fork_run (M : Machine) {A : List Nat} {K₀ : Kernel} (h : M.start = .ok (A, K₀)) :
    ∃ p K, run step K₀ [.fork p] = some K := by
  obtain ⟨A', K', hstart, ⟨o, hinv⟩, p, -, hp, hstate⟩ := M.start_spec
  obtain ⟨-, rfl⟩ : A' = A ∧ K' = K₀ := by
    rw [h] at hstart
    cases hstart
    exact ⟨rfl, rfl⟩
  have hc : (Call.fork p).enabled K' := ⟨hp, hstate⟩
  obtain ⟨_, K, hrun, -⟩ := Call.run_spec hinv hc fun p status he => by cases he
  refine ⟨p, K, run_cons.mpr ⟨K, ?_, rfl⟩⟩
  rw [step, if_pos hc, hrun]

omit [Layout] in
theorem Machine.addressSpaces_cleared :
    letI := linked
    ∃ A K₀ p K, Machine.cleared.start = .ok (A, K₀) ∧ run step K₀ [.fork p] = some K ∧
      (∀ p, (K.proc p).pagetable ≠ 0 → AddressSpace K.phys (K.proc p)) ∧
      ∀ (c : Call) (e : Panic), c.enabled K → c.run K = .error e → e = .initExiting := by
  let _ := linked
  obtain ⟨A, K₀, hstart, hspaces⟩ := Machine.addressSpaces Machine.cleared
  obtain ⟨p, K, hrun⟩ := Machine.fork_run Machine.cleared hstart
  exact ⟨A, K₀, p, K, hstart, hrun, hspaces _ K hrun⟩

/-! ## Physical pages -/

section

omit [Layout]

/-- What a page is used for. -/
inductive Use where
  /-- It is on the free list. -/
  | free
  /-- It is the page-table page of process `p` for the prefix `x` of `d` indices. -/
  | table (p d x : Nat)
  /-- Process `p` has it at virtual page `v`. -/
  | user (p v : Nat)
  | trapframe (p : Nat)
  /-- A live pipe is in it. -/
  | pipe
  /-- It was taken at boot. -/
  | boot

/-- The owner that goes with a use. -/
def Use.owner : Use → Owner
  | free => .free
  | table p d x => .table (.proc p) d x
  | user p v => .user (.proc p) v
  | trapframe p => .trapframe p
  | pipe => .pipe
  | boot => .boot

lemma Use.owner_injective : Function.Injective Use.owner := by
  intro u u' h
  cases u <;> cases u' <;> cases h <;> rfl

lemma tables_eq_some {p r : Nat} :
    tables K (.proc p) = some r ↔ (K.proc p).pagetable ≠ 0 ∧ (K.proc p).pagetable / pgSize = r := by
  rw [tables, pgSize]
  split
  next h => simp [h]
  next h => simp [h]

end

/-- What the tables of the kernel say about page `q`, with free list `F` and the pages
`A` taken at boot. -/
def Uses (A F : List Nat) (K : Kernel) (q : Nat) : Use → Prop
  | .free => q ∈ F
  | .table p d x => (K.proc p).pagetable ≠ 0 ∧ d ≤ 2 ∧ x < 512 ^ d ∧
      node K.phys.mem ((K.proc p).pagetable / pgSize) d x = some q
  | .user p v => (K.proc p).pagetable ≠ 0 ∧ UserVpn v ∧
      pteKid (pteAt K.phys.mem ((K.proc p).pagetable / pgSize) v) = some q
  | .trapframe p => (K.proc p).trapframe ≠ 0 ∧ (K.proc p).trapframe = 4096 * q
  | .pipe => ∃ f, f < nfile ∧ (K.ftable f).ref ≠ 0 ∧ (K.ftable f).type = .pipe ∧
      (K.ftable f).pipe = 4096 * q
  | .boot => 4096 * q ∈ A

/-- The tables of the kernel tell the owner of every page. -/
lemma Inv.uses {A F : List Nat} (h : Inv (fun q => 4096 * q ∈ A) K o 0)
    (hF : ∀ q, q ∈ F ↔ o q = .free) (q : Nat) (u : Use) : Uses A F K q u ↔ o q = u.owner := by
  have hheap := h.mem.heap
  cases u with
  | free => exact hF q
  | table p d x =>
    constructor
    · rintro ⟨hne, hd, hx, hnode⟩
      exact (hheap.table (tables_eq_some.mpr ⟨hne, rfl⟩) hd hx).mp hnode
    · intro hq
      obtain ⟨⟨r, hR⟩, hd, hx⟩ := hheap.tableLive hq
      have hnode := (hheap.table hR hd hx).mpr hq
      obtain ⟨hne, rfl⟩ := tables_eq_some.mp hR
      exact ⟨hne, hd, hx, hnode⟩
  | user p v =>
    constructor
    · rintro ⟨hne, hv, hkid⟩
      exact (hheap.user (tables_eq_some.mpr ⟨hne, rfl⟩) hv).mp hkid
    · intro hq
      obtain ⟨⟨r, hR⟩, hv⟩ := hheap.userLive hq
      have hkid := (hheap.user hR hv).mpr hq
      obtain ⟨hne, rfl⟩ := tables_eq_some.mp hR
      exact ⟨hne, hv, hkid⟩
  | trapframe p =>
    constructor
    · rintro ⟨hne, hq⟩
      obtain ⟨tf, htf, hown⟩ := (h.mem.proc p).trap hne
      obtain rfl : tf = q := by omega
      exact hown
    · intro hq
      have htf := (h.mem.proc p).trapLive hq
      have hpos : q ≠ 0 := inArea_pos (hheap.inArea (by rw [hq]; rintro ⟨⟩))
      exact ⟨by omega, htf⟩
  | pipe =>
    constructor
    · rintro ⟨f, -, -, htype, hpipe⟩
      obtain ⟨q', hq', hown⟩ := h.file.pipes.page htype
      obtain rfl : q' = q := by omega
      exact hown
    · intro hq
      obtain ⟨w, f, htype, hpipe, -⟩ := h.file.pipes.used hq
      obtain ⟨href, hlt⟩ := h.file.pipes.live htype
      exact ⟨f, hlt, href, htype, hpipe⟩
  | boot => exact (h.boot q).symm

/-- After `userinit`, and after any calls: every page of the allocator has exactly one
use, no other page has any, and no page is twice on the free list. -/
theorem Machine.pages_partition (M : Machine) : ∃ A K₀, M.start = .ok (A, K₀) ∧
    ∀ cs K, run step K₀ cs = some K →
      ∃ F, Chain K.phys.mem K.phys.freelist F ∧ F.Nodup ∧
        (∀ q, InArea q ↔ ∃ u, Uses A F K q u) ∧
        ∀ q u u', Uses A F K q u → Uses A F K q u' → u = u' := by
  obtain ⟨A, K₀, hstart, hinv, -⟩ := M.start_spec
  refine ⟨A, K₀, hstart, fun cs K hrun => ?_⟩
  obtain ⟨o, h⟩ := run_inv hinv hrun
  obtain ⟨F, hchain, hnodup, hF⟩ := h.mem.heap.free
  refine ⟨F, hchain, hnodup, fun q => ?_, fun q u u' hu hu' => ?_⟩
  · rw [← not_iff_not, ← h.mem.heap.area]
    simp only [h.uses hF q, not_exists]
    constructor
    · intro hq u hu
      rw [hq] at hu
      cases u <;> cases hu
    · intro hnone
      -- the owners that no use has: outside, and those of a call in progress
      cases hq : o q with
      | outside => rfl
      | free => exact absurd hq (hnone .free)
      | temp | held k => exact absurd (hq ▸ trivial) (h.idle q)
      | table t d x =>
        cases t with
        | proc p => exact absurd hq (hnone (.table p d x))
        | image =>
          obtain ⟨⟨r, hR⟩, -⟩ := h.mem.heap.tableLive hq
          cases hR
      | user t v =>
        cases t with
        | proc p => exact absurd hq (hnone (.user p v))
        | image =>
          obtain ⟨⟨r, hR⟩, -⟩ := h.mem.heap.userLive hq
          cases hR
      | trapframe p => exact absurd hq (hnone (.trapframe p))
      | pipe => exact absurd hq (hnone .pipe)
      | boot => exact absurd hq (hnone .boot)
  · rw [h.uses hF] at hu hu'
    exact Use.owner_injective (hu.symm.trans hu')

omit [Layout] in
theorem Machine.pages_partition_cleared :
    letI := linked
    ∃ A K₀ p K, Machine.cleared.start = .ok (A, K₀) ∧ run step K₀ [.fork p] = some K ∧
      ∃ F, Chain K.phys.mem K.phys.freelist F ∧ F.Nodup ∧
        (∀ q, InArea q ↔ ∃ u, Uses A F K q u) ∧
        ∀ q u u', Uses A F K q u → Uses A F K q u' → u = u' := by
  let _ := linked
  obtain ⟨A, K₀, hstart, hpages⟩ := Machine.pages_partition Machine.cleared
  obtain ⟨p, K, hrun⟩ := Machine.fork_run Machine.cleared hstart
  exact ⟨A, K₀, p, K, hstart, hrun, hpages _ K hrun⟩

end Xv6.Process
