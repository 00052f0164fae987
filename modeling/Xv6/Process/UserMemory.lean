import Xv6.Process.ExecImage

/-!
# `sbrk` and `fork`

The two calls that give a process memory. `sbrk` moves the end of the address space by a
number of bytes, and `fork` gives the child a copy of it.
-/

namespace Xv6.Process

open Lib Mem

variable [Layout] {B : Nat → Prop} {K K' : Kernel} {o o' : Nat → Owner} {p : Nat}

/-! ## `sbrk` -/

section

omit [Layout]

/-- A size below zero wraps around, and `uvmdealloc` then finds nothing to do. -/
lemma grownSize_of_neg {sz : Nat} {n : Int} (hlo : -2 ^ 31 ≤ n) (hneg : (sz : Int) + n < 0) :
    grownSize sz n = sz := by
  have hmod : ((sz : Int) + n) % 2 ^ 64 = sz + n + 2 ^ 64 := by omega
  rw [grownSize, if_neg (by omega), hmod, Nat.min_eq_left (by omega)]

lemma grownSize_of_nonneg {sz : Nat} {n : Int} (hsz : sz < 2 ^ 40) (hhi : n < 2 ^ 31)
    (hpos : 0 ≤ (sz : Int) + n) : (grownSize sz n : Int) = sz + n := by
  have hmod : ((sz : Int) + n) % 2 ^ 64 = sz + n := by omega
  rw [grownSize, hmod]
  split <;> omega

end

/-- What `sbrk(n)` is for: it fails and changes nothing, or it returns the old size and moves
it by `n`. -/
def Resized (p : Nat) (n res : Int) (K K' : Kernel) : Prop :=
  res = -1 ∧ (K'.proc p).sz = (K.proc p).sz ∧ SameMaps K K' ∨
    res = (K.proc p).sz ∧ ((K'.proc p).sz : Int) = (K.proc p).sz + n

/-- What `sbrk` returns is decided by `growproc`. -/
lemma sysSbrk_eq {n res : Int} (h : growproc p n K = .ok (res, K')) :
    sysSbrk p n K = .ok (if res < 0 then -1 else ((K.proc p).sz : Int), K') := by
  have hcall : sysSbrk p n K =
      (if res < 0 then pure (-1) else pure ((K.proc p).sz : Int) : KernelM Int) K' :=
    (Lib.bind_of_ok (m := getProc p) rfl).trans (Lib.bind_of_ok h)
  rw [hcall]
  split <;> rfl

lemma Inv.resized_iff (h : Inv B K o 0) (hr : Running K p) {n : Int} (hlo : -2 ^ 31 ≤ n)
    (hhi : n < 2 ^ 31) :
    Returns (sysSbrk p n) K fun res K' => Resized p n res K K' ↔ 0 ≤ ((K.proc p).sz : Int) + n := by
  have hne := (h.complete p).used hr.used
  obtain ⟨res, K', hgrow, o', sz, -, hself, -, ⟨rfl, hpos⟩ | ⟨rfl, hsz⟩⟩ := growproc_spec h.mem hne n
  · have hu := growproc_failed h hr hgrow
    refine ⟨_, K', sysSbrk_eq hgrow, iff_of_true (.inl ⟨rfl, ?_, hu.maps⟩) (by omega)⟩
    rw [hu.proc]
  · have hsize : (K'.proc p).sz = grownSize (K.proc p).sz n := by rw [hself, hsz]
    refine ⟨_, K', sysSbrk_eq hgrow, ?_, fun hpos => .inr ⟨rfl, ?_⟩⟩
    · rintro (⟨hfail, -⟩ | ⟨-, hmoved⟩)
      · omega
      · omega
    · rw [hsize, grownSize_of_nonneg (h.mem.proc p).small hhi hpos]

/-- `sbrk` of a running process keeps its contract exactly if the new size is not negative. -/
theorem Machine.sbrk_resized_iff (M : Machine) : ∃ A K₀, M.start = .ok (A, K₀) ∧
    (∀ cs K, run step K₀ cs = some K → Sound A K) ∧
    ∀ K p n, Sound A K → Running K p → -2 ^ 31 ≤ n → n < 2 ^ 31 →
      Returns (sysSbrk p n) K fun res K' =>
        Resized p n res K K' ↔ 0 ≤ ((K.proc p).sz : Int) + n := by
  obtain ⟨A, K₀, hstart, hinv, -⟩ := M.start_spec
  refine ⟨A, K₀, hstart, fun cs K hrun => run_inv hinv hrun, ?_⟩
  rintro K p n ⟨o, h⟩ hr hlo hhi
  exact h.resized_iff hr hlo hhi

omit [Layout] in
theorem Machine.sbrk_resized_iff_small :
    letI := Process.crowded
    ∃ A K₀, Machine.sixteen.start = .ok (A, K₀) ∧ Sound A K₀ ∧ Running K₀ 0 ∧
      Returns (sysSbrk 0 5000) K₀ fun res K' => Resized 0 5000 res K₀ K' := by
  let _ := Process.crowded
  obtain ⟨A, K₀, hstart, hK₀, hr, -⟩ := Machine.sixteen_start
  obtain ⟨A', K₀', hstart', -, hcalls⟩ := Machine.sbrk_resized_iff Machine.sixteen
  cases hstart.symm.trans hstart'
  refine ⟨A, K₀, hstart, hK₀, hr, ?_⟩
  refine (hcalls K₀ 0 5000 hK₀ hr (by decide) (by decide)).mono fun res K' hiff => hiff.mpr ?_
  omega

omit [Layout] in
/-- The first process gives back more than it has: `sbrk` reports success. -/
theorem sbrk_below_zero :
    letI := Process.crowded
    ∃ A K₀ K', Machine.sixteen.start = .ok (A, K₀) ∧ Sound A K₀ ∧ Running K₀ 0 ∧
      sysSbrk 0 (-8192) K₀ = .ok (4096, K') ∧ (K₀.proc 0).sz = 4096 ∧ (K'.proc 0).sz = 4096 ∧
      ¬ Resized 0 (-8192) 4096 K₀ K' := by
  let _ := Process.crowded
  obtain ⟨A, K₀, hstart, ⟨o, h⟩, hr, hsz⟩ := Machine.sixteen_start
  have hne := (h.complete 0).used hr.used
  obtain ⟨res, K', hgrow, o', sz, -, hself, -, ⟨-, hpos⟩ | ⟨rfl, hgrown⟩⟩ :=
    growproc_spec h.mem hne (-8192)
  · exact absurd hpos (by decide)
  · have hcall := sysSbrk_eq hgrow
    have hsz' : (K'.proc 0).sz = 4096 := by
      rw [hself, hgrown, grownSize_of_neg (by decide) (by rw [hsz]; decide), hsz]
    rw [hsz] at hcall
    refine ⟨A, K₀, K', hstart, ⟨o, h⟩, hr, hcall, hsz, hsz', ?_⟩
    rintro (⟨hfail, -⟩ | ⟨-, hmoved⟩)
    · exact absurd hfail (by decide)
    · rw [hsz, hsz'] at hmoved
      exact absurd hmoved (by decide)

/-! ## Pages and their processes -/

/-- The owner `y` of the page that process `p` has at an address: the process itself, except for
the trampoline. -/
def OwnerOf (p va : Nat) (y : Owner) : Prop :=
  y = .user (.proc p) (va / 4096) ∨ trapframeVa ≤ va ∧ (y = .trapframe p ∨ y = .outside)

lemma MemInv.owner_trampoline (h : MemInv K o) : o (Layout.trampoline / 4096) = .outside := by
  refine h.heap.area.mpr fun harea => ?_
  have hle := Layout.trampoline_le
  have hkend := Layout.kend_le
  have hpage := trampoline_page
  have hlo := harea.1
  unfold physTop kernBase at hkend
  unfold pgRoundUp at hlo
  unfold pgSize at hle hlo
  omega

section

variable {r va : Nat}

/-- The page behind an entry for user memory. -/
lemma MemInv.user_page (h : MemInv K o) (hR : tables K (.proc p) = some r)
    (hu : UserVpn (va / 4096)) (hvalid : pteAt K.phys.mem r (va / 4096) &&& pteV ≠ 0) :
    pte2pa (pteAt K.phys.mem r (va / 4096)) = 4096 * (pteAt K.phys.mem r (va / 4096) / 1024) ∧
      o (pteAt K.phys.mem r (va / 4096) / 1024) = .user (.proc p) (va / 4096) := by
  have hq := (h.heap.user hR hu).mp (pteKid_of_valid hvalid)
  have hsmall := inArea_lt (h.heap.inArea (by rw [hq]; rintro ⟨⟩))
  refine ⟨?_, hq⟩
  rw [pte2pa_eq]
  omega

omit [Layout] in
lemma trapframeVa_le_of_fixed (h : va / 4096 = trapframeVpn ∨ va / 4096 = trampolineVpn) :
    trapframeVa ≤ va := by
  rw [trapframeVa_eq]
  unfold trampolineVpn trapframeVpn at *
  omega

/-- Whom the page behind an address belongs to. -/
lemma MemInv.page_owner (h : MemInv K o) (hne : (K.proc p).pagetable ≠ 0) {pte : Nat}
    (hm : mapping K.phys (K.proc p).pagetable va = some pte) :
    ∃ q, pte2pa pte = 4096 * q ∧ OwnerOf p va (o q) := by
  obtain ⟨r, tf, hr, htf, hown, hspace⟩ := (h.proc p).space hne
  have hR := tables_proc hr hne
  rw [hr] at hm
  obtain ⟨hva, rfl, hvalid⟩ := mapping_some h.heap hR hm
  have hfixed : ∀ {q perm}, pteAt K.phys.mem r (va / 4096) = leafPte q perm → perm < 1024 →
      q < 2 ^ 40 → pte2pa (pteAt K.phys.mem r (va / 4096)) = 4096 * q := by
    intro q perm hleaf hperm hq
    rw [pte2pa_eq, hleaf, leafPte_div hperm]
    omega
  by_cases hu : UserVpn (va / 4096)
  · obtain ⟨hpa, hq⟩ := h.user_page hR hu hvalid
    exact ⟨_, hpa, .inl hq⟩
  · have hcases := fixed_cases (by unfold maxVa at hva; omega) hu
    have hge := trapframeVa_le_of_fixed hcases
    rcases hcases with hfix | hfix
    · have hsmall := inArea_lt (h.heap.inArea (q := tf) (by rw [hown]; rintro ⟨⟩))
      exact ⟨tf, hfixed (by rw [hfix]; exact hspace.trapframe) (by decide) hsmall,
        .inr ⟨hge, .inl hown⟩⟩
    · exact ⟨_, hfixed (by rw [hfix]; exact hspace.trampoline) (by decide) trampoline_page_lt,
        .inr ⟨hge, .inr h.owner_trampoline⟩⟩

end

/-- No other process has a physical page of the user memory of `p` in its table. -/
def Unshared (K : Kernel) (p : Nat) : Prop :=
  ∀ va pte, va < trapframeVa → mapping K.phys (K.proc p).pagetable va = some pte →
    ∀ p' va' pte', p' ≠ p → (K.proc p').pagetable ≠ 0 →
      mapping K.phys (K.proc p').pagetable va' = some pte' → pte2pa pte' ≠ pte2pa pte

lemma MemInv.unshared (h : MemInv K o) (hne : (K.proc p).pagetable ≠ 0) : Unshared K p := by
  intro va pte hva hm p' va' pte' hp' hne' hm' he
  obtain ⟨q, hq, hown⟩ := h.page_owner hne hm
  obtain ⟨q', hq', hown'⟩ := h.page_owner hne' hm'
  obtain rfl : q' = q := by omega
  rcases hown with hown | ⟨hge, -⟩
  · rw [hown] at hown'
    rcases hown' with hown' | ⟨-, hown' | hown'⟩
    · exact hp' (Tag.proc.inj (Owner.user.inj hown').1).symm
    · cases hown'
    · cases hown'
  · omega

/-! ## What a process finds in its memory -/

/-- The permissions and the byte that process `p` has at an address. -/
def cell (K : Kernel) (p va : Nat) : Option (Nat × UInt8) :=
  (mapping K.phys (K.proc p).pagetable va).map fun pte =>
    (pteFlags pte, K.phys.mem (pte2pa pte + va % pgSize))

/-- The memory of a process stays if its table and its pages do. -/
lemma MemInv.cell_congr (h : MemInv K o) (h' : MemInv K' o')
    (hproc : (K'.proc p).pagetable = (K.proc p).pagetable) (hne : (K.proc p).pagetable ≠ 0)
    (htable : ∀ {q d x}, o q = .table (.proc p) d x → Agree K.phys.mem K'.phys.mem q) {va : Nat}
    (hpage : ∀ {q}, OwnerOf p va (o q) → Agree K.phys.mem K'.phys.mem q) :
    cell K' p va = cell K p va := by
  obtain ⟨r, tf, hr, -⟩ := (h.proc p).space hne
  have hR := tables_proc hr hne
  have hR' := tables_proc (hproc.trans hr) (by rw [hproc]; exact hne)
  have hmap : mapping K'.phys (K'.proc p).pagetable va = mapping K.phys (K.proc p).pagetable va := by
    rw [hproc, hr]
    exact mapping_congr h.heap h'.heap hR hR'
      (fun v hv => .inl ((h.heap.table_congr hR fun _ _ _ => htable).2 v hv)) va
  unfold cell
  rw [hmap]
  cases hm : mapping K.phys (K.proc p).pagetable va with
  | none => rfl
  | some pte =>
    obtain ⟨q, hq, hown⟩ := h.page_owner hne hm
    have hbyte := hpage hown (4096 * q + va % 4096) (by omega)
    rw [← hq] at hbyte
    exact congrArg (fun b => some (pteFlags pte, b)) hbyte

/-- The memory of a process below its size. -/
lemma MemInv.cell_user {r va : Nat} (h : MemInv K o) (hne : (K.proc p).pagetable ≠ 0)
    (hr : (K.proc p).pagetable = 4096 * r) (hva : va / 4096 < pages (K.proc p).sz) :
    cell K p va = some (pteAt K.phys.mem r (va / 4096) % 1024,
      K.phys.mem (4096 * (pteAt K.phys.mem r (va / 4096) / 1024) + va % 4096)) := by
  obtain ⟨r', tf, hr', -, -, hspace⟩ := (h.proc p).space hne
  obtain rfl : r' = r := by omega
  have hR := tables_proc hr hne
  have hu := hspace.user.userVpn hva
  have hvalid : pteAt K.phys.mem r' (va / 4096) &&& pteV ≠ 0 := by
    have hmod := hspace.user.mapped hva
    rw [and_pteV]
    omega
  have hmax : va < maxVa := by
    have hle := hspace.user.le
    unfold trapframeVpn at hle
    unfold maxVa
    omega
  unfold cell
  rw [hr, mapping_eq h.heap hR hmax, if_neg hvalid, Option.map_some, pteFlags_eq,
    (h.user_page hR hu hvalid).1]
  rfl

/-- There is no memory from the size on. -/
lemma MemInv.cell_above {va : Nat} (h : MemInv K o) (hne : (K.proc p).pagetable ≠ 0)
    (hva : va < trapframeVa) (hge : pages (K.proc p).sz ≤ va / 4096) : cell K p va = none := by
  have hspace := h.addressSpace hne
  have hnone : mapping K.phys (K.proc p).pagetable va = none := by
    by_contra hm
    have hlt := (hspace.user hva).mp hm
    rw [pgRoundUp_pages (h.proc p).small] at hlt
    omega
  rw [cell, hnone]
  rfl

/-- Two processes with the same pages find the same. -/
lemma MemInv.cell_twin {p' r r' va : Nat} (h : MemInv K o) (h' : MemInv K' o')
    (hne : (K.proc p).pagetable ≠ 0) (hne' : (K'.proc p').pagetable ≠ 0)
    (hr : (K.proc p).pagetable = 4096 * r) (hr' : (K'.proc p').pagetable = 4096 * r')
    (hsz : (K'.proc p').sz = (K.proc p).sz)
    (htwin : ∀ v, v < pages (K.proc p).sz → Twin K.phys.mem r K'.phys.mem r' v)
    (hva : va < trapframeVa) : cell K' p' va = cell K p va := by
  by_cases hlt : va / 4096 < pages (K.proc p).sz
  · have hpage := htwin _ hlt
    rw [h.cell_user hne hr hlt, h'.cell_user hne' hr' (by rw [hsz]; exact hlt), hpage.flags,
      hpage.byte (Nat.mod_lt va (by decide))]
  · have hge := Nat.le_of_not_lt hlt
    rw [h.cell_above hne hva hge, h'.cell_above hne' hva (by rw [hsz]; exact hge)]

/-! ## Copies to two processes -/

/-- Copies out of the kernel, one after the other: the process, the address and the bytes. -/
def copyouts : List (Nat × Nat × List UInt8) → KernelM Unit
  | [] => pure ()
  | (p, dstva, src) :: ops => do
    let pr ← getProc p
    let _ ← onPhys (copyout pr.pagetable dstva src)
    copyouts ops

/-- A `copyout` to one process is not seen by another. -/
lemma Inv.copyout_cell {p' dstva : Nat} {src : List UInt8} (h : Inv B K o 0)
    (hne : (K.proc p).pagetable ≠ 0) (hne' : (K.proc p').pagetable ≠ 0) (hp' : p' ≠ p) :
    Returns (onPhys (Mem.copyout (K.proc p).pagetable dstva src)) K fun _ K' =>
      ∀ va, cell K' p' va = cell K p' va := by
  refine (h.copyout hne dstva src).mono ?_
  rintro _ K' ⟨h', hproc, -, hpoke, -⟩ va
  refine h.mem.cell_congr h'.mem (by rw [hproc]) hne' (fun hq => hpoke.mem ?_) fun hq => hpoke.mem ?_
  · intro v he
    rw [hq] at he
    cases he
  · intro v he
    rw [he] at hq
    rcases hq with hq | ⟨-, hq | hq⟩
    · exact hp' (Tag.proc.inj (Owner.user.inj hq).1).symm
    · cases hq
    · cases hq

lemma copyouts_spec (ops : List (Nat × Nat × List UInt8)) :
    ∀ {K : Kernel}, Inv B K o 0 → (∀ op ∈ ops, (K.proc op.1).pagetable ≠ 0) →
      Returns (copyouts ops) K fun _ K' => Inv B K' o 0 ∧ K'.proc = K.proc ∧
        ∀ p', (K.proc p').pagetable ≠ 0 → (∀ op ∈ ops, op.1 ≠ p') →
          ∀ va, cell K' p' va = cell K p' va := by
  induction ops with
  | nil =>
    intro K h _
    exact returns_pure ⟨h, rfl, fun _ _ _ _ => rfl⟩
  | cons op ops ih =>
    intro K h hops
    obtain ⟨p, dstva, src⟩ := op
    obtain ⟨hne, hrest⟩ := List.forall_mem_cons.mp hops
    rw [copyouts]
    apply returns_getProc
    obtain ⟨res, K₁, hrun, h₁, hproc₁, -⟩ := h.copyout hne dstva src
    refine returns_bind_of_eq hrun ?_
    refine (ih h₁ (by rw [hproc₁]; exact hrest)).mono ?_
    rintro _ K₂ ⟨h₂, hproc₂, hcell⟩
    refine ⟨h₂, hproc₂.trans hproc₁, fun p' hp' hnot va => ?_⟩
    obtain ⟨hnotp, hnotrest⟩ := List.forall_mem_cons.mp hnot
    rw [hcell p' (by rw [hproc₁]; exact hp') hnotrest va]
    exact (h.copyout_cell hne hp' (Ne.symm hnotp)).eq hrun va

/-! ## `fork` -/

/-- Process `np` of `K'` is the child that process `p` of `K` has got. -/
structure Child (p np : Nat) (pid : Int) (K K' : Kernel) : Prop where
  lt : np < nproc
  unused : (K.proc np).state = .unused
  state : (K'.proc np).state = .runnable
  pid : (K'.proc np).pid = pid
  sz : (K'.proc np).sz = (K.proc p).sz
  /-- The user memory of the child is that of the parent, which stays. -/
  memory : ∀ va, va < trapframeVa → cell K' np va = cell K p va
  kept : ∀ va, cell K' p va = cell K p va
  unshared : Unshared K' np
  /-- The saved registers are those of the parent, and `a0` is 0. -/
  registers : ∀ x, x < trapframeSize → K'.phys.mem ((K'.proc np).trapframe + x) =
    if trapframeA0 ≤ x ∧ x < trapframeA0 + 8 then 0 else K.phys.mem ((K.proc p).trapframe + x)
  /-- After any copies to the two, copies to one of them are not seen by the other. -/
  isolated : ∀ x y, x = p ∧ y = np ∨ x = np ∧ y = p → ∀ before ops,
    (∀ op ∈ before, op.1 = p ∨ op.1 = np) → (∀ op ∈ ops, op.1 = x) →
    Returns (copyouts before) K' fun _ K₁ => Returns (copyouts ops) K₁ fun _ K₂ =>
      ∀ va, cell K₂ y va = cell K₁ y va

lemma Inv.isolated {x y : Nat} {before ops : List (Nat × Nat × List UInt8)} (h : Inv B K o 0)
    (hx : (K.proc x).pagetable ≠ 0) (hy : (K.proc y).pagetable ≠ 0) (hne : x ≠ y)
    (hbefore : ∀ op ∈ before, op.1 = x ∨ op.1 = y) (hops : ∀ op ∈ ops, op.1 = x) :
    Returns (copyouts before) K fun _ K₁ => Returns (copyouts ops) K₁ fun _ K₂ =>
      ∀ va, cell K₂ y va = cell K₁ y va := by
  refine (copyouts_spec before h fun op hop => ?_).mono ?_
  · rcases hbefore op hop with he | he
    · rw [he]
      exact hx
    · rw [he]
      exact hy
  · rintro _ K₁ ⟨h₁, hproc₁, -⟩
    refine (copyouts_spec ops h₁ fun op hop => ?_).mono ?_
    · rw [hproc₁, hops op hop]
      exact hx
    · rintro _ K₂ ⟨-, -, hcell⟩
      exact hcell y (by rw [hproc₁]; exact hy) fun op hop => by rw [hops op hop]; exact hne

lemma Forked.child {np : Nat} (hf : Forked p np K o K' o') (h : Inv B K o 0) (h' : Inv B K' o' 0)
    (hr : Running K p) : Child p np K.nextpid K K' := by
  have hne : np ≠ p := hr.ne (.inl hf.unused)
  have hparent := hf.others hne.symm
  have hpt := (h.complete p).used hr.used
  have hpt' : (K'.proc p).pagetable ≠ 0 := by rw [hparent]; exact hpt
  have hptn : (K'.proc np).pagetable ≠ 0 := (h'.complete np).used (by rw [hf.state]; rintro ⟨⟩)
  obtain ⟨r₀, r, hr₀, hrn, htwin⟩ := hf.twin
  constructor
  case lt => exact hf.lt
  case unused => exact hf.unused
  case state => exact hf.state
  case pid => exact hf.pid
  case sz => exact hf.sz
  case memory => exact fun va hva => h.mem.cell_twin h'.mem hpt hptn hr₀ hrn hf.sz htwin hva
  case kept =>
    intro va
    refine h.mem.cell_congr h'.mem (by rw [hparent]) hpt (fun hq => hf.frame.mem ?_)
      fun hq => hf.frame.mem ?_
    · rw [hq]
      exact not_private_table hne.symm
    · rcases hq with hq | ⟨-, hq | hq⟩
      · rw [hq]
        exact not_private_user hne.symm
      · rw [hq]
        exact hne.symm
      · rw [hq]
        exact id
  case unshared => exact h'.mem.unshared hptn
  case registers => exact fun x hx => hf.trapframe hx
  case isolated =>
    rintro x y (⟨rfl, rfl⟩ | ⟨rfl, rfl⟩) before ops hbefore hops
    · exact h'.isolated hpt' hptn hne.symm hbefore hops
    · exact h'.isolated hptn hpt' hne (fun op hop => (hbefore op hop).symm) hops

/-- In every state between calls: `fork` fails and changes nothing, or there is a new process
whose memory and registers are copies of those of the caller. -/
theorem Machine.fork_copies (M : Machine) : ∃ A K₀, M.start = .ok (A, K₀) ∧
    (∀ cs K, run step K₀ cs = some K → Sound A K) ∧
    ∀ K p, Sound A K → Running K p → Returns (fork p) K fun res K' => Sound A K' ∧
      (res = -1 ∧ Restored K K' ∨ ∃ np, Child p np res K K') := by
  obtain ⟨A, K₀, hstart, hinv, -⟩ := M.start_spec
  refine ⟨A, K₀, hstart, fun cs K hrun => run_inv hinv hrun, ?_⟩
  rintro K p ⟨o, h⟩ hr
  refine (fork_spec h hr).mono ?_
  rintro res K' ⟨o', h', -, ⟨rfl, np, hf⟩ | ⟨rfl, np, hm, hc⟩⟩
  · exact ⟨⟨o', h'⟩, .inr ⟨np, hf.child h h' hr⟩⟩
  · exact ⟨⟨o', h'⟩, .inl ⟨rfl, h.restored_cancelled h' hm hc⟩⟩

/-- The first process of the small machine can fork. -/
def forksFirst : Bool :=
  letI := Process.crowded
  match Machine.sixteen.start with
  | .ok (_, K₀) =>
    match fork 0 K₀ with
    | .ok (r, _) => r != -1
    | .error _ => false
  | .error _ => false

omit [Layout] in
lemma forksFirst_eq : forksFirst = true := by decide +kernel

omit [Layout] in
theorem Machine.fork_copies_small :
    letI := Process.crowded
    ∃ A K₀ np pid K', Machine.sixteen.start = .ok (A, K₀) ∧ fork 0 K₀ = .ok (pid, K') ∧
      Child 0 np pid K₀ K' := by
  let _ := Process.crowded
  obtain ⟨A, K₀, hstart, hK₀, hr, -⟩ := Machine.sixteen_start
  obtain ⟨A', K₀', hstart', -, hcalls⟩ := Machine.fork_copies Machine.sixteen
  cases hstart.symm.trans hstart'
  obtain ⟨pid, K', hfork, -, hres⟩ := hcalls K₀ 0 hK₀ hr
  have hforks := forksFirst_eq
  unfold forksFirst at hforks
  simp only [hstart, hfork, bne_iff_ne] at hforks
  rcases hres with ⟨hfail, -⟩ | ⟨np, hchild⟩
  · exact absurd hfail hforks
  · exact ⟨A, K₀, np, pid, K', hstart, hfork, hchild⟩

end Xv6.Process
