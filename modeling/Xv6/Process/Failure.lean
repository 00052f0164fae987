import Xv6.Process.Permissions

/-!
# Calls that fail

`fork` and `sys_pipe` take pages, files and descriptors one after the other, and any
of them may be missing. Which pages are free follows from what the others are used
for, so what has to be shown of a failed call is that the slots, the files and the
page tables are as they were (`Restored`). `growproc` may keep the page-table pages
that it has added, and only these (`Ungrown`).
-/

namespace Xv6.Process

open Lib Mem

variable [Layout] {B : Nat → Prop} {K K' : Kernel} {o o' : Nat → Owner} {p : Nat}

/-! ## Address spaces that stay -/

section

variable {s s' : Phys} {R R' : Tag → Option Nat} {t : Tag} {r : Nat}

/-- Two tables with the same valid entries map the same. -/
lemma mapping_congr (h : Heap s R o) (h' : Heap s' R' o') (hR : R t = some r)
    (hR' : R' t = some r)
    (hpte : ∀ v, v < 512 ^ 3 → pteAt s'.mem r v = pteAt s.mem r v ∨
      pteKid (pteAt s.mem r v) = none ∧ pteKid (pteAt s'.mem r v) = none) (va : Nat) :
    mapping s' (4096 * r) va = mapping s (4096 * r) va := by
  by_cases hva : va < maxVa
  · rw [mapping_eq h hR hva, mapping_eq h' hR' hva]
    rcases hpte (va / 4096) (by unfold maxVa at hva; omega) with he | ⟨hnone, hnone'⟩
    · rw [he]
    · rw [if_pos (pteKid_eq_none.mp hnone), if_pos (pteKid_eq_none.mp hnone')]
  · rw [mapping_ge (Nat.le_of_not_lt hva), mapping_ge (Nat.le_of_not_lt hva)]

end

/-- The address spaces of all processes are as they were. -/
def SameMaps (K K' : Kernel) : Prop :=
  ∀ p, (K'.proc p).pagetable = (K.proc p).pagetable ∧ ((K.proc p).pagetable ≠ 0 →
    ∀ va, mapping K'.phys (K.proc p).pagetable va = mapping K.phys (K.proc p).pagetable va)

lemma MemInv.sameMaps (h : MemInv K o) (h' : MemInv K' o')
    (hpagetable : ∀ p, (K'.proc p).pagetable = (K.proc p).pagetable)
    (hptes : ∀ p r v, (K.proc p).pagetable = 4096 * r → (K.proc p).pagetable ≠ 0 → v < 512 ^ 3 →
      pteAt K'.phys.mem r v = pteAt K.phys.mem r v) : SameMaps K K' := by
  refine fun p => ⟨hpagetable p, fun hne va => ?_⟩
  obtain ⟨r, tf, hr, -⟩ := (h.proc p).space hne
  have hr' := (hpagetable p).trans hr
  rw [hr]
  exact mapping_congr h.heap h'.heap (tables_proc hr hne) (tables_proc hr' (by rw [hpagetable]; exact hne))
    (fun v hv => .inl (hptes p r v hr hne hv)) va

/-! ## `fork` and `pipe` -/

/-- After a failed call: what the kernel has given away is what it had given away
before. -/
structure Restored (K K' : Kernel) : Prop where
  free : freePages K'.phys = freePages K.phys
  refs : ∀ f, (K'.ftable f).ref = (K.ftable f).ref
  files : SameFiles K K'
  maps : SameMaps K K'
  ofile : ∀ p, (K'.proc p).ofile = (K.proc p).ofile
  /-- A slot that the call had taken is unused again. -/
  state : ∀ p, (K'.proc p).state = (K.proc p).state

omit [Layout] in
lemma Restored.refl (K : Kernel) : Restored K K :=
  ⟨rfl, fun _ => rfl, fun _ _ => rfl, fun _ => ⟨rfl, fun _ _ => rfl⟩, fun _ => rfl, fun _ => rfl⟩

/-- An unused slot has no pages. -/
lemma Inv.free_of_private {q : Nat} (h : Inv B K o 0) (hs : (K.proc p).state = .unused)
    (hq : Private p (o q)) : o q = .free := by
  obtain ⟨hpt, htf⟩ := (h.complete p).unused hs
  have hnone : ∀ t, t = .proc p ∨ t = .image → tables K t = none := by
    rintro t (rfl | rfl)
    · exact tables_none hpt
    · rfl
  cases ho : o q with
  | free => rfl
  | temp | held k => exact absurd (ho ▸ trivial) (h.idle q)
  | table t d x =>
    rw [ho] at hq
    exact absurd ho (not_table_of_none h.mem.heap (hnone t hq) q d x)
  | user t v =>
    rw [ho] at hq
    exact absurd ho (not_user_of_none h.mem.heap (hnone t hq) q v)
  | trapframe p' =>
    rw [ho] at hq
    obtain rfl : p' = p := hq
    exact absurd ho (h.mem.no_trapframe htf q)
  | outside | pipe | boot => rw [ho] at hq; exact hq.elim

/-- A step for an unused slot that leaves it unused frees what it takes. -/
lemma Inv.owners_cancelled (h : Inv B K o 0) (h' : Inv B K' o' 0) (hm : Moved p K o K' o')
    (hs : (K.proc p).state = .unused) (hs' : (K'.proc p).state = .unused) : o' = o := by
  funext q
  by_cases hq : Private p (o q)
  · rw [h.free_of_private hs hq, h'.free_of_private hs' (hm.frame.mine hq)]
  · exact hm.frame.other hq

lemma Inv.restored_cancelled (h : Inv B K o 0) (h' : Inv B K' o' 0) (hm : Moved p K o K' o')
    (hc : Cancelled p K o K' o') : Restored K K' := by
  rcases hc with ⟨rfl, -⟩ | ⟨hs, hs'⟩
  · exact Restored.refl _
  obtain rfl := h.owners_cancelled h' hm hs hs'
  have hofile : ∀ p', (K'.proc p').ofile = (K.proc p').ofile := by
    intro p'
    by_cases he : p' = p
    · rw [he]
      exact hm.ofile
    · rw [hm.others he]
  refine ⟨?_, fun f => by rw [hm.ftable], fun g _ => by rw [hm.ftable], ?_, hofile, fun p' => ?_⟩
  · ext q
    rw [h.mem.heap.mem_freePages, h'.mem.heap.mem_freePages]
  · refine h.mem.sameMaps h'.mem (fun p' => ?_) fun p' r v hr hne hv => ?_
    · by_cases he : p' = p
      · rw [he, ((h.complete p).unused hs).1, ((h'.complete p).unused hs').1]
      · rw [hm.others he]
    · have he : p' ≠ p := by
        rintro rfl
        exact hne ((h.complete p').unused hs).1
      have hsame := hm.others he
      exact (Private.untouched he (by rw [hsame]) (by rw [hsame]) (by rw [hsame])).ptes h.mem hm.frame
        hr hne hv
  · by_cases he : p' = p
    · rw [he, hs, hs']
    · rw [hm.others he]

lemma Undone.restored (hu : Undone B K o K') (h : Inv B K o 0) : Restored K K' := by
  have h' := hu.inv
  have hofile : ∀ p, (K'.proc p).ofile = (K.proc p).ofile := fun p => by rw [hu.proc]
  refine ⟨?_, h.file.ref_congr h'.file hofile, hu.files, ?_, hofile, fun p => by rw [hu.proc]⟩
  · ext q
    rw [h.mem.heap.mem_freePages, h'.mem.heap.mem_freePages]
  · refine h.mem.sameMaps h'.mem (fun p => by rw [hu.proc]) fun p r v hr hne hv => ?_
    exact (h.mem.heap.table_congr (tables_proc hr hne) fun q d x hq => hu.tables hq).2 v hv

/-! ## `growproc` -/

/-- After `growproc` has failed for process `p`. -/
structure Ungrown (p : Nat) (K K' : Kernel) : Prop where
  proc : K'.proc = K.proc
  maps : SameMaps K K'
  /-- Of the pages that it took, page-table pages below the root stay. -/
  free : ∀ q, q ∈ freePages K.phys → q ∈ freePages K'.phys ∨ ∃ d x, 0 < d ∧ d ≤ 2 ∧ x < 512 ^ d ∧
    node K'.phys.mem ((K.proc p).pagetable / pgSize) d x = some q

/-- A table that changed above its user pages and has no others maps what it did. -/
lemma Inv.ungrown {r sz : Nat} (h : Inv B K o 0) (hm : Moved p K o K' o')
    (h' : Inv B K' o' 0) (hself : K'.proc p = K.proc p) (hr : (K.proc p).pagetable = 4096 * r)
    (hne : (K.proc p).pagetable ≠ 0) (hsz : (K.proc p).sz = sz)
    (hch : Changed (tables K) (.proc p) r (pages sz) K.phys o K'.phys o')
    (hpages : UserPages (fun v => pteAt K'.phys.mem r v) (pages sz)) : Ungrown p K K' := by
  have hproc : K'.proc = K.proc := by
    funext p'
    by_cases he : p' = p
    · rw [he, hself]
    · exact hm.others he
  have hR := tables_proc hr hne
  have hR' : tables K' (.proc p) = some r := tables_proc (by rw [hproc]; exact hr) (by rw [hproc]; exact hne)
  obtain ⟨r', tf, hr', -, -, hspace⟩ := (h.mem.proc p).space hne
  obtain rfl : r' = r := by omega
  rw [hsz] at hspace
  have hptes : ∀ v, v < 512 ^ 3 → pteAt K'.phys.mem r' v = pteAt K.phys.mem r' v ∨
      pteKid (pteAt K.phys.mem r' v) = none ∧ pteKid (pteAt K'.phys.mem r' v) = none := by
    intro v hv
    by_cases hk : v < pages sz ∨ ¬ UserVpn v
    · exact .inl (hch.ptes hv hk)
    · rw [not_or, not_not] at hk
      exact .inr ⟨hspace.user.unmapped hk.2 (Nat.le_of_not_lt hk.1),
        hpages.unmapped hk.2 (Nat.le_of_not_lt hk.1)⟩
  refine ⟨hproc, fun p' => ⟨by rw [hproc], fun hne' va => ?_⟩, fun q hq => ?_⟩
  · by_cases he : p' = p
    · rw [he, hr']
      exact mapping_congr h.mem.heap h'.mem.heap hR hR' hptes va
    · obtain ⟨r₁, tf₁, hr₁, -⟩ := (h.mem.proc p').space hne'
      have hsame := hm.others he
      rw [hr₁]
      refine mapping_congr h.mem.heap h'.mem.heap (tables_proc hr₁ hne')
        (tables_proc (by rw [hsame]; exact hr₁) (by rw [hsame]; exact hne')) (fun v hv => .inl ?_) va
      exact (Private.untouched he (by rw [hsame]) (by rw [hsame]) (by rw [hsame])).ptes h.mem hm.frame
        hr₁ hne' hv
  · rw [h.mem.heap.mem_freePages] at hq
    rw [h'.mem.heap.mem_freePages, hr', pgSize, Nat.mul_div_cancel_left _ (by decide)]
    have hof : (o' q).Of (.proc p) := hch.within.mine (by rw [hq]; trivial)
    cases ho : o' q with
    | free => exact .inl rfl
    | temp => exact absurd (ho ▸ trivial) (h'.idle q)
    | table t d x =>
      rw [ho] at hof
      obtain rfl : t = .proc p := hof
      obtain ⟨-, hd, hx⟩ := h'.mem.heap.tableLive ho
      have hnode := (h'.mem.heap.table hR' hd hx).mpr ho
      refine .inr ⟨d, x, Nat.pos_of_ne_zero fun hz => ?_, hd, hx, hnode⟩
      -- the root was a page of the table before
      subst hz
      have hroot : r' = q := Option.some.inj hnode
      rw [← hroot, h.mem.heap.root hR] at hq
      cases hq
    | user t v =>
      rw [ho] at hof
      obtain rfl : t = .proc p := hof
      have hv := (h'.mem.heap.userLive ho).2
      have hkid := (h'.mem.heap.user hR' hv).mpr ho
      rcases hptes v hv.1 with he | ⟨-, hnone⟩
      · -- a page of the old address space is not free
        rw [he, h.mem.heap.user hR hv, hq] at hkid
        cases hkid
      · rw [hnone] at hkid
        cases hkid
    | outside | trapframe p' | pipe | boot | held k => rw [ho] at hof; exact hof.elim

/-! ## All states between calls -/

/-- The kernel between calls, with the pages `A` taken at boot. -/
def Sound (A : List Nat) (K : Kernel) : Prop := ∃ o, Inv (fun q => 4096 * q ∈ A) K o 0

/-- Process `np` is new, and `fork` has returned its pid. -/
structure Made (np : Nat) (pid : Int) (K K' : Kernel) : Prop where
  unused : (K.proc np).state = .unused
  state : (K'.proc np).state = .runnable
  pid : (K'.proc np).pid = pid

lemma fork_failed {K' : Kernel} (h : Inv B K o 0) (hr : Running K p) (hf : fork p K = .ok (-1, K')) :
    Restored K K' ∨ K.nextpid = -1 ∧ ∃ np, Made np (-1) K K' := by
  obtain ⟨o', h', -, ⟨hpid, np, hmade⟩ | ⟨-, np, hm, hc⟩⟩ := (fork_spec h hr).eq hf
  · exact .inr ⟨hpid.symm, np, hmade.unused, hmade.state, hmade.pid.trans hpid.symm⟩
  · exact .inl (h.restored_cancelled h' hm hc)

lemma sysPipe_failed {K' : Kernel} {fdarray : Nat} (h : Inv B K o 0) (hr : Running K p)
    (hf : sysPipe p fdarray K = .ok (-1, K')) : Restored K K' := by
  rcases (sysPipe_spec h hr fdarray).eq hf with ⟨-, hu⟩ | ⟨hz, -⟩
  · exact hu.restored h
  · exact absurd hz (by decide)

lemma growproc_failed {K' : Kernel} {n : Int} (h : Inv B K o 0) (hr : Running K p)
    (hf : growproc p n K = .ok (-1, K')) : Ungrown p K K' := by
  have hne := (h.complete p).used hr.used
  obtain ⟨o', sz, hm, hself, hfail, -⟩ := (growproc_spec h.mem hne n).eq hf
  obtain ⟨rfl, r, hpt, hch, hpages⟩ := hfail rfl
  have hsame : K'.proc p = K.proc p := hself
  have h' : Inv B K' o' 0 :=
    h.movedSame hm (by rw [hsame]) (by rw [hsame]) (by rw [hsame])
  exact h.ungrown hm h' hsame hpt hne rfl hch hpages

/-- In every state between calls, and whatever is missing: `fork` and `pipe` that return -1
have changed nothing, and a `growproc` that returns -1 keeps page-table pages at most. After
2^32 - 2 calls `nextpid` is -1, and the `fork` that returns it has not failed. -/
theorem Machine.failed_calls (M : Machine) : ∃ A K₀, M.start = .ok (A, K₀) ∧
    (∀ cs K, run step K₀ cs = some K → Sound A K) ∧
    ∀ K p, Sound A K → Running K p →
      (∀ K', fork p K = .ok (-1, K') → Restored K K' ∨ K.nextpid = -1 ∧ ∃ np, Made np (-1) K K') ∧
      (∀ fdarray K', sysPipe p fdarray K = .ok (-1, K') → Restored K K') ∧
      ∀ n K', 0 < n → growproc p n K = .ok (-1, K') → Ungrown p K K' := by
  obtain ⟨A, K₀, hstart, hinv, -⟩ := M.start_spec
  refine ⟨A, K₀, hstart, fun cs K hrun => run_inv hinv hrun, fun K p hK hr => ?_⟩
  obtain ⟨o, h⟩ := hK
  exact ⟨fun K' hf => fork_failed h hr hf, fun fdarray K' hf => sysPipe_failed h hr hf,
    fun n K' _ hf => growproc_failed h hr hf⟩

/-! ## A machine without memory -/

section

omit [Layout]

/-- The first process of the small machine has one page and can run. -/
def startsRunnable : Bool :=
  letI := crowded
  match Machine.sixteen.start with
  | .ok (_, K₀) => (K₀.proc 0).state == .runnable && (K₀.proc 0).sz == 4096
  | .error _ => false

lemma startsRunnable_eq : startsRunnable = true := by decide +kernel

lemma running_of_runnable (hp : p < nproc) (h : (K.proc p).state = .runnable) : Running K p := by
  refine ⟨hp, ?_, ?_⟩ <;> rw [h] <;> rintro ⟨⟩

lemma Machine.sixteen_start :
    letI := crowded
    ∃ A K₀, Machine.sixteen.start = .ok (A, K₀) ∧ Sound A K₀ ∧ Running K₀ 0 ∧
      (K₀.proc 0).sz = 4096 := by
  let _ := crowded
  obtain ⟨A, K₀, hstart, hinv, -⟩ := Machine.start_spec Machine.sixteen
  have h := startsRunnable_eq
  unfold startsRunnable at h
  rw [hstart] at h
  simp only [Bool.and_eq_true, beq_iff_eq] at h
  exact ⟨A, K₀, hstart, hinv, running_of_runnable (by decide) h.1, h.2⟩

/-- The call returns -1. -/
def fails : Except Panic (Int × Kernel) → Bool
  | .ok (r, _) => r = -1
  | .error _ => false

lemma exists_of_fails {res : Except Panic (Int × Kernel)} (h : fails res = true) :
    ∃ K', res = .ok (-1, K') := by
  cases res with
  | error e => cases h
  | ok x =>
    obtain ⟨r, K'⟩ := x
    obtain rfl : r = -1 := of_decide_eq_true h
    exact ⟨K', rfl⟩

/-- The first process takes the last page, and nothing works any more. -/
def exhausted : Bool :=
  letI := crowded
  match Machine.sixteen.start with
  | .ok (_, K₀) =>
    match run step K₀ [.sbrk 0 36864] with
    | some K => fails (fork 0 K) && fails (sysPipe 0 0 K) && fails (growproc 0 1 K) &&
        K.nextpid != -1 && (K.proc 0).state == .runnable
    | none => false
  | .error _ => false

lemma exhausted_eq : exhausted = true := by decide +kernel

theorem Machine.failed_calls_small :
    letI := crowded
    ∃ A K₀ K K₁ K₂ K₃, Machine.sixteen.start = .ok (A, K₀) ∧
      run step K₀ [.sbrk 0 36864] = some K ∧ fork 0 K = .ok (-1, K₁) ∧ Restored K K₁ ∧
      sysPipe 0 0 K = .ok (-1, K₂) ∧ Restored K K₂ ∧ growproc 0 1 K = .ok (-1, K₃) ∧
      Ungrown 0 K K₃ := by
  let _ := crowded
  obtain ⟨A, K₀, hstart, hsound, hcalls⟩ := Machine.failed_calls Machine.sixteen
  have hfail := exhausted_eq
  unfold exhausted at hfail
  rw [hstart] at hfail
  dsimp only at hfail
  cases hrun : run step K₀ [.sbrk 0 36864] with
  | none =>
    rw [hrun] at hfail
    cases hfail
  | some K =>
    rw [hrun] at hfail
    simp only [Bool.and_eq_true, bne_iff_ne, beq_iff_eq] at hfail
    obtain ⟨⟨⟨⟨hfork, hpipe⟩, hgrow⟩, hpid⟩, hstate⟩ := hfail
    have hr : Running K 0 := running_of_runnable (by decide) hstate
    obtain ⟨K₁, h₁⟩ := exists_of_fails hfork
    obtain ⟨K₂, h₂⟩ := exists_of_fails hpipe
    obtain ⟨K₃, h₃⟩ := exists_of_fails hgrow
    obtain ⟨hf, hp, hg⟩ := hcalls K 0 (hsound _ K hrun) hr
    have hres : Restored K K₁ := (hf K₁ h₁).resolve_right fun hmade => hpid hmade.1
    exact ⟨A, K₀, K, K₁, K₂, K₃, hstart, hrun, h₁, hres, h₂, hp 0 K₂ h₂, h₃,
      hg 1 K₃ (by decide) h₃⟩

end

end Xv6.Process
