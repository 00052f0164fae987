import Xv6.Lib.Run
import Xv6.Process.ExecSpec
import Xv6.Process.System

/-!
# The invariant holds in every run

`kinit` gives all pages to the free list; the kernel takes some of them, and
`userinit` makes the first process. The invariant holds then, and every call
keeps it.
-/

namespace Xv6.Process

open Function Lib Mem

variable [Layout] {s s' : Phys} {R : Tag → Option Nat} {o o' : Nat → Owner}

/-! ## `kinit` -/

/-- The loop of `freerange` gives `n` pages from `q` on to the free list. -/
lemma freeRounds_spec :
    ∀ (n : Nat) {s : Phys} {o : Nat → Owner} {q : Nat}, Heap s R o →
      (∀ q', q ≤ q' → q' < q + n → (o q').Plain) →
      Returns (freeRounds (4096 * q) n) s fun _ s' => ∃ o', Heap s' R o' ∧
        ∀ q', o' q' = if q ≤ q' ∧ q' < q + n then .free else o q' := by
  intro n
  induction n with
  | zero =>
    intro s o q h _
    exact returns_pure ⟨o, h, fun q' => (if_neg (by omega)).symm⟩
  | succ n ih =>
    intro s o q h hplain
    rw [freeRounds]
    refine (kfree_spec h (hplain q (Nat.le_refl q) (by omega))).bind ?_
    rintro _ s₁ ⟨rfl, h₁⟩
    have hnext : 4096 * q + pgSize = 4096 * (q + 1) := rfl
    rw [hnext]
    refine (ih h₁ fun q' hle hlt => ?_).mono ?_
    · rw [update_of_ne (by omega)]
      exact hplain q' (by omega) (by omega)
    · rintro _ s₂ ⟨o₂, h₂, ho₂⟩
      refine ⟨o₂, h₂, fun q' => ?_⟩
      rw [ho₂ q']
      by_cases he : q' = q
      · subst he
        rw [if_neg (by omega), update_self, if_pos (by omega)]
      · rw [update_of_ne he]
        by_cases hin : q + 1 ≤ q' ∧ q' < q + 1 + n
        · rw [if_pos hin, if_pos (by omega)]
        · rw [if_neg hin, if_neg (by omega)]

/-- The first page of the allocator. -/
lemma inArea_iff {q : Nat} :
    InArea q ↔ pgRoundUp Layout.kend / 4096 ≤ q ∧ q < pgRoundUp Layout.kend / 4096 + areaPages := by
  have hle := Layout.kend_le
  unfold InArea areaPages
  unfold physTop kernBase pgSize at *
  rw [pgRoundUp_eq (by omega)]
  omega

/-- `kinit`: every page is free. -/
lemma kinit_spec (m : Bytes) :
    Returns kinit ⟨m, 0⟩ fun _ s' => ∃ o, Heap s' (fun _ => none) o ∧
      ∀ q, (InArea q → o q = .free) ∧ (¬ InArea q → o q = .outside) := by
  classical
  have hstart : Heap ⟨m, 0⟩ (fun _ => none) fun q => if InArea q then Owner.boot else .outside := by
    refine ⟨?_, ⟨[], rfl, List.nodup_nil, fun q => ?_⟩, ?_, ?_, ?_, ?_, ?_⟩
    · intro q
      split
      next h => exact ⟨fun he => (by cases he), fun hn => absurd h hn⟩
      next h => exact ⟨fun _ => h, fun _ => rfl⟩
    · refine ⟨fun hm => absurd hm List.not_mem_nil, fun hf => ?_⟩
      split at hf <;> cases hf
    · rintro t r d x q ⟨⟩
    · rintro t r v q ⟨⟩
    · rintro t r d x q i ⟨⟩
    · intro q t d x hq
      split at hq <;> cases hq
    · intro q t v hq
      split at hq <;> cases hq
  have hle := Layout.kend_le
  have hpage : pgRoundUp Layout.kend = 4096 * (pgRoundUp Layout.kend / 4096) := by
    unfold physTop kernBase at hle
    rw [pgRoundUp_eq (by omega)]
    omega
  unfold kinit freerange
  have hspec := freeRounds_spec areaPages (q := pgRoundUp Layout.kend / 4096) hstart fun q hlo hhi => by
    rw [if_pos (inArea_iff.mpr ⟨hlo, hhi⟩)]
    trivial
  rw [← hpage] at hspec
  refine hspec.mono ?_
  rintro _ s' ⟨o, h, ho⟩
  refine ⟨o, h, fun q => ⟨fun hq => ?_, fun hq => ?_⟩⟩
  · rw [ho q, if_pos (inArea_iff.mp hq)]
  · rw [ho q, if_neg fun hin => hq (inArea_iff.mpr hin), if_neg hq]

/-- All pages together make room. -/
lemma room_of_free (h : ∀ q, InArea q → o q = .free) : Room areaPages o := by
  refine ⟨Finset.Ico (pgRoundUp Layout.kend / 4096) (pgRoundUp Layout.kend / 4096 + areaPages), ?_,
    fun q hq => h q (inArea_iff.mpr (Finset.mem_Ico.mp hq))⟩
  rw [Nat.card_Ico]
  omega

/-- The pages that the kernel takes for itself. -/
lemma bootPages_spec :
    ∀ (n k : Nat) {s : Phys} {o : Nat → Owner}, Heap s R o → Room (n + k) o →
      Returns (bootPages n) s fun A s' => ∃ o', Heap s' R o' ∧ Room k o' ∧
        ∀ q, 4096 * q ∈ A ∧ o q = .free ∧ o' q = .boot ∨ 4096 * q ∉ A ∧ o' q = o q := by
  intro n
  induction n with
  | zero =>
    intro k s o h hroom
    rw [Nat.zero_add] at hroom
    exact returns_pure ⟨o, h, hroom, fun q => .inr ⟨List.not_mem_nil, rfl⟩⟩
  | succ n ih =>
    intro k s o h hroom
    rw [bootPages]
    refine (kalloc_spec h).bind ?_
    rintro pa s₁ (⟨rfl, rfl, hnone⟩ | ⟨q₁, rfl, hq₁, hfree, rfl, htake⟩)
    · exact absurd (hroom.mono (by omega : 0 + 1 ≤ n + 1 + k)) (not_room_of_none hnone 0)
    · rw [if_neg (by omega)]
      have h₁ := htake.retag (q := q₁) (w := .boot) (by rw [update_self]; trivial) trivial
      rw [update_idem] at h₁
      have hroom₁ : Room (n + k) (update o q₁ .boot) :=
        (hroom.mono (by omega : 1 + (n + k) ≤ n + 1 + k)).spend (Spent.update o q₁ .boot)
      refine (ih k h₁ hroom₁).bind ?_
      rintro A s₂ ⟨o₂, h₂, hroom₂, ho₂⟩
      refine returns_pure ⟨o₂, h₂, hroom₂, fun q => ?_⟩
      rw [List.mem_cons]
      by_cases he : q = q₁
      · subst he
        refine .inl ⟨.inl rfl, hfree, ?_⟩
        rcases ho₂ q with ⟨-, hf, -⟩ | ⟨-, hsame⟩
        · rw [update_self] at hf
          cases hf
        · rw [hsame, update_self]
      · have hne : ¬ 4096 * q = 4096 * q₁ := by omega
        rcases ho₂ q with ⟨hm, hf, hb⟩ | ⟨hm, hsame⟩
        · rw [update_of_ne he] at hf
          exact .inl ⟨.inr hm, hf, hb⟩
        · rw [update_of_ne he] at hsame
          exact .inr ⟨fun ho => ho.elim hne hm, hsame⟩

/-! ## `userinit` -/

section Userinit

variable {B : Nat → Prop} {K K' : Kernel}

/-- The kernel remembers the first process. -/
lemma Inv.setInitproc (h : Inv B K o 0) (p : Nat) : Inv B { K with initproc := some p } o 0 :=
  ⟨⟨h.mem.heap, h.mem.proc⟩, h.complete, ⟨h.file.refs, h.file.bound, h.file.pipes⟩, h.boot, h.idle⟩

/-- `userinit`, when there is room for its pages. -/
lemma userinit_spec (h : Inv B K o 0) (hroom : Room 9 o) (hunused : (K.proc 0).state = .unused) :
    Returns userinit K fun _ K' => (∃ o', Inv B K' o' 0) ∧ ∃ p, K'.initproc = some p ∧
      p < nproc ∧ (K'.proc p).state = .runnable := by
  unfold userinit
  refine (allocproc_spec h.mem h.complete).bind ?_
  rintro res K₁ ⟨p, o₁, hm₁, ⟨rfl, -, hfull | hnone, -⟩ | ⟨rfl, hlt, -, hused, hpt, hsz, -, hspent⟩⟩
  · exact absurd (hroom.mono (by decide)) hfull
  · exact absurd hunused (hnone 0 (by decide))
  have h₁ := (h.allocated hm₁ hused hpt).setInitproc p
  refine returns_bind_of_eq rfl ?_
  apply returns_getProc
  obtain ⟨r, tf, hr, htf, hown, hspace⟩ := (h₁.mem.proc p).space hpt
  have hr' : (K₁.proc p).pagetable = 4096 * r := hr
  have htf' : (K₁.proc p).trapframe = 4096 * tf := htf
  rw [show (K₁.proc p).sz = 0 from hsz] at hspace
  rw [hr', htf']
  refine returns_onPhys_bind (uvmfirst_spec h₁.mem.heap (tables_proc hr hpt) hspace.user
    (hroom.spend hspent) (by decide)) ?_
  rintro _ s ⟨o₂, hch, hpages⟩
  apply returns_modifyProc
  have hm₂ := h₁.mem.resize (L := ({ K₁ with phys := s, initproc := some p }).setProc p
    { K₁.proc p with sz := pgSize }) hr hpt hch hpages
    (fun hne => setProc_other _ _ _ hne) (setProc_self ..) rfl rfl
  have h₂ := h₁.movedSame hm₂ (by rw [setProc_self]) (by rw [setProc_self]) (by rw [setProc_self])
  have htf₂ : o₂ tf = .trapframe p := (hch.within.other (by rw [hown]; exact id)).trans hown
  apply returns_store64
  have h₃ := h₂.writeTrapframe htf₂ (m := putLE _ (4096 * tf + trapframeEpc) 8 0)
    fun q hq => agree_putLE (by decide) hq
  apply returns_store64
  have h₄ := h₃.writeTrapframe htf₂ (m := putLE _ (4096 * tf + trapframeSp) 8 pgSize)
    fun q hq => agree_putLE (by decide) hq
  refine returns_modify ⟨⟨o₂, h₄.moved (Moved.of_fields h₄.mem _ rfl rfl rfl rfl)
    (h₄.complete.of_proc (fun hne => setProc_other _ _ _ hne) ?_)⟩, p, rfl, hlt, by rw [setProc_self]⟩
  rw [setProc_self, setProc_self]
  refine ⟨fun hs => (by cases hs), fun _ => hpt, fun hs => ?_⟩
  rcases hs with hs | hs <;> cases hs

end Userinit

/-! ## From the start to any state between calls -/

/-- The kernel before `userinit`. -/
lemma Machine.boot_spec (M : Machine) : ∃ A K o, M.boot = .ok (A, K) ∧
    Inv (fun q => 4096 * q ∈ A) K o 0 ∧ Room 9 o ∧ K.proc = fun _ => Proc.zero := by
  obtain ⟨_, s₁, hkinit, o₁, h₁, ho₁⟩ := kinit_spec M.mem
  have hroom₁ : Room (M.count + 9) o₁ := (room_of_free fun q hq => (ho₁ q).1 hq).mono M.room
  obtain ⟨A, s₂, hpages, o₂, h₂, hroom₂, ho₂⟩ := bootPages_spec M.count 9 h₁ hroom₁
  -- every page is free, taken, or not of the area
  have hcases : ∀ q, o₂ q = .boot ∧ 4096 * q ∈ A ∨ 4096 * q ∉ A ∧ (o₂ q = .free ∨ o₂ q = .outside) := by
    intro q
    rcases ho₂ q with ⟨hm, -, hb⟩ | ⟨hm, hsame⟩
    · exact .inl ⟨hb, hm⟩
    · refine .inr ⟨hm, ?_⟩
      rw [hsame]
      by_cases hq : InArea q
      · exact .inl ((ho₁ q).1 hq)
      · exact .inr ((ho₁ q).2 hq)
  have hnot : ∀ {q y}, o₂ q = y → y ≠ .boot → y ≠ .free → y ≠ .outside → False := by
    rintro q _ rfl hb hf ho
    rcases hcases q with ⟨h, -⟩ | ⟨-, h | h⟩
    · exact hb h
    · exact hf h
    · exact ho h
  have hheap : Heap (s₂.withMem (M.own A s₂.mem)) (fun _ => none) o₂ := h₂.write fun q hq => by
    have hfree : o₂ q = .free := by
      rcases hq with hq | ⟨t, d, x, hq⟩
      · exact hq
      · exact (hnot hq (by rintro ⟨⟩) (by rintro ⟨⟩) (by rintro ⟨⟩)).elim
    refine M.own_agree A s₂.mem q (h₂.inArea (by rw [hfree]; rintro ⟨⟩)) ?_
    rcases hcases q with ⟨hb, -⟩ | ⟨hm, -⟩
    · rw [hfree] at hb
      cases hb
    · exact hm
  refine ⟨A, Kernel.fresh (s₂.withMem (M.own A s₂.mem)), o₂, ?_, ⟨⟨?_, fun p => ?_⟩, fun p => ?_,
    ⟨?_, ?_, ?_⟩, ?_, ?_⟩, hroom₂, rfl⟩
  · unfold Machine.boot
    rw [hkinit]
    show (bootPages M.count s₁ >>= _) = _
    rw [hpages]
    rfl
  · refine Eq.mp (congrArg (fun R => Heap _ R o₂) (funext fun t => ?_)) hheap
    cases t <;> rfl
  · exact ⟨fun hne => absurd rfl hne, fun hne => absurd rfl hne,
      fun hq => (hnot hq (by rintro ⟨⟩) (by rintro ⟨⟩) (by rintro ⟨⟩)).elim,
      Nat.two_pow_pos 40, fun _ => rfl⟩
  · exact ⟨fun _ => ⟨rfl, rfl⟩, fun hne => absurd rfl hne, fun _ _ => rfl⟩
  · intro f
    have hzero : Lib.count slots (fds (Kernel.fresh (s₂.withMem (M.own A s₂.mem)))) f = 0 :=
      count_eq_zero (fun x _ => rfl) f
    rw [hzero]
    rfl
  · rintro p fd f ⟨⟩
  · refine ⟨?_, ?_, ?_, ?_, ?_⟩
    · rintro f ⟨⟩
    · rintro f ⟨⟩
    · rintro q w f g ⟨⟨⟩, -⟩
    · intro q hq
      exact (hnot hq (by rintro ⟨⟩) (by rintro ⟨⟩) (by rintro ⟨⟩)).elim
    · intro q w hq
      exact (hnot hq (by rintro ⟨⟩) (by rintro ⟨⟩) (by rintro ⟨⟩)).elim
  · intro q
    rcases hcases q with ⟨hb, hm⟩ | ⟨hm, h | h⟩
    · exact ⟨fun _ => hm, fun _ => hb⟩
    · rw [h]
      exact ⟨fun he => (by cases he), fun hin => absurd hin hm⟩
    · rw [h]
      exact ⟨fun he => (by cases he), fun hin => absurd hin hm⟩
  · intro q hq
    rcases hcases q with ⟨h, -⟩ | ⟨-, h | h⟩ <;> rw [h] at hq <;> exact hq

/-- The kernel after `userinit`. -/
lemma Machine.start_spec (M : Machine) : ∃ A K, M.start = .ok (A, K) ∧
    (∃ o, Inv (fun q => 4096 * q ∈ A) K o 0) ∧
    ∃ p, K.initproc = some p ∧ p < nproc ∧ (K.proc p).state = .runnable := by
  obtain ⟨A, K, o, hboot, h, hroom, hproc⟩ := M.boot_spec
  obtain ⟨_, K', hinit, hK'⟩ := userinit_spec h hroom (by rw [hproc]; rfl)
  refine ⟨A, K', ?_, hK'⟩
  unfold Machine.start
  rw [hboot]
  show (userinit K >>= _) = _
  rw [hinit]
  rfl

variable {B : Nat → Prop} {K K' : Kernel} {c : Call}

/-- A call returns and keeps the invariant, unless it is `exit` of the first process. -/
lemma Call.run_spec (h : Inv B K o 0) (hc : c.enabled K)
    (hinit : ∀ p status, c = .exit p status → K.initproc ≠ some p) :
    Returns c.run K fun _ K' => ∃ o', Inv B K' o' 0 := by
  have hr : Running K c.proc := by
    refine ⟨hc.1, ?_, ?_⟩ <;> rw [hc.2] <;> rintro ⟨⟩
  cases c with
  | fork p => exact (fork_spec h hr).bind fun _ _ ⟨o', h', _⟩ => returns_pure ⟨o', h'⟩
  | exec p namei upath uargv =>
    exact (sysExec_spec h hr namei upath uargv).bind fun _ _ hK => returns_pure hK
  | sbrk p n => exact (sysSbrk_spec h hr n).bind fun _ _ hK => returns_pure hK
  | exit p status =>
    exact (exit_spec h hr (hinit p status rfl) status).mono fun _ _ ⟨o', h', _⟩ => ⟨o', h'⟩
  | wait p addr => exact (wait_spec h hr addr).bind fun _ _ hK => returns_pure hK
  | pipe p fdarray =>
    refine (sysPipe_spec h hr fdarray).bind fun _ _ hK => returns_pure ?_
    rcases hK with ⟨-, hu⟩ | ⟨-, q, hp⟩
    · exact ⟨o, hu.inv⟩
    · exact ⟨_, hp.inv⟩
  | dup p fd => exact (sysDup_spec h hr fd).bind fun _ _ hK => returns_pure ⟨o, hK.1⟩
  | close p fd => exact (sysClose_spec h hr fd).bind fun _ _ ⟨o', h', _⟩ => returns_pure ⟨o', h'⟩
  | kill p pid => exact (kill_spec h pid).bind fun _ _ hK => returns_pure hK
  | store p va bs =>
    apply returns_getProc
    exact (h.copyout ((h.complete p).used hr.used) va bs).bind fun _ _ hK =>
      returns_pure ⟨o, hK.1⟩

/-- `exit` of the first process. -/
lemma Call.exit_init {p : Nat} {status : Int} (h : K.initproc = some p) :
    (Call.exit p status).run K = .error .initExiting := by
  show (if K.initproc = some p then throw .initExiting else _ : KernelM Unit) K = _
  rw [if_pos h]
  rfl

/-- The only panic that a call can reach. -/
lemma Call.run_error (h : Inv B K o 0) (hc : c.enabled K) {e : Panic} (he : c.run K = .error e) :
    e = .initExiting := by
  by_cases hinit : ∃ p status, c = .exit p status ∧ K.initproc = some p
  · obtain ⟨p, status, rfl, hp⟩ := hinit
    rw [Call.exit_init hp] at he
    cases he
    rfl
  · exact absurd he (Call.run_spec h hc fun p status hce hp => hinit ⟨p, status, hce, hp⟩).not_error

lemma step_some (hs : step K c = some K') : c.enabled K ∧ c.run K = .ok ((), K') := by
  unfold step at hs
  split at hs
  next hc =>
    split at hs
    next u L hrun =>
      obtain rfl : L = K' := Option.some.inj hs
      exact ⟨hc, hrun⟩
    next => cases hs
  next => cases hs

lemma step_inv (h : ∃ o, Inv B K o 0) (hs : step K c = some K') : ∃ o, Inv B K' o 0 := by
  obtain ⟨o, h⟩ := h
  obtain ⟨hc, hrun⟩ := step_some hs
  refine (Call.run_spec h hc fun p status hce hp => ?_).eq hrun
  rw [hce, Call.exit_init hp] at hrun
  cases hrun

/-- The invariant holds in every state between calls. -/
lemma run_inv {cs : List Call} (h : ∃ o, Inv B K o 0) (hrun : run step K cs = some K') :
    ∃ o, Inv B K' o 0 :=
  run_induction (P := fun _ K => ∃ o, Inv B K o 0) hrun h fun _ _ _ _ hinv hs => step_inv hinv hs

end Xv6.Process
