import Xv6.Log.GroupCommit

/-!
# Log space reservation

`begin_op` admits an operation when `MAXOPBLOCKS` blocks for it and for every
operation inside still fit in `LOGSIZE`. `log_write` panics when `log.lh.n`
has reached `log.size - 1`, and it does so before it looks whether the block is
in the log already. With the superblock of `mkfs`, `log.size` is `LOGSIZE` and
counts the header block, so the log holds one block fewer than `begin_op` gives
out.

`Sys.boundedStep` is the system in which every operation keeps to its
`MAXOPBLOCKS` distinct blocks. Its runs reach the panic exactly when some
`log_write` is made after `LOGSIZE - 1` distinct blocks were logged in the open
transaction (`tooBig_iff`).
-/

namespace Xv6.Log

open Finset Function Lib Sys

/-- Whether an action keeps its operation to `k` distinct blocks. -/
def Act.bounded (k : Nat) (s : Sys) : Act → Bool
  | .logWrite p b => match s.procs p with
      | .inOp _ used => decide (b ∈ used ∨ used.length < k)
      | _ => true
  | _ => true

/-- An action of the system in which every operation logs at most `k` distinct
blocks. -/
def Sys.boundedStep (k : Nat) (s : Sys) (a : Act) : Option Sys :=
  if a.bounded k s then s.step a else none

/-- The distinct blocks logged in the open transaction, from the history. -/
def Sys.openBlocks (s : Sys) : List Nat :=
  ((s.writes.filter fun w => w.txn = s.txn).map Write.block).dedup

lemma Sys.boundedStep_eq {k : Nat} {s s' : Sys} {a : Act} (h : s.boundedStep k a = some s') :
    a.bounded k s = true ∧ s.step a = some s' := by
  unfold boundedStep at h
  split at h
  next hb => exact ⟨hb, h⟩
  next => cases h

lemma Sys.boundedRun_inv {k : Nat} {size : Int} {as : List Act} {s : Sys}
    (hrun : run (boundedStep k) (init size) as = some s) : s.Control ∧ s.History := by
  apply run_induction (P := fun _ s => s.Control ∧ s.History) hrun
  · exact ⟨Sys.Control.init size, Sys.History.init size⟩
  · intro _ t a t' h ht
    obtain ⟨-, ht⟩ := boundedStep_eq ht
    exact ⟨h.1.step ht, h.2.step h.1 ht⟩

/-- The history knows how long `lh` is. -/
lemma Sys.History.length_openBlocks {s : Sys} (h : s.History) :
    s.openBlocks.length = s.lh.length := by
  apply List.Perm.length_eq
  unfold openBlocks
  rw [List.perm_ext_iff_of_nodup (List.nodup_dedup _) h.nodup]
  intro b
  rw [h.pending]
  simp [and_assoc]

lemma Sys.step_size {s s' : Sys} {a : Act} (h : s.step a = some s') : s'.size = s.size := by
  obtain ⟨-, hcases⟩ := step_cases h
  rcases hcases with ⟨p, rfl, hp, rfl⟩ | ⟨p, b, op, used, rfl, hp, rfl⟩ |
    ⟨p, op, used, rfl, hp, rfl⟩ | ⟨p, pc, rfl, hp, rfl⟩
  · unfold beginOp
    split
    · rfl
    · split <;> rfl
  · unfold logWrite
    split
    · rfl
    · split <;> rfl
  · simp only [endOp]
    split
    · rfl
    · split <;> rfl
  · cases pc <;> rfl

lemma Sys.boundedRun_size {k : Nat} {size : Int} {as : List Act} {s : Sys}
    (hrun : run (boundedStep k) (init size) as = some s) : s.size = size := by
  apply run_induction (P := fun _ s => s.size = size) hrun
  · rfl
  · intro _ t a t' h ht
    rw [step_size (boundedStep_eq ht).2, h]

/-- Which action panics, and why. -/
lemma Sys.step_panic {s s' : Sys} {a : Act} (hc : s.Control) (h : s.step a = some s')
    (hp : s'.panic ≠ none) :
    (∃ p b, a = .logWrite p b) ∧ s'.panic = some .tooBig ∧
      ((s.lh.length : Int) ≥ logSize ∨ (s.lh.length : Int) ≥ s.size - 1) := by
  obtain ⟨hnone, hcases⟩ := step_cases h
  rcases hcases with ⟨p, rfl, hph, rfl⟩ | ⟨p, b, op, used, rfl, hph, rfl⟩ |
    ⟨p, op, used, rfl, hph, rfl⟩ | ⟨p, pc, rfl, hph, rfl⟩
  · refine absurd ?_ hp
    unfold beginOp
    split
    · exact hnone
    · split <;> exact hnone
  · by_cases hfull : (s.lh.length : Int) ≥ logSize ∨ (s.lh.length : Int) ≥ s.size - 1
    · exact ⟨⟨p, b, rfl⟩, by rw [logWrite, if_pos hfull], hfull⟩
    · have hout := hc.outstanding_pos ⟨op, used, hph⟩
      refine absurd ?_ hp
      rw [logWrite, if_neg hfull, if_neg (by omega)]
      exact hnone
  · have hfalse := hc.committing_false ⟨op, used, hph⟩
    refine absurd ?_ hp
    simp only [endOp, hfalse, Bool.false_eq_true, if_false]
    split <;> exact hnone
  · refine absurd ?_ hp
    cases pc <;> exact hnone

lemma Sys.step_logWrite_full {s s' : Sys} {p b : Nat} (h : s.step (.logWrite p b) = some s')
    (hfull : (s.lh.length : Int) ≥ logSize ∨ (s.lh.length : Int) ≥ s.size - 1) :
    s'.panic = some .tooBig := by
  obtain ⟨-, hcases⟩ := step_cases h
  rcases hcases with ⟨q, heq, -⟩ | ⟨q, c, op, used, heq, -, rfl⟩ | ⟨q, op, used, heq, -⟩ |
    ⟨q, pc, heq, -⟩
  · cases heq
  · rw [logWrite, if_pos hfull]
  · cases heq
  · cases heq

/-- Nothing happens after a panic. -/
lemma Sys.run_of_panic {k : Nat} {s s' : Sys} {as : List Act} (hp : s.panic ≠ none)
    (h : run (boundedStep k) s as = some s') : s' = s := by
  cases as with
  | nil => exact (Option.some.inj h).symm
  | cons a as =>
    obtain ⟨s₁, h₁, -⟩ := run_cons.mp h
    exact absurd (step_cases (boundedStep_eq h₁).2).1 hp

/-- On a disk with the superblock of `mkfs`, a run whose operations keep to
`MAXOPBLOCKS` distinct blocks avoids `panic("too big a transaction")` exactly
when each of its `log_write`s is made with fewer than `LOGSIZE - 1` distinct
blocks logged in the open transaction. -/
theorem tooBig_iff {as : List Act} {s : Sys}
    (hrun : run (boundedStep maxOpBlocks) (init nlog) as = some s) :
    s.panic ≠ some .tooBig ↔
      ∀ pre p b post t, as = pre ++ .logWrite p b :: post →
        run (boundedStep maxOpBlocks) (init nlog) pre = some t →
        t.openBlocks.length < logSize - 1 := by
  constructor
  · intro hs pre p b post t has ht
    obtain ⟨-, hh⟩ := boundedRun_inv ht
    rw [has, run_append] at hrun
    obtain ⟨t', ht', hrest⟩ := hrun
    obtain rfl : t = t' := Option.some.inj (ht.symm.trans ht')
    obtain ⟨t₁, h₁, hpost⟩ := run_cons.mp hrest
    by_contra hfull
    -- the call would have panicked, and the run would have ended there
    have hpanic := step_logWrite_full (boundedStep_eq h₁).2 (by
      rw [boundedRun_size ht, ← hh.length_openBlocks]
      simp only [nlog, logSize, maxOpBlocks] at hfull ⊢
      omega)
    rw [run_of_panic (by simp [hpanic]) hpost] at hs
    exact hs hpanic
  · intro hall hs
    cases as using List.reverseRecOn with
    | nil =>
      cases hrun
      cases hs
    | append_singleton as a =>
      obtain ⟨t, ht, hstep⟩ := run_concat.mp hrun
      obtain ⟨hc, hh⟩ := boundedRun_inv ht
      obtain ⟨⟨p, b, rfl⟩, -, hfull⟩ :=
        step_panic hc (boundedStep_eq hstep).2 (by simp [hs])
      have := hall as p b [] t rfl ht
      rw [boundedRun_size ht, ← hh.length_openBlocks] at hfull
      simp only [nlog, logSize, maxOpBlocks] at this hfull
      omega

/-- Three operations that log blocks of one another, of which two have ended. -/
def interleaved : List Act :=
  [.beginOp 0, .beginOp 1, .beginOp 2, .logWrite 0 7, .logWrite 1 8, .logWrite 1 7, .logWrite 0 8, .endOp 0,
    .logWrite 2 9, .endOp 1]

theorem tooBig_iff_interleaved :
    ∃ s, run (boundedStep maxOpBlocks) (init nlog) interleaved = some s ∧ s.panic ≠ some .tooBig ∧
      ∀ pre p b post t, interleaved = pre ++ .logWrite p b :: post →
        run (boundedStep maxOpBlocks) (init nlog) pre = some t →
        t.openBlocks.length < logSize - 1 := by
  obtain ⟨s, hs, hp⟩ := Option.map_eq_some_iff.mp
    (by decide +kernel :
      (run (boundedStep maxOpBlocks) (init nlog) interleaved).map panic = some none)
  have hno : s.panic ≠ some .tooBig := by
    rw [hp]
    nofun
  exact ⟨s, hs, hno, (tooBig_iff hs).mp hno⟩

/-- Three operations are admitted together. The first two log ten blocks each,
the third logs nine. -/
def threeOps : List Act :=
  [.beginOp 0, .beginOp 1, .beginOp 2] ++ (List.range 10).map (.logWrite 0) ++
    (List.range 10).map (fun i => .logWrite 1 (10 + i)) ++
    (List.range 9).map (fun i => .logWrite 2 (20 + i))

/-- The tenth block of the third operation, and just as well a block that is in
the log already, meets `panic("too big a transaction")`. -/
theorem reservation_fails :
    (∃ s, run (boundedStep maxOpBlocks) (init nlog) (threeOps ++ [.logWrite 2 29]) =
        some s ∧ s.panic = some .tooBig) ∧
      ∃ s, run (boundedStep maxOpBlocks) (init nlog) (threeOps ++ [.logWrite 2 20]) =
        some s ∧ s.panic = some .tooBig :=
  ⟨⟨_, rfl, rfl⟩, ⟨_, rfl, rfl⟩⟩

/-! ## Operations of nine blocks -/

/-- How many of nine blocks a process has not logged yet. -/
def Phase.left : Phase → Nat
  | .inOp _ used => 9 - used.length
  | _ => 9

/-- The blocks in `lh` and those that the operations inside may still add stay
below the limit of `log_write`. -/
structure Sys.Room (s : Sys) : Prop where
  room : ∃ ops : Finset Nat, (∀ p, p ∈ ops ↔ (s.procs p).InOp) ∧
    s.lh.length + ∑ p ∈ ops, (s.procs p).left ≤ logSize - 2
  used : ∀ {p op used}, s.procs p = .inOp op used → used.length ≤ 9 ∧ ∀ b ∈ used, b ∈ s.lh

@[simp] lemma Phase.left_inOp (op : Nat) (used : List Nat) :
    (Phase.inOp op used).left = 9 - used.length := rfl

lemma Phase.left_le (ph : Phase) : ph.left ≤ 9 := by
  cases ph with
  | idle => exact Nat.le_refl _
  | inOp op used => exact Nat.sub_le _ _
  | commit pc => exact Nat.le_refl _

/-- The sum over a set of processes that does not contain the changed one. -/
lemma Phase.sum_left_update {procs : Nat → Phase} {p : Nat} {ph : Phase} {ops : Finset Nat}
    (hp : p ∉ ops) :
    ∑ q ∈ ops, (update procs p ph q).left = ∑ q ∈ ops, (procs q).left := by
  apply sum_congr rfl
  intro q hq
  rw [update_of_ne]
  rintro rfl
  exact hp hq

lemma Sys.Room.init (size : Int) : (init size).Room where
  room := ⟨∅, by simp [Sys.init], by simp [Sys.init]⟩
  used := by simp [Sys.init]

lemma Sys.Room.beginOp {s : Sys} (h : s.Room) (hc : s.Control) {p : Nat}
    (hp : s.procs p = .idle) : (s.beginOp p).Room := by
  unfold Sys.beginOp
  split
  next => exact h
  next hcm =>
    split
    next => exact h
    next hfit =>
      obtain ⟨ops, hops, -⟩ := h.room
      obtain ⟨ops', hops', hcard⟩ := hc.count
      obtain rfl : ops = ops' := by
        ext q
        rw [hops, hops']
      have hpn : p ∉ ops := by rw [hops, hp]; simp
      have hsum : ∑ q ∈ ops, (s.procs q).left ≤ 9 * ops.card := by
        rw [Nat.mul_comm]
        exact sum_le_card_nsmul ops _ 9 fun q _ => (s.procs q).left_le
      refine ⟨⟨insert p ops, ?_, ?_⟩, ?_⟩
      · intro q
        simp only [setPhase, Phase.inOp_update, mem_insert, hops]
        by_cases hq : q = p <;> simp [hq]
      · rw [sum_insert hpn]
        simp only [setPhase, update_self]
        rw [Phase.sum_left_update hpn]
        simp only [Phase.left_inOp, List.length_nil, logSize, maxOpBlocks, Nat.cast_mul,
          Nat.cast_ofNat] at hfit ⊢
        -- alone inside, the operation starts with an empty log
        rcases Nat.eq_zero_or_pos ops.card with h0 | hpos
        · have hlh := hc.empty (by omega) (by simpa using hcm)
          rw [hlh, List.length_nil]
          omega
        · omega
      · intro q op used hq
        simp only [setPhase, update_apply] at hq
        split at hq
        · cases hq
          simp
        · exact h.used hq

lemma Sys.Room.logWrite {s : Sys} (h : s.Room) {p op b : Nat} {used : List Nat}
    (hp : s.procs p = .inOp op used) (hb : b ∈ used ∨ used.length < 9) :
    (s.logWrite p op used b).Room := by
  unfold Sys.logWrite
  split
  next => exact ⟨h.room, h.used⟩
  next =>
    split
    next => exact ⟨h.room, h.used⟩
    next =>
      obtain ⟨ops, hops, hroom⟩ := h.room
      obtain ⟨hlen, hsub⟩ := h.used hp
      have hpm : p ∈ ops := (hops p).mpr ⟨op, used, hp⟩
      refine ⟨⟨ops, ?_, ?_⟩, ?_⟩
      · intro q
        simp only [setPhase, Phase.inOp_update, hops]
        by_cases hq : q = p
        · subst hq; simp [hp]
        · simp [hq]
      · rw [← add_sum_erase ops _ hpm] at hroom ⊢
        simp only [setPhase, update_self]
        rw [Phase.sum_left_update (notMem_erase p ops)]
        simp only [hp, Phase.left_inOp] at hroom ⊢
        by_cases hbu : b ∈ used
        · rw [absorb_of_mem hbu, absorb_of_mem (hsub b hbu)]
          exact hroom
        · have hlt := hb.resolve_left hbu
          have := length_absorb_le s.lh b
          rw [absorb_of_notMem hbu, List.length_append, List.length_singleton]
          omega
      · intro q op' used' hq
        simp only [setPhase, update_apply] at hq
        split at hq
        next =>
          cases hq
          constructor
          · by_cases hbu : b ∈ used
            · rw [absorb_of_mem hbu]
              exact hlen
            · rw [absorb_of_notMem hbu, List.length_append, List.length_singleton]
              exact hb.resolve_left hbu
          · intro c hc
            rcases mem_absorb.mp hc with hc | rfl
            · exact mem_absorb.mpr (.inl (hsub c hc))
            · exact mem_absorb.mpr (.inr rfl)
        next =>
          obtain ⟨hl, hs⟩ := h.used hq
          exact ⟨hl, fun c hc => mem_absorb.mpr (.inl (hs c hc))⟩

/-- A process leaves its operation. -/
lemma Sys.Room.leave {s : Sys} (h : s.Room) {p : Nat} {ph : Phase} (hph : ¬ ph.InOp)
    (outstanding : Int) (committing : Bool) (panic : Option Panic) :
    ({ s with outstanding := outstanding, committing := committing,
              panic := panic }.setPhase p ph).Room := by
  obtain ⟨ops, hops, hroom⟩ := h.room
  refine ⟨⟨ops.erase p, ?_, ?_⟩, ?_⟩
  · intro q
    simp only [setPhase, Phase.inOp_update, mem_erase, hops]
    by_cases hq : q = p <;> simp [hq, hph]
  · have := sum_le_sum_of_subset (f := fun q => (s.procs q).left) (ops.erase_subset p)
    simp only [setPhase]
    rw [Phase.sum_left_update (notMem_erase p ops)]
    omega
  · intro q op used hq
    simp only [setPhase, update_apply] at hq
    split at hq
    next => exact absurd ⟨op, used, hq⟩ hph
    next => exact h.used hq

lemma Sys.Room.commitStep {s : Sys} (h : s.Room) (hc : s.Control) {p : Nat} {pc : CommitPc}
    (hp : s.procs p = .commit pc) : (s.commitStep p pc).Room := by
  have hmove : ∀ ph : Phase, ¬ ph.InOp → (s.setPhase p ph).Room :=
    fun ph hph => h.leave hph s.outstanding s.committing s.panic
  cases pc with
  | start | writeLog tail | install tail | eraseHead => exact hmove _ (by simp)
  | writeHead => exact ⟨(hmove (.commit (.install 0)) (by simp)).room,
      (hmove (.commit (.install 0)) (by simp)).used⟩
  | clear =>
    have h' := hmove (.commit .eraseHead) (by simp)
    obtain ⟨ops, hops, hroom⟩ := h'.room
    refine ⟨⟨ops, hops, ?_⟩, ?_⟩
    · have hle : ([] : List Nat).length ≤ s.lh.length := Nat.zero_le _
      exact Nat.le_trans (Nat.add_le_add_right hle _) hroom
    · intro q op used hq
      simp only [Sys.commitStep, setPhase, update_apply] at hq
      split at hq
      next => cases hq
      next => exact absurd ⟨op, used, hq⟩ (hc.not_inOp (hc.quiet (hc.committer hp)))
  | finish => exact h.leave (by simp) s.outstanding false s.panic

/-- The reservation of `begin_op` is enough for operations of at most nine
distinct blocks, on a disk with the superblock of `mkfs`. -/
theorem nine_noPanic {as : List Act} {s : Sys}
    (hrun : run (boundedStep 9) (init nlog) as = some s) : s.panic = none := by
  have hinv : s.Control ∧ s.Room ∧ s.size = nlog ∧ s.panic = none := by
    apply run_induction
      (P := fun _ s => s.Control ∧ s.Room ∧ s.size = (nlog : Int) ∧ s.panic = none) hrun
    · exact ⟨Sys.Control.init _, Sys.Room.init _, rfl, rfl⟩
    · rintro _ t a t' ⟨hc, hr, hsz, -⟩ ht
      obtain ⟨hb, ht⟩ := boundedStep_eq ht
      refine ⟨hc.step ht, ?_, (step_size ht).trans hsz, ?_⟩
      · obtain ⟨-, hcases⟩ := step_cases ht
        rcases hcases with ⟨p, rfl, hp, rfl⟩ | ⟨p, b, op, used, rfl, hp, rfl⟩ |
          ⟨p, op, used, rfl, hp, rfl⟩ | ⟨p, pc, rfl, hp, rfl⟩
        · exact hr.beginOp hc hp
        · exact hr.logWrite hp (by simpa [Act.bounded, hp] using hb)
        · have hfalse := hc.committing_false ⟨op, used, hp⟩
          simp only [endOp, hfalse, Bool.false_eq_true, if_false]
          split
          next => exact hr.leave (Phase.not_inOp_commit _) _ true t.panic
          next => exact hr.leave Phase.not_inOp_idle _ false t.panic
        · exact hr.commitStep hc hp
      · by_contra hpanic
        obtain ⟨-, -, hfull⟩ := step_panic hc ht hpanic
        obtain ⟨ops, -, hroom⟩ := hr.room
        simp only [hsz, nlog, logSize, maxOpBlocks] at hfull hroom
        omega
  exact hinv.2.2.2

/-- Three operations of nine blocks are in the log at the same time. -/
def threeNines : List Act :=
  [.beginOp 0, .beginOp 1, .beginOp 2] ++ (List.range 27).map fun b => .logWrite (b % 3) b

theorem nine_noPanic_threeNines : ∃ s, run (boundedStep 9) (init nlog) threeNines = some s ∧
    s.lh.length = 27 ∧ s.panic = none := by
  obtain ⟨s, hrun, hlen⟩ := Option.map_eq_some_iff.mp (by decide +kernel :
    (run (boundedStep 9) (init nlog) threeNines).map (·.lh.length) = some 27)
  exact ⟨s, hrun, hlen, nine_noPanic hrun⟩

end Xv6.Log
