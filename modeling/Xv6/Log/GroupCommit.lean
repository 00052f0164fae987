import Xv6.Log.Protocol

/-!
# Invariants of the group commit protocol

`Sys.Control` ties `outstanding`, `committing` and `lh` to the phases of the
processes, and `Sys.History` ties the history to them. Each action keeps both.
The four statements about the protocol are read off these two invariants.
-/

namespace Xv6.Log

open Finset Function Lib

/-- The process is between `begin_op` and `end_op`. -/
def Phase.InOp (ph : Phase) : Prop := ∃ op used, ph = .inOp op used

/-- How the counters of `struct log` follow the phases. -/
structure Sys.Control (s : Sys) : Prop where
  /-- `outstanding` counts the processes inside an operation. -/
  count : ∃ ops : Finset Nat, (∀ p, p ∈ ops ↔ (s.procs p).InOp) ∧ s.outstanding = ops.card
  /-- Whoever runs `commit()` has set `committing`. -/
  committer : ∀ {p pc}, s.procs p = .commit pc → s.committing = true
  /-- At most one process runs `commit()`. -/
  exclusive : ∀ {p q pc pc'}, s.procs p = .commit pc → s.procs q = .commit pc' → p = q
  /-- No operation is inside while a commit runs. -/
  quiet : s.committing = true → s.outstanding = 0
  /-- `lh` is empty when nobody is inside and nobody commits. -/
  empty : s.outstanding = 0 → s.committing = false → s.lh = []
  /-- `lh` is empty once the commit has cleared it. -/
  cleared : ∀ {p pc}, s.procs p = .commit pc → pc = .eraseHead ∨ pc = .finish → s.lh = []
  /-- Two panics never happen. -/
  safe : s.panic = none ∨ s.panic = some .tooBig

lemma Sys.Control.init (size : Int) : (Sys.init size).Control where
  count := ⟨∅, by simp [Sys.init, Phase.InOp], by simp [Sys.init]⟩
  committer := by simp [Sys.init]
  exclusive := by simp [Sys.init]
  quiet := by simp [Sys.init]
  empty := by simp [Sys.init]
  cleared := by simp [Sys.init]
  safe := .inl rfl

/-- A process inside an operation is counted. -/
lemma Sys.Control.outstanding_pos {s : Sys} (h : s.Control) {p : Nat}
    (hp : (s.procs p).InOp) : 1 ≤ s.outstanding := by
  obtain ⟨ops, hops, hcard⟩ := h.count
  have : 0 < ops.card := card_pos.mpr ⟨p, (hops p).mpr hp⟩
  omega

/-- No process is inside an operation when `outstanding` is zero. -/
lemma Sys.Control.not_inOp {s : Sys} (h : s.Control) (h0 : s.outstanding = 0) {p : Nat} :
    ¬ (s.procs p).InOp := by
  intro hp
  have := h.outstanding_pos hp
  omega

lemma Sys.Control.committing_false {s : Sys} (h : s.Control) {p : Nat}
    (hp : (s.procs p).InOp) : s.committing = false := by
  cases hc : s.committing with
  | false => rfl
  | true => exact absurd hp (h.not_inOp (h.quiet hc))

/-- The members of a count after one process changed its phase. -/
lemma Phase.inOp_update {procs : Nat → Phase} {p : Nat} {ph : Phase} {q : Nat} :
    (update procs p ph q).InOp ↔ if q = p then ph.InOp else (procs q).InOp := by
  by_cases h : q = p
  · subst h; simp
  · simp [h]

@[simp] lemma Phase.inOp_inOp (op : Nat) (used : List Nat) : (Phase.inOp op used).InOp :=
  ⟨op, used, rfl⟩

@[simp] lemma Phase.not_inOp_idle : ¬ Phase.idle.InOp := by simp [Phase.InOp]

@[simp] lemma Phase.not_inOp_commit (pc : CommitPc) : ¬ (Phase.commit pc).InOp := by
  simp [Phase.InOp]

/-- Who commits after a process has gone on outside `commit()`. -/
lemma Sys.commit_of_setPhase {s : Sys} {p q : Nat} {ph : Phase} {pc : CommitPc}
    (hq : (s.setPhase p ph).procs q = .commit pc) (hph : ∀ pc, ph ≠ .commit pc) :
    s.procs q = .commit pc := by
  simp only [Sys.setPhase, update_apply] at hq
  split at hq
  · exact absurd hq (hph pc)
  · exact hq

lemma Sys.Control.beginOp {s : Sys} (h : s.Control) {p : Nat} (hp : s.procs p = .idle) :
    (s.beginOp p).Control := by
  unfold Sys.beginOp
  split
  next => exact h
  next hc =>
    split
    next => exact h
    next =>
      have hc' : s.committing = false := by simpa using hc
      obtain ⟨ops, hops, hcard⟩ := h.count
      have hpn : p ∉ ops := by rw [hops, hp]; simp
      refine ⟨⟨insert p ops, ?_, ?_⟩, ?_, ?_, ?_, ?_, ?_, h.safe⟩
      · intro q
        simp only [Sys.setPhase, Phase.inOp_update, mem_insert, hops]
        by_cases hq : q = p <;> simp [hq]
      · simp [Sys.setPhase, card_insert_of_notMem hpn, hcard]
      · exact fun hq => h.committer (Sys.commit_of_setPhase hq nofun)
      · exact fun hq hq' => h.exclusive (Sys.commit_of_setPhase hq nofun) (Sys.commit_of_setPhase hq' nofun)
      · intro hcm
        simp [Sys.setPhase, hc'] at hcm
      · intro h0
        simp only [Sys.setPhase] at h0
        omega
      · exact fun hq => h.cleared (Sys.commit_of_setPhase hq nofun)

lemma Sys.Control.logWrite {s : Sys} (h : s.Control) {p op : Nat} {used : List Nat}
    (hp : s.procs p = .inOp op used) (b : Nat) : (s.logWrite p op used b).Control := by
  have hin : (s.procs p).InOp := ⟨op, used, hp⟩
  have hout := h.outstanding_pos hin
  have hc := h.committing_false hin
  unfold Sys.logWrite
  split
  next => exact ⟨h.count, h.committer, h.exclusive, h.quiet, h.empty, h.cleared, .inr rfl⟩
  next =>
    rw [if_neg (by omega)]
    obtain ⟨ops, hops, hcard⟩ := h.count
    refine ⟨⟨ops, ?_, hcard⟩, ?_, ?_, h.quiet, ?_, ?_, h.safe⟩
    · intro q
      simp only [Sys.setPhase, Phase.inOp_update, hops]
      by_cases hq : q = p
      · subst hq; simp [hin]
      · simp [hq]
    · exact fun hq => h.committer (Sys.commit_of_setPhase hq nofun)
    · exact fun hq hq' => h.exclusive (Sys.commit_of_setPhase hq nofun) (Sys.commit_of_setPhase hq' nofun)
    · intro h0
      simp only [Sys.setPhase] at h0
      omega
    · intro q pc hq hpc
      have := h.committer (Sys.commit_of_setPhase hq nofun)
      simp [hc] at this

lemma Sys.Control.endOp {s : Sys} (h : s.Control) {p op : Nat} {used : List Nat}
    (hp : s.procs p = .inOp op used) : (s.endOp p).Control := by
  have hin : (s.procs p).InOp := ⟨op, used, hp⟩
  have hc := h.committing_false hin
  have hnone : ∀ {q pc}, s.procs q ≠ .commit pc := by
    intro q pc hq
    have := h.committer hq
    simp [hc] at this
  obtain ⟨ops, hops, hcard⟩ := h.count
  have hpm : p ∈ ops := (hops p).mpr hin
  have hcard' : s.outstanding - 1 = (ops.erase p).card := by
    rw [card_erase_of_mem hpm, hcard]
    have : 0 < ops.card := card_pos.mpr ⟨p, hpm⟩
    omega
  -- whoever is left inside, after `p` went to a phase outside
  have hops' : ∀ ph : Phase, ¬ ph.InOp →
      ∀ q, q ∈ ops.erase p ↔ (update s.procs p ph q).InOp := by
    intro ph hph q
    rw [Phase.inOp_update, mem_erase, hops]
    by_cases hq : q = p <;> simp [hq, hph]
  unfold Sys.endOp
  simp only [hc, Bool.false_eq_true, if_false]
  split
  next h0 =>
    refine ⟨⟨ops.erase p, hops' _ (by simp), hcard'⟩, ?_, ?_, fun _ => h0, ?_, ?_, h.safe⟩
    · intro q pc hq
      rfl
    · intro q q' pc pc' hq hq'
      simp only [Sys.setPhase, update_apply] at hq hq'
      split at hq
      next heq =>
        split at hq'
        next heq' => rw [heq, heq']
        next => exact absurd hq' hnone
      next => exact absurd hq hnone
    · intro _ hcm
      simp [Sys.setPhase] at hcm
    · intro q pc hq hpc
      simp only [Sys.setPhase, update_apply] at hq
      split at hq
      next =>
        cases hq
        rcases hpc with hpc | hpc <;> cases hpc
      next => exact absurd hq hnone
  next h0 =>
    refine ⟨⟨ops.erase p, hops' _ (by simp), hcard'⟩, ?_, ?_, ?_, ?_, ?_, h.safe⟩
    · exact fun hq => absurd (Sys.commit_of_setPhase hq nofun) hnone
    · exact fun hq => absurd (Sys.commit_of_setPhase hq nofun) hnone
    · intro hcm
      simp [Sys.setPhase] at hcm
    · intro h0'
      exact absurd h0' h0
    · exact fun hq => absurd (Sys.commit_of_setPhase hq nofun) hnone

/-- A step of `commit()` that stays inside `commit()`. -/
lemma Sys.Control.setCommit {s : Sys} (h : s.Control) {p : Nat} {pc : CommitPc}
    (hp : s.procs p = .commit pc) (pc' : CommitPc) (lh : List Nat) (txn : Nat)
    (committed : List (Nat × List Nat)) (hlh : pc' = .eraseHead ∨ pc' = .finish → lh = []) :
    ({ s with lh := lh, txn := txn, committed := committed }.setPhase p (.commit pc')).Control := by
  have hc := h.committer hp
  obtain ⟨ops, hops, hcard⟩ := h.count
  refine ⟨⟨ops, ?_, hcard⟩, fun _ => hc, ?_, h.quiet, ?_, ?_, h.safe⟩
  · intro q
    simp only [Sys.setPhase, Phase.inOp_update, hops]
    by_cases hq : q = p
    · subst hq; simp [hp]
    · simp [hq]
  · intro q q' pc₁ pc₂ hq hq'
    simp only [Sys.setPhase, update_apply] at hq hq'
    split at hq <;> split at hq'
    next heq heq' => rw [heq, heq']
    next heq _ => rw [heq]; exact h.exclusive hp hq'
    next _ heq' => rw [heq']; exact h.exclusive hq hp
    next => exact h.exclusive hq hq'
  · intro _ hcm
    simp [Sys.setPhase, hc] at hcm
  · intro q pc₁ hq hpc
    simp only [Sys.setPhase, update_apply] at hq
    split at hq
    next =>
      cases hq
      exact hlh hpc
    next hne => exact absurd (h.exclusive hq hp) hne

lemma Sys.Control.commitStep {s : Sys} (h : s.Control) {p : Nat} {pc : CommitPc}
    (hp : s.procs p = .commit pc) : (s.commitStep p pc).Control := by
  cases pc with
  | start =>
    apply h.setCommit hp _ s.lh s.txn s.committed
    intro hpc
    split at hpc
    next => rcases hpc with hpc | hpc <;> cases hpc
    next hn => simpa using hn
  | writeLog tail | install tail =>
    apply h.setCommit hp _ s.lh s.txn s.committed
    intro hpc
    split at hpc <;> rcases hpc with hpc | hpc <;> cases hpc
  | writeHead =>
    apply h.setCommit hp (.install 0) s.lh s.txn
    rintro (hpc | hpc) <;> cases hpc
  | clear => exact h.setCommit hp .eraseHead [] (s.txn + 1) s.committed fun _ => rfl
  | eraseHead =>
    exact h.setCommit hp .finish s.lh s.txn s.committed fun _ => h.cleared hp (.inl rfl)
  | finish =>
    have hnone : ∀ {q pc}, update s.procs p Phase.idle q ≠ .commit pc := by
      intro q pc hq
      rw [update_apply] at hq
      split at hq
      next => cases hq
      next hne => exact hne (h.exclusive hq hp)
    obtain ⟨ops, hops, hcard⟩ := h.count
    refine ⟨⟨ops, ?_, hcard⟩, ?_, ?_, ?_, ?_, ?_, h.safe⟩
    · intro q
      simp only [Sys.commitStep, Sys.setPhase, Phase.inOp_update, hops]
      by_cases hq : q = p
      · subst hq; simp [hp]
      · simp [hq]
    · exact fun hq => absurd hq hnone
    · exact fun hq => absurd hq hnone
    · intro hcm
      simp [Sys.commitStep, Sys.setPhase] at hcm
    · intro _ _
      exact h.cleared hp (.inr rfl)
    · exact fun hq => absurd hq hnone

lemma Sys.Control.step {s s' : Sys} {a : Act} (h : s.Control) (hs : s.step a = some s') :
    s'.Control := by
  obtain ⟨-, hcases⟩ := Sys.step_cases hs
  rcases hcases with ⟨p, rfl, hp, rfl⟩ | ⟨p, b, op, used, rfl, hp, rfl⟩ |
    ⟨p, op, used, rfl, hp, rfl⟩ | ⟨p, pc, rfl, hp, rfl⟩
  · exact h.beginOp hp
  · exact h.logWrite hp b
  · exact h.endOp hp
  · exact h.commitStep hp

/-! ## The history -/

/-- The commit has written the header and not yet cleared `lh`. -/
def CommitPc.HeadDone : CommitPc → Prop
  | .install _ => True
  | .clear => True
  | _ => False

/-- How the history follows `lh` and the phases. -/
structure Sys.History (s : Sys) : Prop where
  /-- The blocks of `lh` are distinct. -/
  nodup : s.lh.Nodup
  /-- They are the blocks logged in the open transaction. -/
  pending : ∀ {b}, b ∈ s.lh ↔ ∃ w ∈ s.writes, w.txn = s.txn ∧ w.block = b
  /-- Operations are numbered as they begin. -/
  writes_lt : ∀ {w}, w ∈ s.writes → w.op < s.nextOp
  inOp_lt : ∀ {p op used}, s.procs p = .inOp op used → op < s.nextOp
  /-- Two processes are never in the same operation. -/
  own : ∀ {p q op used used'}, s.procs p = .inOp op used → s.procs q = .inOp op used' → p = q
  /-- An operation that is still inside logs into the open transaction. -/
  current : ∀ {p op used}, s.procs p = .inOp op used → ∀ w ∈ s.writes, w.op = op → w.txn = s.txn
  /-- All `log_write`s of an operation are in one transaction. -/
  same : ∀ {w w'}, w ∈ s.writes → w' ∈ s.writes → w.op = w'.op → w.txn = w'.txn
  /-- A transaction other than the open one was committed with all its blocks. -/
  past : ∀ {w}, w ∈ s.writes → w.txn = s.txn ∨
    (w.txn < s.txn ∧ ∃ bs, (w.txn, bs) ∈ s.committed ∧ w.block ∈ bs)
  /-- The open transaction is committed exactly while the commit installs it. -/
  open_committed : ∀ {bs}, (s.txn, bs) ∈ s.committed →
    bs = s.lh ∧ ∃ p pc, s.procs p = .commit pc ∧ pc.HeadDone
  headDone : ∀ {p pc}, s.procs p = .commit pc → pc.HeadDone → (s.txn, s.lh) ∈ s.committed
  committed_le : ∀ {k bs}, (k, bs) ∈ s.committed → k ≤ s.txn
  /-- A transaction is committed once. -/
  once : ∀ {k bs bs'}, (k, bs) ∈ s.committed → (k, bs') ∈ s.committed → bs = bs'

lemma Sys.History.init (size : Int) : (Sys.init size).History := by
  constructor <;> simp [Sys.init]

/-- Changing the phase of one process that is not installing, to a phase that is
not installing and not a new operation, keeps the history. -/
lemma Sys.History.setPhase {s : Sys} (h : s.History) {p : Nat} {ph : Phase}
    (hold : ∀ pc, s.procs p = .commit pc → ¬ pc.HeadDone)
    (hnew : ∀ pc, ph = .commit pc → ¬ pc.HeadDone)
    (hop : ∀ op used, ph = .inOp op used → ∃ used', s.procs p = .inOp op used') :
    (s.setPhase p ph).History where
  nodup := h.nodup
  pending := h.pending
  writes_lt := h.writes_lt
  inOp_lt := by
    intro q op used hq
    simp only [Sys.setPhase, update_apply] at hq
    split at hq
    · obtain ⟨used', hp⟩ := hop op used hq
      exact h.inOp_lt hp
    · exact h.inOp_lt hq
  own := by
    intro q q' op used used' hq hq'
    simp only [Sys.setPhase, update_apply] at hq hq'
    split at hq <;> split at hq'
    next heq heq' => rw [heq, heq']
    next heq _ =>
      obtain ⟨_, hp⟩ := hop op used hq
      rw [heq]
      exact h.own hp hq'
    next _ heq' =>
      obtain ⟨_, hp⟩ := hop op used' hq'
      rw [heq']
      exact h.own hq hp
    next => exact h.own hq hq'
  current := by
    intro q op used hq
    simp only [Sys.setPhase, update_apply] at hq
    split at hq
    · obtain ⟨_, hp⟩ := hop op used hq
      exact h.current hp
    · exact h.current hq
  same := h.same
  past := h.past
  open_committed := by
    intro bs hbs
    obtain ⟨he, q, pc, hq, hpc⟩ := h.open_committed hbs
    refine ⟨he, q, pc, ?_, hpc⟩
    have : q ≠ p := by
      rintro rfl
      exact hold pc hq hpc
    simpa [Sys.setPhase, update_apply, this] using hq
  headDone := by
    intro q pc hq hpc
    simp only [Sys.setPhase, update_apply] at hq
    split at hq
    · exact absurd hpc (hnew pc hq)
    · exact h.headDone hq hpc
  committed_le := h.committed_le
  once := h.once

/-- The history does not read the counters. -/
lemma Sys.History.congr {s : Sys} (h : s.History) (outstanding : Int) (committing : Bool)
    (panic : Option Panic) :
    { s with outstanding := outstanding, committing := committing, panic := panic }.History :=
  ⟨h.nodup, h.pending, h.writes_lt, h.inOp_lt, h.own, h.current, h.same, h.past,
    h.open_committed, h.headDone, h.committed_le, h.once⟩

lemma Sys.History.beginOp {s : Sys} (h : s.History) {p : Nat} (hp : s.procs p = .idle) :
    (s.beginOp p).History := by
  unfold Sys.beginOp
  split
  next => exact h
  next =>
    split
    next => exact h
    next =>
      refine ⟨h.nodup, h.pending, ?_, ?_, ?_, ?_, h.same, h.past, ?_, ?_, h.committed_le, h.once⟩
      · intro w hw
        exact Nat.lt_succ_of_lt (h.writes_lt hw)
      · intro q op used hq
        simp only [Sys.setPhase, update_apply] at hq
        split at hq
        · cases hq
          exact Nat.lt_succ_self _
        · exact Nat.lt_succ_of_lt (h.inOp_lt hq)
      · -- the new operation has a number that no other process has
        intro q q' op used used' hq hq'
        simp only [Sys.setPhase, update_apply] at hq hq'
        split at hq <;> split at hq'
        next heq heq' => rw [heq, heq']
        next heq _ =>
          cases hq
          exact absurd (h.inOp_lt hq') (Nat.lt_irrefl _)
        next _ heq' =>
          cases hq'
          exact absurd (h.inOp_lt hq) (Nat.lt_irrefl _)
        next => exact h.own hq hq'
      · intro q op used hq w hw hop
        simp only [Sys.setPhase, update_apply] at hq
        split at hq
        · cases hq
          exact absurd (h.writes_lt hw) (by omega)
        · exact h.current hq w hw hop
      · intro bs hbs
        obtain ⟨he, q, pc, hq, hpc⟩ := h.open_committed hbs
        have : q ≠ p := by
          rintro rfl
          rw [hp] at hq
          cases hq
        exact ⟨he, q, pc, by simpa [Sys.setPhase, update_apply, this] using hq, hpc⟩
      · intro q pc hq hpc
        simp only [Sys.setPhase, update_apply] at hq
        split at hq
        · cases hq
        · exact h.headDone hq hpc

/-- Recording a `log_write` of an operation that is inside, while nobody commits. -/
lemma Sys.History.record {s : Sys} (h : s.History) {p op : Nat} {used : List Nat}
    (hp : s.procs p = .inOp op used) (hnone : ∀ {q pc}, s.procs q ≠ .commit pc) (b : Nat) :
    { s with lh := absorb s.lh b, writes := ⟨op, b, s.txn⟩ :: s.writes }.History where
  nodup := absorb_nodup h.nodup b
  pending := by
    intro c
    simp only [mem_absorb, h.pending, List.mem_cons, exists_eq_or_imp, true_and]
    constructor
    · rintro (hc | rfl)
      · exact .inr hc
      · exact .inl rfl
    · rintro (rfl | hc)
      · exact .inr rfl
      · exact .inl hc
  writes_lt := by
    intro w hw
    rcases List.mem_cons.mp hw with rfl | hw
    · exact h.inOp_lt hp
    · exact h.writes_lt hw
  inOp_lt := h.inOp_lt
  own := h.own
  current := by
    intro q op' used' hq w hw hop
    rcases List.mem_cons.mp hw with rfl | hw
    · rfl
    · exact h.current hq w hw hop
  same := by
    intro w w' hw hw' hop
    rcases List.mem_cons.mp hw with rfl | hw <;> rcases List.mem_cons.mp hw' with rfl | hw'
    · rfl
    · exact (h.current hp w' hw' hop.symm).symm
    · exact h.current hp w hw hop
    · exact h.same hw hw' hop
  past := by
    intro w hw
    rcases List.mem_cons.mp hw with rfl | hw
    · exact .inl rfl
    · exact h.past hw
  open_committed := by
    intro bs hbs
    obtain ⟨-, q, pc, hq, -⟩ := h.open_committed hbs
    exact absurd hq hnone
  headDone := fun hq => absurd hq hnone
  committed_le := h.committed_le
  once := h.once

lemma Sys.History.logWrite {s : Sys} (h : s.History) (hc : s.Control) {p op : Nat}
    {used : List Nat} (hp : s.procs p = .inOp op used) (b : Nat) :
    (s.logWrite p op used b).History := by
  have hfalse := hc.committing_false ⟨op, used, hp⟩
  have hnone : ∀ {q pc}, s.procs q ≠ .commit pc := by
    intro q pc hq
    have := hc.committer hq
    simp [hfalse] at this
  unfold Sys.logWrite
  split
  next => exact h.congr s.outstanding s.committing _
  next =>
    split
    next => exact h.congr s.outstanding s.committing _
    next =>
      apply (h.record hp hnone b).setPhase
      · intro pc hpc
        exact absurd hpc hnone
      · rintro pc ⟨⟩
      · rintro op' used' ⟨⟩
        exact ⟨used, hp⟩

lemma Sys.History.endOp {s : Sys} (h : s.History) {p op : Nat} {used : List Nat}
    (hp : s.procs p = .inOp op used) : (s.endOp p).History := by
  have hold : ∀ pc, s.procs p = .commit pc → ¬ pc.HeadDone := by
    intro pc hpc
    rw [hp] at hpc
    cases hpc
  simp only [Sys.endOp]
  split
  next => exact h.congr _ s.committing _
  next =>
    split
    next =>
      apply (h.congr (s.outstanding - 1) true s.panic).setPhase hold
      · rintro pc ⟨⟩ hpc
        exact hpc
      · rintro op' used' ⟨⟩
    next =>
      apply (h.congr (s.outstanding - 1) s.committing s.panic).setPhase hold
      · rintro pc ⟨⟩
      · rintro op' used' ⟨⟩

/-- The first `write_head` commits the open transaction. -/
lemma Sys.History.writeHead {s : Sys} (h : s.History) (hc : s.Control) {p : Nat}
    (hp : s.procs p = .commit .writeHead) : (s.commitStep p .writeHead).History := by
  have hfresh : ∀ {bs}, (s.txn, bs) ∉ s.committed := by
    intro bs hbs
    obtain ⟨-, q, pc, hq, hpc⟩ := h.open_committed hbs
    obtain rfl := hc.exclusive hq hp
    rw [hp] at hq
    cases hq
    exact hpc
  have hin : ∀ {q op used}, s.procs q ≠ .inOp op used := by
    intro q op used hq
    exact hc.not_inOp (hc.quiet (hc.committer hp)) ⟨op, used, hq⟩
  have hin' : ∀ {q op used},
      update s.procs p (.commit (.install 0)) q ≠ .inOp op used := by
    intro q op used hq
    rw [update_apply] at hq
    split at hq
    · cases hq
    · exact hin hq
  refine ⟨h.nodup, h.pending, h.writes_lt, fun hq => absurd hq hin', fun hq => absurd hq hin',
    fun hq => absurd hq hin', h.same, ?_, ?_, ?_, ?_, ?_⟩
  · intro w hw
    rcases h.past hw with htxn | ⟨hlt, bs, hbs, hb⟩
    · exact .inl htxn
    · exact .inr ⟨hlt, bs, List.mem_cons_of_mem _ hbs, hb⟩
  · intro bs hbs
    rcases List.mem_cons.mp hbs with heq | hbs
    · cases heq
      exact ⟨rfl, p, .install 0, by simp [Sys.commitStep, Sys.setPhase], trivial⟩
    · exact absurd hbs hfresh
  · intro q pc hq hpc
    exact List.mem_cons_self
  · intro k bs hbs
    rcases List.mem_cons.mp hbs with heq | hbs
    · cases heq
      exact Nat.le_refl _
    · exact h.committed_le hbs
  · intro k bs bs' hbs hbs'
    rcases List.mem_cons.mp hbs with heq | hbs <;> rcases List.mem_cons.mp hbs' with heq' | hbs'
    · cases heq; cases heq'; rfl
    · cases heq; exact absurd hbs' hfresh
    · cases heq'; exact absurd hbs hfresh
    · exact h.once hbs hbs'

/-- A round of `install_trans`, and its end. -/
lemma Sys.History.install {s : Sys} (h : s.History) (hc : s.Control) {p tail : Nat}
    (hp : s.procs p = .commit (.install tail)) {pc' : CommitPc} (hpc' : pc'.HeadDone) :
    (s.setPhase p (.commit pc')).History := by
  have hin : ∀ {q op used}, update s.procs p (.commit pc') q ≠ .inOp op used := by
    intro q op used hq
    rw [update_apply] at hq
    split at hq
    · cases hq
    · exact hc.not_inOp (hc.quiet (hc.committer hp)) ⟨op, used, hq⟩
  refine ⟨h.nodup, h.pending, h.writes_lt, fun hq => absurd hq hin, fun hq => absurd hq hin,
    fun hq => absurd hq hin, h.same, h.past, ?_, ?_, h.committed_le, h.once⟩
  · intro bs hbs
    exact ⟨(h.open_committed hbs).1, p, pc', by simp [Sys.setPhase], hpc'⟩
  · intro q pc hq hpc
    exact h.headDone hp trivial

/-- `log.lh.n = 0` opens the next transaction. -/
lemma Sys.History.clear {s : Sys} (h : s.History) (hc : s.Control) {p : Nat}
    (hp : s.procs p = .commit .clear) : (s.commitStep p .clear).History := by
  have hin : ∀ {q op used}, update s.procs p (.commit .eraseHead) q ≠ .inOp op used := by
    intro q op used hq
    rw [update_apply] at hq
    split at hq
    · cases hq
    · exact hc.not_inOp (hc.quiet (hc.committer hp)) ⟨op, used, hq⟩
  have hle : ∀ {w}, w ∈ s.writes → w.txn ≤ s.txn := by
    intro w hw
    rcases h.past hw with htxn | ⟨hlt, -⟩ <;> omega
  refine ⟨List.nodup_nil, ?_, h.writes_lt, fun hq => absurd hq hin, fun hq => absurd hq hin,
    fun hq => absurd hq hin, h.same, ?_, ?_, ?_, ?_, h.once⟩
  · intro b
    constructor
    · intro hb
      cases hb
    · rintro ⟨w, hw, htxn, -⟩
      have := hle hw
      simp only [Sys.commitStep, Sys.setPhase] at htxn
      omega
  · intro w hw
    right
    refine ⟨Nat.lt_succ_of_le (hle hw), ?_⟩
    rcases h.past hw with htxn | ⟨-, bs, hbs, hb⟩
    · -- a write of the transaction that was open: its block was in `lh`
      exact ⟨s.lh, by rw [htxn]; exact h.headDone hp trivial, h.pending.mpr ⟨w, hw, htxn, rfl⟩⟩
    · exact ⟨bs, hbs, hb⟩
  · intro bs hbs
    exact absurd (h.committed_le hbs) (Nat.not_succ_le_self _)
  · intro q pc hq hpc
    simp only [Sys.commitStep, Sys.setPhase, update_apply] at hq
    split at hq
    next =>
      cases hq
      exact absurd hpc id
    next hne => exact absurd (hc.exclusive hq hp) hne
  · intro k bs hbs
    exact Nat.le_succ_of_le (h.committed_le hbs)

lemma Sys.History.commitStep {s : Sys} (h : s.History) (hc : s.Control) {p : Nat}
    {pc : CommitPc} (hp : s.procs p = .commit pc) : (s.commitStep p pc).History := by
  -- the steps that move between two phases before or after the installation
  have hmove : ∀ ph : Phase, ¬ pc.HeadDone → (∀ pc', ph = .commit pc' → ¬ pc'.HeadDone) →
      (∀ op used, ph ≠ .inOp op used) → (s.setPhase p ph).History := by
    intro ph hold hnew hop
    apply h.setPhase _ hnew fun op used he => absurd he (hop op used)
    intro pc' hp'
    rw [hp] at hp'
    cases hp'
    exact hold
  cases pc with
  | start | writeLog tail =>
    apply hmove _ id _ (by simp)
    rintro pc' ⟨⟩
    split <;> exact id
  | writeHead => exact h.writeHead hc hp
  | install tail =>
    apply h.install hc hp
    split <;> trivial
  | clear => exact h.clear hc hp
  | eraseHead =>
    apply hmove _ id _ (by simp)
    rintro pc' ⟨⟩
    exact id
  | finish =>
    have := hmove .idle id (by rintro pc' ⟨⟩) (by simp)
    exact this.congr s.outstanding false s.panic

lemma Sys.History.step {s s' : Sys} {a : Act} (h : s.History) (hc : s.Control)
    (hs : s.step a = some s') : s'.History := by
  obtain ⟨-, hcases⟩ := Sys.step_cases hs
  rcases hcases with ⟨p, rfl, hp, rfl⟩ | ⟨p, b, op, used, rfl, hp, rfl⟩ |
    ⟨p, op, used, rfl, hp, rfl⟩ | ⟨p, pc, rfl, hp, rfl⟩
  · exact h.beginOp hp
  · exact h.logWrite hc hp b
  · exact h.endOp hp
  · exact h.commitStep hc hp

/-- Both invariants hold in every state that a run reaches. -/
lemma Sys.run_inv {size : Int} {as : List Act} {s : Sys}
    (hrun : run Sys.step (Sys.init size) as = some s) : s.Control ∧ s.History := by
  apply run_induction (P := fun _ s => s.Control ∧ s.History) hrun
  · exact ⟨Sys.Control.init size, Sys.History.init size⟩
  · intro _ t a t' h ht
    exact ⟨h.1.step ht, h.2.step h.1 ht⟩

/-! ## The protocol -/

/-- While a commit runs, only its own `log.lh.n = 0` changes `lh`. -/
lemma Sys.Control.lh_stable {s s' : Sys} {a : Act} (h : s.Control) (hc : s.committing = true)
    (hs : s.step a = some s') (hlh : s'.lh ≠ s.lh) :
    ∃ p, a = .commit p ∧ s.procs p = .commit .clear := by
  have hin : ∀ {p}, ¬ (s.procs p).InOp := h.not_inOp (h.quiet hc)
  obtain ⟨-, hcases⟩ := Sys.step_cases hs
  rcases hcases with ⟨p, rfl, hp, rfl⟩ | ⟨p, b, op, used, rfl, hp, rfl⟩ |
    ⟨p, op, used, rfl, hp, rfl⟩ | ⟨p, pc, rfl, hp, rfl⟩
  · exact absurd (by simp [Sys.beginOp, hc]) hlh
  · exact absurd ⟨op, used, hp⟩ hin
  · exact absurd ⟨op, used, hp⟩ hin
  · cases pc with
    | clear => exact ⟨p, rfl, hp⟩
    | start | writeLog tail | writeHead | install tail | eraseHead | finish => exact absurd rfl hlh

/-- A process that calls `begin_op` when nobody is inside and nobody commits is
admitted at once. -/
lemma Sys.beginOp_admits {s : Sys} (h0 : s.outstanding = 0) (hc : s.committing = false)
    (hlh : s.lh = []) (p : Nat) : (s.beginOp p).procs p = .inOp s.nextOp [] := by
  simp [Sys.beginOp, Sys.setPhase, h0, hc, hlh, maxOpBlocks, logSize]

/-- The writes of an operation are in one transaction. Its blocks are all in
`lh` while that transaction is open, and all in the one header that committed it
afterwards. -/
lemma Sys.History.oneTxn {s : Sys} (h : s.History) (op : Nat) :
    ∃ k, (∀ w ∈ s.writes, w.op = op → w.txn = k) ∧
      ((k = s.txn ∧ ∀ w ∈ s.writes, w.op = op → w.block ∈ s.lh) ∨
        ∃ bs, (k, bs) ∈ s.committed ∧ (∀ bs', (k, bs') ∈ s.committed → bs' = bs) ∧
          ∀ w ∈ s.writes, w.op = op → w.block ∈ bs) := by
  by_cases hop : ∃ w ∈ s.writes, w.op = op
  · obtain ⟨w₀, hw₀, hop₀⟩ := hop
    have hsame : ∀ w ∈ s.writes, w.op = op → w.txn = w₀.txn :=
      fun w hw hwop => h.same hw hw₀ (hwop.trans hop₀.symm)
    refine ⟨w₀.txn, hsame, ?_⟩
    rcases h.past hw₀ with htxn | ⟨hlt, bs, hbs, -⟩
    · left
      exact ⟨htxn, fun w hw hwop => h.pending.mpr ⟨w, hw, (hsame w hw hwop).trans htxn, rfl⟩⟩
    · right
      refine ⟨bs, hbs, fun bs' hbs' => h.once hbs' hbs, ?_⟩
      intro w hw hwop
      have hk := hsame w hw hwop
      rcases h.past hw with htxn | ⟨-, bs', hbs', hb'⟩
      · omega
      · rw [hk] at hbs'
        rw [h.once hbs hbs']
        exact hb'
  · refine ⟨s.txn, ?_, .inl ⟨rfl, ?_⟩⟩
    · exact fun w hw hwop => absurd ⟨w, hw, hwop⟩ hop
    · exact fun w hw hwop => absurd ⟨w, hw, hwop⟩ hop

/-- The group commit protocol, for every interleaving of any number of processes.
While `committing` is set nobody is inside an operation and `lh` changes only by
the commit's own `log.lh.n = 0`. The panics `log.committing` and `log_write
outside of trans` are never reached. When nobody is inside and nobody commits,
`lh` is empty, so a process that calls `begin_op` is admitted, and every
`log_write` so far is in a committed transaction. All `log_write`s of one
operation are in one transaction. -/
theorem groupCommit {size : Int} {as : List Act} {s : Sys}
    (hrun : run Sys.step (Sys.init size) as = some s) :
    (s.committing = true → s.outstanding = 0 ∧
      ∀ a s', s.step a = some s' → s'.lh ≠ s.lh → ∃ p, a = .commit p ∧ s.procs p = .commit .clear) ∧
    s.panic ≠ some .logCommitting ∧ s.panic ≠ some .outsideTrans ∧
    (s.outstanding = 0 → s.committing = false → s.lh = [] ∧
      (∀ p, (s.beginOp p).procs p = .inOp s.nextOp []) ∧
      ∀ w ∈ s.writes, ∃ bs, (w.txn, bs) ∈ s.committed ∧ w.block ∈ bs) ∧
    ∀ op, ∃ k, (∀ w ∈ s.writes, w.op = op → w.txn = k) ∧
      ((k = s.txn ∧ ∀ w ∈ s.writes, w.op = op → w.block ∈ s.lh) ∨
        ∃ bs, (k, bs) ∈ s.committed ∧ (∀ bs', (k, bs') ∈ s.committed → bs' = bs) ∧
          ∀ w ∈ s.writes, w.op = op → w.block ∈ bs) := by
  obtain ⟨hc, hh⟩ := Sys.run_inv hrun
  refine ⟨fun hcm => ⟨hc.quiet hcm, fun a s' => hc.lh_stable hcm⟩, ?_, ?_, ?_, hh.oneTxn⟩
  · rcases hc.safe with h | h <;> simp [h]
  · rcases hc.safe with h | h <;> simp [h]
  · intro h0 hcm
    have hlh := hc.empty h0 hcm
    refine ⟨hlh, Sys.beginOp_admits h0 hcm hlh, ?_⟩
    intro w hw
    rcases hh.past hw with htxn | ⟨-, bs, hbs, hb⟩
    · have := hh.pending.mpr ⟨w, hw, htxn, rfl⟩
      rw [hlh] at this
      cases this
    · exact ⟨bs, hbs, hb⟩

/-- Two processes share a transaction: the second logs a block while the first
is still inside, and the last `end_op` starts the commit. -/
theorem groupCommit_sample :
    ∃ s, run Sys.step (Sys.init logSize)
        [.beginOp 0, .beginOp 1, .logWrite 0 7, .endOp 0, .logWrite 1 9, .endOp 1] = some s ∧
      s.committing = true ∧ s.outstanding = 0 ∧ s.lh = [7, 9] := by
  refine ⟨_, rfl, rfl, ?_, rfl⟩
  exact ((@groupCommit logSize [.beginOp 0, .beginOp 1, .logWrite 0 7, .endOp 0, .logWrite 1 9,
    .endOp 1] _ rfl).1 rfl).1

end Xv6.Log
