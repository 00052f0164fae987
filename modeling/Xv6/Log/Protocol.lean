import Xv6.Block
import Xv6.Lib.Run

/-!
# The group commit protocol

`begin_op`, `log_write`, `end_op` and `commit` of `kernel/log.c` as one
transition system over any number of processes. Each process runs `begin_op`,
some `log_write`s and `end_op`, over and over. The code between `acquire` and
`release` of `log.lock` is one action. `commit()` runs without the lock, so
each of its loop rounds is an action of its own, and the last one is the locked
section of `end_op` that ends the commit.

A process that must wait in `begin_op` stays where it is and may test again at
any time, which covers every order of `sleep` and `wakeup`.

The fields below `panic` are history. They number the operations and the
transactions and record which operation logged which block in which
transaction, and which blocks a `write_head` committed. No action reads them.
-/

namespace Xv6.Log

/-- The panics of `log.c` that a running system could meet. -/
inductive Panic where
  /-- `panic("log.committing")` in `end_op`. -/
  | logCommitting
  /-- `panic("too big a transaction")` in `log_write`. -/
  | tooBig
  /-- `panic("log_write outside of trans")` in `log_write`. -/
  | outsideTrans
deriving DecidableEq, Repr

/-- Where a process is inside `commit()`. -/
inductive CommitPc where
  /-- At the test `log.lh.n > 0`. -/
  | start
  /-- In `write_log`, about to test `tail < log.lh.n`. -/
  | writeLog (tail : Nat)
  /-- At the first `write_head`. -/
  | writeHead
  /-- In `install_trans`, about to test `tail < log.lh.n`. -/
  | install (tail : Nat)
  /-- At `log.lh.n = 0`. -/
  | clear
  /-- At the second `write_head`. -/
  | eraseHead
  /-- Back in `end_op`, about to take `log.lock` again. -/
  | finish
deriving DecidableEq, Repr

/-- What a process is doing. -/
inductive Phase where
  /-- Outside every operation, possibly waiting in `begin_op`. -/
  | idle
  /-- Between `begin_op` and `end_op`: the number of the operation and the
  distinct blocks it has logged. -/
  | inOp (op : Nat) (used : List Nat)
  /-- In the `commit()` that its `end_op` started. -/
  | commit (pc : CommitPc)
deriving DecidableEq, Repr

/-- One `log_write`, as the history keeps it. -/
structure Write where
  /-- The operation that called it. -/
  op : Nat
  /-- The block logged. -/
  block : Nat
  /-- The transaction that was open. -/
  txn : Nat
deriving DecidableEq, Repr

/-- `struct log` without the lock, the processes that use it, and the history. -/
structure Sys where
  /-- `log.size`. -/
  size : Int
  /-- `log.outstanding`. -/
  outstanding : Int := 0
  /-- `log.committing`. -/
  committing : Bool := false
  /-- `log.lh`: the first `n` entries of `block`. -/
  lh : List Nat := []
  /-- The processes. -/
  procs : Nat → Phase := fun _ => .idle
  /-- The panic that stopped the machine. -/
  panic : Option Panic := none
  /-- Number of the next operation. -/
  nextOp : Nat := 0
  /-- Number of the open transaction. -/
  txn : Nat := 0
  /-- The `log_write`s so far. -/
  writes : List Write := []
  /-- The transactions whose header was written, with the blocks it named. -/
  committed : List (Nat × List Nat) := []

/-- The state `initlog` leaves. -/
def Sys.init (size : Int) : Sys := { size := size }

/-- An atomic action of a process. -/
inductive Act where
  | beginOp (p : Nat)
  | logWrite (p b : Nat)
  | endOp (p : Nat)
  /-- The next step of the `commit()` that process `p` runs. -/
  | commit (p : Nat)
deriving DecidableEq, Repr

/-- Move a process to another phase. -/
def Sys.setPhase (s : Sys) (p : Nat) (ph : Phase) : Sys :=
  { s with procs := Function.update s.procs p ph }

/-- `begin_op`, one test of its loop. -/
def Sys.beginOp (s : Sys) (p : Nat) : Sys :=
  if s.committing then s
  else if (s.lh.length : Int) + (s.outstanding + 1) * maxOpBlocks > logSize then s
  else { s with outstanding := s.outstanding + 1, nextOp := s.nextOp + 1 }.setPhase p
    (.inOp s.nextOp [])

/-- The search and the store of `log_write`: absorb a block that is there, append
one that is not. -/
def absorb (lh : List Nat) (b : Nat) : List Nat :=
  let i := lh.idxOf b
  if i = lh.length then lh ++ [b] else lh.set i b

/-- `log_write` of block `b` by process `p`, which is in operation `op`. -/
def Sys.logWrite (s : Sys) (p op : Nat) (used : List Nat) (b : Nat) : Sys :=
  if (s.lh.length : Int) ≥ logSize ∨ (s.lh.length : Int) ≥ s.size - 1 then
    { s with panic := some .tooBig }
  else if s.outstanding < 1 then { s with panic := some .outsideTrans }
  else { s with lh := absorb s.lh b, writes := ⟨op, b, s.txn⟩ :: s.writes }.setPhase p
    (.inOp op (absorb used b))

/-- `end_op`, up to the release of the lock. -/
def Sys.endOp (s : Sys) (p : Nat) : Sys :=
  let s := { s with outstanding := s.outstanding - 1 }
  if s.committing then { s with panic := some .logCommitting }
  else if s.outstanding = 0 then { s with committing := true }.setPhase p (.commit .start)
  else s.setPhase p .idle

/-- One step of `commit()` by process `p`. -/
def Sys.commitStep (s : Sys) (p : Nat) : CommitPc → Sys
  | .start => s.setPhase p (.commit (if s.lh.length > 0 then .writeLog 0 else .finish))
  | .writeLog tail =>
    s.setPhase p (.commit (if tail < s.lh.length then .writeLog (tail + 1) else .writeHead))
  | .writeHead =>
    { s with committed := (s.txn, s.lh) :: s.committed }.setPhase p (.commit (.install 0))
  | .install tail =>
    s.setPhase p (.commit (if tail < s.lh.length then .install (tail + 1) else .clear))
  | .clear => { s with lh := [], txn := s.txn + 1 }.setPhase p (.commit .eraseHead)
  | .eraseHead => s.setPhase p (.commit .finish)
  | .finish => { s with committing := false }.setPhase p .idle

/-- One action. A process performs only what its phase allows, and nothing
happens after a panic. -/
def Sys.step (s : Sys) (a : Act) : Option Sys :=
  if s.panic.isSome then none
  else match a with
    | .beginOp p => match s.procs p with
        | .idle => some (s.beginOp p)
        | _ => none
    | .logWrite p b => match s.procs p with
        | .inOp op used => some (s.logWrite p op used b)
        | _ => none
    | .endOp p => match s.procs p with
        | .inOp _ _ => some (s.endOp p)
        | _ => none
    | .commit p => match s.procs p with
        | .commit pc => some (s.commitStep p pc)
        | _ => none

/-! ## What an action can do -/

/-- The cases of an action, with the guards that were passed. -/
lemma Sys.step_cases {s s' : Sys} {a : Act} (h : s.step a = some s') :
    s.panic = none ∧
    ((∃ p, a = .beginOp p ∧ s.procs p = .idle ∧ s' = s.beginOp p) ∨
     (∃ p b op used, a = .logWrite p b ∧ s.procs p = .inOp op used ∧
        s' = s.logWrite p op used b) ∨
     (∃ p op used, a = .endOp p ∧ s.procs p = .inOp op used ∧ s' = s.endOp p) ∨
     (∃ p pc, a = .commit p ∧ s.procs p = .commit pc ∧ s' = s.commitStep p pc)) := by
  unfold Sys.step at h
  split at h
  next => cases h
  next hp =>
    refine ⟨by simpa using hp, ?_⟩
    cases a with
    | beginOp p =>
      cases hph : s.procs p with
      | idle =>
        simp only [hph] at h
        exact .inl ⟨p, rfl, hph, (Option.some.inj h).symm⟩
      | inOp op used => simp [hph] at h
      | commit pc => simp [hph] at h
    | logWrite p b =>
      cases hph : s.procs p with
      | idle => simp [hph] at h
      | inOp op used =>
        simp only [hph] at h
        exact .inr (.inl ⟨p, b, op, used, rfl, hph, (Option.some.inj h).symm⟩)
      | commit pc => simp [hph] at h
    | endOp p =>
      cases hph : s.procs p with
      | idle => simp [hph] at h
      | inOp op used =>
        simp only [hph] at h
        exact .inr (.inr (.inl ⟨p, op, used, rfl, hph, (Option.some.inj h).symm⟩))
      | commit pc => simp [hph] at h
    | commit p =>
      cases hph : s.procs p with
      | idle => simp [hph] at h
      | inOp op used => simp [hph] at h
      | commit pc =>
        simp only [hph] at h
        exact .inr (.inr (.inr ⟨p, pc, rfl, hph, (Option.some.inj h).symm⟩))

/-! ## Absorption -/

lemma absorb_of_mem {lh : List Nat} {b : Nat} (h : b ∈ lh) : absorb lh b = lh := by
  have hi : lh.idxOf b < lh.length := List.idxOf_lt_length_iff.mpr h
  unfold absorb
  rw [if_neg (by omega)]
  apply List.ext_getElem
  · simp
  · intro i h₁ h₂
    by_cases hib : lh.idxOf b = i
    · subst hib; simp
    · rw [List.getElem_set_of_ne hib]

lemma absorb_of_notMem {lh : List Nat} {b : Nat} (h : b ∉ lh) : absorb lh b = lh ++ [b] := by
  unfold absorb
  rw [if_pos (List.idxOf_eq_length_iff.mpr h)]

@[simp] lemma mem_absorb {lh : List Nat} {b c : Nat} : c ∈ absorb lh b ↔ c ∈ lh ∨ c = b := by
  by_cases h : b ∈ lh
  · rw [absorb_of_mem h]
    constructor
    · exact .inl
    · rintro (hc | rfl)
      · exact hc
      · exact h
  · simp [absorb_of_notMem h]

lemma absorb_nodup {lh : List Nat} (h : lh.Nodup) (b : Nat) : (absorb lh b).Nodup := by
  by_cases hb : b ∈ lh
  · rwa [absorb_of_mem hb]
  · rw [absorb_of_notMem hb]
    simpa using h.concat hb

lemma length_absorb_le (lh : List Nat) (b : Nat) :
    (absorb lh b).length ≤ lh.length + 1 := by
  by_cases hb : b ∈ lh
  · rw [absorb_of_mem hb]; omega
  · simp [absorb_of_notMem hb]

end Xv6.Log
