import Xv6.Lib.Ring
import Xv6.Lib.Run
import Xv6.Param

/-!
# Pipes

`pipewrite` and `piperead` of `kernel/pipe.c`, run by any number of processes at
once. A call holds `pi->lock` from `acquire` to the end of the call or to a
`sleep`, and one round of its loop is one step. Between the rounds of one call
nobody else gets the lock, but a process may be killed at any time.

The user buffers are mapped, so `copyin` and `copyout` of a byte succeed. The
lists `taken` and `stored` are not part of `struct pipe`: they record the bytes
taken from writers and those stored to readers, in the order of the steps.
-/

namespace Xv6

open Function Lib

namespace Pipe

/-- `PIPESIZE`. -/
def pipeSize : Nat := 512

/-- `data`, `nread` and `nwrite`: `uint` counters and `PIPESIZE` places. -/
def shape : RingShape where
  size := pipeSize
  modulus := 2 ^ 32
  size_pos := by decide
  size_lt := by decide
  size_dvd := by decide

/-- Where a process is. -/
inductive Phase where
  /-- Not in a call, with the result of the last one. -/
  | user (ret : Option Int)
  /-- In `pipewrite`, to get the lock. -/
  | acquireWrite (buf : Nat → UInt8) (n : Int) (i : Nat)
  /-- At the head of the loop of `pipewrite`, with the lock. -/
  | writing (buf : Nat → UInt8) (n : Int) (i : Nat)
  /-- Asleep on `&pi->nwrite`. -/
  | sleepWrite (buf : Nat → UInt8) (n : Int) (i : Nat)
  /-- In `piperead`, to get the lock. -/
  | acquireRead (n : Int)
  /-- At the head of the first loop of `piperead`, with the lock. -/
  | waiting (n : Int)
  /-- Asleep on `&pi->nread`. -/
  | sleepRead (n : Int)
  /-- At the head of the second loop of `piperead`, with the lock. -/
  | reading (n : Int) (i : Nat)

end Pipe

/-- `struct pipe`, and the processes that use it. -/
structure Pipe where
  ring : RingBuf UInt8
  readopen : Bool
  writeopen : Bool
  /-- The holder of `pi->lock`. -/
  lock : Option Nat
  phase : Nat → Pipe.Phase
  killed : Nat → Bool
  /-- The bytes taken from writers. -/
  taken : List UInt8
  /-- The bytes stored to readers. -/
  stored : List UInt8

namespace Pipe

/-- What can happen. -/
inductive Action where
  /-- A process calls `pipewrite` with the `n` bytes of a buffer. -/
  | write (p : Nat) (buf : Nat → UInt8) (n : Int)
  /-- A process calls `piperead` for `n` bytes. -/
  | read (p : Nat) (n : Int)
  /-- A process makes the next step of its call. -/
  | run (p : Nat)
  | kill (p : Nat)
  /-- `pipeclose` of one end. -/
  | close (writable : Bool)

/-- Process `p` gets to another place. -/
def go (s : Pipe) (p : Nat) (x : Phase) : Pipe := { s with phase := update s.phase p x }

/-- `release(&pi->lock)`. -/
def release (s : Pipe) : Pipe := { s with lock := none }

/-- `wakeup(&pi->nread)`. -/
def wakeupNread (s : Pipe) : Pipe :=
  { s with phase := fun p =>
      match s.phase p with
      | .sleepRead n => .acquireRead n
      | x => x }

/-- `wakeup(&pi->nwrite)`. -/
def wakeupNwrite (s : Pipe) : Pipe :=
  { s with phase := fun p =>
      match s.phase p with
      | .sleepWrite buf n i => .acquireWrite buf n i
      | x => x }

/-- One round of the loop of `pipewrite`, or its end. -/
def writeRound (s : Pipe) (p : Nat) (buf : Nat → UInt8) (n : Int) (i : Nat) : Pipe :=
  if i < n then
    if s.readopen = false ∨ s.killed p = true then s.release.go p (.user (some (-1)))
    else if s.ring.nwrite = (s.ring.nread + pipeSize) % 2 ^ 32 then
      s.wakeupNread.release.go p (.sleepWrite buf n i)
    else
      { s.go p (.writing buf n (i + 1)) with
        ring := s.ring.push shape (buf i), taken := s.taken ++ [buf i] }
  else s.wakeupNread.release.go p (.user (some i))

/-- One round of the first loop of `piperead`, or its end. -/
def waitRound (s : Pipe) (p : Nat) (n : Int) : Pipe :=
  if s.ring.nread = s.ring.nwrite ∧ s.writeopen = true then
    if s.killed p = true then s.release.go p (.user (some (-1)))
    else s.release.go p (.sleepRead n)
  else s.go p (.reading n 0)

/-- One round of the second loop of `piperead`, or its end. -/
def readRound (s : Pipe) (p : Nat) (n : Int) (i : Nat) : Pipe :=
  if i < n ∧ s.ring.nread ≠ s.ring.nwrite then
    { s.go p (.reading n (i + 1)) with
      ring := s.ring.pop shape, stored := s.stored ++ [s.ring.front shape] }
  else s.wakeupNwrite.release.go p (.user (some i))

/-- The next step of process `p`. -/
def runProc (s : Pipe) (p : Nat) : Option Pipe :=
  match s.phase p with
  | .user _ => none
  | .acquireWrite buf n i =>
    if s.lock = none then some { s.go p (.writing buf n i) with lock := some p } else none
  | .writing buf n i => some (s.writeRound p buf n i)
  | .sleepWrite _ _ _ => none
  | .acquireRead n =>
    if s.lock = none then some { s.go p (.waiting n) with lock := some p } else none
  | .waiting n => some (s.waitRound p n)
  | .sleepRead _ => none
  | .reading n i => some (s.readRound p n i)

/-- `kill` wakes a process that sleeps. -/
def kill (s : Pipe) (p : Nat) : Pipe :=
  let s := { s with killed := update s.killed p true }
  match s.phase p with
  | .sleepWrite buf n i => s.go p (.acquireWrite buf n i)
  | .sleepRead n => s.go p (.acquireRead n)
  | _ => s

/-- `pipeclose`, which waits for the lock. -/
def close (s : Pipe) (writable : Bool) : Pipe :=
  if writable then { s.wakeupNread with writeopen := false }
  else { s.wakeupNwrite with readopen := false }

/-- One step, if it is possible. -/
def step (s : Pipe) : Action → Option Pipe
  | .write p buf n =>
    match s.phase p with
    | .user _ => some (s.go p (.acquireWrite buf n 0))
    | _ => none
  | .read p n =>
    match s.phase p with
    | .user _ => some (s.go p (.acquireRead n))
    | _ => none
  | .run p => s.runProc p
  | .kill p => some (s.kill p)
  | .close writable => if s.lock = none then some (s.close writable) else none

/-- A pipe whose counters both have the value `v`, with no call in progress. -/
def start (v : Nat) (data : Nat → UInt8) : Pipe where
  ring := { data := data, nread := v, nwrite := v }
  readopen := true
  writeopen := true
  lock := none
  phase := fun _ => .user none
  killed := fun _ => false
  taken := []
  stored := []

/-! ## The invariant -/

/-- The process has the lock. -/
def Phase.Holds : Phase → Prop
  | .user _ => False
  | .acquireWrite _ _ _ => False
  | .writing _ _ _ => True
  | .sleepWrite _ _ _ => False
  | .acquireRead _ => False
  | .waiting _ => True
  | .sleepRead _ => False
  | .reading _ _ => True

/-- The bytes inside are those taken and not yet stored. -/
structure Fifo (s : Pipe) : Prop where
  ok : s.ring.Ok shape
  fifo : s.taken = s.stored ++ s.ring.contents shape

/-- What holds after every step. -/
structure Inv (s : Pipe) : Prop extends Fifo s where
  holder : ∀ {p}, (s.phase p).Holds → s.lock = some p
  /-- A reader that got past the first loop finds a byte, or nobody can write. -/
  ready : ∀ {p n}, s.phase p = .reading n 0 → s.ring.nread ≠ s.ring.nwrite ∨ s.writeopen = false

variable {s s' : Pipe} {p q i : Nat} {n : Int} {buf : Nat → UInt8}

lemma holds_wakeupNread : (s.wakeupNread.phase p).Holds ↔ (s.phase p).Holds := by
  cases h : s.phase p <;> simp [wakeupNread, h, Phase.Holds]

lemma holds_wakeupNwrite : (s.wakeupNwrite.phase p).Holds ↔ (s.phase p).Holds := by
  cases h : s.phase p <;> simp [wakeupNwrite, h, Phase.Holds]

lemma holds_go_other {x : Phase} (hne : p ≠ q) :
    ((s.go q x).phase p).Holds ↔ (s.phase p).Holds := by
  simp [go, update_of_ne hne]

@[simp] lemma phase_go_self (s : Pipe) (q : Nat) (x : Phase) : (s.go q x).phase q = x :=
  update_self ..

/-- While a process has the lock, no other has it. -/
lemma Inv.alone (h : Inv s) (hq : (s.phase q).Holds) (hne : p ≠ q) : ¬ (s.phase p).Holds := by
  intro hp
  have hlock := h.holder hq
  rw [h.holder hp] at hlock
  exact hne (Option.some.inj hlock)

/-- While the lock is free, no process has it. -/
lemma Inv.free (h : Inv s) (hlock : s.lock = none) (p : Nat) : ¬ (s.phase p).Holds := by
  intro hp
  rw [h.holder hp] at hlock
  cases hlock

/-- No process has the lock. -/
lemma Inv.of_free (hf : Fifo s) (hfree : ∀ p, ¬ (s.phase p).Holds) : Inv s where
  toFifo := hf
  holder := fun {p} hp => absurd hp (hfree p)
  ready := fun {p n} hp => absurd (by rw [hp]; trivial) (hfree p)

/-- Process `q` has the lock. -/
lemma Inv.of_holder (hf : Fifo s) (hlock : s.lock = some q)
    (hothers : ∀ p, p ≠ q → ¬ (s.phase p).Holds)
    (hready : ∀ n, s.phase q = .reading n 0 → s.ring.nread ≠ s.ring.nwrite ∨ s.writeopen = false) :
    Inv s where
  toFifo := hf
  holder := fun {p} hp => by
    by_cases he : p = q
    · rw [he]
      exact hlock
    · exact absurd hp (hothers p he)
  ready := fun {p n} hp => by
    by_cases he : p = q
    · exact hready n (he ▸ hp)
    · exact absurd (by rw [hp]; trivial) (hothers p he)

/-- The holder lets the lock go, after it woke others or not. -/
lemma Inv.leave {x : Phase} (h : Inv s) (hq : (s.phase q).Holds) (hx : ¬ x.Holds)
    {t : Pipe} (ht : t = s ∨ t = s.wakeupNread ∨ t = s.wakeupNwrite) : Inv (t.release.go q x) := by
  have hphase : ∀ p, (t.phase p).Holds ↔ (s.phase p).Holds := by
    intro p
    rcases ht with rfl | rfl | rfl
    · exact Iff.rfl
    · exact holds_wakeupNread
    · exact holds_wakeupNwrite
  have hfifo : Fifo (t.release.go q x) := by
    rcases ht with rfl | rfl | rfl <;> exact ⟨h.ok, h.fifo⟩
  refine Inv.of_free hfifo fun p => ?_
  by_cases he : p = q
  · rw [he, phase_go_self]
    exact hx
  · rw [holds_go_other he]
    exact fun hp => h.alone hq he ((hphase p).mp hp)

/-! ## The steps -/

lemma Inv.writeRound (h : Inv s) (hq : s.phase q = .writing buf n i) :
    Inv (s.writeRound q buf n i) := by
  have hholds : (s.phase q).Holds := by
    rw [hq]
    trivial
  unfold Pipe.writeRound
  split
  next hlt =>
    split
    next hstop => exact h.leave hholds id (.inl rfl)
    next hgo =>
      split
      next hfull => exact h.leave hholds id (.inr (.inl rfl))
      next hroom =>
        have hcount : s.ring.count shape < shape.size :=
          Nat.lt_of_le_of_ne h.ok.count_le fun he => hroom (h.ok.full_iff.mpr he)
        refine Inv.of_holder ⟨h.ok.push hcount, ?_⟩ (h.holder hholds) (fun p hne => ?_) fun m hm => ?_
        · show s.taken ++ [buf i] = s.stored ++ (s.ring.push shape (buf i)).contents shape
          rw [h.ok.contents_push hcount, h.fifo, List.append_assoc]
        · exact (holds_go_other hne).not.mpr (h.alone hholds hne)
        · have hself : (s.go q (.writing buf n (i + 1))).phase q = .reading m 0 := hm
          rw [phase_go_self] at hself
          cases hself
  next hend => exact h.leave hholds id (.inr (.inl rfl))

lemma Inv.waitRound (h : Inv s) (hq : s.phase q = .waiting n) : Inv (s.waitRound q n) := by
  have hholds : (s.phase q).Holds := by
    rw [hq]
    trivial
  unfold Pipe.waitRound
  split
  next hempty =>
    split
    next hkilled => exact h.leave hholds id (.inl rfl)
    next hsleep => exact h.leave hholds id (.inl rfl)
  next hgo =>
    refine Inv.of_holder ⟨h.ok, h.fifo⟩ (h.holder hholds) (fun p hne => ?_) fun m _ => ?_
    · exact (holds_go_other hne).not.mpr (h.alone hholds hne)
    · show s.ring.nread ≠ s.ring.nwrite ∨ s.writeopen = false
      by_cases hne : s.ring.nread = s.ring.nwrite
      · right
        cases hw : s.writeopen with
        | false => rfl
        | true => exact absurd ⟨hne, hw⟩ hgo
      · exact .inl hne

lemma Inv.readRound (h : Inv s) (hq : s.phase q = .reading n i) : Inv (s.readRound q n i) := by
  have hholds : (s.phase q).Holds := by
    rw [hq]
    trivial
  unfold Pipe.readRound
  split
  next hmore =>
    have hcount : 0 < s.ring.count shape :=
      Nat.pos_of_ne_zero fun hz => hmore.2 (h.ok.nread_eq_nwrite_iff.mpr hz)
    refine Inv.of_holder ⟨h.ok.pop hcount, ?_⟩ (h.holder hholds) (fun p hne => ?_) fun m hm => ?_
    · show s.taken = (s.stored ++ [s.ring.front shape]) ++ (s.ring.pop shape).contents shape
      rw [h.fifo, h.ok.contents_pop hcount, List.append_assoc, List.singleton_append]
    · exact (holds_go_other hne).not.mpr (h.alone hholds hne)
    · have hself : (s.go q (.reading n (i + 1))).phase q = .reading m 0 := hm
      rw [phase_go_self] at hself
      cases hself
  next hend => exact h.leave hholds id (.inr (.inr rfl))

/-- A process gets the lock. -/
lemma Inv.acquire {x : Phase} (h : Inv s) (hlock : s.lock = none)
    (hx : ∀ m, x ≠ .reading m 0) : Inv { s.go q x with lock := some q } := by
  refine Inv.of_holder ⟨h.ok, h.fifo⟩ rfl (fun p hne => ?_) fun m hm => ?_
  · exact (holds_go_other hne).not.mpr (h.free hlock p)
  · have hself : (s.go q x).phase q = .reading m 0 := hm
    rw [phase_go_self] at hself
    exact absurd hself (hx m)

/-- A process goes to a place without the lock. -/
lemma Inv.move {x : Phase} (h : Inv s) (hx : ¬ x.Holds) :
    Inv (s.go q x) where
  ok := h.ok
  fifo := h.fifo
  holder := fun {p} hp => by
    by_cases he : p = q
    · rw [he, phase_go_self] at hp
      exact absurd hp hx
    · exact h.holder ((holds_go_other he).mp hp)
  ready := fun {p m} hp => by
    by_cases he : p = q
    · rw [he, phase_go_self] at hp
      rw [hp] at hx
      exact absurd trivial hx
    · exact h.ready (n := m) (by simpa [go, update_of_ne he] using hp)

lemma Inv.kill (h : Inv s) (q : Nat) : Inv (s.kill q) := by
  have h' : Inv { s with killed := update s.killed q true } :=
    ⟨⟨h.ok, h.fifo⟩, h.holder, h.ready⟩
  unfold Pipe.kill
  dsimp only
  split
  next => exact h'.move id
  next => exact h'.move id
  next => exact h'

lemma Inv.close (h : Inv s) (hlock : s.lock = none) (writable : Bool) : Inv (s.close writable) := by
  unfold Pipe.close
  split
  next => exact Inv.of_free ⟨h.ok, h.fifo⟩ fun p hp => h.free hlock p (holds_wakeupNread.mp hp)
  next => exact Inv.of_free ⟨h.ok, h.fifo⟩ fun p hp => h.free hlock p (holds_wakeupNwrite.mp hp)

lemma Inv.runProc (h : Inv s) (hs : s.runProc q = some s') : Inv s' := by
  unfold Pipe.runProc at hs
  split at hs
  next => cases hs
  next =>
    obtain ⟨hlock, rfl⟩ := of_guard hs
    exact h.acquire hlock fun _ he => by cases he
  next hq =>
    cases hs
    exact h.writeRound hq
  next => cases hs
  next =>
    obtain ⟨hlock, rfl⟩ := of_guard hs
    exact h.acquire hlock fun _ he => by cases he
  next hq =>
    cases hs
    exact h.waitRound hq
  next => cases hs
  next hq =>
    cases hs
    exact h.readRound hq

lemma Inv.step {a : Action} (h : Inv s) (hs : s.step a = some s') : Inv s' := by
  cases a with
  | write q buf n | read q n =>
    simp only [Pipe.step] at hs
    split at hs
    next =>
      cases hs
      exact h.move id
    next => cases hs
  | run q => exact h.runProc hs
  | kill q =>
    cases hs
    exact h.kill q
  | close writable =>
    simp only [Pipe.step] at hs
    obtain ⟨hlock, rfl⟩ := of_guard hs
    exact h.close hlock writable

lemma Inv.start {v : Nat} (hv : v < 2 ^ 32) (data : Nat → UInt8) : Inv (start v data) := by
  have hcount : (Pipe.start v data).ring.count shape = 0 := by
    refine RingBuf.count_eq hv (by decide) ?_
    exact (Nat.mod_eq_of_lt hv).symm
  refine Inv.of_free ⟨⟨hv, hv, ?_⟩, ?_⟩ fun _ => id
  · rw [hcount]
    exact Nat.zero_le _
  · show [] = [] ++ (Pipe.start v data).ring.contents shape
    rw [RingBuf.contents, hcount]
    rfl

/-- Every run: the bytes in the ring are those taken from writers and not yet stored
to readers, in order, and never more than `PIPESIZE`; and `piperead` of at least one
byte returns 0 only at the end of the file. -/
theorem fifo_run {v : Nat} (hv : v < 2 ^ 32) (data : Nat → UInt8) {as : List Action}
    (hrun : run step (start v data) as = some s) :
    s.ring.count shape ≤ pipeSize ∧ s.taken = s.stored ++ s.ring.contents shape ∧
      ∀ p n i s', s.phase p = .reading n i → 0 < n → s.step (.run p) = some s' →
        s'.phase p = .user (some 0) → s.ring.nread = s.ring.nwrite ∧ s.writeopen = false := by
  have h : Inv s := run_induction (P := fun _ s => Inv s) hrun (Inv.start hv data)
    fun _ _ _ _ hinv hs => hinv.step hs
  refine ⟨h.ok.count_le, h.fifo, fun p n i s' hp hn hs hret => ?_⟩
  simp only [Pipe.step, Pipe.runProc, hp] at hs
  cases hs
  unfold Pipe.readRound at hret
  split at hret
  next hmore =>
    have hself : (s.go p (.reading n (i + 1))).phase p = .user (some 0) := hret
    rw [phase_go_self] at hself
    cases hself
  next hend =>
    rw [phase_go_self] at hret
    have hi : (i : Int) = 0 := by
      cases hret
      rfl
    have hempty : s.ring.nread = s.ring.nwrite := by
      by_contra hne
      exact hend ⟨by omega, hne⟩
    obtain rfl : i = 0 := by omega
    exact ⟨hempty, (h.ready hp).resolve_left fun hne => hne hempty⟩

/-- Process 0 writes two bytes while the counters wrap, and process 1 reads one. -/
def wrapRun : List Action :=
  [.write 0 (fun i => if i = 0 then 7 else 8) 2, .run 0, .run 0, .run 0, .run 0,
    .read 1 1, .run 1, .run 1, .run 1]

theorem fifo_run_wrap : ∃ s, run step (start (2 ^ 32 - 1) fun _ => 0) wrapRun = some s ∧
    s.stored = [7] ∧ s.ring.count shape ≤ pipeSize ∧
    s.taken = s.stored ++ s.ring.contents shape := by
  have hv : 2 ^ 32 - 1 < 2 ^ 32 := by decide
  refine ⟨_, rfl, rfl, ?_⟩
  obtain ⟨hcount, hfifo, -⟩ := fifo_run hv (fun _ => 0) (show run step _ wrapRun = _ from rfl)
  exact ⟨hcount, hfifo⟩

end Pipe

end Xv6
