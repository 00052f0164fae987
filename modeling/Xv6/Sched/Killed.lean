import Xv6.Sched.Threads

/-!
# Killed processes that sleep

The loops in which a process waits and that it leaves when it is killed: in `piperead`, `pipewrite`,
`consoleread`, `sys_sleep` and `wait`. What they wait for is left open: a loop may go on or end at
any time. All five call `killed` and then `sleep`:

  if(killed(p)){ release(lk); return -1; }
  sleep(chan, lk);

Both acquire `p->lock`, one after the other, and `kill` needs nothing but `p->lock`. A `kill` that comes
in between finds a process that is not asleep, and the process does not look at `p->killed` again before it
sleeps.
-/

namespace Xv6.Sched.Killing

open Function Lib ProcTable Machine

/-- The loops. -/
inductive Loop where
  | piperead
  | pipewrite
  | consoleread
  | sysSleep
  | wait
  deriving DecidableEq

/-- The locks of the loops: `pi->lock`, `cons.lock`, `tickslock` and `wait_lock`. -/
inductive Lk where
  | pipe
  | cons
  | ticks
  | wait
  deriving DecidableEq

/-- The lock that the process has in the loop. -/
def Loop.lk : Loop → Lk
  | .piperead | .pipewrite => .pipe
  | .consoleread => .cons
  | .sysSleep => .ticks
  | .wait => .wait

/-- What process `i` sleeps on in the loop: `&pi->nread`, `&pi->nwrite`, `&cons.r`, `&ticks` or
itself. -/
def Loop.chan (i : Nat) : Loop → Nat
  | .piperead => 0
  | .pipewrite => 1
  | .consoleread => 2
  | .sysSleep => 3
  | .wait => 4 + i

/-- Where a thread is. -/
inductive Thread where
  /-- In none of the loops. -/
  | idle
  /-- In the loop, before the call of `killed`. -/
  | looping (l : Loop)
  /-- `killed` has returned 0. -/
  | tested (l : Loop)
  /-- Round `j` of `wakeup(&pi->nread)` in `pipewrite`. -/
  | waking (j : Nat)
  /-- At the call of `sleep`. -/
  | calling (l : Loop)
  /-- In `sleep`, with `p->lock` and the lock of the loop. -/
  | sleep1 (l : Loop)
  /-- In `sleep`, with `p->lock`. -/
  | sleep2 (l : Loop)
  /-- In `sched`, called from `sleep`. -/
  | asleep (l : Loop)
  /-- At the `acquire` at the end of `sleep`. -/
  | woken (l : Loop)
  deriving DecidableEq

/-- Between `killed` and the `acquire(&p->lock)` in `sleep`. -/
def Thread.window : Thread → Bool
  | .tested _ | .waking _ | .calling _ => true
  | _ => false

/-- In `sleep`, with `p->lock`. -/
def Thread.locks : Thread → Bool
  | .sleep1 _ | .sleep2 _ => true
  | _ => false

/-- The calls of the threads. A thread that has a spinlock does not give up the CPU but in `sleep`.
-/
def program : Program Thread where
  start := .idle
  next
    | .idle, .resume _ | .idle, .acquire _ | .idle, .yield _ | .idle, .exit _ | .idle, .sleep _ _ => some .idle
    | .calling l, .acquire _ => some (.sleep1 l)
    | .sleep2 l, .sleep _ _ => some (.asleep l)
    | .asleep l, .resume _ => some (.woken l)
    | .woken l, .resume _ | .woken l, .acquire _ | .woken l, .yield _ => some (.woken l)
    | _, _ => none

/-- The steps of a thread. -/
lemma next_cases {t t' : Thread} {a : Machine.Action} (h : program.next t a = some t') :
    ((t = .idle ∨ ∃ l, t = .woken l) ∧ t' = t) ∨
    (∃ l, t = .calling l ∧ t' = .sleep1 l ∧ ∃ c, a = .acquire c) ∨
    (∃ l, t = .sleep2 l ∧ t' = .asleep l) ∨
    (∃ l, t = .asleep l ∧ t' = .woken l) := by
  unfold program at h
  dsimp only at h
  split at h
  case h_6 l c => cases h; exact .inr (.inl ⟨l, rfl, rfl, c, rfl⟩)
  case h_7 l _ _ => cases h; exact .inr (.inr (.inl ⟨l, rfl, rfl⟩))
  case h_8 l _ => cases h; exact .inr (.inr (.inr ⟨l, rfl, rfl⟩))
  case h_9 l _ => cases h; exact .inl ⟨.inr ⟨l, rfl⟩, rfl⟩
  case h_10 l _ => cases h; exact .inl ⟨.inr ⟨l, rfl⟩, rfl⟩
  case h_11 l _ => cases h; exact .inl ⟨.inr ⟨l, rfl⟩, rfl⟩
  case h_12 => cases h
  all_goals cases h; exact .inl ⟨.inl rfl, rfl⟩

/-- The machine and the locks. -/
structure System where
  m : Machine
  thread : Nat → Thread
  lk : Lk → Option Nat
  /-- Not in the source: a `kill` has come since `killed` last returned 0, and before the
  `acquire(&p->lock)` in `sleep`. -/
  late : Nat → Bool

def start : System where
  m := boot
  thread := fun _ => .idle
  lk := fun _ => none
  late := fun _ => false

namespace System

/-- The thread goes on at `t`. -/
def goto (s : System) (i : Nat) (t : Thread) : System := { s with thread := update s.thread i t }

/-- Process `i` acquires the lock of the loop. -/
def lock (s : System) (i : Nat) (l : Loop) : System := { s with lk := update s.lk l.lk (some i) }

/-- The lock of the loop is released. -/
def unlock (s : System) (l : Loop) : System := { s with lk := update s.lk l.lk none }

/-- The loop starts. -/
def enter (s : System) (c : Nat) (l : Loop) : Option System :=
  (s.m.caller c).bind fun i =>
    if s.thread i = .idle ∧ s.lk l.lk = none then some ((s.lock i l).goto i (.looping l)) else none

/-- There is nothing to wait for any more. -/
def finish (s : System) (c : Nat) : Option System :=
  (s.m.caller c).bind fun i =>
    match s.thread i with
    | .looping l => some ((s.unlock l).goto i .idle)
    | _ => none

/-- `killed(p)`, and the return if the process is killed. -/
def killed (s : System) (c : Nat) : Option System :=
  (s.m.caller c).bind fun i =>
    match s.thread i with
    | .looping l =>
      if (s.m.proc i).lock ≠ none then none
      else if (s.m.proc i).killed then some ((s.unlock l).goto i .idle)
      else some ({ s with late := update s.late i false }.goto i (.tested l))
    | _ => none

/-- `pipewrite` finds room for a byte, and goes on. -/
def again (s : System) (c : Nat) : Option System :=
  (s.m.caller c).bind fun i =>
    if s.thread i = .tested .pipewrite then some (s.goto i (.looping .pipewrite)) else none

/-- The process is going to sleep. `pipewrite` first calls `wakeup(&pi->nread)`. -/
def call (s : System) (c : Nat) : Option System :=
  (s.m.caller c).bind fun i =>
    match s.thread i with
    | .tested .pipewrite => some (s.goto i (.waking 0))
    | .tested l => some (s.goto i (.calling l))
    | _ => none

/-- A round of `wakeup(&pi->nread)` in `pipewrite`, or its end. -/
def round (s : System) (c : Nat) : Option System :=
  (s.m.caller c).bind fun i =>
    match s.thread i with
    | .waking j =>
      if j < nproc then
        if (s.m.cpu c).proc = some j then some (s.goto i (.waking (j + 1)))
        else (s.m.step (.wakeup c j (Loop.chan i .piperead))).map fun m =>
          { s with m := m }.goto i (.waking (j + 1))
      else some (s.goto i (.calling .pipewrite))
    | _ => none

/-- `release(lk)` in `sleep`. -/
def sleepRelease (s : System) (c : Nat) : Option System :=
  match (s.m.cpu c).pc with
  | .hold i =>
    match s.thread i with
    | .sleep1 l => some ((s.unlock l).goto i (.sleep2 l))
    | _ => none
  | _ => none

/-- `acquire(lk)` at the end of `sleep`. -/
def relock (s : System) (c : Nat) : Option System :=
  (s.m.caller c).bind fun i =>
    match s.thread i with
    | .woken l => if s.lk l.lk = none then some ((s.lock i l).goto i (.looping l)) else none
    | _ => none

/-- A process sleeps on what its loop says. -/
def chanOk (s : System) : Machine.Action → Bool
  | .sleep c chan =>
    match (s.m.cpu c).pc with
    | .hold i =>
      match s.thread i with
      | .sleep2 l => chan = l.chan i
      | _ => true
    | _ => true
  | _ => true

/-- Whether the last `kill` came too late for `killed` and too early for `sleep`. -/
def lateAfter (s : System) : Machine.Action → Nat → Bool
  | .kill _ j => update s.late j (s.late j || (s.thread j).window)
  | _ => s.late

/-- What happens on CPU `c`. -/
inductive Action where
  | machine (a : Machine.Action)
  | enter (c : Nat) (l : Loop)
  | finish (c : Nat)
  | killed (c : Nat)
  | again (c : Nat)
  | call (c : Nat)
  | round (c : Nat)
  | sleepRelease (c : Nat)
  | relock (c : Nat)

/-- One step, if it is possible. -/
def step (s : System) : Action → Option System
  | .machine a =>
    if s.chanOk a then
      (program.step s.m s.thread a).map fun (m, thread) =>
        { s with m := m, thread := thread, late := s.lateAfter a }
    else none
  | .enter c l => s.enter c l
  | .finish c => s.finish c
  | .killed c => s.killed c
  | .again c => s.again c
  | .call c => s.call c
  | .round c => s.round c
  | .sleepRelease c => s.sleepRelease c
  | .relock c => s.relock c

/-! ## The invariant -/

/-- The process has called `killed`, and has not been woken up since. -/
def Committed (s : System) (i : Nat) : Prop :=
  (s.thread i).window = true ∨ (s.thread i).locks = true ∨
    ∃ l, s.thread i = .asleep l ∧ (s.m.proc i).state = .sleeping

structure Inv (s : System) : Prop where
  m : s.m.Inv
  hold : ∀ {i}, (s.thread i).locks = true → ∃ c, (s.m.cpu c).pc = .hold i
  late : ∀ {i}, s.Committed i → (s.m.proc i).killed = true → s.late i = true

variable {s s' : System} {c i j : Nat}

lemma goto_thread (s : System) (i j : Nat) (t : Thread) :
    (s.goto i t).thread j = if j = i then t else s.thread j := update_apply ..

lemma inv_start : start.Inv where
  m := inv_boot
  hold := nofun
  late := by
    rintro i (h | h | ⟨l, h, -⟩) <;> cases h

lemma le_lateAfter (a : Machine.Action) (h : s.late i = true) : s.lateAfter a i = true := by
  cases a with
  | kill c j =>
    show update s.late j (s.late j || (s.thread j).window) i = true
    by_cases hij : i = j
    · rw [← hij, update_self, h]
      rfl
    · rw [update_of_ne hij, h]
  | _ => exact h

namespace Inv

variable (hs : s.Inv)
include hs

section

variable {a : Machine.Action} {m : Machine} {thread : Nat → Thread}
  (h : program.step s.m s.thread a = some (m, thread))
include h

lemma committed_machine {late : Nat → Bool}
    (hi : Committed { s with m := m, thread := thread, late := late } i) : s.Committed i := by
  have hstep := hs.m.step_cases (Program.step_machine h)
  unfold Committed at hi
  dsimp only at hi
  rcases Program.step_thread h i with ⟨c, hown, hb, hnext⟩ | ⟨hborn, ht⟩ | ⟨hown, ht⟩
  · rcases next_cases hnext with ⟨ht, he⟩ | ⟨l, ht, -⟩ | ⟨l, ht, -⟩ | ⟨l, -, he⟩
    · rw [he] at hi
      rcases ht with ht | ⟨l, ht⟩ <;> rw [ht] at hi <;> rcases hi with hi | hi | ⟨l, hi, -⟩ <;> cases hi
    · exact .inl (by rw [ht]; rfl)
    · exact .inr (.inl (by rw [ht]; rfl))
    · rw [he] at hi
      rcases hi with hi | hi | ⟨l, hi, -⟩ <;> cases hi
  · rw [ht] at hi
    rcases hi with hi | hi | ⟨l, hi, -⟩ <;> cases hi
  · rw [ht] at hi
    rcases hi with hi | hi | ⟨l, hi, hsleep⟩
    · exact .inl hi
    · exact .inr (.inl hi)
    · rcases hs.m.sleeping hstep hsleep with ⟨hold, -⟩ | ⟨c, chan, rfl, hpc, -⟩
      · exact .inr (.inr ⟨l, hi, hold⟩)
      · exact absurd (by rw [hpc]; rfl) (hown c rfl)

lemma machine : Inv { s with m := m, thread := thread, late := s.lateAfter a } := by
  have hstep := hs.m.step_cases (Program.step_machine h)
  constructor
  case m => exact hs.m.next hstep
  case hold =>
    intro i hi
    dsimp only at hi
    rcases Program.step_thread h i with ⟨c, hown, hb, hnext⟩ | ⟨hborn, ht⟩ | ⟨hown, ht⟩
    · rcases next_cases hnext with ⟨ht, he⟩ | ⟨l, -, -, d, rfl⟩ | ⟨l, -, he⟩ | ⟨l, -, he⟩
      · rw [he] at hi
        rcases ht with ht | ⟨l, ht⟩ <;> rw [ht] at hi <;> cases hi
      · cases hown
        cases hstep with
        | acquire hpc =>
          rw [hpc] at hb
          cases hb
          exact ⟨c, Machine.goto_pc ..⟩
      · rw [he] at hi
        cases hi
      · rw [he] at hi
        cases hi
    · rw [ht] at hi
      cases hi
    · rw [ht] at hi
      obtain ⟨c, hc⟩ := hs.hold hi
      exact ⟨c, (Program.step_cpu hs.m h hown (.inr hc)).trans hc⟩
  case late =>
    intro i hi hkilled
    have hold := hs.committed_machine h hi
    rcases hstep.killed hkilled with hk | ⟨c, rfl, hlock⟩
    · exact le_lateAfter a (hs.late hold hk)
    · rcases hold with hw | hl | ⟨l, ht, hsl⟩
      · show update s.late i (s.late i || (s.thread i).window) i = true
        rw [update_self, hw, Bool.or_true]
      · -- the process has its lock, and `kill` waits
        obtain ⟨d, hd⟩ := hs.hold hl
        have hheld : (s.m.proc i).lock = some d := hs.m.lock.mpr (by rw [hd]; rfl)
        rw [hlock] at hheld
        cases hheld
      · -- `kill` wakes the process up
        have ht' : thread i = .asleep l := by
          rcases Program.step_thread h i with ⟨d, hown, -⟩ | ⟨hborn, -⟩ | ⟨-, he⟩
          · cases hown
          · cases hborn
          · exact he.trans ht
        unfold Committed at hi
        dsimp only at hi
        rw [ht'] at hi
        rcases hi with hi | hi | ⟨-, -, hi⟩
        · cases hi
        · cases hi
        · cases hstep with
          | kill =>
            rw [setProc_proc, if_pos rfl] at hi
            unfold Proc.kill at hi
            rw [if_pos hsl] at hi
            cases hi

end

omit hs in
/-- The locks of the loops do not matter. -/
lemma setLk (hs : s.Inv) (lk : Lk → Option Nat) : Inv { s with lk := lk } := { hs with }

/-- A thread goes on without a step of the machine. -/
lemma move {t : Thread} (hlocks : t.locks = true → ∃ c, (s.m.cpu c).pc = .hold i)
    (hlate : t.window = true ∨ t.locks = true ∨ (∃ l, t = .asleep l) → (s.m.proc i).killed = true → s.late i = true) :
    (s.goto i t).Inv where
  m := hs.m
  hold := by
    intro j hj
    rw [goto_thread] at hj
    split at hj
    next hji =>
      rw [hji]
      exact hlocks hj
    next => exact hs.hold hj
  late := by
    intro j hj hk
    unfold Committed at hj
    rw [goto_thread] at hj
    split at hj
    next hji =>
      rw [hji] at hk ⊢
      refine hlate ?_ hk
      rcases hj with hj | hj | ⟨l, hj, -⟩
      · exact .inl hj
      · exact .inr (.inl hj)
      · exact .inr (.inr ⟨l, hj⟩)
    next => exact hs.late hj hk

/-- A thread goes on to a point where it has not called `killed`. -/
lemma outside {t : Thread} (h1 : t.window = false) (h2 : t.locks = false) (h3 : ∀ l, t ≠ .asleep l) :
    (s.goto i t).Inv := by
  refine hs.move ?_ ?_
  · rw [h2]
    nofun
  · rintro (h | h | ⟨l, h⟩)
    · rw [h1] at h
      cases h
    · rw [h2] at h
      cases h
    · exact absurd h (h3 l)

/-- A thread goes on between `killed` and `sleep`. -/
lemma inside {t : Thread} (hold : (s.thread i).window = true) (h2 : t.locks = false) :
    (s.goto i t).Inv := by
  refine hs.move ?_ fun _ hk => hs.late (.inl hold) hk
  rw [h2]
  nofun

lemma enter {l : Loop} (h : s.enter c l = some s') : s'.Inv := by
  obtain ⟨i, -, h⟩ := Option.bind_eq_some_iff.mp h
  split at h
  next =>
    cases h
    exact (hs.setLk _).outside rfl rfl nofun
  next => cases h

lemma finish (h : s.finish c = some s') : s'.Inv := by
  obtain ⟨i, -, h⟩ := Option.bind_eq_some_iff.mp h
  split at h
  next =>
    cases h
    exact (hs.setLk _).outside rfl rfl nofun
  next => cases h

lemma killed (h : s.killed c = some s') : s'.Inv := by
  obtain ⟨i, -, h⟩ := Option.bind_eq_some_iff.mp h
  split at h
  next l ht =>
    split at h
    next => cases h
    next =>
      split at h
      next =>
        cases h
        exact (hs.setLk _).outside rfl rfl nofun
      next hk =>
        cases h
        have hlate : Inv { s with late := update s.late i false } :=
          { hs with
            late := by
              intro j hj hkj
              show update s.late i false j = true
              rw [update_of_ne, hs.late hj hkj]
              rintro rfl
              exact hk hkj }
        exact hlate.move nofun fun _ hk' => absurd hk' hk
  next => cases h

lemma again (h : s.again c = some s') : s'.Inv := by
  obtain ⟨i, -, h⟩ := Option.bind_eq_some_iff.mp h
  split at h
  next =>
    cases h
    exact hs.outside rfl rfl nofun
  next => cases h

lemma call (h : s.call c = some s') : s'.Inv := by
  obtain ⟨i, -, h⟩ := Option.bind_eq_some_iff.mp h
  split at h
  next ht =>
    cases h
    exact hs.inside (by rw [ht]; rfl) rfl
  next l _ ht =>
    cases h
    exact hs.inside (by rw [ht]; rfl) rfl
  next => cases h

lemma round (h : s.round c = some s') : s'.Inv := by
  obtain ⟨i, -, h⟩ := Option.bind_eq_some_iff.mp h
  split at h
  next j ht =>
    have hw : (s.thread i).window = true := by
      rw [ht]
      rfl
    split at h
    next =>
      split at h
      next =>
        cases h
        exact hs.inside hw rfl
      next =>
        obtain ⟨m, hm, he⟩ := Option.map_eq_some_iff.mp h
        cases he
        have hm' : Inv { s with m := m, thread := s.thread, late := s.late } := by
          refine hs.machine (a := .wakeup c j (Loop.chan i .piperead)) ?_
          unfold Program.step
          rw [hm]
          rfl
        exact hm'.inside hw rfl
    next =>
      cases h
      exact hs.inside hw rfl
  next => cases h

lemma sleepRelease (h : s.sleepRelease c = some s') : s'.Inv := by
  unfold System.sleepRelease at h
  split at h
  next i hpc =>
    split at h
    next l ht =>
      cases h
      exact (hs.setLk _).move (fun _ => ⟨c, hpc⟩) fun _ hk => hs.late (.inr (.inl (by rw [ht]; rfl))) hk
    next => cases h
  next => cases h

lemma relock (h : s.relock c = some s') : s'.Inv := by
  obtain ⟨i, -, h⟩ := Option.bind_eq_some_iff.mp h
  split at h
  next l ht =>
    split at h
    next =>
      cases h
      exact (hs.setLk _).outside rfl rfl nofun
    next => cases h
  next => cases h

/-- Every step keeps the invariant. -/
lemma step {a : Action} (h : s.step a = some s') : s'.Inv := by
  cases a with
  | machine a =>
    dsimp only [System.step] at h
    split at h
    next =>
      obtain ⟨⟨m, thread⟩, hm, he⟩ := Option.map_eq_some_iff.mp h
      cases he
      exact hs.machine hm
    next => cases h
  | enter c l => exact hs.enter h
  | finish c => exact hs.finish h
  | killed c => exact hs.killed h
  | again c => exact hs.again h
  | call c => exact hs.call h
  | round c => exact hs.round h
  | sleepRelease c => exact hs.sleepRelease h
  | relock c => exact hs.relock h

end Inv

/-- A killed process sleeps in one of the loops only if the `kill` came between its call of
`killed` and the `acquire(&p->lock)` in `sleep`. -/
theorem killed_asleep {as : List Action} (hrun : run step start as = some s) (i : Nat) (l : Loop)
    (ht : s.thread i = .asleep l) (hstate : (s.m.proc i).state = .sleeping)
    (hkilled : (s.m.proc i).killed = true) : s.late i = true := by
  have hs : s.Inv := run_induction (P := fun _ s => s.Inv) hrun inv_start fun _ _ _ _ hs h => hs.step h
  exact hs.late (.inr (.inr ⟨l, ht, hstate⟩)) hkilled

/-- The first process forks a child, which reads from an empty pipe. `killed` has returned 0 in the
child when the first process kills it, and then the child sleeps. -/
def killedLate : List Action :=
  [.machine (.pick 0), .machine (.swtch 0), .machine (.resume 0), .machine (.alloc 0 1),
    .machine (.ready 0),
    .machine (.pick 1), .machine (.pick 1), .machine (.swtch 1), .machine (.resume 1),
    .enter 1 .piperead, .killed 1, .call 1, .machine (.kill 0 1), .machine (.acquire 1), .sleepRelease 1,
    .machine (.sleep 1 0), .machine (.sched 1), .machine (.back 1), .machine (.done 1)]

lemma run_killedLate :
    ∃ s, run step start killedLate = some s ∧ s.thread 1 = .asleep .piperead ∧
      (s.m.proc 1).state = .sleeping ∧ (s.m.proc 1).killed = true := by
  obtain ⟨s, hs, he⟩ := Option.map_eq_some_iff.mp
    (by decide +kernel : (run step start killedLate).map
      (fun s => (s.thread 1, (s.m.proc 1).state, (s.m.proc 1).killed)) =
        some (.asleep .piperead, .sleeping, true))
  obtain ⟨ht, he⟩ := Prod.mk.inj he
  obtain ⟨hstate, hkilled⟩ := Prod.mk.inj he
  exact ⟨s, hs, ht, hstate, hkilled⟩

/-- The child is asleep, and its parent has returned from `kill`. -/
theorem killed_stays_asleep :
    ∃ as s i l, run step start as = some s ∧ s.thread i = .asleep l ∧ (s.m.proc i).state = .sleeping ∧
      (s.m.proc i).killed = true := by
  obtain ⟨s, hs, ht, hstate, hkilled⟩ := run_killedLate
  exact ⟨killedLate, s, 1, .piperead, hs, ht, hstate, hkilled⟩

theorem killed_asleep_killedLate :
    ∃ s, run step start killedLate = some s ∧ (s.m.proc 1).state = .sleeping ∧
      (s.m.proc 1).killed = true ∧ s.late 1 = true := by
  obtain ⟨s, hs, ht, hstate, hkilled⟩ := run_killedLate
  exact ⟨s, hs, hstate, hkilled, killed_asleep hs 1 .piperead ht hstate hkilled⟩

end System

end Xv6.Sched.Killing
