import Xv6.Sched.Threads

/-!
# No wakeup is lost

Processes that wait for a condition under a spinlock `lk`, and processes that make it true:

  acquire(lk);                         acquire(lk);
  while(!cond)                         cond = 1;
    sleep(chan, lk);                   wakeup(chan);
  ...                                  release(lk);
  release(lk);

A process may do both in turn, change `cond` as often as it likes while it has `lk`, and call
`wakeup` before or after it changes `cond`. What it must not do is to give up `lk` after it has
made `cond` true without a call of `wakeup(chan)`.

`sleep` gives up `lk` when it already has `p->lock`, and `wakeup` needs `p->lock` of every process in
turn. So a process that has given up `lk` to sleep is asleep when `wakeup` gets to it.
-/

namespace Xv6.Sched.Waiting

open Function Lib ProcTable Machine

/-- Where a thread is. -/
inductive Thread where
  /-- It has nothing to do with `lk`. -/
  | idle
  /-- It has `lk`. -/
  | locked
  /-- Round `k` of `wakeup(chan)`, with `lk`. -/
  | waking (k : Nat)
  /-- It has found `cond` false, and calls `sleep`. -/
  | tested
  /-- In `sleep`, with `p->lock` and `lk`. -/
  | sleep1
  /-- In `sleep`, with `p->lock`. -/
  | sleep2
  /-- In `sched`, called from `sleep`. -/
  | asleep
  /-- At the `acquire(lk)` at the end of `sleep`. -/
  | woken
  deriving DecidableEq

/-- It has `lk` there. -/
def Thread.holds : Thread → Bool
  | .locked | .waking _ | .tested | .sleep1 => true
  | _ => false

/-- The calls of the threads. A thread that has `lk` does not give up the CPU but in `sleep`. -/
def program (chan : Nat) : Program Thread where
  start := .idle
  next
    | .idle, .resume _ | .idle, .acquire _ | .idle, .yield _ | .idle, .exit _ => some .idle
    | .idle, .sleep _ chan' => if chan' = chan then none else some .idle
    | .tested, .acquire _ => some .sleep1
    | .sleep2, .sleep _ chan' => if chan' = chan then some .asleep else none
    | .asleep, .resume _ => some .woken
    | .woken, .resume _ | .woken, .acquire _ | .woken, .yield _ => some .woken
    | _, _ => none

/-- The steps of a thread. -/
lemma next_cases {chan : Nat} {t t' : Thread} {a : Machine.Action} (h : (program chan).next t a = some t') :
    ((t = .idle ∨ t = .woken) ∧ t' = t ∧ ∀ c, a ≠ .sleep c chan) ∨
    (t = .tested ∧ t' = .sleep1 ∧ ∃ c, a = .acquire c) ∨
    (t = .sleep2 ∧ t' = .asleep ∧ ∃ c, a = .sleep c chan) ∨
    (t = .asleep ∧ t' = .woken ∧ ∃ c, a = .resume c) := by
  unfold program at h
  dsimp only at h
  split at h
  next => cases h; exact .inl ⟨.inl rfl, rfl, nofun⟩
  next => cases h; exact .inl ⟨.inl rfl, rfl, nofun⟩
  next => cases h; exact .inl ⟨.inl rfl, rfl, nofun⟩
  next => cases h; exact .inl ⟨.inl rfl, rfl, nofun⟩
  next =>
    split at h
    next => cases h
    next hne =>
      cases h
      refine .inl ⟨.inl rfl, rfl, ?_⟩
      intro c hc
      cases hc
      exact hne rfl
  next c => cases h; exact .inr (.inl ⟨rfl, rfl, c, rfl⟩)
  next c _ =>
    obtain ⟨he, rfl⟩ := of_guard h
    exact .inr (.inr (.inl ⟨rfl, rfl, c, by rw [he]⟩))
  next c => cases h; exact .inr (.inr (.inr ⟨rfl, rfl, c, rfl⟩))
  next => cases h; exact .inl ⟨.inr rfl, rfl, nofun⟩
  next => cases h; exact .inl ⟨.inr rfl, rfl, nofun⟩
  next => cases h; exact .inl ⟨.inr rfl, rfl, nofun⟩
  next => cases h

/-- The machine, `lk` and `cond`. -/
structure System where
  m : Machine
  thread : Nat → Thread
  /-- The process that has `lk`. -/
  lk : Option Nat
  cond : Bool
  /-- Not in the source: the process that has `lk` has made `cond` true since it got `lk`. -/
  dirty : Bool
  /-- Not in the source: it has called `wakeup(chan)` since then. -/
  swept : Bool
  /-- Not in the source: the process has tested `cond` after it last became true. -/
  since : Nat → Bool

/-- No process has started, and `cond` is anything. -/
def start (cond : Bool) : System where
  m := boot
  thread := fun _ => .idle
  lk := none
  cond := cond
  dirty := false
  swept := false
  since := fun _ => false

namespace System

/-- The thread goes on at `t`. -/
def goto (s : System) (i : Nat) (t : Thread) : System := { s with thread := update s.thread i t }

/-- `acquire(lk)`. -/
def acquire (s : System) (c : Nat) : Option System :=
  (s.m.caller c).bind fun i =>
    if (s.thread i = .idle ∨ s.thread i = .woken) ∧ s.lk = none then
      some ({ s with lk := some i, dirty := false, swept := false }.goto i .locked)
    else none

/-- The test in the head of the loop. -/
def test (s : System) (c : Nat) : Option System :=
  (s.m.caller c).bind fun i =>
    if s.thread i = .locked then
      let s := { s with since := update s.since i true }
      some (if s.cond then s else s.goto i .tested)
    else none

/-- `cond` becomes true. -/
def set (s : System) (c : Nat) : Option System :=
  (s.m.caller c).bind fun i =>
    if s.thread i = .locked then
      some (if s.cond then s else { s with cond := true, dirty := true, since := fun _ => false })
    else none

/-- `cond` becomes false. -/
def clear (s : System) (c : Nat) : Option System :=
  (s.m.caller c).bind fun i => if s.thread i = .locked then some { s with cond := false } else none

/-- `wakeup(chan)` starts. -/
def wakeup (s : System) (c : Nat) : Option System :=
  (s.m.caller c).bind fun i => if s.thread i = .locked then some (s.goto i (.waking 0)) else none

/-- A round of `wakeup(chan)`, or its end. -/
def round (chan : Nat) (s : System) (c : Nat) : Option System :=
  (s.m.caller c).bind fun i =>
    match s.thread i with
    | .waking k =>
      if k < nproc then
        if (s.m.cpu c).proc = some k then some (s.goto i (.waking (k + 1)))
        else (s.m.step (.wakeup c k chan)).map fun m => { s with m := m }.goto i (.waking (k + 1))
      else some ({ s with swept := true }.goto i .locked)
    | _ => none

/-- A process may give up `lk`. -/
def mayRelease (s : System) : Bool := !s.dirty || s.swept

/-- `release(lk)`. -/
def release (s : System) (c : Nat) : Option System :=
  (s.m.caller c).bind fun i =>
    if s.thread i = .locked ∧ s.mayRelease then some ({ s with lk := none }.goto i .idle) else none

/-- `release(lk)` in `sleep`. -/
def sleepRelease (s : System) (c : Nat) : Option System :=
  match (s.m.cpu c).pc with
  | .hold i =>
    if s.thread i = .sleep1 ∧ s.mayRelease then some ({ s with lk := none }.goto i .sleep2) else none
  | _ => none

/-- What happens on CPU `c`. -/
inductive Action where
  | machine (a : Machine.Action)
  | acquire (c : Nat)
  | test (c : Nat)
  | set (c : Nat)
  | clear (c : Nat)
  | wakeup (c : Nat)
  | round (c : Nat)
  | release (c : Nat)
  | sleepRelease (c : Nat)

/-- One step, if it is possible. -/
def step (chan : Nat) (s : System) : Action → Option System
  | .machine a => ((program chan).step s.m s.thread a).map fun (m, thread) => { s with m := m, thread := thread }
  | .acquire c => s.acquire c
  | .test c => s.test c
  | .set c => s.set c
  | .clear c => s.clear c
  | .wakeup c => s.wakeup c
  | .round c => s.round chan c
  | .release c => s.release c
  | .sleepRelease c => s.sleepRelease c

/-! ## The invariant -/

/-- The process has given up `lk` to sleep on `chan`, and nobody has woken it up. -/
def Sleeper (s : System) (i : Nat) : Prop :=
  s.thread i = .sleep2 ∨ s.thread i = .asleep ∧ (s.m.proc i).state = .sleeping

/-- The threads, the processes and `lk` agree. -/
structure Core (chan : Nat) (s : System) : Prop where
  m : s.m.Inv
  run : ∀ {i}, (s.thread i).holds = true → s.thread i ≠ .sleep1 → ∃ c, (s.m.cpu c).pc = .run i
  hold : ∀ {i}, s.thread i = .sleep1 ∨ s.thread i = .sleep2 → ∃ c, (s.m.cpu c).pc = .hold i
  lk : ∀ {i}, s.lk = some i ↔ (s.thread i).holds = true
  asleep : ∀ {i}, (s.m.proc i).state = .sleeping → ((s.m.proc i).chan = some chan ↔ s.thread i = .asleep)

structure Inv (chan : Nat) (s : System) : Prop extends Core chan s where
  fresh : ∀ {i}, s.thread i = .tested ∨ s.thread i = .sleep1 → s.since i = true
  /-- A process that has tested `cond` too early is woken up before `lk` is free. -/
  stale : ∀ {i}, s.Sleeper i → s.since i = false → s.lk ≠ none ∧ s.dirty = true ∧ s.swept = false
  waking : ∀ {w k}, s.thread w = .waking k → ∀ i < k, ¬ s.Sleeper i
  swept : s.lk ≠ none → s.swept = true → ∀ i, ¬ s.Sleeper i

variable {chan : Nat} {s s' : System} {c i w : Nat}

lemma goto_thread (s : System) (i j : Nat) (t : Thread) :
    (s.goto i t).thread j = if j = i then t else s.thread j := update_apply ..

lemma inv_start (cond : Bool) : (start cond).Inv chan := by
  have hno : ∀ i, ¬ (start cond).Sleeper i := by
    rintro i (h | h)
    · cases h
    · cases h.1
  exact
    { m := inv_boot
      run := nofun
      hold := by
        rintro i (h | h)
        · cases h
        · cases h
      lk := ⟨nofun, nofun⟩
      fresh := by
        rintro i (h | h)
        · cases h
        · cases h
      asleep := by
        intro i hi
        have hne : (boot.proc i).state ≠ .sleeping := by
          unfold boot
          dsimp only
          rw [update_apply]
          split <;> nofun
        exact absurd hi hne
      stale := fun h => absurd h (hno _)
      waking := nofun
      swept := fun h => absurd rfl h }

namespace Inv

variable (hs : s.Inv chan)
include hs

/-- A thread that holds `lk` is the one that has it. -/
lemma eq_of_holds (hi : (s.thread i).holds = true) (hw : (s.thread w).holds = true) : i = w :=
  Option.some.inj ((hs.lk.mpr hi).symm.trans (hs.lk.mpr hw))

lemma running (hi : (s.thread i).holds = true ∨ s.thread i = .sleep2) : (s.m.proc i).state = .running := by
  rcases hi with hi | hi
  · by_cases h1 : s.thread i = .sleep1
    · obtain ⟨c, hc⟩ := hs.hold (.inl h1)
      exact hs.m.running.mpr ⟨c, by rw [hc]; rfl⟩
    · obtain ⟨c, hc⟩ := hs.run hi h1
      exact hs.m.running.mpr ⟨c, by rw [hc]; rfl⟩
  · obtain ⟨c, hc⟩ := hs.hold (.inr hi)
    exact hs.m.running.mpr ⟨c, by rw [hc]; rfl⟩

section

variable {a : Machine.Action} {m : Machine} {thread : Nat → Thread}
  (h : (program chan).step s.m s.thread a = some (m, thread))
include h

/-- What a step of the machine does to a thread. -/
lemma thread_machine (i : Nat) :
    (thread i = s.thread i ∧ ∀ c, a.own = some c → (s.m.cpu c).pc.busy ≠ some i) ∨
    ((thread i = .idle ∨ thread i = .woken) ∧ (s.thread i).holds = false ∧
      (s.m.proc i).state ≠ .sleeping ∧ ∀ c, a ≠ .sleep c chan) ∨
    (s.thread i = .tested ∧ thread i = .sleep1 ∧ ∃ c, a = .acquire c ∧ (s.m.cpu c).pc.busy = some i) ∨
    (s.thread i = .sleep2 ∧ thread i = .asleep ∧ (s.m.proc i).state ≠ .sleeping ∧ ∃ c, a = .sleep c chan) := by
  have hstep := hs.m.step_cases (Program.step_machine h)
  rcases Program.step_thread h i with ⟨c, hown, hb, hnext⟩ | ⟨hborn, ht⟩ | ⟨hown, ht⟩
  · have hrun : (s.m.proc i).state ≠ .sleeping := by
      rw [hs.m.own_running hstep hown hb]
      nofun
    rcases next_cases hnext with ⟨ht | ht, he, hne⟩ | ⟨ht, he, d, rfl⟩ | ⟨ht, he, hd⟩ | ⟨ht, he, d, rfl⟩
    · exact .inr (.inl ⟨.inl (he.trans ht), by rw [ht]; rfl, hrun, hne⟩)
    · exact .inr (.inl ⟨.inr (he.trans ht), by rw [ht]; rfl, hrun, hne⟩)
    · cases hown
      exact .inr (.inr (.inl ⟨ht, he, _, rfl, hb⟩))
    · exact .inr (.inr (.inr ⟨ht, he, hrun, hd⟩))
    · exact .inr (.inl ⟨.inr he, by rw [ht]; rfl, hrun, nofun⟩)
  · have hunused := hstep.born hborn
    refine .inr (.inl ⟨.inl ht, ?_, by rw [hunused]; nofun, ?_⟩)
    · by_contra hne
      have hrun := hs.running (.inl (Bool.eq_true_of_not_eq_false hne))
      rw [hunused] at hrun
      cases hrun
    · rintro c rfl
      cases hborn
  · exact .inl ⟨ht, hown⟩

/-- Nobody falls asleep in a step of the machine but who has called `sleep`. -/
lemma sleeper_machine (hi : Sleeper { s with m := m, thread := thread } i) : s.Sleeper i := by
  have hstep := hs.m.step_cases (Program.step_machine h)
  unfold Sleeper at hi
  dsimp only at hi
  rcases hs.thread_machine h i with ⟨ht, hown⟩ | ⟨ht | ht, -⟩ | ⟨-, ht, -⟩ | ⟨ht, -, -⟩
  · rw [ht] at hi
    rcases hi with hi | ⟨hi, hsleep⟩
    · exact .inl hi
    · rcases hs.m.sleeping hstep hsleep with ⟨hold, -⟩ | ⟨c, chan', rfl, hpc, -⟩
      · exact .inr ⟨hi, hold⟩
      · exact absurd (by rw [hpc]; rfl) (hown c rfl)
  · rw [ht] at hi
    rcases hi with hi | ⟨hi, -⟩ <;> cases hi
  · rw [ht] at hi
    rcases hi with hi | ⟨hi, -⟩ <;> cases hi
  · rw [ht] at hi
    rcases hi with hi | ⟨hi, -⟩ <;> cases hi
  · exact .inl ht

lemma core_machine : Core chan { s with m := m, thread := thread } := by
  have hstep := hs.m.step_cases (Program.step_machine h)
  have hthread := hs.thread_machine h
  constructor
  case m => exact hs.m.next hstep
  case run =>
    intro i hh h1
    dsimp only at hh h1
    rcases hthread i with ⟨ht, hown⟩ | ⟨ht | ht, -⟩ | ⟨-, ht, -⟩ | ⟨-, ht, -⟩ <;> rw [ht] at hh h1
    · obtain ⟨c, hc⟩ := hs.run hh h1
      exact ⟨c, (Program.step_cpu hs.m h hown (.inl hc)).trans hc⟩
    · cases hh
    · cases hh
    · exact absurd rfl h1
    · cases hh
  case hold =>
    intro i hi
    dsimp only at hi
    rcases hthread i with ⟨ht, hown⟩ | ⟨ht | ht, -⟩ | ⟨-, ht, c, rfl, hb⟩ | ⟨-, ht, -⟩ <;> rw [ht] at hi
    · obtain ⟨c, hc⟩ := hs.hold hi
      exact ⟨c, (Program.step_cpu hs.m h hown (.inr hc)).trans hc⟩
    · rcases hi with hi | hi <;> cases hi
    · rcases hi with hi | hi <;> cases hi
    · refine ⟨c, ?_⟩
      cases hstep with
      | acquire hpc =>
        rw [hpc] at hb
        cases hb
        exact Machine.goto_pc ..
    · rcases hi with hi | hi <;> cases hi
  case lk =>
    intro i
    refine hs.lk.trans ?_
    dsimp only
    rcases hthread i with ⟨ht, -⟩ | ⟨ht | ht, hno, -⟩ | ⟨ht, ht', -⟩ | ⟨ht, ht', -⟩
    · rw [ht]
    · rw [ht, hno]
      exact ⟨nofun, nofun⟩
    · rw [ht, hno]
      exact ⟨nofun, nofun⟩
    · rw [ht, ht']
      exact Iff.rfl
    · rw [ht, ht']
      exact Iff.rfl
  case asleep =>
    intro i hi
    dsimp only at hi ⊢
    rcases hs.m.sleeping hstep hi with ⟨hold, hchan⟩ | ⟨c, chan', rfl, hpc, hchan⟩
    · rcases hthread i with ⟨ht, -⟩ | ⟨-, -, hne, -⟩ | ⟨ht, -⟩ | ⟨-, -, hne, -⟩
      · rw [ht, hchan]
        exact hs.asleep hold
      · exact absurd hold hne
      · have hrun := hs.running (i := i) (.inl (by rw [ht]; rfl))
        rw [hold] at hrun
        cases hrun
      · exact absurd hold hne
    · rw [hchan]
      rcases hthread i with ⟨-, hown⟩ | ⟨ht, -, -, hne⟩ | ⟨-, -, d, hd, -⟩ | ⟨-, ht, -, d, hd⟩
      · exact absurd (by rw [hpc]; rfl) (hown c rfl)
      · refine ⟨fun he => ?_, fun he => ?_⟩
        · cases he
          exact absurd rfl (hne c)
        · rcases ht with ht | ht <;> rw [ht] at he <;> cases he
      · cases hd
      · cases hd
        exact ⟨fun _ => ht, fun _ => rfl⟩

lemma machine : Inv chan { s with m := m, thread := thread } := by
  have hthread := hs.thread_machine h
  refine { hs.core_machine h with fresh := ?fresh, stale := ?stale, waking := ?waking, swept := ?swept }
  case fresh =>
    intro i hi
    dsimp only at hi
    rcases hthread i with ⟨ht, -⟩ | ⟨ht | ht, -⟩ | ⟨ht, -⟩ | ⟨-, ht, -⟩
    · exact hs.fresh (ht ▸ hi)
    · rw [ht] at hi
      rcases hi with hi | hi <;> cases hi
    · rw [ht] at hi
      rcases hi with hi | hi <;> cases hi
    · exact hs.fresh (.inl ht)
    · rw [ht] at hi
      rcases hi with hi | hi <;> cases hi
  case stale => exact fun hi hold => hs.stale (hs.sleeper_machine h hi) hold
  case waking =>
    intro w k hw i hik hi
    dsimp only at hw
    rcases hthread w with ⟨ht, -⟩ | ⟨ht | ht, -⟩ | ⟨-, ht, -⟩ | ⟨-, ht, -⟩ <;> rw [ht] at hw
    · exact hs.waking hw i hik (hs.sleeper_machine h hi)
    · cases hw
    · cases hw
    · cases hw
    · cases hw
  case swept => exact fun hlk hsw i hi => hs.swept hlk hsw i (hs.sleeper_machine h hi)

end

end Inv

/-! ## Steps of the program -/

/-- A thread goes on, and nothing else changes but `lk`. -/
lemma Core.move (hs : s.Core chan) {t : Thread} {l : Option Nat}
    (hrun : t.holds = true → t ≠ .sleep1 → ∃ c, (s.m.cpu c).pc = .run i)
    (hhold : t = .sleep1 ∨ t = .sleep2 → ∃ c, (s.m.cpu c).pc = .hold i)
    (hlk : ∀ j, l = some j ↔ ((s.goto i t).thread j).holds = true)
    (hold : s.thread i ≠ .asleep) (ht : t ≠ .asleep) : Core chan ({ s with lk := l }.goto i t) where
  m := hs.m
  run := by
    intro j hj h1
    change ((s.goto i t).thread j).holds = true at hj
    change (s.goto i t).thread j ≠ _ at h1
    rw [goto_thread] at hj h1
    split at hj
    next hji =>
      rw [if_pos hji] at h1
      rw [hji]
      exact hrun hj h1
    next hji =>
      rw [if_neg hji] at h1
      exact hs.run hj h1
  hold := by
    intro j hj
    change (s.goto i t).thread j = _ ∨ (s.goto i t).thread j = _ at hj
    rw [goto_thread] at hj
    split at hj
    next hji =>
      rw [hji]
      exact hhold hj
    next => exact hs.hold hj
  lk := hlk _
  asleep := by
    intro j hj
    refine (hs.asleep hj).trans ?_
    show _ ↔ (s.goto i t).thread j = _
    rw [goto_thread]
    split
    next hji =>
      rw [hji]
      exact ⟨fun h => absurd h hold, fun h => absurd h ht⟩
    next => exact Iff.rfl

/-- A thread that has `lk` keeps it. -/
lemma Core.keep (hs : s.Core chan) {t : Thread} (hpc : (s.m.cpu c).pc = .run i)
    (hold : (s.thread i).holds = true) (ht : t.holds = true) (h1 : t ≠ .sleep1) :
    Core chan (s.goto i t) := by
  refine hs.move (l := s.lk) (fun _ _ => ⟨c, hpc⟩) ?_ (fun j => ?_) ?_ ?_
  · rintro (rfl | rfl)
    · exact absurd rfl h1
    · cases ht
  · rw [hs.lk, goto_thread]
    split
    next hji => rw [hji, hold, ht]
    next => exact Iff.rfl
  · intro h
    rw [h] at hold
    cases hold
  · rintro rfl
    cases ht

lemma sleeper_goto {t : Thread} {j : Nat} (h : (s.goto i t).Sleeper j) (h2 : t ≠ .sleep2)
    (ha : t ≠ .asleep) :
    s.Sleeper j := by
  unfold Sleeper at h
  rw [goto_thread] at h
  split at h
  next =>
    rcases h with h | ⟨h, -⟩
    · exact absurd h h2
    · exact absurd h ha
  next => exact h

namespace Inv

variable (hs : s.Inv chan)
include hs

lemma acquire (h : s.acquire c = some s') : s'.Inv chan := by
  obtain ⟨i, hc, h⟩ := Option.bind_eq_some_iff.mp h
  have hpc := caller_eq_some hc
  obtain ⟨hg, rfl⟩ := of_guard h
  have hfree : ∀ j, (s.thread j).holds = false := by
    intro j
    by_contra hne
    have := hs.lk.mpr (Bool.eq_true_of_not_eq_false hne)
    rw [hg.2] at this
    cases this
  have hcore : Core chan ({ s with lk := some i }.goto i .locked) := by
    refine hs.toCore.move (fun _ _ => ⟨c, hpc⟩) ?_ (fun j => ?_) ?_ nofun
    · rintro (h | h) <;> cases h
    · rw [goto_thread]
      split
      next hji =>
        rw [hji]
        exact ⟨fun _ => rfl, fun _ => rfl⟩
      next hji =>
        rw [hfree j]
        exact ⟨fun h => absurd (Option.some.inj h).symm hji, nofun⟩
    · rcases hg.1 with h | h <;> rw [h] <;> nofun
  exact
    { hcore with
      fresh := by
        intro j hj
        rw [goto_thread] at hj
        split at hj
        next => rcases hj with hj | hj <;> cases hj
        next => exact hs.fresh hj
      stale := by
        intro j hj hold
        change (s.goto i .locked).Sleeper j at hj
        exact absurd hg.2 (hs.stale (sleeper_goto hj nofun nofun) hold).1
      waking := by
        intro w k hw
        rw [goto_thread] at hw
        split at hw
        next => cases hw
        next =>
          have := hfree w
          rw [show s.thread w = .waking k from hw] at this
          cases this
      swept := nofun }

lemma test (h : s.test c = some s') : s'.Inv chan := by
  obtain ⟨i, hc, h⟩ := Option.bind_eq_some_iff.mp h
  have hpc := caller_eq_some hc
  split at h
  next hg =>
    have hsince : Inv chan { s with since := update s.since i true } :=
      { hs with
        fresh := by
          intro j hj
          show update s.since i true j = true
          rw [update_apply]
          split
          next => rfl
          next => exact hs.fresh hj
        stale := by
          intro j hj hold
          change update s.since i true j = false at hold
          rw [update_apply] at hold
          split at hold
          next => cases hold
          next => exact hs.stale hj hold }
    dsimp only at h
    split at h
    next =>
      cases h
      exact hsince
    next =>
      cases h
      refine { hsince.toCore.keep (t := .tested) hpc (by rw [hg]; rfl) rfl nofun with
        fresh := ?_, stale := ?_, waking := ?_, swept := ?_ }
      · intro j hj
        rw [goto_thread] at hj
        show update s.since i true j = true
        split at hj
        next hji => rw [hji, update_self]
        next => exact hsince.fresh hj
      · exact fun hj => hsince.stale (sleeper_goto hj nofun nofun)
      · intro w k hw j hjk hj
        rw [goto_thread] at hw
        split at hw
        next => cases hw
        next => exact hsince.waking hw j hjk (sleeper_goto hj nofun nofun)
      · exact fun hlk hsw j hj => hsince.swept hlk hsw j (sleeper_goto hj nofun nofun)
  next => cases h

lemma set (h : s.set c = some s') : s'.Inv chan := by
  obtain ⟨i, hc, h⟩ := Option.bind_eq_some_iff.mp h
  split at h
  next hg =>
    have hlk : s.lk = some i := hs.lk.mpr (by rw [hg]; rfl)
    split at h
    next =>
      cases h
      exact hs
    next =>
      cases h
      refine { hs with fresh := ?_, stale := ?_ }
      · intro j hj
        have hij : i = j := hs.eq_of_holds (by rw [hg]; rfl) (by rcases hj with hj | hj <;> rw [hj] <;> rfl)
        rw [← hij] at hj
        dsimp only at hj
        rw [hg] at hj
        rcases hj with hj | hj <;> cases hj
      · intro j hj _
        refine ⟨by rw [hlk]; nofun, rfl, ?_⟩
        by_contra hsw
        exact hs.swept (by rw [hlk]; nofun) (Bool.eq_true_of_not_eq_false hsw) j hj
  next => cases h

lemma clear (h : s.clear c = some s') : s'.Inv chan := by
  obtain ⟨i, hc, h⟩ := Option.bind_eq_some_iff.mp h
  split at h
  next =>
    cases h
    exact { hs with }
  next => cases h

/-- A thread that has `lk` goes on to another point where it has `lk`. -/
lemma keep {t : Thread} (hpc : (s.m.cpu c).pc = .run i) (hold : (s.thread i).holds = true)
    (ht : t.holds = true) (h1 : t ≠ .sleep1 ∧ t ≠ .tested)
    (hwake : ∀ k, t = .waking k → ∀ j < k, ¬ s.Sleeper j) : (s.goto i t).Inv chan := by
  have h2 : t ≠ .sleep2 := by
    rintro rfl
    cases ht
  have ha : t ≠ .asleep := by
    rintro rfl
    cases ht
  refine { hs.toCore.keep hpc hold ht h1.1 with fresh := ?_, stale := ?_, waking := ?_, swept := ?_ }
  · intro j hj
    rw [goto_thread] at hj
    split at hj
    next =>
      rcases hj with hj | hj
      · exact absurd hj h1.2
      · exact absurd hj h1.1
    next => exact hs.fresh hj
  · exact fun hj => hs.stale (sleeper_goto hj h2 ha)
  · intro w k hw j hjk hj
    rw [goto_thread] at hw
    split at hw
    next => exact hwake k hw j hjk (sleeper_goto hj h2 ha)
    next => exact hs.waking hw j hjk (sleeper_goto hj h2 ha)
  · exact fun hlk hsw j hj => hs.swept hlk hsw j (sleeper_goto hj h2 ha)

lemma wakeup (h : s.wakeup c = some s') : s'.Inv chan := by
  obtain ⟨i, hc, h⟩ := Option.bind_eq_some_iff.mp h
  obtain ⟨hg, rfl⟩ := of_guard h
  refine hs.keep (caller_eq_some hc) (by rw [hg]; rfl) rfl ⟨nofun, nofun⟩ ?_
  intro k hk j hj
  cases hk
  exact absurd hj (Nat.not_lt_zero j)

lemma wakeup_cpu {m : Machine} {k : Nat} (hm : s.m.step (.wakeup c k chan) = some m) : m.cpu = s.m.cpu := by
  cases hs.m.step_cases hm with
  | wakeup => rfl

/-- `wakeup` finds a process that has given up `lk` asleep. -/
lemma wakeup_sleeper {m : Machine} {k : Nat} (hm : s.m.step (.wakeup c k chan) = some m) :
    ¬ Sleeper { s with m := m } k := by
  cases hs.m.step_cases hm with
  | wakeup hint hproc hlock =>
    rintro (hk | ⟨hk, hsl⟩)
    · -- the process would have its lock
      obtain ⟨d, hd⟩ := hs.hold (.inr hk)
      have hheld : (s.m.proc k).lock = some d := hs.m.lock.mpr (by rw [hd]; rfl)
      rw [hlock] at hheld
      cases hheld
    · change s.thread k = .asleep at hk
      change ((s.m.setProc k _).proc k).state = _ at hsl
      rw [setProc_proc, if_pos rfl] at hsl
      unfold Proc.wakeup at hsl
      split at hsl
      next => cases hsl
      next hno => exact hno ⟨hsl, (hs.asleep hsl).mpr hk⟩

lemma round (h : s.round chan c = some s') : s'.Inv chan := by
  obtain ⟨i, hc, h⟩ := Option.bind_eq_some_iff.mp h
  have hpc := caller_eq_some hc
  have hproc : (s.m.cpu c).proc = some i := by
    rw [hs.m.proc, hpc]
    rfl
  split at h
  next k hk =>
    have hold : (s.thread i).holds = true := by
      rw [hk]
      rfl
    split at h
    next hlt =>
      split at h
      next hself =>
        cases h
        rw [hproc] at hself
        cases hself
        refine hs.keep hpc hold rfl ⟨nofun, nofun⟩ ?_
        intro k' hk' j hj hsl
        cases hk'
        rcases Nat.lt_succ_iff_lt_or_eq.mp hj with hj | rfl
        · exact hs.waking hk j hj hsl
        · rcases hsl with hsl | ⟨hsl, -⟩ <;> rw [hk] at hsl <;> cases hsl
      next hself =>
        obtain ⟨m, hm, he⟩ := Option.map_eq_some_iff.mp h
        cases he
        have hm' : Inv chan { s with m := m, thread := s.thread } := by
          refine hs.machine (a := .wakeup c k chan) ?_
          unfold Program.step
          rw [hm]
          rfl
        refine hm'.keep (hs.wakeup_cpu hm ▸ hpc) hold rfl ⟨nofun, nofun⟩ ?_
        intro k' hk' j hj hsl
        cases hk'
        rcases Nat.lt_succ_iff_lt_or_eq.mp hj with hj | rfl
        · exact hm'.waking hk j hj hsl
        · exact hs.wakeup_sleeper hm hsl
    next hge =>
      cases h
      have hno : ∀ j, ¬ s.Sleeper j := by
        intro j hsl
        refine hs.waking hk j (Nat.lt_of_lt_of_le ?_ (Nat.not_lt.mp hge)) hsl
        refine hs.m.bound ?_
        rcases hsl with hsl | ⟨-, hsl⟩
        · rw [hs.running (.inr hsl)]
          nofun
        · rw [hsl]
          nofun
      have hswept : Inv chan { s with swept := true } :=
        { hs with
          stale := fun hj => absurd hj (hno _)
          swept := fun _ _ => hno }
      exact hswept.keep hpc hold rfl ⟨nofun, nofun⟩ nofun
  next => cases h

/-- With `lk` free, the sleepers are those that tested `cond` late enough. -/
lemma since_of_mayRelease (hmay : s.mayRelease = true) {j : Nat} (hj : s.Sleeper j) : s.since j = true := by
  by_contra hold
  obtain ⟨-, hd, hsw⟩ := hs.stale hj (Bool.eq_false_of_not_eq_true hold)
  unfold mayRelease at hmay
  rw [hd, hsw] at hmay
  cases hmay

/-- Who gives up `lk` was the only one to have it. -/
lemma holds_goto (hold : (s.thread i).holds = true) {t : Thread} (ht : t.holds = false) (j : Nat) :
    ((s.goto i t).thread j).holds = false := by
  rw [goto_thread]
  split
  next => exact ht
  next hji =>
    by_contra hne
    exact hji (hs.eq_of_holds (Bool.eq_true_of_not_eq_false hne) hold)

/-- The thread gives `lk` back and no longer holds it, and everybody who sleeps was seen. -/
lemma unlocked {t : Thread} (hi : (s.thread i).holds = true) (ht : t.holds = false)
    (hcore : Core chan ({ s with lk := none }.goto i t))
    (hsince : ∀ j, (s.goto i t).Sleeper j → s.since j = true) :
    ({ s with lk := none }.goto i t).Inv chan := by
  have hno := hs.holds_goto hi ht
  refine { hcore with fresh := ?_, stale := ?_, waking := ?_, swept := fun h => absurd rfl h }
  · intro j hj
    have hnj : (Thread.holds (({ s with lk := none }.goto i t).thread j)) = false := hno j
    rcases hj with hj | hj <;> rw [hj] at hnj <;> cases hnj
  · intro j hj hold
    change s.since j = false at hold
    rw [hsince j hj] at hold
    cases hold
  · intro w k hw
    have hnw : (Thread.holds (({ s with lk := none }.goto i t).thread w)) = false := hno w
    rw [hw] at hnw
    cases hnw

lemma release (h : s.release c = some s') : s'.Inv chan := by
  obtain ⟨i, hc, h⟩ := Option.bind_eq_some_iff.mp h
  obtain ⟨hg, rfl⟩ := of_guard h
  have hheld : (s.thread i).holds = true := by rw [hg.1]; rfl
  refine hs.unlocked hheld rfl (hs.toCore.move nofun ?_ (fun j => ?_) (by rw [hg.1]; nofun) nofun)
    fun j hj => hs.since_of_mayRelease hg.2 (sleeper_goto hj nofun nofun)
  · rintro (h | h) <;> cases h
  · rw [hs.holds_goto hheld rfl j]
    exact ⟨nofun, nofun⟩

lemma sleepRelease (h : s.sleepRelease c = some s') : s'.Inv chan := by
  unfold System.sleepRelease at h
  split at h
  next i hpc =>
    obtain ⟨hg, rfl⟩ := of_guard h
    have hheld : (s.thread i).holds = true := by rw [hg.1]; rfl
    refine hs.unlocked hheld rfl
      (hs.toCore.move nofun (fun _ => ⟨c, hpc⟩) (fun j => ?_) (by rw [hg.1]; nofun) nofun) fun j hj => ?_
    · rw [hs.holds_goto hheld rfl j]
      exact ⟨nofun, nofun⟩
    · by_cases hji : j = i
      · rw [hji]
        exact hs.fresh (.inr hg.1)
      · refine hs.since_of_mayRelease hg.2 ?_
        unfold Sleeper at hj
        rw [goto_thread, if_neg hji] at hj
        exact hj
  next => cases h

/-- Every step keeps the invariant. -/
lemma step {a : Action} (h : s.step chan a = some s') : s'.Inv chan := by
  cases a with
  | machine a =>
    obtain ⟨⟨m, thread⟩, hm, he⟩ := Option.map_eq_some_iff.mp h
    cases he
    exact hs.machine hm
  | acquire c => exact hs.acquire h
  | test c => exact hs.test h
  | set c => exact hs.set h
  | clear c => exact hs.clear h
  | wakeup c => exact hs.wakeup h
  | round c => exact hs.round h
  | release c => exact hs.release h
  | sleepRelease c => exact hs.sleepRelease h

end Inv

/-- No wakeup is lost, however the processes and the CPUs interleave. -/
theorem no_lost_wakeup {cond : Bool} {as : List Action} (hrun : run (step chan) (start cond) as = some s)
    (hfree : s.lk = none) (i : Nat) (hi : (s.m.proc i).state = .sleeping)
    (hchan : (s.m.proc i).chan = some chan) : s.since i = true := by
  have hs : s.Inv chan :=
    run_induction (P := fun _ s => s.Inv chan) hrun (inv_start cond) fun _ _ _ _ hs h => hs.step h
  by_contra hold
  have hsl : s.Sleeper i := .inr ⟨(hs.asleep hi).mp hchan, hi⟩
  exact (hs.stale hsl (Bool.eq_false_of_not_eq_true hold)).1 hfree

/-- The first process has a child, finds `cond` false and sleeps. The child makes `cond` true and
wakes it up. The first process makes `cond` false and sleeps again. -/
def slept : List Action :=
  [.machine (.pick 0), .machine (.swtch 0), .machine (.resume 0), .machine (.alloc 0 1),
    .machine (.ready 0),
    .acquire 0, .test 0, .machine (.acquire 0), .sleepRelease 0, .machine (.sleep 0 7), .machine (.sched 0),
    .machine (.back 0), .machine (.done 0), .machine (.pick 1), .machine (.pick 1), .machine (.swtch 1),
    .machine (.resume 1), .acquire 1, .set 1, .wakeup 1] ++ List.replicate 65 (.round 1) ++
  [.release 1, .machine (.pick 2), .machine (.swtch 2), .machine (.resume 2), .acquire 2, .test 2, .clear 2,
    .test 2, .machine (.acquire 2), .sleepRelease 2, .machine (.sleep 2 7), .machine (.sched 2),
    .machine (.back 2), .machine (.done 2)]

theorem no_lost_wakeup_slept :
    ∃ s, run (step 7) (start false) slept = some s ∧ s.lk = none ∧ (s.m.proc 0).state = .sleeping ∧
      (s.m.proc 0).chan = some 7 ∧ s.since 0 = true := by
  obtain ⟨s, hs, he⟩ := Option.map_eq_some_iff.mp
    (by decide +kernel : (run (step 7) (start false) slept).map
      (fun s => (s.lk, (s.m.proc 0).state, (s.m.proc 0).chan)) = some (none, .sleeping, some 7))
  obtain ⟨hlk, he⟩ := Prod.mk.inj he
  obtain ⟨hstate, hchan⟩ := Prod.mk.inj he
  exact ⟨s, hs, hlk, hstate, hchan, no_lost_wakeup hs hlk 0 hstate hchan⟩

end System

end Xv6.Sched.Waiting
