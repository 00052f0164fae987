import Xv6.Sched.Wakeup

/-!
# Sleep locks

`acquiresleep` and `releasesleep` of `kernel/sleeplock.c`, by any number of processes on any number
of CPUs. Both work under the spinlock `lk->lk` and wait with `sleep` and `wakeup`, so a sleep lock
is a client of `Waiting`: the condition that is waited for is `lk->locked == 0`. The steps here are
those of `Waiting`, in the order in which the two functions make them.

A process does not exit while it has the lock or waits for it.
-/

namespace Xv6.Sched.Sleeplock

open Function Lib ProcTable Machine Waiting

/-- Where a process is. -/
inductive Pc where
  | outside
  /-- In the loop of `acquiresleep`, also while it sleeps there. -/
  | loop
  /-- Behind the loop, where `lk->locked` is 0. -/
  | free
  /-- It has set `lk->locked` and `lk->pid`. -/
  | taken
  /-- It has returned from `acquiresleep`. -/
  | inside
  /-- In `releasesleep`, with `lk->lk`. -/
  | entered
  /-- It has cleared `lk->locked` and `lk->pid`. -/
  | cleared
  /-- It has called `wakeup(lk)`. -/
  | waking
  deriving DecidableEq

/-- The process has the sleep lock. -/
def Pc.holds : Pc → Bool
  | .taken | .inside | .entered => true
  | _ => false

/-- The steps of the two functions. -/
inductive Call where
  | acquire
  | test
  | take
  | clear
  | wakeup
  | round
  | release
  | sleepRelease

/-- What a step does under the spinlock. -/
def Call.action (c : Nat) : Call → System.Action
  | .acquire => .acquire c
  | .test => .test c
  | .take => .clear c
  | .clear => .set c
  | .wakeup => .wakeup c
  | .round => .round c
  | .release => .release c
  | .sleepRelease => .sleepRelease c

/-- Where the process is after the step. The `acquire` in the loop is the one at the end of
`sleep`. -/
def Call.next (free : Bool) : Pc → Call → Option Pc
  | .outside, .acquire | .loop, .acquire | .loop, .sleepRelease => some .loop
  | .loop, .test => some (if free then .free else .loop)
  | .free, .take => some .taken
  | .taken, .release => some .inside
  | .inside, .acquire => some .entered
  | .entered, .clear => some .cleared
  | .cleared, .wakeup => some .waking
  | .waking, .round => some .waking
  | .waking, .release => some .outside
  | _, _ => none

/-- `lk->pid` after a step of process `i`. -/
def Call.pid (i : Nat) (pid : Option Nat) : Call → Option Nat
  | .take => some i
  | .clear => none
  | _ => pid

/-- A sleep lock. `w.cond` says that `lk->locked` is 0. -/
structure Lock where
  w : System
  pc : Nat → Pc
  /-- The process with `lk->pid`. -/
  pid : Option Nat

inductive Action where
  | machine (a : Machine.Action)
  | call (c : Nat) (k : Call)

/-- `initsleeplock`. -/
def init : Lock := ⟨start true, fun _ => .outside, none⟩

namespace Lock

/-- Who exits has nothing to do with the lock. -/
def mayTake (s : Lock) : Machine.Action → Bool
  | .exit c => (s.w.m.cpu c).pc.busy.all fun i => s.pc i = .outside
  | _ => true

def step (chan : Nat) (s : Lock) : Action → Option Lock
  | .machine a => if s.mayTake a then (s.w.step chan (.machine a)).map fun w => { s with w := w } else none
  | .call c k =>
    (s.w.m.cpu c).pc.busy.bind fun i => (k.next s.w.cond (s.pc i)).bind fun pc =>
      (s.w.step chan (k.action c)).map fun w => ⟨w, update s.pc i pc, k.pid i s.pid⟩

/-- `holdingsleep`. -/
def holdingsleep (s : Lock) (i : Nat) : Bool := !s.w.cond && s.pid = some i

end Lock

/-! ## Steps under the spinlock -/

/-- What the thread of process `i` does in a step. -/
inductive Did (chan c i : Nat) (s : System) : Call → System → Prop where
  | acquire (ht : s.thread i = .idle ∨ s.thread i = .woken) :
      Did chan c i s .acquire ({ s with lk := some i, dirty := false, swept := false }.goto i .locked)
  | found (ht : s.thread i = .locked) (hc : s.cond = true) :
      Did chan c i s .test { s with since := update s.since i true }
  | again (ht : s.thread i = .locked) (hc : s.cond = false) :
      Did chan c i s .test ({ s with since := update s.since i true }.goto i .tested)
  | take (ht : s.thread i = .locked) : Did chan c i s .take { s with cond := false }
  | clear (ht : s.thread i = .locked) (hc : s.cond = false) :
      Did chan c i s .clear { s with cond := true, dirty := true, since := fun _ => false }
  | cleared (ht : s.thread i = .locked) (hc : s.cond = true) : Did chan c i s .clear s
  | wakeup (ht : s.thread i = .locked) : Did chan c i s .wakeup (s.goto i (.waking 0))
  | self {k : Nat} (ht : s.thread i = .waking k) : Did chan c i s .round (s.goto i (.waking (k + 1)))
  | round {k : Nat} {m : Machine} (ht : s.thread i = .waking k) (hm : s.m.step (.wakeup c k chan) = some m) :
      Did chan c i s .round ({ s with m := m }.goto i (.waking (k + 1)))
  | swept {k : Nat} (ht : s.thread i = .waking k) :
      Did chan c i s .round ({ s with swept := true }.goto i .locked)
  | release (ht : s.thread i = .locked) : Did chan c i s .release ({ s with lk := none }.goto i .idle)
  | sleepRelease (ht : s.thread i = .sleep1) :
      Did chan c i s .sleepRelease ({ s with lk := none }.goto i .sleep2)

variable {chan c i : Nat}

lemma of_caller {α : Type} {m : Machine} {f : Nat → Option α} {x : α} (hb : (m.cpu c).pc.busy = some i)
    (h : (m.caller c).bind f = some x) : f i = some x := by
  obtain ⟨j, hj, h⟩ := Option.bind_eq_some_iff.mp h
  rw [caller_eq_some hj] at hb
  cases hb
  exact h

lemma did_of_step {s s' : System} {k : Call} (hb : (s.m.cpu c).pc.busy = some i)
    (h : s.step chan (k.action c) = some s') : Did chan c i s k s' := by
  cases k with
  | acquire =>
    obtain ⟨hg, rfl⟩ := of_guard (of_caller hb h)
    exact .acquire hg.1
  | test =>
    obtain ⟨hg, rfl⟩ := of_guard (of_caller hb h)
    dsimp only
    split
    next hc => exact .found hg hc
    next hc => exact .again hg (Bool.eq_false_of_not_eq_true hc)
  | take =>
    obtain ⟨hg, rfl⟩ := of_guard (of_caller hb h)
    exact .take hg
  | clear =>
    obtain ⟨hg, rfl⟩ := of_guard (of_caller hb h)
    split
    next hc => exact .cleared hg hc
    next hc => exact .clear hg (Bool.eq_false_of_not_eq_true hc)
  | wakeup =>
    obtain ⟨hg, rfl⟩ := of_guard (of_caller hb h)
    exact .wakeup hg
  | round =>
    replace h := of_caller hb h
    split at h
    next k hk =>
      split at h
      · split at h
        · cases h
          exact .self hk
        · obtain ⟨m, hm, rfl⟩ := Option.map_eq_some_iff.mp h
          exact .round hk hm
      · cases h
        exact .swept hk
    next => cases h
  | release =>
    obtain ⟨hg, rfl⟩ := of_guard (of_caller hb h)
    exact .release hg.1
  | sleepRelease =>
    change s.sleepRelease c = some s' at h
    unfold System.sleepRelease at h
    split at h
    next j hj =>
      rw [hj] at hb
      cases hb
      obtain ⟨hg, rfl⟩ := of_guard h
      exact .sleepRelease hg.1
    next => cases h

/-! ## The invariant -/

/-- Where the thread of a process is, as `Waiting` sees it. -/
def Pc.Fits : Pc → Thread → Prop
  | .outside, t | .inside, t => t = .idle
  | .loop, t => t ≠ .idle ∧ ∀ k, t ≠ .waking k
  | .free, t | .taken, t | .entered, t | .cleared, t => t = .locked
  | .waking, t => t = .locked ∨ ∃ k, t = .waking k

/-- The process has found the lock taken, and is asleep or about to be. -/
def Drowsy (s : System) (i : Nat) : Prop := s.thread i = .tested ∨ s.thread i = .sleep1 ∨ s.Sleeper i

def Alive (m : Machine) (i : Nat) : Prop := (m.proc i).state ≠ .unused ∧ (m.proc i).state ≠ .zombie

structure Inv (chan : Nat) (s : Lock) : Prop where
  w : s.w.Inv chan
  fits : ∀ i, (s.pc i).Fits (s.w.thread i)
  pid : ∀ i, s.pid = some i ↔ (s.pc i).holds = true
  locked : s.w.cond = true ↔ s.pid = none
  free : ∀ i, s.pc i = .free → s.w.cond = true
  alive : ∀ i, s.pc i ≠ .outside → Alive s.w.m i
  /-- Only `releasesleep` makes the condition true. -/
  dirty : ∀ i, (s.w.thread i).holds = true → s.w.dirty = true → s.pc i = .cleared ∨ s.pc i = .waking
  quiet : ∀ i, Drowsy s.w i → s.w.since i = true → s.w.cond = false

lemma alive_setProc {m : Machine} {j : Nat} {p : Proc} (hi : Alive m i)
    (hp : i = j → p.state ≠ .unused ∧ p.state ≠ .zombie) : Alive (m.setProc j p) i := by
  unfold Alive
  rw [setProc_proc]
  split
  next hij => exact hp hij
  next => exact hi

lemma alive_step {m m' : Machine} {a : Machine.Action} (h : m.Step a m') (hi : Alive m i)
    (hexit : ∀ c, a = .exit c → (m.cpu c).pc.busy ≠ some i) : Alive m' i := by
  cases h with
  | skip | swtch | back => exact hi
  | pick | yield | sleep => exact alive_setProc hi fun _ => ⟨nofun, nofun⟩
  | done | resume | acquire | sched => exact alive_setProc hi fun hij => hij ▸ hi
  | exit hpc =>
    refine alive_setProc hi fun hij => absurd ?_ (hexit _ rfl)
    rw [hpc, hij]
    rfl
  | wakeup =>
    refine alive_setProc hi fun hij => ?_
    unfold Proc.wakeup
    split
    · exact ⟨nofun, nofun⟩
    · exact hij ▸ hi
  | kill =>
    refine alive_setProc hi fun hij => ?_
    unfold Proc.kill
    dsimp only
    split
    · exact ⟨nofun, nofun⟩
    · exact hij ▸ hi
  | alloc => exact alive_setProc (alive_setProc hi fun _ => ⟨nofun, nofun⟩) fun hij => hij ▸ hi
  | ready => exact alive_setProc (alive_setProc hi fun hij => hij ▸ hi) fun _ => ⟨nofun, nofun⟩
  | reap _ _ hz => exact alive_setProc hi fun hij => absurd hz (hij ▸ hi).2

/-- The machine moves a thread only where it may be. -/
lemma Pc.Fits.next {pc : Pc} {t t' : Thread} {a : Machine.Action} (h : pc.Fits t)
    (hn : (program chan).next t a = some t') : pc.Fits t' ∧ (t'.holds = true → t.holds = true) := by
  rcases next_cases hn with ⟨-, rfl, -⟩ | ⟨rfl, rfl, -⟩ | ⟨rfl, rfl, -⟩ | ⟨rfl, rfl, -⟩
  · exact ⟨h, id⟩
  all_goals
    refine ⟨?_, by decide⟩
    cases pc with
    | loop => exact ⟨nofun, nofun⟩
    | waking => rcases h with h | ⟨k, h⟩ <;> cases h
    | _ => cases h

section

variable {s s' : System} {k : Call} {pc pc' : Pc} {b : Bool} {j : Nat}

lemma Call.next_cases (hn : k.next b pc = some pc') :
    (k = .take ∧ pc = .free ∧ pc' = .taken) ∨ (k = .clear ∧ pc = .entered ∧ pc' = .cleared) ∨
      (k ≠ .take ∧ k ≠ .clear ∧ pc'.holds = pc.holds ∧ (pc' = .free → b = true)) := by
  unfold Call.next at hn
  cases b <;> split at hn <;> cases hn <;> simp [Pc.holds]

lemma Did.other (h : Did chan c i s k s') (hj : j ≠ i) : s'.thread j = s.thread j := by
  cases h <;> first | rfl | exact update_of_ne hj ..

lemma Did.cond (h : Did chan c i s k s') (ht : k ≠ .take) (hc : k ≠ .clear) : s'.cond = s.cond := by
  cases h <;> first | rfl | contradiction

lemma Did.holds (h : Did chan c i s k s') (ha : k ≠ .acquire) : (s.thread i).holds = true := by
  cases h with
  | acquire => exact absurd rfl ha
  | _ ht => rw [ht]; rfl

lemma Did.fits (h : Did chan c i s k s') (hf : pc.Fits (s.thread i)) (hn : k.next s.cond pc = some pc') :
    pc'.Fits (s'.thread i) := by
  cases h <;> cases pc <;> cases hn <;> simp_all [Pc.Fits, System.goto_thread]

lemma Did.machine (hs : s.Inv chan) (h : Did chan c i s k s') :
    s'.m = s.m ∨ ∃ j, s.m.Step (.wakeup c j chan) s'.m := by
  cases h with
  | round _ hm => exact .inr ⟨_, hs.m.step_cases hm⟩
  | _ => exact .inl rfl

lemma Did.drowsy (hs : s.Inv chan) (h : Did chan c i s k s') (hj : j ≠ i) (hd : Drowsy s' j) :
    Drowsy s j := by
  have hsleep : (s'.m.proc j).state = .sleeping → (s.m.proc j).state = .sleeping := by
    intro hsl
    rcases h.machine hs with hm | ⟨d, hstep⟩
    · rwa [hm] at hsl
    · rcases hs.m.sleeping hstep hsl with ⟨hold, -⟩ | ⟨_, _, hc, -⟩
      · exact hold
      · cases hc
  unfold Drowsy System.Sleeper at hd ⊢
  rw [h.other hj] at hd
  exact hd.imp_right (.imp_right (.imp_right (.imp_right hsleep)))

end

namespace Inv

variable {s s' : Lock} {k : Call} {pc : Pc} {w : System} {j : Nat} (hs : Inv chan s)
include hs

lemma machine {a : Machine.Action} (hmay : s.mayTake a = true)
    (h : s.w.step chan (.machine a) = some w) : Inv chan { s with w := w } := by
  obtain ⟨⟨m, thread⟩, hm, he⟩ := Option.map_eq_some_iff.mp h
  cases he
  have hstep := hs.w.m.step_cases (Program.step_machine hm)
  have hthread : ∀ i, (s.pc i).Fits (thread i) ∧ ((thread i).holds = true →
    (s.w.thread i).holds = true) := by
    intro i
    rcases Program.step_thread hm i with ⟨c, -, -, hn⟩ | ⟨hborn, ht⟩ | ⟨-, ht⟩
    · exact (hs.fits i).next hn
    · have hout : s.pc i = .outside := by
        by_contra hne
        exact (hs.alive i hne).1 (hstep.born hborn)
      rw [ht, hout]
      exact ⟨rfl, nofun⟩
    · rw [ht]
      exact ⟨hs.fits i, id⟩
  exact {
    w := hs.w.machine hm
    fits := fun i => (hthread i).1
    pid := hs.pid
    locked := hs.locked
    free := hs.free
    alive := fun i hi => alive_step hstep (hs.alive i hi) fun c hc hb => hi (by
      subst hc
      simpa [Lock.mayTake, hb] using hmay)
    dirty := fun i hi => hs.dirty i ((hthread i).2 hi)
    quiet := by
      intro i hi
      refine hs.quiet i ?_
      rcases hi with hi | hi | hi
      · rcases hs.w.thread_machine hm i with ⟨ht, -⟩ | ⟨ht | ht, -⟩ | ⟨-, ht, -⟩ | ⟨-, ht, -⟩
        · exact .inl (ht.symm.trans hi)
        all_goals cases ht.symm.trans hi
      · rcases hs.w.thread_machine hm i with ⟨ht, -⟩ | ⟨ht | ht, -⟩ | ⟨ht, -⟩ | ⟨-, ht, -⟩
        · exact .inr (.inl (ht.symm.trans hi))
        · cases ht.symm.trans hi
        · cases ht.symm.trans hi
        · exact .inl ht
        · cases ht.symm.trans hi
      · exact .inr (.inr (hs.w.sleeper_machine hm hi)) }

lemma dirty_call (hn : k.next s.w.cond (s.pc i) = some pc)
    (h : Did chan c i s.w k w) (hj : (w.thread j).holds = true) (hd : w.dirty = true) :
    update s.pc i pc j = .cleared ∨ update s.pc i pc j = .waking := by
  by_cases hji : j = i
  · subst hji
    rw [update_self]
    cases h with
    | acquire => cases hd
    | found ht | again ht | take ht =>
      -- the process has not come to `releasesleep`
      rcases hs.dirty j (by rw [ht]; rfl) hd with hp | hp <;> rw [hp] at hn <;> cases hn
    | clear | cleared =>
      generalize s.pc j = p at hn
      cases p <;> cases hn
      exact .inl rfl
    | wakeup | self | round | swept =>
      generalize s.pc j = p at hn
      cases p <;> cases hn
      exact .inr rfl
    | release | sleepRelease =>
      rw [System.goto_thread, if_pos rfl] at hj
      cases hj
  · rw [update_of_ne hji]
    rw [h.other hji] at hj
    by_cases ha : k = .acquire
    · subst ha
      cases h with
      | acquire => cases hd
    · exact absurd (hs.w.eq_of_holds hj (h.holds ha)) hji

lemma quiet_call (h : Did chan c i s.w k w) (hd : Drowsy w j) (hsince : w.since j = true) :
    w.cond = false := by
  by_cases hji : j = i
  · subst hji
    cases h with
    | again _ hc => exact hc
    | take => rfl
    | sleepRelease ht => exact hs.quiet j (.inr (.inl ht)) hsince
    | found ht | clear ht | cleared ht => simp [Drowsy, System.Sleeper, ht] at hd
    | _ => simp [Drowsy, System.Sleeper, System.goto_thread] at hd
  · have hold := hs.quiet j (h.drowsy hs.w hji hd)
    cases h with
    | take => rfl
    | clear => cases hsince
    | found | again => exact hold ((update_of_ne hji ..).symm.trans hsince)
    | _ => exact hold hsince

/-- `lk->locked` and `lk->pid` after a step. -/
lemma lock_call (hn : k.next s.w.cond (s.pc i) = some pc) (h : Did chan c i s.w k w) :
    (∀ j, k.pid i s.pid = some j ↔ (update s.pc i pc j).holds = true) ∧
      (w.cond = true ↔ k.pid i s.pid = none) ∧ ∀ j, update s.pc i pc j = .free → w.cond = true := by
  rcases Call.next_cases hn with ⟨rfl, hpc, rfl⟩ | ⟨rfl, hpc, rfl⟩ | ⟨ht, hc, hholds, hfree⟩
  · have hnone := hs.locked.mp (hs.free i hpc)
    cases h with
    | take ht =>
      refine ⟨fun j => ?_, ⟨nofun, nofun⟩, fun j hj => ?_⟩
      · by_cases hji : j = i
        · subst hji
          simp [Call.pid, Pc.holds]
        · rw [update_of_ne hji, ← hs.pid, hnone]
          simp [Call.pid, Ne.symm hji]
      · by_cases hji : j = i
        · rw [hji, update_self] at hj
          cases hj
        · -- only one process can be behind the loop, as it has `lk->lk`
          rw [update_of_ne hji] at hj
          have hlocked := hs.fits j
          rw [hj] at hlocked
          exact absurd (hs.w.eq_of_holds (by rw [hlocked]; rfl) (by rw [ht]; rfl)) hji
  · have hpid := (hs.pid i).mpr (by rw [hpc]; rfl)
    have htrue : w.cond = true := by
      cases h with
      | clear => rfl
      | cleared _ hc => exact hc
    refine ⟨fun j => ⟨nofun, fun hj => ?_⟩, ⟨fun _ => rfl, fun _ => htrue⟩, fun _ _ => htrue⟩
    by_cases hji : j = i
    · rw [hji, update_self] at hj
      cases hj
    · rw [update_of_ne hji, ← hs.pid, hpid] at hj
      exact absurd (Option.some.inj hj).symm hji
  · have hsame : k.pid i s.pid = s.pid := by
      cases k <;> first | rfl | contradiction
    rw [h.cond ht hc, hsame]
    refine ⟨fun j => ?_, hs.locked, fun j hj => ?_⟩
    · rw [hs.pid]
      by_cases hji : j = i
      · rw [hji, update_self, hholds]
      · rw [update_of_ne hji]
    · by_cases hji : j = i
      · rw [hji, update_self] at hj
        exact hfree hj
      · rw [update_of_ne hji] at hj
        exact hs.free j hj

lemma alive_call (hn : k.next s.w.cond (s.pc i) = some pc) (h : Did chan c i s.w k w) (hw : w.Inv chan)
    (hj : update s.pc i pc j ≠ .outside) : Alive w.m j := by
  by_cases hout : s.pc j = .outside
  · -- `acquiresleep` begins
    have hji : j = i := by
      by_contra hji
      rw [update_of_ne hji] at hj
      exact hj hout
    subst hji
    rw [hout] at hn
    cases k <;> cases hn
    cases h with
    | acquire ht =>
      have hrun := hw.running (i := j) (.inl (by rw [System.goto_thread, if_pos rfl]; rfl))
      exact ⟨by rw [hrun]; nofun, by rw [hrun]; nofun⟩
  · have halive := hs.alive j hout
    rcases h.machine hs.w with hm | ⟨d, hstep⟩
    · rwa [hm]
    · exact alive_step hstep halive nofun

lemma call (hb : (s.w.m.cpu c).pc.busy = some i) (hn : k.next s.w.cond (s.pc i) = some pc)
    (h : s.w.step chan (k.action c) = some w) : Inv chan ⟨w, update s.pc i pc, k.pid i s.pid⟩ := by
  have hdid := did_of_step hb h
  have hw : w.Inv chan := hs.w.step h
  obtain ⟨hpid, hlocked, hfree⟩ := hs.lock_call hn hdid
  refine ⟨hw, fun j => ?_, hpid, hlocked, hfree, fun j => hs.alive_call hn hdid hw,
    fun j => hs.dirty_call hn hdid,
    fun j => hs.quiet_call hdid⟩
  dsimp only
  by_cases hj : j = i
  · subst hj
    rw [update_self]
    exact hdid.fits (hs.fits j) hn
  · rw [update_of_ne hj, hdid.other hj]
    exact hs.fits j

lemma step {a : Action} (h : s.step chan a = some s') : Inv chan s' := by
  cases a with
  | machine a =>
    obtain ⟨hmay, h⟩ := Option.ite_none_right_eq_some.mp h
    obtain ⟨w, hw, rfl⟩ := Option.map_eq_some_iff.mp h
    exact hs.machine hmay hw
  | call c k =>
    obtain ⟨i, hb, h⟩ := Option.bind_eq_some_iff.mp h
    obtain ⟨pc, hn, h⟩ := Option.bind_eq_some_iff.mp h
    obtain ⟨w, hw, rfl⟩ := Option.map_eq_some_iff.mp h
    exact hs.call hb hn hw

end Inv

lemma inv_init : Inv chan init where
  w := System.inv_start true
  fits _ := rfl
  pid _ := ⟨nofun, nofun⟩
  locked := ⟨fun _ => rfl, fun _ => rfl⟩
  free := nofun
  alive _ h := absurd rfl h
  dirty := nofun
  quiet _ h := by rcases h with h | h | h | ⟨h, -⟩ <;> cases h

/-- A sleep lock excludes: it has one holder at most, `lk->locked` says whether there is one and
`lk->pid` who it is. And it does not forget who waits: a process that sleeps while the lock is free
is about to be woken up by the process that has released it. -/
theorem sleeplock_exclusive {s : Lock} {as : List Action} (hrun : run (Lock.step chan) init as = some s) :
    (∀ i j, (s.pc i).holds = true → (s.pc j).holds = true → i = j) ∧
      (s.w.cond = false ↔ ∃ i, (s.pc i).holds = true) ∧
      (∀ i, s.holdingsleep i = (s.pc i).holds) ∧
      ∀ i, (s.w.m.proc i).state = .sleeping → (s.w.m.proc i).chan = some chan → s.w.cond = true →
        ∃ j, s.pc j = .cleared ∨ s.pc j = .waking := by
  have hs : Inv chan s :=
    run_induction (P := fun _ s => Inv chan s) hrun inv_init fun _ _ _ _ hs h => hs.step h
  refine ⟨fun i j hi hj => ?_, ?_, fun i => ?_, fun i hsleep hchan hfree => ?_⟩
  · exact Option.some.inj (((hs.pid i).mpr hi).symm.trans ((hs.pid j).mpr hj))
  · rw [← Bool.not_eq_true, hs.locked, ← Option.isNone_iff_eq_none, Bool.not_eq_true,
      Option.isNone_eq_false_iff,
      Option.isSome_iff_exists]
    exact exists_congr hs.pid
  · rw [Lock.holdingsleep, Bool.eq_iff_iff, ← hs.pid, Bool.and_eq_true, decide_eq_true_eq,
      and_iff_right_iff_imp]
    intro hpid
    rw [Bool.not_eq_true', ← Bool.not_eq_true, hs.locked, hpid]
    nofun
  · have hsl : s.w.Sleeper i := .inr ⟨(hs.w.asleep hsleep).mp hchan, hsleep⟩
    have hold : s.w.since i = false := by
      by_contra hne
      have hcond := hs.quiet i (.inr (.inr hsl)) (Bool.eq_true_of_not_eq_false hne)
      rw [hfree] at hcond
      cases hcond
    obtain ⟨hlk, hdirty, -⟩ := hs.w.stale hsl hold
    obtain ⟨j, hj⟩ := Option.ne_none_iff_exists'.mp hlk
    exact ⟨j, hs.dirty j (hs.w.lk.mp hj) hdirty⟩

/-- The first process has a child and takes the lock. The child waits for it, and the first
process is about to wake it up. -/
def takes : List Action :=
  [.machine (.pick 0), .machine (.swtch 0), .machine (.resume 0), .machine (.alloc 0 1),
    .machine (.ready 0),
    .machine (.pick 1), .machine (.pick 1), .machine (.swtch 1), .machine (.resume 1),
    .call 0 .acquire, .call 0 .test, .call 0 .take, .call 0 .release,
    .call 1 .acquire, .call 1 .test, .machine (.acquire 1), .call 1 .sleepRelease, .machine (.sleep 1 7),
    .machine (.sched 1), .machine (.back 1), .machine (.done 1), .call 0 .acquire, .call 0 .clear]

theorem sleeplock_exclusive_takes : ∃ s, run (Lock.step 7) init takes = some s ∧
    (s.w.m.proc 1).state = .sleeping ∧ s.w.cond = true ∧ (∀ i, s.holdingsleep i = false) ∧
      ∃ j, s.pc j = .cleared ∨ s.pc j = .waking := by
  obtain ⟨s, hs, he⟩ := Option.map_eq_some_iff.mp
    (by decide +kernel : (run (Lock.step 7) init takes).map
      (fun s => ((s.w.m.proc 1).state, (s.w.m.proc 1).chan, s.w.cond)) = some (.sleeping, some 7, true))
  obtain ⟨hstate, he⟩ := Prod.mk.inj he
  obtain ⟨hchan, hcond⟩ := Prod.mk.inj he
  obtain ⟨-, hlocked, hholding, hwaits⟩ := sleeplock_exclusive hs
  refine ⟨s, hs, hstate, hcond, fun i => ?_, hwaits 1 hstate hchan hcond⟩
  rw [hholding]
  by_contra hne
  have := hlocked.mpr ⟨i, Bool.eq_true_of_not_eq_false hne⟩
  rw [hcond] at this
  cases this

end Xv6.Sched.Sleeplock
