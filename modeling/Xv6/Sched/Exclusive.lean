import Xv6.Sched.Machine

/-!
# A process runs on one CPU

From the round of `scheduler` that picks a process to the end of that round, the CPU has the process
to itself: `c->proc` names it, and no other CPU is in the thread or on its stack. `p->lock` is held
for the parts of this time in which the thread is not at work.
-/

namespace Xv6.Sched

open Function Lib ProcTable

/-- The process that a CPU is busy with. -/
def Pc.busy : Pc → Option Nat
  | .scan _ => none
  | .chosen i | .enter i | .run i | .hold i | .leave i _ | .saved i | .back i => some i

/-- The process whose lock the CPU has. -/
def Pc.locked : Pc → Option Nat
  | .scan _ | .run _ => none
  | .chosen i | .enter i | .hold i | .leave i _ | .saved i | .back i => some i

/-- The process that is `RUNNING` there. -/
def Pc.active : Pc → Option Nat
  | .chosen i | .enter i | .run i | .hold i => some i
  | _ => none

/-- The process whose kernel stack the CPU is on. -/
def Pc.stack : Pc → Option Nat
  | .enter i | .run i | .hold i | .leave i _ | .saved i => some i
  | _ => none

/-- The state that goes with a call of `sched`. -/
def Resume.state : Resume → State
  | .forkret => .used
  | .yield => .runnable
  | .sleep => .sleeping
  | .exit => .zombie

@[grind →] lemma Pc.busy_of_stack {pc : Pc} {i : Nat} (h : pc.stack = some i) : pc.busy = some i := by
  cases pc <;> first | exact h | cases h

@[grind →] lemma Pc.busy_of_active {pc : Pc} {i : Nat} (h : pc.active = some i) : pc.busy = some i := by
  cases pc <;> first | exact h | cases h

@[grind →] lemma Pc.busy_of_locked {pc : Pc} {i : Nat} (h : pc.locked = some i) : pc.busy = some i := by
  cases pc <;> first | exact h | cases h

lemma Pc.active_of_busy {pc : Pc} {i : Nat} (h : pc.busy = some i) (hl : pc.locked ≠ some i) :
    pc.active = some i := by
  cases pc <;> first | exact h | exact absurd h hl

namespace Machine

/-- What a step does, as long as nothing goes wrong. -/
inductive Step (s : Machine) : Action → Machine → Prop where
  | skip {c i : Nat} : (s.cpu c).pc = .scan i → Step s (.pick c) (s.goto c (.scan ((i + 1) % nproc)))
  | pick {c i : Nat} : (s.cpu c).pc = .scan i → (s.proc i).lock = none → (s.proc i).state = .runnable →
      Step s (.pick c)
        ((s.setProc i { s.proc i with state := .running, lock := some c }).setCpu c ⟨some i, .chosen i⟩)
  | swtch {c i : Nat} : (s.cpu c).pc = .chosen i → Step s (.swtch c) (s.goto c (.enter i))
  | done {c i : Nat} : (s.cpu c).pc = .back i →
      Step s (.done c)
        ((s.setProc i { s.proc i with lock := none }).setCpu c ⟨none, .scan ((i + 1) % nproc)⟩)
  | resume {c i : Nat} : (s.cpu c).pc = .enter i → (s.proc i).context ≠ .exit →
      Step s (.resume c) ((s.setProc i { s.proc i with
        chan := if (s.proc i).context = .sleep then none else (s.proc i).chan, lock := none }).goto c (.run i))
  | acquire {c i : Nat} : (s.cpu c).pc = .run i → (s.proc i).lock = none →
      Step s (.acquire c) ((s.setProc i { s.proc i with lock := some c }).goto c (.hold i))
  | yield {c i : Nat} : (s.cpu c).pc = .hold i →
      Step s (.yield c) ((s.setProc i { s.proc i with state := .runnable }).goto c (.leave i .yield))
  | sleep {c i chan : Nat} : (s.cpu c).pc = .hold i → (s.proc i).np = none →
      Step s (.sleep c chan)
        ((s.setProc i { s.proc i with chan := some chan, state := .sleeping }).goto c (.leave i .sleep))
  | exit {c i : Nat} : (s.cpu c).pc = .hold i → (s.proc i).np = none →
      Step s (.exit c) ((s.setProc i { s.proc i with state := .zombie }).goto c (.leave i .exit))
  | sched {c i : Nat} {k : Resume} : (s.cpu c).pc = .leave i k →
      Step s (.sched c) ((s.setProc i { s.proc i with context := k }).goto c (.saved i))
  | back {c i : Nat} : (s.cpu c).pc = .saved i → Step s (.back c) (s.goto c (.back i))
  | wakeup {c j chan : Nat} : (s.cpu c).pc.interruptible = true → (s.cpu c).proc ≠ some j →
      (s.proc j).lock = none →
      Step s (.wakeup c j chan) (s.setProc j ((s.proc j).wakeup chan))
  | kill {c i j : Nat} : (s.cpu c).pc = .run i → (s.proc j).lock = none →
      Step s (.kill c j) (s.setProc j (s.proc j).kill)
  | alloc {c i j : Nat} : (s.cpu c).pc = .run i → (s.proc i).np = none → j < nproc →
      (s.proc j).lock = none →
      (s.proc j).state = .unused →
      Step s (.alloc c j) ((s.setProc j { s.proc j with state := .used, context := .forkret, np := none }).setProc i
        { s.proc i with np := some j })
  | ready {c i j : Nat} : (s.cpu c).pc = .run i → (s.proc i).np = some j → (s.proc j).lock = none →
      Step s (.ready c)
        ((s.setProc i { s.proc i with np := none }).setProc j { s.proc j with state := .runnable })
  | reap {c i j : Nat} : (s.cpu c).pc = .run i → (s.proc j).lock = none → (s.proc j).state = .zombie →
      Step s (.reap c j) (s.setProc j (s.proc j).free)

variable {s s' : Machine} {c d i j chan : Nat} {k : Resume}

@[simp] lemma setProc_proc (s : Machine) (i j : Nat) (p : Proc) :
    (s.setProc i p).proc j = if j = i then p else s.proc j := update_apply ..

@[simp] lemma setProc_cpu (s : Machine) (i : Nat) (p : Proc) : (s.setProc i p).cpu = s.cpu := rfl

@[simp] lemma setProc_panic (s : Machine) (i : Nat) (p : Proc) : (s.setProc i p).panic = s.panic := rfl

@[simp] lemma setCpu_cpu (s : Machine) (c d : Nat) (x : Cpu) :
    (s.setCpu c x).cpu d = if d = c then x else s.cpu d := update_apply ..

@[simp] lemma setCpu_proc (s : Machine) (c : Nat) (x : Cpu) : (s.setCpu c x).proc = s.proc := rfl

@[simp] lemma setCpu_panic (s : Machine) (c : Nat) (x : Cpu) : (s.setCpu c x).panic = s.panic := rfl

structure Inv (s : Machine) : Prop where
  panic : s.panic = none
  proc : ∀ c, (s.cpu c).proc = (s.cpu c).pc.busy
  one : ∀ {c d i}, (s.cpu c).pc.busy = some i → (s.cpu d).pc.busy = some i → c = d
  lock : ∀ {c i}, (s.proc i).lock = some c ↔ (s.cpu c).pc.locked = some i
  running : ∀ {i}, (s.proc i).state = .running ↔ ∃ c, (s.cpu c).pc.active = some i
  leave : ∀ {c i k}, (s.cpu c).pc = .leave i k → (s.proc i).state = k.state
  live : ∀ {c i}, (s.cpu c).pc.busy = some i → (s.proc i).state ≠ .used ∧ (s.proc i).state ≠ .unused
  context : ∀ {i}, (s.proc i).context = .exit → (s.proc i).state = .zombie ∨ (s.proc i).state = .unused
  np : ∀ {i j}, (s.proc i).np = some j → (s.proc j).state = .used
  npInj : ∀ {i i' j}, (s.proc i).np = some j → (s.proc i').np = some j → i = i'
  bound : ∀ {i}, (s.proc i).state ≠ .unused → i < nproc

lemma goto_pc (s : Machine) (c : Nat) (pc : Pc) : ((s.goto c pc).cpu c).pc = pc := by
  unfold goto
  rw [setCpu_cpu, if_pos rfl]

lemma setProc_self (s : Machine) (i : Nat) : s.setProc i (s.proc i) = s := by
  unfold setProc
  rw [update_eq_self]

lemma inv_boot : boot.Inv := by
  have hproc : ∀ i, boot.proc i = if i = initproc then { Proc.unused with state := .runnable } else Proc.unused := by
    intro i
    exact update_apply (fun _ => Proc.unused) initproc _ i
  constructor
  case panic => rfl
  case proc => exact fun _ => rfl
  case one => nofun
  case lock =>
    intro c i
    rw [hproc]
    refine ⟨?_, nofun⟩
    split <;> nofun
  case running =>
    intro i
    rw [hproc]
    refine ⟨?_, nofun⟩
    split <;> nofun
  case leave => nofun
  case live => nofun
  case context =>
    intro i
    rw [hproc]
    split <;> nofun
  case np =>
    intro i j
    rw [hproc]
    split <;> nofun
  case npInj =>
    intro i i' j
    rw [hproc]
    split <;> nofun
  case bound =>
    intro i
    rw [hproc]
    split
    next hi => exact fun _ => hi ▸ (by decide : initproc < nproc)
    next => exact fun h => absurd rfl h

namespace Inv

variable (hs : s.Inv)
include hs

/-- A process whose lock is free and that is not `RUNNING` is nobody's. -/
lemma not_busy (hl : (s.proc i).lock = none) (hr : (s.proc i).state ≠ .running) (c : Nat) :
    (s.cpu c).pc.busy ≠ some i := by
  intro hb
  by_cases hc : (s.cpu c).pc.locked = some i
  · have := hs.lock.mpr hc
    rw [hl] at this
    cases this
  · exact hr (hs.running.mpr ⟨c, Pc.active_of_busy hb hc⟩)

/-- A step of a CPU that has to do with no process but `i`, and that no other CPU is busy with. -/
lemma move {x : Cpu} {p : Proc} (hother : ∀ d, d ≠ c → (s.cpu d).pc.busy ≠ some i)
    (hold : ∀ j, (s.cpu c).pc.busy = some j → j = i) (hnew : ∀ j, x.pc.busy = some j → j = i)
    (hproc : x.proc = x.pc.busy) (hlock : p.lock = if x.pc.locked = some i then some c else none)
    (hstate : p.state = .running ↔ x.pc.active = some i)
    (hleave : ∀ k, x.pc = .leave i k → p.state = k.state)
    (hcontext : p.context = .exit → p.state = .zombie ∨ p.state = .unused)
    (hnp : p.np = (s.proc i).np) (hused : (s.proc i).state ≠ .used ∧ (s.proc i).state ≠ .unused)
    (hlive : p.state ≠ .used ∧ p.state ≠ .unused) : ((s.setProc i p).setCpu c x).Inv where
  panic := hs.panic
  proc := by
    intro d
    have := hs.proc d
    simp only [setCpu_cpu, setProc_cpu]
    grind
  one := by
    intro d d' j
    have := @hs.one d d' j
    simp only [setCpu_cpu, setProc_cpu]
    grind
  lock := by
    intro d j
    have := @hs.lock d j
    have := @hs.lock c j
    simp only [setCpu_cpu, setProc_cpu, setProc_proc, setCpu_proc]
    grind
  running := by
    intro j
    have := @hs.running j
    simp only [setCpu_cpu, setProc_cpu, setProc_proc, setCpu_proc]
    grind
  leave := by
    intro d j k
    have := @hs.leave d j k
    simp only [setCpu_cpu, setProc_cpu, setProc_proc, setCpu_proc]
    grind [Pc.busy]
  live := by
    intro d j
    have := @hs.live d j
    simp only [setCpu_cpu, setProc_cpu, setProc_proc, setCpu_proc]
    grind
  context := by
    intro j
    have := @hs.context j
    simp only [setProc_proc, setCpu_proc]
    grind
  np := by
    intro j k
    have := @hs.np j k
    simp only [setProc_proc, setCpu_proc]
    grind
  npInj := by
    intro j j' k
    have := @hs.npInj j j' k
    simp only [setProc_proc, setCpu_proc]
    grind
  bound := by
    intro j
    have := @hs.bound j
    simp only [setProc_proc, setCpu_proc]
    grind

/-- Another process changes a slot whose lock is free. -/
lemma touch {p : Proc} (hlock : p.lock = (s.proc i).lock)
    (hstate : p.state = .running ↔ (s.proc i).state = .running)
    (hfree : (s.proc i).lock = none)
    (hcontext : p.context = .exit → p.state = .zombie ∨ p.state = .unused)
    (hnp : p.np = (s.proc i).np ∨ p.np = none) (hused : ∀ j, (s.proc j).np = some i → p.state = .used)
    (hbound : p.state ≠ .unused → i < nproc) : (s.setProc i p).Inv where
  panic := hs.panic
  proc := hs.proc
  one := hs.one
  lock := by
    intro d j
    have := @hs.lock d j
    simp only [setProc_cpu, setProc_proc]
    grind
  running := by
    intro j
    have := @hs.running j
    simp only [setProc_cpu, setProc_proc]
    grind
  leave := by
    intro d j k
    have := @hs.leave d j k
    have := @hs.lock d i
    simp only [setProc_cpu, setProc_proc]
    grind [Pc.locked]
  live := by
    intro d j
    have := @hs.live d j
    have := @hs.lock d i
    have := @hs.running i
    have := @Pc.active_of_busy (s.cpu d).pc i
    simp only [setProc_cpu, setProc_proc]
    grind
  context := by
    intro j
    have := @hs.context j
    simp only [setProc_proc]
    grind
  np := by
    intro j k
    have := @hs.np j k
    simp only [setProc_proc]
    grind
  npInj := by
    intro j j' k
    have := @hs.npInj j j' k
    simp only [setProc_proc]
    grind
  bound := by
    intro j
    have := @hs.bound j
    simp only [setProc_proc]
    grind

end Inv

lemma caller_eq_some (h : s.caller c = some i) : (s.cpu c).pc = .run i := by
  unfold caller at h
  split at h
  next hpc =>
    cases h
    exact hpc
  next => cases h

lemma caller_isSome (h : (s.caller c).isSome) : ∃ i, (s.cpu c).pc = .run i := by
  obtain ⟨i, hi⟩ := Option.isSome_iff_exists.mp h
  exact ⟨i, caller_eq_some hi⟩

namespace Inv

variable (hs : s.Inv)
include hs

/-- The assertions of the source hold, so every step is one of these. -/
lemma step_cases {a : Action} (h : s.step a = some s') : s.Step a s' := by
  unfold Machine.step at h
  rw [if_neg (not_not.mpr hs.panic)] at h
  cases a with
  | pick c =>
    dsimp only [Machine.pick] at h
    split at h
    next i hpc =>
      split at h
      next => cases h
      next hlock =>
        split at h
        next hrun =>
          cases h
          exact .pick hpc (not_not.mp hlock) hrun
        next =>
          cases h
          exact .skip hpc
    next => cases h
  | swtch c =>
    dsimp only [Machine.swtch] at h
    split at h
    next i hpc =>
      cases h
      exact .swtch hpc
    next => cases h
  | done c =>
    dsimp only [Machine.done] at h
    split at h
    next i hpc =>
      cases h
      exact .done hpc
    next => cases h
  | resume c =>
    dsimp only [Machine.resume] at h
    split at h
    next i hpc =>
      have hproc : (s.cpu c).proc = some i := by
        rw [hs.proc, hpc]
        rfl
      have hstate : (s.proc i).state = .running := hs.running.mpr ⟨c, by rw [hpc]; rfl⟩
      have hk : (s.proc i).context ≠ .exit := by
        intro hk
        rcases hs.context hk with h | h <;> rw [hstate] at h <;> cases h
      have hstep := Step.resume hpc hk
      split at h
      next hctx =>
        rw [if_neg (not_not.mpr hproc)] at h
        rw [hctx] at hstep
        cases h
        exact hstep
      next hctx =>
        rw [hctx] at hstep
        cases h
        exact hstep
      next hctx =>
        rw [hctx] at hstep
        cases h
        exact hstep
      next hctx => exact absurd hctx hk
    next => cases h
  | acquire c =>
    dsimp only [Machine.acquire] at h
    split at h
    next i hpc =>
      have hproc : (s.cpu c).proc = some i := by
        rw [hs.proc, hpc]
        rfl
      rw [if_neg (not_not.mpr hproc)] at h
      split at h
      next => cases h
      next hlock =>
        cases h
        exact .acquire hpc (not_not.mp hlock)
    next => cases h
  | yield c =>
    dsimp only [Machine.yield] at h
    split at h
    next i hpc =>
      cases h
      exact .yield hpc
    next => cases h
  | sleep c chan =>
    dsimp only [Machine.sleep] at h
    split at h
    next i hpc =>
      obtain ⟨hnp, rfl⟩ := of_guard h
      exact .sleep hpc hnp
    next => cases h
  | exit c =>
    dsimp only [Machine.exit] at h
    split at h
    next i hpc =>
      obtain ⟨hnp, rfl⟩ := of_guard h
      exact .exit hpc hnp
    next => cases h
  | sched c =>
    dsimp only [Machine.sched] at h
    split at h
    next i k hpc =>
      have hproc : (s.cpu c).proc = some i := by
        rw [hs.proc, hpc]
        rfl
      have hlock : (s.proc i).lock = some c := hs.lock.mpr (by rw [hpc]; rfl)
      have hstate : (s.proc i).state ≠ .running := by
        rw [hs.leave hpc]
        cases k <;> nofun
      rw [if_neg (not_not.mpr hproc), if_neg (not_not.mpr hlock), if_neg hstate] at h
      cases h
      exact .sched hpc
    next => cases h
  | back c =>
    dsimp only [Machine.back] at h
    split at h
    next i hpc =>
      cases h
      exact .back hpc
    next => cases h
  | wakeup c j chan =>
    dsimp only [Machine.wakeup] at h
    obtain ⟨hg, rfl⟩ := of_guard h
    exact .wakeup hg.1 hg.2.1 hg.2.2
  | kill c j =>
    dsimp only [Machine.kill] at h
    obtain ⟨hg, rfl⟩ := of_guard h
    obtain ⟨i, hpc⟩ := caller_isSome hg.1
    exact .kill hpc hg.2
  | alloc c j =>
    dsimp only [Machine.alloc] at h
    split at h
    next i hi =>
      obtain ⟨hg, rfl⟩ := of_guard h
      exact .alloc (caller_eq_some hi) hg.1 hg.2.1 hg.2.2.1 hg.2.2.2
    next => cases h
  | ready c =>
    dsimp only [Machine.ready] at h
    split at h
    next i hi =>
      split at h
      next j hj =>
        obtain ⟨hlock, rfl⟩ := of_guard h
        exact .ready (caller_eq_some hi) hj hlock
      next => cases h
    next => cases h
  | reap c j =>
    dsimp only [Machine.reap] at h
    obtain ⟨hg, rfl⟩ := of_guard h
    obtain ⟨i, hpc⟩ := caller_isSome hg.1
    exact .reap hpc hg.2.1 hg.2.2

/-- A step of a thread, or of the scheduler in the round of that thread. -/
lemma thread {pc : Pc} {p : Proc} (hb : (s.cpu c).pc.busy = some i) (hpc : pc.busy = some i)
    (hlock : p.lock = if pc.locked = some i then some c else none)
    (hstate : p.state = .running ↔ pc.active = some i) (hleave : ∀ k, pc = .leave i k → p.state = k.state)
    (hcontext : p.context = .exit → p.state = .zombie ∨ p.state = .unused) (hnp : p.np = (s.proc i).np)
    (hlive : p.state ≠ .used ∧ p.state ≠ .unused) : ((s.setProc i p).goto c pc).Inv := by
  refine hs.move ?_ ?_ ?_ ?_ hlock hstate hleave hcontext hnp (hs.live hb) hlive
  · exact fun d hd hd' => hd (hs.one hd' hb)
  · intro j hj
    rw [hb] at hj
    cases hj
    rfl
  · intro j hj
    cases hpc.symm.trans hj
    rfl
  · exact (hs.proc c).trans (hb.trans hpc.symm)

/-- A step of a thread that changes nothing in the slot. -/
lemma thread_goto {pc : Pc} (hb : (s.cpu c).pc.busy = some i) (hpc : pc.busy = some i)
    (hlock : pc.locked = (s.cpu c).pc.locked) (hactive : pc.active = (s.cpu c).pc.active)
    (hleave : ∀ k, pc ≠ .leave i k) : (s.goto c pc).Inv := by
  have hlock' : (s.proc i).lock = if pc.locked = some i then some c else none := by
    split
    next h => exact hs.lock.mpr (hlock ▸ h)
    next h =>
      cases hl : (s.proc i).lock with
      | none => rfl
      | some d =>
        have hd := hs.lock.mp hl
        cases hs.one (Pc.busy_of_locked hd) hb
        exact absurd (hlock.trans hd) h
  have hstate : (s.proc i).state = .running ↔ pc.active = some i := by
    rw [hs.running, hactive]
    refine ⟨?_, fun h => ⟨c, h⟩⟩
    rintro ⟨d, hd⟩
    cases hs.one (Pc.busy_of_active hd) hb
    exact hd
  have hnext := hs.thread (p := s.proc i) hb hpc hlock' hstate (fun k hk => absurd hk (hleave k)) hs.context rfl
    (hs.live hb)
  rw [setProc_self] at hnext
  exact hnext

/-- The scheduler goes on to another slot. -/
lemma skip (hpc : (s.cpu c).pc = .scan i) : (s.goto c (.scan j)).Inv := by
  have hcpu : ∀ d, ((s.goto c (.scan j)).cpu d).pc.busy = (s.cpu d).pc.busy ∧
      ((s.goto c (.scan j)).cpu d).pc.locked = (s.cpu d).pc.locked ∧
      ((s.goto c (.scan j)).cpu d).pc.active = (s.cpu d).pc.active ∧
      ((s.goto c (.scan j)).cpu d).proc = (s.cpu d).proc := by
    intro d
    unfold goto
    rw [setCpu_cpu]
    split
    next hd =>
      rw [hd, hpc]
      exact ⟨rfl, rfl, rfl, rfl⟩
    next => exact ⟨rfl, rfl, rfl, rfl⟩
  exact
    { panic := hs.panic
      proc := fun d => by rw [(hcpu d).2.2.2, (hcpu d).1, hs.proc]
      one := fun {d d' i} h h' => hs.one ((hcpu d).1 ▸ h) ((hcpu d').1 ▸ h')
      lock := fun {d i} => by
        rw [(hcpu d).2.1]
        exact hs.lock
      running := fun {i} => by
        simp only [(hcpu _).2.2.1]
        exact hs.running
      leave := by
        intro d i k hd
        unfold goto at hd
        rw [setCpu_cpu] at hd
        split at hd
        next => cases hd
        next => exact hs.leave hd
      live := fun {d i} h => hs.live ((hcpu d).1 ▸ h)
      context := hs.context
      np := hs.np
      npInj := hs.npInj
      bound := hs.bound }

/-- `np` changes. -/
lemma setNp {n : Option Nat} (hn : ∀ j, n = some j → (s.proc j).state = .used ∧
    ∀ i, (s.proc i).np ≠ some j) :
    (s.setProc i { s.proc i with np := n }).Inv := by
  have hproc : ∀ j, ((s.setProc i { s.proc i with np := n }).proc j).state = (s.proc j).state ∧
      ((s.setProc i { s.proc i with np := n }).proc j).lock = (s.proc j).lock ∧
      ((s.setProc i { s.proc i with np := n }).proc j).context = (s.proc j).context := by
    intro j
    rw [setProc_proc]
    split
    next hj =>
      rw [hj]
      exact ⟨rfl, rfl, rfl⟩
    next => exact ⟨rfl, rfl, rfl⟩
  exact
    { panic := hs.panic
      proc := hs.proc
      one := hs.one
      lock := fun {c j} => by
        rw [(hproc j).2.1]
        exact hs.lock
      running := fun {j} => by
        rw [(hproc j).1]
        exact hs.running
      leave := fun {c j k} hk => (hproc j).1.trans (hs.leave hk)
      live := fun {c j} hc => by
        rw [(hproc j).1]
        exact hs.live hc
      context := fun {j} => by
        rw [(hproc j).1, (hproc j).2.2]
        exact hs.context
      np := by
        intro j k hj
        rw [(hproc k).1]
        rw [setProc_proc] at hj
        split at hj
        next => exact (hn k hj).1
        next => exact hs.np hj
      npInj := by
        intro j j' k hj hj'
        rw [setProc_proc] at hj hj'
        split at hj <;> split at hj'
        next h h' => exact h.trans h'.symm
        next => exact absurd hj' ((hn k hj).2 j')
        next => exact absurd hj ((hn k hj').2 j)
        next => exact hs.npInj hj hj'
      bound := fun {j} => by
        rw [(hproc j).1]
        exact hs.bound }

/-- A thread sets its state and calls `sched`. -/
lemma leaves {p : Proc} (hpc : (s.cpu c).pc = .hold i) (hstate : p.state = k.state)
    (hk : k ≠ .forkret) (hlock : p.lock = (s.proc i).lock) (hcontext : p.context = (s.proc i).context)
    (hnp : p.np = (s.proc i).np) : ((s.setProc i p).goto c (.leave i k)).Inv := by
  have hb : (s.cpu c).pc.busy = some i := by
    rw [hpc]
    rfl
  have hrun : (s.proc i).state = .running := hs.running.mpr ⟨c, by rw [hpc]; rfl⟩
  have hheld : (s.proc i).lock = some c := hs.lock.mpr (by rw [hpc]; rfl)
  refine hs.thread hb rfl (hlock.trans (hheld.trans (if_pos rfl).symm)) ?_ ?_ ?_ hnp ?_
  · rw [hstate]
    refine ⟨?_, nofun⟩
    cases k <;> nofun
  · intro k' hk'
    cases hk'
    exact hstate
  · intro h
    rw [hcontext] at h
    rcases hs.context h with h | h <;> rw [hrun] at h <;> cases h
  · rw [hstate]
    cases k with
    | forkret => exact absurd rfl hk
    | yield | sleep | exit => exact ⟨nofun, nofun⟩

/-- A sleeping process is woken up. -/
lemma wake {p : Proc} (hlock : (s.proc i).lock = none) (hstate : (s.proc i).state = .sleeping)
    (hp : p.state = .runnable) (hpl : p.lock = (s.proc i).lock) (hcontext : p.context = (s.proc i).context)
    (hnp : p.np = (s.proc i).np) : (s.setProc i p).Inv := by
  refine hs.touch hpl ?_ hlock ?_ (.inl hnp) ?_ (fun _ => hs.bound (by rw [hstate]; nofun))
  · rw [hp, hstate]
    exact ⟨nofun, nofun⟩
  · intro hk
    rw [hcontext] at hk
    rcases hs.context hk with h | h <;> rw [hstate] at h <;> cases h
  · intro j hj
    have := hs.np hj
    rw [hstate] at this
    cases this

/-- Every step keeps the invariant. -/
lemma next {a : Action} (h : s.Step a s') : s'.Inv := by
  cases h with
  | skip hpc => exact hs.skip hpc
  | @pick c i hpc hlock hstate =>
    have hne : (s.proc i).state ≠ .running := by
      rw [hstate]
      nofun
    refine hs.move (fun d _ => hs.not_busy hlock hne d) (by rw [hpc]; nofun) ?_ rfl (if_pos rfl).symm
      ⟨fun _ => rfl, fun _ => rfl⟩ nofun ?_ rfl (by rw [hstate]; exact ⟨nofun, nofun⟩) ⟨nofun, nofun⟩
    · intro j hj
      cases hj
      rfl
    · intro hk
      rcases hs.context hk with h | h <;> rw [hstate] at h <;> cases h
  | swtch hpc | back hpc =>
    exact hs.thread_goto (by rw [hpc]; rfl) rfl (by rw [hpc]; rfl) (by rw [hpc]; rfl) nofun
  | @done c i hpc =>
    have hb : (s.cpu c).pc.busy = some i := by
      rw [hpc]
      rfl
    refine hs.move (fun d hd hd' => hd (hs.one hd' hb)) ?_ nofun rfl rfl ?_ nofun hs.context rfl
      (hs.live hb)
      (hs.live hb)
    · intro j hj
      cases hb.symm.trans hj
      rfl
    · refine ⟨fun h => ?_, nofun⟩
      obtain ⟨d, hd⟩ := hs.running.mp h
      cases hs.one (Pc.busy_of_active hd) hb
      rw [hpc] at hd
      cases hd
  | @resume c i hpc hk =>
    have hb : (s.cpu c).pc.busy = some i := by
      rw [hpc]
      rfl
    have hrun : (s.proc i).state = .running := hs.running.mpr ⟨c, by rw [hpc]; rfl⟩
    exact hs.thread hb rfl rfl ⟨fun _ => rfl, fun _ => hrun⟩ nofun (fun h => absurd h hk) rfl (hs.live hb)
  | @acquire c i hpc hlock =>
    have hb : (s.cpu c).pc.busy = some i := by
      rw [hpc]
      rfl
    have hrun : (s.proc i).state = .running := hs.running.mpr ⟨c, by rw [hpc]; rfl⟩
    exact hs.thread hb rfl (if_pos rfl).symm ⟨fun _ => rfl, fun _ => hrun⟩ nofun hs.context rfl (hs.live hb)
  | @yield c i hpc | @sleep c i chan hpc hnp | @exit c i hpc hnp =>
    exact hs.leaves hpc rfl nofun rfl rfl rfl
  | @sched c i k hpc =>
    have hb : (s.cpu c).pc.busy = some i := by
      rw [hpc]
      rfl
    have hheld : (s.proc i).lock = some c := hs.lock.mpr (by rw [hpc]; rfl)
    have hstate := hs.leave hpc
    refine hs.thread hb rfl (hheld.trans (if_pos rfl).symm) ?_ nofun ?_ rfl (hs.live hb)
    · rw [hstate]
      refine ⟨?_, nofun⟩
      cases k <;> nofun
    · intro hk
      exact .inl (hstate.trans (congrArg Resume.state hk))
  | @wakeup c j chan hi hproc hlock =>
    unfold Proc.wakeup
    split
    next hg => exact hs.wake hlock hg.1 rfl rfl rfl rfl
    next =>
      rw [setProc_self]
      exact hs
  | @kill c i j hpc hlock =>
    unfold Proc.kill
    split
    next hg => exact hs.wake hlock hg rfl rfl rfl rfl
    next =>
      exact hs.touch rfl Iff.rfl hlock hs.context (.inl rfl) (fun j' hj => hs.np hj) hs.bound
  | @alloc c i j hpc hnp hlt hlock hstate =>
    have hij : i ≠ j := by
      rintro rfl
      exact (hs.live (c := c) (by rw [hpc]; rfl)).2 hstate
    have hnew : ∀ i', (s.proc i').np ≠ some j := by
      intro i' hi'
      have := hs.np hi'
      rw [hstate] at this
      cases this
    have h₁ := hs.touch (i := j) (p := { s.proc j with state := .used, context := .forkret, np := none })
      rfl (by rw [hstate]; exact ⟨nofun, nofun⟩) hlock nofun (.inr rfl) (fun i' hi' => absurd hi' (hnew i'))
      (fun _ => hlt)
    have h₂ := h₁.setNp (i := i) (n := some j) ?_
    · rw [setProc_proc, if_neg hij] at h₂
      exact h₂
    · intro j' hj'
      cases hj'
      refine ⟨by rw [setProc_proc, if_pos rfl], fun i' => ?_⟩
      rw [setProc_proc]
      split
      next => nofun
      next => exact hnew i'
  | @ready c i j hpc hnp hlock =>
    have hij : j ≠ i := by
      rintro rfl
      exact (hs.live (c := c) (by rw [hpc]; rfl)).1 (hs.np hnp)
    have hused := hs.np hnp
    have h₁ := hs.setNp (i := i) (n := none) nofun
    have hj : (s.setProc i { s.proc i with np := none }).proc j = s.proc j := by
      rw [setProc_proc, if_neg hij]
    refine h₁.touch ?_ ?_ ?_ ?_ ?_ ?_ ?_
    · rw [hj]
    · rw [hj, hused]
      exact ⟨nofun, nofun⟩
    · rw [hj, hlock]
    · intro hk
      rcases hs.context hk with h | h <;> rw [hused] at h <;> cases h
    · rw [hj]
      exact .inl rfl
    · intro i' hi'
      rw [setProc_proc] at hi'
      split at hi'
      next => cases hi'
      next hne => exact absurd (hs.npInj hi' hnp) hne
    · exact fun _ => hs.bound (by rw [hused]; nofun)
  | @reap c i j hpc hlock hstate =>
    refine hs.touch rfl ?_ hlock (fun _ => .inr rfl) (.inl rfl) ?_ (fun h => absurd rfl h)
    · rw [hstate]
      exact ⟨nofun, nofun⟩
    · intro i' hi'
      have := hs.np hi'
      rw [hstate] at this
      cases this

end Inv

lemma run_inv {as : List Action} (hrun : run step boot as = some s) : s.Inv :=
  run_induction (P := fun _ s => s.Inv) hrun inv_boot fun _ _ _ _ hs h => hs.next (hs.step_cases h)

/-- A process has one CPU, and its context is loaded when no CPU is on its stack. -/
structure Exclusive (s : Machine) : Prop where
  /-- A process is the `c->proc` of at most one CPU. -/
  one : ∀ c d i, (s.cpu c).proc = some i → (s.cpu d).proc = some i → c = d
  /-- A process whose lock is free is `RUNNING` if it is the `c->proc` of some CPU, and only then. -/
  running : ∀ i, (s.proc i).lock = none →
    ((s.proc i).state = .running ↔ ∃ c, (s.cpu c).proc = some i)
  /-- When the scheduler loads a context, the CPU that stored it is off the stack. -/
  resume : ∀ c s', s.step (.swtch c) = some s' →
    ∃ i, (s'.cpu c).pc = .enter i ∧ ∀ d, (s.cpu d).pc.stack ≠ some i
  panic : s.panic = none

/-- However the scheduler loops, the calls and the interrupts interleave. -/
theorem one_cpu {as : List Action} (hrun : run step boot as = some s) : s.Exclusive := by
  have hs := run_inv hrun
  constructor
  case one =>
    intro c d i hc hd
    rw [hs.proc] at hc hd
    exact hs.one hc hd
  case running =>
    intro i hlock
    simp only [hs.running, hs.proc]
    constructor
    · rintro ⟨c, hc⟩
      exact ⟨c, Pc.busy_of_active hc⟩
    · rintro ⟨c, hc⟩
      refine ⟨c, Pc.active_of_busy hc fun hl => ?_⟩
      have := hs.lock.mpr hl
      rw [hlock] at this
      cases this
  case resume =>
    intro c s' h
    cases hs.step_cases h with
    | @swtch _ i hpc =>
      refine ⟨i, goto_pc .., fun d hd => ?_⟩
      cases hs.one (Pc.busy_of_stack hd) (by rw [hpc]; rfl : (s.cpu c).pc.busy = some i)
      rw [hpc] at hd
      cases hd
  case panic => exact hs.panic

/-- The first process yields on CPU 0, and CPU 1 picks it. -/
def yielded : List Action :=
  [.pick 0, .swtch 0, .resume 0, .acquire 0, .yield 0, .sched 0, .back 0, .done 0, .pick 1]

theorem one_cpu_yielded :
    ∃ s, run step boot yielded = some s ∧ (s.cpu 1).pc = .chosen 0 ∧ s.Exclusive := by
  obtain ⟨s, hs, hpc⟩ := Option.map_eq_some_iff.mp
    (by decide +kernel : (run step boot yielded).map (fun s => (s.cpu 1).pc) = some (.chosen 0))
  exact ⟨s, hs, hpc, one_cpu hs⟩

end Machine

/-! ## Every process gets its turn -/

/-- The slot that the scheduler of the CPU looks at next. -/
def Pc.next : Pc → Nat
  | .scan i => i
  | .chosen i | .enter i | .run i | .hold i | .leave i _ | .saved i | .back i => (i + 1) % nproc

namespace Machine

variable {s s' : Machine} {c i : Nat}

/-- The scheduler of CPU `c` looks at a slot. -/
def Action.looks (c : Nat) : Action → Bool
  | .pick d => d = c
  | _ => false

/-- The slots are looked at in turn, whatever happens in between. -/
lemma Step.next {a : Action} (h : s.Step a s') : (s'.cpu c).pc.next =
    if a.looks c then ((s.cpu c).pc.next + 1) % nproc else (s.cpu c).pc.next := by
  cases h with
  | @skip d i hpc | @pick d i hpc =>
    by_cases hd : c = d
    · subst hd
      simp [Action.looks, goto, hpc, Pc.next]
    · simp [Action.looks, goto, hd, Ne.symm hd]
  | @swtch d i hpc | @done d i hpc | @resume d i hpc | @acquire d i hpc | @yield d i hpc | @sleep d i _ hpc
  | @exit d i hpc | @sched d i _ hpc | @back d i hpc =>
    by_cases hd : c = d
    · subst hd
      simp [Action.looks, goto, hpc, Pc.next]
    · simp [Action.looks, goto, hd]
  | wakeup | kill | alloc | ready | reap => rfl

/-- A process that is `RUNNABLE` when the scheduler looks at it is chosen. -/
lemma pick_runnable (hpc : (s.cpu c).pc.next = i) (hi : (s.proc i).state = .runnable)
    (h : s.step (.pick c) = some s') : (s'.proc i).state = .running := by
  unfold step at h
  split at h
  · cases h
  · dsimp only [pick] at h
    split at h
    next j hj =>
      obtain rfl : j = i := by rwa [hj] at hpc
      split at h
      · cases h
      · cases h
        simp
    next => cases h

/-- The number of slots that are looked at before slot `i`. -/
def before (s : Machine) (c i : Nat) : Nat := (i + nproc - (s.cpu c).pc.next) % nproc

/-- A process that stays `RUNNABLE` is not passed over. -/
lemma looks_le_before {as : List Action} (hs : s.Inv) (hnext : (s.cpu c).pc.next < nproc) (hi : i < nproc)
    (hrun : run step s as = some s')
    (hstay : ∀ bs t, bs <+: as → run step s bs = some t → (t.proc i).state = .runnable) :
    as.countP (Action.looks c) ≤ s.before c i := by
  induction as generalizing s with
  | nil => exact Nat.zero_le _
  | cons a as ih =>
    obtain ⟨t, ht, hrest⟩ := run_cons.mp hrun
    have hstep := hs.step_cases ht
    have hmove := hstep.next (c := c)
    have hcount := ih (s := t) (hs.next hstep) ?_ hrest fun bs u hpre hu =>
      hstay (a :: bs) u (List.prefix_cons_inj a |>.mpr hpre) (run_cons.mpr ⟨t, ht, hu⟩)
    · unfold before at hcount ⊢
      rw [hmove] at hcount
      rw [List.countP_cons]
      by_cases hlook : a.looks c = true
      · rw [if_pos hlook] at hcount ⊢
        have hne : (s.cpu c).pc.next ≠ i := by
          intro heq
          have hstill := hstay [a] t (List.prefix_append [a] as) (run_cons.mpr ⟨t, ht, rfl⟩)
          cases a with
          | pick d =>
            obtain rfl : d = c := of_decide_eq_true hlook
            rw [pick_runnable heq (hstay [] s List.nil_prefix rfl) ht] at hstill
            cases hstill
          | _ => cases hlook
        unfold nproc at *
        omega
      · rw [if_neg hlook] at hcount ⊢
        exact hcount
    · rw [hmove]
      split
      · exact Nat.mod_lt _ (by decide)
      · exact hnext

lemma next_lt {as : List Action} (hrun : run step boot as = some s) (c : Nat) :
    (s.cpu c).pc.next < nproc := by
  refine (run_induction (P := fun _ s => s.Inv ∧ (s.cpu c).pc.next < nproc) hrun
    ⟨inv_boot, Nat.zero_lt_succ _⟩ ?_).2
  rintro _ t a t' ⟨ht, hlt⟩ h
  have hstep := ht.step_cases h
  refine ⟨ht.next hstep, ?_⟩
  rw [hstep.next]
  split
  · exact Nat.mod_lt _ (by decide)
  · exact hlt

/-- Round robin. While a process stays `RUNNABLE`, no CPU looks at as many slots as there are: in
one round of any scheduler loop the process is chosen by that CPU or by another. -/
theorem scheduler_fair {as bs : List Action} (hrun : run step boot as = some s)
    (hbs : run step s bs = some s')
    (hstay : ∀ bs' t, bs' <+: bs → run step s bs' = some t → (t.proc i).state = .runnable) (c : Nat) :
    bs.countP (Action.looks c) < nproc := by
  have hs := run_inv hrun
  have hi : i < nproc := hs.bound (by rw [hstay [] s List.nil_prefix rfl]; nofun)
  exact Nat.lt_of_le_of_lt (looks_le_before hs (next_lt hrun c) hi hbs hstay) (Nat.mod_lt _ (by decide))

/-- The first process has yielded, and CPU 0 looks at the slot behind it. -/
theorem scheduler_fair_yielded : ∃ s s', run step boot (yielded.take 8) = some s ∧
    run step s [.pick 0] = some s' ∧ [Action.pick 0].countP (Action.looks 0) < nproc := by
  obtain ⟨s, hs, hold⟩ := Option.map_eq_some_iff.mp (by decide +kernel :
    (run step boot (yielded.take 8)).map (fun s => (s.proc 0).state) = some .runnable)
  obtain ⟨s', hrun, hnew⟩ := Option.map_eq_some_iff.mp (by decide +kernel :
    (run step boot (yielded.take 8 ++ [.pick 0])).map (fun s => (s.proc 0).state) = some .runnable)
  obtain ⟨t, ht, hs'⟩ := run_append.mp hrun
  cases hs.symm.trans ht
  refine ⟨s, s', hs, hs', scheduler_fair (i := 0) hs hs' (fun bs t hbs ht => ?_) 0⟩
  rcases List.prefix_cons_iff.mp hbs with rfl | ⟨bs, rfl, hnil⟩
  · cases ht
    exact hold
  · cases List.prefix_nil.mp hnil
    cases hs'.symm.trans ht
    exact hnew

end Machine

end Xv6.Sched
