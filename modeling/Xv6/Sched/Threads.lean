import Xv6.Sched.Exclusive

/-!
# The programs of the threads

A program says which calls a thread makes, and in which order. It has to do with the calls that stop
the thread or let it go on; the other steps of the machine leave a thread where it is.
-/

namespace Xv6.Sched

open Function Lib ProcTable

namespace Machine

/-- The CPU whose thread takes part in the step. -/
def Action.own : Action → Option Nat
  | .resume c | .acquire c | .yield c | .sleep c _ | .exit c => some c
  | _ => none

/-- The slot that a new thread starts in. -/
def Action.born : Action → Option Nat
  | .alloc _ j => some j
  | _ => none

end Machine

/-- Where a thread is after a step that it takes part in. -/
structure Program (τ : Type) where
  start : τ
  next : τ → Machine.Action → Option τ

section

variable {τ : Type} (P : Program τ)

/-- A step of the machine, and of the thread that takes part in it. -/
def Program.step (m : Machine) (thread : Nat → τ) (a : Machine.Action) : Option (Machine × (Nat → τ)) :=
  (m.step a).bind fun m' =>
    match a.own, a.born with
    | some c, _ =>
      match (m.cpu c).pc.busy with
      | some i => (P.next (thread i) a).map fun t => (m', update thread i t)
      | none => none
    | none, some j => some (m', update thread j P.start)
    | none, none => some (m', thread)

variable {P} {m m' : Machine} {thread thread' : Nat → τ} {a : Machine.Action}

lemma Program.step_machine (h : P.step m thread a = some (m', thread')) : m.step a = some m' := by
  obtain ⟨m₁, h₁, h⟩ := Option.bind_eq_some_iff.mp h
  suffices he : m₁ = m' by rw [h₁, he]
  split at h
  next =>
    split at h
    next =>
      obtain ⟨t, -, ht⟩ := Option.map_eq_some_iff.mp h
      cases ht
      rfl
    next => cases h
  next =>
    cases h
    rfl
  next =>
    cases h
    rfl

/-- The thread of a process goes on in a step that it takes part in, and is new in `allocproc`. -/
lemma Program.step_thread (h : P.step m thread a = some (m', thread')) (i : Nat) :
    (∃ c, a.own = some c ∧ (m.cpu c).pc.busy = some i ∧ P.next (thread i) a = some (thread' i)) ∨
    (a.born = some i ∧ thread' i = P.start) ∨
    ((∀ c, a.own = some c → (m.cpu c).pc.busy ≠ some i) ∧ thread' i = thread i) := by
  obtain ⟨m₁, h₁, h⟩ := Option.bind_eq_some_iff.mp h
  split at h
  next _ _ c hown =>
    split at h
    next j hb =>
      obtain ⟨t, hn, ht⟩ := Option.map_eq_some_iff.mp h
      cases ht
      by_cases hij : i = j
      · subst hij
        rw [update_self]
        exact .inl ⟨c, hown, hb, hn⟩
      · rw [update_of_ne hij]
        refine .inr (.inr ⟨?_, rfl⟩)
        intro d hd hb'
        rw [hown] at hd
        cases hd
        rw [hb] at hb'
        cases hb'
        exact hij rfl
    next => cases h
  next _ _ j hown hborn =>
    cases h
    by_cases hij : i = j
    · subst hij
      rw [update_self]
      exact .inr (.inl ⟨hborn, rfl⟩)
    · rw [update_of_ne hij]
      refine .inr (.inr ⟨?_, rfl⟩)
      rw [hown]
      nofun
  next _ _ hown hborn =>
    cases h
    refine .inr (.inr ⟨?_, rfl⟩)
    rw [hown]
    nofun

end

namespace Machine

variable {s s' : Machine} {a : Action} {c i : Nat}

/-- The CPU that does the step. -/
def Action.cpu : Action → Nat
  | .pick c | .swtch c | .done c | .resume c | .acquire c | .yield c | .sleep c _ | .exit c | .sched c | .back c
  | .wakeup c _ _ | .kill c _ | .alloc c _ | .ready c | .reap c _ => c

/-- The other CPUs stay where they are. -/
lemma Step.cpu_of_ne (h : s.Step a s') (hc : c ≠ a.cpu) : s'.cpu c = s.cpu c := by
  cases h <;> first | rfl | exact update_of_ne hc ..

/-- A CPU that is in a thread stays there, except for the calls that the thread takes part in. -/
lemma Step.cpu_of_own (h : s.Step a s') (hpc : (s.cpu c).pc = .run i ∨ (s.cpu c).pc = .hold i)
    (hown : a.own ≠ some c) : s'.cpu c = s.cpu c := by
  by_cases hc : c = a.cpu
  · subst hc
    cases h with
    | resume | acquire | yield | sleep | exit => exact absurd rfl hown
    | wakeup | kill | alloc | ready | reap => rfl
    | _ hpc' => rcases hpc with h | h <;> cases hpc'.symm.trans h
  · exact h.cpu_of_ne hc

/-- A slot changes, and it does not go to sleep. -/
lemma setProc_sleeping {j : Nat} {p : Proc}
    (hp : p.state = .sleeping → (s.proc j).state = .sleeping ∧ p.chan = (s.proc j).chan)
    (hi : ((s.setProc j p).proc i).state = .sleeping) :
    (s.proc i).state = .sleeping ∧ ((s.setProc j p).proc i).chan = (s.proc i).chan := by
  rw [setProc_proc] at hi ⊢
  split at hi
  next hij =>
    subst hij
    rw [if_pos rfl]
    exact hp hi
  next hij =>
    rw [if_neg hij]
    exact ⟨hi, rfl⟩

/-- A process goes to sleep in `sleep` only. -/
lemma Inv.sleeping (hs : s.Inv) (h : s.Step a s') (hi : (s'.proc i).state = .sleeping) :
    ((s.proc i).state = .sleeping ∧ (s'.proc i).chan = (s.proc i).chan) ∨
      ∃ c chan, a = .sleep c chan ∧ (s.cpu c).pc = .hold i ∧ (s'.proc i).chan = some chan := by
  cases h with
  | skip | swtch | back => exact .inl ⟨hi, rfl⟩
  | pick | yield | exit | reap => exact .inl (setProc_sleeping nofun hi)
  | done | acquire | sched => exact .inl (setProc_sleeping (fun h => ⟨h, rfl⟩) hi)
  | @resume c j hpc =>
    refine .inl (setProc_sleeping (fun h => ?_) hi)
    have hrun : (s.proc j).state = .running := hs.running.mpr ⟨c, by rw [hpc]; rfl⟩
    cases hrun.symm.trans h
  | @sleep c j chan hpc =>
    by_cases hij : i = j
    · subst hij
      refine .inr ⟨c, chan, rfl, hpc, ?_⟩
      show ((s.setProc i _).proc i).chan = _
      rw [setProc_proc, if_pos rfl]
    · left
      change ((s.setProc j _).proc i).state = _ at hi
      show _ ∧ ((s.setProc j _).proc i).chan = _
      rw [setProc_proc, if_neg hij] at hi ⊢
      exact ⟨hi, rfl⟩
  | wakeup =>
    refine .inl (setProc_sleeping (fun h => ?_) hi)
    unfold Proc.wakeup at h ⊢
    split at h
    next => cases h
    next hg =>
      rw [if_neg hg]
      exact ⟨h, rfl⟩
  | @kill c j j' =>
    refine .inl (setProc_sleeping (fun h => ?_) hi)
    unfold Proc.kill at h
    split at h
    next => cases h
    next hg => exact absurd h hg
  | @alloc c j j' hpc hnp hlt hlock hstate =>
    left
    rw [setProc_proc] at hi ⊢
    split at hi
    next hij =>
      subst hij
      rw [if_pos rfl]
      exact ⟨hi, rfl⟩
    next hij =>
      rw [if_neg hij]
      exact setProc_sleeping nofun hi
  | @ready c j j' hpc hnp hlock =>
    left
    rw [setProc_proc] at hi ⊢
    split at hi
    next => cases hi
    next hij =>
      rw [if_neg hij]
      exact setProc_sleeping (fun h => ⟨h, rfl⟩) hi

/-- The process of a thread that makes a call is `RUNNING`. -/
lemma Inv.own_running (hs : s.Inv) (h : s.Step a s') (hown : a.own = some c)
    (hb : (s.cpu c).pc.busy = some i) : (s.proc i).state = .running := by
  suffices hact : (s.cpu c).pc.active = some i from hs.running.mpr ⟨c, hact⟩
  cases h with
  | resume hpc | acquire hpc | yield hpc | sleep hpc | exit hpc =>
    cases hown
    rw [hpc] at hb ⊢
    exact hb
  | _ => cases hown

/-- A new thread has a slot that was `UNUSED`. -/
lemma Step.born (h : s.Step a s') (hborn : a.born = some i) : (s.proc i).state = .unused := by
  cases h with
  | alloc _ _ _ _ hstate =>
    cases hborn
    exact hstate
  | _ => cases hborn

lemma setProc_killed {j : Nat} {p : Proc} (hi : ((s.setProc j p).proc i).killed = true)
    (hp : p.killed = (s.proc j).killed) : (s.proc i).killed = true := by
  rw [setProc_proc] at hi
  split at hi
  next hij =>
    rw [hij, ← hp]
    exact hi
  next => exact hi

/-- `killed` is set in `kill` only. -/
lemma Step.killed (h : s.Step a s') (hi : (s'.proc i).killed = true) :
    (s.proc i).killed = true ∨ ∃ c, a = .kill c i ∧ (s.proc i).lock = none := by
  cases h with
  | @kill c j k hpc hlock =>
    by_cases hik : i = k
    · subst hik
      exact .inr ⟨c, rfl, hlock⟩
    · rw [setProc_proc, if_neg hik] at hi
      exact .inl hi
  | skip | swtch | back => exact .inl hi
  | pick | done | resume | acquire | yield | sleep | exit | sched => exact .inl (setProc_killed hi rfl)
  | wakeup =>
    refine .inl (setProc_killed hi ?_)
    unfold Proc.wakeup
    split <;> rfl
  | @alloc c j k =>
    rw [setProc_proc] at hi
    split at hi
    next hij =>
      rw [hij]
      exact .inl hi
    next => exact .inl (setProc_killed hi rfl)
  | @ready c j k =>
    rw [setProc_proc] at hi
    split at hi
    next hik =>
      rw [hik]
      exact .inl hi
    next => exact .inl (setProc_killed hi rfl)
  | @reap c j k =>
    rw [setProc_proc] at hi
    split at hi
    next => cases hi
    next => exact .inl hi

end Machine

/-- A thread that takes no part in the step stays where it is. -/
lemma Program.step_cpu {τ : Type} {P : Program τ} {m m' : Machine} {thread thread' : Nat → τ}
    {a : Machine.Action} {c i : Nat} (hm : m.Inv) (h : P.step m thread a = some (m', thread'))
    (hown : ∀ c, a.own = some c → (m.cpu c).pc.busy ≠ some i)
    (hpc : (m.cpu c).pc = .run i ∨ (m.cpu c).pc = .hold i) : (m'.cpu c).pc = (m.cpu c).pc := by
  rw [(hm.step_cases (Program.step_machine h)).cpu_of_own hpc]
  intro hc
  refine hown c hc ?_
  rcases hpc with hpc | hpc <;> rw [hpc] <;> rfl

end Xv6.Sched
