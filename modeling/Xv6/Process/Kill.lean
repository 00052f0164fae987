import Xv6.Process.Permissions
import Xv6.Process.Slotwise

/-!
# Whom `kill` kills

`kill` looks for a pid, not for a process: it does not look at the state of a slot. A slot
that is not in use has pid 0, so `kill(0)` finds one. It sets the flag `killed` there, which
`allocproc` does not clear.

Only `freeproc` makes a slot unused, and it clears the pid and the flag. So as long as nobody
calls `kill(0)` while a slot is unused, an unused slot has no flag, and a pid other than 0 is that
of a process.
-/

namespace Xv6.Process

open Function Lib Keeps Mem

/-! ## Calls that kill nobody -/

/-- An unused slot has no pid and no flag, and the slots of `U` have no flag. -/
def Clean (U : Nat → Prop) (K : Kernel) : Prop :=
  ∀ q, ((K.proc q).state = .unused → (K.proc q).pid = 0 ∧ (K.proc q).killed = false) ∧
    (U q → (K.proc q).killed = false)

/-- The slot that changes is still clean. -/
lemma Clean.setProc {U : Nat → Prop} {K : Kernel} (h : Clean U K) {p : Nat} {pr : Proc}
    (hfree : pr.state = .unused → pr.pid = 0 ∧ pr.killed = false) (hflag : U p → pr.killed = false) :
    Clean U (K.setProc p pr) := by
  intro q
  by_cases hq : q = p
  · subst hq
    simp only [Kernel.setProc, update_self]
    exact ⟨hfree, hflag⟩
  · simp only [Kernel.setProc, update_of_ne hq]
    exact h q

/-- What was clean is clean. -/
def CleanKept (K K' : Kernel) : Prop := ∀ U, Clean U K → Clean U K'

instance cleanKept_refl : Std.Refl CleanKept := ⟨fun _ _ h => h⟩

instance cleanKept_trans : IsTrans Kernel CleanKept := ⟨fun _ _ _ h h' U hU => h' U (h U hU)⟩

/-- The program sets no flag, and it clears the pid and the flag of a slot that it frees. -/
def Tidy {α : Type} (m : KernelM α) : Prop := Leaves CleanKept m

lemma slotwise_cleanKept : Slotwise CleanKept where
  phys _ _ _ h := h
  proc K p pr hsame U h := by
    refine h.setProc ?_ ?_
    · rw [hsame.state, hsame.pid, hsame.killed]
      exact (h p).1
    · rw [hsame.killed]
      exact (h p).2
  free _ _ _ _ hpid hkilled _ _ h := h.setProc (fun _ => ⟨hpid, hkilled⟩) fun _ => hkilled

lemma tidy_onPhys {α : Type} (m : PhysM α) : Tidy (onPhys m) := slotwise_cleanKept.onPhys m

/-- A change of the other fields. -/
lemma tidy_modifyProc (p : Nat) {g : Proc → Proc} (hstate : ∀ pr, (g pr).state = pr.state)
    (hpid : ∀ pr, (g pr).pid = pr.pid) (hkilled : ∀ pr, (g pr).killed = pr.killed) :
    Tidy (modifyProc p g) := by
  refine keeps_modify fun K U h => h.setProc ?_ ?_
  · rw [hstate, hpid, hkilled]
    exact (h p).1
  · rw [hkilled]
    exact (h p).2

/-- A slot gets into use, or stays there. -/
lemma tidy_setState (p : Nat) {g : Proc → Proc} (hstate : ∀ pr, (g pr).state ≠ .unused)
    (hkilled : ∀ pr, (g pr).killed = pr.killed) : Tidy (modifyProc p g) := by
  refine keeps_modify fun K U h => h.setProc (fun hc => absurd hc (hstate _)) ?_
  rw [hkilled]
  exact (h p).2

lemma tidy_modifyFile (f : Nat) (g : File → File) : Tidy (modifyFile f g) :=
  keeps_modify fun _ _ h => h

/-! ### Files -/

section

variable [Layout]

section

omit [Layout]

lemma tidy_filealloc : Tidy filealloc := by
  refine bind keeps_get fun K => ?_
  split
  next => exact keeps_pure _
  next => exact (tidy_modifyFile _ _).bind fun _ => keeps_pure _

lemma tidy_filedup (f : Nat) : Tidy (filedup f) :=
  bind keeps_get fun _ => Leaves.ite (keeps_throw trivial) (tidy_modifyFile _ _)

lemma tidy_setFd (p : Nat) (g : (Nat → Option Nat) → Nat → Option Nat) :
    Tidy (modifyProc p fun pr => { pr with ofile := g pr.ofile }) :=
  tidy_modifyProc p (fun _ => rfl) (fun _ => rfl) fun _ => rfl

lemma tidy_fdalloc (p f : Nat) : Tidy (fdalloc p f) := by
  refine (leaves_getProc p).bind fun pr => ?_
  split
  next => exact keeps_pure _
  next fd _ => exact (tidy_setFd p fun ofile => update ofile fd (some f)).bind fun _ => keeps_pure _

lemma tidy_clearFd (p fd : Nat) : Tidy (clearFd p fd) :=
  tidy_setFd p fun ofile => update ofile fd none

lemma tidy_argfd (p : Nat) (fd : Int) : Tidy (argfd p fd) := by
  refine (leaves_getProc p).bind fun pr => Leaves.ite (keeps_pure _) ?_
  split
  next => exact keeps_pure _
  next => exact keeps_pure _

lemma tidy_sysDup (p : Nat) (n : Int) : Tidy (sysDup p n) := by
  refine (tidy_argfd p n).bind fun r => ?_
  match r with
  | none => exact keeps_pure _
  | some (_, f) =>
    refine (tidy_fdalloc p f).bind fun fd => ?_
    cases fd with
    | none => exact keeps_pure _
    | some fd => exact (tidy_filedup f).bind fun _ => keeps_pure _

end

lemma tidy_fileclose (f : Nat) : Tidy (fileclose f) := by
  refine bind keeps_get fun K => Leaves.ite (keeps_throw trivial) (Leaves.ite (tidy_modifyFile _ _) ?_)
  exact (tidy_modifyFile _ _).bind fun _ => Leaves.ite (tidy_onPhys _) (keeps_pure _)

lemma tidy_pipeallocBad (f0 f1 : Option Nat) : Tidy (pipeallocBad f0 f1) := by
  unfold pipeallocBad
  refine bind ?_ fun _ => bind ?_ fun _ => keeps_pure _
  · cases f0 with
    | none => exact keeps_pure _
    | some f => exact tidy_fileclose f
  · cases f1 with
    | none => exact keeps_pure _
    | some f => exact tidy_fileclose f

lemma tidy_pipealloc : Tidy pipealloc := by
  refine tidy_filealloc.bind fun f0 => ?_
  cases f0 with
  | none => exact tidy_pipeallocBad _ _
  | some f0 =>
    refine tidy_filealloc.bind fun f1 => ?_
    cases f1 with
    | none => exact tidy_pipeallocBad _ _
    | some f1 =>
      refine (tidy_onPhys _).bind fun pi => Leaves.ite (tidy_pipeallocBad _ _) ?_
      refine (tidy_onPhys _).bind fun _ => (tidy_onPhys _).bind fun _ => (tidy_onPhys _).bind fun _ => ?_
      refine (tidy_onPhys _).bind fun _ => (tidy_modifyFile _ _).bind fun _ => ?_
      exact (tidy_modifyFile _ _).bind fun _ => keeps_pure _

lemma tidy_sysClose (p : Nat) (n : Int) : Tidy (sysClose p n) := by
  refine (tidy_argfd p n).bind fun r => ?_
  match r with
  | none => exact keeps_pure _
  | some (fd, f) => exact (tidy_clearFd p fd).bind fun _ => (tidy_fileclose f).bind fun _ => keeps_pure _

lemma tidy_sysPipeBad (rf wf : Nat) : Tidy (sysPipeBad rf wf) :=
  (tidy_fileclose rf).bind fun _ => (tidy_fileclose wf).bind fun _ => keeps_pure _

lemma tidy_sysPipe (p fdarray : Nat) : Tidy (sysPipe p fdarray) := by
  refine tidy_pipealloc.bind fun r => ?_
  match r with
  | none => exact keeps_pure _
  | some (rf, wf) =>
    refine (tidy_fdalloc p rf).bind fun fd0 => ?_
    cases fd0 with
    | none => exact tidy_sysPipeBad rf wf
    | some fd0 =>
      refine (tidy_fdalloc p wf).bind fun fd1 => ?_
      cases fd1 with
      | none => exact (tidy_clearFd p fd0).bind fun _ => tidy_sysPipeBad rf wf
      | some fd1 =>
        refine (leaves_getProc p).bind fun pr => (tidy_onPhys _).bind fun r0 => ?_
        refine (Leaves.ite (keeps_pure _) (tidy_onPhys _)).bind fun r1 => Leaves.ite ?_ (keeps_pure _)
        exact (tidy_clearFd p fd0).bind fun _ => (tidy_clearFd p fd1).bind fun _ => tidy_sysPipeBad rf wf

/-! ### Processes -/

section

omit [Layout]

lemma tidy_dupRounds (p np fd n : Nat) : Tidy (dupRounds p np fd n) := by
  induction n generalizing fd with
  | zero => exact keeps_pure _
  | succ n ih =>
    refine (leaves_getProc p).bind fun pr => bind ?_ fun _ => ih (fd + 1)
    split
    next => exact keeps_pure _
    next f _ =>
      exact (tidy_filedup f).bind fun _ => tidy_setFd np fun ofile => update ofile fd (some f)

lemma tidy_reparent (p : Nat) : Tidy (reparent p) := by
  refine keeps_modify fun K U h q => ?_
  have hsame : (K.adopt p q).state = (K.proc q).state ∧ (K.adopt p q).pid = (K.proc q).pid ∧
      (K.adopt p q).killed = (K.proc q).killed := by
    unfold Kernel.adopt
    split
    · exact ⟨rfl, rfl, rfl⟩
    · exact ⟨rfl, rfl, rfl⟩
  show ((K.adopt p q).state = .unused → _) ∧ (U q → (K.adopt p q).killed = false)
  rw [hsame.1, hsame.2.1, hsame.2.2]
  exact h q

end

lemma tidy_allocproc : Tidy allocproc := by
  refine bind keeps_get fun K => ?_
  split
  next => exact keeps_pure _
  next p _ =>
    refine bind (bind keeps_get fun _ => bind (keeps_modify fun K U h => h) fun _ => keeps_pure _) fun pid => ?_
    refine bind (tidy_setState p ?_ fun _ => rfl) fun _ => (tidy_onPhys _).bind fun trapframe => ?_
    · rintro _ ⟨⟩
    refine bind (tidy_modifyProc p (fun _ => rfl) (fun _ => rfl) fun _ => rfl) fun _ => ?_
    refine Leaves.ite ((slotwise_cleanKept.freeproc p).bind fun _ => keeps_pure _) ?_
    refine (tidy_onPhys _).bind fun pagetable => ?_
    refine bind (tidy_modifyProc p (fun _ => rfl) (fun _ => rfl) fun _ => rfl) fun _ => ?_
    exact Leaves.ite ((slotwise_cleanKept.freeproc p).bind fun _ => keeps_pure _) (keeps_pure _)

lemma tidy_fork (p : Nat) : Tidy (fork p) := by
  refine tidy_allocproc.bind fun np => ?_
  cases np with
  | none => exact keeps_pure _
  | some np =>
    refine (leaves_getProc p).bind fun pr => (leaves_getProc np).bind fun npr => ?_
    refine (tidy_onPhys _).bind fun r => Leaves.ite
      ((slotwise_cleanKept.freeproc np).bind fun _ => keeps_pure _) ?_
    refine bind (tidy_modifyProc np (fun _ => rfl) (fun _ => rfl) fun _ => rfl) fun _ => ?_
    refine (tidy_onPhys _).bind fun _ => (tidy_onPhys _).bind fun _ => (tidy_dupRounds p np 0 _).bind fun _ => ?_
    refine bind (tidy_modifyProc np (fun _ => rfl) (fun _ => rfl) fun _ => rfl) fun _ => ?_
    refine bind (tidy_setState np ?_ fun _ => rfl) fun _ => keeps_pure _
    rintro _ ⟨⟩

lemma tidy_closeRounds (p fd n : Nat) : Tidy (closeRounds p fd n) := by
  induction n generalizing fd with
  | zero => exact keeps_pure _
  | succ n ih =>
    refine (leaves_getProc p).bind fun pr => bind ?_ fun _ => ih (fd + 1)
    split
    next => exact keeps_pure _
    next f _ => exact (tidy_fileclose f).bind fun _ => tidy_clearFd p fd

lemma tidy_exit (p : Nat) (status : Int) : Tidy (exit p status) := by
  refine bind keeps_get fun K => Leaves.ite (keeps_throw trivial) ?_
  refine (tidy_closeRounds p 0 _).bind fun _ => (tidy_reparent p).bind fun _ => tidy_setState p ?_ fun _ => rfl
  rintro _ ⟨⟩

lemma tidy_userinit : Tidy userinit := by
  refine tidy_allocproc.bind fun p => ?_
  cases p with
  | none => exact keeps_throw trivial
  | some p =>
    refine bind (keeps_modify fun K U h => h) fun _ => (leaves_getProc p).bind fun pr => (tidy_onPhys _).bind fun _ => ?_
    refine bind (tidy_modifyProc p (fun _ => rfl) (fun _ => rfl) fun _ => rfl) fun _ => ?_
    refine (tidy_onPhys _).bind fun _ => (tidy_onPhys _).bind fun _ => tidy_setState p ?_ fun _ => rfl
    rintro _ ⟨⟩

/-! ## Runs -/

/-- What happens: a call, or a process falls asleep or wakes up. -/
inductive Event where
  | call (c : Call)
  | sleep (p : Nat)
  | wakeup (p : Nat)

/-- One event. -/
def Event.step (K : Kernel) : Event → Option Kernel
  | call c => Process.step K c
  | sleep p =>
    if (K.proc p).state = .runnable then some (K.setProc p { K.proc p with state := .sleeping }) else none
  | wakeup p =>
    if (K.proc p).state = .sleeping then some (K.setProc p { K.proc p with state := .runnable }) else none

variable {K K' K₀ : Kernel} {A : List Nat}

section

omit [Layout]

/-- A pid that no unused slot has. -/
def Named (pid : Int) (K : Kernel) : Prop := pid ≠ 0 ∨ ∀ q < nproc, (K.proc q).state ≠ .unused

/-- The process that `kill` finds has the pid, and it is not unused. -/
lemma Clean.find {U : Nat → Prop} (h : Clean U K) {pid : Int} (hpid : Named pid K) {q : Nat}
    (hlt : q < nproc) (hq : (K.proc q).pid = pid) : (K.proc q).state ≠ .unused :=
  hpid.elim (fun hne hc => hne (hq.symm.trans ((h q).1 hc).1)) fun hfull => hfull q hlt

/-- What `kill` does to the process that it finds. -/
def Proc.kill (pr : Proc) : Proc :=
  { pr with killed := true, state := if pr.state = .sleeping then .runnable else pr.state }

lemma Proc.kill_state {pr : Proc} (h : pr.state ≠ .unused) : pr.kill.state ≠ .unused := by
  unfold Proc.kill
  dsimp only
  split
  · rintro ⟨⟩
  · exact h

/-- What `kill` returns, and what it changes. -/
lemma kill_eq (K : Kernel) (pid : Int) :
    (∃ q < nproc, (K.proc q).pid = pid ∧ kill pid K = .ok (0, K.setProc q (K.proc q).kill)) ∨
      (∀ q < nproc, (K.proc q).pid ≠ pid) ∧ kill pid K = .ok (-1, K) := by
  unfold kill
  rw [bind_of_ok rfl]
  cases hfind : (List.range nproc).find? fun p => (K.proc p).pid = pid with
  | none =>
    refine .inr ⟨fun q hq he => ?_, rfl⟩
    have hnone := List.find?_eq_none.mp hfind q (List.mem_range.mpr hq)
    simp [he] at hnone
  | some q =>
    have hq := List.find?_some hfind
    exact .inl ⟨q, List.mem_range.mp (List.mem_of_find?_eq_some hfind), of_decide_eq_true hq, rfl⟩

lemma clean_kill {r pid : Int} (h : Clean (fun _ => False) K) (hpid : Named pid K)
    (hrun : kill pid K = .ok (r, K')) : Clean (fun _ => False) K' := by
  rcases kill_eq K pid with ⟨q, hlt, hq, hkill⟩ | ⟨-, hkill⟩
  · rw [hkill] at hrun
    cases hrun
    exact h.setProc (fun hc => absurd hc (Proc.kill_state (h.find hpid hlt hq))) fun hc => hc.elim
  · rw [hkill] at hrun
    cases hrun
    exact h

end

/-- The calls other than `kill`. -/
lemma tidy_call {c : Call} (hc : ∀ p pid, c ≠ .kill p pid) : Tidy c.run := by
  cases c with
  | fork p => exact (tidy_fork p).bind fun _ => keeps_pure _
  | exec p namei upath uargv =>
    exact (slotwise_cleanKept.sysExec p namei upath uargv).bind fun _ => keeps_pure _
  | sbrk p n => exact (slotwise_cleanKept.sysSbrk p n).bind fun _ => keeps_pure _
  | exit p status => exact tidy_exit p status
  | wait p addr => exact (slotwise_cleanKept.wait p addr).bind fun _ => keeps_pure _
  | pipe p fdarray => exact (tidy_sysPipe p fdarray).bind fun _ => keeps_pure _
  | dup p fd => exact (tidy_sysDup p fd).bind fun _ => keeps_pure _
  | close p fd => exact (tidy_sysClose p fd).bind fun _ => keeps_pure _
  | kill p pid => exact absurd rfl (hc p pid)
  | store p va bs => exact (leaves_getProc p).bind fun _ => (tidy_onPhys _).bind fun _ => keeps_pure _

lemma clean_call {c : Call} (h : Clean (fun _ => False) K) (hc : ∀ p pid, c = .kill p pid → Named pid K)
    (hstep : step K c = some K') : Clean (fun _ => False) K' := by
  unfold step at hstep
  split at hstep
  next =>
    split at hstep
    next x K₁ hrun =>
      cases hstep
      by_cases hkill : ∃ p pid, c = .kill p pid
      · obtain ⟨p, pid, rfl⟩ := hkill
        have hends : Ends (Call.kill p pid).run K (fun _ => Clean fun _ => False) fun _ => True := by
          refine Ends.bind (Q := fun _ => Clean fun _ => False) ?_ fun _ _ hs => ends_pure hs
          rcases hres : kill pid K with e | ⟨r, K₂⟩
          · rw [Ends, hres]
            trivial
          · rw [Ends, hres]
            exact clean_kill h (hc p pid rfl) hres
        exact hends.ok hrun
      · push Not at hkill
        exact (tidy_call hkill K).ok hrun _ h
    next => cases hstep
  next => cases hstep

lemma clean_event {e : Event} (h : Clean (fun _ => False) K)
    (he : ∀ p pid, e = .call (.kill p pid) → Named pid K)
    (hstep : e.step K = some K') : Clean (fun _ => False) K' := by
  cases e with
  | call c => exact clean_call h (fun p pid hc => he p pid (by rw [hc])) hstep
  | sleep p | wakeup p =>
    obtain ⟨-, hK'⟩ := Option.ite_none_right_eq_some.mp hstep
    cases hK'
    exact h.setProc (fun hc => by cases hc) (h p).2

lemma clean_start (M : Machine) (hstart : M.start = .ok (A, K₀)) : Clean (fun _ => False) K₀ := by
  obtain ⟨A', K, -, hboot, -, -, hproc⟩ := M.boot_spec
  have hfresh : Clean (fun _ => False) K := by
    intro q
    rw [hproc]
    exact ⟨fun _ => ⟨rfl, rfl⟩, fun hc => hc.elim⟩
  unfold Machine.start at hstart
  rw [hboot] at hstart
  change (userinit K >>= _) = _ at hstart
  cases hinit : userinit K with
  | error e =>
    rw [hinit] at hstart
    cases hstart
  | ok y =>
    rw [hinit] at hstart
    cases hstart
    exact (tidy_userinit K).ok hinit _ hfresh

/-- No call of the run is a `kill(0)` while a slot is unused. -/
def NoStray (K₀ : Kernel) (es : List Event) : Prop :=
  ∀ bs p cs K, es = bs ++ .call (.kill p 0) :: cs → run Event.step K₀ bs = some K →
    ∀ q < nproc, (K.proc q).state ≠ .unused

lemma clean_run (M : Machine) {es : List Event} (hstart : M.start = .ok (A, K₀))
    (hrun : run Event.step K₀ es = some K) (hes : NoStray K₀ es) : Clean (fun _ => False) K := by
  refine (run_induction (P := fun bs K => run Event.step K₀ bs = some K ∧ (NoStray K₀ bs → Clean (fun _ => False) K))
    hrun ⟨rfl, fun _ => clean_start M hstart⟩ ?_).2 hes
  rintro bs K e K' ⟨hbs, ih⟩ hstep
  refine ⟨run_concat.mpr ⟨K, hbs, hstep⟩, fun hno => ?_⟩
  have hclean := ih fun as p cs K₁ he => hno as p (cs ++ [e]) K₁ (by simp [he])
  refine clean_event hclean (fun p pid he => ?_) hstep
  by_cases hpid : pid = 0
  · subst hpid
    exact .inr (hno bs p [] K (by rw [he]) hbs)
  · exact .inl hpid

/-- In every run without a `kill(0)` while a slot is unused, `kill` of another pid (or of any, if no
slot is unused) sets the flag of the process that has the pid and wakes it up, or returns -1 and
changes nothing, and `fork` makes processes without the flag. -/
theorem kill_exact (M : Machine) {es : List Event} (hstart : M.start = .ok (A, K₀))
    (hrun : run Event.step K₀ es = some K) (hes : NoStray K₀ es) :
    (∀ pid, Named pid K → ∃ r K', kill pid K = .ok (r, K') ∧
      (r = 0 ↔ ∃ q < nproc, (K.proc q).state ≠ .unused ∧ (K.proc q).pid = pid) ∧
      (r = 0 → ∃ q < nproc, (K.proc q).state ≠ .unused ∧ (K.proc q).pid = pid ∧
        K' = K.setProc q (K.proc q).kill) ∧
      (r ≠ 0 → r = -1 ∧ K' = K)) ∧
    ∀ p r K', fork p K = .ok (r, K') → ∀ q, (K.proc q).state = .unused →
      (K'.proc q).state ≠ .unused → (K'.proc q).killed = false := by
  have hclean := clean_run M hstart hrun hes
  constructor
  · intro pid hpid
    rcases kill_eq K pid with ⟨q, hlt, hq, hkill⟩ | ⟨hnone, hkill⟩
    · have hlive := hclean.find hpid hlt hq
      exact ⟨0, _, hkill, ⟨fun _ => ⟨q, hlt, hlive, hq⟩, fun _ => rfl⟩, fun _ => ⟨q, hlt, hlive, hq, rfl⟩,
        fun hne => absurd rfl hne⟩
    · refine ⟨-1, K, hkill, ⟨fun hc => absurd hc (by decide), ?_⟩, fun hc => absurd hc (by decide),
        fun _ => ⟨rfl, rfl⟩⟩
      rintro ⟨q, hlt, -, hq⟩
      exact absurd hq (hnone q hlt)
  · intro p r K' hfork q hunused _
    have hU : Clean (fun q => (K.proc q).state = .unused) K :=
      fun q => ⟨(hclean q).1, fun hq => ((hclean q).1 hq).2⟩
    exact ((tidy_fork p K).ok hfork _ hU q).2 hunused

end

/-! ## Nobody has pid 0 -/

/-- The first process calls `kill(0)` and then `fork`: whether `kill` returns 0 although no
process has that pid, and the new process has the flag. -/
def zeroKills : Bool :=
  letI := Process.crowded
  match Machine.sixteen.start with
  | .error _ => false
  | .ok (_, K₀) =>
    match kill 0 K₀ with
    | .ok (0, K₁) =>
      match fork 0 K₁ with
      | .ok (_, K₂) =>
        ((List.range nproc).all fun q => (K₀.proc q).state = .unused || (K₀.proc q).pid != 0) &&
          ((K₁.proc 1).state = .unused && (K₂.proc 1).state != .unused && (K₂.proc 1).killed)
      | .error _ => false
    | _ => false

/-- `kill(0)` returns 0 although no process has that pid, and kills the next process that is
made. -/
theorem kill_zero :
    letI := Process.crowded
    ∃ A K₀ K₁ r K₂, Machine.sixteen.start = .ok (A, K₀) ∧ kill 0 K₀ = .ok (0, K₁) ∧
      fork 0 K₁ = .ok (r, K₂) ∧
      (∀ q < nproc, (K₀.proc q).state ≠ .unused → (K₀.proc q).pid ≠ 0) ∧
      (K₁.proc 1).state = .unused ∧ (K₂.proc 1).state ≠ .unused ∧ (K₂.proc 1).killed = true := by
  let _ := Process.crowded
  have hzero : zeroKills = true := by decide +kernel
  unfold zeroKills at hzero
  split at hzero
  next => cases hzero
  next A K₀ hstart =>
    split at hzero
    next K₁ hkill =>
      split at hzero
      next r K₂ hfork =>
        simp only [Bool.and_eq_true, List.all_eq_true, List.mem_range, Bool.or_eq_true, decide_eq_true_eq,
          bne_iff_ne] at hzero
        obtain ⟨hpid, ⟨hfree, hlive⟩, hkilled⟩ := hzero
        exact ⟨A, K₀, K₁, r, K₂, hstart, hkill, hfork, fun q hq hne => (hpid q hq).resolve_left hne, hfree,
          hlive, hkilled⟩
      next => cases hzero
    next => cases hzero

/-- The first process forks, and its child kills it. -/
def forksKills : List Event := [.call (.fork 0), .call (.kill 1 1)]

/-- The child is there, with pid 2 and without the flag. -/
def childLives : Bool :=
  letI := Process.crowded
  match Machine.sixteen.start with
  | .error _ => false
  | .ok (_, K₀) =>
    match run Event.step K₀ forksKills with
    | some K => (K.proc 1).state != .unused && (K.proc 1).pid == 2
    | none => false

/-- Then somebody kills the child. -/
theorem kill_exact_forksKills :
    letI := Process.crowded
    ∃ A K₀ K K' q, Machine.sixteen.start = .ok (A, K₀) ∧ run Event.step K₀ forksKills = some K ∧
      kill 2 K = .ok (0, K') ∧ (K.proc q).state ≠ .unused ∧ (K.proc q).pid = 2 ∧
      K' = K.setProc q (K.proc q).kill ∧ (K'.proc q).killed = true := by
  let _ := Process.crowded
  have hlives : childLives = true := by decide +kernel
  unfold childLives at hlives
  split at hlives
  next => cases hlives
  next A K₀ hstart =>
    split at hlives
    next K hrun =>
      simp only [Bool.and_eq_true, bne_iff_ne, beq_iff_eq] at hlives
      have hes : NoStray K₀ forksKills := by
        rintro (_ | ⟨_, _ | ⟨_, bs⟩⟩) p cs K₁ he _ <;> simp [forksKills] at he
      obtain ⟨hkill, -⟩ := kill_exact Machine.sixteen hstart hrun hes
      obtain ⟨r, K', hres, hiff, hzero, -⟩ := hkill 2 (.inl (by decide))
      obtain rfl : r = 0 := hiff.mpr ⟨1, by decide, hlives⟩
      obtain ⟨q, -, hlive, hpid, rfl⟩ := hzero rfl
      refine ⟨A, K₀, K, _, q, hstart, hrun, hres, hlive, hpid, rfl, ?_⟩
      dsimp only [Kernel.setProc]
      rw [update_self]
      rfl
    next => cases hlives

end Xv6.Process
