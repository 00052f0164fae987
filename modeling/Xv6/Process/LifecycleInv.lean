import Xv6.Process.Lifecycle

/-!
# What the calls rely on

`Local` says of each place in the calls what the process relies on there, and `Rely` what
it can count on while another process makes a step. So the invariant is kept by a step of
`p` if the step respects `Rely` for all others and leaves `p` where it can be
(`Threads.advance_rely`). Steps that change neither parents nor the use of a slot are
covered by `Inv.change`.
-/

namespace Xv6.ProcTable.Table

/-! ## The invariant -/

/-- The process is in `wait` and sleeps, or is about to. -/
def Asleep (s : Table) (p : Nat) : Prop :=
  (∃ addr, (s.proc p).pc = .locked addr) ∨
    (s.proc p).state = .sleeping ∧ ∃ addr, (s.proc p).pc = .asleep addr

/-- It runs and has `wait_lock`. -/
def Holds (s : Table) (p : Nat) : Prop := (s.proc p).state = .running ∧ s.waitLock = some p

/-- It runs, or has been interrupted. -/
def Awake (s : Table) (p : Nat) : Prop :=
  (s.proc p).state = .running ∨ (s.proc p).state = .runnable

/-- What a process relies on where it is. -/
def Local (s : Table) (p : Nat) : Pc → Prop
  | .user => (s.proc p).state ≠ .zombie
  | .alloc _ => s.Awake p
  | .filled np =>
    (s.proc p).state = .running ∧ (s.proc np).state = .used ∧ (s.proc np).parent = none
  | .publish np => s.Awake p ∧ (s.proc np).state = .used ∧ (s.proc np).parent = none
  | .published np => s.Holds p ∧ (s.proc np).state = .used ∧ (s.proc np).parent = none
  | .ready np => s.Awake p ∧ (s.proc np).state = .used ∧ (s.proc np).parent = some p
  | .exit _ => s.Awake p ∧ p ≠ initproc
  | .reparent _ i => s.Holds p ∧ p ≠ initproc ∧ ∀ k, k < i → (s.proc k).parent ≠ some p
  | .wakeInit _ i j =>
    s.Holds p ∧ p ≠ initproc ∧ (∀ k, k ≤ i → (s.proc k).parent ≠ some p) ∧
      (initproc < j → ¬ s.Asleep initproc)
  | .wakeParent _ j =>
    s.Holds p ∧ p ≠ initproc ∧ (∀ k, (s.proc k).parent ≠ some p) ∧
      ∀ q, (s.proc p).parent = some q → q < j → ¬ s.Asleep q
  | .dead => (s.proc p).state = .zombie
  | .wait _ => s.Awake p
  | .scan _ i _ => s.Holds p ∧ ∀ k, k < i → (s.proc k).parent = some p → (s.proc k).state ≠ .zombie
  | .sleep _ => s.Holds p ∧ ∀ k, (s.proc k).parent = some p → (s.proc k).state ≠ .zombie
  | .locked _ => (s.proc p).state = .running ∧ (s.proc p).lock = true
  | .asleep _ => (s.proc p).state = .runnable ∨
      (s.proc p).state = .sleeping ∧ (s.proc p).chan = some (.proc p)

/-- What a slot's exits are, and how `wait` returned them. -/
def exits (s : Table) (c : Nat) : List (Int × Int) :=
  s.trace.filterMap fun e => match e with
    | .exited c' pid status => if c' = c then some (pid, status) else none
    | _ => none

def reaps (s : Table) (c : Nat) : List (Int × Int) :=
  s.trace.filterMap fun e => match e with
    | .reaped _ c' pid status => if c' = c then some (pid, status) else none
    | _ => none

/-- What a slot is used for. -/
inductive Kind where
  | unused | used | alive | zombie
  deriving DecidableEq

/-- The states of a process that can go on are alike. -/
def kind (s : Table) (i : Nat) : Kind :=
  match (s.proc i).state with
  | .unused => .unused
  | .used => .used
  | .zombie => .zombie
  | .sleeping | .runnable | .running => .alive

/-- Who is whose parent, and what became of those that exited. -/
structure Family (s : Table) : Prop where
  parent : ∀ {i q}, (s.proc i).parent = some q →
    s.kind q = .alive ∧ q ≠ i ∧ i ≠ initproc ∧ s.kind i ≠ .unused
  has_parent : ∀ {i}, i ≠ initproc → s.kind i = .alive ∨ s.kind i = .zombie → (s.proc i).parent ≠ none
  lt : ∀ {i}, s.kind i ≠ .unused → i < nproc
  init : s.kind initproc = .alive
  /-- Each exit was returned by one call of `wait`, or the process is a zombie. -/
  exits : ∀ c, s.exits c =
    s.reaps c ++ if s.kind c = .zombie then [((s.proc c).pid, (s.proc c).xstate)] else []

/-- Where the processes are. -/
structure Threads (s : Table) : Prop where
  here : ∀ p, s.Local p (s.proc p).pc
  holder : ∀ {p}, s.waitLock = some p → (s.proc p).pc.holdsWait
  used : ∀ {i}, s.kind i = .used → ∃ p, (s.proc p).pc.child = some i
  child : ∀ {p q i}, (s.proc p).pc.child = some i → (s.proc q).pc.child = some i → p = q
  /-- A zombie's parent sleeps only if it is init and will be woken. -/
  wake : ∀ {p c}, s.Asleep p → (s.proc c).parent = some p → s.kind c = .zombie →
    p = initproc ∧ ∃ q status i j, (s.proc q).pc = .wakeInit status i j ∧ j ≤ initproc

/-- What holds after every step. -/
structure Inv (s : Table) : Prop extends Family s, Threads s

variable {s s' : Table} {p q i j c np addr : Nat}

lemma exits_emit (s : Table) (e : Event) (c : Nat) : (s.emit e).exits c = s.exits c ++
    match e with
    | .exited c' pid status => if c' = c then [(pid, status)] else []
    | _ => [] := by
  cases e with
  | exited c' pid status => by_cases hc : c' = c <;> simp [exits, emit, hc]
  | reaped q c' pid status => simp [exits, emit]
  | failed q => simp [exits, emit]

lemma reaps_emit (s : Table) (e : Event) (c : Nat) : (s.emit e).reaps c = s.reaps c ++
    match e with
    | .reaped _ c' pid status => if c' = c then [(pid, status)] else []
    | _ => [] := by
  cases e with
  | exited c' pid status => simp [reaps, emit]
  | reaped q c' pid status => by_cases hc : c' = c <;> simp [reaps, emit, hc]
  | failed q => simp [reaps, emit]

@[simp] lemma set_proc (s : Table) (i : Nat) (x : Proc) (q : Nat) :
    (s.set i x).proc q = if q = i then x else s.proc q := by
  simp only [set, Function.update_apply]

@[simp] lemma set_waitLock (s : Table) (i : Nat) (x : Proc) : (s.set i x).waitLock = s.waitLock := rfl

@[simp] lemma set_trace (s : Table) (i : Nat) (x : Proc) : (s.set i x).trace = s.trace := rfl

@[simp] lemma goto_proc (s : Table) (p : Nat) (pc : Pc) (q : Nat) :
    (s.goto p pc).proc q = if q = p then { s.proc p with pc := pc } else s.proc q := set_proc _ _ _ _

@[simp] lemma goto_waitLock (s : Table) (p : Nat) (pc : Pc) :
    (s.goto p pc).waitLock = s.waitLock := rfl

@[simp] lemma release_proc (s : Table) : s.release.proc = s.proc := rfl

@[simp] lemma emit_proc (s : Table) (e : Event) : (s.emit e).proc = s.proc := rfl

lemma goto_state (s : Table) (p : Nat) (pc : Pc) (q : Nat) :
    ((s.goto p pc).proc q).state = (s.proc q).state := by
  rw [goto_proc]
  split <;> simp_all

lemma goto_parent (s : Table) (p : Nat) (pc : Pc) (q : Nat) :
    ((s.goto p pc).proc q).parent = (s.proc q).parent := by
  rw [goto_proc]
  split <;> simp_all

lemma goto_asleep {pc : Pc} (hne : q ≠ p) : (s.goto p pc).Asleep q ↔ s.Asleep q := by
  rw [Asleep, Asleep, goto_proc, if_neg hne]

lemma kind_eq_alive : s.kind i = .alive ↔ (s.proc i).state = .running ∨
    (s.proc i).state = .runnable ∨ (s.proc i).state = .sleeping := by
  unfold kind
  cases (s.proc i).state <;> simp

lemma kind_eq_used : s.kind i = .used ↔ (s.proc i).state = .used := by
  unfold kind
  cases (s.proc i).state <;> simp

lemma kind_eq_zombie : s.kind i = .zombie ↔ (s.proc i).state = .zombie := by
  unfold kind
  cases (s.proc i).state <;> simp

lemma kind_eq_unused : s.kind i = .unused ↔ (s.proc i).state = .unused := by
  unfold kind
  cases (s.proc i).state <;> simp

/-! ## What others rely on -/

/-- What a process can rely on while another one makes a step. -/
structure Rely (s s' : Table) (q : Nat) : Prop where
  pc : (s'.proc q).pc = (s.proc q).pc
  state : (s'.proc q).state = (s.proc q).state ∨
    (s.proc q).state = .sleeping ∧ (s'.proc q).state = .runnable ∨
    (s.proc q).state = .unused ∧ (s'.proc q).state = .used ∨
    (s.proc q).state = .used ∧ ((s'.proc q).state = .runnable ∨ (s'.proc q).state = .unused)
  chan : ∀ addr, (s.proc q).pc = .asleep addr → (s'.proc q).chan = (s.proc q).chan
  lock : ∀ addr, (s.proc q).pc = .locked addr → (s'.proc q).lock = (s.proc q).lock
  waitLock : s.waitLock = some q → s'.waitLock = some q
  child : ∀ np, (s.proc q).pc.child = some np → (s.proc np).state = .used →
    (s'.proc np).state = .used ∧ (s'.proc np).parent = (s.proc np).parent
  /-- With `wait_lock`, nobody else changes parents, exits or goes to sleep in `wait`. -/
  parent : s.waitLock = some q → ∀ k, (s'.proc k).parent = (s.proc k).parent
  zombie : s.waitLock = some q → ∀ k, (s'.proc k).state = .zombie → (s.proc k).state = .zombie
  asleep : s.waitLock = some q → ∀ k, s'.Asleep k → s.Asleep k

lemma Rely.awake (r : Rely s s' q) (h : s.Awake q) : s'.Awake q := by
  unfold Awake at *
  rcases r.state with he | he | he | he
  · rwa [he]
  · exact .inr he.2
  · simp [he.1] at h
  · simp [he.1] at h

lemma Rely.running (r : Rely s s' q) (h : (s.proc q).state = .running) :
    (s'.proc q).state = .running := by
  rcases r.state with he | he | he | he
  · rwa [he]
  · simp [he.1] at h
  · simp [he.1] at h
  · simp [he.1] at h

lemma Rely.holds (r : Rely s s' q) (h : s.Holds q) : s'.Holds q := ⟨r.running h.1, r.waitLock h.2⟩

/-- A process that another one does not move stays where it can be. -/
lemma Rely.stays (r : Rely s s' q) (h : s.Local q (s.proc q).pc) :
    s'.Local q (s'.proc q).pc := by
  rw [r.pc]
  cases hpc : (s.proc q).pc with
  | user =>
    simp only [hpc, Local] at h ⊢
    rcases r.state with he | he | he | he
    · rwa [he]
    · simp [he.2]
    · simp [he.2]
    · rcases he.2 with he | he
      · simp [he]
      · simp [he]
  | alloc i | wait addr =>
    simp only [hpc, Local] at h ⊢
    exact r.awake h
  | filled np =>
    simp only [hpc, Local] at h ⊢
    obtain ⟨hrun, hused, hparent⟩ := h
    obtain ⟨h₁, h₂⟩ := r.child np (by rw [hpc]; rfl) hused
    exact ⟨r.running hrun, h₁, h₂.trans hparent⟩
  | publish np | ready np =>
    simp only [hpc, Local] at h ⊢
    obtain ⟨hrun, hused, hparent⟩ := h
    obtain ⟨h₁, h₂⟩ := r.child np (by rw [hpc]; rfl) hused
    exact ⟨r.awake hrun, h₁, h₂.trans hparent⟩
  | published np =>
    simp only [hpc, Local] at h ⊢
    obtain ⟨hrun, hused, hparent⟩ := h
    obtain ⟨h₁, h₂⟩ := r.child np (by rw [hpc]; rfl) hused
    exact ⟨r.holds hrun, h₁, h₂.trans hparent⟩
  | exit status =>
    simp only [hpc, Local] at h ⊢
    exact ⟨r.awake h.1, h.2⟩
  | reparent status i =>
    simp only [hpc, Local] at h ⊢
    have hparent := r.parent h.1.2
    simp only [hparent]
    exact ⟨r.holds h.1, h.2⟩
  | wakeInit status i j =>
    simp only [hpc, Local] at h ⊢
    obtain ⟨hh, hne, hkids, hawake⟩ := h
    have hparent := r.parent hh.2
    simp only [hparent]
    exact ⟨r.holds hh, hne, hkids, fun hj ha => hawake hj (r.asleep hh.2 _ ha)⟩
  | wakeParent status j =>
    simp only [hpc, Local] at h ⊢
    obtain ⟨hh, hne, hkids, hawake⟩ := h
    have hparent := r.parent hh.2
    simp only [hparent]
    exact ⟨r.holds hh, hne, hkids, fun x hx hj ha => hawake x hx hj (r.asleep hh.2 _ ha)⟩
  | dead =>
    simp only [hpc, Local] at h ⊢
    rcases r.state with he | he | he | he
    · rwa [he]
    · simp [he.1] at h
    · simp [he.1] at h
    · simp [he.1] at h
  | scan addr i havekids =>
    simp only [hpc, Local] at h ⊢
    have hparent := r.parent h.1.2
    simp only [hparent]
    exact ⟨r.holds h.1, fun k hk hp hz => h.2 k hk hp (r.zombie h.1.2 k hz)⟩
  | sleep addr =>
    simp only [hpc, Local] at h ⊢
    have hparent := r.parent h.1.2
    simp only [hparent]
    exact ⟨r.holds h.1, fun k hp hz => h.2 k hp (r.zombie h.1.2 k hz)⟩
  | locked addr =>
    simp only [hpc, Local] at h ⊢
    rw [r.lock addr hpc]
    exact ⟨r.running h.1, h.2⟩
  | asleep addr =>
    simp only [hpc, Local] at h ⊢
    rw [r.chan addr hpc]
    rcases r.state with he | he | he | he
    · rwa [he]
    · exact .inl he.2
    · simp [he.1] at h
    · simp [he.1] at h

/-! ## Steps that free and allocate no slot -/

lemma Family.congr (h : s.Family) (hkind : ∀ i, s'.kind i = s.kind i)
    (hparent : ∀ i, (s'.proc i).parent = (s.proc i).parent)
    (hpid : ∀ i, (s'.proc i).pid = (s.proc i).pid)
    (hxstate : ∀ i, (s'.proc i).xstate = (s.proc i).xstate)
    (hexits : s'.exits = s.exits) (hreaps : s'.reaps = s.reaps) : s'.Family where
  parent := fun {i q} hp => by
    rw [hkind, hkind]
    exact h.parent (hparent i ▸ hp)
  has_parent := fun {i} => by
    rw [hkind, hparent]
    exact h.has_parent
  lt := fun {i} => by
    rw [hkind]
    exact h.lt
  init := by rw [hkind]; exact h.init
  exits := fun c => by
    rw [hexits, hreaps, hkind, hpid, hxstate]
    exact h.exits c

/-- How a step of `p` may change `wait_lock`. -/
def LockStep (s s' : Table) (p : Nat) : Prop :=
  s'.waitLock = s.waitLock ∨ s.waitLock = none ∧ s'.waitLock = some p ∨
    s.waitLock = some p ∧ s'.waitLock = none

lemma LockStep.keeps (h : LockStep s s' p) (hne : q ≠ p) (hq : s.waitLock = some q) :
    s'.waitLock = some q := by
  rcases h with he | he | he
  · rw [he, hq]
  · simp [he.1] at hq
  · simp [he.1, hne.symm] at hq

lemma LockStep.of_other (h : LockStep s s' p) (hne : q ≠ p) (hq : s'.waitLock = some q) :
    s.waitLock = some q := by
  rcases h with he | he | he
  · rw [← he, hq]
  · simp [he.2, hne.symm] at hq
  · simp [he.2] at hq

/-- A step of process `p`: where it is afterwards, and what it leaves to the others. -/
lemma Threads.advance (h : s.Threads) (hlock : LockStep s s' p)
    (hstays : ∀ q, q ≠ p → s'.Local q (s'.proc q).pc)
    (hchild : ∀ q, q ≠ p → (s'.proc q).pc.child = (s.proc q).pc.child)
    (hholder : ∀ q, q ≠ p → (s.proc q).pc.holdsWait → (s'.proc q).pc.holdsWait)
    (hhere : s'.Local p (s'.proc p).pc)
    (hholds : s'.waitLock = some p → (s'.proc p).pc.holdsWait)
    (hnew : ∀ {q i}, q ≠ p → (s'.proc p).pc.child = some i → (s.proc q).pc.child ≠ some i)
    (hused : ∀ {i}, s'.kind i = .used → (s'.proc p).pc.child = some i ∨
      s.kind i = .used ∧ (s.proc p).pc.child ≠ some i)
    (hwake : ∀ {q c}, s'.Asleep q → (s'.proc c).parent = some q → s'.kind c = .zombie →
      q = initproc ∧ ∃ a status i j, (s'.proc a).pc = .wakeInit status i j ∧ j ≤ initproc) :
    s'.Threads where
  here := fun q => by
    by_cases hq : q = p
    · rw [hq]
      exact hhere
    · exact hstays q hq
  holder := fun {q} hq => by
    by_cases hqp : q = p
    · rw [hqp]
      exact hholds (hqp ▸ hq)
    · exact hholder q hqp (h.holder (hlock.of_other hqp hq))
  used := fun {i} hi => by
    rcases hused hi with hp | ⟨hi, hp⟩
    · exact ⟨p, hp⟩
    · obtain ⟨a, ha⟩ := h.used hi
      have hap : a ≠ p := by
        rintro rfl
        exact hp ha
      exact ⟨a, by rw [hchild a hap, ha]⟩
  child := fun {a b i} ha hb => by
    by_cases hap : a = p <;> by_cases hbp : b = p
    · rw [hap, hbp]
    · rw [hchild b hbp] at hb
      rw [hap] at ha
      exact absurd hb (hnew hbp ha)
    · rw [hchild a hap] at ha
      rw [hbp] at hb
      exact absurd ha (hnew hap hb)
    · rw [hchild a hap] at ha
      rw [hchild b hbp] at hb
      exact h.child ha hb
  wake := hwake

/-- The others may rely on something, so they stay where they are. -/
lemma Threads.advance_rely (h : s.Threads) (hlock : LockStep s s' p)
    (hrely : ∀ q, q ≠ p → Rely s s' q) (hhere : s'.Local p (s'.proc p).pc)
    (hholds : s'.waitLock = some p → (s'.proc p).pc.holdsWait)
    (hnew : ∀ {q i}, q ≠ p → (s'.proc p).pc.child = some i → (s.proc q).pc.child ≠ some i)
    (hused : ∀ {i}, s'.kind i = .used → (s'.proc p).pc.child = some i ∨
      s.kind i = .used ∧ (s.proc p).pc.child ≠ some i)
    (hwake : ∀ {q c}, s'.Asleep q → (s'.proc c).parent = some q → s'.kind c = .zombie →
      q = initproc ∧ ∃ a status i j, (s'.proc a).pc = .wakeInit status i j ∧ j ≤ initproc) :
    s'.Threads :=
  h.advance hlock (fun q hne => (hrely q hne).stays (h.here q)) (fun q hne => by rw [(hrely q hne).pc])
    (fun q hne hq => by rwa [(hrely q hne).pc]) hhere hholds hnew hused hwake

/-- One process changes, but its kind and its parent stay. -/
lemma Inv.change {x : Proc} (h : s.Inv) (hproc : s'.proc = (s.set p x).proc)
    (hexits : s'.exits = s.exits) (hreaps : s'.reaps = s.reaps) (hlock : LockStep s s' p)
    (hkind : s'.kind p = s.kind p) (hparent : x.parent = (s.proc p).parent)
    (hpid : x.pid = (s.proc p).pid) (hxstate : x.xstate = (s.proc p).xstate)
    (hhere : s'.Local p x.pc) (hholds : s'.waitLock = some p → x.pc.holdsWait)
    (hchild : x.pc.child = (s.proc p).pc.child)
    (hsleep : s'.Asleep p → s.Asleep p ∨
      s.waitLock = some p ∧ ∀ c, (s.proc c).parent = some p → s.kind c ≠ .zombie)
    (hwake : ∀ {status i j}, (s.proc p).pc = .wakeInit status i j → j ≤ initproc →
      ¬ s.Asleep initproc ∨ ∃ status i j, x.pc = .wakeInit status i j ∧ j ≤ initproc) : s'.Inv := by
  have hself : s'.proc p = x := by rw [hproc, set_proc, if_pos rfl]
  have hother : ∀ q, q ≠ p → s'.proc q = s.proc q := fun q hne => by rw [hproc, set_proc, if_neg hne]
  have hkinds : ∀ q, s'.kind q = s.kind q := fun q => by
    by_cases hq : q = p
    · rw [hq, hkind]
    · rw [kind, kind, hother q hq]
  have hparents : ∀ q, (s'.proc q).parent = (s.proc q).parent := fun q => by
    by_cases hq : q = p
    · rw [hq, hself, hparent]
    · rw [hother q hq]
  have hasleep : ∀ q, q ≠ p → s'.Asleep q → s.Asleep q := fun q hne ha => by
    rwa [Asleep, hother q hne] at ha
  have hchilds : ∀ q, (s'.proc q).pc.child = (s.proc q).pc.child := fun q => by
    by_cases hq : q = p
    · rw [hq, hself, hchild]
    · rw [hother q hq]
  have hrely : ∀ q, q ≠ p → Rely s s' q := fun q hne => by
    refine ⟨by rw [hother q hne], .inl (by rw [hother q hne]),
      fun addr _ => by rw [hother q hne], fun addr _ => by rw [hother q hne], hlock.keeps hne,
      fun np _ hused => ⟨?_, hparents np⟩,
      fun _ => hparents, fun _ k hz => ?_, fun hq k ha => ?_⟩
    · rwa [← kind_eq_used, hkinds, kind_eq_used]
    · rw [← kind_eq_zombie] at hz ⊢
      rwa [← hkinds]
    · by_cases hk : k = p
      · subst hk
        rcases hsleep ha with ha | ha
        · exact ha
        · rw [ha.1] at hq
          exact absurd (Option.some.inj hq).symm hne
      · exact hasleep k hk ha
  have hpids : ∀ q, (s'.proc q).pid = (s.proc q).pid := fun q => by
    by_cases hq : q = p
    · rw [hq, hself, hpid]
    · rw [hother q hq]
  have hxstates : ∀ q, (s'.proc q).xstate = (s.proc q).xstate := fun q => by
    by_cases hq : q = p
    · rw [hq, hself, hxstate]
    · rw [hother q hq]
  refine ⟨h.toFamily.congr hkinds hparents hpids hxstates hexits hreaps,
    h.toThreads.advance_rely hlock hrely (by rw [hself]; exact hhere) (by rw [hself]; exact hholds)
      (fun {q i} hne hi hq => ?_) (fun {i} hi => ?_) fun {q c} ha hc hz => ?_⟩
  · rw [hself, hchild] at hi
    exact hne (h.child hq hi)
  · rw [hself, hchild, or_iff_not_imp_left]
    exact fun hne => ⟨hkinds i ▸ hi, hne⟩
  · rw [hkinds] at hz
    rw [hparents] at hc
    have hold : s.Asleep q := by
      by_cases hq : q = p
      · subst hq
        rcases hsleep ha with ha | ha
        · exact ha
        · exact absurd hz (ha.2 c hc)
      · exact hasleep q hq ha
    obtain ⟨rfl, a, status, i, j, hpc, hj⟩ := h.wake hold hc hz
    refine ⟨rfl, ?_⟩
    by_cases hap : a = p
    · subst hap
      rcases hwake hpc hj with hn | hn
      · exact absurd hold hn
      · obtain ⟨status, i, j, hx, hj⟩ := hn
        exact ⟨a, status, i, j, by rw [hself, hx], hj⟩
    · exact ⟨a, status, i, j, by rw [hother a hap, hpc], hj⟩

/-- A process goes on to where it does not sleep. -/
lemma Inv.move {pc : Pc} (h : s.Inv) (hproc : s'.proc = (s.goto p pc).proc)
    (hexits : s'.exits = s.exits) (hreaps : s'.reaps = s.reaps) (hlock : LockStep s s' p)
    (hhere : s'.Local p pc) (hholds : s'.waitLock = some p → pc.holdsWait)
    (hchild : pc.child = (s.proc p).pc.child) (hawake : pc.sleeps = false)
    (hwake : ∀ {status i j}, (s.proc p).pc = .wakeInit status i j → j ≤ initproc →
      ¬ s.Asleep initproc ∨ ∃ status i j, pc = .wakeInit status i j ∧ j ≤ initproc) : s'.Inv := by
  refine h.change (x := { s.proc p with pc := pc }) hproc hexits hreaps hlock ?_ rfl rfl rfl hhere
    hholds hchild (fun ha => ?_) hwake
  · simp [kind, hproc, goto]
  · simp only [Asleep, hproc, goto, set_proc, if_pos] at ha
    rcases ha with ⟨addr, ha⟩ | ⟨-, addr, ha⟩
    · rw [ha] at hawake
      cases hawake
    · rw [ha] at hawake
      cases hawake

/-- A lock is taken or released, a process is killed, or one that sleeps is woken. -/
lemma Inv.disturb {x : Proc} (h : s.Inv) (hpc : x.pc = (s.proc i).pc)
    (hstate : x.state = (s.proc i).state ∨ (s.proc i).state = .sleeping ∧ x.state = .runnable)
    (hchan : x.chan = (s.proc i).chan) (hparent : x.parent = (s.proc i).parent)
    (hpid : x.pid = (s.proc i).pid) (hxstate : x.xstate = (s.proc i).xstate)
    (hlock : ∀ addr, (s.proc i).pc = .locked addr → x.lock = (s.proc i).lock) : (s.set i x).Inv := by
  have hkind : ∀ q, (s.set i x).kind q = s.kind q := fun q => by
    simp only [kind, set_proc]
    by_cases hq : q = i
    · subst hq
      rw [if_pos rfl]
      rcases hstate with he | he
      · rw [he]
      · rw [he.1, he.2]
    · rw [if_neg hq]
  have hparents : ∀ q, ((s.set i x).proc q).parent = (s.proc q).parent := fun q => by
    rw [set_proc]
    by_cases hq : q = i
    · rw [if_pos hq, hparent, hq]
    · rw [if_neg hq]
  have hasleep : ∀ q, (s.set i x).Asleep q → s.Asleep q := fun q ha => by
    simp only [Asleep, set_proc] at ha ⊢
    by_cases hq : q = i
    · subst hq
      simp only [if_true, hpc] at ha
      rcases hstate with he | he
      · rwa [he] at ha
      · exact ha.imp_right fun ha => ⟨he.1, ha.2⟩
    · rwa [if_neg hq] at ha
  have hrely : Rely s (s.set i x) i := by
    refine ⟨?_, ?_, fun addr _ => ?_, fun addr ha => ?_, fun hi => hi, fun np _ hused => ⟨?_, hparents np⟩,
      fun _ => hparents, fun _ k hz => ?_, fun _ => hasleep⟩
    · rw [set_proc, if_pos rfl, hpc]
    · rw [set_proc, if_pos rfl]
      exact hstate.imp_right .inl
    · rw [set_proc, if_pos rfl, hchan]
    · rw [set_proc, if_pos rfl, hlock addr ha]
    · rwa [← kind_eq_used, hkind, kind_eq_used]
    · rwa [← kind_eq_zombie, ← hkind, kind_eq_zombie]
  have hhere := hrely.stays (h.here i)
  rw [set_proc, if_pos rfl] at hhere
  refine h.change rfl rfl rfl (.inl rfl) (hkind i) hparent hpid hxstate hhere (fun hi => ?_)
    (by rw [hpc]) (fun ha => .inl (hasleep i ha)) fun hp hj => .inr ⟨_, _, _, hpc.trans hp, hj⟩
  rw [hpc]
  exact h.holder hi

lemma Inv.wakeup {chan : Option Chan} (h : s.Inv) (hs : s.wakeup p chan j = some s') :
    s'.Inv ∧ s'.proc p = s.proc p ∧ s'.waitLock = s.waitLock ∧
      (∀ k, (s'.proc k).parent = (s.proc k).parent) ∧ (∀ k, s'.Asleep k → s.Asleep k) ∧
      (j ≠ p → chan = some (.proc j) → ¬ s'.Asleep j) := by
  unfold Table.wakeup at hs
  split at hs
  next he =>
    cases hs
    exact ⟨h, rfl, rfl, fun _ => rfl, fun _ ha => ha, fun hne => absurd he hne⟩
  next hne =>
    rw [Option.ite_none_left_eq_some] at hs
    obtain ⟨hlock, hs⟩ := hs
    split at hs
    next hsleep =>
      cases hs
      have hnot : ∀ addr, (s.proc j).pc ≠ .locked addr := by
        intro addr hpc
        have hl := h.here j
        rw [hpc] at hl
        exact hlock hl.2
      refine ⟨h.disturb rfl (.inr ⟨hsleep.1, rfl⟩) rfl rfl rfl rfl fun _ _ => rfl, ?_, rfl, ?_, ?_, ?_⟩
      · rw [set_proc, if_neg fun he => hne he.symm]
      · intro k
        rw [set_proc]
        by_cases hk : k = j
        · rw [if_pos hk, hk]
        · rw [if_neg hk]
      · intro k ha
        by_cases hk : k = j
        · subst hk
          rcases ha with ⟨addr, ha⟩ | ⟨ha, -⟩
          · simp [hnot] at ha
          · simp at ha
        · simpa [Asleep, hk] using ha
      · rintro - - (⟨addr, ha⟩ | ⟨ha, -⟩)
        · simp [hnot] at ha
        · simp at ha
    next hsleep =>
      cases hs
      refine ⟨h, rfl, rfl, fun _ => rfl, fun _ ha => ha, ?_⟩
      rintro - rfl (⟨addr, ha⟩ | ⟨ha, addr, hpc⟩)
      · have hl := h.here j
        rw [ha] at hl
        exact hlock hl.2
      · have hl := h.here j
        rw [hpc] at hl
        rcases hl with hl | hl
        · simp [ha] at hl
        · exact hsleep hl

end Xv6.ProcTable.Table
