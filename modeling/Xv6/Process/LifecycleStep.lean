import Xv6.Process.LifecycleInv

/-!
# The steps of `fork`, `exit` and `wait`

`fork`, `reparent` and `wait` change the slot of another process together with that of
the caller (`Pair`). A slot that `fork` fills has no process in it yet, so nobody but the
caller relies on it (`Pair.threads`). `exit` may become a zombie because its loops have
passed every slot: no process has it as parent, and its own parent does not sleep.
-/

namespace Xv6.ProcTable.Table

open Lib

variable {s s' t : Table} {p q i j c np addr : Nat}

/-! ## `fork` -/

lemma Threads.pc_of_state (h : s.Threads)
    (hi : (s.proc i).state = .unused ∨ (s.proc i).state = .used) : (s.proc i).pc = .user := by
  have hl := h.here i
  cases hpc : (s.proc i).pc with
  | user => rfl
  | alloc _ | filled _ | publish _ | published _ | ready _ | exit _ | reparent _ _ | wakeInit _ _ _
  | wakeParent _ _ | dead | wait _ | scan _ _ _ | sleep _ | locked _ | asleep _ =>
    rw [hpc] at hl
    rcases hi with hi | hi <;> simp [Local, Awake, Holds, hi] at hl

lemma Threads.pc_of_zombie (h : s.Threads) (hi : (s.proc i).state = .zombie) :
    (s.proc i).pc = .dead := by
  have hl := h.here i
  cases hpc : (s.proc i).pc with
  | dead => rfl
  | user | alloc _ | filled _ | publish _ | published _ | ready _ | exit _ | reparent _ _
  | wakeInit _ _ _ | wakeParent _ _ | wait _ | scan _ _ _ | sleep _ | locked _ | asleep _ =>
    rw [hpc] at hl
    simp [Local, Awake, Holds, hi] at hl

/-- A process that is not where it could have `wait_lock` does not have it. -/
lemma Threads.unheld {b : Bool} (h : s.Threads) (hpc : (s.proc p).pc.holdsWait = false)
    (hw : s.waitLock = some p) : b := by
  rw [h.holder hw] at hpc
  cases hpc

lemma Threads.child_used (h : s.Threads) (hc : (s.proc p).pc.child = some np) :
    (s.proc np).state = .used ∧ ((s.proc np).parent = none ∨ (s.proc np).parent = some p) := by
  have hl := h.here p
  cases hpc : (s.proc p).pc with
  | filled _ | publish _ | published _ =>
    rw [hpc] at hc hl
    cases hc
    exact ⟨hl.2.1, .inl hl.2.2⟩
  | ready _ =>
    rw [hpc] at hc hl
    cases hc
    exact ⟨hl.2.1, .inr hl.2.2⟩
  | user | alloc _ | exit _ | reparent _ _ | wakeInit _ _ _ | wakeParent _ _ | dead | wait _
  | scan _ _ _ | sleep _ | locked _ | asleep _ =>
    rw [hpc] at hc
    cases hc

/-- A zombie's parent does not sleep while somebody has `wait_lock`, unless that is to
wake init. -/
lemma Threads.not_asleep (h : s.Threads) (hp : s.waitLock = some p)
    (hpc : ∀ status i j, (s.proc p).pc ≠ .wakeInit status i j) (hc : (s.proc c).parent = some q)
    (hz : s.kind c = .zombie) : ¬ s.Asleep q := by
  intro ha
  obtain ⟨-, a, status, i, j, ha, -⟩ := h.wake ha hc hz
  have hl := h.here a
  rw [ha] at hl
  have he : a = p := Option.some.inj (hl.1.2.symm.trans hp)
  subst he
  exact hpc status i j ha

lemma Threads.wake_of (h : s.Threads) (hasleep : ∀ q, s'.Asleep q → s.Asleep q)
    (hzombie : ∀ c q, (s'.proc c).parent = some q → s'.kind c = .zombie →
      (s.proc c).parent = some q ∧ s.kind c = .zombie)
    (hpc : ∀ a status i j, (s.proc a).pc = .wakeInit status i j → (s'.proc a).pc = .wakeInit status i j)
    (ha : s'.Asleep q) (hc : (s'.proc c).parent = some q) (hz : s'.kind c = .zombie) :
    q = initproc ∧ ∃ a status i j, (s'.proc a).pc = .wakeInit status i j ∧ j ≤ initproc := by
  obtain ⟨hc, hz⟩ := hzombie c q hc hz
  obtain ⟨rfl, a, status, i, j, hpca, hj⟩ := h.wake (hasleep q ha) hc hz
  exact ⟨rfl, a, status, i, j, hpc a status i j hpca, hj⟩

lemma Family.exits_of (h : s.Family) (hexits : s'.exits = s.exits) (hreaps : s'.reaps = s.reaps)
    (hzombie : ∀ c, s'.kind c = .zombie ↔ s.kind c = .zombie)
    (hsame : ∀ c, s.kind c = .zombie →
      (s'.proc c).pid = (s.proc c).pid ∧ (s'.proc c).xstate = (s.proc c).xstate) (c : Nat) :
    s'.exits c = s'.reaps c ++
      if s'.kind c = .zombie then [((s'.proc c).pid, (s'.proc c).xstate)] else [] := by
  rw [hexits, hreaps, h.exits c]
  by_cases hz : s.kind c = .zombie
  · obtain ⟨hpid, hxstate⟩ := hsame c hz
    rw [if_pos hz, if_pos ((hzombie c).mpr hz), hpid, hxstate]
  · rw [if_neg hz, if_neg fun hz' => hz ((hzombie c).mp hz')]

lemma Family.parent_of_unused (h : s.Family) (hi : (s.proc i).state = .unused) :
    (s.proc i).parent = none := by
  cases hq : (s.proc i).parent with
  | none => rfl
  | some q => exact absurd (kind_eq_unused.mpr hi) (h.parent hq).2.2.2

/-- Process `p` goes on at `pc`, and slot `i` changes with it. -/
structure Pair (s s' : Table) (p i : Nat) (pc : Pc) (x : Proc) : Prop where
  ne : i ≠ p
  self : s'.proc p = { s.proc p with pc := pc }
  slot : s'.proc i = x
  other : ∀ {q}, q ≠ p → q ≠ i → s'.proc q = s.proc q
  awake : pc.sleeps = false

lemma Pair.of_set {pc : Pc} {x : Proc} (hne : i ≠ p) (hawake : pc.sleeps = false)
    (hproc : s'.proc = ((s.set i x).goto p pc).proc) : Pair s s' p i pc x where
  ne := hne
  self := by simp [hproc, hne.symm]
  slot := by simp [hproc, hne]
  other := fun hp hi => by simp [hproc, hp, hi]
  awake := hawake

lemma Pair.asleep {pc : Pc} {x : Proc} (h : Pair s s' p i pc x)
    (hx : x.state = (s.proc i).state ∧ x.pc = (s.proc i).pc ∨ x.pc = .user) :
    s'.Asleep q → s.Asleep q := by
  intro ha
  by_cases hp : q = p
  · rw [Asleep, hp, h.self] at ha
    rcases ha with ⟨addr, ha⟩ | ⟨-, addr, ha⟩
    · exact absurd h.awake (by simp [show pc = .locked addr from ha, Pc.sleeps])
    · exact absurd h.awake (by simp [show pc = .asleep addr from ha, Pc.sleeps])
  by_cases hi : q = i
  · rw [Asleep, hi, h.slot] at ha
    rw [Asleep, hi]
    rcases hx with hx | hx
    · rwa [hx.1, hx.2] at ha
    · simp [hx] at ha
  · rwa [Asleep, h.other hp hi] at ha

/-- The others keep their slots. -/
lemma Pair.rely {pc : Pc} {x : Proc} (h : Pair s s' p i pc x) (hlock : LockStep s s' p)
    (hasleep : ∀ q, s'.Asleep q → s.Asleep q)
    (hmine : ∀ q, (s.proc q).pc.child = some i → q = p)
    (hp : (s.proc p).state = .running)
    (hx : s.waitLock = some p ∨ x.parent = (s.proc i).parent ∧ x.state ≠ .zombie)
    (hqp : q ≠ p) (hqi : q ≠ i) : Rely s s' q := by
  have hq := h.other hqp hqi
  have hfree : s.waitLock = some q → s.waitLock ≠ some p := fun hw hw' =>
    hqp (Option.some.inj (hw.symm.trans hw'))
  refine ⟨by rw [hq], .inl (by rw [hq]), fun _ _ => by rw [hq], fun _ _ => by rw [hq],
    hlock.keeps hqp, fun np hnp hused => ?_, fun hw k => ?_, fun hw k hz => ?_, fun _ => hasleep⟩
  · have hnpi : np ≠ i := fun he => hqp (hmine q (he ▸ hnp))
    have hnpp : np ≠ p := by
      rintro rfl
      simp [hp] at hused
    rw [h.other hnpp hnpi]
    exact ⟨hused, rfl⟩
  · have hx := hx.resolve_left (hfree hw)
    by_cases hkp : k = p
    · rw [hkp, h.self]
    by_cases hki : k = i
    · rw [hki, h.slot, hx.1]
    · rw [h.other hkp hki]
  · have hx := hx.resolve_left (hfree hw)
    by_cases hkp : k = p
    · rw [hkp, h.self] at hz
      simp [hp] at hz
    by_cases hki : k = i
    · rw [hki, h.slot] at hz
      exact absurd hz hx.2
    · rwa [h.other hkp hki] at hz

/-- A step of `fork`: slot `i` is the one that `p` fills, and no process runs in it. -/
lemma Pair.threads {pc : Pc} {x : Proc} (h : s.Threads) (hpair : Pair s s' p i pc x)
    (hlock : LockStep s s' p) (hp : (s.proc p).state = .running)
    (hpc : ∀ status i j, (s.proc p).pc ≠ .wakeInit status i j)
    (hchild : (s.proc p).pc.child = none ∨ (s.proc p).pc.child = some i)
    (hmine : ∀ q, (s.proc q).pc.child = some i → q = p)
    (hi : (s.proc i).state = .unused ∧ x.state = .used ∨ (s.proc i).state = .used ∧
      (x.state = .used ∨ x.state = .runnable ∨ x.state = .unused))
    (hxpc : x.pc = .user) (hx : s.waitLock = some p ∨ x.parent = (s.proc i).parent)
    (hhere : s'.Local p pc) (hholds : s'.waitLock = some p → pc.holdsWait)
    (hnew : pc.child = if x.state = .used then some i else none) : s'.Threads := by
  have hipc : (s.proc i).pc = .user := h.pc_of_state (hi.imp And.left And.left)
  have hxz : x.state ≠ .zombie := by
    rcases hi with ⟨-, hx⟩ | ⟨-, hx | hx | hx⟩ <;> simp [hx]
  have hasleep : ∀ q, s'.Asleep q → s.Asleep q := fun q => hpair.asleep (.inr hxpc)
  have hunheld : s.waitLock ≠ some i := fun hw =>
    Bool.false_ne_true (h.unheld (by rw [hipc]; rfl) hw)
  have hrely : ∀ q, q ≠ p → Rely s s' q := fun q hq => by
    by_cases hqi : q = i
    · subst hqi
      refine ⟨by rw [hpair.slot, hxpc, hipc], ?_, by simp [hipc], by simp [hipc],
        fun hw => absurd hw hunheld, by simp [hipc, Pc.child], fun hw => absurd hw hunheld,
        fun hw => absurd hw hunheld, fun _ => hasleep⟩
      rw [hpair.slot]
      rcases hi with hi | ⟨hi, hx | hx⟩
      · exact .inr (.inr (.inl hi))
      · exact .inl (hx.trans hi.symm)
      · exact .inr (.inr (.inr ⟨hi, hx⟩))
    · exact hpair.rely hlock hasleep hmine hp (hx.imp_right fun hx => ⟨hx, hxz⟩) hq hqi
  have hkind : ∀ k, k ≠ i → s'.kind k = s.kind k := fun k hk => by
    by_cases hkp : k = p
    · rw [kind, kind, hkp, hpair.self]
    · rw [kind, kind, hpair.other hkp hk]
  refine h.advance_rely hlock hrely (by rw [hpair.self]; exact hhere)
    (by rw [hpair.self]; exact hholds) (fun {q k} hq hk hqk => ?_) (fun {k} hk => ?_) ?_
  · rw [hpair.self, hnew] at hk
    split at hk
    next =>
      cases hk
      exact hq (hmine q hqk)
    next => cases hk
  · rw [hpair.self]
    by_cases hki : k = i
    · rw [hki, kind_eq_used, hpair.slot] at hk
      rw [hki, hnew, if_pos hk]
      exact .inl rfl
    · rw [hkind k hki] at hk
      refine .inr ⟨hk, fun hpk => ?_⟩
      rcases hchild with hn | hn
      · rw [hn] at hpk
        cases hpk
      · rw [hn] at hpk
        exact hki (Option.some.inj hpk).symm
  · refine h.wake_of hasleep (fun c q hc hz => ?_) fun a status i' j' ha => ?_
    · have hci : c ≠ i := by
        rintro rfl
        rw [kind_eq_zombie, hpair.slot] at hz
        exact hxz hz
      rw [hkind c hci] at hz
      by_cases hcp : c = p
      · rw [hcp, hpair.self] at hc
        rw [hcp] at hz ⊢
        exact ⟨hc, hz⟩
      · rw [hpair.other hcp hci] at hc
        exact ⟨hc, hz⟩
    · have hap : a ≠ p := by
        rintro rfl
        exact hpc status i' j' ha
      have hai : a ≠ i := by
        rintro rfl
        simp [hipc] at ha
      rw [hpair.other hap hai, ha]

/-- `allocproc` finds slot `i`. -/
lemma Inv.alloc {x : Proc} (h : s.Inv) (hp : (s.proc p).state = .running)
    (hpc : (s.proc p).pc = .alloc j) (hi : i < nproc) (hunused : (s.proc i).state = .unused)
    (hx : x.state = .used) (hxpc : x.pc = (s.proc i).pc) (hxparent : x.parent = (s.proc i).parent)
    (n : Int) : ({ s.set i x with nextpid := n }.goto p (.filled i)).Inv := by
  have hne : i ≠ p := by
    rintro rfl
    simp [hp] at hunused
  have hnone := h.parent_of_unused hunused
  have hipc := h.pc_of_state (.inl hunused)
  have hfree : ∀ q, (s.proc q).pc.child = some i → q = p := fun q hq => by
    have := (h.child_used hq).1
    simp [hunused] at this
  generalize hs' : { s.set i x with nextpid := n }.goto p (.filled i) = s'
  have hpair : Pair s s' p i (.filled i) x := Pair.of_set hne rfl (by rw [← hs']; rfl)
  obtain ⟨-, hself, hslot, hother, -⟩ := id hpair
  have hlock : s'.waitLock = s.waitLock := by rw [← hs']; rfl
  refine ⟨⟨?_, ?_, ?_, ?_, ?_⟩, hpair.threads h.toThreads (.inl hlock) hp (by simp [hpc])
    (.inl (by rw [hpc]; rfl)) hfree (.inl ⟨hunused, hx⟩) (hxpc.trans hipc) (.inr hxparent)
    ⟨?_, ?_, ?_⟩ ?_ ?_⟩
  · have := @h.parent
    grind [kind]
  · have := @h.has_parent
    grind [kind]
  · have := @h.lt
    grind [kind]
  · have := h.init
    grind [kind]
  · subst hs'
    exact h.exits_of rfl rfl (by grind [kind]) (by grind [kind])
  · rw [hself, hp]
  · rw [hslot, hx]
  · rw [hslot, hxparent, hnone]
  · exact fun hw => h.unheld (by rw [hpc]; rfl) (hlock ▸ hw)
  · rw [if_pos hx]
    rfl

/-- `fork` fails and frees the slot. -/
lemma Inv.unalloc (h : s.Inv) (hpc : (s.proc p).pc = .filled np) :
    ((s.freeproc np).goto p .user).Inv := by
  have hl := h.here p
  rw [hpc] at hl
  obtain ⟨hp, hused, hnone⟩ := hl
  have hne : np ≠ p := by
    rintro rfl
    simp [hp] at hused
  have hmine : ∀ q, (s.proc q).pc.child = some np → q = p := fun q hq =>
    h.child hq (by rw [hpc]; rfl)
  generalize hs' : (s.freeproc np).goto p .user = s'
  have hpair : Pair s s' p np .user Proc.free := Pair.of_set hne rfl (by rw [← hs']; rfl)
  obtain ⟨-, hself, hslot, hother, -⟩ := id hpair
  have hlock : s'.waitLock = s.waitLock := by rw [← hs']; rfl
  refine ⟨⟨?_, ?_, ?_, ?_, ?_⟩, hpair.threads h.toThreads (.inl hlock) hp (by simp [hpc])
    (.inr (by rw [hpc]; rfl)) hmine (.inr ⟨hused, .inr (.inr rfl)⟩) rfl (.inr hnone.symm)
    ?_ ?_ rfl⟩
  · have := @h.parent
    grind [kind, Proc.free]
  · have := @h.has_parent
    grind [kind, Proc.free]
  · have := @h.lt
    grind [kind, Proc.free]
  · have := h.init
    grind [kind, Proc.free]
  · subst hs'
    exact h.exits_of rfl rfl (by grind [kind, Proc.free]) (by grind [kind])
  · simp [Local, hself, hp]
  · exact fun hw => h.unheld (by rw [hpc]; rfl) (hlock ▸ hw)

/-- `fork` sets the parent of the new process. -/
lemma Inv.publish (h : s.Inv) (hpc : (s.proc p).pc = .published np) :
    ((s.set np { s.proc np with parent := some p }).release.goto p (.ready np)).Inv := by
  have hl := h.here p
  rw [hpc] at hl
  obtain ⟨⟨hp, hheld⟩, hused, hnone⟩ := hl
  have hne : np ≠ p := by
    rintro rfl
    simp [hp] at hused
  have hmine : ∀ q, (s.proc q).pc.child = some np → q = p := fun q hq =>
    h.child hq (by rw [hpc]; rfl)
  have hinit : np ≠ initproc := by
    rintro rfl
    have := h.init
    simp [kind, hused] at this
  generalize hs' : (s.set np { s.proc np with parent := some p }).release.goto p (.ready np) = s'
  have hpair : Pair s s' p np (.ready np) { s.proc np with parent := some p } :=
    Pair.of_set hne rfl (by rw [← hs']; rfl)
  obtain ⟨-, hself, hslot, hother, -⟩ := id hpair
  have hlock : s'.waitLock = none := by rw [← hs']; rfl
  refine ⟨⟨?_, ?_, ?_, ?_, ?_⟩, hpair.threads h.toThreads (.inr (.inr ⟨hheld, hlock⟩)) hp
    (by simp [hpc]) (.inr (by rw [hpc]; rfl)) hmine (.inr ⟨hused, .inl hused⟩)
    (h.pc_of_state (.inr hused)) (.inl hheld) ⟨.inl ?_, ?_, ?_⟩ ?_ ?_⟩
  · have := @h.parent
    grind [kind]
  · have := @h.has_parent
    grind [kind]
  · have := @h.lt
    grind [kind]
  · have := h.init
    grind [kind]
  · subst hs'
    exact h.exits_of rfl rfl (by grind [kind]) (by grind [kind])
  · rw [hself, hp]
  · rw [hslot, hused]
  · rw [hslot]
  · simp [hlock]
  · rw [if_pos hused]
    rfl

/-- The new process can run. -/
lemma Inv.ready (h : s.Inv) (hp : (s.proc p).state = .running) (hpc : (s.proc p).pc = .ready np) :
    ((s.set np { s.proc np with state := .runnable }).goto p .user).Inv := by
  have hl := h.here p
  rw [hpc] at hl
  obtain ⟨-, hused, hparent⟩ := hl
  have hne : np ≠ p := by
    rintro rfl
    simp [hp] at hused
  have hmine : ∀ q, (s.proc q).pc.child = some np → q = p := fun q hq =>
    h.child hq (by rw [hpc]; rfl)
  generalize hs' : (s.set np { s.proc np with state := .runnable }).goto p .user = s'
  have hpair : Pair s s' p np .user { s.proc np with state := .runnable } :=
    Pair.of_set hne rfl (by rw [← hs'])
  obtain ⟨-, hself, hslot, hother, -⟩ := id hpair
  have hlock : s'.waitLock = s.waitLock := by rw [← hs']; rfl
  refine ⟨⟨?_, ?_, ?_, ?_, ?_⟩, hpair.threads h.toThreads (.inl hlock) hp (by simp [hpc])
    (.inr (by rw [hpc]; rfl)) hmine (.inr ⟨hused, .inr (.inl rfl)⟩)
    (h.pc_of_state (.inr hused)) (.inr rfl) ?_ ?_ rfl⟩
  · have := @h.parent
    grind [kind]
  · have := @h.has_parent
    grind [kind]
  · have := @h.lt
    grind [kind]
  · have := h.init
    grind [kind]
  · subst hs'
    exact h.exits_of rfl rfl (by grind [kind]) (by grind [kind])
  · simp [Local, hself, hp]
  · exact fun hw => h.unheld (by rw [hpc]; rfl) (hlock ▸ hw)

/-! ## `exit` -/

/-- `reparent` gives a child to init. -/
lemma Inv.adopt {status : Int} (h : s.Inv) (hpc : (s.proc p).pc = .reparent status i)
    (hi : (s.proc i).parent = some p) :
    ((s.set i { s.proc i with parent := some initproc }).goto p (.wakeInit status i 0)).Inv := by
  have hl := h.here p
  rw [hpc] at hl
  obtain ⟨⟨hp, hheld⟩, hpinit, hkids⟩ := hl
  obtain ⟨-, hne, hinit, hkind⟩ := h.parent hi
  have hmine : ∀ q, (s.proc q).pc.child = some i → q = p := fun q hq => by
    rcases (h.child_used hq).2 with hn | hn
    · simp [hi] at hn
    · simpa [hi, eq_comm] using hn
  generalize hs' :
    (s.set i { s.proc i with parent := some initproc }).goto p (.wakeInit status i 0) = s'
  have hpair : Pair s s' p i (.wakeInit status i 0) { s.proc i with parent := some initproc } :=
    Pair.of_set hne.symm rfl (by rw [← hs'])
  obtain ⟨-, hself, hslot, hother, -⟩ := id hpair
  have hlock : s'.waitLock = s.waitLock := by rw [← hs']; rfl
  have hasleep : ∀ q, s'.Asleep q → s.Asleep q := fun q => hpair.asleep (.inl ⟨rfl, rfl⟩)
  have hrely : ∀ q, q ≠ p → Rely s s' q := fun q hq => by
    by_cases hqi : q = i
    · subst hqi
      exact ⟨by rw [hslot], .inl (by rw [hslot]), by simp [hslot], by simp [hslot],
        (fun hw => by rw [hlock, hw]), by grind, by grind, by grind, fun _ => hasleep⟩
    · exact hpair.rely (.inl hlock) hasleep hmine hp (.inl hheld) hq hqi
  refine ⟨⟨?_, ?_, ?_, ?_, ?_⟩, h.toThreads.advance_rely (.inl hlock) hrely ?_ ?_ ?_ ?_ ?_⟩
  · have := @h.parent
    have := h.init
    grind [kind]
  · have := @h.has_parent
    grind [kind]
  · have := @h.lt
    grind [kind]
  · have := h.init
    grind [kind]
  · subst hs'
    exact h.exits_of rfl rfl (by grind [kind]) (by grind [kind])
  · rw [hself]
    refine ⟨⟨by rw [hself, hp], by rw [hlock, hheld]⟩, hpinit, fun k hk => ?_,
      fun hj => absurd hj (Nat.not_lt_zero _)⟩
    grind
  · intro _
    rw [hself]
    rfl
  · simp [hself, Pc.child]
  · grind [kind, Pc.child]
  · intro q c ha hc hz
    have hold : q = initproc := by
      by_cases hc' : c = i
      · rw [hc', hslot] at hc
        exact (Option.some.inj hc).symm
      · have := h.not_asleep hheld (by simp [hpc]) (q := q) (c := c)
        grind [kind]
    exact ⟨hold, p, status, i, 0, by rw [hself], Nat.zero_le _⟩

/-- The last step of `exit`. -/
lemma Inv.die {status : Int} (h : s.Inv) (hpc : (s.proc p).pc = .wakeParent status j)
    (hj : nproc ≤ j) :
    ((s.set p { s.proc p with xstate := status, state := .zombie, lock := true, pc := .dead }).release.emit
      (.exited p (s.proc p).pid status)).Inv := by
  have hl := h.here p
  rw [hpc] at hl
  obtain ⟨⟨hp, hheld⟩, hpinit, hkids, hawake⟩ := hl
  generalize hs' : (s.set p { s.proc p with
    xstate := status, state := .zombie, lock := true, pc := .dead }).release.emit
      (.exited p (s.proc p).pid status) = s'
  have hself : s'.proc p =
      { s.proc p with xstate := status, state := .zombie, lock := true, pc := .dead } := by
    simp [← hs', release, emit]
  have hother : ∀ q, q ≠ p → s'.proc q = s.proc q := fun q hp => by simp [← hs', release, emit, hp]
  have hexits : ∀ c, s'.exits c = s.exits c ++ if p = c then [((s.proc p).pid, status)] else [] :=
    fun c => by
      rw [← hs', exits_emit]
      rfl
  have hreaps : ∀ c, s'.reaps c = s.reaps c := fun c => by
    rw [← hs', reaps_emit, List.append_nil]
    rfl
  have hlock : s'.waitLock = none := by simp [← hs', release, emit]
  have hasleep : ∀ q, s'.Asleep q → s.Asleep q := fun q => by grind [Asleep]
  have hrely : ∀ q, q ≠ p → Rely s s' q := fun q hq =>
    ⟨by grind, by grind, by grind, by grind, by grind, by grind, by grind, by grind,
      fun _ => hasleep⟩
  refine ⟨⟨?_, ?_, ?_, ?_, ?_⟩, h.toThreads.advance_rely (.inr (.inr ⟨hheld, hlock⟩)) hrely
    ?_ ?_ ?_ ?_ ?_⟩
  · have := @h.parent
    grind [kind]
  · have := @h.has_parent
    grind [kind]
  · have := @h.lt
    grind [kind]
  · have := h.init
    grind [kind]
  · intro c
    rw [hexits, hreaps, h.exits c, List.append_assoc]
    congr 1
    by_cases hc : c = p
    · simp [hc, kind, hself, hp]
    · rw [if_neg fun he : p = c => hc he.symm, List.append_nil, kind, kind, hother c hc]
  · rw [hself]
    simp [Local, hself]
  · simp [hlock]
  · simp [hself, Pc.child]
  · grind [kind, Pc.child]
  · intro q c ha hc hz
    exfalso
    by_cases hc' : c = p
    · rw [hc', hself] at hc
      have hq : q < nproc := h.lt (by rw [(h.parent hc).1]; decide)
      exact hawake q hc (Nat.lt_of_lt_of_le hq hj) (hasleep q ha)
    · have := h.not_asleep hheld (by simp [hpc]) (q := q) (c := c)
      grind [kind]

/-! ## `wait` -/

/-- `wait` frees a zombie. -/
lemma Inv.reap {havekids : Bool} (h : s.Inv) (hpc : (s.proc p).pc = .scan addr i havekids)
    (hi : (s.proc i).parent = some p) (hz : (s.proc i).state = .zombie) :
    (((s.freeproc i).release.emit (.reaped p i (s.proc i).pid (s.proc i).xstate)).goto p .user).Inv := by
  have hl := h.here p
  rw [hpc] at hl
  obtain ⟨⟨hp, hheld⟩, hkids⟩ := hl
  obtain ⟨-, hne, hinit, hkind⟩ := h.parent hi
  have hipc := h.pc_of_zombie hz
  generalize hs' : ((s.freeproc i).release.emit
    (.reaped p i (s.proc i).pid (s.proc i).xstate)).goto p .user = s'
  have hpair : Pair s s' p i .user Proc.free := Pair.of_set hne.symm rfl (by rw [← hs']; rfl)
  obtain ⟨-, hself, hslot, hother, -⟩ := id hpair
  have hlock : s'.waitLock = none := by rw [← hs']; rfl
  have hexits : ∀ c, s'.exits c = s.exits c := fun c => by
    have := exits_emit (s.freeproc i).release (.reaped p i (s.proc i).pid (s.proc i).xstate) c
    rw [List.append_nil] at this
    rw [← hs']
    exact this
  have hreaps : ∀ c, s'.reaps c =
      s.reaps c ++ if i = c then [((s.proc i).pid, (s.proc i).xstate)] else [] := fun c => by
    have := reaps_emit (s.freeproc i).release (.reaped p i (s.proc i).pid (s.proc i).xstate) c
    rw [← hs']
    exact this
  have hasleep : ∀ q, s'.Asleep q → s.Asleep q := fun q => hpair.asleep (.inr rfl)
  have hmine : ∀ q, (s.proc q).pc.child = some i → q = p := fun q hq => by
    have := (h.child_used hq).1
    simp [hz] at this
  have hrely : ∀ q, q ≠ p → q ≠ i → Rely s s' q := fun q =>
    hpair.rely (.inr (.inr ⟨hheld, hlock⟩)) hasleep hmine hp (.inl hheld)
  refine ⟨⟨?_, ?_, ?_, ?_, ?_⟩, h.toThreads.advance (p := p) (.inr (.inr ⟨hheld, hlock⟩))
    (fun q hq => ?_) (fun q hq => ?_) (fun q hq => ?_) ?_ ?_ ?_ ?_ ?_⟩
  · have := @h.parent
    grind [kind, Proc.free]
  · have := @h.has_parent
    grind [kind, Proc.free]
  · have := @h.lt
    grind [kind, Proc.free]
  · have := h.init
    grind [kind, Proc.free]
  · intro c
    have hold := h.exits c
    rw [hexits, hreaps]
    by_cases hc : c = i
    · subst hc
      rw [hold, if_pos (kind_eq_zombie.mpr hz)]
      simp [kind, hslot, Proc.free]
    · rw [hold, if_neg fun he : i = c => hc he.symm, List.append_nil]
      grind [kind]
  · by_cases hqi : q = i
    · rw [hqi, hslot]
      simp [Local, hslot, Proc.free]
    · exact (hrely q hq hqi).stays (h.here q)
  · grind [Pc.child, Proc.free]
  · grind [Pc.holdsWait]
  · rw [hself]
    simp [Local, hself, hp]
  · simp [hlock]
  · simp [hself, Pc.child]
  · grind [kind, Pc.child, Proc.free]
  · intro q c ha hc hz
    have := h.not_asleep hheld (by simp [hpc]) (q := q) (c := c)
    grind [kind, Proc.free]

/-- `sleep` has `p->lock` and releases `wait_lock`. -/
lemma Inv.lock (h : s.Inv) (hpc : (s.proc p).pc = .sleep addr) :
    ((s.set p { s.proc p with lock := true }).release.goto p (.locked addr)).Inv := by
  have hl := h.here p
  rw [hpc] at hl
  obtain ⟨⟨hp, hheld⟩, hkids⟩ := hl
  refine h.change (x := { s.proc p with lock := true, pc := .locked addr }) ?_ rfl rfl
    (.inr (.inr ⟨hheld, rfl⟩)) ?_ rfl rfl rfl ?_ (fun hw => ?_) ?_ (fun _ => .inr ⟨hheld, ?_⟩) ?_
  · simp [goto, release, set]
  · simp [kind, release]
  · simp [Local, release, hp]
  · cases hw
  · rw [hpc]
    rfl
  · intro c hc hz
    exact hkids c hc (kind_eq_zombie.mp hz)
  · simp [hpc]

/-- The process goes to sleep on itself. -/
lemma Inv.lie (h : s.Inv) (hpc : (s.proc p).pc = .locked addr) :
    (s.set p { s.proc p with
      chan := some (.proc p), state := .sleeping, lock := false, pc := .asleep addr }).Inv := by
  have hl := h.here p
  rw [hpc] at hl
  refine h.change rfl rfl rfl (.inl rfl) ?_ rfl rfl rfl ?_ (h.unheld (by rw [hpc]; rfl)) ?_
    (fun _ => .inl ?_) ?_
  · simp [kind, hl.1]
  · simp [Local]
  · rw [hpc]
    rfl
  · exact .inl ⟨addr, hpc⟩
  · simp [hpc]

/-! ## The rounds of `wakeup` and of `wait` -/

/-- `reparent` wakes init up: process `j` is next. -/
lemma Inv.wakeInit {status : Int} (h : s.Inv) (hpc : (s.proc p).pc = .wakeInit status i j)
    (ht : s.wakeup p (some (.proc initproc)) j = some t) : (t.goto p (.wakeInit status i (j + 1))).Inv := by
  have hl := h.here p
  rw [hpc] at hl
  obtain ⟨⟨hp, hheld⟩, hinit, hkids, hawake⟩ := hl
  obtain ⟨h₁, hself, hlock, hparent, hasleep, hwoken⟩ := h.wakeup ht
  have hout : initproc < j + 1 → ¬ t.Asleep initproc := by
    intro hlt
    rcases Nat.lt_succ_iff_lt_or_eq.mp hlt with hlt | heq
    · exact fun ha => hawake hlt (hasleep _ ha)
    · subst heq
      exact hwoken hinit.symm rfl
  refine h₁.move rfl rfl rfl (.inl rfl) ⟨⟨?_, hlock.trans hheld⟩, hinit, fun k hk => ?_, fun hlt => ?_⟩
    (fun _ => rfl) (by rw [hself, hpc]; rfl) rfl ?_
  · rw [goto_state, hself, hp]
  · rw [goto_parent, hparent]
    exact hkids k hk
  · rw [goto_asleep hinit.symm]
    exact hout hlt
  · intro status' i' j' hpc' hj'
    rw [hself, hpc] at hpc'
    cases hpc'
    rcases Nat.lt_or_ge initproc (j + 1) with hlt | hle
    · exact .inl (hout hlt)
    · exact .inr ⟨status, i, j + 1, rfl, hle⟩

/-- Init has been woken up, and `reparent` looks at the next process. -/
lemma Inv.adopted {status : Int} (h : s.Inv) (hpc : (s.proc p).pc = .wakeInit status i j)
    (hj : ¬ j < nproc) : (s.goto p (.reparent status (i + 1))).Inv := by
  have hl := h.here p
  rw [hpc] at hl
  obtain ⟨⟨hp, hheld⟩, hinit, hkids, -⟩ := hl
  refine h.move rfl rfl rfl (.inl rfl) ⟨⟨(goto_state ..).trans hp, hheld⟩, hinit, fun k hk => ?_⟩
    (fun _ => rfl) (by rw [hpc]; rfl) rfl ?_
  · rw [goto_parent]
    exact hkids k (Nat.le_of_lt_succ hk)
  · intro status' i' j' hpc' hj'
    rw [hpc] at hpc'
    cases hpc'
    exact absurd (Nat.lt_of_le_of_lt hj' (by decide : initproc < nproc)) hj

/-- `exit` wakes the parent up: process `j` is next. -/
lemma Inv.wakeParent {status : Int} (h : s.Inv) (hpc : (s.proc p).pc = .wakeParent status j)
    (ht : s.wakeup p ((s.proc p).parent.map .proc) j = some t) :
    (t.goto p (.wakeParent status (j + 1))).Inv := by
  have hl := h.here p
  rw [hpc] at hl
  obtain ⟨⟨hp, hheld⟩, hinit, hkids, hawake⟩ := hl
  obtain ⟨h₁, hself, hlock, hparent, hasleep, hwoken⟩ := h.wakeup ht
  refine h₁.move rfl rfl rfl (.inl rfl)
    ⟨⟨?_, hlock.trans hheld⟩, hinit, fun k => ?_, fun q hq hlt => ?_⟩
    (fun _ => rfl) (by rw [hself, hpc]; rfl) rfl (by simp [hself, hpc])
  · rw [goto_state, hself, hp]
  · rw [goto_parent, hparent]
    exact hkids k
  · rw [goto_parent, hparent] at hq
    have hqp := (h.parent hq).2.1
    rw [goto_asleep hqp]
    rcases Nat.lt_succ_iff_lt_or_eq.mp hlt with hlt | rfl
    · exact fun ha => hawake q hq hlt (hasleep _ ha)
    · exact hwoken hqp (by rw [hq]; rfl)

/-- Process `i` is not a zombie child, and `wait` looks at the next one. -/
lemma Inv.scan {havekids : Bool} (h : s.Inv) (hpc : (s.proc p).pc = .scan addr i havekids)
    (hi : (s.proc i).parent = some p → (s.proc i).state ≠ .zombie) (b : Bool) :
    (s.goto p (.scan addr (i + 1) b)).Inv := by
  have hl := h.here p
  rw [hpc] at hl
  obtain ⟨⟨hp, hheld⟩, hkids⟩ := hl
  refine h.move rfl rfl rfl (.inl rfl) ⟨⟨(goto_state ..).trans hp, hheld⟩, fun k hk hkp => ?_⟩
    (fun _ => rfl) (by rw [hpc]; rfl) rfl (by simp [hpc])
  rw [goto_parent] at hkp
  rw [goto_state]
  rcases Nat.lt_succ_iff_lt_or_eq.mp hk with hk | rfl
  · exact hkids k hk hkp
  · exact hi hkp

/-- `wait` has seen every process, and none was a zombie child. -/
lemma Inv.scanned {havekids : Bool} (h : s.Inv) (hpc : (s.proc p).pc = .scan addr i havekids)
    (hi : ¬ i < nproc) : (s.goto p (.sleep addr)).Inv := by
  have hl := h.here p
  rw [hpc] at hl
  obtain ⟨⟨hp, hheld⟩, hkids⟩ := hl
  refine h.move rfl rfl rfl (.inl rfl) ⟨⟨(goto_state ..).trans hp, hheld⟩, fun k hk => ?_⟩
    (fun _ => rfl) (by rw [hpc]; rfl) rfl (by simp [hpc])
  rw [goto_parent] at hk
  rw [goto_state]
  have hlt : k < nproc := h.lt (h.parent hk).2.2.2
  exact hkids k (Nat.lt_of_lt_of_le hlt (Nat.le_of_not_lt hi)) hk

/-! ## Every step -/

lemma acquire_map {f : Table → Table} : (s.acquire p).map f = some s' ↔
    s.waitLock = none ∧ s' = f { s with waitLock := some p } := by
  rw [acquire]
  split
  next hw => simp [hw, eq_comm]
  next hw => simp [hw]

/-- `wait` returns -1. -/
lemma Inv.fail {havekids : Bool} (h : s.Inv) (hpc : (s.proc p).pc = .scan addr i havekids) :
    ((s.release.emit (.failed p)).goto p .user).Inv := by
  have hl := h.here p
  rw [hpc] at hl
  obtain ⟨⟨hp, hheld⟩, -⟩ := hl
  refine h.move rfl (funext fun c => ?_) (funext fun c => ?_) (.inr (.inr ⟨hheld, rfl⟩)) ?_ ?_ ?_
    rfl ?_
  · exact (exits_emit s.release (.failed p) c).trans (List.append_nil _)
  · exact (reaps_emit s.release (.failed p) c).trans (List.append_nil _)
  · simp [Local, release, emit, hp]
  · simp [release, emit]
  · rw [hpc]
    rfl
  · simp [hpc]

lemma Inv.next {ok : Bool} (h : s.Inv) (hp : (s.proc p).state = .running)
    (hs : s.next p ok = some s') : s'.Inv := by
  have hl := h.here p
  have hgo : ∀ pc, ((s.goto p pc).proc p).state = .running := fun pc => by rw [goto_state, hp]
  unfold Table.next at hs
  cases hpc : (s.proc p).pc with
  | user | dead | asleep addr => simp [hpc] at hs
  | alloc i =>
    simp only [hpc] at hs hl
    split at hs
    next hi =>
      rw [Option.ite_none_left_eq_some] at hs
      obtain ⟨-, hs⟩ := hs
      split at hs
      next hunused =>
        cases hs
        exact h.alloc (x := { s.proc i with state := .used, pid := s.nextpid, lock := true })
          hp hpc hi hunused rfl rfl rfl _
      next =>
        cases hs
        exact h.move rfl rfl rfl (.inl rfl) (.inl (hgo _)) (h.unheld (by rw [hpc]; rfl))
          (by rw [hpc]; rfl) rfl (by simp [hpc])
    next =>
      cases hs
      refine h.move rfl rfl rfl (.inl rfl) ?_ (h.unheld (by rw [hpc]; rfl)) (by rw [hpc]; rfl) rfl
        (by simp [hpc])
      simp [Local, hp]
  | filled np =>
    simp only [hpc] at hs hl
    split at hs
    next =>
      cases hs
      obtain ⟨-, hused, hnone⟩ := hl
      have hne : np ≠ p := by
        rintro rfl
        simp [hp] at hused
      have hnpc := h.pc_of_state (.inr hused)
      have h₁ := h.disturb (i := np) (x := { s.proc np with lock := false }) rfl (.inl rfl) rfl rfl rfl
        rfl (by simp [hnpc])
      refine h₁.move rfl rfl rfl (.inl rfl) ⟨.inl ?_, ?_, ?_⟩ (h.unheld (by rw [hpc]; rfl)) ?_ rfl ?_
      · simp [hne.symm, hp]
      · simp [hne, hused]
      · simp [hne, hnone]
      · simp [hne.symm, hpc, Pc.child]
      · simp [hne.symm, hpc]
    next =>
      cases hs
      exact h.unalloc hpc
  | publish np =>
    simp only [hpc] at hs hl
    obtain ⟨hfree, rfl⟩ := acquire_map.mp hs
    refine h.move rfl rfl rfl (.inr (.inl ⟨hfree, rfl⟩)) ⟨⟨hgo _, rfl⟩, ?_, ?_⟩ (fun _ => rfl)
      (by rw [hpc]; rfl) rfl (by simp [hpc])
    · rw [goto_state, hl.2.1]
    · rw [goto_parent, hl.2.2]
  | published np =>
    simp only [hpc] at hs
    cases hs
    exact h.publish hpc
  | ready np =>
    simp only [hpc, Option.ite_none_left_eq_some] at hs
    obtain ⟨-, hs⟩ := hs
    cases hs
    exact h.ready hp hpc
  | exit status =>
    simp only [hpc] at hs hl
    obtain ⟨hfree, rfl⟩ := acquire_map.mp hs
    refine h.move rfl rfl rfl (.inr (.inl ⟨hfree, rfl⟩)) ⟨⟨hgo _, rfl⟩, hl.2, ?_⟩ (fun _ => rfl)
      (by rw [hpc]; rfl) rfl (by simp [hpc])
    exact fun k hk => absurd hk (Nat.not_lt_zero k)
  | reparent status i =>
    simp only [hpc] at hs hl
    obtain ⟨⟨-, hheld⟩, hinit, hkids⟩ := hl
    split at hs
    next hi =>
      split at hs
      next hchild =>
        cases hs
        exact h.adopt hpc hchild
      next hchild =>
        cases hs
        refine h.move rfl rfl rfl (.inl rfl) ⟨⟨hgo _, hheld⟩, hinit, fun k hk => ?_⟩ (fun _ => rfl)
          (by rw [hpc]; rfl) rfl (by simp [hpc])
        rw [goto_parent]
        rcases Nat.lt_succ_iff_lt_or_eq.mp hk with hk | rfl
        · exact hkids k hk
        · exact hchild
    next hi =>
      cases hs
      refine h.move rfl rfl rfl (.inl rfl) ⟨⟨hgo _, hheld⟩, hinit, fun k hk => ?_, fun q _ hq => ?_⟩
        (fun _ => rfl) (by rw [hpc]; rfl) rfl (by simp [hpc])
      · rw [goto_parent] at hk
        have hlt : k < nproc := h.lt (h.parent hk).2.2.2
        exact hkids k (Nat.lt_of_lt_of_le hlt (Nat.le_of_not_lt hi)) hk
      · exact absurd hq (Nat.not_lt_zero q)
  | wakeInit status i j =>
    simp only [hpc] at hs
    split at hs
    next =>
      obtain ⟨t, ht, rfl⟩ := Option.map_eq_some_iff.mp hs
      exact h.wakeInit hpc ht
    next hj =>
      cases hs
      exact h.adopted hpc hj
  | wakeParent status j =>
    simp only [hpc] at hs
    split at hs
    next =>
      obtain ⟨t, ht, rfl⟩ := Option.map_eq_some_iff.mp hs
      exact h.wakeParent hpc ht
    next hj =>
      cases hs
      exact h.die hpc (Nat.le_of_not_lt hj)
  | wait addr =>
    simp only [hpc] at hs hl
    obtain ⟨hfree, rfl⟩ := acquire_map.mp hs
    refine h.move rfl rfl rfl (.inr (.inl ⟨hfree, rfl⟩)) ⟨⟨hgo _, rfl⟩, ?_⟩ (fun _ => rfl)
      (by rw [hpc]; rfl) rfl (by simp [hpc])
    exact fun k hk => absurd hk (Nat.not_lt_zero k)
  | scan addr i havekids =>
    simp only [hpc] at hs
    split at hs
    next =>
      split at hs
      next hchild =>
        rw [Option.ite_none_left_eq_some] at hs
        obtain ⟨-, hs⟩ := hs
        split at hs
        next hz =>
          split at hs
          next =>
            cases hs
            exact h.fail hpc
          next =>
            cases hs
            exact h.reap hpc hchild hz
        next hz =>
          cases hs
          exact h.scan hpc (fun _ => hz) true
      next hchild =>
        cases hs
        exact h.scan hpc (fun hi => absurd hi hchild) havekids
    next hi =>
      split at hs
      next =>
        cases hs
        exact h.fail hpc
      next =>
        cases hs
        exact h.scanned hpc hi
  | sleep addr =>
    rw [hpc] at hs
    obtain ⟨-, hs⟩ := Option.ite_none_left_eq_some.mp hs
    cases hs
    exact h.lock hpc
  | locked addr =>
    simp only [hpc] at hs
    cases hs
    exact h.lie hpc

/-- The scheduler runs a process, or stops it where it holds no lock. -/
lemma Inv.turn {x : Proc} (h : s.Inv) (hkind : s.kind p = .alive)
    (hpc : (s.proc p).pc.interruptible) (hx : x.state = .running ∨ x.state = .runnable ∨
      x.state = .sleeping ∧ (s.proc p).pc = .user)
    (hxpc : x.pc = (s.proc p).pc) (hparent : x.parent = (s.proc p).parent)
    (hpid : x.pid = (s.proc p).pid) (hxstate : x.xstate = (s.proc p).xstate) : (s.set p x).Inv := by
  have hl := h.here p
  have hself : (s.set p x).proc p = x := by simp
  have hne : ∀ np, (s.proc p).pc.child = some np → np ≠ p := by
    rintro np hnp rfl
    have := (h.child_used hnp).1
    rw [← kind_eq_used, hkind] at this
    cases this
  have hawake : ((s.proc p).pc ≠ .user) → (s.set p x).Awake p := fun hu => by
    rw [Awake, hself]
    exact hx.imp_right fun hx => hx.resolve_right fun hx => hu hx.2
  refine h.change rfl rfl rfl (.inl rfl) ?_ hparent hpid hxstate ?_ (fun hw => ?_) (by rw [hxpc])
    (fun ha => ?_) fun hp => ?_
  · rw [hkind, kind_eq_alive, hself]
    exact hx.imp_right (Or.imp_right And.left)
  · rw [hxpc]
    cases hc : (s.proc p).pc with
    | user =>
      rw [Local, hself]
      rcases hx with hx | hx | hx <;> simp [hx]
    | alloc i | wait addr => exact hawake (by simp [hc])
    | publish np | ready np =>
      rw [hc] at hl
      have hnp := hne np (by rw [hc]; rfl)
      exact ⟨hawake (by simp [hc]), by simp [hnp, hl.2.1], by simp [hnp, hl.2.2]⟩
    | exit status =>
      rw [hc] at hl
      exact ⟨hawake (by simp [hc]), hl.2⟩
    | filled _ | published _ | reparent _ _ | wakeInit _ _ _ | wakeParent _ _ | dead | scan _ _ _
    | sleep _ | locked _ | asleep _ =>
      rw [hc] at hpc
      cases hpc
  · have := h.holder hw
    cases hc : (s.proc p).pc <;> simp [hc, Pc.interruptible, Pc.holdsWait] at hpc this
  · rw [Asleep, hself, hxpc] at ha
    rcases ha with ⟨addr, ha⟩ | ⟨-, addr, ha⟩
    · rw [ha] at hpc
      cases hpc
    · rw [ha] at hpc
      cases hpc
  · rw [hp] at hpc
    cases hpc

/-- A process that calls nothing starts a call. -/
lemma Inv.call {pc : Pc} (h : s.Inv) (hp : s.InUser p) (hhere : (s.goto p pc).Local p pc)
    (hchild : pc.child = none) (hawake : pc.sleeps = false) : (s.goto p pc).Inv := by
  exact h.move rfl rfl rfl (.inl rfl) hhere (h.unheld (by rw [hp.2]; rfl)) (by rw [hp.2, hchild]; rfl)
    hawake (by simp [hp.2])

lemma Threads.runnable (h : s.Threads) (hp : (s.proc p).state = .runnable) :
    (s.proc p).pc.interruptible ∨ ∃ addr, (s.proc p).pc = .asleep addr := by
  have hl := h.here p
  cases hpc : (s.proc p).pc with
  | user | alloc _ | publish _ | ready _ | exit _ | wait _ => exact .inl rfl
  | asleep addr => exact .inr ⟨addr, rfl⟩
  | filled _ | published _ | reparent _ _ | wakeInit _ _ _ | wakeParent _ _ | dead | scan _ _ _
  | sleep _ | locked _ =>
    rw [hpc] at hl
    simp [Local, Holds, hp] at hl

lemma Inv.resume (h : s.Inv) (hp : (s.proc p).state = .runnable) : (s.resume p).Inv := by
  rcases h.runnable hp with hpc | ⟨addr, hpc⟩
  · have hs : s.resume p = s.set p { s.proc p with state := .running, chan := none } := by
      unfold Table.resume
      cases hc : (s.proc p).pc <;> simp_all [Pc.interruptible]
    rw [hs]
    exact h.turn (by simp [kind, hp]) hpc (.inl rfl) rfl rfl rfl rfl
  · have hs : s.resume p =
        s.set p { s.proc p with state := .running, chan := none, pc := .wait addr } := by
      simp [Table.resume, hpc]
    rw [hs]
    refine h.change rfl rfl rfl (.inl rfl) ?_ rfl rfl rfl ?_ (h.unheld (by rw [hpc]; rfl))
      (by rw [hpc]; rfl) (fun ha => ?_) (by simp [hpc])
    · simp [kind, hp]
    · simp [Local, Awake]
    · simp [Asleep] at ha

lemma Inv.step {a : Action} (h : s.Inv) (hs : s.step a = some s') : s'.Inv := by
  cases a with
  | run p =>
    obtain ⟨⟨hp, -⟩, rfl⟩ := of_guard hs
    exact h.resume hp
  | switch p =>
    obtain ⟨hpc, rfl⟩ := of_guard hs
    exact h.disturb rfl (.inl rfl) rfl rfl rfl rfl (by simp [hpc])
  | yield p =>
    obtain ⟨⟨hp, hpc, -⟩, rfl⟩ := of_guard hs
    exact h.turn (by simp [kind, hp]) hpc (.inr (.inl rfl)) rfl rfl rfl rfl
  | sleep p n =>
    obtain ⟨⟨hp, -⟩, rfl⟩ := of_guard hs
    exact h.turn (by simp [kind, hp.1]) (by rw [hp.2]; rfl) (.inr (.inr ⟨rfl, hp.2⟩)) rfl rfl rfl rfl
  | wakeup p n j => exact (h.wakeup hs).1
  | kill p i =>
    obtain ⟨-, rfl⟩ := of_guard hs
    refine h.disturb rfl ?_ rfl rfl rfl rfl fun _ _ => rfl
    split
    next hsleep => exact .inr ⟨hsleep, rfl⟩
    next => exact .inl rfl
  | fork p | wait p addr =>
    obtain ⟨hp, rfl⟩ := of_guard hs
    exact h.call hp (.inl (by rw [goto_state, hp.1])) rfl rfl
  | exit p status =>
    obtain ⟨⟨hp, hinit⟩, rfl⟩ := of_guard hs
    exact h.call hp ⟨.inl (by rw [goto_state, hp.1]), hinit⟩ rfl rfl
  | next p ok =>
    simp only [Table.step, Option.ite_none_right_eq_some] at hs
    exact h.next hs.1 hs.2

lemma userinit_inv : userinit.Inv := by
  have hfree : ∀ i, i ≠ initproc → userinit.proc i = Proc.free := fun i hi => by
    simp [userinit, hi]
  have hinit : userinit.proc initproc = { Proc.free with state := .runnable, pid := 1 } := by
    simp [userinit]
  have hpc : ∀ i, (userinit.proc i).pc = .user ∧ (userinit.proc i).parent = none := fun i => by
    by_cases hi : i = initproc
    · rw [hi, hinit]
      exact ⟨rfl, rfl⟩
    · rw [hfree i hi]
      exact ⟨rfl, rfl⟩
  have hkind : ∀ i, userinit.kind i = if i = initproc then .alive else .unused := fun i => by
    by_cases hi : i = initproc
    · rw [kind, hi, hinit]
      rfl
    · rw [kind, hfree i hi, if_neg hi]
      rfl
  refine ⟨⟨fun {i q} hp => ?_, fun {i} hi hk => ?_, fun {i} hk => ?_, ?_, fun c => ?_⟩,
    fun p => ?_, fun {p} hp => ?_, fun {i} hk => ?_, fun {p q i} hp => ?_, fun {p c} _ hc => ?_⟩
  · simp [hpc] at hp
  · simp [hkind, hi] at hk
  · by_cases hi : i = initproc
    · rw [hi]
      decide
    · simp [hkind, hi] at hk
  · simp [hkind]
  · have hz : userinit.kind c ≠ .zombie := by
      rw [hkind]
      split <;> decide
    rw [if_neg hz]
    rfl
  · rw [(hpc p).1]
    intro hz
    rw [← kind_eq_zombie, hkind] at hz
    split at hz <;> cases hz
  · cases hp
  · rw [hkind] at hk
    split at hk <;> cases hk
  · rw [(hpc p).1] at hp
    cases hp
  · simp [hpc] at hc

lemma run_inv {as : List Action} (hrun : Lib.run step userinit as = some s) : s.Inv :=
  run_induction (P := fun _ s => s.Inv) hrun userinit_inv fun _ _ _ _ h hs => h.step hs

end Xv6.ProcTable.Table
