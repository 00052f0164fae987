import Xv6.Process.LifecycleStep

/-!
# Exit and wait

What becomes of a process that exits. Its slot keeps the pid and the status until one call
of `wait` of its parent returns them, and that parent is init once the first one has exited.
-/

namespace Xv6.ProcTable.Table

open Lib

variable {s s' : Table} {p q i j c np addr : Nat}

/-! ## Zombies -/

/-- The slot of a zombie stays as it is, but init may become its parent. -/
def Kept (s s' : Table) (c : Nat) : Prop :=
  (s'.proc c).state = .zombie ∧ (s'.proc c).pid = (s.proc c).pid ∧
    (s'.proc c).xstate = (s.proc c).xstate ∧
    ((s'.proc c).parent = (s.proc c).parent ∨ (s'.proc c).parent = some initproc)

/-- A call of `wait` by the parent returns it, and frees the slot. -/
def Reaped (s s' : Table) (c : Nat) (a : Action) : Prop :=
  ∃ q ok addr havekids, a = .next q ok ∧ (s.proc q).pc = .scan addr c havekids ∧
    (s.proc c).parent = some q ∧ (s'.proc q).pc = .user ∧ s'.proc c = Proc.free ∧
    s'.trace = s.trace ++ [.reaped q c (s.proc c).pid (s.proc c).xstate]

lemma Kept.refl (hc : (s.proc c).state = .zombie) : Kept s s c := ⟨hc, rfl, rfl, .inl rfl⟩

lemma Kept.set {x : Proc} (hc : (s.proc c).state = .zombie) (hx : c = i → Kept s (s.set i x) i) :
    Kept s (s.set i x) c := by
  by_cases he : c = i
  · rw [he]
    exact hx he
  · simp [Kept, he, hc]

/-- A slot that is not a zombie changes. -/
lemma Kept.set_other {x : Proc} (hc : (s.proc c).state = .zombie) (hi : (s.proc i).state ≠ .zombie) :
    Kept s (s.set i x) c :=
  Kept.set hc fun he => absurd (he ▸ hc) hi

lemma Kept.goto {pc : Pc} (h : Kept s s' c) : Kept s (s'.goto p pc) c := by
  by_cases he : c = p
  · subst he
    simpa [Kept] using h
  · simpa [Kept, he] using h

lemma Kept.wakeup {chan : Option Chan} (hc : (s.proc c).state = .zombie)
    (hs : s.wakeup p chan j = some s') : Kept s s' c := by
  unfold Table.wakeup at hs
  split at hs
  next =>
    cases hs
    exact Kept.refl hc
  next =>
    obtain ⟨-, hs⟩ := Option.ite_none_left_eq_some.mp hs
    split at hs
    next hsleep =>
      cases hs
      exact Kept.set_other hc (by simp [hsleep.1])
    next =>
      cases hs
      exact Kept.refl hc

lemma Inv.zombie_next {ok : Bool} (h : s.Inv) (hp : (s.proc p).state = .running)
    (hs : s.next p ok = some s') (hc : (s.proc c).state = .zombie) :
    Kept s s' c ∨ Reaped s s' c (.next p ok) := by
  have hl := h.here p
  unfold Table.next at hs
  cases hpc : (s.proc p).pc with
  | user | dead | asleep addr => simp [hpc] at hs
  | alloc i =>
    simp only [hpc] at hs
    split at hs
    next =>
      obtain ⟨-, hs⟩ := Option.ite_none_left_eq_some.mp hs
      split at hs
      next hunused =>
        cases hs
        exact .inl (Kept.goto (Kept.set_other (i := i) hc (by simp [hunused])))
      next =>
        cases hs
        exact .inl (Kept.refl hc).goto
    next =>
      cases hs
      exact .inl (Kept.refl hc).goto
  | filled np =>
    simp only [hpc] at hs hl
    split at hs
    next =>
      cases hs
      exact .inl (Kept.goto (Kept.set_other hc (by simp [hl.2.1])))
    next =>
      cases hs
      exact .inl (Kept.goto (Kept.set_other hc (by simp [hl.2.1])))
  | publish np | exit status | wait addr =>
    rw [hpc] at hs
    obtain ⟨-, rfl⟩ := acquire_map.mp hs
    exact .inl (Kept.refl hc).goto
  | published np =>
    rw [hpc] at hs hl
    cases hs
    have hset : Kept s (s.set np { s.proc np with parent := some p }) c :=
      Kept.set_other hc (by simp [hl.2.1])
    exact .inl hset.goto
  | ready np =>
    rw [hpc] at hs hl
    obtain ⟨-, hs⟩ := Option.ite_none_left_eq_some.mp hs
    cases hs
    exact .inl (Kept.goto (Kept.set_other hc (by simp [hl.2.1])))
  | reparent status i =>
    simp only [hpc] at hs
    split at hs
    next =>
      split at hs
      next =>
        cases hs
        refine .inl (Kept.goto (Kept.set hc fun he => ?_))
        subst he
        simp [Kept, hc]
      next =>
        cases hs
        exact .inl (Kept.refl hc).goto
    next =>
      cases hs
      exact .inl (Kept.refl hc).goto
  | wakeInit status i j =>
    simp only [hpc] at hs
    split at hs
    next =>
      obtain ⟨t, ht, rfl⟩ := Option.map_eq_some_iff.mp hs
      exact .inl (Kept.wakeup hc ht).goto
    next =>
      cases hs
      exact .inl (Kept.refl hc).goto
  | wakeParent status j =>
    simp only [hpc] at hs
    split at hs
    next =>
      obtain ⟨t, ht, rfl⟩ := Option.map_eq_some_iff.mp hs
      exact .inl (Kept.wakeup hc ht).goto
    next =>
      cases hs
      exact .inl (Kept.set_other (i := p) hc (by simp [hp]))
  | scan addr i havekids =>
    simp only [hpc] at hs
    split at hs
    next =>
      split at hs
      next hchild =>
        obtain ⟨-, hs⟩ := Option.ite_none_left_eq_some.mp hs
        split at hs
        next hz =>
          split at hs
          next =>
            cases hs
            exact .inl (Kept.refl hc).goto
          next =>
            cases hs
            by_cases he : c = i
            · subst he
              have hne := (h.parent hchild).2.1
              exact .inr ⟨p, ok, addr, havekids, rfl, hpc, hchild, by simp,
                by simp [freeproc, hne.symm], rfl⟩
            · have hset : Kept s (s.freeproc i) c := Kept.set hc fun he' => absurd he' he
              exact .inl hset.goto
        next =>
          cases hs
          exact .inl (Kept.refl hc).goto
      next =>
        cases hs
        exact .inl (Kept.refl hc).goto
    next =>
      left
      split at hs
      next =>
        cases hs
        exact (Kept.refl hc).goto
      next =>
        cases hs
        exact (Kept.refl hc).goto
  | sleep addr =>
    rw [hpc] at hs
    obtain ⟨-, hs⟩ := Option.ite_none_left_eq_some.mp hs
    cases hs
    have hset : Kept s (s.set p { s.proc p with lock := true }) c := Kept.set_other hc (by simp [hp])
    exact .inl hset.goto
  | locked addr =>
    rw [hpc] at hs
    cases hs
    exact .inl (Kept.set_other hc (by simp [hp]))

lemma Inv.zombie_step {a : Action} (h : s.Inv) (hs : s.step a = some s')
    (hc : (s.proc c).state = .zombie) : Kept s s' c ∨ Reaped s s' c a := by
  cases a with
  | run p =>
    simp only [Table.step, Option.ite_none_right_eq_some] at hs
    obtain ⟨⟨hp, -⟩, hs⟩ := hs
    cases hs
    left
    unfold Table.resume
    dsimp only
    split
    next => exact Kept.set_other hc (by simp [hp])
    next => exact Kept.set_other hc (by simp [hp])
  | switch p | kill p i =>
    simp only [Table.step, Option.ite_none_right_eq_some] at hs
    obtain ⟨-, hs⟩ := hs
    cases hs
    refine .inl (Kept.set hc fun he => ?_)
    subst he
    simp [Kept, hc]
  | yield p =>
    simp only [Table.step, Option.ite_none_right_eq_some] at hs
    obtain ⟨⟨hp, -⟩, hs⟩ := hs
    cases hs
    exact .inl (Kept.set_other hc (by simp [hp]))
  | sleep p n =>
    simp only [Table.step, Option.ite_none_right_eq_some] at hs
    obtain ⟨⟨hp, -⟩, hs⟩ := hs
    cases hs
    exact .inl (Kept.set_other hc (by simp [hp.1]))
  | wakeup p n j => exact .inl (Kept.wakeup hc hs)
  | fork p | exit p status | wait p addr =>
    simp only [Table.step, Option.ite_none_right_eq_some] at hs
    obtain ⟨-, hs⟩ := hs
    cases hs
    exact .inl (Kept.refl hc).goto
  | next p ok =>
    simp only [Table.step, Option.ite_none_right_eq_some] at hs
    exact h.zombie_next hs.1 hs.2 hc

/-! ## Every run -/

/-- `fork` has set the parent of the process in slot `i`. -/
def Published (s : Table) (i : Nat) : Prop :=
  ∀ p, (s.proc p).pc ≠ .filled i ∧ (s.proc p).pc ≠ .publish i ∧ (s.proc p).pc ≠ .published i

lemma Inv.published (h : s.Inv) (hi : i ≠ initproc) (hstate : (s.proc i).state ≠ .unused)
    (hpub : s.Published i) : ∃ q, (s.proc i).parent = some q ∧ s.kind q = .alive := by
  have hsome : (s.proc i).parent ≠ none := by
    cases hk : s.kind i with
    | unused => exact absurd (kind_eq_unused.mp hk) hstate
    | used =>
      obtain ⟨p, hp⟩ := h.used hk
      have hl := h.here p
      obtain ⟨h₁, h₂, h₃⟩ := hpub p
      cases hpc : (s.proc p).pc <;> simp_all [Pc.child, Local]
    | alive => exact h.has_parent hi (.inl hk)
    | zombie => exact h.has_parent hi (.inr hk)
  obtain ⟨q, hq⟩ := Option.ne_none_iff_exists'.mp hsome
  exact ⟨q, hq, (h.parent hq).1⟩

/-- `wait` found a zombie but cannot store its status. -/
lemma Inv.copyout_fails {havekids : Bool} (h : s.Inv) (hpc : (s.proc q).pc = .scan addr c havekids)
    (hc : (s.proc c).parent = some q) (hz : (s.proc c).state = .zombie) (haddr : addr ≠ 0)
    (hs : s.next q false = some s') :
    s'.proc = (s.goto q .user).proc ∧ s'.trace = s.trace ++ [.failed q] := by
  have hlt : c < nproc := h.lt (h.parent hc).2.2.2
  unfold Table.next at hs
  simp only [hpc] at hs
  rw [if_pos hlt, if_pos hc] at hs
  obtain ⟨-, hs⟩ := Option.ite_none_left_eq_some.mp hs
  rw [if_pos hz, if_pos ⟨haddr, trivial⟩] at hs
  cases hs
  exact ⟨rfl, rfl⟩

/-- Every run: while `wait_lock` is free, parents are alive and no process sleeps in `wait`
with a zombie child. The exits of a slot are what `wait` returned, in this order, and last
the zombie that is still there. A zombie stays until a call of `wait` of its parent, and a
call whose `copyout` fails changes no slot but its own. -/
theorem exit_wait_run {as : List Action} (hrun : Lib.run step userinit as = some s) :
    (s.waitLock = none → ∀ i, i ≠ initproc → (s.proc i).state ≠ .unused → s.Published i →
      ∃ q, (s.proc i).parent = some q ∧ (s.proc q).state ≠ .unused ∧ (s.proc q).state ≠ .zombie) ∧
    (s.waitLock = none → ∀ p addr c, (s.proc p).state = .sleeping → (s.proc p).pc = .asleep addr →
      (s.proc c).parent = some p → (s.proc c).state ≠ .zombie) ∧
    (∀ c, s.exits c = s.reaps c ++
      if (s.proc c).state = .zombie then [((s.proc c).pid, (s.proc c).xstate)] else []) ∧
    (∀ a s' c, s.step a = some s' → (s.proc c).state = .zombie → Kept s s' c ∨ Reaped s s' c a) ∧
    ∀ q addr c havekids s', (s.proc q).pc = .scan addr c havekids → (s.proc c).parent = some q →
      (s.proc c).state = .zombie → addr ≠ 0 → s.step (.next q false) = some s' →
      s'.proc = (s.goto q .user).proc ∧ s'.trace = s.trace ++ [.failed q] := by
  have h := run_inv hrun
  refine ⟨fun _ i hi hstate hpub => ?_, fun hfree p addr c hp hpc hc hz => ?_, fun c => ?_,
    fun a s' c hs hz => h.zombie_step hs hz, fun q addr c havekids s' hpc hc hz haddr hs => ?_⟩
  · obtain ⟨q, hq, hk⟩ := h.published hi hstate hpub
    refine ⟨q, hq, fun hu => ?_, fun hz => ?_⟩
    · rw [kind_eq_unused.mpr hu] at hk
      cases hk
    · rw [kind_eq_zombie.mpr hz] at hk
      cases hk
  · obtain ⟨-, q, status, i, j, hq, -⟩ := h.wake (.inr ⟨hp, addr, hpc⟩) hc (kind_eq_zombie.mpr hz)
    have hl := h.here q
    rw [hq] at hl
    have hheld := hl.1.2
    rw [hfree] at hheld
    cases hheld
  · have hexits := h.exits c
    simp only [kind_eq_zombie] at hexits
    exact hexits
  · simp only [step, Option.ite_none_right_eq_some] at hs
    exact h.copyout_fails hpc hc hz haddr hs.2

/-- Init forks, the child exits, and init waits for it. -/
def forkExitWait : List Action :=
  List.flatten [[.run 0, .fork 0], List.replicate 6 (.next 0 true), [.run 1, .exit 1 5],
    List.replicate 131 (.next 1 true), [.switch 1, .wait 0 8], List.replicate 3 (.next 0 true)]

theorem exit_wait_run_reaped : ∃ s, Lib.run step userinit forkExitWait = some s ∧
    (s.proc 1).state = .unused ∧ s.exits 1 = [(2, 5)] ∧ s.reaps 1 = [(2, 5)] := by
  have hsome : (Lib.run step userinit forkExitWait).map
      (fun s => ((s.proc 1).state, s.exits 1)) = some (.unused, [(2, 5)]) := by
    decide +kernel
  obtain ⟨s, hs, hboth⟩ := Option.map_eq_some_iff.mp hsome
  obtain ⟨hfree, hexited⟩ := Prod.mk.inj hboth
  have hexits := (exit_wait_run hs).2.2.1 1
  rw [hfree, hexited] at hexits
  exact ⟨s, hs, hfree, hexited, by simpa using hexits.symm⟩

end Xv6.ProcTable.Table
