import Xv6.Inode.Table

/-!
# What the users of the inode table rely on

An inode that is free on the disk may still have an entry in the table, but then the only
reference to it belongs to a call of `iput` that has written type 0 and is about to drop
it (`Quiet`). So `ialloc` may take the inode: nobody writes to it any more, and the entry
is not valid once its sleep-lock can be had.
-/

namespace Xv6.Inode

open Function Lib

/-- The entry of an `iput` that has written type 0. -/
def Pc.finishing : Pc → Option Nat
  | .cleared e | .drop e => some e
  | _ => none

/-- The entry of an `iput` that frees the inode and has not yet written type 0. -/
def Pc.frees : Pc → Option Nat
  | .trunc e | .clear e => some e
  | _ => none

/-- The entry of an `iput`. -/
def Pc.puts : Pc → Option Nat
  | .put e | .trunc e | .clear e | .cleared e | .drop e => some e
  | _ => none

namespace Itable

/-- Only a call of `iput` that is about to end refers to the inode. -/
def Quiet (s : Itable) (k : Key) : Prop :=
  ∀ e, 0 < (s.entry e).ref → (s.entry e).key = k → (s.entry e).ref = 1 ∧
    (∀ q, (q, e) ∈ s.refs → (s.pc q).finishing = some e) ∧
    ((s.entry e).valid → ∃ q, s.pc q = .cleared e)

/-- Process `p` frees the inode of entry `e`. -/
structure Freeing (s : Itable) (p e : Nat) : Prop where
  lock : (s.entry e).lock = some p
  valid : (s.entry e).valid
  nlink : (s.entry e).copy.nlink = 0
  ref : (s.entry e).ref = 1

/-- What a process relies on where it is. -/
def Local (s : Itable) (p : Nat) : Pc → Prop
  | .idle => True
  | .scan type _ _ => type ≠ 0
  | .marked type k => type ≠ 0 ∧ s.disk k = Dinode.fresh type ∧ s.Quiet k ∧ s.owners k = []
  | .acquire e => (p, e) ∈ s.refs
  | .read e => (s.entry e).lock = some p
  | .put e => (p, e) ∈ s.refs ∧ (s.entry e).lock ≠ some p
  | .trunc e => s.Freeing p e
  | .clear e => s.Freeing p e
  | .cleared e => (s.entry e).lock = some p
  | .drop e => (p, e) ∈ s.refs ∧ (s.entry e).lock ≠ some p

/-- What holds after every step. -/
structure Inv (s : Itable) : Prop where
  refs : ∀ e, (s.entry e).ref = s.refs.countP fun w => w.2 = e
  refs_lt : ∀ {p e}, (p, e) ∈ s.refs → e < ninode
  unique : ∀ {e e'}, 0 < (s.entry e).ref → 0 < (s.entry e').ref →
    (s.entry e).key = (s.entry e').key → e = e'
  lock : ∀ {p e}, (s.entry e).lock = some p → (p, e) ∈ s.refs
  copy : ∀ {e}, (s.entry e).valid → 0 < (s.entry e).ref →
    (s.entry e).copy = s.disk (s.entry e).key ∨ ∃ q, s.pc q = .cleared e
  here : ∀ p, s.Local p (s.pc p)
  marked : ∀ {p q t t' k}, s.pc p = .marked t k → s.pc q = .marked t' k → p = q
  free : ∀ {k}, (s.disk k).type = 0 → s.Quiet k ∧ s.owners k = []
  /-- Only its caller refers to an inode that `ialloc` has just returned, and perhaps a call
  of `iput` that is about to end. -/
  fresh : ∀ {p e t}, s.fresh p = some (e, t) → (p, e) ∈ s.refs ∧ (s.pc p).puts ≠ some e ∧
    t ≠ 0 ∧ s.disk (s.entry e).key = Dinode.fresh t ∧ (s.entry e).ref ≤ 2 ∧
    ∀ q, (q, e) ∈ s.refs → q = p ∨ (s.pc q).finishing = some e
  owners : ∀ k, (s.owners k).length ≤ 1

variable {s s' : Itable} {p q e : Nat} {k : Key} {t : Nat} {d : Dinode}

@[simp] lemma set_entry (s : Itable) (e : Nat) (x : Entry) (a : Nat) :
    (s.set e x).entry a = if a = e then x else s.entry a := by
  simp only [set, update_apply]

@[simp] lemma goto_pc (s : Itable) (p : Nat) (pc : Pc) (q : Nat) :
    (s.goto p pc).pc q = if q = p then pc else s.pc q := by
  simp only [goto, update_apply]

lemma start_inv (n : Nat) (disk : Key → Dinode) : (start n disk).Inv where
  refs := fun _ => rfl
  refs_lt := fun hm => absurd hm List.not_mem_nil
  unique := fun hpos => absurd hpos (Nat.lt_irrefl 0)
  lock := fun hl => nomatch hl
  copy := fun hv => nomatch hv
  here := fun _ => trivial
  marked := fun hm => nomatch hm
  free := fun _ => ⟨fun _ hpos => absurd hpos (Nat.lt_irrefl 0), rfl⟩
  fresh := fun hf => nomatch hf
  owners := fun _ => Nat.zero_le 1

lemma Inv.ref_pos (h : s.Inv) (hm : (p, e) ∈ s.refs) : 0 < (s.entry e).ref := by
  rw [h.refs]
  exact List.countP_pos_iff.mpr ⟨(p, e), hm, by simp⟩

/-- With one reference there is one process that has it. -/
lemma Inv.ref_one (h : s.Inv) (href : (s.entry e).ref = 1) (hp : (p, e) ∈ s.refs)
    (hq : (q, e) ∈ s.refs) : q = p := by
  rw [h.refs] at href
  exact eq_of_countP_eq_one href hp hq

/-! ## Inodes that somebody uses -/

section Used

variable (h : s.Inv) (hm : (p, e) ∈ s.refs) (hp : (s.pc p).finishing ≠ some e)
include h hm hp

lemma Inv.not_quiet : ¬ s.Quiet (s.entry e).key := fun hq =>
  hp ((hq e (h.ref_pos hm) rfl).2.1 p hm)

lemma Inv.type_ne : (s.disk (s.entry e).key).type ≠ 0 := fun hz =>
  h.not_quiet hm hp (h.free hz).1

lemma Inv.not_marked (q t : Nat) : s.pc q ≠ .marked t (s.entry e).key := by
  intro hq
  have hl := h.here q
  rw [hq] at hl
  exact h.not_quiet hm hp hl.2.2.1

lemma Inv.fresh_self {e' : Nat} (hf : s.fresh q = some (e', t))
    (hk : (s.entry e').key = (s.entry e).key) : q = p ∧ e' = e := by
  obtain ⟨hq, -, -, -, -, hall⟩ := h.fresh hf
  have he := h.unique (h.ref_pos hq) (h.ref_pos hm) hk
  subst he
  exact ⟨((hall p hm).resolve_right hp).symm, rfl⟩

end Used

lemma Inv.copy_eq (h : s.Inv) (hl : (s.entry e).lock = some p) (hp : s.pc p ≠ .cleared e)
    (hv : (s.entry e).valid) : (s.entry e).copy = s.disk (s.entry e).key := by
  refine (h.copy hv (h.ref_pos (h.lock hl))).resolve_right ?_
  rintro ⟨q, hq⟩
  have hlq := h.here q
  rw [hq] at hlq
  have he : p = q := Option.some.inj (hl.symm.trans hlq)
  subst he
  exact hp hq

lemma Inv.freeing (h : s.Inv) (hp : (s.pc p).frees = some e) : s.Freeing p e := by
  have hl := h.here p
  cases hpc : s.pc p with
  | trunc _ | clear _ =>
    rw [hpc] at hp hl
    cases hp
    exact hl
  | idle | scan _ _ _ | marked _ _ | acquire _ | read _ | put _ | cleared _ | drop _ =>
    rw [hpc] at hp
    cases hp

/-! ## What others rely on -/

/-- What a process can rely on while another one makes a step. -/
structure Rely (s s' : Itable) (q : Nat) : Prop where
  pc : s'.pc q = s.pc q
  refs : ∀ {e}, (q, e) ∈ s.refs → (q, e) ∈ s'.refs
  /-- A lock stays, and so does what it protects. -/
  held : ∀ {e}, (s.entry e).lock = some q → (s'.entry e).lock = some q ∧
    (s'.entry e).valid = (s.entry e).valid ∧ (s'.entry e).copy = (s.entry e).copy
  unheld : ∀ {e}, (q, e) ∈ s.refs → (s.entry e).lock ≠ some q → (s'.entry e).lock ≠ some q
  freeing : ∀ {e}, (s.pc q).frees = some e → (s'.entry e).ref = 1
  marked : ∀ {t k}, s.pc q = .marked t k → s'.disk k = s.disk k ∧ s'.Quiet k ∧ s'.owners k = []

lemma Rely.stays (r : Rely s s' q) (h : s.Inv) : s'.Local q (s'.pc q) := by
  have hl := h.here q
  have hfree : ∀ {e}, (s.pc q).frees = some e → s.Freeing q e → s'.Freeing q e := fun hq hf => by
    obtain ⟨h₁, h₂, h₃⟩ := r.held hf.lock
    exact ⟨h₁, h₂.trans hf.valid, by rw [h₃, hf.nlink], r.freeing hq⟩
  rw [r.pc]
  cases hpc : s.pc q with
  | idle => trivial
  | scan type dev inum =>
    rw [hpc] at hl
    exact hl
  | marked t k =>
    rw [hpc] at hl
    obtain ⟨h₁, h₂, h₃⟩ := r.marked hpc
    exact ⟨hl.1, h₁.trans hl.2.1, h₂, h₃⟩
  | acquire e =>
    rw [hpc] at hl
    exact r.refs hl
  | read e | cleared e =>
    rw [hpc] at hl
    exact (r.held hl).1
  | put e | drop e =>
    rw [hpc] at hl
    exact ⟨r.refs hl.1, r.unheld hl.1 hl.2⟩
  | trunc e | clear e =>
    rw [hpc] at hl
    exact hfree (by rw [hpc]; rfl) hl

/-! ## Steps that leave the disk alone -/

/-- What a step of process `p` to `pc` that leaves the disk alone may do to the table: it
changes no key, gives nobody a reference, and touches only what `p` has locked or can lock. -/
structure Guarantee (s s' : Itable) (p : Nat) (pc : Pc) : Prop where
  disk : s'.disk = s.disk
  owners : s'.owners = s.owners
  fresh : s'.fresh = s.fresh
  self : s'.pc p = pc
  others : ∀ q ≠ p, s'.pc q = s.pc q
  key : ∀ a, (s'.entry a).key = (s.entry a).key
  count : ∀ a, (s'.entry a).ref = s'.refs.countP fun w => w.2 = a
  ref : ∀ a, (s'.entry a).ref = (s.entry a).ref ∨
    (s'.entry a).ref + 1 = (s.entry a).ref ∧ (p, a) ∈ s.refs
  sub : ∀ {w}, w ∈ s'.refs → w ∈ s.refs
  /-- Only `iput` gives a reference up, and not while it holds the lock. -/
  refs : ∀ {q a}, (q, a) ∈ s.refs → (q, a) ∈ s'.refs ∨
    q = p ∧ (s.pc p).puts = some a ∧ (s.entry a).lock ≠ some p
  held : ∀ {q a}, q ≠ p → (s.entry a).lock = some q → (s'.entry a).lock = some q ∧
    (s'.entry a).valid = (s.entry a).valid ∧ (s'.entry a).copy = (s.entry a).copy
  lock : ∀ {q a}, (s'.entry a).lock = some q → (s.entry a).lock = some q ∨ q = p ∧ (p, a) ∈ s'.refs
  copy : ∀ {a}, (s'.entry a).valid →
    (s.entry a).valid ∧ (s'.entry a).copy = (s.entry a).copy ∨
    (p, a) ∈ s.refs ∧ (s.pc p).finishing ≠ some a ∧ (s'.entry a).copy = s.disk (s.entry a).key
  finishing : ∀ {a}, (s.pc p).finishing = some a →
    pc.finishing = some a ∨ (s'.entry a).ref + 1 = (s.entry a).ref
  cleared : ∀ a, s.pc p = .cleared a → (s'.entry a).valid = false
  marked : ∀ t k, pc = .marked t k → ∀ q t', q ≠ p → s.pc q ≠ .marked t' k
  puts : ∀ a t, pc.puts = some a → s.fresh p ≠ some (a, t)

section Guarantee

variable {pc : Pc} (g : Guarantee s s' p pc)
include g

lemma Guarantee.ref_pos {a : Nat} (hpos : 0 < (s'.entry a).ref) : 0 < (s.entry a).ref := by
  have := g.ref a
  omega

lemma Guarantee.clears {a : Nat} (hv : (s'.entry a).valid) :
    (∃ q, s.pc q = .cleared a) → ∃ q, s'.pc q = .cleared a := by
  rintro ⟨q, hq⟩
  refine ⟨q, (g.others q ?_).trans hq⟩
  rintro rfl
  rw [g.cleared a hq] at hv
  cases hv

lemma Guarantee.quiet (h : s.Inv) (hk : s.Quiet k) : s'.Quiet k := by
  intro a hpos ha
  rw [g.key] at ha
  obtain ⟨hone, hfin, hcl⟩ := hk a (g.ref_pos hpos) ha
  have href := g.ref a
  refine ⟨by omega, fun q hq => ?_, fun hv => ?_⟩
  · have hq' := hfin q (g.sub hq)
    by_cases he : q = p
    · subst he
      rw [g.self]
      exact (g.finishing hq').resolve_right (by omega)
    · rwa [g.others q he]
  · rcases g.copy hv with ⟨hv', -⟩ | ⟨hm, hf, -⟩
    · exact g.clears hv (hcl hv')
    · exact absurd (ha ▸ hk) (h.not_quiet hm hf)

lemma Guarantee.rely (h : s.Inv) (hq : q ≠ p) : Rely s s' q := by
  refine ⟨g.others q hq, fun hm => (g.refs hm).resolve_right fun hc => hq hc.1, g.held hq,
    fun _ hl hl' => (g.lock hl').elim hl fun hc => hq hc.1, fun {a} hf => ?_, fun {t k} hm => ?_⟩
  · have hone := (h.freeing hf).ref
    rcases g.ref a with hr | ⟨-, hm⟩
    · rw [hr, hone]
    · exact absurd (h.ref_one hone hm (h.lock (h.freeing hf).lock)) hq
  · have hl := h.here q
    rw [hm] at hl
    exact ⟨by rw [g.disk], g.quiet h hl.2.2.1, by rw [g.owners, hl.2.2.2]⟩

lemma Guarantee.mem (h : s.Inv) {a : Nat} (hl : (s'.entry a).lock = some q) : (q, a) ∈ s'.refs := by
  rcases g.lock hl with hl | ⟨rfl, hm⟩
  · rcases g.refs (h.lock hl) with hm | ⟨rfl, -, hne⟩
    · exact hm
    · exact absurd hl hne
  · exact hm

lemma Guarantee.copied (h : s.Inv) {a : Nat} (hv : (s'.entry a).valid) (hpos : 0 < (s'.entry a).ref) :
    (s'.entry a).copy = s'.disk (s'.entry a).key ∨ ∃ q, s'.pc q = .cleared a := by
  rw [g.key, g.disk]
  rcases g.copy hv with ⟨hv', hc⟩ | ⟨-, -, hc⟩
  · rw [hc]
    exact (h.copy hv' (g.ref_pos hpos)).imp_right (g.clears hv)
  · exact .inl hc

lemma Guarantee.sole (h : s.Inv) {a b t t' : Nat} (ha : s'.pc a = .marked t k)
    (hb : s'.pc b = .marked t' k) : a = b := by
  by_cases hae : a = p <;> by_cases hbe : b = p
  · rw [hae, hbe]
  · rw [hae, g.self] at ha
    rw [g.others b hbe] at hb
    exact absurd hb (g.marked t k ha b t' hbe)
  · rw [hbe, g.self] at hb
    rw [g.others a hae] at ha
    exact absurd ha (g.marked t' k hb a t hae)
  · rw [g.others a hae] at ha
    rw [g.others b hbe] at hb
    exact h.marked ha hb

lemma Guarantee.returned (h : s.Inv) {a : Nat} (hf : s'.fresh q = some (a, t)) :
    (q, a) ∈ s'.refs ∧ (s'.pc q).puts ≠ some a ∧ t ≠ 0 ∧
      s'.disk (s'.entry a).key = Dinode.fresh t ∧ (s'.entry a).ref ≤ 2 ∧
      ∀ r, (r, a) ∈ s'.refs → r = q ∨ (s'.pc r).finishing = some a := by
  rw [g.fresh] at hf
  obtain ⟨hm, hp, ht, hd, htwo, hall⟩ := h.fresh hf
  have href := g.ref a
  have hm' : (q, a) ∈ s'.refs := (g.refs hm).resolve_right fun ⟨he, hc, _⟩ => hp (he ▸ hc)
  refine ⟨hm', ?_, ht, by rw [g.disk, g.key, hd], by omega, fun r hr => ?_⟩
  · by_cases he : q = p
    · subst he
      rw [g.self]
      exact fun hpc => g.puts a t hpc hf
    · rwa [g.others q he]
  · refine (hall r (g.sub hr)).elim .inl fun hfin => ?_
    by_cases he : r = p
    · subst he
      rw [g.self]
      refine (g.finishing hfin).elim .inr fun hless => .inl ?_
      -- of the two references one is gone
      have hpos : 0 < s'.refs.countP fun w => w.2 = a :=
        List.countP_pos_iff.mpr ⟨(q, a), hm', by simp⟩
      have hcount := g.count a
      have hone : s'.refs.countP (fun w => w.2 = a) = 1 := by omega
      exact eq_of_countP_eq_one hone hm' hr
    · exact .inr (by rwa [g.others r he])

lemma Guarantee.inv (h : s.Inv) (hhere : s'.Local p pc) : s'.Inv where
  refs := g.count
  refs_lt hm := h.refs_lt (g.sub hm)
  unique ha hb he := by
    rw [g.key, g.key] at he
    exact h.unique (g.ref_pos ha) (g.ref_pos hb) he
  lock := g.mem h
  copy := g.copied h
  here q := by
    by_cases hq : q = p
    · rw [hq, g.self]
      exact hhere
    · exact (g.rely h hq).stays h
  marked := g.sole h
  free hk := by
    rw [g.disk] at hk
    exact ⟨g.quiet h (h.free hk).1, by rw [g.owners, (h.free hk).2]⟩
  fresh := g.returned h
  owners k := g.owners ▸ h.owners k

end Guarantee

lemma finishing_of {pc pc' : Pc} (hfin : pc.finishing = none ∨ pc'.finishing = pc.finishing) {a : Nat}
    (ha : pc.finishing = some a) : pc'.finishing = some a := by
  rcases hfin with hn | hn
  · rw [hn] at ha
    cases ha
  · rw [hn, ha]

lemma Inv.move {pc : Pc} (h : s.Inv)
    (hfin : (s.pc p).finishing = none ∨ pc.finishing = (s.pc p).finishing)
    (hclear : ∀ e, s.pc p = .cleared e → (s.entry e).valid = false)
    (hmarked : ∀ t k, pc = .marked t k → ∀ q t', q ≠ p → s.pc q ≠ .marked t' k)
    (hputs : ∀ e t, pc.puts = some e → s.fresh p ≠ some (e, t))
    (hhere : s.Local p pc) : (s.goto p pc).Inv := by
  have g : Guarantee s (s.goto p pc) p pc := {
    disk := rfl
    owners := rfl
    fresh := rfl
    self := update_self ..
    others := fun q hq => update_of_ne hq ..
    key := fun _ => rfl
    count := h.refs
    ref := fun _ => .inl rfl
    sub := id
    refs := .inl
    held := fun _ hl => ⟨hl, rfl, rfl⟩
    lock := .inl
    copy := fun hv => .inl ⟨hv, rfl⟩
    finishing := fun ha => .inl (finishing_of hfin ha)
    cleared := hclear
    marked := hmarked
    puts := hputs }
  refine g.inv h ?_
  cases pc with
  | marked t k => exact ⟨hhere.1, hhere.2.1, g.quiet h hhere.2.2.1, hhere.2.2.2⟩
  | trunc e | clear e => exact ⟨hhere.lock, hhere.valid, hhere.nlink, hhere.ref⟩
  | idle | scan _ _ _ | acquire _ | read _ | put _ | cleared _ | drop _ => exact hhere

/-- Process `p` changes an entry, but not its inode nor its references, and goes on. -/
lemma Inv.touch {x : Entry} {pc : Pc} (h : s.Inv) (hkey : x.key = (s.entry e).key)
    (href : x.ref = (s.entry e).ref) (hm : (p, e) ∈ s.refs)
    (hlock : x.lock = (s.entry e).lock ∨ (s.entry e).lock = none ∧ x.lock = some p ∨
      (s.entry e).lock = some p ∧ x.lock = none)
    (hkeep : x.valid = (s.entry e).valid ∧ x.copy = (s.entry e).copy ∨
      (s.entry e).lock = some p ∧ (x.valid = false ∨
        (s.pc p).finishing ≠ some e ∧ x.copy = s.disk x.key))
    (hfin : (s.pc p).finishing = none ∨ pc.finishing = (s.pc p).finishing)
    (hclear : ∀ a, s.pc p = .cleared a → a = e ∧ x.valid = false)
    (hmarked : ∀ t k, pc ≠ .marked t k) (hputs : ∀ a t, pc.puts = some a → s.fresh p ≠ some (a, t))
    (hhere : (s.set e x).Local p pc) : ((s.set e x).goto p pc).Inv := by
  have hself : (s.set e x).entry e = x := update_self ..
  have hcases : ∀ a, a = e ∨ (s.set e x).entry a = s.entry a := fun a =>
    or_iff_not_imp_left.mpr fun ha => update_of_ne ha ..
  have hsame : ∀ a, ((s.set e x).entry a).key = (s.entry a).key ∧
      ((s.set e x).entry a).ref = (s.entry a).ref := fun a => by
    obtain rfl | ha := hcases a
    · rw [hself]
      exact ⟨hkey, href⟩
    · rw [ha]
      exact ⟨rfl, rfl⟩
  have g : Guarantee s ((s.set e x).goto p pc) p pc := {
    disk := rfl
    owners := rfl
    fresh := rfl
    self := update_self ..
    others := fun q hq => update_of_ne hq ..
    key := fun a => (hsame a).1
    count := fun a => (hsame a).2.trans (h.refs a)
    ref := fun a => .inl (hsame a).2
    sub := id
    refs := .inl
    held := fun {q a} hq hl => by
      show ((s.set e x).entry a).lock = some q ∧ ((s.set e x).entry a).valid = _ ∧
        ((s.set e x).entry a).copy = _
      obtain rfl | ha := hcases a
      · rw [hself]
        grind
      · rw [ha]
        exact ⟨hl, rfl, rfl⟩
    lock := fun {q a} hl => by
      change ((s.set e x).entry a).lock = some q at hl
      obtain rfl | ha := hcases a
      · rw [hself] at hl
        rcases hlock with he | ⟨-, he⟩ | ⟨-, he⟩
        · exact .inl (he ▸ hl)
        · exact .inr ⟨Option.some.inj (hl.symm.trans he), hm⟩
        · cases hl.symm.trans he
      · exact .inl (ha ▸ hl)
    copy := fun {a} hv => by
      change ((s.set e x).entry a).valid at hv
      show _ ∧ ((s.set e x).entry a).copy = _ ∨ _ ∧ _ ∧ ((s.set e x).entry a).copy = _
      obtain rfl | ha := hcases a
      · rw [hself] at hv ⊢
        rcases hkeep with ⟨hv', hc⟩ | ⟨-, hv' | ⟨hf, hc⟩⟩
        · exact .inl ⟨hv' ▸ hv, hc⟩
        · rw [hv'] at hv
          cases hv
        · exact .inr ⟨hm, hf, hkey ▸ hc⟩
      · rw [ha] at hv ⊢
        exact .inl ⟨hv, rfl⟩
    finishing := fun ha => .inl (finishing_of hfin ha)
    cleared := fun a ha => by
      obtain ⟨rfl, hv⟩ := hclear a ha
      show ((s.set a x).entry a).valid = false
      rw [hself, hv]
    marked := fun t k hpc => absurd hpc (hmarked t k)
    puts := hputs }
  refine g.inv h ?_
  cases pc with
  | marked t k => exact absurd rfl (hmarked t k)
  | trunc e | clear e => exact ⟨hhere.lock, hhere.valid, hhere.nlink, hhere.ref⟩
  | idle | scan _ _ _ | acquire _ | read _ | put _ | cleared _ | drop _ => exact hhere

/-- The holder of the lock of an entry writes the inode to the disk. -/
lemma Inv.iupdate (h : s.Inv) (hl : (s.entry e).lock = some p)
    (hmarked : ∀ q t, s.pc q ≠ .marked t (s.entry e).key) (hfresh : ∀ q t, s.fresh q ≠ some (e, t))
    (hfree : d.type = 0 → s.Quiet (s.entry e).key ∧ s.owners (s.entry e).key = [])
    (hhere : (s.iupdate e d).Local p (s.pc p)) : (s.iupdate e d).Inv := by
  have hm := h.lock hl
  have hself : (s.iupdate e d).entry e = { s.entry e with copy := d } := update_self ..
  have hother : ∀ {a}, a ≠ e → (s.iupdate e d).entry a = s.entry a := fun ha => update_of_ne ha ..
  have hdisk : ∀ k, (s.iupdate e d).disk k = if k = (s.entry e).key then d else s.disk k := fun k =>
    update_apply _ _ _ _
  have hsame : ∀ a, ((s.iupdate e d).entry a).key = (s.entry a).key ∧
      ((s.iupdate e d).entry a).ref = (s.entry a).ref ∧
      ((s.iupdate e d).entry a).lock = (s.entry a).lock ∧
      ((s.iupdate e d).entry a).valid = (s.entry a).valid := fun a => by
    by_cases hae : a = e
    · rw [hae, hself]
      exact ⟨rfl, rfl, rfl, rfl⟩
    · rw [hother hae]
      exact ⟨rfl, rfl, rfl, rfl⟩
  have hquiet : ∀ k, s.Quiet k → (s.iupdate e d).Quiet k := fun k hk a hpos ha => by
    obtain ⟨h₁, h₂, -, h₄⟩ := hsame a
    rw [h₂] at hpos ⊢
    rw [h₁] at ha
    rw [h₄]
    exact hk a hpos ha
  have hrely : ∀ q, q ≠ p → Rely s (s.iupdate e d) q := fun q hq => by
    refine ⟨rfl, id, fun {a} ha => ?_, fun {a} _ ha => by rwa [(hsame a).2.2.1],
      fun {a} hf => by rw [(hsame a).2.1, (h.freeing hf).ref], fun {t k} hk => ?_⟩
    · have hae : a ≠ e := by
        rintro rfl
        exact hq (Option.some.inj (ha.symm.trans hl))
      rw [hother hae]
      exact ⟨ha, rfl, rfl⟩
    · have hne : k ≠ (s.entry e).key := by
        rintro rfl
        exact hmarked q t hk
      have hlq := h.here q
      rw [hk] at hlq
      exact ⟨by rw [hdisk, if_neg hne], hquiet k hlq.2.2.1, hlq.2.2.2⟩
  refine ⟨fun a => (hsame a).2.1.trans (h.refs a), h.refs_lt, fun {a b} ha hb he => ?_,
    fun {q a} ha => h.lock ((hsame a).2.2.1.symm.trans ha), fun {a} hv hpos => ?_, fun q => ?_,
    h.marked, fun {k} hk => ?_, fun {q a t} hf => ?_, h.owners⟩
  · rw [(hsame a).2.1] at ha
    rw [(hsame b).2.1] at hb
    rw [(hsame a).1, (hsame b).1] at he
    exact h.unique ha hb he
  · obtain ⟨h₁, h₂, -, h₄⟩ := hsame a
    rw [h₂] at hpos
    rw [h₄] at hv
    rw [h₁, hdisk]
    by_cases hk : (s.entry a).key = (s.entry e).key
    · rw [if_pos hk, h.unique hpos (h.ref_pos hm) hk, hself]
      exact .inl rfl
    · have hae : a ≠ e := fun he => hk (he ▸ rfl)
      rw [if_neg hk, hother hae]
      exact h.copy hv hpos
  · by_cases hq : q = p
    · rw [hq]
      exact hhere
    · exact (hrely q hq).stays h
  · rw [hdisk] at hk
    split at hk
    next he =>
      rw [he]
      exact ⟨hquiet _ (hfree hk).1, (hfree hk).2⟩
    next => exact ⟨hquiet k (h.free hk).1, (h.free hk).2⟩
  · obtain ⟨h₁, h₂, h₃, h₄, htwo, h₅⟩ := h.fresh hf
    have hk : (s.entry a).key ≠ (s.entry e).key := fun hk =>
      hfresh q t (h.unique (h.ref_pos h₁) (h.ref_pos hm) hk ▸ hf)
    refine ⟨h₁, h₂, h₃, ?_, (hsame a).2.1.trans_le htwo, h₅⟩
    rw [(hsame a).1, hdisk, if_neg hk, h₄]

/-- Which calls of `ialloc` returned an inode, and to whom, matters to no process. -/
lemma Inv.record {o : Key → List Nat} {f : Nat → Option (Nat × Nat)} (h : s.Inv)
    (hmarked : ∀ {p t k}, s.pc p = .marked t k → o k = [])
    (hfree : ∀ {k}, (s.disk k).type = 0 → o k = [])
    (hfresh : ∀ {p e t}, f p = some (e, t) → s.fresh p = some (e, t) ∨
      (p, e) ∈ s.refs ∧ (s.pc p).puts ≠ some e ∧ t ≠ 0 ∧
        s.disk (s.entry e).key = Dinode.fresh t ∧ (s.entry e).ref ≤ 2 ∧
        ∀ q, (q, e) ∈ s.refs → q = p ∨ (s.pc q).finishing = some e)
    (ho : ∀ k, (o k).length ≤ 1) : { s with owners := o, fresh := f }.Inv := by
  refine ⟨h.refs, h.refs_lt, h.unique, h.lock, h.copy, fun q => ?_, h.marked,
    fun {k} hk => ⟨(h.free hk).1, hfree hk⟩, fun {q e t} hf => (hfresh hf).elim h.fresh id, ho⟩
  have hrely : Rely s { s with owners := o, fresh := f } q := by
    refine ⟨rfl, fun hm => hm, fun hl => ⟨hl, rfl, rfl⟩, fun _ hl => hl,
      fun hf => (h.freeing hf).ref, fun {t k} hk => ?_⟩
    have hl := h.here q
    rw [hk] at hl
    exact ⟨rfl, hl.2.2.1, hmarked hk⟩
  exact hrely.stays h

lemma Inv.use (h : s.Inv) (p e : Nat) : (s.use p e).Inv := by
  refine h.record (fun {q t k} hq => ?_) (fun hk => (h.free hk).2) (fun {q e' t} hf => .inl ?_) h.owners
  · have hl := h.here q
    rw [hq] at hl
    exact hl.2.2.2
  · by_cases hq : q = p
    · subst hq
      simp only [update_self, Option.filter_eq_some_iff] at hf
      exact hf.1
    · rwa [update_of_ne hq] at hf

lemma use_fresh (s : Itable) (p e t : Nat) : (s.use p e).fresh p ≠ some (e, t) := by
  simp [use, Option.filter_eq_some_iff]

/-! ## `ialloc` -/

/-- `ialloc` writes the type of a free inode. -/
lemma Inv.write (h : s.Inv) (ht : t ≠ 0) (hfree : (s.disk k).type = 0) :
    (s.write k (Dinode.fresh t)).Inv := by
  obtain ⟨hquiet, hnone⟩ := h.free hfree
  have hdisk : ∀ a, (s.write k (Dinode.fresh t)).disk a =
      if a = k then Dinode.fresh t else s.disk a := fun a => update_apply _ _ _ _
  have hunmarked : ∀ q t', s.pc q ≠ .marked t' k := fun q t' hq => by
    have hl := h.here q
    rw [hq] at hl
    rw [hl.2.1] at hfree
    exact hl.1 hfree
  refine ⟨h.refs, h.refs_lt, h.unique, h.lock, fun {a} hv hpos => ?_, fun q => ?_, h.marked,
    fun {a} ha => ?_, fun {q e t'} hf => ?_, h.owners⟩
  · rw [hdisk]
    split
    next hk => exact .inr ((hquiet a hpos hk).2.2 hv)
    next => exact h.copy hv hpos
  · have hrely : Rely s (s.write k (Dinode.fresh t)) q :=
      ⟨rfl, fun hm => hm, fun hl => ⟨hl, rfl, rfl⟩, fun _ hl => hl, fun hf => (h.freeing hf).ref,
        fun {t' a} hm => by
        have hne : a ≠ k := by
          rintro rfl
          exact hunmarked q t' hm
        have hl := h.here q
        rw [hm] at hl
        exact ⟨by rw [hdisk, if_neg hne], hl.2.2⟩⟩
    exact hrely.stays h
  · rw [hdisk] at ha
    split at ha
    next => exact absurd ha ht
    next => exact h.free ha
  · obtain ⟨h₁, h₂, h₃, h₄, h₅⟩ := h.fresh hf
    have hne : (s.entry e).key ≠ k := fun hk => by
      rw [← hk, h₄] at hfree
      exact h₃ hfree
    exact ⟨h₁, h₂, h₃, (hdisk _).trans ((if_neg hne).trans h₄), h₅⟩

/-! ## References -/

/-- Process `q` gets a reference to entry `e`, which is `x` from now on. -/
def refer (s : Itable) (q e : Nat) (x : Entry) : Itable :=
  { s.set e x with refs := (q, e) :: s.refs }

/-- An entry that gets a reference. If it is the first one, the entry is for another inode
from now on. -/
structure Gains (s : Itable) (e : Nat) (x : Entry) : Prop where
  lt : e < ninode
  ref : x.ref = (s.entry e).ref + 1
  lock : x.lock = (s.entry e).lock
  copy : x.copy = (s.entry e).copy
  old : 0 < (s.entry e).ref → x.key = (s.entry e).key ∧ x.valid = (s.entry e).valid
  new : (s.entry e).ref = 0 → x.valid = false
  sole : ∀ a, a ≠ e → 0 < (s.entry a).ref → (s.entry a).key ≠ x.key
  type : (s.disk x.key).type ≠ 0
  unmarked : ∀ r t, s.pc r ≠ .marked t x.key
  kept : ∀ r, (s.pc r).frees ≠ some e
  known : ∀ r t, s.fresh r ≠ some (e, t)

section Gains

variable {x : Entry} {a r : Nat}

lemma refer_self : (s.refer q e x).entry e = x := update_self ..

lemma refer_other (ha : a ≠ e) : (s.refer q e x).entry a = s.entry a := update_of_ne ha ..

lemma mem_refer (ha : a ≠ e) (hr : (r, a) ∈ (s.refer q e x).refs) : (r, a) ∈ s.refs := by
  simpa [refer, ha] using hr

variable (g : s.Gains e x)
include g

lemma Gains.lock_eq (a : Nat) : ((s.refer q e x).entry a).lock = (s.entry a).lock := by
  by_cases hae : a = e
  · rw [hae, refer_self, g.lock]
  · rw [refer_other hae]

lemma Gains.quiet (hk : k ≠ x.key) (hq : s.Quiet k) : (s.refer q e x).Quiet k := by
  intro a hpos ha
  have hae : a ≠ e := by
    rintro rfl
    rw [refer_self] at ha
    exact hk ha.symm
  rw [refer_other hae] at hpos ha ⊢
  obtain ⟨hone, hfin, hcl⟩ := hq a hpos ha
  exact ⟨hone, fun r hr => hfin r (mem_refer hae hr), hcl⟩

lemma Gains.count (h : s.Inv) (a : Nat) :
    ((s.refer q e x).entry a).ref = (s.refer q e x).refs.countP fun w => w.2 = a := by
  show _ = ((q, e) :: s.refs).countP _
  rw [List.countP_cons, ← h.refs]
  by_cases hae : a = e
  · subst hae
    rw [refer_self, g.ref]
    simp
  · rw [refer_other hae]
    simp [Ne.symm hae]

lemma Gains.unique (h : s.Inv) {b : Nat} (ha : 0 < ((s.refer q e x).entry a).ref)
    (hb : 0 < ((s.refer q e x).entry b).ref)
    (hab : ((s.refer q e x).entry a).key = ((s.refer q e x).entry b).key) : a = b := by
  by_cases hae : a = e <;> by_cases hbe : b = e
  · rw [hae, hbe]
  · rw [hae, refer_self, refer_other hbe] at hab
    rw [refer_other hbe] at hb
    exact absurd hab.symm (g.sole b hbe hb)
  · rw [hbe, refer_self, refer_other hae] at hab
    rw [refer_other hae] at ha
    exact absurd hab (g.sole a hae ha)
  · rw [refer_other hae] at ha hab
    rw [refer_other hbe] at hb hab
    exact h.unique ha hb hab

lemma Gains.copied (h : s.Inv) (hv : ((s.refer q e x).entry a).valid)
    (hpos : 0 < ((s.refer q e x).entry a).ref) :
    ((s.refer q e x).entry a).copy = s.disk ((s.refer q e x).entry a).key ∨ ∃ r, s.pc r = .cleared a := by
  by_cases hae : a = e
  · subst hae
    rw [refer_self] at hv ⊢
    rcases Nat.eq_zero_or_pos (s.entry a).ref with hz | hz
    · rw [g.new hz] at hv
      cases hv
    · obtain ⟨hkey, hvalid⟩ := g.old hz
      rw [g.copy, hkey]
      exact h.copy (hvalid ▸ hv) hz
  · rw [refer_other hae] at hv hpos ⊢
    exact h.copy hv hpos

lemma Gains.rely (h : s.Inv) (r : Nat) : Rely s (s.refer q e x) r := by
  refine ⟨rfl, List.mem_cons_of_mem _, fun {a} ha => ?_, fun {a} _ ha => by rwa [g.lock_eq],
    fun {a} hf => ?_, fun {t k} hm => ?_⟩
  · by_cases hae : a = e
    · subst hae
      rw [refer_self]
      exact ⟨g.lock.trans ha, (g.old (h.ref_pos (h.lock ha))).2, g.copy⟩
    · rw [refer_other hae]
      exact ⟨ha, rfl, rfl⟩
  · have hae : a ≠ e := by
      rintro rfl
      exact g.kept r hf
    rw [refer_other hae, (h.freeing hf).ref]
  · have hne : k ≠ x.key := by
      rintro rfl
      exact g.unmarked r t hm
    have hl := h.here r
    rw [hm] at hl
    exact ⟨rfl, g.quiet hne hl.2.2.1, hl.2.2.2⟩

end Gains

lemma Inv.gain {x : Entry} (h : s.Inv) (g : s.Gains e x) (q : Nat) : (s.refer q e x).Inv := by
  refine ⟨g.count h, fun {r a} hm => ?_, g.unique h, fun {r a} ha => ?_, g.copied h,
    fun r => (g.rely h r).stays h, h.marked, fun {k} hk => ?_, fun {r a t} hf => ?_, h.owners⟩
  · rcases List.mem_cons.mp hm with hm | hm
    · cases hm
      exact g.lt
    · exact h.refs_lt hm
  · rw [g.lock_eq] at ha
    exact List.mem_cons_of_mem _ (h.lock ha)
  · have hne : k ≠ x.key := by
      rintro rfl
      exact g.type hk
    exact ⟨g.quiet hne (h.free hk).1, (h.free hk).2⟩
  · obtain ⟨hm, hp, ht, hd, htwo, hall⟩ := h.fresh hf
    have hae : a ≠ e := by
      rintro rfl
      exact g.known r t hf
    rw [refer_other hae]
    exact ⟨List.mem_cons_of_mem _ hm, hp, ht, hd, htwo, fun q' hq' => hall q' (mem_refer hae hq')⟩

/-- The last step of `iput`. -/
lemma Inv.unref (h : s.Inv) (hpc : s.pc p = .put e ∨ s.pc p = .drop e) :
    ((s.unref p e).goto p .idle).Inv := by
  obtain ⟨hm, hlock⟩ : (p, e) ∈ s.refs ∧ (s.entry e).lock ≠ some p := by
    have hl := h.here p
    rcases hpc with hpc | hpc <;> rwa [hpc] at hl
  have hputs : (s.pc p).puts = some e := by
    rcases hpc with hpc | hpc <;> rw [hpc] <;> rfl
  have hself : (s.unref p e).entry e = { s.entry e with ref := (s.entry e).ref - 1 } := update_self ..
  have hother : ∀ {a}, a ≠ e → (s.unref p e).entry a = s.entry a := fun ha => update_of_ne ha ..
  have hone := h.ref_pos hm
  have hsame : ∀ a, ((s.unref p e).entry a).key = (s.entry a).key ∧
      ((s.unref p e).entry a).valid = (s.entry a).valid ∧
      ((s.unref p e).entry a).copy = (s.entry a).copy ∧
      ((s.unref p e).entry a).lock = (s.entry a).lock := fun a => by
    by_cases hae : a = e
    · rw [hae, hself]
      exact ⟨rfl, rfl, rfl, rfl⟩
    · rw [hother hae]
      exact ⟨rfl, rfl, rfl, rfl⟩
  have hless : ((s.unref p e).entry e).ref + 1 = (s.entry e).ref := by
    rw [hself]
    exact Nat.succ_pred_eq_of_pos hone
  have g : Guarantee s ((s.unref p e).goto p .idle) p .idle := {
    disk := rfl
    owners := rfl
    fresh := rfl
    self := update_self ..
    others := fun q hq => update_of_ne hq ..
    key := fun a => (hsame a).1
    count := fun a => by
      show ((s.unref p e).entry a).ref = (s.refs.erase (p, e)).countP _
      by_cases hae : a = e
      · have hcount := countP_erase_self hm
        have hall := h.refs e
        rw [hae]
        omega
      · rw [hother hae, countP_erase_other hae, h.refs]
    ref := fun a => by
      by_cases hae : a = e
      · subst hae
        exact .inr ⟨hless, hm⟩
      · exact .inl (congrArg Entry.ref (hother hae))
    sub := List.mem_of_mem_erase
    refs := fun {q a} ha => by
      by_cases he : (q, a) = (p, e)
      · cases he
        exact .inr ⟨rfl, hputs, hlock⟩
      · exact .inl ((List.mem_erase_of_ne he).mpr ha)
    held := fun {q a} _ hl => ⟨(hsame a).2.2.2.trans hl, (hsame a).2.1, (hsame a).2.2.1⟩
    lock := fun {q a} hl => .inl ((hsame a).2.2.2.symm.trans hl)
    copy := fun {a} hv => .inl ⟨(hsame a).2.1.symm.trans hv, (hsame a).2.2.1⟩
    finishing := fun {a} ha => by
      rcases hpc with hpc | hpc <;> rw [hpc] at ha <;> cases ha
      exact .inr hless
    cleared := fun a ha => by
      rcases hpc with hpc | hpc <;> rw [hpc] at ha <;> cases ha
    marked := fun _ _ hpc => nomatch hpc
    puts := fun _ _ hpc => nomatch hpc }
  exact g.inv h trivial

end Itable

end Xv6.Inode
