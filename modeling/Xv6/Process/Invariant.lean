import Xv6.Lib.Count
import Xv6.Mem.CopySpec
import Xv6.Process.Exec

/-!
# The invariant of the kernel

`MemInv` ties the process table to the owners of pages: each process with a page
table has an address space of its size, and a trapframe page. `FileInv` ties the
file table to the descriptors and to the pages of pipes. Both survive a step
that touches only the pages that the step may touch, which is what a `Frame` says.
-/

namespace Xv6.Process

open Function Lib Mem

/-! ## Programs over the kernel -/

section Rules

variable {α β : Type} {K : Kernel} {R : β → Kernel → Prop} {p f : Nat}

lemma returns_onPhys {m : PhysM α} {Q : α → Phys → Prop} {P : α → Kernel → Prop}
    (h : Returns m K.phys Q) (hQ : ∀ a s, Q a s → P a { K with phys := s }) :
    Returns (onPhys m) K P := by
  obtain ⟨a, s, hm, ha⟩ := h
  refine ⟨a, { K with phys := s }, ?_, hQ a s ha⟩
  rw [onPhys, hm]

lemma onPhys_of_ok {m : PhysM α} {a : α} {s : Phys} (h : m K.phys = .ok (a, s)) :
    onPhys m K = .ok (a, { K with phys := s }) := by
  rw [onPhys, h]

lemma onPhys_bind_of_ok {m : PhysM α} {g : α → KernelM β} {a : α} {s : Phys}
    (h : m K.phys = .ok (a, s)) : (onPhys m >>= g) K = g a { K with phys := s } :=
  bind_of_ok (onPhys_of_ok h)

/-- A program over physical memory that goes on like another one. -/
lemma onPhys_bind_of_eq {γ : Type} {m : PhysM α} {n : PhysM γ} {u : γ → α} {g : α → KernelM β}
    {s : Phys} (h : m K.phys = (n >>= fun c => pure (u c)) s) :
    (onPhys m >>= g) K = (onPhys n >>= fun c => g (u c)) { K with phys := s } := by
  cases hm : n s with
  | ok x =>
    obtain ⟨c, s'⟩ := x
    rw [bind_of_ok hm] at h
    have hnext : (onPhys n >>= fun c => g (u c)) { K with phys := s } =
        g (u c) { K with phys := s' } := onPhys_bind_of_ok hm
    exact (onPhys_bind_of_ok h).trans hnext.symm
  | error e =>
    have hmK : m K.phys = .error e := by
      rw [h]
      show (n s >>= _) = _
      rw [hm]
      rfl
    show (onPhys m K >>= _) = (onPhys n { K with phys := s } >>= _)
    rw [onPhys, onPhys, hmK, hm]
    rfl

/-- The rule for a program over physical memory. -/
lemma returns_onPhys_bind {m : PhysM α} {g : α → KernelM β} {Q : α → Phys → Prop}
    (h : Returns m K.phys Q) (hg : ∀ a s, Q a s → Returns (g a) { K with phys := s } R) :
    Returns (onPhys m >>= g) K R :=
  (returns_onPhys (P := fun a K' => ∃ s, Q a s ∧ K' = { K with phys := s }) h
    fun _ s ha => ⟨s, ha, rfl⟩).bind fun a _ ⟨s, ha, hK⟩ => by
      subst hK
      exact hg a s ha

lemma returns_store32 {a v : Nat} {g : Unit → KernelM β}
    (h : Returns (g ()) { K with phys := K.phys.withMem (putLE K.phys.mem a 4 v) } R) :
    Returns (onPhys (store32 a v) >>= g) K R :=
  returns_bind_of_eq rfl h

lemma returns_store64 {a v : Nat} {g : Unit → KernelM β}
    (h : Returns (g ()) { K with phys := K.phys.withMem (putLE K.phys.mem a 8 v) } R) :
    Returns (onPhys (store64 a v) >>= g) K R :=
  returns_bind_of_eq rfl h

lemma returns_memmove {a b n : Nat} {g : Unit → KernelM β}
    (h : Returns (g ()) { K with phys := K.phys.withMem (copy K.phys.mem a b n) } R) :
    Returns (onPhys (memmove a b n) >>= g) K R :=
  returns_bind_of_eq rfl h

lemma returns_getProc {g : Proc → KernelM β} (h : Returns (g (K.proc p)) K R) :
    Returns (getProc p >>= g) K R :=
  returns_bind_of_eq rfl h

lemma returns_modifyProc {u : Proc → Proc} {g : Unit → KernelM β}
    (h : Returns (g ()) (K.setProc p (u (K.proc p))) R) : Returns (modifyProc p u >>= g) K R :=
  returns_bind_of_eq rfl h

lemma returns_modifyFile {u : File → File} {g : Unit → KernelM β}
    (h : Returns (g ()) (K.setFile f (u (K.ftable f))) R) : Returns (modifyFile f u >>= g) K R :=
  returns_bind_of_eq rfl h

end Rules

section Fields

variable (K : Kernel) (p f : Nat) (pr : Proc) (file : File)

@[simp] lemma setProc_ftable : (K.setProc p pr).ftable = K.ftable := rfl

@[simp] lemma setProc_self : (K.setProc p pr).proc p = pr := update_self ..

@[simp] lemma setProc_other {p' : Nat} (h : p' ≠ p) : (K.setProc p pr).proc p' = K.proc p' :=
  update_of_ne h ..

@[simp] lemma setFile_self : (K.setFile f file).ftable f = file := update_self ..

@[simp] lemma setFile_other {f' : Nat} (h : f' ≠ f) : (K.setFile f file).ftable f' = K.ftable f' :=
  update_of_ne h ..

end Fields

/-! ## Frames -/

/-- A page that the running call has in hand. -/
def Hand : Owner → Prop
  | .outside => False
  | .free => False
  | .temp => True
  | .table _ _ _ => False
  | .user _ _ => False
  | .trapframe _ => False
  | .pipe => False
  | .boot => False
  | .held _ => True

/-- The running call has the same pages in hand. -/
def SameHand (o o' : Nat → Owner) : Prop := ∀ q y, Hand y → (o' q = y ↔ o q = y)

section Hand

variable {o o' o'' : Nat → Owner}

lemma SameHand.refl (o : Nat → Owner) : SameHand o o := fun _ _ _ => Iff.rfl

lemma SameHand.trans (h : SameHand o o') (h' : SameHand o' o'') : SameHand o o'' :=
  fun q y hy => (h' q y hy).trans (h q y hy)

lemma SameHand.of_cases (h : ∀ q, o' q = o q ∨ ¬ Hand (o q) ∧ ¬ Hand (o' q)) : SameHand o o' := by
  intro q y hy
  rcases h q with he | ⟨h₁, h₂⟩
  · rw [he]
  · constructor
    · rintro rfl
      exact absurd hy h₂
    · rintro rfl
      exact absurd hy h₁

lemma SameHand.update {q : Nat} {y : Owner} (h₁ : ¬ Hand (o q)) (h₂ : ¬ Hand y) :
    SameHand o (update o q y) := by
  refine SameHand.of_cases fun q' => ?_
  by_cases he : q' = q
  · rw [he, update_self]
    exact .inr ⟨h₁, h₂⟩
  · exact .inl (update_of_ne he _ _)

lemma SameHand.empty (h : SameHand o o') (ho : ∀ q, ¬ Hand (o q)) (q : Nat) : ¬ Hand (o' q) := by
  intro hq
  have he := (h q _ hq).mp rfl
  rw [← he] at hq
  exact ho q hq

end Hand

/-- What a call of process `p` may touch, the files apart. -/
def Private (p : Nat) : Owner → Prop
  | .outside => False
  | .free => True
  | .temp => True
  | .table t _ _ => t = .proc p ∨ t = .image
  | .user t _ => t = .proc p ∨ t = .image
  | .trapframe p' => p' = p
  | .pipe => False
  | .boot => False
  | .held _ => True

lemma Private.of_proc {p : Nat} {y : Owner} (h : y.Of (.proc p)) : Private p y := by
  cases y <;> first | exact .inl h | exact h.elim | trivial

lemma Private.of_image {p : Nat} {y : Owner} (h : y.Of .image) : Private p y := by
  cases y <;> first | exact .inr h | exact h.elim | trivial

lemma not_private_table {p p' d x : Nat} (hne : p' ≠ p) : ¬ Private p (.table (.proc p') d x) := by
  rintro (h | h)
  · exact hne (Tag.proc.inj h)
  · cases h

lemma not_private_user {p p' v : Nat} (hne : p' ≠ p) : ¬ Private p (.user (.proc p') v) := by
  rintro (h | h)
  · exact hne (Tag.proc.inj h)
  · cases h

/-- What a call may touch for the pipes. -/
def PipeOwner : Owner → Prop
  | .outside => False
  | .free => True
  | .temp => True
  | .table _ _ _ => False
  | .user _ _ => False
  | .trapframe _ => False
  | .pipe => True
  | .boot => False
  | .held _ => False

variable [Layout]

/-! ## Address spaces -/

/-- The page tables of the processes. -/
def tables (K : Kernel) : Tag → Option Nat
  | .proc p => if (K.proc p).pagetable = 0 then none else some ((K.proc p).pagetable / 4096)
  | .image => none

/-- What the memory of a process looks like. -/
structure ProcMem (s : Phys) (o : Nat → Owner) (p : Nat) (pr : Proc) : Prop where
  space : pr.pagetable ≠ 0 → ∃ r tf, pr.pagetable = 4096 * r ∧ pr.trapframe = 4096 * tf ∧
    o tf = .trapframe p ∧ Space (fun v => pteAt s.mem r v) (pages pr.sz) tf
  trap : pr.trapframe ≠ 0 → ∃ tf, pr.trapframe = 4096 * tf ∧ o tf = .trapframe p
  trapLive : ∀ {q}, o q = .trapframe p → pr.trapframe = 4096 * q
  small : pr.sz < 2 ^ 40
  empty : pr.pagetable = 0 → pr.sz = 0

/-- The owners of pages are those that the process table tells. -/
structure MemInv (K : Kernel) (o : Nat → Owner) : Prop where
  heap : Heap K.phys (tables K) o
  proc : ∀ p, ProcMem K.phys o p (K.proc p)

section Tables

omit [Layout]

variable {K K' : Kernel} {p r : Nat}

lemma tables_proc (h : (K.proc p).pagetable = 4096 * r) (hne : (K.proc p).pagetable ≠ 0) :
    tables K (.proc p) = some r := by
  rw [tables, if_neg hne, h, Nat.mul_div_cancel_left r (by decide)]

lemma tables_none (h : (K.proc p).pagetable = 0) : tables K (.proc p) = none := if_pos h

lemma tables_congr (h : ∀ p, (K'.proc p).pagetable = (K.proc p).pagetable) :
    tables K' = tables K := by
  funext t
  cases t with
  | proc p => rw [tables, tables, h]
  | image => rfl

/-- The tables after process `p` got another one. -/
lemma tables_update (h : ∀ p', p' ≠ p → (K'.proc p').pagetable = (K.proc p').pagetable) :
    tables K' = update (tables K) (.proc p)
      (if (K'.proc p).pagetable = 0 then none else some ((K'.proc p).pagetable / 4096)) := by
  funext t
  by_cases ht : t = .proc p
  · rw [ht, update_self]
    rfl
  · rw [update_of_ne ht]
    cases t with
    | proc p' => rw [tables, tables, h p' fun he => ht (by rw [he])]
    | image => rfl

end Tables

variable {K K' : Kernel} {o o' : Nat → Owner} {T : Owner → Prop} {p : Nat}

/-- Process `p` is not touched. -/
structure Untouched (T : Owner → Prop) (K K' : Kernel) (p : Nat) : Prop where
  trapframe : ¬ T (.trapframe p)
  table : ∀ d x, ¬ T (.table (.proc p) d x)
  sz : (K'.proc p).sz = (K.proc p).sz
  pagetable : (K'.proc p).pagetable = (K.proc p).pagetable
  trapframe_eq : (K'.proc p).trapframe = (K.proc p).trapframe

/-- The entries of an untouched process. -/
lemma Untouched.ptes (hu : Untouched T K K' p) (h : MemInv K o)
    (hF : Frame T K.phys o K'.phys o') {r v : Nat} (hr : (K.proc p).pagetable = 4096 * r)
    (hne : (K.proc p).pagetable ≠ 0) (hv : v < 512 ^ 3) :
    pteAt K'.phys.mem r v = pteAt K.phys.mem r v := by
  refine (h.heap.table_congr (tables_proc hr hne) fun q d x hq => hF.mem ?_).2 v hv
  rw [hq]
  exact hu.table d x

lemma space_congr {f g : Nat → Nat} {n tf : Nat} (h : Space f n tf)
    (hfg : ∀ v, v < 512 ^ 3 → g v = f v) : Space g n tf where
  user := h.user.congr fun v hv _ => hfg v hv
  trapframe := (hfg _ trapframeVpn_lt).trans h.trapframe
  trampoline := (hfg _ trampolineVpn_lt).trans h.trampoline

lemma Untouched.procMem (hu : Untouched T K K' p) (h : MemInv K o)
    (hF : Frame T K.phys o K'.phys o') : ProcMem K'.phys o' p (K'.proc p) := by
  have hp := h.proc p
  constructor
  · rw [hu.pagetable, hu.trapframe_eq, hu.sz]
    intro hne
    obtain ⟨r, tf, hr, htf, hown, hspace⟩ := hp.space hne
    exact ⟨r, tf, hr, htf, (hF.owner_iff hu.trapframe).mpr hown,
      space_congr hspace fun v hv => hu.ptes h hF hr hne hv⟩
  · rw [hu.trapframe_eq]
    intro hne
    obtain ⟨tf, htf, hown⟩ := hp.trap hne
    exact ⟨tf, htf, (hF.owner_iff hu.trapframe).mpr hown⟩
  · intro q hq
    rw [hu.trapframe_eq]
    exact hp.trapLive ((hF.owner_iff hu.trapframe).mp hq)
  · rw [hu.sz]
    exact hp.small
  · rw [hu.pagetable, hu.sz]
    exact hp.empty

/-- The invariant holds after a step that leaves all but some processes
untouched, when it holds for those. -/
lemma MemInv.step (h : MemInv K o) (hF : Frame T K.phys o K'.phys o')
    (hheap : Heap K'.phys (tables K') o')
    (hproc : ∀ p, Untouched T K K' p ∨ ProcMem K'.phys o' p (K'.proc p)) : MemInv K' o' :=
  ⟨hheap, fun p => (hproc p).elim (fun hu => hu.procMem h hF) id⟩

omit [Layout] in
lemma Private.untouched {p' : Nat} (hne : p' ≠ p)
    (hsz : (K'.proc p').sz = (K.proc p').sz)
    (hpagetable : (K'.proc p').pagetable = (K.proc p').pagetable)
    (htrapframe : (K'.proc p').trapframe = (K.proc p').trapframe) :
    Untouched (Private p) K K' p' where
  trapframe := hne
  table := fun _ _ ht => ht.elim (fun he => hne (Tag.proc.inj he)) fun he => by cases he
  sz := hsz
  pagetable := hpagetable
  trapframe_eq := htrapframe

/-! ## Files -/

section

omit [Layout]

/-- The descriptors of all processes. -/
def fds (K : Kernel) : Nat × Nat → Option Nat := fun x => (K.proc x.1).ofile x.2

/-- File `f` is an end of the pipe in page `q`. -/
def End (ftable : Nat → File) (q : Nat) (writable : Bool) (f : Nat) : Prop :=
  (ftable f).type = .pipe ∧ (ftable f).pipe = 4096 * q ∧ (ftable f).writable = writable

/-- The field of `struct pipe` for one of its ends. -/
def openOffset (writable : Bool) : Nat := if writable then pipeWriteopen else pipeReadopen

/-- The word at `a` is 1 if the condition holds, and 0 if not. -/
def Flag (m : Bytes) (a : Nat) (c : Prop) : Prop := c ∧ getLE m a 4 = 1 ∨ ¬ c ∧ getLE m a 4 = 0

/-- The pages of pipes are those that the file table tells. -/
structure Pipes (ftable : Nat → File) (m : Bytes) (o : Nat → Owner) : Prop where
  live : ∀ {f}, (ftable f).type = .pipe → (ftable f).ref ≠ 0 ∧ f < nfile
  page : ∀ {f}, (ftable f).type = .pipe → ∃ q, (ftable f).pipe = 4096 * q ∧ o q = .pipe
  /-- A pipe has one file for each end. -/
  uniq : ∀ {q w f g}, End ftable q w f → End ftable q w g → f = g
  used : ∀ {q}, o q = .pipe → ∃ w f, End ftable q w f
  /-- `readopen` and `writeopen` tell which ends are open. -/
  opened : ∀ {q} (w : Bool), o q = .pipe → Flag m (4096 * q + openOffset w) (∃ f, End ftable q w f)

/-- The reference counts are exact, up to the references `held` by the running
call. -/
structure FileInv (K : Kernel) (o : Nat → Owner) (held : Nat → Int) : Prop where
  refs : ∀ f, ((K.ftable f).ref : Int) = count slots (fds K) f + held f
  bound : ∀ {p fd f}, (K.proc p).ofile fd = some f → (p, fd) ∈ slots
  pipes : Pipes K.ftable K.phys.mem o

lemma openOffset_le (w : Bool) : openOffset w + 4 ≤ 4096 := by cases w <;> decide

lemma Pipes.frame {ftable : Nat → File} {s s' : Phys} (h : Pipes ftable s.mem o)
    (hF : Frame T s o s' o') (hT : ¬ T .pipe) : Pipes ftable s'.mem o' := by
  have hread : ∀ {q k}, o q = .pipe → k + 4 ≤ 4096 →
      getLE s'.mem (4096 * q + k) 4 = getLE s.mem (4096 * q + k) 4 := by
    intro q k hq hk
    refine getLE_congr fun x hx hx' => hF.mem (q := q) ?_ x (by omega)
    rw [hq]
    exact hT
  refine ⟨h.live, fun hf => ?_, h.uniq, fun hq => h.used ((hF.owner_iff hT).mp hq), fun w hq => ?_⟩
  · obtain ⟨q, hq, hown⟩ := h.page hf
    exact ⟨q, hq, (hF.owner_iff hT).mpr hown⟩
  · have hq' := (hF.owner_iff hT).mp hq
    unfold Flag
    rw [hread hq' (openOffset_le w)]
    exact h.opened w hq'

/-- A step that touches neither files, nor descriptors, nor pipes. -/
lemma FileInv.frame {held : Nat → Int} (h : FileInv K o held)
    (hF : Frame T K.phys o K'.phys o') (hT : ¬ T .pipe) (hftable : K'.ftable = K.ftable)
    (hofile : ∀ p, (K'.proc p).ofile = (K.proc p).ofile) : FileInv K' o' held where
  refs := fun f => by
    have hfds : fds K' = fds K := by
      funext x
      rw [fds, fds, hofile]
    rw [hftable, hfds]
    exact h.refs f
  bound := fun {p fd f} hf => h.bound (by rw [← hofile]; exact hf)
  pipes := by
    rw [hftable]
    exact h.pipes.frame hF hT

end

end Xv6.Process
