import Xv6.Process.Failure
import Xv6.Process.Slotwise

/-!
# The life of a pipe

A pipe is a page that two files share, and descriptors share the files. Between calls
the page of a pipe is one that some descriptor leads to, so the pipe is alive as long as
there is such a descriptor. A pipe starts with `pipe`, which takes the first free page.
It ends with the `close` or the `exit` that drops its last descriptor, and that call puts
its page on the free list, once.
-/

namespace Xv6.Process

open Lib Mem

/-- Some descriptor refers to an end of the pipe in page `q`. -/
def Refers (K : Kernel) (q : Nat) (writable : Bool) : Prop :=
  ∃ p fd f, (K.proc p).ofile fd = some f ∧ End K.ftable q writable f

/-- Page `q` is a pipe that some descriptor leads to. -/
def Alive (K : Kernel) (q : Nat) : Prop := ∃ writable, Refers K q writable

/-- The pipes of a state with free list `F`. -/
structure PipesOpen (K : Kernel) (F : List Nat) : Prop where
  /-- A descriptor leads to no free page. -/
  reach : ∀ {p fd f}, (K.proc p).ofile fd = some f → (K.ftable f).type = .pipe →
    ∃ q, (K.ftable f).pipe = 4096 * q ∧ q ∉ F
  readopen : ∀ {q}, Alive K q → (getLE K.phys.mem (4096 * q + pipeReadopen) 4 = 1 ↔ Refers K q false)
  writeopen : ∀ {q}, Alive K q → (getLE K.phys.mem (4096 * q + pipeWriteopen) 4 = 1 ↔ Refers K q true)

section

variable {B : Nat → Prop} {K K' : Kernel} {o o' : Nat → Owner} {q : Nat} {w : Bool}

/-- An end is open if and only if some descriptor refers to it. -/
lemma FileInv.refers_iff (h : FileInv K o 0) : Refers K q w ↔ ∃ f, End K.ftable q w f := by
  constructor
  · rintro ⟨p, fd, f, -, hend⟩
    exact ⟨f, hend⟩
  · rintro ⟨f, hend⟩
    have hrefs := h.refs f
    have hne := (h.pipes.live hend.1).1
    have hpos : 0 < count slots (fds K) f := by
      rw [Pi.zero_apply, add_zero] at hrefs
      omega
    obtain ⟨⟨p, fd⟩, -, hfd⟩ := exists_of_count_pos hpos
    exact ⟨p, fd, f, hfd, hend⟩

/-- The pages of pipes are those that some descriptor leads to. -/
lemma FileInv.alive_iff (h : FileInv K o 0) : Alive K q ↔ o q = .pipe := by
  constructor
  · rintro ⟨w, p, fd, f, -, htype, hpipe, -⟩
    obtain ⟨q', hq', ho⟩ := h.pipes.page htype
    obtain rfl : q' = q := by omega
    exact ho
  · intro hq
    obtain ⟨w, f, hend⟩ := h.pipes.used hq
    exact ⟨w, h.refers_iff.mpr ⟨f, hend⟩⟩

lemma Flag.eq_one_iff {m : Bytes} {a : Nat} {c : Prop} (h : Flag m a c) : getLE m a 4 = 1 ↔ c := by
  rcases h with ⟨hc, h1⟩ | ⟨hc, h0⟩
  · exact ⟨fun _ => hc, fun _ => h1⟩
  · rw [h0]
    exact ⟨fun he => (by cases he), fun hc' => absurd hc' hc⟩

lemma FileInv.pipesOpen {F : List Nat} (h : FileInv K o 0) (hF : FreeList K.phys o F) :
    PipesOpen K F := by
  have hflag : ∀ {q} w, Alive K q →
      (getLE K.phys.mem (4096 * q + openOffset w) 4 = 1 ↔ Refers K q w) := fun w hq => by
    rw [h.refers_iff]
    exact (h.pipes.opened w (h.alive_iff.mp hq)).eq_one_iff
  refine ⟨fun _ htype => ?_, hflag false, hflag true⟩
  obtain ⟨q, hq, ho⟩ := h.pipes.page htype
  refine ⟨q, hq, fun hm => ?_⟩
  rw [(hF.mem_iff q).mp hm] at ho
  cases ho

end

/-! ## Calls that have nothing to do with files -/

/-- The file table and the descriptors are as they were. -/
def FilesKept (K K' : Kernel) : Prop :=
  K'.ftable = K.ftable ∧ ∀ p, (K'.proc p).ofile = (K.proc p).ofile

instance : Std.Refl FilesKept := ⟨fun _ => ⟨rfl, fun _ => rfl⟩⟩

instance : IsTrans Kernel FilesKept :=
  ⟨fun _ _ _ h h' => ⟨h'.1.trans h.1, fun p => (h'.2 p).trans (h.2 p)⟩⟩

/-- The program leaves files and descriptors alone. -/
def Fileless {α : Type} (m : KernelM α) : Prop := Keeps FilesKept (fun _ => True) m

lemma FilesKept.alive_iff {K K' : Kernel} (h : FilesKept K K') {q : Nat} :
    Alive K' q ↔ Alive K q := by
  unfold Alive Refers
  simp only [h.1, h.2]

lemma FilesKept.setProc {K : Kernel} {p : Nat} {pr : Proc} (h : pr.ofile = (K.proc p).ofile) :
    FilesKept K (K.setProc p pr) := by
  refine ⟨rfl, fun p' => ?_⟩
  by_cases he : p' = p
  · rw [he, setProc_self, h]
  · rw [setProc_other _ _ _ he]

lemma slotwise_filesKept : Slotwise FilesKept where
  phys _ _ := ⟨rfl, fun _ => rfl⟩
  proc _ _ _ h := FilesKept.setProc h.ofile
  free _ _ _ _ _ _ h := FilesKept.setProc h

lemma fileless_kill (pid : Int) : Fileless (kill pid) := by
  refine Keeps.bind keeps_get fun K => ?_
  split
  next => exact keeps_pure _
  next p _ => exact Keeps.bind (keeps_modify fun _ => FilesKept.setProc rfl) fun _ => keeps_pure _

/-! ## One call -/

/-- What call `c` does to pipes and to the free list `F`, which is `F'` after it. -/
structure PipeStep (K : Kernel) (c : Call) (K' : Kernel) (F F' : List Nat) : Prop where
  /-- A pipe starts with `pipe`, in the first free page. -/
  starts : ∀ q, ¬ Alive K q → Alive K' q → (∃ p fdarray, c = .pipe p fdarray) ∧ F = q :: F'
  /-- It ends with a call that closes descriptors. -/
  stops : ∀ q, Alive K q → ¬ Alive K' q → (∃ p fd, c = .close p fd) ∨ ∃ p status, c = .exit p status
  /-- The calls of `kfree` by such a call, and by `dup`, are one for each pipe that ends. -/
  frees : (∃ p fd, c = .close p fd) ∨ (∃ p status, c = .exit p status) ∨ (∃ p fd, c = .dup p fd) →
    ∃ L, F' = L ++ F ∧ ∀ q, q ∈ L ↔ Alive K q ∧ ¬ Alive K' q
  /-- A call of `pipe` that fails gives back the page that it took. -/
  fails : (∃ p fdarray, c = .pipe p fdarray) → (∀ q, Alive K' q → Alive K q) → F' = F
  /-- `fork` touches no page of a pipe. -/
  forks : (∃ p, c = .fork p) → ∀ q, Alive K q → Agree K.phys.mem K'.phys.mem q

section

variable [Layout] {B : Nat → Prop} {K K' : Kernel} {o o' : Nat → Owner} {c : Call} {F F' : List Nat}

omit [Layout] in
/-- Calls after which the same pipes are alive. -/
lemma PipeStep.of_same (hsame : ∀ q, Alive K' q ↔ Alive K q)
    (hc : (∀ p fd, c ≠ .close p fd) ∧ (∀ p status, c ≠ .exit p status) ∧ ∀ p fd, c ≠ .dup p fd)
    (hpipe : (∃ p fdarray, c = .pipe p fdarray) → F' = F)
    (hfork : (∃ p, c = .fork p) → ∀ q, Alive K q → Agree K.phys.mem K'.phys.mem q) :
    PipeStep K c K' F F' where
  starts := fun q hq hq' => absurd ((hsame q).mp hq') hq
  stops := fun q hq hq' => absurd ((hsame q).mpr hq) hq'
  frees := by
    rintro (⟨p, fd, he⟩ | ⟨p, status, he⟩ | ⟨p, fd, he⟩)
    · exact absurd he (hc.1 p fd)
    · exact absurd he (hc.2.1 p status)
    · exact absurd he (hc.2.2 p fd)
  fails := fun he _ => hpipe he
  forks := hfork

/-- Calls that leave files and descriptors alone. -/
lemma PipeStep.of_fileless {α : Type} {m : KernelM α} (hm : Fileless m)
    (hrun : c.run K = (m >>= fun _ => pure ()) K) (hok : c.run K = .ok ((), K'))
    (hc : (∀ p fd, c ≠ .close p fd) ∧ (∀ p status, c ≠ .exit p status) ∧ ∀ p fd, c ≠ .dup p fd)
    (hnot : (∀ p fdarray, c ≠ .pipe p fdarray) ∧ ∀ p, c ≠ .fork p) : PipeStep K c K' F F' := by
  have hkept : FilesKept K K' := ((hm.bind fun _ => keeps_pure ()) K).ok (hrun.symm.trans hok)
  refine PipeStep.of_same (fun q => hkept.alive_iff) hc ?_ ?_
  · rintro ⟨p, fdarray, he⟩
    exact absurd he (hnot.1 p fdarray)
  · rintro ⟨p, he⟩
    exact absurd he (hnot.2 p)

/-- Calls that drop descriptors. -/
lemma PipeStep.of_dropped {L : List Nat} (h : Inv B K o 0) (h' : Inv B K' o' 0)
    (hd : Dropped K.phys o K'.phys o' L) (hF : FreeList K.phys o F) (hF' : FreeList K'.phys o' F')
    (hc : (∃ p fd, c = .close p fd) ∨ ∃ p status, c = .exit p status) : PipeStep K c K' F F' := by
  have hlist : F' = L ++ F := hF'.chain.unique (hd.list hF).chain
  have hL : ∀ q, q ∈ L ↔ Alive K q ∧ ¬ Alive K' q := fun q => by
    rw [hd.mem_iff, h.file.alive_iff, h'.file.alive_iff]
  have hnew : ∀ q, Alive K' q → Alive K q := by
    intro q hq
    rw [h.file.alive_iff]
    rw [h'.file.alive_iff] at hq
    rw [← hd.other fun hm => ?_, hq]
    rw [(hd.pipe hm).2] at hq
    cases hq
  refine ⟨fun q hq hq' => absurd (hnew q hq') hq, fun _ _ _ => hc, fun _ => ⟨L, hlist, hL⟩, ?_, ?_⟩
  · rintro ⟨p, fdarray, rfl⟩
    rcases hc with ⟨_, _, he⟩ | ⟨_, _, he⟩ <;> cases he
  · rintro ⟨p, rfl⟩
    rcases hc with ⟨_, _, he⟩ | ⟨_, _, he⟩ <;> cases he

/-- A call of `pipe` that makes the pipe in page `q`. -/
lemma PipeStep.of_piped {p fdarray q : Nat} (h : Inv B K o 0) (hp : Piped B K o K' q)
    (hlist : F = q :: F') : PipeStep K (.pipe p fdarray) K' F F' := by
  have hnew : ¬ Alive K q := fun hq => by
    rw [h.file.alive_iff, hp.free] at hq
    cases hq
  have hq : Alive K' q := hp.inv.file.alive_iff.mpr (Function.update_self ..)
  have hother : ∀ q', q' ≠ q → (Alive K' q' ↔ Alive K q') := fun q' hne => by
    rw [h.file.alive_iff, hp.inv.file.alive_iff, Function.update_of_ne hne]
  have hmore : ∀ q', Alive K q' → Alive K' q' := fun q' hq' => by
    by_cases he : q' = q
    · rw [he]
      exact hq
    · exact (hother q' he).mpr hq'
  refine ⟨fun q' hd hl => ⟨⟨p, fdarray, rfl⟩, ?_⟩, fun q' hl hd => absurd (hmore q' hl) hd, by simp,
    fun _ hsame => absurd (hsame q hq) hnew, by simp⟩
  by_cases he : q' = q
  · rw [he]
    exact hlist
  · exact absurd ((hother q' he).mp hl) hd

lemma Call.pipeStep (h : Inv B K o 0) (hc : c.enabled K) (hok : c.run K = .ok ((), K'))
    (hF : FreeList K.phys o F) : ∃ o' F', Inv B K' o' 0 ∧ FreeList K'.phys o' F' ∧
      PipeStep K c K' F F' := by
  have hr : Running K c.proc := by
    refine ⟨hc.1, ?_, ?_⟩ <;> rw [hc.2] <;> rintro ⟨⟩
  -- calls without files only need the invariant
  have hother : (∀ p status, c ≠ .exit p status) → (∀ F', PipeStep K c K' F F') →
      ∃ o' F', Inv B K' o' 0 ∧ FreeList K'.phys o' F' ∧ PipeStep K c K' F F' := by
    intro hexit hstep
    obtain ⟨o', h'⟩ := (Call.run_spec h hc fun p status he => absurd he (hexit p status)).eq hok
    obtain ⟨F', hF'⟩ := h'.mem.heap.freeList
    exact ⟨o', F', h', hF', hstep F'⟩
  cases c with
  | fork p =>
    obtain ⟨_, o', h', ⟨np, hframe⟩, -⟩ := (fork_spec h hr).discard hok
    obtain ⟨F', hF'⟩ := h'.mem.heap.freeList
    refine ⟨o', F', h', hF', PipeStep.of_same (fun q => ?_) (by simp) (by simp) fun _ q hq => ?_⟩
    · rw [h.file.alive_iff, h'.file.alive_iff]
      exact hframe.owner_iff id
    · refine hframe.mem ?_
      rw [h.file.alive_iff.mp hq]
      exact id
  | exec p namei upath uargv =>
    exact hother (by simp) fun F' =>
      PipeStep.of_fileless (slotwise_filesKept.sysExec p namei upath uargv) rfl hok (by simp) (by simp)
  | sbrk p n =>
    exact hother (by simp) fun F' =>
      PipeStep.of_fileless (slotwise_filesKept.sysSbrk p n) rfl hok (by simp) (by simp)
  | exit p status =>
    have hinit : K.initproc ≠ some p := fun he => by
      rw [Call.exit_init he] at hok
      cases hok
    obtain ⟨o', h', L, hd⟩ := (exit_spec h hr hinit status).eq hok
    exact ⟨o', _, h', hd.list hF, PipeStep.of_dropped h h' hd hF (hd.list hF) (.inr ⟨p, status, rfl⟩)⟩
  | wait p addr =>
    exact hother (by simp) fun F' =>
      PipeStep.of_fileless (slotwise_filesKept.wait p addr) rfl hok (by simp) (by simp)
  | pipe p fdarray =>
    obtain ⟨_, ⟨-, hu⟩ | ⟨-, q, hp⟩⟩ := (sysPipe_spec h hr fdarray).discard hok
    · refine ⟨o, F, hu.inv, hu.list hF, PipeStep.of_same (fun q => ?_) (by simp) (fun _ => rfl) (by simp)⟩
      rw [h.file.alive_iff, hu.inv.file.alive_iff]
    · obtain ⟨F', hlist, hF'⟩ := hp.list hF
      exact ⟨_, F', hp.inv, hF', PipeStep.of_piped h hp hlist⟩
  | dup p fd =>
    obtain ⟨_, h', hphys⟩ := (sysDup_spec h hr fd).discard hok
    have hsame : ∀ q, Alive K' q ↔ Alive K q := fun q => by
      rw [h.file.alive_iff, h'.file.alive_iff]
    refine ⟨o, F, h', hphys ▸ hF, fun q hq hq' => absurd ((hsame q).mp hq') hq,
      fun q hq hq' => absurd ((hsame q).mpr hq) hq', fun _ => ⟨[], rfl, fun q => ?_⟩, by simp, by simp⟩
    simp [hsame q]
  | close p fd =>
    obtain ⟨_, o', h', L, hd⟩ := (sysClose_spec h hr fd).discard hok
    exact ⟨o', _, h', hd.list hF, PipeStep.of_dropped h h' hd hF (hd.list hF) (.inl ⟨p, fd, rfl⟩)⟩
  | kill p pid =>
    exact hother (by simp) fun F' =>
      PipeStep.of_fileless (fileless_kill pid) rfl hok (by simp) (by simp)
  | store p va bs =>
    exact hother (by simp) fun F' => PipeStep.of_fileless
      ((leaves_getProc p).bind fun pr => slotwise_filesKept.onPhys (copyout pr.pagetable va bs)) rfl hok
      (by simp) (by simp)

/-- In every state between calls the words of a pipe say which of its ends a descriptor
refers to, and no descriptor leads to a free page. Each call does to the pipes what
`PipeStep` says. -/
theorem Machine.pipe_lifetime (M : Machine) : ∃ A K₀, M.start = .ok (A, K₀) ∧
    ∀ cs K, run step K₀ cs = some K →
      ∃ F, Chain K.phys.mem K.phys.freelist F ∧ F.Nodup ∧ PipesOpen K F ∧
        ∀ c K', step K c = some K' →
          ∃ F', Chain K'.phys.mem K'.phys.freelist F' ∧ F'.Nodup ∧ PipesOpen K' F' ∧
            PipeStep K c K' F F' := by
  obtain ⟨A, K₀, hstart, hinv, -⟩ := M.start_spec
  refine ⟨A, K₀, hstart, fun cs K hrun => ?_⟩
  obtain ⟨o, h⟩ := run_inv hinv hrun
  obtain ⟨F, hF⟩ := h.mem.heap.freeList
  refine ⟨F, hF.chain, hF.nodup, h.file.pipesOpen hF, fun c K' hs => ?_⟩
  obtain ⟨hc, hok⟩ := step_some hs
  obtain ⟨o', F', h', hF', hstep⟩ := Call.pipeStep h hc hok hF
  exact ⟨F', hF'.chain, hF'.nodup, h'.file.pipesOpen hF', hstep⟩

end

/-- The first process makes a pipe, and can close its read end. -/
def makesPipe : Bool :=
  letI := Process.crowded
  match Machine.sixteen.start with
  | .ok (_, K₀) =>
    match run step K₀ [.pipe 0 0] with
    | some K =>
      match (K.proc 0).ofile 0, (K.proc 0).ofile 1 with
      | some f, some g =>
        let q := (K.ftable f).pipe / 4096
        (K.ftable f).type == .pipe && (K.ftable f).pipe == 4096 * q && (K.ftable f).writable == false &&
        (K.ftable g).type == .pipe && (K.ftable g).pipe == 4096 * q && (K.ftable g).writable == true &&
        (step K (.close 0 0)).isSome
      | _, _ => false
    | none => false
  | .error _ => false

lemma makesPipe_eq : makesPipe = true := by decide +kernel

theorem Machine.pipe_lifetime_small :
    letI := Process.crowded
    ∃ A K₀ K K' F F' q, Machine.sixteen.start = .ok (A, K₀) ∧ run step K₀ [.pipe 0 0] = some K ∧
      Refers K q false ∧ Refers K q true ∧ getLE K.phys.mem (4096 * q + pipeReadopen) 4 = 1 ∧
      getLE K.phys.mem (4096 * q + pipeWriteopen) 4 = 1 ∧ step K (.close 0 0) = some K' ∧
      PipesOpen K' F' ∧ PipeStep K (.close 0 0) K' F F' := by
  let _ := Process.crowded
  obtain ⟨A, K₀, hstart, hlife⟩ := Machine.pipe_lifetime Machine.sixteen
  have hmakes := makesPipe_eq
  unfold makesPipe at hmakes
  rw [hstart] at hmakes
  dsimp only at hmakes
  split at hmakes
  next K hrun =>
    obtain ⟨F, -, -, hopen, hstep⟩ := hlife _ K hrun
    split at hmakes
    next f g hf hg =>
      simp only [Bool.and_eq_true, beq_iff_eq] at hmakes
      obtain ⟨⟨⟨⟨⟨⟨hft, hfp⟩, hfw⟩, hgt⟩, hgp⟩, hgw⟩, hclose⟩ := hmakes
      obtain ⟨K', hK'⟩ := Option.isSome_iff_exists.mp hclose
      obtain ⟨F', -, -, hopen', hpipe⟩ := hstep _ K' hK'
      have hread : Refers K ((K.ftable f).pipe / 4096) false := ⟨0, 0, f, hf, hft, hfp, hfw⟩
      have hwrite : Refers K ((K.ftable f).pipe / 4096) true := ⟨0, 1, g, hg, hgt, hgp, hgw⟩
      exact ⟨A, K₀, K, K', F, F', _, hstart, hrun, hread, hwrite, (hopen.readopen ⟨_, hread⟩).mpr hread,
        (hopen.writeopen ⟨_, hread⟩).mpr hwrite, hK', hopen', hpipe⟩
    next => cases hmakes
  next => cases hmakes

end Xv6.Process
