import Xv6.Fs.Frame
import Xv6.Fs.Table
import Xv6.Lib.Tiling

/-!
# Writers that share an open file

`filewrite` cuts a long buffer into pieces, and each piece is a transaction of its own.
Between two of them other processes write through the same `struct file` and move its
offset. Here any number of calls take turns (`Writers`, `step`): a step is one turn of
the loop of `filewrite`, from `begin_op` to `end_op`, by some call that has not
returned.
-/

namespace Xv6.Fs

open Finset Function Lib
open Xv6.Inode (Dinode ninode)

/-! ## Calls -/

/-- The arguments of a call. -/
structure WriteCall where
  m : UserMem
  addr : Nat
  n : Nat

/-- Where a call is: before byte `i` of its buffer, or back with a result. -/
inductive Progress where
  | before (i : Nat)
  | returned (r : Int)

/-- What `filewrite` returns when the loop ends before byte `i`. -/
def writeResult (c : WriteCall) (i : Nat) : Int := if i = c.n then c.n else -1

/-- How much of a buffer of `n` bytes has been written. -/
def Progress.done (n : Nat) : Progress → Nat
  | before i => i
  | returned _ => n

/-- How many turns are left at most. -/
def Progress.turns (n : Nat) : Progress → Nat
  | before i => n - i + 1
  | returned _ => 0

/-- The call has not gone wrong. -/
def Progress.Good (n : Nat) : Progress → Prop
  | before i => i ≤ n
  | returned r => r = n

/-! ## One turn of the loop -/

section

variable [Superblock]

/-- A turn of the loop of `filewrite`: `n1` bytes from `addr` on are written. -/
def filewriteTurn (f : Nat) (m : UserMem) (addr n1 : Nat) : FsM Int := do
  beginOp
  ilock ((← get).ftable f).ip
  let file := (← get).ftable f
  let r ← writei file.ip (.user m addr) file.off n1
  (if r > 0 then modifyFile f fun file => { file with off := file.off + r.toNat } else pure ())
  iunlock file.ip
  endOp
  pure r

/-- A call goes on until the end of a turn. -/
def writeStep (f : Nat) (c : WriteCall) (i : Nat) : FsM Progress :=
  if i < c.n then do
    let r ← filewriteTurn f c.m (c.addr + i) (min (c.n - i) writeMax)
    if r ≠ min (c.n - i) writeMax then pure (.returned (writeResult c i))
    else pure (.before (i + min (c.n - i) writeMax))
  else pure (.returned (writeResult c i))

/-- What is left of `filewrite` before byte `i`, in `k` turns at most. -/
def filewriteFrom (f : Nat) (c : WriteCall) (k i : Nat) : FsM Int := do
  let i ← filewriteRounds f c.m c.addr c.n k i
  pure (writeResult c i)

/-- A call is a turn and what is left after it. -/
lemma filewriteFrom_succ (f : Nat) (c : WriteCall) (k i : Nat) :
    filewriteFrom f c (k + 1) i = (do
      match ← writeStep f c i with
      | .before i => filewriteFrom f c k i
      | .returned r => pure r) := by
  unfold filewriteFrom writeStep
  rw [filewriteRounds]
  split
  · unfold filewriteTurn
    simp only [bind_assoc, pure_bind]
    refine bind_congr fun _ => bind_congr fun _ => bind_congr fun _ => bind_congr fun _ => bind_congr fun r =>
      bind_congr fun _ => bind_congr fun _ => bind_congr fun _ => ?_
    by_cases hr : r = (min (c.n - i) writeMax : Nat)
    · rw [if_neg (by simpa using hr), if_neg (by simpa using hr), pure_bind]
    · rw [if_pos (by simpa using hr), if_pos (by simpa using hr), pure_bind, pure_bind]
  · rw [pure_bind, pure_bind]

/-- `filewrite` on an inode begins before byte 0. -/
lemma filewrite_inode {s : Fs} {f : Nat} {c : WriteCall} {io : Int} (htype : (s.ftable f).type = .inode)
    (hwrite : (s.ftable f).writable = true) :
    filewrite f c.m c.addr c.n io s = filewriteFrom f c c.n 0 s := by
  have hthis : filewrite f c.m c.addr c.n io s = (do
      let i ← filewriteRounds f c.m c.addr c.n c.n 0
      pure (if (i : Int) = c.n then (c.n : Int) else -1) : FsM Int) s := by
    unfold filewrite
    rw [bind_of_ok rfl, hwrite, htype]
    rfl
  rw [hthis]
  unfold filewriteFrom writeResult
  simp only [Nat.cast_inj]

end

/-! ## Calls that take turns -/

section

variable {ι : Type}

/-- A piece that a call has written: `len` bytes from byte `start` of its buffer on, which
are at `off` of the file. -/
structure Piece (ι : Type) where
  call : ι
  start : Nat
  off : Nat
  len : Nat

/-- The system, where each call is, and what has been written. -/
structure Writers (ι : Type) where
  fs : Fs
  prog : ι → Progress
  pieces : List (Piece ι)

/-- Where a piece is in the file. -/
def Piece.inFile (p : Piece ι) : Nat × Nat := (p.off, p.len)

/-- Where a piece is in the buffer. -/
def Piece.inBuffer (p : Piece ι) : Nat × Nat := (p.start, p.len)

/-- The bytes of a piece. -/
def Piece.bytes (calls : ι → WriteCall) (p : Piece ι) : List UInt8 :=
  (Src.user (calls p.call).m ((calls p.call).addr + p.start)).bytes p.len

/-- Everything that has been written, one piece after the other. -/
def Writers.data (calls : ι → WriteCall) (w : Writers ι) :
    List UInt8 := w.pieces.flatMap (Piece.bytes calls)

variable [DecidableEq ι]

/-- The pieces of a call. -/
def Writers.piecesOf (w : Writers ι) (a : ι) : List (Piece ι) := w.pieces.filter (·.call = a)

/-- Call `a` takes a turn. What it has written is what the offset has moved by. -/
def Writers.step [Superblock] (f : Nat) (calls : ι → WriteCall) (w : Writers ι) (a : ι) :
    Option (Writers ι) :=
  match w.prog a with
  | .returned _ => none
  | .before i =>
    match writeStep f (calls a) i w.fs with
    | .error _ => none
    | .ok (p, fs) =>
      let off := (w.fs.ftable f).off
      let len := (fs.ftable f).off - off
      some {
        fs := fs
        prog := update w.prog a p
        pieces := w.pieces ++ if len = 0 then [] else [⟨a, i, off, len⟩] }

end

/-! ## What a turn does -/

section

variable [Superblock]

/-- Between two turns: file `f` is open for writing on inode `i`, which is `x`, and nobody
is in a transaction. -/
structure Shared (f e i : Nat) (x : Node) (s : Fs) : Prop where
  consistent : Consistent s
  noHoles : NoHoles s i
  node : s.files i = some x
  lh : s.lh = []
  outstanding : s.outstanding = 0
  type : (s.ftable f).type = .inode
  writable : (s.ftable f).writable = true
  ip : (s.ftable f).ip = e
  lt : e < ninode
  ref : 0 < (s.itable e).ref
  inum : (s.itable e).inum = i
  lock : (s.itable e).lock = false
  off_le : (s.ftable f).off ≤ x.bytes.length

end

variable {f e i : Nat} {x : Node} {s s₀ : Fs} {K : Nat → Bool} {v : Nat → Block} {N : Nat → Dinode}
variable {o : Nat → Option (Nat × Nat)} {I : Nat → Inode} {S : Set Nat} {T : Finset Nat} {E : Stop → Prop}
variable [Geometry]

/-- `f->off += r`. -/
lemma moveOff_spec {F : Nat → File} (k : Nat) :
    Triple (fun s => Busy s₀ T K v N o I S s ∧ s.ftable = F)
      (if (k : Int) > 0 then modifyFile f fun file => { file with off := file.off + (k : Int).toNat } else pure ())
      (fun _ s => Busy s₀ T K v N o I S s ∧ s.ftable = update F f { F f with off := (F f).off + k })
      E := by
  refine triple_ite (fun hk => ?_) fun hk => ?_
  · refine triple_modify fun s ⟨hs, hF⟩ => ⟨⟨hs.toSys.same rfl rfl rfl rfl, hs.toLogs.same rfl rfl rfl⟩, ?_⟩
    subst hF
    rfl
  · obtain rfl : k = 0 := by omega
    refine triple_pure fun s hs => ⟨hs.1, hs.2.trans ?_⟩
    exact (update_eq_self f F).symm

lemma Over.elim {n : Nat} {err : Stop} (h : Over (some n) s err) (hcap : s.lh.length + n ≤ logCap)
    (hout : s.outstanding ≠ 0) : False := by
  rcases h with ⟨-, hlog⟩ | ⟨-, hzero⟩
  · exact absurd (hlog n rfl) (by omega)
  · exact hout hzero

omit [Geometry] in
lemma opBlocks_le {n : Nat} (hn : n ≤ writeMax) : opBlocks n ≤ maxOpBlocks := by
  have hle : n ≤ 3072 := hn
  unfold opBlocks maxOpBlocks bsize
  omega

/-- A piece has been stored and the last transaction has ended. -/
structure Placed (f e i : Nat) (src : Src) (v : Nat → Block) (N : Nat → Dinode)
    (o : Nat → Option (Nat × Nat))
    (I : Nat → Inode) (F : Nat → File) (n k : Nat) (s : Fs) : Prop where
  le : k ≤ n
  full : k < n → Full s.view
  lh : s.lh = []
  outstanding : s.outstanding = 0
  ftable : s.ftable = update F f { F f with off := (F f).off + k }
  stored : ∃ v' N' o', Stored i allData (F f).off k src.byte v N o v' N' o' ∧
    Sys allData v' N' o' (update I e { I e with lock := false, copy := N' i }) ∅ s

/-- The turn after `ilock`. -/
lemma storePiece_spec {F : Nat → File} {src : Src} {n : Nat} (he : Loaded I e) (hi : (I e).inum = i)
    (hlock : (I e).lock = true) (hd : Dense v (N i)) (hr : ¬ Refused (N i).size (F f).off n)
    (hsrc : src.Readable n) (hlog : s₀.lh.length + opBlocks n ≤ logCap) (hout : s₀.outstanding = 1) :
    Triple (fun s => Busy s₀ ∅ allData v N o I ∅ s ∧ s.ftable = F)
      (do
        let r ← writei e src (F f).off n
        (if r > 0 then modifyFile f fun file => { file with off := file.off + r.toNat } else pure ())
        iunlock e
        endOp
        pure r)
      (fun r s => ∃ k : Nat, r = k ∧ Placed f e i src v N o I F n k s) (fun _ => False) := by
  rintro s ⟨hs, hF⟩
  have hwrite := writei_spec he hi (Set.mem_singleton i) hd hr (fun _ => hsrc)
    (within_some.mpr (Nat.le_of_eq (Nat.zero_add _))) s (hs.mono (Set.empty_subset _))
  refine ((hwrite.errors fun err herr => herr.elim hlog (by omega)).also (writei_aside e src _ n s)).bind
    fun r t ht => ?_
  obtain ⟨⟨k, rfl, hk, v', N', o', T', ht, hstored, -, hfull⟩, hsame⟩ := ht
  rw [Set.sdiff_self] at ht
  refine (moveOff_spec k t ⟨ht, hsame.ftable.trans hF⟩).bind fun _ u ⟨hu, hmoved⟩ => ?_
  have hlocked : (setCopy I e (N' i) e).lock = true := by rw [setCopy_self]; exact hlock
  have hunlock := iunlock_spec (E := fun _ => False) he.lt (loaded_setCopy.mpr he).ref hlocked u hu
  refine (hunlock.also (iunlock_aside e u)).bind fun _ w ⟨hw, hsame'⟩ => ?_
  have hend := (endOp_sys (E := fun _ => False) w hw.toSys).also
    (endOp_quiet (E := fun _ => False) (hw.outstanding.trans hout))
  refine (hend.also (endOp_aside w)).bind fun _ y ⟨⟨hy, hlh, hzero⟩, hlast⟩ => ends_pure ⟨k, rfl, ?_⟩
  have hentry : update (setCopy I e (N' i)) e { setCopy I e (N' i) e with lock := false } =
      update I e { I e with lock := false, copy := N' i } := by
    rw [setCopy_self, setCopy, update_idem]
  rw [hentry] at hy
  exact {
    le := hk
    full := fun hlt => hy.full (hfull hlt hsrc).1
    lh := hlh
    outstanding := hzero
    ftable := hlast.ftable.trans (hsame'.ftable.trans hmoved)
    stored := ⟨v', N', o', hstored, hy⟩ }

/-- The state after a turn is like that before it. -/
lemma Placed.shared {src : Src} {n k : Nat} {s' : Fs} (h : Shared f e i (nodeOf s.view (s.dinode i)) s)
    (howned : Owned s.view s.dinode o ∅) (hi : i < ninodes) (ht : (s.dinode i).type ≠ 0)
    (hIe : I e = { s.itable e with lock := true, valid := true, copy := s.dinode i })
    (hp : Placed f e i src s.view s.dinode o I s.ftable n k s') :
    Shared f e i { nodeOf s.view (s.dinode i) with
      bytes := overwrite (contents s.view (s.dinode i)) (s.ftable f).off (src.bytes k) } s' ∧
      ∀ j ≠ i, s'.files j = s.files j := by
  obtain ⟨v', N', o', hstored, hsys⟩ := hp.stored
  have hfiles := hsys.files_eq.trans (hstored.fileMap_eq howned hi ht)
  have hfile : s'.ftable f = { s.ftable f with off := (s.ftable f).off + k } := by
    rw [hp.ftable, update_self]
  have hentry : s'.itable e = { s.itable e with lock := false, valid := true, copy := N' i } := by
    rw [hsys.at_.itable, update_self, hIe]
  refine ⟨?_, fun j hj => ?_⟩
  · exact {
      consistent := ⟨o', hsys.sound⟩
      noHoles := (hsys.noHoles hi (by rwa [hstored.fields])).mpr hstored.dense
      node := by
        rw [hfiles, update_self]
        rfl
      lh := hp.lh
      outstanding := hp.outstanding
      type := by rw [hfile]; exact h.type
      writable := by rw [hfile]; exact h.writable
      ip := by rw [hfile]; exact h.ip
      lt := h.lt
      ref := by rw [hentry]; exact h.ref
      inum := by rw [hentry]; exact h.inum
      lock := by rw [hentry]
      off_le := by
        have hlen : (overwrite (contents s.view (s.dinode i)) (s.ftable f).off (src.bytes k)).length =
            max _ ((s.ftable f).off + (src.bytes k).length) := length_overwrite h.off_le
        rw [Src.bytes, List.length_map, List.length_range] at hlen
        rw [hfile]
        exact hlen.symm ▸ Nat.le_max_right _ _ }
  · rw [hfiles, update_of_ne hj]
    rfl

/-- A turn stores a piece of the buffer at the offset and moves the offset behind it. -/
lemma filewriteTurn_spec {m : UserMem} {addr n : Nat} (hlog : maxOpBlocks ≤ logCap) (h : Shared f e i x s)
    (hsrc : (Src.user m addr).Readable n) (hmax : (s.ftable f).off + n ≤ maxFile * bsize)
    (hn : n ≤ writeMax) :
    Returns (filewriteTurn f m addr n) s fun r s' => ∃ k : Nat, r = k ∧ k ≤ n ∧ (k < n → Full s'.view) ∧
      Shared f e i { x with bytes := overwrite x.bytes (s.ftable f).off ((Src.user m addr).bytes k) } s' ∧
      (s'.ftable f).off = (s.ftable f).off + k ∧ ∀ j ≠ i, s'.files j = s.files j := by
  obtain ⟨o, hsys⟩ := h.consistent
  obtain ⟨hlt, htype⟩ := files_ne_none.mp (show s.files i ≠ none by rw [h.node]; simp)
  obtain rfl : nodeOf s.view (s.dinode i) = x := by
    have hfile : s.files i = some (nodeOf s.view (s.dinode i)) := if_pos ⟨hlt, htype⟩
    exact Option.some.inj (hfile.symm.trans h.node)
  have hoff := h.off_le
  rw [length_nodeOf] at hoff
  have hr : ¬ Refused (s.dinode i).size (s.ftable f).off n := by
    have hlarge : maxFile * bsize < 2 ^ 32 := by decide
    unfold Refused
    omega
  refine Ends.returns (ends_bind_of_eq (beginOp_eq ?_) (ends_get_bind ?_))
  · rw [h.lh, h.outstanding]
    decide
  generalize hs₁ : ({ s with outstanding := s.outstanding + 1, logged := [] :: s.logged } : Fs) = s₁
  have hsys₁ : Sys allData s.view s.dinode o s.itable ∅ s₁ := hs₁ ▸ hsys.same rfl rfl rfl rfl
  have hlh : s₁.lh.length = 0 := by rw [← hs₁]; exact congrArg List.length h.lh
  have hout : s₁.outstanding = 1 := by rw [← hs₁]; exact congrArg (· + 1) h.outstanding
  have hftable : s₁.ftable = s.ftable := by rw [← hs₁]
  rw [hftable, h.ip]
  have hlock := ilock_spec h.lt h.ref h.inum hlt h.lock (fun _ => Set.notMem_empty i) s₁ hsys₁.busy
  refine ((hlock.errors fun err herr => htype herr.2).also (ilock_aside e s₁)).bind
    fun _ t ⟨⟨_, ht⟩, hsame⟩ => ?_
  generalize hI : update s.itable e _ = I at ht
  have hIe : I e = { s.itable e with lock := true, valid := true, copy := s.dinode i } := by
    rw [← hI, update_self]
  have hloaded : Loaded I e := ⟨h.lt, by rw [hIe]; exact h.ref, by rw [hIe]⟩
  have hcost := opBlocks_le hn
  refine ends_get_bind ?_
  dsimp only
  rw [hsame.ftable, hftable, h.ip]
  have hpiece := storePiece_spec hloaded (by rw [hIe]; exact h.inum) (by rw [hIe]) h.noHoles hr hsrc
    (by omega) hout t ⟨ht, hsame.ftable.trans hftable⟩
  refine hpiece.mono fun r s' ⟨k, hr, hplaced⟩ => ⟨k, hr, hplaced.le, hplaced.full, ?_⟩
  obtain ⟨hshared, hothers⟩ := hplaced.shared h hsys.owned hlt htype hIe
  exact ⟨hshared, by rw [hplaced.ftable, update_self], hothers⟩

/-- What a step of a call does. -/
lemma writeStep_spec {c : WriteCall} {j : Nat} (hlog : maxOpBlocks ≤ logCap) (h : Shared f e i x s)
    (hsrc : (Src.user c.m c.addr).Readable c.n) (hj : j ≤ c.n)
    (hmax : (s.ftable f).off + (c.n - j) ≤ maxFile * bsize) :
    Returns (writeStep f c j) s fun p s' =>
      j = c.n ∧ p = .returned c.n ∧ s' = s ∨
      j < c.n ∧ ∃ k ≤ c.n - j,
        Shared f e i { x with
          bytes := overwrite x.bytes (s.ftable f).off ((Src.user c.m (c.addr + j)).bytes k) } s' ∧
        (s'.ftable f).off = (s.ftable f).off + k ∧ (∀ j ≠ i, s'.files j = s.files j) ∧
        (0 < k ∧ p = .before (j + k) ∨ k < c.n - j ∧ Full s'.view) := by
  unfold writeStep
  split
  next hlt =>
    have hpos : 0 < min (c.n - j) writeMax := Nat.lt_min.mpr ⟨by omega, by decide⟩
    have hle := Nat.min_le_left (c.n - j) writeMax
    have hchunk := Nat.min_le_right (c.n - j) writeMax
    generalize min (c.n - j) writeMax = n at hpos hle hchunk
    have hread : (Src.user c.m (c.addr + j)).Readable n := (hsrc.advance hj).mono hle
    refine (filewriteTurn_spec hlog h hread (by omega) hchunk).bind fun r s' => ?_
    rintro ⟨k, rfl, hk, hfull, hshared, hoff, hothers⟩
    split
    next hne =>
      have hshort : k < n := by omega
      exact returns_pure (.inr ⟨hlt, k, by omega, hshared, hoff, hothers, .inr ⟨by omega, hfull hshort⟩⟩)
    next heq =>
      obtain rfl : k = n := by omega
      exact returns_pure (.inr ⟨hlt, k, hle, hshared, hoff, hothers, .inl ⟨hpos, rfl⟩⟩)
  next hge =>
    obtain rfl : j = c.n := by omega
    exact returns_pure (.inl ⟨rfl, congrArg Progress.returned (if_pos rfl), rfl⟩)

/-! ## Runs -/

section

variable {ι : Type} [DecidableEq ι] [Fintype ι] {calls : ι → WriteCall} {w w' : Writers ι} {a : ι}

section

omit [Geometry]

/-- One call moves. -/
lemma sum_update (g : ι → Progress → Nat) (prog : ι → Progress) (a : ι) (p : Progress) :
    ∑ b, g b (update prog a p b) + g a (prog a) = ∑ b, g b (prog b) + g a p := by
  have hrest : ∑ b ∈ univ.erase a, g b (update prog a p b) =
      ∑ b ∈ univ.erase a, g b (prog b) :=
    sum_congr rfl fun b hb => by rw [update_of_ne (ne_of_mem_erase hb)]
  rw [← add_sum_erase _ _ (mem_univ a), hrest, update_self,
    ← add_sum_erase _ (fun b => g b (prog b)) (mem_univ a)]
  omega

lemma Progress.Good.done_le {n : Nat} {p : Progress} (h : p.Good n) : p.done n ≤ n := by
  cases p with
  | before i => exact h
  | returned r => exact Nat.le_refl n

end

/-- What holds after each step, when the file was `x` and the offset `off₀` in the
beginning. -/
structure Interleaved (f e i : Nat) (calls : ι → WriteCall) (s₀ : Fs) (x : Node) (w : Writers ι) :
    Prop where
  fits : (s₀.ftable f).off ≤ x.bytes.length
  shared : Shared f e i { x with bytes := overwrite x.bytes (s₀.ftable f).off (w.data calls) } w.fs
  others : ∀ j ≠ i, w.fs.files j = s₀.files j
  row : Row (s₀.ftable f).off (w.pieces.map Piece.inFile) (w.fs.ftable f).off
  own : ∀ a, Row 0 ((w.piecesOf a).map Piece.inBuffer) ((w.prog a).done (calls a).n)
  good : ∀ a, (w.prog a).Good (calls a).n
  total : (w.fs.ftable f).off = (s₀.ftable f).off + ∑ a, (w.prog a).done (calls a).n
  length : (w.fs.ftable f).off = (s₀.ftable f).off + (w.data calls).length

/-- What a call has not written yet has its place below the last offset. -/
lemma Interleaved.room {j : Nat} (h : Interleaved f e i calls s₀ x w) (hprog : w.prog a = .before j) :
    (w.fs.ftable f).off + ((calls a).n - j) ≤ (s₀.ftable f).off + ∑ a, (calls a).n := by
  have hmove := sum_update (fun b => Progress.done (calls b).n) w.prog a (.returned 0)
  have hle : ∑ b, (update w.prog a (.returned 0) b).done (calls b).n ≤ ∑ b, (calls b).n := by
    refine sum_le_sum fun b _ => ?_
    by_cases hb : b = a
    · rw [hb, update_self]
      exact Nat.le_refl _
    · rw [update_of_ne hb]
      exact (h.good b).done_le
  have hdone : (w.prog a).done (calls a).n = j := by rw [hprog]; rfl
  have hj : j ≤ (calls a).n := hdone ▸ (h.good a).done_le
  have htotal := h.total
  have hlast : (Progress.returned 0).done (calls a).n = (calls a).n := rfl
  rw [hdone, hlast] at hmove
  omega

lemma Interleaved.start {s : Fs} (h : Shared f e i x s) :
    Interleaved f e i calls s x ⟨s, fun _ => .before 0, []⟩ where
  fits := h.off_le
  shared := by
    show Shared f e i { x with bytes := overwrite x.bytes _ [] } s
    rw [overwrite_nil]
    exact h
  others _ _ := rfl
  row := rfl
  own _ := rfl
  good a := Nat.zero_le _
  total := by
    show _ = _ + ∑ a : ι, 0
    rw [sum_const_zero]
    rfl
  length := rfl

/-- The call has nothing to write any more and returns. -/
lemma Interleaved.returned (h : Interleaved f e i calls s₀ x w) (hprog : w.prog a = .before (calls a).n) :
    Interleaved f e i calls s₀ x
      { w with prog := update w.prog a (.returned (calls a).n) } := by
  have hdone : ∀ b, (update w.prog a (.returned (calls a).n) b).done (calls b).n =
      (w.prog b).done (calls b).n := by
    intro b
    by_cases hb : b = a
    · rw [hb, update_self, hprog]
      rfl
    · rw [update_of_ne hb]
  exact {
    fits := h.fits
    shared := h.shared
    others := h.others
    row := h.row
    own := fun b => by
      rw [hdone]
      exact h.own b
    good := fun b => by
      by_cases hb : b = a
      · rw [hb]
        show (update w.prog a _ a).Good _
        rw [update_self]
        exact rfl
      · show (update w.prog a _ b).Good _
        rw [update_of_ne hb]
        exact h.good b
    total := by
      simp only [hdone]
      exact h.total
    length := h.length }

/-- The call has written a piece. -/
lemma Interleaved.piece {j k : Nat} {s' : Fs} (h : Interleaved f e i calls s₀ x w)
    (hprog : w.prog a = .before j) (hk : 0 < k) (hle : j + k ≤ (calls a).n)
    (hshared : Shared f e i { x with
      bytes := overwrite (overwrite x.bytes (s₀.ftable f).off (w.data calls)) (w.fs.ftable f).off
        ((Src.user (calls a).m ((calls a).addr + j)).bytes k) } s')
    (hoff : (s'.ftable f).off = (w.fs.ftable f).off + k) (hothers : ∀ j ≠ i, s'.files j = w.fs.files j) :
    Interleaved f e i calls s₀ x {
      fs := s'
      prog := update w.prog a (.before (j + k))
      pieces := w.pieces ++ [⟨a, j, (w.fs.ftable f).off, k⟩] } := by
  generalize hw' : (⟨s', update w.prog a (.before (j + k)),
    w.pieces ++ [⟨a, j, (w.fs.ftable f).off, k⟩]⟩ : Writers ι) = w'
  have hfs : w'.fs = s' := by rw [← hw']
  have hprog' : w'.prog = update w.prog a (.before (j + k)) := by rw [← hw']
  have hpieces : w'.pieces = w.pieces ++ [⟨a, j, (w.fs.ftable f).off, k⟩] := by rw [← hw']
  have hdata : w'.data calls = w.data calls ++ (Src.user (calls a).m ((calls a).addr + j)).bytes k := by
    unfold Writers.data
    rw [hpieces, List.flatMap_append, List.flatMap_singleton]
    rfl
  have hlen : ((Src.user (calls a).m ((calls a).addr + j)).bytes k).length = k := by simp [Src.bytes]
  have hlength := h.length
  have hown := h.own a
  rw [hprog] at hown
  exact {
    fits := h.fits
    shared := by
      rw [hdata, hfs, ← overwrite_append _ _ h.fits, ← hlength]
      exact hshared
    others := fun m hm => by
      rw [hfs, hothers m hm]
      exact h.others m hm
    row := by
      rw [hpieces, hfs, hoff, List.map_append]
      exact h.row.append (row_singleton hk)
    own := fun b => by
      unfold Writers.piecesOf
      rw [hpieces, hprog', List.filter_append, List.map_append]
      by_cases hb : b = a
      · subst hb
        rw [update_self, List.filter_cons_of_pos (by simp)]
        exact hown.append (row_singleton hk)
      · rw [update_of_ne hb, List.filter_cons_of_neg (by simpa using Ne.symm hb), List.filter_nil,
          List.map_nil, List.append_nil]
        exact h.own b
    good := fun b => by
      rw [hprog']
      by_cases hb : b = a
      · rw [hb, update_self]
        exact hle
      · rw [update_of_ne hb]
        exact h.good b
    total := by
      have hmove := sum_update (fun b => Progress.done (calls b).n) w.prog a (.before (j + k))
      have htotal := h.total
      have hdone : (w.prog a).done (calls a).n = j := by rw [hprog]; rfl
      have hdone' : (Progress.before (j + k)).done (calls a).n = j + k := rfl
      rw [hdone, hdone'] at hmove
      rw [hfs, hprog', hoff]
      omega
    length := by
      rw [hfs, hdata, List.length_append, hlen, hoff, hlength, Nat.add_assoc] }

/-- A call that has not returned can take a turn, and the turn keeps the invariant. -/
lemma Interleaved.step {j : Nat} (hlog : maxOpBlocks ≤ logCap) (h : Interleaved f e i calls s₀ x w)
    (hmapped : ∀ a, (Src.user (calls a).m (calls a).addr).Readable (calls a).n)
    (hmax : (s₀.ftable f).off + ∑ a, (calls a).n ≤ maxFile * bsize) (hprog : w.prog a = .before j) :
    ∃ w', w.step f calls a = some w' ∧
      ((Full w'.fs.view → (w'.fs.ftable f).off = (s₀.ftable f).off + ∑ a, (calls a).n) →
        Interleaved f e i calls s₀ x w' ∧
        ∑ b, (w'.prog b).turns (calls b).n < ∑ b, (w.prog b).turns (calls b).n) := by
  have hroom := h.room hprog
  have hj : j ≤ (calls a).n := by
    have hgood := h.good a
    rwa [hprog] at hgood
  have hturns : (w.prog a).turns (calls a).n = (calls a).n - j + 1 := by rw [hprog]; rfl
  obtain ⟨p, s', hstep, hp⟩ := writeStep_spec hlog h.shared (hmapped a) hj (by omega)
  have hfst : w.step f calls a = some ⟨s', update w.prog a p, w.pieces ++
      if (s'.ftable f).off - (w.fs.ftable f).off = 0 then []
      else [⟨a, j, (w.fs.ftable f).off, (s'.ftable f).off - (w.fs.ftable f).off⟩]⟩ := by
    unfold Writers.step
    rw [hprog]
    dsimp only
    rw [hstep]
  refine ⟨_, hfst, fun hdisk => ?_⟩
  have hmove := sum_update (fun b => Progress.turns (calls b).n) w.prog a p
  rw [hturns] at hmove
  rcases hp with ⟨rfl, rfl, rfl⟩ | ⟨hlt, k, hk, hshared, hoff, hothers, ⟨hpos, rfl⟩ | ⟨hshort, hfull⟩⟩
  · have hlast : (Progress.returned (calls a).n).turns (calls a).n = 0 := rfl
    rw [hlast] at hmove
    rw [if_pos (Nat.sub_self _), List.append_nil]
    exact ⟨h.returned hprog, by dsimp only; omega⟩
  · have hnext : (Progress.before (j + k)).turns (calls a).n = (calls a).n - (j + k) + 1 := rfl
    have hlen : (s'.ftable f).off - (w.fs.ftable f).off = k := by omega
    rw [hnext] at hmove
    rw [hlen, if_neg (by omega)]
    exact ⟨h.piece hprog hpos (by omega) hshared hoff hothers, by dsimp only; omega⟩
  · have hall := hdisk hfull
    dsimp only at hall
    omega

/-- All calls are at the beginning. -/
def Writers.start (ι : Type) (s : Fs) : Writers ι := ⟨s, fun _ => .before 0, []⟩

/-- The invariant, and how many turns there are at most. -/
lemma Interleaved.run {as : List ι} (hlog : maxOpBlocks ≤ logCap) (h₀ : Shared f e i x s)
    (hmapped : ∀ a, (Src.user (calls a).m (calls a).addr).Readable (calls a).n)
    (hmax : (s.ftable f).off + ∑ a, (calls a).n ≤ maxFile * bsize)
    (hrun : Lib.run (Writers.step f calls) (.start ι s) as = some w)
    (hdisk : ∀ bs u, bs <+: as → Lib.run (Writers.step f calls) (.start ι s) bs = some u →
      Full u.fs.view → (u.fs.ftable f).off = (s.ftable f).off + ∑ a, (calls a).n) :
    Interleaved f e i calls s x w ∧
      as.length + ∑ a, (w.prog a).turns (calls a).n ≤ ∑ a, ((calls a).n + 1) := by
  induction as using List.reverseRecOn generalizing w with
  | nil =>
    cases hrun
    refine ⟨.start h₀, ?_⟩
    rw [List.length_nil, Nat.zero_add]
    exact Nat.le_refl _
  | append_singleton as a ih =>
    obtain ⟨u, hu, hstep⟩ := run_concat.mp hrun
    obtain ⟨hinv, hlen⟩ := ih hu fun bs t hbs => hdisk bs t (hbs.trans (List.prefix_append _ _))
    cases hprog : u.prog a with
    | returned r =>
      unfold Writers.step at hstep
      rw [hprog] at hstep
      cases hstep
    | before j =>
      obtain ⟨w', hw', hkeep⟩ := hinv.step hlog hmapped hmax hprog
      obtain rfl : w' = w := Option.some.inj (hw'.symm.trans hstep)
      obtain ⟨hnext, hturns⟩ := hkeep (hdisk _ w' (List.prefix_refl _) hrun)
      refine ⟨hnext, ?_⟩
      rw [List.length_append, List.length_singleton]
      omega

/-- Nothing that is written through a shared offset is lost. -/
theorem filewrite_shared_offset {as : List ι} (hlog : maxOpBlocks ≤ logCap) (h₀ : Shared f e i x s)
    (hmapped : ∀ a, (Src.user (calls a).m (calls a).addr).Readable (calls a).n)
    (hmax : (s.ftable f).off + ∑ a, (calls a).n ≤ maxFile * bsize)
    (hrun : Lib.run (Writers.step f calls) (.start ι s) as = some w)
    (hdisk : ∀ bs u, bs <+: as → Lib.run (Writers.step f calls) (.start ι s) bs = some u →
      Full u.fs.view → (u.fs.ftable f).off = (s.ftable f).off + ∑ a, (calls a).n) :
    -- a call that has returned has returned its `n`, and the others go on without a panic
    (∀ a r, w.prog a = .returned r → r = (calls a).n) ∧
    (∀ a j, w.prog a = .before j → ∃ w', w.step f calls a = some w') ∧
    as.length ≤ ∑ a, ((calls a).n + 1) ∧
    -- the pieces follow one another in the file, and those of one call in its buffer
    Row (s.ftable f).off (w.pieces.map Piece.inFile) (w.fs.ftable f).off ∧
    Tiles (w.pieces.map Piece.inFile) {p | (s.ftable f).off ≤ p ∧ p < (w.fs.ftable f).off} ∧
    (∀ a, Row 0 ((w.piecesOf a).map Piece.inBuffer) ((w.prog a).done (calls a).n)) ∧
    w.fs.files = update s.files i
      (some { x with bytes := overwrite x.bytes (s.ftable f).off (w.data calls) }) ∧
    -- the offset after the last call
    ((∀ a, ∃ r, w.prog a = .returned r) →
      (w.fs.ftable f).off = (s.ftable f).off + ∑ a, (calls a).n) := by
  obtain ⟨hinv, hlen⟩ := Interleaved.run hlog h₀ hmapped hmax hrun hdisk
  refine ⟨fun a r hr => ?_, fun a j hj => ?_, by omega, hinv.row, hinv.row.tiles, hinv.own, ?_,
    fun hall => ?_⟩
  · have hgood := hinv.good a
    rwa [hr] at hgood
  · obtain ⟨w', hw', -⟩ := hinv.step hlog hmapped hmax hj
    exact ⟨w', hw'⟩
  · funext j
    by_cases hj : j = i
    · rw [hj, update_self]
      exact hinv.shared.node
    · rw [update_of_ne hj]
      exact hinv.others j hj
  · rw [hinv.total]
    refine congrArg _ (sum_congr rfl fun a _ => ?_)
    obtain ⟨r, hr⟩ := hall a
    rw [hr]
    rfl

end

section

omit [Geometry]

/-- The two processes of the test `sharedfd`. -/
def sharedfd (child : Bool) : WriteCall :=
  ⟨⟨fun _ => true, fun _ => if child then 99 else 112⟩, 0, 10⟩

lemma sample_shared : letI := roomy; Shared 0 1 2 ⟨tFile, 0, 0, 1, []⟩ sample := by
  let := roomy
  exact {
    consistent := sample_consistent
    noHoles := sampleOp_noHoles
    node := sampleOp_file
    lh := rfl
    outstanding := rfl
    type := rfl
    writable := rfl
    ip := rfl
    lt := by decide
    ref := by decide
    inum := rfl
    lock := rfl
    off_le := by decide }

lemma sharedfd_room : letI := roomy
    ∀ bs ∈ [true, false, false, true].inits,
      (Lib.run (Writers.step 0 sharedfd) (.start Bool sample) bs).any fun u => ! decide (Full u.fs.view) := by
  decide +kernel

/-- Two writers of ten bytes each. -/
theorem filewrite_shared_offset_sample : letI := roomy
    ∃ w, Lib.run (Writers.step 0 sharedfd) (.start Bool sample) [true, false, false, true] = some w ∧
      (∀ a r, w.prog a = .returned r → r = (sharedfd a).n) ∧
      Row 0 (w.pieces.map Piece.inFile) (w.fs.ftable 0).off := by
  let := roomy
  obtain ⟨w, hw, -⟩ := (Option.any_eq_true _ _).mp (sharedfd_room [true, false, false, true] (by simp))
  have hshared := filewrite_shared_offset (by decide) sample_shared (fun a p _ _ => rfl) (by decide) hw
    fun bs u hbs hu hfull => by
      have hroom := sharedfd_room bs ((List.mem_inits _ _).mpr hbs)
      rw [hu] at hroom
      simp [hfull] at hroom
  exact ⟨w, hw, hshared.1, hshared.2.2.2.1⟩

end

end Xv6.Fs
