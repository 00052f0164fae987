import Xv6.Block
import Xv6.Lib.Writes

/-!
# The redo log on disk

`kernel/log.c` seen from the disk. The log area is a header block followed by
`size - 1` log blocks. `commit()` writes the modified blocks from the cache to
the log blocks, writes the header, copies the log blocks to their home
locations and clears the header. `recover_from_log()` reads the header and
does the last two again.

A `Step` is the code between two crash points. Every step but `begin` ends in
exactly one `bwrite`, and `begin` is the part of a transaction that touches
only memory: the operations have changed buffers and called `log_write`. The
buffers are kept as `data`, the contents that `bread` returns for each block.
A crash keeps the disk and forgets the rest.
-/

namespace Xv6.Log

open Function Lib

/-! ## The log area and its header -/

/-- `log.start` and `log.size`. The size counts the header block. -/
structure LogArea where
  /-- Block number of the header. -/
  start : Nat
  /-- Number of blocks, the header included. -/
  size : Nat
  /-- There is a header. -/
  size_pos : 0 < size

/-- A block outside the log area. -/
def LogArea.Home (L : LogArea) (b : Nat) : Prop := b < L.start ∨ L.start + L.size ≤ b

instance (L : LogArea) (b : Nat) : Decidable (L.Home b) := inferInstanceAs (Decidable (_ ∨ _))

lemma LogArea.not_home_log {L : LogArea} {i : Nat} (h : i < L.size) : ¬ L.Home (L.start + i) := by
  unfold LogArea.Home
  omega

lemma LogArea.Home.ne_start {L : LogArea} {b : Nat} (h : L.Home b) : b ≠ L.start := by
  have := L.size_pos
  unfold LogArea.Home at h
  omega

/-- The value of a 32-bit word read as an `int`. -/
def asInt (w : Nat) : Int := if w < 2 ^ 31 then w else (w : Int) - 2 ^ 32

/-- The field `n` of the header in a block. -/
def headN (hb : Block) : Int := asInt (hb.word 0)

/-- `read_head`: the block numbers of the header. A negative `n` gives none. -/
def readHead (hb : Block) : List Nat :=
  (List.range (headN hb).toNat).map fun i => hb.word (4 + 4 * i)

/-- The loop of `write_head` that stores the block numbers, from slot `i` on. -/
def writeBlocks (hb : Block) : Nat → List Nat → Block
  | _, [] => hb
  | i, b :: bs => writeBlocks (hb.setWord (4 + 4 * i) b) (i + 1) bs

/-- `write_head`: store `n` and the first `n` block numbers, and keep the rest of
the block. -/
def writeHead (hb : Block) (lh : List Nat) : Block :=
  writeBlocks (hb.setWord 0 lh.length) 0 lh

lemma writeBlocks_word_of_lt (hb : Block) (i : Nat) (lh : List Nat) {off : Nat}
    (h : off + 4 ≤ 4 + 4 * i) : (writeBlocks hb i lh).word off = hb.word off := by
  induction lh generalizing hb i with
  | nil => rfl
  | cons b bs ih =>
    rw [writeBlocks, ih _ _ (by omega), Block.word_setWord_of_disjoint _ _ (by omega)]

lemma writeBlocks_word (hb : Block) (i : Nat) (lh : List Nat) (hfit : i + lh.length ≤ logSize)
    (hlh : ∀ b ∈ lh, b < 2 ^ 32) (j : Nat) (hj : j < lh.length) :
    (writeBlocks hb i lh).word (4 + 4 * (i + j)) = lh[j] := by
  induction lh generalizing hb i j with
  | nil => cases hj
  | cons b bs ih =>
    simp only [List.length_cons, logSize, maxOpBlocks] at hfit hj
    cases j with
    | zero =>
      rw [writeBlocks, writeBlocks_word_of_lt _ _ _ (by omega), Nat.add_zero,
        Block.word_setWord _ _ (by unfold bsize; omega)]
      exact Nat.mod_eq_of_lt (hlh b (by simp))
    | succ j =>
      have := ih (hb.setWord (4 + 4 * i) b) (i + 1) (by simp [logSize, maxOpBlocks]; omega)
        (fun c hc => hlh c (by simp [hc])) j (by omega)
      rw [writeBlocks, show i + (j + 1) = i + 1 + j by omega, this]
      rfl

lemma headN_writeHead (hb : Block) {lh : List Nat} (hfit : lh.length ≤ logSize) :
    headN (writeHead hb lh) = lh.length := by
  simp only [logSize, maxOpBlocks] at hfit
  unfold headN writeHead
  rw [writeBlocks_word_of_lt _ _ _ (by omega), Block.word_setWord _ _ (by unfold bsize; omega),
    Nat.mod_eq_of_lt (by omega), asInt, if_pos (by omega)]

/-- What `write_head` stores, `read_head` finds. -/
lemma readHead_writeHead (hb : Block) {lh : List Nat} (hfit : lh.length ≤ logSize)
    (hlh : ∀ b ∈ lh, b < 2 ^ 32) : readHead (writeHead hb lh) = lh := by
  unfold readHead
  rw [headN_writeHead hb hfit]
  apply List.ext_getElem
  · simp
  · intro j h₁ h₂
    simp only [List.getElem_map, List.getElem_range]
    have := writeBlocks_word (hb.setWord 0 lh.length) 0 lh (by omega) hlh j h₂
    simpa [writeHead] using this

lemma readHead_of_headN {hb : Block} (h : headN hb = 0) : readHead hb = [] := by
  simp [readHead, h]

/-! ## Transactions -/

/-- The blocks of one transaction with their new contents: distinct home blocks,
no more of them than the log area and the header have room for. -/
structure Txn (L : LogArea) where
  /-- Block numbers with the contents found in the cache. -/
  writes : List (Nat × Block)
  /-- The blocks are distinct, `log_write` absorbs repetitions. -/
  nodup : (writes.map Prod.fst).Nodup
  /-- They lie outside the log. -/
  home : ∀ w ∈ writes, L.Home w.1
  /-- Block numbers are `uint`. -/
  bound : ∀ w ∈ writes, w.1 < 2 ^ 32
  /-- There is a log block for each. -/
  fits : writes.length ≤ min logSize (L.size - 1)

/-- The block numbers that `log_write` has put in `log.lh`. -/
def Txn.blocks {L : LogArea} (t : Txn L) : List Nat := t.writes.map Prod.fst

/-- The home blocks after a list of transactions. -/
def afterTxns {L : LogArea} (d : Disk) (ts : List (Txn L)) : Disk :=
  ts.foldl (fun d t => applyWrites t.writes d) d

/-! ## The steps of `commit` and of `recover_from_log` -/

/-- The memory and the disk while the log works. -/
structure LogState where
  /-- The blocks on disk. -/
  disk : Disk
  /-- The contents of the buffers, what `bread` returns. -/
  data : Disk
  /-- `log.lh`. -/
  lh : List Nat

/-- `bwrite`: the buffer of a block goes to disk. -/
def LogState.bwrite (s : LogState) (b : Nat) : LogState :=
  { s with disk := update s.disk b (s.data b) }

/-- `memmove(dst->data, src->data, BSIZE)` between two buffers. -/
def LogState.memmove (s : LogState) (dst src : Nat) : LogState :=
  { s with data := update s.data dst (s.data src) }

/-- The code between two crash points. -/
inductive Step (L : LogArea) where
  /-- The operations of a transaction change buffers and call `log_write`. -/
  | begin (t : Txn L)
  /-- One round of the loop of `write_log`. -/
  | writeLog (tail : Nat)
  /-- `write_head()`, the commit point. -/
  | writeHead
  /-- One round of the loop of `install_trans`. -/
  | install (tail : Nat)
  /-- `log.lh.n = 0; write_head()`. -/
  | clear

/-- Whether a step is the first `write_head` of a commit. -/
def Step.isWriteHead {L : LogArea} : Step L → Bool
  | .writeHead => true
  | _ => false

/-- What a step does. The block numbers come from `log.lh`. -/
def Step.exec {L : LogArea} (s : LogState) : Step L → LogState
  | .begin t => { s with data := applyWrites t.writes s.data, lh := t.blocks }
  | .writeLog tail =>
    (s.memmove (L.start + tail + 1) (s.lh.getD tail 0)).bwrite (L.start + tail + 1)
  | .writeHead =>
    ({ s with data := update s.data L.start
                        (Log.writeHead (s.data L.start) s.lh) }).bwrite L.start
  | .install tail =>
    (s.memmove (s.lh.getD tail 0) (L.start + tail + 1)).bwrite (s.lh.getD tail 0)
  | .clear =>
    ({ s with lh := [], data := update s.data L.start
                                  (Log.writeHead (s.data L.start) []) }).bwrite L.start

/-- Perform a list of steps. -/
def execAll {L : LogArea} (s : LogState) (ps : List (Step L)) : LogState := ps.foldl Step.exec s

/-- `install_trans`, for `n` blocks. -/
def installTrans (L : LogArea) (n : Nat) : List (Step L) := (List.range n).map .install

/-- `write_log`, for `n` blocks. -/
def writeLog (L : LogArea) (n : Nat) : List (Step L) := (List.range n).map .writeLog

/-- `commit()` of a transaction, with the operations that fill it. -/
def commit {L : LogArea} (t : Txn L) : List (Step L) :=
  let n := t.blocks.length
  .begin t ::
    if n > 0 then writeLog L n ++ .writeHead :: (installTrans L n ++ [.clear]) else []

/-- Memory after a boot: no buffer is cached, so `bread` reads the disk, and
`read_head` has filled `log.lh`. -/
def boot (L : LogArea) (d : Disk) : LogState :=
  { disk := d, data := d, lh := readHead (d L.start) }

/-- The block writes of `recover_from_log()`. -/
def recoverSteps (L : LogArea) (d : Disk) : List (Step L) :=
  installTrans L (readHead (d L.start)).length ++ [.clear]

/-- The disk when a boot crashes after `m` block writes of `recover_from_log()`. -/
def recoverCrash (L : LogArea) (d : Disk) (m : Nat) : Disk :=
  (execAll (boot L d) ((recoverSteps L d).take m)).disk

/-- The disk after a complete `recover_from_log()`. -/
def recoverFromLog (L : LogArea) (d : Disk) : Disk := (execAll (boot L d) (recoverSteps L d)).disk

end Xv6.Log
