import Xv6.Log.Commit

/-!
# Crash atomicity of the redo log

A disk stands for the contents that recovery would give its home blocks.
`redo` is the list of writes the header and the log blocks ask for, and
`replay` is the disk after them. `Recovers L d S` says that the header of `d`
is well formed and that `replay` gives every home block its value in `S`.

Every step of `install_trans` and the final clearing of the header keep
`Recovers` (`Recovers.installTrans`), whether `commit()` runs them or
`recover_from_log()` does, so crashes inside recovery are no new case. In
`commit()` the writes to the log blocks happen under a header with `n = 0` and
are invisible, and the one write of the header takes the disk from standing for
the old contents to standing for the new ones (`recovers_writeHead`).
-/

namespace Xv6.Log

open Function Lib List

variable {L : LogArea}

/-! ## What a disk stands for -/

/-- The writes that the header and the log blocks of a disk ask for. -/
def redo (L : LogArea) (d : Disk) : List (Nat × Block) :=
  zip (readHead (d L.start))
    ((range (readHead (d L.start)).length).map fun i => d (L.start + i + 1))

/-- The disk after these writes. -/
def replay (L : LogArea) (d : Disk) : Disk := applyWrites (redo L d) d

/-- The header of a disk names distinct home blocks and no more of them than
there are log blocks. -/
structure GoodHead (L : LogArea) (d : Disk) : Prop where
  nodup : (readHead (d L.start)).Nodup
  home : ∀ b ∈ readHead (d L.start), L.Home b
  fits : (readHead (d L.start)).length < L.size

/-- Recovery would give every home block its value in `S`. -/
structure Recovers (L : LogArea) (d S : Disk) : Prop extends GoodHead L d where
  replay_eq : ∀ b, L.Home b → replay L d b = S b

@[simp] lemma redo_length (L : LogArea) (d : Disk) :
    (redo L d).length = (readHead (d L.start)).length := by
  simp [redo]

@[simp] lemma redo_fst (L : LogArea) (d : Disk) :
    (redo L d).map Prod.fst = readHead (d L.start) := by
  simp [redo, map_fst_zip]

/-- The redo list depends on the log area alone. -/
lemma redo_congr {d d' : Disk} (hg : GoodHead L d) (h : ∀ b, ¬ L.Home b → d' b = d b) :
    redo L d' = redo L d := by
  have hs : d' L.start = d L.start := h _ (by simpa using L.not_home_log L.size_pos)
  unfold redo
  rw [hs]
  congr 1
  apply map_congr_left
  intro i hi
  apply h
  rw [Nat.add_assoc]
  apply L.not_home_log
  have := hg.fits
  have := mem_range.mp hi
  omega

lemma GoodHead.congr {d d' : Disk} (hg : GoodHead L d) (h : d' L.start = d L.start) :
    GoodHead L d' where
  nodup := by rw [h]; exact hg.nodup
  home := by rw [h]; exact hg.home
  fits := by rw [h]; exact hg.fits

lemma goodHead_of_nil {d : Disk} (h : readHead (d L.start) = []) : GoodHead L d where
  nodup := by rw [h]; exact nodup_nil
  home := by rw [h]; intro b hb; cases hb
  fits := by rw [h]; exact L.size_pos

lemma replay_of_nil {d : Disk} (h : readHead (d L.start) = []) : replay L d = d := by
  unfold replay redo
  rw [h]
  rfl

/-- A disk whose header is clear stands for itself. -/
lemma recovers_of_nil {d S : Disk} (h : readHead (d L.start) = [])
    (hS : ∀ b, L.Home b → d b = S b) : Recovers L d S where
  toGoodHead := goodHead_of_nil h
  replay_eq := by rw [replay_of_nil h]; exact hS

/-- Writes of a prefix of the redo list touch home blocks only. -/
lemma GoodHead.applyWrites_redo {d : Disk} (hg : GoodHead L d) (m : Nat) (f : Disk) {b : Nat}
    (hb : ¬ L.Home b) : applyWrites ((redo L d).take m) f b = f b := by
  apply applyWrites_of_notMem
  rw [map_take, redo_fst]
  intro hmem
  exact hb (hg.home b (mem_of_mem_take hmem))

/-- Installing a prefix of the redo list changes nothing that recovery sees. -/
lemma Recovers.redo_take {d S : Disk} (h : Recovers L d S) (m : Nat) :
    Recovers L (applyWrites ((redo L d).take m) d) S where
  toGoodHead := by
    apply h.toGoodHead.congr
    exact h.toGoodHead.applyWrites_redo m d (by simpa using L.not_home_log L.size_pos)
  replay_eq := by
    intro b hb
    rw [replay, redo_congr h.toGoodHead fun c hc => h.toGoodHead.applyWrites_redo m d hc,
      applyWrites_take]
    exact h.replay_eq b hb

/-! ## Installing and clearing -/

/-- The buffers of the log area agree with the disk. -/
def LogState.LogCoherent (s : LogState) (L : LogArea) : Prop :=
  ∀ b, ¬ L.Home b → s.data b = s.disk b

lemma execAll_append (s : LogState) (ps qs : List (Step L)) :
    execAll s (ps ++ qs) = execAll (execAll s ps) qs := foldl_append

lemma execAll_cons (s : LogState) (p : Step L) (ps : List (Step L)) :
    execAll s (p :: ps) = execAll (p.exec s) ps := rfl

/-- After `m` rounds of `install_trans` the first `m` writes of the redo list have
reached the disk and the buffers. -/
lemma execAll_install {s : LogState} (hg : GoodHead L s.disk) (hc : s.LogCoherent L)
    (hlh : s.lh = readHead (s.disk L.start)) :
    ∀ m, m ≤ s.lh.length →
      execAll s ((range m).map (Step.install (L := L))) =
        { disk := applyWrites ((redo L s.disk).take m) s.disk
          data := applyWrites ((redo L s.disk).take m) s.data
          lh := s.lh }
  | 0, _ => rfl
  | m + 1, hm => by
    have hm' : m < (redo L s.disk).length := by rw [redo_length, ← hlh]; omega
    have hm'' : m < s.lh.length := hm
    have hlog : ¬ L.Home (L.start + m + 1) := by
      have := hg.fits
      rw [Nat.add_assoc]
      exact L.not_home_log (by rw [← hlh] at this; omega)
    have hfst : (redo L s.disk)[m].1 = s.lh.getD m 0 := by
      simp [redo, hlh, getElem?_eq_getElem (hlh ▸ hm'')]
    have hsnd : (redo L s.disk)[m].2 = s.disk (L.start + m + 1) := by simp [redo]
    rw [range_succ, map_append, execAll_append, execAll_install hg hc hlh m (by omega)]
    simp only [map_cons, map_nil, execAll, foldl_cons, foldl_nil, Step.exec,
      LogState.memmove, LogState.bwrite, update_self]
    -- the log block still holds what it held when the loop started
    rw [hg.applyWrites_redo m s.data hlog, hc _ hlog, applyWrites_take_succ hm',
      applyWrites_take_succ hm', hfst, hsnd]

lemma readHead_writeHead_nil (hb : Block) : readHead (writeHead hb []) = [] :=
  readHead_writeHead hb (by simp) (by simp)

/-- Clearing the header of a disk that holds all of `S` keeps it recoverable. -/
lemma recovers_clear {s : LogState} {S : Disk} (h : ∀ b, L.Home b → s.disk b = S b) :
    Recovers L (Step.exec (L := L) s .clear).disk S := by
  apply recovers_of_nil
  · simp only [Step.exec, LogState.bwrite, update_self]
    exact readHead_writeHead_nil _
  · intro b hb
    simp only [Step.exec, LogState.bwrite]
    rw [update_of_ne hb.ne_start]
    exact h b hb

lemma take_installTrans (n m : Nat) (h : m ≤ n) :
    (installTrans L n ++ [Step.clear]).take m = (range m).map .install := by
  rw [take_append_of_le_length (by simpa [installTrans] using h), installTrans,
    ← map_take, take_range, Nat.min_eq_left h]

lemma take_installTrans_all (n m : Nat) (h : n < m) :
    (installTrans L n ++ [Step.clear]).take m = installTrans L n ++ [Step.clear] :=
  take_of_length_le (by simp [installTrans]; omega)

/-- All of `install_trans` puts the replayed disk in place. -/
lemma execAll_installTrans {s : LogState} (hg : GoodHead L s.disk) (hc : s.LogCoherent L)
    (hlh : s.lh = readHead (s.disk L.start)) :
    execAll s (installTrans L s.lh.length) =
      { disk := replay L s.disk
        data := applyWrites (redo L s.disk) s.data
        lh := s.lh } := by
  have h := execAll_install hg hc hlh s.lh.length (Nat.le_refl _)
  rw [take_of_length_le (by rw [redo_length, ← hlh])] at h
  exact h

/-- Every prefix of installing and clearing keeps what the disk stands for. -/
lemma Recovers.installTrans {s : LogState} {S : Disk} (h : Recovers L s.disk S)
    (hc : s.LogCoherent L) (hlh : s.lh = readHead (s.disk L.start)) (m : Nat) :
    Recovers L (execAll s ((Log.installTrans L s.lh.length ++ [Step.clear]).take m)).disk S := by
  by_cases hm : m ≤ s.lh.length
  · rw [take_installTrans _ _ hm, execAll_install h.toGoodHead hc hlh m hm]
    exact h.redo_take m
  · rw [take_installTrans_all _ _ (by omega), execAll_append,
      execAll_installTrans h.toGoodHead hc hlh]
    exact recovers_clear h.replay_eq

/-! ## Recovery -/

lemma boot_logCoherent (L : LogArea) (d : Disk) : (boot L d).LogCoherent L := fun _ _ => rfl

/-- A crash inside recovery leaves a disk that stands for the same contents. -/
lemma Recovers.recoverCrash {d S : Disk} (h : Recovers L d S) (m : Nat) :
    Recovers L (recoverCrash L d m) S :=
  Recovers.installTrans (s := boot L d) h (boot_logCoherent L d) rfl m

lemma Recovers.recoverCrashes {d S : Disk} (h : Recovers L d S) (ms : List Nat) :
    Recovers L (ms.foldl (Log.recoverCrash L) d) S := by
  induction ms generalizing d with
  | nil => exact h
  | cons m ms ih => exact ih (h.recoverCrash m)

/-- A complete recovery puts these contents in place. -/
lemma Recovers.recoverFromLog {d S : Disk} (h : Recovers L d S) {b : Nat} (hb : L.Home b) :
    recoverFromLog L d b = S b := by
  unfold Log.recoverFromLog recoverSteps
  rw [execAll_append, show (readHead (d L.start)).length = (boot L d).lh.length from rfl,
    execAll_installTrans (s := boot L d) h.toGoodHead (boot_logCoherent L d) rfl]
  simp only [execAll, foldl_cons, foldl_nil, Step.exec, LogState.bwrite]
  rw [update_of_ne hb.ne_start]
  exact h.replay_eq b hb

/-! ## One commit -/

/-- Between two transactions: the buffers agree with the disk, no block is logged
and the header is clear. -/
structure LogState.Clean (s : LogState) (L : LogArea) : Prop where
  data_eq : s.data = s.disk
  lh_nil : s.lh = []
  head_nil : readHead (s.disk L.start) = []

/-- The writes of `write_log` for a transaction. -/
def logWrites (t : Txn L) : List (Nat × Block) :=
  zip ((range t.writes.length).map fun i => L.start + i + 1) (t.writes.map Prod.snd)

@[simp] lemma logWrites_length (t : Txn L) : (logWrites t).length = t.writes.length := by
  simp [logWrites]

lemma Txn.blocks_length (t : Txn L) : t.blocks.length = t.writes.length := by simp [Txn.blocks]

lemma Txn.length_lt (t : Txn L) : t.writes.length < L.size := by
  have := t.fits
  have := L.size_pos
  omega

lemma Txn.blocks_home (t : Txn L) {b : Nat} (h : b ∈ t.blocks) : L.Home b := by
  obtain ⟨w, hw, rfl⟩ := mem_map.mp h
  exact t.home w hw

lemma logWrites_mem (t : Txn L) {m b : Nat} (h : b ∈ ((logWrites t).take m).map Prod.fst) :
    ¬ L.Home b ∧ b ≠ L.start := by
  have h' := mem_of_mem_take (map_take ▸ h)
  rw [logWrites, map_fst_zip (by simp)] at h'
  obtain ⟨i, hi, rfl⟩ := mem_map.mp h'
  have := t.length_lt
  have := mem_range.mp hi
  refine ⟨?_, by omega⟩
  rw [Nat.add_assoc]
  exact L.not_home_log (by omega)

lemma applyWrites_logWrites_home (t : Txn L) (m : Nat) (f : Disk) {b : Nat} (hb : L.Home b) :
    applyWrites ((logWrites t).take m) f b = f b :=
  applyWrites_of_notMem (fun h => (logWrites_mem t h).1 hb) f

lemma applyWrites_logWrites_start (t : Txn L) (m : Nat) (f : Disk) :
    applyWrites ((logWrites t).take m) f L.start = f L.start :=
  applyWrites_of_notMem (fun h => (logWrites_mem t h).2 rfl) f

/-- After `m` rounds of `write_log` the first `m` log blocks hold the new
contents, on disk and in the cache. -/
lemma execAll_writeLog (t : Txn L) (s : LogState) (hlh : s.lh = t.blocks)
    (hdata : ∀ w ∈ t.writes, s.data w.1 = w.2) :
    ∀ m, m ≤ t.writes.length →
      execAll s ((range m).map (Step.writeLog (L := L))) =
        { disk := applyWrites ((logWrites t).take m) s.disk
          data := applyWrites ((logWrites t).take m) s.data
          lh := s.lh }
  | 0, _ => rfl
  | m + 1, hm => by
    have hm' : m < (logWrites t).length := by rw [logWrites_length]; omega
    have hm'' : m < t.writes.length := hm
    have hget : s.lh.getD m 0 = t.writes[m].1 := by
      simp [hlh, Txn.blocks, getElem?_eq_getElem hm'']
    have hfst : (logWrites t)[m].1 = L.start + m + 1 := by simp [logWrites]
    have hsnd : (logWrites t)[m].2 = t.writes[m].2 := by simp [logWrites]
    rw [range_succ, map_append, execAll_append,
      execAll_writeLog t s hlh hdata m (by omega)]
    simp only [map_cons, map_nil, execAll, foldl_cons, foldl_nil, Step.exec,
      LogState.memmove, LogState.bwrite, update_self]
    rw [hget, applyWrites_logWrites_home t m s.data (t.home _ (getElem_mem hm'')),
      hdata _ (getElem_mem hm''), applyWrites_take_succ hm', applyWrites_take_succ hm',
      hfst, hsnd]

/-- The state after `begin`. -/
lemma exec_begin_data (t : Txn L) (s : LogState) :
    ∀ w ∈ t.writes, ((Step.begin t).exec s).data w.1 = w.2 :=
  fun w hw => applyWrites_of_mem t.nodup (v := w.2) hw _

/-- The state after `write_log` and `write_head`. -/
def headWritten (t : Txn L) (s : LogState) : LogState :=
  execAll s (.begin t :: (writeLog L t.writes.length ++ [.writeHead]))

lemma headWritten_eq (t : Txn L) (s : LogState) :
    headWritten t s =
      let data := applyWrites (logWrites t) (applyWrites t.writes s.data)
      let hb := writeHead (data L.start) t.blocks
      { disk := update (applyWrites (logWrites t) s.disk) L.start hb
        data := update data L.start hb
        lh := t.blocks } := by
  have h := execAll_writeLog t ((Step.begin t).exec s) rfl (exec_begin_data t s) t.writes.length
    (Nat.le_refl _)
  rw [take_of_length_le (by simp)] at h
  rw [headWritten, execAll_cons, execAll_append, writeLog, h]
  simp [execAll, Step.exec, LogState.bwrite]

lemma headWritten_readHead (t : Txn L) (s : LogState) :
    readHead ((headWritten t s).disk L.start) = t.blocks := by
  rw [headWritten_eq]
  simp only [update_self]
  apply readHead_writeHead
  · have := t.fits
    rw [t.blocks_length]
    omega
  · intro b hb
    obtain ⟨w, hw, rfl⟩ := mem_map.mp hb
    exact t.bound w hw

lemma headWritten_redo (t : Txn L) (s : LogState) :
    redo L (headWritten t s).disk = t.writes := by
  have hnd : ((logWrites t).map Prod.fst).Nodup := by
    rw [logWrites, map_fst_zip (by simp)]
    exact nodup_range.map fun a b h => by simpa using h
  unfold redo
  rw [headWritten_readHead, t.blocks_length]
  apply ext_getElem
  · simp [t.blocks_length]
  · intro i h₁ h₂
    have hi : i < (logWrites t).length := by simpa using h₂
    have hmem : (L.start + i + 1, t.writes[i].2) ∈ logWrites t := by
      have : (logWrites t)[i] = (L.start + i + 1, t.writes[i].2) := by simp [logWrites]
      rw [← this]
      exact getElem_mem _
    have : (headWritten t s).disk (L.start + i + 1) = t.writes[i].2 := by
      rw [headWritten_eq]
      simp only
      rw [update_of_ne (by omega), applyWrites_of_mem hnd hmem]
    simp [Txn.blocks, this]

lemma headWritten_home (t : Txn L) (s : LogState) {b : Nat} (hb : L.Home b) :
    (headWritten t s).disk b = s.disk b := by
  rw [headWritten_eq]
  simp only
  rw [update_of_ne hb.ne_start]
  have h := applyWrites_logWrites_home t t.writes.length s.disk hb
  rwa [take_of_length_le (by simp)] at h

/-- The write of the header takes the disk to the contents after the
transaction. -/
lemma recovers_writeHead (t : Txn L) (s : LogState) :
    Recovers L (headWritten t s).disk (applyWrites t.writes s.disk) where
  nodup := by rw [headWritten_readHead]; exact t.nodup
  home := by rw [headWritten_readHead]; exact fun b hb => t.blocks_home hb
  fits := by rw [headWritten_readHead, t.blocks_length]; exact t.length_lt
  replay_eq := by
    intro b hb
    rw [replay, headWritten_redo]
    exact applyWrites_congr fun _ => headWritten_home t s hb

lemma headWritten_logCoherent (t : Txn L) {s : LogState} (hs : s.Clean L) :
    (headWritten t s).LogCoherent L := by
  intro b hb
  have hdata : applyWrites t.writes s.data b = s.disk b := by
    rw [applyWrites_of_notMem (fun h => hb (t.blocks_home h)), hs.data_eq]
  rw [headWritten_eq]
  by_cases hst : b = L.start
  · subst hst; simp
  · simp only [update_of_ne hst]
    exact applyWrites_congr fun _ => hdata

lemma headWritten_lh (t : Txn L) (s : LogState) : (headWritten t s).lh = t.blocks := by
  rw [headWritten_eq]

/-- The steps of a commit that has something to write. -/
lemma commit_of_pos {t : Txn L} (h : t.writes ≠ []) :
    commit t = (.begin t :: (writeLog L t.writes.length ++ [.writeHead])) ++
      (installTrans L t.writes.length ++ [.clear]) := by
  have : 0 < t.writes.length := length_pos_iff.mpr h
  simp [commit, t.blocks_length, this]

lemma commit_of_nil {t : Txn L} (h : t.writes = []) : commit t = [.begin t] := by
  simp [commit, Txn.blocks, h]

/-! ### How often the header is written -/

lemma countP_writeLog (ms : List Nat) :
    (ms.map (Step.writeLog (L := L))).countP Step.isWriteHead = 0 := by
  rw [countP_eq_zero]
  intro p hp
  obtain ⟨m, -, rfl⟩ := mem_map.mp hp
  simp [Step.isWriteHead]

lemma countP_installTrans (n m : Nat) :
    ((installTrans L n ++ [Step.clear]).take m).countP Step.isWriteHead = 0 := by
  rw [countP_eq_zero]
  intro p hp
  rcases mem_append.mp (mem_of_mem_take hp) with hp | hp
  · obtain ⟨i, -, rfl⟩ := mem_map.mp hp
    simp [Step.isWriteHead]
  · obtain rfl := mem_singleton.mp hp
    simp [Step.isWriteHead]

lemma countP_headWritten (t : Txn L) (n : Nat) :
    (Step.begin t :: (writeLog L n ++ [Step.writeHead])).countP Step.isWriteHead = 1 := by
  rw [countP_cons_of_neg (by simp [Step.isWriteHead]), countP_append, writeLog,
    countP_writeLog]
  simp [Step.isWriteHead]

lemma countP_commit (t : Txn L) :
    (commit t).countP Step.isWriteHead = if t.writes.isEmpty then 0 else 1 := by
  by_cases h : t.writes = []
  · simp [commit_of_nil h, h, Step.isWriteHead]
  · have hi := countP_installTrans (L := L) t.writes.length (t.writes.length + 1)
    rw [take_installTrans_all _ _ (by omega)] at hi
    rw [commit_of_pos h, countP_append, countP_headWritten, hi]
    simp [h]

/-! ### Crashing inside a commit, and completing it -/

/-- A crash inside a commit leaves a disk that stands for the contents before
the transaction, or for those after it once the header is written. -/
lemma LogState.Clean.commit_take {s : LogState} (hs : s.Clean L) (t : Txn L) (p : Nat) :
    (((commit t).take p).countP Step.isWriteHead = 0 ∧
        Recovers L (execAll s ((commit t).take p)).disk s.disk) ∨
      (t.writes ≠ [] ∧ ((commit t).take p).countP Step.isWriteHead = 1 ∧
        Recovers L (execAll s ((commit t).take p)).disk (applyWrites t.writes s.disk)) := by
  have hself : Recovers L s.disk s.disk := recovers_of_nil hs.head_nil fun _ _ => rfl
  cases p with
  | zero => exact .inl ⟨by simp, by simpa [execAll] using hself⟩
  | succ p =>
    by_cases ht : t.writes = []
    · left
      rw [commit_of_nil ht, take_succ_cons, take_nil]
      exact ⟨by simp [Step.isWriteHead], hself⟩
    · rw [commit_of_pos ht]
      by_cases hp : p ≤ t.writes.length
      · -- still under the old header: only log blocks have changed
        left
        have htake : (Step.begin t :: (writeLog L t.writes.length ++ [Step.writeHead]) ++
            (installTrans L t.writes.length ++ [Step.clear])).take (p + 1) =
            .begin t :: (range p).map .writeLog := by
          rw [cons_append, take_succ_cons, append_assoc,
            take_append_of_le_length (by simpa [writeLog] using hp), writeLog,
            ← map_take, take_range, Nat.min_eq_left hp]
        rw [htake, execAll_cons,
          execAll_writeLog t ((Step.begin t).exec s) rfl (exec_begin_data t s) p hp]
        refine ⟨?_, ?_⟩
        · rw [countP_cons_of_neg (by simp [Step.isWriteHead]), countP_writeLog]
        · apply recovers_of_nil
          · simp only [applyWrites_logWrites_start]
            exact hs.head_nil
          · exact fun b hb => applyWrites_logWrites_home t p _ hb
      · right
        have hlen : (Step.begin t :: (writeLog L t.writes.length ++ [Step.writeHead])).length ≤
            p + 1 := by
          simp [writeLog]
          omega
        rw [take_append, take_of_length_le hlen, countP_append,
          countP_headWritten, countP_installTrans, execAll_append]
        have hw := (recovers_writeHead t s).installTrans (headWritten_logCoherent t hs)
          (by rw [headWritten_lh, headWritten_readHead])
        rw [headWritten_lh, t.blocks_length] at hw
        exact ⟨ht, rfl, hw _⟩

/-- A complete commit leaves the log clean and the transaction on disk. -/
lemma LogState.Clean.commit {s : LogState} (hs : s.Clean L) (t : Txn L) :
    (execAll s (commit t)).Clean L ∧
      ∀ b, L.Home b → (execAll s (commit t)).disk b = applyWrites t.writes s.disk b := by
  by_cases ht : t.writes = []
  · rw [commit_of_nil ht]
    refine ⟨⟨?_, ?_, hs.head_nil⟩, fun b _ => by rw [ht]; rfl⟩
    · simpa [execAll, Step.exec, ht] using hs.data_eq
    · simp [execAll, Step.exec, Txn.blocks, ht]
  · have hi := execAll_installTrans (recovers_writeHead t s).toGoodHead
      (headWritten_logCoherent t hs) (by rw [headWritten_lh, headWritten_readHead])
    rw [headWritten_lh, t.blocks_length, headWritten_redo] at hi
    -- the buffers and the disk differ at most in the transaction's own blocks
    have hdata : applyWrites t.writes (headWritten t s).data = replay L (headWritten t s).disk := by
      funext b
      rw [replay, headWritten_redo]
      apply applyWrites_congr
      intro hb
      by_cases hh : L.Home b
      · rw [headWritten_home t s hh, headWritten_eq]
        simp only
        have h := applyWrites_logWrites_home t t.writes.length (applyWrites t.writes s.data) hh
        rw [take_of_length_le (by simp)] at h
        rw [update_of_ne hh.ne_start, h, applyWrites_of_notMem hb, hs.data_eq]
      · exact headWritten_logCoherent t hs b hh
    have hend : execAll s (Log.commit t) =
        Step.exec (L := L) { disk := replay L (headWritten t s).disk
                             data := replay L (headWritten t s).disk
                             lh := t.blocks } .clear := by
      rw [commit_of_pos ht, execAll_append, execAll_append, ← headWritten, hi, hdata]
      rfl
    rw [hend]
    refine ⟨⟨?_, rfl, ?_⟩, ?_⟩
    · simp [Step.exec, LogState.bwrite]
    · simp only [Step.exec, LogState.bwrite, update_self]
      exact readHead_writeHead_nil _
    · intro b hb
      simp only [Step.exec, LogState.bwrite]
      rw [update_of_ne hb.ne_start]
      exact (recovers_writeHead t s).replay_eq b hb

/-! ## Any number of transactions -/

lemma afterTxns_cons (d : Disk) (t : Txn L) (ts : List (Txn L)) :
    afterTxns d (t :: ts) = afterTxns (applyWrites t.writes d) ts := rfl

lemma Recovers.congr {d S S' : Disk} (h : Recovers L d S) (hS : ∀ b, L.Home b → S b = S' b) :
    Recovers L d S' where
  toGoodHead := h.toGoodHead
  replay_eq b hb := (h.replay_eq b hb).trans (hS b hb)

lemma afterTxns_congr {d d' : Disk} (h : ∀ b, L.Home b → d b = d' b) (ts : List (Txn L)) :
    ∀ b, L.Home b → afterTxns d ts b = afterTxns d' ts b := by
  induction ts generalizing d d' with
  | nil => exact h
  | cons t ts ih => exact ih fun b hb => applyWrites_congr fun _ => h b hb

/-- A crash anywhere in a sequence of commits leaves a disk that stands for the
contents after the transactions whose header was written. -/
lemma LogState.Clean.commits {s : LogState} (hs : s.Clean L) (ts : List (Txn L)) (p : Nat) :
    Recovers L (execAll s ((ts.flatMap Log.commit).take p)).disk
      (afterTxns s.disk ((ts.filter fun t => !t.writes.isEmpty).take
        (((ts.flatMap Log.commit).take p).countP Step.isWriteHead))) := by
  induction ts generalizing s p with
  | nil => simpa [execAll, afterTxns] using recovers_of_nil hs.head_nil fun _ _ => rfl
  | cons t ts ih =>
    rw [flatMap_cons]
    by_cases hp : p ≤ (Log.commit t).length
    · rw [take_append_of_le_length hp]
      rcases hs.commit_take t p with ⟨hcount, hrec⟩ | ⟨ht, hcount, hrec⟩
      · rw [hcount, take_zero]
        exact hrec
      · rw [hcount, filter_cons_of_pos (by simpa using ht)]
        simpa [afterTxns] using hrec
    · obtain ⟨hclean, hdisk⟩ := hs.commit t
      have hrec := ih hclean (p - (Log.commit t).length)
      rw [take_append, take_of_length_le (by omega), execAll_append,
        countP_append, countP_commit]
      by_cases ht : t.writes = []
      · rw [filter_cons_of_neg (by simp [ht])]
        simp only [ht, applyWrites_nil] at hdisk
        simpa [ht] using hrec.congr (afterTxns_congr hdisk _)
      · rw [filter_cons_of_pos (by simpa using ht), if_neg (by simpa using ht),
          Nat.add_comm, take_succ_cons, afterTxns_cons]
        exact hrec.congr (afterTxns_congr hdisk _)

/-- Crash atomicity. Start on a disk whose log header has `n = 0`, let the
transactions `ts` commit one after the other and crash at any point, before or
after any block write of any `commit()`. Crash any number of times inside
`recover_from_log()`, each time after any number of its block writes, and then
let it run to its end. Every home block then has its contents after the first
`k` transactions, where `k` counts the first `write_head`s that were performed.
A transaction with no block never writes the header and changes nothing, so it
is not counted. -/
theorem recoverFromLog_atomic (L : LogArea) (d : Disk) (h0 : headN (d L.start) = 0)
    (ts : List (Txn L)) (p : Nat) (crashes : List Nat) (b : Nat) (hb : L.Home b) :
    let done := (ts.flatMap commit).take p
    let k := done.countP Step.isWriteHead
    recoverFromLog L (crashes.foldl (recoverCrash L) (execAll (boot L d) done).disk) b =
      afterTxns d ((ts.filter fun t => !t.writes.isEmpty).take k) b := by
  have hclean : (boot L d).Clean L := ⟨rfl, readHead_of_headN h0, readHead_of_headN h0⟩
  exact ((hclean.commits ts p).recoverCrashes crashes).recoverFromLog hb

/-- A log of four blocks behind the boot block. -/
def sampleArea : LogArea := ⟨1, 4, by decide⟩

/-- A transaction that fills block `7` with ones and block `5` with twos. -/
def sampleTxn : Txn sampleArea where
  writes := [(7, fun _ => 1), (5, fun _ => 2)]
  nodup := by decide
  home := by simp [LogArea.Home, sampleArea]
  bound := by simp
  fits := by simp [sampleArea, logSize, maxOpBlocks]

/-- Crashing twice in recovery, after the header of the only transaction was
written: block `7` ends with the new contents. -/
theorem recoverFromLog_atomic_sample :
    headN ((fun _ => Block.zero : Disk) sampleArea.start) = 0 ∧ sampleArea.Home 7 ∧
      recoverFromLog sampleArea ([1, 0].foldl (recoverCrash sampleArea)
        (execAll (boot sampleArea fun _ => Block.zero) ((commit sampleTxn).take 4)).disk) 7 =
        fun _ => 1 := by
  have h0 : headN ((fun _ => Block.zero : Disk) sampleArea.start) = 0 := by decide
  have h7 : sampleArea.Home 7 := .inr (by decide)
  refine ⟨h0, h7, ?_⟩
  have h := recoverFromLog_atomic sampleArea (fun _ => Block.zero) h0 [sampleTxn] 4 [1, 0] 7 h7
  exact h.trans (by rfl)

end Xv6.Log
