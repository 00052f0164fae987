import Xv6.Shell.Parser

/-!
# The strings of the tree

`nulterminate` cuts the line into C strings where it stands: it writes a NUL behind
every word of the tree. A word ends in front of a byte that is no part of any word,
so the NUL of one word is never written into another. `parsecmd_iff` puts this
together with the parser.
-/

namespace Xv6.Shell

open Lib List

variable {line : List UInt8}

lemma getD_set_zero (buf : List UInt8) (i j : Nat) :
    (buf.set i 0).getD j 0 = if j = i then 0 else buf.getD j 0 := by
  by_cases hj : j = i
  · subst hj
    rw [if_pos rfl, getD_eq_getElem?_getD, getElem?_set_self']
    cases buf[j]? <;> rfl
  · rw [if_neg hj, getD_eq_getElem?_getD, getElem?_set_ne (Ne.symm hj),
      getD_eq_getElem?_getD]

/-- `nulterminate` writes a NUL behind each string and nothing else. -/
lemma nulterminate_getD (cmd : Cmd Span) (buf : List UInt8) (i : Nat) :
    (nulterminate cmd buf).getD i 0 = if i ∈ cmd.strings.map Span.eq then 0 else buf.getD i 0 := by
  induction cmd generalizing buf with
  | exec argv =>
    induction argv generalizing buf with
    | nil => rfl
    | cons arg argv ih =>
      have h := ih (buf.set arg.eq 0)
      simp only [nulterminate, Cmd.strings, foldl_cons, map_cons, mem_cons] at h ⊢
      rw [h, getD_set_zero]
      grind
  | redir cmd file mode fd ih =>
    simp only [nulterminate, Cmd.strings, getD_set_zero, ih, map_append, mem_append,
      map_cons, map_nil, mem_singleton]
    grind
  | pipe left right ihl ihr | list left right ihl ihr =>
    simp only [nulterminate, Cmd.strings, ihr, ihl, map_append, mem_append]
    grind
  | back cmd ih => exact ih buf

/-- A C string is what stands in front of its NUL. -/
lemma cstring_eq {buf w : List UInt8} {q : Nat} (h0 : 0 ∉ w)
    (hw : ∀ i < w.length, buf.getD (q + i) 0 = w.getD i 0) (hnul : buf.getD (q + w.length) 0 = 0) :
    cstring buf q = w := by
  induction w generalizing q with
  | nil =>
    cases hdrop : buf.drop q with
    | nil => simp [cstring, hdrop]
    | cons c cs =>
      have hc : c = 0 := (charAt_of_drop hdrop).symm.trans hnul
      simp [cstring, hdrop, hc]
  | cons d w ih =>
    rw [mem_cons, not_or] at h0
    have hd : buf.getD q 0 = d := hw 0 (Nat.succ_pos _)
    cases hdrop : buf.drop q with
    | nil =>
      rw [getD_eq_default _ _ (drop_eq_nil_iff.1 hdrop)] at hd
      exact absurd hd h0.1
    | cons c cs =>
      have hc : c = d := (charAt_of_drop hdrop).symm.trans hd
      have htail : cstring buf (q + 1) = w := by
        refine ih h0.2 (fun i hi => ?_) ?_
        · rw [Nat.add_right_comm, Nat.add_assoc]
          exact hw (i + 1) (Nat.succ_lt_succ hi)
        · rw [Nat.add_right_comm, Nat.add_assoc]
          exact hnul
      rw [cstring, drop_succ hdrop] at htail
      rw [cstring, hdrop, takeWhile_cons_of_pos (by simpa [hc] using Ne.symm h0.1), htail, hc]

/-! ## Words -/

lemma drop_eq (sp : Span) : line.drop sp.q = wordAt line sp ++ (line.drop sp.q).dropWhile isWord :=
  takeWhile_append_dropWhile.symm

lemma wordAt_getD {sp : Span} {i : Nat} (hi : i < (wordAt line sp).length) :
    (wordAt line sp).getD i 0 = line.getD (sp.q + i) 0 := by
  have h := congrArg (fun cs => cs.getD i 0) (@drop_eq line sp)
  rw [getD_append _ _ _ _ hi] at h
  rw [← h, getD_eq_getElem?_getD, getD_eq_getElem?_getD, getElem?_drop]

lemma isWord_getD {sp : Span} {i : Nat} (hi : i < (wordAt line sp).length) :
    isWord (line.getD (sp.q + i) 0) = true := by
  rw [← wordAt_getD hi, getD_eq_getElem _ _ hi]
  exact mem_takeWhile_imp (getElem_mem hi)

/-- Behind a word stands a byte that is no part of a word. -/
lemma isWord_eq {sp : Span} (h : sp.Closed line) (hlt : sp.eq < line.length) :
    isWord (line.getD sp.eq 0) = false := by
  have hdrop : line.drop sp.eq = (line.drop sp.q).dropWhile isWord := by
    rw [h, ← drop_drop, wordAt, drop_takeWhile]
  cases hcs : line.drop sp.eq with
  | nil => exact absurd (drop_eq_nil_iff.1 hcs) (Nat.not_le_of_lt hlt)
  | cons c cs =>
    have hne : (line.drop sp.q).dropWhile isWord ≠ [] := by
      rw [← hdrop, hcs]
      exact cons_ne_nil c cs
    have hhead := head_dropWhile_not isWord hne
    simp only [← hdrop, hcs, head_cons] at hhead
    rw [← charAt, charAt_of_drop hcs, hhead]

lemma getD_append_zero (i : Nat) : (line ++ [0]).getD i 0 = line.getD i 0 := by
  by_cases hi : i < line.length
  · exact getD_append _ _ _ _ hi
  · rw [getD_append_right _ _ _ _ (Nat.le_of_not_lt hi),
      getD_eq_default _ _ (Nat.le_of_not_lt hi)]
    cases i - line.length <;> rfl

/-- After `nulterminate` every string of the tree is its word. -/
lemma cstring_nulterminate {cmd : Cmd Span} {sp : Span} (h0 : 0 ∉ line)
    (hclosed : ∀ sp ∈ cmd.strings, sp.Closed line) (hsp : sp ∈ cmd.strings) :
    cstring (nulterminate cmd (line ++ [0])) sp.q = wordAt line sp := by
  refine cstring_eq ?_ (fun i hi => ?_) ?_
  · exact fun hmem => h0 (mem_of_mem_drop ((List.takeWhile_prefix isWord).subset hmem))
  · rw [nulterminate_getD, getD_append_zero, wordAt_getD hi, if_neg]
    rintro hend
    obtain ⟨sp', hsp', heq⟩ := mem_map.1 hend
    have hword := isWord_getD hi
    have hlt : sp.q + i < line.length := by
      have hlen := congrArg length (@drop_eq line sp)
      simp only [length_drop, length_append] at hlen
      omega
    rw [← heq] at hword hlt
    rw [isWord_eq (hclosed sp' hsp') hlt] at hword
    cases hword
  · rw [nulterminate_getD, if_pos]
    exact mem_map.2 ⟨sp, hsp, hclosed sp hsp⟩

lemma Cmd.map_congr {σ τ : Type} {f g : σ → τ} {cmd : Cmd σ} (h : ∀ sp ∈ cmd.strings, f sp = g sp) :
    cmd.map f = cmd.map g := by
  induction cmd with
  | exec argv => exact congrArg Cmd.exec (map_congr_left h)
  | redir cmd file mode fd ih =>
    simp only [Cmd.strings, mem_append, mem_singleton] at h
    rw [Cmd.map, Cmd.map, ih fun sp hsp => h sp (.inl hsp), h file (.inr rfl)]
  | pipe left right ihl ihr | list left right ihl ihr =>
    simp only [Cmd.strings, mem_append] at h
    rw [Cmd.map, Cmd.map, ihl fun sp hsp => h sp (.inl hsp), ihr fun sp hsp => h sp (.inr hsp)]
  | back cmd ih => rw [Cmd.map, Cmd.map, ih h]

/-- The tree with its C strings. -/
def Cmd.read (cmd : Cmd Span) (buf : List UInt8) : Tree := cmd.map fun sp => cstring buf sp.q

lemma Shows.read {cmd : Cmd Span} {t : Tree} (h0 : 0 ∉ line) (h : Shows line cmd t) :
    cmd.read (nulterminate cmd (line ++ [0])) = t := by
  rw [Cmd.read, Cmd.map_congr fun sp hsp => cstring_nulterminate h0 h.closed hsp, h.tree]

/-! ## `parsecmd` -/

lemma at_start (line : List UInt8) : At line (lex line) 0 :=
  ⟨Nat.zero_le _, rfl⟩

/-- The cursor behind white space is at the end just when no token is left. -/
lemma At.skip_eq_length {ts : List Token} {s : Nat} (h : At line ts s) (h0 : 0 ∉ line) :
    Shell.skip line s = line.length ↔ ts = [] := by
  have hskip := h.skip
  constructor
  · intro hend
    rw [← hskip.lex, hend, drop_length, lex_nil]
  · rintro rfl
    by_contra hne
    have hlt : Shell.skip line s < line.length := Nat.lt_of_le_of_ne hskip.le hne
    rcases h.cases h0 with ⟨-, hzero⟩ | ⟨t, ts', e, hts, -⟩
    · rw [charAt, getD_eq_getElem _ _ hlt] at hzero
      exact h0 (hzero ▸ getElem_mem hlt)
    · cases hts

lemma parsecmd_eq {cmd : Cmd Span} {s : Nat} {ts : List Token} (h0 : 0 ∉ line)
    (hline : parseline line (depth line) 0 = .ok (cmd, s)) (h : At line ts s) :
    parsecmd line = if ts = [] then .ok (cmd, nulterminate cmd (line ++ [0]))
      else .error (.panic "syntax") := by
  have hcmd : parsecmd line = if Shell.skip line s ≠ line.length then .error (.panic "syntax")
      else .ok (cmd, nulterminate cmd (line ++ [0])) := by
    rw [parsecmd, hline]
    rfl
  rw [hcmd, ite_not]
  simp only [h.skip_eq_length h0]

/-- A derivation of the whole line is found. -/
lemma parseline_of_line {t : Tree} (h0 : 0 ∉ line) (h : Line (lex line) t) :
    ∃ cmd s, parseline line (depth line) 0 = .ok (cmd, s) ∧ At line [] s ∧ Shows line cmd t := by
  have hdepth : 4 * (lex line).length + 4 ≤ depth line :=
    Nat.add_le_add_right (Nat.mul_le_mul_left 4 (length_lex line)) 4
  have hat : At line (lex line ++ []) 0 := (append_nil (lex line)).symm ▸ at_start line
  have hends := (parse_complete h0 (depth line)).1 _ t [] h (.inl rfl) hdepth 0 hat
  cases hres : parseline line (depth line) 0 with
  | error e => exact (hends.error hres).elim
  | ok r => exact ⟨r.1, r.2, rfl, hends.ok hres⟩

/-- The parser accepts the lines of the grammar and no other. Its tree is the tree of
the derivation, which is the only one, with the C strings that `nulterminate` leaves.
The calls do not go deeper than `depth`. -/
theorem parsecmd_iff (line : List UInt8) (h0 : 0 ∉ line) :
    match parsecmd line with
    | .ok (cmd, buf) => ∀ t, Line (lex line) t ↔ cmd.read buf = t
    | .error e => e ≠ .fuel ∧ ∀ t, ¬ Line (lex line) t := by
  have hsound := (parse_sound h0 (depth line) (at_start line)).1
    (Nat.add_le_add_right (Nat.mul_le_mul_left 4 (length_lex line)) 4)
  cases hres : parseline line (depth line) 0 with
  | error e =>
    have herr : parsecmd line = .error e := by
      rw [parsecmd, hres]
      rfl
    rw [herr]
    refine ⟨hsound.error hres, fun t ht => ?_⟩
    obtain ⟨cmd, s, hok, -⟩ := parseline_of_line h0 ht
    rw [hres] at hok
    cases hok
  | ok r =>
    obtain ⟨cmd, s⟩ := r
    obtain ⟨a, t₀, rest, hlex, hline, hat, hshow⟩ := hsound.ok hres
    -- a derivation of the line is found by the same call, so it is this one
    have hsame (t : Tree) (ht : Line (lex line) t) : rest = [] ∧ Shows line cmd t := by
      obtain ⟨cmd', s', hok, hat', hshow'⟩ := parseline_of_line h0 ht
      rw [hres] at hok
      cases hok
      exact ⟨hat.lex.symm.trans hat'.lex, hshow'⟩
    rw [parsecmd_eq h0 hres hat]
    cases rest with
    | nil =>
      rw [append_nil] at hlex
      subst hlex
      refine fun t => ⟨fun ht => (hsame t ht).2.read h0, ?_⟩
      rintro rfl
      rwa [hshow.read h0]
    | cons t' rest => exact ⟨by simp, fun t ht => cons_ne_nil _ _ (hsame t ht).1⟩

/-- `echo hi>f` -/
def echoHi : List UInt8 := [101, 99, 104, 111, 32, 104, 105, 62, 102]

theorem parsecmd_echoHi :
    0 ∉ echoHi ∧
    parsecmd echoHi = .ok (.redir (.exec [⟨0, 4⟩, ⟨5, 7⟩]) ⟨8, 9⟩ 0x601 1,
      [101, 99, 104, 111, 0, 104, 105, 0, 102, 0]) ∧
    ∀ t, Line (lex echoHi) t ↔
      .redir (.exec [[101, 99, 104, 111], [104, 105]]) [102] 0x601 1 = t := by
  have hline : 0 ∉ echoHi := by decide
  have hcmd : parsecmd echoHi = .ok (.redir (.exec [⟨0, 4⟩, ⟨5, 7⟩]) ⟨8, 9⟩ 0x601 1,
      [101, 99, 104, 111, 0, 104, 105, 0, 102, 0]) := by decide +kernel
  have hread : Cmd.read (.redir (.exec [⟨0, 4⟩, ⟨5, 7⟩]) ⟨8, 9⟩ 0x601 1)
      [101, 99, 104, 111, 0, 104, 105, 0, 102, 0] =
      .redir (.exec [[101, 99, 104, 111], [104, 105]]) [102] 0x601 1 := by decide +kernel
  have h := parsecmd_iff echoHi hline
  rw [hcmd] at h
  refine ⟨hline, hcmd, fun t => ?_⟩
  rw [← hread]
  exact h t

end Xv6.Shell
