import Xv6.Lib.Ends
import Xv6.Shell.Grammar

/-!
# The parser reads the grammar

The parser of `user/sh.c` succeeds on the lines of the grammar and on no other, and
its tree is the tree of the derivation.

The cursor is described by the tokens behind it (`At`). `peek` and `gettoken` then
become operations on the list of tokens, and no proof about the parsing functions
looks at a byte. `parse_sound` reads a derivation off a successful parse;
`parse_complete` follows a derivation, and needs to know that what stands behind it
cannot go on with it.
-/

namespace Xv6.Shell

open Lib List

variable {line : List UInt8}

/-! ## The cursor -/

/-- The cursor stands in front of these tokens. -/
structure At (line : List UInt8) (ts : List Token) (s : Nat) : Prop where
  le : s ≤ line.length
  lex : lex (line.drop s) = ts

lemma drop_takeWhile (p : UInt8 → Bool) (cs : List UInt8) :
    cs.drop (cs.takeWhile p).length = cs.dropWhile p := by
  have h : (cs.takeWhile p ++ cs.dropWhile p).drop (cs.takeWhile p).length = cs.dropWhile p :=
    drop_left
  rwa [takeWhile_append_dropWhile] at h

lemma drop_skip (s : Nat) :
    line.drop (skip line s) = (line.drop s).dropWhile fun c => c ∈ whitespace := by
  rw [skip, ← drop_drop, drop_takeWhile]

lemma drop_skipWord (s : Nat) : line.drop (skipWord line s) = (line.drop s).dropWhile isWord := by
  rw [skipWord, ← drop_drop, drop_takeWhile]

lemma takeWhile_drop_le {p : UInt8 → Bool} {s : Nat} (h : s ≤ line.length) :
    s + ((line.drop s).takeWhile p).length ≤ line.length := by
  have := (takeWhile_sublist p (l := line.drop s)).length_le
  rw [length_drop] at this
  omega

lemma At.skip {ts : List Token} {s : Nat} (h : At line ts s) : At line ts (skip line s) :=
  ⟨takeWhile_drop_le h.le, by rw [drop_skip, lex_dropWhile, h.lex]⟩

lemma charAt_of_drop {c : UInt8} {cs : List UInt8} {s : Nat} (h : line.drop s = c :: cs) :
    charAt line s = c := by
  have := congrArg (fun l => l.getD 0 0) h
  simpa [charAt] using this

lemma drop_succ {c : UInt8} {cs : List UInt8} {s : Nat} (h : line.drop s = c :: cs) :
    line.drop (s + 1) = cs := by
  rw [← drop_drop, h, drop_one, tail_cons]

/-- The next token of the cursor behind white space. -/
lemma drop_skip_head {c : UInt8} {cs : List UInt8} {s : Nat}
    (h : line.drop (Shell.skip line s) = c :: cs) : c ∉ whitespace := by
  rw [drop_skip] at h
  have := head_dropWhile_not (fun c => decide (c ∈ whitespace)) (l := line.drop s)
  simp_all

/-! ## Words and trees -/

/-- The word that starts at `q`. -/
def wordAt (line : List UInt8) (sp : Span) : List UInt8 := (line.drop sp.q).takeWhile isWord

/-- The pointer `eq` stands behind the word. -/
def Span.Closed (line : List UInt8) (sp : Span) : Prop := sp.eq = sp.q + (wordAt line sp).length

/-- The parser's tree stands for this tree of the grammar. -/
structure Shows (line : List UInt8) (cmd : Cmd Span) (t : Tree) : Prop where
  tree : cmd.map (wordAt line) = t
  closed : ∀ sp ∈ cmd.strings, sp.Closed line

namespace Shows

variable {cmd cmd' : Cmd Span} {t t' : Tree}

lemma exec_nil : Shows line (.exec []) (.exec []) :=
  ⟨rfl, by simp [Cmd.strings]⟩

lemma pipe (h : Shows line cmd t) (h' : Shows line cmd' t') :
    Shows line (.pipe cmd cmd') (.pipe t t') :=
  ⟨by rw [Cmd.map, h.tree, h'.tree],
    fun sp hsp => (mem_append.1 hsp).elim (h.closed sp) (h'.closed sp)⟩

lemma list (h : Shows line cmd t) (h' : Shows line cmd' t') :
    Shows line (.list cmd cmd') (.list t t') :=
  ⟨by rw [Cmd.map, h.tree, h'.tree],
    fun sp hsp => (mem_append.1 hsp).elim (h.closed sp) (h'.closed sp)⟩

lemma back (h : Shows line cmd t) : Shows line (.back cmd) (.back t) :=
  ⟨by rw [Cmd.map, h.tree], h.closed⟩

lemma redir {sp : Span} {mode fd : Nat} (h : Shows line cmd t) (hsp : sp.Closed line) :
    Shows line (.redir cmd sp mode fd) (.redir t (wordAt line sp) mode fd) := by
  refine ⟨by rw [Cmd.map, h.tree], fun sp' hsp' => ?_⟩
  rcases mem_append.1 hsp' with h' | h'
  · exact h.closed sp' h'
  · rw [mem_singleton.1 h']
    exact hsp

lemma addArg {sp : Span} (h : Shows line cmd t) (hsp : sp.Closed line) :
    Shows line (cmd.addArg sp) (t.addArg (wordAt line sp)) := by
  obtain ⟨rfl, hclosed⟩ := h
  induction cmd with
  | exec argv =>
    refine ⟨by simp [Cmd.addArg, Cmd.map], fun sp' hsp' => ?_⟩
    rcases mem_append.1 hsp' with h' | h'
    · exact hclosed sp' h'
    · rw [mem_singleton.1 h']
      exact hsp
  | redir cmd file mode fd ih =>
    have hcmd := ih fun sp' hsp' => hclosed sp' (mem_append_left _ hsp')
    exact hcmd.redir (hclosed file (mem_append_right _ (mem_singleton_self file)))
  | pipe left right _ _ | list left right _ _ | back cmd _ => exact ⟨rfl, hclosed⟩

end Shows

/-! ## One token -/

/-- What `gettoken` returns for a token. -/
def Token.tok : Token → Tok
  | bar => .bar
  | lpar => .lpar
  | rpar => .rpar
  | semi => .semi
  | amp => .amp
  | redir .input => .lt
  | redir .output => .gt
  | redir .append => .plus
  | word _ => .word

/-- What is known of the pointers of a token. -/
def Token.Spans (line : List UInt8) (sp : Span) : Token → Prop
  | word w => sp.Closed line ∧ wordAt line sp = w
  | _ => True

/-- The byte of a symbol; that of `>>` is its first one. -/
def Token.first : Token → Option UInt8
  | bar => some 124
  | lpar => some 40
  | rpar => some 41
  | semi => some 59
  | amp => some 38
  | redir .input => some 60
  | redir .output => some 62
  | redir .append => some 62
  | word _ => none

/-- What `peek` returns in front of these tokens. -/
def starts (toks : List UInt8) : List Token → Bool
  | [] => false
  | t :: _ => t.first.any fun c => c ∈ toks

/-- The `switch` of `gettoken` reads one token. -/
lemma classify_cons {c : UInt8} {cs : List UInt8} {s : Nat} (h : line.drop s = c :: cs)
    (hspace : c ∉ whitespace) (hzero : c ≠ 0) :
    ∃ t e, lex (c :: cs) = t :: lex (line.drop e) ∧ classify line s = (t.tok, e) ∧
      e ≤ line.length ∧ t.Spans line ⟨s, e⟩ ∧ t.first = if c ∈ symbols then some c else none := by
  have hlen : s + 1 ≤ line.length := by
    have := congrArg length h
    simp at this
    omega
  have hdrop := drop_succ h
  rw [classify, charAt_of_drop h]
  split
  next => exact absurd rfl hzero
  next => exact ⟨.bar, _, by rw [lex, hdrop], rfl, hlen, trivial, rfl⟩
  next => exact ⟨.lpar, _, by rw [lex, hdrop], rfl, hlen, trivial, rfl⟩
  next => exact ⟨.rpar, _, by rw [lex, hdrop], rfl, hlen, trivial, rfl⟩
  next => exact ⟨.semi, _, by rw [lex, hdrop], rfl, hlen, trivial, rfl⟩
  next => exact ⟨.amp, _, by rw [lex, hdrop], rfl, hlen, trivial, rfl⟩
  next => exact ⟨.redir .input, _, by rw [lex, hdrop], rfl, hlen, trivial, rfl⟩
  next =>
    split
    next h62 =>
      cases cs with
      | nil =>
        rw [charAt, getD_eq_default _ _ (drop_eq_nil_iff.1 hdrop)] at h62
        cases h62
      | cons d cs =>
        rw [charAt_of_drop hdrop] at h62
        subst h62
        have hlen' : s + 2 ≤ line.length := by
          have := congrArg length h
          simp at this
          omega
        exact ⟨.redir .append, _, by rw [lex, drop_succ hdrop], rfl, hlen', trivial, rfl⟩
    next h62 =>
      refine ⟨.redir .output, _, ?_, rfl, hlen, trivial, rfl⟩
      rw [lex, hdrop]
      rintro cs' rfl
      exact h62 (charAt_of_drop hdrop)
  next =>
    have hsym : c ∉ symbols := by
      simp_all [symbols]
    have hword : isWord c = true := by
      simp [isWord, hspace, hsym]
    refine ⟨.word (wordAt line ⟨s, 0⟩), skipWord line s, ?_, rfl, takeWhile_drop_le (by omega),
      ⟨rfl, rfl⟩, (if_neg hsym).symm⟩
    rw [lex_word hword, drop_skipWord, wordAt, h, takeWhile_cons_of_pos hword,
      dropWhile_cons_of_pos hword]

section Rules

variable {α : Type} {Q : α → Nat → Prop} {E : Err → Prop} {ts : List Token} {s : Nat}

/-- The cursor and the byte under it, behind white space. -/
lemma At.cases (h : At line ts s) (h0 : 0 ∉ line) :
    (ts = [] ∧ charAt line (Shell.skip line s) = 0) ∨
      ∃ t ts' e, ts = t :: ts' ∧ classify line (Shell.skip line s) = (t.tok, e) ∧ At line ts' e ∧
        t.Spans line ⟨Shell.skip line s, e⟩ ∧ charAt line (Shell.skip line s) ≠ 0 ∧
        t.first = if charAt line (Shell.skip line s) ∈ symbols
          then some (charAt line (Shell.skip line s)) else none := by
  have hskip := h.skip
  cases hdrop : line.drop (Shell.skip line s) with
  | nil =>
    refine .inl ⟨by rw [← hskip.lex, hdrop, lex_nil], ?_⟩
    exact getD_eq_default _ _ (drop_eq_nil_iff.1 hdrop)
  | cons c cs =>
    have hc : c ≠ 0 := by
      rintro rfl
      exact h0 (mem_of_mem_drop (hdrop ▸ mem_cons_self))
    obtain ⟨t, e, hlex, hcl, hle, hsp, hfirst⟩ := classify_cons hdrop (drop_skip_head hdrop) hc
    refine .inr ⟨t, _, e, ?_, hcl, ⟨hle, rfl⟩, hsp, ?_⟩
    · rw [← hskip.lex, hdrop, hlex]
    · rw [charAt_of_drop hdrop]
      exact ⟨hc, hfirst⟩

lemma ends_peek {toks : List UInt8} {f : Bool → ParseM α} (h0 : 0 ∉ line) (h : At line ts s)
    (htoks : toks ⊆ symbols) (hf : ∀ s', At line ts s' → Ends (f (starts toks ts)) s' Q E) :
    Ends (peek line toks >>= f) s Q E := by
  suffices hpeek : peek line toks s = .ok (starts toks ts, Shell.skip line s) from
    ends_bind_of_eq hpeek (hf _ h.skip)
  rcases h.cases h0 with ⟨rfl, hzero⟩ | ⟨t, ts', e, rfl, -, -, -, hne, hfirst⟩
  · simp [peek, hzero, starts]
  · simp only [peek, starts, hfirst, hne, ne_eq, not_false_eq_true, true_and]
    split
    next => rfl
    next hsym => simp [show charAt line (Shell.skip line s) ∉ toks from fun hc => hsym (htoks hc)]

lemma ends_gettoken_nil {f : Tok × Span → ParseM α} (h0 : 0 ∉ line) (h : At line [] s)
    (hf : ∀ sp s', At line [] s' → Ends (f (.eof, sp)) s' Q E) :
    Ends (gettoken line >>= f) s Q E := by
  rcases h.cases h0 with ⟨-, hzero⟩ | ⟨t, ts', e, hts, -⟩
  · have hcl : classify line (Shell.skip line s) = (.eof, Shell.skip line s) := by
      rw [classify, hzero]
      rfl
    have hget : gettoken line s =
        .ok ((.eof, ⟨Shell.skip line s, Shell.skip line s⟩), Shell.skip line (Shell.skip line s)) := by
      rw [gettoken, hcl]
    exact ends_bind_of_eq hget (hf _ _ h.skip.skip)
  · cases hts

lemma ends_gettoken_cons {f : Tok × Span → ParseM α} {t : Token} (h0 : 0 ∉ line)
    (h : At line (t :: ts) s)
    (hf : ∀ sp s', t.Spans line sp → At line ts s' → Ends (f (t.tok, sp)) s' Q E) :
    Ends (gettoken line >>= f) s Q E := by
  rcases h.cases h0 with ⟨hts, -⟩ | ⟨t', ts', e, hts, hcl, he, hsp, -⟩
  · cases hts
  · obtain ⟨rfl, rfl⟩ := cons.inj hts
    refine ends_bind_of_eq (a := (t.tok, _)) ?_ (hf _ _ hsp he.skip)
    rw [gettoken, hcl]

end Rules

/-! ## What stands next -/

/-- A symbol other than a redirection. -/
def Token.Single (t : Token) : Prop := t ∈ [bar, lpar, rpar, semi, amp]

lemma Token.Single.eq_of_first {t t' : Token} (h : t.Single) (hfirst : t.first = t'.first) :
    t' = t := by
  simp only [Single, mem_cons, not_mem_nil, or_false] at h
  rcases h with rfl | rfl | rfl | rfl | rfl <;> cases t' with
  | redir r => cases r <;> simp [first] at hfirst
  | _ => simp_all [first]

lemma starts_single {t : Token} {c : UInt8} {ts : List Token} (h : t.Single)
    (hc : t.first = some c) (hts : starts [c] ts = true) : ∃ ts', ts = t :: ts' := by
  cases ts with
  | nil => cases hts
  | cons t' ts =>
    cases hfirst : t'.first with
    | none => simp [starts, hfirst] at hts
    | some d =>
      simp only [starts, hfirst, Option.any_some, mem_singleton, decide_eq_true_eq] at hts
      subst hts
      exact ⟨ts, by rw [h.eq_of_first (hc.trans hfirst.symm)]⟩

lemma starts_redir {ts : List Token} (h : starts [60, 62] ts = true) :
    ∃ r ts', ts = .redir r :: ts' := by
  cases ts with
  | nil => cases h
  | cons t ts => cases t <;> first | exact ⟨_, _, rfl⟩ | simp [starts, Token.first] at h

@[simp] lemma starts_cons_redir (r : Redirect) (ts : List Token) :
    starts [60, 62] (.redir r :: ts) = true := by
  cases r <;> rfl

/-- What stands behind a phrase of the grammar: nothing, or one of these symbols. -/
def Follow (toks : List UInt8) (ts : List Token) : Prop := ts = [] ∨ starts toks ts = true

lemma Follow.not_starts {toks toks' : List UInt8} {ts : List Token} (h : Follow toks ts)
    (hdisj : toks.all fun c => c ∉ toks') : starts toks' ts = false := by
  cases ts with
  | nil => rfl
  | cons t ts =>
    rcases h with h | h
    · cases h
    · cases hfirst : t.first with
      | none => simp [starts, hfirst]
      | some c =>
        simp only [starts, hfirst, Option.any_some, decide_eq_true_eq] at h
        simpa [starts, hfirst] using all_eq_true.1 hdisj c h

lemma Follow.mono {toks toks' : List UInt8} {ts : List Token} (h : Follow toks ts)
    (hsub : toks ⊆ toks') : Follow toks' ts := by
  cases ts with
  | nil => exact .inl rfl
  | cons t ts =>
    rcases h with h | h
    · cases h
    · cases hfirst : t.first with
      | none => simp [starts, hfirst] at h
      | some c =>
        simp only [starts, hfirst, Option.any_some, decide_eq_true_eq] at h
        exact .inr (by simp [starts, hfirst, hsub h])

lemma Token.tok_word {t : Token} (h : t.tok = .word) : ∃ w, t = word w := by
  cases t with
  | word w => exact ⟨w, rfl⟩
  | redir r => cases r <;> cases h
  | _ => cases h

lemma Token.tok_ne_eof (t : Token) : t.tok ≠ .eof := by
  cases t with
  | redir r => cases r <;> simp [tok]
  | _ => simp [tok]

/-! ## Redirections -/

lemma Shows.redircmd {cmd : Cmd Span} {t : Tree} {file : Span} {w : List UInt8}
    (h : Shows line cmd t) (r : Redirect) (hfile : (Token.word w).Spans line file) :
    Shows line (redircmd cmd file (Token.redir r).tok) (.redir t w r.mode r.fd) := by
  obtain ⟨hclosed, rfl⟩ := hfile
  cases r <;> exact h.redir hclosed

/-- `parseredirs` reads redirections. -/
lemma parseredirs_sound (h0 : 0 ∉ line) {k : Nat} {cmd : Cmd Span} {t : Tree} {ts : List Token}
    {s : Nat} (hcmd : Shows line cmd t) (h : At line ts s) (hk : ts.length < k) :
    Ends (parseredirs line cmd k) s
      (fun cmd' s' => ∃ a rs rest, ts = a ++ rest ∧ Redirs a rs ∧ At line rest s' ∧
        Shows line cmd' (wrap t rs))
      (· ≠ .fuel) := by
  induction k generalizing cmd t ts s with
  | zero => cases hk
  | succ k ih =>
    refine ends_peek h0 h (by decide) fun s₁ h₁ => ?_
    split
    next hst =>
      obtain ⟨r, ts, rfl⟩ := starts_redir hst
      refine ends_gettoken_cons h0 h₁ fun _ s₂ _ h₂ => ?_
      cases ts with
      | nil => exact ends_gettoken_nil h0 h₂ fun _ _ _ => ends_throw (by simp)
      | cons t' ts =>
        refine ends_gettoken_cons h0 h₂ fun file s₃ hfile h₃ => ?_
        dsimp only
        split
        next => exact ends_throw (by simp)
        next hword =>
          obtain ⟨w, rfl⟩ := Token.tok_word (not_not.1 hword)
          refine (ih (hcmd.redircmd r hfile) h₃ ?_).mono ?_
          · simp only [length_cons] at hk
            omega
          · rintro cmd' s' ⟨a, rs, rest, rfl, hred, hrest, hshow⟩
            exact ⟨_, _, rest, rfl, .cons hred, hrest, hshow⟩
    next => exact ends_pure ⟨[], [], ts, rfl, .nil, h₁, hcmd⟩

/-- `parseredirs` reads all the redirections that follow one another. -/
lemma parseredirs_complete (h0 : 0 ∉ line) {a rest : List Token}
    {rs : List (Redirect × List UInt8)} (hred : Redirs a rs) (hrest : starts [60, 62] rest = false)
    {k : Nat} {cmd : Cmd Span} {t : Tree} {s : Nat} (hcmd : Shows line cmd t)
    (h : At line (a ++ rest) s) (hk : a.length < k) :
    Ends (parseredirs line cmd k) s
      (fun cmd' s' => At line rest s' ∧ Shows line cmd' (wrap t rs)) (fun _ => False) := by
  induction hred generalizing k cmd t s with
  | nil =>
    obtain ⟨k, rfl⟩ := Nat.exists_eq_add_of_lt hk
    refine ends_peek h0 h (by decide) fun s₁ h₁ => ?_
    rw [nil_append, hrest]
    exact ends_pure ⟨h₁, hcmd⟩
  | @cons r w ts rs _ ih =>
    cases k with
    | zero => cases hk
    | succ k =>
      refine ends_peek h0 h (by decide) fun s₁ h₁ => ?_
      rw [cons_append, starts_cons_redir]
      refine ends_gettoken_cons h0 h₁ fun _ s₂ _ h₂ => ?_
      refine ends_gettoken_cons h0 h₂ fun file s₃ hfile h₃ => ?_
      simp only [length_cons] at hk
      exact ih (hcmd.redircmd r hfile) h₃ (by omega)

/-! ## The words of a command -/

lemma Shows.addWord {ret : Cmd Span} {ws : List (List UInt8)}
    {rs : List (Redirect × List UInt8)} {arg : Span} {w : List UInt8}
    (h : Shows line ret (wrap (.exec ws) rs)) (harg : (Token.word w).Spans line arg) :
    Shows line (ret.addArg arg) (wrap (.exec (ws ++ [w])) rs) := by
  obtain ⟨hclosed, rfl⟩ := harg
  have := h.addArg hclosed
  rwa [addArg_wrap] at this

/-- `parseexec`'s loop reads words and redirections. -/
lemma parseargs_sound (h0 : 0 ∉ line) {k : Nat} {ret : Cmd Span} {ws : List (List UInt8)}
    {rs : List (Redirect × List UInt8)} {ts : List Token} {s : Nat}
    (hret : Shows line ret (wrap (.exec ws) rs)) (hws : ws.length < maxArgs) (h : At line ts s)
    (hk : ts.length < k) :
    Ends (parseargs line ws.length ret k) s
      (fun cmd s' => ∃ a ws' rs' rest, ts = a ++ rest ∧ Args a ws' rs' ∧
        (ws ++ ws').length < maxArgs ∧ At line rest s' ∧
        Shows line cmd (wrap (.exec (ws ++ ws')) (rs ++ rs')))
      (· ≠ .fuel) := by
  induction k generalizing ret ws rs ts s with
  | zero => cases hk
  | succ k ih =>
    have hstop (s' : Nat) (h' : At line ts s') : ∃ a ws' rs' rest, ts = a ++ rest ∧
        Args a ws' rs' ∧ (ws ++ ws').length < maxArgs ∧ At line rest s' ∧
        Shows line ret (wrap (.exec (ws ++ ws')) (rs ++ rs')) := by
      refine ⟨[], [], [], ts, rfl, .nil, ?_, h', ?_⟩
      · rwa [append_nil]
      · rwa [append_nil, append_nil]
    refine ends_peek h0 h (by decide) fun s₁ h₁ => ?_
    split
    next => exact ends_pure (hstop s₁ h₁)
    next =>
      cases ts with
      | nil => exact ends_gettoken_nil h0 h₁ fun _ s₂ h₂ => ends_pure (hstop s₂ h₂)
      | cons t ts =>
        refine ends_gettoken_cons h0 h₁ fun arg s₂ harg h₂ => ?_
        dsimp only
        split
        next heof => exact absurd heof t.tok_ne_eof
        next =>
          split
          next => exact ends_throw (by simp)
          next hword =>
            obtain ⟨w, rfl⟩ := Token.tok_word (not_not.1 hword)
            split
            next => exact ends_throw (by simp)
            next hmax =>
              simp only [length_cons] at hk
              refine (parseredirs_sound h0 (hret.addWord harg) h₂ (by omega)).bind ?_
              rintro ret' s₃ ⟨a, rs₁, rest, rfl, hred, h₃, hret'⟩
              rw [← wrap_append] at hret'
              rw [length_append] at hk
              have hlen : ws.length + 1 = (ws ++ [w]).length := by simp
              rw [hlen] at hmax ⊢
              refine (ih hret' (Nat.lt_of_not_ge hmax) h₃ (by omega)).mono ?_
              rintro cmd s' ⟨b, ws', rs', rest, rfl, hargs, hmax', h', hshow⟩
              refine ⟨.word w :: a ++ b, w :: ws', rs₁ ++ rs', rest, ?_, .cons hred hargs, ?_, h', ?_⟩
              · simp
              · simpa using hmax'
              · simpa using hshow

/-- What the loop of `parseexec` reads next is not a redirection. -/
lemma Args.not_redir {a rest : List Token} {ws : List (List UInt8)}
    {rs : List (Redirect × List UInt8)} (h : Args a ws rs)
    (hrest : Follow [124, 41, 38, 59] rest) : starts [60, 62] (a ++ rest) = false := by
  cases h with
  | nil => exact hrest.not_starts (by decide)
  | cons => rfl

lemma parseargs_complete (h0 : 0 ∉ line) {a rest : List Token} {ws' : List (List UInt8)}
    {rs' : List (Redirect × List UInt8)} (hargs : Args a ws' rs')
    (hrest : Follow [124, 41, 38, 59] rest) {k : Nat} {ret : Cmd Span} {ws : List (List UInt8)}
    {rs : List (Redirect × List UInt8)} {s : Nat} (hret : Shows line ret (wrap (.exec ws) rs))
    (hws : (ws ++ ws').length < maxArgs) (h : At line (a ++ rest) s) (hk : a.length < k) :
    Ends (parseargs line ws.length ret k) s
      (fun cmd s' => At line rest s' ∧ Shows line cmd (wrap (.exec (ws ++ ws')) (rs ++ rs')))
      (fun _ => False) := by
  induction hargs generalizing k ret ws rs s with
  | nil =>
    cases k with
    | zero => cases hk
    | succ k =>
      rw [append_nil, append_nil]
      refine ends_peek h0 h (by decide) fun s₁ h₁ => ?_
      rcases hrest with rfl | hstart
      · rw [nil_append, starts, if_neg Bool.false_ne_true]
        exact ends_gettoken_nil h0 h₁ fun _ s₂ h₂ => ends_pure ⟨h₂, hret⟩
      · rw [nil_append, hstart]
        exact ends_pure ⟨h₁, hret⟩
  | @cons w a rs₁ b ws' rs' hred hargs ih =>
    cases k with
    | zero => cases hk
    | succ k =>
      simp only [length_append, length_cons] at hk hws
      rw [append_assoc, cons_append] at h
      refine ends_peek h0 h (by decide) fun s₁ h₁ => ?_
      refine ends_gettoken_cons h0 h₁ fun arg s₂ harg h₂ => ?_
      dsimp only
      rw [if_neg (Token.tok_ne_eof _), if_neg (by simp [Token.tok]), if_neg (by omega)]
      refine (parseredirs_complete h0 hred (hargs.not_redir hrest) (hret.addWord harg) h₂
        (by omega)).bind ?_
      rintro ret' s₃ ⟨h₃, hret'⟩
      rw [← wrap_append] at hret'
      have hlen : ws.length + 1 = (ws ++ [w]).length := by simp
      rw [hlen]
      refine (ih hret' (by simp; omega) h₃ (by omega)).mono ?_
      rintro cmd s' ⟨h', hshow⟩
      exact ⟨h', by simpa using hshow⟩

/-! ## Background marks -/

lemma parseback_sound (h0 : 0 ∉ line) {k : Nat} {cmd : Cmd Span} {t : Tree} {ts : List Token}
    {s : Nat} (hcmd : Shows line cmd t) (h : At line ts s) (hk : ts.length < k) :
    Ends (parseback line cmd k) s
      (fun cmd' s' => ∃ n rest, ts = replicate n .amp ++ rest ∧ At line rest s' ∧
        Shows line cmd' (backs t n))
      (· ≠ .fuel) := by
  induction k generalizing cmd t ts s with
  | zero => cases hk
  | succ k ih =>
    refine ends_peek h0 h (by decide) fun s₁ h₁ => ?_
    split
    next hst =>
      obtain ⟨ts, rfl⟩ := starts_single (t := .amp) (by simp [Token.Single]) rfl hst
      refine ends_gettoken_cons h0 h₁ fun _ s₂ _ h₂ => ?_
      refine (ih hcmd.back h₂ (Nat.lt_of_succ_lt_succ hk)).mono ?_
      rintro cmd' s' ⟨n, rest, rfl, h', hshow⟩
      exact ⟨n + 1, rest, rfl, h', hshow⟩
    next => exact ends_pure ⟨0, ts, rfl, h₁, hcmd⟩

lemma parseback_complete (h0 : 0 ∉ line) {n : Nat} {rest : List Token}
    (hrest : starts [38] rest = false) {k : Nat} {cmd : Cmd Span} {t : Tree} {s : Nat}
    (hcmd : Shows line cmd t) (h : At line (replicate n .amp ++ rest) s) (hk : n < k) :
    Ends (parseback line cmd k) s
      (fun cmd' s' => At line rest s' ∧ Shows line cmd' (backs t n)) (fun _ => False) := by
  induction n generalizing k cmd t s with
  | zero =>
    cases k with
    | zero => cases hk
    | succ k =>
      refine ends_peek h0 h (by decide) fun s₁ h₁ => ?_
      rw [replicate_zero, nil_append, hrest]
      exact ends_pure ⟨h₁, hcmd⟩
  | succ n ih =>
    cases k with
    | zero => cases hk
    | succ k =>
      refine ends_peek h0 h (by decide) fun s₁ h₁ => ?_
      exact ends_gettoken_cons h0 h₁ fun _ s₂ _ h₂ => ih hcmd.back h₂ (Nat.lt_of_succ_lt_succ hk)

/-! ## Lines -/

/-- The parser read a phrase of the grammar from the front of the tokens. -/
def Reads (line : List UInt8) (P : List Token → Tree → Prop) (ts : List Token) (cmd : Cmd Span)
    (s' : Nat) : Prop :=
  ∃ a t rest, ts = a ++ rest ∧ P a t ∧ At line rest s' ∧ Shows line cmd t

/-- A successful parse has a derivation, and the bound on the depth is not reached. -/
lemma parse_sound (h0 : 0 ∉ line) (k : Nat) {ts : List Token} {s : Nat} (h : At line ts s) :
    (4 * ts.length + 4 ≤ k → Ends (parseline line k) s (Reads line Line ts) (· ≠ .fuel)) ∧
    (4 * ts.length + 3 ≤ k → Ends (parsepipe line k) s (Reads line Pipe ts) (· ≠ .fuel)) ∧
    (4 * ts.length + 2 ≤ k → Ends (parseexec line k) s (Reads line Exec ts) (· ≠ .fuel)) ∧
    (4 * ts.length + 1 ≤ k → Ends (parseblock line k) s (Reads line Exec ts) (· ≠ .fuel)) := by
  induction k generalizing ts s with
  | zero => omega
  | succ k ih =>
    refine ⟨fun hk => ?_, fun hk => ?_, fun hk => ?_, fun hk => ?_⟩
    · refine ((ih h).2.1 (by omega)).bind ?_
      rintro cmd s₁ ⟨a, t, ts₁, rfl, hpipe, h₁, hcmd⟩
      rw [length_append] at hk
      refine (parseback_sound h0 hcmd h₁ (by omega)).bind ?_
      rintro cmd s₂ ⟨n, ts₂, rfl, h₂, hcmd⟩
      rw [length_append] at hk
      refine ends_peek h0 h₂ (by decide) fun s₃ h₃ => ?_
      split
      next hst =>
        obtain ⟨ts₃, rfl⟩ := starts_single (t := .semi) (by simp [Token.Single]) rfl hst
        refine ends_gettoken_cons h0 h₃ fun _ s₄ _ h₄ => ?_
        rw [length_cons] at hk
        refine ((ih h₄).1 (by omega)).bind ?_
        rintro right s₅ ⟨b, u, rest, rfl, hline, h₅, hright⟩
        refine ends_pure ⟨_, _, rest, ?_, .semi n hpipe hline, h₅, hcmd.list hright⟩
        simp
      next => exact ends_pure ⟨_, _, ts₂, (append_assoc ..).symm, .last n hpipe, h₃, hcmd⟩
    · refine ((ih h).2.2.1 (by omega)).bind ?_
      rintro cmd s₁ ⟨a, t, ts₁, rfl, hexec, h₁, hcmd⟩
      rw [length_append] at hk
      refine ends_peek h0 h₁ (by decide) fun s₂ h₂ => ?_
      split
      next hst =>
        obtain ⟨ts₂, rfl⟩ := starts_single (t := .bar) (by simp [Token.Single]) rfl hst
        refine ends_gettoken_cons h0 h₂ fun _ s₃ _ h₃ => ?_
        rw [length_cons] at hk
        refine ((ih h₃).2.1 (by omega)).bind ?_
        rintro right s₄ ⟨b, u, rest, rfl, hpipe, h₄, hright⟩
        refine ends_pure ⟨_, _, rest, ?_, .bar hexec hpipe, h₄, hcmd.pipe hright⟩
        simp
      next => exact ends_pure ⟨_, _, ts₁, rfl, .one hexec, h₂, hcmd⟩
    · refine ends_peek h0 h (by decide) fun s₁ h₁ => ?_
      split
      next => exact (ih h₁).2.2.2 (by omega)
      next =>
        refine (parseredirs_sound h0 .exec_nil h₁ (by omega)).bind ?_
        rintro ret s₂ ⟨a, rs, ts₁, rfl, hred, h₂, hret⟩
        rw [length_append] at hk
        refine (parseargs_sound h0 hret (by decide) h₂ (by omega)).mono ?_
        rintro cmd s₃ ⟨b, ws, rs', rest, rfl, hargs, hmax, h₃, hcmd⟩
        exact ⟨_, _, rest, (append_assoc ..).symm, .simple hred hargs hmax, h₃, hcmd⟩
    · refine ends_peek h0 h (by decide) fun s₁ h₁ => ?_
      split
      next hst =>
        obtain ⟨ts, rfl⟩ := starts_single (t := .lpar) (by simp [Token.Single]) rfl hst
        refine ends_gettoken_cons h0 h₁ fun _ s₂ _ h₂ => ?_
        rw [length_cons] at hk
        refine ((ih h₂).1 (by omega)).bind ?_
        rintro cmd s₃ ⟨a, t, ts₁, rfl, hline, h₃, hcmd⟩
        refine ends_peek h0 h₃ (by decide) fun s₄ h₄ => ?_
        split
        next hst =>
          obtain ⟨ts₂, rfl⟩ := starts_single (t := .rpar) (by simp [Token.Single]) rfl hst
          refine ends_gettoken_cons h0 h₄ fun _ s₅ _ h₅ => ?_
          rw [length_append, length_cons] at hk
          refine (parseredirs_sound h0 hcmd h₅ (by omega)).mono ?_
          rintro cmd' s₆ ⟨b, rs, rest, rfl, hred, h₆, hcmd'⟩
          refine ⟨_, _, rest, ?_, .block hline hred, h₆, hcmd'⟩
          simp
        next => exact ends_throw (by simp)
      next => exact ends_throw (by simp)

/-- The parser follows the phrase and stops behind it. -/
def Follows (line : List UInt8) (m : ParseM (Cmd Span)) (a rest : List Token) (t : Tree) : Prop :=
  ∀ s, At line (a ++ rest) s →
    Ends m s (fun cmd s' => At line rest s' ∧ Shows line cmd t) (fun _ => False)

/-- A command that is not a block does not start with a parenthesis. -/
lemma Redirs.not_lpar {a b rest : List Token} {ws : List (List UInt8)}
    {rs rs' : List (Redirect × List UInt8)} (hred : Redirs a rs) (hargs : Args b ws rs')
    (hrest : Follow [124, 41, 38, 59] rest) : starts [40] (a ++ b ++ rest) = false := by
  cases hred with
  | nil =>
    cases hargs with
    | nil => exact hrest.not_starts (by decide)
    | cons => rfl
  | @cons r => cases r <;> rfl

lemma follow_amps {rest : List Token} (n : Nat) (h : Follow [41, 59] rest) :
    Follow [41, 38, 59] (replicate n .amp ++ rest) := by
  cases n with
  | zero => exact h.mono (by decide)
  | succ n => exact .inr rfl

/-- Every derivation is found. -/
lemma parse_complete (h0 : 0 ∉ line) (k : Nat) :
    (∀ a t rest, Line a t → Follow [41] rest → 4 * a.length + 4 ≤ k →
      Follows line (parseline line k) a rest t) ∧
    (∀ a t rest, Pipe a t → Follow [41, 38, 59] rest → 4 * a.length + 3 ≤ k →
      Follows line (parsepipe line k) a rest t) ∧
    (∀ a t rest, Exec a t → Follow [124, 41, 38, 59] rest → 4 * a.length + 2 ≤ k →
      Follows line (parseexec line k) a rest t) ∧
    (∀ a t us rs rest, Line a t → Redirs us rs → Follow [124, 41, 38, 59] rest →
      4 * (a.length + us.length + 2) + 1 ≤ k →
      Follows line (parseblock line k) (.lpar :: a ++ .rpar :: us) rest (wrap t rs)) := by
  induction k with
  | zero => exact ⟨by omega, by omega, by omega, by omega⟩
  | succ k ih =>
    obtain ⟨ihline, ihpipe, ihexec, ihblock⟩ := ih
    refine ⟨fun a t rest hline hrest hk s h => ?_, fun a t rest hpipe hrest hk s h => ?_,
      fun a t rest hexec hrest hk s h => ?_, fun a t us rs rest hline hred hrest hk s h => ?_⟩
    · cases hline with
      | @last ts t n hpipe =>
        rw [length_append, length_replicate] at hk
        rw [append_assoc] at h
        refine (ihpipe _ _ _ hpipe (follow_amps n (hrest.mono (by decide))) (by omega) s h).bind ?_
        rintro cmd s₁ ⟨h₁, hcmd⟩
        refine (parseback_complete h0 (hrest.not_starts (by decide)) hcmd h₁ (by omega)).bind ?_
        rintro cmd s₂ ⟨h₂, hcmd⟩
        refine ends_peek h0 h₂ (by decide) fun s₃ h₃ => ?_
        rw [hrest.not_starts (by decide)]
        exact ends_pure ⟨h₃, hcmd⟩
      | @semi ts t us u n hpipe hline =>
        simp only [length_append, length_replicate, length_cons] at hk
        rw [append_assoc, append_assoc, cons_append] at h
        refine (ihpipe _ _ _ hpipe (follow_amps n (.inr rfl)) (by omega) s h).bind ?_
        rintro cmd s₁ ⟨h₁, hcmd⟩
        refine (parseback_complete h0 rfl hcmd h₁ (by omega)).bind ?_
        rintro cmd s₂ ⟨h₂, hcmd⟩
        refine ends_peek h0 h₂ (by decide) fun s₃ h₃ => ?_
        refine ends_gettoken_cons h0 h₃ fun _ s₄ _ h₄ => ?_
        refine (ihline _ _ _ hline hrest (by omega) s₄ h₄).bind ?_
        rintro right s₅ ⟨h₅, hright⟩
        exact ends_pure ⟨h₅, hcmd.list hright⟩
    · cases hpipe with
      | one hexec =>
        refine (ihexec _ _ _ hexec (hrest.mono (by decide)) (by omega) s h).bind ?_
        rintro cmd s₁ ⟨h₁, hcmd⟩
        refine ends_peek h0 h₁ (by decide) fun s₂ h₂ => ?_
        rw [hrest.not_starts (by decide)]
        exact ends_pure ⟨h₂, hcmd⟩
      | @bar ts t us u hexec hpipe =>
        simp only [length_append, length_cons] at hk
        rw [append_assoc, cons_append] at h
        refine (ihexec _ _ _ hexec (.inr rfl) (by omega) s h).bind ?_
        rintro cmd s₁ ⟨h₁, hcmd⟩
        refine ends_peek h0 h₁ (by decide) fun s₂ h₂ => ?_
        refine ends_gettoken_cons h0 h₂ fun _ s₃ _ h₃ => ?_
        refine (ihpipe _ _ _ hpipe hrest (by omega) s₃ h₃).bind ?_
        rintro right s₄ ⟨h₄, hright⟩
        exact ends_pure ⟨h₄, hcmd.pipe hright⟩
    · cases hexec with
      | @block ts t us rs hline hred =>
        simp only [length_append, length_cons] at hk
        refine ends_peek h0 h (by decide) fun s₁ h₁ => ?_
        exact ihblock _ _ _ _ _ hline hred hrest (by omega) s₁ h₁
      | @simple ts rs us ws rs' hred hargs hmax =>
        rw [length_append] at hk
        refine ends_peek h0 h (by decide) fun s₁ h₁ => ?_
        rw [hred.not_lpar hargs hrest]
        rw [append_assoc] at h₁
        refine (parseredirs_complete h0 hred (hargs.not_redir hrest) .exec_nil h₁ (by omega)).bind ?_
        rintro ret s₂ ⟨h₂, hret⟩
        exact parseargs_complete h0 hargs hrest hret hmax h₂ (by omega)
    · rw [append_assoc] at h
      refine ends_peek h0 h (by decide) fun s₁ h₁ => ?_
      refine ends_gettoken_cons h0 h₁ fun _ s₂ _ h₂ => ?_
      refine (ihline _ _ _ hline (.inr rfl) (by omega) s₂ h₂).bind ?_
      rintro cmd s₃ ⟨h₃, hcmd⟩
      refine ends_peek h0 h₃ (by decide) fun s₄ h₄ => ?_
      refine ends_gettoken_cons h0 h₄ fun _ s₅ _ h₅ => ?_
      exact parseredirs_complete h0 hred (hrest.not_starts (by decide)) hcmd h₅ (by omega)

end Xv6.Shell
