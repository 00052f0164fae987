import Xv6.Shell.Sh

/-!
# The grammar of the shell

What a line of the shell means, said without a cursor. `lex` cuts the line into
tokens: a word is a maximal run of bytes that are neither white space nor symbols,
and `>>` is one token. `Line`, `Pipe` and `Exec` are the grammar

* line ::= pipe `&`* [`;` line]
* pipe ::= exec [`|` pipe]
* exec ::= `(` line `)` redir* | redir* (word redir*)*
* redir ::= (`<` | `>` | `>>`) word

with the tree that belongs to each derivation. The redirections of a command stand
around it in the order of the line, the last one outermost.
-/

namespace Xv6.Shell

/-! ## Tokens -/

/-- The symbols `<`, `>` and `>>`. -/
inductive Redirect where
  | input
  | output
  | append
  deriving DecidableEq, Repr

/-- The flags the file is opened with. -/
def Redirect.mode : Redirect → Nat
  | input => 0
  | output => Fs.oWronly ||| Fs.oCreate ||| Fs.oTrunc
  | append => Fs.oWronly ||| Fs.oCreate

/-- The descriptor that the file becomes. -/
def Redirect.fd : Redirect → Nat
  | input => 0
  | output => 1
  | append => 1

inductive Token where
  | bar
  | lpar
  | rpar
  | semi
  | amp
  | redir (r : Redirect)
  | word (w : List UInt8)
  deriving DecidableEq, Repr

/-- The tokens of a line. -/
def lex : List UInt8 → List Token
  | [] => []
  | 124 :: cs => .bar :: lex cs
  | 40 :: cs => .lpar :: lex cs
  | 41 :: cs => .rpar :: lex cs
  | 59 :: cs => .semi :: lex cs
  | 38 :: cs => .amp :: lex cs
  | 60 :: cs => .redir .input :: lex cs
  | 62 :: 62 :: cs => .redir .append :: lex cs
  | 62 :: cs => .redir .output :: lex cs
  | c :: cs =>
    if c ∈ whitespace then lex cs
    else .word (c :: cs.takeWhile isWord) :: lex (cs.dropWhile isWord)
termination_by cs => cs.length
decreasing_by
  all_goals simp
  exact (List.dropWhile_sublist isWord).length_le

/-! ## Derivations -/

/-- A tree with the texts of its words. -/
abbrev Tree := Cmd (List UInt8)

/-- The redirections around a tree, the last one outermost. -/
def wrap (t : Tree) (rs : List (Redirect × List UInt8)) : Tree :=
  rs.foldl (fun t r => .redir t r.2 r.1.mode r.1.fd) t

/-- `redir*` -/
inductive Redirs : List Token → List (Redirect × List UInt8) → Prop
  | nil : Redirs [] []
  | cons {r w ts rs} : Redirs ts rs → Redirs (.redir r :: .word w :: ts) ((r, w) :: rs)

/-- `(word redir*)*`, with the words and the redirections. -/
inductive Args : List Token → List (List UInt8) → List (Redirect × List UInt8) → Prop
  | nil : Args [] [] []
  | cons {w ts rs ts' ws rs'} : Redirs ts rs → Args ts' ws rs' →
      Args (.word w :: ts ++ ts') (w :: ws) (rs ++ rs')

/-- `n` times `&` behind a command. -/
def backs (t : Tree) : Nat → Tree
  | 0 => t
  | n + 1 => backs (.back t) n

mutual

inductive Line : List Token → Tree → Prop
  | last {ts t} (n : Nat) : Pipe ts t → Line (ts ++ List.replicate n .amp) (backs t n)
  | semi {ts t us u} (n : Nat) : Pipe ts t → Line us u →
      Line (ts ++ List.replicate n .amp ++ .semi :: us) (.list (backs t n) u)

inductive Pipe : List Token → Tree → Prop
  | one {ts t} : Exec ts t → Pipe ts t
  | bar {ts t us u} : Exec ts t → Pipe us u → Pipe (ts ++ .bar :: us) (.pipe t u)

inductive Exec : List Token → Tree → Prop
  | block {ts t us rs} : Line ts t → Redirs us rs →
      Exec (.lpar :: ts ++ .rpar :: us) (wrap t rs)
  | simple {ts rs us ws rs'} : Redirs ts rs → Args us ws rs' → ws.length < maxArgs →
      Exec (ts ++ us) (wrap (.exec ws) (rs ++ rs'))

end

/-! ## The tokens of a suffix -/

@[simp] lemma lex_nil : lex [] = [] := by
  rw [lex]

lemma lex_space {c : UInt8} {cs : List UInt8} (h : c ∈ whitespace) : lex (c :: cs) = lex cs := by
  simp only [whitespace, List.mem_cons, List.not_mem_nil, or_false] at h
  rcases h with rfl | rfl | rfl | rfl | rfl <;> simp [lex, whitespace]

/-- White space in front of a token does not count. -/
lemma lex_dropWhile (cs : List UInt8) : lex (cs.dropWhile fun c => c ∈ whitespace) = lex cs := by
  induction cs with
  | nil => rfl
  | cons c cs ih =>
    rw [List.dropWhile_cons]
    split
    next h => rw [ih, lex_space (by simpa using h)]
    next h => rfl

lemma lex_word {c : UInt8} {cs : List UInt8} (h : isWord c = true) :
    lex (c :: cs) = .word (c :: cs.takeWhile isWord) :: lex (cs.dropWhile isWord) := by
  simp only [isWord, whitespace, symbols, List.mem_cons, List.not_mem_nil, or_false, not_or,
    decide_eq_true_eq] at h
  rw [lex] <;> simp_all [whitespace]

/-- A line has at most as many tokens as bytes. -/
lemma length_lex (cs : List UInt8) : (lex cs).length ≤ cs.length := by
  fun_induction lex cs with
  | case1 => simp
  | case10 c cs _ _ _ _ _ _ _ _ _ ih => exact Nat.le_succ_of_le ih
  | case11 c cs _ _ _ _ _ _ _ _ _ ih =>
    have := (List.dropWhile_sublist isWord (l := cs)).length_le
    simp only [List.length_cons]
    omega
  | _ => simp only [List.length_cons]; omega

/-! ## Redirections around a tree -/

@[simp] lemma wrap_cons (t : Tree) (r : Redirect × List UInt8)
    (rs : List (Redirect × List UInt8)) :
    wrap t (r :: rs) = wrap (.redir t r.2 r.1.mode r.1.fd) rs := rfl

@[simp] lemma wrap_append (t : Tree) (rs rs' : List (Redirect × List UInt8)) :
    wrap t (rs ++ rs') = wrap (wrap t rs) rs' :=
  List.foldl_append

/-- A word read behind redirections goes to the command inside them. -/
lemma addArg_wrap (w : List UInt8) (rs : List (Redirect × List UInt8)) (t : Tree) :
    (wrap t rs).addArg w = wrap (t.addArg w) rs := by
  induction rs generalizing t with
  | nil => rfl
  | cons r rs ih => rw [wrap_cons, wrap_cons, ih, Cmd.addArg]

end Xv6.Shell
