import Xv6.Fs.Sysfile

/-!
# The shell's parser

`user/sh.c`, from `gettoken` to `nulterminate`. The line that is parsed is the list
of its bytes before the NUL, and a `char *` into it is a position: position
`line.length` is `es`, where the NUL stands. The cursor `*ps` that the functions
share is the state of the parser, and a panic of the shell stops it.

`parseline`, `parsepipe`, `parseexec` and `parseblock` call one another; they take a
bound on the depth of these calls, and so do the loops.
-/

namespace Xv6.Shell

/-! ## Command trees -/

/-- `struct cmd` and its five forms. `σ` is the type of a string: two pointers into
the line while it is parsed, the text itself later. -/
inductive Cmd (σ : Type) where
  | exec (argv : List σ)
  | redir (cmd : Cmd σ) (file : σ) (mode fd : Nat)
  | pipe (left right : Cmd σ)
  | list (left right : Cmd σ)
  | back (cmd : Cmd σ)
  deriving DecidableEq, Repr

namespace Cmd

variable {σ τ : Type}

/-- The same tree with other strings. -/
def map (f : σ → τ) : Cmd σ → Cmd τ
  | exec argv => exec (argv.map f)
  | redir cmd file mode fd => redir (cmd.map f) (f file) mode fd
  | pipe left right => pipe (left.map f) (right.map f)
  | list left right => list (left.map f) (right.map f)
  | back cmd => back (cmd.map f)

/-- Every string of the tree. -/
def strings : Cmd σ → List σ
  | exec argv => argv
  | redir cmd file _ _ => cmd.strings ++ [file]
  | pipe left right => left.strings ++ right.strings
  | list left right => left.strings ++ right.strings
  | back cmd => cmd.strings

/-- `cmd->argv[argc] = q; cmd->eargv[argc] = eq` of `parseexec`. There `cmd` is the
exec node and `ret` the same node with the redirections read so far around it. -/
def addArg (arg : σ) : Cmd σ → Cmd σ
  | exec argv => exec (argv ++ [arg])
  | redir cmd file mode fd => redir (cmd.addArg arg) file mode fd
  | cmd => cmd

end Cmd

/-- The pointers `q` and `eq` of a token. -/
structure Span where
  q : Nat
  eq : Nat
  deriving DecidableEq, Repr

/-! ## Tokens -/

/-- `" \t\r\n\v"` -/
def whitespace : List UInt8 := [32, 9, 13, 10, 11]

/-- `"<|>&;()"` -/
def symbols : List UInt8 := [60, 124, 62, 38, 59, 40, 41]

/-- `MAXARGS` -/
def maxArgs : Nat := 10

/-- What `gettoken` returns: `0`, the character of a symbol, `'+'` for `>>` and `'a'`
for a word. -/
inductive Tok where
  | eof
  | bar
  | lpar
  | rpar
  | semi
  | amp
  | lt
  | gt
  | plus
  | word
  deriving DecidableEq, Repr

/-- A byte of a word. -/
def isWord (c : UInt8) : Bool := c ∉ whitespace ∧ c ∉ symbols

section Cursor

variable (line : List UInt8)

/-- `*s` -/
def charAt (s : Nat) : UInt8 := line.getD s 0

/-- `while(s < es && strchr(whitespace, *s)) s++` -/
def skip (s : Nat) : Nat := s + ((line.drop s).takeWhile fun c => c ∈ whitespace).length

/-- `while(s < es && !strchr(whitespace, *s) && !strchr(symbols, *s)) s++` -/
def skipWord (s : Nat) : Nat := s + ((line.drop s).takeWhile isWord).length

/-- The `switch` of `gettoken`: the kind of the token at `s` and where it ends. -/
def classify (s : Nat) : Tok × Nat :=
  match charAt line s with
  | 0 => (.eof, s)
  | 124 => (.bar, s + 1)
  | 40 => (.lpar, s + 1)
  | 41 => (.rpar, s + 1)
  | 59 => (.semi, s + 1)
  | 38 => (.amp, s + 1)
  | 60 => (.lt, s + 1)
  | 62 => if charAt line (s + 1) = 62 then (.plus, s + 2) else (.gt, s + 1)
  | _ => (.word, skipWord line s)

end Cursor

/-- How the parser stops early. -/
inductive Err where
  /-- `panic` of the shell -/
  | panic (msg : String)
  /-- the bound on the depth of the calls was too small -/
  | fuel
  deriving DecidableEq, Repr

abbrev ParseM := StateT Nat (Except Err)

section Parser

variable (line : List UInt8)

def gettoken : ParseM (Tok × Span) := fun ps =>
  let s := skip line ps
  let r := classify line s
  .ok ((r.1, ⟨s, r.2⟩), skip line r.2)

def peek (toks : List UInt8) : ParseM Bool := fun ps =>
  let s := skip line ps
  .ok (charAt line s ≠ 0 ∧ charAt line s ∈ toks, s)

/-- `redircmd` as `parseredirs` calls it for each of the three symbols. -/
def redircmd (cmd : Cmd Span) (file : Span) : Tok → Cmd Span
  | .lt => .redir cmd file 0 0
  | .gt => .redir cmd file (Fs.oWronly ||| Fs.oCreate ||| Fs.oTrunc) 1
  | .plus => .redir cmd file (Fs.oWronly ||| Fs.oCreate) 1
  | _ => cmd

def parseredirs (cmd : Cmd Span) : Nat → ParseM (Cmd Span)
  | 0 => throw .fuel
  | k + 1 => do
    -- "<>"
    if ← peek line [60, 62] then
      let (tok, _) ← gettoken line
      let (tok', file) ← gettoken line
      if tok' ≠ .word then throw (.panic "missing file for redirection")
      else parseredirs (redircmd cmd file tok) k
    else pure cmd

/-- The `while` loop of `parseexec`. -/
def parseargs (argc : Nat) (ret : Cmd Span) : Nat → ParseM (Cmd Span)
  | 0 => throw .fuel
  | k + 1 => do
    -- "|)&;"
    if ← peek line [124, 41, 38, 59] then pure ret
    else
      let (tok, arg) ← gettoken line
      if tok = .eof then pure ret
      else if tok ≠ .word then throw (.panic "syntax")
      else if argc + 1 ≥ maxArgs then throw (.panic "too many args")
      else
        let ret ← parseredirs line (ret.addArg arg) k
        parseargs (argc + 1) ret k

/-- The `while` loop of `parseline`. -/
def parseback (cmd : Cmd Span) : Nat → ParseM (Cmd Span)
  | 0 => throw .fuel
  | k + 1 => do
    -- "&"
    if ← peek line [38] then
      let _ ← gettoken line
      parseback (.back cmd) k
    else pure cmd

mutual

def parseline : Nat → ParseM (Cmd Span)
  | 0 => throw .fuel
  | k + 1 => do
    let cmd ← parsepipe k
    let cmd ← parseback line cmd k
    -- ";"
    if ← peek line [59] then
      let _ ← gettoken line
      let right ← parseline k
      pure (.list cmd right)
    else pure cmd

def parsepipe : Nat → ParseM (Cmd Span)
  | 0 => throw .fuel
  | k + 1 => do
    let cmd ← parseexec k
    -- "|"
    if ← peek line [124] then
      let _ ← gettoken line
      let right ← parsepipe k
      pure (.pipe cmd right)
    else pure cmd

def parseexec : Nat → ParseM (Cmd Span)
  | 0 => throw .fuel
  | k + 1 => do
    -- "("
    if ← peek line [40] then parseblock k
    else
      let ret ← parseredirs line (.exec []) k
      parseargs line 0 ret k

def parseblock : Nat → ParseM (Cmd Span)
  | 0 => throw .fuel
  | k + 1 => do
    -- "("
    if ← peek line [40] then
      let _ ← gettoken line
      let cmd ← parseline k
      -- ")"
      if ← peek line [41] then
        let _ ← gettoken line
        parseredirs line cmd k
      else throw (.panic "syntax - missing )")
    else throw (.panic "parseblock")

end

end Parser

/-! ## The strings of the tree -/

/-- The `for` loop of `nulterminate` and the store after a redirection: a NUL at the
end of each string. -/
def nulterminate : Cmd Span → List UInt8 → List UInt8
  | .exec argv, buf => argv.foldl (fun buf arg => buf.set arg.eq 0) buf
  | .redir cmd file _ _, buf => (nulterminate cmd buf).set file.eq 0
  | .pipe left right, buf => nulterminate right (nulterminate left buf)
  | .list left right, buf => nulterminate right (nulterminate left buf)
  | .back cmd, buf => nulterminate cmd buf

/-- The C string at a position of the buffer. -/
def cstring (buf : List UInt8) (s : Nat) : List UInt8 := (buf.drop s).takeWhile fun c => c ≠ 0

/-- How deep the calls go on a line of this length. -/
def depth (line : List UInt8) : Nat := 4 * line.length + 4

/-- `parsecmd` on the line: the tree, and the line's buffer after `nulterminate`. -/
def parsecmd (line : List UInt8) : Except Err (Cmd Span × List UInt8) := do
  let (cmd, s) ← parseline line (depth line) 0
  let (_, s) ← peek line [] s
  -- "leftovers: %s\n"
  if s ≠ line.length then throw (.panic "syntax")
  else pure (cmd, nulterminate cmd (line ++ [0]))

end Xv6.Shell
