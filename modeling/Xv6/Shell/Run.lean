import Xv6.Shell.Grammar

/-!
# The descriptors of a command

`runcmd` of `user/sh.c` walks down a command tree. On the way it closes, opens and
duplicates descriptors, and forks where both children of a node have to run. What
matters for the command that is executed at the end is which file each descriptor
stands for. A file is named by the node of the tree whose `open` or `pipe` made it;
no node is run twice, so the name is good.

`runcmd` here gives every call of `exec` in the process that runs it and in the
children it forks, with the descriptors of the calling process. `fork`, `pipe` and
`open` succeed, except that there may be no free descriptor.
-/

namespace Xv6.Shell

open List

/-! ## Nodes and files -/

/-- From a node of a tree to one of its children. -/
inductive Step where
  | cmd
  | left
  | right
  deriving DecidableEq, Repr

/-- A node, by the path that leads to it from the root. -/
abbrev Node := List Step

/-- An open file. -/
inductive File where
  /-- a file of the shell itself -/
  | shell (fd : Nat)
  /-- the file that a redirection opened -/
  | opened (node : Node)
  /-- the read end of a node's pipe -/
  | readEnd (node : Node)
  /-- the write end of a node's pipe -/
  | writeEnd (node : Node)
  deriving DecidableEq, Repr

/-- `p->ofile`, with `NOFILE` slots. -/
abbrev Fds := List (Option File)

/-! ## System calls -/

/-- `fdalloc`: the lowest free slot. -/
def fdalloc (f : File) (fds : Fds) : Option (Nat × Fds) :=
  match fds.findIdx? fun slot => slot.isNone with
  | none => none
  | some fd => some (fd, fds.set fd (some f))

/-- `sys_close`, which does nothing for a descriptor that is not open. -/
def sysClose (fd : Nat) (fds : Fds) : Fds := fds.set fd none

/-- `sys_dup`. `runcmd` does not look at the descriptor it returns. -/
def sysDup (fd : Nat) (fds : Fds) : Fds :=
  match fds.getD fd none with
  | none => fds
  | some f =>
    match fdalloc f fds with
    | none => fds
    | some (_, fds') => fds'

/-- `sys_open` of the file of a redirection. -/
def sysOpen (node : Node) (fds : Fds) : Option (Nat × Fds) := fdalloc (.opened node) fds

/-- `sys_pipe`: the descriptors of the read end and of the write end. -/
def sysPipe (node : Node) (fds : Fds) : Option (Nat × Nat × Fds) := do
  let (fd0, fds) ← fdalloc (.readEnd node) fds
  let (fd1, fds) ← fdalloc (.writeEnd node) fds
  pure (fd0, fd1, fds)

/-! ## `runcmd` -/

/-- A call of `exec`: the node it is made for, its arguments and what the descriptors of
the process are. -/
structure Call where
  node : Node
  argv : List (List UInt8)
  fds : Fds
  deriving DecidableEq, Repr

/-- What a child of a pipe does before its `runcmd`: `close(fd); dup(p); close(p[0]);
close(p[1])`. -/
def plug (fd p p0 p1 : Nat) (fds : Fds) : Fds :=
  sysClose p1 (sysClose p0 (sysDup p (sysClose fd fds)))

/-- The calls of `exec` that `runcmd` makes, here and in the children it forks. -/
def runcmd : Tree → Node → Fds → List Call
  | .exec argv, node, fds =>
    -- `if(ecmd->argv[0] == 0) exit(1)`
    if argv = [] then [] else [⟨node, argv, fds⟩]
  | .redir cmd _ _ fd, node, fds =>
    match sysOpen node (sysClose fd fds) with
    | none => []
    | some (_, fds) => runcmd cmd (node ++ [.cmd]) fds
  | .list left right, node, fds =>
    runcmd left (node ++ [.left]) fds ++ runcmd right (node ++ [.right]) fds
  | .pipe left right, node, fds =>
    match sysPipe node fds with
    | none => []
    | some (p0, p1, fds) =>
      runcmd left (node ++ [.left]) (plug 1 p1 p0 p1 fds) ++
        runcmd right (node ++ [.right]) (plug 0 p0 p0 p1 fds)
  | .back cmd, node, fds => runcmd cmd (node ++ [.cmd]) fds

/-- Exactly the descriptors 0, 1 and 2 are open. -/
def std (f₀ f₁ f₂ : File) : Fds := [some f₀, some f₁, some f₂] ++ replicate (nofile - 3) none

/-- The descriptors of the child that the shell forks for a line. -/
def shellFds : Fds := std (.shell 0) (.shell 1) (.shell 2)

/-! ## What a redirection is for -/

/-- A child of a node. -/
def child : Tree → Step → Option Tree
  | .redir cmd _ _ _, .cmd => some cmd
  | .back cmd, .cmd => some cmd
  | .pipe left _, .left => some left
  | .pipe _ right, .right => some right
  | .list left _, .left => some left
  | .list _ right, .right => some right
  | _, _ => none

/-- The subtree at the end of a path. -/
def sub : Tree → List Step → Option Tree
  | t, [] => some t
  | t, s :: p => (child t s).bind fun t' => sub t' p

/-- The file that a node puts on a descriptor on the way to one of its children. -/
def redirect (fd : Nat) (node : Node) : Tree → Step → Option File
  | .redir _ _ _ fd', .cmd => if fd = fd' then some (.opened node) else none
  | .pipe _ _, .left => if fd = 1 then some (.writeEnd node) else none
  | .pipe _ _, .right => if fd = 0 then some (.readEnd node) else none
  | _, _ => none

/-- The files that the nodes of a path put on a descriptor, outermost first. -/
def redirects (fd : Nat) : Node → Tree → List Step → List File
  | _, _, [] => []
  | node, t, s :: p =>
    (redirect fd node t s).toList ++
      ((child t s).elim [] fun t' => redirects fd (node ++ [s]) t' p)

/-- The file of a descriptor at the end of a path: that of the innermost node that
redirects it, and the one the walk started with if there is none. -/
def wired (fd : Nat) (node : Node) (t : Tree) (p : List Step) (f : File) : File :=
  (redirects fd node t p).getLast?.getD f

/-- The redirections are of input or output, as those of the parser are. -/
def InOut : Tree → Prop
  | .exec _ => True
  | .redir cmd _ _ fd => (fd = 0 ∨ fd = 1) ∧ InOut cmd
  | .pipe left right => InOut left ∧ InOut right
  | .list left right => InOut left ∧ InOut right
  | .back cmd => InOut cmd

/-! ## The trees of the parser -/

lemma inOut_wrap {t : Tree} (h : InOut t) (rs : List (Redirect × List UInt8)) : InOut (wrap t rs) := by
  induction rs generalizing t with
  | nil => exact h
  | cons r rs ih =>
    refine ih ⟨?_, h⟩
    cases r.1 <;> simp [Redirect.fd]

lemma inOut_backs {t : Tree} (h : InOut t) (n : Nat) : InOut (backs t n) := by
  induction n generalizing t with
  | zero => exact h
  | succ n ih => exact ih h

mutual

/-- The grammar has redirections of input and output only. -/
theorem Line.inOut {ts : List Token} {t : Tree} : Line ts t → InOut t
  | .last n hpipe => inOut_backs hpipe.inOut n
  | .semi n hpipe hline => ⟨inOut_backs hpipe.inOut n, hline.inOut⟩

theorem Pipe.inOut {ts : List Token} {t : Tree} : Pipe ts t → InOut t
  | .one hexec => hexec.inOut
  | .bar hexec hpipe => ⟨hexec.inOut, hpipe.inOut⟩

theorem Exec.inOut {ts : List Token} {t : Tree} : Exec ts t → InOut t
  | .block hline _ => inOut_wrap hline.inOut _
  | .simple _ _ _ => inOut_wrap (t := .exec _) trivial _

end

/-! ## One node -/

section Node

variable (f₀ f₁ f₂ : File) (node : Node)

/-- The lowest free descriptor is the one that was just closed. -/
lemma sysOpen_zero : sysOpen node (sysClose 0 (std f₀ f₁ f₂)) =
    some (0, std (.opened node) f₁ f₂) := rfl

lemma sysOpen_one : sysOpen node (sysClose 1 (std f₀ f₁ f₂)) =
    some (1, std f₀ (.opened node) f₂) := rfl

lemma sysPipe_std : ∃ fds, sysPipe node (std f₀ f₁ f₂) = some (3, 4, fds) ∧
    plug 1 4 3 4 fds = std f₀ (.writeEnd node) f₂ ∧
    plug 0 3 3 4 fds = std (.readEnd node) f₁ f₂ :=
  ⟨_, rfl, rfl, rfl⟩

end Node

/-- The first step of a path, with what its node redirects. -/
lemma wired_cons {fd : Nat} {node : Node} {t t' : Tree} {s : Step} {p : List Step} {f : File}
    (h : child t s = some t') :
    wired fd node t (s :: p) f =
      wired fd (node ++ [s]) t' p ((redirect fd node t s).getD f) := by
  simp only [wired, redirects, h, Option.elim_some]
  cases redirect fd node t s with
  | none => rfl
  | some g =>
    rw [Option.toList_some, singleton_append, getLast?_cons]
    rfl

/-! ## Every call -/

/-- The call of an exec node at the end of a path, with the files it should have. -/
def Calls (t : Tree) (node : Node) (f₀ f₁ f₂ : File) (call : Call) : Prop :=
  ∃ p argv, sub t p = some (.exec argv) ∧ argv ≠ [] ∧
    call = ⟨node ++ p, argv, std (wired 0 node t p f₀) (wired 1 node t p f₁) f₂⟩

section Calls

variable {node : Node} {f₀ f₁ f₂ : File} {call : Call}

lemma calls_exec {argv : List (List UInt8)} :
    Calls (.exec argv) node f₀ f₁ f₂ call ↔ argv ≠ [] ∧ call = ⟨node, argv, std f₀ f₁ f₂⟩ := by
  constructor
  · rintro ⟨p, argv', hsub, hne, rfl⟩
    cases p with
    | nil =>
      cases hsub
      exact ⟨hne, by rw [append_nil]; rfl⟩
    | cons s p => simp [sub, child] at hsub
  · rintro ⟨hne, rfl⟩
    exact ⟨[], argv, rfl, hne, by rw [append_nil]; rfl⟩

/-- The calls below an inner node are those below its children. -/
lemma calls_child {t : Tree} (h : ∀ argv, t ≠ .exec argv) :
    Calls t node f₀ f₁ f₂ call ↔ ∃ s t', child t s = some t' ∧
      Calls t' (node ++ [s]) ((redirect 0 node t s).getD f₀) ((redirect 1 node t s).getD f₁) f₂
        call := by
  constructor
  · rintro ⟨p, argv, hsub, hne, rfl⟩
    cases p with
    | nil => exact absurd (Option.some.inj hsub) (h argv)
    | cons s p =>
      obtain ⟨t', hchild, hsub'⟩ := Option.bind_eq_some_iff.1 hsub
      refine ⟨s, t', hchild, p, argv, hsub', hne, ?_⟩
      rw [wired_cons hchild, wired_cons hchild, append_cons]
  · rintro ⟨s, t', hchild, p, argv, hsub, hne, rfl⟩
    refine ⟨s :: p, argv, Option.bind_eq_some_iff.2 ⟨t', hchild, hsub⟩, hne, ?_⟩
    rw [wired_cons hchild, wired_cons hchild, append_assoc, singleton_append]

lemma calls_one {t t' : Tree} (h : ∀ argv, t ≠ .exec argv) (hcmd : child t .cmd = some t')
    (hleft : child t .left = none) (hright : child t .right = none) :
    Calls t node f₀ f₁ f₂ call ↔ Calls t' (node ++ [.cmd]) ((redirect 0 node t .cmd).getD f₀)
      ((redirect 1 node t .cmd).getD f₁) f₂ call := by
  rw [calls_child h]
  constructor
  · rintro ⟨s, u, hchild, hcalls⟩
    cases s <;> simp_all
  · exact fun hcalls => ⟨.cmd, t', hcmd, hcalls⟩

lemma calls_two {t t₁ t₂ : Tree} (h : ∀ argv, t ≠ .exec argv) (hcmd : child t .cmd = none)
    (hleft : child t .left = some t₁) (hright : child t .right = some t₂) :
    Calls t node f₀ f₁ f₂ call ↔
      Calls t₁ (node ++ [.left]) ((redirect 0 node t .left).getD f₀)
        ((redirect 1 node t .left).getD f₁) f₂ call ∨
      Calls t₂ (node ++ [.right]) ((redirect 0 node t .right).getD f₀)
        ((redirect 1 node t .right).getD f₁) f₂ call := by
  rw [calls_child h]
  constructor
  · rintro ⟨s, u, hchild, hcalls⟩
    cases s <;> simp_all
  · rintro (hcalls | hcalls)
    · exact ⟨.left, t₁, hleft, hcalls⟩
    · exact ⟨.right, t₂, hright, hcalls⟩

end Calls

/-- `runcmd` makes these calls of `exec` and no other. -/
lemma mem_runcmd {t : Tree} (h : InOut t) {node : Node} {f₀ f₁ f₂ : File} {call : Call} :
    call ∈ runcmd t node (std f₀ f₁ f₂) ↔ Calls t node f₀ f₁ f₂ call := by
  induction t generalizing node f₀ f₁ f₂ with
  | exec argv =>
    rw [calls_exec, runcmd]
    split
    next hnil => simp [hnil]
    next hnil => simp [hnil]
  | redir cmd file mode fd ih =>
    rw [calls_one (by simp) rfl rfl rfl, runcmd]
    rcases h with ⟨rfl | rfl, hcmd⟩
    · rw [sysOpen_zero]
      exact ih hcmd
    · rw [sysOpen_one]
      exact ih hcmd
  | pipe left right ihl ihr =>
    obtain ⟨fds, hpipe, hleft, hright⟩ := sysPipe_std f₀ f₁ f₂ node
    rw [calls_two (by simp) rfl rfl rfl, runcmd, hpipe]
    dsimp only
    rw [mem_append, hleft, hright]
    exact or_congr (ihl h.1) (ihr h.2)
  | list left right ihl ihr =>
    rw [calls_two (by simp) rfl rfl rfl, runcmd, mem_append]
    exact or_congr (ihl h.1) (ihr h.2)
  | back cmd ih =>
    rw [calls_one (by simp) rfl rfl rfl, runcmd]
    exact ih h

/-! ## Pipelines -/

/-- A command with its redirections. -/
def Simple : Tree → Prop
  | .exec _ => True
  | .redir cmd _ _ _ => Simple cmd
  | _ => False

/-- `c | d | ...` -/
def pipeline (c : Tree) : List Tree → Tree
  | [] => c
  | d :: ds => .pipe c (pipeline d ds)

/-- Where the `i`-th command of a pipeline with `n + 1` commands stands. -/
def stage (n i : Nat) : Node := replicate i .right ++ if i < n then [.left] else []

/-- The file is the expected one, or one that the command opens itself. -/
def OrOpened (f g : File) : Prop := g = f ∨ ∃ node, g = .opened node

lemma OrOpened.readEnd {f : File} {m : Node} (h : OrOpened f (.readEnd m)) : f = .readEnd m := by
  rcases h with h | ⟨_, h⟩
  · exact h.symm
  · cases h

lemma OrOpened.writeEnd {f : File} {m : Node} (h : OrOpened f (.writeEnd m)) :
    f = .writeEnd m := by
  rcases h with h | ⟨_, h⟩
  · exact h.symm
  · cases h

/-- A call below a node, with files that may have been redirected. -/
structure Below (node : Node) (f₀ f₁ f₂ : File) (call : Call) : Prop where
  node : node <+: call.node
  fds : ∃ g₀ g₁, OrOpened f₀ g₀ ∧ OrOpened f₁ g₁ ∧ call.fds = std g₀ g₁ f₂

/-- A redirection keeps the file or opens one. -/
lemma OrOpened.of_redirect {fd fd' : Nat} {node : Node} {cmd : Tree} {file : List UInt8}
    {mode : Nat} {f g : File}
    (h : OrOpened ((redirect fd node (.redir cmd file mode fd') .cmd).getD f) g) : OrOpened f g := by
  simp only [redirect] at h
  split at h
  next =>
    rcases h with rfl | h
    · exact .inr ⟨node, rfl⟩
    · exact .inr h
  next => exact h

lemma Simple.below {t : Tree} (h : Simple t) {node : Node} {f₀ f₁ f₂ : File} {call : Call}
    (hcall : Calls t node f₀ f₁ f₂ call) : Below node f₀ f₁ f₂ call := by
  induction t generalizing node f₀ f₁ with
  | exec argv =>
    obtain ⟨-, rfl⟩ := calls_exec.1 hcall
    exact ⟨prefix_rfl, f₀, f₁, .inl rfl, .inl rfl, rfl⟩
  | redir cmd file mode fd ih =>
    obtain ⟨hnode, g₀, g₁, h₀, h₁, hfds⟩ := ih h ((calls_one (by simp) rfl rfl rfl).1 hcall)
    exact ⟨(prefix_append node _).trans hnode, g₀, g₁, h₀.of_redirect, h₁.of_redirect, hfds⟩
  | pipe left right _ _ | list left right _ _ | back cmd _ => exact h.elim

/-- What the `i`-th command of a pipeline reads from. -/
def source (node : Node) (f₀ : File) : Nat → File
  | 0 => f₀
  | i + 1 => .readEnd (node ++ replicate i .right)

/-- What the `i`-th of `n + 1` commands writes to. -/
def sink (node : Node) (f₁ : File) (n i : Nat) : File :=
  if i < n then .writeEnd (node ++ replicate i .right) else f₁

lemma stage_succ (node : Node) (n i : Nat) :
    node ++ stage (n + 1) (i + 1) = node ++ [.right] ++ stage n i := by
  simp [stage, replicate_succ]

lemma source_succ (node : Node) (f₀ : File) (i : Nat) :
    source node f₀ (i + 1) = source (node ++ [.right]) (.readEnd node) i := by
  cases i with
  | zero => simp [source]
  | succ i => simp [source, replicate_succ]

lemma sink_succ (node : Node) (f₁ : File) (n i : Nat) :
    sink node f₁ (n + 1) (i + 1) = sink (node ++ [.right]) f₁ n i := by
  simp [sink, replicate_succ]

/-- Each command of a pipeline has the ends of the pipes next to it. -/
lemma pipeline_below {c : Tree} {ds : List Tree} (h : ∀ d ∈ c :: ds, Simple d) {node : Node}
    {f₀ f₁ f₂ : File} {call : Call} (hcall : Calls (pipeline c ds) node f₀ f₁ f₂ call) :
    ∃ i ≤ ds.length, Below (node ++ stage ds.length i) (source node f₀ i)
      (sink node f₁ ds.length i) f₂ call := by
  induction ds generalizing c node f₀ with
  | nil =>
    refine ⟨0, Nat.le_refl 0, ?_⟩
    have hnode : node ++ stage ([] : List Tree).length 0 = node := append_nil node
    rw [hnode]
    exact (h c mem_cons_self).below hcall
  | cons d ds ih =>
    rcases (calls_two (by simp [pipeline]) rfl rfl rfl).1 hcall with hleft | hright
    · refine ⟨0, Nat.zero_le _, ?_⟩
      have hsink : sink node f₁ (d :: ds).length 0 = .writeEnd node := by
        simp [sink]
      rw [hsink]
      exact (h c mem_cons_self).below hleft
    · obtain ⟨i, hi, hbelow⟩ := ih (fun e he => h e (mem_cons_of_mem c he)) hright
      refine ⟨i + 1, Nat.succ_le_succ hi, ?_⟩
      rw [length_cons, stage_succ, source_succ, sink_succ]
      exact hbelow

lemma inOut_pipeline {c : Tree} {ds : List Tree} (h : ∀ d ∈ c :: ds, InOut d) :
    InOut (pipeline c ds) := by
  induction ds generalizing c with
  | nil => exact h c mem_cons_self
  | cons d ds ih =>
    exact ⟨h c mem_cons_self, ih fun e he => h e (mem_cons_of_mem c he)⟩

lemma mem_std {f g₀ g₁ g₂ : File} : some f ∈ std g₀ g₁ g₂ ↔ f = g₀ ∨ f = g₁ ∨ f = g₂ := by
  simp [std]

/-- Who holds an end of a pipe of a pipeline. -/
lemma pipe_holders {c : Tree} {ds : List Tree} (h : ∀ d ∈ c :: ds, Simple d ∧ InOut d) {call : Call}
    (hcall : call ∈ runcmd (pipeline c ds) [] shellFds) (m : Node) :
    (some (.writeEnd m) ∈ call.fds →
      ∃ i < ds.length, m = replicate i .right ∧ stage ds.length i <+: call.node) ∧
    (some (.readEnd m) ∈ call.fds →
      ∃ i < ds.length, m = replicate i .right ∧ stage ds.length (i + 1) <+: call.node) := by
  have hcalls := (mem_runcmd (inOut_pipeline fun d hd => (h d hd).2)).1 hcall
  obtain ⟨i, hi, hnode, g₀, g₁, h₀, h₁, hfds⟩ := pipeline_below (fun d hd => (h d hd).1) hcalls
  rw [nil_append] at hnode
  rw [hfds, mem_std, mem_std]
  constructor
  · rintro (rfl | rfl | hm)
    · have hsrc := h₀.writeEnd
      cases i <;> cases hsrc
    · have hsink := h₁.writeEnd
      simp only [sink, nil_append] at hsink
      split at hsink
      next hlt => exact ⟨i, hlt, (File.writeEnd.inj hsink).symm, hnode⟩
      next => cases hsink
    · cases hm
  · rintro (rfl | rfl | hm)
    · have hsrc := h₀.readEnd
      cases i with
      | zero => cases hsrc
      | succ i => exact ⟨i, hi, (File.readEnd.inj hsrc).symm, hnode⟩
    · have hsink := h₁.readEnd
      simp only [sink] at hsink
      split at hsink <;> cases hsink
    · cases hm

/-- Every exec node that has a command makes one call, with the descriptors 0, 1 and 2
and no others; a node without a command makes none. In a pipeline only the two
commands next to a pipe hold its ends. -/
theorem runcmd_wiring :
    (∀ t, InOut t → ∀ node argv fds, (⟨node, argv, fds⟩ : Call) ∈ runcmd t [] shellFds ↔
      sub t node = some (.exec argv) ∧ argv ≠ [] ∧
      fds = std (wired 0 [] t node (.shell 0)) (wired 1 [] t node (.shell 1)) (.shell 2)) ∧
    (∀ c ds, (∀ d ∈ c :: ds, Simple d ∧ InOut d) →
      ∀ call ∈ runcmd (pipeline c ds) [] shellFds, ∀ m,
        (some (.writeEnd m) ∈ call.fds →
          ∃ i < ds.length, m = replicate i .right ∧ stage ds.length i <+: call.node) ∧
        (some (.readEnd m) ∈ call.fds →
          ∃ i < ds.length, m = replicate i .right ∧ stage ds.length (i + 1) <+: call.node)) := by
  refine ⟨fun t ht node argv fds => ?_, fun c ds h call hcall m => pipe_holders h hcall m⟩
  rw [shellFds, mem_runcmd ht]
  constructor
  · rintro ⟨p, argv', hsub, hne, hcall⟩
    cases hcall
    exact ⟨hsub, hne, rfl⟩
  · rintro ⟨hsub, hne, rfl⟩
    exact ⟨node, argv, hsub, hne, rfl⟩

/-- `a < f | b` -/
def twoStages : Tree := pipeline (.redir (.exec [[97]]) [102] 0 0) [.exec [[98]]]

theorem runcmd_wiring_twoStages :
    runcmd twoStages [] shellFds =
      [⟨[.left, .cmd], [[97]], std (.opened [.left]) (.writeEnd []) (.shell 2)⟩,
        ⟨[.right], [[98]], std (.readEnd []) (.shell 1) (.shell 2)⟩] ∧
    InOut twoStages ∧
    (⟨[.right], [[98]], std (.readEnd []) (.shell 1) (.shell 2)⟩ : Call) ∈
      runcmd twoStages [] shellFds := by
  have h : InOut twoStages := ⟨⟨.inl rfl, trivial⟩, trivial⟩
  exact ⟨rfl, h, (runcmd_wiring.1 twoStages h _ _ _).2 ⟨rfl, by simp, rfl⟩⟩

/-- A node without words is reached and makes no call. -/
theorem runcmd_blank : InOut (.exec []) ∧ sub (.exec []) [] = some (.exec []) ∧
    ¬ ∃ fds, (⟨[], [], fds⟩ : Call) ∈ runcmd (.exec []) [] shellFds :=
  ⟨trivial, rfl, fun ⟨_, h⟩ => not_mem_nil h⟩

end Xv6.Shell
