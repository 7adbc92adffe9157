import Hoststack.Commands
import Hoststack.Lib.Getopt

/-!
The command line of `hoststack`: which command it asks for, with which options, and what it takes
for a mistake.

A mistake in the options is met before anything is done, so what a command line asks for is a
value. What is printed besides the usage text is left out.
-/

namespace Hoststack.Cli

open Getopt Commands

/-- Whose usage text it is. -/
inductive Usage where
  | hoststack
  | container
  | run
  | ls
  | stop
  | start
  | attach
  | exec
  | rm
  deriving DecidableEq

/-- What a command line asks for. The usage text is printed before a process returns from `main`
or exits with a status; `exec` without a command has a text of its own in front of it. -/
inductive Invocation where
  | usage (text : Usage) (status : ℕ)
  | missCommand
  | run (detach : Bool) (args : RunArgs)
  | ls (all : Bool)
  | stop (names : List Str)
  | start (detach : Bool) (containerName : Str)
  | attach (containerName : Str)
  | exec (detach : Bool) (containerId : Str) (cmdArr : List Str)
  | rm (force : Bool) (containerArr : List Str)

/-- The environment variables that are looked at. -/
structure Environment where
  shell : Option Str
  posixlyCorrect : Bool

/-- The options in an option string and a table; a plus in front says that an operand ends them. -/
def options (env : Environment) (optstring : Str) (long : List LongOption) : Spec :=
  match optstring with
  | '+' :: short => ⟨true, short, long⟩
  | short => ⟨env.posixlyCorrect, short, long⟩

def isHelp (argv : List Str) : Bool := argv.length = 2 && argv[1]? = some "--help".toList

/-- The loop around `getopt_long`: at a word that is not understood the usage text is printed, and
the process exits. -/
def readOptions {α : Type} (text : Usage) (S : Spec) (f : α → Opt → α) (mopt : α)
    (argv : List Str) (k : α → List Str → Invocation) : Invocation :=
  match S.read f mopt argv.tail with
  | none => .usage text 1
  | some (mopt, operands) => k mopt operands

namespace ContainerRunCli

/-- `container_run_arg_t`, without the command, which the operands are. -/
structure RunOptions where
  detach : Bool
  name : Option Str
  volumeList : OrdSet Str

def spec (env : Environment) : Spec :=
  options env "+dv:n:".toList
    [⟨"detach".toList, false, 'd'⟩, ⟨"volume".toList, true, 'v'⟩, ⟨"name".toList, true, 'n'⟩]

def option (mopt : RunOptions) (o : Opt) : RunOptions :=
  match o.val, o.arg with
  | 'd', _ => { mopt with detach := true }
  | 'v', some arg => { mopt with volumeList := mopt.volumeList.insert arg }
  | 'n', some arg => { mopt with name := some arg }
  | _, _ => mopt

def defaultCmdArr (env : Environment) : List Str :=
  let shell :=
    match env.shell with
    | none | some [] => "/bin/bash".toList
    | some shell => shell
  [shell, "-l".toList]

def handleCommand (env : Environment) (argv : List Str) : Invocation :=
  if isHelp argv then .usage .run 0
  else
    readOptions .run (spec env) option ⟨false, none, ∅⟩ argv fun mopt operands =>
      .run mopt.detach
        { name := mopt.name
          cmdArr := if operands = [] then defaultCmdArr env else operands
          volumeList := mopt.volumeList }

end ContainerRunCli

namespace ContainerLsCli

def spec (env : Environment) : Spec := options env "a".toList [⟨"all".toList, false, 'a'⟩]

def option (all : Bool) (o : Opt) : Bool := if o.val = 'a' then true else all

def handleCommand (env : Environment) (argv : List Str) : Invocation :=
  if isHelp argv then .usage .ls 0
  else readOptions .ls (spec env) option false argv fun all _ => .ls all

end ContainerLsCli

namespace ContainerStopCli

def handleCommand (argv : List Str) : Invocation :=
  if argv.length < 2 then .usage .stop 0
  else if isHelp argv then .usage .stop 0
  else .stop argv.tail

end ContainerStopCli

namespace ContainerStartCli

def spec (env : Environment) : Spec := options env "+d".toList [⟨"detach".toList, false, 'd'⟩]

def option (detach : Bool) (o : Opt) : Bool := if o.val = 'd' then true else detach

def handleCommand (env : Environment) (argv : List Str) : Invocation :=
  if isHelp argv then .usage .start 0
  else
    readOptions .start (spec env) option false argv fun detach operands =>
      match operands with
      | [] => .usage .start 1
      | containerName :: _ => .start detach containerName

end ContainerStartCli

namespace ContainerAttachCli

def handleCommand (argv : List Str) : Invocation :=
  if argv.length < 2 then .usage .attach 0
  else if isHelp argv then .usage .attach 0
  else .attach (argv.getD 1 [])

end ContainerAttachCli

namespace ContainerExecCli

def spec (env : Environment) : Spec := options env "+d".toList [⟨"detach".toList, false, 'd'⟩]

def option (detach : Bool) (o : Opt) : Bool := if o.val = 'd' then true else detach

/-- Without operands `container_id` is the null pointer behind the arguments; nothing reads it. -/
def handleCommand (env : Environment) (argv : List Str) : Invocation :=
  if isHelp argv then .usage .exec 0
  else if argv.length < 3 then .missCommand
  else
    readOptions .exec (spec env) option false argv fun detach operands =>
      match operands with
      | containerId :: c :: cmdArr => .exec detach containerId (c :: cmdArr)
      | _ => .missCommand

end ContainerExecCli

namespace ContainerRMCli

def spec (env : Environment) : Spec := options env "+f".toList [⟨"force".toList, false, 'f'⟩]

def option (force : Bool) (o : Opt) : Bool := if o.val = 'f' then true else force

def handleCommand (env : Environment) (argv : List Str) : Invocation :=
  if argv.length < 2 then .usage .rm 0
  else if isHelp argv then .usage .rm 0
  else
    readOptions .rm (spec env) option false argv fun force operands =>
      match operands with
      | [] => .usage .rm 1
      | containerArr => .rm force containerArr

end ContainerRMCli

namespace ContainerCli

def handleCommand (env : Environment) (argv : List Str) : Invocation :=
  match argv.tail with
  | [] => .usage .container 1
  | action :: words =>
    if action = "run".toList then ContainerRunCli.handleCommand env (action :: words)
    else if action = "ls".toList then ContainerLsCli.handleCommand env (action :: words)
    else if action = "stop".toList then ContainerStopCli.handleCommand (action :: words)
    else if action = "start".toList then ContainerStartCli.handleCommand env (action :: words)
    else if action = "exec".toList then ContainerExecCli.handleCommand env (action :: words)
    else if action = "attach".toList then ContainerAttachCli.handleCommand (action :: words)
    else if action = "rm".toList then ContainerRMCli.handleCommand env (action :: words)
    else if action = "--help".toList then .usage .container 0
    else .usage .container 1

end ContainerCli

/-- What a process does: nothing without the rights to it, or the repository is created before
the command is looked at. -/
inductive Outcome where
  | denied
  | noTarget
  | created (invocation : Invocation)

/-- `main` of `hoststack` -/
def main (env : Environment) (euid : ℕ) (argv : List Str) : Outcome :=
  if euid ≠ 0 then .denied
  else
    match argv.tail with
    | [] => .noTarget
    | target :: words =>
      .created <|
        if target = "container".toList then ContainerCli.handleCommand env (target :: words)
        else if target = "run".toList then ContainerRunCli.handleCommand env (target :: words)
        else if target = "stop".toList then ContainerStopCli.handleCommand (target :: words)
        else if target = "start".toList then ContainerStartCli.handleCommand env (target :: words)
        else if target = "ps".toList then ContainerLsCli.handleCommand env (target :: words)
        else if target = "attach".toList then ContainerAttachCli.handleCommand (target :: words)
        else if target = "exec".toList then ContainerExecCli.handleCommand env (target :: words)
        else if target = "rm".toList then ContainerRMCli.handleCommand env (target :: words)
        else .usage .hoststack 0

/-! ### What the options of a command line mean -/

/-- The option is among those read. -/
def given (opts : List Opt) (val : Char) : Bool := opts.any fun o => o.val = val

/-- The arguments an option is given with, in order. -/
def argsOf (opts : List Opt) (val : Char) : List Str :=
  opts.filterMap fun o => if o.val = val then o.arg else none

lemma given_append (l m : List Opt) (val : Char) :
    given (l ++ m) val = (given l val || given m val) := List.any_append

lemma argsOf_append (l m : List Opt) (val : Char) :
    argsOf (l ++ m) val = argsOf l val ++ argsOf m val := List.filterMap_append

lemma argsOf_map (l : List Str) (val val' : Char) :
    argsOf (l.map fun arg => ⟨val, some arg⟩) val' = if val = val' then l else [] := by
  by_cases h : val = val' <;> simp [argsOf, List.filterMap_map, h]

/-- A command line means what its one reading means, and it is a mistake if it has none. -/
def Means (S : Spec) (text : Usage) (words : List Str) (invocation : Invocation)
    (meaning : List Opt → List Str → Prop) : Prop :=
  (∃ opts operands, Reads S [] words opts operands ∧
    (∀ opts' operands', Reads S [] words opts' operands' → opts' = opts ∧ operands' = operands) ∧
    meaning opts operands) ∨
    (¬∃ opts operands, Reads S [] words opts operands) ∧ invocation = .usage text 1

variable {env : Environment} {words : List Str} {opts : List Opt} {operands : List Str}

lemma readOptions_means {α : Type} (text : Usage) (S : Spec) (f : α → Opt → α) (mopt : α)
    (argv0 : Str) (words : List Str) (k : α → List Str → Invocation) :
    Means S text words (readOptions text S f mopt (argv0 :: words) k) fun opts operands =>
      readOptions text S f mopt (argv0 :: words) k = k (opts.foldl f mopt) operands := by
  unfold readOptions
  rw [List.tail_cons]
  rcases hread : S.read f mopt words with _ | ⟨m, operands⟩
  · refine Or.inr ⟨?_, rfl⟩
    rintro ⟨opts, operands, hreads⟩
    exact absurd (hread.symm.trans (read_of_reads hreads f mopt)) nofun
  · obtain ⟨opts, hreads, rfl⟩ := read_eq_some_iff.mp hread
    exact Or.inl ⟨opts, operands, hreads, fun _ _ h => reads_unique h hreads, rfl⟩

lemma Means.imp {S : Spec} {text : Usage} {i : Invocation} {P Q : List Opt → List Str → Prop}
    (h : Means S text words i P) (hpq : ∀ opts operands, P opts operands → Q opts operands) :
    Means S text words i Q := by
  rcases h with ⟨opts, operands, hreads, hunique, hp⟩ | h
  · exact Or.inl ⟨opts, operands, hreads, hunique, hpq _ _ hp⟩
  · exact Or.inr h

lemma foldl_flag (val : Char) (opts : List Opt) (b : Bool) :
    opts.foldl (fun b o => if o.val = val then true else b) b = (b || given opts val) := by
  induction opts generalizing b with
  | nil => simp [given]
  | cons o opts ih =>
    rw [List.foldl_cons, ih]
    by_cases h : o.val = val <;> simp [given, h]

lemma foldl_run (opts : List Opt) (mopt : ContainerRunCli.RunOptions) :
    opts.foldl ContainerRunCli.option mopt =
      { detach := mopt.detach || given opts 'd'
        name := (argsOf opts 'n').getLast?.or mopt.name
        volumeList := (argsOf opts 'v').foldl OrdSet.insert mopt.volumeList } := by
  induction opts generalizing mopt with
  | nil => simp [given, argsOf]
  | cons o opts ih =>
    obtain ⟨val, arg⟩ := o
    rw [List.foldl_cons, ih]
    by_cases hd : val = 'd'
    · subst hd
      simp [ContainerRunCli.option, given, argsOf]
    by_cases hv : val = 'v'
    · subst hv
      rcases arg with _ | arg <;> simp [ContainerRunCli.option, given, argsOf]
    by_cases hn : val = 'n'
    · subst hn
      rcases arg with _ | arg
      · simp [ContainerRunCli.option, given, argsOf]
      · simp [ContainerRunCli.option, given, argsOf, List.getLast?_cons]
    · simp [ContainerRunCli.option, given, argsOf, hd, hv, hn]

lemma not_isHelp {argv0 : Str} (hhelp : words ≠ ["--help".toList]) :
    isHelp (argv0 :: words) = false := by
  rcases words with _ | ⟨w, _ | ⟨w', words⟩⟩
  · rfl
  · have hne : w ≠ "--help".toList := fun h => hhelp (by rw [h])
    simpa [isHelp] using hne
  · simp [isHelp]

/-- **What a command line asks for** depends on the options read from it and on the operands
behind them only: a flag is on when it is given, however often and in whatever word, the last name
counts, and all volumes do. The letters and words of a command for the container are left alone. -/
theorem command_lines (env : Environment) (argv0 : Str) (hhelp : words ≠ ["--help".toList]) :
    Means (ContainerRunCli.spec env) .run words
      (ContainerRunCli.handleCommand env (argv0 :: words)) (fun opts operands =>
        ∃ args, ContainerRunCli.handleCommand env (argv0 :: words) = .run (given opts 'd') args ∧
          args.name = (argsOf opts 'n').getLast? ∧
          args.cmdArr =
            (if operands = [] then ContainerRunCli.defaultCmdArr env else operands) ∧
          ∀ volume, volume ∈ args.volumeList ↔ volume ∈ argsOf opts 'v') ∧
    Means (ContainerLsCli.spec env) .ls words
      (ContainerLsCli.handleCommand env (argv0 :: words)) (fun opts _ =>
        ContainerLsCli.handleCommand env (argv0 :: words) = .ls (given opts 'a')) ∧
    Means (ContainerStartCli.spec env) .start words
      (ContainerStartCli.handleCommand env (argv0 :: words)) (fun opts operands =>
        ContainerStartCli.handleCommand env (argv0 :: words) =
          (operands.head?.map (.start (given opts 'd'))).getD (.usage .start 1)) ∧
    (2 ≤ words.length → Means (ContainerExecCli.spec env) .exec words
      (ContainerExecCli.handleCommand env (argv0 :: words)) fun opts operands =>
        ContainerExecCli.handleCommand env (argv0 :: words) =
          if operands.length < 2 then .missCommand
          else .exec (given opts 'd') (operands.headD []) operands.tail) ∧
    (words ≠ [] → Means (ContainerRMCli.spec env) .rm words
      (ContainerRMCli.handleCommand env (argv0 :: words)) fun opts operands =>
        ContainerRMCli.handleCommand env (argv0 :: words) =
          if operands = [] then .usage .rm 1 else .rm (given opts 'f') operands) := by
  have hnot : isHelp (argv0 :: words) = false := not_isHelp hhelp
  refine ⟨?_, ?_, ?_, fun hlen => ?_, fun hne => ?_⟩
  · simp only [ContainerRunCli.handleCommand, hnot, Bool.false_eq_true, if_false]
    refine (readOptions_means ..).imp fun opts operands h => ?_
    rw [h, foldl_run]
    refine ⟨_, rfl, Option.or_none, rfl, fun volume => OrdSet.mem_foldl_insert.trans ?_⟩
    exact or_iff_left (List.not_mem_nil)
  · simp only [ContainerLsCli.handleCommand, hnot, Bool.false_eq_true, if_false]
    refine (readOptions_means ..).imp fun opts operands h => ?_
    rw [h, show opts.foldl ContainerLsCli.option false = given opts 'a' from
      (foldl_flag 'a' opts false).trans (Bool.false_or _)]
  · simp only [ContainerStartCli.handleCommand, hnot, Bool.false_eq_true, if_false]
    refine (readOptions_means ..).imp fun opts operands h => ?_
    rw [h, show opts.foldl ContainerStartCli.option false = given opts 'd' from
      (foldl_flag 'd' opts false).trans (Bool.false_or _)]
    cases operands <;> rfl
  · have hge : ¬(argv0 :: words).length < 3 := by
      rw [List.length_cons]
      omega
    simp only [ContainerExecCli.handleCommand, hnot, Bool.false_eq_true, if_false, if_neg hge]
    refine (readOptions_means ..).imp fun opts operands h => ?_
    rw [h, show opts.foldl ContainerExecCli.option false = given opts 'd' from
      (foldl_flag 'd' opts false).trans (Bool.false_or _)]
    rcases operands with _ | ⟨w, _ | ⟨w', operands⟩⟩ <;> simp
  · have hge : ¬(argv0 :: words).length < 2 := by
      have := List.length_pos_iff.mpr hne
      rw [List.length_cons]
      omega
    simp only [ContainerRMCli.handleCommand, hnot, Bool.false_eq_true, if_false, if_neg hge]
    refine (readOptions_means ..).imp fun opts operands h => ?_
    rw [h, show opts.foldl ContainerRMCli.option false = given opts 'f' from
      (foldl_flag 'f' opts false).trans (Bool.false_or _)]
    cases operands <;> simp

/-- Letters and an argument in one word, a name cut short, and a flag that is the command's own. -/
theorem command_lines_run :
    Means (ContainerRunCli.spec ⟨none, false⟩) .run
      ["-dv/a:/b".toList, "--vol=/c:/d".toList, "ls".toList, "-d".toList]
      (ContainerRunCli.handleCommand ⟨none, false⟩ ["run".toList, "-dv/a:/b".toList,
        "--vol=/c:/d".toList, "ls".toList, "-d".toList]) fun opts operands =>
        ∃ args, ContainerRunCli.handleCommand ⟨none, false⟩ ["run".toList, "-dv/a:/b".toList,
            "--vol=/c:/d".toList, "ls".toList, "-d".toList] = .run (given opts 'd') args ∧
          args.name = (argsOf opts 'n').getLast? ∧
          args.cmdArr = (if operands = [] then ContainerRunCli.defaultCmdArr ⟨none, false⟩
            else operands) ∧
          ∀ volume, volume ∈ args.volumeList ↔ volume ∈ argsOf opts 'v' :=
  (command_lines ⟨none, false⟩ "run".toList (by decide)).1

/-! ### What can be asked for -/

/-- There is a command line that asks for it. -/
def Invocation.Expressible : Invocation → Prop
  | .usage text status =>
    status = 0 ∨ status = 1 ∧ text ∈ [.container, .run, .ls, .start, .exec, .rm]
  | .missCommand | .ls _ | .start _ _ | .attach _ => True
  | .run _ args => args.cmdArr ≠ []
  | .stop names => names ≠ [] ∧ names ≠ ["--help".toList]
  | .exec _ _ cmdArr => cmdArr ≠ []
  | .rm _ containerArr => containerArr ≠ []

/-- A flag, where it is given. -/
def flag (b : Bool) (word : String) : List Str := if b then [word.toList] else []

/-- The words that say it; the options of `run` come first, in words that hold their arguments,
and two hyphens end the options. A second word keeps `attach` from taking a name for a question. -/
def Invocation.commandLine : Invocation → List Str
  | .usage .hoststack _ => ["--help".toList]
  | .usage .container 0 => ["container".toList, "--help".toList]
  | .usage .container _ => ["container".toList]
  | .usage .run 0 => ["run".toList, "--help".toList]
  | .usage .run _ => ["run".toList, "-?".toList]
  | .usage .ls 0 => ["ps".toList, "--help".toList]
  | .usage .ls _ => ["ps".toList, "-?".toList]
  | .usage .stop _ => ["stop".toList]
  | .usage .start 0 => ["start".toList, "--help".toList]
  | .usage .start _ => ["start".toList]
  | .usage .attach _ => ["attach".toList]
  | .usage .exec 0 => ["exec".toList, "--help".toList]
  | .usage .exec _ => ["exec".toList, "-?".toList, []]
  | .usage .rm 0 => ["rm".toList]
  | .usage .rm _ => ["rm".toList, "--".toList]
  | .missCommand => ["exec".toList]
  | .run detach args =>
    "run".toList :: (flag detach "-d" ++
      (args.volumeList.elems.map fun volume => "--volume=".toList ++ volume) ++
      (args.name.toList.map fun name => "--name=".toList ++ name) ++ "--".toList :: args.cmdArr)
  | .ls all => "ps".toList :: flag all "-a"
  | .stop names => "stop".toList :: names
  | .start detach containerName =>
    "start".toList :: (flag detach "-d" ++ ["--".toList, containerName])
  | .attach containerName => ["attach".toList, containerName, []]
  | .exec detach containerId cmdArr =>
    "exec".toList :: (flag detach "-d" ++ "--".toList :: containerId :: cmdArr)
  | .rm force containerArr => "rm".toList :: (flag force "-f" ++ "--".toList :: containerArr)

lemma reads_flag {S : Spec} (b : Bool) (c : Char) (word : String) (hword : word.toList = ['-', c])
    (hc : c ≠ '-') (harg : S.takesArg c = some false) (h : Reads S [] words opts operands) :
    Reads S [] (flag b word ++ words) ((if b then [⟨c, none⟩] else []) ++ opts) operands := by
  rcases b with _ | _
  · exact h
  · simp only [flag, if_true, hword]
    exact .cluster hc (.flag harg h)

lemma reads_long {S : Spec} (name : Word) (val : Char) (hname : '=' ∉ name)
    (ho : S.findLong name = some ⟨name, true, val⟩) (h : Reads S [] words opts operands)
    (l : List Str) :
    Reads S [] ((l.map fun arg => '-' :: '-' :: (name ++ '=' :: arg)) ++ words)
      ((l.map fun arg => ⟨val, some arg⟩) ++ opts) operands := by
  induction l with
  | nil => exact h
  | cons arg l ih => exact .longAttached hname ho rfl ih

lemma not_isHelp_of_mem {argv0 : Str} (h : "--".toList ∈ words) :
    isHelp (argv0 :: words) = false :=
  not_isHelp fun heq => absurd (heq ▸ h) (by decide)

lemma readOptions_of_reads {α : Type} {text : Usage} {S : Spec} {f : α → Opt → α} {mopt : α}
    {argv0 : Str} {k : α → List Str → Invocation} (h : Reads S [] words opts operands) :
    readOptions text S f mopt (argv0 :: words) k = k (opts.foldl f mopt) operands := by
  rw [readOptions, List.tail_cons, read_of_reads h]

lemma handle_run (argv0 : Str) (detach : Bool) {args : RunArgs} (hne : args.cmdArr ≠ []) :
    ContainerRunCli.handleCommand env (argv0 :: (flag detach "-d" ++
      (args.volumeList.elems.map fun volume => "--volume=".toList ++ volume) ++
      (args.name.toList.map fun name => "--name=".toList ++ name) ++ "--".toList :: args.cmdArr)) =
      .run detach args := by
  obtain ⟨name, cmdArr, volumeList⟩ := args
  simp only at hne ⊢
  have hvolume : ∀ arg, "--volume=".toList ++ arg = '-' :: '-' :: ("volume".toList ++ '=' :: arg) :=
    fun _ => rfl
  have hname : ∀ arg, "--name=".toList ++ arg = '-' :: '-' :: ("name".toList ++ '=' :: arg) :=
    fun _ => rfl
  simp only [hvolume, hname]
  have hend : Reads (ContainerRunCli.spec env) [] ("--".toList :: cmdArr) [] cmdArr :=
    .endOfOptions cmdArr
  have hreads := reads_flag detach 'd' "-d" rfl (by decide) rfl
    (reads_long "volume".toList 'v' (by decide) rfl
      (reads_long "name".toList 'n' (by decide) rfl hend name.toList) volumeList.elems)
  simp only [List.append_assoc]
  rw [ContainerRunCli.handleCommand, not_isHelp_of_mem (by simp), if_neg Bool.false_ne_true,
    readOptions_of_reads hreads, foldl_run, if_neg hne]
  have hset : volumeList.elems.foldl OrdSet.insert ∅ = volumeList := by
    ext volume
    exact OrdSet.mem_foldl_insert.trans (or_iff_left List.not_mem_nil)
  have hgiven : ∀ (l : List Str) (val : Char), val ≠ 'd' →
      given (l.map fun arg => ⟨val, some arg⟩) 'd' = false := fun l val hval => by
    simp [given, hval]
  have hflag : ∀ val, argsOf (if detach then [⟨'d', none⟩] else []) val = [] := fun val => by
    cases detach <;> simp [argsOf]
  simp only [given_append, hgiven _ 'v' (by decide), hgiven _ 'n' (by decide), argsOf_append,
    argsOf_map, hflag]
  cases detach <;> cases name <;> simp [given, argsOf, hset]

lemma handle_start (argv0 : Str) (detach : Bool) (containerName : Str) :
    ContainerStartCli.handleCommand env
      (argv0 :: (flag detach "-d" ++ ["--".toList, containerName])) =
      .start detach containerName := by
  have hreads : Reads (ContainerStartCli.spec env) []
      (flag detach "-d" ++ ["--".toList, containerName])
      ((if detach then [⟨'d', none⟩] else []) ++ []) [containerName] :=
    reads_flag detach 'd' "-d" rfl (by decide) rfl (.endOfOptions _)
  rw [ContainerStartCli.handleCommand, not_isHelp_of_mem (by simp), if_neg Bool.false_ne_true,
    readOptions_of_reads hreads]
  cases detach <;> rfl

lemma handle_exec (argv0 : Str) (detach : Bool) (containerId : Str) {cmdArr : List Str}
    (hne : cmdArr ≠ []) :
    ContainerExecCli.handleCommand env
      (argv0 :: (flag detach "-d" ++ "--".toList :: containerId :: cmdArr)) =
      .exec detach containerId cmdArr := by
  obtain ⟨c, cmdArr, rfl⟩ := List.exists_cons_of_ne_nil hne
  have hlen : ¬(argv0 :: (flag detach "-d" ++ "--".toList :: containerId :: c :: cmdArr)).length <
      3 := by
    rw [List.length_cons, List.length_append, List.length_cons, List.length_cons]
    omega
  have hreads : Reads (ContainerExecCli.spec env) []
      (flag detach "-d" ++ "--".toList :: containerId :: c :: cmdArr)
      ((if detach then [⟨'d', none⟩] else []) ++ []) (containerId :: c :: cmdArr) :=
    reads_flag detach 'd' "-d" rfl (by decide) rfl (.endOfOptions _)
  rw [ContainerExecCli.handleCommand, not_isHelp_of_mem (by simp), if_neg Bool.false_ne_true,
    if_neg hlen, readOptions_of_reads hreads]
  cases detach <;> rfl

lemma handle_rm (argv0 : Str) (force : Bool) {containerArr : List Str} (hne : containerArr ≠ []) :
    ContainerRMCli.handleCommand env (argv0 :: (flag force "-f" ++ "--".toList :: containerArr)) =
      .rm force containerArr := by
  obtain ⟨c, containerArr, rfl⟩ := List.exists_cons_of_ne_nil hne
  have hlen : ¬(argv0 :: (flag force "-f" ++ "--".toList :: c :: containerArr)).length < 2 := by
    rw [List.length_cons, List.length_append, List.length_cons]
    omega
  have hreads : Reads (ContainerRMCli.spec env) []
      (flag force "-f" ++ "--".toList :: c :: containerArr)
      ((if force then [⟨'f', none⟩] else []) ++ []) (c :: containerArr) :=
    reads_flag force 'f' "-f" rfl (by decide) rfl (.endOfOptions _)
  rw [ContainerRMCli.handleCommand, not_isHelp_of_mem (by simp), if_neg hlen,
    if_neg Bool.false_ne_true, readOptions_of_reads hreads]
  cases force <;> rfl

lemma handle_ls (argv0 : Str) (all : Bool) :
    ContainerLsCli.handleCommand env (argv0 :: flag all "-a") = .ls all := by
  have hreads : Reads (ContainerLsCli.spec env) [] (flag all "-a" ++ [])
      ((if all then [⟨'a', none⟩] else []) ++ []) [] :=
    reads_flag all 'a' "-a" rfl (by decide) rfl .nil
  rw [List.append_nil] at hreads
  have hnot : isHelp (argv0 :: flag all "-a") = false :=
    not_isHelp (by cases all <;> simp [flag])
  rw [ContainerLsCli.handleCommand, hnot, if_neg Bool.false_ne_true, readOptions_of_reads hreads]
  cases all <;> rfl

lemma readOptions_expressible {α : Type} {text : Usage} {S : Spec} {f : α → Opt → α} {mopt : α}
    {argv : List Str} {k : α → List Str → Invocation}
    (htext : text ∈ [Usage.container, .run, .ls, .start, .exec, .rm])
    (hk : ∀ m operands, (k m operands).Expressible) :
    (readOptions text S f mopt argv k).Expressible := by
  unfold readOptions
  split
  · exact Or.inr ⟨rfl, htext⟩
  · exact hk _ _

lemma expressible_run (argv : List Str) : (ContainerRunCli.handleCommand env argv).Expressible := by
  unfold ContainerRunCli.handleCommand
  split_ifs
  · exact Or.inl rfl
  · refine readOptions_expressible (by decide) fun m operands => ?_
    change (if operands = [] then _ else operands) ≠ []
    split_ifs with h
    · exact List.cons_ne_nil _ _
    · exact h

lemma expressible_ls (argv : List Str) : (ContainerLsCli.handleCommand env argv).Expressible := by
  unfold ContainerLsCli.handleCommand
  split_ifs
  · exact Or.inl rfl
  · exact readOptions_expressible (by decide) fun _ _ => trivial

lemma expressible_stop (argv : List Str) : (ContainerStopCli.handleCommand argv).Expressible := by
  unfold ContainerStopCli.handleCommand
  split_ifs with hlen hhelp
  · exact Or.inl rfl
  · exact Or.inl rfl
  · obtain ⟨argv0, w, words, rfl⟩ : ∃ argv0 w words, argv = argv0 :: w :: words := by
      rcases argv with _ | ⟨argv0, _ | ⟨w, words⟩⟩
      · simp at hlen
      · simp at hlen
      · exact ⟨_, _, _, rfl⟩
    refine ⟨List.cons_ne_nil _ _, fun heq => hhelp ?_⟩
    obtain ⟨rfl, rfl⟩ := List.cons.inj heq
    rfl

lemma expressible_start (argv : List Str) :
    (ContainerStartCli.handleCommand env argv).Expressible := by
  unfold ContainerStartCli.handleCommand
  split_ifs
  · exact Or.inl rfl
  · refine readOptions_expressible (by decide) fun m operands => ?_
    rcases operands with _ | ⟨w, words⟩
    · exact Or.inr ⟨rfl, by decide⟩
    · trivial

lemma expressible_attach (argv : List Str) :
    (ContainerAttachCli.handleCommand argv).Expressible := by
  unfold ContainerAttachCli.handleCommand
  split_ifs
  · exact Or.inl rfl
  · exact Or.inl rfl
  · trivial

lemma expressible_exec (argv : List Str) :
    (ContainerExecCli.handleCommand env argv).Expressible := by
  unfold ContainerExecCli.handleCommand
  split_ifs
  · exact Or.inl rfl
  · trivial
  · refine readOptions_expressible (by decide) fun m operands => ?_
    rcases operands with _ | ⟨w, _ | ⟨w', words⟩⟩
    · trivial
    · trivial
    · exact List.cons_ne_nil _ _

lemma expressible_rm (argv : List Str) : (ContainerRMCli.handleCommand env argv).Expressible := by
  unfold ContainerRMCli.handleCommand
  split_ifs
  · exact Or.inl rfl
  · exact Or.inl rfl
  · refine readOptions_expressible (by decide) fun m operands => ?_
    rcases operands with _ | ⟨w, words⟩
    · exact Or.inr ⟨rfl, by decide⟩
    · exact List.cons_ne_nil _ _

lemma expressible_container (argv : List Str) :
    (ContainerCli.handleCommand env argv).Expressible := by
  unfold ContainerCli.handleCommand
  split
  · exact Or.inr ⟨rfl, by decide⟩
  · split_ifs
    · exact expressible_run _
    · exact expressible_ls _
    · exact expressible_stop _
    · exact expressible_start _
    · exact expressible_exec _
    · exact expressible_attach _
    · exact expressible_rm _
    · exact Or.inl rfl
    · exact Or.inr ⟨rfl, by decide⟩

lemma main_eq (target : Str) (argv0 : Str) (words : List Str) :
    main env 0 (argv0 :: target :: words) =
      .created (if target = "container".toList then ContainerCli.handleCommand env (target :: words)
        else if target = "run".toList then ContainerRunCli.handleCommand env (target :: words)
        else if target = "stop".toList then ContainerStopCli.handleCommand (target :: words)
        else if target = "start".toList then ContainerStartCli.handleCommand env (target :: words)
        else if target = "ps".toList then ContainerLsCli.handleCommand env (target :: words)
        else if target = "attach".toList then ContainerAttachCli.handleCommand (target :: words)
        else if target = "exec".toList then ContainerExecCli.handleCommand env (target :: words)
        else if target = "rm".toList then ContainerRMCli.handleCommand env (target :: words)
        else .usage .hoststack 0) := rfl

lemma expressible_of_main {i : Invocation} {argv : List Str} (h : main env 0 argv = .created i) :
    i.Expressible := by
  rcases argv with _ | ⟨argv0, _ | ⟨target, words⟩⟩
  · cases h
  · cases h
  · rw [main_eq] at h
    cases h
    split_ifs
    · exact expressible_container _
    · exact expressible_run _
    · exact expressible_stop _
    · exact expressible_start _
    · exact expressible_ls _
    · exact expressible_attach _
    · exact expressible_exec _
    · exact expressible_rm _
    · exact Or.inl rfl

lemma main_commandLine (argv0 : Str) {i : Invocation} (h : i.Expressible) :
    main env 0 (argv0 :: i.commandLine) = .created i := by
  cases i with
  | run detach args => exact congrArg Outcome.created (handle_run "run".toList detach h)
  | ls all => exact congrArg Outcome.created (handle_ls "ps".toList all)
  | stop names =>
    obtain ⟨hne, hhelp⟩ := h
    obtain ⟨w, names, rfl⟩ := List.exists_cons_of_ne_nil hne
    have hnot : isHelp ("stop".toList :: w :: names) = false := not_isHelp hhelp
    have hstop : ContainerStopCli.handleCommand ("stop".toList :: w :: names) =
        .stop (w :: names) := by
      rw [ContainerStopCli.handleCommand, hnot, if_neg (by simp), if_neg Bool.false_ne_true]
      rfl
    exact congrArg Outcome.created hstop
  | start detach containerName =>
    exact congrArg Outcome.created (handle_start "start".toList detach containerName)
  | attach containerName => rfl
  | exec detach containerId cmdArr =>
    exact congrArg Outcome.created (handle_exec "exec".toList detach containerId h)
  | rm force containerArr => exact congrArg Outcome.created (handle_rm "rm".toList force h)
  | missCommand => rfl
  | usage text status =>
    obtain ⟨shell, posixlyCorrect⟩ := env
    rcases h with rfl | ⟨rfl, htext⟩
    · cases text <;> rfl
    · cases text with
      | hoststack | stop | attach => exact absurd htext (by decide)
      | ls => cases posixlyCorrect <;> rfl
      | container | run | start | exec | rm => rfl

/-- **What can be asked for**: a command line asks for one of the things that can be expressed,
each of these has a command line of its own, and `hoststack container` understands the same
commands, where `ps` is called `ls`. -/
theorem commands_asked_for (env : Environment) (argv0 : Str) :
    (∀ i, (∃ argv, main env 0 argv = .created i) ↔ i.Expressible) ∧
    (∀ i, i.Expressible → main env 0 (argv0 :: i.commandLine) = .created i) ∧
    ∀ words, ∀ p ∈ [("run", "run"), ("ps", "ls"), ("stop", "stop"), ("start", "start"),
        ("attach", "attach"), ("exec", "exec"), ("rm", "rm")],
      main env 0 (argv0 :: "container".toList :: p.2.toList :: words) =
        main env 0 (argv0 :: p.1.toList :: words) := by
  refine ⟨fun i => ⟨fun ⟨argv, h⟩ => expressible_of_main h,
    fun h => ⟨[] :: i.commandLine, main_commandLine [] h⟩⟩,
    fun i h => main_commandLine argv0 h, fun words p hp => ?_⟩
  simp only [List.mem_cons, List.not_mem_nil, or_false] at hp
  rcases hp with rfl | rfl | rfl | rfl | rfl | rfl | rfl <;> rfl

end Hoststack.Cli
