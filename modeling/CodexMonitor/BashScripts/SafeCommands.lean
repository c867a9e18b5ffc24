import CodexMonitor.BashScripts.Script
import CodexMonitor.Lib.UnixPath

namespace CodexMonitor.BashScripts

open Text ShellQuoting

/-!
# Bash scripts — commands that run without asking

`is_safe_command.rs` approves commands that only read.  A shell script is approved when each of
its commands is, judged by the words that the parser of `bash.rs` gives.

* `isSafeToCallWithExec` — one command, by its words.
* `isKnownSafeCommand` — a command, or a script behind `bash -lc`.
* `JudgedByExecutedWords` — the words judged are those that bash passes on.
* `judged_iff_exact` — when they are: when no backslash is removed.
-/

/-! ### Git -/

def executableNameLookupKey (raw : Text) : Option Text :=
  match (UnixPath.components raw).getLast? with
  | some name => if name = "..".toList then none else some name
  | none => none

def gitOptionsWithValue : List Text :=
  ["--config-env", "--exec-path", "--git-dir", "--namespace", "--super-prefix",
    "--work-tree"].map String.toList

def isGitGlobalOptionWithValue (arg : Text) : Bool :=
  (["-C", "-c"].map String.toList ++ gitOptionsWithValue).contains arg

def hasInlineValue (arg : Text) : Bool :=
  gitOptionsWithValue.any fun option => arg.startsWith (option ++ ['='])

def isGitGlobalOptionWithInlineValue (arg : Text) : Bool :=
  hasInlineValue arg ||
    ((arg.startsWith "-C".toList || arg.startsWith "-c".toList) && 2 < byteLen arg)

/-- Options that redirect configuration, repository or helpers. -/
def gitGlobalOptionRequiresPrompt (arg : Text) : Bool :=
  (["-c"].map String.toList ++ gitOptionsWithValue).contains arg ||
    (arg.startsWith "-c".toList && 2 < byteLen arg) || hasInlineValue arg

/-- The first argument that is not an option, with its index. -/
def findGitSubcommandFrom (subcommands : List Text) :
    List Text → Nat → Bool → Option (Nat × Text)
  | [], _, _ => none
  | arg :: args, idx, skipNext =>
      if skipNext then findGitSubcommandFrom subcommands args (idx + 1) false
      else if isGitGlobalOptionWithInlineValue arg then
        findGitSubcommandFrom subcommands args (idx + 1) false
      else if isGitGlobalOptionWithValue arg then
        findGitSubcommandFrom subcommands args (idx + 1) true
      else if arg = "--".toList || arg.startsWith "-".toList then
        findGitSubcommandFrom subcommands args (idx + 1) false
      else if subcommands.contains arg then some (idx, arg)
      else none

def findGitSubcommand (command : List Text) (subcommands : List Text) : Option (Nat × Text) :=
  match command with
  | [] => none
  | cmd0 :: args =>
      if executableNameLookupKey cmd0 = some "git".toList then
        findGitSubcommandFrom subcommands args 1 false
      else none

def gitHasUnsafeGlobalOption (command : List Text) : Bool :=
  (command.drop 1).any gitGlobalOptionRequiresPrompt

def gitSubcommandArgsAreReadOnly (args : List Text) : Bool :=
  !args.any fun arg =>
    (["--output", "--ext-diff", "--textconv", "--exec", "--paginate"].map
      String.toList).contains arg ||
      arg.startsWith "--output=".toList || arg.startsWith "--exec=".toList

def isReadOnlyBranchFlag (arg : Text) : Bool :=
  (["--list", "-l", "--show-current", "-a", "--all", "-r", "--remotes", "-v", "-vv",
    "--verbose"].map String.toList).contains arg || arg.startsWith "--format=".toList

/-- Without arguments, or with read only flags and nothing else. -/
def gitBranchIsReadOnly (branchArgs : List Text) : Bool := branchArgs.all isReadOnlyBranchFlag

/-! ### One command -/

def alwaysSafe : List Text :=
  ["cat", "cd", "cut", "echo", "expr", "false", "grep", "head", "id", "ls", "nl", "paste", "pwd",
    "rev", "seq", "stat", "tail", "tr", "true", "uname", "uniq", "wc", "which",
    "whoami"].map String.toList

def isUnsafeBase64Option (arg : Text) : Bool :=
  (["-o", "--output"].map String.toList).contains arg || arg.startsWith "--output=".toList ||
    (arg.startsWith "-o".toList && arg != "-o".toList)

def unsafeFindOptions : List Text :=
  ["-exec", "-execdir", "-ok", "-okdir", "-delete", "-fls", "-fprint", "-fprint0",
    "-fprintf"].map String.toList

def isUnsafeRipgrepOption (arg : Text) : Bool :=
  (["--search-zip", "-z"].map String.toList).contains arg ||
    (["--pre", "--hostname-bin"].map String.toList).any fun option =>
      arg = option || arg.startsWith (option ++ ['='])

def isDigits (t : Text) : Bool := !t.isEmpty && t.all Char.isDigit

/-- `/^(\d+,)?\d+p$/`. -/
def isValidSedNArg (arg : Option Text) : Bool :=
  match arg with
  | none => false
  | some s =>
      if s.getLast? = some 'p' then
        match splitOn ',' s.dropLast with
        | [num] => isDigits num
        | [a, b] => isDigits a && isDigits b
        | _ => false
      else false

def isSafeGitCommand (command : List Text) : Bool :=
  if gitHasUnsafeGlobalOption command then false
  else
    match findGitSubcommand command
        (["status", "log", "diff", "show", "branch"].map String.toList) with
    | none => false
    | some (subcommandIdx, subcommand) =>
        let subcommandArgs := command.drop (subcommandIdx + 1)
        if subcommand = "branch".toList then
          gitSubcommandArgsAreReadOnly subcommandArgs && gitBranchIsReadOnly subcommandArgs
        else gitSubcommandArgsAreReadOnly subcommandArgs

/-- **The judgement on one command**, by its words. -/
def isSafeToCallWithExec (onLinux : Bool) (command : List Text) : Bool :=
  match command with
  | [] => false
  | cmd0 :: _ =>
      match executableNameLookupKey cmd0 with
      | none => false
      | some cmd =>
          if onLinux && (cmd == "numfmt".toList || cmd == "tac".toList) then true
          else if alwaysSafe.contains cmd then true
          else if cmd = "base64".toList then !(command.drop 1).any isUnsafeBase64Option
          else if cmd = "find".toList then !command.any fun arg => unsafeFindOptions.contains arg
          else if cmd = "rg".toList then !command.any isUnsafeRipgrepOption
          else if cmd = "git".toList then isSafeGitCommand command
          else if cmd = "sed".toList then
            command.length ≤ 4 && command[1]? == some "-n".toList && isValidSedNArg command[2]?
          else false

/-! ### Scripts -/

inductive ShellType
  | zsh
  | bash
  | powerShell
  | sh
  | cmd
  deriving DecidableEq, Repr

/-- `Path::file_stem`: the name up to its last dot, if the dot is not its first character. -/
def fileStem (path : Text) : Option Text :=
  (executableNameLookupKey path).map fun name =>
    match UnixPath.extension name with
    | some after => name.take (name.length - after.length - 1)
    | none => name

/-- The first argument bounds the steps; a stem that is not the path itself is shorter. -/
def detectShellTypeIn : Nat → Text → Option ShellType
  | 0, _ => none
  | steps + 1, shellPath =>
      if shellPath = "zsh".toList then some .zsh
      else if shellPath = "sh".toList then some .sh
      else if shellPath = "cmd".toList then some .cmd
      else if shellPath = "bash".toList then some .bash
      else if shellPath = "pwsh".toList then some .powerShell
      else if shellPath = "powershell".toList then some .powerShell
      else
        match fileStem shellPath with
        | some name =>
            if UnixPath.same name shellPath then none else detectShellTypeIn steps name
        | none => none

def detectShellType (shellPath : Text) : Option ShellType :=
  detectShellTypeIn (shellPath.length + 1) shellPath

def extractBashCommand (command : List Text) : Option (Text × Text) :=
  match command with
  | [shell, flag, script] =>
      if (flag = "-lc".toList ∨ flag = "-c".toList) ∧
          (detectShellType shell = some .zsh ∨ detectShellType shell = some .bash ∨
            detectShellType shell = some .sh) then
        some (shell, script)
      else none
  | _ => none

def isPowershellExecutable (exe : Text) : Bool :=
  let name := ((executableNameLookupKey exe).getD exe).map asciiLower
  (["powershell", "powershell.exe", "pwsh", "pwsh.exe"].map String.toList).contains name

section Known

-- the grammar, and the judgement on the arguments of a PowerShell
variable (parse : Text → Option Tree) (isSafePowershell : Text → List Text → Bool) (onLinux : Bool)

def parseShellLcPlainCommands (command : List Text) : Option (List (List Text)) := do
  let (_, script) ← extractBashCommand command
  let tree ← parse script
  tryParseWordOnlyCommandsSequence tree

def isSafeCommandWindows (command : List Text) : Bool :=
  match command with
  | exe :: args => if isPowershellExecutable exe then isSafePowershell exe args else false
  | [] => false

/-- **The commands that run without asking.** -/
def isKnownSafeCommand (command : List Text) : Bool :=
  let command := command.map fun s => if s = "zsh".toList then "bash".toList else s
  if isSafeCommandWindows isSafePowershell command then true
  else if isSafeToCallWithExec onLinux command then true
  else
    match parseShellLcPlainCommands parse command with
    | some allCommands => !allCommands.isEmpty && allCommands.all (isSafeToCallWithExec onLinux)
    | none => false

end Known

/-! ### The words that are judged -/

/-- Quote removal takes no backslash away from the words of the commands. -/
def Script.isExact (script : Script) : Bool :=
  script.commands.all fun c => c.words.all ShellWord.isExact

/-- The texts within the quotes are the argument lists exactly where no backslash is removed. -/
theorem bodies_eq_argv_iff (commands : List ShellCommand) :
    (commands.map fun c => c.words.map ShellWord.body) = commands.map ShellCommand.argv ↔
      (commands.all fun c => c.words.all ShellWord.isExact) = true := by
  simp only [ShellCommand.argv, List.map_inj_left, List.all_eq_true]
  refine forall₂_congr fun c _ => forall₂_congr fun w _ => ?_
  rw [eq_comm, w.value_eq_body_iff]

section Judged

variable (parse : Text → Option Tree) (isSafePowershell : Text → List Text → Bool) (onLinux : Bool)
  (isNumber : Text → Bool)

def bashLc (script : Text) : List Text := ["bash".toList, "-lc".toList, script]

/-- The grammar builds the expected tree of the script. -/
def BuildsExpected (script : Script) : Prop :=
  parse (sourceOf script) = some (script.tree isNumber)

/-- The script of one command without arguments. -/
def oneWord (name : String) : Script :=
  match name.toList with
  | [] => []
  | c :: rest => [.command ⟨⟨.bare (.plain c) (rest.map Item.plain), []⟩, []⟩]

/-- **Scripts are judged by the words bash passes on**: the words of an accepted script are the
    argument lists of its commands, and of a script known to be safe each command is. -/
def JudgedByExecutedWords (script : Script) : Prop :=
  (∀ words, tryParseWordOnlyCommandsSequence (script.tree isNumber) = some words →
    words = script.commands.map ShellCommand.argv) ∧
  (isKnownSafeCommand parse isSafePowershell onLinux (bashLc (sourceOf script)) = true →
    ∀ c ∈ script.commands, isSafeToCallWithExec onLinux c.argv = true)

variable {parse isSafePowershell onLinux isNumber} {script : Script} {source : Text}

/-- Bash itself is not approved, so only the commands of its script count. -/
theorem isSafeToCallWithExec_bash (args : List Text) :
    isSafeToCallWithExec onLinux ("bash".toList :: args) = false := by
  have hkey : executableNameLookupKey "bash".toList = some "bash".toList := by decide
  simp only [isSafeToCallWithExec, hkey]
  cases onLinux <;> rfl

/-- The script behind `bash -lc`; the text `zsh` alone is taken for `bash`. -/
theorem isKnownSafeCommand_bashLc :
    isKnownSafeCommand parse isSafePowershell onLinux (bashLc source) =
      match (parse (if source = "zsh".toList then "bash".toList else source)).bind
          tryParseWordOnlyCommandsSequence with
      | some allCommands => !allCommands.isEmpty && allCommands.all (isSafeToCallWithExec onLinux)
      | none => false := by
  have hcommand : (bashLc source).map (fun s => if s = "zsh".toList then "bash".toList else s) =
      bashLc (if source = "zsh".toList then "bash".toList else source) := by
    simp [bashLc]
  have hwindows : ∀ args, isSafeCommandWindows isSafePowershell ("bash".toList :: args) = false := by
    intro args
    rw [isSafeCommandWindows, if_neg (by decide)]
  have hextract : ∀ script, extractBashCommand (bashLc script) = some ("bash".toList, script) := by
    intro script
    rw [bashLc, extractBashCommand, if_pos (by decide)]
  unfold isKnownSafeCommand
  simp only [hcommand]
  rw [show isSafeCommandWindows isSafePowershell (bashLc _) = false from hwindows _,
    show isSafeToCallWithExec onLinux (bashLc _) = false from isSafeToCallWithExec_bash _,
    parseShellLcPlainCommands, hextract]
  rfl

/-- The commands of a script that is known to be safe were judged one by one. -/
theorem judged_of_knownSafe (hparse : BuildsExpected parse isNumber script)
    (hbash : BuildsExpected parse isNumber (oneWord "bash"))
    (h : isKnownSafeCommand parse isSafePowershell onLinux (bashLc (sourceOf script)) = true) :
    script.accepted isNumber = true ∧ ∀ c ∈ script.commands,
      isSafeToCallWithExec onLinux (c.words.map ShellWord.body) = true := by
  rw [isKnownSafeCommand_bashLc] at h
  by_cases hzsh : sourceOf script = "zsh".toList
  · -- the script `bash` is not approved
    have hsource : "bash".toList = sourceOf (oneWord "bash") := by decide
    rw [if_pos hzsh, hsource, hbash, Option.bind_some, tryParse_tree] at h
    by_cases haccepted : Script.accepted isNumber (oneWord "bash") = true
    · have hcommands : (Script.commands (oneWord "bash")).map
          (fun c => c.words.map ShellWord.body) = [["bash".toList]] := by decide
      rw [if_pos haccepted, hcommands] at h
      simp only [List.isEmpty_cons, Bool.not_false, List.all_cons, List.all_nil, Bool.and_true,
        Bool.true_and, isSafeToCallWithExec_bash] at h
      exact absurd h (by decide)
    · rw [if_neg haccepted] at h
      exact absurd h Bool.false_ne_true
  · rw [if_neg hzsh, hparse, Option.bind_some, tryParse_tree] at h
    by_cases haccepted : script.accepted isNumber = true
    · rw [if_pos haccepted] at h
      simp only [Bool.and_eq_true, List.all_map, List.all_eq_true] at h
      exact ⟨haccepted, h.2⟩
    · rw [if_neg haccepted] at h
      exact absurd h Bool.false_ne_true

end Judged

/-- **When scripts are judged by the words bash passes on.** For every script of which the grammar
    builds the expected tree: if and only if the parser rejects it, or quote removal takes no
    backslash away. -/
theorem judged_iff_exact (parse : Text → Option Tree)
    (isSafePowershell : Text → List Text → Bool) (onLinux : Bool) (isNumber : Text → Bool)
    (script : Script) (hparse : BuildsExpected parse isNumber script)
    (hbash : BuildsExpected parse isNumber (oneWord "bash")) :
    JudgedByExecutedWords parse isSafePowershell onLinux isNumber script ↔
      (script.accepted isNumber = true → script.isExact = true) := by
  constructor
  · intro hjudged haccepted
    have hwords := hjudged.1 _ ((tryParse_tree isNumber script).trans (if_pos haccepted))
    exact (bodies_eq_argv_iff script.commands).mp hwords
  · intro hexact
    have hargv : script.accepted isNumber = true →
        (script.commands.map fun c => c.words.map ShellWord.body) =
          script.commands.map ShellCommand.argv :=
      fun haccepted => (bodies_eq_argv_iff script.commands).mpr (hexact haccepted)
    constructor
    · intro words hwords
      rw [tryParse_tree, Option.ite_none_right_eq_some] at hwords
      rw [← hargv hwords.1]
      exact (Option.some.inj hwords.2).symm
    · intro hsafe c hc
      obtain ⟨haccepted, hall⟩ := judged_of_knownSafe hparse hbash hsafe
      have heq : c.words.map ShellWord.body = c.argv :=
        List.map_inj_left.mp (hargv haccepted) c hc
      rw [← heq]
      exact hall c hc

/-! ### A backslash in an option -/

/-- A word without quotes. -/
def plainWord (text : String) : ShellWord :=
  match text.toList with
  | [] => ⟨.single [], []⟩
  | c :: rest => ⟨.bare (.plain c) (rest.map Item.plain), []⟩

/-- `ls && echo 'a b'"c"`. -/
def listingScript : Script :=
  [.group .list [.command ⟨plainWord "ls", []⟩, .blank " ".toList, .operator .and,
    .blank " ".toList, .command ⟨plainWord "echo",
      [(" ".toList, ⟨.single "a b".toList, [.double [.plain 'c']]⟩)]⟩]]

/-- A grammar that knows two scripts. -/
def grammarOf (script : Script) (source : Text) : Option Tree :=
  if source = sourceOf script then some (script.tree fun _ => false)
  else if source = "bash".toList then some ((oneWord "bash").tree fun _ => false)
  else none

theorem judged_iff_exact_listing :
    JudgedByExecutedWords (grammarOf listingScript) (fun _ _ => false) true (fun _ => false)
      listingScript :=
  (judged_iff_exact (grammarOf listingScript) (fun _ _ => false) true (fun _ => false)
    listingScript rfl (by unfold BuildsExpected; rfl)).mpr fun _ => by decide +kernel

/-- `find . -\delete`. -/
def escapedDelete : Script :=
  [.command ⟨plainWord "find", [(" ".toList, plainWord "."), (" ".toList,
    ⟨.bare (.plain '-') (.escaped 'd' :: "elete".toList.map Item.plain), []⟩)]⟩]

/-- The script deletes every file below the directory, and is known to be safe. -/
theorem escaped_delete_approved : ¬ ∀ (parse : Text → Option Tree)
    (isSafePowershell : Text → List Text → Bool) (onLinux : Bool) (isNumber : Text → Bool)
    (script : Script), BuildsExpected parse isNumber script →
      BuildsExpected parse isNumber (oneWord "bash") →
      JudgedByExecutedWords parse isSafePowershell onLinux isNumber script := by
  intro h
  have hjudged := h (grammarOf escapedDelete) (fun _ _ => false) true (fun _ => false)
    escapedDelete rfl (by unfold BuildsExpected; rfl)
  have hsafe : isKnownSafeCommand (grammarOf escapedDelete) (fun _ _ => false) true
      (bashLc (sourceOf escapedDelete)) = true := by decide +kernel
  have hdelete := hjudged.2 hsafe _ List.mem_cons_self
  exact absurd hdelete (by decide +kernel)

end CodexMonitor.BashScripts
