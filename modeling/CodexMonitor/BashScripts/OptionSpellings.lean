import CodexMonitor.BashScripts.SafeCommands
import CodexMonitor.Lib.CommandLine
import CodexMonitor.Lib.TextLength
import Mathlib.Tactic.Tauto

namespace CodexMonitor.BashScripts

open Text CommandLine

/-!
# Bash scripts — the spellings of unsafe options

`is_safe_command.rs` looks for unsafe options word by word, as it lists them.  The tools read an
option in more spellings: a letter among others, a name cut short, a value behind a name.

* `OptionTable` — a list of options, with the words that are compared with them.
* `OptionTable.Misses` — the spellings of a listed option that no such word is equal to.
* `sets_iff_misses` — an option word that is let through sets a listed option only in these.
* `gitWords_eq_iff` — when the subcommand that is found is the one git runs.
* `options_caught_iff` — for which commands that are let through no listed option is set.
-/

/-! ### Tables of options -/

/-- Options that are looked for. -/
structure OptionTable where
  /-- Letters, with whatever is written behind them. -/
  letters : List Char
  /-- Letters in a word of their own. -/
  bareLetters : List Char
  /-- Names, also with a value. -/
  valued : List Text
  /-- Names in a word of their own. -/
  bare : List Text

namespace OptionTable

/-- One of the words in which the options are looked for. -/
def catches (table : OptionTable) (word : Text) : Bool :=
  table.letters.any (fun letter => word.startsWith ['-', letter]) ||
    table.bareLetters.any (fun letter => word == ['-', letter]) ||
    table.valued.any (fun name => word == '-' :: '-' :: name ||
      word.startsWith ('-' :: '-' :: name ++ ['='])) ||
    table.bare.any (fun name => word == '-' :: '-' :: name)

def allLetters (table : OptionTable) : List Char := table.letters ++ table.bareLetters

def names (table : OptionTable) : List Text := table.valued ++ table.bare

def flags (table : OptionTable) : List Flag :=
  table.allLetters.map Flag.short ++ table.names.map Flag.long

/-- **The spellings that are missed.** -/
inductive Misses (table : OptionTable) (S : OptionSyntax) : Text → Prop
  /-- A letter is set behind another one. -/
  | behind {first letter : Char} {cs : Text} : first ≠ '-' → S.letterTakesValue first = false →
      letter ∈ S.letters cs → letter ∈ table.allLetters → Misses table S ('-' :: first :: cs)
  /-- A letter has others behind it. -/
  | followed {letter next : Char} {cs : Text} : letter ≠ '-' → letter ∈ table.bareLetters →
      Misses table S ('-' :: letter :: next :: cs)
  /-- A name is cut short. -/
  | abbreviated {body name : Text} : S.resolve (writtenName body) = some name →
      writtenName body ≠ name → name ∈ table.names → Misses table S ('-' :: '-' :: body)
  /-- A name that takes no value has one. -/
  | assigned {body name : Text} : S.resolve name = some name → writtenName body = name →
      '=' ∈ body → name ∈ table.bare → Misses table S ('-' :: '-' :: body)

end OptionTable

variable {table : OptionTable} {S : OptionSyntax} {word : Text}

theorem short_mem_flags {letter : Char} :
    Flag.short letter ∈ table.flags ↔ letter ∈ table.allLetters := by
  simp [OptionTable.flags]

theorem long_mem_flags {name : Text} : Flag.long name ∈ table.flags ↔ name ∈ table.names := by
  simp [OptionTable.flags]

/-- A name is written to the end, or up to an equals sign. -/
theorem writtenName_eq_self_or (body : Text) :
    writtenName body = body ∧ '=' ∉ body ∨ ∃ value, body = writtenName body ++ '=' :: value := by
  by_cases hmem : '=' ∈ body
  · right
    have hsplit := List.takeWhile_append_dropWhile (p := fun c => decide (c ≠ '=')) (l := body)
    cases hrest : body.dropWhile fun c => decide (c ≠ '=') with
    | nil =>
      rw [hrest, List.append_nil, List.takeWhile_eq_self_iff] at hsplit
      simpa using hsplit '=' hmem
    | cons c value =>
      have hhead := List.head?_dropWhile_not (fun c => decide (c ≠ '=')) body
      rw [hrest] at hhead hsplit
      have hc : c = '=' := by simpa using hhead
      subst hc
      exact ⟨value, hsplit.symm⟩
  · left
    refine ⟨List.takeWhile_eq_self_iff.mpr fun c hc => ?_, hmem⟩
    have hne : c ≠ '=' := fun heq => hmem (heq ▸ hc)
    simpa using hne

/-- **What is let through.** A word that is not looked for sets a listed option exactly if it spells
    one in a way that is missed. -/
theorem sets_iff_misses (hoption : isOption word = true) (hcaught : table.catches word = false) :
    (∃ flag ∈ S.flagsOf word, flag ∈ table.flags) ↔ table.Misses S word := by
  simp only [OptionTable.catches, Bool.or_eq_false_iff, List.any_eq_false] at hcaught
  obtain ⟨⟨⟨hletters, hbareLetters⟩, hvalued⟩, hbare⟩ := hcaught
  constructor
  · rintro ⟨flag, hflag, hlisted⟩
    unfold OptionSyntax.flagsOf at hflag
    split at hflag
    next body =>
      rw [Option.mem_toList, Option.map_eq_some_iff] at hflag
      obtain ⟨name, hname, rfl⟩ := hflag
      rw [long_mem_flags] at hlisted
      by_cases hwritten : writtenName body = name
      · rw [hwritten] at hname
        rcases writtenName_eq_self_or body with ⟨hwhole, -⟩ | ⟨value, hbody⟩
        · -- the whole word is compared with the names
          rw [hwritten] at hwhole
          rcases List.mem_append.mp hlisted with hmem | hmem
          · exact absurd (by simp [hwhole]) (hvalued name hmem)
          · exact absurd (by simp [hwhole]) (hbare name hmem)
        · rw [hwritten] at hbody
          rcases List.mem_append.mp hlisted with hmem | hmem
          · refine absurd ?_ (hvalued name hmem)
            simp [hbody, startsWith]
          · exact .assigned hname hwritten (by simp [hbody]) hmem
      · exact .abbreviated hname hwritten hlisted
    next cs hcs =>
      obtain ⟨letter, hletter, rfl⟩ := List.mem_map.mp hflag
      rw [short_mem_flags] at hlisted
      cases cs with
      | nil => simp [OptionSyntax.letters] at hletter
      | cons first cs =>
        have hfirst : first ≠ '-' := fun heq => hcs cs (by rw [heq])
        -- the first letter is looked for, the others are not
        have hleading : letter = first → table.Misses S ('-' :: first :: cs) := by
          rintro rfl
          rcases List.mem_append.mp hlisted with hmem | hmem
          · exact absurd (by simp [startsWith]) (hletters letter hmem)
          · cases cs with
            | nil => exact absurd (by simp) (hbareLetters letter hmem)
            | cons next cs => exact .followed hfirst hmem
        unfold OptionSyntax.letters at hletter
        split at hletter
        next => exact hleading (List.mem_singleton.mp hletter)
        next htakes =>
          rcases List.mem_cons.mp hletter with heq | hmem
          · exact hleading heq
          · exact .behind hfirst (Bool.not_eq_true _ ▸ htakes) hmem hlisted
    next => simp at hflag
  · intro hmisses
    cases hmisses with
    | @behind first letter cs hfirst htakes hmem hlisted =>
      refine ⟨.short letter, ?_, short_mem_flags.mpr hlisted⟩
      rw [OptionSyntax.flagsOf_short hfirst]
      exact List.mem_map_of_mem (by simp [OptionSyntax.letters, htakes, hmem])
    | @followed letter next cs hletter hmem =>
      refine ⟨.short letter, ?_, short_mem_flags.mpr (List.mem_append_right _ hmem)⟩
      rw [OptionSyntax.flagsOf_short hletter]
      refine List.mem_map_of_mem ?_
      unfold OptionSyntax.letters
      split <;> simp
    | @abbreviated body name hname hwritten hlisted =>
      exact ⟨.long name, by simp [OptionSyntax.flagsOf, hname], long_mem_flags.mpr hlisted⟩
    | @assigned body name hname hwritten hvalue hlisted =>
      refine ⟨.long name, ?_, long_mem_flags.mpr (List.mem_append_right _ hlisted)⟩
      simp [OptionSyntax.flagsOf, hwritten, hname]

/-! ### The tables of the tools -/

/-- `UNSAFE_BASE64_OPTIONS`. -/
def base64Table : OptionTable :=
  { letters := ['o']
    bareLetters := []
    valued := ["output".toList]
    bare := [] }

/-- `UNSAFE_RIPGREP_OPTIONS_WITH_ARGS` and `UNSAFE_RIPGREP_OPTIONS_WITHOUT_ARGS`. -/
def ripgrepTable : OptionTable :=
  { letters := []
    bareLetters := ['z']
    valued := ["pre", "hostname-bin"].map String.toList
    bare := ["search-zip".toList] }

/-- The options of `git_global_option_requires_prompt`. -/
def gitGlobalTable : OptionTable :=
  { letters := ['c']
    bareLetters := []
    valued := ["config-env", "exec-path", "git-dir", "namespace", "super-prefix",
      "work-tree"].map String.toList
    bare := [] }

/-- `UNSAFE_GIT_FLAGS`. -/
def gitArgsTable : OptionTable :=
  { letters := []
    bareLetters := []
    valued := ["output", "exec"].map String.toList
    bare := ["ext-diff", "textconv", "paginate"].map String.toList }

/-- A word that begins with a letter is that letter, or longer. -/
theorem startsWith_letter_iff (letter : Char) (word : Text) :
    word.startsWith ['-', letter] = true ↔
      word = ['-', letter] ∨ ∃ c cs, word = '-' :: letter :: c :: cs := by
  unfold startsWith
  rw [List.isPrefixOf_iff_prefix]
  constructor
  · rintro ⟨behind, rfl⟩
    cases behind with
    | nil => exact .inl rfl
    | cons c cs => exact .inr ⟨c, cs, rfl⟩
  · rintro (rfl | ⟨c, cs, rfl⟩)
    · exact List.prefix_refl _
    · exact ⟨c :: cs, rfl⟩

theorem base64Table_catches (word : Text) :
    base64Table.catches word = isUnsafeBase64Option word := by
  have hletter : word = ['-', 'o'] → word.startsWith ['-', 'o'] = true :=
    fun hword => (startsWith_letter_iff 'o' word).mpr (.inl hword)
  rw [Bool.eq_iff_iff]
  simp [OptionTable.catches, base64Table, isUnsafeBase64Option]
  tauto

theorem ripgrepTable_catches (word : Text) :
    ripgrepTable.catches word = isUnsafeRipgrepOption word := by
  rw [Bool.eq_iff_iff]
  simp [OptionTable.catches, ripgrepTable, isUnsafeRipgrepOption]
  tauto

theorem gitGlobalTable_catches (word : Text) :
    gitGlobalTable.catches word = gitGlobalOptionRequiresPrompt word := by
  have hletter : word.startsWith ['-', 'c'] = true ↔
      word = ['-', 'c'] ∨ word.startsWith ['-', 'c'] = true ∧ 2 < byteLen word := by
    have hiff := startsWith_letter_iff 'c' word
    constructor
    · intro h
      rcases hiff.mp h with hword | ⟨c, cs, hword⟩
      · exact .inl hword
      · refine .inr ⟨h, ?_⟩
        have hpos := byteLen_cons_pos c cs
        rw [hword]
        show 2 < byteLen (['-', 'c'] ++ c :: cs)
        rw [byteLen_append]
        show 2 < 2 + byteLen (c :: cs)
        omega
    · rintro (hword | ⟨h, -⟩)
      · exact hiff.mpr (.inl hword)
      · exact h
  rw [Bool.eq_iff_iff]
  simp [OptionTable.catches, gitGlobalTable, gitGlobalOptionRequiresPrompt, gitOptionsWithValue,
    hasInlineValue]
  tauto

theorem gitArgsTable_catches (args : List Text) :
    gitSubcommandArgsAreReadOnly args = !args.any gitArgsTable.catches := by
  unfold gitSubcommandArgsAreReadOnly
  congr 2
  funext word
  rw [Bool.eq_iff_iff]
  simp [OptionTable.catches, gitArgsTable]
  tauto

/-! ### What the tools read -/

/-- The options of the tools. -/
structure Tools where
  base64 : OptionSyntax
  ripgrep : OptionSyntax
  git : OptionSyntax
  gitSubcommand : Text → OptionSyntax

/-- The program that a command runs. -/
def Runs (command : List Text) (tool : String) : Prop :=
  command.head?.bind executableNameLookupKey = some tool.toList

namespace Tools

/-- The options that are set in a list of arguments. -/
def setBy (S : OptionSyntax) (args : List Text) : List Flag :=
  (S.optionWords false args).flatMap S.flagsOf

variable (tools : Tools)

/-- The words from the subcommand on. -/
def gitWords (args : List Text) : List Text := (tools.git.readLeading false args).2

/-- The options in front of the subcommand. -/
def gitOptions (args : List Text) : List Text := (tools.git.readLeading false args).1

/-- The options behind the subcommand. -/
def subcommandFlags : List Text → List Flag
  | [] => []
  | subcommand :: args => setBy (tools.gitSubcommand subcommand) args

/-- All options of a `git` command. -/
def gitFlags (args : List Text) : List Flag :=
  (tools.gitOptions args).flatMap tools.git.flagsOf ++ tools.subcommandFlags (tools.gitWords args)

end Tools

def gitReadOnlySubcommands : List Text :=
  ["status", "log", "diff", "show", "branch"].map String.toList

/-- **No listed option is set**, and the subcommand that is found is the one `git` runs. -/
structure Caught (tools : Tools) (command : List Text) : Prop where
  base64 : Runs command "base64" →
    ∀ flag ∈ Tools.setBy tools.base64 (command.drop 1), flag ∉ base64Table.flags
  ripgrep : Runs command "rg" →
    ∀ flag ∈ Tools.setBy tools.ripgrep (command.drop 1), flag ∉ ripgrepTable.flags
  git : Runs command "git" →
    ∀ flag ∈ tools.gitFlags (command.drop 1), flag ∉ gitGlobalTable.flags ++ gitArgsTable.flags
  subcommand : Runs command "git" → ∃ idx subcommand,
    findGitSubcommand command gitReadOnlySubcommands = some (idx, subcommand) ∧
      tools.gitWords (command.drop 1) = command.drop idx ∧
      (tools.gitWords (command.drop 1)).head? = some subcommand

/-! ### The subcommand -/

/-- The words up to the first one without a dash that is not behind an option with a value. -/
def frontWords : Bool → List Text → List Text
  | _, [] => []
  | true, arg :: args => arg :: frontWords false args
  | false, arg :: args =>
      if arg.startsWith "-".toList then arg :: frontWords (isGitGlobalOptionWithValue arg) args
      else []

/-- **For which commands nothing is missed.** -/
structure NoneMissed (tools : Tools) (command : List Text) : Prop where
  base64 : Runs command "base64" →
    ∀ word ∈ tools.base64.optionWords false (command.drop 1),
      ¬ base64Table.Misses tools.base64 word
  ripgrep : Runs command "rg" →
    ∀ word ∈ tools.ripgrep.optionWords false (command.drop 1),
      ¬ ripgrepTable.Misses tools.ripgrep word
  /-- The options of the second table do not stand in front of the subcommand. -/
  before : Runs command "git" → ∀ word ∈ tools.gitOptions (command.drop 1),
    ¬ gitGlobalTable.Misses tools.git word ∧
      ∀ name ∈ gitArgsTable.names, Flag.long name ∉ tools.git.flagsOf word
  behind : Runs command "git" → ∀ subcommand args,
    tools.gitWords (command.drop 1) = subcommand :: args →
      ∀ word ∈ (tools.gitSubcommand subcommand).optionWords false args,
        ¬ gitGlobalTable.Misses (tools.gitSubcommand subcommand) word ∧
          ¬ gitArgsTable.Misses (tools.gitSubcommand subcommand) word
  /-- What stands in front of the subcommand is read as options with their values. -/
  front : Runs command "git" → tools.git.passes false (frontWords false (command.drop 1)) = true

theorem isGitGlobalOptionWithValue_dash {arg : Text} (h : isGitGlobalOptionWithValue arg = true) :
    arg.startsWith "-".toList = true ∧ isGitGlobalOptionWithInlineValue arg = false := by
  simp only [isGitGlobalOptionWithValue, gitOptionsWithValue, List.contains_eq_mem, List.map_cons,
    List.map_nil, List.cons_append, List.nil_append, List.mem_cons, List.not_mem_nil, or_false,
    decide_eq_true_eq] at h
  rcases h with rfl | rfl | rfl | rfl | rfl | rfl | rfl | rfl <;> exact ⟨by decide, by decide⟩

theorem isGitGlobalOptionWithInlineValue_dash {arg : Text}
    (h : isGitGlobalOptionWithInlineValue arg = true) : arg.startsWith "-".toList = true := by
  have hdash : ∀ start : Text, start.head? = some '-' → arg.startsWith start = true →
      arg.startsWith "-".toList = true := by
    intro start hhead hstart
    obtain ⟨more, rfl⟩ := List.isPrefixOf_iff_prefix.mp hstart
    cases start with
    | nil => cases hhead
    | cons c cs =>
      obtain rfl := Option.some.inj hhead
      simp [startsWith]
  unfold isGitGlobalOptionWithInlineValue hasInlineValue at h
  rcases Bool.or_eq_true_iff.mp h with h | h
  · obtain ⟨option, hmem, hstart⟩ := List.any_eq_true.mp h
    have hhead : ∀ option ∈ gitOptionsWithValue, (option ++ ['=']).head? = some '-' := by decide
    exact hdash _ (hhead option hmem) hstart
  · rcases Bool.or_eq_true_iff.mp (Bool.and_eq_true_iff.mp h).1 with h | h
    · exact hdash _ rfl h
    · exact hdash _ rfl h

/-- **What the finder finds** is the first word behind the front words. -/
theorem findGitSubcommandFrom_eq_some {subcommands args : List Text} {idx : Nat} {skipNext : Bool}
    {found : Nat × Text} (h : findGitSubcommandFrom subcommands args idx skipNext = some found) :
    found.2 ∈ subcommands ∧ found.2.startsWith "-".toList = false ∧
      found.1 = idx + (frontWords skipNext args).length ∧
      ∃ rest, args = frontWords skipNext args ++ found.2 :: rest := by
  induction args generalizing idx skipNext with
  | nil => simp [findGitSubcommandFrom] at h
  | cons arg args ih =>
    have hnext : ∀ skip, frontWords skipNext (arg :: args) = arg :: frontWords skip args →
        findGitSubcommandFrom subcommands args (idx + 1) skip = some found →
        found.2 ∈ subcommands ∧ found.2.startsWith "-".toList = false ∧
          found.1 = idx + (frontWords skipNext (arg :: args)).length ∧
          ∃ rest, arg :: args = frontWords skipNext (arg :: args) ++ found.2 :: rest := by
      intro skip hfront hfound
      obtain ⟨hmem, hdash, hidx, rest, hrest⟩ := ih hfound
      refine ⟨hmem, hdash, ?_, rest, ?_⟩
      · rw [hfront, List.length_cons]
        omega
      · rw [hfront, List.cons_append, ← hrest]
    unfold findGitSubcommandFrom at h
    split at h
    next hskip =>
      subst hskip
      exact hnext false rfl h
    next hskip =>
      rw [Bool.not_eq_true] at hskip
      subst hskip
      -- a word with a dash is in front, and the next one too if it takes a value
      have hfront : arg.startsWith "-".toList = true →
          frontWords false (arg :: args) =
            arg :: frontWords (isGitGlobalOptionWithValue arg) args := fun hdash => if_pos hdash
      split at h
      next hinline =>
        have hnone : isGitGlobalOptionWithValue arg = false := by
          by_contra hvalue
          have := (isGitGlobalOptionWithValue_dash (Bool.not_eq_false _ ▸ hvalue)).2
          simp [this] at hinline
        refine hnext false ?_ h
        rw [hfront (isGitGlobalOptionWithInlineValue_dash hinline), hnone]
      next =>
        split at h
        next hvalue =>
          refine hnext true ?_ h
          rw [hfront (isGitGlobalOptionWithValue_dash hvalue).1, hvalue]
        next hvalue =>
          split at h
          next hdash =>
            refine hnext false ?_ h
            rw [Bool.not_eq_true] at hvalue
            rw [hfront, hvalue]
            rcases Bool.or_eq_true_iff.mp hdash with heq | hdash
            · rw [of_decide_eq_true heq]
              decide
            · exact hdash
          next hdash =>
            have hplain : arg.startsWith "-".toList = false := by
              simp at hdash
              exact hdash.2
            split at h
            next hmem =>
              obtain rfl := Option.some.inj h
              have hnil : frontWords false (arg :: args) = [] :=
                if_neg (by rw [hplain]; exact Bool.false_ne_true)
              refine ⟨by simpa using hmem, hplain, by simp [hnil], args, by simp [hnil]⟩
            next => cases h

/-! ### Commands that are let through -/

section LetThrough

variable {onLinux : Bool} {command args : List Text} {tools : Tools}

theorem catches_base64 (h : isSafeToCallWithExec onLinux command = true)
    (hruns : Runs command "base64") :
    ∀ word ∈ command.drop 1, base64Table.catches word = false := by
  cases command with
  | nil => cases hruns
  | cons cmd0 args =>
    have hkey : executableNameLookupKey cmd0 = some "base64".toList := hruns
    have hsafe : isSafeToCallWithExec onLinux (cmd0 :: args) = !args.any isUnsafeBase64Option := by
      simp only [isSafeToCallWithExec, hkey]
      cases onLinux <;> rfl
    rw [hsafe, Bool.not_eq_true', List.any_eq_false] at h
    intro word hword
    rw [base64Table_catches]
    simpa using h word hword

theorem catches_ripgrep (h : isSafeToCallWithExec onLinux command = true)
    (hruns : Runs command "rg") : ∀ word ∈ command.drop 1, ripgrepTable.catches word = false := by
  cases command with
  | nil => cases hruns
  | cons cmd0 args =>
    have hkey : executableNameLookupKey cmd0 = some "rg".toList := hruns
    have hsafe : isSafeToCallWithExec onLinux (cmd0 :: args) =
        !(cmd0 :: args).any isUnsafeRipgrepOption := by
      simp only [isSafeToCallWithExec, hkey]
      cases onLinux <;> rfl
    rw [hsafe, Bool.not_eq_true', List.any_eq_false] at h
    intro word hword
    rw [ripgrepTable_catches]
    simpa using h word (List.mem_cons_of_mem cmd0 hword)

/-- What is known of a `git` command: the words of the first table are nowhere, those of the second
    one not behind the subcommand that is found. -/
theorem catches_git (h : isSafeToCallWithExec onLinux command = true) (hruns : Runs command "git") :
    (∀ word ∈ command.drop 1, gitGlobalTable.catches word = false) ∧
      ∃ idx subcommand rest,
        findGitSubcommand command gitReadOnlySubcommands = some (idx, subcommand) ∧
          subcommand.startsWith "-".toList = false ∧
          command.drop 1 = frontWords false (command.drop 1) ++ subcommand :: rest ∧
          command.drop idx = subcommand :: rest ∧
          ∀ word ∈ rest, word ∈ command.drop 1 ∧ gitArgsTable.catches word = false := by
  cases command with
  | nil => cases hruns
  | cons cmd0 args =>
    have hkey : executableNameLookupKey cmd0 = some "git".toList := hruns
    have hsafe : isSafeToCallWithExec onLinux (cmd0 :: args) = isSafeGitCommand (cmd0 :: args) := by
      simp only [isSafeToCallWithExec, hkey]
      cases onLinux <;> rfl
    rw [hsafe] at h
    unfold isSafeGitCommand at h
    split at h
    next => cases h
    next hglobal =>
      refine ⟨fun word hword => ?_, ?_⟩
      · rw [gitGlobalTable_catches]
        rw [gitHasUnsafeGlobalOption, List.any_eq_true, not_exists] at hglobal
        have hword := hglobal word
        simpa using fun hprompt => hword ⟨‹_›, hprompt⟩
      · have hfinder : findGitSubcommand (cmd0 :: args) gitReadOnlySubcommands =
            findGitSubcommandFrom gitReadOnlySubcommands args 1 false := if_pos hkey
        have hlist : ["status", "log", "diff", "show", "branch"].map String.toList =
            gitReadOnlySubcommands := rfl
        rw [hlist, hfinder] at h
        split at h
        next => cases h
        next idx subcommand hfound =>
          obtain ⟨-, hdash, hidx, rest, hargs⟩ := findGitSubcommandFrom_eq_some hfound
          simp only at hdash hidx hargs
          have hdrop : ∀ n, (cmd0 :: args).drop (1 + n) = args.drop n := by
            intro n
            rw [Nat.add_comm, List.drop_succ_cons]
          have hat : (cmd0 :: args).drop idx = subcommand :: rest := by
            rw [hidx, hdrop]
            exact (congrArg (List.drop _) hargs).trans List.drop_left
          have hbehind : (cmd0 :: args).drop (idx + 1) = rest := by
            rw [← List.drop_drop, hat]
            rfl
          have hread : gitSubcommandArgsAreReadOnly rest = true := by
            rw [hbehind] at h
            split at h
            · exact (Bool.and_eq_true_iff.mp h).1
            · exact h
          rw [gitArgsTable_catches, Bool.not_eq_true', List.any_eq_false] at hread
          refine ⟨idx, subcommand, rest, hfinder.trans hfound, hdash, hargs, hat, ?_⟩
          intro word hword
          constructor
          · show word ∈ args
            rw [hargs]
            exact List.mem_append_right _ (List.mem_cons_of_mem subcommand hword)
          · simpa using hread word hword

/-- No flag that is set is listed exactly if no option word is a spelling that is missed. -/
theorem setBy_iff {S : OptionSyntax} {table : OptionTable} {args : List Text}
    (hcaught : ∀ word ∈ args, table.catches word = false) :
    (∀ flag ∈ Tools.setBy S args, flag ∉ table.flags) ↔
      ∀ word ∈ S.optionWords false args, ¬ table.Misses S word := by
  unfold Tools.setBy
  constructor
  · intro h word hword hmisses
    obtain ⟨hmem, hoption⟩ := OptionSyntax.mem_of_mem_optionWords args false hword
    obtain ⟨flag, hflag, hlisted⟩ := (sets_iff_misses hoption (hcaught word hmem)).mpr hmisses
    exact h flag (List.mem_flatMap.mpr ⟨word, hword, hflag⟩) hlisted
  · intro h flag hflag hlisted
    obtain ⟨word, hword, hflag⟩ := List.mem_flatMap.mp hflag
    obtain ⟨hmem, hoption⟩ := OptionSyntax.mem_of_mem_optionWords args false hword
    exact h word hword ((sets_iff_misses hoption (hcaught word hmem)).mp ⟨flag, hflag, hlisted⟩)

/-- Only names are in the second table of `git`. -/
theorem mem_gitArgsTable_flags {flag : Flag} :
    flag ∈ gitArgsTable.flags ↔ ∃ name ∈ gitArgsTable.names, flag = .long name := by
  constructor
  · intro h
    obtain ⟨name, hname, heq⟩ := List.mem_map.mp h
    exact ⟨name, hname, heq.symm⟩
  · rintro ⟨name, hname, rfl⟩
    exact long_mem_flags.mpr hname

/-- **The subcommand that is found is the one `git` runs** exactly if `git` reads all front words as
    options with their values. -/
theorem gitWords_eq_iff {tools : Tools} {args rest : List Text} {subcommand : Text}
    (hdash : subcommand.startsWith "-".toList = false)
    (hargs : args = frontWords false args ++ subcommand :: rest) :
    tools.gitWords args = subcommand :: rest ↔
      tools.git.passes false (frontWords false args) = true := by
  have hword : isOption subcommand = false := by
    unfold isOption
    split
    · simp [startsWith] at hdash
    · rfl
  have hend : subcommand ≠ endOfOptions := by
    rintro rfl
    exact absurd hdash (by decide)
  have hiff : (tools.git.readLeading false (frontWords false args ++ subcommand :: rest)).2 =
        subcommand :: rest ↔ tools.git.passes false (frontWords false args) = true :=
    OptionSyntax.readLeading_append_iff (frontWords false args) false hend hword
  rw [← hargs] at hiff
  exact hiff

/-- The options in front of the subcommand, of which only the first table is looked for. -/
theorem optionsBefore_iff {S : OptionSyntax} {options : List Text}
    (h : ∀ word ∈ options, isOption word = true ∧ gitGlobalTable.catches word = false) :
    (∀ flag ∈ options.flatMap S.flagsOf, flag ∉ gitGlobalTable.flags ++ gitArgsTable.flags) ↔
      ∀ word ∈ options, ¬ gitGlobalTable.Misses S word ∧
        ∀ name ∈ gitArgsTable.names, Flag.long name ∉ S.flagsOf word := by
  constructor
  · intro hunset word hword
    obtain ⟨hoption, hcaught⟩ := h word hword
    have hflags : ∀ flag ∈ S.flagsOf word, flag ∉ gitGlobalTable.flags ++ gitArgsTable.flags :=
      fun flag hflag => hunset flag (List.mem_flatMap.mpr ⟨word, hword, hflag⟩)
    constructor
    · intro hmisses
      obtain ⟨flag, hflag, hlisted⟩ := (sets_iff_misses hoption hcaught).mpr hmisses
      exact hflags flag hflag (List.mem_append_left _ hlisted)
    · intro name hname hflag
      exact hflags _ hflag (List.mem_append_right _ (long_mem_flags.mpr hname))
  · intro hnone flag hflag hlisted
    obtain ⟨word, hword, hflag⟩ := List.mem_flatMap.mp hflag
    obtain ⟨hoption, hcaught⟩ := h word hword
    obtain ⟨hmisses, hnames⟩ := hnone word hword
    rcases List.mem_append.mp hlisted with hlisted | hlisted
    · exact hmisses ((sets_iff_misses hoption hcaught).mp ⟨flag, hflag, hlisted⟩)
    · obtain ⟨name, hname, rfl⟩ := mem_gitArgsTable_flags.mp hlisted
      exact hnames name hname hflag

/-- The options behind the subcommand, where both tables are looked for. -/
theorem optionsBehind_iff {S : OptionSyntax}
    (h : ∀ word ∈ args, gitGlobalTable.catches word = false ∧ gitArgsTable.catches word = false) :
    (∀ flag ∈ Tools.setBy S args, flag ∉ gitGlobalTable.flags ++ gitArgsTable.flags) ↔
      ∀ word ∈ S.optionWords false args,
        ¬ gitGlobalTable.Misses S word ∧ ¬ gitArgsTable.Misses S word := by
  simp only [List.mem_append, not_or, forall_and]
  rw [setBy_iff fun word hword => (h word hword).1, setBy_iff fun word hword => (h word hword).2]

/-- The options of a `git` command whose subcommand is found. -/
theorem gitFlags_iff {subcommand : Text} {rest : List Text}
    (hglobal : ∀ word ∈ args, gitGlobalTable.catches word = false)
    (hwords : tools.gitWords args = subcommand :: rest)
    (hrest : ∀ word ∈ rest, word ∈ args ∧ gitArgsTable.catches word = false) :
    (∀ flag ∈ tools.gitFlags args, flag ∉ gitGlobalTable.flags ++ gitArgsTable.flags) ↔
      (∀ word ∈ tools.gitOptions args, ¬ gitGlobalTable.Misses tools.git word ∧
        ∀ name ∈ gitArgsTable.names, Flag.long name ∉ tools.git.flagsOf word) ∧
      ∀ word ∈ (tools.gitSubcommand subcommand).optionWords false rest,
        ¬ gitGlobalTable.Misses (tools.gitSubcommand subcommand) word ∧
          ¬ gitArgsTable.Misses (tools.gitSubcommand subcommand) word := by
  have hbefore : ∀ word ∈ tools.gitOptions args,
      isOption word = true ∧ gitGlobalTable.catches word = false := by
    intro word hword
    obtain ⟨hmem, hoption⟩ := OptionSyntax.mem_of_mem_readLeading args false hword
    exact ⟨hoption, hglobal word hmem⟩
  have hbehind : ∀ word ∈ rest,
      gitGlobalTable.catches word = false ∧ gitArgsTable.catches word = false :=
    fun word hword => ⟨hglobal word (hrest word hword).1, (hrest word hword).2⟩
  rw [← optionsBefore_iff hbefore, ← optionsBehind_iff hbehind, Tools.gitFlags, hwords]
  exact List.forall_mem_append

/-- **For which commands that are let through no listed option is set.** -/
theorem options_caught_iff (tools : Tools) (onLinux : Bool) (command : List Text)
    (h : isSafeToCallWithExec onLinux command = true) :
    Caught tools command ↔ NoneMissed tools command := by
  constructor
  · intro hset
    have hgit : Runs command "git" →
        tools.git.passes false (frontWords false (command.drop 1)) = true ∧
          ∃ subcommand rest, tools.gitWords (command.drop 1) = subcommand :: rest ∧
            ∀ word ∈ rest, word ∈ command.drop 1 ∧ gitArgsTable.catches word = false := by
      intro hruns
      obtain ⟨-, idx, subcommand, rest, hfound, hdash, hargs, hat, hrest⟩ := catches_git h hruns
      obtain ⟨idx', subcommand', hfound', hdrop, -⟩ := hset.subcommand hruns
      obtain ⟨rfl, -⟩ := Prod.mk.inj (Option.some.inj (hfound.symm.trans hfound'))
      have hwords := hdrop.trans hat
      exact ⟨(gitWords_eq_iff hdash hargs).mp hwords, subcommand, rest, hwords, hrest⟩
    constructor
    case base64 => exact fun hruns => (setBy_iff (catches_base64 h hruns)).mp (hset.base64 hruns)
    case ripgrep => exact fun hruns => (setBy_iff (catches_ripgrep h hruns)).mp (hset.ripgrep hruns)
    case before =>
      intro hruns
      obtain ⟨-, subcommand, rest, hwords, hrest⟩ := hgit hruns
      exact ((gitFlags_iff (catches_git h hruns).1 hwords hrest).mp (hset.git hruns)).1
    case behind =>
      intro hruns subcommand rest hwords
      obtain ⟨-, _, _, hwords', hrest⟩ := hgit hruns
      obtain ⟨rfl, rfl⟩ := List.cons_eq_cons.mp (hwords'.symm.trans hwords)
      exact ((gitFlags_iff (catches_git h hruns).1 hwords hrest).mp (hset.git hruns)).2
    case front => exact fun hruns => (hgit hruns).1
  · intro hnone
    constructor
    case base64 => exact fun hruns => (setBy_iff (catches_base64 h hruns)).mpr (hnone.base64 hruns)
    case ripgrep =>
      exact fun hruns => (setBy_iff (catches_ripgrep h hruns)).mpr (hnone.ripgrep hruns)
    case git =>
      intro hruns
      obtain ⟨hglobal, idx, subcommand, rest, -, hdash, hargs, -, hrest⟩ := catches_git h hruns
      have hwords := (gitWords_eq_iff hdash hargs).mpr (hnone.front hruns)
      exact (gitFlags_iff hglobal hwords hrest).mpr
        ⟨hnone.before hruns, hnone.behind hruns subcommand rest hwords⟩
    case subcommand =>
      intro hruns
      obtain ⟨-, idx, subcommand, rest, hfound, hdash, hargs, hat, -⟩ := catches_git h hruns
      have hwords := (gitWords_eq_iff hdash hargs).mpr (hnone.front hruns)
      exact ⟨idx, subcommand, hfound, hwords.trans hat.symm, congrArg List.head? hwords⟩

end LetThrough

/-! ### A bundle of letters -/

/-- Some options of the tools, among them those that take a value. -/
def someOptions (letters : List Char) (flags valued : List String) (abbreviates : Bool) :
    OptionSyntax :=
  { letterTakesValue := letters.contains
    names := (flags ++ valued).map String.toList
    nameTakesValue := (valued.map String.toList).contains
    abbreviates }

def someTools : Tools :=
  { base64 := someOptions ['b', 'i', 'o'] ["decode", "help"] ["break", "input", "output"] false
    ripgrep := someOptions ['e', 'f', 'g', 'm', 't'] ["search-zip", "files", "hidden"]
      ["pre", "hostname-bin", "glob", "type"] false
    git := someOptions ['C', 'c'] ["paginate", "no-pager", "bare"]
      ["git-dir", "work-tree", "namespace", "config-env", "attr-source"] true
    gitSubcommand := fun _ => someOptions ['n', 'S', 'G', 'O'] ["ext-diff", "textconv", "oneline"]
      ["output", "format", "max-count"] true }

def logCommand : List Text := ["git", "-C", "dir", "log", "-p", "--max", "3"].map String.toList

theorem logCommand_noneMissed : NoneMissed someTools logCommand :=
  (options_caught_iff someTools true logCommand (by decide)).mp
    { base64 := fun hruns => absurd hruns (by unfold Runs; decide)
      ripgrep := fun hruns => absurd hruns (by unfold Runs; decide)
      git := fun _ => by decide
      subcommand := fun _ => ⟨3, "log".toList, by decide⟩ }

/-- `base64 -Do out`: the letter `o` behind another one writes the file. -/
theorem bundledOutput_missed : ¬ ∀ (tools : Tools) (onLinux : Bool) (command : List Text),
    isSafeToCallWithExec onLinux command = true → Caught tools command := by
  intro h
  have hcaught := h someTools true (["base64", "-Do", "out"].map String.toList) (by decide)
  exact hcaught.base64 rfl (.short 'o') (by decide) (by decide)

end CodexMonitor.BashScripts
