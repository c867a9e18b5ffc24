import CodexMonitor.ExecPolicy.Parser
import CodexMonitor.ExecPolicy.Matching
import CodexMonitor.Lib.Accumulate

namespace CodexMonitor.ExecPolicy

/-!
# Exec policy — the examples of a rule in the built policy

The examples of a `prefix_rule` are checked at the end of their file, on a policy of the rules of
that call alone and with the host executables of the files so far.

* `parsePolicyFiles` — the files of a parser, in order, and `build`.
* `evalCall_append` — a builtin call appends what it adds to an empty builder.
* `validateExamples_ok`, `ownPolicy_matched_iff` — what the check says.
* `examples_inBuiltPolicy_iff` — what of it is left in the built policy: a later file may declare
  the host executable anew, and a rule for the literal first word comes first.
-/

variable {env : Env} {sl : Starlark}

/-! ### Several files -/

/-- `PolicyParser::new`, `parse` for each file, and `build`. -/
def parsePolicyFiles (env : Env) (sl : Starlark) (files : List Text) : Except Error Policy :=
  files.foldlM (parsePolicyFile env sl) .empty

/-- The check of examples is pending at the end of the file that follows the files `before`. -/
def PendingIn (env : Env) (sl : Starlark) (before : List Text) (contents : Text)
    (validation : PendingExampleValidation) : Prop :=
  ∃ policy calls builder, parsePolicyFiles env sl before = .ok policy ∧
    sl.evalModule contents = .ok calls ∧
      calls.foldlM (evalCall env sl) { policy := policy, pending := [] } = .ok builder ∧
        validation ∈ builder.pending

/-! ### What a call adds -/

def PolicyBuilder.empty : PolicyBuilder := { policy := .empty, pending := [] }

def PolicyBuilder.append (builder added : PolicyBuilder) : PolicyBuilder :=
  { policy := builder.policy.mergeOverlay added.policy
    pending := builder.pending ++ added.pending }

/-- What a call adds to an empty builder. -/
def callEffect (env : Env) (sl : Starlark) (call : BuiltinCall) : PolicyBuilder :=
  match evalCall env sl .empty call with
  | .ok builder => builder
  | .error _ => .empty

/-- A rule without a decision allows. -/
theorem evalCall_prefixRule_none (builder : PolicyBuilder)
    (pattern matchExamples notMatchExamples : List Value) (justification : Option Text) :
    evalCall env sl builder (.prefixRule pattern none matchExamples notMatchExamples justification) =
      evalCall env sl builder
        (.prefixRule pattern (some "allow".toList) matchExamples notMatchExamples justification) :=
  rfl

/-- **A call appends** what it adds to an empty builder. -/
theorem evalCall_append (builder : PolicyBuilder) (call : BuiltinCall) :
    evalCall env sl builder call = (evalCall env sl .empty call).map builder.append := by
  cases call with
  | prefixRule pattern decision matchExamples notMatchExamples justification =>
    wlog hdecision : ∃ raw, decision = some raw generalizing decision
    · obtain rfl : decision = none := by
        cases decision with
        | none => rfl
        | some raw => exact absurd ⟨raw, rfl⟩ hdecision
      rw [evalCall_prefixRule_none, evalCall_prefixRule_none]
      exact this _ ⟨_, rfl⟩
    · obtain ⟨raw, rfl⟩ := hdecision
      simp only [evalCall]
      cases parseDecision raw with
      | error e => rfl
      | ok decision =>
        cases parseJustification justification with
        | error e => rfl
        | ok justification =>
          cases parsePattern pattern with
          | error e => rfl
          | ok pattern =>
            cases matchExamples.mapM (parseExample sl) with
            | error e => rfl
            | ok matchExamples =>
              cases notMatchExamples.mapM (parseExample sl) with
              | error e => rfl
              | ok notMatchExamples =>
                simp [PolicyBuilder.append, PolicyBuilder.empty, Policy.mergeOverlay,
                  Policy.addRules, Policy.empty, bind, Except.bind, Except.map]
  | networkRule host protocol decision justification =>
    simp only [evalCall]
    cases NetworkRuleProtocol.parse protocol with
    | error e => rfl
    | ok protocol =>
      cases parseNetworkRuleDecision decision with
      | error e => rfl
      | ok decision =>
        cases parseJustification justification with
        | error e => rfl
        | ok justification =>
          cases normalizeNetworkRuleHost host with
          | error e => rfl
          | ok host =>
            simp [PolicyBuilder.append, PolicyBuilder.empty, Policy.mergeOverlay, Policy.empty,
              bind, Except.bind, Except.map]
  | hostExecutable name paths =>
    simp only [evalCall]
    cases validateHostExecutableName name with
    | error e => rfl
    | ok named =>
      cases paths.mapM (parseHostExecutablePath env name) with
      | error e => rfl
      | ok paths =>
        simp [PolicyBuilder.append, PolicyBuilder.empty, Policy.mergeOverlay, Policy.empty,
          bind, Except.bind, Except.map]
theorem evalCall_eq {builder builder' : PolicyBuilder} {call : BuiltinCall}
    (h : evalCall env sl builder call = .ok builder') :
    builder' = builder.append (callEffect env sl call) := by
  rw [evalCall_append] at h
  unfold callEffect
  cases hempty : evalCall env sl .empty call with
  | error e =>
    rw [hempty] at h
    cases h
  | ok added =>
    rw [hempty] at h
    exact (Except.ok.inj h).symm

/-- Only `prefix_rule` adds rules, together with the check of their examples. -/
theorem evalCall_empty_cases {call : BuiltinCall} {added : PolicyBuilder}
    (h : evalCall env sl .empty call = .ok added) :
    (∃ rules matchExamples notMatchExamples,
      added.policy.rulesByProgram = rules.map (fun rule => (rule.pattern.first, rule)) ∧
        added.pending = [⟨rules, matchExamples, notMatchExamples⟩]) ∨
    (added.policy.rulesByProgram = [] ∧ added.pending = []) := by
  cases call with
  | prefixRule pattern decision matchExamples notMatchExamples justification =>
    have hraw : ∃ raw, evalCall env sl .empty
        (.prefixRule pattern (some raw) matchExamples notMatchExamples justification) =
          .ok added := by
      cases decision with
      | none =>
        rw [evalCall_prefixRule_none] at h
        exact ⟨_, h⟩
      | some raw => exact ⟨raw, h⟩
    obtain ⟨raw, hraw⟩ := hraw
    simp only [evalCall] at hraw
    obtain ⟨decision, -, hraw⟩ := bind_eq_ok hraw
    obtain ⟨justification, -, hraw⟩ := bind_eq_ok hraw
    obtain ⟨pattern, -, hraw⟩ := bind_eq_ok hraw
    obtain ⟨matchExamples, -, hraw⟩ := bind_eq_ok hraw
    obtain ⟨notMatchExamples, -, hraw⟩ := bind_eq_ok hraw
    obtain rfl := Except.ok.inj hraw
    exact .inl ⟨prefixRules pattern.1 pattern.2 decision justification, _, _, rfl, rfl⟩
  | networkRule host protocol decision justification =>
    simp only [evalCall] at h
    obtain ⟨protocol, -, h⟩ := bind_eq_ok h
    obtain ⟨decision, -, h⟩ := bind_eq_ok h
    obtain ⟨justification, -, h⟩ := bind_eq_ok h
    obtain ⟨host, -, h⟩ := bind_eq_ok h
    obtain rfl := Except.ok.inj h
    exact .inr ⟨rfl, rfl⟩
  | hostExecutable name paths =>
    simp only [evalCall] at h
    obtain ⟨named, -, h⟩ := bind_eq_ok h
    obtain ⟨paths, -, h⟩ := bind_eq_ok h
    obtain rfl := Except.ok.inj h
    exact .inr ⟨rfl, rfl⟩

/-- The rules of a call are keyed by their first word, and its examples are those of its rules. -/
theorem callEffect_rules (call : BuiltinCall) :
    (∀ entry ∈ (callEffect env sl call).policy.rulesByProgram,
      entry.1 = entry.2.pattern.first) ∧
    ∀ validation ∈ (callEffect env sl call).pending, ∀ rule ∈ validation.rules,
      (rule.pattern.first, rule) ∈ (callEffect env sl call).policy.rulesByProgram := by
  unfold callEffect
  cases hempty : evalCall env sl .empty call with
  | error e =>
    constructor
    · intro entry h
      cases h
    · intro validation h
      cases h
  | ok added =>
    rcases evalCall_empty_cases hempty with ⟨rules, _, _, hrules, hpending⟩ | ⟨hrules, hpending⟩
    · simp only [hrules, hpending]
      constructor
      · intro entry h
        obtain ⟨rule, -, rfl⟩ := List.mem_map.mp h
        rfl
      · intro validation h rule hrule
        obtain rfl := List.mem_singleton.mp h
        exact List.mem_map.mpr ⟨rule, hrule, rfl⟩
    · simp only [hrules, hpending]
      constructor
      · intro entry h
        cases h
      · intro validation h
        cases h

/-! ### What files add -/

/-- The calls a file makes. -/
def fileCalls (sl : Starlark) (contents : Text) : List BuiltinCall :=
  match sl.evalModule contents with
  | .ok calls => calls
  | .error _ => []

/-- Policies laid over each other. -/
def overlays (policies : List Policy) : Policy :=
  { rulesByProgram := policies.flatMap Policy.rulesByProgram
    networkRules := policies.flatMap Policy.networkRules
    hostExecutablesByName := policies.flatMap Policy.hostExecutablesByName }

/-- What the calls add to a policy. -/
def callsEffect (env : Env) (sl : Starlark) (calls : List BuiltinCall) : Policy :=
  overlays (calls.map fun call => (callEffect env sl call).policy)

/-- What the files add to a policy. -/
def filesEffect (env : Env) (sl : Starlark) (files : List Text) : Policy :=
  overlays (files.map fun contents => callsEffect env sl (fileCalls sl contents))

/-- A fold whose steps overlay a policy. -/
theorem foldlM_overlays {α σ : Type} {step : σ → α → Except Error σ} (view : σ → Policy)
    {effect : α → Policy}
    (hstep : ∀ {s a s'}, step s a = .ok s' → view s' = (view s).mergeOverlay (effect a))
    {l : List α} {start last : σ} (h : l.foldlM step start = .ok last) :
    view last = (view start).mergeOverlay (overlays (l.map effect)) := by
  have hrules := foldlM_accumulates (fun s => (view s).rulesByProgram)
    (fun a => (effect a).rulesByProgram) (fun hs => by rw [hstep hs]; rfl) h
  have hnetwork := foldlM_accumulates (fun s => (view s).networkRules)
    (fun a => (effect a).networkRules) (fun hs => by rw [hstep hs]; rfl) h
  have hhosts := foldlM_accumulates (fun s => (view s).hostExecutablesByName)
    (fun a => (effect a).hostExecutablesByName) (fun hs => by rw [hstep hs]; rfl) h
  cases hlast : view last with
  | mk rules network hosts =>
    rw [hlast] at hrules hnetwork hhosts
    simp only at hrules hnetwork hhosts
    subst hrules hnetwork hhosts
    simp only [Policy.mergeOverlay, overlays, List.flatMap_map]

theorem foldlM_evalCall {calls : List BuiltinCall} {builder builder' : PolicyBuilder}
    (h : calls.foldlM (evalCall env sl) builder = .ok builder') :
    builder'.policy = builder.policy.mergeOverlay (callsEffect env sl calls) ∧
      builder'.pending =
        builder.pending ++ calls.flatMap fun call => (callEffect env sl call).pending := by
  constructor
  · refine foldlM_overlays PolicyBuilder.policy (fun hb => ?_) h
    rw [evalCall_eq hb]
    rfl
  · refine foldlM_accumulates PolicyBuilder.pending _ (fun hb => ?_) h
    rw [evalCall_eq hb]
    rfl

/-- **A file that is accepted**: its calls fill the builder, and its examples pass. -/
theorem parsePolicyFile_ok {policy policy' : Policy} {contents : Text}
    (h : parsePolicyFile env sl policy contents = .ok policy') :
    ∃ builder, (fileCalls sl contents).foldlM (evalCall env sl)
        { policy := policy, pending := [] } = .ok builder ∧
      builder.pending.forM (validateExamples env builder.policy.hostExecutablesByName) =
        .ok ⟨⟩ ∧ builder.policy = policy' := by
  unfold parsePolicyFile at h
  unfold fileCalls
  cases heval : sl.evalModule contents with
  | error message =>
    rw [heval] at h
    cases h
  | ok calls =>
    rw [heval] at h
    obtain ⟨builder, hbuilder, h⟩ := bind_eq_ok h
    obtain ⟨checked, hchecked, h⟩ := bind_eq_ok h
    exact ⟨builder, hbuilder, hchecked, Except.ok.inj h⟩

theorem foldlM_parsePolicyFile {files : List Text} {policy policy' : Policy}
    (h : files.foldlM (parsePolicyFile env sl) policy = .ok policy') :
    policy' = policy.mergeOverlay (filesEffect env sl files) := by
  refine foldlM_overlays id (fun hfile => ?_) h
  obtain ⟨builder, hbuilder, -, rfl⟩ := parsePolicyFile_ok hfile
  exact (foldlM_evalCall hbuilder).1

/-! ### Policies keyed by first words -/

variable {policy : Policy} {cmd : List Text} {rule : PrefixRule}

/-- Every rule is kept under the first word of its pattern. -/
def Policy.Keyed (policy : Policy) : Prop :=
  ∀ entry ∈ policy.rulesByProgram, entry.1 = entry.2.pattern.first

def Policy.HasRule (policy : Policy) (rule : PrefixRule) : Prop :=
  (rule.pattern.first, rule) ∈ policy.rulesByProgram

theorem mem_rulesFor {program : Text} :
    rule ∈ policy.rulesFor program ↔ (program, rule) ∈ policy.rulesByProgram := by
  unfold Policy.rulesFor
  rw [List.mem_map]
  constructor
  · rintro ⟨⟨key, kept⟩, hfound, rfl⟩
    have hkey : key = program := eq_of_beq (List.mem_filter.mp hfound).2
    rw [← hkey]
    exact (List.mem_filter.mp hfound).1
  · intro h
    exact ⟨_, List.mem_filter.mpr ⟨h, beq_self_eq_true _⟩, rfl⟩

/-- A rule of the policy is looked up for the words it matches. -/
theorem Policy.HasRule.mem_rulesFor_of_matches {first : Text} {args : List Text}
    (h : policy.HasRule rule) (hmatch : (rule.matches (first :: args)).isSome) :
    rule ∈ policy.rulesFor first := by
  obtain ⟨rfl, -⟩ := isSome_matches_iff.mp hmatch
  exact mem_rulesFor.mpr h

theorem Policy.Keyed.hasRule {program : Text} (h : policy.Keyed)
    (hrule : rule ∈ policy.rulesFor program) : policy.HasRule rule := by
  have hmem := mem_rulesFor.mp hrule
  obtain rfl : program = rule.pattern.first := h _ hmem
  exact hmem

theorem Policy.Keyed.exactMatch_iff (h : policy.Keyed) :
    ExactMatch policy cmd ↔ ∃ rule, policy.HasRule rule ∧ (rule.matches cmd).isSome := by
  constructor
  · rintro ⟨first, args, rfl, rule, hrule, hmatch⟩
    exact ⟨rule, h.hasRule hrule, hmatch⟩
  · rintro ⟨rule, hrule, hmatch⟩
    cases cmd with
    | nil => cases hmatch
    | cons first args =>
      exact ⟨first, args, rfl, rule, hrule.mem_rulesFor_of_matches hmatch, hmatch⟩

/-- **When a rule of the policy matches.** -/
theorem Policy.HasRule.matchedBy_iff (h : policy.HasRule rule) :
    policy.MatchedBy env cmd rule ↔ (rule.matches cmd).isSome ∨
      (¬ ExactMatch policy cmd ∧ ∃ program basename,
        resolvedProgram? env cmd = some (program, basename) ∧
          policy.admitsHostExecutable program basename = true ∧
            (rule.matches (basename :: cmd.tail)).isSome) := by
  rw [ExecPolicy.matchedBy_iff]
  constructor
  · rintro (⟨first, args, rfl, -, hmatch⟩ |
      ⟨hexact, program, basename, hprogram, hadmits, -, hmatch⟩)
    · exact .inl hmatch
    · exact .inr ⟨hexact, program, basename, hprogram, hadmits, hmatch⟩
  · rintro (hmatch | ⟨hexact, program, basename, hprogram, hadmits, hmatch⟩)
    · cases cmd with
      | nil => cases hmatch
      | cons first args =>
        exact .inl ⟨first, args, rfl, h.mem_rulesFor_of_matches hmatch, hmatch⟩
    · exact .inr ⟨hexact, program, basename, hprogram, hadmits,
        h.mem_rulesFor_of_matches hmatch, hmatch⟩

/-! ### At load -/

variable {hosts : List (Text × List AbsPath)} {validation : PendingExampleValidation}

/-- The policy that examples are checked on. -/
def ownPolicy (hosts : List (Text × List AbsPath)) (rules : List PrefixRule) : Policy :=
  { Policy.empty.addRules rules with hostExecutablesByName := hosts }

theorem ownPolicy_hasRule_iff {rules : List PrefixRule} :
    (ownPolicy hosts rules).HasRule rule ↔ rule ∈ rules := by
  show (rule.pattern.first, rule) ∈
    ([] : List (Text × PrefixRule)) ++ rules.map (fun rule => (rule.pattern.first, rule)) ↔ _
  rw [List.nil_append, List.mem_map]
  constructor
  · rintro ⟨kept, hmem, heq⟩
    obtain ⟨-, rfl⟩ := Prod.mk.inj heq
    exact hmem
  · exact fun h => ⟨rule, h, rfl⟩

theorem ownPolicy_keyed (hosts : List (Text × List AbsPath)) (rules : List PrefixRule) :
    (ownPolicy hosts rules).Keyed := by
  intro entry h
  have hmem : entry ∈ rules.map fun rule => (rule.pattern.first, rule) := h
  obtain ⟨rule, -, rfl⟩ := List.mem_map.mp hmem
  rfl

/-- **What the check of examples says.** -/
theorem validateExamples_ok (h : validateExamples env hosts validation = .ok ⟨⟩) :
    (∀ e ∈ validation.notMatchExamples,
      (ownPolicy hosts validation.rules).matchedRules env e resolving = []) ∧
    ∀ e ∈ validation.matchExamples,
      (ownPolicy hosts validation.rules).matchedRules env e resolving ≠ [] := by
  unfold validateExamples at h
  simp only at h
  split at h
  · cases h
  · next hfind =>
    split at h
    · next hfilter =>
      constructor
      · intro e he
        have hnot : ¬ (!((ownPolicy hosts validation.rules).matchedRules env e
            resolving).isEmpty) = true := List.find?_eq_none.mp hfind e he
        simpa using hnot
      · intro e he
        have hnot : ¬ (!!((ownPolicy hosts validation.rules).matchedRules env e
            resolving).isEmpty) = true := List.filter_eq_nil_iff.mp hfilter e he
        simpa using hnot
    · cases h

/-- The word of a command is resolved to a program for whose base name a rule matches. -/
def MatchesByName (env : Env) (cmd : List Text) (rule : PrefixRule) (program : AbsPath)
    (basename : Text) : Prop :=
  resolvedProgram? env cmd = some (program, basename) ∧
    (rule.matches (basename :: cmd.tail)).isSome

/-- **Rules on their own** match a command by its words, or by the base name of a program that the
    host executables admit. -/
theorem ownPolicy_matched_iff {rules : List PrefixRule} :
    (ownPolicy hosts rules).matchedRules env cmd resolving ≠ [] ↔
      (∃ rule ∈ rules, (rule.matches cmd).isSome) ∨
      ∃ rule ∈ rules, ∃ program basename, MatchesByName env cmd rule program basename ∧
        (ownPolicy hosts rules).admitsHostExecutable program basename = true := by
  rw [Ne, matchedRules_eq_nil_iff, not_and_or, not_not, not_not,
    (ownPolicy_keyed hosts rules).exactMatch_iff]
  simp only [ownPolicy_hasRule_iff]
  refine or_congr Iff.rfl ?_
  constructor
  · rintro ⟨program, basename, hprogram, hadmits, rule, hrule, hmatch⟩
    have hmem := ownPolicy_hasRule_iff.mp ((ownPolicy_keyed hosts rules).hasRule hrule)
    exact ⟨rule, hmem, program, basename, ⟨hprogram, hmatch⟩, hadmits⟩
  · rintro ⟨rule, hmem, program, basename, ⟨hprogram, hmatch⟩, hadmits⟩
    have hrule : (ownPolicy hosts rules).HasRule rule := ownPolicy_hasRule_iff.mpr hmem
    exact ⟨program, basename, hprogram, hadmits, rule, hrule.mem_rulesFor_of_matches hmatch,
      hmatch⟩

/-! ### The built policy -/

variable {before after : List Text} {contents : Text}

theorem admits_congr {policy policy' : Policy}
    (h : policy.hostExecutablesByName = policy'.hostExecutablesByName) (program : AbsPath)
    (basename : Text) : policy.admitsHostExecutable program basename =
      policy'.admitsHostExecutable program basename := by
  unfold Policy.admitsHostExecutable Policy.hostPaths
  rw [h]

/-- **What is known of a file once the policy is built**: its examples passed on the policy at its
    end, which the later files overlay. -/
theorem built_of_pending {policy : Policy}
    (hbuilt : parsePolicyFiles env sl (before ++ contents :: after) = .ok policy)
    (hpending : PendingIn env sl before contents validation) :
    ∃ ended : Policy, validateExamples env ended.hostExecutablesByName validation = .ok ⟨⟩ ∧
      (∀ rule ∈ validation.rules, ended.HasRule rule) ∧
        policy = ended.mergeOverlay (filesEffect env sl after) := by
  obtain ⟨start, hstart, hrest⟩ := foldlM_split hbuilt
  rw [List.foldlM_cons] at hrest
  obtain ⟨ended, hfile, hafter⟩ := bind_eq_ok hrest
  obtain ⟨builder, hbuilder, hchecked, rfl⟩ := parsePolicyFile_ok hfile
  obtain ⟨start', calls, builder', hstart', hcalls, hbuilder', hmem⟩ := hpending
  obtain rfl : start' = start := Except.ok.inj (hstart'.symm.trans hstart)
  have hfileCalls : fileCalls sl contents = calls := by
    unfold fileCalls
    rw [hcalls]
  rw [hfileCalls, hbuilder'] at hbuilder
  obtain rfl := Except.ok.inj hbuilder
  obtain ⟨hpolicy, hpendings⟩ := foldlM_evalCall hbuilder'
  refine ⟨builder'.policy, forM_ok hchecked hmem, ?_, foldlM_parsePolicyFile hafter⟩
  intro rule hrule
  rw [hpendings, List.nil_append] at hmem
  obtain ⟨call, hcall, hmem⟩ := List.mem_flatMap.mp hmem
  have hkept := (callEffect_rules call).2 validation hmem rule hrule
  unfold Policy.HasRule
  rw [hpolicy]
  refine List.mem_append_right _ (List.mem_flatMap.mpr ⟨_, List.mem_map.mpr ⟨call, hcall, rfl⟩, ?_⟩)
  exact hkept

/-- A rule of one of the files matches the words of the command as they stand. -/
def MatchedLiterally (env : Env) (sl : Starlark) (files : List Text) (cmd : List Text) : Prop :=
  ∃ entry ∈ (filesEffect env sl files).rulesByProgram, (entry.2.matches cmd).isSome

theorem filesEffect_keyed (files : List Text) : (filesEffect env sl files).Keyed := by
  intro entry h
  obtain ⟨effect, heffect, hmem⟩ := List.mem_flatMap.mp h
  obtain ⟨contents, -, rfl⟩ := List.mem_map.mp heffect
  obtain ⟨added, hadded, hmem⟩ := List.mem_flatMap.mp hmem
  obtain ⟨call, -, rfl⟩ := List.mem_map.mp hadded
  exact (callEffect_rules call).1 entry hmem

theorem exactMatch_built_iff {policy : Policy} {files : List Text}
    (hbuilt : parsePolicyFiles env sl files = .ok policy) :
    ExactMatch policy cmd ↔ MatchedLiterally env sl files cmd := by
  have hkeyed : (filesEffect env sl files).Keyed := filesEffect_keyed files
  obtain rfl := foldlM_parsePolicyFile hbuilt
  have hrules : ∀ program : Text, (Policy.empty.mergeOverlay (filesEffect env sl files)).rulesFor
      program = (filesEffect env sl files).rulesFor program := by
    intro program
    rw [rulesFor_mergeOverlay]
    rfl
  have hexact : ExactMatch (Policy.empty.mergeOverlay (filesEffect env sl files)) cmd ↔
      ExactMatch (filesEffect env sl files) cmd := by
    unfold ExactMatch
    simp only [hrules]
  rw [hexact, hkeyed.exactMatch_iff]
  constructor
  · rintro ⟨rule, hrule, hmatch⟩
    exact ⟨_, hrule, hmatch⟩
  · rintro ⟨entry, hentry, hmatch⟩
    refine ⟨entry.2, ?_, hmatch⟩
    have hkey := hkeyed entry hentry
    unfold Policy.HasRule
    rw [← hkey]
    exact hentry

/-- The program is admitted after the later files too. -/
theorem admits_built_iff {ended later : Policy} {program : AbsPath} {basename : Text} :
    (ended.mergeOverlay later).admitsHostExecutable program basename = true ↔
      (∃ paths, later.hostPaths basename = some paths ∧ program ∈ paths) ∨
      (later.hostPaths basename = none ∧ ended.admitsHostExecutable program basename = true) := by
  rw [admitsHostExecutable_mergeOverlay]
  unfold Policy.admitsHostExecutable
  cases later.hostPaths basename with
  | none => simp
  | some paths => simp

/-- **What is left of the examples in the built policy.**  A `match` example is matched by a rule of
    its own call if its words are, or if no rule of any file matches its words and a later file that
    declares the host executable lists its program.  A `not_match` example is matched by one if no
    rule of any file matches its words and a later file lists its program. -/
theorem examples_inBuiltPolicy_iff {policy : Policy}
    (hbuilt : parsePolicyFiles env sl (before ++ contents :: after) = .ok policy)
    (hpending : PendingIn env sl before contents validation) :
    (∀ e ∈ validation.matchExamples,
      ((∃ rule ∈ validation.rules, policy.MatchedBy env e rule) ↔
        (∃ rule ∈ validation.rules, (rule.matches e).isSome) ∨
        (¬ MatchedLiterally env sl (before ++ contents :: after) e ∧
          ∀ program basename paths, resolvedProgram? env e = some (program, basename) →
            (filesEffect env sl after).hostPaths basename = some paths → program ∈ paths))) ∧
    ∀ e ∈ validation.notMatchExamples,
      ((∃ rule ∈ validation.rules, policy.MatchedBy env e rule) ↔
        ¬ MatchedLiterally env sl (before ++ contents :: after) e ∧
        ∃ rule ∈ validation.rules, ∃ program basename, MatchesByName env e rule program basename ∧
          ∃ paths, (filesEffect env sl after).hostPaths basename = some paths ∧
            program ∈ paths) := by
  obtain ⟨ended, hchecked, hrules, hpolicy⟩ := built_of_pending hbuilt hpending
  obtain ⟨hnotMatch, hmatch⟩ := validateExamples_ok hchecked
  have hkept : ∀ rule ∈ validation.rules, policy.HasRule rule := by
    intro rule hrule
    rw [hpolicy]
    exact List.mem_append_left _ (hrules rule hrule)
  have hadmits : ∀ program basename,
      (ownPolicy ended.hostExecutablesByName validation.rules).admitsHostExecutable program
        basename = ended.admitsHostExecutable program basename := admits_congr rfl
  constructor
  · intro e he
    have hload := ownPolicy_matched_iff.mp (hmatch e he)
    constructor
    · rintro ⟨rule, hrule, hmatched⟩
      rcases (hkept rule hrule).matchedBy_iff.mp hmatched with hwords |
        ⟨hexact, program, basename, hprogram, hadmitted, hname⟩
      · exact .inl ⟨rule, hrule, hwords⟩
      · refine .inr ⟨fun h => hexact ((exactMatch_built_iff hbuilt).mpr h), ?_⟩
        intro program' basename' paths hprogram' hpaths
        obtain ⟨rfl, rfl⟩ := Prod.mk.inj (Option.some.inj (hprogram.symm.trans hprogram'))
        rw [hpolicy, admits_built_iff] at hadmitted
        rcases hadmitted with ⟨paths', hpaths', hmem⟩ | ⟨hnone, -⟩
        · obtain rfl := Option.some.inj (hpaths'.symm.trans hpaths)
          exact hmem
        · rw [hnone] at hpaths
          cases hpaths
    · rintro (⟨rule, hrule, hwords⟩ | ⟨hliteral, hlater⟩)
      · exact ⟨rule, hrule, (hkept rule hrule).matchedBy_iff.mpr (.inl hwords)⟩
      · rcases hload with ⟨rule, hrule, hwords⟩ |
          ⟨rule, hrule, program, basename, ⟨hprogram, hname⟩, hadmitted⟩
        · exact ⟨rule, hrule, (hkept rule hrule).matchedBy_iff.mpr (.inl hwords)⟩
        · refine ⟨rule, hrule, (hkept rule hrule).matchedBy_iff.mpr (.inr ⟨?_, program, basename,
            hprogram, ?_, hname⟩)⟩
          · exact fun h => hliteral ((exactMatch_built_iff hbuilt).mp h)
          · rw [hadmits] at hadmitted
            rw [hpolicy, admits_built_iff]
            cases hpaths : (filesEffect env sl after).hostPaths basename with
            | none => exact .inr ⟨rfl, hadmitted⟩
            | some paths => exact .inl ⟨paths, rfl, hlater program basename paths hprogram hpaths⟩
  · intro e he
    have hload := mt ownPolicy_matched_iff.mpr (not_not.mpr (hnotMatch e he))
    rw [not_or] at hload
    constructor
    · rintro ⟨rule, hrule, hmatched⟩
      rcases (hkept rule hrule).matchedBy_iff.mp hmatched with hwords |
        ⟨hexact, program, basename, hprogram, hadmitted, hname⟩
      · exact absurd ⟨rule, hrule, hwords⟩ hload.1
      · refine ⟨fun h => hexact ((exactMatch_built_iff hbuilt).mpr h), rule, hrule, program, basename,
          ⟨hprogram, hname⟩, ?_⟩
        rw [hpolicy, admits_built_iff] at hadmitted
        rcases hadmitted with hlisted | ⟨-, hended⟩
        · exact hlisted
        · rw [← hadmits] at hended
          exact absurd ⟨rule, hrule, program, basename, ⟨hprogram, hname⟩, hended⟩ hload.2
    · rintro ⟨hliteral, rule, hrule, program, basename, ⟨hprogram, hname⟩, hlisted⟩
      refine ⟨rule, hrule, (hkept rule hrule).matchedBy_iff.mpr (.inr ⟨?_, program, basename,
        hprogram, ?_, hname⟩)⟩
      · exact fun h => hliteral ((exactMatch_built_iff hbuilt).mp h)
      · rw [hpolicy, admits_built_iff]
        exact .inl hlisted

/-! ### Two files -/

/-- A rule for `git` with an example of its program, and a later file that lets another program use
    the rules for `git`. -/
def gitStarlark : Starlark :=
  { evalModule := fun contents =>
      if contents = "rules".toList then
        .ok [.prefixRule [.str "git".toList] none
          [.list [.str "/usr/bin/git".toList, .str "status".toList]] [] none]
      else
        .ok [.hostExecutable "git".toList [.str "/opt/git".toList]]
    shlexSplit := fun _ => none }

/-- The example of `git` in a policy of the first file only. -/
theorem examples_inBuiltPolicy_gitOnly :
    ∃ policy validation, parsePolicyFiles ⟨none, none⟩ gitStarlark ["rules".toList] = .ok policy ∧
      PendingIn ⟨none, none⟩ gitStarlark [] "rules".toList validation ∧
      ∀ e ∈ validation.matchExamples,
        ((∃ rule ∈ validation.rules, policy.MatchedBy ⟨none, none⟩ e rule) ↔
          (∃ rule ∈ validation.rules, (rule.matches e).isSome) ∨
          (¬ MatchedLiterally ⟨none, none⟩ gitStarlark ["rules".toList] e ∧
            ∀ program basename paths,
              resolvedProgram? ⟨none, none⟩ e = some (program, basename) →
              (filesEffect ⟨none, none⟩ gitStarlark []).hostPaths basename = some paths →
                program ∈ paths)) := by
  have hbuilt : ∃ policy,
      parsePolicyFiles ⟨none, none⟩ gitStarlark ([] ++ "rules".toList :: []) = .ok policy :=
    ⟨_, rfl⟩
  have hpending : ∃ validation,
      PendingIn ⟨none, none⟩ gitStarlark [] "rules".toList validation :=
    ⟨_, _, _, _, rfl, rfl, rfl, List.mem_singleton.mpr rfl⟩
  obtain ⟨policy, hbuilt⟩ := hbuilt
  obtain ⟨validation, hpending⟩ := hpending
  exact ⟨policy, validation, hbuilt, hpending, (examples_inBuiltPolicy_iff hbuilt hpending).1⟩

/-- The policy of both files. -/
def gitPolicy : Policy :=
  { (Policy.empty.addRules (prefixRules (.single "git".toList) [] .allow none)) with
    hostExecutablesByName := [("git".toList, [["opt".toList, "git".toList]])] }

/-- With the second file `/usr/bin/git status` is matched by no rule. -/
theorem gitExample_lost :
    ∃ policy validation,
      parsePolicyFiles ⟨none, none⟩ gitStarlark ["rules".toList, "hosts".toList] = .ok policy ∧
      PendingIn ⟨none, none⟩ gitStarlark [] "rules".toList validation ∧
      ["/usr/bin/git".toList, "status".toList] ∈ validation.matchExamples ∧
      ¬ ∃ rule ∈ validation.rules, policy.MatchedBy ⟨none, none⟩
        ["/usr/bin/git".toList, "status".toList] rule := by
  refine ⟨gitPolicy, _, rfl, ⟨_, _, _, rfl, rfl, rfl, List.mem_singleton.mpr rfl⟩,
    List.mem_singleton.mpr rfl, ?_⟩
  rintro ⟨rule, -, ruleMatch, hmem, -⟩
  have hnil : gitPolicy.matchesForCommandWithOptions ⟨none, none⟩
      ["/usr/bin/git".toList, "status".toList] none resolving = [] := by
    decide +kernel
  rw [hnil] at hmem
  cases hmem

end CodexMonitor.ExecPolicy
