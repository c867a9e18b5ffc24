import CodexMonitor.ExecPolicy.Load
import Mathlib.Order.MinMax

namespace CodexMonitor.ExecPolicy

/-!
# Exec policy — when the requirements keep their say

The exec policy `R` of the requirements is merged on top of the policy `U` of the rules
files.  A command that a rule of `R` matches should be judged at least as strictly as `R`
alone judges it.  Three things can come between a rule of `R` and the command:

* a rules file that does not parse, which empties the whole policy;
* a rule of `U` for the literal first token, which ends the matching before the basename
  stage where `R` matches (`ExactRuleShadows`);
* a `host_executable` entry of `U` that does not list the program (`HostEntryBlocks`).

`installed_keepsStrictness_iff` says that these are the only ways, and what must then be
true of the decision that takes `R`'s place.
-/

variable {ms ns : List RuleMatch} {U R : Policy} {env : Env} {cmd : List Text}

/-! ### The strictest decision -/

/-- Each match on the left is met by one on the right that is at least as strict. -/
def Covers (ms ns : List RuleMatch) : Prop := ∀ m ∈ ms, ∃ n ∈ ns, m.decision ≤ n.decision

theorem foldl_max_le_iff (d b : Decision) (ms : List RuleMatch) :
    ms.foldl (fun d m => max d m.decision) d ≤ b ↔ d ≤ b ∧ ∀ m ∈ ms, m.decision ≤ b := by
  induction ms generalizing d with
  | nil => simp
  | cons m ms ih =>
    rw [List.foldl_cons, ih, max_le_iff, List.forall_mem_cons, and_assoc]

/-- The strictest decision is the least bound of the decisions. -/
theorem strictest_le_iff {d : Decision} (h : strictest ms = some d) (b : Decision) :
    d ≤ b ↔ ∀ m ∈ ms, m.decision ≤ b := by
  cases ms with
  | nil => exact absurd h (by simp [strictest])
  | cons m ms =>
    simp only [strictest, Option.some.injEq] at h
    rw [← h, foldl_max_le_iff, List.forall_mem_cons]

theorem decision_le_strictest {d : Decision} (h : strictest ms = some d) {m : RuleMatch}
    (hm : m ∈ ms) : m.decision ≤ d :=
  (strictest_le_iff h d).mp le_rfl m hm

theorem foldl_max_mem (d : Decision) (ms : List RuleMatch) :
    ms.foldl (fun d m => max d m.decision) d = d ∨
      ∃ m ∈ ms, m.decision = ms.foldl (fun d m => max d m.decision) d := by
  induction ms generalizing d with
  | nil => exact .inl rfl
  | cons m ms ih =>
    rw [List.foldl_cons]
    rcases ih (max d m.decision) with h | ⟨n, hn, hnd⟩
    · rw [h]
      rcases max_choice d m.decision with hd | hm
      · exact .inl hd
      · exact .inr ⟨m, by simp, hm.symm⟩
    · exact .inr ⟨n, by simp [hn], hnd⟩

/-- The strictest decision is one of the decisions. -/
theorem strictest_mem {d : Decision} (h : strictest ms = some d) :
    ∃ m ∈ ms, m.decision = d := by
  cases ms with
  | nil => exact absurd h (by simp [strictest])
  | cons m ms =>
    simp only [strictest, Option.some.injEq] at h
    rcases foldl_max_mem m.decision ms with hm | ⟨n, hn, hnd⟩
    · exact ⟨m, by simp, hm.symm.trans h⟩
    · exact ⟨n, by simp [hn], hnd.trans h⟩

theorem strictest_isSome (h : ms ≠ []) : ∃ d, strictest ms = some d := by
  cases ms with
  | nil => exact absurd rfl h
  | cons m ms => exact ⟨_, rfl⟩

/-- **Comparing strictest decisions.** One list decides at least as strictly as another
    exactly when it covers it. -/
theorem strictest_le_strictest_iff {d e : Decision} (hd : strictest ms = some d)
    (he : strictest ns = some e) : d ≤ e ↔ Covers ms ns := by
  constructor
  · intro hle m hm
    -- the strictest of `ns` covers every one of `ms`
    obtain ⟨n, hn, rfl⟩ := strictest_mem he
    exact ⟨n, hn, (decision_le_strictest hd hm).trans hle⟩
  · intro hcov
    rw [strictest_le_iff hd]
    intro m hm
    obtain ⟨n, hn, hmn⟩ := hcov m hm
    exact hmn.trans (decision_le_strictest he hn)

theorem covers_append_right (us : List RuleMatch) : Covers ms (us ++ ms) :=
  fun m hm => ⟨m, List.mem_append_right us hm, le_rfl⟩

/-! ### Matching against an overlaid policy -/

theorem rulesFor_mergeOverlay (program : Text) :
    (U.mergeOverlay R).rulesFor program = U.rulesFor program ++ R.rulesFor program := by
  simp [Policy.rulesFor, Policy.mergeOverlay]

/-- The exact stage sees the rules of both policies. -/
theorem matchExactRules_mergeOverlay (cmd : List Text) :
    (U.mergeOverlay R).matchExactRules cmd = U.matchExactRules cmd ++ R.matchExactRules cmd := by
  cases cmd with
  | nil => rfl
  | cons first args => simp [Policy.matchExactRules, rulesFor_mergeOverlay]

/-- A host entry of the overlay wins; without one the base policy's entry stays. -/
theorem hostPaths_mergeOverlay (name : Text) :
    (U.mergeOverlay R).hostPaths name = (R.hostPaths name).or (U.hostPaths name) := by
  simp only [Policy.hostPaths, Policy.mergeOverlay, List.reverse_append, List.find?_append]
  cases R.hostExecutablesByName.reverse.find? fun entry => entry.1 == name <;> rfl

theorem admitsHostExecutable_mergeOverlay (program : AbsPath) (name : Text) :
    (U.mergeOverlay R).admitsHostExecutable program name =
      if (R.hostPaths name).isSome then R.admitsHostExecutable program name
      else U.admitsHostExecutable program name := by
  simp only [Policy.admitsHostExecutable, hostPaths_mergeOverlay]
  cases R.hostPaths name <;> rfl

/-- The basename stage sees the rules of both policies when the program is admitted. -/
theorem matchHostExecutableRules_mergeOverlay {program : AbsPath} {basename : Text}
    (hres : resolvedProgram? env cmd = some (program, basename))
    (hU : (U.mergeOverlay R).admitsHostExecutable program basename = true)
    (hR : R.admitsHostExecutable program basename = true) :
    ∃ us, (U.mergeOverlay R).matchHostExecutableRules env cmd =
      us ++ R.matchHostExecutableRules env cmd := by
  simp only [Policy.matchHostExecutableRules, hres, hU, hR, if_true, rulesFor_mergeOverlay,
    List.filterMap_append, List.map_append]
  exact ⟨_, rfl⟩

/-! ### The decision of a policy -/

variable {fallback : List Text → Decision}

/-- Resolving host executables, as the approval path does. -/
def resolving : MatchOptions := { resolveHostExecutables := true }

/-- `policy` decides the command at least as strictly as `R` does. -/
def KeepsStrictness (policy R : Policy) (env : Env) (fallback : List Text → Decision)
    (cmd : List Text) : Prop :=
  ∀ d, R.checkWithOptions env cmd fallback resolving = some d →
    ∃ e, policy.checkWithOptions env cmd fallback resolving = some e ∧ d ≤ e

theorem checkWithOptions_of_matched (h : R.matchedRules env cmd resolving ≠ []) :
    R.checkWithOptions env cmd fallback resolving =
      strictest (R.matchedRules env cmd resolving) := by
  obtain ⟨m, ms, hms⟩ := List.exists_cons_of_ne_nil h
  simp only [Policy.checkWithOptions, Policy.matchesForCommandWithOptions, hms]

theorem checkWithOptions_of_unmatched (h : R.matchedRules env cmd resolving = []) :
    R.checkWithOptions env cmd fallback resolving = some (fallback cmd) := by
  simp only [Policy.checkWithOptions, Policy.matchesForCommandWithOptions, h]
  rfl

/-- Against a policy with a matching rule, strictness is a matter of the matches. -/
theorem keepsStrictness_iff_covers (hR : R.matchedRules env cmd resolving ≠ [])
    (hU : U.matchedRules env cmd resolving ≠ []) :
    KeepsStrictness U R env fallback cmd ↔
      Covers (R.matchedRules env cmd resolving) (U.matchedRules env cmd resolving) := by
  obtain ⟨d, hd⟩ := strictest_isSome hR
  obtain ⟨e, he⟩ := strictest_isSome hU
  simp only [KeepsStrictness, checkWithOptions_of_matched hR, checkWithOptions_of_matched hU, hd,
    he, Option.some.injEq, forall_eq', exists_eq_left']
  exact strictest_le_strictest_iff hd he

/-- Against a policy without a matching rule, the fallback decides. -/
theorem keepsStrictness_iff_fallback (hR : R.matchedRules env cmd resolving ≠ [])
    (hU : U.matchedRules env cmd resolving = []) :
    KeepsStrictness U R env fallback cmd ↔
      ∀ m ∈ R.matchedRules env cmd resolving, m.decision ≤ fallback cmd := by
  obtain ⟨d, hd⟩ := strictest_isSome hR
  simp only [KeepsStrictness, checkWithOptions_of_matched hR, checkWithOptions_of_unmatched hU, hd,
    Option.some.injEq, forall_eq', exists_eq_left']
  exact strictest_le_iff hd (fallback cmd)

/-! ### What comes between the requirements and a command -/

/-- A rule of `U` for the literal first token ends the matching before the basename stage,
    the only one where `R` has a rule. -/
def ExactRuleShadows (U R : Policy) (cmd : List Text) : Prop :=
  R.matchExactRules cmd = [] ∧ U.matchExactRules cmd ≠ []

/-- A host entry of `U` that does not list the program closes the basename stage, and `R`
    has no entry of its own to reopen it. -/
def HostEntryBlocks (U R : Policy) (env : Env) (cmd : List Text) : Prop :=
  R.matchExactRules cmd = [] ∧ U.matchExactRules cmd = [] ∧
    ∃ program basename, resolvedProgram? env cmd = some (program, basename) ∧
      R.hostPaths basename = none ∧ U.admitsHostExecutable program basename = false

theorem matchedRules_of_exact (h : R.matchExactRules cmd ≠ []) :
    R.matchedRules env cmd resolving = R.matchExactRules cmd := by
  simp [Policy.matchedRules, h]

theorem matchedRules_of_not_exact (h : R.matchExactRules cmd = []) :
    R.matchedRules env cmd resolving = R.matchHostExecutableRules env cmd := by
  simp [Policy.matchedRules, h, resolving]

/-- A match in the basename stage comes from an admitted program. -/
theorem admitted_of_hostMatch (h : R.matchHostExecutableRules env cmd ≠ []) :
    ∃ program basename, resolvedProgram? env cmd = some (program, basename) ∧
      R.admitsHostExecutable program basename = true := by
  unfold Policy.matchHostExecutableRules at h
  split at h
  · exact absurd rfl h
  · rename_i program basename hres
    split at h
    · rename_i hadm
      exact ⟨program, basename, hres, hadm⟩
    · exact absurd rfl h

/-- An exact match of `R` is still there under the overlay. -/
theorem keepsStrictness_of_exact (h : R.matchExactRules cmd ≠ []) :
    KeepsStrictness (U.mergeOverlay R) R env fallback cmd := by
  have hmerged : (U.mergeOverlay R).matchExactRules cmd ≠ [] := by
    rw [matchExactRules_mergeOverlay]
    simp [h]
  rw [keepsStrictness_iff_covers (by rwa [matchedRules_of_exact h])
    (by rwa [matchedRules_of_exact hmerged]), matchedRules_of_exact h,
    matchedRules_of_exact hmerged, matchExactRules_mergeOverlay]
  exact covers_append_right _

/-- Under an exact rule of `U` only the exact rules of `U` count. -/
theorem keepsStrictness_of_shadows (hR : R.matchedRules env cmd resolving ≠ [])
    (h : ExactRuleShadows U R cmd) :
    KeepsStrictness (U.mergeOverlay R) R env fallback cmd ↔
      Covers (R.matchedRules env cmd resolving) (U.matchExactRules cmd) := by
  have hmerged : (U.mergeOverlay R).matchExactRules cmd = U.matchExactRules cmd := by
    rw [matchExactRules_mergeOverlay, h.1, List.append_nil]
  have hne : (U.mergeOverlay R).matchExactRules cmd ≠ [] := hmerged ▸ h.2
  rw [keepsStrictness_iff_covers hR (by rwa [matchedRules_of_exact hne]),
    matchedRules_of_exact hne, hmerged]

/-- Behind a host entry that blocks, the fallback decides. -/
theorem keepsStrictness_of_blocks (hR : R.matchedRules env cmd resolving ≠ [])
    (h : HostEntryBlocks U R env cmd) :
    KeepsStrictness (U.mergeOverlay R) R env fallback cmd ↔
      ∀ m ∈ R.matchedRules env cmd resolving, m.decision ≤ fallback cmd := by
  obtain ⟨hRx, hUx, program, basename, hres, hnone, hadm⟩ := h
  refine keepsStrictness_iff_fallback hR ?_
  have hmerged : (U.mergeOverlay R).matchExactRules cmd = [] := by
    rw [matchExactRules_mergeOverlay, hUx, hRx, List.append_nil]
  rw [matchedRules_of_not_exact hmerged]
  simp [Policy.matchHostExecutableRules, hres, admitsHostExecutable_mergeOverlay, hnone, hadm]

/-- With nothing in between, the basename rules of `R` are among the matches. -/
theorem keepsStrictness_of_open (hR : R.matchedRules env cmd resolving ≠ [])
    (hRx : R.matchExactRules cmd = []) (hUx : U.matchExactRules cmd = [])
    (h : ¬ HostEntryBlocks U R env cmd) :
    KeepsStrictness (U.mergeOverlay R) R env fallback cmd := by
  have hhost := hR
  rw [matchedRules_of_not_exact hRx] at hhost
  -- with no exact match, `R` can only have matched by basename
  obtain ⟨program, basename, hres, hadmR⟩ := admitted_of_hostMatch hhost
  have hadm : (U.mergeOverlay R).admitsHostExecutable program basename = true := by
    rw [admitsHostExecutable_mergeOverlay]
    split
    · exact hadmR
    · -- `R` has no host entry: were the program refused, `U`'s entry would block
      rename_i hnone
      by_contra hblocked
      exact h ⟨hRx, hUx, program, basename, hres, by simpa using hnone, by simpa using hblocked⟩
  obtain ⟨us, hus⟩ := matchHostExecutableRules_mergeOverlay hres hadm hadmR
  have hmerged : (U.mergeOverlay R).matchExactRules cmd = [] := by
    rw [matchExactRules_mergeOverlay, hUx, hRx, List.append_nil]
  have hne : (U.mergeOverlay R).matchedRules env cmd resolving ≠ [] := by
    rw [matchedRules_of_not_exact hmerged, hus]
    simp [hhost]
  rw [keepsStrictness_iff_covers hR hne, matchedRules_of_not_exact hmerged, hus,
    matchedRules_of_not_exact hRx]
  exact covers_append_right us

/-- **The overlay.** The merged policy keeps the strictness of `R` exactly when whatever
    stands in for a shadowed or blocked rule of `R` is as strict as that rule. -/
theorem mergeOverlay_keepsStrictness_iff (hR : R.matchedRules env cmd resolving ≠ []) :
    KeepsStrictness (U.mergeOverlay R) R env fallback cmd ↔
      (ExactRuleShadows U R cmd →
        Covers (R.matchedRules env cmd resolving) (U.matchExactRules cmd)) ∧
      (HostEntryBlocks U R env cmd →
        ∀ m ∈ R.matchedRules env cmd resolving, m.decision ≤ fallback cmd) := by
  by_cases hRx : R.matchExactRules cmd = []
  · by_cases hUx : U.matchExactRules cmd = []
    · -- neither policy matches the literal program: the basename stage decides
      have hns : ¬ ExactRuleShadows U R cmd := fun h => h.2 hUx
      by_cases hb : HostEntryBlocks U R env cmd
      · simp only [keepsStrictness_of_blocks hR hb, hns, hb, false_implies, true_implies, true_and]
      · simp only [keepsStrictness_of_open hR hRx hUx hb, hns, hb, false_implies, and_self]
    · -- only `U` matches the literal program, so the basename stage is never reached
      have hs : ExactRuleShadows U R cmd := ⟨hRx, hUx⟩
      have hb : ¬ HostEntryBlocks U R env cmd := fun h => hUx h.2.1
      simp only [keepsStrictness_of_shadows hR hs, hs, hb, false_implies, true_implies, and_true]
  · -- `R` matches the literal program, and its exact rules are kept
    have hns : ¬ ExactRuleShadows U R cmd := fun h => hRx h.1
    have hb : ¬ HostEntryBlocks U R env cmd := fun h => hRx h.1
    simp only [keepsStrictness_of_exact hRx, hns, hb, false_implies, and_self]

/-! ### The installed policy -/

variable {sl : Starlark} {fs : RulesFs} {stack : ConfigLayerStack} {installed : Policy}

/-- What a successful load installs: the merged policy, or nothing at all if a rules file
    did not parse. -/
theorem load_cases (hreq : stack.requirementsExecPolicy = some R)
    (hload : ExecPolicyManager.load env sl fs stack = .ok installed) :
    (∃ U, loadUserPolicy env sl fs stack = .ok U ∧ installed = U.mergeOverlay R) ∨
      (∃ err, loadUserPolicy env sl fs stack = .error err ∧ installed = Policy.empty) := by
  unfold ExecPolicyManager.load loadExecPolicyWithWarning loadExecPolicy at hload
  cases huser : loadUserPolicy env sl fs stack with
  | ok U =>
    simp only [huser, hreq, Except.map, Except.ok.injEq] at hload
    exact .inl ⟨U, rfl, hload.symm⟩
  | error err =>
    rw [huser] at hload
    cases err with
    -- a parse failure is turned into a warning, and the requirements go with the rest
    | parsePolicy path source =>
      simp only [Except.map, Except.ok.injEq] at hload
      exact .inr ⟨_, rfl, hload.symm⟩
    | readDir dir source => cases hload
    | readFile path source => cases hload

theorem matchedRules_empty : Policy.empty.matchedRules env cmd resolving = [] := by
  have hexact : Policy.empty.matchExactRules cmd = [] := by
    cases cmd <;> rfl
  rw [matchedRules_of_not_exact hexact, Policy.matchHostExecutableRules]
  split
  · rfl
  · split <;> rfl

/-- **The installed policy.** For a command that a rule of the requirements' policy `R`
    matches, the installed policy decides at least as strictly as `R` exactly when

    * a rules file that does not parse leaves a fallback as strict as the rules of `R`,
    * a user rule for the literal program, where `R` matches by basename only, comes with
      one as strict as each matching rule of `R`, and
    * a user host entry that keeps the program from its basename rules leaves a fallback as
      strict as the rules of `R`. -/
theorem installed_keepsStrictness_iff (env : Env) (sl : Starlark) (fs : RulesFs)
    (stack : ConfigLayerStack) (R installed : Policy) (fallback : List Text → Decision)
    (cmd : List Text) (hreq : stack.requirementsExecPolicy = some R)
    (hload : ExecPolicyManager.load env sl fs stack = .ok installed)
    (hR : R.matchedRules env cmd resolving ≠ []) :
    KeepsStrictness installed R env fallback cmd ↔
      (∀ err, loadUserPolicy env sl fs stack = .error err →
        ∀ m ∈ R.matchedRules env cmd resolving, m.decision ≤ fallback cmd) ∧
      ∀ U, loadUserPolicy env sl fs stack = .ok U →
        (ExactRuleShadows U R cmd →
          Covers (R.matchedRules env cmd resolving) (U.matchExactRules cmd)) ∧
        (HostEntryBlocks U R env cmd →
          ∀ m ∈ R.matchedRules env cmd resolving, m.decision ≤ fallback cmd) := by
  rcases load_cases hreq hload with ⟨U, huser, rfl⟩ | ⟨err, huser, rfl⟩
  · simp only [huser, reduceCtorEq, false_implies, implies_true, true_and, Except.ok.injEq,
      forall_eq']
    exact mergeOverlay_keepsStrictness_iff hR
  · simp only [huser, reduceCtorEq, false_implies, implies_true, and_true, Except.error.injEq,
      forall_eq']
    exact keepsStrictness_iff_fallback hR matchedRules_empty

/-! ### A user rule for a full path -/

/-- A file of one rule that allows the program by its full path. -/
def allowRmFile : Text := "prefix_rule(pattern=[\"/bin/rm\"], decision=\"allow\")".toList

/-- The evaluator on `allowRmFile`. -/
def allowRmStarlark : Starlark :=
  { evalModule := fun contents =>
      if contents = allowRmFile then
        .ok [.prefixRule [.str "/bin/rm".toList] (some "allow".toList) [] [] none]
      else if contents = [] then .ok []
      else .error "unsupported".toList
    shlexSplit := fun _ => none }

/-- A home with the one rules file `default.rules`. -/
def homeFs (contents : Text) : RulesFs :=
  { readDir := fun dir =>
      if dir = ["home".toList, "rules".toList] then
        .ok [.ok { fileName := "default.rules".toList, isFile := .ok true }]
      else .error { kind := .notFound, message := [] }
    readToString := fun _ => .ok contents }

/-- Requirements that forbid `rm`. -/
def forbidRm : Policy :=
  Policy.empty.addRules
    [{ pattern := { first := "rm".toList, rest := [] }, decision := .forbidden,
       justification := none }]

def homeStack : ConfigLayerStack :=
  { layers := [{ name := .user ["home".toList, "config.toml".toList] }]
    requirementsExecPolicy := some forbidRm
    ignoreUserAndProjectExecPolicyRules := false }

def rootEnv : Env := { homeDir := none, currentDir := some [] }

/-- The policy `homeStack` installs over `allowRmFile`. -/
def allowRmInstalled : Policy :=
  (Policy.empty.addRules
    [{ pattern := { first := "/bin/rm".toList, rest := [] }, decision := .allow,
       justification := none }]).mergeOverlay forbidRm

def allowAll : List Text → Decision := fun _ => .allow

/-- **A full path evades the requirements.** `R` forbids `rm`; the user's rule for
    `/bin/rm` makes the installed policy allow `/bin/rm x`, which `R` alone forbids. -/
theorem not_keepsStrictness_of_full_path_rule :
    ∃ installed, ExecPolicyManager.load rootEnv allowRmStarlark (homeFs allowRmFile) homeStack =
        .ok installed ∧
      forbidRm.matchedRules rootEnv ["/bin/rm".toList, "x".toList] resolving ≠ [] ∧
      ¬ KeepsStrictness installed forbidRm rootEnv allowAll ["/bin/rm".toList, "x".toList] := by
  refine ⟨allowRmInstalled, by rfl, by decide, ?_⟩
  intro h
  obtain ⟨e, he, hle⟩ := h .forbidden (by decide)
  have hallow : e = .allow := by
    have hcheck : allowRmInstalled.checkWithOptions rootEnv ["/bin/rm".toList, "x".toList] allowAll
        resolving = some .allow := by decide
    rw [hcheck] at he
    exact (Option.some.inj he).symm
  rw [hallow] at hle
  exact absurd hle (by decide)

/-- `installed_keepsStrictness_iff` at a home with an empty rules file. -/
theorem installed_keepsStrictness_iff_empty_file :
    KeepsStrictness (Policy.empty.mergeOverlay forbidRm) forbidRm rootEnv allowAll
      ["/bin/rm".toList, "x".toList] := by
  refine (installed_keepsStrictness_iff rootEnv allowRmStarlark (homeFs []) homeStack forbidRm _
    allowAll ["/bin/rm".toList, "x".toList] rfl (by rfl) (by decide)).mpr ⟨?_, ?_⟩
  · intro err herr
    have hok : loadUserPolicy rootEnv allowRmStarlark (homeFs []) homeStack = .ok Policy.empty := by
      rfl
    rw [hok] at herr
    cases herr
  · intro U hU
    have hok : loadUserPolicy rootEnv allowRmStarlark (homeFs []) homeStack = .ok Policy.empty := by
      rfl
    obtain rfl : Policy.empty = U := Except.ok.inj (hok.symm.trans hU)
    refine ⟨fun h => absurd rfl h.2, fun h => ?_⟩
    obtain ⟨-, -, program, basename, -, -, hadm⟩ := h
    exact absurd hadm (by simp [Policy.admitsHostExecutable, Policy.hostPaths, Policy.empty])

end CodexMonitor.ExecPolicy
