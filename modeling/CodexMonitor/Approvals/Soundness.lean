import CodexMonitor.Approvals.Allowlist
import CodexMonitor.Approvals.Words

namespace CodexMonitor.Approvals

open Text

/-!
# Approvals — when an automatic answer is backed by a remembered command

A request is answered without asking when the normalised tokens of its command begin with a
remembered prefix.  What was approved is a list of words, and what will run is another: the
array of the request as it was sent, or the POSIX words of a command line.  Between the two
stand trimming, the removal of blank words and a splitter of its own.

* `commandValue` — the value of the parameters that the tokens were taken from.
* `AcceptJustified` — the answer is backed: a remembered command is, word for word, how the
  request's command begins.
* `keptAsGiven`, `readAsSent` — the commands and requests that the code reads exactly.
-/

/-! ### The value a command is taken from -/

/-- A value that holds a command. -/
inductive CommandValue
  | array (sent : List Text)
  | line (text : Text)
  deriving DecidableEq, Repr

namespace CommandValue

/-- The tokens that the search makes of it. -/
def tokens : CommandValue → List Text
  | .array sent => normalizeCommandTokens sent
  | .line text => splitCommandLine text

/-- **The command itself**: the array as sent, or the POSIX words of the line. -/
def command : CommandValue → Option (List Text)
  | .array sent => some sent
  | .line text => shellWords text

/-- The search passes over a value without tokens. -/
def ifTokens (value : CommandValue) : Option CommandValue :=
  if value.tokens.isEmpty then none else some value

end CommandValue

mutual

/-- The value that `extractTokens` takes the tokens from. -/
def commandValue : Json → Option CommandValue
  | .array items => (stringItems items).bind fun sent => (CommandValue.array sent).ifTokens
  | .string line => (CommandValue.line line).ifTokens
  | .object entries => (searchOrder (commandValues entries)).findSome? id
  | .null | .bool _ | .number _ => none

/-- The entries of an object with the command each value holds. -/
def commandValues : List (Text × Json) → List (Text × Option CommandValue)
  | [] => []
  | (key, nested) :: rest => (key, commandValue nested) :: commandValues rest

end

/-- An extraction that yields no tokens counts as none. -/
def someTokens (tokens : Option (List Text)) : Option (List Text) :=
  tokens.filter fun ts => !ts.isEmpty

/-- The search order depends on the keys only. -/
theorem searchOrder_map {α β : Type} (f : α → β) (entries : List (Text × α)) :
    searchOrder (entries.map fun e => (e.1, f e.2)) = (searchOrder entries).map f := by
  have hEntry : ∀ key, entry key (entries.map fun e => (e.1, f e.2)) =
      (entry key entries).map f := by
    intro key
    simp [entry, List.find?_map, Function.comp_def]
  rw [searchOrder, searchOrder, List.map_append, List.map_filterMap]
  simp only [hEntry, List.filter_map, List.map_map, Function.comp_def]

theorem firstTokens_eq (found : List (Option (List Text))) :
    firstTokens found = (found.map someTokens).findSome? id := by
  induction found with
  | nil => rfl
  | cons tokens found ih =>
      rcases tokens with _ | _ | _
      · exact ih
      · exact ih
      · rfl

theorem someTokens_firstTokens (found : List (Option (List Text))) :
    someTokens (firstTokens found) = firstTokens found := by
  induction found with
  | nil => rfl
  | cons tokens found ih =>
      rcases tokens with _ | _ | _
      · exact ih
      · exact ih
      · rfl

theorem map_tokens_ifTokens (value : CommandValue) :
    value.ifTokens.map CommandValue.tokens = someTokens (some value.tokens) := by
  rw [CommandValue.ifTokens]
  cases hTokens : value.tokens with
  | nil => rfl
  | cons token tokens =>
      rw [List.isEmpty_cons, if_neg Bool.false_ne_true, Option.map_some, hTokens]
      rfl

mutual

/-- **The tokens are those of the located value.** -/
theorem someTokens_extractTokens : ∀ value : Json,
    someTokens (extractTokens value) = (commandValue value).map CommandValue.tokens
  | .null => by rw [extractTokens, commandValue]; rfl
  | .bool _ => by rw [extractTokens, commandValue]; rfl
  | .number _ => by rw [extractTokens, commandValue]; rfl
  | .string line => by
      rw [extractTokens, commandValue, map_tokens_ifTokens, CommandValue.tokens]
      cases splitCommandLine line with
      | nil => rfl
      | cons token tokens => rfl
  | .array items => by
      rw [extractTokens, commandValue]
      cases stringItems items with
      | none => rfl
      | some sent => exact (map_tokens_ifTokens (.array sent)).symm
  -- searching commutes with reading the tokens off each value
  | .object entries => by
      rw [extractTokens, commandValue, someTokens_firstTokens, firstTokens_eq,
        ← searchOrder_map, someTokens_extractEntries, searchOrder_map, List.findSome?_map,
        List.map_findSome?]
      rfl

theorem someTokens_extractEntries : ∀ entries : List (Text × Json),
    (extractEntries entries).map (fun e => (e.1, someTokens e.2)) =
      (commandValues entries).map fun e => (e.1, e.2.map CommandValue.tokens)
  | [] => by rw [extractEntries, commandValues]; rfl
  | (key, nested) :: rest => by
      rw [extractEntries, commandValues, List.map_cons, List.map_cons,
        someTokens_extractTokens nested, someTokens_extractEntries rest]

end

/-! ### Answering without asking -/

/-- The value that holds the command of a request. -/
def requestValue (approval : ApprovalRequest) : Option CommandValue :=
  commandValue (approval.params.getD (.object []))

/-- Tokens normalised once are compared as they are. -/
theorem matchesCommandPrefix_normalize {tokens : List Text} {allowlist : List (List Text)} :
    matchesCommandPrefix (normalizeCommandTokens tokens) allowlist ↔
      ∃ ts ∈ allowlist, ts ≠ [] ∧ ts <+: normalizeCommandTokens tokens := by
  simp only [matchesCommandPrefix, normalizeCommandTokens_idem, Bool.and_eq_true,
    List.any_eq_true, Bool.not_eq_true', List.isEmpty_eq_false_iff, List.isPrefixOf_iff_prefix]
  refine ⟨And.right, fun h => ⟨?_, h⟩⟩
  obtain ⟨ts, _, hNonempty, hPrefix⟩ := h
  exact hPrefix.ne_nil hNonempty

/-- **When the handler answers by itself**: a remembered prefix is how the normalised tokens
    of the command begin. -/
theorem autoAccepts_iff {allowlists : Allowlists} {approval : ApprovalRequest} :
    autoAccepts allowlists approval ↔
      ∃ value, requestValue approval = some value ∧
        ∃ tokens ∈ allowlists approval.workspaceId, tokens ≠ [] ∧
          tokens <+: normalizeCommandTokens value.tokens := by
  have hTokens := someTokens_extractTokens (approval.params.getD (.object []))
  rw [autoAccepts, getApprovalCommandInfo, requestValue]
  cases hFound : extractTokens (approval.params.getD (.object [])) with
  | none =>
      rw [hFound] at hTokens
      rw [Option.map_eq_none_iff.mp hTokens.symm]
      simp
  | some found =>
      rw [hFound] at hTokens
      cases found with
      -- an empty extraction is passed over like a missing one
      | nil =>
          rw [Option.map_eq_none_iff.mp hTokens.symm]
          simp
      | cons token rest =>
          obtain ⟨value, hValue, hEq⟩ := Option.map_eq_some_iff.mp hTokens.symm
          simp only [hValue, Option.some.injEq, exists_eq_left', hEq, List.isEmpty_cons,
            Bool.false_eq_true, if_false]
          rw [← matchesCommandPrefix_normalize]
          -- tokens that are all blank match no prefix, as the search requires
          by_cases hNorm : normalizeCommandTokens (token :: rest) = []
          · rw [hNorm]
            exact Iff.rfl
          · simp [hNorm]

/-- **The answer is backed.**  If the handler accepts after this history of remembered
    commands, then one of them, remembered for the same workspace, is word for word how the
    command of the request begins. -/
def AcceptJustified (history : List RememberCall) (approval : ApprovalRequest) : Prop :=
  onApproval (allowlistsAfter history) approval =
      .respondToServerRequest approval.workspaceId approval.requestId .accept →
    ∃ call ∈ history, call.request.workspaceId = approval.workspaceId ∧ call.command ≠ [] ∧
      ∃ words, (requestValue approval).bind CommandValue.command = some words ∧
        call.command <+: words

/-- A command that is remembered as it was given (or, with blank words only, not at all). -/
def keptAsGiven (command : List Text) : Bool :=
  command.all isPlainWord || command.all isBlankWord

/-- A command that the code reads as the shell does: its words stand under normalisation, and
    on a line the splitter never departs from the POSIX reading. -/
def CommandValue.readAsSent : CommandValue → Bool
  | .array sent => wordsStand sent
  | .line text => readsAlike {} text && (shellWords text).any wordsStand

theorem keptAsGiven_iff (command : List Text) :
    keptAsGiven command ↔
      normalizeCommandTokens command = command ∨ normalizeCommandTokens command = [] := by
  rw [keptAsGiven, Bool.or_eq_true, normalizeCommandTokens_eq_nil_iff]
  refine or_congr_left ⟨normalizeCommandTokens_of_plain, fun h => ?_⟩
  rw [← h]
  exact List.all_eq_true.mpr fun _ hMem => isPlainWord_of_mem hMem

/-- The tokens of a command read as sent are how its words begin. -/
theorem CommandValue.prefix_of_readAsSent {value : CommandValue} (h : value.readAsSent) :
    ∃ words, value.command = some words ∧ normalizeCommandTokens value.tokens <+: words := by
  cases value with
  | array sent =>
      refine ⟨sent, rfl, ?_⟩
      rw [CommandValue.tokens, normalizeCommandTokens_idem]
      exact (wordsStand_iff sent).mp h
  | line text =>
      rw [CommandValue.readAsSent, Bool.and_eq_true, Option.any_eq_true] at h
      obtain ⟨hAlike, words, hWords, hStand⟩ := h
      refine ⟨words, hWords, ?_⟩
      -- where the readings agree, the splitter's tokens are the words, normalised
      rw [CommandValue.tokens, normalize_splitCommandLine hAlike hWords]
      exact (wordsStand_iff words).mp hStand

theorem onApproval_accept_iff {allowlists : Allowlists} {approval : ApprovalRequest} :
    onApproval allowlists approval =
        .respondToServerRequest approval.workspaceId approval.requestId .accept ↔
      autoAccepts allowlists approval := by
  rw [onApproval]
  split
  · next h => simp [h]
  · next h => simp [h]

/-- The tokens of a request read as sent are how its words begin. -/
theorem prefix_of_all_readAsSent {approval : ApprovalRequest}
    (h : (requestValue approval).all CommandValue.readAsSent) :
    ∀ value, requestValue approval = some value →
      ∃ words, value.command = some words ∧ normalizeCommandTokens value.tokens <+: words := by
  intro value hValue
  rw [hValue] at h
  exact CommandValue.prefix_of_readAsSent h

/-- The ground of an answer: the remembered commands are as they were given, and the tokens of
    the request are how its words begin. -/
theorem acceptJustified_of_prefix {history : List RememberCall} {approval : ApprovalRequest}
    (hHistory : ∀ call ∈ history, call.request.workspaceId = approval.workspaceId →
      normalizeCommandTokens call.command = call.command ∨
        normalizeCommandTokens call.command = [])
    (hWords : ∀ value, requestValue approval = some value →
      ∃ words, value.command = some words ∧ normalizeCommandTokens value.tokens <+: words) :
    AcceptJustified history approval := by
  intro hAccept
  obtain ⟨value, hValue, tokens, hMem, hNonempty, hPrefix⟩ :=
    autoAccepts_iff.mp (onApproval_accept_iff.mp hAccept)
  obtain ⟨call, hCall, hws, hTokens⟩ := exists_call_of_mem hMem
  -- the prefix that matched is the command as it was given
  have hKept : tokens = call.command := by
    rcases hHistory call hCall hws with hSame | hNil
    · rw [hTokens, hSame]
    · exact absurd (hTokens.trans hNil) hNonempty
  obtain ⟨words, hCommand, hTokensPrefix⟩ := hWords value hValue
  refine ⟨call, hCall, hws, hKept ▸ hNonempty, words, ?_, hKept ▸ hPrefix.trans hTokensPrefix⟩
  rw [hValue]
  exact hCommand

/-- A request with its command as the value of one key. -/
def requestWith (workspaceId key : Text) (value : Json) : ApprovalRequest :=
  { workspaceId := workspaceId, requestId := .number "1".toList,
    method := "execCommandApproval".toList, params := some (.object [(key, value)]) }

theorem stringItems_map (words : List Text) : stringItems (words.map .string) = some words := by
  induction words with
  | nil => rfl
  | cons word words ih => rw [List.map_cons, stringItems, ih]; rfl

theorem requestValue_argv {words : List Text} (workspaceId : Text)
    (h : normalizeCommandTokens words ≠ []) :
    requestValue (requestWith workspaceId "argv".toList (.array (words.map .string))) =
      some (.array words) := by
  have hValue : commandValue (.array (words.map .string)) = some (.array words) := by
    rw [commandValue, stringItems_map, Option.bind_some, CommandValue.ifTokens,
      if_neg (by simpa [CommandValue.tokens] using h)]
  have hObject : requestValue (requestWith workspaceId "argv".toList (.array (words.map .string))) =
      commandValue (.object [("argv".toList, .array (words.map .string))]) := rfl
  rw [hObject, commandValue, commandValues, commandValues, hValue]
  rfl

/-- The answer to a request that a single remembered command covers. -/
theorem onApproval_accept_of_match {call : RememberCall} {approval : ApprovalRequest}
    {value : CommandValue} (hws : call.request.workspaceId = approval.workspaceId)
    (hValue : requestValue approval = some value)
    (hNonempty : normalizeCommandTokens call.command ≠ [])
    (hPrefix : normalizeCommandTokens call.command <+: normalizeCommandTokens value.tokens) :
    onApproval (allowlistsAfter [call]) approval =
      .respondToServerRequest approval.workspaceId approval.requestId .accept :=
  onApproval_accept_iff.mpr (autoAccepts_iff.mpr ⟨value, hValue, _,
    hws ▸ mem_allowlistsAfter_singleton hNonempty, hNonempty, hPrefix⟩)

theorem length_normalizeCommandTokens_le (ts : List Text) :
    (normalizeCommandTokens ts).length ≤ ts.length :=
  (List.length_filter_le _ _).trans_eq (List.length_map _)

/-- **A command not kept as given** is matched by a request that it does not cover. -/
theorem keptAsGiven_iff_justified (call : RememberCall) :
    keptAsGiven call.command ↔ ∀ approval, (requestValue approval).all CommandValue.readAsSent →
      AcceptJustified [call] approval := by
  refine ⟨fun hKept approval hRequest =>
    acceptJustified_of_prefix ?_ (prefix_of_all_readAsSent hRequest), fun h => ?_⟩
  · intro other hOther _
    rw [List.mem_singleton.mp hOther]
    exact (keptAsGiven_iff _).mp hKept
  · rw [keptAsGiven_iff]
    by_contra hChanged
    obtain ⟨hNe, hNonempty⟩ := not_or.mp hChanged
    -- the request is for the normalised command itself
    have hIdem := normalizeCommandTokens_idem call.command
    have hValue := requestValue_argv call.request.workspaceId (hIdem.symm ▸ hNonempty)
    have hRead : wordsStand (normalizeCommandTokens call.command) :=
      (wordsStand_iff _).mpr ⟨[], by rw [hIdem, List.append_nil]⟩
    obtain ⟨other, hOther, _, _, words, hWords, hPrefix⟩ :=
      h (requestWith call.request.workspaceId "argv".toList
        (.array ((normalizeCommandTokens call.command).map .string))) (by rw [hValue]; exact hRead)
        (onApproval_accept_of_match rfl hValue hNonempty
          ⟨[], by rw [CommandValue.tokens, hIdem, hIdem, List.append_nil]⟩)
    rw [List.mem_singleton.mp hOther] at hPrefix
    rw [hValue] at hWords
    obtain rfl := Option.some.inj hWords
    -- a prefix at least as long as the list is the list
    exact hNe (hPrefix.eq_of_length_le (length_normalizeCommandTokens_le _)).symm

/-- **An array not read as sent** is accepted on the ground of a command that it does not
    begin with. -/
theorem wordsStand_iff_justified {approval : ApprovalRequest} {sent : List Text}
    (hValue : requestValue approval = some (.array sent)) :
    wordsStand sent ↔ ∀ history : List RememberCall,
      (∀ call ∈ history, keptAsGiven call.command) → AcceptJustified history approval := by
  refine ⟨fun hStand history hHistory => acceptJustified_of_prefix ?_ ?_, fun h => ?_⟩
  · intro call hCall _
    exact (keptAsGiven_iff _).mp (hHistory call hCall)
  · refine prefix_of_all_readAsSent ?_
    rw [hValue]
    exact hStand
  · rw [wordsStand_iff]
    by_cases hNonempty : normalizeCommandTokens sent = []
    · rw [hNonempty]
      exact List.nil_prefix
    -- what was remembered is the normalised array
    have hIdem := normalizeCommandTokens_idem sent
    let call : RememberCall := { request := approval, command := normalizeCommandTokens sent }
    have hKept : ∀ other ∈ [call], keptAsGiven other.command := by
      intro other hOther
      rw [List.mem_singleton.mp hOther]
      exact (keptAsGiven_iff _).mpr (Or.inl hIdem)
    obtain ⟨other, hOther, _, _, words, hWords, hPrefix⟩ := h [call] hKept
      (onApproval_accept_of_match rfl hValue (hIdem.symm ▸ hNonempty)
        ⟨[], by rw [CommandValue.tokens, hIdem, List.append_nil]⟩)
    rw [List.mem_singleton.mp hOther] at hPrefix
    rw [hValue] at hWords
    obtain rfl := Option.some.inj hWords
    exact hPrefix

/-! ### A justified answer, and two that are not -/

/-- A command line with a quoted argument and a continuation. -/
def diffLine : ApprovalRequest :=
  requestWith "w".toList "command".toList (.string "git \\\n diff \"my file\"".toList)

end CodexMonitor.Approvals
