import CodexMonitor.Approvals.Rules
import Mathlib.Logic.Function.Basic

namespace CodexMonitor.Approvals

open Text

/-!
# Approvals — the remembered prefixes and the automatic answer

`useThreadApprovals.ts` keeps, per workspace, the commands the user chose to remember, and
`useThreadApprovalEvents.ts` answers a request at once when its command begins with one.

* `rememberApprovalPrefix` / `handleApprovalRemember` — remembering a command.
* `onApproval` — the event handler: accept, or put the request before the user.
* `allowlistsAfter` — the remembered prefixes after a history of calls.
-/

/-- A request's identifier: a number (kept as its text) or a string. -/
inductive RequestId
  | number (digits : Text)
  | string (t : Text)
  deriving DecidableEq, Repr

structure ApprovalRequest where
  workspaceId : Text
  requestId : RequestId
  method : Text
  params : Option Json

inductive Decision
  | accept
  | decline
  deriving DecidableEq, Repr

/-- What the hooks do besides changing the remembered prefixes. -/
inductive Effect
  | rememberApprovalRule (workspaceId : Text) (command : List Text)
  | debug (label payload : Text)
  | respondToServerRequest (workspaceId : Text) (requestId : RequestId) (decision : Decision)
  | addApproval (approval : ApprovalRequest)
  | removeApproval (requestId : RequestId) (workspaceId : Text)

/-- `approvalAllowlistRef.current`; a missing entry is the empty list. -/
abbrev Allowlists := Text → List (List Text)

/-! ### Remembering -/

def rememberApprovalPrefix (allowlists : Allowlists) (workspaceId : Text)
    (command : List Text) : Allowlists :=
  let normalized := normalizeCommandTokens command
  if normalized.isEmpty then allowlists
  else if normalized ∈ allowlists workspaceId then allowlists
  else Function.update allowlists workspaceId (allowlists workspaceId ++ [normalized])

/-- A call of `handleApprovalRemember` with how its two invocations of the backend end:
    the message of a failed `rememberApprovalRule`, and whether the answer was delivered. -/
structure RememberCall where
  request : ApprovalRequest
  command : List Text
  ruleError : Option Text := none
  responded : Bool := true

/-- `handleApprovalRemember`: the prefix is remembered whether or not the backend stored the
    rule; the request leaves the list once the answer is delivered. -/
def handleApprovalRemember (allowlists : Allowlists) (call : RememberCall) :
    Allowlists × List Effect :=
  let request := call.request
  (rememberApprovalPrefix allowlists request.workspaceId call.command,
    [.rememberApprovalRule request.workspaceId call.command] ++
    (call.ruleError.toList.map fun error => .debug "approval rule error".toList error) ++
    [.respondToServerRequest request.workspaceId request.requestId .accept] ++
    if call.responded then [.removeApproval request.requestId request.workspaceId] else [])

/-- The remembered prefixes after a history of calls. -/
def allowlistsAfter (history : List RememberCall) : Allowlists :=
  history.foldl (fun allowlists call => (handleApprovalRemember allowlists call).1) fun _ => []

/-! ### Answering -/

/-- The test of the event handler. -/
def autoAccepts (allowlists : Allowlists) (approval : ApprovalRequest) : Bool :=
  match getApprovalCommandInfo (approval.params.getD (.object [])) with
  | none => false
  | some commandInfo =>
      matchesCommandPrefix commandInfo.tokens (allowlists approval.workspaceId)

/-- `useThreadApprovalEvents`. -/
def onApproval (allowlists : Allowlists) (approval : ApprovalRequest) : Effect :=
  if autoAccepts allowlists approval then
    .respondToServerRequest approval.workspaceId approval.requestId .accept
  else .addApproval approval

/-! ### What is remembered -/

/-- **What one call adds.**  The call's own workspace may gain its normalised command. -/
theorem mem_handleApprovalRemember {allowlists : Allowlists} {call : RememberCall}
    {workspaceId : Text} {tokens : List Text}
    (h : tokens ∈ (handleApprovalRemember allowlists call).1 workspaceId) :
    tokens ∈ allowlists workspaceId ∨
      (call.request.workspaceId = workspaceId ∧
        tokens = normalizeCommandTokens call.command) := by
  simp only [handleApprovalRemember, rememberApprovalPrefix] at h
  split at h
  · exact Or.inl h
  · split at h
    · exact Or.inl h
    · by_cases hws : workspaceId = call.request.workspaceId
      · subst hws
        rw [Function.update_self, List.mem_append, List.mem_singleton] at h
        exact h.imp id fun hTokens => ⟨rfl, hTokens⟩
      · rw [Function.update_of_ne hws] at h
        exact Or.inl h

/-- **Every remembered prefix comes from a call** for the same workspace. -/
theorem exists_call_of_mem {history : List RememberCall} {workspaceId : Text}
    {tokens : List Text} (h : tokens ∈ allowlistsAfter history workspaceId) :
    ∃ call ∈ history, call.request.workspaceId = workspaceId ∧
      tokens = normalizeCommandTokens call.command := by
  induction history using List.reverseRecOn with
  | nil => cases h
  | append_singleton history call ih =>
      rw [allowlistsAfter, List.foldl_append] at h
      rcases mem_handleApprovalRemember h with hOld | ⟨hws, hTokens⟩
      · obtain ⟨old, hMem, hOldCall⟩ := ih hOld
        exact ⟨old, List.mem_append_left _ hMem, hOldCall⟩
      · exact ⟨call, List.mem_append_right _ (List.mem_singleton_self _), hws, hTokens⟩

/-- A remembered command is found again, unless it has only blank words. -/
theorem mem_allowlistsAfter_singleton {call : RememberCall}
    (h : normalizeCommandTokens call.command ≠ []) :
    normalizeCommandTokens call.command ∈
      allowlistsAfter [call] call.request.workspaceId := by
  simp [allowlistsAfter, handleApprovalRemember, rememberApprovalPrefix, h]

end CodexMonitor.Approvals
