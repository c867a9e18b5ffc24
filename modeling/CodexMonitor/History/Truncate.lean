import CodexMonitor.History.Items

namespace CodexMonitor.History

/-!
# History — truncation of long outputs

`utils/string/src/truncate.rs` and `utils/output-truncation/src/lib.rs`: a text is cut in
the middle, at character boundaries, to a budget of bytes or of approximate tokens.
`usize` arithmetic that the source writes as saturating saturates at `usizeMax`; lengths
of strings never reach it.
-/

/-- `usize::MAX` on a 64-bit target. -/
def usizeMax : Nat := 2 ^ 64 - 1

/-- `usize::saturating_add`. -/
def saturatingAdd (a b : Nat) : Nat := min (a + b) usizeMax

/-- `usize::saturating_mul`. -/
def saturatingMul (a b : Nat) : Nat := min (a * b) usizeMax

def approxBytesPerToken : Nat := 4

def approxTokenCount (text : Text) : Nat :=
  (text.byteLen + (approxBytesPerToken - 1)) / approxBytesPerToken

def approxBytesForTokens (tokens : Nat) : Nat := saturatingMul tokens approxBytesPerToken

def approxTokensFromByteCount (bytes : Nat) : Nat :=
  (saturatingAdd bytes (approxBytesPerToken - 1)) / approxBytesPerToken

/-- Decimal digits of a number, as `format!` prints it. -/
def digits (n : Nat) : Text := (Nat.repr n).toList

/-- The budget for tool output, in bytes or in approximate tokens. -/
inductive TruncationPolicy where
  | bytes (n : Nat)
  | tokens (n : Nat)
  deriving DecidableEq, Repr

def TruncationPolicy.tokenBudget : TruncationPolicy → Nat
  | .bytes n => approxTokensFromByteCount n
  | .tokens n => n

def TruncationPolicy.byteBudget : TruncationPolicy → Nat
  | .bytes n => n
  | .tokens n => approxBytesForTokens n

/-! ### Cutting the middle of a text -/

/-- Accumulator of `split_string`'s walk over the characters. -/
structure SplitState where
  prefixEnd : Nat
  suffixStart : Nat
  removedChars : Nat
  suffixStarted : Bool

/-- One character of the walk in `split_string`; `idx` is its byte offset. -/
def splitStep (beginningBytes tailStartTarget : Nat) (st : SplitState) (idx : Nat) (ch : Char) :
    SplitState :=
  let charEnd := idx + ch.utf8Size
  -- a character that straddles the end of the beginning counts as removed
  if charEnd ≤ beginningBytes then { st with prefixEnd := charEnd }
  else if tailStartTarget ≤ idx then
    if st.suffixStarted then st
    else { st with suffixStart := idx, suffixStarted := true }
  else { st with removedChars := st.removedChars + 1 }

def splitWalk (beginningBytes tailStartTarget : Nat) : Nat → SplitState → Text → SplitState
  | _, st, [] => st
  | idx, st, ch :: rest =>
      splitWalk beginningBytes tailStartTarget (idx + ch.utf8Size)
        (splitStep beginningBytes tailStartTarget st idx ch) rest

/-- `split_string`: the number of removed characters, the kept prefix and suffix.  The two
    offsets are character boundaries, so the slices are always defined. -/
def splitString (s : Text) (beginningBytes endBytes : Nat) : Nat × Text × Text :=
  if s.isEmpty then (0, [], [])
  else
    let st := splitWalk beginningBytes (s.byteLen - endBytes) 0
      { prefixEnd := 0, suffixStart := s.byteLen, removedChars := 0, suffixStarted := false } s
    let suffixStart := if st.suffixStart < st.prefixEnd then st.prefixEnd else st.suffixStart
    (st.removedChars, (s.byteTake st.prefixEnd).getD [], (s.byteDrop suffixStart).getD [])

def splitBudget (budget : Nat) : Nat × Nat := (budget / 2, budget - budget / 2)

def formatTruncationMarker (useTokens : Bool) (removedCount : Nat) : Text :=
  if useTokens then "…".toList ++ digits removedCount ++ " tokens truncated…".toList
  else "…".toList ++ digits removedCount ++ " chars truncated…".toList

def removedUnits (useTokens : Bool) (removedBytes removedChars : Nat) : Nat :=
  if useTokens then approxTokensFromByteCount removedBytes else removedChars

def truncateWithByteEstimate (s : Text) (maxBytes : Nat) (useTokens : Bool) : Text :=
  if s.isEmpty then []
  else if maxBytes = 0 then
    formatTruncationMarker useTokens (removedUnits useTokens s.byteLen s.length)
  else if s.byteLen ≤ maxBytes then s
  else
    let (leftBudget, rightBudget) := splitBudget maxBytes
    let (removedChars, left, right) := splitString s leftBudget rightBudget
    let marker := formatTruncationMarker useTokens
      (removedUnits useTokens (s.byteLen - maxBytes) removedChars)
    left ++ marker ++ right

def truncateMiddleChars (s : Text) (maxBytes : Nat) : Text :=
  truncateWithByteEstimate s maxBytes false

/-- The truncated text, and the original token count when something was cut. -/
def truncateMiddleWithTokenBudget (s : Text) (maxTokens : Nat) : Text × Option Nat :=
  if s.isEmpty then ([], none)
  else if 0 < maxTokens ∧ s.byteLen ≤ approxBytesForTokens maxTokens then (s, none)
  else
    let truncated := truncateWithByteEstimate s (approxBytesForTokens maxTokens) true
    if truncated = s then (truncated, none) else (truncated, some (approxTokenCount s))

def truncateText (content : Text) : TruncationPolicy → Text
  | .bytes n => truncateMiddleChars content n
  | .tokens n => (truncateMiddleWithTokenBudget content n).1

/-! ### Truncating the items of a tool output -/

/-- Accumulator of `truncate_function_output_items_with_policy`. -/
structure TruncateItemsState where
  out : List FunctionCallOutputContentItem
  remainingBudget : Nat
  omittedTextItems : Nat

def truncateItemStep (policy : TruncationPolicy) (st : TruncateItemsState) :
    FunctionCallOutputContentItem → TruncateItemsState
  | .inputText text =>
      if st.remainingBudget = 0 then
        { st with omittedTextItems := st.omittedTextItems + 1 }
      else
        let cost := match policy with
          | .bytes _ => text.byteLen
          | .tokens _ => approxTokenCount text
        if cost ≤ st.remainingBudget then
          { st with
            out := st.out ++ [.inputText text]
            remainingBudget := st.remainingBudget - cost }
        else
          -- the first text over budget is cut to what is left; later texts are omitted
          let snippetPolicy := match policy with
            | .bytes _ => TruncationPolicy.bytes st.remainingBudget
            | .tokens _ => TruncationPolicy.tokens st.remainingBudget
          let snippet := truncateText text snippetPolicy
          if snippet.isEmpty then
            { st with omittedTextItems := st.omittedTextItems + 1, remainingBudget := 0 }
          else { st with out := st.out ++ [.inputText snippet], remainingBudget := 0 }
  | .inputImage imageUrl detail => { st with out := st.out ++ [.inputImage imageUrl detail] }

def truncateFunctionOutputItemsWithPolicy (items : List FunctionCallOutputContentItem)
    (policy : TruncationPolicy) : List FunctionCallOutputContentItem :=
  let budget := match policy with
    | .bytes _ => policy.byteBudget
    | .tokens _ => policy.tokenBudget
  let st := items.foldl (truncateItemStep policy)
    { out := [], remainingBudget := budget, omittedTextItems := 0 }
  if 0 < st.omittedTextItems then
    st.out ++ [.inputText ("[omitted ".toList ++ digits st.omittedTextItems
      ++ " text items ...]".toList)]
  else st.out

def truncateFunctionOutputPayload (output : FunctionCallOutputPayload)
    (policy : TruncationPolicy) : FunctionCallOutputPayload :=
  { body := match output.body with
      | .text content => .text (truncateText content policy)
      | .contentItems items => .contentItems (truncateFunctionOutputItemsWithPolicy items policy)
    success := output.success }

end CodexMonitor.History
