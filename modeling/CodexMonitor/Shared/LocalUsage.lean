import CodexMonitor.Lib.Tallies
import CodexMonitor.Lib.UnixPath
import CodexMonitor.Shared.Fields

namespace CodexMonitor.Shared

open Text
open CodexMonitor.Approvals (Json)

/-!
# Shared — local usage

`local_usage_core.rs`: the tokens of the last days are added up over the session files.  A file is
a list of lines; a line that has a token count has either the usage of the whole session or that
of the last turn.  Counts are integers of any size; JSON, numbers and times are read by a `Reader`.

* `scanFile`, `scanLocalUsage` — the tables of days and of models.
* `buildSnapshot` — the days of a snapshot and their totals.  Shares and averages, which are
  floating point numbers, and the list of the top models are left out.
-/

/-- How a line, a number and a time are read. -/
structure Reader where
  /-- `serde_json::from_str` -/
  fromStr : Text → Option Json
  /-- A number as an `i64`; a fraction is cut off. -/
  number : Text → Int
  /-- The milliseconds of `DateTime::parse_from_rfc3339`. -/
  rfc3339 : Text → Option Int
  /-- `day_key_for_timestamp_ms` -/
  dayKey : Int → Option Text

structure DailyTotals where
  input : Int := 0
  cached : Int := 0
  output : Int := 0
  agentMs : Int := 0
  agentRuns : Int := 0
  deriving DecidableEq, Repr

structure UsageTotals where
  input : Int := 0
  cached : Int := 0
  output : Int := 0
  deriving DecidableEq, Repr

def maxActivityGapMs : Int := 2 * 60 * 1000

/-- The days and the models, with what has been counted for them. -/
structure Tables where
  daily : List (Text × DailyTotals)
  modelTotals : List (Text × Int) := []
  deriving DecidableEq, Repr

/-- The variables of the loop over the lines of a file. -/
structure FileScan where
  tables : Tables
  previousTotals : Option UsageTotals := none
  currentModel : Option Text := none
  lastActivityMs : Option Int := none
  seenRuns : List Int := []
  matchKnown : Bool
  matchesWorkspace : Bool
  deriving DecidableEq, Repr

/-! ### Reading -/

def payloadOf (value : Json) : Option Json := (getField "payload".toList value).bind asObject

/-- `as_object` of the field. -/
def infoOf (value : Json) : Option Json :=
  ((payloadOf value).bind (getField "info".toList)).bind asObject

def strField (key : Text) (value : Json) : Option Text := (getField key value).bind asStr

def entryType (value : Json) : Text := (strField "type".toList value).getD []

def payloadType (value : Json) : Option Text := (payloadOf value).bind (strField "type".toList)

def extractCwd (value : Json) : Option Text :=
  (getField "payload".toList value).bind (strField "cwd".toList)

def extractModelFromTurnContext (value : Json) : Option Text :=
  ((payloadOf value).bind (strField "model".toList)).or
    ((infoOf value).bind (strField "model".toList))

def extractModelFromTokenCount (value : Json) : Option Text :=
  (payloadOf value).bind fun payload =>
    (((infoOf value).bind fun info =>
        ((getField "model".toList info).or (getField "model_name".toList info)).bind asStr).or
      (strField "model".toList payload)).or (strField "model".toList value)

def findUsageMap (info : Json) (keys : List Text) : Option Json :=
  keys.findSome? fun key => (getField key info).bind asObject

/-- `cwd_path == workspace_path || cwd_path.starts_with(workspace_path)`, component by component. -/
def pathMatchesWorkspace (cwd workspacePath : Text) : Bool :=
  UnixPath.isAbsolute cwd == UnixPath.isAbsolute workspacePath &&
    (UnixPath.startsInCurDir cwd == UnixPath.startsInCurDir workspacePath ||
      (!UnixPath.startsInCurDir workspacePath && UnixPath.components workspacePath == [])) &&
    (UnixPath.components workspacePath).isPrefixOf (UnixPath.components cwd)

def inputKeys : List Text := ["input_tokens", "inputTokens"].map String.toList

def cachedKeys : List Text :=
  ["cached_input_tokens", "cache_read_input_tokens", "cachedInputTokens",
    "cacheReadInputTokens"].map String.toList

def outputKeys : List Text := ["output_tokens", "outputTokens"].map String.toList

namespace Reader

variable (r : Reader)

def readI64 (map : Json) (keys : List Text) : Int :=
  match keys.findSome? fun key => getField key map with
  | some (.number digits) => r.number digits
  | _ => 0

def readTimestampMs (value : Json) : Option Int :=
  match getField "timestamp".toList value with
  | some (.string text) => r.rfc3339 text
  | some (.number digits) =>
    let numeric := r.number digits
    some (if 0 < numeric ∧ numeric < 1000000000000 then numeric * 1000 else numeric)
  | _ => none

def readUsageMap (map : Json) : UsageTotals where
  input := r.readI64 map inputKeys
  cached := r.readI64 map cachedKeys
  output := r.readI64 map outputKeys

/-- The usage of a token count, and whether it is that of the whole session. -/
def readUsage (value : Json) : Option (UsageTotals × Bool) :=
  (infoOf value).bind fun info =>
    match findUsageMap info (["total_token_usage", "totalTokenUsage"].map String.toList) with
    | some total => some (r.readUsageMap total, true)
    | none =>
      (findUsageMap info (["last_token_usage", "lastTokenUsage"].map String.toList)).map
        fun last => (r.readUsageMap last, false)

/-- The value of a line; lines that are too long are passed over. -/
def readLine (line : Text) : Option Json :=
  if 512000 < byteLen line then none else r.fromStr line

/-! ### Counting -/

/-- The entry of a day is changed, if the day is one of those that are counted. -/
def onDay (timestampMs : Int) (change : DailyTotals → DailyTotals) (s : FileScan) : FileScan :=
  match r.dayKey timestampMs with
  | none => s
  | some key => { s with tables.daily := OrderedMap.modify key change s.tables.daily }

def trackActivity (timestampMs : Int) (s : FileScan) : FileScan :=
  let s' :=
    match s.lastActivityMs with
    | none => s
    | some prev =>
      if 0 < timestampMs - prev ∧ timestampMs - prev ≤ maxActivityGapMs then
        r.onDay timestampMs
          (fun entry => { entry with agentMs := entry.agentMs + (timestampMs - prev) }) s
      else s
  { s' with lastActivityMs := some timestampMs }

/-- A run is counted once for each time. -/
def countRun (timestampMs : Int) (s : FileScan) : FileScan :=
  if timestampMs ∈ s.seenRuns then s
  else
    r.onDay timestampMs (fun entry => { entry with agentRuns := entry.agentRuns + 1 })
      { s with seenRuns := s.seenRuns ++ [timestampMs] }

/-- `if let Some(timestamp_ms) = read_timestamp_ms(&value) { … }` -/
def atTime (value : Json) (act : Int → FileScan → FileScan) (s : FileScan) : FileScan :=
  match r.readTimestampMs value with
  | none => s
  | some timestampMs => act timestampMs s

/-- What a token count adds, and the totals behind it. -/
def advance (previous : UsageTotals) (usage : UsageTotals) (usedTotal : Bool) :
    UsageTotals × UsageTotals :=
  if usedTotal then
    ({ input := max (usage.input - previous.input) 0
       cached := max (usage.cached - previous.cached) 0
       output := max (usage.output - previous.output) 0 }, usage)
  else
    (usage,
      { input := previous.input + usage.input
        cached := previous.cached + usage.cached
        output := previous.output + usage.output })

def addDelta (delta : UsageTotals) (entry : DailyTotals) : DailyTotals :=
  { entry with
    input := entry.input + delta.input
    cached := entry.cached + min delta.cached delta.input
    output := entry.output + delta.output }

/-- The tables with the tokens of a day that is counted. -/
def addTokens (key : Text) (delta : UsageTotals) (model : Text) (tables : Tables) : Tables :=
  match OrderedMap.get key tables.daily with
  | none => tables
  | some _ =>
    { daily := OrderedMap.modify key (addDelta delta) tables.daily
      modelTotals := OrderedMap.bump model (delta.input + delta.output) tables.modelTotals }

/-- The tokens are added, if there is a day for them. -/
def addUsage (day : Option Text) (delta : UsageTotals) (model : Text) (s : FileScan) : FileScan :=
  match day with
  | none => s
  | some key => { s with tables := addTokens key delta model s.tables }

def tokenCount (value : Json) (s : FileScan) : FileScan :=
  match r.readUsage value with
  | none => s
  | some (usage, usedTotal) =>
    let next := advance (s.previousTotals.getD {}) usage usedTotal
    let delta := next.1
    let s := { s with previousTotals := some next.2 }
    if delta.input = 0 ∧ delta.cached = 0 ∧ delta.output = 0 then s
    else
      let model := (s.currentModel.or (extractModelFromTokenCount value)).getD "unknown".toList
      r.atTime value r.trackActivity
        (addUsage ((r.readTimestampMs value).bind r.dayKey) delta model s)

/-- A line of a session that belongs to the workspace. -/
def scanEntry (value : Json) (s : FileScan) : FileScan :=
  if entryType value = "event_msg".toList ∨ (entryType value).isEmpty then
    if payloadType value = some "agent_message".toList then
      r.atTime value (fun timestampMs s => r.trackActivity timestampMs (r.countRun timestampMs s)) s
    else if payloadType value = some "agent_reasoning".toList then
      r.atTime value r.trackActivity s
    else if payloadType value ≠ some "token_count".toList then s
    else r.tokenCount value s
  else if entryType value = "response_item".toList then
    if ((payloadOf value).bind (strField "role".toList)).getD [] = "assistant".toList then
      r.atTime value (fun timestampMs s => r.trackActivity timestampMs (r.countRun timestampMs s)) s
    else if payloadType value ≠ some "message".toList then r.atTime value r.trackActivity s
    else s
  else s

end Reader

/-! ### The files -/

def isContext (value : Json) : Bool :=
  entryType value = "session_meta".toList || entryType value = "turn_context".toList

/-- Whether a line says that the session belongs to the workspace. -/
def workspaceOf (filter : Option Text) (value : Json) : Option Bool :=
  if isContext value then
    (extractCwd value).bind fun cwd => filter.map (pathMatchesWorkspace cwd)
  else none

/-- The state behind a line, and whether the loop goes on. -/
def Reader.scanValue (r : Reader) (filter : Option Text) (value : Json) (s : FileScan) :
    FileScan × Bool :=
  let s :=
    match workspaceOf filter value with
    | none => s
    | some ok => { s with matchesWorkspace := ok, matchKnown := true }
  if workspaceOf filter value = some false then (s, false)
  else if entryType value = "turn_context".toList then
    ({ s with currentModel := (extractModelFromTurnContext value).or s.currentModel }, true)
  else if entryType value = "session_meta".toList then (s, true)
  else if !s.matchesWorkspace then (s, !s.matchKnown)
  else if !s.matchKnown then (s, true)
  else (r.scanEntry value s, true)

/-- The loop; lines that cannot be read are passed over. -/
def Reader.scanLines (r : Reader) (filter : Option Text) : List (Option Text) → FileScan → FileScan
  | [], s => s
  | line :: rest, s =>
    match line.bind r.readLine with
    | none => r.scanLines filter rest s
    | some value =>
      if (r.scanValue filter value s).2 then
        r.scanLines filter rest (r.scanValue filter value s).1
      else (r.scanValue filter value s).1

/-- A file that cannot be opened has no lines. -/
def scanFile (r : Reader) (filter : Option Text) (lines : Option (List (Option Text)))
    (tables : Tables) : Tables :=
  match lines with
  | none => tables
  | some lines =>
    (r.scanLines filter lines
      { tables, matchKnown := filter.isNone, matchesWorkspace := filter.isNone }).tables

/-- A file of a directory: its name, and its lines. -/
structure SessionFile where
  name : Text
  lines : Option (List (Option Text))
  deriving DecidableEq, Repr

/-- `readDir root day` are the files of the day's directory under the root. -/
def scanTables (r : Reader) (filter : Option Text) (readDir : Text → Text → List SessionFile)
    (dayKeys roots : List Text) : Tables :=
  let tables : Tables := { daily := dayKeys.map fun key => (key, {}) }
  roots.foldl (fun tables root =>
    dayKeys.foldl (fun tables day =>
      (readDir root day).foldl (fun tables file =>
        if UnixPath.extension file.name ≠ some "jsonl".toList then tables
        else scanFile r filter file.lines tables) tables) tables) tables

/-! ### The snapshot -/

structure LocalUsageDay where
  day : Text
  inputTokens : Int
  cachedInputTokens : Int
  outputTokens : Int
  totalTokens : Int
  agentTimeMs : Int
  agentRuns : Int
  deriving DecidableEq, Repr

structure LocalUsageSnapshot where
  days : List LocalUsageDay
  last7DaysTokens : Int
  last30DaysTokens : Int
  deriving DecidableEq, Repr

def usageDay (daily : List (Text × DailyTotals)) (dayKey : Text) : LocalUsageDay :=
  let totals := (OrderedMap.get dayKey daily).getD {}
  { day := dayKey
    inputTokens := totals.input
    cachedInputTokens := totals.cached
    outputTokens := totals.output
    totalTokens := totals.input + totals.output
    agentTimeMs := totals.agentMs
    agentRuns := totals.agentRuns }

def buildSnapshot (dayKeys : List Text) (daily : List (Text × DailyTotals)) :
    LocalUsageSnapshot :=
  let days := dayKeys.map (usageDay daily)
  { days
    last7DaysTokens := ((days.reverse.take 7).map (·.totalTokens)).sum
    last30DaysTokens := (days.map (·.totalTokens)).sum }

/-- `make_day_keys`: the last days, the oldest first; `date` writes the number of a day. -/
def makeDayKeys (date : Int → Text) (today : Int) (days : Nat) : List Text :=
  (List.range days).reverse.map fun offset : Nat => date (today - (offset : Int))

/-- The number of days is between 1 and 90. -/
def usageDays (days : Option Nat) : Nat := min (max (days.getD 30) 1) 90

def scanLocalUsage (r : Reader) (filter : Option Text)
    (readDir : Text → Text → List SessionFile) (dayKeys roots : List Text) : LocalUsageSnapshot :=
  buildSnapshot dayKeys (scanTables r filter readDir dayKeys roots).daily

end CodexMonitor.Shared
