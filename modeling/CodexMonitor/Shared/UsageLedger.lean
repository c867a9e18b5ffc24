import CodexMonitor.Shared.LocalUsage

namespace CodexMonitor.Shared

open Text
open CodexMonitor.Approvals (Json)

/-!
# Shared — the ledger of local usage

What the scan of session files is for: each token count of a session moves its running usage on,
and what it moves on by is entered under a day.

* `UsageRecord`, `recordsOf` — the token counts of a file.
* `Ledger`, `Ledger.step` — a ledger of days, and a record that is entered.
* `scanLines_ledger` — the scan of a file enters its records.
* `localUsage_addsUp` — models and days have the same sum, cached tokens are input tokens, and a
  file contributes its final usage.
-/

/-! ### Records -/

/-- A token count: the usage, whether it is that of the whole session, and the day. -/
structure UsageRecord where
  usage : UsageTotals
  whole : Bool
  day : Option Text
  deriving DecidableEq, Repr

def UsageTotals.add (a b : UsageTotals) : UsageTotals where
  input := a.input + b.input
  cached := a.cached + b.cached
  output := a.output + b.output

structure UsageTotals.NonNegative (u : UsageTotals) : Prop where
  input : 0 ≤ u.input
  cached : 0 ≤ u.cached
  output : 0 ≤ u.output

/-- The running usage of a session behind a record. -/
def UsageRecord.follow (running : UsageTotals) (rec : UsageRecord) : UsageTotals :=
  if rec.whole then rec.usage else running.add rec.usage

/-- The running usage never decreases. -/
def NeverDecreases (running : UsageTotals) : List UsageRecord → Prop
  | [] => True
  | rec :: rest =>
    (running.input ≤ (UsageRecord.follow running rec).input ∧
      running.output ≤ (UsageRecord.follow running rec).output) ∧
    NeverDecreases (UsageRecord.follow running rec) rest

def isTokenCount (value : Json) : Bool :=
  (entryType value = "event_msg".toList || (entryType value).isEmpty) &&
    payloadType value = some "token_count".toList

/-- The token counts that concern the workspace: those from the first line on that says so, up to
    the first one that says otherwise. -/
def counted (filter : Option Text) : Bool → List Json → List Json
  | _, [] => []
  | on, value :: rest =>
    match workspaceOf filter value with
    | some false => []
    | some true => counted filter true rest
    | none =>
      if on && isTokenCount value then value :: counted filter on rest
      else counted filter on rest

/-- The record of a line. -/
def Reader.recordOf (r : Reader) (value : Json) : Option UsageRecord :=
  (r.readUsage value).map fun read =>
    { usage := read.1, whole := read.2, day := (r.readTimestampMs value).bind r.dayKey }

/-- The values of the lines that can be read. -/
def Reader.valuesOf (r : Reader) (lines : List (Option Text)) : List Json :=
  lines.filterMap fun line => line.bind r.readLine

/-- The records of a file that concern the workspace; without a workspace, all of them. -/
def recordsOf (r : Reader) (filter : Option Text) (lines : List (Option Text)) :
    List UsageRecord :=
  (counted filter filter.isNone (r.valuesOf lines)).filterMap r.recordOf

/-- Without a workspace every token count is one. -/
theorem counted_none (values : List Json) :
    counted none true values = values.filter isTokenCount := by
  induction values with
  | nil => rfl
  | cons value rest ih =>
    have hnone : workspaceOf none value = none := by
      unfold workspaceOf
      split
      · cases extractCwd value <;> rfl
      · rfl
    rw [counted, hnone, List.filter_cons, ih]
    simp only [Bool.true_and]

/-! ### The ledger -/

/-- The tokens of the days, the sum over the models, and the running usage of a session. -/
structure Ledger where
  days : List (Text × UsageTotals)
  modelSum : Int
  running : UsageTotals
  deriving DecidableEq, Repr

namespace Ledger

/-- No more cached tokens than there are input tokens. -/
def enter (delta tokens : UsageTotals) : UsageTotals :=
  tokens.add { delta with cached := min delta.cached delta.input }

/-- A record is entered. -/
def step (ledger : Ledger) (rec : UsageRecord) : Ledger :=
  let next := Reader.advance ledger.running rec.usage rec.whole
  match rec.day with
  | none => { ledger with running := next.2 }
  | some key =>
    if key ∈ ledger.days.map Prod.fst then
      { days := OrderedMap.modify key (enter next.1) ledger.days
        modelSum := ledger.modelSum + (next.1.input + next.1.output)
        running := next.2 }
    else { ledger with running := next.2 }

/-- The sum of a measure over the days. -/
def total (ledger : Ledger) (measure : UsageTotals → Int) : Int :=
  (ledger.days.map fun e => measure e.2).sum

variable {ledger : Ledger} {rec : UsageRecord} {records : List UsageRecord}

theorem advance_running (running : UsageTotals) (rec : UsageRecord) :
    (Reader.advance running rec.usage rec.whole).2 = rec.follow running := by
  unfold Reader.advance UsageRecord.follow
  split <;> rfl

theorem step_running (ledger : Ledger) (rec : UsageRecord) :
    (ledger.step rec).running = rec.follow ledger.running := by
  rw [← advance_running]
  unfold step
  cases rec.day with
  | none => rfl
  | some key =>
    simp only
    split <;> rfl

theorem step_keys (ledger : Ledger) (rec : UsageRecord) :
    (ledger.step rec).days.map Prod.fst = ledger.days.map Prod.fst := by
  unfold step
  cases rec.day with
  | none => rfl
  | some key =>
    simp only
    split
    · exact OrderedMap.keys_modify _ _ _
    · rfl

/-- **Days and models stay equal**: what is entered under a day is added to a model. -/
theorem step_balance (h : ledger.modelSum = ledger.total fun u => u.input + u.output) :
    (ledger.step rec).modelSum = (ledger.step rec).total fun u => u.input + u.output := by
  unfold step total at *
  cases rec.day with
  | none => exact h
  | some key =>
    simp only
    split
    · next hkey =>
      simp only
      rw [h]
      refine (OrderedMap.sum_modify (fun u => u.input + u.output) _ _ hkey fun tokens => ?_).symm
      simp only [enter, UsageTotals.add]
      omega
    · exact h

/-- What a record adds is not negative, if its counts are not. -/
theorem advance_nonNegative {usage : UsageTotals} (running : UsageTotals) (whole : Bool)
    (h : usage.NonNegative) :
    (Reader.advance running usage whole).1.NonNegative := by
  unfold Reader.advance
  split
  · exact ⟨Int.le_max_right _ _, Int.le_max_right _ _, Int.le_max_right _ _⟩
  · exact h

/-- Cached tokens are input tokens. -/
def CachedWithin (tokens : UsageTotals) : Prop :=
  0 ≤ tokens.cached ∧ tokens.cached ≤ tokens.input

/-- **Cached tokens are input tokens**, on every day. -/
theorem step_cached (hrec : rec.usage.NonNegative) (h : ∀ e ∈ ledger.days, CachedWithin e.2) :
    ∀ e ∈ (ledger.step rec).days, CachedWithin e.2 := by
  unfold step
  cases rec.day with
  | none => exact h
  | some key =>
    simp only
    split
    · have hdelta := advance_nonNegative ledger.running rec.whole hrec
      have hinput := hdelta.input
      have hcached := hdelta.cached
      apply OrderedMap.forall_modify CachedWithin h
      intro tokens htokens
      unfold CachedWithin at htokens ⊢
      simp only [enter, UsageTotals.add]
      omega
    · exact h

/-- What a record adds, if the running usage does not decrease. -/
theorem advance_delta {running : UsageTotals}
    (hinput : running.input ≤ (rec.follow running).input)
    (houtput : running.output ≤ (rec.follow running).output) :
    (Reader.advance running rec.usage rec.whole).1.input + running.input =
        (rec.follow running).input ∧
      (Reader.advance running rec.usage rec.whole).1.output + running.output =
        (rec.follow running).output := by
  unfold Reader.advance UsageRecord.follow at *
  by_cases hwhole : rec.whole = true
  · simp only [if_pos hwhole] at hinput houtput ⊢
    omega
  · simp only [if_neg hwhole, UsageTotals.add]
    omega

/-- **A record contributes what it moves the running usage on by**, if its day is counted. -/
theorem step_contributes (hday : ∃ key ∈ ledger.days.map Prod.fst, rec.day = some key)
    (hinput : ledger.running.input ≤ (rec.follow ledger.running).input)
    (houtput : ledger.running.output ≤ (rec.follow ledger.running).output) :
    ((ledger.step rec).total fun u => u.input) + ledger.running.input =
        (ledger.total fun u => u.input) + (ledger.step rec).running.input ∧
      ((ledger.step rec).total fun u => u.output) + ledger.running.output =
        (ledger.total fun u => u.output) + (ledger.step rec).running.output := by
  obtain ⟨key, hkey, hday⟩ := hday
  obtain ⟨hin, hout⟩ := advance_delta hinput houtput
  have hdays : (ledger.step rec).days = OrderedMap.modify key
      (enter (Reader.advance ledger.running rec.usage rec.whole).1) ledger.days := by
    unfold step
    rw [hday]
    simp only
    rw [if_pos hkey]
  have hsum : ((ledger.step rec).total fun u => u.input) = (ledger.total fun u => u.input) +
      (Reader.advance ledger.running rec.usage rec.whole).1.input := by
    unfold total
    rw [hdays]
    apply OrderedMap.sum_modify (fun u => u.input) _ _ hkey
    intro tokens
    rfl
  have hsum' : ((ledger.step rec).total fun u => u.output) = (ledger.total fun u => u.output) +
      (Reader.advance ledger.running rec.usage rec.whole).1.output := by
    unfold total
    rw [hdays]
    apply OrderedMap.sum_modify (fun u => u.output) _ _ hkey
    intro tokens
    rfl
  rw [step_running]
  omega

/-- The keys of the days stay the same over a run. -/
theorem run_keys (records : List UsageRecord) (ledger : Ledger) :
    (records.foldl step ledger).days.map Prod.fst = ledger.days.map Prod.fst := by
  induction records generalizing ledger with
  | nil => rfl
  | cons rec records ih => rw [List.foldl_cons, ih, step_keys]

/-- **The records of a session contribute its final usage.** -/
theorem run_contributes (hdays : ∀ rec ∈ records, ∃ key ∈ ledger.days.map Prod.fst,
    rec.day = some key) (h : NeverDecreases ledger.running records) :
    ((records.foldl step ledger).total fun u => u.input) + ledger.running.input =
        (ledger.total fun u => u.input) +
          (records.foldl UsageRecord.follow ledger.running).input ∧
      ((records.foldl step ledger).total fun u => u.output) + ledger.running.output =
        (ledger.total fun u => u.output) +
          (records.foldl UsageRecord.follow ledger.running).output := by
  induction records generalizing ledger with
  | nil => exact ⟨rfl, rfl⟩
  | cons rec records ih =>
    obtain ⟨⟨hinput, houtput⟩, hrest⟩ := h
    obtain ⟨hday, hdays⟩ := List.forall_mem_cons.mp hdays
    obtain ⟨hstep, hstep'⟩ := step_contributes hday hinput houtput
    have hdays' : ∀ rec' ∈ records, ∃ key ∈ (ledger.step rec).days.map Prod.fst,
        rec'.day = some key := by
      rw [step_keys]
      exact hdays
    have hrun := ih hdays' (by rw [step_running]; exact hrest)
    rw [List.foldl_cons, List.foldl_cons, ← step_running]
    omega

end Ledger

/-! ### The scan keeps the ledger -/

def DailyTotals.tokens (totals : DailyTotals) : UsageTotals where
  input := totals.input
  cached := totals.cached
  output := totals.output

/-- The days and the sum over the models. -/
def Tables.ledger (tables : Tables) (running : UsageTotals) : Ledger where
  days := tables.daily.map fun e => (e.1, e.2.tokens)
  modelSum := (tables.modelTotals.map Prod.snd).sum
  running := running

/-- What the scan of a file has entered. -/
def FileScan.ledger (s : FileScan) : Ledger := s.tables.ledger (s.previousTotals.getD {})

variable {r : Reader} {filter : Option Text} {s s' : FileScan} {value : Json}

/-- What the tokens depend on is the same. -/
structure SameTokens (s s' : FileScan) : Prop where
  ledger : s'.ledger = s.ledger
  known : s'.matchKnown = s.matchKnown
  matching : s'.matchesWorkspace = s.matchesWorkspace

theorem SameTokens.trans {s'' : FileScan} (h : SameTokens s s') (h' : SameTokens s' s'') :
    SameTokens s s'' :=
  ⟨h'.ledger.trans h.ledger, h'.known.trans h.known, h'.matching.trans h.matching⟩

/-- Activity and runs are no tokens. -/
theorem sameTokens_onDay (timestampMs : Int) (change : DailyTotals → DailyTotals)
    (h : ∀ entry, (change entry).tokens = entry.tokens) (s : FileScan) :
    SameTokens s (r.onDay timestampMs change s) := by
  unfold Reader.onDay
  cases r.dayKey timestampMs with
  | none => exact ⟨rfl, rfl, rfl⟩
  | some key =>
    refine ⟨?_, rfl, rfl⟩
    have hdays : (OrderedMap.modify key change s.tables.daily).map (fun e => (e.1, e.2.tokens)) =
        s.tables.daily.map fun e => (e.1, e.2.tokens) := by
      rw [@OrderedMap.map_modify _ _ _ _ _ _ _ _ id h]
      exact OrderedMap.modify_of_id fun _ => rfl
    simp only [FileScan.ledger, Tables.ledger, hdays]

theorem sameTokens_trackActivity (timestampMs : Int) (s : FileScan) :
    SameTokens s (r.trackActivity timestampMs s) := by
  have hnoted : ∀ s' : FileScan, SameTokens s s' →
      SameTokens s { s' with lastActivityMs := some timestampMs } :=
    fun s' h => ⟨h.ledger, h.known, h.matching⟩
  unfold Reader.trackActivity
  apply hnoted
  cases s.lastActivityMs with
  | none => exact ⟨rfl, rfl, rfl⟩
  | some prev =>
    simp only
    split
    · apply sameTokens_onDay
      intro entry
      rfl
    · exact ⟨rfl, rfl, rfl⟩

theorem sameTokens_countRun (timestampMs : Int) (s : FileScan) :
    SameTokens s (r.countRun timestampMs s) := by
  unfold Reader.countRun
  split
  · exact ⟨rfl, rfl, rfl⟩
  · have hnoted : SameTokens s { s with seenRuns := s.seenRuns ++ [timestampMs] } :=
      ⟨rfl, rfl, rfl⟩
    apply hnoted.trans
    apply sameTokens_onDay
    intro entry
    rfl

theorem sameTokens_atTime {act : Int → FileScan → FileScan}
    (h : ∀ timestampMs, SameTokens s (act timestampMs s)) : SameTokens s (r.atTime value act s) := by
  unfold Reader.atTime
  split
  · exact ⟨rfl, rfl, rfl⟩
  · exact h _

/-! ### Token counts -/

variable {tables : Tables} {running delta : UsageTotals} {key model : Text} {rec : UsageRecord}

theorem keys_ledger (tables : Tables) (running : UsageTotals) :
    (tables.ledger running).days.map Prod.fst = tables.daily.map Prod.fst := by
  unfold Tables.ledger
  rw [List.map_map]
  rfl

theorem ledger_addTokens (h : key ∈ tables.daily.map Prod.fst) :
    (Reader.addTokens key delta model tables).ledger running =
      { days := OrderedMap.modify key (Ledger.enter delta) (tables.ledger running).days
        modelSum := (tables.ledger running).modelSum + (delta.input + delta.output)
        running := running } := by
  obtain ⟨entry, hentry⟩ := Option.isSome_iff_exists.mp (OrderedMap.get_isSome_iff.mpr h)
  have hdays : (OrderedMap.modify key (Reader.addDelta delta) tables.daily).map
      (fun e => (e.1, e.2.tokens)) =
        OrderedMap.modify key (Ledger.enter delta) (tables.daily.map fun e => (e.1, e.2.tokens)) :=
    OrderedMap.map_modify fun _ => rfl
  unfold Reader.addTokens
  rw [hentry]
  simp only [Tables.ledger, hdays, OrderedMap.sum_bump]

theorem addTokens_untracked (h : key ∉ tables.daily.map Prod.fst) :
    Reader.addTokens key delta model tables = tables := by
  have hnone : OrderedMap.get key tables.daily = none := by
    rw [← Option.not_isSome_iff_eq_none, OrderedMap.get_isSome_iff]
    exact h
  unfold Reader.addTokens
  rw [hnone]

/-- Nothing is entered for an empty delta. -/
theorem step_of_empty (ledger : Ledger) (rec : UsageRecord)
    (h : (Reader.advance ledger.running rec.usage rec.whole).1 = {}) :
    ledger.step rec =
      { ledger with running := (Reader.advance ledger.running rec.usage rec.whole).2 } := by
  have henter : ∀ tokens, Ledger.enter {} tokens = tokens := by
    intro tokens
    simp [Ledger.enter, UsageTotals.add]
  unfold Ledger.step
  simp only [h]
  cases rec.day with
  | none => rfl
  | some key =>
    simp only
    split
    · rw [OrderedMap.modify_of_id henter]
      simp
    · rfl

/-- Tokens that are added are entered. -/
theorem ledger_addUsage {day : Option Text} {usage : UsageTotals} {whole : Bool}
    (hprevious : s.previousTotals = some (Reader.advance running usage whole).2) :
    (Reader.addUsage day (Reader.advance running usage whole).1 model s).ledger =
      (s.tables.ledger running).step ⟨usage, whole, day⟩ := by
  have hrunning : s.previousTotals.getD {} = (Reader.advance running usage whole).2 := by
    rw [hprevious]
    rfl
  cases day with
  | none =>
    unfold FileScan.ledger
    rw [show (Reader.addUsage none _ model s) = s from rfl, hrunning]
    rfl
  | some key =>
    show (Reader.addTokens key _ model s.tables).ledger (s.previousTotals.getD {}) = _
    unfold Ledger.step
    simp only
    rw [hrunning, keys_ledger]
    by_cases hkey : key ∈ s.tables.daily.map Prod.fst
    · rw [if_pos hkey, ledger_addTokens hkey]
      rfl
    · rw [if_neg hkey, addTokens_untracked hkey]
      rfl

theorem addUsage_flags (day : Option Text) (delta : UsageTotals) (model : Text) (s : FileScan) :
    (Reader.addUsage day delta model s).matchKnown = s.matchKnown ∧
      (Reader.addUsage day delta model s).matchesWorkspace = s.matchesWorkspace := by
  cases day with
  | none => exact ⟨rfl, rfl⟩
  | some key => exact ⟨rfl, rfl⟩

/-- **A token count is entered.** -/
theorem ledger_tokenCount (h : r.recordOf value = some rec) :
    (r.tokenCount value s).ledger = s.ledger.step rec ∧
      (r.tokenCount value s).matchKnown = s.matchKnown ∧
      (r.tokenCount value s).matchesWorkspace = s.matchesWorkspace := by
  obtain ⟨⟨usage, whole⟩, hread, rfl⟩ := Option.map_eq_some_iff.mp h
  have hrunning : s.ledger.running = s.previousTotals.getD {} := rfl
  unfold Reader.tokenCount
  rw [hread]
  simp only
  split
  · next hzero =>
    have hempty : (Reader.advance s.ledger.running usage whole).1 = {} := by
      rw [hrunning]
      cases hdelta : (Reader.advance (s.previousTotals.getD {}) usage whole).1 with
      | mk input cached output =>
        rw [hdelta] at hzero
        obtain ⟨rfl, rfl, rfl⟩ := hzero
        rfl
    rw [step_of_empty s.ledger ⟨usage, whole, _⟩ hempty]
    exact ⟨rfl, rfl, rfl⟩
  · have hsame : ∀ entered : FileScan,
        SameTokens entered (r.atTime value r.trackActivity entered) :=
      fun entered => sameTokens_atTime fun timestampMs => sameTokens_trackActivity timestampMs entered
    have hflags := addUsage_flags ((r.readTimestampMs value).bind r.dayKey)
    refine ⟨?_, ?_, ?_⟩
    · rw [(hsame _).ledger, ledger_addUsage rfl]
      rfl
    · rw [(hsame _).known, (hflags _ _ _).1]
    · rw [(hsame _).matching, (hflags _ _ _).2]

/-- A value that has no usage is passed over. -/
theorem tokenCount_of_none (h : r.recordOf value = none) : r.tokenCount value s = s := by
  unfold Reader.tokenCount
  rw [Option.map_eq_none_iff.mp h]

theorem scanEntry_tokenCount (h : isTokenCount value = true) :
    r.scanEntry value s = r.tokenCount value s := by
  unfold isTokenCount at h
  rw [Bool.and_eq_true, Bool.or_eq_true, decide_eq_true_eq, decide_eq_true_eq] at h
  unfold Reader.scanEntry
  rw [if_pos h.1, h.2, if_neg (by decide), if_neg (by decide), if_neg (not_not.mpr rfl)]

theorem scanEntry_other (h : isTokenCount value = false) :
    SameTokens s (r.scanEntry value s) := by
  have hactivity : SameTokens s (r.atTime value r.trackActivity s) :=
    sameTokens_atTime fun timestampMs => sameTokens_trackActivity timestampMs s
  have hrun : SameTokens s (r.atTime value
      (fun timestampMs s => r.trackActivity timestampMs (r.countRun timestampMs s)) s) :=
    sameTokens_atTime fun timestampMs =>
      (sameTokens_countRun timestampMs s).trans (sameTokens_trackActivity timestampMs _)
  have hnone : SameTokens s s := ⟨rfl, rfl, rfl⟩
  unfold Reader.scanEntry
  split
  · next hevent =>
    split
    · exact hrun
    · split
      · exact hactivity
      · split
        · exact hnone
        · next hcount =>
          rw [not_not] at hcount
          unfold isTokenCount at h
          rw [hcount, decide_eq_true rfl, Bool.and_true, Bool.or_eq_false_iff,
            decide_eq_false_iff_not] at h
          refine absurd hevent (not_or.mpr ⟨h.1, ?_⟩)
          rw [h.2]
          exact Bool.false_ne_true
  · split
    · split
      · exact hrun
      · split
        · exact hactivity
        · exact hnone
    · exact hnone

/-! ### Lines and files -/

/-- A line that names another workspace ends the scan. -/
theorem scanValue_off (h : workspaceOf filter value = some false) (s : FileScan) :
    (r.scanValue filter value s).2 = false ∧ (r.scanValue filter value s).1.ledger = s.ledger := by
  unfold Reader.scanValue
  rw [h]
  simp only [if_true]
  exact ⟨trivial, rfl⟩

theorem isContext_of_workspaceOf {ok : Bool} (h : workspaceOf filter value = some ok) :
    entryType value = "session_meta".toList ∨ entryType value = "turn_context".toList := by
  unfold workspaceOf at h
  split at h
  · next hcontext =>
    unfold isContext at hcontext
    rwa [Bool.or_eq_true, decide_eq_true_eq, decide_eq_true_eq] at hcontext
  · cases h

/-- A line that names the workspace lets the scan begin. -/
theorem scanValue_on (h : workspaceOf filter value = some true) (s : FileScan) :
    (r.scanValue filter value s).2 = true ∧
      (r.scanValue filter value s).1.ledger = s.ledger ∧
      (r.scanValue filter value s).1.matchKnown = true ∧
      (r.scanValue filter value s).1.matchesWorkspace = true := by
  unfold Reader.scanValue
  rw [h]
  simp only [Option.some.injEq, Bool.true_eq_false, if_false]
  split
  · exact ⟨rfl, rfl, rfl, rfl⟩
  · next hturn =>
    rw [if_pos ((isContext_of_workspaceOf h).resolve_right hturn)]
    exact ⟨rfl, rfl, rfl, rfl⟩

/-- Any other line is passed over, or is an entry of the session. -/
theorem scanValue_none (h : workspaceOf filter value = none) (s : FileScan) {on : Bool}
    (hknown : s.matchKnown = on) (hmatching : s.matchesWorkspace = on) :
    (r.scanValue filter value s).2 = true ∧
      ((on && isTokenCount value) = true → (r.scanValue filter value s).1 = r.tokenCount value s) ∧
      ((on && isTokenCount value) = false → SameTokens s (r.scanValue filter value s).1) := by
  have hcount : isTokenCount value = true →
      entryType value ≠ "turn_context".toList ∧ entryType value ≠ "session_meta".toList := by
    intro hcount
    unfold isTokenCount at hcount
    rw [Bool.and_eq_true, Bool.or_eq_true, decide_eq_true_eq, List.isEmpty_iff] at hcount
    rcases hcount.1 with heq | heq
    · rw [heq]
      decide
    · rw [heq]
      decide
  unfold Reader.scanValue
  rw [h]
  simp only [reduceCtorEq, if_false, hknown, hmatching]
  by_cases hturn : entryType value = "turn_context".toList
  · rw [if_pos hturn]
    refine ⟨rfl, fun hon => ?_, fun _ => ⟨rfl, hknown.symm, hmatching.symm⟩⟩
    exact absurd hturn (hcount (Bool.and_eq_true_iff.mp hon).2).1
  · rw [if_neg hturn]
    by_cases hmeta : entryType value = "session_meta".toList
    · rw [if_pos hmeta]
      refine ⟨rfl, fun hon => ?_, fun _ => ⟨rfl, rfl, rfl⟩⟩
      exact absurd hmeta (hcount (Bool.and_eq_true_iff.mp hon).2).2
    · rw [if_neg hmeta]
      cases on with
      | false => exact ⟨rfl, nofun, fun _ => ⟨rfl, rfl, rfl⟩⟩
      | true =>
        refine ⟨rfl, fun hon => ?_, fun hon => ?_⟩
        · exact scanEntry_tokenCount hon
        · exact scanEntry_other hon

/-- **The scan of the lines enters the records** that concern the workspace. -/
theorem scanLines_ledger (lines : List (Option Text)) (s : FileScan) {on : Bool}
    (hknown : s.matchKnown = on) (hmatching : s.matchesWorkspace = on) :
    (r.scanLines filter lines s).ledger =
      ((counted filter on (r.valuesOf lines)).filterMap r.recordOf).foldl Ledger.step s.ledger := by
  induction lines generalizing s on with
  | nil => rfl
  | cons line rest ih =>
    cases hline : line.bind r.readLine with
    | none =>
      have hvalues : r.valuesOf (line :: rest) = r.valuesOf rest := List.filterMap_cons_none hline
      rw [Reader.scanLines, hline, hvalues]
      exact ih s hknown hmatching
    | some value =>
      have hvalues : r.valuesOf (line :: rest) = value :: r.valuesOf rest :=
        List.filterMap_cons_some hline
      rw [Reader.scanLines, hline, hvalues, counted]
      simp only
      cases hworkspace : workspaceOf filter value with
      | none =>
        obtain ⟨hgoes, hcounted, hother⟩ := scanValue_none (r := r) hworkspace s hknown hmatching
        rw [if_pos hgoes]
        cases hon : on && isTokenCount value with
        | false =>
          have hsame := hother hon
          rw [ih _ (hsame.known.trans hknown) (hsame.matching.trans hmatching), hsame.ledger]
          simp
        | true =>
          rw [hcounted hon]
          simp only [if_true]
          cases hrec : r.recordOf value with
          | none =>
            rw [tokenCount_of_none hrec, List.filterMap_cons_none hrec]
            exact ih s hknown hmatching
          | some rec =>
            obtain ⟨hledger, hk, hm⟩ := ledger_tokenCount (s := s) hrec
            rw [ih _ (hk.trans hknown) (hm.trans hmatching), hledger,
              List.filterMap_cons_some hrec, List.foldl_cons]
      | some ok =>
        cases ok with
        | false =>
          obtain ⟨hstops, hledger⟩ := scanValue_off (r := r) hworkspace s
          rw [if_neg (by rw [hstops]; exact Bool.false_ne_true), hledger]
          rfl
        | true =>
          obtain ⟨hgoes, hledger, hk, hm⟩ := scanValue_on (r := r) hworkspace s
          rw [if_pos hgoes, ih _ hk hm, hledger]

/-! ### What adds up -/

/-- The tables of a scan: one entry for each day, the models have the sum of the days, and cached
    tokens are input tokens. -/
structure Tables.AddUp (dayKeys : List Text) (tables : Tables) : Prop where
  keys : tables.daily.map Prod.fst = dayKeys
  balance : (tables.modelTotals.map Prod.snd).sum =
    (tables.daily.map fun e => e.2.input + e.2.output).sum
  cached : ∀ e ∈ tables.daily, 0 ≤ e.2.cached ∧ e.2.cached ≤ e.2.input

/-- A file whose counts are not negative. -/
def NonNegativeFile (r : Reader) (filter : Option Text) (file : SessionFile) : Prop :=
  ∀ lines, file.lines = some lines → ∀ rec ∈ recordsOf r filter lines, rec.usage.NonNegative

/-- The ledger of the days behind a file. -/
theorem scanFile_ledger (r : Reader) (filter : Option Text) (lines : List (Option Text))
    (tables : Tables) :
    ∃ running, (scanFile r filter (some lines) tables).ledger running =
      (recordsOf r filter lines).foldl Ledger.step (tables.ledger {}) :=
  ⟨_, scanLines_ledger lines _ rfl rfl⟩

theorem addUp_ledger_iff {dayKeys : List Text} (tables : Tables) (running : UsageTotals) :
    tables.AddUp dayKeys ↔ (tables.ledger running).days.map Prod.fst = dayKeys ∧
      ((tables.ledger running).modelSum =
        (tables.ledger running).total fun u => u.input + u.output) ∧
      ∀ e ∈ (tables.ledger running).days, Ledger.CachedWithin e.2 := by
  have htotal : ((tables.ledger running).total fun u => u.input + u.output) =
      (tables.daily.map fun e => e.2.input + e.2.output).sum := by
    unfold Ledger.total Tables.ledger
    rw [List.map_map]
    rfl
  have hcached : (∀ e ∈ (tables.ledger running).days, Ledger.CachedWithin e.2) ↔
      ∀ e ∈ tables.daily, 0 ≤ e.2.cached ∧ e.2.cached ≤ e.2.input :=
    List.forall_mem_map
  rw [keys_ledger, htotal, hcached]
  exact ⟨fun h => ⟨h.keys, h.balance, h.cached⟩, fun h => ⟨h.1, h.2.1, h.2.2⟩⟩

/-- **The tables still add up behind a file.** -/
theorem scanFile_addUp {dayKeys : List Text} {file : SessionFile}
    (hfile : NonNegativeFile r filter file) (h : tables.AddUp dayKeys) :
    (scanFile r filter file.lines tables).AddUp dayKeys := by
  cases hlines : file.lines with
  | none => exact h
  | some lines =>
    obtain ⟨running, hledger⟩ := scanFile_ledger r filter lines tables
    rw [addUp_ledger_iff _ running, hledger]
    rw [addUp_ledger_iff _ {}] at h
    refine List.foldlRecOn (motive := fun ledger : Ledger => ledger.days.map Prod.fst = dayKeys ∧
      (ledger.modelSum = ledger.total fun u => u.input + u.output) ∧
        ∀ e ∈ ledger.days, Ledger.CachedWithin e.2) _ _ h ?_
    rintro ledger ⟨hkeys, hbalance, hcached⟩ rec hrec
    exact ⟨(Ledger.step_keys ledger rec).trans hkeys, Ledger.step_balance hbalance,
      Ledger.step_cached (hfile lines hlines rec hrec) hcached⟩

/-- **The tables of all files add up.** -/
theorem scanTables_addUp {readDir : Text → Text → List SessionFile} {dayKeys roots : List Text}
    (hfiles : ∀ root day, ∀ file ∈ readDir root day, NonNegativeFile r filter file) :
    (scanTables r filter readDir dayKeys roots).AddUp dayKeys := by
  have hstart : ({ daily := dayKeys.map fun key => (key, {}) } : Tables).AddUp dayKeys := by
    refine ⟨?_, ?_, ?_⟩
    · rw [List.map_map]
      exact List.map_id' dayKeys
    · rw [List.map_map]
      exact (List.sum_eq_zero (by simp)).symm
    · rw [List.forall_mem_map]
      intro key _
      show (0 : Int) ≤ 0 ∧ (0 : Int) ≤ 0
      decide
  refine List.foldlRecOn _ _ hstart fun tables h root _ => ?_
  refine List.foldlRecOn _ _ h fun tables h day _ => ?_
  refine List.foldlRecOn _ _ h fun tables h file hfile => ?_
  split
  · exact h
  · exact scanFile_addUp (hfiles root day file hfile) h

theorem makeDayKeys_nodup {date : Int → Text} (hdate : Function.Injective date) (today : Int)
    (days : Nat) : (makeDayKeys date today days).Nodup := by
  refine List.Nodup.map ?_ (List.nodup_reverse.mpr List.nodup_range)
  intro a b heq
  have hsame := hdate heq
  omega

/-- The days of a snapshot are the entries of the table. -/
theorem sum_days {dayKeys : List Text} {daily : List (Text × DailyTotals)}
    (hkeys : daily.map Prod.fst = dayKeys) (hnodup : dayKeys.Nodup) :
    ((buildSnapshot dayKeys daily).days.map fun d => d.inputTokens + d.outputTokens).sum =
      (daily.map fun e => e.2.input + e.2.output).sum := by
  subst hkeys
  unfold buildSnapshot
  rw [List.map_map, List.map_map]
  refine congrArg List.sum (List.map_congr_left fun e he => ?_)
  show (usageDay daily e.1).inputTokens + (usageDay daily e.1).outputTokens = _
  unfold usageDay
  rw [OrderedMap.get_of_mem hnodup he]
  rfl

/-- **Usage adds up**: whatever files there are, the models have the sum of the days, cached tokens
    are input tokens on every day, and a file all of whose days are counted and whose running
    usage never decreases contributes its final usage, however its token counts are given. -/
theorem localUsage_addsUp (r : Reader) (filter : Option Text)
    (readDir : Text → Text → List SessionFile) (roots : List Text) {date : Int → Text}
    (hdate : Function.Injective date) (today : Int) (days : Option Nat)
    (hfiles : ∀ root day, ∀ file ∈ readDir root day, NonNegativeFile r filter file) :
    let dayKeys := makeDayKeys date today (usageDays days)
    let snapshot := scanLocalUsage r filter readDir dayKeys roots
    ((scanTables r filter readDir dayKeys roots).modelTotals.map Prod.snd).sum =
        (snapshot.days.map fun d => d.inputTokens + d.outputTokens).sum ∧
      (∀ d ∈ snapshot.days, 0 ≤ d.cachedInputTokens ∧ d.cachedInputTokens ≤ d.inputTokens) ∧
      ∀ (lines : List (Option Text)) (tables : Tables), tables.daily.map Prod.fst = dayKeys →
        (∀ rec ∈ recordsOf r filter lines, ∃ key ∈ dayKeys, rec.day = some key) →
        NeverDecreases {} (recordsOf r filter lines) →
        ((scanFile r filter (some lines) tables).daily.map fun e => e.2.input).sum =
            (tables.daily.map fun e => e.2.input).sum +
              ((recordsOf r filter lines).foldl UsageRecord.follow {}).input ∧
          ((scanFile r filter (some lines) tables).daily.map fun e => e.2.output).sum =
            (tables.daily.map fun e => e.2.output).sum +
              ((recordsOf r filter lines).foldl UsageRecord.follow {}).output := by
  intro dayKeys snapshot
  have haddUp : (scanTables r filter readDir dayKeys roots).AddUp dayKeys := scanTables_addUp hfiles
  have hnodup : dayKeys.Nodup := makeDayKeys_nodup hdate today _
  refine ⟨?_, ?_, ?_⟩
  · rw [haddUp.balance]
    exact (sum_days haddUp.keys hnodup).symm
  · intro d hd
    obtain ⟨key, -, rfl⟩ := List.mem_map.mp hd
    unfold usageDay
    cases hget : OrderedMap.get key (scanTables r filter readDir dayKeys roots).daily with
    | none =>
      show (0 : Int) ≤ 0 ∧ (0 : Int) ≤ 0
      decide
    | some totals =>
      obtain ⟨e, he, rfl⟩ := OrderedMap.exists_of_get hget
      exact haddUp.cached e he
  · intro lines tables hkeys hdays hdecreases
    obtain ⟨running, hledger⟩ := scanFile_ledger r filter lines tables
    have htotals : ∀ (tables : Tables) (running : UsageTotals),
        ((tables.ledger running).total fun u => u.input) =
            (tables.daily.map fun e => e.2.input).sum ∧
          ((tables.ledger running).total fun u => u.output) =
            (tables.daily.map fun e => e.2.output).sum := by
      intro tables running
      unfold Ledger.total Tables.ledger
      rw [List.map_map, List.map_map]
      exact ⟨rfl, rfl⟩
    have hdays' : ∀ rec ∈ recordsOf r filter lines,
        ∃ key ∈ (tables.ledger {}).days.map Prod.fst, rec.day = some key := by
      rw [keys_ledger, hkeys]
      exact hdays
    have hrun := Ledger.run_contributes hdays' hdecreases
    rw [← hledger, (htotals _ _).1, (htotals _ _).2, (htotals _ _).1, (htotals _ _).2] at hrun
    have hzero : (tables.ledger {}).running = {} := rfl
    rw [hzero] at hrun
    simpa using hrun

/-! ### A session of three token counts -/

/-- A count of the whole session, or of the last turn. -/
def countLine (key input output : Text) : Text :=
  "\x7b\"timestamp\":1768824000,\"payload\":\x7b\"type\":\"token_count\",\"info\":\x7b\"".toList ++
    key ++ "\":\x7b\"input_tokens\":".toList ++ input ++ ",\"output_tokens\":".toList ++ output ++
    "\x7d\x7d\x7d\x7d".toList

def countJson (key input output : Text) : Json :=
  .object [("timestamp".toList, .number "1768824000".toList),
    ("payload".toList, .object [("type".toList, .string "token_count".toList),
      ("info".toList, .object [(key, .object [("input_tokens".toList, .number input),
        ("output_tokens".toList, .number output)])])])]

/-- Three counts: the session, the last turn, and the session again. -/
def sessionCounts : List (Text × Text × Text) :=
  [("total_token_usage".toList, "10".toList, "5".toList),
    ("last_token_usage".toList, "2".toList, "1".toList),
    ("total_token_usage".toList, "12".toList, "6".toList)]

def sessionLines : List (Option Text) :=
  sessionCounts.map fun count => some (countLine count.1 count.2.1 count.2.2)

def sessionReader : Reader where
  fromStr line := (sessionCounts.find? fun count =>
    countLine count.1 count.2.1 count.2.2 = line).map fun count =>
      countJson count.1 count.2.1 count.2.2
  number digits := (digits.foldl (fun n c => 10 * n + (c.toNat - '0'.toNat)) 0 : Nat)
  rfc3339 _ := none
  dayKey ms := if ms = 1768824000000 then some "2026-01-19".toList else none

def dayCode (day : Int) : Nat := 2 * day.natAbs + if day < 0 then 1 else 0

/-- The date of one day, and another text for each other day. -/
def sessionDate (day : Int) : Text :=
  if day = 20472 then "2026-01-19".toList else List.replicate (dayCode day) 'x'

theorem sessionDate_injective : Function.Injective sessionDate := by
  intro a b heq
  have hdate : ∀ n : Nat, "2026-01-19".toList ≠ List.replicate n 'x' := by
    intro n h
    have hmem : '2' ∈ List.replicate n 'x' := by
      rw [← h]
      decide
    exact absurd (List.eq_of_mem_replicate hmem) (by decide)
  unfold sessionDate at heq
  split at heq
  · next ha =>
    split at heq
    · next hb => rw [ha, hb]
    · exact absurd heq (hdate _)
  · split at heq
    · exact absurd heq.symm (hdate _)
    · have hlen := congrArg List.length heq
      rw [List.length_replicate, List.length_replicate] at hlen
      unfold dayCode at hlen
      split at hlen <;> split at hlen <;> omega

/-- The one file of each day. -/
def sessionFiles (_root _day : Text) : List SessionFile := [⟨"s.jsonl".toList, some sessionLines⟩]

/-- The one day. -/
def sessionDays : List Text := makeDayKeys sessionDate 20472 (usageDays (some 1))

theorem localUsage_addsUp_session :
    ((scanTables sessionReader none sessionFiles sessionDays ["/s".toList]).modelTotals.map
        Prod.snd).sum =
      ((scanLocalUsage sessionReader none sessionFiles sessionDays ["/s".toList]).days.map
          fun d => d.inputTokens + d.outputTokens).sum ∧
    ((scanFile sessionReader none (some sessionLines)
        { daily := [("2026-01-19".toList, {})] }).daily.map fun e => e.2.input).sum = 0 + 12 := by
  have hrecords : recordsOf sessionReader none sessionLines =
      [⟨⟨10, 0, 5⟩, true, some "2026-01-19".toList⟩, ⟨⟨2, 0, 1⟩, false, some "2026-01-19".toList⟩,
        ⟨⟨12, 0, 6⟩, true, some "2026-01-19".toList⟩] := by
    decide +kernel
  have hkeys : sessionDays = ["2026-01-19".toList] := by decide +kernel
  have hfiles : ∀ root day : Text, ∀ file ∈ sessionFiles root day,
      NonNegativeFile sessionReader none file := by
    intro root day file hfile lines hlines rec hrec
    obtain rfl := List.mem_singleton.mp hfile
    obtain rfl := Option.some.inj hlines
    rw [hrecords] at hrec
    simp only [List.mem_cons, List.not_mem_nil, or_false] at hrec
    rcases hrec with rfl | rfl | rfl
    · exact ⟨by decide, by decide, by decide⟩
    · exact ⟨by decide, by decide, by decide⟩
    · exact ⟨by decide, by decide, by decide⟩
  obtain ⟨hsum, -, hfile⟩ := localUsage_addsUp sessionReader none sessionFiles ["/s".toList]
    sessionDate_injective 20472 (some 1) hfiles
  have hcontributes := hfile sessionLines { daily := [("2026-01-19".toList, {})] } hkeys.symm
  rw [hrecords] at hcontributes
  refine ⟨hsum, (hcontributes ?_ ?_).1⟩
  · show ∀ rec ∈ _, ∃ key ∈ sessionDays, UsageRecord.day rec = some key
    rw [hkeys]
    intro rec hrec
    simp only [List.mem_cons, List.not_mem_nil, or_false] at hrec
    rcases hrec with rfl | rfl | rfl <;> exact ⟨_, List.mem_singleton_self _, rfl⟩
  · refine ⟨⟨?_, ?_⟩, ⟨?_, ?_⟩, ⟨?_, ?_⟩, trivial⟩ <;> decide

end CodexMonitor.Shared
