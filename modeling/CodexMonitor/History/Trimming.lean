import Mathlib.Data.List.Nodup
import CodexMonitor.History.Versions

namespace CodexMonitor.History

/-!
# History — trimming the ends

`core/src/context_manager/history.rs`: the oldest or the newest item is removed together with the
call or the output that belongs to it, as compaction does until the prompt fits.

* `PairedOnce` — each call id occurs in one call and in one matching output.
* `removeCorrespondingFor_eq` — what goes with a removed item is its partner.
* `trimming_keeps_pairs` — a run of removals at either end leaves the history paired.
-/

variable {items rest : List ResponseItem} {item : ResponseItem} {cm : ContextManager}

/-! ### Paired transcripts -/

/-- The id of a call, whatever its kind. -/
def callIdOf (item : ResponseItem) : Option Text := (awaitedOutput item).map Prod.snd

/-- **Each call id occurs in exactly one call and in exactly one matching output**, and no output
    lacks a call. -/
structure PairedOnce (items : List ResponseItem) : Prop where
  ids : (items.filterMap callIdOf).Nodup
  answered : ∀ call ∈ items, ∀ key, awaitedOutput call = some key →
    items.countP (fun output => outputKey output = some key) = 1
  awaited : ∀ output ∈ items, ∀ key, outputKey output = some key →
    ∃ call ∈ items, awaitedOutput call = some key

theorem keyCount_le_of_nodup (h : (items.filterMap callIdOf).Nodup) (key : OutputKind × Text) :
    keyCount awaitedOutput items key ≤ 1 := by
  have hcount := List.nodup_iff_count_le_one.mp h key.2
  refine le_trans ?_ hcount
  unfold keyCount
  rw [List.count, List.countP_filterMap]
  refine List.countP_mono_left fun call _ hcall => ?_
  have hkey := of_decide_eq_true hcall
  simp [callIdOf, hkey]

theorem pairedOnce_iff :
    PairedOnce items ↔ (items.filterMap callIdOf).Nodup ∧ callPairing.Once items := by
  constructor
  · intro h
    refine ⟨h.ids, fun key => ?_⟩
    have hle := keyCount_le_of_nodup h.ids key
    refine ⟨hle, ?_⟩
    by_cases hcall : ∃ call ∈ items, awaitedOutput call = some key
    · have hpos : 0 < keyCount awaitedOutput items key := keyCount_pos_iff.mpr hcall
      obtain ⟨call, hmem, hawaits⟩ := hcall
      have hone : keyCount outputKey items key = 1 := h.answered call hmem key hawaits
      show keyCount outputKey items key = keyCount awaitedOutput items key
      omega
    · have hzero : ¬ 0 < keyCount awaitedOutput items key := fun hpos =>
        hcall (keyCount_pos_iff.mp hpos)
      have hzero' : ¬ 0 < keyCount outputKey items key := by
        intro hpos
        obtain ⟨output, hmem, hanswers⟩ := keyCount_pos_iff.mp hpos
        exact hcall (h.awaited output hmem key hanswers)
      show keyCount outputKey items key = keyCount awaitedOutput items key
      omega
  · rintro ⟨hids, honce⟩
    refine ⟨hids, fun call hmem key hawaits => ?_, fun output hmem key hanswers => ?_⟩
    · obtain ⟨hle, heq⟩ := honce key
      have hpos : 0 < keyCount awaitedOutput items key := keyCount_pos_iff.mpr ⟨call, hmem, hawaits⟩
      show keyCount outputKey items key = 1
      change keyCount awaitedOutput items key ≤ 1 at hle
      change keyCount outputKey items key = keyCount awaitedOutput items key at heq
      omega
    · apply keyCount_pos_iff.mp
      show 0 < keyCount callPairing.awaits items key
      rw [← (honce key).2]
      exact keyCount_pos_iff.mpr ⟨output, hmem, hanswers⟩

theorem PairedOnce.perm {other : List ResponseItem} (h : PairedOnce items)
    (hperm : items.Perm other) : PairedOnce other := by
  obtain ⟨hids, honce⟩ := pairedOnce_iff.mp h
  exact pairedOnce_iff.mpr ⟨(hperm.filterMap _).nodup hids, Matched.perm honce hperm⟩

/-! ### The counterpart of an item -/

theorem removeFirstMatching_eq {test : ResponseItem → Bool} {f : ResponseItem → Option (OutputKind × Text)}
    {key : OutputKind × Text} (htest : ∀ i, test i = true ↔ f i = some key)
    (hle : keyCount f items key ≤ 1) :
    removeFirstMatching items test = items.filter fun i => !decide (f i = some key) := by
  have hsame : test = fun i => decide (f i = some key) := by
    funext i
    rw [Bool.eq_iff_iff, htest i, decide_eq_true_iff]
  unfold removeFirstMatching
  rw [hsame]
  exact eraseP_eq_filter hle

/-- The calls that await the output of a function are of two kinds. -/
theorem keyCount_function (callId : Text) (items : List ResponseItem) :
    keyCount awaitedOutput items (.function, callId) =
      items.countP (isFunctionCall callId) + items.countP (isLocalShellCall callId) := by
  induction items with
  | nil => rfl
  | cons item items ih =>
    have hkey : awaitedOutput item = some (.function, callId) ↔
        isFunctionCall callId item = true ∨ isLocalShellCall callId item = true :=
      awaitedOutput_function
    by_cases hfunction : isFunctionCall callId item = true
    · have hshell : ¬ isLocalShellCall callId item = true := by
        cases item <;> simp_all [isFunctionCall, isLocalShellCall]
      rw [keyCount_cons_of_eq (hkey.mpr (.inl hfunction)), List.countP_cons_of_pos hfunction,
        List.countP_cons_of_neg hshell, ih]
      omega
    · by_cases hshell : isLocalShellCall callId item = true
      · rw [keyCount_cons_of_eq (hkey.mpr (.inr hshell)), List.countP_cons_of_neg hfunction,
          List.countP_cons_of_pos hshell, ih]
        omega
      · rw [keyCount_cons_of_ne (fun heq => (hkey.mp heq).elim hfunction hshell),
          List.countP_cons_of_neg hfunction, List.countP_cons_of_neg hshell, ih]

/-- Whichever of the two calls an output of a function call answers, it is the one that is found. -/
theorem removeFunctionCaller_eq {callId : Text}
    (hle : keyCount awaitedOutput items (.function, callId) ≤ 1) :
    (if items.any (isFunctionCall callId) then removeFirstMatching items (isFunctionCall callId)
      else removeFirstMatching items (isLocalShellCall callId)) =
      items.filter fun i => !decide (awaitedOutput i = some (.function, callId)) := by
  have hcount := keyCount_function callId items
  by_cases hany : items.any (isFunctionCall callId) = true
  · -- the call of a function leaves no shell call with its id
    have hpos : 0 < items.countP (isFunctionCall callId) := by
      simpa using List.any_eq_true.mp hany
    have hnone : items.countP (isLocalShellCall callId) = 0 := by omega
    have hone : items.countP (isFunctionCall callId) ≤ 1 := by omega
    rw [if_pos hany, removeFirstMatching, eraseP_eq_filter hone]
    refine List.filter_congr fun i hi => ?_
    have hshell := List.countP_eq_zero.mp hnone i hi
    rw [Bool.not_inj_iff, Bool.eq_iff_iff, decide_eq_true_iff, awaitedOutput_function]
    exact (or_iff_left hshell).symm
  · have hnone : ∀ i ∈ items, ¬ isFunctionCall callId i = true := by
      intro i hi hcall
      exact hany (List.any_eq_true.mpr ⟨i, hi, hcall⟩)
    have hone : items.countP (isLocalShellCall callId) ≤ 1 := by omega
    rw [if_neg hany, removeFirstMatching, eraseP_eq_filter hone]
    refine List.filter_congr fun i hi => ?_
    rw [Bool.not_inj_iff, Bool.eq_iff_iff, decide_eq_true_iff, awaitedOutput_function]
    exact (or_iff_right (hnone i hi)).symm

/-- **What goes with a removed item** is its call or its output. -/
theorem removeCorrespondingFor_eq (h : callPairing.Once (item :: items)) :
    removeCorrespondingFor items item =
      items.filter fun i => !callPairing.partner item i := by
  -- the rest holds each key at most once, on either side
  have hcalls : ∀ key, keyCount awaitedOutput items key ≤ 1 := fun key =>
    le_trans (List.sublist_cons_self item items).countP_le (h key).1
  have houtputs : ∀ key, keyCount outputKey items key ≤ 1 := fun key =>
    le_trans (List.sublist_cons_self item items).countP_le (h.symm key).1
  cases item with
  | functionCall id name namespaceName arguments callId =>
    exact removeFirstMatching_eq (fun _ => isFunctionCallOutput_iff) (houtputs _)
  | customToolCall id status callId name input =>
    exact removeFirstMatching_eq (fun _ => isCustomToolCallOutput_iff) (houtputs _)
  | customToolCallOutput callId name output =>
    exact removeFirstMatching_eq (fun _ => awaitedOutput_custom.symm) (hcalls _)
  | localShellCall id callId status action =>
    cases callId with
    | none => exact (List.filter_true items).symm
    | some callId => exact removeFirstMatching_eq (fun _ => isFunctionCallOutput_iff) (houtputs _)
  | toolSearchCall id callId status execution arguments =>
    cases callId with
    | none => exact (List.filter_true items).symm
    | some callId => exact removeFirstMatching_eq (fun _ => isToolSearchOutput_iff) (houtputs _)
  | toolSearchOutput callId status execution tools =>
    cases callId with
    | none => exact (List.filter_true items).symm
    | some callId => exact removeFirstMatching_eq (fun _ => awaitedOutput_toolSearch.symm) (hcalls _)
  | functionCallOutput callId output =>
    exact removeFunctionCaller_eq (hcalls _)
  | _ => exact (List.filter_true items).symm

/-! ### Trimming -/

inductive HistoryEnd where
  | oldest
  | newest
  deriving DecidableEq, Repr

/-- `remove_first_item` or `remove_last_item`. -/
def ContextManager.trim (cm : ContextManager) : HistoryEnd → ContextManager
  | .oldest => cm.removeFirstItem
  | .newest => cm.removeLastItem.1

/-- A run of removals. -/
def ContextManager.trimAll (cm : ContextManager) (ends : List HistoryEnd) : ContextManager :=
  ends.foldl ContextManager.trim cm

/-- The item at an end and the items without it. -/
def splitEnd (items : List ResponseItem) : HistoryEnd → Option (ResponseItem × List ResponseItem)
  | .oldest => items.head?.map fun removed => (removed, items.tail)
  | .newest => items.getLast?.map fun removed => (removed, items.dropLast)

theorem splitEnd_perm {e : HistoryEnd} (h : splitEnd items e = some (item, rest)) :
    items.Perm (item :: rest) := by
  cases e with
  | oldest =>
    cases items with
    | nil => cases h
    | cons first tail =>
      obtain ⟨rfl, rfl⟩ := Prod.mk.inj (Option.some.inj h)
      exact List.Perm.refl _
  | newest =>
    obtain ⟨last, hlast, heq⟩ := Option.map_eq_some_iff.mp h
    obtain ⟨rfl, rfl⟩ := Prod.mk.inj heq
    obtain ⟨front, rfl⟩ := List.getLast?_eq_some_iff.mp hlast
    rw [List.dropLast_concat]
    exact List.perm_append_singleton _ _

theorem trim_items {e : HistoryEnd} (h : splitEnd cm.items e = some (item, rest)) :
    (cm.trim e).items = removeCorrespondingFor rest item := by
  cases e with
  | oldest =>
    show cm.removeFirstItem.items = _
    unfold ContextManager.removeFirstItem
    cases hitems : cm.items with
    | nil =>
      rw [hitems] at h
      cases h
    | cons first tail =>
      rw [hitems] at h
      obtain ⟨rfl, rfl⟩ := Prod.mk.inj (Option.some.inj h)
      rfl
  | newest =>
    obtain ⟨last, hlast, heq⟩ := Option.map_eq_some_iff.mp h
    obtain ⟨rfl, rfl⟩ := Prod.mk.inj heq
    show cm.removeLastItem.1.items = _
    unfold ContextManager.removeLastItem
    rw [hlast]

/-- From an empty history nothing is removed. -/
theorem trim_of_nil {e : HistoryEnd} (h : splitEnd cm.items e = none) : cm.trim e = cm := by
  cases e with
  | oldest =>
    have hnil : cm.items = [] := List.head?_eq_none_iff.mp (Option.map_eq_none_iff.mp h)
    show cm.removeFirstItem = cm
    unfold ContextManager.removeFirstItem
    rw [hnil]
  | newest =>
    have hlast : cm.items.getLast? = none := Option.map_eq_none_iff.mp h
    show cm.removeLastItem.1 = cm
    unfold ContextManager.removeLastItem
    rw [hlast]

/-- **One removal.** The item goes with its partner, and the pairs are kept. -/
theorem PairedOnce.trim (h : PairedOnce cm.items) (e : HistoryEnd) :
    PairedOnce (cm.trim e).items := by
  cases hsplit : splitEnd cm.items e with
  | none => rwa [trim_of_nil hsplit]
  | some entry =>
    obtain ⟨removed, rest⟩ := entry
    obtain ⟨hids, honce⟩ := pairedOnce_iff.mp (h.perm (splitEnd_perm hsplit))
    rw [trim_items hsplit, removeCorrespondingFor_eq honce]
    refine pairedOnce_iff.mpr ⟨?_, honce.without_partner⟩
    exact hids.sublist ((List.filter_sublist.trans (List.sublist_cons_self _ _)).filterMap _)

theorem PairedOnce.trimAll (h : PairedOnce cm.items) (ends : List HistoryEnd) :
    PairedOnce (cm.trimAll ends).items := by
  unfold ContextManager.trimAll
  induction ends generalizing cm with
  | nil => exact h
  | cons e ends ih => exact ih (h.trim e)

/-- **Trimming keeps calls and outputs paired.** After any removals at the ends each call id still
    occurs in one call and one matching output, so normalising changes nothing; and the next
    removal takes away the item at the end and its one counterpart, if it is a call or an output,
    and leaves the others in their order. -/
theorem trimming_keeps_pairs (cm : ContextManager) (h : PairedOnce cm.items)
    (ends : List HistoryEnd) :
    PairedOnce (cm.trimAll ends).items ∧
    removeOrphanOutputs (ensureCallOutputsPresent (cm.trimAll ends).items) =
      (cm.trimAll ends).items ∧
    ∀ e removed rest, splitEnd (cm.trimAll ends).items e = some (removed, rest) →
      ((cm.trimAll ends).trim e).items =
        rest.filter (fun item => !callPairing.partner removed item) ∧
      rest.countP (callPairing.partner removed) =
        if (awaitedOutput removed).isSome || (outputKey removed).isSome then 1 else 0 := by
  have hpaired := h.trimAll ends
  obtain ⟨-, honce⟩ := pairedOnce_iff.mp hpaired
  refine ⟨hpaired, ?_, fun e removed rest hsplit => ?_⟩
  · rw [removeOrphanOutputs_ensureCallOutputsPresent]
    exact honce.paired.normalize_eq
  · obtain ⟨-, honce'⟩ := pairedOnce_iff.mp (hpaired.perm (splitEnd_perm hsplit))
    rw [trim_items hsplit]
    exact ⟨removeCorrespondingFor_eq honce', honce'.countP_partner⟩

/-- A message, a shell call with its output, and a call of a function with its output. -/
def shellTranscript : ContextManager :=
  { items :=
      [.message none "user".toList [.inputText "hi".toList] none,
        .localShellCall none (some "c1".toList) "completed".toList "ls".toList,
        .functionCall none "read".toList none [] "c2".toList,
        .functionCallOutput "c1".toList (.fromText "a".toList),
        .functionCallOutput "c2".toList (.fromText "b".toList)]
    historyVersion := 0
    referenceContextItem := none }

theorem shellTranscript_trimmed :
    (shellTranscript.trimAll [.oldest, .oldest]).items =
        [.functionCall none "read".toList none [] "c2".toList,
          .functionCallOutput "c2".toList (.fromText "b".toList)] ∧
      PairedOnce (shellTranscript.trimAll [.oldest, .oldest]).items := by
  refine ⟨by decide, (trimming_keeps_pairs shellTranscript ⟨by decide, ?_, ?_⟩ _).1⟩
  · intro call hcall key hkey
    simp only [shellTranscript, List.mem_cons, List.not_mem_nil, or_false] at hcall
    rcases hcall with rfl | rfl | rfl | rfl | rfl <;> cases hkey <;> decide
  · intro output houtput key hkey
    simp only [shellTranscript, List.mem_cons, List.not_mem_nil, or_false] at houtput
    rcases houtput with rfl | rfl | rfl | rfl | rfl <;> cases hkey
    · exact ⟨_, List.mem_cons_of_mem _ List.mem_cons_self, rfl⟩
    · exact ⟨_, List.mem_cons_of_mem _ (List.mem_cons_of_mem _ List.mem_cons_self), rfl⟩

end CodexMonitor.History
