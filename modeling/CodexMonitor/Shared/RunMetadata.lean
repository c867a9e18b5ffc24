import CodexMonitor.Shared.Fields
import CodexMonitor.Shared.WorktreeNames

namespace CodexMonitor.Shared

open Text
open CodexMonitor.Approvals (Json)

/-!
# Shared — run metadata

`codex_aux_core.rs`: a model is asked for the title of a run and the name of its worktree, and
its reply is read as JSON.  How JSON is read is a parameter.

* `parseRunMetadataValue` — the code.
* `ValidName` — the names of branches that are wanted.
* `runMetadata_valid_iff` — which replies give a valid name, and which names stay as they are.
-/

/-! ### The reply -/

/-- From the first `{` to the last `}`. -/
def extractJsonValue (fromStr : Text → Option Json) (raw : Text) : Option Json := do
  let start ← raw.findIdx? fun c => c = '{'
  let back ← raw.reverse.findIdx? fun c => c = '}'
  let stop := raw.length - 1 - back
  if stop ≤ start then none else fromStr ((raw.take (stop + 1)).drop start)

structure RunMetadata where
  title : Text
  worktreeName : Text
  deriving DecidableEq, Repr

/-- The field of the reply that has the name. -/
def worktreeField (reply : Json) : Option Text :=
  ((getField "worktreeName".toList reply).or (getField "worktree_name".toList reply)).bind asStr

def titleField (reply : Json) : Option Text :=
  (((getField "title".toList reply).bind asStr).map trim).filter fun t => !t.isEmpty

def parseRunMetadataValue (m : CaseMapping) (fromStr : Text → Option Json) (raw : Text) :
    Except Text RunMetadata :=
  let trimmed := trim raw
  if trimmed.isEmpty then .error "No metadata was generated".toList
  else
    match extractJsonValue fromStr trimmed with
    | none => .error "Failed to parse metadata JSON".toList
    | some reply =>
      match titleField reply with
      | none => .error "Missing title in metadata".toList
      | some title =>
        match ((worktreeField reply).map (sanitizeRunWorktreeName m)).filter
            fun t => !t.isEmpty with
        | none => .error "Missing worktree name in metadata".toList
        | some worktreeName => .ok { title, worktreeName }

/-! ### Valid names -/

/-- **Names of branches**: one of the prefixes, and a name behind it without empty components, that
    ends with neither a slash nor a dash and has no two dashes in a row. -/
structure ValidName (name : Text) : Prop where
  allowed : ∃ front ∈ allowedPrefixes, ∃ rest, name = front ++ rest ∧ rest ≠ [] ∧
    (∀ c ∈ rest, isNameChar c = true) ∧ [] ∉ splitOn '/' rest
  lastChar : name.getLast? ≠ some '/' ∧ name.getLast? ≠ some '-'
  dashes : ¬ ['-', '-'] <:+: name

/-- **The values that give a valid name**: there is a letter or a digit; behind the slashes in
    front no slash follows another one; and no prefix stands in front with dashes before its
    slash. -/
structure NamesBranch (core : Text) : Prop where
  named : core ≠ []
  slashes : NoRun '/' (trimStartBy (fun c => c = '/') core)
  dashed : DashedApart core

variable {m : CaseMapping} {c : Char} {t value : Text}

theorem isNameChar_facts (h : isNameChar c = true) :
    c.toNat < 128 ∧ asciiLower c = c ∧ isWhitespace c = false ∧
      (c.isAlphanum = true ∨ c = '/' ∨ c = '-') := by
  have hlt : c.toNat < 128 := by
    unfold isNameChar at h
    rw [Bool.or_eq_true, Bool.or_eq_true, isSeparator_iff] at h
    rcases h with (h | h) | rfl | rfl
    · apply CaseMapping.ascii_of_isAlphanum
      show (c.isUpper || c.isLower || c.isDigit) = true
      rw [h]
      simp
    · apply CaseMapping.ascii_of_isAlphanum
      show (c.isAlpha || c.isDigit) = true
      rw [h]
      simp
    · decide
    · decide
  have hall : ∀ c : Char, c.toNat < 128 → isNameChar c = true →
      asciiLower c = c ∧ isWhitespace c = false ∧
        (c.isAlphanum = true ∨ c = '/' ∨ c = '-') := by
    apply CaseMapping.ascii_of_forall
    decide
  exact ⟨hlt, hall c hlt h⟩

/-- A tidy name is valid if no two slashes are next to each other. -/
theorem validName_iff (h : Tidy t) : ValidName t ↔ NoRun '/' t := by
  obtain ⟨c, hlast, hc⟩ := h.last
  have hrest : ∀ front ∈ allowedPrefixes, ∀ rest, t = front ++ rest →
      rest.getLast? = some c ∧ (NoRun '/' t ↔ NoRun '/' ('/' :: rest)) := by
    rintro front hfront rest rfl
    obtain ⟨heq, -, hchars⟩ := allowed_facts hfront
    constructor
    · cases rest using List.reverseRecOn with
      | nil =>
        rw [List.append_nil, heq, List.getLast?_concat] at hlast
        exact absurd (Option.some.inj hlast).symm (ne_slash_of_isAlphanum hc)
      | append_singleton rest e =>
        rw [← List.append_assoc, List.getLast?_concat] at hlast
        rw [List.getLast?_concat, hlast]
    · rw [heq, List.append_assoc, List.singleton_append,
        noRun_append_of_notMem (notMem_word (fun d hd => (hchars d hd).1) (by decide))]
  have hpieces : ∀ rest : Text, rest.getLast? = some c →
      ([] ∉ splitOn '/' rest ↔ NoRun '/' ('/' :: rest)) := by
    intro rest hrest
    have hend : ('/' :: rest).getLast? ≠ some '/' := by
      rw [List.getLast?_cons, hrest]
      exact fun heq => ne_slash_of_isAlphanum hc (Option.some.inj heq)
    rw [nil_mem_splitOn_iff, not_not, ← List.cons_append, noRun_concat hend]
  constructor
  · intro hvalid
    obtain ⟨front, hfront, rest, heq, -, -, hsplit⟩ := hvalid.allowed
    obtain ⟨hend, hruns⟩ := hrest front hfront rest heq
    exact hruns.mpr ((hpieces rest hend).mp hsplit)
  · intro hruns
    obtain ⟨front, hfront, rest, rfl⟩ := h.allowed
    obtain ⟨hend, hiff⟩ := hrest front hfront rest rfl
    refine ⟨⟨front, hfront, rest, rfl, ?_, fun d hd => h.chars d (List.mem_append_right _ hd),
      (hpieces rest hend).mpr (hiff.mp hruns)⟩, ⟨?_, ?_⟩, noRun_iff_infix.mp h.dashes⟩
    · rintro rfl
      cases hend
    · rw [hlast]
      exact fun heq => ne_slash_of_isAlphanum hc (Option.some.inj heq)
    · rw [hlast]
      intro heq
      rw [Option.some.inj heq] at hc
      exact absurd hc (by decide)

theorem cleanFrom_self (hchars : ∀ c ∈ t, isNameChar c = true) (h : NoRun '-' t) :
    cleanFrom false t = t ∧ (t.head? ≠ some '-' → cleanFrom true t = t) := by
  induction t with
  | nil => exact ⟨rfl, fun _ => rfl⟩
  | cons c t ih =>
    obtain ⟨hhead, hruns⟩ := noRun_cons.mp h
    obtain ⟨hfalse, htrue⟩ := ih (fun d hd => hchars d (List.mem_cons_of_mem _ hd)) hruns
    have hkept : (c.isAlphanum = true ∨ c = '/') → ∀ b, cleanFrom b (c :: t) = c :: t := by
      intro hk b
      rw [cleanFrom_kept hk, hfalse]
    rcases (isNameChar_facts (hchars c List.mem_cons_self)).2.2.2 with hk | hk | rfl
    · exact ⟨hkept (.inl hk) _, fun _ => hkept (.inl hk) _⟩
    · exact ⟨hkept (.inr hk) _, fun _ => hkept (.inr hk) _⟩
    · refine ⟨?_, fun hne => absurd rfl hne⟩
      rw [cleanFrom_dash (by decide), if_neg Bool.false_ne_true,
        htrue fun heq => hhead ⟨rfl, heq⟩]

/-- **A tidy name stays as it is.** -/
theorem sanitize_tidy (h : Tidy t) : sanitizeRunWorktreeName m t = t := by
  obtain ⟨c, hlast, hc⟩ := h.last
  have hblank : ∀ d ∈ t, ¬ isWhitespace d = true := by
    intro d hd
    rw [(isNameChar_facts (h.chars d hd)).2.2.1]
    exact Bool.false_ne_true
  have htrim : trim t = t := by
    unfold trim trimBy trimStartBy trimEndBy
    have hfront : t.dropWhile isWhitespace = t := by
      rw [List.dropWhile_eq_self_iff]
      exact fun hpos => hblank _ (List.getElem_mem hpos)
    rw [hfront, List.rdropWhile_eq_self_iff]
    exact fun hne => hblank _ (List.getLast_mem hne)
  have hlower : m.toLowerCase t = t := by
    rw [m.toLowerCase_ascii fun d hd => (isNameChar_facts (h.chars d hd)).1]
    exact (List.map_congr_left fun d hd => (isNameChar_facts (h.chars d hd)).2.1).trans
      (List.map_id' t)
  have hend : trimEndBy isSeparator t = t := by
    obtain ⟨init, rfl⟩ := List.getLast?_eq_some_iff.mp hlast
    apply List.rdropWhile_concat_neg
    rw [(isAlphanum_facts hc).2.1]
    exact Bool.false_ne_true
  obtain ⟨front, hfront, hbegins⟩ := h.allowed
  have hany : (allowedPrefixes.any fun allowed => startsWith t allowed) = true :=
    List.any_eq_true.mpr ⟨front, hfront, startsWith_iff_begins.mpr hbegins⟩
  unfold sanitizeRunWorktreeName
  simp only [htrim, hlower, (cleanFrom_self h.chars h.dashes).1, hend]
  exact if_pos hany

theorem nameFacts_core (hm : m.Settled) (h : core m value ≠ []) :
    NameFacts (core m value) := by
  obtain ⟨c, hlast, hc⟩ := getLast?_core h
  refine nameFacts (fun d hd => counts_of_mem_core hd) (fun d hd => ?_) hlast hc
  exact m.asciiLower_of_mem hm
    (List.mem_filter.mp ((List.rdropWhile_prefix _ _).subset hd)).1

/-- Without a letter or a digit there is only the default prefix. -/
theorem sanitize_of_core_nil (h : core m value = []) :
    sanitizeRunWorktreeName m value = "feat/".toList := by
  rw [sanitize_eq_branchName, h]
  decide +kernel

theorem sanitize_feat : sanitizeRunWorktreeName m "feat/".toList = "feat/feat".toList := by
  have hlower : m.toLowerCase (trim "feat/".toList) = "feat/".toList := by
    rw [m.toLowerCase_ascii (by decide +kernel)]
    decide +kernel
  unfold sanitizeRunWorktreeName
  rw [hlower]
  decide +kernel

/-- **Which replies give a valid name**, and which names stay as they are: a name is valid exactly
    if the value of the reply names a branch, and cleaning a cleaned name again leaves it as it is
    exactly if there was a letter or a digit. -/
theorem runMetadata_valid_iff (m : CaseMapping) (hm : m.Settled) :
    (∀ fromStr raw metadata, parseRunMetadataValue m fromStr raw = .ok metadata →
      ∃ reply value, extractJsonValue fromStr (trim raw) = some reply ∧
        worktreeField reply = some value ∧
        metadata.worktreeName = sanitizeRunWorktreeName m value ∧
        (ValidName metadata.worktreeName ↔ NamesBranch (core m value))) ∧
    ∀ value, sanitizeRunWorktreeName m (sanitizeRunWorktreeName m value) =
      sanitizeRunWorktreeName m value ↔ core m value ≠ [] := by
  have hvalid : ∀ value, ValidName (sanitizeRunWorktreeName m value) ↔
      NamesBranch (core m value) := by
    intro value
    by_cases hcore : core m value = []
    · rw [sanitize_of_core_nil hcore]
      exact iff_of_false (fun h => h.lastChar.1 (by decide)) fun h => h.named hcore
    · obtain ⟨htidy, hruns⟩ := nameFacts_core hm hcore
      rw [sanitize_eq_branchName, validName_iff htidy, hruns]
      exact ⟨fun h => ⟨hcore, h.1, h.2⟩, fun h => ⟨h.slashes, h.dashed⟩⟩
  constructor
  · intro fromStr raw metadata hparse
    simp only [parseRunMetadataValue] at hparse
    split at hparse
    · cases hparse
    · split at hparse
      · cases hparse
      · next reply hreply =>
        split at hparse
        · cases hparse
        · next title htitle =>
          split at hparse
          · cases hparse
          · next worktreeName hname =>
            obtain ⟨hsome, -⟩ := Option.filter_eq_some_iff.mp hname
            obtain ⟨value, hvalue, rfl⟩ := Option.map_eq_some_iff.mp hsome
            obtain rfl := Except.ok.inj hparse
            exact ⟨reply, value, hreply, hvalue, rfl, hvalid value⟩
  · intro value
    constructor
    · intro hsame hcore
      rw [sanitize_of_core_nil hcore, sanitize_feat] at hsame
      exact absurd hsame (by decide)
    · intro hcore
      have htidy := (nameFacts_core hm hcore).1
      rw [← sanitize_eq_branchName] at htidy
      exact sanitize_tidy htidy

theorem runMetadata_valid_latin1 :
    (sanitizeRunWorktreeName CaseMapping.latin1
        (sanitizeRunWorktreeName CaseMapping.latin1 "Fix - Login_Loop".toList) =
      sanitizeRunWorktreeName CaseMapping.latin1 "Fix - Login_Loop".toList ↔
        core CaseMapping.latin1 "Fix - Login_Loop".toList ≠ []) ∧
      core CaseMapping.latin1 "Fix - Login_Loop".toList = "fix - login_loop".toList :=
  ⟨(runMetadata_valid_iff CaseMapping.latin1 CaseMapping.latin1_settled).2 _, by decide +kernel⟩

/-- A reply whose name has no letter. -/
def namelessReply : Text := "\x7b\"title\":\"T\",\"worktreeName\":\"!!!\"\x7d".toList

/-- How that reply is read. -/
def namelessJson (t : Text) : Option Json :=
  if t = namelessReply then
    some (.object [("title".toList, .string "T".toList),
      ("worktreeName".toList, .string "!!!".toList)])
  else none

/-- **A name without letters** becomes the default prefix alone, which is no name of a branch and
    becomes another name when it is cleaned again. -/
theorem namelessReply_accepted :
    parseRunMetadataValue CaseMapping.latin1 namelessJson namelessReply =
        .ok { title := "T".toList, worktreeName := "feat/".toList } ∧
      ¬ ValidName "feat/".toList ∧
      sanitizeRunWorktreeName CaseMapping.latin1 "feat/".toList = "feat/feat".toList := by
  refine ⟨?_, fun h => h.lastChar.1 (by decide), sanitize_feat⟩
  rfl

end CodexMonitor.Shared
