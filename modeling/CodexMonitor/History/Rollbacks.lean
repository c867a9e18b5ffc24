import Mathlib.Data.List.DropRight
import CodexMonitor.Lib.NthLast
import CodexMonitor.History.Manager

namespace CodexMonitor.History

/-!
# History — what a rollback leaves

`drop_last_n_user_turns` cuts the items at an instruction-turn boundary and then trims the
contextual messages above the cut.

* `dropLastNUserTurns_nil` / `_first` / `_inner` — the result of a rollback, by where the turn
  lies that is dropped last: there is none, it is the first of all, or there are older ones.
* `rollbackCases` — one of the three applies.
* `TrimsMixedBundle` — the trimming meets a bundle whose removal invalidates the snapshot.
* `compose_iff` — two rollbacks against one of as many turns.  The items always agree; the
  snapshot does not if the first of the two trims a bundle that the longer one cuts off.
-/

variable {ext : Externals} {items before after : List ResponseItem} {b item : ResponseItem}
  {n m first : Nat} {message : Text} {reference : Option TurnContextItem} {cm : ContextManager}

/-! ### User messages and turn boundaries -/

theorem isContextual_of_visibleHookPrompt {content : List ContentItem}
    (h : isVisibleHookPromptMessage ext content = true) :
    isContextualUserMessageContent ext content = true := by
  unfold isVisibleHookPromptMessage at h
  obtain ⟨-, hany⟩ := Bool.and_eq_true_iff.mp h
  obtain ⟨entry, hmem, hentry⟩ := List.any_eq_true.mp hany
  refine List.any_eq_true.mpr ⟨entry, hmem, ?_⟩
  cases entry with
  | inputText text =>
    show ((parseHookPromptFragment ext text).isSome || _) = true
    have hsome : (parseHookPromptFragment ext text).isSome = true := hentry
    rw [hsome, Bool.true_or]
  | _ => cases hentry

/-- A user message opens a turn. -/
theorem isUserTurnBoundary_of_parse (h : parseTurnItemUserMessage ext item = some message) :
    isUserTurnBoundary ext item = true := by
  cases item with
  | message id role content phase =>
    simp only [parseTurnItemUserMessage] at h
    by_cases hrole : (role == "user".toList) = true
    · rw [if_pos hrole] at h
      split at h
      · cases h
      · unfold parseUserMessage at h
        split at h
        · cases h
        · next hnot =>
          show ((role == "user".toList && !isContextualUserMessageContent ext content) || _) = true
          rw [hrole, eq_false_of_ne_true hnot]
          rfl
    · rw [if_neg hrole] at h
      cases h
  | _ => cases h

/-! ### Positions of the boundaries -/

theorem userMessagePositions_append (before after : List ResponseItem) :
    userMessagePositions ext (before ++ after) = userMessagePositions ext before ++
      (((after.zipIdx before.length).filter fun entry =>
        isUserTurnBoundary ext entry.1).map Prod.snd) := by
  unfold userMessagePositions
  rw [List.zipIdx_append, List.filter_append, List.map_append, Nat.zero_add]

theorem userMessagePositions_length (items : List ResponseItem) :
    (userMessagePositions ext items).length = items.countP (isUserTurnBoundary ext) := by
  unfold userMessagePositions
  rw [List.length_map, ← List.countP_eq_length_filter]
  have hfst : (items.zipIdx.map Prod.fst) = items := List.zipIdx_map_fst 0 items
  conv_rhs => rw [← hfst, List.countP_map]
  rfl

theorem getElem?_of_mem_positions (h : first ∈ userMessagePositions ext items) :
    ∃ b, items[first]? = some b ∧ isUserTurnBoundary ext b = true := by
  obtain ⟨⟨b, i⟩, hmem, rfl⟩ := List.mem_map.mp h
  obtain ⟨hidx, hb⟩ := List.mem_filter.mp hmem
  exact ⟨b, List.mk_mem_zipIdx_iff_getElem?.mp hidx, hb⟩

/-- The positions around a boundary. -/
theorem userMessagePositions_split (before after : List ResponseItem)
    (hb : isUserTurnBoundary ext b = true) :
    ∃ rest, userMessagePositions ext (before ++ b :: after) =
      userMessagePositions ext before ++ before.length :: rest := by
  rw [userMessagePositions_append, List.zipIdx_cons, List.filter_cons, if_pos hb]
  exact ⟨_, rfl⟩

/-! ### Trimming above the cut -/

/-- The contextual messages that the walk removes are not boundaries. -/
theorem isUserTurnBoundary_of_trimmable (h : isTrimmablePreTurnItem ext item = true) :
    isUserTurnBoundary ext item = false := by
  cases item with
  | message id role content phase =>
    simp only [isTrimmablePreTurnItem, Bool.or_eq_true, Bool.and_eq_true, beq_iff_eq] at h
    rcases h with ⟨rfl, _⟩ | ⟨rfl, hcontext⟩
    · rfl
    · simp [isUserTurnBoundary, hcontext]
  | _ => rfl

/-- The bundle among the messages directly above a cut. -/
def meetsMixedBundle (ext : Externals) (before : List ResponseItem) : Bool :=
  (before.rtakeWhile (isTrimmablePreTurnItem ext)).any isMixedDeveloperBundle

/-- The snapshot that survives the trimming of `before`. -/
def survivingReference (ext : Externals) (before : List ResponseItem)
    (reference : Option TurnContextItem) : Option TurnContextItem :=
  if meetsMixedBundle ext before then none else reference

theorem trimPreTurnContextUpdates_self (snapshot : List ResponseItem) (cut : Nat)
    (reference : Option TurnContextItem) :
    trimPreTurnContextUpdates ext snapshot cut cut reference = (cut, reference) := by
  cases cut with
  | zero => rfl
  | succ cut =>
    unfold trimPreTurnContextUpdates
    rw [if_neg (Nat.lt_irrefl _)]

/-- **The walk** removes the contextual messages at the end of what is kept, if an older
    boundary stops it. -/
theorem trimPreTurnContextUpdates_eq (hb : before[first]? = some b)
    (hboundary : isUserTurnBoundary ext b = true) (after : List ResponseItem)
    (reference : Option TurnContextItem) :
    trimPreTurnContextUpdates ext (before ++ after) first before.length reference =
      ((before.rdropWhile (isTrimmablePreTurnItem ext)).length,
        survivingReference ext before reference) := by
  induction before using List.reverseRecOn generalizing after reference with
  | nil => simp at hb
  | append_singleton before x ih =>
    have hlt : first < (before ++ [x]).length := (List.getElem?_eq_some_iff.mp hb).1
    have hx : (before ++ [x] ++ after)[before.length]? = some x := by simp
    rw [List.length_append, List.length_singleton] at hlt ⊢
    unfold trimPreTurnContextUpdates
    rw [if_pos hlt, hx]
    by_cases htrim : isTrimmablePreTurnItem ext x = true
    · have hne : first ≠ before.length := by
        rintro rfl
        rw [List.getElem?_concat_length] at hb
        obtain rfl := Option.some.inj hb
        rw [isUserTurnBoundary_of_trimmable htrim] at hboundary
        cases hboundary
      rw [List.getElem?_append_left (by omega)] at hb
      have hrest := ih hb ([x] ++ after) (if isMixedDeveloperBundle x then none else reference)
      rw [← List.append_assoc] at hrest
      simp only [htrim, if_true]
      rw [hrest, List.rdropWhile_concat_pos _ _ _ htrim]
      congr 1
      unfold survivingReference meetsMixedBundle
      rw [List.rtakeWhile_concat_pos _ _ _ htrim, List.any_append, List.any_cons, List.any_nil,
        Bool.or_false]
      cases isMixedDeveloperBundle x <;> simp
    · simp only [htrim, if_false, Bool.false_eq_true]
      unfold survivingReference meetsMixedBundle
      rw [List.rdropWhile_concat_neg _ _ _ htrim, List.rtakeWhile_concat_neg _ _ _ htrim,
        List.length_append, List.length_singleton]
      rfl

/-! ### The result of a rollback -/

/-- Without a turn nothing is dropped. -/
theorem dropLastNUserTurns_nil (hnone : cm.items.countP (isUserTurnBoundary ext) = 0) :
    (cm.dropLastNUserTurns ext n).items = cm.items ∧
      (cm.dropLastNUserTurns ext n).referenceContextItem = cm.referenceContextItem := by
  have hpositions : userMessagePositions ext cm.items = [] :=
    List.length_eq_zero_iff.mp ((userMessagePositions_length cm.items).trans hnone)
  unfold ContextManager.dropLastNUserTurns
  rw [hpositions]
  by_cases hn : n = 0
  · rw [if_pos hn]
    exact ⟨rfl, rfl⟩
  · rw [if_neg hn]
    exact ⟨rfl, rfl⟩

/-- A rollback that reaches the first turn keeps what precedes it, and the snapshot. -/
theorem dropLastNUserTurns_first (h : NthLast (isUserTurnBoundary ext) m cm.items before b after)
    (hfirst : before.countP (isUserTurnBoundary ext) = 0) (hle : m ≤ n) :
    (cm.dropLastNUserTurns ext n).items = before ∧
      (cm.dropLastNUserTurns ext n).referenceContextItem = cm.referenceContextItem := by
  have hm := h.pos
  have hlen : (userMessagePositions ext cm.items).length =
      cm.items.countP (isUserTurnBoundary ext) := userMessagePositions_length cm.items
  rw [h.countP, hfirst] at hlen
  have hbefore : userMessagePositions ext before = [] :=
    List.length_eq_zero_iff.mp ((userMessagePositions_length before).trans hfirst)
  obtain ⟨rest, hrest⟩ := userMessagePositions_split before after h.holds
  rw [← h.split, hbefore, List.nil_append] at hrest
  rw [hrest] at hlen
  unfold ContextManager.dropLastNUserTurns
  rw [if_neg (by omega), hrest]
  have hcut : rollbackCut (before.length :: rest) before.length n = before.length := by
    unfold rollbackCut
    rw [if_pos (by omega)]
  simp only [hcut, trimPreTurnContextUpdates_self]
  refine ⟨?_, rfl⟩
  show cm.items.take before.length = before
  rw [h.split, List.take_left]

/-- A rollback that leaves a turn also trims the contextual messages above its cut. -/
theorem dropLastNUserTurns_inner (h : NthLast (isUserTurnBoundary ext) n cm.items before b after)
    (hinner : 0 < before.countP (isUserTurnBoundary ext)) :
    (cm.dropLastNUserTurns ext n).items = before.rdropWhile (isTrimmablePreTurnItem ext) ∧
      (cm.dropLastNUserTurns ext n).referenceContextItem =
        survivingReference ext before cm.referenceContextItem := by
  have hn := h.pos
  have hlen : (userMessagePositions ext cm.items).length =
      cm.items.countP (isUserTurnBoundary ext) := userMessagePositions_length cm.items
  have hbefore : (userMessagePositions ext before).length =
      before.countP (isUserTurnBoundary ext) := userMessagePositions_length before
  rw [h.countP] at hlen
  obtain ⟨rest, hrest⟩ := userMessagePositions_split before after h.holds
  rw [← h.split] at hrest
  cases hpositions : userMessagePositions ext before with
  | nil =>
    rw [hpositions, List.length_nil] at hbefore
    omega
  | cons first older =>
    obtain ⟨b₀, hb₀, hboundary⟩ :=
      getElem?_of_mem_positions (hpositions ▸ List.mem_cons_self : first ∈ _)
    rw [hpositions, List.cons_append] at hrest
    rw [hrest] at hlen
    rw [hpositions] at hbefore
    have hcut : rollbackCut (first :: (older ++ before.length :: rest)) first n =
        before.length := by
      unfold rollbackCut
      rw [if_neg (by omega)]
      have hidx : (first :: (older ++ before.length :: rest)).length - n =
          (first :: older).length := by omega
      rw [hidx, ← List.cons_append, List.getD_eq_getElem?_getD,
        List.getElem?_append_right (Nat.le_refl _), Nat.sub_self]
      rfl
    unfold ContextManager.dropLastNUserTurns
    rw [if_neg (by omega), hrest]
    simp only [hcut]
    rw [h.split, trimPreTurnContextUpdates_eq hb₀ hboundary]
    refine ⟨?_, rfl⟩
    show (before ++ b :: after).take _ = _
    obtain ⟨dropped, hdropped⟩ := List.rdropWhile_prefix (isTrimmablePreTurnItem ext) before
    conv_lhs => rw [← hdropped, List.append_assoc, List.take_left' (by rw [hdropped])]

/-- The three cases of a rollback. -/
theorem rollbackCases (ext : Externals) (items : List ResponseItem) (hn : 0 < n) :
    items.countP (isUserTurnBoundary ext) = 0 ∨
    (∃ m before b after, m ≤ n ∧ NthLast (isUserTurnBoundary ext) m items before b after ∧
      before.countP (isUserTurnBoundary ext) = 0) ∨
    ∃ before b after, NthLast (isUserTurnBoundary ext) n items before b after ∧
      0 < before.countP (isUserTurnBoundary ext) := by
  rcases Nat.eq_zero_or_pos (items.countP (isUserTurnBoundary ext)) with hzero | hpos
  · exact .inl hzero
  · by_cases hlt : n < items.countP (isUserTurnBoundary ext)
    · obtain ⟨before, b, after, h⟩ := exists_nthLast hn (Nat.le_of_lt hlt)
      have hcount := h.countP
      exact .inr (.inr ⟨before, b, after, h, by omega⟩)
    · obtain ⟨before, b, after, h⟩ := exists_nthLast hpos (Nat.le_refl _)
      have hcount := h.countP
      exact .inr (.inl ⟨_, before, b, after, by omega, h, by omega⟩)

/-! ### Rollbacks in a row -/

/-- Among the contextual messages directly above the `n`-th last turn, which is not the first
    one, is a mixed developer bundle. -/
def TrimsMixedBundle (ext : Externals) (items : List ResponseItem) (n : Nat) : Prop :=
  ∃ before b after, NthLast (isUserTurnBoundary ext) n items before b after ∧
    0 < before.countP (isUserTurnBoundary ext) ∧ meetsMixedBundle ext before = true

theorem trimsMixedBundle_iff (h : NthLast (isUserTurnBoundary ext) n items before b after) :
    TrimsMixedBundle ext items n ↔
      0 < before.countP (isUserTurnBoundary ext) ∧ meetsMixedBundle ext before = true := by
  constructor
  · rintro ⟨before', b', after', h', hinner, hmeets⟩
    obtain ⟨rfl, _, _⟩ := h.unique h'
    exact ⟨hinner, hmeets⟩
  · rintro ⟨hinner, hmeets⟩
    exact ⟨before, b, after, h, hinner, hmeets⟩

/-- A rollback that reaches the first turn trims nothing. -/
theorem not_trimsMixedBundle (hle : items.countP (isUserTurnBoundary ext) ≤ n) :
    ¬ TrimsMixedBundle ext items n := by
  rintro ⟨before, b, after, h, hinner, _⟩
  have hcount := h.countP
  omega

/-- What the walk trims holds no turn. -/
theorem countP_trimmed (ext : Externals) (before : List ResponseItem) :
    ∃ trimmed, before = before.rdropWhile (isTrimmablePreTurnItem ext) ++ trimmed ∧
      trimmed.countP (isUserTurnBoundary ext) = 0 := by
  induction before using List.reverseRecOn with
  | nil => exact ⟨[], rfl, rfl⟩
  | append_singleton before x ih =>
    by_cases htrim : isTrimmablePreTurnItem ext x = true
    · obtain ⟨trimmed, hsplit, hcount⟩ := ih
      rw [List.rdropWhile_concat_pos _ _ _ htrim]
      refine ⟨trimmed ++ [x], ?_, ?_⟩
      · rw [← List.append_assoc, ← hsplit]
      · rw [List.countP_append, hcount, List.countP_singleton,
          isUserTurnBoundary_of_trimmable htrim]
        rfl
    · rw [List.rdropWhile_concat_neg _ _ _ htrim]
      exact ⟨[], (List.append_nil _).symm, rfl⟩

/-- What a rollback keeps is a front part of the items that ends before a turn. -/
theorem survivingItems_split (ext : Externals) (items : List ResponseItem) (hn : 0 < n) :
    ∃ rest, items = survivingItems ext items n ++ rest ∧
      (survivingItems ext items n).countP (isUserTurnBoundary ext) =
        items.countP (isUserTurnBoundary ext) - n := by
  have hitems : (ContextManager.mk items 0 none).items = items := rfl
  rcases rollbackCases ext items hn with hnone | ⟨m, before, b, after, hle, h, hfirst⟩ |
    ⟨before, b, after, h, hinner⟩
  · have hdropped := (dropLastNUserTurns_nil (n := n) (hitems ▸ hnone)).1
    refine ⟨[], ?_, ?_⟩
    · rw [List.append_nil]
      exact hdropped.symm
    · show (ContextManager.items _).countP _ = _
      rw [hdropped, hitems, hnone, Nat.zero_sub]
  · have hdropped : ((ContextManager.mk items 0 none).dropLastNUserTurns ext n).items = before :=
      (dropLastNUserTurns_first h hfirst hle).1
    have hcount := h.countP
    refine ⟨b :: after, ?_, ?_⟩
    · show items = ContextManager.items _ ++ _
      rw [hdropped]
      exact h.split
    · show (ContextManager.items _).countP _ = _
      rw [hdropped, hfirst]
      omega
  · have hdropped : ((ContextManager.mk items 0 none).dropLastNUserTurns ext n).items =
        before.rdropWhile (isTrimmablePreTurnItem ext) := (dropLastNUserTurns_inner h hinner).1
    obtain ⟨trimmed, hbefore, htrimmed⟩ := countP_trimmed ext before
    have hcount := h.countP
    have hsplit := h.split
    rw [hbefore, List.append_assoc] at hsplit
    have hkept := congrArg (List.countP (isUserTurnBoundary ext)) hbefore
    rw [List.countP_append, htrimmed, Nat.add_zero] at hkept
    refine ⟨trimmed ++ b :: after, ?_, ?_⟩
    · show items = ContextManager.items _ ++ _
      rw [hdropped]
      exact hsplit
    · show (ContextManager.items _).countP _ = _
      rw [hdropped]
      omega

theorem survivingReference_eq_iff :
    survivingReference ext before reference = reference ↔
      reference = none ∨ ¬ meetsMixedBundle ext before = true := by
  unfold survivingReference
  by_cases hmeets : meetsMixedBundle ext before = true
  · rw [if_pos hmeets]
    constructor
    · intro h
      exact .inl h.symm
    · rintro (h | h)
      · exact h.symm
      · exact absurd hmeets h
  · rw [if_neg hmeets]
    exact ⟨fun _ => .inr hmeets, fun _ => rfl⟩

/-- Two rollbacks leave the items, and the snapshot, that one of as many turns leaves. -/
def Composes (ext : Externals) (cm : ContextManager) (m n : Nat) : Prop :=
  ((cm.dropLastNUserTurns ext m).dropLastNUserTurns ext n).items =
      (cm.dropLastNUserTurns ext (m + n)).items ∧
    ((cm.dropLastNUserTurns ext m).dropLastNUserTurns ext n).referenceContextItem =
      (cm.dropLastNUserTurns ext (m + n)).referenceContextItem

/-- The second rollback, after one that has left an older turn. -/
theorem composes_inner (hn : 0 < n)
    (h : NthLast (isUserTurnBoundary ext) m cm.items before b after)
    (hinner : 0 < before.countP (isUserTurnBoundary ext)) :
    Composes ext cm m n ↔
      cm.referenceContextItem = none ∨ ¬ TrimsMixedBundle ext cm.items m ∨
        TrimsMixedBundle ext cm.items (m + n) := by
  obtain ⟨hitems, hreference⟩ := dropLastNUserTurns_inner h hinner
  obtain ⟨trimmed, hsplit, htrimmed⟩ := countP_trimmed ext before
  have hkept : 0 < (cm.dropLastNUserTurns ext m).items.countP (isUserTurnBoundary ext) := by
    rw [hitems]
    rw [hsplit, List.countP_append, htrimmed] at hinner
    exact hinner
  have hmeets := trimsMixedBundle_iff h
  rw [hsplit, ← hitems] at h
  rcases rollbackCases ext (cm.dropLastNUserTurns ext m).items hn with
    hzero | ⟨k, older, b', after', hle, h', hfirst⟩ | ⟨older, b', after', h', holder⟩
  · omega
  · -- the first turn of all is dropped: the longer rollback trims nothing
    have hlong := h.trans h' htrimmed
    have hcount := hlong.countP
    obtain ⟨htwice, htwiceRef⟩ := dropLastNUserTurns_first h' hfirst hle
    obtain ⟨honce, honceRef⟩ := dropLastNUserTurns_first hlong hfirst (Nat.add_le_add_left hle m)
    have hnot : ¬ TrimsMixedBundle ext cm.items (m + n) := not_trimsMixedBundle (by omega)
    unfold Composes
    rw [htwice, honce, htwiceRef, honceRef, hreference, survivingReference_eq_iff, hmeets]
    constructor
    · rintro ⟨_, hnone | hmixed⟩
      · exact .inl hnone
      · exact .inr (.inl fun hand => hmixed hand.2)
    · rintro (hnone | hmixed | hmixed)
      · exact ⟨rfl, .inl hnone⟩
      · exact ⟨rfl, .inr fun hmeets => hmixed ⟨hinner, hmeets⟩⟩
      · exact absurd hmixed hnot
  · -- both cuts have a walk, and the longer rollback makes only the second
    have hlong := h.trans h' htrimmed
    obtain ⟨htwice, htwiceRef⟩ := dropLastNUserTurns_inner h' holder
    obtain ⟨honce, honceRef⟩ := dropLastNUserTurns_inner hlong holder
    unfold Composes
    rw [htwice, honce, htwiceRef, honceRef, hreference, hmeets, trimsMixedBundle_iff hlong]
    by_cases holdMeets : meetsMixedBundle ext older = true
    · simp [survivingReference, holdMeets, holder]
    · have hsurvives : ∀ r, survivingReference ext older r = r := by
        intro r
        exact survivingReference_eq_iff.mpr (.inr holdMeets)
      rw [hsurvives, hsurvives, survivingReference_eq_iff]
      constructor
      · rintro ⟨_, hnone | hmixed⟩
        · exact .inl hnone
        · exact .inr (.inl fun hand => hmixed hand.2)
      · rintro (hnone | hmixed | hmixed)
        · exact ⟨rfl, .inl hnone⟩
        · exact ⟨rfl, .inr fun hmeets => hmixed ⟨hinner, hmeets⟩⟩
        · exact absurd hmixed.2 holdMeets

/-- **When rollbacks compose.** Two rollbacks leave what one of as many turns leaves, unless the
    first trims a mixed bundle that the longer one drops without meeting it: then the snapshot
    that the first clears survives the longer one. -/
theorem compose_iff (ext : Externals) (cm : ContextManager) (m n : Nat) :
    Composes ext cm m n ↔
      cm.referenceContextItem = none ∨ ¬ TrimsMixedBundle ext cm.items m ∨
        TrimsMixedBundle ext cm.items (m + n) := by
  have hzero : ∀ cm : ContextManager, cm.dropLastNUserTurns ext 0 = cm := fun _ => rfl
  rcases Nat.eq_zero_or_pos n with rfl | hn
  · unfold Composes
    rw [hzero, Nat.add_zero]
    refine iff_of_true ⟨rfl, rfl⟩ (.inr ?_)
    exact (em (TrimsMixedBundle ext cm.items m)).symm
  rcases Nat.eq_zero_or_pos m with rfl | hm
  · unfold Composes
    rw [hzero, Nat.zero_add]
    refine iff_of_true ⟨rfl, rfl⟩ (.inr (.inl ?_))
    rintro ⟨before, b, after, h, _⟩
    exact absurd h.pos (Nat.lt_irrefl 0)
  rcases rollbackCases ext cm.items hm with
    hnone | ⟨k, before, b, after, hle, h, hfirst⟩ | ⟨before, b, after, h, hinner⟩
  · obtain ⟨hitems, hreference⟩ := dropLastNUserTurns_nil (n := m) hnone
    obtain ⟨htwice, htwiceRef⟩ := dropLastNUserTurns_nil (n := n) (hitems ▸ hnone)
    obtain ⟨honce, honceRef⟩ := dropLastNUserTurns_nil (n := m + n) hnone
    refine iff_of_true ⟨?_, ?_⟩ (.inr (.inl (not_trimsMixedBundle (by omega))))
    · rw [htwice, hitems, honce]
    · rw [htwiceRef, hreference, honceRef]
  · obtain ⟨hitems, hreference⟩ := dropLastNUserTurns_first h hfirst hle
    obtain ⟨htwice, htwiceRef⟩ := dropLastNUserTurns_nil (n := n) (hitems ▸ hfirst)
    obtain ⟨honce, honceRef⟩ := dropLastNUserTurns_first (n := m + n) h hfirst (by omega)
    have hcount := h.countP
    refine iff_of_true ⟨?_, ?_⟩ (.inr (.inl (not_trimsMixedBundle (by omega))))
    · rw [htwice, hitems, honce]
    · rw [htwiceRef, hreference, honceRef]
  · exact composes_inner hn h hinner

/-- A developer message that holds a permissions fragment and a text of its own. -/
def mixedBundle : ResponseItem :=
  .message none "developer".toList
    [.inputText "<permissions instructions>".toList, .inputText "text".toList] none

/-- Two turns with a mixed bundle between them: rolled back one by one they clear the snapshot,
    rolled back together they do not. -/
theorem stale_snapshot : ¬ ∀ (ext : Externals) (cm : ContextManager) (m n : Nat),
    Composes ext cm m n := by
  intro h
  have hcomposes := (h ⟨fun _ => false, fun _ => none, id⟩
    ⟨[userMessage "first".toList, mixedBundle, userMessage "second".toList], 0,
      some ⟨none, "model".toList, none⟩⟩ 1 1).2
  revert hcomposes
  decide +kernel

end CodexMonitor.History
