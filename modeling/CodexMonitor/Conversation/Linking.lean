import CodexMonitor.Lib.Ancestry
import CodexMonitor.Remote.Protocol
import CodexMonitor.Conversation.Reducer

namespace CodexMonitor.Conversation

open Text Ancestry
open Approvals (Json)
open Remote (get)

/-!
# Conversation — linking threads to their parents

`useThreadLinking.ts`: collaboration items name the threads that a thread has started, and the
hook dispatches the parent of each.  Its tests read the parents as they were at the last
render, the actions change those of the reducer.

* `jsString`, `asString`, `normalizeStringList` — values of an item read as texts.
* `collabLinks`, `turnsLinks` — the links that an item and a reloaded thread ask for.
* `LinkingState` — the parents the hook sees, and the reducer.
* `updateThreadParent`, `applyCollabThreadLinks`, `applyCollabThreadLinksFromThread` — the hook.
* `forest_iff_current` — the parents stay a forest, and stay the parents, exactly if every link
  that the hook lets through would also pass on the parents of the reducer.
-/

/-! ### Values of an item

A number is kept as the text that `String` gives for it, and an absent value and `null` are
treated alike by all of this code. -/

mutual

/-- `String(value)` -/
def jsString : Json → Text
  | .null => "null".toList
  | .bool b => (if b then "true" else "false").toList
  | .number digits => digits
  | .string t => t
  | .array items => joinWith ",".toList (jsStrings items)
  | .object _ => "[object Object]".toList

/-- The pieces that an array joins; `null` leaves an empty one. -/
def jsStrings : List Json → List Text
  | [] => []
  | .null :: items => [] :: jsStrings items
  | item :: items => jsString item :: jsStrings items

end

/-- Whether a condition takes the value for true. -/
def truthy : Json → Bool
  | .null => false
  | .bool b => b
  | .number digits => digits != "0".toList
  | .string t => !t.isEmpty
  | .array _ => true
  | .object _ => true

def asString (value : Option Json) : Text :=
  match value with
  | none => []
  | some value => if truthy value then jsString value else []

/-- `record.a ?? record.b ?? …` -/
def firstOf (keys : List String) (record : Json) : Option Json :=
  keys.findSome? fun key =>
    match get key.toList record with
    | some .null => none
    | value => value

def normalizeThreadId (value : Option Json) : Text := jsTrim (asString value)

def normalizeStringList (value : Option Json) : List Text :=
  match value with
  | some (.array items) => (items.map fun entry => asString (some entry)).filter (!·.isEmpty)
  | value => if (asString value).isEmpty then [] else [asString value]

/-- The thread that an agent reference names, directly or in a nested thread. -/
def agentRefThreadId (record : Json) : Text :=
  let nested := (get "thread".toList record).bind (firstOf ["id", "threadId", "thread_id"])
  normalizeThreadId ((firstOf ["threadId", "thread_id", "id"] record).or nested)

def normalizeThreadIdsFromAgentRefs (value : Option Json) : List Text :=
  match value with
  | some (.array items) => (items.map agentRefThreadId).filter (!·.isEmpty)
  | _ => []

/-- The source has a copy of the function before. -/
def normalizeThreadIdsFromAgentStatuses (value : Option Json) : List Text :=
  normalizeThreadIdsFromAgentRefs value

def normalizeThreadIdsFromStatusMap (value : Option Json) : List Text :=
  match value with
  | some (.object entries) =>
      (entries.map fun entry => normalizeThreadId (some (.string entry.1))).filter (!·.isEmpty)
  | _ => []

/-! ### The links that are asked for -/

def collabLinkHintKeys : List String :=
  ["senderThreadId", "sender_thread_id", "receiverThreadId", "receiver_thread_id",
    "receiverThreadIds", "receiver_thread_ids", "newThreadId", "new_thread_id",
    "receiverAgents", "receiver_agents", "receiverAgent", "receiver_agent",
    "agentStatuses", "agent_statuses", "agentStatus", "agentsStates", "agents_states",
    "statuses"]

def hasCollabLinkHints (item : Json) : Bool :=
  (firstOf collabLinkHintKeys item).any truthy

/-- `item.receiverAgent || item.receiver_agent ? [item.receiverAgent ?? item.receiver_agent] : []` -/
def singleReceiverAgent (item : Json) : List Json :=
  if (get "receiverAgent".toList item).any truthy || (get "receiver_agent".toList item).any truthy
  then (firstOf ["receiverAgent", "receiver_agent"] item).toList
  else []

/-- `Array.from(new Set(..))`: the first occurrence of each. -/
def uniqueTexts : List Text → List Text
  | [] => []
  | t :: ts => t :: (uniqueTexts ts).filter (· ≠ t)

def collabReceivers (item : Json) : List Text :=
  uniqueTexts <|
    normalizeStringList (firstOf ["receiverThreadId", "receiver_thread_id"] item) ++
    normalizeStringList (firstOf ["receiverThreadIds", "receiver_thread_ids"] item) ++
    normalizeStringList (firstOf ["newThreadId", "new_thread_id"] item) ++
    normalizeThreadIdsFromAgentRefs (some (.array (singleReceiverAgent item))) ++
    normalizeThreadIdsFromAgentRefs (firstOf ["receiverAgents", "receiver_agents"] item) ++
    normalizeThreadIdsFromAgentStatuses (firstOf ["agentStatuses", "agent_statuses"] item) ++
    normalizeThreadIdsFromStatusMap (get "statuses".toList item) ++
    normalizeThreadIdsFromStatusMap (firstOf ["agentStatus", "agentsStates", "agents_states"] item)

def isCollabType (item : Json) : Bool :=
  let itemType := asString (get "type".toList item)
  itemType = "collabToolCall".toList || itemType = "collabAgentToolCall".toList

/-- `sender || fallbackThreadId` -/
def collabParent (fallbackThreadId : Text) (item : Json) : Text :=
  let sender := asString (firstOf ["senderThreadId", "sender_thread_id"] item)
  if sender.isEmpty then fallbackThreadId else sender

/-- A link that is asked for: the parent, and the child. -/
structure Link where
  parentId : Text
  childId : Text
  deriving DecidableEq, Repr

/-- The links to the children that a call of `updateThreadParent` names. -/
def linksTo (parentId : Text) (childIds : List Text) : List Link :=
  childIds.map fun childId => ⟨parentId, childId⟩

def collabLinks (fallbackThreadId : Text) (item : Json) : List Link :=
  if !isCollabType item && !hasCollabLinkHints item then []
  else linksTo (collabParent fallbackThreadId item) (collabReceivers item)

/-- The elements of an array in a field; other values count as an empty array. -/
def arrayOf (key : Text) (record : Json) : List Json :=
  match get key record with
  | some (.array items) => items
  | _ => []

/-- Reading a field of `null` throws. -/
def isReadable : Json → Bool
  | .null => false
  | _ => true

def itemsLinks (fallbackThreadId : Text) (items : List Json) : List Link :=
  (items.takeWhile isReadable).flatMap (collabLinks fallbackThreadId)

/-- The turns up to the first that cannot be read to its end. -/
def turnsLinks (fallbackThreadId : Text) : List Json → List Link
  | [] => []
  | turn :: turns =>
      if isReadable turn then
        let items := arrayOf "items".toList turn
        itemsLinks fallbackThreadId items ++
          (if items.all isReadable then turnsLinks fallbackThreadId turns else [])
      else []

/-! ### The hook -/

/-- The loop of `wouldCreateThreadCycle`. -/
def walkMeets (threadParentById : Registry Text Text) (visited : List Text) (current : Text) :
    Bool :=
  if current.isEmpty then false
  else if _hvisited : current ∈ visited then true
  else match _hparent : threadParentById.lookup current with
    | none => false
    | some next => walkMeets threadParentById (current :: visited) next
termination_by (threadParentById.keys.filter (· ∉ visited)).length
decreasing_by
  have hmem : current ∈ threadParentById.keys :=
    AList.mem_keys.mpr (AList.lookup_isSome.mp (by rw [_hparent]; rfl))
  exact length_unvisited_lt hmem _hvisited

def wouldCreateThreadCycle (threadParentById : Registry Text Text) (parentId childId : Text) :
    Bool :=
  walkMeets threadParentById [childId] parentId

/-- The tests of `updateThreadParent` on a parent and one child. -/
def acceptsLink (threadParentById : Registry Text Text) (link : Link) : Bool :=
  !link.parentId.isEmpty && !link.childId.isEmpty && link.childId != link.parentId &&
    ((threadParentById.lookup link.childId).getD []).isEmpty &&
    !wouldCreateThreadCycle threadParentById link.parentId link.childId

/-- The parents that the hook captured at the last render, and the reducer. -/
structure LinkingState where
  captured : Registry Text Text
  reducer : ThreadState

namespace LinkingState

def start : LinkingState := ⟨∅, initialState⟩

/-- The parents in the reducer. -/
def parents (s : LinkingState) : Registry Text Text := s.reducer.threadParentById

/-- `dispatch({ type: "setThreadParent", .. })`, if the tests let the link through. -/
def linkChild (s : LinkingState) (link : Link) : LinkingState :=
  if acceptsLink s.captured link then
    { s with reducer := threadReducer s.reducer (.setThreadParent link.childId link.parentId) }
  else s

/-- The hook of the next render sees the parents of the reducer. -/
def render (s : LinkingState) : LinkingState := { s with captured := s.parents }

def updateThreadParent (s : LinkingState) (parentId : Text) (childIds : List Text) :
    LinkingState :=
  if parentId.isEmpty || childIds.isEmpty then s
  else childIds.foldl (fun s childId => s.linkChild ⟨parentId, childId⟩) s

def applyCollabThreadLinks (s : LinkingState) (fallbackThreadId : Text) (item : Json) :
    LinkingState :=
  if !isCollabType item && !hasCollabLinkHints item then s
  else if (collabParent fallbackThreadId item).isEmpty then s
  else s.updateThreadParent (collabParent fallbackThreadId item) (collabReceivers item)

/-- The items of a turn, and whether they could all be read. -/
def applyItems (fallbackThreadId : Text) : LinkingState → List Json → LinkingState × Bool
  | s, [] => (s, true)
  | s, item :: items =>
      if isReadable item then
        applyItems fallbackThreadId (s.applyCollabThreadLinks fallbackThreadId item) items
      else (s, false)

def applyTurns (fallbackThreadId : Text) : LinkingState → List Json → LinkingState
  | s, [] => s
  | s, turn :: turns =>
      if isReadable turn then
        match applyItems fallbackThreadId s (arrayOf "items".toList turn) with
        | (s, true) => applyTurns fallbackThreadId s turns
        | (s, false) => s
      else s

def applyCollabThreadLinksFromThread (s : LinkingState) (fallbackThreadId : Text)
    (thread : Json) : LinkingState :=
  applyTurns fallbackThreadId s (arrayOf "turns".toList thread)

end LinkingState

/-! ### Calls of the hook -/

inductive LinkEvent
  | update (parentId : Text) (childIds : List Text)
  | collabItem (fallbackThreadId : Text) (item : Json)
  | reload (fallbackThreadId : Text) (thread : Json)
  | render

def LinkingState.perform (s : LinkingState) : LinkEvent → LinkingState
  | .update parentId childIds => s.updateThreadParent parentId childIds
  | .collabItem fallbackThreadId item => s.applyCollabThreadLinks fallbackThreadId item
  | .reload fallbackThreadId thread => s.applyCollabThreadLinksFromThread fallbackThreadId thread
  | .render => s.render

/-- The smallest steps: one child of a call, or a render. -/
inductive LinkStep
  | link (link : Link)
  | render

def linkingMachine : Machine LinkingState LinkStep where
  init := .start
  step := fun s step => match step with
    | .link link => some (s.linkChild link)
    | .render => some s.render

/-- What a call of the hook does, child by child. -/
def LinkEvent.steps : LinkEvent → List LinkStep
  | .update parentId childIds => (linksTo parentId childIds).map .link
  | .collabItem fallbackThreadId item => (collabLinks fallbackThreadId item).map .link
  | .reload fallbackThreadId thread =>
      (turnsLinks fallbackThreadId (arrayOf "turns".toList thread)).map .link
  | .render => [.render]

section Steps

variable {s : LinkingState} {fallbackThreadId parentId : Text}

theorem linkChild_of_empty_parent {link : Link} (h : link.parentId.isEmpty = true) :
    s.linkChild link = s := by
  have hrejects : acceptsLink s.captured link = false := by simp [acceptsLink, h]
  unfold LinkingState.linkChild
  rw [hrejects]
  rfl

theorem updateThreadParent_eq (childIds : List Text) :
    s.updateThreadParent parentId childIds =
      (linksTo parentId childIds).foldl LinkingState.linkChild s := by
  unfold LinkingState.updateThreadParent linksTo
  rw [List.foldl_map]
  by_cases hparent : parentId.isEmpty = true
  · -- the links without a parent are rejected one by one
    rw [hparent, Bool.true_or, if_pos rfl]
    induction childIds with
    | nil => rfl
    | cons childId childIds ih =>
      have hsame : (s.linkChild ⟨parentId, childId⟩) = s := linkChild_of_empty_parent hparent
      rw [List.foldl_cons, hsame]
      exact ih
  · cases childIds with
    | nil => simp
    | cons childId childIds => simp [hparent]

theorem applyCollabThreadLinks_eq (item : Json) :
    s.applyCollabThreadLinks fallbackThreadId item =
      (collabLinks fallbackThreadId item).foldl LinkingState.linkChild s := by
  unfold LinkingState.applyCollabThreadLinks collabLinks
  by_cases hcollab : (!isCollabType item && !hasCollabLinkHints item) = true
  · rw [if_pos hcollab, if_pos hcollab]
    rfl
  · rw [if_neg hcollab, if_neg hcollab]
    split
    · next hparent =>
      rw [← updateThreadParent_eq]
      unfold LinkingState.updateThreadParent
      rw [hparent, Bool.true_or, if_pos rfl]
    · exact updateThreadParent_eq _

theorem applyItems_eq (items : List Json) :
    LinkingState.applyItems fallbackThreadId s items =
      ((itemsLinks fallbackThreadId items).foldl LinkingState.linkChild s,
        items.all isReadable) := by
  induction items generalizing s with
  | nil => rfl
  | cons item items ih =>
    unfold LinkingState.applyItems itemsLinks
    by_cases hread : isReadable item = true
    · rw [if_pos hread, ih, List.takeWhile_cons_of_pos hread, List.flatMap_cons,
        List.foldl_append, applyCollabThreadLinks_eq, List.all_cons, hread, Bool.true_and]
      rfl
    · rw [if_neg hread, List.takeWhile_cons_of_neg hread, List.all_cons,
        eq_false_of_ne_true hread, Bool.false_and]
      rfl

theorem applyTurns_eq (turns : List Json) :
    LinkingState.applyTurns fallbackThreadId s turns =
      (turnsLinks fallbackThreadId turns).foldl LinkingState.linkChild s := by
  induction turns generalizing s with
  | nil => rfl
  | cons turn turns ih =>
    unfold LinkingState.applyTurns turnsLinks
    by_cases hread : isReadable turn = true
    · rw [if_pos hread, if_pos hread, applyItems_eq, List.foldl_append]
      cases (arrayOf "items".toList turn).all isReadable with
      | true => exact ih
      | false => rfl
    · rw [if_neg hread, if_neg hread]
      rfl

/-- The steps of a list of links. -/
theorem run_links (links : List Link) :
    linkingMachine.run s (links.map .link) = some (links.foldl LinkingState.linkChild s) := by
  induction links generalizing s with
  | nil => rfl
  | cons link links ih => exact ih

/-- **The steps of a call** are what the call does. -/
theorem run_steps (event : LinkEvent) :
    linkingMachine.run s event.steps = some (s.perform event) := by
  cases event with
  | update parentId childIds =>
    show _ = some (s.updateThreadParent parentId childIds)
    rw [updateThreadParent_eq]
    exact run_links _
  | collabItem fallbackThreadId item =>
    show _ = some (s.applyCollabThreadLinks fallbackThreadId item)
    rw [applyCollabThreadLinks_eq]
    exact run_links _
  | reload fallbackThreadId thread =>
    show _ = some (LinkingState.applyTurns fallbackThreadId s _)
    rw [applyTurns_eq]
    exact run_links _
  | render => rfl

end Steps

/-! ### The walk -/

section Walk

variable {parents : Registry Text Text} {link : Link}

/-- The parents that the reducer holds are not empty. -/
abbrev NonemptyParents (parents : Registry Text Text) : Prop :=
  parents.Each fun _ parentId => parentId ≠ []

/-- In a forest the walk answers whether it comes to a thread it was told to look for. -/
theorem walkMeets_iff (hforest : Forest parents.lookup) (hvalues : NonemptyParents parents)
    (visited : List Text) (current : Text) : walkMeets parents visited current = true ↔
      current ≠ [] ∧ ∃ v ∈ visited, Descends parents.lookup current v := by
  fun_induction walkMeets parents visited current with
  | case1 visited current hempty =>
    have hnil : current = [] := List.isEmpty_iff.mp hempty
    simp [hnil]
  | case2 visited current hempty hvisited =>
    have hne : current ≠ [] := fun hnil => hempty (List.isEmpty_iff.mpr hnil)
    have hself : Descends parents.lookup current current := .refl
    simpa [hne] using ⟨current, hvisited, hself⟩
  | case3 visited current hempty hvisited hparent =>
    constructor
    · intro h
      cases h
    · rintro ⟨_, v, hv, hdescends⟩
      obtain rfl : current = v := hdescends.eq_of_none hparent
      exact absurd hv hvisited
  | case4 visited current hempty hvisited next hparent ih =>
    have hne : current ≠ [] := fun hnil => hempty (List.isEmpty_iff.mpr hnil)
    have hnext : next ≠ [] := hvalues current next hparent
    rw [ih]
    constructor
    · rintro ⟨_, v, hv, hdescends⟩
      rcases List.mem_cons.mp hv with rfl | hv
      · exact absurd hdescends (hforest _ _ hparent)
      · exact ⟨hne, v, hv, Descends.of_parent hparent hdescends⟩
    · rintro ⟨_, v, hv, hdescends⟩
      rcases hdescends.eq_or_parent hparent with rfl | hrest
      · exact absurd hv hvisited
      · exact ⟨hnext, v, List.mem_cons_of_mem _ hv, hrest⟩

/-- **The test for cycles** is right about a forest. -/
theorem wouldCreateThreadCycle_iff (hforest : Forest parents.lookup)
    (hvalues : NonemptyParents parents) (hparent : link.parentId ≠ []) :
    wouldCreateThreadCycle parents link.parentId link.childId = true ↔
      Descends parents.lookup link.parentId link.childId := by
  unfold wouldCreateThreadCycle
  rw [walkMeets_iff hforest hvalues]
  simp [hparent]

/-- What the tests say of the link alone. -/
structure Link.Proper (link : Link) : Prop where
  parent : link.parentId ≠ []
  child : link.childId ≠ []
  ne : link.childId ≠ link.parentId

theorem proper_of_accepts (h : acceptsLink parents link = true) : link.Proper := by
  simp only [acceptsLink, Bool.and_eq_true, Bool.not_eq_true', List.isEmpty_eq_false_iff,
    bne_iff_ne] at h
  obtain ⟨⟨⟨⟨hparent, hchild⟩, hne⟩, _⟩, _⟩ := h
  exact ⟨hparent, hchild, hne⟩

/-- A proper link passes if the child has no parent and is not above the new one. -/
theorem acceptsLink_iff (hforest : Forest parents.lookup) (hvalues : NonemptyParents parents)
    (hproper : link.Proper) : acceptsLink parents link = true ↔
      parents.lookup link.childId = none ∧
        ¬ Descends parents.lookup link.parentId link.childId := by
  rw [← wouldCreateThreadCycle_iff hforest hvalues hproper.parent]
  cases hlookup : parents.lookup link.childId with
  | none => simp [acceptsLink, hproper.parent, hproper.child, hproper.ne, hlookup]
  | some existing =>
    have hne := hvalues _ _ hlookup
    simp [acceptsLink, hlookup, hne]

end Walk

/-! ### Runs -/

section Runs

variable {s : LinkingState} {link : Link}

/-- **What is asked of a step**: the parents are a forest after it, and those there were are
    still there. -/
structure Kept (s s' : LinkingState) : Prop where
  forest : Forest s'.parents.lookup
  parents : ∀ childId parentId, s.parents.lookup childId = some parentId →
    s'.parents.lookup childId = some parentId

def KeptBy (s : LinkingState) (step : LinkStep) : Prop :=
  ∀ s', linkingMachine.step s step = some s' → Kept s s'

/-- **The captured parents are current enough for a step**: a link that passes on them is one
    that the reducer has already, or one that would pass on its parents too. -/
def Current (s : LinkingState) : LinkStep → Prop
  | .link link => acceptsLink s.captured link = true →
      s.parents.lookup link.childId = some link.parentId ∨ acceptsLink s.parents link = true
  | .render => True

/-- What every run keeps as long as its steps do what is asked. -/
structure Linked (s : LinkingState) : Prop where
  forest : Forest s.parents.lookup
  nonempty : NonemptyParents s.parents

theorem linked_start : Linked .start := by
  constructor
  · intro a b hparent
    cases hparent
  · exact Registry.Each.empty

theorem linkChild_rejected (h : acceptsLink s.captured link = false) : s.linkChild link = s := by
  unfold LinkingState.linkChild
  rw [h]
  rfl

theorem linkChild_parents (h : acceptsLink s.captured link = true) :
    (s.linkChild link).parents = s.parents.insert link.childId link.parentId := by
  obtain ⟨hparent, _, hne⟩ := proper_of_accepts h
  unfold LinkingState.linkChild
  rw [if_pos h]
  have hreduce : (link.parentId.isEmpty || link.parentId = link.childId) = false := by
    simp [hparent, hne.symm]
  show (threadReducer s.reducer (.setThreadParent _ _)).threadParentById = _
  simp only [threadReducer, reduceThreadLifecycle, hreduce]
  rfl

theorem linkChild_lookup (h : acceptsLink s.captured link = true) :
    (s.linkChild link).parents.lookup =
      Function.update s.parents.lookup link.childId (some link.parentId) := by
  rw [linkChild_parents h]
  funext childId
  by_cases hchild : childId = link.childId
  · subst hchild
    rw [AList.lookup_insert, Function.update_self]
  · rw [AList.lookup_insert_ne hchild, Function.update_of_ne hchild]

theorem Linked.rendered (h : Linked s) : Kept s s.render := ⟨h.forest, fun _ _ hp => hp⟩

/-- **One link.** A dispatched link does what is asked exactly if the captured parents are
    current enough for it. -/
theorem Linked.kept_link_iff (h : Linked s) : Kept s (s.linkChild link) ↔ Current s (.link link) := by
  by_cases hpass : acceptsLink s.captured link = true
  · have hproper := proper_of_accepts hpass
    have hlookup := linkChild_lookup hpass
    show _ ↔ (_ → _)
    rw [acceptsLink_iff h.forest h.nonempty hproper, ← h.forest.update_iff, ← hlookup]
    cases hexisting : s.parents.lookup link.childId with
    | none =>
      constructor
      · intro hkept _
        exact .inr ⟨rfl, hkept.forest⟩
      · intro hcurrent
        rcases hcurrent hpass with hsame | ⟨_, hforest⟩
        · cases hsame
        · refine ⟨hforest, ?_⟩
          intro childId parentId hparent
          have hne : childId ≠ link.childId := by
            rintro rfl
            rw [hexisting] at hparent
            cases hparent
          have hsame := congrFun hlookup childId
          rw [Function.update_of_ne hne, hparent] at hsame
          exact hsame
    | some existing =>
      constructor
      · intro hkept _
        have hstill := hkept.parents _ _ hexisting
        have hset := congrFun hlookup link.childId
        rw [Function.update_self] at hset
        exact .inl (hstill.symm.trans hset)
      · intro hcurrent
        rcases hcurrent hpass with hsame | ⟨hnone, _⟩
        · -- the link is there already, and dispatching it again changes nothing
          rw [← hsame, ← hexisting, Function.update_eq_self] at hlookup
          refine ⟨hlookup ▸ h.forest, ?_⟩
          intro childId parentId hparent
          exact (congrFun hlookup childId).trans hparent
        · cases hnone
  · rw [linkChild_rejected (eq_false_of_ne_true hpass)]
    constructor
    · intro _ hpass'
      exact absurd hpass' hpass
    · intro _
      exact ⟨h.forest, fun _ _ hp => hp⟩

theorem Linked.keptBy_iff (h : Linked s) (step : LinkStep) : KeptBy s step ↔ Current s step := by
  cases step with
  | link link =>
    rw [← h.kept_link_iff]
    constructor
    · intro hkept
      exact hkept _ rfl
    · intro hkept s' hs'
      cases hs'
      exact hkept
  | render =>
    constructor
    · intro _
      trivial
    · intro _ s' hs'
      cases hs'
      exact h.rendered

theorem Linked.step {s' : LinkingState} {step : LinkStep} (h : Linked s) (hkept : KeptBy s step)
    (hstep : linkingMachine.step s step = some s') : Linked s' := by
  refine ⟨(hkept s' hstep).forest, ?_⟩
  cases step with
  | link link =>
    cases hstep
    by_cases hpass : acceptsLink s.captured link = true
    · rw [linkChild_parents hpass]
      exact h.nonempty.insert (proper_of_accepts hpass).parent
    · rw [linkChild_rejected (eq_false_of_ne_true hpass)]
      exact h.nonempty
  | render =>
    cases hstep
    exact h.nonempty

end Runs

/-- **The parents stay a forest, and stay the parents**, in every run of calls of the hook and
    renders, exactly if at every link the captured parents are current enough. -/
theorem forest_iff_current (events : List LinkEvent) :
    linkingMachine.Guarded KeptBy .start (events.flatMap LinkEvent.steps) ↔
      linkingMachine.Guarded Current .start (events.flatMap LinkEvent.steps) := by
  refine Machine.guarded_iff (I := Linked) ?_ ?_ linked_start
  · intro s step s' h hkept hstep
    exact h.step hkept hstep
  · intro s step h
    exact h.keptBy_iff step

/-! ### Two links before a render -/

/-- An item by which the thread `sender` has started the thread `receiver`. -/
def spawnItem (sender receiver : String) : Json :=
  .object [("type".toList, .string "collabToolCall".toList),
    ("senderThreadId".toList, .string sender.toList),
    ("receiverThreadId".toList, .string receiver.toList)]

/-- A thread in which `a` starts `b` and `b` then starts `a`, as a resumed agent does. -/
def mutualThread : Json :=
  .object [("turns".toList, .array [.object [("items".toList,
    .array [spawnItem "a" "b", spawnItem "b" "a"])]])]

/-- One reload of the thread makes each of the two the parent of the other. -/
theorem mutual_not_kept : ¬ ∀ events : List LinkEvent,
    linkingMachine.Guarded KeptBy .start (events.flatMap LinkEvent.steps) := by
  intro h
  have hrun : linkingMachine.Guarded KeptBy .start
      [.link ⟨"a".toList, "b".toList⟩, .link ⟨"b".toList, "a".toList⟩] :=
    h [.reload "a".toList mutualThread]
  have hkept := (hrun.2 _ rfl).1 _ rfl
  -- the second link is tested on the parents before the first
  have hfirst : acceptsLink ∅ ⟨"a".toList, "b".toList⟩ = true := by
    simp [acceptsLink, wouldCreateThreadCycle, walkMeets]
  have hsecond : acceptsLink ∅ ⟨"b".toList, "a".toList⟩ = true := by
    simp [acceptsLink, wouldCreateThreadCycle, walkMeets]
  have hclosed : acceptsLink (LinkingState.start.linkChild ⟨"a".toList, "b".toList⟩).captured
      ⟨"b".toList, "a".toList⟩ = true := by
    unfold LinkingState.linkChild
    split <;> exact hsecond
  have hlookup := linkChild_lookup hclosed
  have hforest := hkept.forest
  rw [hlookup, linkChild_lookup hfirst] at hforest
  refine hforest "b".toList "a".toList ?_ (Descends.of_parent (b := "b".toList) ?_ .refl)
  · simp
  · simp

end CodexMonitor.Conversation
