import CodexMonitor.AgentControl.Registry

namespace CodexMonitor.AgentControl

/-!
# Agent control — the slots are accounted for

The count of the registry is the number of open reservations, of agents that take up a slot, and
of releases that are under way.  This holds as long as no commit finds its key taken: a thread
that is registered already, or the path of the root, leaves a slot that nobody gives back.

* `Accounted` — what is to hold at every point.
* `PathsHeld` — the paths and the reservations that hold them.
* `FreshKey` — a commit that registers a key of its own.
* `sound_step` — one access.
* `slots_accounted_iff` — whole runs.
-/

/-! ### What is to hold -/

/-- Some slots are counted that nobody has. -/
def Balance (leaked : Nat) (s : SlotState) : Prop :=
  s.totalCount = s.openReservations + s.liveAgents + s.releasing + leaked

/-- An entry without a thread belongs to an open reservation. -/
def PlaceholdersOwned (s : SlotState) : Prop :=
  ∀ key metadata, s.agentTree.lookup key = some metadata → metadata.agentId = none →
    ∃ i path, s.attempts.lookup i = some (.reserved (some path)) ∧ path.text = key

/-- **At every point** the slots are accounted for, there are not too many, none is given back
    that is not counted, and no placeholder outlives its reservation. -/
structure Accounted (maxThreads : Option Nat) (s : SlotState) : Prop where
  balance : s.totalCount = s.openReservations + s.liveAgents + s.releasing
  limit : ∀ max, maxThreads = some max → s.totalCount ≤ max
  noUnderflow : 0 < s.openReservations + s.releasing → 0 < s.totalCount
  placeholders : PlaceholdersOwned s

/-- A commit finds no agent under its key, and its key is not that of the root. -/
def FreshKey (s : SlotState) (a : Action) : Prop :=
  match a with
  | .commit i threadId _ =>
      match s.attempts.lookup i with
      | some (.reserved none) => s.agentTree.lookup (AgentMetadata.key threadId none) = none
      | some (.reserved (some path)) => path.isRoot = false
      | _ => True
  | _ => True

/-! ### Paths -/

/-- The paths of the registry: an entry stands under its path, a placeholder is held by a
    reservation, a reservation holds a placeholder, and no two hold one. -/
structure PathsHeld (s : SlotState) : Prop where
  keyed : ∀ key metadata path, s.agentTree.lookup key = some metadata →
    metadata.agentPath = some path → path.text = key
  placeholders : ∀ key metadata, s.agentTree.lookup key = some metadata →
    metadata.agentId = none → ∃ i path, metadata.agentPath = some path ∧
      s.attempts.lookup i = some (.reserved (some path))
  held : ∀ i path, s.attempts.lookup i = some (.reserved (some path)) →
    ∃ metadata, s.agentTree.lookup path.text = some metadata ∧ metadata.agentId = none
  distinct : ∀ i j path, s.attempts.lookup i = some (.reserved (some path)) →
    s.attempts.lookup j = some (.reserved (some path)) → i = j

variable {maxThreads : Option Nat} {s s' : SlotState} {a : Action} {i : Nat}
  {attempt before : Attempt} {leaked : Nat}

theorem PathsHeld.owned (h : PathsHeld s) : PlaceholdersOwned s := by
  intro key metadata hlookup hnone
  obtain ⟨i, path, hpath, hi⟩ := h.placeholders key metadata hlookup hnone
  exact ⟨i, path, hi, h.keyed key metadata path hlookup hpath⟩

/-- The attempt holds a path. -/
def Attempt.HoldsPath : Attempt → Prop
  | .reserved (some _) => True
  | _ => False

/-- An attempt that holds no path moves to where it holds none. -/
theorem PathsHeld.setAttempt (h : PathsHeld s)
    (hbefore : ∀ path, s.attempts.lookup i ≠ some (.reserved (some path)))
    (hafter : ¬ attempt.HoldsPath) : PathsHeld (s.setAttempt i attempt) := by
  have hsame : ∀ j path, (s.attempts.insert i attempt).lookup j = some (.reserved (some path)) ↔
      s.attempts.lookup j = some (.reserved (some path)) := by
    intro j path
    by_cases hj : j = i
    · subst hj
      rw [AList.lookup_insert]
      constructor
      · intro heq
        rw [Option.some.inj heq] at hafter
        exact absurd trivial hafter
      · intro heq
        exact absurd heq (hbefore path)
    · rw [AList.lookup_insert_ne hj]
  refine ⟨h.keyed, ?_, ?_, ?_⟩
  · intro key metadata hlookup hnone
    obtain ⟨j, path, hpath, hj⟩ := h.placeholders key metadata hlookup hnone
    exact ⟨j, path, hpath, (hsame j path).mpr hj⟩
  · intro j path hj
    exact h.held j path ((hsame j path).mp hj)
  · intro j j' path hj hj'
    exact h.distinct j j' path ((hsame j path).mp hj) ((hsame j' path).mp hj')

theorem PathsHeld.setCount (h : PathsHeld s) (count : Nat) : PathsHeld (s.setCount count) :=
  ⟨h.keyed, h.placeholders, h.held, h.distinct⟩

theorem AgentPath.eq_of_text {path other : AgentPath} (h : path.text = other.text) :
    path = other := by
  cases path
  cases other
  cases h
  rfl

/-- The key of a thread is no path. -/
theorem AgentMetadata.key_ne_path (threadId : ThreadId) (path : AgentPath) :
    path.text ≠ AgentMetadata.key threadId none := by
  intro heq
  have habsolute := path.absolute
  rw [heq] at habsolute
  cases habsolute

/-- A placeholder is put under a path that is free. -/
theorem PathsHeld.reserve {path : AgentPath} (h : PathsHeld s)
    (hi : s.attempts.lookup i = some (.reserved none))
    (hfree : s.agentTree.lookup path.text = none) :
    PathsHeld ({ s with
      agentTree := s.agentTree.insert path.text ⟨none, some path, none⟩ }.setAttempt i
        (.reserved (some path))) := by
  have hne : ∀ j other, s.attempts.lookup j = some (.reserved (some other)) → j ≠ i := by
    rintro j other hj rfl
    rw [hi] at hj
    cases hj
  have hother : ∀ j other, s.attempts.lookup j = some (.reserved (some other)) →
      other.text ≠ path.text := by
    intro j other hj heq
    obtain ⟨metadata, hlookup, -⟩ := h.held j other hj
    rw [heq, hfree] at hlookup
    cases hlookup
  have hcases : ∀ j other, (s.attempts.insert i (.reserved (some path))).lookup j =
      some (.reserved (some other)) →
        (j = i ∧ other = path) ∨ s.attempts.lookup j = some (.reserved (some other)) := by
    intro j other hj
    rcases Registry.lookup_insert_eq_some hj with ⟨rfl, heq⟩ | ⟨-, hold⟩
    · exact .inl ⟨rfl, Option.some.inj (Attempt.reserved.inj heq)⟩
    · exact .inr hold
  refine ⟨?_, ?_, ?_, ?_⟩
  · intro key metadata other hlookup hpath
    rcases Registry.lookup_insert_eq_some hlookup with ⟨rfl, rfl⟩ | ⟨-, hold⟩
    · rw [Option.some.inj hpath]
    · exact h.keyed key metadata other hold hpath
  · intro key metadata hlookup hnone
    rcases Registry.lookup_insert_eq_some hlookup with ⟨rfl, rfl⟩ | ⟨-, hold⟩
    · exact ⟨i, path, rfl, AList.lookup_insert _⟩
    · obtain ⟨j, other, hpath, hj⟩ := h.placeholders key metadata hold hnone
      exact ⟨j, other, hpath, (AList.lookup_insert_ne (hne j other hj)).trans hj⟩
  · intro j other hj
    rcases hcases j other hj with ⟨rfl, rfl⟩ | hold
    · exact ⟨_, AList.lookup_insert _, rfl⟩
    · obtain ⟨metadata, hlookup, hnone⟩ := h.held j other hold
      exact ⟨metadata, (AList.lookup_insert_ne (hother j other hold)).trans hlookup, hnone⟩
  · intro j j' other hj hj'
    rcases hcases j other hj with ⟨rfl, rfl⟩ | hold
    · rcases hcases j' other hj' with ⟨rfl, -⟩ | hold'
      · rfl
      · exact absurd rfl (hother j' other hold')
    · rcases hcases j' other hj' with ⟨rfl, rfl⟩ | hold'
      · exact absurd rfl (hother j other hold)
      · exact h.distinct j j' other hold hold'

/-- The reservation `i` ends, and only the entry under its own key changes: it is gone or has a
    thread. -/
theorem PathsHeld.finish {path : Option AgentPath} {tree : Registry Text AgentMetadata}
    (h : PathsHeld s) (key : Text) (hi : s.attempts.lookup i = some (.reserved path))
    (hafter : ¬ attempt.HoldsPath)
    (hkey : ∀ other, path = some other → other.text = key)
    (hfree : path = none → ∀ other : AgentPath, other.text ≠ key)
    (hsame : ∀ other, other ≠ key → tree.lookup other = s.agentTree.lookup other)
    (hentry : ∀ metadata, tree.lookup key = some metadata → metadata.agentId ≠ none ∧
      ∀ other, metadata.agentPath = some other → other.text = key) :
    PathsHeld ({ s with agentTree := tree }.setAttempt i attempt) := by
  have hcases : ∀ j other, (s.attempts.insert i attempt).lookup j =
      some (.reserved (some other)) →
        j ≠ i ∧ s.attempts.lookup j = some (.reserved (some other)) := by
    intro j other hj
    rcases Registry.lookup_insert_eq_some hj with ⟨rfl, heq⟩ | hold
    · rw [← heq] at hafter
      exact absurd trivial hafter
    · exact hold
  have hne : ∀ j other, j ≠ i → s.attempts.lookup j = some (.reserved (some other)) →
      other.text ≠ key := by
    intro j other hj hother heq
    cases path with
    | none => exact hfree rfl other heq
    | some own =>
      have hown : other = own := AgentPath.eq_of_text (heq.trans (hkey own rfl).symm)
      rw [hown] at hother
      exact hj (h.distinct j i own hother hi)
  refine ⟨?_, ?_, ?_, ?_⟩
  · intro other metadata its hlookup hpath
    by_cases heq : other = key
    · subst heq
      exact (hentry metadata hlookup).2 its hpath
    · have hold : tree.lookup other = some metadata := hlookup
      rw [hsame other heq] at hold
      exact h.keyed other metadata its hold hpath
  · intro other metadata hlookup hnone
    have hlookup' : tree.lookup other = some metadata := hlookup
    by_cases heq : other = key
    · subst heq
      exact absurd hnone (hentry metadata hlookup').1
    · rw [hsame other heq] at hlookup'
      obtain ⟨j, its, hpath, hj⟩ := h.placeholders other metadata hlookup' hnone
      refine ⟨j, its, hpath, ?_⟩
      refine (AList.lookup_insert_ne ?_).trans hj
      rintro rfl
      -- the entry would be the reservation's own
      obtain rfl := Attempt.reserved.inj (Option.some.inj (hi.symm.trans hj))
      have hits := h.keyed other metadata its hlookup' hpath
      exact heq (hits.symm.trans (hkey its rfl))
  · intro j other hj
    obtain ⟨hji, hold⟩ := hcases j other hj
    obtain ⟨metadata, hlookup, hnone⟩ := h.held j other hold
    exact ⟨metadata, (hsame other.text (hne j other hji hold)).trans hlookup, hnone⟩
  · intro j j' other hj hj'
    exact h.distinct j j' other (hcases j other hj).2 (hcases j' other hj').2

/-- An entry that is no placeholder comes or goes. -/
theorem PathsHeld.changeEntry {tree : Registry Text AgentMetadata} (h : PathsHeld s) (key : Text)
    (hkey : ∀ metadata, s.agentTree.lookup key = some metadata → metadata.agentId ≠ none)
    (hsame : ∀ other, other ≠ key → tree.lookup other = s.agentTree.lookup other)
    (hentry : ∀ metadata, tree.lookup key = some metadata → metadata.agentId ≠ none ∧
      ∀ other, metadata.agentPath = some other → other.text = key) :
    PathsHeld { s with agentTree := tree } := by
  refine ⟨?_, ?_, ?_, h.distinct⟩
  · intro other metadata its hlookup hpath
    have hlookup' : tree.lookup other = some metadata := hlookup
    by_cases heq : other = key
    · subst heq
      exact (hentry metadata hlookup').2 its hpath
    · rw [hsame other heq] at hlookup'
      exact h.keyed other metadata its hlookup' hpath
  · intro other metadata hlookup hnone
    have hlookup' : tree.lookup other = some metadata := hlookup
    by_cases heq : other = key
    · subst heq
      exact absurd hnone (hentry metadata hlookup').1
    · rw [hsame other heq] at hlookup'
      exact h.placeholders other metadata hlookup' hnone
  · intro j other hj
    obtain ⟨metadata, hlookup, hnone⟩ := h.held j other hj
    refine ⟨metadata, (hsame other.text ?_).trans hlookup, hnone⟩
    intro heq
    rw [heq] at hlookup
    exact hkey metadata hlookup hnone

/-! ### What each access does to the counts -/

theorem openReservations_setAttempt (hi : s.attempts.lookup i = some before) :
    (s.setAttempt i attempt).openReservations + Registry.share Attempt.isOpen before =
      s.openReservations + Registry.share Attempt.isOpen attempt :=
  Registry.count_insert hi

theorem openReservations_setAttempt_new (hi : s.attempts.lookup i = none) :
    (s.setAttempt i attempt).openReservations =
      s.openReservations + Registry.share Attempt.isOpen attempt :=
  Registry.count_insert_new hi

/-- What every access keeps, with the slots that nobody has. -/
structure Sound (maxThreads : Option Nat) (leaked : Nat) (s : SlotState) : Prop where
  paths : PathsHeld s
  balance : Balance leaked s
  limit : ∀ max, maxThreads = some max → s.totalCount ≤ max

theorem Sound.accounted (h : Sound maxThreads 0 s) : Accounted maxThreads s := by
  have hbalance : s.totalCount = s.openReservations + s.liveAgents + s.releasing + 0 := h.balance
  refine ⟨hbalance, h.limit, ?_, h.paths.owned⟩
  intro hpos
  omega

theorem Sound.initial (maxThreads : Option Nat) : Sound maxThreads 0 .initial := by
  refine ⟨⟨?_, ?_, ?_, ?_⟩, rfl, fun max _ => Nat.zero_le max⟩
  · intro key metadata path hlookup
    cases hlookup
  · intro key metadata hlookup
    cases hlookup
  · intro i path hi
    cases hi
  · intro i j path hi
    cases hi

theorem share_open_of_reserved (path : Option AgentPath) :
    Registry.share Attempt.isOpen (.reserved path) = 1 := rfl

/-- An attempt without a path is not found with one. -/
theorem lookup_ne_reserved (hi : s.attempts.lookup i = some before) (hbefore : ¬ before.HoldsPath)
    (path : AgentPath) : s.attempts.lookup i ≠ some (.reserved (some path)) := by
  intro heq
  rw [hi] at heq
  rw [Option.some.inj heq] at hbefore
  exact hbefore trivial

/-- **An attempt moves**, and the count changes as the slots it holds do. -/
theorem Sound.move {count : Nat} (h : Sound maxThreads leaked s)
    (hi : s.attempts.lookup i = some before) (hbefore : ¬ before.HoldsPath)
    (hafter : ¬ attempt.HoldsPath)
    (hcount : count + Registry.share Attempt.isOpen before =
      s.totalCount + Registry.share Attempt.isOpen attempt)
    (hlimit : ∀ max, maxThreads = some max → count ≤ max) :
    Sound maxThreads leaked ((s.setCount count).setAttempt i attempt) := by
  refine ⟨?_, ?_, hlimit⟩
  · exact (h.paths.setCount count).setAttempt (lookup_ne_reserved hi hbefore) hafter
  · have hopen : ((s.setCount count).setAttempt i attempt).openReservations +
        Registry.share Attempt.isOpen before =
          s.openReservations + Registry.share Attempt.isOpen attempt :=
      openReservations_setAttempt hi
    have hbalance : s.totalCount = s.openReservations + s.liveAgents + s.releasing + leaked :=
      h.balance
    show count = _ + s.liveAgents + s.releasing + leaked
    omega

/-- An attempt moves and holds a slot as before. -/
theorem Sound.moveAlone (h : Sound maxThreads leaked s)
    (hi : s.attempts.lookup i = some before) (hbefore : ¬ before.HoldsPath)
    (hafter : ¬ attempt.HoldsPath)
    (hshare : Registry.share Attempt.isOpen before = Registry.share Attempt.isOpen attempt) :
    Sound maxThreads leaked (s.setAttempt i attempt) := by
  have hmoved : Sound maxThreads leaked ((s.setCount s.totalCount).setAttempt i attempt) :=
    h.move hi hbefore hafter (by omega) h.limit
  exact hmoved

/-- A new attempt. -/
theorem Sound.start {count : Nat} (h : Sound maxThreads leaked s)
    (hi : s.attempts.lookup i = none) (hafter : ¬ attempt.HoldsPath)
    (hcount : count = s.totalCount + Registry.share Attempt.isOpen attempt)
    (hlimit : ∀ max, maxThreads = some max → count ≤ max) :
    Sound maxThreads leaked ((s.setCount count).setAttempt i attempt) := by
  have hno : ∀ path, s.attempts.lookup i ≠ some (.reserved (some path)) := by
    intro path heq
    rw [hi] at heq
    cases heq
  refine ⟨(h.paths.setCount count).setAttempt hno hafter, ?_, hlimit⟩
  have hopen : ((s.setCount count).setAttempt i attempt).openReservations =
      s.openReservations + Registry.share Attempt.isOpen attempt :=
    openReservations_setAttempt_new hi
  have hbalance : s.totalCount = s.openReservations + s.liveAgents + s.releasing + leaked :=
    h.balance
  show count = _ + s.liveAgents + s.releasing + leaked
  omega

/-! ### One access -/

theorem sound_reserve (h : Sound maxThreads leaked s) (hi : s.attempts.lookup i = none) :
    Sound maxThreads leaked (s.reserve maxThreads i) := by
  unfold SlotState.reserve
  cases maxThreads with
  | none => exact h.start hi id rfl fun max hmax => by cases hmax
  | some max =>
    have hstarted : Sound (some max) leaked
        ((s.setCount s.totalCount).setAttempt i (.comparing s.totalCount)) :=
      h.start hi id rfl h.limit
    exact hstarted

theorem sound_exchange {max current : Nat} {spurious : Bool} (h : Sound (some max) leaked s)
    (hi : s.attempts.lookup i = some (.comparing current)) :
    Sound (some max) leaked (s.exchange max current spurious i) := by
  unfold SlotState.exchange
  split
  · exact h.moveAlone hi id id rfl
  · next hless =>
    split
    · next hsame =>
      refine h.move hi id id rfl ?_
      intro max' hmax
      obtain rfl := Option.some.inj hmax
      have hcurrent := hsame.1
      omega
    · exact h.moveAlone hi id id rfl

theorem fetchSub_of_pos {count : Nat} (h : 0 < count) : SlotState.fetchSub count + 1 = count := by
  unfold SlotState.fetchSub
  rw [if_neg (by omega)]
  omega

/-- Who holds a slot is counted. -/
theorem totalCount_pos (h : Balance leaked s) (hi : s.attempts.lookup i = some before)
    (hopen : before.isOpen = true) : 0 < s.totalCount := by
  have herase := Registry.count_erase (p := Attempt.isOpen) hi
  rw [Registry.share_of_true hopen] at herase
  have hcount : s.openReservations = Registry.count Attempt.isOpen s.attempts := rfl
  have hbalance : s.totalCount = s.openReservations + s.liveAgents + s.releasing + leaked := h
  omega

theorem sound_dropSlot (h : Sound maxThreads leaked s)
    (hi : s.attempts.lookup i = some .dropping) : Sound maxThreads leaked (s.dropSlot i) := by
  have hpos := totalCount_pos h.balance hi rfl
  have hsub := fetchSub_of_pos hpos
  refine h.move hi id id hsub ?_
  intro max hmax
  have hlimit := h.limit max hmax
  omega

theorem sound_finishRelease (h : Sound maxThreads leaked s) (hpos : s.releasing ≠ 0) :
    Sound maxThreads leaked s.finishRelease := by
  have hbalance : s.totalCount = s.openReservations + s.liveAgents + s.releasing + leaked :=
    h.balance
  have hpositive : 0 < s.totalCount := by omega
  have hsub := fetchSub_of_pos hpositive
  refine ⟨⟨h.paths.keyed, h.paths.placeholders, h.paths.held, h.paths.distinct⟩, ?_, ?_⟩
  · show SlotState.fetchSub s.totalCount =
      s.openReservations + s.liveAgents + (s.releasing - 1) + leaked
    omega
  · intro max hmax
    have hlimit := h.limit max hmax
    show SlotState.fetchSub s.totalCount ≤ max
    omega

theorem counted_eq (metadata : AgentMetadata) : metadata.counted =
    (metadata.agentId.isSome && !metadata.agentPath.any AgentPath.isRoot) := rfl

theorem sound_removeAgent {key : Text} {metadata : AgentMetadata} {threadId : ThreadId}
    (h : Sound maxThreads leaked s) (hlookup : s.agentTree.lookup key = some metadata)
    (hid : metadata.agentId = some threadId) :
    Sound maxThreads leaked (s.removeAgent key metadata) := by
  have hlive := Registry.count_erase (p := AgentMetadata.counted) hlookup
  have hbalance : s.totalCount = s.openReservations + s.liveAgents + s.releasing + leaked :=
    h.balance
  have hcount : s.liveAgents = Registry.count AgentMetadata.counted s.agentTree := rfl
  have hpaths : PathsHeld { s with agentTree := s.agentTree.erase key } := by
    refine h.paths.changeEntry key ?_ ?_ ?_
    · intro other hother
      rw [hlookup] at hother
      obtain rfl := Option.some.inj hother
      rw [hid]
      exact Option.some_ne_none threadId
    · intro other hother
      exact AList.lookup_erase_ne hother
    · intro other hother
      rw [AList.lookup_erase] at hother
      cases hother
  refine ⟨⟨hpaths.keyed, hpaths.placeholders, hpaths.held, hpaths.distinct⟩, ?_, h.limit⟩
  show s.totalCount = s.openReservations + Registry.count AgentMetadata.counted
    (s.agentTree.erase key) + (if metadata.agentPath.any AgentPath.isRoot then s.releasing
      else s.releasing + 1) + leaked
  cases hroot : metadata.agentPath.any AgentPath.isRoot with
  | true =>
    have hshare : Registry.share AgentMetadata.counted metadata = 0 := by
      apply Registry.share_of_false
      rw [counted_eq, hroot, Bool.not_true, Bool.and_false]
    rw [if_pos rfl]
    omega
  | false =>
    have hshare : Registry.share AgentMetadata.counted metadata = 1 := by
      apply Registry.share_of_true
      rw [counted_eq, hroot, hid]
      rfl
    rw [if_neg Bool.false_ne_true]
    omega

theorem sound_registerRootThread (h : Sound maxThreads leaked s) (threadId : ThreadId) :
    Sound maxThreads leaked (s.registerRootThread threadId) := by
  unfold SlotState.registerRootThread
  split
  · exact h
  · next hfree =>
    have hlive := Registry.count_insert_new (p := AgentMetadata.counted)
      (a := ⟨some threadId, some AgentPath.root, none⟩) hfree
    have hbalance : s.totalCount = s.openReservations + s.liveAgents + s.releasing + leaked :=
      h.balance
    have hshare : Registry.share AgentMetadata.counted
        ⟨some threadId, some AgentPath.root, none⟩ = 0 := rfl
    have hcount : s.liveAgents = Registry.count AgentMetadata.counted s.agentTree := rfl
    refine ⟨?_, ?_, h.limit⟩
    · refine h.paths.changeEntry AgentPath.root.text ?_ ?_ ?_
      · intro other hother
        rw [hfree] at hother
        cases hother
      · intro other hother
        exact AList.lookup_insert_ne hother
      · intro other hother
        rw [AList.lookup_insert] at hother
        obtain rfl := Option.some.inj hother
        refine ⟨Option.some_ne_none threadId, ?_⟩
        intro path hpath
        rw [Option.some.inj hpath]
    · show s.totalCount = s.openReservations + Registry.count AgentMetadata.counted
        (s.agentTree.insert _ _) + s.releasing + leaked
      omega

theorem sound_reserveAgentPath {path : AgentPath} (h : Sound maxThreads leaked s)
    (hi : s.attempts.lookup i = some (.reserved none)) :
    Sound maxThreads leaked (s.reserveAgentPath i path) := by
  unfold SlotState.reserveAgentPath
  split
  · exact h
  · next hfree =>
    have hlive := Registry.count_insert_new (p := AgentMetadata.counted)
      (a := ⟨none, some path, none⟩) hfree
    have hshare : Registry.share AgentMetadata.counted ⟨none, some path, none⟩ = 0 := rfl
    have hbalance : s.totalCount = s.openReservations + s.liveAgents + s.releasing + leaked :=
      h.balance
    have hcount : s.liveAgents = Registry.count AgentMetadata.counted s.agentTree := rfl
    have hopen := Registry.count_insert (p := Attempt.isOpen) (a := .reserved (some path)) hi
    have hopens : s.openReservations = Registry.count Attempt.isOpen s.attempts := rfl
    rw [share_open_of_reserved, share_open_of_reserved] at hopen
    refine ⟨h.paths.reserve hi hfree, ?_, h.limit⟩
    show s.totalCount = Registry.count Attempt.isOpen (s.attempts.insert i _) +
      Registry.count AgentMetadata.counted (s.agentTree.insert _ _) + s.releasing + leaked
    omega

theorem sound_dropPath {path : Option AgentPath} (h : Sound maxThreads leaked s)
    (hi : s.attempts.lookup i = some (.reserved path)) :
    Sound maxThreads leaked (s.dropPath i path) := by
  unfold SlotState.dropPath
  cases path with
  | none => exact h.moveAlone hi id id rfl
  | some path =>
    obtain ⟨metadata, hlookup, hnone⟩ := h.paths.held i path hi
    have herased : s.releaseReservedAgentPath path =
        { s with agentTree := s.agentTree.erase path.text } := by
      unfold SlotState.releaseReservedAgentPath
      rw [hlookup]
      simp only
      rw [if_pos hnone]
    have hlive := Registry.count_erase (p := AgentMetadata.counted) hlookup
    have hshare : Registry.share AgentMetadata.counted metadata = 0 := by
      apply Registry.share_of_false
      rw [counted_eq, hnone]
      rfl
    have hbalance : s.totalCount = s.openReservations + s.liveAgents + s.releasing + leaked :=
      h.balance
    have hcount : s.liveAgents = Registry.count AgentMetadata.counted s.agentTree := rfl
    have hopen := Registry.count_insert (p := Attempt.isOpen) (a := .dropping) hi
    have hopens : s.openReservations = Registry.count Attempt.isOpen s.attempts := rfl
    have hdropping : Registry.share Attempt.isOpen .dropping = 1 := rfl
    rw [share_open_of_reserved, hdropping] at hopen
    simp only
    rw [herased]
    refine ⟨?_, ?_, h.limit⟩
    · refine h.paths.finish path.text hi id ?_ ?_ ?_ ?_
      · intro other hother
        rw [Option.some.inj hother]
      · intro hother
        cases hother
      · intro other hother
        exact AList.lookup_erase_ne hother
      · intro other hother
        rw [AList.lookup_erase] at hother
        cases hother
    · show s.totalCount = Registry.count Attempt.isOpen (s.attempts.insert i _) +
        Registry.count AgentMetadata.counted (s.agentTree.erase _) + s.releasing + leaked
      omega

/-- The paths after a commit. -/
theorem PathsHeld.commit {path : Option AgentPath} (h : PathsHeld s)
    (hi : s.attempts.lookup i = some (.reserved path)) (threadId : ThreadId)
    (agentNickname : Option Text) :
    PathsHeld (s.commit i ⟨some threadId, path, agentNickname⟩) := by
  let tree := s.agentTree.insert (AgentMetadata.key threadId path)
    ⟨some threadId, path, agentNickname⟩
  have hpaths : PathsHeld ({ s with agentTree := tree }.setAttempt i .ended) := by
    refine h.finish (AgentMetadata.key threadId path) hi id ?_ ?_ ?_ ?_
    · rintro other rfl
      rfl
    · rintro rfl other
      exact AgentMetadata.key_ne_path threadId other
    · intro other hother
      exact AList.lookup_insert_ne hother
    · intro metadata hlookup
      rw [AList.lookup_insert] at hlookup
      obtain rfl := Option.some.inj hlookup
      refine ⟨Option.some_ne_none threadId, ?_⟩
      rintro other rfl
      rfl
  exact ⟨hpaths.keyed, hpaths.placeholders, hpaths.held, hpaths.distinct⟩

/-- What stands under the key of a thread takes up a slot. -/
theorem counted_of_threadKey {threadId : ThreadId} {metadata : AgentMetadata} (h : PathsHeld s)
    (hlookup : s.agentTree.lookup (AgentMetadata.key threadId none) = some metadata) :
    metadata.counted = true := by
  have hpath : metadata.agentPath = none := by
    cases hpath : metadata.agentPath with
    | none => rfl
    | some path =>
      have hkey := h.keyed _ metadata path hlookup hpath
      exact absurd hkey (AgentMetadata.key_ne_path threadId path)
  have hid : metadata.agentId.isSome = true := by
    cases hid : metadata.agentId with
    | some id => rfl
    | none =>
      obtain ⟨j, path, hsome, -⟩ := h.placeholders _ metadata hlookup hid
      rw [hpath] at hsome
      cases hsome
  rw [counted_eq, hpath, hid]
  rfl

/-- **A commit**: a slot leaks where its key is taken. -/
theorem balance_commit {path : Option AgentPath} (h : Sound maxThreads leaked s)
    (hi : s.attempts.lookup i = some (.reserved path)) (threadId : ThreadId)
    (agentNickname : Option Text) :
    (FreshKey s (.commit i threadId agentNickname) →
      Balance leaked (s.commit i ⟨some threadId, path, agentNickname⟩)) ∧
    (¬ FreshKey s (.commit i threadId agentNickname) →
      Balance (leaked + 1) (s.commit i ⟨some threadId, path, agentNickname⟩)) := by
  have hbalance : s.totalCount = s.openReservations + s.liveAgents + s.releasing + leaked :=
    h.balance
  have hcount : s.liveAgents = Registry.count AgentMetadata.counted s.agentTree := rfl
  have hopen := Registry.count_insert (p := Attempt.isOpen) (a := .ended) hi
  have hopens : s.openReservations = Registry.count Attempt.isOpen s.attempts := rfl
  have hended : Registry.share Attempt.isOpen .ended = 0 := rfl
  rw [share_open_of_reserved, hended] at hopen
  have hafter : ∀ n, Balance n (s.commit i ⟨some threadId, path, agentNickname⟩) ↔
      s.totalCount = Registry.count Attempt.isOpen (s.attempts.insert i .ended) +
        Registry.count AgentMetadata.counted
          (s.agentTree.insert (AgentMetadata.key threadId path)
            ⟨some threadId, path, agentNickname⟩) + s.releasing + n :=
    fun n => Iff.rfl
  rw [hafter, hafter]
  cases path with
  | none =>
    have hfresh : FreshKey s (.commit i threadId agentNickname) ↔
        s.agentTree.lookup (AgentMetadata.key threadId none) = none := by
      unfold FreshKey
      simp only [hi]
    have hshare : Registry.share AgentMetadata.counted ⟨some threadId, none, agentNickname⟩ = 1 :=
      rfl
    rw [hfresh]
    cases hlookup : s.agentTree.lookup (AgentMetadata.key threadId none) with
    | none =>
      have hlive := Registry.count_insert_new (p := AgentMetadata.counted)
        (a := ⟨some threadId, none, agentNickname⟩) hlookup
      constructor
      · intro _
        omega
      · intro hno
        exact absurd rfl hno
    | some metadata =>
      have hlive := Registry.count_insert (p := AgentMetadata.counted)
        (a := ⟨some threadId, none, agentNickname⟩) hlookup
      rw [Registry.share_of_true (counted_of_threadKey h.paths hlookup)] at hlive
      constructor
      · intro hno
        cases hno
      · intro _
        omega
  | some path =>
    have hfresh : FreshKey s (.commit i threadId agentNickname) ↔ path.isRoot = false := by
      unfold FreshKey
      simp only [hi]
    obtain ⟨metadata, hlookup, hnone⟩ := h.paths.held i path hi
    have hplaceholder : Registry.share AgentMetadata.counted metadata = 0 := by
      apply Registry.share_of_false
      rw [counted_eq, hnone]
      rfl
    have hlive := Registry.count_insert (p := AgentMetadata.counted)
      (a := ⟨some threadId, some path, agentNickname⟩) hlookup
    have hkey : AgentMetadata.key threadId (some path) = path.text := rfl
    have hcounted : AgentMetadata.counted ⟨some threadId, some path, agentNickname⟩ =
        !path.isRoot := rfl
    rw [hfresh, hkey]
    cases hroot : path.isRoot with
    | false =>
      rw [hroot] at hcounted
      rw [Registry.share_of_true hcounted] at hlive
      constructor
      · intro _
        omega
      · intro hno
        exact absurd rfl hno
    | true =>
      rw [hroot] at hcounted
      rw [Registry.share_of_false hcounted] at hlive
      constructor
      · intro hno
        cases hno
      · intro _
        omega

/-- **One access** keeps what is sound; only a commit under a key that is taken leaks a slot. -/
theorem sound_step (h : Sound maxThreads leaked s) (hstep : step maxThreads s a = some s') :
    (FreshKey s a → Sound maxThreads leaked s') ∧
      (¬ FreshKey s a → Sound maxThreads (leaked + 1) s') := by
  -- what is no commit finds no key taken
  have hother : FreshKey s a → Sound maxThreads leaked s' →
      (FreshKey s a → Sound maxThreads leaked s') ∧
        (¬ FreshKey s a → Sound maxThreads (leaked + 1) s') :=
    fun hfresh hsound => ⟨fun _ => hsound, fun hno => absurd hfresh hno⟩
  cases a with
  | reserve i =>
    simp only [step] at hstep
    split at hstep
    · next hi =>
      obtain rfl := Option.some.inj hstep
      exact hother trivial (sound_reserve h hi)
    · cases hstep
  | exchange i spurious =>
    simp only [step] at hstep
    split at hstep
    · next current max hi =>
      obtain rfl := Option.some.inj hstep
      exact hother trivial (sound_exchange h hi)
    · cases hstep
  | reserveAgentPath i path =>
    simp only [step] at hstep
    split at hstep
    · next hi =>
      obtain rfl := Option.some.inj hstep
      exact hother trivial (sound_reserveAgentPath h hi)
    · cases hstep
  | commit i threadId agentNickname =>
    simp only [step] at hstep
    split at hstep
    · next path hi =>
      obtain rfl := Option.some.inj hstep
      have hbalance := balance_commit h hi threadId agentNickname
      have hpaths := h.paths.commit hi threadId agentNickname
      exact ⟨fun hfresh => ⟨hpaths, hbalance.1 hfresh, h.limit⟩,
        fun hno => ⟨hpaths, hbalance.2 hno, h.limit⟩⟩
    · cases hstep
  | dropPath i =>
    simp only [step] at hstep
    split at hstep
    · next path hi =>
      obtain rfl := Option.some.inj hstep
      exact hother trivial (sound_dropPath h hi)
    · cases hstep
  | dropSlot i =>
    simp only [step] at hstep
    split at hstep
    · next hi =>
      obtain rfl := Option.some.inj hstep
      exact hother trivial (sound_dropSlot h hi)
    · cases hstep
  | release threadId key =>
    cases key with
    | none =>
      simp only [step] at hstep
      split at hstep
      · obtain rfl := Option.some.inj hstep
        exact hother trivial h
      · cases hstep
    | some key =>
      simp only [step] at hstep
      split at hstep
      · next metadata hlookup =>
        split at hstep
        · next hid =>
          obtain rfl := Option.some.inj hstep
          exact hother trivial (sound_removeAgent h hlookup hid)
        · cases hstep
      · cases hstep
  | finishRelease =>
    simp only [step] at hstep
    split at hstep
    · cases hstep
    · next hpos =>
      obtain rfl := Option.some.inj hstep
      exact hother trivial (sound_finishRelease h hpos)
  | registerRootThread threadId =>
    obtain rfl := Option.some.inj hstep
    exact hother trivial (sound_registerRootThread h threadId)

/-! ### Whole runs -/

/-- A commit that finds its key taken is possible. -/
theorem step_of_not_fresh (h : ¬ FreshKey s a) : ∃ s', step maxThreads s a = some s' := by
  unfold FreshKey at h
  split at h
  · next i threadId agentNickname =>
    split at h
    · next hi =>
      exact ⟨s.commit i ⟨some threadId, none, agentNickname⟩, by simp only [step, hi]⟩
    · next path hi =>
      exact ⟨s.commit i ⟨some threadId, some path, agentNickname⟩, by simp only [step, hi]⟩
    · exact absurd trivial h
  · exact absurd trivial h

/-- From a state on: the slots are accounted for at every point of a run exactly if no commit
    finds its key taken. -/
theorem accounted_iff {actions : List Action} (h : Sound maxThreads 0 s) :
    (∀ front back s', actions = front ++ back → (machine maxThreads).run s front = some s' →
      Accounted maxThreads s') ↔ (machine maxThreads).Guarded FreshKey s actions := by
  induction actions generalizing s with
  | nil =>
    constructor
    · intro _
      trivial
    · intro _ front back s' hactions hrun
      obtain ⟨rfl, -⟩ := List.append_eq_nil_iff.mp hactions.symm
      obtain rfl := Option.some.inj hrun
      exact h.accounted
  | cons a actions ih =>
    constructor
    · intro hall
      have hfresh : FreshKey s a := by
        by_contra hno
        obtain ⟨s', hstep⟩ : ∃ s', step maxThreads s a = some s' := step_of_not_fresh hno
        have hrun : (machine maxThreads).run s [a] = some s' := by
          show (step maxThreads s a).bind some = some s'
          rw [hstep]
          rfl
        have hleaked : s'.totalCount = s'.openReservations + s'.liveAgents + s'.releasing + 1 :=
          ((sound_step h hstep).2 hno).balance
        have haccounted := (hall [a] actions s' rfl hrun).balance
        omega
      refine ⟨hfresh, ?_⟩
      intro s' hstep
      refine (ih ((sound_step h hstep).1 hfresh)).mp ?_
      intro front back s'' hactions hrun
      refine hall (a :: front) back s'' ?_ ?_
      · rw [hactions, List.cons_append]
      · show ((machine maxThreads).step s a).bind _ = _
        rw [hstep]
        exact hrun
    · rintro ⟨hfresh, hrest⟩ front back s' hactions hrun
      cases front with
      | nil =>
        obtain rfl := Option.some.inj hrun
        exact h.accounted
      | cons first front =>
        obtain ⟨rfl, hactions'⟩ := List.cons.inj hactions
        obtain ⟨next, hstep, hrun'⟩ := Machine.run_cons hrun
        have hsound := (sound_step h hstep).1 hfresh
        exact (ih hsound).mpr (hrest next hstep) front back s' hactions' hrun'

/-- **In every run** the limit is kept, no slot is given back that is not counted, and no
    placeholder outlives its reservation, also where slots have leaked. -/
theorem bounded_run {actions : List Action}
    (hrun : (machine maxThreads).run .initial actions = some s) :
    (∀ max, maxThreads = some max → s.totalCount ≤ max) ∧
      (0 < s.openReservations + s.releasing → 0 < s.totalCount) ∧ PlaceholdersOwned s := by
  have hinvariant : ∃ leaked, Sound maxThreads leaked s := by
    refine Machine.run_invariant (P := fun _ _ => True)
      (I := fun s => ∃ leaked, Sound maxThreads leaked s) ?_ ⟨0, .initial maxThreads⟩
      (Machine.guarded_of_forall (fun _ _ _ => trivial) _) hrun
    rintro s a s' ⟨leaked, h⟩ - hstep
    by_cases hfresh : FreshKey s a
    · exact ⟨leaked, (sound_step h hstep).1 hfresh⟩
    · exact ⟨leaked + 1, (sound_step h hstep).2 hfresh⟩
  obtain ⟨leaked, h⟩ := hinvariant
  have hbalance : s.totalCount = s.openReservations + s.liveAgents + s.releasing + leaked :=
    h.balance
  refine ⟨h.limit, ?_, h.paths.owned⟩
  intro hpos
  omega

/-- **The slots are accounted for** at every point of a run, whatever is interleaved, exactly if
    every commit registers a key of its own. -/
theorem slots_accounted_iff (maxThreads : Option Nat) (actions : List Action) :
    (∀ front back s, actions = front ++ back →
      (machine maxThreads).run .initial front = some s → Accounted maxThreads s) ↔
        (machine maxThreads).Guarded FreshKey .initial actions :=
  accounted_iff (.initial maxThreads)

/-- A thread is resumed twice, with a limit of two agents, and released. -/
def resumedTwice : List Action :=
  [.reserve 0, .exchange 0 false, .commit 0 ⟨['t']⟩ none, .reserve 1, .exchange 1 false,
    .commit 1 ⟨['t']⟩ none, .release ⟨['t']⟩ (some "thread:t".toList), .finishRelease]

/-- No reservation is open then, no agent is left and no release is under way, but one slot stays
    taken. -/
theorem resumedTwice_leaks :
    ((machine (some 2)).run .initial resumedTwice).map
      (fun s => (s.totalCount, s.openReservations, s.liveAgents, s.releasing)) =
        some (1, 0, 0, 0) := by
  decide +kernel

end CodexMonitor.AgentControl
