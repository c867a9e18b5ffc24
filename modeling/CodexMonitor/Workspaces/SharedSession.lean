import CodexMonitor.Workspaces.Sessions

namespace CodexMonitor.Workspaces

/-!
# Workspaces — one session for all workspaces

Every entry of the sessions map is to refer to the same session, none to one that the app has
killed, and no child may be left running without an entry.  The operations that spawn exclude
each other, so a session in the hands of one of them is safe from all but the killing, which
takes no lock.

* `Stage.candidate?`, `Stage.owns?` — the session an operation has taken from the map, and
  the one it alone is responsible for.
* `Shared` — the invariant: what the entries have in common, what each running operation may
  rely on, and that every living child is referenced or has exactly one owner.
* `Careful` — the steps that keep it: a session taken from the map is written back only while
  an entry still refers to it.
-/

/-! ### What an operation knows -/

/-- The stages inside the spawn lock. -/
def Stage.locked : Stage → Bool
  | .waiting | .removing | .unregistering _ _ | .killing _ => false
  | _ => true

/-- The session taken from the map. -/
def Stage.candidate? : Stage → Option SessionId
  | .checkAny s | .persisting s false | .inserting s false | .respawning s
  | .replacing s _ => some s
  | _ => none

/-- The stages that were reached with an empty map. -/
def Stage.foundNone : Stage → Bool
  | .spawning | .persisting _ true | .inserting _ true | .discarding _ => true
  | _ => false

/-- The session that only this operation can still reach: it inserts or kills it. -/
def Stage.owns? : Stage → Option SessionId
  | .persisting s true | .inserting s true | .discarding s | .replacing _ s | .retiring s
  | .unregistering s false | .killing s => some s
  | _ => none

/-- The session that was found dead. -/
def Stage.dead? : Stage → Option SessionId
  | .dropEntry s | .dropAny s => some s
  | _ => none

/-- Spawned, and not killed by the app. -/
def Child.notKilled : Child → Bool
  | .alive | .exited => true
  | _ => false

section Views

variable (values : List SessionId) (child : SessionId → Child)

/-- What an operation at a stage may rely on. -/
structure Knows (stage : Stage) : Prop where
  candidate : ∀ s, stage.candidate? = some s → ∀ s' ∈ values, s' = s
  foundNone : stage.foundNone → values = []
  owned : ∀ s, stage.owns? = some s → s ∉ values ∧ (child s).notKilled
  dead : ∀ s, stage.dead? = some s → child s ≠ .alive

/-- **The invariant**, over the sessions referred to, the children, the lock and the stages
    of the running operations. -/
structure Shared (lock : Option OpId) (stage : OpId → Option Stage) : Prop where
  agree : ∀ s ∈ values, ∀ s' ∈ values, s = s'
  notKilled : ∀ s ∈ values, (child s).notKilled
  locked : ∀ id st, stage id = some st → st.locked → lock = some id
  knows : ∀ id st, stage id = some st → Knows values child st
  unique : ∀ id id' st st' s, stage id = some st → stage id' = some st' →
    st.owns? = some s → st'.owns? = some s → id = id'
  alive : ∀ s, child s = .alive → s ∈ values ∨ ∃ id st, stage id = some st ∧ st.owns? = some s

end Views

variable {values values' : List SessionId} {child child' : SessionId → Child}
  {lock lock' : Option OpId} {stage : OpId → Option Stage} {id : OpId} {st st' : Stage}
  {s : SessionId}

/-- Knowledge outlives entries that go, and changes of children that are not its own. -/
theorem Knows.mono (h : Knows values child st) (hSub : ∀ s ∈ values', s ∈ values)
    (hOwned : ∀ s, st.owns? = some s → (child s).notKilled → (child' s).notKilled)
    (hDead : ∀ s, st.dead? = some s → child s ≠ .alive → child' s ≠ .alive) :
    Knows values' child' st where
  candidate s hs s' hs' := h.candidate s hs s' (hSub s' hs')
  foundNone hNone := List.eq_nil_iff_forall_not_mem.mpr fun s hs => by
    have := hSub s hs
    rw [h.foundNone hNone] at this
    cases this
  owned s hs := ⟨fun hMem => (h.owned s hs).1 (hSub s hMem), hOwned s hs (h.owned s hs).2⟩
  dead s hs := hDead s hs (h.dead s hs)

theorem Stage.of_not_locked (h : st.locked = false) :
    st.candidate? = none ∧ st.foundNone = false ∧ st.dead? = none := by
  cases st <;> first
    | exact ⟨rfl, rfl, rfl⟩
    | cases h

/-- A stage that relies on nothing but what it owns. -/
theorem Knows.of_owned (hCandidate : st.candidate? = none) (hFound : st.foundNone = false)
    (hDead : st.dead? = none)
    (hOwned : ∀ s, st.owns? = some s → s ∉ values ∧ (child s).notKilled) :
    Knows values child st := by
  refine ⟨fun s hs => ?_, fun h => ?_, hOwned, fun s hs => ?_⟩
  · rw [hCandidate] at hs
    cases hs
  · rw [hFound] at h
    cases h
  · rw [hDead] at hs
    cases hs

/-- Outside the spawn lock only ownership matters. -/
theorem Knows.of_not_locked (h : st.locked = false)
    (hOwned : ∀ s, st.owns? = some s → s ∉ values ∧ (child s).notKilled) :
    Knows values child st := by
  obtain ⟨hCandidate, hFound, hDead⟩ := Stage.of_not_locked h
  exact .of_owned hCandidate hFound hDead hOwned

/-! ### What the steps keep -/

namespace Shared

/-- While one operation has the lock, the others are outside. -/
theorem not_locked (h : Shared values child lock stage) (hLock : lock = some id)
    {id' : OpId} (hNe : id' ≠ id) (hSt : stage id' = some st) : st.locked = false := by
  by_contra hLocked
  rw [Bool.not_eq_false] at hLocked
  exact hNe (Option.some.inj ((h.locked id' st hSt hLocked).symm.trans hLock))

/-- **A step of one operation.**  The new map and children suit the operation at its new
    stage and all the others, nobody else owns what it owns now, and every living child is
    referenced, its own or another's. -/
theorem act (h : Shared values child lock stage) (new : Option Stage)
    (agree : ∀ s ∈ values', ∀ s' ∈ values', s = s')
    (notKilled : ∀ s ∈ values', (child' s).notKilled)
    (hLock : ∀ st, new = some st → st.locked → lock' = some id)
    (hLocks : ∀ id', id' ≠ id → lock = some id' → lock' = some id')
    (hKnows : ∀ st, new = some st → Knows values' child' st)
    (hOthers : ∀ id' st, id' ≠ id → stage id' = some st → Knows values' child' st)
    (hUnique : ∀ id' st s, id' ≠ id → stage id' = some st → st.owns? = some s →
      new.bind Stage.owns? ≠ some s)
    (hAlive : ∀ s, child' s = .alive → s ∈ values' ∨ new.bind Stage.owns? = some s ∨
      ∃ id' st, id' ≠ id ∧ stage id' = some st ∧ st.owns? = some s) :
    Shared values' child' lock' (Function.update stage id new) where
  agree := agree
  notKilled := notKilled
  locked id' st hSt hLocked := by
    by_cases hId : id' = id
    · subst hId
      rw [Function.update_self] at hSt
      exact hLock st hSt hLocked
    · rw [Function.update_of_ne hId] at hSt
      exact hLocks id' hId (h.locked id' st hSt hLocked)
  knows id' st hSt := by
    by_cases hId : id' = id
    · subst hId
      rw [Function.update_self] at hSt
      exact hKnows st hSt
    · rw [Function.update_of_ne hId] at hSt
      exact hOthers id' st hId hSt
  unique id₁ id₂ st₁ st₂ s h₁ h₂ hs₁ hs₂ := by
    by_cases hId₁ : id₁ = id
    · by_cases hId₂ : id₂ = id
      · exact hId₁.trans hId₂.symm
      · subst hId₁
        rw [Function.update_self] at h₁
        rw [Function.update_of_ne hId₂] at h₂
        exact absurd (h₁ ▸ hs₁) (hUnique id₂ st₂ s hId₂ h₂ hs₂)
    · by_cases hId₂ : id₂ = id
      · subst hId₂
        rw [Function.update_self] at h₂
        rw [Function.update_of_ne hId₁] at h₁
        exact absurd (h₂ ▸ hs₂) (hUnique id₁ st₁ s hId₁ h₁ hs₁)
      · rw [Function.update_of_ne hId₁] at h₁
        rw [Function.update_of_ne hId₂] at h₂
        exact h.unique id₁ id₂ st₁ st₂ s h₁ h₂ hs₁ hs₂
  alive s hs := by
    -- a living child is in the map, the operation's own, or still owned by another
    rcases hAlive s hs with hMem | hOwn | ⟨id', st, hId, hSt, hOwn⟩
    · exact Or.inl hMem
    · obtain ⟨st, hSt, hOwn⟩ := Option.bind_eq_some_iff.mp hOwn
      exact Or.inr ⟨id, st, by rw [Function.update_self, hSt], hOwn⟩
    · exact Or.inr ⟨id', st, by rw [Function.update_of_ne hId, hSt], hOwn⟩

/-- The owner of a session before a step of `id`: that operation or another one. -/
theorem owner_cases (h : ∃ id' st, stage id' = some st ∧ st.owns? = some s) (id : OpId) :
    (stage id).bind Stage.owns? = some s ∨
      ∃ id' st, id' ≠ id ∧ stage id' = some st ∧ st.owns? = some s := by
  obtain ⟨id', st, hSt, hOwn⟩ := h
  by_cases hId : id' = id
  · subst hId
    exact Or.inl (by rw [hSt, Option.bind_some, hOwn])
  · exact Or.inr ⟨id', st, hId, hSt, hOwn⟩

/-- A step that changes neither the map nor a child, and not what the operation owns. -/
theorem move (h : Shared values child lock stage) (new : Option Stage)
    (hLock : ∀ st, new = some st → st.locked → lock' = some id)
    (hLocks : ∀ id', id' ≠ id → lock = some id' → lock' = some id')
    (hKnows : ∀ st, new = some st → Knows values child st)
    (hOwns : new.bind Stage.owns? = (stage id).bind Stage.owns?) :
    Shared values child lock' (Function.update stage id new) := by
  refine h.act new h.agree h.notKilled hLock hLocks hKnows (fun id' st _ => h.knows id' st) ?_ ?_
  · intro id' st s hId hSt hOwn hNew
    rw [hOwns] at hNew
    obtain ⟨st', hSt', hOwn'⟩ := Option.bind_eq_some_iff.mp hNew
    exact hId (h.unique id' id st st' s hSt hSt' hOwn hOwn')
  · intro s hs
    rw [hOwns]
    exact (h.alive s hs).imp_right fun hOwner => owner_cases hOwner id

/-- Only which sessions are referred to matters. -/
theorem congr (h : Shared values child lock stage) (hMem : ∀ s, s ∈ values' ↔ s ∈ values) :
    Shared values' child lock stage where
  agree s hs s' hs' := h.agree s ((hMem s).mp hs) s' ((hMem s').mp hs')
  notKilled s hs := h.notKilled s ((hMem s).mp hs)
  locked := h.locked
  knows id st hSt := (h.knows id st hSt).mono (fun s => (hMem s).mp)
    (fun _ _ hs => hs) (fun _ _ hs => hs)
  unique := h.unique
  alive s hs := (h.alive s hs).imp_left (hMem s).mpr

/-- Dropping the references to a dead session. -/
theorem drop (h : Shared values child lock stage) (hDead : child s ≠ .alive) :
    Shared (values.filter (· ≠ s)) child lock stage where
  agree s₁ h₁ s₂ h₂ := h.agree s₁ (List.mem_of_mem_filter h₁) s₂ (List.mem_of_mem_filter h₂)
  notKilled s hs := h.notKilled s (List.mem_of_mem_filter hs)
  locked := h.locked
  knows id st hSt := (h.knows id st hSt).mono (fun _ => List.mem_of_mem_filter)
    (fun _ _ hs => hs) (fun _ _ hs => hs)
  unique := h.unique
  alive s' hs' := by
    refine (h.alive s' hs').imp_left fun hMem => List.mem_filter.mpr ⟨hMem, ?_⟩
    rw [decide_eq_true_iff]
    rintro rfl
    exact hDead hs'

/-- A child exits. -/
theorem exit (h : Shared values child lock stage) (hAlive : child s = .alive) :
    Shared values (Function.update child s .exited) lock stage := by
  have hNotKilled : ∀ s', (child s').notKilled →
      (Function.update child s Child.exited s').notKilled := by
    intro s' hs'
    by_cases hEq : s' = s
    · subst hEq
      rw [Function.update_self]
      rfl
    · rwa [Function.update_of_ne hEq]
  have hDead : ∀ s', child s' ≠ .alive → Function.update child s Child.exited s' ≠ .alive := by
    intro s' hs'
    by_cases hEq : s' = s
    · subst hEq
      exact absurd hAlive hs'
    · rwa [Function.update_of_ne hEq]
  refine ⟨h.agree, fun s' hs' => hNotKilled s' (h.notKilled s' hs'), h.locked, fun id st hSt =>
    (h.knows id st hSt).mono (fun _ hs' => hs') (fun s' _ => hNotKilled s')
      (fun s' _ => hDead s'), h.unique, fun s' hs' => h.alive s' ?_⟩
  -- a child that is alive after an exit was alive before
  by_contra hNot
  exact hDead s' hNot hs'

/-- A child is spawned, for an operation that owned none and will own it. -/
theorem spawn (h : Shared values child lock stage) (hFresh : child s = .unspawned)
    (hSt : stage id = some st) (hNone : st.owns? = none) (hLock : lock = some id)
    (hOwns : st'.owns? = some s) (hDead : st'.dead? = none)
    (hCandidate : ∀ s, st'.candidate? = some s → ∀ s' ∈ values, s' = s)
    (hFound : st'.foundNone → values = []) :
    Shared values (Function.update child s .alive) lock
      (Function.update stage id (some st')) := by
  -- nothing known so far is about the new child
  have hNe : ∀ s', (child s').notKilled → s' ≠ s := by
    rintro s' hs' rfl
    rw [hFresh] at hs'
    cases hs'
  have hOld : ∀ s', (child s').notKilled →
      (Function.update child s Child.alive s').notKilled := fun s' hs' => by
    rwa [Function.update_of_ne (hNe s' hs')]
  refine h.act (some st') h.agree (fun s' hs' => hOld s' (h.notKilled s' hs')) ?_ ?_ ?_ ?_ ?_ ?_
  · exact fun _ _ _ => hLock
  · exact fun _ _ hLock' => hLock'
  · intro st'' hEq
    obtain rfl := Option.some.inj hEq
    refine ⟨hCandidate, hFound, fun s' hs' => ?_, fun s' hs' => ?_⟩
    · obtain rfl := Option.some.inj (hOwns.symm.trans hs')
      refine ⟨fun hMem => hNe s (h.notKilled s hMem) rfl, ?_⟩
      rw [Function.update_self]
      rfl
    · rw [hDead] at hs'
      cases hs'
  · intro id' st'' hId hSt''
    refine Knows.of_not_locked (h.not_locked hLock hId hSt'') fun s' hs' => ?_
    obtain ⟨hNotMem, hNotKilled⟩ := (h.knows id' st'' hSt'').owned s' hs'
    exact ⟨hNotMem, hOld s' hNotKilled⟩
  · intro id' st'' s' _ hSt'' hOwn hNew
    rw [Option.bind_some, hOwns] at hNew
    exact hNe s' ((h.knows id' st'' hSt'').owned s' hOwn).2 (Option.some.inj hNew).symm
  · intro s' hs'
    by_cases hEq : s' = s
    · subst hEq
      exact Or.inr (Or.inl (by rw [Option.bind_some, hOwns]))
    · rw [Function.update_of_ne hEq] at hs'
      refine (h.alive s' hs').imp_right fun hOwner => Or.inr ?_
      refine (owner_cases hOwner id).resolve_left fun hOwn => ?_
      rw [hSt, Option.bind_some, hNone] at hOwn
      cases hOwn


/-- The holder of the lock makes its own session the one that is referred to. -/
theorem publish (h : Shared values child lock stage) (hSt : stage id = some st)
    (hLock : lock = some id) (hOwns : st.owns? = some s) (hMem : ∀ s', s' ∈ values' ↔ s' = s)
    (new : Option Stage) (hNewLock : ∀ st, new = some st → st.locked → lock' = some id)
    (hLocks : ∀ id', id' ≠ id → lock = some id' → lock' = some id')
    (hKnows : ∀ st, new = some st → Knows values' child st)
    (hNewOwns : ∀ s', new.bind Stage.owns? = some s' → s' ∈ values)
    (hOld : ∀ s' ∈ values, child s' = .alive → new.bind Stage.owns? = some s') :
    Shared values' child lock' (Function.update stage id new) := by
  -- the others own sessions that are neither this one nor referred to
  have hOthers : ∀ id' st' s', id' ≠ id → stage id' = some st' → st'.owns? = some s' →
      s' ≠ s ∧ s' ∉ values ∧ (child s').notKilled := by
    intro id' st' s' hId hSt' hOwn
    refine ⟨?_, (h.knows id' st' hSt').owned s' hOwn⟩
    rintro rfl
    exact hId (h.unique id' id st' st s' hSt' hSt hOwn hOwns)
  refine h.act new ?_ ?_ hNewLock hLocks hKnows ?_ ?_ ?_
  · intro s₁ h₁ s₂ h₂
    rw [(hMem s₁).mp h₁, (hMem s₂).mp h₂]
  · intro s' hs'
    rw [(hMem s').mp hs']
    exact ((h.knows id st hSt).owned s hOwns).2
  · intro id' st' hId hSt'
    refine Knows.of_not_locked (h.not_locked hLock hId hSt') fun s' hs' => ?_
    obtain ⟨hNe, _, hNotKilled⟩ := hOthers id' st' s' hId hSt' hs'
    exact ⟨fun hs'' => hNe ((hMem s').mp hs''), hNotKilled⟩
  · intro id' st' s' hId hSt' hOwn hNew
    exact (hOthers id' st' s' hId hSt' hOwn).2.1 (hNewOwns s' hNew)
  · intro s' hs'
    rcases h.alive s' hs' with hIn | hOwner
    · exact Or.inr (Or.inl (hOld s' hIn hs'))
    · rcases owner_cases hOwner id with hOwn | hOther
      · rw [hSt, Option.bind_some, hOwns] at hOwn
        exact Or.inl ((hMem s').mpr (Option.some.inj hOwn).symm)
      · exact Or.inr (Or.inr hOther)

/-- An entry is removed; if it was the last, the operation owns the session. -/
theorem remove (h : Shared values child lock stage) (hSt : stage id = some .removing)
    (hMem : s ∈ values) (hSub : ∀ s' ∈ values', s' ∈ values) :
    Shared values' child lock
      (Function.update stage id (some (.unregistering s (values'.contains s)))) := by
  -- ownership passes to the operation just when no entry is left
  have hNew : ∀ s', (some (Stage.unregistering s (values'.contains s))).bind Stage.owns? = some s' ↔
      s' = s ∧ s ∉ values' := by
    intro s'
    cases hContains : values'.contains s with
    | true => simp [Stage.owns?, List.contains_iff_mem.mp hContains]
    | false =>
        have hNot : s ∉ values' := fun hIn => by
          rw [List.contains_iff_mem.mpr hIn] at hContains
          cases hContains
        simp [Stage.owns?, hNot, eq_comm]
  refine h.act _ (fun s₁ h₁ s₂ h₂ => h.agree s₁ (hSub s₁ h₁) s₂ (hSub s₂ h₂))
    (fun s' hs' => h.notKilled s' (hSub s' hs')) ?_ (fun _ _ hLock => hLock) ?_ ?_ ?_ ?_
  · intro st hEq hLocked
    cases hEq
    cases hLocked
  · intro st hEq
    obtain rfl := Option.some.inj hEq
    refine Knows.of_not_locked rfl fun s' hs' => ?_
    obtain ⟨rfl, hNot⟩ := (hNew s').mp hs'
    exact ⟨hNot, h.notKilled s' hMem⟩
  · intro id' st _ hSt'
    exact (h.knows id' st hSt').mono hSub (fun _ _ hs => hs) (fun _ _ hs => hs)
  · intro id' st s' _ hSt' hOwn hOwnNew
    obtain ⟨rfl, _⟩ := (hNew s').mp hOwnNew
    exact ((h.knows id' st hSt').owned s' hOwn).1 hMem
  · intro s' hs'
    rcases h.alive s' hs' with hIn | hOwner
    · obtain rfl := h.agree s' hIn s hMem
      by_cases hIn' : s' ∈ values'
      · exact Or.inl hIn'
      · exact Or.inr (Or.inl ((hNew s').mpr ⟨rfl, hIn'⟩))
    · refine Or.inr (Or.inr ((owner_cases hOwner id).resolve_left fun hOwn => ?_))
      rw [hSt] at hOwn
      cases hOwn

/-- The owner of a session kills it and returns. -/
theorem kill (h : Shared values child lock stage) (hSt : stage id = some st)
    (hOwns : st.owns? = some s) (hLocks : ∀ id', id' ≠ id → lock = some id' → lock' = some id')
    (hKilled : child' s ≠ .alive) (hSame : ∀ s', s' ≠ s → child' s' = child s') :
    Shared values child' lock' (Function.update stage id none) := by
  -- the session is in no entry and nobody else's, so its end concerns nobody
  have hNotMem := ((h.knows id st hSt).owned s hOwns).1
  have hOthers : ∀ id' st' s', id' ≠ id → stage id' = some st' → st'.owns? = some s' →
      s' ≠ s := by
    rintro id' st' s' hId hSt' hOwn rfl
    exact hId (h.unique id' id st' st s' hSt' hSt hOwn hOwns)
  have hAlive : ∀ s', child' s' = .alive → s' ≠ s ∧ child s' = .alive := by
    intro s' hs'
    have hNe : s' ≠ s := by
      rintro rfl
      exact hKilled hs'
    exact ⟨hNe, (hSame s' hNe).symm.trans hs'⟩
  refine h.act none h.agree ?_ (fun _ hEq => nomatch hEq) hLocks (fun _ hEq => nomatch hEq)
    ?_ (fun _ _ _ _ _ _ hEq => nomatch hEq) ?_
  · intro s' hs'
    rw [hSame s' fun hEq => hNotMem (hEq ▸ hs')]
    exact h.notKilled s' hs'
  · intro id' st' hId hSt'
    refine (h.knows id' st' hSt').mono (fun _ hs' => hs') (fun s' hOwn hs' => ?_)
      (fun s' _ hs' hs'' => hs' (hAlive s' hs'').2)
    rwa [hSame s' (hOthers id' st' s' hId hSt' hOwn)]
  · intro s' hs'
    obtain ⟨hNe, hs''⟩ := hAlive s' hs'
    refine (h.alive s' hs'').imp_right fun hOwner =>
      Or.inr ((owner_cases hOwner id).resolve_left fun hOwn => ?_)
    rw [hSt, Option.bind_some, hOwns] at hOwn
    exact hNe (Option.some.inj hOwn).symm

end Shared

/-! ### The steps of the operations -/

/-- The stage of an operation. -/
def Sys.stageOf (sys : Sys) (id : OpId) : Option Stage := (sys.ops id).map Prod.snd

/-- The invariant of a state. -/
def SharedIn (sys : Sys) : Prop := Shared sys.values sys.child sys.lock sys.stageOf

variable {sys sys' : Sys} {op : Op} {outcome : Outcome}

theorem stageOf_goto (sys : Sys) (id : OpId) (op : Op) (st : Stage) :
    (sys.goto id op st).stageOf = Function.update sys.stageOf id (some st) := by
  funext id'
  by_cases hId : id' = id
  · subst hId
    simp [Sys.stageOf, Sys.goto]
  · simp [Sys.stageOf, Sys.goto, hId]

theorem stageOf_finish (sys : Sys) (id : OpId) :
    (sys.finish id).stageOf = Function.update sys.stageOf id none := by
  funext id'
  by_cases hId : id' = id
  · subst hId
    simp [Sys.stageOf, Sys.finish]
  · simp [Sys.stageOf, Sys.finish, hId]

/-- Returning takes the lock from nobody else. -/
theorem lock_finish (sys : Sys) {id' : OpId} (hNe : id' ≠ id) (h : sys.lock = some id') :
    (sys.finish id).lock = some id' := by
  have hLock : sys.lock ≠ some id := fun hEq => hNe (Option.some.inj (h.symm.trans hEq))
  rw [Sys.finish, if_neg hLock, h]

/-- A stage that relies on nothing. -/
theorem Knows.of_none (hCandidate : st.candidate? = none) (hFound : st.foundNone = false)
    (hOwns : st.owns? = none) (hDead : st.dead? = none) : Knows values child st := by
  refine .of_owned hCandidate hFound hDead fun s hs => ?_
  rw [hOwns] at hs
  cases hs

namespace SharedIn

theorem goto (h : SharedIn sys) (hSt : sys.stageOf id = some st) (hLock : st'.locked → st.locked)
    (hKnows : Knows sys.values sys.child st') (hOwns : st'.owns? = st.owns?) :
    SharedIn (sys.goto id op st') := by
  rw [SharedIn, stageOf_goto]
  refine Shared.move h (some st') ?_ (fun _ _ hEq => hEq) ?_ ?_
  · rintro _ ⟨rfl⟩ hLocked
    exact h.locked id st hSt (hLock hLocked)
  · rintro _ ⟨rfl⟩
    exact hKnows
  · rw [hSt, Option.bind_some, Option.bind_some, hOwns]

theorem finish (h : SharedIn sys) (hSt : sys.stageOf id = some st) (hOwns : st.owns? = none) :
    SharedIn (sys.finish id) := by
  rw [SharedIn, stageOf_finish]
  refine Shared.move h none (fun _ hEq => nomatch hEq) (fun id' hNe => lock_finish sys hNe)
    (fun _ hEq => nomatch hEq) ?_
  rw [hSt, Option.bind_some, hOwns]
  rfl

/-- Dropping a session found dead. -/
theorem dropReferences (h : SharedIn sys) (hDead : sys.child s ≠ .alive) :
    SharedIn (sys.removeSessionReferences s) := by
  have hValues : (sys.removeSessionReferences s).values = sys.values.filter (· ≠ s) := by
    rw [Sys.values, Sys.values, List.filter_map]
    rfl
  rw [SharedIn, hValues]
  exact Shared.drop h hDead

/-- The owner of a session kills it and returns. -/
theorem killChild (h : SharedIn sys) (hSt : sys.stageOf id = some st) (hOwns : st.owns? = some s) :
    SharedIn ((sys.killChild s).finish id) := by
  have hFields : (sys.killChild s).values = sys.values ∧ (sys.killChild s).stageOf = sys.stageOf ∧
      (sys.killChild s).lock = sys.lock := by
    unfold Sys.killChild
    split <;> exact ⟨rfl, rfl, rfl⟩
  have hKilled : (sys.killChild s).child s ≠ .alive := by
    unfold Sys.killChild
    split
    · simp
    · next hDead => simpa [Sys.isAlive] using hDead
  have hSame : ∀ s', s' ≠ s → (sys.killChild s).child s' = sys.child s' := by
    intro s' hNe
    unfold Sys.killChild
    split
    · exact Function.update_of_ne hNe _ _
    · rfl
  have hValues : ((sys.killChild s).finish id).values = sys.values := hFields.1
  rw [SharedIn, stageOf_finish, hFields.2.1, hValues]
  exact Shared.kill h hSt hOwns
    (fun id' hNe hLock => lock_finish _ hNe (hFields.2.2.trans hLock)) hKilled hSame

/-- A new child, owned by the operation that spawned it. -/
theorem spawn (h : SharedIn sys) (hSt : sys.stageOf id = some st) (hLocked : st.locked)
    (hNone : st.owns? = none) (hFresh : sys.child s = .unspawned) (args : Option Text)
    (hOwns : st'.owns? = some s) (hDead : st'.dead? = none)
    (hCandidate : ∀ s, st'.candidate? = some s → st.candidate? = some s)
    (hFound : st'.foundNone → st.foundNone) :
    SharedIn ((sys.spawn s args).goto id op st') := by
  rw [SharedIn, stageOf_goto]
  have hKnows := h.knows id st hSt
  exact Shared.spawn h hFresh hSt hNone (h.locked id st hSt hLocked) hOwns hDead
    (fun s' hs' => hKnows.candidate s' (hCandidate s' hs')) fun hNew =>
      hKnows.foundNone (hFound hNew)

/-- Inserting an entry for a session that is still referred to. -/
theorem insertReused (h : SharedIn sys) (hSt : sys.stageOf id = some (.inserting s false))
    (hMem : s ∈ sys.values) : SharedIn ((sys.insert op.workspaceId s).finish id) := by
  have hAll := (h.knows id _ hSt).candidate s rfl
  -- all entries refer to this session, so the new one changes no reference
  have hInserted : SharedIn (sys.insert op.workspaceId s) := by
    refine Shared.congr h fun s' => ?_
    simp only [Sys.values, Sys.insert, List.map_cons, List.mem_cons]
    refine ⟨?_, fun hIn => Or.inl (hAll s' hIn)⟩
    rintro (rfl | hIn)
    · exact hMem
    · obtain ⟨e, he, rfl⟩ := List.mem_map.mp hIn
      exact List.mem_map_of_mem (List.mem_of_mem_filter he)
  exact hInserted.finish hSt rfl

/-- Inserting the first entry, for a session just spawned. -/
theorem insertFresh (h : SharedIn sys) (hSt : sys.stageOf id = some (.inserting s true)) :
    SharedIn ((sys.insert op.workspaceId s).finish id) := by
  have hEmpty : sys.sessions = [] := List.map_eq_nil_iff.mp ((h.knows id _ hSt).foundNone rfl)
  rw [SharedIn, stageOf_finish]
  refine Shared.publish h hSt (h.locked id _ hSt rfl) rfl (fun s' => ?_) none
    (fun _ hEq => nomatch hEq) (fun id' hNe => lock_finish (sys.insert _ _) hNe)
    (fun _ hEq => nomatch hEq) (fun _ hEq => nomatch hEq) fun s' hs' => ?_
  · simp [Sys.values, Sys.insert, Sys.finish, hEmpty]
  · simp [Sys.values, hEmpty] at hs'

/-- Replacing every entry, of which there is one. -/
theorem replaceAll (h : SharedIn sys) {current new : SessionId}
    (hSt : sys.stageOf id = some (.replacing current new)) (hNonempty : sys.sessions ≠ []) :
    SharedIn ((sys.replaceAll new).goto id op (.retiring current)) := by
  have hKnows := h.knows id _ hSt
  have hAll := hKnows.candidate current rfl
  -- what was referred to is the session taken from the map
  obtain ⟨e, he⟩ := List.exists_mem_of_ne_nil _ hNonempty
  have hCurrent : current ∈ sys.values := hAll e.2 (List.mem_map_of_mem he) ▸ List.mem_map_of_mem he
  have hMem : ∀ s', s' ∈ (sys.replaceAll new).values ↔ s' = new := by
    intro s'
    simp only [Sys.values, Sys.replaceAll, List.map_map, List.mem_map, Function.comp_apply]
    constructor
    · rintro ⟨_, _, hEq⟩
      exact hEq.symm
    · intro hEq
      exact ⟨e, he, hEq.symm⟩
  have hNe : current ≠ new := fun hEq => (hKnows.owned new rfl).1 (hEq ▸ hCurrent)
  have hLock := h.locked id _ hSt rfl
  rw [SharedIn, stageOf_goto]
  refine Shared.publish h hSt hLock rfl hMem (some (.retiring current)) (fun _ _ _ => hLock)
    (fun _ _ hEq => hEq) ?_ ?_ ?_
  · rintro _ ⟨rfl⟩
    refine ⟨?_, ?_, ?_, ?_⟩
    · intro _ hEq
      cases hEq
    · intro hEq
      cases hEq
    · rintro _ ⟨rfl⟩
      exact ⟨fun hIn => hNe ((hMem current).mp hIn), h.notKilled current hCurrent⟩
    · intro _ hEq
      cases hEq
  · rintro _ ⟨rfl⟩
    exact hCurrent
  · intro s' hs' _
    rw [hAll s' hs']
    rfl

theorem mem_values_of_get {workspaceId : Text} (h : sys.get workspaceId = some s) :
    s ∈ sys.values := by
  obtain ⟨e, he, rfl⟩ := Option.map_eq_some_iff.mp h
  exact List.mem_map_of_mem (List.mem_of_find?_eq_some he)

/-- Removing an entry. -/
theorem removeEntry (h : SharedIn sys) (hSt : sys.stageOf id = some .removing)
    (hGet : sys.get op.workspaceId = some s) :
    SharedIn ((sys.remove op.workspaceId).goto id op
      (.unregistering s ((sys.remove op.workspaceId).values.contains s))) := by
  rw [SharedIn, stageOf_goto]
  refine Shared.remove h hSt (mem_values_of_get hGet) fun s' hs' => ?_
  obtain ⟨e, he, rfl⟩ := List.mem_map.mp hs'
  exact List.mem_map_of_mem (List.mem_of_mem_filter he)

end SharedIn

/-! ### The condition on the steps -/

/-- The ends of stages that keep the session shared.  What was taken from the map goes back
    only while an entry still refers to it; the entries to be replaced are still there; and a
    child is not left behind by a spawn that fails, or by a worktree that cannot be saved. -/
def CarefulEnd (sys : Sys) : Op → Stage → Outcome → Prop
  | _, .inserting session false, _ => session ∈ sys.values
  | _, .replacing _ _, _ => sys.sessions ≠ []
  | .addWorktree _ _, .persisting _ true, .fail => False
  | _, .spawning, .abandoned _ => False
  | _, .respawning _, .abandoned _ => False
  | _, _, _ => True

/-- The condition on an action. -/
def Careful (sys : Sys) : Action → Prop
  | .advance id outcome =>
      match sys.ops id with
      | some (op, st) => CarefulEnd sys op st outcome
      | none => True
  | _ => True

namespace SharedIn

/-- `values().next()` yields the session that all entries refer to. -/
theorem pick (h : SharedIn sys) (hPick : validPick sys (some s)) : ∀ s' ∈ sys.values, s' = s :=
  fun s' hs' => h.agree s' hs' s (List.contains_iff_mem.mp hPick)

/-- On to a stage that only relies on a session taken from the map. -/
theorem gotoCandidate (h : SharedIn sys) (hSt : sys.stageOf id = some st) (hLocked : st.locked)
    (hOwns : st.owns? = none) (hAll : ∀ s' ∈ sys.values, s' = s)
    (hCandidate : st'.candidate? = some s) (hFound : st'.foundNone = false)
    (hOwns' : st'.owns? = none) (hDead : st'.dead? = none) :
    SharedIn (sys.goto id op st') := by
  refine h.goto hSt (fun _ => hLocked) ⟨fun s' hs' => ?_, fun hNew => ?_, fun s' hs' => ?_,
    fun s' hs' => ?_⟩ (hOwns'.trans hOwns.symm)
  · obtain rfl := Option.some.inj (hCandidate.symm.trans hs')
    exact hAll
  · rw [hFound] at hNew
    cases hNew
  · rw [hOwns'] at hs'
    cases hs'
  · rw [hDead] at hs'
    cases hs'

/-- On to the dropping of a session found dead. -/
theorem gotoDead (h : SharedIn sys) (hSt : sys.stageOf id = some st) (hLocked : st.locked)
    (hOwns : st.owns? = none) (hAlive : ¬sys.isAlive s)
    (hStage : st' = .dropEntry s ∨ st' = .dropAny s) : SharedIn (sys.goto id op st') := by
  have hDead : sys.child s ≠ .alive := by simpa [Sys.isAlive] using hAlive
  rcases hStage with rfl | rfl
  all_goals
    refine h.goto hSt (fun _ => hLocked) ⟨(fun _ h => nomatch h), (fun h => nomatch h),
      (fun _ h => nomatch h), ?_⟩ hOwns.symm
    rintro _ ⟨rfl⟩
    exact hDead

/-- On to a stage with the same knowledge. -/
theorem gotoSame (h : SharedIn sys) (hSt : sys.stageOf id = some st)
    (hLocked : st'.locked → st.locked) (hCandidate : st'.candidate? = st.candidate?)
    (hFound : st'.foundNone = st.foundNone) (hOwns : st'.owns? = st.owns?)
    (hDead : st'.dead? = st.dead?) : SharedIn (sys.goto id op st') := by
  have hKnows := h.knows id st hSt
  exact h.goto hSt hLocked ⟨hCandidate ▸ hKnows.candidate, hFound ▸ hKnows.foundNone,
    hOwns ▸ hKnows.owned, hDead ▸ hKnows.dead⟩ hOwns

end SharedIn

/-- **One stage of an operation** keeps the session shared. -/
theorem sharedIn_advance (h : SharedIn sys) (hSt : sys.stageOf id = some st)
    (hCareful : CarefulEnd sys op st outcome)
    (hStep : advance sys id op st outcome = some sys') : SharedIn sys' := by
  have hKnows := h.knows id st hSt
  cases st with
  | waiting => cases outcome <;> cases hStep
  | readEntry =>
      cases outcome with
      | ok =>
          simp only [advance] at hStep
          split at hStep <;> cases hStep
          · exact h.goto hSt (fun _ => rfl) (.of_none rfl rfl rfl rfl) rfl
          · exact h.goto hSt (fun _ => rfl) (.of_none rfl rfl rfl rfl) rfl
      | _ => cases hStep
  | checkEntry s =>
      cases outcome with
      | ok =>
          simp only [advance] at hStep
          split at hStep <;> cases hStep
          · exact h.finish hSt rfl
          · next hDead => exact h.gotoDead hSt rfl rfl hDead (Or.inl rfl)
      | _ => cases hStep
  | dropEntry s | dropAny s =>
      cases outcome with
      | ok =>
          cases hStep
          exact (h.dropReferences (hKnows.dead s rfl)).goto hSt (fun _ => rfl)
            (.of_none rfl rfl rfl rfl) rfl
      | _ => cases hStep
  | readAny =>
      cases outcome with
      | pick choice =>
          simp only [advance] at hStep
          split at hStep
          · next hPick =>
              cases choice with
              | none =>
                  cases hStep
                  -- nothing to pick: the map is empty, and stays so under the lock
                  have hEmpty : sys.values = [] := by
                    rw [Sys.values, List.isEmpty_iff.mp hPick]
                    rfl
                  exact h.goto hSt (fun _ => rfl) ⟨(fun _ h => nomatch h), (fun _ => hEmpty),
                    (fun _ h => nomatch h), (fun _ h => nomatch h)⟩ rfl
              | some s =>
                  cases hStep
                  exact h.gotoCandidate hSt rfl rfl (h.pick hPick) rfl rfl rfl rfl
          · cases hStep
      | _ => cases hStep
  | checkAny s =>
      cases outcome with
      | ok =>
          simp only [advance] at hStep
          split at hStep <;> cases hStep
          · cases op <;> exact h.gotoSame hSt (fun _ => rfl) rfl rfl rfl rfl
          · next hDead => exact h.gotoDead hSt rfl rfl hDead (Or.inr rfl)
      | _ => cases hStep
  | spawning =>
      cases outcome with
      | fresh s =>
          simp only [advance] at hStep
          split at hStep
          · next hFresh =>
              cases hStep
              cases op <;>
                exact h.spawn hSt rfl rfl hFresh _ rfl rfl (fun _ h => nomatch h) fun _ => rfl
          · cases hStep
      | fail =>
          cases hStep
          exact h.finish hSt rfl
      | abandoned s => exact hCareful.elim
      | _ => cases hStep
  | persisting s fresh =>
      cases outcome with
      | ok =>
          cases hStep
          cases fresh <;> exact h.gotoSame hSt (fun _ => rfl) rfl rfl rfl rfl
      | fail =>
          cases fresh with
          -- a session taken from the map is left alone
          | false => cases op <;> (cases hStep; exact h.finish hSt rfl)
          | true =>
              cases op with
              | addWorktree _ _ => exact hCareful.elim
              | _ =>
                  cases hStep
                  exact h.gotoSame hSt (fun _ => rfl) rfl rfl rfl rfl
      | _ => cases fresh <;> cases hStep
  | discarding s | retiring s | killing s =>
      cases outcome with
      | ok =>
          cases hStep
          exact h.killChild hSt rfl
      | _ => cases hStep
  | inserting s fresh =>
      cases outcome with
      | ok =>
          cases hStep
          cases fresh with
          -- a removal may have emptied the map since the pick: this is where care is needed
          | false => exact h.insertReused hSt hCareful
          | true => exact h.insertFresh hSt
      | _ => cases hStep
  | readArgs =>
      cases outcome with
      | pick choice =>
          simp only [advance] at hStep
          split at hStep
          · next hPick =>
              split at hStep
              · cases hStep
                exact h.finish hSt rfl
              · cases choice with
                | none =>
                    cases hStep
                    exact h.finish hSt rfl
                | some s =>
                    simp only at hStep
                    split at hStep <;> cases hStep
                    · exact h.finish hSt rfl
                    · exact h.gotoCandidate hSt rfl rfl (h.pick hPick) rfl rfl rfl rfl
          · cases hStep
      | _ => cases hStep
  | respawning current =>
      cases outcome with
      | fresh s =>
          simp only [advance] at hStep
          split at hStep
          · next hFresh =>
              cases hStep
              exact h.spawn hSt rfl rfl hFresh _ rfl rfl (fun _ h => h) (fun h => nomatch h)
          · cases hStep
      | fail =>
          cases hStep
          exact h.finish hSt rfl
      | abandoned s => exact hCareful.elim
      | _ => cases hStep
  | replacing current new =>
      cases outcome with
      | ok =>
          cases hStep
          exact h.replaceAll hSt hCareful
      | _ => cases hStep
  | removing =>
      cases outcome with
      | ok =>
          simp only [advance] at hStep
          split at hStep <;> cases hStep
          · exact h.finish hSt rfl
          · next hGet => exact h.removeEntry hSt hGet
      | _ => cases hStep
  | unregistering s stillReferenced =>
      cases outcome with
      | ok =>
          cases stillReferenced <;> cases hStep
          · exact h.gotoSame hSt (fun h => nomatch h) rfl rfl rfl rfl
          · exact h.finish hSt rfl
      | _ => cases hStep

/-- **Every careful step keeps the session shared.** -/
theorem sharedIn_step {action : Action} (h : SharedIn sys) (hCareful : Careful sys action)
    (hStep : step sys action = some sys') : SharedIn sys' := by
  cases action with
  | call id op =>
      cases hOps : sys.ops id with
      | some running => simp [step, hOps] at hStep
      | none =>
          have hNone : sys.stageOf id = none := by rw [Sys.stageOf, hOps]; rfl
          simp only [step, hOps] at hStep
          cases hStep
          rw [SharedIn, stageOf_goto]
          -- an operation starts outside the lock, knowing and owning nothing
          refine Shared.move h _ ?_ (fun _ _ hLock => hLock) ?_ ?_
          · rintro _ ⟨rfl⟩ hLocked
            cases op <;> cases hLocked
          · rintro _ ⟨rfl⟩
            cases op <;> exact .of_none rfl rfl rfl rfl
          · rw [hNone]
            cases op <;> rfl
  | acquire id =>
      simp only [step] at hStep
      split at hStep
      · next op hOps hFree =>
          have hSt : sys.stageOf id = some .waiting := by rw [Sys.stageOf, hOps]; rfl
          cases hStep
          have hStage : ({ sys.goto id op op.lockedStage with lock := some id } : Sys).stageOf =
              Function.update sys.stageOf id (some op.lockedStage) := stageOf_goto sys id op _
          rw [SharedIn, hStage]
          -- nobody else is inside, since the lock was free
          refine Shared.move h _ (fun _ _ _ => rfl) (fun id' _ hLock => ?_) ?_ ?_
          · rw [hFree] at hLock
            cases hLock
          · rintro _ ⟨rfl⟩
            cases op <;> exact .of_none rfl rfl rfl rfl
          · rw [hSt]
            cases op <;> rfl
      · cases hStep
  | advance id outcome =>
      cases hOps : sys.ops id with
      | none => simp [step, hOps] at hStep
      | some running =>
          obtain ⟨op, st⟩ := running
          simp only [step, hOps] at hStep
          simp only [Careful, hOps] at hCareful
          exact sharedIn_advance h (by rw [Sys.stageOf, hOps]; rfl) hCareful hStep
  | exit session =>
      simp only [step] at hStep
      split at hStep
      · next hAlive =>
          cases hStep
          exact Shared.exit h (by simpa [Sys.isAlive] using hAlive)
      · cases hStep

theorem sharedIn_init : SharedIn {} where
  agree _ h := nomatch h
  notKilled _ h := nomatch h
  locked _ _ h := nomatch h
  knows _ _ h := nomatch h
  unique _ _ _ _ _ h := nomatch h
  alive _ h := nomatch h

/-! ### One shared session -/

/-- No operation is running. -/
def Quiescent (sys : Sys) : Prop := ∀ id, sys.ops id = none

/-- **One shared session**: the entries refer to the same session, not to one that the app
    has killed, and every living child is referred to. -/
structure OneSession (sys : Sys) : Prop where
  same : ∀ e ∈ sys.sessions, ∀ e' ∈ sys.sessions, e.2 = e'.2
  notKilled : ∀ e ∈ sys.sessions, sys.child e.2 ≠ .killed
  referenced : ∀ s, sys.child s = .alive → ∃ e ∈ sys.sessions, e.2 = s

/-- **Careful interleavings share one session.**  In every interleaving whose steps are all
    careful, at every point where no operation is running, there is one shared session. -/
theorem oneSession_run (actions : List Action) (sys : Sys)
    (hCareful : sessionMachine.Guarded Careful sessionMachine.init actions)
    (hRun : sessionMachine.run sessionMachine.init actions = some sys)
    (hQuiet : Quiescent sys) : OneSession sys := by
  have h : SharedIn sys := Machine.run_invariant
    (fun _ _ _ hShared hStep hNext => sharedIn_step hShared hStep hNext) sharedIn_init hCareful hRun
  refine ⟨fun e he e' he' => ?_, fun e he hKilled => ?_, fun s hs => ?_⟩
  · exact h.agree e.2 (List.mem_map_of_mem he) e'.2 (List.mem_map_of_mem he')
  · have hChild := h.notKilled e.2 (List.mem_map_of_mem he)
    rw [hKilled] at hChild
    cases hChild
  · -- with no operation running, a living child can only be in the map
    rcases h.alive s hs with hMem | ⟨id, st, hSt, _⟩
    · obtain ⟨e, he, hEq⟩ := List.mem_map.mp hMem
      exact ⟨e, he, hEq⟩
    · rw [Sys.stageOf, hQuiet id] at hSt
      cases hSt

/-! ### A careful interleaving, and three that are not -/

/-- Operation `0` connects workspace `a` and spawns session `0`. -/
def connectFirst : List Action :=
  [ .call 0 (.connectWorkspace "a".toList none), .acquire 0, .advance 0 .ok,
    .advance 0 (.pick none), .advance 0 (.fresh 0), .advance 0 .ok ]

/-- Operation `2` removes workspace `a`, from the removal of its entry to the killing. -/
def killFirst : List Action :=
  [ .call 2 (.killSessionById "a".toList), .advance 2 .ok, .advance 2 .ok, .advance 2 .ok ]

/-- Workspace `b` is connected to the session of `a`, then `a` is removed. -/
def sharedRun : List Action :=
  connectFirst ++
    [ .call 1 (.connectWorkspace "b".toList none), .acquire 1, .advance 1 .ok,
      .advance 1 (.pick (some 0)), .advance 1 .ok, .advance 1 .ok,
      .call 2 (.killSessionById "a".toList), .advance 2 .ok, .advance 2 .ok ]

/-- The same, but `a` is removed after its session was found alive for `b`. -/
def racedRun : List Action :=
  connectFirst ++
    [ .call 1 (.connectWorkspace "b".toList none), .acquire 1, .advance 1 .ok,
      .advance 1 (.pick (some 0)), .advance 1 .ok ] ++ killFirst ++ [ .advance 1 .ok ]

/-- New arguments for `a`, which is removed while the new session is spawned. -/
def respawnRun : List Action :=
  connectFirst ++
    [ .call 1 (.setWorkspaceRuntimeCodexArgs "a".toList (some "-v".toList)), .acquire 1,
      .advance 1 (.pick (some 0)) ] ++ killFirst ++
    [ .advance 1 (.fresh 1), .advance 1 .ok, .advance 1 .ok ]

/-- A first worktree whose workspace cannot be saved. -/
def unsavedRun : List Action :=
  [ .call 0 (.addWorktree "a".toList none), .acquire 0, .advance 0 (.pick none),
    .advance 0 (.fresh 0), .advance 0 .fail ]

def stateAfter (actions : List Action) : Sys :=
  (sessionMachine.run sessionMachine.init actions).getD {}

/-- In the interleavings below the operations are `0`, `1` and `2`. -/
theorem quiescent_of_ops {actions : List Action} (h₀ : (stateAfter actions).ops 0 = none)
    (h₁ : (stateAfter actions).ops 1 = none) (h₂ : (stateAfter actions).ops 2 = none)
    (h : ∀ n, (stateAfter actions).ops (n + 3) = none) : Quiescent (stateAfter actions) := by
  intro id
  match id with
  | 0 => exact h₀
  | 1 => exact h₁
  | 2 => exact h₂
  | n + 3 => exact h n

/-- `oneSession_run` at `sharedRun`. -/
theorem oneSession_sharedRun :
    (stateAfter sharedRun).sessions = [("b".toList, 0)] ∧ OneSession (stateAfter sharedRun) := by
  refine ⟨by rfl, oneSession_run sharedRun (stateAfter sharedRun) ?_ rfl ?_⟩
  · iterate 11
      refine ⟨trivial, fun _ h => ?_⟩
      cases h
    refine ⟨List.mem_singleton_self 0, fun _ h => ?_⟩
    cases h
    iterate 3
      refine ⟨trivial, fun _ h => ?_⟩
      cases h
    trivial
  · exact quiescent_of_ops rfl rfl rfl fun _ => rfl

/-- An interleaving that can happen and after which, with nothing running, there is no one
    shared session. -/
def Loses (actions : List Action) : Prop :=
  sessionMachine.run sessionMachine.init actions = some (stateAfter actions) ∧
    Quiescent (stateAfter actions) ∧ ¬ OneSession (stateAfter actions)

/-- **Three interleavings that lose the session**: an entry is left for a session that the app
    has killed, and twice a child that no entry refers to. -/
theorem loses_races : Loses racedRun ∧ Loses respawnRun ∧ Loses unsavedRun := by
  refine ⟨⟨rfl, quiescent_of_ops rfl rfl rfl fun _ => rfl, fun h => ?_⟩,
    ⟨rfl, quiescent_of_ops rfl rfl rfl fun _ => rfl, fun h => ?_⟩,
    ⟨rfl, quiescent_of_ops rfl rfl rfl fun _ => rfl, fun h => ?_⟩⟩
  · exact h.notKilled ("b".toList, 0) (List.mem_singleton_self _) rfl
  · obtain ⟨e, he, _⟩ := h.referenced 1 rfl
    cases he
  · obtain ⟨e, he, _⟩ := h.referenced 0 rfl
    cases he

end CodexMonitor.Workspaces
