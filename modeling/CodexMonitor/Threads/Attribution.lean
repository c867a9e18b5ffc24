import CodexMonitor.Threads.RootPaths

namespace CodexMonitor.Threads

open Text

/-!
# Threads — backend and frontend on the workspace of a thread

Each side is described by the workspace it picks, and the two choices are compared.

* `Backend.Picks`, `Frontend.Picks` — the workspace with the longest root; where the frontend
  takes two roots for one, the first of the list.
* `resolve_agree_iff` — the two sides agree exactly if every workspace that only the frontend
  finds gives way to one that both find.
-/

section Attribution

variable {m : CaseMapping} {cwd id : Text} {workspaces : List WorkspaceInfo}
  {roots : List (Text × Text)} {w v : WorkspaceInfo}

/-- The root under which the backend knows a workspace. -/
abbrev backendRoot (w : WorkspaceInfo) : Text := Backend.normalizeRootPath w.path

abbrev frontendRoot (m : CaseMapping) (w : WorkspaceInfo) : Text :=
  Frontend.normalizeRootPath m w.path

/-! ### The backend -/

namespace Backend

variable {α : Type} {key : α → Nat} {items : List α} {a : α}

theorem maxByKey_eq_none (h : maxByKey key items = none) : items = [] := by
  rcases List.eq_nil_or_concat items with rfl | ⟨items, last, rfl⟩
  · rfl
  · rw [maxByKey, List.concat_eq_append, List.foldl_concat] at h
    split at h
    · cases h
    · split at h <;> cases h

theorem maxByKey_spec (h : maxByKey key items = some a) :
    a ∈ items ∧ ∀ b ∈ items, key b ≤ key a := by
  induction items using List.reverseRecOn generalizing a with
  | nil => cases h
  | append_singleton items last ih =>
    have hall : ∀ {a : α}, (∀ b ∈ items, key b ≤ key a) → key last ≤ key a →
        ∀ b ∈ items ++ [last], key b ≤ key a := by
      intro a hitems hlast b hb
      rcases List.mem_append.mp hb with hmem | hmem
      · exact hitems b hmem
      · exact List.mem_singleton.mp hmem ▸ hlast
    have hfold : ∀ best, best = maxByKey key items → items.foldl _ none = best :=
      fun _ hbest => hbest.symm
    rw [maxByKey, List.foldl_concat] at h
    cases hbest : maxByKey key items with
    | none =>
      rw [hfold none hbest.symm] at h
      obtain rfl := Option.some.inj h
      obtain rfl := maxByKey_eq_none hbest
      exact ⟨List.mem_concat_self, hall (by simp) (Nat.le_refl _)⟩
    | some best =>
      rw [hfold (some best) hbest.symm] at h
      dsimp only at h
      obtain ⟨hmem, hbound⟩ := ih hbest
      by_cases hle : key best ≤ key last
      · rw [if_pos hle] at h
        obtain rfl := Option.some.inj h
        exact ⟨List.mem_concat_self,
          hall (fun b hb => Nat.le_trans (hbound b hb) hle) (Nat.le_refl _)⟩
      · rw [if_neg hle] at h
        obtain rfl := Option.some.inj h
        exact ⟨List.mem_append_left _ hmem, hall hbound (by omega)⟩

/-- The workspace the directory lies in, with the longest root. -/
structure Picks (workspaces : List WorkspaceInfo) (cwd : Text) (w : WorkspaceInfo) : Prop where
  mem : w ∈ workspaces
  within : Within (normalizeRootPath cwd) (backendRoot w)
  longest : ∀ v ∈ workspaces, Within (normalizeRootPath cwd) (backendRoot v) →
    byteLen (backendRoot v) ≤ byteLen (backendRoot w)

theorem mem_candidates {cwd : Text} {e : Text × Nat} : e ∈ candidates cwd roots ↔
    ∃ root, (e.1, root) ∈ roots ∧ Within cwd root ∧ e.2 = byteLen root := by
  unfold candidates
  rw [List.mem_filterMap]
  constructor
  · rintro ⟨⟨id, root⟩, hmem, heq⟩
    by_cases hempty : root.isEmpty = true
    · simp [hempty] at heq
    · have hroot : root ≠ [] := by simpa using hempty
      by_cases hmatch : isMatch cwd root = true
      · simp only [hempty, hmatch] at heq
        obtain rfl := Option.some.inj heq
        exact ⟨root, hmem, (isMatch_iff hroot).mp hmatch, rfl⟩
      · simp [hempty, hmatch] at heq
  · rintro ⟨root, hmem, hwithin, hlen⟩
    refine ⟨(e.1, root), hmem, ?_⟩
    have hempty : root.isEmpty = false := by simpa using hwithin.1
    have hmatch : isMatch cwd root = true := (isMatch_iff hwithin.1).mpr hwithin
    simp [hempty, hmatch, ← hlen]

/-- Nothing but a path lies in a root. -/
theorem not_within_nil {root : Text} : ¬ Within [] root := by
  intro h
  exact h.1 (List.prefix_nil.mp h.prefix)

/-- **What the backend answers.** -/
theorem resolve_spec (hroots : roots.Perm (workspaces.map fun w => (w.id, backendRoot w))) :
    (resolveWorkspaceForCwd cwd roots = none ∧
      ∀ w ∈ workspaces, ¬ Within (normalizeRootPath cwd) (backendRoot w)) ∨
    ∃ w, resolveWorkspaceForCwd cwd roots = some w.id ∧ Picks workspaces cwd w := by
  have hmem : ∀ id root, (id, root) ∈ roots ↔
      ∃ w ∈ workspaces, w.id = id ∧ backendRoot w = root := by
    intro id root
    rw [hroots.mem_iff, List.mem_map]
    simp only [Prod.mk.injEq]
  have hcandidate : ∀ v ∈ workspaces, Within (normalizeRootPath cwd) (backendRoot v) →
      (v.id, byteLen (backendRoot v)) ∈ candidates (normalizeRootPath cwd) roots := by
    intro v hv hwithin
    exact mem_candidates.mpr ⟨_, (hmem _ _).mpr ⟨v, hv, rfl, rfl⟩, hwithin, rfl⟩
  unfold resolveWorkspaceForCwd
  by_cases hempty : (normalizeRootPath cwd).isEmpty = true
  · refine .inl ⟨if_pos hempty, ?_⟩
    intro w _ hwithin
    rw [List.isEmpty_iff.mp hempty] at hwithin
    exact not_within_nil hwithin
  · dsimp only
    rw [if_neg hempty]
    cases hbest : maxByKey Prod.snd (candidates (normalizeRootPath cwd) roots) with
    | none =>
      refine .inl ⟨rfl, ?_⟩
      intro w hw hwithin
      have hin := hcandidate w hw hwithin
      rw [maxByKey_eq_none hbest] at hin
      cases hin
    | some best =>
      obtain ⟨hin, hbound⟩ := maxByKey_spec hbest
      obtain ⟨root, hroot, hwithin, hlen⟩ := mem_candidates.mp hin
      obtain ⟨w, hw, hid, rfl⟩ := (hmem _ _).mp hroot
      refine .inr ⟨w, by rw [hid]; rfl, hw, hwithin, ?_⟩
      intro v hv hv'
      rw [← hlen]
      exact hbound _ (hcandidate v hv hv')

end Backend

/-! ### The frontend -/

namespace Frontend

/-- What the lookup holds once some workspaces were added. -/
structure Holds (m : CaseMapping) (workspaces : List WorkspaceInfo) (lookup : WorkspacePathLookup) :
    Prop where
  ids : ∀ p, p ≠ [] → (lookup.workspaceIdsByPath.lookup p).getD [] =
    (workspaces.filter fun w => frontendRoot m w = p).map WorkspaceInfo.id
  known : ∀ p, (lookup.workspaceIdsByPath.lookup p).isSome → p ∈ lookup.workspacePathsSorted
  paths : ∀ p, p ∈ lookup.workspacePathsSorted ↔ p ≠ [] ∧ ∃ w ∈ workspaces, frontendRoot m w = p

theorem Holds.empty : Holds m [] {} := by
  constructor
  · intro p _
    rfl
  · intro p h
    cases h
  · intro p
    simp

theorem Holds.add {lookup : WorkspacePathLookup} (h : Holds m workspaces lookup)
    (w : WorkspaceInfo) : Holds m (workspaces ++ [w]) (addWorkspace m lookup w) := by
  have hids : ∀ p, ((workspaces ++ [w]).filter fun w => frontendRoot m w = p).map WorkspaceInfo.id =
      (workspaces.filter fun w => frontendRoot m w = p).map WorkspaceInfo.id ++
        if frontendRoot m w = p then [w.id] else [] := by
    intro p
    rw [List.filter_append, List.map_append, List.filter_singleton]
    by_cases hp : frontendRoot m w = p <;> simp [hp]
  have hpaths : ∀ p, (∃ v ∈ workspaces ++ [w], frontendRoot m v = p) ↔
      (∃ v ∈ workspaces, frontendRoot m v = p) ∨ frontendRoot m w = p := by
    intro p
    simp [or_and_right, exists_or]
  unfold addWorkspace
  by_cases hempty : (frontendRoot m w).isEmpty = true
  · have hnil := List.isEmpty_iff.mp hempty
    dsimp only
    rw [if_pos hempty]
    constructor
    · intro p hp
      have hother : ¬ frontendRoot m w = p := fun heq => hp (heq.symm.trans hnil)
      rw [hids, h.ids p hp, if_neg hother, List.append_nil]
    · exact h.known
    · intro p
      rw [h.paths, hpaths]
      refine and_congr_right fun hp => ?_
      have hother : ¬ frontendRoot m w = p := fun heq => hp (heq.symm.trans hnil)
      rw [or_iff_left hother]
  · have hne : frontendRoot m w ≠ [] := by simpa using hempty
    dsimp only
    rw [if_neg hempty]
    cases hlookup : lookup.workspaceIdsByPath.lookup (frontendRoot m w) with
    | some ids =>
      have hold : ids = (workspaces.filter fun v => frontendRoot m v = frontendRoot m w).map
          WorkspaceInfo.id := by
        rw [← h.ids _ hne, hlookup]
        rfl
      have hknown : frontendRoot m w ∈ lookup.workspacePathsSorted :=
        h.known _ (by rw [hlookup]; rfl)
      constructor
      · intro p hp
        rw [hids]
        by_cases hpw : p = frontendRoot m w
        · subst hpw
          rw [AList.lookup_insert, if_pos rfl, ← hold]
          rfl
        · rw [AList.lookup_insert_ne hpw, h.ids p hp, if_neg (Ne.symm hpw), List.append_nil]
      · intro p hp
        by_cases hpw : p = frontendRoot m w
        · exact hpw ▸ hknown
        · rw [AList.lookup_insert_ne hpw] at hp
          exact h.known p hp
      · intro p
        rw [hpaths]
        show p ∈ lookup.workspacePathsSorted ↔ _
        constructor
        · intro hp
          exact ⟨((h.paths p).mp hp).1, .inl ((h.paths p).mp hp).2⟩
        · rintro ⟨hp, hin | rfl⟩
          · exact (h.paths p).mpr ⟨hp, hin⟩
          · exact hknown
    | none =>
      have hold : (workspaces.filter fun v => frontendRoot m v = frontendRoot m w).map
          WorkspaceInfo.id = [] := by
        rw [← h.ids _ hne, hlookup]
        rfl
      constructor
      · intro p hp
        rw [hids]
        by_cases hpw : p = frontendRoot m w
        · subst hpw
          rw [AList.lookup_insert, if_pos rfl, hold]
          rfl
        · rw [AList.lookup_insert_ne hpw, h.ids p hp, if_neg (Ne.symm hpw), List.append_nil]
      · intro p hp
        by_cases hpw : p = frontendRoot m w
        · exact hpw ▸ List.mem_concat_self
        · rw [AList.lookup_insert_ne hpw] at hp
          exact List.mem_append_left _ (h.known p hp)
      · intro p
        rw [hpaths]
        show p ∈ lookup.workspacePathsSorted ++ [frontendRoot m w] ↔ _
        rw [List.mem_append, h.paths, List.mem_singleton, and_or_left]
        refine or_congr_right ⟨?_, fun h => h.2.symm⟩
        rintro rfl
        exact ⟨hne, rfl⟩

/-- **The lookup** knows every root and the workspaces that have it, in their order. -/
theorem holds_build (m : CaseMapping) (workspaces : List WorkspaceInfo) :
    Holds m workspaces (workspaces.foldl (addWorkspace m) {}) := by
  induction workspaces using List.reverseRecOn with
  | nil => exact Holds.empty
  | append_singleton workspaces w ih =>
    rw [List.foldl_concat]
    exact ih.add w

/-- The first of the workspaces with the longest root that the directory lies in. -/
structure Picks (m : CaseMapping) (workspaces : List WorkspaceInfo) (cwd : Text)
    (w : WorkspaceInfo) : Prop where
  mem : w ∈ workspaces
  within : Within (normalizeRootPath m cwd) (frontendRoot m w)
  longest : ∀ v ∈ workspaces, Within (normalizeRootPath m cwd) (frontendRoot m v) →
    utf16Len (frontendRoot m v) ≤ utf16Len (frontendRoot m w)
  first : ∀ v ∈ workspaces, frontendRoot m v = frontendRoot m w →
    v = w ∨ [w, v].Sublist workspaces

/-- In a list that is sorted by falling length the first element found is a longest. -/
theorem longest_of_find {paths : List Text} {p : Text → Bool} {found : Text}
    (h : (paths.mergeSort fun a b => decide (utf16Len b ≤ utf16Len a)).find? p = some found) :
    found ∈ paths ∧ p found = true ∧
      ∀ q ∈ paths, p q = true → utf16Len q ≤ utf16Len found := by
  have hsorted : (paths.mergeSort fun a b => decide (utf16Len b ≤ utf16Len a)).Pairwise
      fun a b => decide (utf16Len b ≤ utf16Len a) = true := by
    apply List.pairwise_mergeSort
    · intro a b c hab hbc
      simp only [decide_eq_true_eq] at hab hbc ⊢
      omega
    · intro a b
      simp only [Bool.or_eq_true, decide_eq_true_eq]
      omega
  obtain ⟨hfound, before, after, hsplit, hbefore⟩ := List.find?_eq_some_iff_append.mp h
  have hmem : ∀ q, q ∈ paths ↔ q ∈ before ++ found :: after := by
    intro q
    rw [← hsplit, List.mem_mergeSort]
  refine ⟨(hmem found).mpr (by simp), hfound, ?_⟩
  intro q hq hpq
  rw [hsplit, List.pairwise_append, List.pairwise_cons] at hsorted
  rcases List.mem_append.mp ((hmem q).mp hq) with hin | hin
  · have hnot := hbefore q hin
    rw [hpq] at hnot
    cases hnot
  · rcases List.mem_cons.mp hin with rfl | hin
    · exact Nat.le_refl _
    · exact of_decide_eq_true (hsorted.2.1.1 q hin)

/-- **What the frontend answers.** -/
theorem resolve_spec (m : CaseMapping) (workspaces : List WorkspaceInfo) (cwd : Text) :
    (resolveWorkspaceIdForThreadPath m cwd (buildWorkspacePathLookup m workspaces) none = none ∧
      ∀ w ∈ workspaces, ¬ Within (normalizeRootPath m cwd) (frontendRoot m w)) ∨
    ∃ w, resolveWorkspaceIdForThreadPath m cwd (buildWorkspacePathLookup m workspaces) none =
      some w.id ∧ Picks m workspaces cwd w := by
  have hholds := holds_build m workspaces
  unfold resolveWorkspaceIdForThreadPath buildWorkspacePathLookup
  generalize workspaces.foldl (addWorkspace m) {} = lookup at hholds
  dsimp only
  by_cases hempty : (normalizeRootPath m cwd).isEmpty = true
  · refine .inl ⟨if_pos hempty, ?_⟩
    intro w _ hwithin
    rw [List.isEmpty_iff.mp hempty] at hwithin
    exact Backend.not_within_nil hwithin
  · rw [if_neg hempty]
    cases hfind : (lookup.workspacePathsSorted.mergeSort fun a b =>
        decide (utf16Len b ≤ utf16Len a)).find?
        (isWithinWorkspaceRoot (normalizeRootPath m cwd)) with
    | none =>
      refine .inl ⟨rfl, ?_⟩
      intro w hw hwithin
      have hin : frontendRoot m w ∈ lookup.workspacePathsSorted :=
        (hholds.paths _).mpr ⟨hwithin.1, w, hw, rfl⟩
      exact List.find?_eq_none.mp hfind _ (List.mem_mergeSort.mpr hin)
        (isWithinWorkspaceRoot_iff.mpr hwithin)
    | some found =>
      obtain ⟨hin, hfound, hlongest⟩ := longest_of_find hfind
      obtain ⟨hne, v, hv, hvroot⟩ := (hholds.paths found).mp hin
      have hids := hholds.ids found hne
      right
      cases hfilter : workspaces.filter fun w => frontendRoot m w = found with
      | nil =>
        have hvin : v ∈ workspaces.filter fun w => frontendRoot m w = found :=
          List.mem_filter.mpr ⟨hv, decide_eq_true hvroot⟩
        rw [hfilter] at hvin
        cases hvin
      | cons w rest =>
        have hsub : (w :: rest).Sublist workspaces := hfilter ▸ List.filter_sublist
        have hroot : ∀ u, u ∈ w :: rest ↔ u ∈ workspaces ∧ frontendRoot m u = found := by
          intro u
          rw [← hfilter, List.mem_filter, decide_eq_true_eq]
        have hw := (hroot w).mp List.mem_cons_self
        refine ⟨w, ?_, hw.1, ?_, ?_, ?_⟩
        · show ((lookup.workspaceIdsByPath.lookup found).getD []).head? = some w.id
          rw [hids, hfilter]
          rfl
        · rw [hw.2]
          exact isWithinWorkspaceRoot_iff.mp hfound
        · intro u hu hwithin
          rw [hw.2]
          exact hlongest _ ((hholds.paths _).mpr ⟨hwithin.1, u, hu, rfl⟩)
            (isWithinWorkspaceRoot_iff.mpr hwithin)
        · intro u hu heq
          rcases List.mem_cons.mp ((hroot u).mpr ⟨hu, heq.trans hw.2⟩) with rfl | hmem
          · exact .inl rfl
          · exact .inr (((List.singleton_sublist.mpr hmem).cons_cons w).trans hsub)

end Frontend

/-! ### The comparison -/

/-- **No workspace is found by the frontend alone**, unless another that both sides find comes
    before it for the frontend too: its root is longer, or it is the same root to the frontend
    and stands earlier in the list. -/
def Covered (m : CaseMapping) (workspaces : List WorkspaceInfo) (cwd : Text) : Prop :=
  ∀ w ∈ workspaces, Within (Frontend.normalizeRootPath m cwd) (frontendRoot m w) →
    ¬ Within (Backend.normalizeRootPath cwd) (backendRoot w) →
    ∃ w' ∈ workspaces, Within (Backend.normalizeRootPath cwd) (backendRoot w') ∧
      (utf16Len (frontendRoot m w) < utf16Len (frontendRoot m w') ∨
        frontendRoot m w' = frontendRoot m w ∧ [w', w].Sublist workspaces)

/-- What the backend finds, the frontend finds. -/
theorem within_frontend {value rootValue : Text}
    (h : Within (Backend.normalizeRootPath value) (Backend.normalizeRootPath rootValue)) :
    Within (Frontend.normalizeRootPath m value) (Frontend.normalizeRootPath m rootValue) := by
  rw [normalizeRootPath_eq, normalizeRootPath_eq]
  exact h.recase m

/-- Two roots of one path that are as long as each other. -/
theorem eq_of_utf16Len {path root other : Text} (h : Within path root) (ho : Within path other)
    (hlen : utf16Len root = utf16Len other) : other = root := by
  have hin := h.within_of_len_le utf16Len_append utf16Len_cons_pos ho (Nat.le_of_eq hlen)
  rcases hin.eq_or_len_lt utf16Len_append utf16Len_cons_pos with heq | hlt
  · exact heq
  · omega

/-- If both sides find the workspace that the frontend picks, it is the one that the backend
    picks. -/
theorem Backend.Picks.eq_of_frontend (hroots : (workspaces.map backendRoot).Nodup)
    (hback : Backend.Picks workspaces cwd v) (hfront : Frontend.Picks m workspaces cwd w)
    (hboth : Within (Backend.normalizeRootPath cwd) (backendRoot w)) : v = w := by
  have hin : Within (backendRoot v) (backendRoot w) :=
    hboth.within_of_len_le byteLen_append byteLen_cons_pos hback.within
      (hback.longest w hfront.mem hboth)
  have hlonger : utf16Len (Frontend.normalizeRootPath m v.path) ≤
      utf16Len (Frontend.normalizeRootPath m w.path) :=
    hfront.longest v hback.mem (within_frontend hback.within)
  rcases hin.2 with heq | ⟨rest, heq⟩
  · exact List.inj_on_of_nodup_map hroots hback.mem hfront.mem heq
  · -- the root of the backend's choice would be longer for the frontend too
    obtain ⟨rest', hnested⟩ := exists_recase_nested m heq hin.1
    rw [← normalizeRootPath_eq, ← normalizeRootPath_eq] at hnested
    have hpos := utf16Len_cons_pos '/' rest'
    rw [hnested, utf16Len_append] at hlonger
    omega

/-- Of two elements of a list without repetitions one comes first. -/
theorem not_sublist_swap {α : Type} {l : List α} {a b : α} (hl : l.Nodup)
    (h : [a, b].Sublist l) : ¬ [b, a].Sublist l := by
  induction l with
  | nil => cases h
  | cons c l ih =>
    obtain ⟨hc, hrest⟩ := List.nodup_cons.mp hl
    intro hswap
    rcases List.cons_sublist_cons'.mp h with hin | ⟨rfl, hb⟩
    · rcases List.cons_sublist_cons'.mp hswap with hin' | ⟨rfl, _⟩
      · exact ih hrest hin hin'
      · exact hc (hin.subset (by simp))
    · rcases List.cons_sublist_cons'.mp hswap with hin' | ⟨rfl, _⟩
      · exact hc (hin'.subset (by simp))
      · exact hc (List.singleton_sublist.mp hb)

/-- **When backend and frontend agree.** For workspaces with distinct ids whose roots the backend
    tells apart, and in whatever order it iterates over them, both name the same workspace, or
    none, exactly if no workspace is found by the frontend alone. -/
theorem resolve_agree_iff (m : CaseMapping) (cwd : Text) (workspaces : List WorkspaceInfo)
    (roots : List (Text × Text)) (hids : (workspaces.map WorkspaceInfo.id).Nodup)
    (hdistinct : (workspaces.map backendRoot).Nodup)
    (hroots : roots.Perm (workspaces.map fun w => (w.id, backendRoot w))) :
    Backend.resolveWorkspaceForCwd cwd roots =
        Frontend.resolveWorkspaceIdForThreadPath m cwd
          (Frontend.buildWorkspacePathLookup m workspaces) none ↔
      Covered m workspaces cwd := by
  have hback : Backend.resolveWorkspaceForCwd cwd roots = none ∧ _ ∨ _ :=
    Backend.resolve_spec hroots
  have hfront := Frontend.resolve_spec m workspaces cwd
  constructor
  · intro heq w hw hwithin hnot
    rcases hfront with ⟨_, hnone⟩ | ⟨t, ht, hpicks⟩
    · exact absurd hwithin (hnone w hw)
    rcases hback with ⟨hb, _⟩ | ⟨r, hr, hrpicks⟩
    · rw [hb, ht] at heq
      cases heq
    · have hid : r.id = t.id := by
        rw [hr, ht] at heq
        exact Option.some.inj heq
      obtain rfl : r = t := List.inj_on_of_nodup_map hids hrpicks.mem hpicks.mem hid
      refine ⟨r, hpicks.mem, hrpicks.within, ?_⟩
      rcases Nat.lt_or_eq_of_le (hpicks.longest w hw hwithin) with hlt | hlen
      · exact .inl hlt
      · have hsame := eq_of_utf16Len hwithin hpicks.within hlen
        rcases hpicks.first w hw hsame.symm with rfl | hsub
        · exact absurd hrpicks.within hnot
        · exact .inr ⟨hsame, hsub⟩
  · intro hcovered
    rcases hfront with ⟨ht, hnone⟩ | ⟨t, ht, hpicks⟩
    · rcases hback with ⟨hb, _⟩ | ⟨r, _, hrpicks⟩
      · rw [hb, ht]
      · exact absurd (within_frontend hrpicks.within) (hnone r hrpicks.mem)
    · have hboth : Within (Backend.normalizeRootPath cwd) (backendRoot t) := by
        by_contra hnot
        obtain ⟨w, hw, hwithin, hlonger | ⟨hsame, hearlier⟩⟩ :=
          hcovered t hpicks.mem hpicks.within hnot
        · have hle := hpicks.longest w hw (within_frontend hwithin)
          omega
        · rcases hpicks.first w hw hsame with rfl | hlater
          · exact hnot hwithin
          · exact not_sublist_swap (List.Nodup.of_map _ hids) hearlier hlater
      rcases hback with ⟨_, hnone⟩ | ⟨r, hr, hrpicks⟩
      · exact absurd hboth (hnone t hpicks.mem)
      · rw [hr, ht, hrpicks.eq_of_frontend hdistinct hpicks hboth]

/-! ### A root beyond ASCII -/

/-- A workspace on a drive, in a directory whose name is a small letter with an accent. -/
def accentWorkspace : WorkspaceInfo := ⟨"ws".toList, "C:/é".toList⟩

theorem resolve_agree_iff_accent :
    Backend.resolveWorkspaceForCwd "C:/É/sub".toList [("ws".toList, "c:/é".toList)] =
        Frontend.resolveWorkspaceIdForThreadPath CaseMapping.latin1 "C:/É/sub".toList
          (Frontend.buildWorkspacePathLookup CaseMapping.latin1 [accentWorkspace]) none ↔
      Covered CaseMapping.latin1 [accentWorkspace] "C:/É/sub".toList :=
  resolve_agree_iff CaseMapping.latin1 "C:/É/sub".toList [accentWorkspace]
    [("ws".toList, "c:/é".toList)] (List.nodup_singleton _) (List.nodup_singleton _)
    (by
      have hroot : backendRoot accentWorkspace = "c:/é".toList := by decide +kernel
      rw [List.map_singleton, hroot]
      exact List.Perm.refl _)

/-- The frontend takes `C:/É` for the root, the backend does not. -/
theorem accent_resolved_differently : ¬ ∀ (m : CaseMapping) (cwd : Text)
    (workspaces : List WorkspaceInfo) (roots : List (Text × Text)),
    (workspaces.map WorkspaceInfo.id).Nodup → (workspaces.map backendRoot).Nodup →
    roots.Perm (workspaces.map fun w => (w.id, backendRoot w)) →
    Backend.resolveWorkspaceForCwd cwd roots =
      Frontend.resolveWorkspaceIdForThreadPath m cwd
        (Frontend.buildWorkspacePathLookup m workspaces) none := by
  intro h
  have heq := h CaseMapping.latin1 "C:/É".toList [accentWorkspace] _ (List.nodup_singleton _)
    (List.nodup_singleton _) (List.Perm.refl _)
  have hback : Backend.resolveWorkspaceForCwd "C:/É".toList
      ([accentWorkspace].map fun w => (w.id, backendRoot w)) = none := by decide +kernel
  rw [hback] at heq
  rcases Frontend.resolve_spec CaseMapping.latin1 [accentWorkspace] "C:/É".toList with
    ⟨_, hnone⟩ | ⟨w, hw, _⟩
  · refine hnone accentWorkspace List.mem_cons_self ?_
    have hcwd : Frontend.normalizeRootPath CaseMapping.latin1 "C:/É".toList = "c:/é".toList := by
      decide +kernel
    have hroot : frontendRoot CaseMapping.latin1 accentWorkspace = "c:/é".toList := by
      decide +kernel
    rw [hcwd, hroot]
    exact Within.refl (by decide)
  · rw [hw] at heq
    cases heq

end Attribution

end CodexMonitor.Threads
