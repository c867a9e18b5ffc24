import CodexMonitor.Config.Layers

namespace CodexMonitor.Config

open Text Layered

/-!
# Config — the origins of the settings

The merged configuration and the origins are computed by two recursions.  Here each is
described by what stands at the paths of the layers, and the two descriptions are compared.

* `nodes_mergeTomlValuesAtPath`, `nodes_effectiveConfig` — merging is the overlay of documents.
* `Names`, `lookup_origins` — the keys that a layer records, and who recorded a key last.
* `originsMatch_iff` — the origins match the merged configuration exactly if no layer replaces
  what a lower layer has on the way to one of its leaves.
-/

/-! ### Aliases resolved -/

section Aliases

variable {path : List Text} {table : TomlTable} {key : Text} {value : TomlValue}

theorem normalizeKeyAliases_of_ne (h : path ≠ memoriesAlias.tablePath) :
    normalizeKeyAliases path table = table := by
  show ConfigKeyAlias.apply path table memoriesAlias = table
  rw [ConfigKeyAlias.apply, if_neg h]

theorem normalizeKeyAliases_of_get (h : table.get memoriesAlias.legacyKey = none) :
    normalizeKeyAliases path table = table := by
  show ConfigKeyAlias.apply path table memoriesAlias = table
  unfold ConfigKeyAlias.apply
  rw [h]
  split <;> rfl

theorem get_legacy_normalizeKeyAliases (h : path = memoriesAlias.tablePath) :
    (normalizeKeyAliases path table).get memoriesAlias.legacyKey = none := by
  show (ConfigKeyAlias.apply path table memoriesAlias).get _ = none
  unfold ConfigKeyAlias.apply
  rw [if_pos h]
  cases hget : table.get memoriesAlias.legacyKey with
  | none => exact hget
  | some value =>
    show (TomlTable.entryOrInsert _ _ _).get _ = none
    unfold TomlTable.entryOrInsert
    split
    · exact TomlTable.get_remove_self
    · rw [TomlTable.get_insert_of_ne (by decide)]
      exact TomlTable.get_remove_self

theorem nodup_normalizeKeyAliases (h : table.keys.Nodup) :
    (normalizeKeyAliases path table).keys.Nodup := by
  show (ConfigKeyAlias.apply path table memoriesAlias).keys.Nodup
  unfold ConfigKeyAlias.apply
  split
  · split
    · unfold TomlTable.entryOrInsert
      split
      · exact TomlTable.nodup_remove h
      · exact TomlTable.nodup_insert (TomlTable.nodup_remove h)
    · exact h
  · exact h

/-- An entry of the table with the aliases resolved is one of the table, perhaps under another
    key. -/
theorem mem_normalizeKeyAliases {e : Text × TomlValue} (h : e ∈ normalizeKeyAliases path table) :
    e ∈ table ∨ e.1 = memoriesAlias.canonicalKey ∧ (memoriesAlias.legacyKey, e.2) ∈ table := by
  have hmem : e ∈ ConfigKeyAlias.apply path table memoriesAlias := h
  unfold ConfigKeyAlias.apply at hmem
  split at hmem
  · split at hmem
    · next value hvalue =>
      have hremove : e ∈ table.remove memoriesAlias.legacyKey → e ∈ table :=
        fun he => (List.mem_filter.mp he).1
      unfold TomlTable.entryOrInsert at hmem
      split at hmem
      · exact .inl (hremove hmem)
      · rcases TomlTable.mem_insert hmem with rfl | hrest
        · exact .inr ⟨rfl, TomlTable.mem_of_get hvalue⟩
        · exact .inl (hremove hrest)
    · exact .inl hmem
  · exact .inl hmem

theorem keys_normalizedEntries (path : List Text) (table : TomlTable) :
    TomlTable.keys (normalizedEntries path table) = table.keys := by
  induction table with
  | nil => rfl
  | cons e es ih =>
    rw [normalizedEntries, TomlTable.keys_cons, TomlTable.keys_cons, ih]

theorem get_normalizedEntries (path : List Text) (table : TomlTable) (key : Text) :
    TomlTable.get key (normalizedEntries path table) =
      (table.get key).map (normalizedWithKeyAliases (path ++ [key])) := by
  induction table with
  | nil => rfl
  | cons e es ih =>
    unfold normalizedEntries TomlTable.get
    by_cases he : e.1 = key
    · rw [if_pos he, if_pos he, he]
      rfl
    · rw [if_neg he, if_neg he, ih]

end Aliases

mutual

/-- Below the tables that have aliases nothing changes. -/
theorem normalized_of_long {path : List Text} (h : 2 ≤ path.length) :
    ∀ value : TomlValue, normalizedWithKeyAliases path value = value
  | .scalar _ => by rw [normalizedWithKeyAliases]
  | .array items => by
      rw [normalizedWithKeyAliases, normalizedItems_of_long h items]
  | .table entries => by
      have hne : path ≠ memoriesAlias.tablePath := by
        rintro rfl
        exact absurd h (by decide)
      rw [normalizedWithKeyAliases, normalizedEntries_of_long h entries,
        normalizeKeyAliases_of_ne hne]

theorem normalizedItems_of_long {path : List Text} (h : 2 ≤ path.length) :
    ∀ items : List TomlValue, normalizedItems path items = items
  | [] => by rw [normalizedItems]
  | item :: items => by
      rw [normalizedItems, normalized_of_long h item, normalizedItems_of_long h items]

theorem normalizedEntries_of_long {path : List Text} (h : 2 ≤ path.length) :
    ∀ entries : List (Text × TomlValue), normalizedEntries path entries = entries
  | [] => by rw [normalizedEntries]
  | e :: es => by
      have hlong : 2 ≤ (path ++ [e.1]).length := by
        rw [List.length_append]
        omega
      rw [normalizedEntries, normalized_of_long hlong e.2, normalizedEntries_of_long h es]

end

/-- Resolving the aliases of a table before or after those of its values. -/
theorem get_normalized_table (path : List Text) (table : TomlTable) (key : Text) :
    TomlTable.get key (normalizeKeyAliases path (normalizedEntries path table)) =
      ((normalizeKeyAliases path table).get key).map
        (normalizedWithKeyAliases (path ++ [key])) := by
  by_cases hpath : path = memoriesAlias.tablePath
  · have hlong : ∀ key : Text, 2 ≤ (path ++ [key]).length := by
      intro key
      rw [hpath]
      exact Nat.le_refl 2
    have hid : normalizedWithKeyAliases (path ++ [key]) = id := by
      funext value
      exact normalized_of_long (hlong key) value
    have hentries : normalizedEntries path table = table := by
      clear hid key
      induction table with
      | nil => rfl
      | cons e es ih => rw [normalizedEntries, normalized_of_long (hlong e.1), ih]
    rw [hid, hentries, Option.map_id]
    rfl
  · rw [normalizeKeyAliases_of_ne hpath, normalizeKeyAliases_of_ne hpath, get_normalizedEntries]

/-! ### Merging is an overlay -/

section Merging

variable {path p : List Text} {base overlaid : TomlValue} {key : Text}

/-- There is no legacy key where the tables on the path are all there. -/
def AliasFree (path : List Text) (doc : Doc Text TomlScalar) : Prop :=
  ∀ q, path ++ q = memoriesAlias.tablePath → (∀ r, r <+: q → doc r = some .open) →
    doc (q ++ [memoriesAlias.legacyKey]) = none

theorem AliasFree.cons {doc : Doc Text TomlScalar} (h : AliasFree path doc)
    (hopen : doc [] = some .open) : AliasFree (path ++ [key]) fun q => doc (key :: q) := by
  intro q hq htables
  have hsplit : path ++ key :: q = memoriesAlias.tablePath := by simpa using hq
  refine h (key :: q) hsplit ?_
  intro r hr
  rcases List.prefix_cons_iff.mp hr with rfl | ⟨r', rfl, hr'⟩
  · exact hopen
  · exact htables r' hr'

/-- What the loop over the entries of an overlay leaves under each key. -/
theorem get_mergeTables (path : List Text) (baseTable overlayTable : TomlTable)
    (hkeys : overlayTable.keys.Nodup) (key : Text) :
    TomlTable.get key (mergeTables path baseTable overlayTable) =
      match overlayTable.get key with
      | none => baseTable.get key
      | some value =>
          some (match baseTable.get key with
            | some existing => mergeTomlValuesAtPath (path ++ [key]) existing value
            | none => normalizedWithKeyAliases (path ++ [key]) value) := by
  induction overlayTable generalizing baseTable with
  | nil => rw [mergeTables, TomlTable.get_nil]
  | cons e es ih =>
    obtain ⟨hnew, hrest⟩ := List.nodup_cons.mp hkeys
    rw [mergeTables, ih _ hrest]
    by_cases he : e.1 = key
    · subst he
      have hnone : TomlTable.get e.1 es = none := TomlTable.get_eq_none_iff.mpr hnew
      rw [hnone, TomlTable.get, if_pos rfl]
      exact TomlTable.get_insert_self
    · rw [TomlTable.get_insert_of_ne (Ne.symm he), TomlTable.get, if_neg he]

theorem nodes_table_cons {table : TomlTable} :
    (TomlValue.table table).nodes (key :: p) =
      (table.get key).bind fun inner => inner.nodes p := by
  rw [TomlValue.nodes]
  rfl

theorem node_normalized (path : List Text) (value : TomlValue) :
    (normalizedWithKeyAliases path value).node = value.node := by
  cases value <;> rw [normalizedWithKeyAliases] <;> rfl

theorem exists_table_of_node {value : TomlValue} (h : value.node = .open) :
    ∃ table, value = .table table := by
  cases value with
  | table table => exact ⟨table, rfl⟩
  | scalar s => cases h
  | array items => cases h

/-- Unless two tables meet, the overlay replaces the base. -/
theorem mergeTomlValuesAtPath_of_replaced (h : ¬ (overlaid.node = .open ∧ base.node = .open)) :
    mergeTomlValuesAtPath path base overlaid = normalizedWithKeyAliases path overlaid := by
  cases overlaid with
  | table overlayTable =>
    cases base with
    | table baseTable => exact absurd ⟨rfl, rfl⟩ h
    | scalar s => simp [mergeTomlValuesAtPath]
    | array items => simp [mergeTomlValuesAtPath]
  | scalar s => simp [mergeTomlValuesAtPath]
  | array items => simp [mergeTomlValuesAtPath]

theorem nodes_of_replaced (h : ¬ (overlaid.node = .open ∧ base.node = .open)) :
    (mergeTomlValuesAtPath path base overlaid).nodes =
      overlay base.nodes (normalizedWithKeyAliases path overlaid).nodes := by
  rw [mergeTomlValuesAtPath_of_replaced h, overlay_of_replaced (by simp)]
  rw [TomlValue.nodes_nil, TomlValue.nodes_nil, node_normalized]
  intro hopen
  exact h ⟨Option.some.inj hopen.1, Option.some.inj hopen.2⟩

/-- The values of a table keep distinct keys when aliases are resolved. -/
theorem distinct_of_get {table : TomlTable} {value : TomlValue}
    (h : (TomlValue.table table).DistinctKeys)
    (hget : (normalizeKeyAliases path table).get key = some value) : value.DistinctKeys := by
  rcases mem_normalizeKeyAliases (TomlTable.mem_of_get hget) with hmem | ⟨_, hmem⟩
  · exact TomlValue.EachTable.entries h _ hmem
  · exact TomlValue.EachTable.entries h _ hmem

/-- A base without the legacy key keeps its table when aliases are resolved. -/
theorem AliasFree.normalizeKeyAliases_eq {table : TomlTable}
    (h : AliasFree path (TomlValue.table table).nodes) : normalizeKeyAliases path table = table := by
  by_cases hpath : path = memoriesAlias.tablePath
  · apply normalizeKeyAliases_of_get
    have hnone := h [] (by simp [hpath]) (by
      intro r hr
      rw [List.prefix_nil.mp hr]
      rfl)
    rw [List.nil_append, nodes_table_cons] at hnone
    cases hget : TomlTable.get memoriesAlias.legacyKey table with
    | none => rfl
    | some value =>
      rw [hget] at hnone
      simp at hnone
  · exact normalizeKeyAliases_of_ne hpath

/-- **Merging at a path** lays the overlay, with its aliases resolved, over the base. -/
theorem nodes_mergeTomlValuesAtPath (hbase : AliasFree path base.nodes)
    (hdistinct : overlaid.DistinctKeys) :
    (mergeTomlValuesAtPath path base overlaid).nodes p =
      overlay base.nodes (normalizedWithKeyAliases path overlaid).nodes p := by
  induction p generalizing path base overlaid with
  | nil =>
    by_cases htables : overlaid.node = .open ∧ base.node = .open
    · obtain ⟨overlayTable, rfl⟩ := exists_table_of_node htables.1
      obtain ⟨baseTable, rfl⟩ := exists_table_of_node htables.2
      rw [overlay_of_some TomlValue.nodes_nil, node_normalized, mergeTomlValuesAtPath]
      rfl
    · rw [nodes_of_replaced htables]
  | cons key p ih =>
    by_cases htables : overlaid.node = .open ∧ base.node = .open
    · obtain ⟨overlayTable, rfl⟩ := exists_table_of_node htables.1
      obtain ⟨baseTable, rfl⟩ := exists_table_of_node htables.2
      have hupper : (normalizedWithKeyAliases path (.table overlayTable)).nodes [] =
          some .open := by
        rw [TomlValue.nodes_nil, node_normalized]
        rfl
      have hchild : AliasFree (path ++ [key]) _ := hbase.cons TomlValue.nodes_nil
      rw [overlay_cons hupper TomlValue.nodes_nil, mergeTomlValuesAtPath,
        hbase.normalizeKeyAliases_eq, nodes_table_cons,
        get_mergeTables _ _ _ (nodup_normalizeKeyAliases hdistinct.1)]
      simp only [normalizedWithKeyAliases, nodes_table_cons, get_normalized_table] at hchild ⊢
      cases hover : (normalizeKeyAliases path overlayTable).get key with
      | none =>
        show _ = overlay _ (fun _ => none) p
        rw [overlay_none]
      | some value =>
        cases hexisting : TomlTable.get key baseTable with
        | none =>
          show _ = overlay (fun _ => none) (normalizedWithKeyAliases _ value).nodes p
          rw [none_overlay]
          rfl
        | some existing =>
          rw [hexisting] at hchild
          exact ih hchild (distinct_of_get hdistinct hover)
    · rw [nodes_of_replaced htables]

/-- The overlay of documents without legacy keys has none. -/
theorem AliasFree.overlay {lower upper : Doc Text TomlScalar} (hlower : AliasFree path lower)
    (hupper : AliasFree path upper) (hroot : Rooted upper) :
    AliasFree path (overlay lower upper) := by
  intro q hq htables
  have hnone : upper (q ++ [memoriesAlias.legacyKey]) = none := by
    cases hup : upper (q ++ [memoriesAlias.legacyKey]) with
    | none => rfl
    | some node =>
      have hsome : ∀ r, r <+: q → (upper r).isSome := fun r hr =>
        hroot _ r (hr.trans (List.prefix_append q _)) (by rw [hup]; rfl)
      rw [hupper q hq ?_] at hup
      · cases hup
      · intro r hr
        obtain ⟨n, hn⟩ := Option.isSome_iff_exists.mp (hsome r hr)
        rw [← htables r hr, overlay_of_some hn, hn]
  by_cases hblocked : Blocked lower upper (q ++ [memoriesAlias.legacyKey])
  · exact overlay_of_blocked hnone hblocked
  · rw [overlay_of_none hnone hblocked]
    apply hlower q hq
    intro r hr
    have hprefix := hr.trans (List.prefix_append q [memoriesAlias.legacyKey])
    cases hup : upper r with
    | none =>
      have hfree : ¬ Blocked lower upper r := fun h => hblocked (h.mono hprefix)
      rw [← htables r hr, overlay_of_none hup hfree]
    | some node =>
      by_contra hnot
      exact hblocked ⟨r, hprefix, by rw [hup]; rfl, fun h => hnot h.2⟩

/-- A value whose aliases are resolved has no legacy key. -/
theorem aliasFree_normalized (value : TomlValue) :
    AliasFree [] (normalizedWithKeyAliases [] value).nodes := by
  intro q hq htables
  obtain rfl : q = memoriesAlias.tablePath := by simpa using hq
  obtain ⟨table, rfl⟩ : ∃ table, value = .table table := by
    apply exists_table_of_node
    rw [← node_normalized []]
    have hroot := htables [] List.nil_prefix
    rw [TomlValue.nodes_nil] at hroot
    exact Option.some.inj hroot
  have hmemories := htables _ (List.prefix_refl _)
  show (normalizedWithKeyAliases [] (.table table)).nodes ["memories".toList, _] = none
  change (normalizedWithKeyAliases [] (.table table)).nodes ["memories".toList] = _ at hmemories
  rw [normalizedWithKeyAliases, nodes_table_cons, get_normalized_table] at hmemories ⊢
  cases hget : TomlTable.get "memories".toList (normalizeKeyAliases [] table) with
  | none => rfl
  | some memories =>
    rw [hget] at hmemories
    have hnode : (normalizedWithKeyAliases ["memories".toList] memories).nodes [] = some .open :=
      hmemories
    rw [TomlValue.nodes_nil, node_normalized] at hnode
    obtain ⟨inner, rfl⟩ := exists_table_of_node (Option.some.inj hnode)
    show (normalizedWithKeyAliases ["memories".toList] (.table inner)).nodes [_] = none
    have hpath : ["memories".toList] = memoriesAlias.tablePath := rfl
    rw [normalizedWithKeyAliases, nodes_table_cons, get_legacy_normalizeKeyAliases hpath]
    rfl

/-- **The merged configuration** is the stack of the enabled layers, each with its aliases
    resolved. -/
theorem nodes_effectiveConfig (stack : ConfigLayerStack) :
    stack.effectiveConfig.nodes =
      Layered.stack (TomlValue.table []).nodes
        (stack.enabled.map fun layer => layer.normalized.nodes) := by
  have hfold : ∀ (layers : List ConfigLayerEntry) (base : TomlValue), AliasFree [] base.nodes →
      (layers.foldl (fun merged layer => mergeTomlValues merged layer.config) base).nodes =
        Layered.stack base.nodes (layers.map fun layer => layer.normalized.nodes) := by
    intro layers
    induction layers with
    | nil =>
      intro base _
      rfl
    | cons layer layers ih =>
      intro base hbase
      have hmerge : (mergeTomlValues base layer.config).nodes =
          overlay base.nodes layer.normalized.nodes := by
        funext p
        exact nodes_mergeTomlValuesAtPath hbase layer.distinct
      have hfree : AliasFree [] (mergeTomlValues base layer.config).nodes := by
        rw [hmerge]
        exact hbase.overlay (aliasFree_normalized layer.config) (TomlValue.rooted_nodes _)
      rw [List.foldl_cons, ih _ hfree, hmerge]
      rfl
  apply hfold
  intro q hq _
  obtain rfl : q = memoriesAlias.tablePath := by simpa using hq
  rfl

end Merging

/-! ### What is recorded -/

section Recording

variable {value : TomlValue} {path p : List Text} {key : Text} {m : ConfigLayerMetadata}
  {origins : Origins}

/-- The key is the dotted path of a leaf of the value, which stands at the given path. -/
def Names (path : List Text) (value : TomlValue) (key : Text) : Prop :=
  ∃ p, LeafAt value.nodes p ∧ path ++ p ≠ [] ∧ key = dotted (path ++ p)

theorem names_scalar {s : TomlScalar} : Names path (.scalar s) key ↔ path ≠ [] ∧ key = dotted path := by
  constructor
  · rintro ⟨p, ⟨a, ha⟩, hne, rfl⟩
    cases p with
    | nil => exact ⟨by simpa using hne, by rw [List.append_nil]⟩
    | cons k p =>
      rw [TomlValue.nodes] at ha
      cases ha
  · rintro ⟨hne, rfl⟩
    exact ⟨[], ⟨s, TomlValue.nodes_nil⟩, by simpa using hne, by rw [List.append_nil]⟩

/-- The leaves of a table or an array are those of its entries. -/
theorem names_iff_entries (hdistinct : value.DistinctKeys) (hleaf : ∀ s, value ≠ .scalar s) :
    Names path value key ↔ ∃ e ∈ value.entries, Names (path ++ [e.1]) e.2 key := by
  constructor
  · rintro ⟨p, hp, hne, rfl⟩
    cases p with
    | nil =>
      obtain ⟨a, ha⟩ := hp
      rw [TomlValue.nodes_nil] at ha
      cases value with
      | scalar s => exact absurd rfl (hleaf s)
      | array items => cases ha
      | table table => cases ha
    | cons k p =>
      obtain ⟨inner, hinner, hrest⟩ := TomlValue.leafAt_cons.mp hp
      exact ⟨(k, inner), TomlTable.mem_of_get hinner, p, hrest, by simp, by simp⟩
  · rintro ⟨⟨k, inner⟩, hmem, p, hp, _, rfl⟩
    have hchild : value.child k = some inner :=
      TomlTable.get_of_mem hdistinct.nodup_entries hmem
    exact ⟨k :: p, TomlValue.leafAt_cons.mpr ⟨inner, hchild, hp⟩, by simp, by simp⟩

theorem recordItems_eq (m : ConfigLayerMetadata) (items : List TomlValue) (idx : Nat)
    (path : List Text) (origins : Origins) :
    recordItems m items idx path origins =
      recordEntries m (TomlValue.indexed idx items) path origins := by
  induction items generalizing idx origins with
  | nil => rw [recordItems, TomlValue.indexed, recordEntries]
  | cons item items ih => rw [recordItems, TomlValue.indexed, recordEntries, ih]

theorem recordOrigins_entries (hleaf : ∀ s, value ≠ .scalar s) :
    recordOrigins m value path origins = recordEntries m value.entries path origins := by
  cases value with
  | scalar s => exact absurd rfl (hleaf s)
  | array items => rw [recordOrigins, recordItems_eq]; rfl
  | table table => rw [recordOrigins]; rfl

/-- What recording a value does to each key: its own are set, the others stay. -/
structure Records (m : ConfigLayerMetadata) (own : Text → Prop) (before after : Origins) :
    Prop where
  named : ∀ key, own key → after.lookup key = some m
  other : ∀ key, ¬ own key → after.lookup key = before.lookup key

/-- Recording entries one after the other. -/
theorem records_entries {entries : TomlTable}
    (h : ∀ e ∈ entries, ∀ origins, Records m (Names (path ++ [e.1]) e.2) origins
      (recordOrigins m e.2 (path ++ [e.1]) origins)) (origins : Origins) :
    Records m (fun key => ∃ e ∈ entries, Names (path ++ [e.1]) e.2 key) origins
      (recordEntries m entries path origins) := by
  induction entries generalizing origins with
  | nil =>
    refine ⟨?_, fun key _ => by rw [recordEntries]⟩
    rintro key ⟨e, he, _⟩
    cases he
  | cons e es ih =>
    have hfirst := h e List.mem_cons_self origins
    have hrest := ih (fun e' he' => h e' (List.mem_cons_of_mem _ he'))
      (recordOrigins m e.2 (path ++ [e.1]) origins)
    rw [recordEntries]
    constructor
    · rintro key ⟨e', he', hnames⟩
      by_cases hlater : ∃ e' ∈ es, Names (path ++ [e'.1]) e'.2 key
      · exact hrest.named key hlater
      · rcases List.mem_cons.mp he' with rfl | hmem
        · rw [hrest.other key hlater]
          exact hfirst.named key hnames
        · exact absurd ⟨e', hmem, hnames⟩ hlater
    · intro key hnone
      rw [hrest.other key fun ⟨e', he', hnames⟩ =>
        hnone ⟨e', List.mem_cons_of_mem _ he', hnames⟩]
      exact hfirst.other key fun hnames => hnone ⟨e, List.mem_cons_self, hnames⟩

/-- **Recording a value** sets the keys of its leaves and no others. -/
theorem records_recordOrigins (m : ConfigLayerMetadata) :
    ∀ (value : TomlValue) (path : List Text) (origins : Origins), value.DistinctKeys →
      Records m (Names path value) origins (recordOrigins m value path origins) := by
  intro value
  induction hsize : value.size using Nat.strong_induction_on generalizing value with
  | _ size ih =>
    intro path origins hdistinct
    by_cases hleaf : ∃ s, value = .scalar s
    · obtain ⟨s, rfl⟩ := hleaf
      rw [recordOrigins]
      constructor
      · intro key hnames
        obtain ⟨hne, rfl⟩ := names_scalar.mp hnames
        rw [if_neg (by simpa using hne), AList.lookup_insert]
      · intro key hnames
        by_cases hempty : path.isEmpty = true
        · rw [if_pos hempty]
        · have hne : key ≠ dotted path := by
            rintro rfl
            exact hnames (names_scalar.mpr ⟨by simpa using hempty, rfl⟩)
          rw [if_neg hempty, AList.lookup_insert_ne hne]
    · have hnot : ∀ s, value ≠ .scalar s := fun s heq => hleaf ⟨s, heq⟩
      have hentry : ∀ e ∈ value.entries, ∀ origins, Records m (Names (path ++ [e.1]) e.2) origins
          (recordOrigins m e.2 (path ++ [e.1]) origins) := by
        intro e he origins
        exact ih _ (hsize ▸ TomlValue.size_lt_of_mem_entries he) e.2 rfl _ origins
          (TomlValue.EachTable.entries hdistinct e he)
      have hentries := records_entries hentry origins
      rw [recordOrigins_entries hnot]
      constructor
      · intro key hnames
        exact hentries.named key ((names_iff_entries hdistinct hnot).mp hnames)
      · intro key hnames
        exact hentries.other key fun h => hnames ((names_iff_entries hdistinct hnot).mpr h)

/-- The highest of the layers that have a leaf under the key. -/
def RecordedBy (layers : List ConfigLayerEntry) (key : Text) (m : ConfigLayerMetadata) : Prop :=
  ∃ before layer rest, layers = before ++ layer :: rest ∧ Names [] layer.normalized key ∧
    (∀ e ∈ rest, ¬ Names [] e.normalized key) ∧ m = layer.metadata

/-- **Who recorded a key** last. -/
theorem lookup_origins (stack : ConfigLayerStack)
    (hdistinct : ∀ layer ∈ stack.enabled, layer.normalized.DistinctKeys) :
    stack.origins.lookup key = some m ↔ RecordedBy stack.enabled key m := by
  unfold ConfigLayerStack.origins
  generalize stack.enabled = layers at hdistinct
  induction layers using List.reverseRecOn with
  | nil =>
    rw [List.foldl_nil, AList.lookup_empty]
    constructor
    · intro h
      cases h
    · rintro ⟨before, layer, rest, heq, _⟩
      exact absurd heq (by simp)
  | append_singleton layers top ih =>
    have htop := records_recordOrigins top.metadata top.normalized []
      (layers.foldl (fun origins layer =>
        recordOrigins layer.metadata (normalizedWithKeyAliases [] layer.config) [] origins) ∅)
      (hdistinct top List.mem_concat_self)
    have hlower := ih fun layer hlayer => hdistinct layer (List.mem_append_left _ hlayer)
    rw [List.foldl_concat]
    by_cases hnames : Names [] top.normalized key
    · have hset := htop.named key hnames
      rw [ConfigLayerEntry.normalized] at hset
      rw [hset]
      constructor
      · intro h
        exact ⟨layers, top, [], rfl, hnames, by simp, (Option.some.inj h).symm⟩
      · rintro ⟨before, layer, rest, heq, _, hrest, rfl⟩
        rcases List.eq_nil_or_concat rest with rfl | ⟨rest, last, rfl⟩
        · obtain ⟨_, hlast⟩ := List.append_inj' heq rfl
          rw [List.singleton_inj.mp hlast]
        · rw [List.concat_eq_append, ← List.cons_append, ← List.append_assoc] at heq
          obtain ⟨_, hlast⟩ := List.append_inj' heq rfl
          obtain rfl := List.singleton_inj.mp hlast
          exact absurd hnames (hrest top (by simp))
    · have hkeep := htop.other key hnames
      rw [ConfigLayerEntry.normalized] at hkeep
      rw [hkeep, hlower]
      constructor
      · rintro ⟨before, layer, rest, rfl, hlayer, hrest, rfl⟩
        refine ⟨before, layer, rest ++ [top], by simp, hlayer, ?_, rfl⟩
        intro e he
        rcases List.mem_append.mp he with hmem | hmem
        · exact hrest e hmem
        · exact List.mem_singleton.mp hmem ▸ hnames
      · rintro ⟨before, layer, rest, heq, hlayer, hrest, rfl⟩
        rcases List.eq_nil_or_concat rest with rfl | ⟨rest, last, rfl⟩
        · obtain ⟨_, hlast⟩ := List.append_inj' heq rfl
          exact absurd (List.singleton_inj.mp hlast ▸ hlayer) hnames
        · rw [List.concat_eq_append, ← List.cons_append, ← List.append_assoc] at heq
          obtain ⟨rfl, _⟩ := List.append_inj' heq rfl
          exact ⟨before, layer, rest, rfl, hlayer,
            fun e he => hrest e (by simp [he]), rfl⟩

end Recording

/-! ### Keys of normalised values -/

section Keys

variable {P : List Text → Prop} {path p : List Text} {value : TomlValue}

mutual

/-- A condition on the keys of a table that survives the renaming of one holds of the tables
    of the normalised value. -/
theorem eachTable_normalized
    (hP : ∀ path table, P (TomlTable.keys table) → P (normalizeKeyAliases path table).keys)
    (path : List Text) : ∀ value : TomlValue, value.EachTable P →
      (normalizedWithKeyAliases path value).EachTable P
  | .scalar _, _ => by
      rw [normalizedWithKeyAliases]
      trivial
  | .array items, h => by
      rw [normalizedWithKeyAliases]
      exact eachTable_normalizedItems hP path items h
  | .table entries, h => by
      have hentries := eachTable_normalizedEntries hP path entries h.2
      have hkeys : P (TomlTable.keys (normalizedEntries path entries)) := by
        rw [keys_normalizedEntries]
        exact h.1
      rw [normalizedWithKeyAliases]
      refine ⟨hP _ _ hkeys, ?_⟩
      rw [TomlValue.eachTableEntries_iff] at hentries ⊢
      intro e he
      rcases mem_normalizeKeyAliases he with hmem | ⟨_, hmem⟩
      · exact hentries e hmem
      · exact hentries (memoriesAlias.legacyKey, e.2) hmem

theorem eachTable_normalizedItems
    (hP : ∀ path table, P (TomlTable.keys table) → P (normalizeKeyAliases path table).keys)
    (path : List Text) : ∀ items : List TomlValue, TomlValue.EachTableItems P items →
      TomlValue.EachTableItems P (normalizedItems path items)
  | [], _ => by
      rw [normalizedItems]
      trivial
  | item :: items, h => by
      rw [normalizedItems]
      exact ⟨eachTable_normalized hP path item h.1, eachTable_normalizedItems hP path items h.2⟩

theorem eachTable_normalizedEntries
    (hP : ∀ path table, P (TomlTable.keys table) → P (normalizeKeyAliases path table).keys)
    (path : List Text) : ∀ entries : List (Text × TomlValue),
      TomlValue.EachTableEntries P entries →
        TomlValue.EachTableEntries P (normalizedEntries path entries)
  | [], _ => by
      rw [normalizedEntries]
      trivial
  | e :: es, h => by
      rw [normalizedEntries]
      exact ⟨eachTable_normalized hP _ e.2 h.1, eachTable_normalizedEntries hP path es h.2⟩

end

theorem ConfigLayerEntry.distinct_normalized (layer : ConfigLayerEntry) :
    layer.normalized.DistinctKeys :=
  eachTable_normalized (fun _ _ h => nodup_normalizeKeyAliases h) [] layer.config layer.distinct

theorem dotFree_normalized (h : value.DotFree) :
    (normalizedWithKeyAliases path value).DotFree := by
  apply eachTable_normalized _ path value h
  intro path table hkeys key hkey
  obtain ⟨e, he, rfl⟩ := List.mem_map.mp hkey
  rcases mem_normalizeKeyAliases he with hmem | ⟨hcanonical, _⟩
  · have hkeymem : e.1 ∈ TomlTable.keys table := TomlTable.mem_keys_of_mem hmem
    exact hkeys _ hkeymem
  · rw [hcanonical]
    decide

theorem TomlValue.DotFree.leaf (h : value.DotFree) (hleaf : LeafAt value.nodes p) :
    ∀ key ∈ p, '.' ∉ key := by
  induction p generalizing value with
  | nil =>
    intro key hkey
    cases hkey
  | cons k p ih =>
    obtain ⟨inner, hinner, hrest⟩ := TomlValue.leafAt_cons.mp hleaf
    have hk : '.' ∉ k := by
      have hmem := TomlTable.mem_keys_of_mem (TomlTable.mem_of_get hinner)
      cases value with
      | scalar s => cases hmem
      | array items =>
        obtain ⟨i, _, rfl⟩ := TomlValue.keys_indexed hmem
        exact dot_notMem_indexText i
      | table table => exact TomlValue.EachTable.keys_of_table h k hmem
    intro key hkey
    rcases List.mem_cons.mp hkey with rfl | hmem
    · exact hk
    · exact ih (TomlValue.EachTable.child h hinner) hrest key hmem

/-- Without dots in the keys a dotted path stands for one path. -/
theorem dotted_injective {q : List Text} (hp : p ≠ []) (hq : q ≠ []) (hdotp : ∀ k ∈ p, '.' ∉ k)
    (hdotq : ∀ k ∈ q, '.' ∉ k) (h : dotted p = dotted q) : p = q := by
  rw [← splitOn_joinWith hp hdotp, ← splitOn_joinWith hq hdotq]
  exact congrArg (splitOn '.') h

/-- With dot-free keys a leaf is named by its own path only. -/
theorem names_dotted_iff (h : value.DotFree) (hp : p ≠ []) (hdot : ∀ k ∈ p, '.' ∉ k) :
    Names [] value (dotted p) ↔ LeafAt value.nodes p := by
  constructor
  · rintro ⟨q, hq, hne, heq⟩
    obtain rfl := dotted_injective hp hne hdot (h.leaf hq) heq
    exact hq
  · intro hleaf
    exact ⟨p, hleaf, hp, rfl⟩

end Keys

/-! ### The comparison -/

section Comparison

variable (stack : ConfigLayerStack)

/-- **The origins match** the merged configuration: each of its leaves has the entry of the
    highest enabled layer with a leaf at its path, and the value of that leaf; and there are no
    other entries. -/
structure OriginsMatch : Prop where
  leaf : ∀ path s, path ≠ [] → stack.effectiveConfig.nodes path = some (.leaf s) →
    ∃ before layer rest, stack.enabled = before ++ layer :: rest ∧
      layer.normalized.nodes path = some (.leaf s) ∧
      (∀ e ∈ rest, ¬ LeafAt e.normalized.nodes path) ∧
      stack.origins.lookup (dotted path) = some layer.metadata
  origin : ∀ key, (stack.origins.lookup key).isSome →
    ∃ path, path ≠ [] ∧ key = dotted path ∧ LeafAt stack.effectiveConfig.nodes path

/-- **No leaf is left behind**: where a layer is the highest with a leaf at a path, no layer
    above it has anything on the way to the leaf that is not a table over a table. -/
def NoneReplaced : Prop :=
  ∀ before layer rest, stack.enabled = before ++ layer :: rest →
    ∀ path, path ≠ [] → LeafAt layer.normalized.nodes path →
      (∀ e ∈ rest, ¬ LeafAt e.normalized.nodes path) →
        ∀ e ∈ rest, ¬ Blocked layer.normalized.nodes e.normalized.nodes path

variable {stack}

theorem effectiveConfig_leaf_iff {path : List Text} {s : TomlScalar} (hpath : path ≠ []) :
    stack.effectiveConfig.nodes path = some (.leaf s) ↔
      ∃ before layer rest, stack.enabled = before ++ layer :: rest ∧
        layer.normalized.nodes path = some (.leaf s) ∧
        ∀ e ∈ rest, ¬ LeafAt e.normalized.nodes path ∧
          ¬ Blocked layer.normalized.nodes e.normalized.nodes path := by
  rw [nodes_effectiveConfig, stack_leaf_iff]
  · constructor
    · rintro ⟨before, d, rest, heq, hleaf, hrest⟩
      obtain ⟨before, tail, hsplit, rfl, htail⟩ := List.map_eq_append_iff.mp heq
      obtain ⟨layer, rest, rfl, rfl, rfl⟩ := List.map_eq_cons_iff.mp htail
      exact ⟨before, layer, rest, hsplit, hleaf, fun e he => hrest _ (List.mem_map_of_mem he)⟩
    · rintro ⟨before, layer, rest, heq, hleaf, hrest⟩
      refine ⟨before.map fun layer => layer.normalized.nodes, layer.normalized.nodes,
        rest.map fun layer => layer.normalized.nodes, by rw [heq]; simp, hleaf, ?_⟩
      intro e he
      obtain ⟨layer', hlayer', rfl⟩ := List.mem_map.mp he
      exact hrest layer' hlayer'
  · intro d hd
    obtain ⟨layer, _, rfl⟩ := List.mem_map.mp hd
    exact TomlValue.rooted_nodes _
  · rintro ⟨a, ha⟩
    cases path with
    | nil => exact hpath rfl
    | cons k path =>
      rw [nodes_table_cons] at ha
      cases ha

theorem dotFree_enabled (h : ∀ layer ∈ stack.layers, layer.config.DotFree) :
    ∀ layer ∈ stack.enabled, layer.normalized.DotFree := by
  intro layer hlayer
  exact dotFree_normalized (h layer (List.mem_filter.mp hlayer).1)

theorem lookup_origins_enabled {key : Text} {m : ConfigLayerMetadata} :
    stack.origins.lookup key = some m ↔ RecordedBy stack.enabled key m :=
  lookup_origins stack fun layer _ => layer.distinct_normalized

/-- A leaf that is left behind keeps its entry. -/
theorem OriginsMatch.noneReplaced (h : ∀ layer ∈ stack.layers, layer.config.DotFree)
    (hmatch : OriginsMatch stack) : NoneReplaced stack := by
  intro before layer rest heq path hpath hleaf hrest e he hblocked
  have hdotfree := dotFree_enabled h
  have hmem : ∀ e, e = layer ∨ e ∈ rest → e ∈ stack.enabled := by
    intro e he
    rw [heq]
    rcases he with rfl | he <;> simp [*]
  have hdot := (hdotfree layer (hmem layer (.inl rfl))).leaf hleaf
  have hrecorded : stack.origins.lookup (dotted path) = some layer.metadata := by
    rw [lookup_origins_enabled]
    refine ⟨before, layer, rest, heq, ⟨path, hleaf, hpath, rfl⟩, ?_, rfl⟩
    intro e he hnames
    exact hrest e he ((names_dotted_iff (hdotfree e (hmem e (.inr he))) hpath hdot).mp hnames)
  obtain ⟨path', hpath', hdotted, a, ha⟩ := hmatch.origin (dotted path) (by rw [hrecorded]; rfl)
  have hsame : path' = path := by
    obtain ⟨_, layer', _, heq', hleaf', _⟩ := (effectiveConfig_leaf_iff hpath').mp ha
    have hmem' : layer' ∈ stack.enabled := by simp [heq']
    have hdot' := (hdotfree layer' hmem').leaf ⟨a, hleaf'⟩
    exact dotted_injective hpath' hpath hdot' hdot hdotted.symm
  subst hsame
  -- the merged configuration has no leaf there
  rw [nodes_effectiveConfig, heq, List.map_append, List.map_cons] at ha
  refine not_leafAt_of_blocked (TomlValue.rooted_nodes layer.normalized) hleaf
    (by simpa using hrest) ?_ ⟨a, ha⟩
  exact ⟨e.normalized.nodes, List.mem_map_of_mem he, hblocked⟩

theorem NoneReplaced.originsMatch (h : ∀ layer ∈ stack.layers, layer.config.DotFree)
    (hnone : NoneReplaced stack) : OriginsMatch stack := by
  have hdotfree := dotFree_enabled h
  constructor
  · intro path s hpath hleaf
    obtain ⟨before, layer, rest, heq, htop, hrest⟩ := (effectiveConfig_leaf_iff hpath).mp hleaf
    have hlayer : layer ∈ stack.enabled := by simp [heq]
    have hdot := (hdotfree layer hlayer).leaf ⟨s, htop⟩
    refine ⟨before, layer, rest, heq, htop, fun e he => (hrest e he).1, ?_⟩
    rw [lookup_origins_enabled]
    refine ⟨before, layer, rest, heq, ⟨path, ⟨s, htop⟩, hpath, rfl⟩, ?_, rfl⟩
    intro e he hnames
    have hmem : e ∈ stack.enabled := by simp [heq, he]
    exact (hrest e he).1 ((names_dotted_iff (hdotfree e hmem) hpath hdot).mp hnames)
  · intro key hkey
    obtain ⟨m, hm⟩ := Option.isSome_iff_exists.mp hkey
    obtain ⟨before, layer, rest, heq, ⟨path, ⟨s, hs⟩, hpath, rfl⟩, hrest, rfl⟩ :=
      lookup_origins_enabled.mp hm
    have hhighest : ∀ e ∈ rest, ¬ LeafAt e.normalized.nodes path :=
      fun e he hleaf => hrest e he ⟨path, hleaf, hpath, rfl⟩
    refine ⟨path, hpath, rfl, s, (effectiveConfig_leaf_iff hpath).mpr ?_⟩
    refine ⟨before, layer, rest, heq, hs, ?_⟩
    intro e he
    exact ⟨hhighest e he, hnone before layer rest heq path hpath ⟨s, hs⟩ hhighest e he⟩

end Comparison

/-- **When the origins match.** With keys that have no dots the origins match the merged
    configuration exactly if no leaf is left behind. -/
theorem originsMatch_iff (stack : ConfigLayerStack)
    (h : ∀ layer ∈ stack.layers, layer.config.DotFree) :
    OriginsMatch stack ↔ NoneReplaced stack :=
  ⟨OriginsMatch.noneReplaced h, NoneReplaced.originsMatch h⟩

/-! ### A shorter array over a longer one -/

def notifyConfig (words : List String) : TomlValue :=
  .table [("notify".toList,
    .array (words.map fun word => .scalar (.string word.toList)))]

theorem notifyConfig_distinct (words : List String) : (notifyConfig words).DistinctKeys := by
  refine ⟨by simp, ?_, trivial⟩
  show TomlValue.EachTableItems _ _
  induction words with
  | nil => trivial
  | cons word words ih => exact ⟨trivial, ih⟩

theorem notifyConfig_dotFree (words : List String) : (notifyConfig words).DotFree := by
  refine ⟨by simp, ?_, trivial⟩
  show TomlValue.EachTableItems _ _
  induction words with
  | nil => trivial
  | cons word words ih => exact ⟨trivial, ih⟩

/-- The user's file sets a command of two words. -/
def userLayer : ConfigLayerEntry where
  name := .user "/home/u/.codex/config.toml".toList
  config := notifyConfig ["python3", "notify.py"]
  version := "sha256:1".toList
  distinct := notifyConfig_distinct _

/-- A flag of the session sets one of a single word. -/
def sessionLayer : ConfigLayerEntry where
  name := .sessionFlags
  config := notifyConfig ["true"]
  version := "sha256:2".toList
  distinct := notifyConfig_distinct _

theorem notify_dotFree :
    ∀ layer ∈ (ConfigLayerStack.mk [userLayer, sessionLayer]).layers, layer.config.DotFree := by
  intro layer hlayer
  rcases List.mem_cons.mp hlayer with rfl | hmem
  · exact notifyConfig_dotFree _
  · obtain rfl := List.mem_singleton.mp hmem
    exact notifyConfig_dotFree _

theorem originsMatch_iff_notify :
    OriginsMatch ⟨[userLayer, sessionLayer]⟩ ↔ NoneReplaced ⟨[userLayer, sessionLayer]⟩ :=
  originsMatch_iff ⟨[userLayer, sessionLayer]⟩ notify_dotFree

/-- The second word of the user's command keeps its entry `notify.1`. -/
theorem notify_origins_differ : ¬ ∀ stack : ConfigLayerStack,
    (∀ layer ∈ stack.layers, layer.config.DotFree) → OriginsMatch stack := by
  intro h
  have hnone := (h ⟨[userLayer, sessionLayer]⟩ notify_dotFree).noneReplaced notify_dotFree
  have hword : userLayer.normalized.nodes ["notify".toList, "1".toList] =
      some (.leaf (.string "notify.py".toList)) := by decide +kernel
  have habsent : sessionLayer.normalized.nodes ["notify".toList, "1".toList] = none := by
    decide +kernel
  have harray : sessionLayer.normalized.nodes ["notify".toList] = some .closed := by
    decide +kernel
  refine hnone [] userLayer [sessionLayer] rfl ["notify".toList, "1".toList] (by simp)
    ⟨_, hword⟩ ?_ sessionLayer List.mem_cons_self ?_
  · intro e he
    obtain rfl := List.mem_singleton.mp he
    rintro ⟨a, ha⟩
    rw [habsent] at ha
    cases ha
  · refine ⟨["notify".toList], by simp, by rw [harray]; rfl, ?_⟩
    rw [harray]
    simp

end CodexMonitor.Config
