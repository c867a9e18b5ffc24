import CodexMonitor.Lib.Tasks
import CodexMonitor.Config.Toml

namespace CodexMonitor.Config

open Text

/-!
# Config — layers of configuration

`merge.rs`, `fingerprint.rs`, `key_aliases.rs` and `state.rs` of the crate `codex-config`: the
configuration is read from several layers, which are merged from the lowest to the highest, and
for each setting the layer is kept that it comes from.

* `normalizedWithKeyAliases` — legacy keys are renamed to the ones in use now.
* `mergeTomlValues` — one layer over what was merged before.
* `recordOrigins` — the leaves of a layer under their dotted paths.
* `ConfigLayerStack.effectiveConfig`, `ConfigLayerStack.origins` — both for all enabled layers.
-/

/-! ### Aliases -/

structure ConfigKeyAlias where
  tablePath : List Text
  legacyKey : Text
  canonicalKey : Text

def memoriesAlias : ConfigKeyAlias where
  tablePath := ["memories".toList]
  legacyKey := "no_memories_if_mcp_or_web_search".toList
  canonicalKey := "disable_on_external_context".toList

def configKeyAliases : List ConfigKeyAlias := [memoriesAlias]

/-- A value under the canonical key stays; the legacy one is dropped then. -/
def ConfigKeyAlias.apply (path : List Text) (table : TomlTable) (keyAlias : ConfigKeyAlias) :
    TomlTable :=
  if path = keyAlias.tablePath then
    match table.get keyAlias.legacyKey with
    | some value =>
        (table.remove keyAlias.legacyKey).entryOrInsert keyAlias.canonicalKey value
    | none => table
  else table

def normalizeKeyAliases (path : List Text) (table : TomlTable) : TomlTable :=
  configKeyAliases.foldl (ConfigKeyAlias.apply path) table

mutual

def normalizedWithKeyAliases (path : List Text) : TomlValue → TomlValue
  | .table table => .table (normalizeKeyAliases path (normalizedEntries path table))
  | .array items => .array (normalizedItems path items)
  | .scalar s => .scalar s

/-- The elements of an array are normalised under the path of the array. -/
def normalizedItems (path : List Text) : List TomlValue → List TomlValue
  | [] => []
  | item :: items => normalizedWithKeyAliases path item :: normalizedItems path items

def normalizedEntries (path : List Text) : List (Text × TomlValue) → List (Text × TomlValue)
  | [] => []
  | e :: es =>
      (e.1, normalizedWithKeyAliases (path ++ [e.1]) e.2) :: normalizedEntries path es

end

/-! ### Merging -/

theorem size_normalizeKeyAliases_le (path : List Text) (table : TomlTable) :
    TomlValue.sizeEntries (normalizeKeyAliases path table) ≤ TomlValue.sizeEntries table := by
  unfold normalizeKeyAliases
  generalize configKeyAliases = aliases
  induction aliases generalizing table with
  | nil => exact Nat.le_refl _
  | cons keyAlias aliases ih =>
    refine Nat.le_trans (ih _) ?_
    unfold ConfigKeyAlias.apply
    split
    · split
      · next value hvalue =>
        have hremove := TomlTable.size_remove_of_get hvalue
        unfold TomlTable.entryOrInsert
        split
        · omega
        · exact Nat.le_trans TomlTable.size_insert_le hremove
      · exact Nat.le_refl _
    · exact Nat.le_refl _

mutual

def mergeTomlValuesAtPath (path : List Text) (base overlay : TomlValue) : TomlValue :=
  match overlay, base with
  | .table overlayTable, .table baseTable =>
      .table (mergeTables path (normalizeKeyAliases path baseTable)
        (normalizeKeyAliases path overlayTable))
  | overlay, _ => normalizedWithKeyAliases path overlay
termination_by overlay.size
decreasing_by
  have hle := size_normalizeKeyAliases_le path overlayTable
  rw [TomlValue.size]
  omega

/-- The loop over the entries of the overlay. -/
def mergeTables (path : List Text) (baseTable : TomlTable) : TomlTable → TomlTable
  | [] => baseTable
  | (key, value) :: rest =>
      let merged := match baseTable.get key with
        | some existing => mergeTomlValuesAtPath (path ++ [key]) existing value
        | none => normalizedWithKeyAliases (path ++ [key]) value
      mergeTables path (baseTable.insert key merged) rest
termination_by overlayTable => TomlValue.sizeEntries overlayTable
decreasing_by
  · rw [TomlValue.sizeEntries]
    show value.size < 1 + value.size + _
    omega
  · rw [TomlValue.sizeEntries]
    omega

end

def mergeTomlValues (base overlay : TomlValue) : TomlValue := mergeTomlValuesAtPath [] base overlay

/-! ### Origins -/

inductive ConfigLayerSource
  | mdm (domain key : Text)
  | system (file : Text)
  | user (file : Text)
  | project (dotCodexFolder : Text)
  | sessionFlags
  | legacyManagedConfigTomlFromFile (file : Text)
  | legacyManagedConfigTomlFromMdm
  deriving DecidableEq, Repr

structure ConfigLayerMetadata where
  name : ConfigLayerSource
  version : Text
  deriving DecidableEq, Repr

abbrev Origins := Registry Text ConfigLayerMetadata

/-- `path.join(".")` -/
def dotted (path : List Text) : Text := joinWith ".".toList path

mutual

/-- Each leaf is recorded under its path.  Indices of arrays do not reach the bound of the
    counter, a signed number of 32 bits. -/
def recordOrigins (metadata : ConfigLayerMetadata) : TomlValue → List Text → Origins → Origins
  | .table table, path, origins => recordEntries metadata table path origins
  | .array items, path, origins => recordItems metadata items 0 path origins
  | .scalar _, path, origins =>
      if path.isEmpty then origins else origins.insert (dotted path) metadata

def recordItems (metadata : ConfigLayerMetadata) :
    List TomlValue → Nat → List Text → Origins → Origins
  | [], _, _, origins => origins
  | item :: items, idx, path, origins =>
      recordItems metadata items (idx + 1) path
        (recordOrigins metadata item (path ++ [indexText idx]) origins)

def recordEntries (metadata : ConfigLayerMetadata) :
    List (Text × TomlValue) → List Text → Origins → Origins
  | [], _, origins => origins
  | e :: es, path, origins =>
      recordEntries metadata es path (recordOrigins metadata e.2 (path ++ [e.1]) origins)

end

/-! ### The stack -/

/-- A layer; a parsed table has no key twice. -/
structure ConfigLayerEntry where
  name : ConfigLayerSource
  config : TomlValue
  version : Text
  disabledReason : Option Text := none
  distinct : config.DistinctKeys

namespace ConfigLayerEntry

def isDisabled (layer : ConfigLayerEntry) : Bool := layer.disabledReason.isSome

def metadata (layer : ConfigLayerEntry) : ConfigLayerMetadata := ⟨layer.name, layer.version⟩

/-- The config of the layer with the aliases of its keys resolved. -/
def normalized (layer : ConfigLayerEntry) : TomlValue := normalizedWithKeyAliases [] layer.config

end ConfigLayerEntry

inductive ConfigLayerStackOrdering
  | lowestPrecedenceFirst
  | highestPrecedenceFirst
  deriving DecidableEq, Repr

/-- The layers, from the lowest precedence to the highest. -/
structure ConfigLayerStack where
  layers : List ConfigLayerEntry

namespace ConfigLayerStack

def getLayers (stack : ConfigLayerStack) (ordering : ConfigLayerStackOrdering)
    (includeDisabled : Bool) : List ConfigLayerEntry :=
  let layers := stack.layers.filter fun layer => includeDisabled || !layer.isDisabled
  if ordering = .highestPrecedenceFirst then layers.reverse else layers

/-- The enabled layers in the order in which they are merged. -/
def enabled (stack : ConfigLayerStack) : List ConfigLayerEntry :=
  stack.getLayers .lowestPrecedenceFirst false

def effectiveConfig (stack : ConfigLayerStack) : TomlValue :=
  stack.enabled.foldl (fun merged layer => mergeTomlValues merged layer.config) (.table [])

def origins (stack : ConfigLayerStack) : Origins :=
  stack.enabled.foldl (fun origins layer =>
    recordOrigins layer.metadata (normalizedWithKeyAliases [] layer.config) [] origins) ∅

end ConfigLayerStack

end CodexMonitor.Config
