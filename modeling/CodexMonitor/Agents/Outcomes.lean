import CodexMonitor.Agents.Files

namespace CodexMonitor.Agents

open OrderedMap Faulty

/-!
# Agents — what creating and deleting leave

Each operation either succeeds, or it fails and has undone what it did, as far as it does.

* `Kept` — `config.toml` and the files of the roles are as before.
* `Harmless` — the failing calls after which they are.
* `node_undone_of_apart`, `node_undone_of_moved`, `node_restored` — what the compensating calls
  restore.
* `create_triple`, `delete_triple` — the two operations, on success and on failure.
-/

/-! ### The condition -/

/-- `config.toml` and every file in the directory of the agents are as before. -/
def Kept (d d' : Home) : Prop :=
  ∀ p, p = configPath ∨ [managedAgentsDir] <+: p → d'.file p = d.file p

/-- The plan that an update makes from what is on the disk. -/
def updatePlan (toml : TomlEdit) (input : UpdateAgentInput) (d : Home) : Option UpdatePlan := do
  let originalName ← (normalizeAgentLookupName input.originalName).toOption
  let name ← (normalizeAgentName input.name).toOption
  let document ← configDocument toml d
  (planUpdate input originalName name document).toOption

namespace UpdatePlan

/-- The file of the role before the update. -/
def source (plan : UpdatePlan) : Option Path := plan.configFile.bind managedRelativePathFromConfig

/-- The file that gets the instructions, if the input has some. -/
def target (plan : UpdatePlan) (input : UpdateAgentInput) : Option Path :=
  if input.developerInstructions.isSome then
    plan.nextConfigFile.bind managedRelativePathFromConfig
  else none

end UpdatePlan

/-- `config.toml` as it is written for a document. -/
def configContent (toml : TomlEdit) (document : Document) : ByteArray :=
  encodeUtf8 (withNewline (toml.render document))

/-- The update writes what is there already. -/
def Idle (toml : TomlEdit) (input : UpdateAgentInput) (plan : UpdatePlan) (d : Home) : Prop :=
  d.file configPath = some (configContent toml
      (plan.nextDocument (normalizeOptionalString input.description))) ∧
    ∀ p, plan.target input = some p → ∀ bytes, upsertedContent toml (d.file p)
      (normalizeOptionalString input.developerInstructions) = .ok bytes → d.file p = some bytes

/-- A failed write of `config.toml` left nothing, or what was there. -/
def ConfigUnspoiled (d : Home) (f : FileFault) : Prop :=
  written f = none ∨ written f = d.file configPath

/-- The same for an update: a call between the move and the rewriting is harmless where nothing was
    moved, and a call at the end where nothing was changed. -/
def HarmlessUpdate (toml : TomlEdit) (d : Home) (f : FileFault) (input : UpdateAgentInput)
    (plan : UpdatePlan) : Prop :=
  match f.call.step with
  | .targetPath => ∀ old new, plan.move = some (old, new) → ∀ p, old <+: p → d.file p = none
  | .instructions => ∀ p, plan.source = some p → written f = none ∨ written f = d.file p
  | .persist => ConfigUnspoiled d f
  | .reload => Idle toml input plan d
  | _ => True

/-- **The failing calls that an operation undoes**, or that have nothing to undo. -/
def Harmless (toml : TomlEdit) (d : Home) (f : FileFault) : AgentsRequest → Prop
  | .create _ =>
      match f.call.step with
      | .create => written f = none
      | .persist => ConfigUnspoiled d f
      | .reload => False
      | _ => True
  | .update input => ∀ plan, updatePlan toml input d = some plan →
      HarmlessUpdate toml d f input plan
  | .delete _ =>
      match f.call.step with
      | .persist => ConfigUnspoiled d f
      | .reload => False
      | _ => True

theorem harmless_update {toml : TomlEdit} {d : Home} {f : FileFault} {input : UpdateAgentInput}
    {plan : UpdatePlan} (hplan : updatePlan toml input d = some plan) :
    Harmless toml d f (.update input) ↔ HarmlessUpdate toml d f input plan := by
  constructor
  · intro h
    exact h plan hplan
  · intro h plan' hplan'
    rwa [← Option.some.inj (hplan.symm.trans hplan')]

/-- The operation fails only with the files as before. -/
def AllOrNothing (toml : TomlEdit) (home : Text) (outside : Text → Bool) (d : Home)
    (fault : Option FileFault) (request : AgentsRequest) : Prop :=
  ∀ e m, request.run toml home outside fault ⟨d, false⟩ = (.error e, m) → Kept d m.state

/-! ### Disks that differ in one file -/

section Disks

variable {d d' made : Home} {old new path : Path} {v w : Option (Node ByteArray)}
  {bytes : ByteArray}

def fileOf : Option (Node ByteArray) → Option ByteArray
  | some (.file bytes) => some bytes
  | _ => none

theorem file_eq_fileOf (d : Home) (p : Path) : d.file p = fileOf (d.node p) := by
  unfold Disk.file fileOf
  cases d.node p with
  | none => rfl
  | some node => cases node <;> rfl

/-- What stands at a path after a write that failed. -/
def spoiledNode (left : Option ByteArray) (v : Option (Node ByteArray)) :
    Option (Node ByteArray) :=
  match left with
  | none => v
  | some bytes => some (.file bytes)

theorem fileOf_spoiled (left : Option ByteArray) :
    fileOf (spoiledNode left v) = fileOf v ↔ left = none ∨ left = fileOf v := by
  cases left with
  | none => simp [spoiledNode]
  | some bytes => simp [spoiledNode, fileOf]

theorem kept_of_sameFiles (h : Disk.SameFiles d d') : Kept d d' := fun p _ => (h p).symm

/-- Where all files but one are the same, this one decides. -/
theorem kept_iff (hsame : Disk.SameFiles d made) (hnode : d'.node = Function.update made.node path v)
    (hpath : path = configPath ∨ [managedAgentsDir] <+: path) :
    Kept d d' ↔ fileOf v = d.file path := by
  have hat : d'.file path = fileOf v := by rw [file_eq_fileOf, hnode, Function.update_self]
  constructor
  · intro h
    rw [← hat, h path hpath]
  · intro h p _
    by_cases hp : p = path
    · rw [hp, hat, h]
    · rw [hsame p]
      exact Disk.file_congr (by rw [hnode, Function.update_of_ne hp])

/-- Two paths of which neither is above the other. -/
def Apart (p q : Path) : Prop := ¬ p <+: q ∧ ¬ q <+: p

theorem apart_config {rest : Path} : Apart (managedAgentsDir :: rest) configPath := by
  constructor
  · intro h
    have := List.cons_prefix_cons.mp h
    exact absurd this.1 (by decide)
  · intro h
    have := List.cons_prefix_cons.mp h
    exact absurd this.1 (by decide)

theorem Apart.ne {p q : Path} (h : Apart p q) : p ≠ q := by
  rintro rfl
  exact h.1 List.prefix_rfl

theorem below_agents {rest : Path} : [managedAgentsDir] <+: managedAgentsDir :: rest := ⟨rest, rfl⟩

/-- The parent of a path is not another path that is apart. -/
theorem Apart.dropLast_ne {p q : Path} (h : Apart p q) : p.dropLast ≠ q := by
  rintro rfl
  exact h.2 (List.dropLast_prefix p)

theorem dropLast_ne_self {p : Path} (h : p ≠ []) : p.dropLast ≠ p := by
  intro heq
  have hlen := congrArg List.length heq
  have hpos := List.length_pos_of_ne_nil h
  rw [List.length_dropLast] at hlen
  omega

/-- The move back is possible after another path has changed. -/
theorem rename_back (hmove : made.Movable old new) (hfree : made.node new = none)
    {x : Path} (hx : d'.node = Function.update (made.move old new hmove).node x v)
    (hold : x ≠ old) (hparent : x ≠ old.dropLast) (hnew : x = new → v ≠ none) :
    ∃ h : d'.Movable new old, undone (some (old, new)) d' = d'.move new old h := by
  have habove := hmove.not_above hfree
  have hne : old ≠ [] := by
    rintro rfl
    exact hmove.2.2.2.1 List.nil_prefix
  have hexists : made.node old ≠ none := Option.isSome_iff_ne_none.mp hmove.1
  have hpresent : d'.present new = true := by
    rw [Disk.present, hx, Option.isSome_iff_ne_none]
    by_cases hxnew : x = new
    · rw [hxnew, Function.update_self]
      exact hnew hxnew
    · rw [Function.update_of_ne (Ne.symm hxnew), Disk.node_move_self]
      exact hexists
  have hgone : d'.present old = false := by
    rw [Disk.present, hx, Function.update_of_ne (Ne.symm hold),
      Disk.node_move_old hmove habove List.prefix_rfl]
    rfl
  have hle : old.dropLast <+: old := List.dropLast_prefix old
  have hdir : d'.isDir old.dropLast = true := by
    rw [Disk.isDir_iff, hx, Function.update_of_ne (Ne.symm hparent),
      Disk.node_move_of_not hmove (fun h => habove (h.trans hle))
        (fun h => dropLast_ne_self hne (hle.eq_of_length_le h.length_le))]
    exact Disk.dir_of_prefix hle (dropLast_ne_self hne) hexists
  have hback : d'.Movable new old := ⟨hpresent, hne, hdir, habove, .inl hgone⟩
  refine ⟨hback, ?_⟩
  have hrename : d'.rename new old = .ok (d'.move new old hback) := by
    unfold Disk.rename
    rw [dif_pos hback]
  simp only [undone, hpresent, if_true, after, hrename]
  rfl

/-- **Undoing the rename**, with another file changed. -/
theorem node_undone_of_apart (hmove : made.Movable old new) (hfree : made.node new = none)
    {x : Path} (hx : d'.node = Function.update (made.move old new hmove).node x v)
    (hold : Apart old x) (hnew : Apart new x) :
    (undone (some (old, new)) d').node = Function.update made.node x v := by
  obtain ⟨hback, hundone⟩ := rename_back hmove hfree hx hold.ne.symm hold.dropLast_ne.symm
    fun heq => absurd heq.symm hnew.ne
  rw [hundone]
  funext q
  by_cases hqold : old <+: q
  · obtain ⟨rest, rfl⟩ := hqold
    have hxq : old ++ rest ≠ x := fun h => hold.1 ⟨rest, h⟩
    have hxq' : new ++ rest ≠ x := fun h => hnew.1 ⟨rest, h⟩
    rw [Disk.node_move_new, hx, Function.update_of_ne hxq', Function.update_of_ne hxq,
      Disk.node_move_new]
  · by_cases hqnew : new <+: q
    · obtain ⟨rest, rfl⟩ := hqnew
      have hxq : new ++ rest ≠ x := fun h => hnew.1 ⟨rest, h⟩
      rw [Disk.node_move_old hback hqold (List.prefix_append _ _), Function.update_of_ne hxq,
        Disk.node_below_none hfree]
    · rw [Disk.node_move_of_not hback hqold hqnew, hx]
      by_cases hqx : q = x
      · rw [hqx, Function.update_self, Function.update_self]
      · rw [Function.update_of_ne hqx, Function.update_of_ne hqx,
          Disk.node_move_of_not hmove hqnew hqold]

/-- **Undoing the rename** of a file that was changed after it. -/
theorem node_undone_of_moved (hmove : made.Movable old new) (hfree : made.node new = none)
    (hv : v ≠ none) (hx : d'.node = Function.update (made.move old new hmove).node new v) :
    (undone (some (old, new)) d').node = Function.update made.node old v := by
  have habove := hmove.not_above hfree
  have hne : new ≠ old := by
    rintro rfl
    exact habove List.prefix_rfl
  obtain ⟨hback, hundone⟩ := rename_back hmove hfree hx hne
    (fun heq => habove (heq ▸ List.dropLast_prefix old)) fun _ => hv
  rw [hundone]
  funext q
  by_cases hqold : old <+: q
  · obtain ⟨rest, rfl⟩ := hqold
    rw [Disk.node_move_new, hx]
    by_cases hrest : rest = []
    · rw [hrest, List.append_nil, List.append_nil, Function.update_self, Function.update_self]
    · rw [Function.update_of_ne (fun h => hrest (List.append_right_eq_self.mp h)),
        Function.update_of_ne (fun h => hrest (List.append_right_eq_self.mp h)),
        Disk.node_move_new]
  · have hq : q ≠ old := fun h => hqold (h ▸ List.prefix_rfl)
    rw [Function.update_of_ne hq]
    by_cases hqnew : new <+: q
    · obtain ⟨rest, rfl⟩ := hqnew
      rw [Disk.node_move_old hback hqold (List.prefix_append _ _), Disk.node_below_none hfree]
    · have hq' : q ≠ new := fun h => hqnew (h ▸ List.prefix_rfl)
      rw [Disk.node_move_of_not hback hqold hqnew, hx, Function.update_of_ne hq',
        Disk.node_move_of_not hmove hqnew hqold]

/-- The move back after nothing else. -/
theorem undone_of_renamed {move renamed : Option (Path × Path)}
    (h : Renamed d move renamed d') : Disk.SameFiles d (undone renamed d') := by
  cases renamed with
  | none =>
    cases move with
    | none =>
      rw [show d' = d from h]
      exact Disk.SameFiles.refl d
    | some pair => exact h.1
  | some pair =>
    cases move with
    | none => exact h.elim
    | some move =>
      obtain ⟨rfl, made, hmove, hsame, hfree, _, _, rfl⟩ := h
      have hback := Disk.move_move hmove hfree
      have hpresent : (made.move move.1 move.2 hmove).present move.2 = true := by
        rw [Disk.present, Disk.node_move_self]
        exact hmove.1
      simp only [undone, hpresent, if_true, after, hback]
      exact hsame

/-- A file that is written over another one, or where nothing was, beside a change of
    `config.toml`. -/
structure Rewritten (d : Home) (path : Path) (w v : Option (Node ByteArray)) (d' : Home) :
    Prop where
  placed : Placed d path
  apart : Apart path configPath
  notDir : w = none ∨ ∃ bytes, w = some (.file bytes)
  node : d'.node = Function.update (Function.update d.node path w) configPath v

theorem Rewritten.node_path (h : Rewritten d path w v d') : d'.node path = w := by
  rw [h.node, Function.update_of_ne h.apart.ne, Function.update_self]

theorem Rewritten.isDir (h : Rewritten d path w v d') : d'.isDir path = false := by
  rw [Disk.isDir, h.node_path]
  rcases h.notDir with rfl | ⟨bytes, rfl⟩ <;> rfl

theorem Rewritten.isLink (h : Rewritten d path w v d') : d'.isLink path = false := by
  rw [Disk.isLink, h.node_path]
  rcases h.notDir with rfl | ⟨bytes, rfl⟩ <;> rfl

theorem Rewritten.writable (h : Rewritten d path w v d') : d'.Writable path := by
  refine ⟨h.placed.ne, h.isDir, ?_⟩
  rw [Disk.isDir_iff, h.node, Function.update_of_ne h.apart.dropLast_ne,
    Function.update_of_ne (dropLast_ne_self h.placed.ne)]
  exact Disk.isDir_iff.mp h.placed.parent

/-- Writing at the path or removing it overrides what was written before. -/
theorem Rewritten.update_update (h : Rewritten d path w v d') {u : Option (Node ByteArray)}
    (hu : d.node path = u) :
    Function.update d'.node path u = Function.update d.node configPath v := by
  rw [h.node, Function.update_comm h.apart.ne.symm, Function.update_idem, ← hu,
    Function.update_eq_self]

theorem Rewritten.node_write (h : Rewritten d path w v d') (hfile : d.file path = some bytes) :
    (after (fun d => (d.writeFile path bytes).map ((), ·)) d').node =
      Function.update d.node configPath v := by
  rw [after, Disk.writeFile_of_writable h.writable h.isLink]
  exact h.update_update (Disk.file_eq_some.mp hfile)

theorem Rewritten.node_remove (h : Rewritten d path (some (.file bytes)) v d')
    (hnone : d.node path = none) :
    (after (fun d => (d.removeFile path).map ((), ·)) d').node =
      Function.update d.node configPath v := by
  have hpresent : d'.present path = true := by
    rw [Disk.present, h.node_path]
    rfl
  have hremove : d'.removeFile path = .ok (d'.erase path h.isDir) := by
    unfold Disk.removeFile
    rw [if_pos hpresent, dif_pos h.isDir]
  rw [after, hremove]
  exact h.update_update hnone

/-- **Writing the backup back.** -/
theorem node_restored (h : Rewritten d path (some (.file bytes)) v d')
    (hdir : d.isDir path = false) :
    (restored (some (path, d.file path)) d').node = Function.update d.node configPath v := by
  cases hfile : d.file path with
  | some previous => exact h.node_write hfile
  | none =>
    have hpresent : d'.present path = true := by
      rw [Disk.present, h.node_path]
      rfl
    have hnone : d.node path = none := by
      by_contra hsome
      have hdir' := (h.placed.isDir_of_file (Option.isSome_iff_ne_none.mpr hsome)).mpr hfile
      rw [hdir] at hdir'
      cases hdir'
    simp only [restored, hpresent, if_true]
    exact h.node_remove hnone

end Disks

/-! ### Operations -/

section Operations

variable {toml : TomlEdit} {home : Text} {outside : Text → Bool} {fault : Option FileFault}
  {d d' : Home} {request : AgentsRequest} {m : Marked Home} {f : FileFault}

/-- The files are as before exactly if the fault, where it was met, is harmless; this holds where the
    compensating calls do not fail. -/
def Settled (toml : TomlEdit) (request : AgentsRequest) (fault : Option FileFault) (d : Home)
    (m : Marked Home) : Prop :=
  Unfailing fault → (Kept d m.state ↔ (m.met = true → ∀ f, fault = some f → Harmless toml d f request))

theorem Settled.of_kept (h : Kept d m.state)
    (hmet : m.met = true → ∀ f, fault = some f → Harmless toml d f request) :
    Settled toml request fault d m := fun _ => ⟨fun _ => hmet, fun _ => h⟩

theorem Settled.of_unmet (h : Kept d m.state) (hmet : m.met = false) :
    Settled toml request fault d m := by
  refine .of_kept h fun hmet' => ?_
  rw [hmet] at hmet'
  cases hmet'

theorem Settled.of_met (hmet : m.met = true) (hf : fault = some f)
    (h : Kept d m.state ↔ Harmless toml d f request) : Settled toml request fault d m := by
  refine fun _ => h.trans ⟨fun hf' _ g hg => ?_, fun hall => hall hmet f hf⟩
  obtain rfl : f = g := Option.some.inj (hf.symm.trans hg)
  exact hf'

theorem Settled.of_unsettled {step : Step} (h : Unsettled fault step d m)
    (hstep : ∀ f, f.call.step = step → Harmless toml d f request) :
    Settled toml request fault d m := by
  refine .of_kept (kept_of_sameFiles h.1) fun hmet f hf => ?_
  obtain ⟨g, hg, hcall⟩ := h.2 hmet
  obtain rfl : f = g := Option.some.inj (hf.symm.trans hg)
  exact hstep f hcall

theorem harmless_load (hstep : f.call.step = .load) : Harmless toml d f request := by
  cases request with
  | create input => simp only [Harmless, hstep]
  | update input => simp only [Harmless, HarmlessUpdate, hstep, implies_true]
  | delete input => simp only [Harmless, hstep]

theorem node_config_of_configDocument {document : Document}
    (h : configDocument toml d = some document) :
    d.node configPath = none ∨ ∃ bytes, d.node configPath = some (.file bytes) := by
  by_cases hroot : d.isDir [] = true
  · rw [configDocument_of_dir hroot] at h
    split at h
    next hnode => exact .inl hnode
    next bytes hnode => exact .inr ⟨bytes, hnode⟩
    next => cases h
  · refine .inl (by_contra fun hsome => hroot ?_)
    rw [Disk.isDir_iff]
    exact Disk.dir_of_prefix List.nil_prefix (by decide) hsome

theorem Configurable.of_node (hroot : d.isDir [] = true)
    (hnode : d.node configPath = none ∨ ∃ bytes, d.node configPath = some (.file bytes)) :
    Configurable d := by
  refine ⟨hroot, ?_, ?_⟩
  · rw [Disk.isDir]
    rcases hnode with hnode | ⟨bytes, hnode⟩ <;> rw [hnode]
  · rw [Disk.isLink]
    rcases hnode with hnode | ⟨bytes, hnode⟩ <;> rw [hnode]

theorem Spoiled.node {step : Step} {path : Path} (h : Spoiled fault step path d m) :
    m.met = true ∧ ∃ f, fault = some f ∧ f.call.step = step ∧
      m.state.node = Function.update d.node path (spoiledNode (written f) (d.node path)) := by
  obtain ⟨hmet, f, hf, hstep, hstate⟩ := h
  refine ⟨hmet, f, hf, hstep, ?_⟩
  cases hwritten : written f with
  | none =>
    simp only [hwritten] at hstate
    rw [hstate, spoiledNode, Function.update_eq_self]
  | some bytes =>
    simp only [hwritten] at hstate
    exact hstate

/-- What the settings are read from is there again after the document was written. -/
theorem configDocument_put {document : Document} (htoml : toml.Lawful) (hroot : d'.isDir [] = true)
    (h : d'.file configPath = some (configContent toml document)) :
    configDocument toml d' = some document := by
  rw [configDocument_of_dir hroot, Disk.file_eq_some.mp h]
  show (decodeUtf8 (encodeUtf8 _)).bind _ = _
  rw [decode_encode]
  show (parseDocument toml _).toOption = _
  rw [parseDocument, parseText_render htoml]
  rfl

/-- **The settings at the end.** They are read, or one of the calls for them failed. -/
theorem getAgentsSettings_triple {document : Document}
    (hdocument : configDocument toml d = some document) :
    Triple fault (From d) (getAgentsSettingsCore toml home outside)
      (fun _ => Clean fun d' => d' = d) (Refused fault .reload d False) := by
  unfold getAgentsSettingsCore
  refine Triple.bind_clean (load_triple.mono_error fun m hm => hm.mono fun hnone => ?_) ?_
  · rw [hdocument] at hnone
    cases hnone
  rintro _ d ⟨rfl, _⟩
  refine Triple.bind_clean query_triple ?_
  rintro _ d ⟨rfl, _⟩
  exact Triple.pure_clean rfl

/-- Where everything else was undone, a failed write of `config.toml` decides. -/
theorem kept_iff_unspoiled {made : Home} {v : Option (Node ByteArray)}
    (hsame : Disk.SameFiles d made)
    (hnode : d'.node = Function.update made.node configPath (spoiledNode (written f) v))
    (hv : fileOf v = d.file configPath) : Kept d d' ↔ ConfigUnspoiled d f := by
  rw [kept_iff hsame hnode (.inl rfl), ConfigUnspoiled, ← hv]
  exact fileOf_spoiled _

/-! ### Creating -/

/-- What a created role leaves. -/
structure Created (toml : TomlEdit) (input : CreateAgentInput) (d d' : Home) (name : Text)
    (loaded document : Document) (agents : List (Text × RoleItem)) : Prop where
  named : normalizeAgentName input.name = .ok name
  read : configDocument toml d = some loaded
  ensured : ensureTable loaded managedAgentsDir = .ok (document, agents)
  free : d.file (managedRelativeConfigForName name) = none
  root : d'.isDir [] = true
  config : d'.file configPath = some (configContent toml (createdDocument name
    (normalizeOptionalString input.description) document agents))
  target : (d'.file (managedRelativeConfigForName name)).isSome = true
  others : ∀ p, p ≠ configPath → p ≠ managedRelativeConfigForName name → d'.file p = d.file p

theorem create_triple (htoml : toml.Lawful) {input : CreateAgentInput} :
    Triple fault (From d) (createAgentCore toml home outside input)
      (fun _ => Clean fun d' => ∃ name loaded document agents,
        Created toml input d d' name loaded document agents)
      (Settled toml (.create input) fault d) := by
  have hsame := Disk.SameFiles.refl d
  unfold createAgentCore
  refine Triple.bind_clean (ofExcept_triple fun e _ => .of_unmet (kept_of_sameFiles hsame) rfl) ?_
  rintro name d ⟨rfl, hname⟩
  refine Triple.bind_clean (load_triple.mono_error fun m hm => ?_) ?_
  · exact .of_unsettled hm.unsettled fun _ hstep => harmless_load hstep
  rintro ⟨_, loaded⟩ d ⟨rfl, hloaded⟩
  refine Triple.bind_clean (ofExcept_triple fun e _ => .of_unmet (kept_of_sameFiles hsame) rfl) ?_
  rintro ⟨document, agents⟩ d ⟨rfl, hensured⟩
  by_cases hconflict : hasAgentNameConflict agents name none = true
  · simp only [hconflict, if_true]
    exact Triple.fail_from (.of_unmet (kept_of_sameFiles hsame) rfl)
  simp only [hconflict, Bool.false_eq_true, if_false]
  have hne : managedRelativeConfigForName name ≠ [] := List.cons_ne_nil _ _
  refine Triple.bind_clean ((resolveWrite_triple hne).mono_error fun m hm => ?_) ?_
  · exact .of_unsettled hm fun f hstep => by simp only [Harmless, hstep]
  rintro target made ⟨rfl, hplaced, hmade⟩
  generalize htarget : managedRelativeConfigForName name = target at *
  have hsameMade := Disk.sameFiles_createDirAll hmade
  refine Triple.bind_clean query_triple ?_
  rintro _ made ⟨rfl, rfl⟩
  by_cases hfree : made.present target = true
  · simp only [hfree, if_true]
    exact Triple.fail_from (.of_unmet (kept_of_sameFiles hsameMade) rfl)
  have hnone : made.node target = none := by simpa [Disk.present] using hfree
  simp only [hfree, Bool.false_eq_true, if_false]
  have hdir : made.isDir target = false := by rw [Disk.isDir, hnone]
  have hcovered : target = configPath ∨ [managedAgentsDir] <+: target :=
    .inr (htarget ▸ below_agents)
  have hapart : Apart target configPath := htarget ▸ apart_config
  have hmissing : d.file target = none := (hsameMade target).trans (Disk.file_of_none hnone)
  refine Triple.bind_clean ((writeFile_triple (hplaced.writable hdir) hplaced.isLink).mono_error
    fun m hm => ?_) ?_
  · -- a write that fails may leave a file
    obtain ⟨hmet, f, hf, hstep, hnode⟩ := hm.node
    refine .of_met hmet hf ?_
    simp only [Harmless, hstep]
    rw [kept_iff hsameMade hnode hcovered, hnone, hmissing]
    exact (fileOf_spoiled (v := none) (written f)).trans (or_self_iff (a := written f = none))
  intro _ d' hput
  have hconfigNode : made.node configPath = d.node configPath := by
    rw [(Disk.node_createDirAll hmade).2, if_neg]
    intro hle
    exact hapart.2 (hle.trans (List.dropLast_prefix target))
  have hconfigNode' : d'.node configPath = d.node configPath := by
    rw [hput, Function.update_of_ne hapart.ne.symm, hconfigNode]
  have hroot : d'.isDir [] = true := by
    rw [Disk.isDir_iff, hput, Function.update_of_ne hplaced.ne.symm]
    exact Disk.dir_above_of_dropLast hplaced.ne hplaced.parent List.nil_prefix hplaced.ne.symm
  have hconfigurable : Configurable d' :=
    .of_node hroot (by rw [hconfigNode']; exact node_config_of_configDocument hloaded)
  refine Triple.bind_attempt (persist_triple hconfigurable) ?_ fun e => ?_
  · intro _ d'' hpersisted
    have hroot' : d''.isDir [] = true := by
      rw [Disk.isDir_iff, hpersisted, Function.update_of_ne (by decide)]
      exact Disk.isDir_iff.mp hroot
    have hconfig : d''.file configPath = some (configContent toml (createdDocument name
        (normalizeOptionalString input.description) document agents)) :=
      Disk.file_eq_some.mpr (by rw [hpersisted, Function.update_self]; rfl)
    have htargetFile : (d''.file target).isSome = true := by
      rw [file_eq_fileOf, hpersisted, Function.update_of_ne hapart.ne, hput, Function.update_self]
      rfl
    refine ((getAgentsSettings_triple (configDocument_put htoml hroot' hconfig)).weaken
      (fun _ h => h) ?_ fun m hm => ?_)
    · rintro _ m ⟨hmet, rfl⟩
      refine ⟨hmet, name, loaded, document, agents, hname, hloaded, hensured, ?_, hroot', hconfig, ?_, ?_⟩
      · rwa [htarget]
      · rwa [htarget]
      · intro p hp hp'
        rw [htarget] at hp'
        rw [hsameMade p]
        exact Disk.file_congr (by rw [hpersisted, Function.update_of_ne hp, hput,
          Function.update_of_ne hp'])
    · -- the settings could not be read any more, but the role is there
      obtain ⟨f, hf, hstep, _⟩ := hm.met (hm.isMet)
      refine .of_met hm.isMet hf ?_
      simp only [Harmless, hstep, iff_false]
      intro hkept
      have hgone := hkept target hcovered
      rw [hm.state, hmissing] at hgone
      rw [hgone] at htargetFile
      cases htargetFile
  · refine Triple.bind ignored_triple fun _ => Triple.fail fun m hm hundo => ?_
    obtain ⟨before, hspoiled, rfl⟩ := hm hundo
    obtain ⟨hmet, f, hf, hstep, hnode⟩ := hspoiled.node
    have hrewritten : Rewritten made target _ (spoiledNode (written f) (d'.node configPath))
        before.state := ⟨hplaced, hapart, .inr ⟨_, rfl⟩, by rw [hnode, hput]⟩
    refine Settled.of_met hmet hf ?_ hundo
    simp only [Harmless, hstep]
    refine kept_iff_unspoiled hsameMade (hrewritten.node_remove hnone) ?_
    rw [hconfigNode', file_eq_fileOf]

/-! ### The table of the agents -/

theorem ensureTable_of_get {key : Text} {document document' : Document}
    {agents : List (Text × RoleItem)} {name : Text} {item : RoleItem}
    (h : ensureTable document key = .ok (document', agents)) (hget : get name agents = some item) :
    document' = document ∧ get key document = some (.table false agents) := by
  unfold ensureTable at h
  cases hitem : get key document with
  | none =>
    rw [hitem] at h
    obtain ⟨_, rfl⟩ := Prod.mk.inj (Except.ok.inj h)
    cases hget
  | some found =>
    rw [hitem] at h
    cases found with
    | value v => cases h
    | table isInline entries =>
      cases isInline with
      | true => cases h
      | false =>
        obtain ⟨rfl, rfl⟩ := Prod.mk.inj (Except.ok.inj h)
        exact ⟨rfl, rfl⟩

/-- A document with something in it was read from the file. -/
theorem exists_config_of_get {key : Text} {document : Document} {item : Item RoleItem}
    (h : configDocument toml d = some document) (hget : get key document = some item) :
    ∃ bytes, d.node configPath = some (.file bytes) := by
  have hne : document ≠ [] := by
    rintro rfl
    cases hget
  rcases node_config_of_configDocument h with hnone | hfile
  · exfalso
    unfold configDocument at h
    split_ifs at h
    · exact hne (Option.some.inj h).symm
    · rw [hnone] at h
      exact hne (Option.some.inj h).symm
  · exact hfile

theorem Configurable.of_file {bytes : ByteArray} (h : d.node configPath = some (.file bytes)) :
    Configurable d :=
  .of_node (Disk.isDir_iff.mpr (Disk.dir_of_prefix (q := configPath) List.nil_prefix (by decide)
    (by rw [h]; simp))) (.inr ⟨bytes, h⟩)

/-! ### Deleting -/

/-- The file that goes with the role, if the input asks for it. -/
def deletedPath (input : DeleteAgentInput) (item : RoleItem) : Option Path :=
  if input.deleteManagedFile.getD false then
    (readRoleConfigFile item).bind managedRelativePathFromConfig
  else none

/-- What a deleted role leaves. -/
structure Deleted (toml : TomlEdit) (input : DeleteAgentInput) (d d' : Home) (name : Text)
    (document : Document) (agents : List (Text × RoleItem)) (existing : RoleItem) : Prop where
  named : normalizeAgentLookupName input.name = .ok name
  read : configDocument toml d = some document
  table : get managedAgentsDir document = some (.table false agents)
  role : get name agents = some existing
  root : d'.isDir [] = true
  config : d'.file configPath = some (configContent toml
    (insert managedAgentsDir (.table false (remove name agents)) document))
  others : ∀ p, p ≠ configPath → deletedPath input existing ≠ some p → d'.file p = d.file p
  deleted : ∀ p, deletedPath input existing = some p → d'.file p = none

/-- The role has no file to delete, or the file is gone and its content is the backup. -/
def FileDeleted (d : Home) (path : Option Path) (backup : Option (Path × ByteArray)) (d' : Home) :
    Prop :=
  backup = none ∧ d' = d ∧ (∀ p, path = some p → d.file p = none) ∨
    ∃ p bytes, path = some p ∧ backup = some (p, bytes) ∧ Placed d p ∧
      d.node p = some (.file bytes) ∧ d'.node = Function.update d.node p none

theorem removeFile_triple {step : Step} {path : Path} {context : Text}
    (hpresent : d.present path = true) (hdir : d.isDir path = false) :
    Triple fault (From d) (removeFile step path context)
      (fun _ => Clean fun d' => d'.node = Function.update d.node path none)
      (Refused fault step d True) := by
  refine fileCall_triple (by decide) ?_ fun _ _ => trivial
  intro a d' hact
  have hremove : d.removeFile path = .ok (d.erase path hdir) := by
    unfold Disk.removeFile
    rw [if_pos hpresent, dif_pos hdir]
  rw [hremove] at hact
  obtain rfl := congrArg Prod.snd (Except.ok.inj hact)
  rfl

/-- A path whose components were checked and which exists is placed. -/
theorem placed_of_walk {path : Path} (hne : path ≠ []) (hwalk : walk d [] path = true)
    (hpresent : d.present path = true) : Placed d path := by
  refine ⟨hne, ?_, ?_⟩
  · rw [Disk.isDir_iff]
    exact Disk.dir_of_prefix (List.dropLast_prefix path) (dropLast_ne_self hne)
      (Option.isSome_iff_ne_none.mp hpresent)
  · have hlink := not_link_of_walk hne hwalk
    rwa [List.nil_append] at hlink

theorem deleteManagedFile_triple {input : DeleteAgentInput} {item : RoleItem} :
    Triple fault (From d) (deleteManagedFile home input (readRoleConfigFile item))
      (fun backup => Clean (FileDeleted d (deletedPath input item) backup))
      (fun m => Unsettled fault .targetPath d m ∨ Unsettled fault .delete d m) := by
  unfold deleteManagedFile deletedPath
  by_cases hasked : input.deleteManagedFile.getD false = true
  swap
  · simp only [hasked]
    exact Triple.pure_clean (.inl ⟨rfl, rfl, fun p hp => by cases hp⟩)
  simp only [hasked, Bool.not_true, Bool.false_eq_true, if_false, if_true]
  cases hpath : (readRoleConfigFile item).bind managedRelativePathFromConfig with
  | none => exact Triple.pure_clean (.inl ⟨rfl, rfl, fun p hp => by cases hp⟩)
  | some path =>
    obtain ⟨configFile, _, hmanaged⟩ := Option.bind_eq_some_iff.mp hpath
    have hne : path ≠ [] := by
      obtain ⟨rest, rfl⟩ := exists_of_managed hmanaged
      exact List.cons_ne_nil _ _
    refine Triple.bind_clean (resolveRead_triple.mono_error fun _ hm => .inl hm.unsettled) ?_
    rintro target d ⟨rfl, rfl, hwalk⟩
    refine Triple.bind_clean query_triple ?_
    rintro _ d ⟨rfl, rfl⟩
    by_cases hpresent : d.present target = true
    swap
    · simp only [hpresent]
      refine Triple.pure_clean (.inl ⟨rfl, rfl, fun p hp => ?_⟩)
      obtain rfl := Option.some.inj hp
      exact Disk.file_of_none (by simpa [Disk.present] using hpresent)
    simp only [hpresent, if_true]
    have hplaced := placed_of_walk hne hwalk hpresent
    refine Triple.bind_clean ((readFile_triple fun _ => trivial).mono_error
      fun _ hm => .inr hm.unsettled) ?_
    rintro bytes d ⟨rfl, hbytes⟩
    have hnode := Disk.file_eq_some.mp hbytes
    refine Triple.bind_clean ((removeFile_triple hpresent (by rw [Disk.isDir, hnode])).mono_error
      fun _ hm => .inr hm.unsettled) ?_
    intro _ d' herased
    exact Triple.pure_clean (.inr ⟨target, bytes, rfl, rfl, hplaced, hnode, herased⟩)

/-- The file decides the document. -/
theorem document_of_content {document next : Document} (htoml : toml.Lawful)
    (hread : configDocument toml d = some document)
    (h : d.file configPath = some (configContent toml next)) : document = next := by
  have hroot := (Configurable.of_file (Disk.file_eq_some.mp h)).1
  exact Option.some.inj (hread.symm.trans (configDocument_put htoml hroot h))

theorem delete_triple (htoml : toml.Lawful) {input : DeleteAgentInput} :
    Triple fault (From d) (deleteAgentCore toml home outside input)
      (fun _ => Clean fun d' => ∃ name document agents existing,
        Deleted toml input d d' name document agents existing)
      (Settled toml (.delete input) fault d) := by
  have hsame := Disk.SameFiles.refl d
  unfold deleteAgentCore
  refine Triple.bind_clean (ofExcept_triple fun e _ => .of_unmet (kept_of_sameFiles hsame) rfl) ?_
  rintro name d ⟨rfl, hname⟩
  refine Triple.bind_clean (load_triple.mono_error fun m hm => ?_) ?_
  · exact .of_unsettled hm.unsettled fun _ hstep => harmless_load hstep
  rintro ⟨_, document⟩ d ⟨rfl, hloaded⟩
  refine Triple.bind_clean (ofExcept_triple fun e _ => .of_unmet (kept_of_sameFiles hsame) rfl) ?_
  rintro ⟨document', agents⟩ d ⟨rfl, hensured⟩
  cases hrole : get name agents with
  | none =>
    simp only [hrole]
    exact Triple.fail_from (.of_unmet (kept_of_sameFiles hsame) rfl)
  | some existing =>
  simp only [hrole]
  obtain ⟨rfl, htable⟩ := ensureTable_of_get hensured hrole
  obtain ⟨oldBytes, hold⟩ := exists_config_of_get hloaded htable
  refine Triple.bind_clean (deleteManagedFile_triple.mono_error fun m hm => ?_) ?_
  · rcases hm with hm | hm
    · exact .of_unsettled hm fun f hstep => by simp only [Harmless, hstep]
    · exact .of_unsettled hm fun f hstep => by simp only [Harmless, hstep]
  intro backup d' hdeleted
  have hapart : ∀ p, deletedPath input existing = some p → Apart p configPath ∧ p ≠ [] := by
    intro p hp
    unfold deletedPath at hp
    split_ifs at hp
    obtain ⟨configFile, _, hmanaged⟩ := Option.bind_eq_some_iff.mp hp
    obtain ⟨rest, rfl⟩ := exists_of_managed hmanaged
    exact ⟨apart_config, List.cons_ne_nil _ _⟩
  have hconfig : d'.node configPath = some (.file oldBytes) := by
    rcases hdeleted with ⟨_, rfl, _⟩ | ⟨p, bytes, hp, _, _, _, hnode⟩
    · exact hold
    · rw [hnode, Function.update_of_ne (hapart p hp).1.ne.symm, hold]
  have hconfigurable : Configurable d' := .of_file hconfig
  have hfiles : ∀ p, deletedPath input existing ≠ some p → d'.file p = d.file p := by
    intro p hp
    rcases hdeleted with ⟨_, rfl, _⟩ | ⟨q, bytes, hq, _, _, _, hnode⟩
    · rfl
    · have hne : p ≠ q := by
        rintro rfl
        exact hp hq
      exact Disk.file_congr (by rw [hnode, Function.update_of_ne hne])
  have hgone : ∀ p, deletedPath input existing = some p → d'.file p = none := by
    intro p hp
    rcases hdeleted with ⟨_, rfl, hnone⟩ | ⟨q, bytes, hq, _, _, _, hnode⟩
    · exact hnone p hp
    · obtain rfl := Option.some.inj (hp.symm.trans hq)
      exact Disk.file_of_none (by rw [hnode, Function.update_self])
  refine Triple.bind_attempt (persist_triple hconfigurable) ?_ fun e => ?_
  · intro _ d'' hpersisted
    have hcontent : d''.file configPath = some (configContent toml (insert managedAgentsDir
        (.table false (remove name agents)) document')) :=
      Disk.file_eq_some.mpr (by rw [hpersisted, Function.update_self]; rfl)
    have hroot : d''.isDir [] = true := (Configurable.of_file (Disk.file_eq_some.mp hcontent)).1
    have hsame'' : ∀ p, p ≠ configPath → d''.file p = d'.file p := fun p hp =>
      Disk.file_congr (by rw [hpersisted, Function.update_of_ne hp])
    refine ((getAgentsSettings_triple (configDocument_put htoml hroot hcontent)).weaken
      (fun _ h => h) ?_ fun m hm => ?_)
    · rintro _ m ⟨hmet, rfl⟩
      refine ⟨hmet, name, document', agents, existing, hname, hloaded, htable, hrole, hroot,
        hcontent, ?_, ?_⟩
      · intro p hp hp'
        rw [hsame'' p hp, hfiles p hp']
      · intro p hp
        rw [hsame'' p (hapart p hp).1.ne, hgone p hp]
    · -- the settings could not be read any more, but the role is gone
      obtain ⟨f, hf, hstep, _⟩ := hm.met hm.isMet
      refine .of_met hm.isMet hf ?_
      simp only [Harmless, hstep, iff_false]
      intro hkept
      have hcontent' := hkept configPath (.inl rfl)
      rw [hm.state, hcontent] at hcontent'
      have hdocument : document' = _ := document_of_content htoml hloaded hcontent'.symm
      rw [hdocument, get_insert_self] at htable
      have hagents : remove name agents = agents := by
        injection Option.some.inj htable
      rw [← hagents, get_remove_self] at hrole
      cases hrole
  · rcases hdeleted with ⟨rfl, rfl, _⟩ | ⟨p, bytes, hp, rfl, hplaced, hnode, herased⟩
    · refine Triple.fail fun m hm => ?_
      obtain ⟨hmet, f, hf, hstep, hspoiled⟩ := hm.node
      refine .of_met hmet hf ?_
      simp only [Harmless, hstep]
      exact kept_iff_unspoiled hsame hspoiled (file_eq_fileOf _ _).symm
    · have hsettled : ∀ m, (Unfailing fault → Changed (Spoiled fault .persist configPath d')
          (after fun d => (d.writeFile p bytes).map ((), ·)) m) →
          Settled toml (.delete input) fault d m := by
        intro m hchanged hundo
        obtain ⟨before, hm, rfl⟩ := hchanged hundo
        obtain ⟨hmet, f, hf, hstep, hspoiled⟩ := hm.node
        have hrewritten : Rewritten d p none (spoiledNode (written f) (d'.node configPath))
            before.state := ⟨hplaced, (hapart p hp).1, .inl rfl, by rw [hspoiled, herased]⟩
        refine Settled.of_met hmet hf ?_ hundo
        simp only [Harmless, hstep]
        refine kept_iff_unspoiled hsame (hrewritten.node_write (Disk.file_eq_some.mpr hnode)) ?_
        rw [herased, Function.update_of_ne (hapart p hp).1.ne.symm, file_eq_fileOf]
      refine Triple.bind ignored_triple fun result => ?_
      cases result with
      | ok _ => exact Triple.fail hsettled
      | error _ => exact Triple.fail hsettled

end Operations

end CodexMonitor.Agents
