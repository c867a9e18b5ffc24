import CodexMonitor.Agents.Outcomes

namespace CodexMonitor.Agents

open OrderedMap Faulty

/-!
# Agents — operations that fail

An update renames the file of its role, rewrites it and then writes `config.toml`; when one of
these fails it undoes the others, but not at every place.

* `update_triple` — what an update leaves, on success and on failure.
* `allOrNothing_iff` — an operation that fails leaves the files as they were exactly if the failing
  call is harmless.
-/

section Update

variable {toml : TomlEdit} {home : Text} {outside : Text → Bool} {fault : Option FileFault}
  {d d' base : Home} {input : UpdateAgentInput} {plan : UpdatePlan} {m : Marked Home}
  {f : FileFault} {renamed : Option (Path × Path)}

/-! ### The moved file -/

/-- The content of a file after a move. -/
def movedFile (d : Home) (move : Option (Path × Path)) (p : Path) : Option ByteArray :=
  match move with
  | none => d.file p
  | some (old, new) =>
      if new <+: p then d.file (old ++ p.drop new.length)
      else if old <+: p then none
      else d.file p

theorem file_below_none {p : Path} (h : d.present p = false) {q : Path} (hle : p <+: q) :
    d.file q = none := by
  obtain ⟨rest, rfl⟩ := hle
  exact Disk.file_of_none (Disk.node_below_none (by simpa [Disk.present] using h) rest)

theorem file_of_renamed {move : Option (Path × Path)} (h : Renamed d move renamed d') (p : Path) :
    d'.file p = movedFile d move p := by
  cases move with
  | none =>
    cases renamed with
    | none => rw [show d' = d from h]; rfl
    | some pair => exact h.elim
  | some pair =>
    obtain ⟨old, new⟩ := pair
    cases renamed with
    | none =>
      obtain ⟨hsame, hnew, hold⟩ := h
      show d'.file p = if new <+: p then _ else if old <+: p then _ else _
      split_ifs with hp hp'
      · rw [file_below_none hnew hp, hsame, file_below_none hold (List.prefix_append _ _)]
      · exact file_below_none hold hp'
      · exact (hsame p).symm
    | some pair' =>
      obtain ⟨rfl, made, hmove, hsame, hfree, _, _, rfl⟩ := h
      show _ = if new <+: p then _ else if old <+: p then _ else _
      split_ifs with hp hp'
      · obtain ⟨rest, rfl⟩ := hp
        rw [List.drop_left, hsame]
        exact Disk.file_congr (Disk.node_move_new hmove rest)
      · exact Disk.file_of_none (Disk.node_move_old hmove hp hp')
      · rw [hsame]
        exact Disk.file_congr (Disk.node_move_of_not hmove hp hp')

theorem sameFiles_of_renamed {move : Option (Path × Path)} (h : Renamed d move none d') :
    Disk.SameFiles d d' := by
  cases move with
  | none =>
    rw [show d' = d from h]
    exact Disk.SameFiles.refl d
  | some pair => exact h.1

/-- Nothing was at the new path. -/
theorem free_of_renamed {old new : Path} (h : Renamed d (some (old, new)) renamed d') {p : Path}
    (hp : new <+: p) : d.file p = none := by
  cases renamed with
  | none => rw [h.1 p, file_below_none h.2.1 hp]
  | some pair =>
    obtain ⟨_, made, _, hsame, hfree, _⟩ := h
    rw [hsame p, file_below_none (by rw [Disk.present, hfree]; rfl) hp]

/-! ### Plans -/

theorem ok_of_toOption {ε α : Type} {x : Except ε α} {a : α} (h : x.toOption = some a) :
    x = .ok a := by
  cases x with
  | error e => cases h
  | ok b => rw [Option.some.inj h]

theorem exists_planned (h : updatePlan toml input d = some plan) :
    ∃ originalName document agents existing, configDocument toml d = some document ∧
      normalizeAgentLookupName input.originalName = .ok originalName ∧
      normalizeAgentName input.name = .ok plan.name ∧
      Planned input originalName plan.name document plan agents existing ∧
      plan.document = document ∧ get managedAgentsDir document = some (.table false agents) := by
  unfold updatePlan at h
  obtain ⟨originalName, horiginal, h⟩ := Option.bind_eq_some_iff.mp h
  obtain ⟨name, hname, h⟩ := Option.bind_eq_some_iff.mp h
  obtain ⟨document, hdocument, h⟩ := Option.bind_eq_some_iff.mp h
  obtain ⟨agents, existing, hplanned⟩ := planned_of_planUpdate (ok_of_toOption h)
  obtain ⟨hsame, htable⟩ := ensureTable_of_get hplanned.ensured hplanned.found
  refine ⟨originalName, document, agents, existing, hdocument, ok_of_toOption horiginal, ?_, ?_,
    hsame, htable⟩
  · rw [hplanned.named, ok_of_toOption hname]
  · rw [hplanned.named]
    exact hplanned

/-- The file that is moved is the file of the role, and it is moved to the file of its name. -/
theorem source_of_move (h : updatePlan toml input d = some plan) {old new : Path}
    (hmove : plan.move = some (old, new)) :
    plan.source = some old ∧ new = managedRelativeConfigForName plan.name := by
  obtain ⟨originalName, document, agents, existing, _, _, _, hplanned, _⟩ := exists_planned h
  obtain ⟨_, hsource, hnew, _⟩ := move_of_planned (hplanned.move.symm.trans hmove)
  exact ⟨hsource, hnew⟩

theorem managed_of_move (h : updatePlan toml input d = some plan) {old new : Path}
    (hmove : plan.move = some (old, new)) :
    (∃ rest, old = managedAgentsDir :: rest) ∧ ∃ rest, new = managedAgentsDir :: rest := by
  obtain ⟨hsource, rfl⟩ := source_of_move h hmove
  obtain ⟨configFile, _, hmanaged⟩ := Option.bind_eq_some_iff.mp hsource
  exact ⟨exists_of_managed hmanaged, _, rfl⟩

/-- The file that gets the instructions is the file of the role, where it is after the move. -/
theorem target_cases (h : updatePlan toml input d = some plan) {p : Path}
    (htarget : plan.target input = some p) :
    plan.move = none ∧ plan.source = some p ∨ ∃ old, plan.move = some (old, p) := by
  unfold UpdatePlan.target at htarget
  split_ifs at htarget
  unfold UpdatePlan.nextConfigFile at htarget
  cases hmove : plan.move with
  | none =>
    rw [hmove] at htarget
    exact .inl ⟨rfl, htarget⟩
  | some pair =>
    obtain ⟨old, new⟩ := pair
    rw [hmove] at htarget
    obtain ⟨_, hnew⟩ := source_of_move h hmove
    obtain ⟨_, _, _, _, _, _, hname, _⟩ := exists_planned h
    have hmanaged := managed_of_name hname
    rw [← hnew] at hmanaged
    obtain rfl := Option.some.inj (hmanaged.symm.trans htarget)
    exact .inr ⟨old, rfl⟩

theorem managed_of_target (h : updatePlan toml input d = some plan) {p : Path}
    (htarget : plan.target input = some p) : ∃ rest, p = managedAgentsDir :: rest := by
  rcases target_cases h htarget with ⟨_, hsource⟩ | ⟨old, hmove⟩
  · obtain ⟨configFile, _, hmanaged⟩ := Option.bind_eq_some_iff.mp hsource
    exact exists_of_managed hmanaged
  · exact (managed_of_move h hmove).2

/-- What is in the file of the role before the update is in the file that gets the instructions
    after the move. -/
theorem movedFile_target (h : updatePlan toml input d = some plan) {p : Path}
    (htarget : plan.target input = some p) :
    ∃ s, plan.source = some s ∧ movedFile d plan.move p = d.file s := by
  rcases target_cases h htarget with ⟨hmove, hsource⟩ | ⟨old, hmove⟩
  · exact ⟨p, hsource, by rw [hmove]; rfl⟩
  · refine ⟨old, (source_of_move h hmove).1, ?_⟩
    rw [hmove, movedFile, if_pos List.prefix_rfl, List.drop_length, List.append_nil]

/-! ### Undoing -/

/-- The disk on which the file is rewritten: that after the move; where nothing was moved,
    directories may have been made. -/
structure Based (dr : Home) (renamed : Option (Path × Path)) (base : Home) : Prop where
  same : Disk.SameFiles dr base
  moved : renamed ≠ none → base = dr

/-- **Undoing the move** beside a change of `config.toml`. -/
theorem node_undone (hplan : updatePlan toml input d = some plan) {dr : Home}
    (hrenamed : Renamed d plan.move renamed dr) (hbase : Based dr renamed base)
    {v : Option (Node ByteArray)} (hnode : d'.node = Function.update base.node configPath v) :
    ∃ made, Disk.SameFiles d made ∧
      (undone renamed d').node = Function.update made.node configPath v := by
  cases renamed with
  | none =>
    exact ⟨base, (sameFiles_of_renamed hrenamed).trans hbase.same, hnode⟩
  | some pair =>
    cases hmove : plan.move with
    | none =>
      rw [hmove] at hrenamed
      exact hrenamed.elim
    | some move =>
      obtain ⟨old, new⟩ := move
      obtain ⟨⟨restOld, hold⟩, ⟨restNew, hnew⟩⟩ := managed_of_move hplan hmove
      rw [hmove] at hrenamed
      obtain ⟨rfl, made, hmovable, hsame, hfree, _, _, hdr⟩ := hrenamed
      rw [hbase.moved (by simp), hdr] at hnode
      refine ⟨made, hsame, node_undone_of_apart hmovable hfree hnode ?_ ?_⟩
      · rw [hold]
        exact apart_config
      · rw [hnew]
        exact apart_config

/-! ### The instructions -/

/-- What stands after the file of the role was rewritten. -/
def Instructed (toml : TomlEdit) (input : UpdateAgentInput) (plan : UpdatePlan)
    (renamed : Option (Path × Path)) (dr : Home) (backup : Option (Path × Option ByteArray))
    (d' : Home) : Prop :=
  ∃ base, Based dr renamed base ∧
    (plan.target input = none ∧ backup = none ∧ d' = base ∨
      ∃ p bytes, plan.target input = some p ∧ backup = some (p, base.file p) ∧ Placed base p ∧
        base.isDir p = false ∧ upsertedContent toml (base.file p)
          (normalizeOptionalString input.developerInstructions) = .ok bytes ∧ Put base p bytes d')

theorem movedFile_config (hplan : updatePlan toml input d = some plan) :
    movedFile d plan.move configPath = d.file configPath := by
  cases hmove : plan.move with
  | none => rfl
  | some pair =>
    obtain ⟨old, new⟩ := pair
    obtain ⟨⟨restOld, rfl⟩, ⟨restNew, rfl⟩⟩ := managed_of_move hplan hmove
    rw [movedFile, if_neg apart_config.1, if_neg apart_config.1]

theorem fileOf_config (hplan : updatePlan toml input d = some plan) {dr : Home}
    (hrenamed : Renamed d plan.move renamed dr) (hbase : Based dr renamed base) :
    fileOf (base.node configPath) = d.file configPath := by
  rw [← file_eq_fileOf, ← hbase.same, file_of_renamed hrenamed, movedFile_config hplan]

/-- A failure after which the move is undone, and which changed no file. -/
theorem settled_undone (hplan : updatePlan toml input d = some plan) {dr : Home}
    (hrenamed : Renamed d plan.move renamed dr) (hbase : Based dr renamed base)
    (hstate : m.state = undone renamed base)
    (hmet : m.met = true → ∃ f, fault = some f ∧ f.call.step = .instructions ∧ f.call.op ≠ .write) :
    Settled toml (.update input) fault d m := by
  obtain ⟨made, hsame, hnode⟩ := node_undone hplan hrenamed hbase
    (Function.update_eq_self configPath base.node).symm
  rw [← hstate] at hnode
  refine .of_kept ((kept_iff hsame hnode (.inl rfl)).mpr (fileOf_config hplan hrenamed hbase)) ?_
  intro h f hf
  obtain ⟨g, hg, hstep, hop⟩ := hmet h
  obtain rfl : f = g := Option.some.inj (hf.symm.trans hg)
  rw [harmless_update hplan]
  simp only [HarmlessUpdate, hstep]
  intro p _
  exact .inl (by rw [written, if_neg hop])

/-- A failed rewriting after which the move is undone: what it left is in the file of the role. -/
theorem settled_spoiled (hplan : updatePlan toml input d = some plan) {dr : Home} {p : Path}
    (htarget : plan.target input = some p) (hrenamed : Renamed d plan.move renamed dr)
    (hbase : Based dr renamed base) {before : Marked Home}
    (hspoiled : Spoiled fault .instructions p base before) :
    Settled toml (.update input) fault d
      { before with state := undone renamed before.state } := by
  obtain ⟨hmet, f, hf, hstep, hnode⟩ := hspoiled.node
  obtain ⟨s, hsource, hcontent⟩ := movedFile_target hplan htarget
  have hbaseFile : fileOf (base.node p) = d.file s := by
    rw [← file_eq_fileOf, ← hbase.same, file_of_renamed hrenamed, hcontent]
  refine .of_met hmet hf ?_
  rw [harmless_update hplan]
  simp only [HarmlessUpdate, hstep, hsource, Option.some.injEq, forall_eq']
  rw [← hbaseFile, ← fileOf_spoiled]
  cases renamed with
  | none =>
    obtain ⟨rest, hp⟩ := managed_of_target hplan htarget
    have hsame := (sameFiles_of_renamed hrenamed).trans hbase.same
    rw [show undone none before.state = before.state from rfl,
      kept_iff hsame hnode (.inr (hp ▸ below_agents)), hsame p, file_eq_fileOf]
  | some pair =>
    rcases target_cases hplan htarget with ⟨hmove, _⟩ | ⟨old, hmove⟩
    · rw [hmove] at hrenamed
      exact hrenamed.elim
    · obtain ⟨⟨restOld, hold⟩, _⟩ := managed_of_move hplan hmove
      rw [hmove] at hrenamed
      obtain ⟨rfl, made, hmovable, hsame, hfree, _, _, hdr⟩ := hrenamed
      rw [hbase.moved (by simp), hdr, Disk.node_move_self] at hnode ⊢
      have hexists : made.node old ≠ none := Option.isSome_iff_ne_none.mp hmovable.1
      have hv : spoiledNode (written f) (made.node old) ≠ none := by
        cases written f with
        | none => exact hexists
        | some bytes => simp [spoiledNode]
      rw [kept_iff hsame (node_undone_of_moved hmovable hfree hv hnode)
        (.inr (hold ▸ below_agents)), hsame old, file_eq_fileOf]

/-- **The place that does not undo.** Between the move and the rewriting the files are as before only
    if the move moved none. -/
theorem kept_renamed_iff {old new : Path} (hold : [managedAgentsDir] <+: old)
    (h : Renamed d (some (old, new)) (some (old, new)) d') :
    Kept d d' ↔ ∀ p, old <+: p → d.file p = none := by
  obtain ⟨_, made, hmovable, hsame, hfree, _, _, hmoved⟩ := id h
  constructor
  · intro hkept p hp
    have hnew : ¬ new <+: p := by
      intro hnew
      rcases List.prefix_or_prefix_of_prefix hp hnew with hle | hle
      · exact hmovable.2.2.2.1 hle
      · exact hmovable.not_above hfree hle
    rw [← hkept p (.inr (hold.trans hp)), hmoved]
    exact Disk.file_of_none (Disk.node_move_old hmovable hnew hp)
  · intro hnone p _
    rw [file_of_renamed h p, movedFile]
    split_ifs with hnew hold'
    · rw [hnone _ (List.prefix_append _ _), free_of_renamed h hnew]
    · exact (hnone p hold').symm
    · rfl

theorem resolveTarget_triple (hplan : updatePlan toml input d = some plan) {dr : Home}
    (hrenamed : Renamed d plan.move renamed dr) {path : Path}
    (htarget : plan.target input = some path) :
    Triple fault (From dr) (resolveSafeManagedAbsPathForWrite home .targetPath path)
      (fun target => Clean fun base => target = path ∧ Based dr renamed base ∧ Placed base path)
      (Settled toml (.update input) fault d) := by
  obtain ⟨rest, hpath⟩ := managed_of_target hplan htarget
  cases renamed with
  | none =>
    refine (resolveWrite_triple (hpath ▸ List.cons_ne_nil _ _)).weaken (fun _ h => h) ?_ ?_
    · rintro target m ⟨hmet, htarget, hplaced, hmade⟩
      exact ⟨hmet, htarget, ⟨Disk.sameFiles_createDirAll hmade, fun h => absurd rfl h⟩, hplaced⟩
    · intro m hm
      have hsame := (sameFiles_of_renamed hrenamed).trans hm.1
      refine .of_unsettled ⟨hsame, hm.2⟩ fun f hstep => ?_
      rw [harmless_update hplan]
      simp only [HarmlessUpdate, hstep]
      intro old new hmove p hp
      rw [hmove] at hrenamed
      rw [hrenamed.1 p, file_below_none hrenamed.2.2 hp]
  | some pair =>
    rcases target_cases hplan htarget with ⟨hmove, _⟩ | ⟨old, hmove⟩
    · rw [hmove] at hrenamed
      exact hrenamed.elim
    · obtain ⟨⟨restOld, hold⟩, _⟩ := managed_of_move hplan hmove
      rw [hmove] at hrenamed
      obtain ⟨rfl, made, hmovable, hsame, hfree, hplaced, hlink, hdr⟩ := id hrenamed
      have hplaced' : Placed dr path := by
        rw [hdr]
        exact placed_move hmovable hplaced hlink
      refine (resolveWrite_triple_of_placed hplaced').weaken (fun _ h => h) ?_ ?_
      · rintro target m ⟨hmet, hstate, htarget⟩
        rw [Clean, hstate]
        exact ⟨hmet, htarget, ⟨Disk.SameFiles.refl dr, fun _ => rfl⟩, hplaced'⟩
      · intro m hm
        obtain ⟨f, hf, hstep, _⟩ := hm.met hm.isMet
        refine .of_met hm.isMet hf ?_
        rw [harmless_update hplan, hm.state, kept_renamed_iff (hold ▸ below_agents) hrenamed]
        simp only [HarmlessUpdate, hstep, hmove, Option.some.injEq, Prod.mk.injEq]
        constructor
        · rintro hnone _ _ ⟨rfl, rfl⟩
          exact hnone
        · intro h
          exact h old path ⟨rfl, rfl⟩

theorem updateInstructions_triple (hplan : updatePlan toml input d = some plan) {dr : Home}
    (hrenamed : Renamed d plan.move renamed dr) :
    Triple fault (From dr) (updateInstructions toml home input plan renamed)
      (fun backup => Clean (Instructed toml input plan renamed dr backup))
      (Settled toml (.update input) fault d) := by
  have hrefl : Based dr renamed dr := ⟨Disk.SameFiles.refl dr, fun _ => rfl⟩
  have hundone : ∀ m, (Unfailing fault → Changed (From dr) (undone renamed) m) →
      Settled toml (.update input) fault d m := by
    intro m hm hundo
    obtain ⟨before, hbefore, rfl⟩ := hm hundo
    rw [From] at hbefore
    subst hbefore
    exact settled_undone hplan hrenamed hrefl rfl (fun h => by cases h) hundo
  unfold updateInstructions
  cases hinstructions : input.developerInstructions with
  | none =>
    refine Triple.pure_clean ⟨dr, hrefl, .inl ⟨?_, rfl, rfl⟩⟩
    rw [UpdatePlan.target, hinstructions]
    rfl
  | some instructions =>
    cases hconfigFile : plan.nextConfigFile with
    | none =>
      exact Triple.bind (undoRename_triple renamed) fun _ => Triple.fail hundone
    | some configFile =>
      cases hpath : managedRelativePathFromConfig configFile with
      | none =>
        simp only [hpath]
        exact Triple.bind (undoRename_triple renamed) fun _ => Triple.fail hundone
      | some path =>
        simp only [hpath]
        have htarget : plan.target input = some path := by
          rw [UpdatePlan.target, hinstructions, hconfigFile]
          exact hpath
        refine Triple.bind_clean (resolveTarget_triple hplan hrenamed htarget) ?_
        rintro target base ⟨rfl, hbase, hplaced⟩
        refine Triple.bind_attempt (upsert_triple hplaced) ?_ fun e => ?_
        · rintro _ d' ⟨rfl, hdir, bytes, hbytes, hput⟩
          refine Triple.pure_clean ⟨base, hbase, .inr ⟨target, bytes, htarget, rfl, hplaced, hdir,
            ?_, hput⟩⟩
          rw [hinstructions]
          exact hbytes
        · refine Triple.bind (undoRename_triple renamed) fun _ =>
            Triple.fail fun m hm hundo => ?_
          obtain ⟨before, hbefore | ⟨_, hbefore⟩, rfl⟩ := hm hundo
          · exact settled_undone hplan hrenamed hbase (by rw [hbefore.state]) hbefore.met hundo
          · exact settled_spoiled hplan htarget hrenamed hbase hbefore hundo

/-! ### Updating -/

/-- What an updated role leaves. -/
structure Updated (toml : TomlEdit) (input : UpdateAgentInput) (d d' : Home) (plan : UpdatePlan) :
    Prop where
  planned : updatePlan toml input d = some plan
  root : d'.isDir [] = true
  config : d'.file configPath = some (configContent toml
    (plan.nextDocument (normalizeOptionalString input.description)))
  rewritten : ∀ p, plan.target input = some p → ∃ bytes,
    upsertedContent toml (movedFile d plan.move p)
      (normalizeOptionalString input.developerInstructions) = .ok bytes ∧ d'.file p = some bytes
  others : ∀ p, p ≠ configPath → plan.target input ≠ some p → d'.file p = movedFile d plan.move p
  free : ∀ old new, plan.move = some (old, new) → ∀ p, new <+: p → d.file p = none

/-- An update that writes the document it has read moves nothing. -/
theorem move_of_same (htoml : toml.Lawful) (hplan : updatePlan toml input d = some plan)
    (h : d.file configPath = some (configContent toml
      (plan.nextDocument (normalizeOptionalString input.description)))) : plan.move = none := by
  obtain ⟨originalName, document, agents, existing, hread, _, _, hplanned, _, htable⟩ :=
    exists_planned hplan
  have hdocument := document_of_content htoml hread h
  cases hmove : plan.move with
  | none => rfl
  | some pair =>
    obtain ⟨hne, _⟩ := move_of_planned (hplanned.move.symm.trans hmove)
    exfalso
    rw [hdocument, UpdatePlan.nextDocument, get_insert_self] at htable
    have hagents : insert plan.name (.table false (plan.nextRole
        (normalizeOptionalString input.description))) plan.agents = agents := by
      injection Option.some.inj htable
    have hfound := hplanned.found
    rw [← hagents, get_insert_of_ne (Ne.symm hne), hplanned.others, get_remove_self] at hfound
    cases hfound

/-- The files are as before after the update exactly if it had nothing to change. -/
theorem Updated.kept_iff (htoml : toml.Lawful) (h : Updated toml input d d' plan) :
    Kept d d' ↔ Idle toml input plan d := by
  constructor
  · intro hkept
    have hconfig := (hkept configPath (.inl rfl)).symm.trans h.config
    refine ⟨hconfig, fun p htarget bytes hbytes => ?_⟩
    obtain ⟨rest, rfl⟩ := managed_of_target h.planned htarget
    obtain ⟨bytes', hbytes', hfile⟩ := h.rewritten _ htarget
    rw [move_of_same htoml h.planned hconfig, movedFile, hbytes] at hbytes'
    rw [← hkept _ (.inr below_agents), hfile, Except.ok.inj hbytes']
  · rintro ⟨hconfig, htarget⟩ p _
    have hmove := move_of_same htoml h.planned hconfig
    by_cases hp : p = configPath
    · rw [hp, h.config, hconfig]
    · by_cases hp' : plan.target input = some p
      · obtain ⟨bytes, hbytes, hfile⟩ := h.rewritten p hp'
        rw [hmove] at hbytes
        rw [hfile, htarget p hp' bytes hbytes]
      · rw [h.others p hp hp', hmove, movedFile]

theorem update_triple (htoml : toml.Lawful) :
    Triple fault (From d) (updateAgentCore toml home outside input)
      (fun _ => Clean fun d' => ∃ plan, Updated toml input d d' plan)
      (Settled toml (.update input) fault d) := by
  have hsame := Disk.SameFiles.refl d
  unfold updateAgentCore
  refine Triple.bind_clean (ofExcept_triple fun e _ => .of_unmet (kept_of_sameFiles hsame) rfl) ?_
  rintro originalName d ⟨rfl, horiginal⟩
  refine Triple.bind_clean (ofExcept_triple fun e _ => .of_unmet (kept_of_sameFiles hsame) rfl) ?_
  rintro name d ⟨rfl, hname⟩
  refine Triple.bind_clean (load_triple.mono_error fun m hm => ?_) ?_
  · exact .of_unsettled hm.unsettled fun _ hstep => harmless_load hstep
  rintro ⟨_, document⟩ d ⟨rfl, hloaded⟩
  refine Triple.bind_clean (ofExcept_triple fun e _ => .of_unmet (kept_of_sameFiles hsame) rfl) ?_
  rintro plan d ⟨rfl, hresult⟩
  have hplan : updatePlan toml input d = some plan := by
    rw [updatePlan, horiginal, hname, hloaded]
    show (planUpdate input originalName name document).toOption = some plan
    rw [hresult]
    rfl
  obtain ⟨_, _, agents, _, hread, _, _, _, _, htable⟩ := exists_planned hplan
  obtain ⟨oldBytes, hold⟩ := exists_config_of_get hread htable
  have hmanaged : ∀ old new, plan.move = some (old, new) → old ≠ [] ∧ new ≠ [] := by
    intro old new hmove
    obtain ⟨⟨_, rfl⟩, ⟨_, rfl⟩⟩ := managed_of_move hplan hmove
    exact ⟨List.cons_ne_nil _ _, List.cons_ne_nil _ _⟩
  refine Triple.bind_clean ((moveManaged_triple hmanaged).mono_error fun m hm => ?_) ?_
  · refine .of_kept (kept_of_sameFiles hm.1) fun hmet f hf => ?_
    obtain ⟨g, hg, hstep⟩ := hm.2 hmet
    obtain rfl : f = g := Option.some.inj (hf.symm.trans hg)
    rw [harmless_update hplan]
    rcases hstep with hstep | hstep | hstep <;> simp only [HarmlessUpdate, hstep]
  intro renamed dr hrenamed
  refine Triple.bind_clean (updateInstructions_triple hplan hrenamed) ?_
  rintro backup d' ⟨base, hbase, hinstructed⟩
  have hbaseFile : ∀ p, base.file p = movedFile d plan.move p := fun p => by
    rw [← hbase.same, file_of_renamed hrenamed]
  have hconfig : d'.node configPath = base.node configPath := by
    rcases hinstructed with ⟨_, _, rfl⟩ | ⟨p, bytes, htarget, _, _, _, _, hput⟩
    · rfl
    · obtain ⟨rest, rfl⟩ := managed_of_target hplan htarget
      rw [hput, Function.update_of_ne apart_config.ne.symm]
  have hconfigurable : Configurable d' := by
    refine .of_file (show d'.node configPath = some (.file oldBytes) from ?_)
    rw [hconfig, ← Disk.file_eq_some, hbaseFile, movedFile_config hplan]
    exact Disk.file_eq_some.mpr hold
  refine Triple.bind_attempt (persist_triple hconfigurable) ?_ fun e => ?_
  · intro _ d'' hpersisted
    have hcontent : d''.file configPath = some (configContent toml
        (plan.nextDocument (normalizeOptionalString input.description))) :=
      Disk.file_eq_some.mpr (by rw [hpersisted, Function.update_self]; rfl)
    have hroot : d''.isDir [] = true := (Configurable.of_file (Disk.file_eq_some.mp hcontent)).1
    have hsame'' : ∀ p, p ≠ configPath → d''.file p = d'.file p := fun p hp =>
      Disk.file_congr (by rw [hpersisted, Function.update_of_ne hp])
    have hupdated : Updated toml input d d'' plan := by
      refine ⟨hplan, hroot, hcontent, ?_, ?_, ?_⟩
      · intro p hp
        obtain ⟨rest, hrest⟩ := managed_of_target hplan hp
        rcases hinstructed with ⟨hnone, _⟩ | ⟨q, bytes, hq, _, _, _, hbytes, hput⟩
        · rw [hnone] at hp
          cases hp
        · obtain rfl := Option.some.inj (hp.symm.trans hq)
          refine ⟨bytes, by rw [← hbaseFile, hbytes], ?_⟩
          rw [hsame'' p (hrest ▸ apart_config.ne)]
          exact Disk.file_eq_some.mpr (by rw [hput, Function.update_self])
      · intro p hp hp'
        rw [hsame'' p hp, ← hbaseFile]
        rcases hinstructed with ⟨_, _, rfl⟩ | ⟨q, bytes, hq, _, _, _, _, hput⟩
        · rfl
        · have hne : p ≠ q := by
            rintro rfl
            exact hp' hq
          exact Disk.file_congr (by rw [hput, Function.update_of_ne hne])
      · intro old new hmove p hp
        rw [hmove] at hrenamed
        exact free_of_renamed hrenamed hp
    refine ((getAgentsSettings_triple (configDocument_put htoml hroot hcontent)).weaken
      (fun _ h => h) ?_ fun m hm => ?_)
    · rintro _ m ⟨hmet, rfl⟩
      exact ⟨hmet, plan, hupdated⟩
    · -- the settings could not be read any more
      obtain ⟨f, hf, hstep, _⟩ := hm.met hm.isMet
      refine .of_met hm.isMet hf ?_
      rw [harmless_update hplan, hm.state, hupdated.kept_iff htoml]
      simp only [HarmlessUpdate, hstep]
  · refine Triple.bind (restoreBackup_triple backup) fun _ =>
      Triple.bind (undoRename_triple renamed) fun _ => Triple.fail fun m hm hundo => ?_
    obtain ⟨mid, hmid, rfl⟩ := hm hundo
    obtain ⟨before, hspoiled, rfl⟩ := hmid hundo
    obtain ⟨hmet, f, hf, hstep, hnode⟩ := hspoiled.node
    have hrestored : (restored backup before.state).node = Function.update base.node configPath
        (spoiledNode (written f) (d'.node configPath)) := by
      rcases hinstructed with ⟨_, rfl, rfl⟩ | ⟨p, bytes, htarget, rfl, hplaced, hdir, _, hput⟩
      · exact hnode
      · obtain ⟨rest, hrest⟩ := managed_of_target hplan htarget
        have hapart : Apart p configPath := hrest ▸ apart_config
        exact node_restored ⟨hplaced, hapart, .inr ⟨bytes, rfl⟩, by rw [hnode, hput]⟩ hdir
    obtain ⟨made, hmade, hundone⟩ := node_undone hplan hrenamed hbase hrestored
    refine Settled.of_met hmet hf ?_ hundo
    rw [harmless_update hplan]
    simp only [HarmlessUpdate, hstep]
    refine kept_iff_unspoiled hmade hundone ?_
    rw [hconfig, fileOf_config hplan hrenamed hbase]

end Update

/-! ### All or nothing -/

/-- What an operation that succeeds leaves. -/
def Done (toml : TomlEdit) (d d' : Home) : AgentsRequest → Prop
  | .create input => ∃ name loaded document agents,
      Created toml input d d' name loaded document agents
  | .update input => ∃ plan, Updated toml input d d' plan
  | .delete input => ∃ name document agents existing,
      Deleted toml input d d' name document agents existing

theorem run_triple {toml : TomlEdit} {home : Text} {outside : Text → Bool}
    {fault : Option FileFault} {d : Home} (htoml : toml.Lawful)
    (request : AgentsRequest) :
    Triple fault (From d) (request.run toml home outside)
      (fun _ => Clean fun d' => Done toml d d' request) (Settled toml request fault d) := by
  cases request with
  | create input => exact create_triple htoml
  | update input => exact update_triple htoml
  | delete input => exact delete_triple htoml

/-- **All or nothing.** When one call fails, the compensating ones apart, an operation that returns
    an error leaves `config.toml` and the files of the agents as they were exactly if the failing
    call is harmless. -/
theorem allOrNothing_iff (toml : TomlEdit) (htoml : toml.Lawful) (home : Text)
    (outside : Text → Bool) (d : Home) (fault : Option FileFault) (request : AgentsRequest)
    (hundo : Unfailing fault)
    (hmet : ∀ f, fault = some f → (request.run toml home outside fault ⟨d, false⟩).2.met = true) :
    AllOrNothing toml home outside d fault request ↔
      ∀ f, fault = some f → Harmless toml d f request := by
  rcases hrun : request.run toml home outside fault ⟨d, false⟩ with ⟨result, m⟩
  have hm : ∀ f, fault = some f → m.met = true := by
    intro f hf
    have := hmet f hf
    rwa [hrun] at this
  rcases (run_triple htoml request).run rfl hrun with ⟨a, rfl, hclean, _⟩ | ⟨e, rfl, hsettled⟩
  · -- a successful run has met no fault
    constructor
    · intro _ f hf
      rw [hm f hf] at hclean
      cases hclean
    · intro _ e m' herror
      rw [hrun] at herror
      cases herror
  · constructor
    · intro h f hf
      exact (hsettled hundo).mp (h e m hrun) (hm f hf) f hf
    · intro h e' m' herror
      obtain rfl : m = m' := congrArg Prod.snd (hrun.symm.trans herror)
      exact (hsettled hundo).mpr fun _ => h

/-! ### Settings that cannot be read back -/

/-- A home with nothing in it. -/
def emptyHome : Home where
  node p := if p = [] then some .dir else none
  closed := by
    intro p q hq _
    rw [if_neg (by simp [hq])]

def explorer : CreateAgentInput where
  name := "Explorer".toList
  description := none
  developerInstructions := none
  template := none
  model := none
  reasoningEffort := none

/-- The documents that are written for the role, as `toml_edit` writes them. -/
def explorerToml : TomlEdit := sampleToml [
  ([("model".toList, .value (.string "gpt-5-codex".toList)),
    ("model_reasoning_effort".toList, .value (.string "medium".toList))],
    "model = \"gpt-5-codex\"\nmodel_reasoning_effort = \"medium\"\n".toList),
  ([(managedAgentsDir, .table false [("explorer".toList, .table false
      [("config_file".toList, .string "agents/explorer.toml".toList)])])],
    "[agents]\n\n[agents.explorer]\nconfig_file = \"agents/explorer.toml\"\n".toList)]

theorem explorerToml_lawful : explorerToml.Lawful := by
  refine sampleToml_lawful ?_ ?_ ?_ <;> decide +kernel

/-- `config.toml` is written, but cannot be opened again. -/
def reopenFault : FileFault where
  call := ⟨.reload, .open, configPath⟩
  damage := ⟨"Too many open files (os error 24)".toList, none⟩

theorem allOrNothing_iff_reopen :
    AllOrNothing explorerToml "/home/user/.codex".toList (fun _ => false) emptyHome
        (some reopenFault) (.create explorer) ↔
      ∀ f, some reopenFault = some f → Harmless explorerToml emptyHome f (.create explorer) := by
  refine allOrNothing_iff explorerToml explorerToml_lawful _ _ emptyHome _ _ ?_ ?_
  · intro f hf
    rw [← Option.some.inj hf]
    decide
  · intro f _
    rfl

/-- The role is there, but creating it returns an error. -/
theorem reopen_not_undone : ¬ ∀ (toml : TomlEdit), toml.Lawful → ∀ (home : Text)
    (outside : Text → Bool) (d : Home) (fault : Option FileFault) (request : AgentsRequest),
      Unfailing fault →
      (∀ f, fault = some f → (request.run toml home outside fault ⟨d, false⟩).2.met = true) →
        AllOrNothing toml home outside d fault request := by
  intro h
  have hundo : Unfailing (some reopenFault) := by
    intro f hf
    rw [← Option.some.inj hf]
    decide
  let run := (AgentsRequest.create explorer).run explorerToml "/home/user/.codex".toList
    (fun _ => false) (some reopenFault) ⟨emptyHome, false⟩
  have herror : ∃ e, run.1 = .error e := ⟨_, rfl⟩
  obtain ⟨e, herror⟩ := herror
  have hkept := h explorerToml explorerToml_lawful "/home/user/.codex".toList (fun _ => false)
    emptyHome (some reopenFault) (.create explorer) hundo (fun _ _ => rfl) e run.2
    (Prod.ext herror rfl)
  have hfile : (run.2.state.file (managedRelativeConfigForName "explorer".toList)).isSome = true :=
    rfl
  rw [hkept (managedRelativeConfigForName _) (.inr below_agents)] at hfile
  cases hfile

end CodexMonitor.Agents
