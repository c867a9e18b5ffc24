import CodexMonitor.Agents.AllOrNothing

namespace CodexMonitor.Agents

open OrderedMap Faulty

/-!
# Agents — what an operation leaves alone

An operation that succeeds is meant to change nothing but the role that it is about.

* `managedFile` — the file of a role, as the table of the agents has it.
* `OthersKept` — the other keys and the files of the other roles are as before.
* `Selective` — the requests that touch nothing else.
* `othersKept_iff` — an operation that succeeds keeps the others exactly if its request is
  selective.
-/

/-! ### Roles and their files -/

/-- The entry of the table of the agents. -/
def agentsEntry (document : Document) (key : Text) : Option RoleItem :=
  get key (tableEntries managedAgentsDir document)

/-- The managed file of a role; a limit is no role. -/
def managedFile (document : Document) (role : Text) : Option Path :=
  if isReservedAgentsKey role then none
  else ((agentsEntry document role).bind readRoleConfigFile).bind managedRelativePathFromConfig

/-- The names of the roles that a request is about: that of a new role, and those that are looked
    up. -/
def AgentsRequest.roles : AgentsRequest → List Text
  | .create input => (normalizeAgentName input.name).toOption.toList
  | .update input => (normalizeAgentLookupName input.originalName).toOption.toList ++
      (normalizeAgentName input.name).toOption.toList
  | .delete input => (normalizeAgentLookupName input.name).toOption.toList

/-- The keys that a request is about, without the limits. -/
def AgentsRequest.Names (request : AgentsRequest) (key : Text) : Prop :=
  key ∈ request.roles ∧ isReservedAgentsKey key = false

/-- **The others are as before**: the keys of the document, the entries of the agents, and the files
    of the other roles. -/
structure OthersKept (toml : TomlEdit) (request : AgentsRequest) (d d' : Home) : Prop where
  keys : ∀ document, configDocument toml d = some document → ∃ document',
    configDocument toml d' = some document' ∧
      (∀ key, key ≠ managedAgentsDir → get key document' = get key document) ∧
      ∀ key, ¬ request.Names key → agentsEntry document' key = agentsEntry document key
  files : ∀ document, configDocument toml d = some document → ∀ role, ¬ request.Names role →
    ∀ p, managedFile document role = some p → ∀ bytes, d.file p = some bytes →
      d'.file p = some bytes

/-! ### The condition -/

/-- The file of another role. -/
def OthersFile (toml : TomlEdit) (request : AgentsRequest) (d : Home) (p : Path)
    (bytes : ByteArray) : Prop :=
  ∃ document role, configDocument toml d = some document ∧ ¬ request.Names role ∧
    managedFile document role = some p ∧ d.file p = some bytes

/-- **Requests that touch one role only**: the name that is looked up is not that of a limit, and
    the file that is moved, rewritten or deleted is not the file of another role. -/
def Selective (toml : TomlEdit) (d : Home) : AgentsRequest → Prop
  | .create _ => True
  | .update input => ∀ plan, updatePlan toml input d = some plan →
      (∀ name, normalizeAgentLookupName input.originalName = .ok name →
        isReservedAgentsKey name = false) ∧
      ∀ p bytes, OthersFile toml (.update input) d p bytes →
        (∀ old new, plan.move = some (old, new) → ¬ old <+: p) ∧
        (plan.move = none → plan.target input = some p →
          upsertedContent toml (some bytes)
            (normalizeOptionalString input.developerInstructions) = .ok bytes)
  | .delete input => ∀ document name item, configDocument toml d = some document →
      normalizeAgentLookupName input.name = .ok name → agentsEntry document name = some item →
      isReservedAgentsKey name = false ∧
        ∀ p bytes, OthersFile toml (.delete input) d p bytes → deletedPath input item ≠ some p

section Frame

variable {toml : TomlEdit} {d d' : Home} {input : UpdateAgentInput} {plan : UpdatePlan}
  {document : Document}

/-! ### The document -/

theorem agentsEntry_insert {agents : List (Text × RoleItem)} {key : Text} :
    agentsEntry (insert managedAgentsDir (.table false agents) document) key = get key agents := by
  rw [agentsEntry, tableEntries, get_insert_self]
  rfl

theorem agentsEntry_of_table {agents : List (Text × RoleItem)} {key : Text}
    (h : get managedAgentsDir document = some (.table false agents)) :
    agentsEntry document key = get key agents := by
  rw [agentsEntry, tableEntries, h]
  rfl

/-- Making the table changes no entry. -/
theorem ensureTable_frame {document' : Document} {agents : List (Text × RoleItem)}
    (h : ensureTable document managedAgentsDir = .ok (document', agents)) :
    (∀ key, key ≠ managedAgentsDir → get key document' = get key document) ∧
      ∀ key, get key agents = agentsEntry document key := by
  unfold ensureTable at h
  cases hitem : get managedAgentsDir document with
  | none =>
    rw [hitem] at h
    obtain ⟨rfl, rfl⟩ := Prod.mk.inj (Except.ok.inj h)
    refine ⟨fun key hkey => get_insert_of_ne hkey, fun key => ?_⟩
    rw [agentsEntry, tableEntries, hitem]
    rfl
  | some item =>
    rw [hitem] at h
    cases item with
    | value v => cases h
    | table isInline entries =>
      cases isInline with
      | true => cases h
      | false =>
        obtain ⟨rfl, rfl⟩ := Prod.mk.inj (Except.ok.inj h)
        exact ⟨fun _ _ => rfl, fun key => (agentsEntry_of_table hitem).symm⟩

theorem managed_of_managedFile {role : Text} {p : Path} (h : managedFile document role = some p) :
    ∃ rest, p = managedAgentsDir :: rest := by
  unfold managedFile at h
  split_ifs at h
  obtain ⟨configFile, _, hmanaged⟩ := Option.bind_eq_some_iff.mp h
  exact exists_of_managed hmanaged

theorem ne_config_of_managedFile {role : Text} {p : Path}
    (h : managedFile document role = some p) : p ≠ configPath := by
  obtain ⟨rest, rfl⟩ := managed_of_managedFile h
  exact apart_config.ne

/-! ### The operations -/

/-- **Creating** touches nothing else. -/
theorem othersKept_created (htoml : toml.Lawful) {input : CreateAgentInput} {name : Text}
    {loaded document : Document} {agents : List (Text × RoleItem)}
    (h : Created toml input d d' name loaded document agents) :
    OthersKept toml (.create input) d d' := by
  have hnames : AgentsRequest.Names (.create input) name :=
    ⟨by simp [AgentsRequest.roles, h.named, Except.toOption], not_reserved_of_normalize h.named⟩
  constructor
  · intro document' hread
    obtain rfl := Option.some.inj (h.read.symm.trans hread)
    obtain ⟨hkeys, hentries⟩ := ensureTable_frame h.ensured
    refine ⟨_, configDocument_put htoml h.root h.config, ?_, ?_⟩
    · intro key hkey
      rw [← hkeys key hkey]
      exact get_insert_of_ne hkey
    · intro key hkey
      have hne : key ≠ name := by
        rintro rfl
        exact hkey hnames
      rw [← hentries]
      exact agentsEntry_insert.trans (get_insert_of_ne hne)
  · intro document' _ role _ p hp bytes hbytes
    have hne : p ≠ managedRelativeConfigForName name := by
      rintro rfl
      rw [h.free] at hbytes
      cases hbytes
    rw [h.others p (ne_config_of_managedFile hp) hne, hbytes]

/-- **Updating** touches nothing else exactly if the request is selective. -/
theorem othersKept_updated_iff (htoml : toml.Lawful) (h : Updated toml input d d' plan) :
    OthersKept toml (.update input) d d' ↔ Selective toml d (.update input) := by
  obtain ⟨originalName, document, agents, existing, hread, horiginal, hname, hplanned, hdocument,
    htable⟩ := exists_planned h.planned
  have hnotReserved := not_reserved_of_normalize hname
  have hread' := configDocument_put htoml h.root h.config
  have hnew : AgentsRequest.Names (.update input) plan.name :=
    ⟨by simp [AgentsRequest.roles, hname, Except.toOption], hnotReserved⟩
  have hmem : originalName ∈ (AgentsRequest.update input).roles := by
    simp [AgentsRequest.roles, horiginal, Except.toOption]
  constructor
  · intro hkept plan' hplan'
    obtain rfl := Option.some.inj (h.planned.symm.trans hplan')
    refine ⟨fun name hlookup => ?_, ?_⟩
    · obtain rfl := Except.ok.inj (horiginal.symm.trans hlookup)
      by_contra hreserved
      have hreserved : isReservedAgentsKey originalName = true := by simpa using hreserved
      obtain ⟨document', hread'', _, hentries⟩ := hkept.keys document hread
      obtain rfl := Option.some.inj (hread'.symm.trans hread'')
      have hne : originalName ≠ plan.name := by
        intro heq
        rw [heq, hnotReserved] at hreserved
        cases hreserved
      have hentry := hentries originalName fun hnames => by
        rw [hnames.2] at hreserved
        cases hreserved
      rw [UpdatePlan.nextDocument, agentsEntry_insert, get_insert_of_ne hne, hplanned.others,
        get_remove_self, agentsEntry_of_table htable, hplanned.found] at hentry
      cases hentry
    · rintro p bytes ⟨document', role, hread'', hrole, hp, hbytes⟩
      have hfile := hkept.files document' hread'' role hrole p hp bytes hbytes
      have hnotNew : ∀ old new, plan.move = some (old, new) → ¬ new <+: p := by
        intro old new hmove hle
        rw [h.free old new hmove p hle] at hbytes
        cases hbytes
      refine ⟨fun old new hmove hle => ?_, fun hmove htarget => ?_⟩
      · have hnotTarget : plan.target input ≠ some p := by
          intro htarget
          rcases target_cases h.planned htarget with ⟨hnone, _⟩ | ⟨old', hsome⟩
          · rw [hmove] at hnone
            cases hnone
          · exact hnotNew old' p hsome List.prefix_rfl
        rw [h.others p (ne_config_of_managedFile hp) hnotTarget, hmove, movedFile,
          if_neg (hnotNew old new hmove), if_pos hle] at hfile
        cases hfile
      · obtain ⟨bytes', hbytes', hfile'⟩ := h.rewritten p htarget
        rw [hmove, movedFile, hbytes] at hbytes'
        rw [hbytes', ← Option.some.inj (hfile'.symm.trans hfile)]
  · intro hselective
    obtain ⟨hlookup, hfiles⟩ := hselective plan h.planned
    have hold : AgentsRequest.Names (.update input) originalName :=
      ⟨hmem, hlookup originalName horiginal⟩
    constructor
    · intro document' hread''
      obtain rfl := Option.some.inj (hread.symm.trans hread'')
      refine ⟨_, hread', ?_, ?_⟩
      · intro key hkey
        rw [UpdatePlan.nextDocument, get_insert_of_ne hkey, hdocument]
      · intro key hkey
        have hne : key ≠ plan.name := by
          rintro rfl
          exact hkey hnew
        have hne' : key ≠ originalName := by
          rintro rfl
          exact hkey hold
        rw [UpdatePlan.nextDocument, agentsEntry_insert, get_insert_of_ne hne, hplanned.others,
          get_remove_of_ne hne', agentsEntry_of_table htable]
    · intro document' hread'' role hrole p hp bytes hbytes
      obtain ⟨hmoved, htargeted⟩ := hfiles p bytes ⟨document', role, hread'', hrole, hp, hbytes⟩
      have hcontent : movedFile d plan.move p = some bytes := by
        cases hmove : plan.move with
        | none => exact hbytes
        | some pair =>
          obtain ⟨old, new⟩ := pair
          rw [movedFile, if_neg, if_neg (hmoved old new hmove), hbytes]
          intro hle
          rw [h.free old new hmove p hle] at hbytes
          cases hbytes
      by_cases htarget : plan.target input = some p
      · obtain ⟨bytes', hbytes', hfile⟩ := h.rewritten p htarget
        rcases target_cases h.planned htarget with ⟨hnone, _⟩ | ⟨old, hsome⟩
        · rw [hcontent, htargeted hnone htarget] at hbytes'
          rw [hfile, ← Except.ok.inj hbytes']
        · rw [h.free old p hsome p List.prefix_rfl] at hbytes
          cases hbytes
      · rw [h.others p (ne_config_of_managedFile hp) htarget, hcontent]

/-- **Deleting** touches nothing else exactly if the request is selective. -/
theorem othersKept_deleted_iff (htoml : toml.Lawful) {input : DeleteAgentInput} {name : Text}
    {agents : List (Text × RoleItem)} {existing : RoleItem}
    (h : Deleted toml input d d' name document agents existing) :
    OthersKept toml (.delete input) d d' ↔ Selective toml d (.delete input) := by
  have hread' := configDocument_put htoml h.root h.config
  have hmem : name ∈ (AgentsRequest.delete input).roles := by
    simp [AgentsRequest.roles, h.named, Except.toOption]
  constructor
  · intro hkept document' name' item hread hlookup hitem
    obtain rfl := Option.some.inj (h.read.symm.trans hread)
    obtain rfl := Except.ok.inj (h.named.symm.trans hlookup)
    rw [agentsEntry_of_table h.table] at hitem
    obtain rfl := Option.some.inj (h.role.symm.trans hitem)
    refine ⟨?_, ?_⟩
    · by_contra hreserved
      obtain ⟨document', hread'', _, hentries⟩ := hkept.keys document h.read
      obtain rfl := Option.some.inj (hread'.symm.trans hread'')
      have hentry := hentries name fun hnames => hreserved hnames.2
      rw [agentsEntry_insert, get_remove_self, agentsEntry_of_table h.table, h.role] at hentry
      cases hentry
    · rintro p bytes ⟨document', role, hread'', hrole, hp, hbytes⟩ hdeleted
      have hfile := hkept.files document' hread'' role hrole p hp bytes hbytes
      rw [h.deleted p hdeleted] at hfile
      cases hfile
  · intro hselective
    obtain ⟨hlookup, hfiles⟩ := hselective document name existing h.read h.named
      ((agentsEntry_of_table h.table).trans h.role)
    constructor
    · intro document' hread
      obtain rfl := Option.some.inj (h.read.symm.trans hread)
      refine ⟨_, hread', fun key hkey => get_insert_of_ne hkey, ?_⟩
      intro key hkey
      have hne : key ≠ name := by
        rintro rfl
        exact hkey ⟨hmem, hlookup⟩
      rw [agentsEntry_insert, get_remove_of_ne hne, agentsEntry_of_table h.table]
    · intro document' hread role hrole p hp bytes hbytes
      have hne := hfiles p bytes ⟨document', role, hread, hrole, hp, hbytes⟩
      rw [h.others p (ne_config_of_managedFile hp) hne, hbytes]

end Frame

/-- **What is left alone.** An operation that succeeds keeps everything but the role that it is
    about exactly if its request is selective. -/
theorem othersKept_iff (toml : TomlEdit) (htoml : toml.Lawful) (home : Text)
    (outside : Text → Bool) (d : Home) (fault : Option FileFault) (request : AgentsRequest)
    (settings : AgentsSettingsDto) (m : Marked Home)
    (hrun : request.run toml home outside fault ⟨d, false⟩ = (.ok settings, m)) :
    OthersKept toml request d m.state ↔ Selective toml d request := by
  rcases (run_triple htoml request).run rfl hrun with ⟨_, _, _, hdone⟩ | ⟨e, herror, _⟩
  swap
  · cases herror
  cases request with
  | create input =>
    obtain ⟨name, loaded, document, agents, hcreated⟩ := hdone
    exact ⟨fun _ => trivial, fun _ => othersKept_created htoml hcreated⟩
  | update input =>
    obtain ⟨plan, hupdated⟩ := hdone
    exact othersKept_updated_iff htoml hupdated
  | delete input =>
    obtain ⟨name, document, agents, existing, hdeleted⟩ := hdone
    exact othersKept_deleted_iff htoml hdeleted

/-! ### A limit that is deleted as a role -/

/-- The documents before and after, as `toml_edit` writes them. -/
def limitToml : TomlEdit := sampleToml [
  ([(managedAgentsDir, .table false [("max_threads".toList, .value (.integer 6))])],
    "[agents]\nmax_threads = 6\n".toList),
  ([(managedAgentsDir, .table false [])], "[agents]\n".toList)]

theorem limitToml_lawful : limitToml.Lawful := by
  refine sampleToml_lawful ?_ ?_ ?_ <;> decide +kernel

/-- A home with a limit in `config.toml`. -/
def limitHome : Home :=
  emptyHome.put configPath (encodeUtf8 "[agents]\nmax_threads = 6\n".toList) (by decide)

def deleteLimit : DeleteAgentInput := ⟨"max_threads".toList, none⟩

/-- What the request leads to. -/
def limitRun : Except Text AgentsSettingsDto × Marked Home :=
  (AgentsRequest.delete deleteLimit).run limitToml "/home/user/.codex".toList (fun _ => false) none
    ⟨limitHome, false⟩

theorem exists_limitRun : ∃ settings, limitRun.1 = .ok settings := by
  have hok : limitRun.1.toOption.isSome = true := by decide +kernel
  obtain ⟨settings, hsettings⟩ := Option.isSome_iff_exists.mp hok
  exact ⟨settings, ok_of_toOption hsettings⟩

theorem othersKept_iff_limit :
    OthersKept limitToml (.delete deleteLimit) limitHome limitRun.2.state ↔
      Selective limitToml limitHome (.delete deleteLimit) := by
  obtain ⟨settings, hok⟩ := exists_limitRun
  exact othersKept_iff limitToml limitToml_lawful _ _ limitHome none _ settings _ (Prod.ext hok rfl)

/-- The request is accepted, and the limit is gone. -/
theorem limit_deleted : ¬ ∀ (toml : TomlEdit), toml.Lawful → ∀ (home : Text)
    (outside : Text → Bool) (d : Home) (fault : Option FileFault) (request : AgentsRequest)
    (settings : AgentsSettingsDto) (m : Marked Home),
      request.run toml home outside fault ⟨d, false⟩ = (.ok settings, m) →
        OthersKept toml request d m.state := by
  intro h
  obtain ⟨settings, hok⟩ := exists_limitRun
  have hkept := h limitToml limitToml_lawful _ _ limitHome none (.delete deleteLimit) settings
    limitRun.2 (Prod.ext hok rfl)
  have hbefore : configDocument limitToml limitHome =
      some [(managedAgentsDir, .table false [("max_threads".toList, .value (.integer 6))])] := by
    decide +kernel
  have hafter : configDocument limitToml limitRun.2.state =
      some [(managedAgentsDir, .table false [])] := by decide +kernel
  obtain ⟨document, hdocument, _, hentries⟩ := hkept.keys _ hbefore
  obtain rfl := Option.some.inj (hafter.symm.trans hdocument)
  have hentry := hentries "max_threads".toList fun hnames => absurd hnames.2 (by decide)
  exact absurd hentry (by decide)

end CodexMonitor.Agents
