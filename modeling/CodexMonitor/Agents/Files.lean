import CodexMonitor.Agents.Settings

namespace CodexMonitor.Agents

open OrderedMap Faulty

/-!
# Agents — what the calls on files do

For each part of the operations one triple: what it leaves when it succeeds, and what when it
fails.

* `configDocument` — the document in `config.toml`.
* `Refused` — the calls of one step failed and changed nothing.
* `load_triple`, `persist_triple` — reading and writing `config.toml`.
* `resolveRead_triple`, `resolveWrite_triple` — the checks of a managed path.
* `upsert_triple` — rewriting the file of a role.
* `undoRename_triple`, `restoreBackup_triple` — the compensating calls.
-/

/-- The document in `config.toml`, if it can be read; it is empty if the file is missing. -/
def configDocument (toml : TomlEdit) (d : Home) : Option Document :=
  if d.present [] = false then some []
  else if d.isDir [] = false then none
  else
    match d.node configPath with
    | none => some []
    | some (.file bytes) =>
        (decodeUtf8 bytes).bind fun content => (parseDocument toml content).toOption
    | some _ => none

section Specs

variable {toml : TomlEdit} {home context : Text} {fault : Option FileFault} {d d' : Home}
  {step : Step} {op : FileOp} {path old new : Path} {α : Type} {N : Prop}

/-! ### Single calls -/

/-- Nothing was changed; either a call of the step failed, or `N` holds. -/
structure Refused (fault : Option FileFault) (step : Step) (d : Home) (N : Prop)
    (m : Marked Home) : Prop where
  state : m.state = d
  met : m.met = true → ∃ f, fault = some f ∧ f.call.step = step ∧ f.call.op ≠ .write
  unmet : m.met = false → N

theorem Refused.of_met {damage : Damage} {f : FileFault} (hf : fault = some f)
    (hcall : f.call = ⟨step, op, path⟩) (hop : op ≠ .write) :
    Refused fault step d N ⟨damage.spoil op path d, true⟩ := by
  refine ⟨?_, fun _ => ⟨f, hf, by rw [hcall], by rwa [hcall]⟩, fun h => Bool.noConfusion h⟩
  show damage.spoil op path d = d
  unfold Damage.spoil
  split
  · exact absurd rfl hop
  · rfl

theorem Refused.of_unmet (h : N) : Refused fault step d N ⟨d, false⟩ :=
  ⟨rfl, fun hmet => Bool.noConfusion hmet, fun _ => h⟩

theorem Refused.mono {N' : Prop} {m : Marked Home} (h : Refused fault step d N m)
    (hN : N → N') : Refused fault step d N' m :=
  ⟨h.state, h.met, fun hmet => hN (h.unmet hmet)⟩

/-- A call that is not a write. -/
theorem fileCall_triple {act : Home → Except IoError (α × Home)} {F : α → Home → Prop}
    (hop : op ≠ .write) (hok : ∀ a d', act d = .ok (a, d') → F a d')
    (herror : ∀ e, act d = .error e → N) :
    Triple fault (From d) (fileCall step op path context act) (fun a => Clean (F a))
      (Refused fault step d N) := by
  refine Triple.call_from ?_ ?_ ?_
  · intro f hf hcall
    exact Refused.of_met hf hcall hop
  · intro a d' hact
    cases hresult : act d with
    | error e =>
      rw [hresult] at hact
      cases hact
    | ok result =>
      rw [hresult] at hact
      obtain rfl := Except.ok.inj hact
      exact hok _ _ hresult
  · intro e hact
    cases hresult : act d with
    | error e' => exact Refused.of_unmet (herror e' hresult)
    | ok result =>
      rw [hresult] at hact
      cases hact

/-- A call that needs something at the path. -/
theorem lookup_triple (hop : op ≠ .write) (hN : d.present path = false → N) :
    Triple fault (From d) (fileCall step op path context fun d =>
        if d.present path then .ok ((), d) else .error .notFound)
      (fun _ => Clean fun d' => d' = d) (Refused fault step d N) := by
  refine fileCall_triple hop ?_ ?_
  · intro a d' h
    split_ifs at h
    exact (congrArg Prod.snd (Except.ok.inj h)).symm
  · intro e h
    split_ifs at h with hpresent
    exact hN (by simpa using hpresent)

theorem canonicalize_triple (hN : d.present path = false → N) :
    Triple fault (From d) (canonicalize step path context)
      (fun _ => Clean fun d' => d' = d) (Refused fault step d N) :=
  lookup_triple (by decide) hN

theorem openFile_triple (hN : d.present path = false → N) :
    Triple fault (From d) (openFile step path context)
      (fun _ => Clean fun d' => d' = d) (Refused fault step d N) :=
  lookup_triple (by decide) hN

theorem symlinkMetadata_triple {again : Bool}
    (hN : d.node path = none → (d.file path.dropLast).isSome = true → N) :
    Triple fault (From d) (symlinkMetadata step again path context)
      (fun node => Clean fun d' => d' = d ∧ node = d.node path ∧
        (node = none → d.file path.dropLast = none)) (Refused fault step d N) := by
  refine fileCall_triple (by cases again <;> decide) ?_ ?_
  · intro a d' h
    cases hnode : d.node path with
    | some node =>
      rw [hnode] at h
      obtain rfl := congrArg Prod.fst (Except.ok.inj h)
      exact ⟨(congrArg Prod.snd (Except.ok.inj h)).symm, rfl, fun h => by cases h⟩
    | none =>
      rw [hnode] at h
      simp only at h
      split_ifs at h with hfile
      obtain rfl := congrArg Prod.fst (Except.ok.inj h)
      refine ⟨(congrArg Prod.snd (Except.ok.inj h)).symm, rfl, fun _ => ?_⟩
      simpa using hfile
  · intro e h
    cases hnode : d.node path with
    | some node =>
      rw [hnode] at h
      cases h
    | none =>
      rw [hnode] at h
      simp only at h
      split_ifs at h with hfile
      exact hN hnode hfile

theorem readFile_triple (hN : d.file path = none → N) :
    Triple fault (From d) (readFile step path context)
      (fun bytes => Clean fun d' => d' = d ∧ d.file path = some bytes)
      (Refused fault step d N) := by
  refine fileCall_triple (by decide) ?_ ?_
  · intro a d' h
    cases hfile : d.file path with
    | none =>
      rw [hfile] at h
      cases h
    | some bytes =>
      rw [hfile] at h
      obtain rfl := congrArg Prod.fst (Except.ok.inj h)
      exact ⟨(congrArg Prod.snd (Except.ok.inj h)).symm, rfl⟩
  · intro e h
    cases hfile : d.file path with
    | none => exact hN hfile
    | some bytes =>
      rw [hfile] at h
      cases h

/-! ### Reading `config.toml` -/

theorem ofExcept_triple {x : Except Text α} {E : Marked Home → Prop}
    (herror : ∀ e, x = .error e → E ⟨d, false⟩) :
    Triple fault (From d) (ofExcept x) (fun a => Clean fun d' => d' = d ∧ x = .ok a) E := by
  cases x with
  | ok a => exact Triple.pure_clean ⟨rfl, rfl⟩
  | error e => exact Triple.fail_from (herror e rfl)

theorem query_triple {read : Home → α} {E : Marked Home → Prop} :
    Triple fault (From d) (query read : FileProg α) (fun a => Clean fun d' => d' = d ∧ a = read d)
      E :=
  Triple.query_clean ⟨rfl, rfl⟩

theorem configDocument_of_missing (hroot : d.present [] = false) :
    configDocument toml d = some [] := by
  rw [configDocument, if_pos hroot]

theorem configDocument_of_notDir (hroot : d.present [] = true) (hdir : d.isDir [] = false) :
    configDocument toml d = none := by
  rw [configDocument, if_neg (by rw [hroot]; decide), if_pos hdir]

theorem configDocument_of_dir (hdir : d.isDir [] = true) : configDocument toml d =
    match d.node configPath with
    | none => some []
    | some (.file bytes) =>
        (decodeUtf8 bytes).bind fun content => (parseDocument toml content).toOption
    | some _ => none := by
  have hroot : d.present [] = true := by
    rw [Disk.present, Disk.isDir_iff.mp hdir]
    rfl
  rw [configDocument, if_neg (by rw [hroot]; decide), if_neg (by rw [hdir]; decide)]

theorem readText_triple :
    Triple fault (From d) (readTextFileWithin step)
      (fun content => Clean fun d' => d' = d ∧ configDocument toml d =
        match content with
        | none => some []
        | some content => (parseDocument toml content).toOption)
      (Refused fault step d (configDocument toml d = none)) := by
  unfold readTextFileWithin
  refine Triple.bind_clean query_triple ?_
  rintro _ d ⟨rfl, rfl⟩
  by_cases hroot : d.present [] = true
  swap
  · have hroot : d.present [] = false := by simpa using hroot
    simp only [hroot, Bool.not_false, if_true]
    exact Triple.pure_clean ⟨rfl, configDocument_of_missing hroot⟩
  simp only [hroot, Bool.not_true, Bool.false_eq_true, if_false]
  refine Triple.bind_clean (canonicalize_triple fun h => ?_) ?_
  · rw [hroot] at h
    cases h
  rintro _ d rfl
  refine Triple.bind_clean query_triple ?_
  rintro _ d ⟨rfl, rfl⟩
  by_cases hdir : d.isDir [] = true
  swap
  · have hdir : d.isDir [] = false := by simpa using hdir
    simp only [hdir, Bool.not_false, if_true]
    exact Triple.fail_from (Refused.of_unmet (configDocument_of_notDir hroot hdir))
  have hdocument : configDocument toml d = _ := configDocument_of_dir hdir
  simp only [hdir, Bool.not_true, Bool.false_eq_true, if_false]
  refine Triple.bind_clean query_triple ?_
  rintro _ d ⟨rfl, rfl⟩
  by_cases hpresent : d.present configPath = true
  swap
  · have hpresent : d.present configPath = false := by simpa using hpresent
    simp only [hpresent, Bool.not_false, if_true]
    refine Triple.pure_clean ⟨rfl, ?_⟩
    have hnode : d.node configPath = none := by simpa [Disk.present] using hpresent
    rw [hdocument, hnode]
  simp only [hpresent, Bool.not_true, Bool.false_eq_true, if_false]
  refine Triple.bind_clean (symlinkMetadata_triple fun h => ?_) ?_
  · rw [Disk.present, h] at hpresent
    cases hpresent
  rintro _ d ⟨rfl, rfl, _⟩
  refine Triple.bind_clean (canonicalize_triple fun h => ?_) ?_
  · rw [hpresent] at h
    cases h
  rintro _ d rfl
  by_cases hlink : d.node configPath = some .link
  · rw [if_pos hlink]
    refine Triple.fail_from (Refused.of_unmet ?_)
    rw [hdocument, hlink]
  rw [if_neg hlink]
  refine Triple.bind_clean (openFile_triple fun h => ?_) ?_
  · rw [hpresent] at h
    cases h
  rintro _ d rfl
  refine Triple.bind_clean (readFile_triple fun h => ?_) ?_
  · -- what is there and no file is a directory
    rw [hdocument]
    cases hnode : d.node configPath with
    | none =>
      rw [Disk.present, hnode] at hpresent
      cases hpresent
    | some node =>
      cases node with
      | file bytes =>
        rw [Disk.file_eq_some.mpr hnode] at h
        cases h
      | dir => rfl
      | link => rfl
  rintro bytes d ⟨rfl, hbytes⟩
  rw [Disk.file_eq_some.mp hbytes] at hdocument
  cases hcontent : decodeUtf8 bytes with
  | none =>
    refine Triple.fail_from (Refused.of_unmet ?_)
    simp only [hdocument, hcontent, Option.bind_none]
  | some content =>
    refine Triple.pure_clean ⟨rfl, ?_⟩
    simp only [hdocument, hcontent, Option.bind_some]

/-- **Loading.** The document is read, or nothing happened. -/
theorem load_triple :
    Triple fault (From d) (loadGlobalConfigDocument toml step)
      (fun result => Clean fun d' => d' = d ∧ configDocument toml d = some result.2)
      (Refused fault step d (configDocument toml d = none)) := by
  unfold loadGlobalConfigDocument
  refine Triple.bind_clean readText_triple ?_
  rintro content d ⟨rfl, hdocument⟩
  cases content with
  | none => exact Triple.pure_clean ⟨rfl, hdocument⟩
  | some content =>
    refine Triple.bind_clean (ofExcept_triple fun e hparse => Refused.of_unmet ?_) ?_
    · refine hdocument.trans ?_
      simp only [hparse, Except.toOption]
    · rintro document d ⟨rfl, hparse⟩
      refine Triple.pure_clean ⟨rfl, hdocument.trans ?_⟩
      simp only [hparse, Except.toOption]

/-! ### Writing -/

/-- What a failed write leaves in the file. -/
def written (f : FileFault) : Option ByteArray :=
  if f.call.op = .write then f.damage.left else none

/-- The disk with a file put at the path. -/
def Put (d : Home) (path : Path) (bytes : ByteArray) (d' : Home) : Prop :=
  d'.node = Function.update d.node path (some (.file bytes))

/-- A call of the step failed; if it was the write, something else may be in the file. -/
def Spoiled (fault : Option FileFault) (step : Step) (path : Path) (d : Home)
    (m : Marked Home) : Prop :=
  m.met = true ∧ ∃ f, fault = some f ∧ f.call.step = step ∧
    match written f with
    | none => m.state = d
    | some bytes => Put d path bytes m.state

theorem Refused.isMet {m : Marked Home} (h : Refused fault step d False m) : m.met = true := by
  cases hmet : m.met with
  | true => rfl
  | false => exact (h.unmet hmet).elim

theorem Refused.spoiled {m : Marked Home} (h : Refused fault step d False m) :
    Spoiled fault step path d m := by
  obtain ⟨f, hf, hstep, hop⟩ := h.met h.isMet
  refine ⟨h.isMet, f, hf, hstep, ?_⟩
  rw [written, if_neg hop]
  exact h.state

theorem put_of_writable {bytes : ByteArray} (h : d.Writable path) :
    Put d path bytes (d.put path bytes h) := rfl

theorem writeFile_triple {bytes : ByteArray} (h : d.Writable path) (hlink : d.isLink path = false) :
    Triple fault (From d) (writeFile step path bytes context)
      (fun _ => Clean (Put d path bytes)) (Spoiled fault step path d) := by
  have hwrite : d.writeFile path bytes = .ok (d.put path bytes h) :=
    Disk.writeFile_of_writable h hlink
  unfold writeFile fileCall
  refine Triple.call_from ?_ ?_ ?_
  · intro f hf hcall
    refine ⟨rfl, f, hf, by rw [hcall], ?_⟩
    have hop : f.call.op = .write := by rw [hcall]
    rw [written, if_pos hop]
    cases hleft : f.damage.left with
    | none =>
      show f.damage.spoil .write path d = d
      simp only [Damage.spoil, hleft]
    | some left =>
      show Put d path left (f.damage.spoil .write path d)
      simp only [Damage.spoil, hleft, Disk.writeFile_of_writable h hlink]
      exact put_of_writable h
  · intro a d' hact
    simp only [hwrite] at hact
    obtain rfl := congrArg Prod.snd (Except.ok.inj hact)
    exact put_of_writable h
  · intro e hact
    simp only [hwrite] at hact
    cases hact

theorem createDirAll_triple (hN : (∀ d', d.createDirAll path ≠ .ok d') → N) :
    Triple fault (From d) (createDirAll step path context)
      (fun _ => Clean fun d' => d.createDirAll path = .ok d') (Refused fault step d N) := by
  refine fileCall_triple (by decide) ?_ ?_
  · intro a d' hact
    cases hresult : d.createDirAll path with
    | error e =>
      rw [hresult] at hact
      cases hact
    | ok made =>
      rw [hresult] at hact
      exact congrArg Except.ok (congrArg Prod.snd (Except.ok.inj hact))
  · intro e hact
    refine hN fun d' hresult => ?_
    rw [hresult] at hact
    cases hact

/-- A directory that exists need not be made. -/
theorem createDirAll_triple_of_dir (hdir : d.isDir path = true) :
    Triple fault (From d) (createDirAll step path context)
      (fun _ => Clean fun d' => d' = d) (Refused fault step d N) := by
  have hsame := Disk.createDirAll_of_dir (Disk.isDir_iff.mp hdir)
  refine (createDirAll_triple fun hfail => absurd hsame (hfail d)).weaken (fun _ h => h) ?_
    fun _ h => h
  rintro _ m ⟨hmet, hmade⟩
  exact ⟨hmet, (Except.ok.inj (hsame.symm.trans hmade)).symm⟩

/-- `config.toml` can be written. -/
def Configurable (d : Home) : Prop :=
  d.isDir [] = true ∧ d.isDir configPath = false ∧ d.isLink configPath = false

theorem Configurable.writable (h : Configurable d) : d.Writable configPath :=
  ⟨by decide, h.2.1, h.1⟩

/-- **Persisting.** The document is written; if this fails, one of its calls did. -/
theorem persist_triple {document : Document} (h : Configurable d) :
    Triple fault (From d) (persistGlobalConfigDocument toml document)
      (fun _ => Clean (Put d configPath (encodeUtf8 (withNewline (toml.render document)))))
      (Spoiled fault .persist configPath d) := by
  have hspoiled : ∀ m, Refused fault .persist d False m → Spoiled fault .persist configPath d m :=
    fun _ => Refused.spoiled
  have hpresent : d.present [] = true := by
    rw [Disk.present, Disk.isDir_iff.mp h.1]
    rfl
  unfold persistGlobalConfigDocument writeTextFileWithin
  refine Triple.bind_clean ((createDirAll_triple_of_dir h.1).mono_error hspoiled) ?_
  rintro _ d rfl
  refine Triple.bind_clean ((canonicalize_triple fun hroot => ?_).mono_error hspoiled) ?_
  · rw [hpresent] at hroot
    cases hroot
  rintro _ d rfl
  refine Triple.bind_clean query_triple ?_
  rintro _ d ⟨rfl, rfl⟩
  simp only [h.1, Bool.not_true, Bool.false_eq_true, if_false]
  refine Triple.bind_clean query_triple ?_
  rintro _ d ⟨rfl, rfl⟩
  by_cases hconfig : d.present configPath = true
  · rw [if_pos hconfig]
    refine Triple.bind_clean ((symlinkMetadata_triple fun hnone => ?_).mono_error hspoiled) ?_
    · rw [Disk.present, hnone] at hconfig
      cases hconfig
    rintro _ d ⟨rfl, rfl, _⟩
    refine Triple.bind_clean ((canonicalize_triple fun hnone => ?_).mono_error hspoiled) ?_
    · rw [hconfig] at hnone
      cases hnone
    rintro _ d rfl
    have hlink : d.node configPath ≠ some .link := by
      intro hnode
      have hnotlink := h.2.2
      rw [Disk.isLink, hnode] at hnotlink
      cases hnotlink
    rw [if_neg hlink]
    exact writeFile_triple h.writable h.2.2
  · rw [if_neg hconfig]
    exact writeFile_triple h.writable h.2.2

/-! ### Managed paths -/

/-- What the check of the components finds: no link, and nothing below a file. -/
def walk (d : Home) (current : Path) : List Text → Bool
  | [] => true
  | component :: rest =>
      match d.node (current ++ [component]) with
      | none => (d.file current).isNone
      | some .link => false
      | some _ => walk d (current ++ [component]) rest

theorem walk_of_none {component : Text} {rest : List Text} {current : Path}
    (h : d.node (current ++ [component]) = none) :
    walk d current (component :: rest) = (d.file current).isNone := by
  rw [walk, h]

theorem walk_of_link {component : Text} {rest : List Text} {current : Path}
    (h : d.node (current ++ [component]) = some .link) :
    walk d current (component :: rest) = false := by
  rw [walk, h]

theorem walk_of_some {component : Text} {rest : List Text} {current : Path} {node : Node ByteArray}
    (h : d.node (current ++ [component]) = some node) (hlink : node ≠ .link) :
    walk d current (component :: rest) = walk d (current ++ [component]) rest := by
  rw [walk, h]
  cases node with
  | file bytes => rfl
  | dir => rfl
  | link => exact absurd rfl hlink

theorem not_link_of_walk {current : Path} {rest : List Text} (hrest : rest ≠ [])
    (h : walk d current rest = true) : d.node (current ++ rest) ≠ some .link := by
  induction rest generalizing current with
  | nil => exact absurd rfl hrest
  | cons component rest ih =>
    rw [List.append_cons]
    cases hnode : d.node (current ++ [component]) with
    | none => rw [Disk.node_below_none hnode rest]; simp
    | some node =>
      have hlink : node ≠ .link := by
        rintro rfl
        rw [walk_of_link hnode] at h
        cases h
      by_cases hlast : rest = []
      · rw [hlast, List.append_nil, hnode]
        exact fun heq => hlink (Option.some.inj heq)
      · rw [walk_of_some hnode hlink] at h
        exact ih hlast h

/-- A path whose parent is a directory, and which is no link. -/
structure Placed (d : Home) (path : Path) : Prop where
  ne : path ≠ []
  parent : d.isDir path.dropLast = true
  notLink : d.node path ≠ some .link

theorem walk_of_placed (h : Placed d path) {current : Path} {rest : List Text}
    (hpath : path = current ++ rest) : walk d current rest = true := by
  induction rest generalizing current with
  | nil => rfl
  | cons component rest ih =>
    have habove : ∀ q, q <+: path → q ≠ path → d.node q = some .dir := fun q hle hne =>
      Disk.dir_above_of_dropLast h.ne h.parent hle hne
    have hcurrent : d.node current = some .dir := by
      refine habove current ⟨_, hpath.symm⟩ ?_
      intro heq
      rw [hpath] at heq
      exact List.cons_ne_nil _ _ (List.append_right_eq_self.mp heq.symm)
    have hnext : path = current ++ [component] ++ rest := by
      rw [hpath, List.append_assoc]
      rfl
    cases hnode : d.node (current ++ [component]) with
    | none =>
      rw [walk_of_none hnode, Disk.file_of_dir hcurrent]
      rfl
    | some node =>
      have hlink : node ≠ .link := by
        rintro rfl
        by_cases hlast : rest = []
        · rw [hlast] at hpath
          exact h.notLink (hpath ▸ hnode)
        · have hne : current ++ [component] ≠ path := by
            rw [hnext]
            exact fun heq => hlast (List.append_right_eq_self.mp heq.symm)
          have hdir := habove (current ++ [component]) ⟨rest, hnext.symm⟩ hne
          rw [hnode] at hdir
          cases hdir
      rw [walk_of_some hnode hlink]
      exact ih hnext

theorem checkComponents_triple {again : Bool} {current : Path} {rest : List Text} :
    Triple fault (From d) (checkComponents home step again current rest)
      (fun _ => Clean fun d' => d' = d ∧ walk d current rest = true)
      (Refused fault step d (walk d current rest = false)) := by
  induction rest generalizing current with
  | nil => exact Triple.pure_clean ⟨rfl, rfl⟩
  | cons component rest ih =>
    unfold checkComponents
    refine Triple.bind_clean (symlinkMetadata_triple fun hnone hfile => ?_) ?_
    · rw [walk_of_none hnone]
      rw [List.dropLast_concat] at hfile
      cases hcurrent : d.file current with
      | none =>
        rw [hcurrent] at hfile
        cases hfile
      | some bytes => rfl
    rintro node d ⟨rfl, rfl, hcurrent⟩
    cases hnode : d.node (current ++ [component]) with
    | none =>
      have hfile := hcurrent hnode
      rw [List.dropLast_concat] at hfile
      refine Triple.pure_clean ⟨rfl, ?_⟩
      rw [walk_of_none hnode, hfile]
      rfl
    | some node =>
      cases node with
      | link => exact Triple.fail_from (Refused.of_unmet (walk_of_link hnode))
      | file bytes =>
        rw [walk_of_some hnode (by simp)]
        exact ih
      | dir =>
        rw [walk_of_some hnode (by simp)]
        exact ih

theorem assertManaged_triple {again : Bool} :
    Triple fault (From d) (assertManagedPathWithoutSymlinks home step again path)
      (fun _ => Clean fun d' => d' = d ∧ walk d [] path = true)
      (Refused fault step d (walk d [] path = false)) :=
  checkComponents_triple

theorem resolveRead_triple :
    Triple fault (From d) (resolveSafeManagedAbsPathForRead home step path)
      (fun target => Clean fun d' => d' = d ∧ target = path ∧ walk d [] path = true)
      (Refused fault step d (walk d [] path = false)) := by
  unfold resolveSafeManagedAbsPathForRead
  refine Triple.bind_clean assertManaged_triple ?_
  rintro _ d ⟨rfl, hwalk⟩
  exact Triple.pure_clean ⟨rfl, rfl, hwalk⟩

/-- The step failed and changed no file. -/
def Unsettled (fault : Option FileFault) (step : Step) (d : Home) (m : Marked Home) : Prop :=
  Disk.SameFiles d m.state ∧ (m.met = true → ∃ f, fault = some f ∧ f.call.step = step)

theorem Refused.unsettled {m : Marked Home} (h : Refused fault step d N m) :
    Unsettled fault step d m := by
  refine ⟨?_, fun hmet => ?_⟩
  · rw [h.state]
    exact Disk.SameFiles.refl d
  · obtain ⟨f, hf, hstep, _⟩ := h.met hmet
    exact ⟨f, hf, hstep⟩

/-- Making the directories of a path. -/
theorem placed_of_created (hne : path ≠ []) (hwalk : walk d [] path = true)
    (h : d.createDirAll path.dropLast = .ok d') : Placed d' path := by
  obtain ⟨_, hnode⟩ := Disk.node_createDirAll h
  refine ⟨hne, ?_, ?_⟩
  · rw [Disk.isDir_iff, hnode, if_pos List.prefix_rfl]
  · rw [hnode]
    split_ifs
    · simp
    · exact not_link_of_walk hne hwalk

/-- **Resolving a path for a write.** -/
theorem resolveWrite_triple (hne : path ≠ []) :
    Triple fault (From d) (resolveSafeManagedAbsPathForWrite home step path)
      (fun target => Clean fun d' => target = path ∧ Placed d' path ∧
        d.createDirAll path.dropLast = .ok d')
      (Unsettled fault step d) := by
  unfold resolveSafeManagedAbsPathForWrite
  refine Triple.bind_clean (assertManaged_triple.mono_error fun _ => Refused.unsettled) ?_
  rintro _ d ⟨rfl, hwalk⟩
  refine Triple.bind_clean ((createDirAll_triple fun _ => trivial).mono_error
    fun _ => Refused.unsettled) ?_
  intro _ d' hmade
  have hplaced := placed_of_created hne hwalk hmade
  refine Triple.bind_clean (assertManaged_triple.mono_error fun m hm => ?_) ?_
  · obtain ⟨hsame, hmet⟩ := hm.unsettled
    exact ⟨(Disk.sameFiles_createDirAll hmade).trans hsame, hmet⟩
  · rintro _ d' ⟨rfl, _⟩
    exact Triple.pure_clean ⟨rfl, hplaced, hmade⟩

/-- Where the path is placed already, only a failed call stops it. -/
theorem resolveWrite_triple_of_placed (h : Placed d path) :
    Triple fault (From d) (resolveSafeManagedAbsPathForWrite home step path)
      (fun target => Clean fun d' => d' = d ∧ target = path) (Refused fault step d False) := by
  have hwalk : walk d [] path = true := walk_of_placed h rfl
  have hfalse : ∀ m, Refused fault step d (walk d [] path = false) m →
      Refused fault step d False m := fun m hm => hm.mono fun hstop => by
    rw [hwalk] at hstop
    cases hstop
  unfold resolveSafeManagedAbsPathForWrite
  refine Triple.bind_clean (assertManaged_triple.mono_error hfalse) ?_
  rintro _ d ⟨rfl, _⟩
  refine Triple.bind_clean (createDirAll_triple_of_dir h.parent) ?_
  rintro _ d rfl
  refine Triple.bind_clean (assertManaged_triple.mono_error hfalse) ?_
  rintro _ d ⟨rfl, _⟩
  exact Triple.pure_clean ⟨rfl, rfl⟩

/-! ### Moving the file of a role -/

/-- What stands after the move that was planned: it was made, or there was nothing to move. -/
def Renamed (d : Home) : Option (Path × Path) → Option (Path × Path) → Home → Prop
  | none, none, d' => d' = d
  | some (old, new), none, d' =>
      Disk.SameFiles d d' ∧ d'.present new = false ∧ d'.present old = false
  | some (old, new), some pair, d' =>
      pair = (old, new) ∧ ∃ (made : Home) (h : made.Movable old new),
        Disk.SameFiles d made ∧ made.node new = none ∧ Placed made new ∧
          made.node old ≠ some .link ∧ d' = made.move old new h
  | none, some _, _ => False

/-- After the move the new path is placed. -/
theorem placed_move (hmove : d.Movable old new) (hplaced : Placed d new)
    (hlink : d.node old ≠ some .link) : Placed (d.move old new hmove) new := by
  have hle : new.dropLast <+: new := List.dropLast_prefix new
  have hnew : ¬ new <+: new.dropLast := by
    intro h
    have hlen := h.length_le
    have hpos := List.length_pos_of_ne_nil hplaced.ne
    rw [List.length_dropLast] at hlen
    omega
  have hold : ¬ old <+: new.dropLast := fun h => hmove.2.2.2.1 (h.trans hle)
  refine ⟨hplaced.ne, ?_, ?_⟩
  · rw [Disk.isDir_iff, Disk.node_move_of_not hmove hnew hold]
    exact Disk.isDir_iff.mp hplaced.parent
  · rwa [Disk.node_move_self]

theorem renameFile_triple :
    Triple fault (From d) (renameFile step old new context)
      (fun _ => Clean fun d' => d.rename old new = .ok d') (Refused fault step d True) := by
  refine fileCall_triple (by decide) ?_ fun _ _ => trivial
  intro a d' hact
  cases hresult : d.rename old new with
  | error e =>
    rw [hresult] at hact
    cases hact
  | ok moved =>
    rw [hresult] at hact
    exact congrArg Except.ok (congrArg Prod.snd (Except.ok.inj hact))

theorem moveManaged_triple {move : Option (Path × Path)}
    (hne : ∀ old new, move = some (old, new) → old ≠ [] ∧ new ≠ []) :
    Triple fault (From d) (moveManagedFile home move)
      (fun renamed => Clean (Renamed d move renamed))
      (fun m => Disk.SameFiles d m.state ∧ (m.met = true → ∃ f, fault = some f ∧
        (f.call.step = .oldPath ∨ f.call.step = .newPath ∨ f.call.step = .move))) := by
  cases move with
  | none => exact Triple.pure_clean rfl
  | some pair =>
    obtain ⟨old, new⟩ := pair
    obtain ⟨hold, hnew⟩ := hne old new rfl
    show Triple _ _ (resolveSafeManagedAbsPathForRead home .oldPath old >>= _) _ _
    refine Triple.bind_clean (resolveRead_triple.mono_error fun m hm => ?_) ?_
    · obtain ⟨hsame, hmet⟩ := hm.unsettled
      refine ⟨hsame, fun h => ?_⟩
      obtain ⟨f, hf, hstep⟩ := hmet h
      exact ⟨f, hf, .inl hstep⟩
    rintro target d ⟨rfl, rfl, hwalk⟩
    refine Triple.bind_clean ((resolveWrite_triple hnew).mono_error fun m hm => ?_) ?_
    · refine ⟨hm.1, fun h => ?_⟩
      obtain ⟨f, hf, hstep⟩ := hm.2 h
      exact ⟨f, hf, .inr (.inl hstep)⟩
    rintro newTarget made ⟨rfl, hplaced, hmade⟩
    have hsame := Disk.sameFiles_createDirAll hmade
    refine Triple.bind_clean query_triple ?_
    rintro _ made ⟨rfl, rfl⟩
    by_cases hfree : made.present newTarget = true
    · rw [if_pos hfree]
      exact Triple.fail_from ⟨hsame, fun h => by cases h⟩
    rw [if_neg hfree]
    have hfree : made.present newTarget = false := by simpa using hfree
    have hnone : made.node newTarget = none := by simpa [Disk.present] using hfree
    refine Triple.bind_clean query_triple ?_
    rintro _ made ⟨rfl, rfl⟩
    by_cases hexists : made.present target = true
    · rw [if_pos hexists]
      refine Triple.bind_clean ((renameFile_triple).mono_error fun m hm => ?_) ?_
      · obtain ⟨hstate, hmet⟩ := hm.unsettled
        refine ⟨hsame.trans hstate, fun h => ?_⟩
        obtain ⟨f, hf, hstep⟩ := hmet h
        exact ⟨f, hf, .inr (.inr hstep)⟩
      · intro _ moved hrename
        obtain ⟨hmove, rfl⟩ := Disk.movable_of_rename hrename
        have hlink : made.node target ≠ some .link := by
          rw [(Disk.node_createDirAll hmade).2]
          split_ifs
          · simp
          · have hnotlink := not_link_of_walk hold hwalk
            rwa [List.nil_append] at hnotlink
        exact Triple.pure_clean ⟨rfl, made, hmove, hsame, hnone, hplaced, hlink, rfl⟩
    · rw [if_neg hexists]
      exact Triple.pure_clean ⟨hsame, hfree, by simpa using hexists⟩

/-! ### Rewriting the file of a role -/

theorem Placed.writable (h : Placed d path) (hdir : d.isDir path = false) : d.Writable path :=
  ⟨h.ne, hdir, h.parent⟩

theorem Placed.isLink (h : Placed d path) : d.isLink path = false := by
  unfold Disk.isLink
  split
  next hlink => exact absurd hlink h.notLink
  next => rfl

/-- What stands at a placed path is a directory, a file or nothing. -/
theorem Placed.isDir_of_file (h : Placed d path) (hpresent : d.present path = true) :
    d.isDir path = true ↔ d.file path = none := by
  unfold Disk.isDir Disk.file
  cases hnode : d.node path with
  | none =>
    rw [Disk.present, hnode] at hpresent
    cases hpresent
  | some node =>
    cases node with
    | file bytes => simp
    | dir => simp
    | link => exact absurd hnode h.notLink

theorem readPrevious_triple (h : Placed d path) :
    Triple fault (From d) (readPrevious path)
      (fun previous => Clean fun d' => d' = d ∧ previous = d.file path ∧ d.isDir path = false)
      (Refused fault .instructions d True) := by
  unfold readPrevious
  refine Triple.bind_clean query_triple ?_
  rintro _ d ⟨rfl, rfl⟩
  by_cases hpresent : d.present path = true
  · rw [if_pos hpresent]
    refine Triple.bind_clean (readFile_triple fun _ => trivial) ?_
    rintro bytes d ⟨rfl, hbytes⟩
    refine Triple.pure_clean ⟨rfl, hbytes.symm, ?_⟩
    rw [← Bool.not_eq_true, h.isDir_of_file hpresent, hbytes]
    simp
  · rw [if_neg hpresent]
    have hnone : d.node path = none := by simpa [Disk.present] using hpresent
    refine Triple.pure_clean ⟨rfl, (Disk.file_of_none hnone).symm, ?_⟩
    rw [Disk.isDir, hnone]

/-- **Rewriting.** The file gets the new content; where this fails and a file changed, the write
    failed. -/
theorem upsert_triple {instructions : Option Text} (h : Placed d path) :
    Triple fault (From d) (upsertDeveloperInstructionsInAgentConfigFile toml path instructions)
      (fun previous => Clean fun d' => previous = d.file path ∧ d.isDir path = false ∧
        ∃ bytes, upsertedContent toml (d.file path) instructions = .ok bytes ∧ Put d path bytes d')
      (fun m => Refused fault .instructions d True m ∨
        d.isDir path = false ∧ Spoiled fault .instructions path d m) := by
  unfold upsertDeveloperInstructionsInAgentConfigFile
  refine Triple.bind_clean ((createDirAll_triple_of_dir h.parent).mono_error fun _ => .inl) ?_
  rintro _ d rfl
  refine Triple.bind_clean ((readPrevious_triple h).mono_error fun _ => .inl) ?_
  rintro _ d ⟨rfl, rfl, hdir⟩
  refine Triple.bind_clean (ofExcept_triple fun e _ => .inl (Refused.of_unmet trivial)) ?_
  rintro bytes d ⟨rfl, hbytes⟩
  refine Triple.bind_clean ((writeFile_triple (h.writable hdir) h.isLink).mono_error
    fun _ hm => .inr ⟨hdir, hm⟩) ?_
  intro _ d' hput
  exact Triple.pure_clean ⟨rfl, hdir, bytes, hbytes, hput⟩

/-! ### Compensating calls -/

/-- The disk after a call whose error is dropped. -/
def after {β : Type} (act : Home → Except IoError (β × Home)) (d : Home) : Home :=
  match act d with
  | .ok (_, d') => d'
  | .error _ => d

/-- The renamed file is moved back. -/
def undone (renamed : Option (Path × Path)) (d : Home) : Home :=
  match renamed with
  | none => d
  | some (old, new) =>
      if d.present new then after (fun d => (d.rename new old).map ((), ·)) d else d

/-- The backup is written back. -/
def restored (backup : Option (Path × Option ByteArray)) (d : Home) : Home :=
  match backup with
  | none => d
  | some (path, some bytes) => after (fun d => (d.writeFile path bytes).map ((), ·)) d
  | some (path, none) =>
      if d.present path then after (fun d => (d.removeFile path).map ((), ·)) d else d

section Undo

variable {P E : Marked Home → Prop}

/-- No compensating call fails. -/
def Unfailing (fault : Option FileFault) : Prop := ∀ f, fault = some f → f.call.step ≠ .undo

/-- The states of `P`, each changed by `change`. -/
def Changed (P : Marked Home → Prop) (change : Home → Home) (m : Marked Home) : Prop :=
  ∃ before, P before ∧ m = { before with state := change before.state }

/-- The error of a compensating call is dropped. -/
theorem ignored_triple {act : Home → Except IoError (α × Home)} :
    Triple fault P (fileCall .undo op path context act).attempt
      (fun _ m => Unfailing fault → Changed P (after act) m) E := by
  intro m hm
  show Unfailing fault → Changed P (after act) ((fileCall .undo op path context act) fault m).2
  intro hundo
  refine ⟨m, hm, ?_⟩
  have hne : ∀ f, fault = some f → f.call ≠ ⟨.undo, op, path⟩ := fun f hf heq =>
    hundo f hf (by rw [heq])
  rw [fileCall, call_of_ne hne]
  unfold perform after
  cases hact : act m.state with
  | ok result =>
    simp only [hact]
    rfl
  | error e =>
    simp only [hact]
    rfl

theorem undoRename_triple (renamed : Option (Path × Path)) :
    Triple fault P (undoRename renamed)
      (fun _ m => Unfailing fault → Changed P (undone renamed) m) E := by
  cases renamed with
  | none => exact Triple.pure fun m hm _ => ⟨m, hm, rfl⟩
  | some pair =>
    obtain ⟨old, new⟩ := pair
    show Triple fault P (pathExists new >>= _) _ _
    refine Triple.bind (Q := fun found m => P m ∧ found = m.state.present new)
      (Triple.query fun m hm => ⟨hm, rfl⟩) ?_
    intro found
    cases found with
    | true =>
      rw [if_pos rfl]
      refine Triple.bind ignored_triple fun _ => Triple.pure fun m hm hundo => ?_
      obtain ⟨before, ⟨hbefore, hpresent⟩, rfl⟩ := hm hundo
      have hpresent : before.state.present new = true := hpresent.symm
      refine ⟨before, hbefore, ?_⟩
      simp only [undone, hpresent, if_true]
    | false =>
      rw [if_neg Bool.false_ne_true]
      refine Triple.pure ?_
      rintro m ⟨hm, hpresent⟩ _
      refine ⟨m, hm, ?_⟩
      simp only [undone, ← hpresent, Bool.false_eq_true, if_false]

theorem restoreBackup_triple (backup : Option (Path × Option ByteArray)) :
    Triple fault P (restoreBackup backup)
      (fun _ m => Unfailing fault → Changed P (restored backup) m) E := by
  cases backup with
  | none => exact Triple.pure fun m hm _ => ⟨m, hm, rfl⟩
  | some pair =>
    obtain ⟨path, previous⟩ := pair
    cases previous with
    | some bytes => exact Triple.bind ignored_triple fun _ => Triple.pure fun _ hm => hm
    | none =>
      show Triple fault P (pathExists path >>= _) _ _
      refine Triple.bind (Q := fun found m => P m ∧ found = m.state.present path)
        (Triple.query fun m hm => ⟨hm, rfl⟩) ?_
      intro found
      cases found with
      | true =>
        rw [if_pos rfl]
        refine Triple.bind ignored_triple fun _ => Triple.pure fun m hm hundo => ?_
        obtain ⟨before, ⟨hbefore, hpresent⟩, rfl⟩ := hm hundo
        have hpresent : before.state.present path = true := hpresent.symm
        refine ⟨before, hbefore, ?_⟩
        simp only [restored, hpresent, if_true]
      | false =>
        rw [if_neg Bool.false_ne_true]
        refine Triple.pure ?_
        rintro m ⟨hm, hpresent⟩ _
        refine ⟨m, hm, ?_⟩
        simp only [restored, ← hpresent, Bool.false_eq_true, if_false]

end Undo

end Specs

end CodexMonitor.Agents
