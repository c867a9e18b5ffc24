import CodexMonitor.ExecPolicy.Parser
import Mathlib

namespace CodexMonitor.ExecPolicy

/-!
# Exec policy — loading the rules of a configuration stack

`core/src/exec_policy.rs` and the layer stack of `config/src/state.rs`: the `*.rules` files
of the enabled layers are parsed, lowest precedence first, into one policy, and the exec
policy of the requirements is merged on top.

* `collectPolicyFiles` — the rules files of one directory, sorted.
* `loadUserPolicy` — the layers' files parsed by one parser, in order.
* `loadExecPolicy`, `loadExecPolicyWithWarning` — the merged policy, and what becomes of a
  file that does not parse.

Directory listings and file contents come from `RulesFs`.
-/

/-! ### The configuration stack -/

inductive ConfigLayerSource where
  | mdm (domain key : Text)
  | system (file : AbsPath)
  | user (file : AbsPath)
  | project (dotCodexFolder : AbsPath)
  | sessionFlags
  | legacyManagedConfigTomlFromFile (file : AbsPath)
  | legacyManagedConfigTomlFromMdm
  deriving DecidableEq, Repr

/-- A layer of the stack, as far as loading rules looks at it. -/
structure ConfigLayerEntry where
  name : ConfigLayerSource
  disabledReason : Option Text := none

def ConfigLayerEntry.isDisabled (layer : ConfigLayerEntry) : Bool := layer.disabledReason.isSome

/-- The `.codex/` folder of a layer, if it has one. -/
def ConfigLayerEntry.configFolder (layer : ConfigLayerEntry) : Option AbsPath :=
  match layer.name with
  | .mdm _ _ => none
  | .system file => UnixPath.parent file
  | .user file => UnixPath.parent file
  | .project dotCodexFolder => some dotCodexFolder
  | .sessionFlags => none
  | .legacyManagedConfigTomlFromFile _ => none
  | .legacyManagedConfigTomlFromMdm => none

/-- The layers, lowest precedence first, and the exec policy of the requirements. -/
structure ConfigLayerStack where
  layers : List ConfigLayerEntry
  requirementsExecPolicy : Option Policy
  ignoreUserAndProjectExecPolicyRules : Bool

inductive ConfigLayerStackOrdering where
  | lowestPrecedenceFirst
  | highestPrecedenceFirst
  deriving DecidableEq, Repr

def ConfigLayerStack.getLayers (stack : ConfigLayerStack) (ordering : ConfigLayerStackOrdering)
    (includeDisabled : Bool) : List ConfigLayerEntry :=
  let layers := stack.layers.filter fun layer => includeDisabled || !layer.isDisabled
  match ordering with
  | .lowestPrecedenceFirst => layers
  | .highestPrecedenceFirst => layers.reverse

/-! ### The file system -/

inductive IoErrorKind where
  | notFound
  | other
  deriving DecidableEq, Repr

structure IoError where
  kind : IoErrorKind
  message : Text
  deriving DecidableEq, Repr

/-- An entry of a directory listing; looking up its file type may fail. -/
structure DirEntry where
  fileName : Text
  isFile : Except IoError Bool

/-- What loading reads of the file system.  Each step of a listing may fail on its own. -/
structure RulesFs where
  readDir : AbsPath → Except IoError (List (Except IoError DirEntry))
  readToString : AbsPath → Except IoError Text

inductive ExecPolicyError where
  | readDir (dir : AbsPath) (source : IoError)
  | readFile (path : AbsPath) (source : IoError)
  | parsePolicy (path : Text) (source : Error)
  deriving DecidableEq, Repr

/-! ### Loading -/

def rulesDirName : Text := "rules".toList

def ruleExtension : Text := "rules".toList

/-- One step of a directory listing: the path of the entry, if it is a rules file. -/
def policyFile? (dir : AbsPath) : Except IoError DirEntry → Except ExecPolicyError (Option AbsPath)
  | .error source => .error (.readDir dir source)
  | .ok entry =>
      match entry.isFile with
      | .error source => .error (.readDir dir source)
      | .ok isFile =>
          if UnixPath.extension entry.fileName = some ruleExtension ∧ isFile = true then
            .ok (some (dir ++ [entry.fileName]))
          else .ok none

/-- `collect_policy_files`: a missing directory holds no rules. -/
def collectPolicyFiles (fs : RulesFs) (dir : AbsPath) : Except ExecPolicyError (List AbsPath) :=
  match fs.readDir dir with
  | .error source =>
      if source.kind = .notFound then .ok [] else .error (.readDir dir source)
  | .ok entries => do
      let paths ← entries.mapM (policyFile? dir)
      .ok (paths.reduceOption.insertionSort (· ≤ ·))

/-- Whether the stack skips the rules of a layer. -/
def ConfigLayerStack.skipsRulesOf (stack : ConfigLayerStack) (layer : ConfigLayerEntry) : Bool :=
  stack.ignoreUserAndProjectExecPolicyRules &&
    match layer.name with
    | .user _ => true
    | .project _ => true
    | _ => false

/-- The rules files of one layer. -/
def layerPolicyPaths (fs : RulesFs) (stack : ConfigLayerStack) (layer : ConfigLayerEntry) :
    Except ExecPolicyError (List AbsPath) :=
  if stack.skipsRulesOf layer then .ok []
  else
    match layer.configFolder with
    | none => .ok []
    | some folder => collectPolicyFiles fs (folder ++ [rulesDirName])

/-- The parser after one more file. -/
def loadPolicyFile (env : Env) (sl : Starlark) (fs : RulesFs) (policy : Policy)
    (path : AbsPath) : Except ExecPolicyError Policy :=
  match fs.readToString path with
  | .error source => .error (.readFile path source)
  | .ok contents =>
      match parsePolicyFile env sl policy contents with
      | .error source => .error (.parsePolicy (UnixPath.display path) source)
      | .ok policy => .ok policy

/-- The policy of the layers' rules files, without the requirements. -/
def loadUserPolicy (env : Env) (sl : Starlark) (fs : RulesFs) (stack : ConfigLayerStack) :
    Except ExecPolicyError Policy := do
  let paths ← (stack.getLayers .lowestPrecedenceFirst false).mapM (layerPolicyPaths fs stack)
  paths.flatten.foldlM (loadPolicyFile env sl fs) Policy.empty

/-- `load_exec_policy`. -/
def loadExecPolicy (env : Env) (sl : Starlark) (fs : RulesFs) (stack : ConfigLayerStack) :
    Except ExecPolicyError Policy :=
  match loadUserPolicy env sl fs stack with
  | .error err => .error err
  | .ok policy =>
      match stack.requirementsExecPolicy with
      | none => .ok policy
      | some requirementsPolicy => .ok (policy.mergeOverlay requirementsPolicy)

/-- `load_exec_policy_with_warning`: a file that does not parse empties the policy. -/
def loadExecPolicyWithWarning (env : Env) (sl : Starlark) (fs : RulesFs)
    (stack : ConfigLayerStack) : Except ExecPolicyError (Policy × Option ExecPolicyError) :=
  match loadExecPolicy env sl fs stack with
  | .ok policy => .ok (policy, none)
  | .error (.parsePolicy path source) => .ok (Policy.empty, some (.parsePolicy path source))
  | .error err => .error err

/-- `ExecPolicyManager::load`: the installed policy. -/
def ExecPolicyManager.load (env : Env) (sl : Starlark) (fs : RulesFs) (stack : ConfigLayerStack) :
    Except ExecPolicyError Policy :=
  (loadExecPolicyWithWarning env sl fs stack).map Prod.fst

end CodexMonitor.ExecPolicy
