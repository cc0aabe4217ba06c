import Mathlib.Data.List.Dedup
import Mathlib.Data.String.Basic
import Mathlib.Data.Prod.Lex
import Entorhinal.Table

/-! The project registry's tables on one machine, the ids it makes and how a stored id
resolves. Times, root bindings and the journal are not part of it. -/
namespace Entorhinal.Registry

structure RegistryError where
  code : String
  message : String
deriving DecidableEq, Repr

structure RootKey where
  kind : String
  rootKey : String
deriving DecidableEq, Repr

structure Project where
  name : String
  domain : Option String
  seedIdentity : Option String
deriving DecidableEq, Repr

structure Root where
  projectId : String
  key : Option RootKey
deriving DecidableEq, Repr

/-- A directory whose checkouts belong to a project; an attached worker container also
names the root and the binding it was attached under. -/
structure DerivedParent where
  projectId : String
  sourceRoot : Option String
  registrationEpoch : Option String
deriving DecidableEq, Repr

/-- The primary key of `project_root_key`. -/
abbrev KeyRow := String ×ₗ String ×ₗ String

def keyRow (project kind rootKey : String) : KeyRow := toLex (project,toLex (kind,rootKey))

def KeyRow.project (row : KeyRow) : String := (ofLex row).1

def KeyRow.key (row : KeyRow) : RootKey := ⟨(ofLex (ofLex row).2).1,(ofLex (ofLex row).2).2⟩

structure Tables where
  projects : Table String Project
  workspaces : Table String String
  placement : Table String String
  roots : Table String Root
  derived : Table String DerivedParent
  aliases : Table String String
  keys : Table KeyRow Unit
deriving DecidableEq

def Tables.empty : Tables := ⟨∅,∅,∅,∅,∅,∅,∅⟩

def Tables.live (s : Tables) (id : String) : Bool := s.projects.has id

/-! Ids. A digest is the first sixteen hex digits of a text's hash. -/

abbrev Digest := String → List (Fin 16)

instance neZero_digit : NeZero 16 := ⟨by decide⟩

def hex (digits : List (Fin 16)) : String := String.ofList (digits.map fun digit => Nat.digitChar digit.val)

def implicitPrefix : String := "pj-implicit1-"

def implicitProjectId (blake3 : Digest) (path : String) : String := implicitPrefix ++ hex (blake3 path)

def mint (blake3 : Digest) (domain name : String) (roots : List String) : String :=
  "pj-" ++ hex (blake3 (domain ++ ":" ++ name ++ String.join (roots.map ("\x00" ++ ·))))

def seedId (blake3 : Digest) (identity : String) : String := "pj-" ++ hex (blake3 ("seed1:" ++ identity))

/-- An id of the form given to unregistered paths, of any version. -/
def reserved (id : String) : Bool :=
  let rest := id.toList.drop 11
  let number := rest.takeWhile (· ≠ '-')
  "pj-implicit".toList.isPrefixOf id.toList && rest.contains '-' && !number.isEmpty && number.all Char.isDigit

/-- An alias key that never leaves the machine. -/
def machineLocal (oldId : String) : Bool := implicitPrefix.toList.isPrefixOf oldId.toList

theorem machineLocal_implicit (blake3 : Digest) (path : String) :
    machineLocal (implicitProjectId blake3 path) = true := by
  simp only [machineLocal,implicitProjectId,String.toList_append,List.isPrefixOf_iff_prefix]
  exact List.prefix_append _ _

theorem reserved_machineLocal {id : String} (isLocal : machineLocal id = true) : reserved id = true := by
  obtain ⟨rest,spelled⟩ := List.isPrefixOf_iff_prefix.mp isLocal
  have digits : "pj-implicit1-".toList = ['p','j','-','i','m','p','l','i','c','i','t','1','-'] := by decide +kernel
  have stem : "pj-implicit".toList = ['p','j','-','i','m','p','l','i','c','i','t'] := by decide +kernel
  rw [implicitPrefix,digits] at spelled
  simp [reserved,← spelled,stem]

theorem hex_not_machineLocal (digits : List (Fin 16)) : machineLocal ("pj-" ++ hex digits) = false := by
  have chars : implicitPrefix.toList = 'p' :: 'j' :: '-' :: 'i' :: "mplicit1-".toList := by decide +kernel
  have digit : ∀ digit : Fin 16, Nat.digitChar digit.val ≠ 'i' := by decide
  rw [machineLocal,String.toList_append,hex,String.toList_ofList,chars]
  cases digits with
  | nil => rfl
  | cons first rest => simp [List.isPrefixOf,(digit first).symm]

theorem mint_not_machineLocal (blake3 : Digest) (domain name : String) (roots : List String) :
    machineLocal (mint blake3 domain name roots) = false :=
  hex_not_machineLocal _

theorem seedId_not_machineLocal (blake3 : Digest) (identity : String) :
    machineLocal (seedId blake3 identity) = false :=
  hex_not_machineLocal _

/-! Paths are canonical and absolute. -/

def components (path : String) : List (List Char) := (path.toList.splitOn '/').filter (· ≠ [])

def pathPrefixOrEqual (parent query : String) : Bool := (components parent).isPrefixOf (components query)

/-! Repository names. -/

structure GitRemote where
  owner : String
  repo : String
  owned : Bool
deriving DecidableEq, Repr

def GitRemote.repository (remote : GitRemote) : String := remote.owner ++ "/" ++ remote.repo

def GitRemote.same (a b : GitRemote) : Bool :=
  a.owner.toLower == b.owner.toLower && a.repo.toLower == b.repo.toLower

/-- What became of a path of a historical import. -/
inductive SeedPath
  | survives (canonicalRoot : String)
  | missing
  | canonicalizationFailed
  | homeScoped
deriving DecidableEq, Repr

/-- What a mutation reads beside the registry's tables: the disk, the owned-remote names,
the log's state and the answers of the agent tables. -/
structure Site where
  blake3 : Digest
  logEnabled : Bool
  canonical : String → Except RegistryError Unit
  rootRemotes : String → List GitRemote × Option String
  lowercase : String → String
  /-- `plan_carry` for a project and a workspace. -/
  planCarry : String → String → Except RegistryError Unit
  /-- The confirmation of the planned carries, and of a changed domain. -/
  admitCarry : Except RegistryError Unit
  projectUnbound : String → Except RegistryError Unit
  workspaceUnbound : String → Except RegistryError Unit
  domainCanonical : String → Bool
  /-- `fresh_binding` of a root. -/
  freshBinding : String → Except RegistryError Unit
  /-- The checks of a root's current binding: root, incarnation and epoch. -/
  boundUnder : String → String → String → Except RegistryError Unit
  /-- `reduce_homes`, and the paths of an import with or without them excluded. -/
  homes : Except RegistryError Unit
  seedPath : Bool → String → SeedPath

/-- The smallest owned remote, else the label. -/
def choose (site : Site) (remotes : List GitRemote) (label : Option String) : Option RootKey :=
  let names := (remotes.filter (·.owned)).map fun remote =>
    site.lowercase remote.owner ++ "/" ++ site.lowercase remote.repo
  match names.min? with
  | some rootKey => some ⟨"remote",rootKey⟩
  | none => label.map (⟨"label",·⟩)

/-- The project that has a remote key, which is unique among projects. -/
def remoteOwner (s : Tables) (rootKey : String) (other : String → Bool) : Option String :=
  (s.keys.find? fun row _ => row.key == ⟨"remote",rootKey⟩ && other row.project).map (·.1.project)

def incoming (site : Site) (s : Tables) (project root : String) (label : Option String) :
    Except RegistryError (Option RootKey) :=
  if !site.logEnabled || s.roots.has root || (site.rootRemotes root).2.isSome then .ok none
  else match choose site (site.rootRemotes root).1 label with
    | some key =>
      match if key.kind == "remote" then remoteOwner s key.rootKey (· != project) else none with
      | some owner =>
        .error ⟨"root_key_exists",key.rootKey ++ " belongs to project_id " ++ owner ++ "; use attach_root"⟩
      | none => .ok (some key)
    | none => .ok none

/-- Another project with a root in one of these repositories. -/
def repositoryOwner (site : Site) (s : Tables) (project : String) (remotes : List GitRemote) :
    Option (String × String) :=
  s.roots.rows.findSome? fun (root,row) =>
    if row.projectId == project then none
    else ((site.rootRemotes root).1.filter (·.owned)).findSome? fun theirs =>
      (remotes.find? fun mine => mine.owned && mine.same theirs).map fun mine =>
        (mine.repository,row.projectId)

def nestedRoot (s : Tables) (path : String) : Option (String × Root) :=
  s.roots.find? fun root _ => root != path && (pathPrefixOrEqual root path || pathPrefixOrEqual path root)

def checkRootLocation (s : Tables) (root : String) : Except RegistryError Unit :=
  match nestedRoot s root with
  | some (nested,row) =>
    .error ⟨"root_nested",root ++ " overlaps " ++ nested ++ ", a root of " ++ row.projectId⟩
  | none =>
    match s.derived.find? fun parent _ =>
        pathPrefixOrEqual parent root || pathPrefixOrEqual root parent with
    | some (parent,_) => .error ⟨"root_overlaps_container",root ++ " overlaps worker container " ++ parent⟩
    | none => .ok ()

/-! Writes shared by several mutations. -/

/-- A key row, unless the project has it or another one has the remote key. -/
def insertKey (s : Tables) (project : String) (key : RootKey) : Tables :=
  if key.kind == "remote" && (remoteOwner s key.rootKey (fun _ => true)).isSome then s
  else {s with keys := s.keys.insertOrIgnore (keyRow project key.kind key.rootKey) ()}

def assign (s : Tables) (project root : String) : Option RootKey → Tables
  | none => s
  | some key =>
    {insertKey s project key with
      roots := s.roots.update fun path row =>
        if path = root ∧ row.projectId = project then {row with key := some key} else row}

/-- A registered root, its key and the alias of the id its path had before. -/
def insertRoot (blake3 : Digest) (project : String) (s : Tables) (entry : String × Option RootKey) : Tables :=
  let added := {s with roots := s.roots.insertOrIgnore entry.1 ⟨project,none⟩}
  let assigned := assign added project entry.1 entry.2
  {assigned with aliases := assigned.aliases.insertOrIgnore (implicitProjectId blake3 entry.1) project}

/-- Roots keep no key that their project does not have. -/
def clearUnownedMappings (s : Tables) : Tables :=
  {s with roots := s.roots.update fun _ row => match row.key with
    | none => row
    | some key => if s.keys.has (keyRow row.projectId key.kind key.rootKey) then row else {row with key := none}}

def release (s : Tables) (project : String) (key : RootKey) : Tables :=
  clearUnownedMappings {s with keys := s.keys.erase (keyRow project key.kind key.rootKey)}

/-- A workspace named by its id, and the project's place in it unless it has one. -/
def placeIn (s : Tables) (project : String) : Option String → Tables
  | none => s
  | some workspace =>
    {s with
      workspaces := s.workspaces.insertOrIgnore workspace workspace
      placement := s.placement.insertOrIgnore project workspace}

def applyRemoveRoot (blake3 : Digest) (s : Tables) (project root : String) : Tables :=
  {s with
    derived := s.derived.filter fun _ row => row.sourceRoot ≠ some root
    aliases := s.aliases.filter fun old target => !(old = implicitProjectId blake3 root ∧ target = project)
    roots := s.roots.erase root}

/-! How a stored project id resolves. -/

inductive Via
  | current
  | alias
  | gone
deriving DecidableEq, Repr

structure ResolveProjectIdReply where
  projectId : String
  via : Via
deriving DecidableEq, Repr

def resolveProjectId (s : Tables) (projectId : String) : ResolveProjectIdReply :=
  if s.live projectId then ⟨projectId,.current⟩
  else match s.aliases.get? projectId with
    | some target => ⟨target,.alias⟩
    | none => ⟨projectId,.gone⟩

end Entorhinal.Registry
