import Mathlib.Data.List.Sort
import Entorhinal.Traverse
import Entorhinal.RegistryTables

/-! The registry's mutations. An accepted one gives the tables it commits; a refused one
commits nothing. -/
namespace Entorhinal.Registry

structure SeedReportEntry where
  kind : String
  mcIdentity : Option String
  canonicalRoot : Option String
  projectId : Option String
  ownerProjectId : Option String
  newProjectId : Option String
  roots : Option (List String)
  reason : Option String
deriving DecidableEq, Repr

inductive Value
  | registered (projectId name : String) (roots derived : List String) (warnings : List (String × String))
  | upgraded (projectId oldId : String)
  | removedWorkspace (workspaceId : String)
  | removed (projectId : String) (successor dropped : Option String)
  | placed (projectId workspaceId : String)
  | root (projectId root : String)
  | attached (projectId root : String) (key : RootKey)
  | container (projectId root container registrationEpoch : String)
  | moved (fromProjectId projectId name root : String) (key : Option RootKey)
  | report (entries : List SeedReportEntry)
deriving DecidableEq, Repr

structure Action where
  changed : Bool
  store : Tables
  value : Value

def sortDedup (paths : List String) : List String := paths.dedup.insertionSort (· ≤ ·)

/-! ### register -/

structure RegisterRequest where
  label : Option String
  projectId : Option String
  name : String
  domain : Option String
  workspaceId : Option String
  roots : List String
  derivedRootParents : List String
deriving DecidableEq, Repr

/-- The projects that have one of the request's roots or derived parents. -/
def owners (s : Tables) (req : RegisterRequest) : List String :=
  sortDedup ((req.roots.filterMap fun root => (s.roots.get? root).map (·.projectId)) ++
    req.derivedRootParents.filterMap fun parent => (s.derived.get? parent).map (·.projectId))

def registerId (site : Site) (s : Tables) (req : RegisterRequest) : Except RegistryError String :=
  match req.projectId, owners s req with
  | some id, _ => .ok id
  | none, [] => .ok (mint site.blake3 "register1" req.name req.roots)
  | none, [owner] => .ok owner
  | none, several => .error ⟨"project_conflict","conflicting owners: " ++ ",".intercalate several⟩

/-- A minted id must not be taken once the log is shared, and a given one must not be an
alias key. -/
def registerUnoccupied (site : Site) (s : Tables) (req : RegisterRequest) (project : String) :
    Except RegistryError Unit :=
  if req.projectId.isNone && (owners s req).isEmpty && s.live project && site.logEnabled then
    .error ⟨"project_id_occupied",project ++ "; use attach_root or an explicit project_id"⟩
  else if req.projectId.isSome && !s.live project && s.aliases.has project then
    .error ⟨"project_id_occupied",project⟩
  else .ok ()

def registerRoot (site : Site) (s : Tables) (project : String) (label : Option String)
    (rootKeys : String → Option (Option RootKey)) (root : String) :
    Except RegistryError (String × Option RootKey) := do
  if let some row := (s.roots.get? root).filter (·.projectId ≠ project) then
    throw ⟨"root_conflict","root " ++ root ++ " is owned by " ++ row.projectId⟩
  if let some row := (s.derived.get? root).filter (·.projectId ≠ project) then
    throw ⟨"root_conflict","root " ++ root ++ " is claimed by " ++ row.projectId⟩
  let key ← match rootKeys root with
    | some key => pure key
    | none => incoming site s project root label
  if let some (repository,owner) := repositoryOwner site s project (site.rootRemotes root).1 then
    throw ⟨"repository_owned",repository ++ " belongs to " ++ owner⟩
  return (root,key)

def derivedFree (s : Tables) (project parent : String) : Except RegistryError Unit :=
  match s.roots.find? fun root row => row.projectId ≠ project && pathPrefixOrEqual parent root with
  | some (_,row) => .error ⟨"derived_parent_contains_foreign_root",
      "parent " ++ parent ++ " conflicts with owner " ++ row.projectId⟩
  | none => .ok ()

def rootFree (s : Tables) (project root : String) : Except RegistryError Unit :=
  match s.derived.find? fun parent row => row.projectId ≠ project && pathPrefixOrEqual parent root with
  | some (parent,row) => .error ⟨"root_under_foreign_derived_parent",
      "root " ++ root ++ " is under " ++ parent ++ ", owned by " ++ row.projectId⟩
  | none => .ok ()

def workspaceFree (s : Tables) (project : String) (workspace : Option String) : Except RegistryError Unit :=
  match workspace, s.placement.get? project with
  | some new, some old =>
    if old ≠ new then .error ⟨"workspace_conflict","project " ++ project ++ " belongs to workspace " ++ old⟩
    else .ok ()
  | _, _ => .ok ()

/-- Placing an unplaced project carries its agents' names. -/
def planPlacement (site : Site) (s : Tables) (project : String) (workspace : Option String) :
    Except RegistryError Unit :=
  match workspace with
  | some new => if s.placement.has project then .ok () else site.planCarry project new
  | none => .ok ()

def aliasWarnings (blake3 : Digest) (s : Tables) (project : String) (roots : List String) :
    List (String × String) :=
  roots.filterMap fun root =>
    ((s.aliases.get? (implicitProjectId blake3 root)).filter (· ≠ project)).map
      (implicitProjectId blake3 root,·)

def registerChanges (blake3 : Digest) (s : Tables) (req : RegisterRequest) (project : String) : Bool :=
  let existing := s.projects.get? project
  existing.isNone || (req.domain.isSome && req.domain ≠ existing.bind (·.domain)) ||
    existing.any (·.name ≠ req.name) || req.roots.any (fun root => !s.roots.has root) ||
    req.derivedRootParents.any (fun parent => !s.derived.has parent) ||
    (req.workspaceId.isSome && !s.placement.has project) ||
    req.roots.any fun root => !s.aliases.has (implicitProjectId blake3 root)

def registerWrites (blake3 : Digest) (s : Tables) (req : RegisterRequest) (project : String)
    (chosen : List (String × Option RootKey)) : Tables :=
  let row := match s.projects.get? project with
    | none => ⟨req.name,req.domain,none⟩
    | some row => {row with name := req.name, domain := req.domain.or row.domain}
  let rooted := chosen.foldl (insertRoot blake3 project) {s with projects := s.projects.insert project row}
  let parents := req.derivedRootParents.foldl (fun derived parent =>
    derived.insertOrIgnore parent ⟨project,none,none⟩) rooted.derived
  placeIn {rooted with derived := parents} project req.workspaceId

def registerIn (site : Site) (s : Tables) (req : RegisterRequest)
    (rootKeys : String → Option (Option RootKey)) : Except RegistryError Action := do
  let project ← registerId site s req
  registerUnoccupied site s req project
  let chosen ← req.roots.mapM (registerRoot site s project req.label rootKeys)
  req.derivedRootParents.forM (derivedFree s project)
  req.roots.forM (rootFree s project)
  workspaceFree s project req.workspaceId
  planPlacement site s project req.workspaceId
  let value := Value.registered project req.name req.roots req.derivedRootParents
    (aliasWarnings site.blake3 s project req.roots)
  if registerChanges site.blake3 s req project then
    site.admitCarry
    return ⟨true,registerWrites site.blake3 s req project chosen,value⟩
  else return ⟨false,s,value⟩

def RegisterRequest.sorted (req : RegisterRequest) : RegisterRequest :=
  {req with roots := sortDedup req.roots, derivedRootParents := sortDedup req.derivedRootParents}

def unreserved (projectId : Option String) : Except RegistryError Unit :=
  match projectId with
  | some id => if reserved id then .error ⟨"reserved_project_id_namespace",id⟩ else .ok ()
  | none => .ok ()

def validateDomain (site : Site) (domain : Option String) : Except RegistryError Unit :=
  if domain.any (!site.domainCanonical ·) then
    .error ⟨"invalid_domain","domain must be a canonical catalog package name (@scope/name)"⟩
  else .ok ()

def register (site : Site) (s : Tables) (req : RegisterRequest) : Except RegistryError Action := do
  validateDomain site req.domain
  unreserved req.projectId
  req.roots.forM site.canonical
  req.derivedRootParents.forM site.canonical
  registerIn site s req.sorted fun _ => none

/-! ### upgrade_implicit -/

/-- `root`, when given, is the last of the roots. -/
structure UpgradeImplicitRequest where
  implicitId : String
  projectId : Option String
  name : String
  workspaceId : Option String
  roots : List String
deriving DecidableEq, Repr

def upgradeId (blake3 : Digest) (req : UpgradeImplicitRequest) : String :=
  req.projectId.getD (mint blake3 "upgrade1" req.name req.roots)

def upgradeUnoccupied (site : Site) (s : Tables) (req : UpgradeImplicitRequest) (id : String) :
    Except RegistryError Unit :=
  match (s.aliases.get? req.implicitId).filter (· ≠ id) with
  | some target => .error ⟨"alias_conflict",target⟩
  | none =>
    if req.projectId.isNone && s.live id && site.logEnabled &&
        !req.roots.any (fun root => s.roots.has root || s.derived.has root) then
      .error ⟨"project_id_occupied",id ++ "; use attach_root or an explicit project_id"⟩
    else .ok ()

def upgradeChanges (s : Tables) (req : UpgradeImplicitRequest) (id : String) : Bool :=
  (s.projects.get? id).all (·.name ≠ req.name) || req.roots.any (fun root => !s.roots.has root) ||
    !s.aliases.has req.implicitId

def upgradeWrites (blake3 : Digest) (s : Tables) (req : UpgradeImplicitRequest) (id : String)
    (chosen : List (String × Option RootKey)) : Tables :=
  let row := match s.projects.get? id with
    | none => ⟨req.name,none,none⟩
    | some row => {row with name := req.name}
  let rooted := chosen.foldl (insertRoot blake3 id) {s with projects := s.projects.insert id row}
  placeIn {rooted with aliases := rooted.aliases.insert req.implicitId id} id req.workspaceId

def upgradeImplicit (site : Site) (s : Tables) (req : UpgradeImplicitRequest) :
    Except RegistryError Action := do
  unreserved req.projectId
  req.roots.forM site.canonical
  let id := upgradeId site.blake3 req
  upgradeUnoccupied site s req id
  if upgradeChanges s req id then
    planPlacement site s id req.workspaceId
    site.admitCarry
    let chosen ← req.roots.mapM fun root => (incoming site s id root none).map (root,·)
    return ⟨true,upgradeWrites site.blake3 s req id chosen,.upgraded id req.implicitId⟩
  else return ⟨false,s,.upgraded id req.implicitId⟩

/-! ### Removal -/

structure RemoveRequest where
  projectId : Option String
  successorProjectId : Option String
  workspaceId : Option String
deriving DecidableEq, Repr

def removeWorkspace (s : Tables) (workspace : String) : Tables :=
  {s with
    placement := s.placement.filter fun _ placed => placed ≠ workspace
    workspaces := s.workspaces.erase workspace}

/-- The keys of a removed project go to its successor, which keeps the ones it has. -/
def moveRootKeys (keys : Table KeyRow Unit) (id : String) : Option String → Table KeyRow Unit
  | some successor =>
    let moved := keys.rows.foldl (fun keys (row,_) =>
      if row.project = id then keys.insert (keyRow successor row.key.kind row.key.rootKey) () else keys) keys
    moved.filter fun row _ => row.project ≠ id
  | none => keys.filter fun row _ => row.project ≠ id

def removeProject (s : Tables) (id : String) (successor : Option String) : Tables :=
  match successor with
  | some heir =>
    {s with
      keys := moveRootKeys s.keys id (some heir)
      roots := s.roots.update fun _ row => if row.projectId = id then {row with projectId := heir} else row
      derived := s.derived.update fun _ row => if row.projectId = id then {row with projectId := heir} else row
      aliases := ((s.aliases.update fun _ target => if target = id then heir else target).erase id).insert id heir
      placement := s.placement.erase id
      projects := s.projects.erase id}
  | none =>
    {s with
      keys := moveRootKeys s.keys id none
      roots := s.roots.filter fun _ row => row.projectId ≠ id
      derived := s.derived.filter fun _ row => row.projectId ≠ id
      aliases := s.aliases.filter fun old target => target ≠ id && old ≠ id
      placement := s.placement.erase id
      projects := s.projects.erase id}

/-- The project is live, and so is its successor, another project. -/
def removable (s : Tables) (id : String) (successor : Option String) : Except RegistryError Unit :=
  if s.live id = false then .error ⟨"not_found",id⟩
  else match successor with
    | some heir => if heir = id ∨ s.live heir = false then .error ⟨"not_found",heir⟩ else .ok ()
    | none => .ok ()

def remove (site : Site) (s : Tables) (req : RemoveRequest) : Except RegistryError Action :=
  match req.workspaceId with
  | some workspace => do
    unless s.workspaces.has workspace do throw ⟨"not_found",workspace⟩
    site.workspaceUnbound workspace
    return ⟨true,removeWorkspace s workspace,.removedWorkspace workspace⟩
  | none =>
    match req.projectId with
    | none => .error ⟨"invalid_params","projectId is required"⟩
    | some id => do
      removable s id req.successorProjectId
      site.projectUnbound id
      return ⟨true,removeProject s id req.successorProjectId,
        .removed id req.successorProjectId (s.placement.get? id)⟩

/-! ### Placement -/

structure AssignWorkspaceRequest where
  projectId : String
  workspaceId : String
  workspaceName : Option String
deriving DecidableEq, Repr

def assignWorkspace (site : Site) (s : Tables) (req : AssignWorkspaceRequest) :
    Except RegistryError Action := do
  unless s.live req.projectId do throw ⟨"not_found",req.projectId⟩
  let value := Value.placed req.projectId req.workspaceId
  if s.placement.get? req.projectId = some req.workspaceId then return ⟨false,s,value⟩
  else
    site.planCarry req.projectId req.workspaceId
    site.admitCarry
    return ⟨true,{s with
      workspaces := s.workspaces.insertOrIgnore req.workspaceId (req.workspaceName.getD req.workspaceId)
      placement := s.placement.insert req.projectId req.workspaceId},value⟩

end Entorhinal.Registry
