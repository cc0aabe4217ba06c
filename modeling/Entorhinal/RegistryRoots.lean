import Entorhinal.RegistryOps

/-! The mutations of single roots: added to a project, attached by a shared key, removed,
moved to a project of their own, and worker containers attached under them. -/
namespace Entorhinal.Registry

structure AddRootRequest where
  projectId : String
  root : String
  label : Option String
deriving DecidableEq, Repr

def addRoot (site : Site) (s : Tables) (req : AddRootRequest) : Except RegistryError Action := do
  site.canonical req.root
  unless s.live req.projectId do throw ⟨"not_found",req.projectId⟩
  match s.roots.get? req.root with
  | some row =>
    if row.projectId = req.projectId then return ⟨false,s,.root req.projectId req.root⟩
    else throw ⟨"root_conflict",req.root ++ " is a root of " ++ row.projectId⟩
  | none =>
    checkRootLocation s req.root
    let key ← incoming site s req.projectId req.root req.label
    if let some (repository,owner) :=
        repositoryOwner site s req.projectId (site.rootRemotes req.root).1 then
      throw ⟨"repository_owned",repository ++ " belongs to " ++ owner⟩
    return ⟨true,insertRoot site.blake3 req.projectId s (req.root,key),.root req.projectId req.root⟩

/-! ### attach_root -/

structure AttachRootRequest where
  path : String
  projectId : Option String
  label : Option String
deriving DecidableEq, Repr

/-- The project that shares the checkout's key. -/
def attachOwner (s : Tables) (req : AttachRootRequest) (key : RootKey) : Except RegistryError String :=
  if key.kind == "remote" then
    match remoteOwner s key.rootKey (fun _ => true) with
    | none => .error ⟨"root_key_not_found",key.rootKey⟩
    | some owner =>
      if req.projectId.any (· ≠ owner) then
        .error ⟨"root_key_conflict",key.rootKey ++ " belongs to project_id " ++ owner⟩
      else .ok owner
  else
    match req.projectId with
    | none => .error ⟨"invalid_params","a label needs project_id"⟩
    | some project =>
      if s.keys.has (keyRow project key.kind key.rootKey) then .ok project
      else .error ⟨"root_key_not_found",key.rootKey⟩

def mappedKey (site : Site) (s : Tables) (root : String) : Option RootKey :=
  if site.logEnabled then (s.roots.get? root).bind (·.key) else none

def attachMatch (site : Site) (s : Tables) (req : AttachRootRequest) :
    Except RegistryError (String × RootKey) := do
  unless site.logEnabled do throw ⟨"identity_log_disabled","root keys require an enabled identity log"⟩
  site.canonical req.path
  if let some error := (site.rootRemotes req.path).2 then throw ⟨"remotes_unreadable",error⟩
  match choose site (site.rootRemotes req.path).1 req.label with
  | none => throw ⟨"root_key_not_found","no owned remote; supply project_id and label"⟩
  | some key =>
    let project ← attachOwner s req key
    match s.roots.get? req.path with
    | some row =>
      if row.projectId ≠ project ∨ mappedKey site s req.path ≠ some key then
        throw ⟨"root_conflict",req.path ++ " is a root of " ++ row.projectId⟩
      else return (project,key)
    | none =>
      checkRootLocation s req.path
      return (project,key)

def attachRoot (site : Site) (s : Tables) (req : AttachRootRequest) : Except RegistryError Action := do
  let matched ← attachMatch site s req
  let value := Value.attached matched.1 req.path matched.2
  if s.roots.has req.path then return ⟨false,s,value⟩
  else
    site.freshBinding req.path
    return ⟨true,insertRoot site.blake3 matched.1 s (req.path,some matched.2),value⟩

/-! ### remove_root -/

/-- `root` is the path after `canonical_query_path`. -/
structure RemoveRootRequest where
  projectId : String
  root : String
deriving DecidableEq, Repr

def rootCount (s : Tables) (project : String) : Nat :=
  (s.roots.rows.filter fun x => x.2.projectId = project).length

def rootOf (s : Tables) (project root : String) : Except RegistryError Root :=
  match s.roots.get? root with
  | some row =>
    if row.projectId = project then .ok row
    else .error ⟨"root_conflict",root ++ " is a root of " ++ row.projectId⟩
  | none => .error ⟨"not_found",root ++ " is not a registered root"⟩

def removeRoot (site : Site) (s : Tables) (req : RemoveRootRequest) : Except RegistryError Action := do
  let _ ← rootOf s req.projectId req.root
  if rootCount s req.projectId ≤ 1 ∧ site.logEnabled = false then
    throw ⟨"last_root",req.root ++ " is the only root of " ++ req.projectId ++ "; remove the project instead"⟩
  return ⟨true,applyRemoveRoot site.blake3 s req.projectId req.root,.root req.projectId req.root⟩

/-! ### move_root_to_new_project -/

structure MoveRootToNewProjectRequest where
  fromProjectId : String
  root : String
  name : String
deriving DecidableEq, Repr

def MoveRootToNewProjectRequest.registration (req : MoveRootToNewProjectRequest) : RegisterRequest :=
  ⟨none,none,req.name,none,none,[req.root],[]⟩

/-- Another root of the project with the same key. -/
def carriedBy (s : Tables) (req : MoveRootToNewProjectRequest) (key : Option RootKey) : Option String :=
  key.bind fun key => (s.roots.find? fun path row =>
    row.projectId = req.fromProjectId && row.key == some key && path ≠ req.root).map (·.1)

/-- The tables between the removal of the root and its registration. -/
def detached (blake3 : Digest) (s : Tables) (req : MoveRootToNewProjectRequest) (key : Option RootKey) : Tables :=
  let removed := applyRemoveRoot blake3 s req.fromProjectId req.root
  match key with
  | some key => release removed req.fromProjectId key
  | none => removed

def moveRootToNewProject (site : Site) (s : Tables) (req : MoveRootToNewProjectRequest) :
    Except RegistryError Action := do
  let _ ← rootOf s req.fromProjectId req.root
  if rootCount s req.fromProjectId ≤ 1 then
    throw ⟨"last_root",req.root ++ " is the only root of " ++ req.fromProjectId ++ "; rename the project instead"⟩
  let key := mappedKey site s req.root
  if let some other := carriedBy s req key then
    throw ⟨"root_key_in_use",(key.map (·.rootKey)).getD "" ++ " is also carried by " ++ other⟩
  let project := mint site.blake3 "register1" req.name [req.root]
  if s.live project ∨ s.aliases.has project = true then throw ⟨"project_id_occupied",project⟩
  let registered ← registerIn site (detached site.blake3 s req key) req.registration fun root =>
    if root = req.root then some key else none
  return ⟨true,registered.store,.moved req.fromProjectId project req.name req.root key⟩

/-! ### attach_derived_parent -/

structure AttachDerivedParentRequest where
  projectId : String
  root : String
  container : String
  incarnation : String
  registrationEpoch : String
deriving DecidableEq, Repr

def attachDerivedParent (site : Site) (s : Tables) (req : AttachDerivedParentRequest) :
    Except RegistryError Action := do
  site.canonical req.container
  let value := Value.container req.projectId req.root req.container req.registrationEpoch
  match s.roots.get? req.root with
  | none => throw ⟨"root_not_registered",req.root ++ " is not a registered root"⟩
  | some row =>
    if row.projectId ≠ req.projectId then
      throw ⟨"root_conflict",req.root ++ " is a root of " ++ row.projectId ++ ", not " ++ req.projectId⟩
  site.boundUnder req.root req.incarnation req.registrationEpoch
  let attached : DerivedParent := ⟨req.projectId,some req.root,some req.registrationEpoch⟩
  let overlaps := fun path => pathPrefixOrEqual path req.container || pathPrefixOrEqual req.container path
  match s.derived.get? req.container with
  | some same =>
    if same = attached then return ⟨false,s,value⟩
    else throw ⟨"container_foreign",req.container ++ " is attached to another binding"⟩
  | none =>
    if let some (other,_) := s.derived.find? fun parent _ => overlaps parent then
      throw ⟨"container_overlaps",req.container ++ " overlaps container " ++ other⟩
    if let some (root,_) := s.roots.find? fun root _ => overlaps root then
      throw ⟨"container_overlaps",req.container ++ " overlaps registered root " ++ root⟩
    return ⟨true,{s with derived := s.derived.insert req.container attached},value⟩

end Entorhinal.Registry
