import Entorhinal.RegistryOps

/-! The import of another tool's projects: observed roots grouped by identity, each group
a project under an id made from the identity. -/
namespace Entorhinal.Registry

structure SeedPair where
  canonicalRoot : String
  mcIdentity : String
  identityClass : Option String
  name : Option String
deriving DecidableEq, Repr

structure SeedImportRequest where
  source : String
  pairs : List SeedPair
  /-- Ids and names. -/
  workspaces : List (String × String)
  /-- Identities and workspace ids. -/
  members : List (String × String)
  names : Table String String
  excludeHomeScoped : Bool

def SeedPair.entry (pair : SeedPair) (kind : String) (reason : Option String) : SeedReportEntry :=
  ⟨kind,some pair.mcIdentity,some pair.canonicalRoot,none,none,none,none,reason⟩

def identityEntry (identity kind : String) (reason : Option String) : SeedReportEntry :=
  ⟨kind,some identity,none,none,none,none,none,reason⟩

def sortPairs (pairs : List SeedPair) : List SeedPair :=
  pairs.insertionSort fun a b => toLex (a.mcIdentity,a.canonicalRoot) ≤ toLex (b.mcIdentity,b.canonicalRoot)

def SeedPair.sameKey (a b : SeedPair) : Bool :=
  a.canonicalRoot == b.canonicalRoot && a.mcIdentity == b.mcIdentity && a.identityClass == b.identityClass

/-- The first pair of each root, identity and class. -/
def firstPairs (pairs : List SeedPair) : List SeedPair :=
  pairs.foldl (fun seen pair => if seen.any (·.sameKey pair) then seen else seen ++ [pair]) []

def surviving (site : Site) (req : SeedImportRequest) : List SeedPair :=
  firstPairs (sortPairs (req.pairs.filterMap fun pair =>
    match site.seedPath req.excludeHomeScoped pair.canonicalRoot with
    | .survives root => some {pair with canonicalRoot := root}
    | _ => none))

def skipped (site : Site) (req : SeedImportRequest) (why : SeedPath) (reason : String) : List SeedReportEntry :=
  (sortPairs (req.pairs.filter fun pair => site.seedPath req.excludeHomeScoped pair.canonicalRoot = why)).map
    (·.entry "skipped" (some reason))

/-! ### Groups -/

/-- Some pair of the root was observed with a git identity. -/
def hasGit (rows : List SeedPair) : Bool :=
  rows.any fun pair => pair.identityClass == some "git" || "git:".toList.isPrefixOf pair.mcIdentity.toList

/-- A git identity takes precedence over a directory's. -/
def preceded (rows : List SeedPair) (pair : SeedPair) : Bool := hasGit rows && pair.identityClass == some "dir"

def identities (rows : List SeedPair) : List String :=
  sortDedup ((rows.filter fun pair => !preceded rows pair).map (·.mcIdentity))

def byRoot (pairs : List SeedPair) : List (String × List SeedPair) :=
  (sortDedup (pairs.map (·.canonicalRoot))).map fun root => (root,pairs.filter (·.canonicalRoot = root))

def rootReport (root : String) (rows : List SeedPair) : List SeedReportEntry :=
  (rows.filter (preceded rows)).map (·.entry "identity_class_precedence" (some "git identity wins")) ++
    if (identities rows).length > 1 then
      (identities rows).map fun identity => ⟨"conflicted",some identity,some root,none,none,none,none,
        some "one root observed under multiple identities"⟩
    else []

/-- The identity of each root that has one, with the root's pairs. -/
def rootGroup (rows : List SeedPair) : Option (String × List SeedPair) :=
  match identities rows with
  | [identity] => some (identity,rows.filter fun pair => !preceded rows pair)
  | _ => none

def groups (pairs : List SeedPair) : List (String × List SeedPair) :=
  let rooted := (byRoot pairs).filterMap fun (_,rows) => rootGroup rows
  (sortDedup (rooted.map (·.1))).map fun identity =>
    (identity,(rooted.filter (·.1 = identity)).flatMap (·.2))

/-! ### Projects -/

structure SeedState where
  store : Tables
  report : List SeedReportEntry
  changed : Bool

def seedWorkspaces (state : SeedState) (workspaces : List (String × String)) : SeedState :=
  workspaces.foldl (fun state (id,name) =>
    if state.store.workspaces.get? id = some name then state
    else {state with
      store := {state.store with workspaces := state.store.workspaces.insert id name}
      changed := true}) state

/-- The project a group goes to: the live one of its identity, or a new one unless the id
is taken by a project or an alias. -/
def seedTarget (s : Tables) (minted identity : String) : Option String × List SeedReportEntry :=
  match s.projects.get? minted with
  | some row =>
    if row.seedIdentity = some identity then
      (some minted,[{identityEntry identity "rejoined" none with projectId := some minted}])
    else (none,[{identityEntry identity "conflicted" (some "minted id occupied by another project") with
      projectId := some minted}])
  | none =>
    match s.aliases.get? minted with
    | some target => (none,[{identityEntry identity "alias_occupied" (some "minted id is an alias key") with
        ownerProjectId := some target}])
    | none => (some minted,[])

def ownedReport (s : Tables) (identity : String) (target : Option String) (rows : List SeedPair) :
    List SeedReportEntry :=
  rows.filterMap fun pair => (s.roots.get? pair.canonicalRoot).map fun row =>
    ⟨"skipped",some identity,some pair.canonicalRoot,none,some row.projectId,target,none,
      some "root already registered"⟩

def splitReport (s : Tables) (identity : String) (target : Option String) (rows available : List SeedPair) :
    List SeedReportEntry :=
  let owners := rows.filterMap fun pair => (s.roots.get? pair.canonicalRoot).map (·.projectId)
  if (sortDedup owners).length > 1 || (target.isSome && !owners.isEmpty && !available.isEmpty) then
    [⟨"identity_split",some identity,none,none,none,target,some (available.map (·.canonicalRoot)),none⟩]
  else []

def seedName (req : SeedImportRequest) (identity : String) (rows : List SeedPair) : String :=
  ((req.names.get? identity).or (rows.head?.bind (·.name))).getD
    (((rows.head?.bind fun pair => (components pair.canonicalRoot).getLast?).map String.ofList).getD identity)

def seedRoot (site : Site) (project : String) (s : Tables) (pair : SeedPair) : Except RegistryError Tables := do
  let key ← incoming site s project pair.canonicalRoot none
  return insertRoot site.blake3 project s (pair.canonicalRoot,key)

/-- A claimed workspace must exist. -/
def seedPlacement (s : Tables) (project : String) : List String → Except RegistryError Tables
  | [workspace] =>
    if s.workspaces.has workspace then .ok {s with placement := s.placement.insertOrIgnore project workspace}
    else .error ⟨"store","FOREIGN KEY constraint failed"⟩
  | _ => .ok s

/-- Placing an unplaced project carries its agents' names; the carries are admitted after
the last group. -/
def planSeeded (site : Site) (s : Tables) (project : String) (claims : List String) : Except RegistryError Unit :=
  match claims with
  | [workspace] => if s.placement.has project then .ok () else site.planCarry project workspace
  | _ => .ok ()

def seedProject (site : Site) (req : SeedImportRequest) (state : SeedState) (identity project : String)
    (rows available : List SeedPair) : Except RegistryError SeedState := do
  let s := state.store
  let claims := sortDedup ((req.members.filter (·.1 = identity)).map (·.2))
  planSeeded site s project claims
  let named := if s.live project then s
    else {s with projects := s.projects.insert project ⟨seedName req identity rows,none,some identity⟩}
  let rooted ← available.foldlM (seedRoot site project) named
  let placed ← seedPlacement rooted project claims
  let detached := if claims.length > 1 then
      [⟨"multi_workspace",some identity,none,some project,none,none,none,
        some "detached because export claimed multiple workspaces"⟩]
    else []
  return ⟨placed,state.report ++ detached,
    state.changed || !s.live project || !available.isEmpty || claims.length == 1⟩

/-- The pairs whose roots nobody has, when the group has a project. -/
def seedAvailable (s : Tables) (target : Option String) (rows : List SeedPair) : List SeedPair :=
  if target.isSome then rows.filter fun pair => !s.roots.has pair.canonicalRoot else []

def seedGroup (site : Site) (req : SeedImportRequest) (state : SeedState) (group : String × List SeedPair) :
    Except RegistryError SeedState :=
  let s := state.store
  let minted := seedId site.blake3 group.1
  let target := seedTarget s minted group.1
  let available := seedAvailable s target.1 group.2
  let report := target.2 ++ ownedReport s group.1 target.1 group.2 ++
    splitReport s group.1 target.1 group.2 available
  let reported := {state with report := state.report ++ report}
  match target.1 with
  | none => .ok reported
  | some project =>
    if !available.isEmpty || !s.live minted then seedProject site req reported group.1 project group.2 available
    else .ok reported

/-- Every consulted home is validated before anything is planned. -/
def consultHomes (site : Site) (req : SeedImportRequest) : Except RegistryError Unit :=
  if req.excludeHomeScoped then site.homes else .ok ()

def seedImport (site : Site) (s : Tables) (req : SeedImportRequest) : Except RegistryError Action := do
  unless req.source == "mc" do throw ⟨"invalid_source",req.source⟩
  consultHomes site req
  let pairs := surviving site req
  let report := skipped site req .missing "missing" ++
    skipped site req .canonicalizationFailed "canonicalization_failed" ++
    skipped site req .homeScoped "home_scoped" ++ (byRoot pairs).flatMap fun (root,rows) => rootReport root rows
  let named := seedWorkspaces ⟨s,report,false⟩ req.workspaces
  let state ← (groups pairs).foldlM (seedGroup site req) named
  if state.changed then
    site.admitCarry
    return ⟨true,state.store,.report state.report⟩
  else return ⟨false,s,.report state.report⟩

end Entorhinal.Registry
