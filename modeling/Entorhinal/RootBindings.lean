import Entorhinal.NestedRoots

/-! Root bindings. A registered root is bound to the checkout on its disk under a
registration epoch; an approval names an epoch, and a binding that goes is retired with its
approval, in the transaction that takes the root or its project away. -/
namespace Entorhinal.RootBindings
open Registry Transition

/-! ### Tables -/

/-- A row of `root_binding`, whose key is the root. -/
structure Binding where
  projectId : String
  incarnation : String
  registrationEpoch : String
deriving DecidableEq, Repr

inductive Reason
  | removed
  | replaced
deriving DecidableEq, Repr

/-- A row of `retired_binding`, whose key is the epoch. -/
structure Retired where
  canonicalRoot : String
  projectId : String
  incarnation : String
  reason : Reason
deriving DecidableEq, Repr

/-- The approvals are the journal positions of `root_approval`, by epoch. -/
structure Bindings where
  active : Table String Binding
  retired : Table String Retired
  approvals : Table String Nat
deriving DecidableEq, Repr

def Bindings.empty : Bindings := ⟨∅,∅,∅⟩

def uniqueFailed (column : String) : RegistryError := ⟨"store","UNIQUE constraint failed: " ++ column⟩

def retireRows (active : List (String × Binding)) (picked : String → Binding → Bool) (reason : Reason)
    (retired : Table String Retired) : Table String Retired :=
  active.foldl (fun retired (root,row) =>
    if picked root row then
      retired.insert row.registrationEpoch ⟨root,row.projectId,row.incarnation,reason⟩
    else retired) retired

/-- The picked bindings are retired; their approvals go with them. -/
def Bindings.retire (s : Bindings) (picked : String → Binding → Bool) (reason : Reason) :
    Except RegistryError Bindings :=
  if s.active.any fun root row => picked root row && s.retired.has row.registrationEpoch then
    .error (uniqueFailed "retired_binding.registration_epoch")
  else .ok {
    active := s.active.filter fun root row => !picked root row
    retired := retireRows s.active.rows picked reason s.retired
    approvals := s.approvals.filter fun epoch _ =>
      !s.active.any fun root row => picked root row && row.registrationEpoch == epoch}

def retireProjectBindings (s : Bindings) (projectId : String) : Except RegistryError Bindings :=
  s.retire (fun _ row => row.projectId == projectId) .removed

/-- The part of `apply_remove_root` that concerns the root's binding. -/
def retireRootBinding (s : Bindings) (root : String) : Except RegistryError Bindings :=
  s.retire (fun path _ => path == root) .removed

structure BindPayload where
  canonicalRoot : String
  projectId : String
  incarnation : String
  registrationEpoch : String
  replacedEpoch : Option String
deriving DecidableEq, Repr

def Bindings.insert (s : Bindings) (root : String) (row : Binding) : Except RegistryError Bindings :=
  if s.active.has root then .error (uniqueFailed "root_binding.canonical_root")
  else if s.active.any fun _ other => other.registrationEpoch == row.registrationEpoch then
    .error (uniqueFailed "root_binding.registration_epoch")
  else .ok {s with active := s.active.insert root row}

def applyBind (s : Bindings) (payload : BindPayload) : Except RegistryError Bindings := do
  let freed ← match payload.replacedEpoch with
    | some old => s.retire (fun _ row => row.registrationEpoch == old) .replaced
    | none => .ok s
  freed.insert payload.canonicalRoot ⟨payload.projectId,payload.incarnation,payload.registrationEpoch⟩

/-! ### Records -/

/-- The token file of a checkout's git directory. -/
inductive DiskIdentity
  | token (value : String)
  | noToken
  | unverifiable (reason : String)
deriving DecidableEq, Repr

inductive Identity
  | bound
  | unbound
  | replaced
  | retired
  | unverifiable
deriving DecidableEq, Repr

def Identity.text : Identity → String
  | .bound => "bound"
  | .unbound => "unbound"
  | .replaced => "replaced"
  | .retired => "retired"
  | .unverifiable => "unverifiable"

/-- A record without its remotes and root key. The approval is its journal position, if the
binding is approved. -/
structure RootRecord where
  root : String
  incarnation : Option String
  registrationEpoch : Option String
  identity : Identity
  approval : Option Nat
deriving DecidableEq, Repr

def RootRecord.none (root : String) (identity : Identity) : RootRecord := ⟨root,Option.none,Option.none,identity,Option.none⟩

def RootRecord.of (s : Bindings) (root : String) (bound : Binding) : RootRecord :=
  ⟨root,some bound.incarnation,some bound.registrationEpoch,.bound,s.approvals.get? bound.registrationEpoch⟩

def rootRecord (s : Bindings) (disk : DiskIdentity) (root : String) : RootRecord :=
  match s.active.get? root, disk with
  | none, .unverifiable _ => .none root .unverifiable
  | none, _ => .none root .unbound
  | some _, .unverifiable _ => .none root .unverifiable
  | some bound, .token token => if token = bound.incarnation then .of s root bound else .none root .replaced
  | some _, .noToken => .none root .replaced

/-- A worktree inside a container carries the binding of the container's source root only
under the epoch the container was attached under. -/
def worktreeRecord (s : Bindings) (disk : DiskIdentity) (worktree : String) (container : DerivedParent) :
    RootRecord :=
  match container.sourceRoot, container.registrationEpoch with
  | some source, some epoch =>
    match s.active.get? source with
    | none => .none worktree .retired
    | some bound =>
      if bound.registrationEpoch ≠ epoch then .none worktree .retired
      else match disk with
        | .token token => if token = bound.incarnation then .of s worktree bound else .none worktree .replaced
        | .unverifiable _ => .none worktree .unverifiable
        | .noToken => .none worktree .replaced
  | _, _ => .none worktree .unbound

structure ExecutionBinding where
  root : String
  incarnation : String
  registrationEpoch : String
deriving DecidableEq, Repr

inductive BindingStatus
  | active
  | replaced
  | retired
  | unknown
deriving DecidableEq, Repr

/-- Where a binding that is not the root's active one went. -/
def retiredStatus (s : Bindings) (binding : ExecutionBinding) : BindingStatus :=
  match s.retired.get? binding.registrationEpoch with
  | some row =>
    if row.canonicalRoot = binding.root ∧ row.incarnation = binding.incarnation then
      if row.reason = .replaced then .replaced else .retired
    else .unknown
  | none => .unknown

def bindingStatus (s : Bindings) (disk : DiskIdentity) (binding : ExecutionBinding) : BindingStatus :=
  match s.active.get? binding.root with
  | some bound =>
    if bound.registrationEpoch = binding.registrationEpoch ∧ bound.incarnation = binding.incarnation then
      match disk with
      | .token token => if token = binding.incarnation then .active else .replaced
      | .unverifiable _ => .unknown
      | .noToken => .replaced
    else retiredStatus s binding
  | none => retiredStatus s binding

/-! ### Operations on one root -/

/-- What an operation reads of a checkout, one reading after the other: the identity the
record shows and the one a refusal shows, whether there is a `.git`, its git directory's token,
what creating a token gives, and the epoch the call draws. -/
structure Checkout where
  identity : DiskIdentity
  reread : DiskIdentity
  git : Bool
  common : Except String DiskIdentity
  created : Except String String
  epoch : String

def unverifiable (reason : String) : RegistryError := ⟨"root_identity_unverifiable",reason⟩

def readOrCreate (disk : Checkout) : DiskIdentity → Except RegistryError String
  | .token token => .ok token
  | .noToken => match disk.created with
    | .ok token => .ok token
    | .error reason => .error (unverifiable reason)
  | .unverifiable reason => .error (unverifiable reason)

/-- A root bound to the checkout that is there keeps its binding; another binding of it is
replaced. -/
def bindRoot (tables : Tables) (s : Bindings) (root : String) (disk : Checkout) :
    Except RegistryError Bindings := do
  let identity ← match disk.common with
    | .ok identity => pure identity
    | .error reason => throw (unverifiable (root ++ ": " ++ reason))
  let incarnation ← readOrCreate disk identity
  match tables.roots.get? root with
  | none => throw ⟨"not_found",root ++ " is not a registered root"⟩
  | some row =>
    let current := s.active.get? root
    if current.any fun bound => bound.incarnation == incarnation && bound.projectId == row.projectId then return s
    else applyBind s ⟨root,row.projectId,incarnation,disk.epoch,current.map (·.registrationEpoch)⟩

/-- Only a replaced or never bound checkout is bound again. -/
def rebindRoot (tables : Tables) (s : Bindings) (root : String) (disk : Checkout) :
    Except RegistryError Bindings :=
  match tables.roots.get? root with
  | none => .error ⟨"not_found",root ++ " is not a registered root"⟩
  | some _ =>
    match (rootRecord s disk.identity root).identity with
    | .bound => .ok s
    | .replaced => bindRoot tables s root disk
    | .unbound => bindRoot tables s root disk
    | other => .error (unverifiable (root ++ ": " ++ match disk.reread with
      | .unverifiable reason => reason
      | _ => "identity is " ++ other.text))

structure ApprovalReply where
  bindings : Bindings
  changed : Bool
  registrationEpoch : String

/-- Refused unless the checkout on disk is the bound one. -/
def setApproval (s : Bindings) (disk : DiskIdentity) (root : String) (approve : Bool) (seq : Nat) :
    Except RegistryError ApprovalReply :=
  let record := rootRecord s disk root
  match record.registrationEpoch with
  | none => .error ⟨if record.identity = .replaced then "root_replaced" else "root_not_bound",
      root ++ " is " ++ record.identity.text⟩
  | some epoch =>
    if record.approval.isSome = approve then .ok ⟨s,false,epoch⟩
    else if approve then .ok ⟨{s with approvals := s.approvals.insertOrIgnore epoch seq},true,epoch⟩
    else .ok ⟨{s with approvals := s.approvals.erase epoch},true,epoch⟩

def approveRoot (s : Bindings) (disk : DiskIdentity) (root : String) (seq : Nat) := setApproval s disk root true seq

def unapproveRoot (s : Bindings) (disk : DiskIdentity) (root : String) (seq : Nat) := setApproval s disk root false seq

/-! ### Bindings in the registry's transactions -/

/-- A checkout that is attached is bound under a new epoch; one without a `.git` stays unbound. -/
def freshBinding (root project : String) (disk : Checkout) : Except RegistryError (Option BindPayload) :=
  if disk.git then do
    let identity ← match disk.common with
      | .ok identity => pure identity
      | .error reason => throw (unverifiable reason)
    let incarnation ← readOrCreate disk identity
    return some ⟨root,project,incarnation,disk.epoch,none⟩
  else .ok none

/-- The checks of `attach_derived_parent` on the binding the caller names. -/
def boundUnder (s : Bindings) (disk : DiskIdentity) (root incarnation epoch : String) : Except RegistryError Unit :=
  let record := rootRecord s disk root
  if s.retired.has epoch then
    .error ⟨"binding_retired","epoch " ++ epoch ++ " of " ++ root ++ " has been retired"⟩
  else if record.identity = .replaced then
    .error ⟨"root_replaced","the checkout at " ++ root ++ " is not the one that was bound"⟩
  else if record.registrationEpoch ≠ some epoch then
    .error ⟨"binding_stale",root ++ " is not bound under epoch " ++ epoch⟩
  else if record.incarnation ≠ some incarnation then
    .error ⟨"incarnation_mismatch","the incarnation given for " ++ root ++ " is not the bound checkout's"⟩
  else if record.approval.isNone then .error ⟨"binding_unapproved",root ++ " is not approved"⟩
  else .ok ()

/-- The site of a mutation, with the bindings it checks. -/
def onDisk (s : Bindings) (disk : Checkout) (site : Site) : Site :=
  {site with
    freshBinding := fun root => (freshBinding root "" disk).map fun _ => ()
    boundUnder := boundUnder s disk.identity}

def siteOf (s : Bindings) (disk : Checkout) : KeyLabel → KeyLabel
  | .commit (.attachRoot site req) => .commit (.attachRoot (onDisk s disk site) req)
  | .commit (.attachDerivedParent site req) => .commit (.attachDerivedParent (onDisk s disk site) req)
  | label => label

def bindAttached (s : Bindings) (disk : Checkout) (action : Action) : Except RegistryError Bindings :=
  match action.changed, action.value with
  | true, .attached project root _ => do
    match ← freshBinding root project disk with
    | some payload => applyBind s payload
    | none => return s
  | _, _ => .ok s

/-- The deleted projects of a received change, one after the other. -/
def cascadeBindings (s : Bindings) (change : ProjectEntry) : Except RegistryError Bindings :=
  change.projects.delete.foldlM retireProjectBindings s

/-- What a mutation does to the bindings. -/
def follow (tables : Tables) (s : Bindings) (disk : Checkout) : Registry.Label → Except RegistryError Bindings
  | .removeRoot _ req => retireRootBinding s req.root
  | .moveRootToNewProject _ req => retireRootBinding s req.root
  | .remove _ req => match req.workspaceId, req.projectId with
    | none, some id => retireProjectBindings s id
    | _, _ => .ok s
  | .attachRoot site req => do bindAttached s disk (← attachRoot site tables req)
  | .entry change => cascadeBindings s change
  | .snapshot image supersedes => cascadeBindings s (snapshotChanges tables image supersedes)
  | _ => .ok s

def followKey (tables : Tables) (s : Bindings) (disk : Checkout) : KeyLabel → Except RegistryError Bindings
  | .commit label => follow tables s disk label
  | .join image supersedes => cascadeBindings s (snapshotChanges tables image supersedes)
  | .adopt => .ok .empty
  | _ => .ok s

/-! ### Runs -/

/-- `drawn` are the epochs that calls have drawn so far. -/
structure Db where
  store : Store
  bindings : Bindings
  drawn : List String

def Db.fresh : Db := ⟨.fresh,.empty,[]⟩

/-- `bind_unbound_roots` is a `bind` for each of its roots, and the approval of a project an
`approve` for each. A `rebind` that reads its record before another step is a `bind`. -/
inductive Label
  | registry (label : KeyLabel) (disk : Checkout)
  | bind (root : String) (disk : Checkout)
  | rebind (root : String) (disk : Checkout)
  | approve (root : String) (disk : DiskIdentity) (seq : Nat)
  | unapprove (root : String) (disk : DiskIdentity) (seq : Nat)

def Label.draws : Label → List String
  | .registry (.commit (.attachRoot _ _)) disk => [disk.epoch]
  | .registry _ _ => []
  | .bind _ disk => [disk.epoch]
  | .rebind _ disk => [disk.epoch]
  | .approve _ _ _ => []
  | .unapprove _ _ _ => []

def registryStep (db : Db) (label : KeyLabel) (disk : Checkout) : Option (Store × Bindings) := do
  let label := siteOf db.bindings disk label
  let store ← keyNext db.store label
  let bindings ← (followKey db.store.tables db.bindings disk label).toOption
  return (store,bindings)

def effect (db : Db) : Label → Option (Store × Bindings)
  | .registry label disk => registryStep db label disk
  | .bind root disk => (bindRoot db.store.tables db.bindings root disk).toOption.map (db.store,·)
  | .rebind root disk => (rebindRoot db.store.tables db.bindings root disk).toOption.map (db.store,·)
  | .approve root disk seq => (approveRoot db.bindings disk root seq).toOption.map (db.store,·.bindings)
  | .unapprove root disk seq => (unapproveRoot db.bindings disk root seq).toOption.map (db.store,·.bindings)

def step (db : Db) (label : Label) : Option Db :=
  (effect db label).map fun (store,bindings) => ⟨store,bindings,label.draws ++ db.drawn⟩

/-- An epoch is drawn once. -/
def Drawn (db : Db) (label : Label) : Prop := ∀ epoch ∈ label.draws, epoch ∉ db.drawn

end Entorhinal.RootBindings
