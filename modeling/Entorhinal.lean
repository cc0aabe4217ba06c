import Entorhinal.Admission
import Entorhinal.AppendLog
import Entorhinal.ApprovalsLaw
import Entorhinal.Archive
import Entorhinal.ArchiveChecked
import Entorhinal.ArchiveLaw
import Entorhinal.ArchiveScan
import Entorhinal.AvatarsLaw
import Entorhinal.Bundle
import Entorhinal.BundleLaw
import Entorhinal.Capability
import Entorhinal.CatalogGrantsLaw
import Entorhinal.CatalogLaw
import Entorhinal.ClaimCache
import Entorhinal.ClaimOrder
import Entorhinal.ConsentAnswers
import Entorhinal.ConsentApproved
import Entorhinal.ConsentBroker
import Entorhinal.ConsentCalls
import Entorhinal.ConsentLaw
import Entorhinal.ConsentMachine
import Entorhinal.ConsentPact
import Entorhinal.ConsentPermissions
import Entorhinal.ConsentRuns
import Entorhinal.ConsentStore
import Entorhinal.ConsentWrites
import Entorhinal.CursorWalks
import Entorhinal.DocumentRuns
import Entorhinal.Feed
import Entorhinal.Forwarding
import Entorhinal.IdentityLog
import Entorhinal.JournalTail
import Entorhinal.KeyChain
import Entorhinal.Liveness
import Entorhinal.LivenessMirrorLaw
import Entorhinal.LogAgreement
import Entorhinal.LogLaw
import Entorhinal.Loop
import Entorhinal.MoveCheckpoints
import Entorhinal.MoveLaw
import Entorhinal.MovePact
import Entorhinal.MoveRecord
import Entorhinal.MoveWireAbort
import Entorhinal.MutationHead
import Entorhinal.NameAnswers
import Entorhinal.NameBindings
import Entorhinal.NestedRoots
import Entorhinal.Program
import Entorhinal.PublishVerify
import Entorhinal.RecordClient
import Entorhinal.Refusal
import Entorhinal.Register
import Entorhinal.RegistryEffects
import Entorhinal.RegistryEntry
import Entorhinal.RegistryForward
import Entorhinal.RegistryLaw
import Entorhinal.RegistryOps
import Entorhinal.RegistryRoots
import Entorhinal.RegistryRoutes
import Entorhinal.RegistrySeed
import Entorhinal.RegistryShared
import Entorhinal.RegistrySound
import Entorhinal.RegistryTables
import Entorhinal.RemoteAuthority
import Entorhinal.RequestKeys
import Entorhinal.ResolverOrder
import Entorhinal.ResolverRoots
import Entorhinal.RoleCache
import Entorhinal.RoleFence
import Entorhinal.RoleFenceOrder
import Entorhinal.RootApprovals
import Entorhinal.RootBindings
import Entorhinal.RootKeyRuns
import Entorhinal.RootKeys
import Entorhinal.Rooted
import Entorhinal.ScopeTrust
import Entorhinal.SemverOrder
import Entorhinal.SemverRange
import Entorhinal.SessionAccount
import Entorhinal.SessionArrival
import Entorhinal.SessionCarry
import Entorhinal.SessionFreeze
import Entorhinal.SessionInstall
import Entorhinal.SessionPages
import Entorhinal.SessionRegister
import Entorhinal.SessionRuns
import Entorhinal.SessionUpkeep
import Entorhinal.SessionUpkeepOrder
import Entorhinal.SnapshotPacking
import Entorhinal.SnapshotParts
import Entorhinal.StatusLaw
import Entorhinal.Table
import Entorhinal.Transition
import Entorhinal.Traverse
import Entorhinal.UserProfile
import Entorhinal.UserProfileLaw
import Entorhinal.WhereWatchLaw
