import Mathlib.Data.String.Basic
import Mathlib.Tactic.Common
import Entorhinal.Table

/-! What the document verifiers of the catalog share: refusals, kinds of packages,
states of versions and requirements. -/
namespace Entorhinal.Package

inductive RefusalCode
  | nameInvalid
  | nameNotCanonical
  | scopeReserved
  | idBound
  | recordInvalid
  | signatureInvalid
  | keyUnknown
  | keyRevoked
  | keyNotValid
  | recordMismatch
  | archiveInvalid
  | archiveTooLarge
  | manifestTooLarge
  | pathInvalid
  | pathTooLong
  | pathNotUstar
  | manifestInvalid
  | bodyRefMissing
  | filesMismatch
  | flowIdMismatch
  | statusInvalid
  | feedRollback
  | statusTerminal
  | feedAfterUnavailable
  | statementInvalid
  | keyConflict
  | keyReused
  | statusSequenceConflict
  | actionNotAllowed
deriving DecidableEq, Repr

inductive RollbackReason
  | lowerSequence
  | sameSequenceOtherBytes
  | changedAtRegressed
  | keyEpochRegressed
deriving DecidableEq, Repr

structure Refusal where
  code : RefusalCode
  field : Option String
  reason : Option RollbackReason
deriving DecidableEq, Repr

def Refusal.new (code : RefusalCode) : Refusal := ⟨code,none,none⟩

def Refusal.at (code : RefusalCode) (field : String) : Refusal := ⟨code,some field,none⟩

def Refusal.rollback (reason : RollbackReason) : Refusal := ⟨.feedRollback,none,some reason⟩

inductive Kind
  | persona
  | skill
  | flow
  | memoryProfile
deriving DecidableEq, Repr

inductive State
  | available
  | withdrawn
  | tombstoned
  | revoked
deriving DecidableEq, Repr

def State.permits : State → State → Bool
  | .available,_ | .withdrawn,_ => true
  | .revoked,next => next == .revoked || next == .tombstoned
  | .tombstoned,next => next == .tombstoned

structure Requires where
  capabilities : List String
  packages : Table String String
deriving DecidableEq, Repr

end Entorhinal.Package
