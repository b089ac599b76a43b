import HoloSphere.Relation.Model
import Mathlib.Algebra.Group.Int.Defs

/-! # Discovery records

The values which the governed discovery state stores or compares: operators,
schema, mapping and experiment proposals, the safety kernel and audit actions, and
how an evolved schema is turned into a relation type.  Fields that neither the
validators nor the catalogs read are left out.  A set that is only iterated is the
list of its elements in ascending order.
-/

namespace HoloSphere.Discovery
open Format HoloSphere.Relation

/-- A SHA-256 digest, which is also what content-derived identities are. -/
structure Digest where
  bytes : Bytes
  sized : bytes.length = 32
  deriving DecidableEq

def Digest.zero : Digest := ⟨List.replicate 32 0, List.length_replicate⟩

abbrev DiscoveredOperatorId := Digest
abbrev EvolvedSchemaId := Digest
abbrev MappingHypothesisId := Digest
abbrev ExperimentProposalId := Digest
abbrev FeatureId := Nat
abbrev ResolutionId := Nat
abbrev DomainId := Nat
abbrev ConceptId := Nat
abbrev EmpiricalRootId := Nat

/-- What the model does not look into: the hash function, and the programs of
    operators, which are hashed and compared. -/
class Primitives where
  sha256 : Bytes → Digest
  Program : Type
  decideProgram : DecidableEq Program
  serializeProgram : Program → Bytes

open Primitives

instance [Primitives] : DecidableEq Program := decideProgram

inductive OperatorLifecycle where
  | generated
  | provisional
  | falsificationTesting
  | shadow
  | shadowValidated
  | admitted
  | monitored
  | rejected
  | deprecated
  | superseded
  deriving DecidableEq

def OperatorLifecycle.debug : OperatorLifecycle → String
  | .generated => "Generated"
  | .provisional => "Provisional"
  | .falsificationTesting => "FalsificationTesting"
  | .shadow => "Shadow"
  | .shadowValidated => "ShadowValidated"
  | .admitted => "Admitted"
  | .monitored => "Monitored"
  | .rejected => "Rejected"
  | .deprecated => "Deprecated"
  | .superseded => "Superseded"

inductive OperatorPredicate where
  | hasFeature (feature : FeatureId)
  | lacksFeature (feature : FeatureId)
  deriving DecidableEq

inductive OperatorEffect where
  | proposeResolution (resolution : ResolutionId)
  deriving DecidableEq

inductive GovernanceAuthority where
  | replicatedPolicy (policyId ver : Nat)
  | humanApproval (actorId : Nat)
  deriving DecidableEq

structure OperatorEpistemicRecord where
  previousVersion : Option DiscoveredOperatorId

structure DeclarativeOperator [Primitives] where
  id : DiscoveredOperatorId
  version : Nat
  predicates : List OperatorPredicate
  effect : OperatorEffect
  lifecycle : OperatorLifecycle
  sourceMotifs : List Digest
  sourceHypergraphMotifs : List Digest
  program : Program
  epistemic : OperatorEpistemicRecord
  admissionAuthority : Option GovernanceAuthority
  committedLsn : Nat

def OperatorPredicate.hashed : OperatorPredicate → Bytes
  | .hasFeature feature => 1 :: toLe 8 feature
  | .lacksFeature feature => 0 :: toLe 8 feature

def OperatorEffect.hashed : OperatorEffect → Bytes
  | .proposeResolution resolution => 1 :: toLe 8 resolution

def canonicalOperatorId [Primitives] (preds : List OperatorPredicate) (eff : OperatorEffect)
    (program : Program) (ver : Nat) (previousVersion : Option DiscoveredOperatorId) :
    DiscoveredOperatorId :=
  sha256 (utf8 "HOLOSPHERE_DECLARATIVE_OPERATOR_V1" ++
    (preds.flatMap OperatorPredicate.hashed ++ (eff.hashed ++
      (serializeProgram program ++ (toLe 4 ver ++ previousVersion.elim [] Digest.bytes)))))

def DeclarativeOperator.hasValidIdentity [Primitives] (opr : DeclarativeOperator) : Bool :=
  opr.id = canonicalOperatorId opr.predicates opr.effect opr.program
    opr.version opr.epistemic.previousVersion

inductive SchemaProposalState where
  | proposed
  | falsificationTesting
  | shadowValidated
  | admitted
  | rejected
  | deprecated
  deriving DecidableEq

def SchemaProposalState.debug : SchemaProposalState → String
  | .proposed => "Proposed"
  | .falsificationTesting => "FalsificationTesting"
  | .shadowValidated => "ShadowValidated"
  | .admitted => "Admitted"
  | .rejected => "Rejected"
  | .deprecated => "Deprecated"

structure StructuralRole where
  relationArity : Nat
  roleOrdinal : Nat
  peerRoleCount : Nat
  temporalPosition : Int
  deriving DecidableEq

structure ProposedRole where
  ordinal : Nat
  minCount : Nat
  maxCount : Nat
  required : Bool
  deriving DecidableEq

inductive EvolvedSchemaKind where
  | entityClass (capabilities : List FeatureId) (structuralRoles : List StructuralRole)
      (members : List (DomainId × ConceptId))
  | relationType (structuralSignature : Digest) (arity : Nat) (roles : List ProposedRole)
  | conceptEquivalence (concepts : List (DomainId × ConceptId))
  | generalization (general : EvolvedSchemaId) (specializations : List EvolvedSchemaId)
  | specialization (specialized general : EvolvedSchemaId)
  deriving DecidableEq

structure EvolvedSchemaProposal where
  id : EvolvedSchemaId
  state : SchemaProposalState
  kind : EvolvedSchemaKind
  empiricalRoots : List EmpiricalRootId

structure SchemaValidation where
  passed : Bool

structure GovernedSchemaRecord where
  proposal : EvolvedSchemaProposal
  validation : Option SchemaValidation
  authority : Option GovernanceAuthority

inductive MappingLifecycle where
  | proposed
  | falsificationTesting
  | shadowValidated
  | confirmed
  | rejected
  | deprecated
  deriving DecidableEq

def MappingLifecycle.debug : MappingLifecycle → String
  | .proposed => "Proposed"
  | .falsificationTesting => "FalsificationTesting"
  | .shadowValidated => "ShadowValidated"
  | .confirmed => "Confirmed"
  | .rejected => "Rejected"
  | .deprecated => "Deprecated"

structure ConceptMappingHypothesis where
  id : MappingHypothesisId
  left : DomainId × ConceptId
  right : DomainId × ConceptId
  lifecycle : MappingLifecycle

structure MappingValidation where
  passed : Bool

structure GovernedMappingRecord where
  hypothesis : ConceptMappingHypothesis
  validation : Option MappingValidation
  authority : Option GovernanceAuthority

inductive ActiveExperimentKind where
  | shadowReplay
  | simulation
  | diagnosticObservation
  | abTest
  | controlledConfigurationChange
  | missingEvidenceRequest
  deriving DecidableEq

inductive RiskLevel where
  | none
  | low
  | medium
  | high
  deriving DecidableEq

inductive ExperimentStatus where
  | proposed
  | authorized
  | running
  | completed
  | rejected
  | expired
  deriving DecidableEq

def ExperimentStatus.debug : ExperimentStatus → String
  | .proposed => "Proposed"
  | .authorized => "Authorized"
  | .running => "Running"
  | .completed => "Completed"
  | .rejected => "Rejected"
  | .expired => "Expired"

structure ExperimentAuthorization where
  authorityId : Nat
  policyId : Nat
  authorizedAtLsn : Nat
  expiresAtLsn : Nat
  deriving DecidableEq

structure SandboxExperimentResult where
  trials : Nat
  disagreements : Nat
  deriving DecidableEq

structure ActiveExperimentProposal where
  id : ExperimentProposalId
  kind : ActiveExperimentKind
  status : ExperimentStatus
  operators : List DiscoveredOperatorId
  targetDomains : List DomainId
  requiredFeatures : List FeatureId
  candidateResolutions : List ResolutionId
  expectedInformationGainQ32 : Int
  risk : RiskLevel
  requiresExternalAuthorization : Bool
  maximumTrials : Nat
  authorization : Option ExperimentAuthorization
  result : Option SandboxExperimentResult

structure CompetitiveOperatorEvaluation where
  observations : Nat
  correctPredictions : Nat
  passed : Bool
  deriving DecidableEq

structure ImmutableSafetyKernel where
  version : Nat
  certifiedRetrievalRequired : Bool
  provenanceRequired : Bool
  temporalIsolationRequired : Bool
  governedAdmissionRequired : Bool
  evidenceIndependenceRequired : Bool
  circularSupportPreventionRequired : Bool
  resourceLimitsRequired : Bool
  sandboxRequired : Bool
  auditChainRequired : Bool
  rollbackIsCompensatingOnly : Bool
  maximumOperatorAstNodes : Nat
  digest : Digest
  deriving DecidableEq

namespace ImmutableSafetyKernel

def requirements (kernel : ImmutableSafetyKernel) : List Bool :=
  [kernel.certifiedRetrievalRequired, kernel.provenanceRequired, kernel.temporalIsolationRequired,
    kernel.governedAdmissionRequired, kernel.evidenceIndependenceRequired,
    kernel.circularSupportPreventionRequired, kernel.resourceLimitsRequired, kernel.sandboxRequired,
    kernel.auditChainRequired, kernel.rollbackIsCompensatingOnly]

def computeDigest [Primitives] (kernel : ImmutableSafetyKernel) : Digest :=
  sha256 (utf8 "HOLOSPHERE_IMMUTABLE_DISCOVERY_KERNEL_V1" ++
    (toLe 4 kernel.version ++ (kernel.requirements.map (fun flag => if flag then 1 else 0) ++
      toLe 4 kernel.maximumOperatorAstNodes)))

def verify [Primitives] (kernel : ImmutableSafetyKernel) : Bool :=
  kernel.version = 1 && kernel.requirements.all id && kernel.maximumOperatorAstNodes ≠ 0 &&
    kernel.computeDigest = kernel.digest

end ImmutableSafetyKernel

inductive DiscoveryAuditAction where
  | schemaProposed (schema : Digest)
  | mappingProposed (mapping : Digest)
  | schemaTransition (schema : EvolvedSchemaId) (pre : Option SchemaProposalState)
      (after : SchemaProposalState)
  | mappingTransition (mapping : MappingHypothesisId) (pre : Option MappingLifecycle)
      (after : MappingLifecycle)
  | motifDiscovered (motif : Digest)
  | operatorTransition (opr : DiscoveredOperatorId) (pre : Option OperatorLifecycle)
      (after : OperatorLifecycle)
  | experimentProposed (experiment : Digest)
  | monitoringEvaluated (opr : DiscoveredOperatorId) (accuracyQ32 : Int)
  | revisionProposed (prev revision : DiscoveredOperatorId)
  | compensatingRollbackProposed (cur restoration : DiscoveredOperatorId)
  deriving DecidableEq

/-- The `bincode` form of an action: the number of the variant and then its fields. -/
def DiscoveryAuditAction.serialize : DiscoveryAuditAction → Bytes
  | .schemaProposed schema => toLe 4 0 ++ schema.bytes
  | .mappingProposed mapping => toLe 4 1 ++ mapping.bytes
  | .schemaTransition schema pre after =>
    toLe 4 2 ++ (schema.bytes ++ transition (pre.map SchemaProposalState.ctorIdx) after.ctorIdx)
  | .mappingTransition mapping pre after =>
    toLe 4 3 ++ (mapping.bytes ++ transition (pre.map MappingLifecycle.ctorIdx) after.ctorIdx)
  | .motifDiscovered motif => toLe 4 4 ++ motif.bytes
  | .operatorTransition opr pre after =>
    toLe 4 5 ++ (opr.bytes ++ transition (pre.map OperatorLifecycle.ctorIdx) after.ctorIdx)
  | .experimentProposed experiment => toLe 4 6 ++ experiment.bytes
  | .monitoringEvaluated opr accuracyQ32 =>
    toLe 4 7 ++ (opr.bytes ++ toLe 8 (accuracyQ32 % 2 ^ 64).toNat)
  | .revisionProposed prev revision => toLe 4 8 ++ (prev.bytes ++ revision.bytes)
  | .compensatingRollbackProposed cur restoration =>
    toLe 4 9 ++ (cur.bytes ++ restoration.bytes)
where
  transition (pre : Option Nat) (after : Nat) : Bytes :=
    pre.elim [0] (fun variant => 1 :: toLe 4 variant) ++ toLe 4 after

structure DiscoveryAuditEntry where
  sequence : Nat
  lsn : Nat
  action : DiscoveryAuditAction
  previousHash : Digest
  entryHash : Digest

/-- Sixteen lower-case hexadecimal digits. -/
def hex016 (n : Nat) : String :=
  let digits := Nat.toDigits 16 n
  String.ofList (List.replicate (16 - digits.length) '0' ++ digits)

def SchemaProposalState.relationTypeState : SchemaProposalState → Option RelationTypeState
  | .proposed => some .proposed
  | .falsificationTesting => some .proposed
  | .shadowValidated => some .proposed
  | .admitted => some .admitted
  | .deprecated => some .deprecated
  | .rejected => none

def ProposedRole.roleSchema (role : ProposedRole) : RoleSchema :=
  ⟨role.ordinal, s!"induced_role_{role.ordinal}", role.minCount, role.maxCount, role.required⟩

def materializeRelationType (proposal : EvolvedSchemaProposal) (provenanceId : Nat) :
    Option RelationType :=
  match proposal.kind with
  | .relationType structuralSignature _ roles => do
      let typeId := fromLe (structuralSignature.bytes.take 4)
      let st ← proposal.state.relationTypeState
      let schemas := roles.map ProposedRole.roleSchema
      some {
        id := typeId
        name := "induced_relation_" ++ hex016 typeId
        schemaVersion := 1
        state := st
        roles := schemas
        provenanceId := provenanceId
        structuralFingerprint := RelationType.computeStructuralFingerprint typeId 1 schemas }
  | _ => none

end HoloSphere.Discovery
