import HoloSphere.Discovery.Catalog

/-! # Governed discovery state

`GovernedDiscoveryState` of `learning/discovery/state.rs`: versioned schemas,
mappings, evaluations and experiments, the audit chain, and the safety kernel
without which nothing else is accepted.  A key without versions is an empty list.
-/

namespace HoloSphere.Discovery
open Format Function

inductive DiscoveryStateMutation where
  | installSafetyKernel (kernel : ImmutableSafetyKernel)
  | upsertSchema (rec : GovernedSchemaRecord) (expectedPrevious : Option SchemaProposalState)
  | upsertMapping (rec : GovernedMappingRecord) (expectedPrevious : Option MappingLifecycle)
  | recordEvaluation (opr : DiscoveredOperatorId) (evaluation : CompetitiveOperatorEvaluation)
  | upsertExperiment (experiment : ActiveExperimentProposal)
      (expectedPrevious : Option ExperimentStatus)
  | appendAudit (action : DiscoveryAuditAction) (expectedPreviousHash : Digest)

def DiscoveryStateMutation.conflictKey : DiscoveryStateMutation → Bytes
  | .installSafetyKernel _ => utf8 "kernel"
  | .upsertSchema rec _ => utf8 "schema" ++ rec.proposal.id.bytes
  | .upsertMapping rec _ => utf8 "mapping" ++ rec.hypothesis.id.bytes
  | .recordEvaluation opr _ => utf8 "evaluation" ++ opr.bytes
  | .upsertExperiment experiment _ => utf8 "experiment" ++ experiment.id.bytes
  | .appendAudit _ _ => utf8 "audit-head"

theorem ne_of_key {id other : Digest} {tag : Bytes} (uniq : tag ++ id.bytes ≠ tag ++ other.bytes) :
    other ≠ id :=
  fun same => uniq (by rw [same])

inductive DiscoveryStateError where
  | safetyKernelReplacement
  | invalidSafetyKernel
  | missingSafetyKernel
  | missingAuthority
  | forbiddenTransition (before after : String)
  | previousStateMismatch
  | definitionChanged
  | nonMonotonicCommit (current incoming : Nat)
  | auditChainMismatch
  deriving DecidableEq

def DiscoveryStateError.display : DiscoveryStateError → String
  | .safetyKernelReplacement => "immutable safety kernel cannot be replaced"
  | .invalidSafetyKernel => "safety kernel is invalid"
  | .missingSafetyKernel =>
    "immutable safety kernel must be committed before governed discovery state"
  | .missingAuthority => "governance authority is required for this transition"
  | .forbiddenTransition before after => s!"state transition from {before} to {after} is forbidden"
  | .previousStateMismatch => "expected previous state does not match replicated state"
  | .definitionChanged => "content-addressed discovery definition changed during transition"
  | .nonMonotonicCommit current incoming => s!"commit LSN {incoming} is not newer than {current}"
  | .auditChainMismatch => "audit previous hash does not match the replicated audit head"

structure Versioned (α : Type) where
  committedLsn : Nat
  value : α

abbrev Check := Except DiscoveryStateError Unit

def requireNewer (current incoming : Nat) : Check :=
  if incoming ≤ current then .error (.nonMonotonicCommit current incoming) else .ok ()

def requireNewerOrEqual (current incoming : Nat) : Check :=
  if incoming < current then .error (.nonMonotonicCommit current incoming) else .ok ()

def schemaTransition (before after : SchemaProposalState) : Bool :=
  match before, after with
  | .proposed, .falsificationTesting => true
  | .proposed, .rejected => true
  | .falsificationTesting, .shadowValidated => true
  | .falsificationTesting, .rejected => true
  | .shadowValidated, .admitted => true
  | .admitted, .deprecated => true
  | before, after => before = after

def mappingTransition (before after : MappingLifecycle) : Bool :=
  match before, after with
  | .proposed, .falsificationTesting => true
  | .proposed, .rejected => true
  | .falsificationTesting, .shadowValidated => true
  | .falsificationTesting, .rejected => true
  | .shadowValidated, .confirmed => true
  | .confirmed, .deprecated => true
  | before, after => before = after

def experimentTransition (before after : ExperimentStatus) : Bool :=
  match before, after with
  | .proposed, .authorized => true
  | .proposed, .rejected => true
  | .proposed, .expired => true
  | .authorized, .running => true
  | .authorized, .rejected => true
  | .running, .completed => true
  | .running, .rejected => true
  | before, after => before = after

def validateSchema (rec : GovernedSchemaRecord) (expected : Option SchemaProposalState)
    (prev : Option (Versioned GovernedSchemaRecord)) (commitLsn : Nat) : Check := do
  let st := rec.proposal.state
  match prev with
  | none =>
    if expected.isSome ∨ st ≠ .proposed then .error .previousStateMismatch else .ok ()
  | some prev =>
    let last := prev.value.proposal
    requireNewer prev.committedLsn commitLsn
    if last.kind ≠ rec.proposal.kind then .error .definitionChanged
    else if expected ≠ some last.state ∨ !schemaTransition last.state st then
      .error (.forbiddenTransition last.state.debug st.debug)
    else .ok ()
  if (st = .shadowValidated ∨ st = .admitted) ∧ !rec.validation.any SchemaValidation.passed then
    .error (.forbiddenTransition "unvalidated" st.debug)
  else if st = .admitted ∧ rec.authority.isNone then .error .missingAuthority
  else .ok ()

def validateMapping (rec : GovernedMappingRecord) (expected : Option MappingLifecycle)
    (prev : Option (Versioned GovernedMappingRecord)) (commitLsn : Nat) : Check := do
  let st := rec.hypothesis.lifecycle
  match prev with
  | none =>
    if expected.isSome ∨ st ≠ .proposed then .error .previousStateMismatch else .ok ()
  | some prev =>
    let last := prev.value.hypothesis
    requireNewer prev.committedLsn commitLsn
    if last.left ≠ rec.hypothesis.left ∨ last.right ≠ rec.hypothesis.right then
      .error .definitionChanged
    else if expected ≠ some last.lifecycle ∨ !mappingTransition last.lifecycle st then
      .error (.forbiddenTransition last.lifecycle.debug st.debug)
    else .ok ()
  if (st = .shadowValidated ∨ st = .confirmed) ∧ !rec.validation.any MappingValidation.passed then
    .error (.forbiddenTransition "unvalidated" st.debug)
  else if st = .confirmed ∧ rec.authority.isNone then .error .missingAuthority
  else .ok ()

def validateExperiment (experiment : ActiveExperimentProposal) (expected : Option ExperimentStatus)
    (prev : Option (Versioned ActiveExperimentProposal)) (commitLsn : Nat) : Check := do
  let st := experiment.status
  match prev with
  | none =>
    if expected.isSome ∨ st ≠ .proposed then .error .previousStateMismatch else .ok ()
  | some prev =>
    let last := prev.value.status
    requireNewer prev.committedLsn commitLsn
    if expected ≠ some last ∨ !experimentTransition last st then
      .error (.forbiddenTransition last.debug st.debug)
    else .ok ()
  if st = .authorized ∧ experiment.requiresExternalAuthorization ∧
      experiment.authorization.isNone then
    .error .missingAuthority
  else if (st = .authorized ∨ st = .running ∨ st = .completed) ∧
      experiment.authorization.isNone then
    .error .missingAuthority
  else if st = .completed ∧ experiment.result.isNone then
    .error (.forbiddenTransition "running-without-result" "Completed")
  else .ok ()

/-- Only the kernel itself may come before a kernel is installed. -/
def DiscoveryStateMutation.needsKernel : DiscoveryStateMutation → Bool
  | .installSafetyKernel _ => false
  | _ => true

structure GovernedDiscoveryState where
  safetyKernel : List (Versioned ImmutableSafetyKernel)
  schemas : EvolvedSchemaId → List (Versioned GovernedSchemaRecord)
  mappings : MappingHypothesisId → List (Versioned GovernedMappingRecord)
  evaluations : DiscoveredOperatorId → List (Versioned CompetitiveOperatorEvaluation)
  experiments : ExperimentProposalId → List (Versioned ActiveExperimentProposal)
  audit : List DiscoveryAuditEntry

namespace GovernedDiscoveryState

def new : GovernedDiscoveryState := ⟨[], fun _ => [], fun _ => [], fun _ => [], fun _ => [], []⟩

variable [Primitives]

def verifyKernelInstalled (st : GovernedDiscoveryState) : Check :=
  match st.safetyKernel.getLast? with
  | none => .error .missingSafetyKernel
  | some installed => if installed.value.verify then .ok () else .error .invalidSafetyKernel

/-- The part of `prevalidate` that looks at the entry which the mutation is about. -/
def checkEntry (op : DiscoveryStateMutation) (commitLsn : Nat)
    (st : GovernedDiscoveryState) : Check :=
  match op with
  | .installSafetyKernel kernel =>
    if !kernel.verify then .error .invalidSafetyKernel
    else
      match st.safetyKernel.getLast? with
      | none => .ok ()
      | some existing =>
        if existing.value.digest ≠ kernel.digest then .error .safetyKernelReplacement
        else requireNewer existing.committedLsn commitLsn
  | .upsertSchema rec expected =>
    validateSchema rec expected (st.schemas rec.proposal.id).getLast? commitLsn
  | .upsertMapping rec expected =>
    validateMapping rec expected (st.mappings rec.hypothesis.id).getLast? commitLsn
  | .recordEvaluation opr _ =>
    match (st.evaluations opr).getLast? with
    | none => .ok ()
    | some prev => requireNewer prev.committedLsn commitLsn
  | .upsertExperiment experiment expected =>
    validateExperiment experiment expected (st.experiments experiment.id).getLast? commitLsn
  | .appendAudit _ expectedPreviousHash =>
    match st.audit.getLast? with
    | none => if Digest.zero ≠ expectedPreviousHash then .error .auditChainMismatch else .ok ()
    | some prev =>
      if prev.entryHash ≠ expectedPreviousHash then .error .auditChainMismatch
      else requireNewerOrEqual prev.lsn commitLsn

def prevalidate (op : DiscoveryStateMutation) (commitLsn : Nat)
    (st : GovernedDiscoveryState) : Check := do
  if op.needsKernel then st.verifyKernelInstalled
  st.checkEntry op commitLsn

def auditHash (sequence lsn : Nat) (action : DiscoveryAuditAction) (previousHash : Digest) :
    Digest :=
  Primitives.sha256 (utf8 "HOLOSPHERE_DISCOVERY_AUDIT_CHAIN_V1" ++ (toLe 8 sequence ++
    (toLe 8 lsn ++ (previousHash.bytes ++ action.serialize))))

/-- The write which follows a successful validation. -/
def commit (op : DiscoveryStateMutation) (commitLsn : Nat) (st : GovernedDiscoveryState) :
    GovernedDiscoveryState :=
  match op with
  | .installSafetyKernel kernel =>
    { st with safetyKernel := st.safetyKernel ++ [⟨commitLsn, kernel⟩] }
  | .upsertSchema rec _ =>
    let id := rec.proposal.id
    let versions := st.schemas id ++ [⟨commitLsn, rec⟩]
    { st with schemas := update st.schemas id versions }
  | .upsertMapping rec _ =>
    let id := rec.hypothesis.id
    let versions := st.mappings id ++ [⟨commitLsn, rec⟩]
    { st with mappings := update st.mappings id versions }
  | .recordEvaluation opr evaluation =>
    let versions := st.evaluations opr ++ [⟨commitLsn, evaluation⟩]
    { st with evaluations := update st.evaluations opr versions }
  | .upsertExperiment experiment _ =>
    let id := experiment.id
    let versions := st.experiments id ++ [⟨commitLsn, experiment⟩]
    { st with experiments := update st.experiments id versions }
  | .appendAudit action expectedPreviousHash =>
    let sequence := st.audit.length
    let entryHash := auditHash sequence commitLsn action expectedPreviousHash
    let entry : DiscoveryAuditEntry :=
      ⟨sequence, commitLsn, action, expectedPreviousHash, entryHash⟩
    { st with audit := st.audit ++ [entry] }

def apply (op : DiscoveryStateMutation) (commitLsn : Nat) (st : GovernedDiscoveryState) :
    Except DiscoveryStateError GovernedDiscoveryState := do
  st.prevalidate op commitLsn
  .ok (st.commit op commitLsn)

variable {st : GovernedDiscoveryState}

theorem prevalidate_ok_iff : st.prevalidate snd commitLsn = .ok () ↔
    (snd.needsKernel = true → st.verifyKernelInstalled = .ok ()) ∧
      st.checkEntry snd commitLsn = .ok () := by
  unfold prevalidate
  cases snd.needsKernel with
  | false => simp
  | true => cases st.verifyKernelInstalled <;> simp [bind, Except.bind]

theorem verify_of_checkEntry
    (valid : st.checkEntry (.installSafetyKernel kernel) commitLsn = .ok ()) :
    kernel.verify = true := by
  cases verified : kernel.verify with
  | true => rfl
  | false => simp [checkEntry, verified] at valid

/-- A kernel that was installed stays so: another one has passed the same check. -/
theorem verifyKernelInstalled_commit (valid : st.checkEntry fst commitLsn = .ok ())
    (installed : st.verifyKernelInstalled = .ok ()) :
    (st.commit fst commitLsn).verifyKernelInstalled = .ok () := by
  cases fst with
  | installSafetyKernel kernel =>
    simp [commit, verifyKernelInstalled, verify_of_checkEntry valid]
  | upsertSchema | upsertMapping | recordEvaluation | upsertExperiment | appendAudit =>
    exact installed

/-- A commit is seen only by the check of a mutation with the same conflict key. -/
theorem checkEntry_commit (uniq : fst.conflictKey ≠ snd.conflictKey) :
    (st.commit fst commitLsn).checkEntry snd commitLsn = st.checkEntry snd commitLsn := by
  cases fst <;> cases snd <;> try rfl
  case installSafetyKernel.installSafetyKernel | appendAudit.appendAudit => exact absurd rfl uniq
  all_goals
    have separate := ne_of_key uniq
    simp [checkEntry, commit, update_of_ne separate]

/-- Two mutations that are valid in one state and have different conflict keys can be
    committed one after the other. -/
theorem prevalidate_commit (uniq : fst.conflictKey ≠ snd.conflictKey)
    (validFirst : st.prevalidate fst commitLsn = .ok ())
    (validSecond : st.prevalidate snd commitLsn = .ok ()) :
    (st.commit fst commitLsn).prevalidate snd commitLsn = .ok () := by
  obtain ⟨-, entryFirst⟩ := prevalidate_ok_iff.mp validFirst
  obtain ⟨kernel, entrySecond⟩ := prevalidate_ok_iff.mp validSecond
  apply prevalidate_ok_iff.mpr
  constructor
  · intro needed
    exact verifyKernelInstalled_commit entryFirst (kernel needed)
  · rw [checkEntry_commit uniq]
    exact entrySecond

end GovernedDiscoveryState
end HoloSphere.Discovery
