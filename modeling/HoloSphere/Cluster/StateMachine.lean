import HoloSphere.Cluster.Dedup
import HoloSphere.Discovery.Governed
import HoloSphere.Graph.Commands
import HoloSphere.Memory.Persona
import HoloSphere.Relational.Columnar
import HoloSphere.Storage.Segment
import HoloSphere.Tensor.Hypercube

/-! # The shard state machine

`ShardStateMachine` of `cluster/state_machine.rs`: a committed mutation is checked
against the deduplication horizon, prepared into a list of deltas that are all
validated against the state before the call, and published delta by delta.  The
horizon, the counters and the backends are one state; a call returns the state it
leaves together with its answer.
-/

namespace HoloSphere.Cluster
open Consensus Discovery HoloSphere.Graph HoloSphere.Relation Memory Relational Storage Tensor
section
variable [Primitives]

inductive DataMutation where
  | upsert (mutationId : MutationId) (key : String) (vec : VectorEmbedding)
      (md : Option Metadata) (client : Option ClientIdentity) (clientSeq : Nat)
      (retrySemantics : RetrySemantics)
  | delete (mutationId : MutationId) (key : String) (client : Option ClientIdentity)
      (clientSeq : Nat) (retrySemantics : RetrySemantics)
  | metadataPatch (mutationId : MutationId) (key : String) (md : Metadata)
  | batch (mutationId : MutationId) (ops : List DataMutation)
  | faultTolerantBatch (mutationId : MutationId) (ops : List DataMutation)
  | graph (mutationId : MutationId) (mutation : GraphMutation)
  | sql (mutationId : MutationId) (table : String) (row : RelationalRow) (isDelete : Bool)
  | agentMemory (mutationId : MutationId) (userId : String) (fact : EpisodicFact)
  | hypercube (mutationId : MutationId) (coords : CoordinateND) (val : UInt32)
  | discoveryOperator (mutationId : MutationId) (opr : DeclarativeOperator)
      (expectedPrevious : Option OperatorLifecycle)
  | discoveryState (mutationId : MutationId) (mutation : DiscoveryStateMutation)

namespace DataMutation

def mutationId : DataMutation → MutationId
  | .upsert id .. => id
  | .delete id .. => id
  | .metadataPatch id .. => id
  | .batch id _ => id
  | .faultTolerantBatch id _ => id
  | .graph id _ => id
  | .sql id .. => id
  | .agentMemory id .. => id
  | .hypercube id .. => id
  | .discoveryOperator id .. => id
  | .discoveryState id _ => id

/-- Only vector writes carry a client; everything else is idempotent by its id. -/
def retryContext : DataMutation → Option ClientIdentity × Nat × RetrySemantics
  | .upsert _ _ _ _ client clientSeq retrySemantics => (client, clientSeq, retrySemantics)
  | .delete _ _ client clientSeq retrySemantics => (client, clientSeq, retrySemantics)
  | _ => (none, 0, .idempotent)

end DataMutation

inductive PreparedDelta where
  | vectorUpsert (key : String) (vec : VectorEmbedding) (md : Option Metadata)
  | vectorDelete (key : String)
  | vectorMetadataPatch (key : String) (md : Metadata)
  | graph (mutation : GraphMutation)
  | sql (table pk : String) (row : RelationalRow) (isDelete : Bool)
  | agentMemory (userId : String) (fact : EpisodicFact)
  | hypercube (coords : CoordinateND) (val : UInt32)
  | discoveryOperator (opr : DeclarativeOperator)
      (expectedPrevious : Option OperatorLifecycle) (commitLsn : Nat)
  | discoveryState (mutation : DiscoveryStateMutation) (commitLsn : Nat)
      (evolvedRelationType : Option RelationType)

structure LearningSegment where
  discovery : DiscoveryCatalog
  governedDiscovery : GovernedDiscoveryState

structure Backends where
  engine : SegmentedEngine
  graph : Option GraphMutationApplier
  sql : Option RelationalSqlEngine
  memory : Option AutonomousMemoryConsolidator
  hypercube : Option HypercubeTensorSpace
  learning : Option LearningSegment
  relations : Option RelationSegment

structure ShardStateMachine extends Backends where
  shardId : Nat
  lastAppliedIndex : Nat
  appliedGeneration : Nat
  dedupHorizon : DeduplicationHorizon

namespace Backends

def stageUpsert (key : String) (vec : VectorEmbedding) (md : Option Metadata)
    (backends : Backends) : Except HNSQRError PreparedDelta :=
  if vec.dimension ≠ backends.engine.dimension then
    .error (.dimensionMismatch backends.engine.dimension vec.dimension)
  else .ok (.vectorUpsert key vec md)

def stageGraph (mutation : GraphMutation) (backends : Backends) :
    Except HNSQRError PreparedDelta := do
  match backends.graph with
  | none => .error (.invalidRequest "Graph backend not enabled on this shard")
  | some graph => do
      graph.prevalidate mutation
      .ok (.graph mutation)

/-- The first column that must be there and is not. -/
def missingColumn (schema : TableSchema) (row : RelationalRow) : Option ColumnDefinition :=
  schema.columns.find? fun column => !column.isNullable && (row.values column.name).isNone

def stageSql (table : String) (row : RelationalRow) (isDelete : Bool) (backends : Backends) :
    Except HNSQRError PreparedDelta :=
  match backends.sql with
  | none => .error (.invalidRequest "SQL backend not enabled on this shard")
  | some sql =>
    match sql.getTableSchema table with
    | none => .error (.invalidRequest s!"Table '{table}' does not exist")
    | some schema => do
        let pk ← RelationalSqlEngine.primaryKeyOf schema row
        match isDelete, missingColumn schema row with
        | false, some column =>
          .error (.invalidRequest s!"Non-nullable column '{column.name}' missing in row")
        | _, _ => .ok (.sql table pk row isDelete)

def stageMemory [F32Arithmetic] (userId : String) (fact : EpisodicFact) (backends : Backends) :
    Except HNSQRError PreparedDelta :=
  match backends.memory with
  | none => .error (.invalidRequest "Agent memory backend not enabled on this shard")
  | some _ =>
    if F32.ltZero fact.confidence || F32.gtOne fact.confidence then
      .error (.invalidRequest
        ("Invalid fact confidence: " ++ F32Arithmetic.display fact.confidence))
    else if F32.ltZero fact.emotionalSalience || F32.gtOne fact.emotionalSalience then
      .error (.invalidRequest
        ("Invalid emotional salience: " ++ F32Arithmetic.display fact.emotionalSalience))
    else .ok (.agentMemory userId fact)

def stageHypercube (coords : CoordinateND) (val : UInt32) (backends : Backends) :
    Except HNSQRError PreparedDelta :=
  match backends.hypercube with
  | none => .error (.invalidRequest "Hypercube backend not enabled on this shard")
  | some space =>
    if coords.length ≠ space.dimensions then
      .error (.dimensionMismatch space.dimensions coords.length)
    else
      match space.outOfBounds coords with
      | some (dim, coord, bound) =>
        .error (.invalidRequest
          s!"Coordinate index out of bounds on dimension {dim}: {coord} >= {bound}")
      | none => .ok (.hypercube coords val)

def stagesOperator (opr : DeclarativeOperator) : PreparedDelta → Bool
  | .discoveryOperator staged _ _ => staged.id = opr.id
  | _ => false

def stageOperator (opr : DeclarativeOperator) (expected : Option OperatorLifecycle)
    (commitLsn : Nat) (deltas : List PreparedDelta) (backends : Backends) :
    Except HNSQRError PreparedDelta :=
  if deltas.any (stagesOperator opr) then
    .error (.invalidRequest
      ("Only one lifecycle transition per discovered operator is allowed " ++ "in a committed LSN"))
  else
    match backends.learning with
    | none => .error (.invalidRequest "Learning discovery backend not enabled on this shard")
    | some learning =>
      match learning.governedDiscovery.verifyKernelInstalled with
      | .error e => .error (.invalidRequest e.display)
      | .ok () =>
        match learning.discovery.prevalidate opr expected commitLsn with
        | .error e => .error (.invalidRequest e.display)
        | .ok () => .ok (.discoveryOperator opr expected commitLsn)

def stagesKey (mutation : DiscoveryStateMutation) : PreparedDelta → Bool
  | .discoveryState staged _ _ => staged.conflictKey = mutation.conflictKey
  | _ => false

/-- The relation type that a schema stands for; its provenance is the smallest root. -/
def evolvedRelationType : DiscoveryStateMutation → Option RelationType
  | .upsertSchema rec _ =>
    materializeRelationType rec.proposal (rec.proposal.empiricalRoots.head?.getD 0)
  | _ => none

def prevalidateRelation (evolved : Option RelationType) (backends : Backends) :
    Except HNSQRError Unit :=
  match backends.relations, evolved with
  | some relations, some rtype =>
    (relations.prevalidateEvolvedType rtype).mapError HNSQRError.invalidRequest
  | _, _ => .ok ()

def stageDiscovery (mutation : DiscoveryStateMutation) (commitLsn : Nat)
    (deltas : List PreparedDelta) (backends : Backends) : Except HNSQRError PreparedDelta :=
  if deltas.any (stagesKey mutation) then
    .error (.invalidRequest
      "Only one mutation per governed discovery key is allowed in a committed LSN")
  else
    match backends.learning with
    | none => .error (.invalidRequest "Learning discovery backend not enabled on this shard")
    | some learning =>
      match learning.governedDiscovery.prevalidate mutation commitLsn with
      | .error e => .error (.invalidRequest e.display)
      | .ok () => do
          backends.prevalidateRelation (evolvedRelationType mutation)
          .ok (.discoveryState mutation commitLsn (evolvedRelationType mutation))

/-- `deltas.push`, or the error. -/
def stage (deltas : List PreparedDelta) :
    Except HNSQRError PreparedDelta → List PreparedDelta × Except HNSQRError Unit
  | .ok delta => (deltas ++ [delta], .ok ())
  | .error e => (deltas, .error e)

section
variable [F32Arithmetic] (backends : Backends) (commitLsn : Nat)

mutual

/-- The deltas that were pushed before an error stay in the list. -/
def prepareMutation :
    DataMutation → List PreparedDelta → List PreparedDelta × Except HNSQRError Unit
  | .upsert _ key vec md _ _ _, deltas =>
    stage deltas (backends.stageUpsert key vec md)
  | .delete _ key _ _ _, deltas => stage deltas (.ok (.vectorDelete key))
  | .metadataPatch _ key md, deltas => stage deltas (.ok (.vectorMetadataPatch key md))
  | .graph _ mutation, deltas => stage deltas (backends.stageGraph mutation)
  | .sql _ table row isDelete, deltas => stage deltas (backends.stageSql table row isDelete)
  | .agentMemory _ userId fact, deltas => stage deltas (backends.stageMemory userId fact)
  | .hypercube _ coords val, deltas => stage deltas (backends.stageHypercube coords val)
  | .discoveryOperator _ opr expected, deltas =>
    stage deltas (backends.stageOperator opr expected commitLsn deltas)
  | .discoveryState _ mutation, deltas =>
    stage deltas (backends.stageDiscovery mutation commitLsn deltas)
  | .batch _ ops, deltas => prepareAll ops deltas
  | .faultTolerantBatch _ ops, deltas => (prepareEach ops deltas, .ok ())

def prepareAll :
    List DataMutation → List PreparedDelta → List PreparedDelta × Except HNSQRError Unit
  | [], deltas => (deltas, .ok ())
  | mutation :: rest, deltas =>
    match prepareMutation mutation deltas with
    | (next, .ok ()) => prepareAll rest next
    | (next, .error e) => (next, .error e)

/-- The elements that cannot be prepared are passed over. -/
def prepareEach : List DataMutation → List PreparedDelta → List PreparedDelta
  | [], deltas => deltas
  | mutation :: rest, deltas => prepareEach rest (prepareMutation mutation deltas).1

end
end

abbrev Published := Backends × Except Failure Unit

def publishGraph (mutation : GraphMutation) (backends : Backends) : Published :=
  match backends.graph with
  | none => (backends, .ok ())
  | some graph =>
    let (next, ans) := GraphMutationApplier.apply mutation graph
    ({ backends with graph := some next }, ans.mapError .error)

def publishUpsert (key : String) (vec : VectorEmbedding) (md : Option Metadata)
    (backends : Backends) : Published :=
  let (eng, ans) := backends.engine.applyCommittedUpsert key vec md
  ({ backends with engine := eng }, ans.mapError .error)

def publishSql (table : String) (row : RelationalRow) (isDelete : Bool) (backends : Backends) :
    Published :=
  match backends.sql with
  | none => (backends, .ok ())
  | some sql =>
    match sql.applyCommittedRowMutation table row isDelete with
    | .error e => (backends, .error (.error e))
    | .ok written => ({ backends with sql := some written }, .ok ())

def publishMemory [F32Arithmetic] (userId : String) (fact : EpisodicFact) (backends : Backends) :
    Backends :=
  { backends with memory := backends.memory.map (·.ingestFact userId fact) }

def publishHypercube (coords : CoordinateND) (val : UInt32) (backends : Backends) : Published :=
  match backends.hypercube with
  | none => (backends, .ok ())
  | some space =>
    match space.setVoxel coords val with
    | .error failure => (backends, .error failure)
    | .ok written => ({ backends with hypercube := some written }, .ok ())

def publishOperator (opr : DeclarativeOperator) (expected : Option OperatorLifecycle)
    (commitLsn : Nat) (backends : Backends) : Published :=
  match backends.learning with
  | none => (backends, .ok ())
  | some learning =>
    match learning.discovery.apply opr expected commitLsn with
    | .error e => (backends, .error (.error (.invalidRequest e.display)))
    | .ok catalog =>
      ({ backends with learning := some { learning with discovery := catalog } }, .ok ())

def synchronizeRelation (evolved : Option RelationType) (backends : Backends) : Backends :=
  match evolved with
  | none => backends
  | some rtype =>
    { backends with relations := backends.relations.map (·.synchronizeEvolvedType rtype) }

def publishDiscovery (mutation : DiscoveryStateMutation) (commitLsn : Nat)
    (evolved : Option RelationType) (backends : Backends) : Published :=
  match backends.learning with
  | none => (backends.synchronizeRelation evolved, .ok ())
  | some learning =>
    match learning.governedDiscovery.apply mutation commitLsn with
    | .error e => (backends, .error (.error (.invalidRequest e.display)))
    | .ok governed =>
      let learning := { learning with governedDiscovery := governed }
      (({ backends with learning := some learning }).synchronizeRelation evolved, .ok ())

def publishDelta [F32Arithmetic] : PreparedDelta → Backends → Published
  | .vectorUpsert key vec md, backends => backends.publishUpsert key vec md
  | .vectorDelete key, backends =>
    ({ backends with engine := (backends.engine.applyDeleteUnlogged key).1 }, .ok ())
  | .vectorMetadataPatch key md, backends =>
    ({ backends with engine := backends.engine.applyCommittedMetadataPatch key md }, .ok ())
  | .graph mutation, backends => backends.publishGraph mutation
  | .sql table _ row isDelete, backends => backends.publishSql table row isDelete
  | .agentMemory userId fact, backends => (backends.publishMemory userId fact, .ok ())
  | .hypercube coords val, backends => backends.publishHypercube coords val
  | .discoveryOperator opr expected commitLsn, backends =>
    backends.publishOperator opr expected commitLsn
  | .discoveryState mutation commitLsn evolved, backends =>
    backends.publishDiscovery mutation commitLsn evolved

def publishDeltas [F32Arithmetic] : List PreparedDelta → Backends → Published :=
  Program.run publishDelta

end Backends

namespace ShardStateMachine
open Backends

def withAllParadigms (shardId : Nat) (eng : SegmentedEngine)
    (graph : Option GraphMutationApplier) (sql : Option RelationalSqlEngine)
    (memory : Option AutonomousMemoryConsolidator) (hypercube : Option HypercubeTensorSpace) :
    ShardStateMachine where
  shardId := shardId
  engine := eng
  lastAppliedIndex := 0
  appliedGeneration := 1
  dedupHorizon := .new 65536
  graph := graph
  sql := sql
  memory := memory
  hypercube := hypercube
  learning := none
  relations := none

def new (shardId : Nat) (eng : SegmentedEngine) : ShardStateMachine :=
  withAllParadigms shardId eng none none none none

def withGraph (shardId : Nat) (eng : SegmentedEngine) : ShardStateMachine :=
  withAllParadigms shardId eng (some (.new (.newMutable 1))) none none none

def withLearningDiscovery (learning : LearningSegment) (m : ShardStateMachine) :
    ShardStateMachine :=
  { m with learning := some learning }

def withEvolvedRelationCatalog (relations : RelationSegment) (m : ShardStateMachine) :
    ShardStateMachine :=
  { m with relations := some relations }

variable [F32Arithmetic]

/-- The answer of the horizon to a mutation. -/
def checkMutation (mutation : DataMutation) (m : ShardStateMachine) :
    Except Failure (Option ApplyReceipt) :=
  let (client, clientSeq, retry) := mutation.retryContext
  m.dedupHorizon.check mutation.mutationId client clientSeq retry

def receiptFor (idx : Nat) (mutation : DataMutation) (m : ShardStateMachine) : ApplyReceipt :=
  ⟨mutation.mutationId, idx, m.appliedGeneration + 1, idx⟩

/-- Steps four and five of `apply`: the counters move on and the horizon takes note. -/
def recorded (idx : Nat) (mutation : DataMutation) (published : Backends)
    (m : ShardStateMachine) : ShardStateMachine :=
  let (client, clientSeq, _) := mutation.retryContext
  let receipt := m.receiptFor idx mutation
  { m with
    toBackends := published
    lastAppliedIndex := idx
    appliedGeneration := m.appliedGeneration + 1
    dedupHorizon := m.dedupHorizon.insert receipt client clientSeq }

def apply (idx : Nat) (mutation : DataMutation) (m : ShardStateMachine) :
    ShardStateMachine × Except Failure ApplyReceipt :=
  match m.checkMutation mutation with
  | .error failure => (m, .error failure)
  | .ok (some cached) => (m, .ok cached)
  | .ok none =>
    match m.prepareMutation idx mutation [] with
    | (_, .error e) => (m, .error (.error e))
    | (deltas, .ok ()) =>
      match publishDeltas deltas m.toBackends with
      | (published, .error failure) =>
        ({ m with toBackends := published }, .error failure)
      | (published, .ok ()) =>
        (m.recorded idx mutation published, .ok (m.receiptFor idx mutation))

/-- What a call does.  The state changes only once publication has begun, and the
    horizon and the counters only when it is complete. -/
inductive ApplyEffect (idx : Nat) (mutation : DataMutation) (m : ShardStateMachine) :
    ShardStateMachine × Except Failure ApplyReceipt → Prop where
  | refused (failure : Failure) (checked : m.checkMutation mutation = .error failure) :
      ApplyEffect idx mutation m (m, .error failure)
  | replayed (cached : ApplyReceipt) (checked : m.checkMutation mutation = .ok (some cached)) :
      ApplyEffect idx mutation m (m, .ok cached)
  | unprepared (e : HNSQRError) (deltas : List PreparedDelta)
      (checked : m.checkMutation mutation = .ok none)
      (prep : m.prepareMutation idx mutation [] = (deltas, .error e)) :
      ApplyEffect idx mutation m (m, .error (.error e))
  | halted (failure : Failure) (deltas : List PreparedDelta) (published : Backends)
      (checked : m.checkMutation mutation = .ok none)
      (prep : m.prepareMutation idx mutation [] = (deltas, .ok ()))
      (stopped : publishDeltas deltas m.toBackends = (published, .error failure)) :
      ApplyEffect idx mutation m
        ({ m with toBackends := published }, .error failure)
  | published (deltas : List PreparedDelta) (published : Backends)
      (checked : m.checkMutation mutation = .ok none)
      (prep : m.prepareMutation idx mutation [] = (deltas, .ok ()))
      (done : publishDeltas deltas m.toBackends = (published, .ok ())) :
      ApplyEffect idx mutation m
        (m.recorded idx mutation published, .ok (m.receiptFor idx mutation))

theorem apply_effect (idx : Nat) (mutation : DataMutation) (m : ShardStateMachine) :
    ApplyEffect idx mutation m (m.apply idx mutation) := by
  unfold apply
  cases checked : m.checkMutation mutation with
  | error failure => exact .refused failure checked
  | ok cached =>
    cases cached with
    | some cached => exact .replayed cached checked
    | none =>
      cases prep : m.prepareMutation idx mutation [] with
      | mk deltas ans =>
        cases ans with
        | error e => exact .unprepared e deltas checked prep
        | ok =>
          dsimp only
          cases done : publishDeltas deltas m.toBackends with
          | mk published outc =>
            cases outc with
            | error failure => exact .halted failure deltas published checked prep done
            | ok => exact .published deltas published checked prep done

end ShardStateMachine
end
end HoloSphere.Cluster
