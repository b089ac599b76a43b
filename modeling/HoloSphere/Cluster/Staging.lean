import HoloSphere.Cluster.StateMachine

/-! # Staged deltas

What preparation guarantees of the deltas of a call.  Each of them was validated
against the state before the call, and no two of them are about the same operator
or the same discovery key.
-/

namespace HoloSphere.Cluster
open Discovery Memory Relational
section
variable [Primitives]

namespace PreparedDelta

/-- The delta is valid in this state, for a call at this index. -/
def Ready (commitLsn : Nat) (backends : Backends) : PreparedDelta → Prop
  | .vectorUpsert _ vec _ => vec.dimension = backends.engine.dimension
  | .sql tbl pk row _ => ∀ sql, backends.sql = some sql → ∃ schema, sql.tables tbl = some schema ∧
        RelationalSqlEngine.primaryKeyOf schema row = .ok pk
  | .hypercube coords _ => ∀ space, backends.hypercube = some space →
      coords.length = space.shape.length ∧ space.outOfBounds coords = none
  | .discoveryOperator opr expected lsn => lsn = commitLsn ∧
      ∀ learning, backends.learning = some learning →
        learning.discovery.prevalidate opr expected commitLsn = .ok ()
  | .discoveryState mutation lsn _ => lsn = commitLsn ∧
      ∀ learning, backends.learning = some learning →
        learning.governedDiscovery.prevalidate mutation commitLsn = .ok ()
  | _ => True

/-- The two deltas are not about the same operator or the same discovery key. -/
def Independent : PreparedDelta → PreparedDelta → Prop
  | .discoveryOperator fst _ _, .discoveryOperator snd _ _ => fst.id ≠ snd.id
  | .discoveryState fst _ _, .discoveryState snd _ _ => fst.conflictKey ≠ snd.conflictKey
  | _, _ => True

def isGraph : PreparedDelta → Bool
  | .graph _ => true
  | _ => false

def isDiscovery : PreparedDelta → Bool
  | .discoveryOperator .. => true
  | .discoveryState .. => true
  | _ => false

theorem independent_of_plain {delta : PreparedDelta} (plain : delta.isDiscovery = false) :
    Independent other delta := by
  cases delta with
  | discoveryOperator | discoveryState => cases plain
  | _ => cases other <;> trivial

/-- What preparation guarantees of the list that it builds. -/
structure Staged (commitLsn : Nat) (backends : Backends) (deltas : List PreparedDelta) : Prop where
  ready : ∀ delta ∈ deltas, delta.Ready commitLsn backends
  independent : deltas.Pairwise Independent

end PreparedDelta
namespace Backends
open PreparedDelta

theorem Staged.nil : Staged commitLsn backends [] := ⟨by simp, .nil⟩

/-- A staged delta is valid and independent of those in the list. -/
def Stageable (commitLsn : Nat) (backends : Backends) (deltas : List PreparedDelta)
    (ans : Except HNSQRError PreparedDelta) : Prop :=
  ∀ delta, ans = .ok delta →
    delta.Ready commitLsn backends ∧ ∀ staged ∈ deltas, Independent staged delta

theorem staged_stage (staged : Staged commitLsn backends deltas)
    (stageable : Stageable commitLsn backends deltas ans) :
    Staged commitLsn backends (stage deltas ans).1 := by
  cases ans with
  | error e => exact staged
  | ok delta =>
    obtain ⟨ready, separate⟩ := stageable delta rfl
    constructor
    · intro other mem
      rcases List.mem_append.mp mem with earlier | last
      · exact staged.ready other earlier
      · cases List.mem_singleton.mp last
        exact ready
    · apply List.pairwise_append.mpr
      refine ⟨staged.independent, List.pairwise_singleton .., ?_⟩
      intro other earlier last isLast
      cases List.mem_singleton.mp isLast
      exact separate other earlier

theorem stageable_upsert :
    Stageable commitLsn backends deltas (backends.stageUpsert key vec md) := by
  intro delta
  fun_cases backends.stageUpsert key vec md <;> rintro ⟨⟩
  exact ⟨not_not.mp ‹_›, fun staged _ => independent_of_plain rfl⟩

theorem stageable_graph : Stageable commitLsn backends deltas (backends.stageGraph mutation) := by
  intro delta
  fun_cases backends.stageGraph mutation with
  | case1 => exact nofun
  | case2 graph present =>
    cases graph.prevalidate mutation with
    | error e => exact nofun
    | ok =>
      rintro ⟨⟩
      exact ⟨trivial, fun staged _ => independent_of_plain rfl⟩

theorem stageable_sql :
    Stageable commitLsn backends deltas (backends.stageSql tbl row isDelete) := by
  intro delta
  fun_cases backends.stageSql tbl row isDelete with
  | case1 | case2 => exact nofun
  | case3 sql present schema known =>
    cases keyed : RelationalSqlEngine.primaryKeyOf schema row with
    | error e => exact nofun
    | ok pk =>
      intro acc
      simp only [bind, Except.bind] at acc
      split at acc <;> cases acc
      refine ⟨fun found same => ?_, fun staged _ => independent_of_plain rfl⟩
      cases present.symm.trans same
      exact ⟨schema, known, keyed⟩

theorem stageable_memory [F32Arithmetic] :
    Stageable commitLsn backends deltas (backends.stageMemory userId fact) := by
  intro delta
  fun_cases backends.stageMemory userId fact <;> rintro ⟨⟩
  exact ⟨trivial, fun staged _ => independent_of_plain rfl⟩

theorem stageable_hypercube :
    Stageable commitLsn backends deltas (backends.stageHypercube coords val) := by
  intro delta
  fun_cases backends.stageHypercube coords val <;> rintro ⟨⟩
  case case4 present sized hin =>
  refine ⟨fun found same => ?_, fun staged _ => independent_of_plain rfl⟩
  cases present.symm.trans same
  exact ⟨not_not.mp sized, hin⟩

theorem stageable_operator :
    Stageable commitLsn backends deltas (backends.stageOperator opr expected commitLsn deltas) := by
  intro delta
  fun_cases backends.stageOperator opr expected commitLsn deltas <;> rintro ⟨⟩
  case case5 unstaged learning present installed valid =>
  refine ⟨⟨rfl, fun found same => ?_⟩, fun staged mem => ?_⟩
  · cases present.symm.trans same
    exact valid
  · cases staged with
    | discoveryOperator other =>
      intro same
      exact unstaged (List.any_eq_true.mpr ⟨_, mem, by simp [stagesOperator, same]⟩)
    | _ => trivial

theorem stageable_discovery :
    Stageable commitLsn backends deltas (backends.stageDiscovery mutation commitLsn deltas) := by
  intro delta
  fun_cases backends.stageDiscovery mutation commitLsn deltas with
  | case1 | case2 | case3 => exact nofun
  | case4 unstaged learning present valid =>
    cases backends.prevalidateRelation (evolvedRelationType mutation) with
    | error e => exact nofun
    | ok =>
      rintro ⟨⟩
      refine ⟨⟨rfl, fun found same => ?_⟩, fun staged mem => ?_⟩
      · cases present.symm.trans same
        exact valid
      · cases staged with
        | discoveryState other =>
          intro same
          exact unstaged (List.any_eq_true.mpr ⟨_, mem, by simp [stagesKey, same]⟩)
        | _ => trivial

section
variable [F32Arithmetic]

mutual

theorem staged_prepareMutation : ∀ (mutation : DataMutation) (deltas : List PreparedDelta),
    Staged commitLsn backends deltas →
      Staged commitLsn backends (backends.prepareMutation commitLsn mutation deltas).1
  | .upsert .., _, staged => staged_stage staged (stageable_upsert)
  | .delete .., _, staged =>
    staged_stage staged fun _ acc => by
      cases acc
      exact ⟨trivial, fun other _ => independent_of_plain rfl⟩
  | .metadataPatch .., _, staged =>
    staged_stage staged fun _ acc => by
      cases acc
      exact ⟨trivial, fun other _ => independent_of_plain rfl⟩
  | .graph .., _, staged => staged_stage staged (stageable_graph)
  | .sql .., _, staged => staged_stage staged (stageable_sql)
  | .agentMemory .., _, staged => staged_stage staged (stageable_memory)
  | .hypercube .., _, staged => staged_stage staged (stageable_hypercube)
  | .discoveryOperator .., _, staged => staged_stage staged (stageable_operator)
  | .discoveryState .., _, staged => staged_stage staged (stageable_discovery)
  | .batch _ ops, deltas, staged => staged_prepareAll ops deltas staged
  | .faultTolerantBatch _ ops, deltas, staged => staged_prepareEach ops deltas staged

theorem staged_prepareAll : ∀ (ops : List DataMutation) (deltas : List PreparedDelta),
    Staged commitLsn backends deltas →
      Staged commitLsn backends (backends.prepareAll commitLsn ops deltas).1
  | [], _, staged => staged
  | mutation :: rest, deltas, staged => by
      have fst := staged_prepareMutation mutation deltas staged
      rw [prepareAll]
      generalize backends.prepareMutation commitLsn mutation deltas = ans at fst ⊢
      obtain ⟨next, res⟩ := ans
      cases res with
      | ok => exact staged_prepareAll rest next fst
      | error e => exact fst

theorem staged_prepareEach : ∀ (ops : List DataMutation) (deltas : List PreparedDelta),
    Staged commitLsn backends deltas →
      Staged commitLsn backends (backends.prepareEach commitLsn ops deltas)
  | [], _, staged => staged
  | mutation :: rest, deltas, staged =>
    staged_prepareEach rest _ (staged_prepareMutation mutation deltas staged)

end
end
end Backends
end
end HoloSphere.Cluster
