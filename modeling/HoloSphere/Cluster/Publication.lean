import HoloSphere.Cluster.Staging
import HoloSphere.Storage.Evolution

/-! # Publication

Which of the prepared deltas can fail when they are published.  All of them were
validated against the state before the call, and they are published one after
another, so a delta may meet a state that its predecessors have changed.  For
rows, facts, voxels and discovery records the validation still holds then, since
the deltas of one call are independent of each other.  What remains are graph
mutations, and upserts into an engine whose segments hold nothing.
-/

namespace HoloSphere.Cluster
open Discovery Memory Relational Storage Tensor
open HypercubeTensorSpace
open RelationalSqlEngine
section
variable [Primitives]

namespace LearningSegment

def commitOperator (opr : DeclarativeOperator) (commitLsn : Nat) (learning : LearningSegment) :
    LearningSegment :=
  { learning with discovery := learning.discovery.commit opr commitLsn }

def commitState (op : DiscoveryStateMutation) (commitLsn : Nat) (learning : LearningSegment) :
    LearningSegment :=
  { learning with governedDiscovery := learning.governedDiscovery.commit op commitLsn }

end LearningSegment

namespace Backends
open PreparedDelta
variable {backends : Backends}

theorem publishGraph_eq :
    ∃ graph ans, backends.publishGraph op = ({ backends with graph := graph }, ans) := by
  unfold publishGraph
  cases present : backends.graph with
  | none => exact ⟨backends.graph, .ok (), rfl⟩
  | some graph => exact ⟨_, _, rfl⟩

theorem publishSql_eq (ready : Ready commitLsn backends (.sql tbl pk row isDelete)) :
    ∃ sql, backends.publishSql tbl row isDelete = ({ backends with sql := sql }, .ok ()) ∧
      sql.map tables = backends.sql.map tables := by
  unfold publishSql
  cases present : backends.sql with
  | none => exact ⟨backends.sql, rfl, congrArg _ present⟩
  | some sql =>
    obtain ⟨schema, known, keyed⟩ := ready sql present
    obtain ⟨written, applied, same⟩ := applyCommittedRowMutation_ok isDelete known keyed
    refine ⟨some written, ?_, congrArg some same⟩
    simp [applied]

/-- The encoder, if there is one, can address the voxel. -/
def addresses (coords : CoordinateND) (encoder : Option MortonEncoderND) : Bool :=
  encoder.all fun found => found.addresses coords

theorem publishHypercube_eq (ready : Ready commitLsn backends (.hypercube coords val)) :
    (addresses coords (backends.hypercube.map encoder) = true ∧
      ∃ hypercube, backends.publishHypercube coords val =
        ({ backends with hypercube := hypercube }, .ok ()) ∧ hypercube.map shape =
            backends.hypercube.map shape ∧
          hypercube.map encoder = backends.hypercube.map encoder) ∨
      (addresses coords (backends.hypercube.map encoder) = false ∧
        ∃ msg, backends.publishHypercube coords val = (backends, .error (.panic msg))) := by
  unfold publishHypercube addresses
  cases present : backends.hypercube with
  | none => exact .inl ⟨rfl, backends.hypercube, rfl, congrArg _ present, congrArg _ present⟩
  | some space =>
    obtain ⟨sized, hin⟩ := ready space present
    rcases setVoxel_inBounds val sized hin with
      ⟨addressed, written, done, shape, encoder⟩ | ⟨unaddressed, msg, panicked⟩
    · left
      refine ⟨addressed, some written, ?_, congrArg some shape, congrArg some encoder⟩
      simp [done]
    · right
      refine ⟨unaddressed, msg, ?_⟩
      simp [panicked]

theorem publishOperator_eq
    (ready : Ready commitLsn backends (.discoveryOperator opr expected lsn)) :
    backends.publishOperator opr expected lsn = ({ backends with
        learning := backends.learning.map (LearningSegment.commitOperator opr commitLsn) },
        .ok ()) := by
  obtain ⟨rfl, valid⟩ := ready
  unfold publishOperator
  cases present : backends.learning with
  | none =>
    have same : { backends with learning := none } = backends := by rw [← present]
    rw [Option.map_none, same]
  | some learning =>
    simp only [DiscoveryCatalog.apply, valid learning present, bind, Except.bind]
    rfl

theorem publishDiscovery_eq (ready : Ready commitLsn backends (.discoveryState op lsn evolved)) :
    backends.publishDiscovery op lsn evolved = (synchronizeRelation evolved { backends with
        learning := backends.learning.map (LearningSegment.commitState op commitLsn) },
        .ok ()) := by
  obtain ⟨rfl, valid⟩ := ready
  unfold publishDiscovery
  cases present : backends.learning with
  | none =>
    have same : { backends with learning := none } = backends := by rw [← present]
    rw [Option.map_none, same]
  | some learning =>
    simp only [GovernedDiscoveryState.apply, valid learning present, bind, Except.bind]
    rfl

theorem synchronizeRelation_eq :
    ∃ relations, backends.synchronizeRelation evolved = { backends with relations } := by
  cases evolved with
  | none => exact ⟨backends.relations, rfl⟩
  | some rtype => exact ⟨_, rfl⟩

/-- What no delta of a call takes away from the validation of the others. -/
structure Keeps (pre after : Backends) : Prop where
  engine : SegmentedEngine.Evolves pre.engine after.engine
  tables : after.sql.map tables = pre.sql.map tables
  shape : after.hypercube.map shape = pre.hypercube.map shape
  encoder : after.hypercube.map encoder = pre.hypercube.map encoder

theorem Keeps.refl (backends : Backends) : Keeps backends backends := ⟨.refl _, rfl, rfl, rfl⟩

theorem Keeps.trans (fst : Keeps pre middle) (snd : Keeps middle after) : Keeps pre after :=
  ⟨fst.engine.trans snd.engine, snd.tables.trans fst.tables,
    snd.shape.trans fst.shape, snd.encoder.trans fst.encoder⟩

variable [F32Arithmetic]

/-- What publishing leaves for the other deltas. -/
theorem publishDelta_effect (sized : backends.engine.Sized)
    (ready : delta.Ready commitLsn backends) : Keeps backends (publishDelta delta backends).1 ∧
      (delta.isGraph = false → (publishDelta delta backends).1.graph = backends.graph) ∧
      (publishDelta delta backends).1.learning = match delta with
        | .discoveryOperator opr .. => backends.learning.map (.commitOperator opr commitLsn)
        | .discoveryState op .. => backends.learning.map (.commitState op commitLsn)
        | _ => backends.learning := by
  cases delta with
  | vectorUpsert key vec md =>
    exact ⟨⟨(SegmentedEngine.applyCommittedUpsert_effect sized key ready md).evolves, rfl, rfl,
      rfl⟩, fun _ => rfl, rfl⟩
  | vectorDelete key =>
    refine ⟨⟨?_, rfl, rfl, rfl⟩, fun _ => rfl, rfl⟩
    exact (SegmentedEngine.evolves_metadata _).trans (SegmentedEngine.evolves_deleteInternal key _)
  | vectorMetadataPatch key md =>
    exact ⟨⟨SegmentedEngine.evolves_metadata _, rfl, rfl, rfl⟩, fun _ => rfl, rfl⟩
  | graph op =>
    obtain ⟨graph, ans, pub⟩ := publishGraph_eq
    rw [publishDelta, pub]
    exact ⟨⟨.refl _, rfl, rfl, rfl⟩, (by cases ·), rfl⟩
  | sql =>
    obtain ⟨sql, pub, same⟩ := publishSql_eq ready
    rw [publishDelta, pub]
    exact ⟨⟨.refl _, same, rfl, rfl⟩, fun _ => rfl, rfl⟩
  | agentMemory => exact ⟨⟨.refl _, rfl, rfl, rfl⟩, fun _ => rfl, rfl⟩
  | hypercube =>
    rw [publishDelta]
    rcases publishHypercube_eq ready with
      ⟨-, space, pub, shape, encoder⟩ | ⟨-, msg, panicked⟩
    · rw [pub]
      exact ⟨⟨.refl _, rfl, shape, encoder⟩, fun _ => rfl, rfl⟩
    · rw [panicked]
      exact ⟨.refl _, fun _ => rfl, rfl⟩
  | discoveryOperator =>
    rw [publishDelta, publishOperator_eq ready]
    exact ⟨⟨.refl _, rfl, rfl, rfl⟩, fun _ => rfl, rfl⟩
  | discoveryState op lsn evolved =>
    rw [publishDelta, publishDiscovery_eq ready]
    obtain ⟨relations, synchronized⟩ := synchronizeRelation_eq
    rw [synchronized]
    exact ⟨⟨.refl _, rfl, rfl, rfl⟩, fun _ => rfl, rfl⟩

/-- A delta that was valid stays valid when an independent one is published. -/
theorem ready_publishDelta (sized : backends.engine.Sized)
    (ready : delta.Ready commitLsn backends) (valid : other.Ready commitLsn backends)
    (independent : Independent delta other) :
    other.Ready commitLsn (publishDelta delta backends).1 := by
  obtain ⟨keeps, -, learned⟩ := publishDelta_effect sized ready
  cases other with
  | vectorUpsert key vec md => exact Eq.trans valid keeps.engine.dimension.symm
  | sql tbl pk row isDelete =>
    intro sql present
    have tables := keeps.tables
    rw [present] at tables
    obtain ⟨old, pre, same⟩ := Option.map_eq_some_iff.mp tables.symm
    obtain ⟨schema, known, keyed⟩ := valid old pre
    exact ⟨schema, by rwa [← same], keyed⟩
  | hypercube coords val =>
    intro space present
    have shape := keeps.shape
    rw [present] at shape
    obtain ⟨old, pre, same⟩ := Option.map_eq_some_iff.mp shape.symm
    have bounds : old.outOfBounds coords = space.outOfBounds coords := by
      simp [HypercubeTensorSpace.outOfBounds, same]
    rw [← same, ← bounds]
    exact valid old pre
  | discoveryOperator opr expected lsn =>
    obtain ⟨rfl, acc⟩ := valid
    refine ⟨rfl, ?_⟩
    intro learning present
    rw [learned] at present
    cases delta with
    | discoveryOperator fst =>
      obtain ⟨old, pre, rfl⟩ := Option.map_eq_some_iff.mp present
      exact (DiscoveryCatalog.prevalidate_commit independent _).trans (acc old pre)
    | discoveryState =>
      obtain ⟨old, pre, rfl⟩ := Option.map_eq_some_iff.mp present
      exact acc old pre
    | _ => exact acc learning present
  | discoveryState op lsn evolved =>
    obtain ⟨rfl, acc⟩ := valid
    refine ⟨rfl, ?_⟩
    intro learning present
    rw [learned] at present
    cases delta with
    | discoveryOperator fst =>
      obtain ⟨old, pre, rfl⟩ := Option.map_eq_some_iff.mp present
      exact acc old pre
    | discoveryState fst =>
      obtain ⟨old, pre, rfl⟩ := Option.map_eq_some_iff.mp present
      exact GovernedDiscoveryState.prevalidate_commit independent (ready.2 old pre) (acc old pre)
    | _ => exact acc learning present
  | _ => trivial

end Backends
end
end HoloSphere.Cluster
