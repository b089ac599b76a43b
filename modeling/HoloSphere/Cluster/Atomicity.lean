import HoloSphere.Cluster.ExactlyOnce
import HoloSphere.Cluster.Forecast
import HoloSphere.Graph.Adjacency

/-! # Failed calls

When a call of `apply` that returns an error leaves the state machine exactly as it
was.  An error of the horizon or of preparation always does.  An error of
publication does so if the step that fails is a graph command and the steps before it
have nothing to change: what they change is not taken back.  Both can be foretold from
the state before the call.
-/

namespace HoloSphere.Cluster
open Discovery HoloSphere.Graph HoloSphere.Relation Memory Program Step
namespace ShardStateMachine
open Backends
section
variable [Primitives] [F32Arithmetic]

/-- The state machines that the constructors and calls of `apply` produce.  Apart from
    the vector engine, a backend may have any content when it is handed over. -/
inductive Reachable : ShardStateMachine → Prop where
  | withAllParadigms (shardId dim maxMutableCapacity : Nat)
      (graph : Option GraphMutationApplier) (sql : Option Relational.RelationalSqlEngine)
      (memory : Option AutonomousMemoryConsolidator)
      (hypercube : Option Tensor.HypercubeTensorSpace) :
      Reachable (.withAllParadigms shardId (.new dim maxMutableCapacity) graph sql memory
        hypercube)
  | withLearningDiscovery {m : ShardStateMachine} (learning : LearningSegment)
      (reachable : Reachable m) : Reachable (m.withLearningDiscovery learning)
  | withEvolvedRelationCatalog {m : ShardStateMachine} (relations : RelationSegment)
      (reachable : Reachable m) : Reachable (m.withEvolvedRelationCatalog relations)
  | apply {m : ShardStateMachine} (idx : Nat) (op : DataMutation)
      (reachable : Reachable m) : Reachable (m.apply idx op).1

/-- A call that returns an error leaves every backend, the counters and the horizon as
    they were. -/
def Atomic (idx : Nat) (op : DataMutation) (m : ShardStateMachine) : Prop :=
  ∀ e, (m.apply idx op).2 = .error (.error e) → (m.apply idx op).1 = m

/-- The steps that a call sets out to perform: none if the horizon answers or refuses it,
    or if it cannot be prepared. -/
def script (idx : Nat) (op : DataMutation) (m : ShardStateMachine) : List Step :=
  match m.checkMutation op, m.prepareMutation idx op [] with
  | .ok none, (deltas, .ok ()) => deltas.flatMap PreparedDelta.steps
  | _, _ => []

/-- A step that is bound to be refused, as the forecast has it, is a graph command, and
    the steps before it are idle. -/
def RefusalsComeFirst (idx : Nat) (op : DataMutation) (m : ShardStateMachine) : Prop :=
  ∀ pre step after forecast, m.script idx op = pre ++ step :: after →
    reach pre m.forecast = some forecast → step.prospect forecast = .refused →
      step.isGraph = true ∧ ∀ earlier ∈ pre, earlier.idle m.forecast = true

variable {m : ShardStateMachine}

theorem script_of_prepared (checked : m.checkMutation op = .ok none)
    (prep : m.prepareMutation idx op [] = (deltas, .ok ())) :
    m.script idx op = deltas.flatMap PreparedDelta.steps := by
  simp [script, checked, prep]

theorem onCourse_of_prepared (sized : m.engine.Sized)
    (prep : m.prepareMutation idx op [] = (deltas, .ok ())) :
    OnCourse idx m.toBackends m.toBackends (deltas.flatMap PreparedDelta.steps) := by
  have staged : PreparedDelta.Staged idx m.toBackends
      (m.prepareMutation idx op []).1 :=
    staged_prepareMutation op [] Staged.nil
  rw [prep] at staged
  exact onCourse_of_staged staged sized

theorem sized_of_published (sized : m.engine.Sized)
    (prep : m.prepareMutation idx op [] = (deltas, .ok ())) :
    (publishDeltas deltas m.toBackends).1.engine.Sized := by
  rw [publishDeltas_eq_run]
  exact (onCourse_of_prepared sized prep).keeps_run.engine.sized sized

theorem sized_of_reachable (reachable : Reachable m) : m.engine.Sized := by
  induction reachable with
  | withAllParadigms => exact .new ..
  | withLearningDiscovery learning reachable ih => exact ih
  | withEvolvedRelationCatalog relations reachable ih => exact ih
  | @apply m idx op reachable ih =>
    have eff := apply_effect idx op m
    generalize m.apply idx op = ans at eff
    cases eff with
    | refused | replayed | unprepared => exact ih
    | halted failure deltas published _ prep stopped =>
      have sized := sized_of_published ih prep
      rw [stopped] at sized
      exact sized
    | published deltas published _ prep done =>
      have sized := sized_of_published ih prep
      rw [done] at sized
      exact sized

/-- A call that fails in publication fails at the first step that is not admissible. -/
theorem atomic_of_refusalsComeFirst (sized : m.engine.Sized)
    (fst : m.RefusalsComeFirst idx op) : m.Atomic idx op := by
  intro e failed
  have eff := apply_effect idx op m
  generalize m.apply idx op = ans at eff failed
  cases eff with
  | refused => rfl
  | replayed => cases failed
  | unprepared => rfl
  | published => cases failed
  | halted failure deltas published checked prep stopped =>
    cases failed
    have course := onCourse_of_prepared sized prep
    rw [publishDeltas_eq_run] at stopped
    obtain ⟨pre, step, after, planned, done, fails⟩ := run_error_split (congrArg Prod.snd stopped)
    rw [planned] at course stopped
    have here := course.run done
    have turn := turn here.sized (here.ready step List.mem_cons_self)
    generalize prospect : step.prospect
      (Program.run perform pre m.toBackends).1.forecast = kind at turn
    cases turn with
    | performed performed => cases performed.symm.trans fails
    | panics message panicked => cases panicked.symm.trans fails
    | refused found failed graph =>
      have script := script_of_prepared checked prep
      obtain ⟨isGraph, idle⟩ := fst pre step after _ (script.trans planned)
        (course.reach_of_completes done) prospect
      rw [run_of_split done fails] at stopped
      have same : published = m.toBackends := by
        rw [← run_idle idle, ← graph isGraph, stopped]
      rw [same]

/-- An error leaves the state as it was if every step that is refused at its turn is a graph
    command which comes before any change. -/
theorem failed_call_is_atomic (m : ShardStateMachine) (reachable : Reachable m)
    (idx : Nat) (op : DataMutation) (fst : m.RefusalsComeFirst idx op) : m.Atomic idx op :=
  atomic_of_refusalsComeFirst (sized_of_reachable reachable) fst

end

/-- A shard with a graph that holds the node `a`. -/
def graphShard : ShardStateMachine :=
  ((withGraph 0 (.new 0 1)).apply 1 (.graph "create" (.createNode "a" [] ∅ none))).1

theorem graphShard_reachable : Reachable graphShard :=
  .apply 1 _ (.withAllParadigms 0 0 1 (some (.new (.newMutable 1))) none none none)

/-- The node is deleted and then labelled: both are valid before the call. -/
def deleteThenLabel : DataMutation :=
  .batch "batch" [.graph "delete" (.deleteNode "a"), .graph "label" (.setNodeLabels "a" [1])]

/-- A shard with a sealed graph that holds the node `a`. -/
def sealedShard : ShardStateMachine :=
  let app := (GraphMutationApplier.apply (.createNode "a" [] ∅ none) (.new (.newMutable 1))).1
  .withAllParadigms 0 (.new 0 1) (some { app with generation := app.generation.sealGeneration.1 })
    none none none

theorem sealedShard_reachable : Reachable sealedShard := .withAllParadigms ..

/-- The node is created again, which changes nothing, and a relationship is refused. -/
def createThenRelate : DataMutation :=
  .batch "batch" [.graph "create" (.createNode "a" [] ∅ none),
    .graph "relate" (.createRelationship 1 "a" "a" 0 ∅ 0)]

theorem createThenRelate_refusals : sealedShard.RefusalsComeFirst 1 createThenRelate := by
  intro pre step after forecast planned reached refused
  have script : sealedShard.script 1 createThenRelate =
      [.graph (.single (.createNode "a" [] ∅ none) rfl),
        .graph (.single (.createRelationship 1 "a" "a" 0 ∅ 0) rfl)] := rfl
  rw [script] at planned
  cases pre with
  | nil =>
    cases planned
    cases reached
    cases refused
  | cons fst rest =>
    cases rest with
    | nil =>
      cases planned
      refine ⟨rfl, fun earlier mem => ?_⟩
      cases List.mem_singleton.mp mem
      rfl
    | cons second rest => cases rest <;> cases planned

theorem refused_relationship_is_atomic : Reachable sealedShard ∧
    (sealedShard.apply 1 createThenRelate).2 =
      .error (.error (.internal "Graph generation is sealed; cannot write")) ∧
    sealedShard.Atomic 1 createThenRelate :=
  ⟨sealedShard_reachable, rfl, failed_call_is_atomic sealedShard sealedShard_reachable 1
    createThenRelate createThenRelate_refusals⟩

/-- The call returns an error, and the node is gone. -/
theorem failed_batch_keeps_deletion :
    Reachable graphShard ∧ ¬ graphShard.Atomic 2 deleteThenLabel := by
  refine ⟨graphShard_reachable, ?_⟩
  intro atomic
  have failed : (graphShard.apply 2 deleteThenLabel).2 = .error (.error (.nodeNotFound "a")) := rfl
  have unchanged := atomic _ failed
  have node := congrArg (fun m : ShardStateMachine =>
    m.graph.bind fun graph => graph.nodeIdMap "a") unchanged
  have gone : ((graphShard.apply 2 deleteThenLabel).1.graph.bind fun graph =>
    graph.nodeIdMap "a") = none := rfl
  have there : (graphShard.graph.bind fun graph => graph.nodeIdMap "a") = some 0 := rfl
  cases gone.symm.trans (node.trans there)

end ShardStateMachine
end HoloSphere.Cluster
