import HoloSphere.Cluster.Publication

/-! # Forecasts

Publication as a script of steps: a graph mutation is written out into its commands,
and every other delta is a step of its own.  A forecast is the small part of the
state that decides whether the steps are performed, and it follows them without the
state: the directory of the graph, the capacity of a segment and the encoder of the
hypercube.
-/

namespace HoloSphere.Cluster
open Discovery HoloSphere.Graph Memory Program Storage Tensor List
section
variable [Primitives]

inductive Step where
  | graph (cmd : GraphCommand)
  | delta (delta : PreparedDelta) (notGraph : delta.isGraph = false)

def PreparedDelta.steps : PreparedDelta → List Step
  | .graph op => op.commands.map .graph
  | .vectorUpsert key vec md => [.delta (.vectorUpsert key vec md) rfl]
  | .vectorDelete key => [.delta (.vectorDelete key) rfl]
  | .vectorMetadataPatch key md => [.delta (.vectorMetadataPatch key md) rfl]
  | .sql tbl pk row isDelete => [.delta (.sql tbl pk row isDelete) rfl]
  | .agentMemory userId fact => [.delta (.agentMemory userId fact) rfl]
  | .hypercube coords val => [.delta (.hypercube coords val) rfl]
  | .discoveryOperator opr expected commitLsn =>
    [.delta (.discoveryOperator opr expected commitLsn) rfl]
  | .discoveryState op commitLsn evolved =>
    [.delta (.discoveryState op commitLsn evolved) rfl]

structure Forecast where
  capacity : Nat
  directory : Option Graph.Directory
  encoder : Option MortonEncoderND

def Backends.forecast (backends : Backends) : Forecast where
  capacity := backends.engine.maxMutableCapacity
  directory := backends.graph.map GraphMutationApplier.directory
  encoder := backends.hypercube.map HypercubeTensorSpace.encoder

/-- What becomes of a step at its turn. -/
inductive Prospect where
  | performed
  | refused
  | panics
  deriving DecidableEq

namespace Step
open Backends

def isGraph : Step → Bool
  | .graph _ => true
  | .delta _ _ => false

/-- Only graph commands, upserts and voxels need anything. -/
def prospect (forecast : Forecast) : Step → Prospect
  | .graph cmd =>
    if forecast.directory.all fun dir => cmd.admissible dir then .performed
    else .refused
  | .delta (.vectorUpsert ..) _ => if 0 < forecast.capacity then .performed else .refused
  | .delta (.hypercube coords _) _ =>
    if addresses coords forecast.encoder then .performed else .panics
  | .delta _ _ => .performed

/-- A graph command without an effect. -/
def idle (forecast : Forecast) : Step → Bool
  | .graph cmd => forecast.directory.all fun dir => cmd.idle dir
  | .delta _ _ => false

def after (forecast : Forecast) : Step → Forecast
  | .graph cmd =>
    { forecast with
      directory := forecast.directory.map fun dir => cmd.after dir }
  | .delta _ _ => forecast

def reach : List Step → Forecast → Option Forecast
  | [], forecast => some forecast
  | step :: rest, forecast =>
    if step.prospect forecast = .performed then reach rest (step.after forecast) else none

def performGraph (cmd : GraphCommand) (backends : Backends) : Published :=
  match backends.graph with
  | none => (backends, .ok ())
  | some app =>
    ({ backends with graph := some (cmd.perform app).1 }, (cmd.perform app).2.mapError .error)

theorem performGraph_none {backends : Backends} (absent : backends.graph = none) :
    performGraph cmd backends = (backends, .ok ()) := by
  simp [performGraph, absent]

theorem performGraph_some {backends : Backends} (present : backends.graph = some app) :
    performGraph cmd backends = ({ backends with graph := some (cmd.perform app).1 },
        (cmd.perform app).2.mapError .error) := by
  simp [performGraph, present]

theorem performGraph_eq :
    ∃ left, (performGraph cmd backends).1 = { backends with graph := left } := by
  cases present : backends.graph with
  | none => exact ⟨backends.graph, by rw [performGraph_none present]⟩
  | some app => exact ⟨_, by rw [performGraph_some present]⟩

def Ready (commitLsn : Nat) (backends : Backends) : Step → Prop
  | .graph _ => True
  | .delta prep _ => prep.Ready commitLsn backends

def Independent : Step → Step → Prop
  | .delta fst _, .delta snd _ => PreparedDelta.Independent fst snd
  | _, _ => True

theorem forecast_of_keeps {pre after : Backends} (keeps : Keeps pre after)
    (graph : after.graph = pre.graph) : after.forecast = pre.forecast := by
  simp [Backends.forecast, keeps.engine.capacity, keeps.encoder, graph]

section
variable [F32Arithmetic]

def perform : Step → Backends → Published
  | .graph cmd, backends => performGraph cmd backends
  | .delta prep _, backends => publishDelta prep backends

theorem run_graph_none {backends : Backends} (absent : backends.graph = none)
    (cmds : List GraphCommand) :
    run perform (cmds.map .graph) backends = (backends, .ok ()) := by
  induction cmds with
  | nil => rfl
  | cons cmd rest ih =>
    have skipped : perform (.graph cmd) backends = (backends, .ok ()) := performGraph_none absent
    rw [map_cons, run_cons_ok (by rw [skipped]), skipped]
    exact ih

theorem run_graph_some {backends : Backends} (present : backends.graph = some app) :
    run perform (cmds.map .graph) backends =
      ({ backends with graph := some (run GraphCommand.perform cmds app).1 },
        (run GraphCommand.perform cmds app).2.mapError .error) := by
  induction cmds generalizing backends app with
  | nil =>
    simp only [map_nil, run_nil, ← present]
    rfl
  | cons cmd rest ih =>
    have performed : perform (.graph cmd) backends =
        ({ backends with graph := some (cmd.perform app).1 },
          (cmd.perform app).2.mapError .error) :=
      performGraph_some present
    cases outc : (cmd.perform app).2 with
    | ok =>
      have done : (perform (.graph cmd) backends).2 = .ok () := by
        rw [performed, outc]
        rfl
      rw [map_cons, run_cons_ok done, run_cons_ok outc, performed]
      exact ih rfl
    | error e =>
      have failed : (perform (.graph cmd) backends).2 = .error (.error e) := by
        rw [performed, outc]
        rfl
      rw [map_cons, run_cons_error failed, run_cons_error outc, performed]

theorem publishDelta_eq_run (prep : PreparedDelta) (backends : Backends) :
    publishDelta prep backends = run perform prep.steps backends := by
  cases prep with
  | graph op =>
    rw [publishDelta, publishGraph, PreparedDelta.steps]
    cases present : backends.graph with
    | none => exact (run_graph_none present _).symm
    | some app => rw [run_graph_some present, ← apply_eq_run]
  | _ => exact (run_singleton).symm

theorem publishDeltas_eq_run :
    publishDeltas deltas backends = run perform (deltas.flatMap PreparedDelta.steps) backends :=
  run_flatMap publishDelta_eq_run deltas backends

variable {step : Step}

theorem keeps_perform (sized : backends.engine.Sized) (ready : step.Ready commitLsn backends) :
    Keeps backends (step.perform backends).1 := by
  cases step with
  | graph cmd =>
    obtain ⟨left, performed⟩ := performGraph_eq
    rw [perform, performed]
    exact ⟨.refl _, rfl, rfl, rfl⟩
  | delta prep notGraph => exact (publishDelta_effect sized ready).1

theorem ready_perform (sized : backends.engine.Sized) (ready : step.Ready commitLsn backends)
    (valid : other.Ready commitLsn backends) (independent : Independent step other) :
    other.Ready commitLsn (step.perform backends).1 := by
  cases other with
  | graph cmd => trivial
  | delta prep notGraph =>
    cases step with
    | graph cmd =>
      obtain ⟨left, performed⟩ := performGraph_eq
      rw [perform, performed]
      cases prep <;> exact valid
    | delta fst => exact ready_publishDelta sized ready valid independent

theorem perform_idle (idle : step.idle backends.forecast = true) :
    (step.perform backends).1 = backends := by
  cases step with
  | delta prep notGraph => cases idle
  | graph cmd =>
    rw [perform]
    cases present : backends.graph with
    | none => rw [performGraph_none present]
    | some app =>
      have still : cmd.idle app.directory = true := by
        simpa [Step.idle, Backends.forecast, present] using idle
      rw [performGraph_some present, GraphCommand.perform_idle still, ← present]

theorem run_idle {steps : List Step} (idle : ∀ step ∈ steps, step.idle backends.forecast = true) :
    (run perform steps backends).1 = backends := by
  induction steps with
  | nil => rfl
  | cons step rest ih =>
    have same := perform_idle (idle step mem_cons_self)
    cases performed : (step.perform backends).2 with
    | ok =>
      rw [run_cons_ok performed, same]
      exact ih (forall_mem_cons.mp idle).2
    | error e => rw [run_cons_error performed, same]

/-- What a step does at its turn, by its prospect.  A graph command that is refused
    leaves everything as it is. -/
inductive Turn (step : Step) (backends : Backends) : Prospect → Prop where
  | performed (done : (step.perform backends).2 = .ok ())
      (foretold : (step.perform backends).1.forecast = step.after backends.forecast) :
      Turn step backends .performed
  | refused (e : HNSQRError) (failed : (step.perform backends).2 = .error (.error e))
      (graph : step.isGraph = true → (step.perform backends).1 = backends) :
      Turn step backends .refused
  | panics (msg : String) (failed : (step.perform backends).2 = .error (.panic msg)) :
      Turn step backends .panics

theorem turn_graph : Turn (.graph cmd) backends ((Step.graph cmd).prospect backends.forecast) := by
  cases present : backends.graph with
  | none =>
    have skipped : perform (.graph cmd) backends = (backends, .ok ()) := performGraph_none present
    have nothing : backends.forecast.directory = none := by
      simp [Backends.forecast, present]
    rw [prospect, nothing]
    refine .performed (by rw [skipped]) ?_
    rw [skipped, after, nothing]
    exact congrArg (fun dir => { backends.forecast with directory := dir }) nothing
  | some app =>
    have performed : perform (.graph cmd) backends =
        ({ backends with graph := some (cmd.perform app).1 },
          (cmd.perform app).2.mapError .error) :=
      performGraph_some present
    have dir : backends.forecast.directory = some app.directory := by
      simp [Backends.forecast, present]
    have eff := cmd.perform_effect app
    rw [prospect, dir, Option.all_some]
    cases admitted : cmd.admissible app.directory with
    | true =>
      obtain ⟨done, foretold⟩ := eff.succeeds admitted
      refine .performed (by rw [performed, done]; rfl) ?_
      rw [performed, after, dir, Option.map_some, ← foretold]
      rfl
    | false =>
      obtain ⟨same, e, failed⟩ := eff.refused admitted
      refine .refused e (by rw [performed, failed]; rfl) ?_
      intro _
      rw [performed, same, ← present]

theorem turn_delta {prep : PreparedDelta} {notGraph : prep.isGraph = false}
    (sized : backends.engine.Sized) (ready : prep.Ready commitLsn backends) :
    Turn (.delta prep notGraph) backends
      ((Step.delta prep notGraph).prospect backends.forecast) := by
  obtain ⟨keeps, graph, -⟩ := publishDelta_effect sized ready
  have foretold := forecast_of_keeps keeps (graph notGraph)
  cases prep with
  | graph => cases notGraph
  | vectorUpsert key vec md =>
    have eff := SegmentedEngine.applyCommittedUpsert_effect sized key ready md
    rw [prospect]
    split
    next room =>
        refine .performed ?_ foretold
        simp only [perform, publishDelta, publishUpsert, eff.succeeds room]
        rfl
    next full =>
        obtain ⟨e, failed⟩ := eff.fails (Nat.eq_zero_of_not_pos full)
        refine .refused e ?_ fun isGraph => by cases isGraph
        simp only [perform, publishDelta, publishUpsert, failed]
        rfl
  | hypercube coords val =>
    have encoder : backends.forecast.encoder =
      backends.hypercube.map HypercubeTensorSpace.encoder := rfl
    rw [prospect, encoder]
    rcases publishHypercube_eq ready with
      ⟨addressed, space, pub, -⟩ | ⟨unaddressed, msg, panicked⟩
    · rw [addressed]
      exact .performed (congrArg Prod.snd pub) foretold
    · rw [unaddressed]
      exact .panics msg (congrArg Prod.snd panicked)
  | sql =>
    obtain ⟨sql, pub, -⟩ := publishSql_eq ready
    exact .performed (congrArg Prod.snd pub) foretold
  | discoveryOperator =>
    exact .performed (congrArg Prod.snd (publishOperator_eq ready)) foretold
  | discoveryState =>
    exact .performed (congrArg Prod.snd (publishDiscovery_eq ready)) foretold
  | _ => exact .performed rfl foretold

theorem turn (sized : backends.engine.Sized) (ready : step.Ready commitLsn backends) :
    Turn step backends (step.prospect backends.forecast) := by
  cases step with
  | graph cmd => exact turn_graph
  | delta prep notGraph => exact turn_delta sized ready

end

section

theorem steps_ready {delta : PreparedDelta} (ready : delta.Ready commitLsn backends) :
    ∀ step ∈ delta.steps, step.Ready commitLsn backends := by
  cases delta with
  | graph op =>
    intro step mem
    obtain ⟨cmd, -, rfl⟩ := mem_map.mp mem
    trivial
  | _ =>
    intro step mem
    cases mem_singleton.mp mem
    exact ready

theorem steps_independent (delta : PreparedDelta) : delta.steps.Pairwise Independent := by
  cases delta with
  | graph op =>
    apply pairwise_map.mpr
    exact pairwise_of_forall fun _ _ => trivial
  | _ => exact pairwise_singleton ..

theorem eq_of_mem_steps {prep delta : PreparedDelta} {notGraph : prep.isGraph = false}
    (mem : Step.delta prep notGraph ∈ delta.steps) : prep = delta := by
  cases delta with
  | graph op =>
    obtain ⟨cmd, -, same⟩ := mem_map.mp mem
    cases same
  | _ =>
    cases mem_singleton.mp mem
    rfl

theorem independent_steps (independent : PreparedDelta.Independent fst snd) :
    ∀ earlier ∈ fst.steps, ∀ later ∈ snd.steps, Independent earlier later := by
  intro earlier inFirst later inSecond
  cases earlier with
  | graph => trivial
  | delta prep =>
    cases later with
    | graph => trivial
    | delta other =>
      cases eq_of_mem_steps inFirst
      cases eq_of_mem_steps inSecond
      exact independent

/-- The steps that are still to come are valid in the state which the steps before them
    have left. -/
structure OnCourse (commitLsn : Nat) (start backends : Backends) (steps : List Step) : Prop where
  ready : ∀ step ∈ steps, step.Ready commitLsn backends
  independent : steps.Pairwise Independent
  sized : backends.engine.Sized
  keeps : Keeps start backends

theorem onCourse_of_staged (staged : PreparedDelta.Staged commitLsn backends deltas)
    (sized : backends.engine.Sized) :
    OnCourse commitLsn backends backends (deltas.flatMap PreparedDelta.steps) := by
  constructor
  · intro step mem
    obtain ⟨delta, isStaged, isStep⟩ := mem_flatMap.mp mem
    exact steps_ready (staged.ready delta isStaged) step isStep
  · apply pairwise_flatMap.mpr
    constructor
    · intro delta _
      exact steps_independent delta
    · exact staged.independent.imp independent_steps
  · exact sized
  · exact .refl _

variable [F32Arithmetic]

theorem OnCourse.perform (course : OnCourse commitLsn start backends (step :: rest)) :
    OnCourse commitLsn start (step.perform backends).1 rest := by
  obtain ⟨independent, others⟩ := pairwise_cons.mp course.independent
  have ready := course.ready step mem_cons_self
  have kept := keeps_perform course.sized ready
  constructor
  · intro later mem
    exact ready_perform course.sized ready (course.ready later (mem_cons_of_mem _ mem))
      (independent later mem)
  · exact others
  · exact kept.engine.sized course.sized
  · exact course.keeps.trans kept

theorem OnCourse.run (course : OnCourse commitLsn start backends (front ++ back))
    (done : Completes Step.perform front backends) :
    OnCourse commitLsn start (Program.run Step.perform front backends).1 back := by
  induction front generalizing backends with
  | nil => exact course
  | cons step front ih =>
    obtain ⟨performed, done⟩ := completes_cons.mp done
    rw [run_cons_ok performed]
    exact ih course.perform done

theorem OnCourse.keeps_run {steps : List Step} (course : OnCourse commitLsn start backends steps) :
    Keeps start (Program.run Step.perform steps backends).1 := by
  induction steps generalizing backends with
  | nil => exact course.keeps
  | cons step rest ih =>
    cases performed : (step.perform backends).2 with
    | ok =>
      rw [run_cons_ok performed]
      exact ih course.perform
    | error e =>
      rw [run_cons_error performed]
      exact course.perform.keeps

theorem OnCourse.reach_of_completes (course : OnCourse commitLsn start backends (front ++ back))
    (done : Completes Step.perform front backends) :
    reach front backends.forecast = some (Program.run Step.perform front backends).1.forecast := by
  induction front generalizing backends with
  | nil => rfl
  | cons step front ih =>
    obtain ⟨performed, done⟩ := completes_cons.mp done
    have turn := Step.turn course.sized (course.ready step mem_cons_self)
    generalize prospect : step.prospect backends.forecast = kind at turn
    cases turn with
    | performed _ foretold =>
      rw [reach, if_pos prospect, run_cons_ok performed, ← foretold]
      exact ih course.perform done
    | refused e failed => cases failed.symm.trans performed
    | panics msg failed => cases failed.symm.trans performed

end
end Step
end
end HoloSphere.Cluster
