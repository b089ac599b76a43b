import HoloSphere.Graph.Directory
import HoloSphere.Program.Script

/-! # Graph mutations as scripts

A batch looks all its elements over and then applies them in order, each nested
batch looking its own elements over again when its turn comes.  Written out, a
mutation is a script of commands that either succeed or leave the graph as it is,
and the directory tells for each command whether it succeeds.
-/

namespace HoloSphere.Graph
open GraphMutationApplier

def GraphMutation.isBatch : GraphMutation → Bool
  | .batch _ => true
  | _ => false

inductive GraphCommand where
  /-- One step of the look-over which precedes a batch. -/
  | validate (mutation : GraphMutation)
  /-- One mutation that is not a batch. -/
  | single (mutation : GraphMutation) (notBatch : mutation.isBatch = false)

mutual

def GraphMutation.commands : GraphMutation → List GraphCommand
  | .batch ops => ops.map .validate ++ GraphMutation.commandsAll ops
  | .createNode extId labels props vectorSlot =>
    [.single (.createNode extId labels props vectorSlot) rfl]
  | .deleteNode extId => [.single (.deleteNode extId) rfl]
  | .setNodeLabels extId labels => [.single (.setNodeLabels extId labels) rfl]
  | .removeNodeLabels extId labels => [.single (.removeNodeLabels extId labels) rfl]
  | .patchNodeProperties extId props =>
    [.single (.patchNodeProperties extId props) rfl]
  | .createRelationship relId srcExt dstExt relType props weight =>
    [.single (.createRelationship relId srcExt dstExt relType props
      weight) rfl]
  | .deleteRelationship relId => [.single (.deleteRelationship relId) rfl]
  | .patchRelationshipProperties relId props =>
    [.single (.patchRelationshipProperties relId props) rfl]

def GraphMutation.commandsAll : List GraphMutation → List GraphCommand
  | [] => []
  | mutation :: rest => mutation.commands ++ GraphMutation.commandsAll rest

end

namespace GraphCommand

def perform : GraphCommand → GraphMutationApplier → Answer
  | .validate mutation, app => (app, app.prevalidate mutation)
  | .single mutation _, app => apply mutation app

def admissible (directory : Directory) : GraphCommand → Bool
  | .validate mutation => directory.accepts mutation
  | .single mutation _ => directory.admits mutation

def idle (directory : Directory) : GraphCommand → Bool
  | .validate _ => true
  | .single mutation _ => directory.idle mutation

def after (directory : Directory) : GraphCommand → Directory
  | .validate _ => directory
  | .single mutation _ => directory.after mutation

/-- What a command does: it succeeds where it is admissible, and leaves the directory
    that was foretold; elsewhere it fails and changes nothing. -/
structure Effect (admitted : Bool) (foretold : Directory) (app : GraphMutationApplier)
    (ans : Answer) : Prop where
  succeeds : admitted = true → ans.2 = .ok () ∧ ans.1.directory = foretold
  refused : admitted = false → ans.1 = app ∧ ∃ e, ans.2 = .error e

theorem Effect.of_ok (holds : admitted = true) (same : next.directory = foretold) :
    Effect admitted foretold app (next, .ok ()) :=
  ⟨fun _ => ⟨rfl, same⟩, (fun fails => by cases holds.symm.trans fails)⟩

theorem Effect.of_error (fails : admitted = false) : Effect admitted foretold app (app, .error e) :=
  ⟨(fun holds => by cases holds.symm.trans fails), fun _ => ⟨rfl, e, rfl⟩⟩

theorem Effect.of_always {ans : Answer} (done : ans.2 = .ok ())
    (same : ans.1.directory = foretold) : Effect true foretold app ans :=
  ⟨fun _ => ⟨done, same⟩, fun fails => by cases fails⟩

theorem setNodeLabels_effect :
    Effect (app.directory.known extId) app.directory app (app.setNodeLabels extId labels add) := by
  have same := app.directory_setNodeLabels extId labels add
  rw [directory_known]
  unfold setNodeLabels at same ⊢
  cases named : app.nodeIdMap extId with
  | none => exact .of_error rfl
  | some node =>
    rw [named] at same
    dsimp only at same ⊢
    cases rec : NodeArena.get node app.generation.nodes with
    | none => exact .of_ok rfl rfl
    | some found =>
      rw [rec] at same
      exact .of_ok rfl same

theorem patchNodeProperties_effect :
    Effect (app.directory.known extId) app.directory app (app.patchNodeProperties extId props) := by
  rw [directory_known, GraphMutationApplier.patchNodeProperties]
  cases app.nodeIdMap extId with
  | none => exact .of_error rfl
  | some node => exact .of_ok rfl rfl

theorem patchRelProperties_effect : Effect (app.directory.related relId) app.directory app
      (app.patchRelProperties relId props) := by
  rw [directory_related, GraphMutationApplier.patchRelProperties]
  cases app.relIdMap relId with
  | none => exact .of_error rfl
  | some id => exact .of_ok rfl rfl

theorem createRelationship_effect (relType : RelTypeId) (app : GraphMutationApplier) :
    let mutation := GraphMutation.createRelationship relId srcExt dstExt
      relType props weight
    Effect (app.directory.admits mutation) (app.directory.after mutation) app
      (apply mutation app) := by
  have kept := Function.update_eq_self relId app.directory.related
  simp only [apply, createRelationship, Directory.admits, Directory.after, directory_known,
    directory_related] at kept ⊢
  cases existing : app.relIdMap relId with
  | some id =>
    rw [existing] at kept
    refine .of_ok rfl ?_
    exact congrArg (fun related => { app.directory with related := related }) kept.symm
  | none =>
    cases source : app.nodeIdMap srcExt with
    | none => exact .of_error (by simp [directory, source])
    | some src =>
      cases target : app.nodeIdMap dstExt with
      | none => exact .of_error (by simp)
      | some dst =>
        cases opened : app.generation.edgeDelta with
        | none => exact .of_error (by simp [directory, opened])
        | some delta =>
          have live := NodeArena.get_isSome src app.generation.nodes
          dsimp only
          cases rec : NodeArena.get src app.generation.nodes with
          | none =>
            rw [rec] at live
            exact .of_error (by simp [directory, source, ← live])
          | some found =>
            rw [rec] at live
            refine .of_ok (by simp [directory, opened, source, ← live]) ?_
            apply Directory.ext
            · rfl
            · funext index
              exact isLive_link ..
            · exact length_link ..
            · exact app.related_update relId (some _)
            · simp [directory, opened]

theorem perform_effect (cmd : GraphCommand) (app : GraphMutationApplier) :
    Effect (cmd.admissible app.directory) (cmd.after app.directory) app (cmd.perform app) := by
  cases cmd with
  | validate mutation =>
    have valid := app.prevalidate_ok_iff mutation
    simp only [perform, admissible, after]
    cases looked : app.prevalidate mutation with
    | ok => exact .of_ok (valid.mp looked) rfl
    | error e =>
      rw [looked] at valid
      exact .of_error (by simpa using valid)
  | single mutation notBatch =>
    cases mutation with
    | batch => cases notBatch
    | createNode =>
      exact .of_always (by simp only [perform, apply, createNode]; split <;> rfl)
        (directory_createNode ..)
    | deleteNode =>
      exact .of_always (by simp only [perform, apply, deleteNode]; split <;> rfl)
        (directory_deleteNode ..)
    | deleteRelationship =>
      exact .of_always (by simp only [perform, apply, deleteRelationship]; split <;> rfl)
        (directory_deleteRelationship ..)
    | setNodeLabels | removeNodeLabels => exact setNodeLabels_effect ..
    | patchNodeProperties => exact patchNodeProperties_effect ..
    | createRelationship => exact createRelationship_effect ..
    | patchRelationshipProperties => exact patchRelProperties_effect ..

theorem perform_idle {cmd : GraphCommand} {app : GraphMutationApplier}
    (idle : cmd.idle app.directory = true) : (cmd.perform app).1 = app := by
  cases cmd with
  | validate mutation => rfl
  | single mutation notBatch =>
    cases mutation with
    | createNode | createRelationship => exact congrArg Prod.fst (if_pos idle)
    | deleteNode extId =>
      have absent : app.nodeIdMap extId = none := by
        simpa [GraphCommand.idle, Directory.idle] using idle
      simp [perform, apply, deleteNode, absent]
    | deleteRelationship relId =>
      have absent : app.relIdMap relId = none := by
        simpa [GraphCommand.idle, Directory.idle] using idle
      simp [perform, apply, deleteRelationship, absent]
    | _ => cases idle

end GraphCommand

open Program
open GraphCommand

theorem run_validate (ops : List GraphMutation) (app : GraphMutationApplier) :
    run perform (ops.map .validate) app = (app, app.prevalidateAll ops) := by
  induction ops with
  | nil => rfl
  | cons mutation rest ih =>
    cases valid : app.prevalidate mutation with
    | ok =>
      simp only [List.map_cons, run, perform, valid, ih, prevalidateAll]
      rfl
    | error e =>
      simp only [List.map_cons, run, perform, valid, prevalidateAll]
      rfl

theorem run_single (notBatch : mutation.isBatch = false) :
    run perform [.single mutation notBatch] app = apply mutation app :=
  run_singleton ..

mutual

/-- `apply` is the run of the commands which a mutation stands for. -/
theorem apply_eq_run : ∀ (mutation : GraphMutation) (app : GraphMutationApplier),
    apply mutation app = run perform mutation.commands app
  | .batch ops, app => by
      rw [apply, GraphMutation.commands, run_append, run_validate]
      cases app.prevalidateAll ops with
      | ok => exact applyAll_eq_run ops app
      | error e => rfl
  | .createNode .., app => (run_single rfl).symm
  | .deleteNode _, app => (run_single rfl).symm
  | .setNodeLabels .., app => (run_single rfl).symm
  | .removeNodeLabels .., app => (run_single rfl).symm
  | .patchNodeProperties .., app => (run_single rfl).symm
  | .createRelationship .., app => (run_single rfl).symm
  | .deleteRelationship _, app => (run_single rfl).symm
  | .patchRelationshipProperties .., app => (run_single rfl).symm

theorem applyAll_eq_run : ∀ (ops : List GraphMutation) (app : GraphMutationApplier),
    applyAll ops app = run perform (GraphMutation.commandsAll ops) app
  | [], _ => rfl
  | mutation :: rest, app => by
      rw [applyAll, GraphMutation.commandsAll, run_append, ← apply_eq_run]
      rcases apply mutation app with ⟨next, e | _⟩
      · rfl
      · exact applyAll_eq_run rest next

end
end HoloSphere.Graph
