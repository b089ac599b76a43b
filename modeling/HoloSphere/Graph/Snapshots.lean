import HoloSphere.Graph.Commands
import HoloSphere.Program.Machine

/-! # Snapshots of the graph

`GraphMutationApplier::snapshot` copies the arenas, the id maps and the catalogs, but of the
properties only the pointer to the store of the generation, which every mutation writes through.
-/

namespace HoloSphere.Graph
open Program GraphMutationApplier

/-- The fields that are copies. -/
structure ImmutableGraphSnapshot where
  generation : Nat
  lsn : Nat
  labelCatalog : List String
  relTypeCatalog : List String
  nodes : NodeArena
  edges : EdgeDelta
  nodeIdMap : String → Option NodeIndex
  relIdMap : RelationshipId → Option Nat

/-- A snapshot in memory: the store behind its field `properties` is the one of the applier that
    it was taken from. -/
structure Held where
  copied : ImmutableGraphSnapshot
  applier : GraphMutationApplier

def GraphMutationApplier.snapshot (lsn : Nat) (labelCatalog relTypeCatalog : List String)
    (app : GraphMutationApplier) : Held where
  copied :=
    { generation := app.generation.generation
      lsn, labelCatalog, relTypeCatalog
      nodes := app.generation.nodes
      edges := app.generation.edgeDelta.getD {}
      nodeIdMap := app.nodeIdMap
      relIdMap := app.relIdMap }
  applier := app

abbrev Readings := Nat → PropertyKey → Option GraphPropertyValue

/-- All properties of nodes and of relationships. -/
def GraphPropertyStore.readings (store : GraphPropertyStore) : Readings × Readings :=
  (fun node => store.nodeProps.entry node, fun rel => store.relProps.entry rel)

def GraphMutationApplier.readings (app : GraphMutationApplier) : Readings × Readings :=
  app.generation.properties.readings

def GraphCommand.act (app : GraphMutationApplier) (cmd : GraphCommand) :
    Option GraphMutationApplier :=
  some (cmd.perform app).1

/-- The command brings no properties along, and removes none. -/
def GraphCommand.Spares (app : GraphMutationApplier) : GraphCommand → Prop
  | .single (.createNode _ _ props _) _ | .single (.createRelationship _ _ _ _ props _) _
  | .single (.patchNodeProperties _ props) _ | .single (.patchRelationshipProperties _ props) _ =>
    props = ∅
  | .single (.deleteNode extId) _ =>
    ∀ node, app.nodeIdMap extId = some node → app.readings.1 node = fun _ => none
  | .single (.deleteRelationship relId) _ =>
    ∀ rel, app.relIdMap relId = some rel → app.readings.2 rel = fun _ => none
  | _ => True

namespace Held

/-- All that can be read through the snapshot. -/
def view (held : Held) : ImmutableGraphSnapshot × Readings × Readings :=
  (held.copied, held.applier.readings)

def act (held : Held) (op : GraphMutation) : Option Held :=
  some { held with applier := (apply op held.applier).1 }

def Spares (held : Held) (op : GraphMutation) : Prop :=
  Throughout GraphCommand.act GraphCommand.Spares held.applier op.commands

end Held

theorem PropertyTable.entry_remove {tbl : PropertyTable} (bare : tbl.entry owner = fun _ => none) :
    (tbl.remove owner).entry = fun other => tbl.entry other := by
  funext other
  by_cases same : other = owner
  · rw [same, bare]
    simp [entry, remove]
  · simp [entry, remove, same]

theorem PropertyTable.entry_patch_empty :
    (patch owner ∅ tbl).entry = fun other => tbl.entry other := by
  funext other
  by_cases same : other = owner
  · rw [same]
    simp [entry, patch]
  · simp [entry, patch, same]

theorem GraphCommand.Spares.readings {cmd : GraphCommand} (spares : cmd.Spares app) :
    (cmd.perform app).1.readings = app.readings := by
  match cmd with
  | .validate _ => rfl
  | .single (.createNode ..) _ =>
    cases spares
    simp only [perform, apply, createNode]
    split <;> rfl
  | .single (.deleteNode extId) _ =>
    cases found : app.nodeIdMap extId with
    | none => simp [perform, apply, deleteNode, found]
    | some node =>
      simp only [perform, apply, deleteNode, found]
      exact congrArg (·, _) (PropertyTable.entry_remove (spares node found))
  | .single (.setNodeLabels ..) _ | .single (.removeNodeLabels ..) _ =>
    simp only [perform, apply, setNodeLabels]
    split
    · rfl
    · split <;> rfl
  | .single (.patchNodeProperties ..) _ =>
    cases spares
    simp only [perform, apply, patchNodeProperties]
    split
    · rfl
    · exact congrArg (·, _) PropertyTable.entry_patch_empty
  | .single (.createRelationship ..) _ =>
    cases spares
    simp only [perform, apply, createRelationship]
    split_ifs
    · rfl
    · repeat' split
      all_goals rfl
  | .single (.deleteRelationship relId) _ =>
    cases found : app.relIdMap relId with
    | none => simp [perform, apply, deleteRelationship, found]
    | some rel =>
      simp only [perform, apply, deleteRelationship, found]
      split
      · rfl
      · exact congrArg (_, ·) (PropertyTable.entry_remove (spares rel found))
  | .single (.patchRelationshipProperties ..) _ =>
    cases spares
    simp only [perform, apply, patchRelProperties]
    split
    · rfl
    · exact congrArg (_, ·) PropertyTable.entry_patch_empty
  | .single (.batch _) notBatch => cases notBatch

theorem readings_run (spared : Throughout GraphCommand.act GraphCommand.Spares app script) :
    (run GraphCommand.perform script app).1.readings = app.readings := by
  induction script generalizing app with
  | nil => rfl
  | cons cmd rest ih =>
    obtain ⟨now, later⟩ := spared _ rfl
    cases performed : (cmd.perform app).2 with
    | ok => rw [run_cons_ok performed, ih later, now.readings]
    | error e => rw [run_cons_error performed, now.readings]

/-- A snapshot shows the same for ever if no later mutation brings properties along or removes
    some: all else is a copy. -/
theorem Held.always_frozen (app : GraphMutationApplier) (lsn : Nat)
    (labelCatalog relTypeCatalog : List String) (ops : List GraphMutation)
    (spared : Throughout act Spares (app.snapshot lsn labelCatalog relTypeCatalog) ops) :
    Always act (fun later => later.view = (app.snapshot lsn labelCatalog relTypeCatalog).view)
      (app.snapshot lsn labelCatalog relTypeCatalog) ops := by
  refine spared.always rfl fun held op next same spares done => ?_
  cases done
  rw [← same, view, view, apply_eq_run, readings_run spares]

/-- A node with one property. -/
def named : GraphMutationApplier :=
  (apply (.createNode "a" [] (AList.singleton 0 (.int 1)) none) (new (.newMutable 0))).1

theorem Held.always_frozen_labels :
    Always act (fun later => later.view = (named.snapshot 1 [] []).view) (named.snapshot 1 [] [])
      [.batch [.setNodeLabels "a" [3], .deleteNode "b"]] := by
  apply always_frozen
  refine .cons rfl ?_ trivial
  refine .cons rfl trivial (.cons rfl trivial (.cons rfl trivial (.cons rfl ?_ trivial)))
  intro node found
  cases found

theorem Held.not_always_frozen_patch :
    ¬ Always act (fun later => later.view = (named.snapshot 1 [] []).view) (named.snapshot 1 [] [])
      [.patchNodeProperties "a" (AList.singleton 0 (.int 2))] := by
  intro always
  exact absurd (congrArg (fun view => view.2.1 0 0) (always 1 _ rfl)) (by decide +kernel)

end HoloSphere.Graph
