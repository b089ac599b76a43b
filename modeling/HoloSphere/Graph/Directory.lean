import HoloSphere.Graph.Mutation

/-! # Directories

Whether a graph mutation is carried out depends on little of the graph: the ids
that are taken, the slots that are live, how many slots there are, and whether the
generation is still open.  A directory holds just this.  It tells whether a mutation
will be carried out and what the directory is then, without the graph itself.
-/

namespace HoloSphere.Graph
open Function
namespace Arena
variable {ρ : Type}

theorem isLive_push (rec : ρ) (arena : Arena ρ) : (fun idx => (arena.push rec).isLive idx) =
      update (fun idx => arena.isLive idx) arena.slots.length true := by
  funext idx
  by_cases last : idx = arena.slots.length
  · subst last
    simp [isLive, push]
  · rw [update_of_ne last]
    have same : (arena.slots ++ [⟨rec, true⟩])[idx]? = arena.slots[idx]? := by
      rcases Nat.lt_or_gt_of_ne last with hin | outside
      · exact List.getElem?_append_left hin
      · simp [List.getElem?_append_right (Nat.le_of_lt outside), Nat.le_of_lt outside,
          Nat.sub_ne_zero_of_lt outside]
    simp [isLive, push, same]

theorem isLive_delete (deleted : Nat) (arena : Arena ρ) :
    (fun idx => (arena.delete deleted).isLive idx) =
      update (fun idx => arena.isLive idx) deleted false := by
  funext idx
  simp only [isLive, delete, List.getElem?_modify]
  by_cases same : idx = deleted
  · subst same
    cases arena.slots[idx]? <;> simp
  · rw [update_of_ne same]
    simp [Ne.symm same]

@[simp] theorem isLive_write (written idx : Nat) (rec : ρ) (arena : Arena ρ) :
    (arena.write written rec).isLive idx = arena.isLive idx := by
  simp only [isLive, write, List.getElem?_modify]
  cases arena.slots[idx]? with
  | none => rfl
  | some slot => by_cases same : written = idx <;> simp [same]

@[simp] theorem length_push (rec : ρ) (arena : Arena ρ) :
    (arena.push rec).slots.length = arena.slots.length + 1 := by
  simp [push]

@[simp] theorem length_delete (deleted : Nat) (arena : Arena ρ) :
    (arena.delete deleted).slots.length = arena.slots.length := by
  simp [delete]

@[simp] theorem length_write (written : Nat) (rec : ρ) (arena : Arena ρ) :
    (arena.write written rec).slots.length = arena.slots.length := by
  simp [write]

end Arena

namespace NodeArena

@[simp] theorem isLive_update : (update node rec nodes).isLive idx = nodes.isLive idx := by
  unfold update
  split
  · exact Arena.isLive_write ..
  · rfl

@[simp] theorem length_update : (update node rec nodes).slots.length = nodes.slots.length := by
  unfold update
  split
  · exact Arena.length_write ..
  · rfl

theorem get_isSome (node : NodeIndex) (nodes : NodeArena) :
    (get node nodes).isSome = nodes.isLive node := by
  cases found : nodes.slots[node]? with
  | none => simp [get, Arena.isLive, found]
  | some slot => cases live : slot.live <;>
      simp [get, Arena.isLive, Arena.record?, found, live]

end NodeArena

@[ext] structure Directory where
  nodeIdMap : String → Option NodeIndex
  live : NodeIndex → Bool
  slots : Nat
  related : RelationshipId → Bool
  writable : Bool

def GraphMutationApplier.directory (app : GraphMutationApplier) : Directory where
  nodeIdMap := app.nodeIdMap
  live node := app.generation.nodes.isLive node
  slots := app.generation.nodes.slots.length
  related relId := (app.relIdMap relId).isSome
  writable := app.generation.edgeDelta.isSome

namespace Directory

def known (extId : String) (directory : Directory) : Bool := (directory.nodeIdMap extId).isSome

mutual

/-- The look-over that precedes a batch. -/
def accepts (directory : Directory) : GraphMutation → Bool
  | .createRelationship _ srcExt dstExt _ _ _ =>
    directory.known srcExt && directory.known dstExt
  | .setNodeLabels extId _ => directory.known extId
  | .removeNodeLabels extId _ => directory.known extId
  | .patchNodeProperties extId _ => directory.known extId
  | .patchRelationshipProperties relId _ => directory.related relId
  | .batch inner => acceptsAll directory inner
  | .createNode .. => true
  | .deleteNode _ => true
  | .deleteRelationship _ => true

def acceptsAll (directory : Directory) : List GraphMutation → Bool
  | [] => true
  | mutation :: rest => accepts directory mutation && acceptsAll directory rest

end

/-- What a mutation that is not a batch needs: the nodes and relationships it names are
    known.  A relationship that is new needs an open generation and a source whose slot
    is live; one that exists already needs nothing. -/
def admits (directory : Directory) : GraphMutation → Bool
  | .setNodeLabels extId _ => directory.known extId
  | .removeNodeLabels extId _ => directory.known extId
  | .patchNodeProperties extId _ => directory.known extId
  | .createRelationship relId srcExt dstExt _ _ _ =>
    directory.related relId || (directory.writable && directory.known dstExt &&
        (directory.nodeIdMap srcExt).any directory.live)
  | .patchRelationshipProperties relId _ => directory.related relId
  | _ => true

/-- What an admitted mutation without an effect looks like: a node or relationship is created
    that is there already, or deleted though it is not there. -/
def idle (directory : Directory) : GraphMutation → Bool
  | .createNode extId _ _ _ => directory.known extId
  | .deleteNode extId => !directory.known extId
  | .createRelationship relId _ _ _ _ _ => directory.related relId
  | .deleteRelationship relId => !directory.related relId
  | _ => false

def after (directory : Directory) : GraphMutation → Directory
  | .createNode extId _ _ _ =>
    if directory.known extId then directory
    else
      { directory with
        nodeIdMap := update directory.nodeIdMap extId
          (some (directory.slots % 2 ^ 32))
        live := update directory.live directory.slots true
        slots := directory.slots + 1 }
  | .deleteNode extId =>
    match directory.nodeIdMap extId with
    | none => directory
    | some node =>
      { directory with
        nodeIdMap := update directory.nodeIdMap extId none
        live := update directory.live node false }
  | .createRelationship relId _ _ _ _ _ =>
    { directory with related := update directory.related relId true }
  | .deleteRelationship relId =>
    { directory with related := update directory.related relId false }
  | _ => directory

end Directory

namespace GraphMutationApplier
variable (app : GraphMutationApplier)

@[simp] theorem directory_known (extId : String) :
    app.directory.known extId = (app.nodeIdMap extId).isSome := rfl

@[simp] theorem directory_related : app.directory.related relId = (app.relIdMap relId).isSome := rfl

theorem requireNode_ok_iff : app.requireNode extId = .ok () ↔ app.directory.known extId = true := by
  rw [directory_known, requireNode]
  split <;> simp_all

mutual

open Directory

theorem prevalidate_ok_iff : ∀ mutation : GraphMutation,
    app.prevalidate mutation = .ok () ↔ app.directory.accepts mutation = true
  | .createRelationship _ srcExt dstExt _ _ _ => by
      rw [prevalidate, accepts, Bool.and_eq_true, ← requireNode_ok_iff, ← requireNode_ok_iff]
      cases app.requireNode srcExt <;> simp [bind, Except.bind]
  | .setNodeLabels extId _ => by
      rw [prevalidate, accepts, requireNode_ok_iff]
  | .removeNodeLabels extId _ => by
      rw [prevalidate, accepts, requireNode_ok_iff]
  | .patchNodeProperties extId _ => by
      rw [prevalidate, accepts, requireNode_ok_iff]
  | .patchRelationshipProperties relId _ => by
      rw [prevalidate, accepts, directory_related]
      split <;> simp_all
  | .batch inner => by
      exact prevalidateAll_ok_iff inner
  | .createNode .. => by simp [prevalidate, accepts]
  | .deleteNode _ => by simp [prevalidate, accepts]
  | .deleteRelationship _ => by simp [prevalidate, accepts]

theorem prevalidateAll_ok_iff : ∀ ops : List GraphMutation,
    app.prevalidateAll ops = .ok () ↔ app.directory.acceptsAll ops = true
  | [] => by simp [prevalidateAll, acceptsAll]
  | mutation :: rest => by
      rw [prevalidateAll, acceptsAll, Bool.and_eq_true, ← prevalidate_ok_iff mutation,
        ← prevalidateAll_ok_iff rest]
      cases app.prevalidate mutation <;> simp [bind, Except.bind]

end

theorem directory_createNode (vectorSlot : Option NodeIndex) :
    (app.createNode extId labels props vectorSlot).1.directory =
      app.directory.after (.createNode extId labels props vectorSlot) := by
  unfold createNode
  cases taken : (app.nodeIdMap extId).isSome with
  | true =>
    have known : app.directory.known extId = true := taken
    simp [Directory.after, known]
  | false =>
    have unknown : app.directory.known extId = false := taken
    simp only [Directory.after, unknown, Bool.false_eq_true, if_false]
    apply Directory.ext
    · rfl
    · exact Arena.isLive_push ..
    · exact Arena.length_push ..
    · rfl
    · rfl

theorem directory_deleteNode (extId : String) : (app.deleteNode extId).1.directory =
      app.directory.after (.deleteNode extId) := by
  unfold deleteNode
  have same : app.directory.nodeIdMap extId = app.nodeIdMap extId := rfl
  rw [Directory.after, same]
  cases app.nodeIdMap extId with
  | none => rfl
  | some node =>
    apply Directory.ext
    · rfl
    · exact Arena.isLive_delete ..
    · exact Arena.length_delete ..
    · rfl
    · rfl

theorem directory_setNodeLabels (extId : String) (labels : List LabelId) (add : Bool) :
    (app.setNodeLabels extId labels add).1.directory = app.directory := by
  unfold setNodeLabels
  cases app.nodeIdMap extId with
  | none => rfl
  | some node =>
    dsimp only
    cases NodeArena.get node app.generation.nodes with
    | none => rfl
    | some rec => simp [directory, withNodes]

theorem related_update (relId : RelationshipId) (slot : Option Nat) :
    (fun id => (update app.relIdMap relId slot id).isSome) =
      update app.directory.related relId slot.isSome :=
  comp_update Option.isSome app.relIdMap relId slot

theorem directory_deleteRelationship : (app.deleteRelationship relId).1.directory =
      app.directory.after (.deleteRelationship relId) := by
  unfold deleteRelationship
  cases found : app.relIdMap relId with
  | none =>
    have unrelated : app.directory.related relId = false := by
      simp [found]
    rw [Directory.after, ← unrelated, update_eq_self]
  | some id =>
    have related := app.related_update relId none
    cases opened : app.generation.edgeDelta with
    | none | some => simp [directory, Directory.after, opened, related]

@[simp] theorem isLive_link (idx : NodeIndex) :
    (link edge src nodes delta).1.isLive idx = nodes.isLive idx := by
  unfold link
  dsimp only
  split <;> simp

@[simp] theorem length_link : (link edge src nodes delta).1.slots.length = nodes.slots.length := by
  unfold link
  dsimp only
  split <;> simp

end GraphMutationApplier
end HoloSphere.Graph
