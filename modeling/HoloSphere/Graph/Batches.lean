import HoloSphere.Graph.Mutation

/-! # Batches and their elements in order

A batch is compared with its elements applied one after the other, the elements of a
nested batch in its place.  A batch that succeeds has done just that.  It asks for
more, though: all its elements are looked over first, against the graph as it was
before any of them, and so are the elements of a nested batch when its turn comes.
-/

namespace HoloSphere.Graph.GraphMutationApplier

mutual

/-- A mutation without looking over: a nested batch is its elements in order. -/
def applyOne : GraphMutation → GraphMutationApplier → Answer
  | .batch ops, app => applyInOrder ops app
  | mutation, app => apply mutation app

/-- One after the other, up to the first that fails. -/
def applyInOrder : List GraphMutation → GraphMutationApplier → Answer
  | [], app => (app, .ok ())
  | mutation :: rest, app =>
    match applyOne mutation app with
    | (next, .error e) => (next, .error e)
    | (next, .ok ()) => applyInOrder rest next

end

mutual

/-- Every batch in the mutation passes its look-over at its turn. -/
def LookedOver : GraphMutation → GraphMutationApplier → Prop
  | .batch ops, app =>
    app.prevalidateAll ops = .ok () ∧ LookedOverAll ops app
  | _, _ => True

def LookedOverAll : List GraphMutation → GraphMutationApplier → Prop
  | [], _ => True
  | mutation :: rest, app =>
    LookedOver mutation app ∧ LookedOverAll rest (applyOne mutation app).1

end

/-- What looking over changes of a mutation: whether it succeeds, but not what it does
    when it does. -/
structure Checked (looked : Prop) (checked plain : Answer) : Prop where
  ok_iff : checked.2 = .ok () ↔ looked ∧ plain.2 = .ok ()
  same : checked.2 = .ok () → checked = plain

theorem Checked.of_single : Checked True ans ans := ⟨by simp, fun _ => rfl⟩

mutual

theorem checked_apply : ∀ (mutation : GraphMutation) (app : GraphMutationApplier),
    Checked (LookedOver mutation app) (apply mutation app) (applyOne mutation app)
  | .batch ops, app => by
      have elems := checked_applyAll ops app
      rw [apply, applyOne, LookedOver]
      cases valid : app.prevalidateAll ops with
      | ok =>
        refine ⟨?_, elems.same⟩
        rw [elems.ok_iff]
        simp
      | error e => exact ⟨by simp, (fun done => by cases done)⟩
  | .createNode .., _ => .of_single
  | .deleteNode _, _ => .of_single
  | .setNodeLabels .., _ => .of_single
  | .removeNodeLabels .., _ => .of_single
  | .patchNodeProperties .., _ => .of_single
  | .createRelationship .., _ => .of_single
  | .deleteRelationship _, _ => .of_single
  | .patchRelationshipProperties .., _ => .of_single

theorem checked_applyAll : ∀ (ops : List GraphMutation) (app : GraphMutationApplier),
    Checked (LookedOverAll ops app) (applyAll ops app) (applyInOrder ops app)
  | [], _ => .of_single
  | mutation :: rest, app => by
      obtain ⟨ok_iff, same⟩ := checked_apply mutation app
      rw [applyAll, applyInOrder, LookedOverAll]
      rcases done : apply mutation app with ⟨next, e | _⟩ <;> rw [done] at ok_iff same
      · refine ⟨⟨nofun, ?_⟩, nofun⟩
        rintro ⟨⟨looked, -⟩, plain⟩
        rcases one : applyOne mutation app with ⟨left, found | _⟩ <;> rw [one] at plain ok_iff
        · cases plain
        · cases ok_iff.mpr ⟨looked, rfl⟩
      · rw [← same rfl]
        simpa [(ok_iff.mp rfl).1] using checked_applyAll rest next

end

/-- A batch that succeeds is its elements in order; one that its look-over refuses leaves
    the graph as it was; and it succeeds exactly when every look-over passes and the
    elements in order do. -/
theorem batch_is_elements_in_order (app : GraphMutationApplier) (ops : List GraphMutation) :
    ((apply (.batch ops) app).2 = .ok () → applyInOrder ops app = apply (.batch ops) app) ∧
      (app.prevalidateAll ops ≠ .ok () → (apply (.batch ops) app).1 = app ∧
          ∃ e, (apply (.batch ops) app).2 = .error e) ∧
      ((apply (.batch ops) app).2 = .ok () ↔ LookedOver (.batch ops) app ∧
          (applyInOrder ops app).2 = .ok ()) := by
  have checked := checked_apply (.batch ops) app
  refine ⟨fun done => (checked.same done).symm, ?_, checked.ok_iff⟩
  intro refused
  rw [apply]
  cases valid : app.prevalidateAll ops with
  | ok => exact absurd valid refused
  | error e => exact ⟨rfl, e, rfl⟩

/-- A graph with the nodes `a` and `b`. -/
def twoNodes : GraphMutationApplier :=
  (applyInOrder [.createNode "a" [] ∅ none, .createNode "b" [] ∅ none] (.new (.newMutable 1))).1

/-- A nested batch before the deletion of the node that it labels. -/
def labelThenDelete : List GraphMutation :=
  [.batch [.setNodeLabels "a" [1], .setNodeLabels "b" [2]], .deleteNode "a"]

theorem nested_batch_is_its_elements : (apply (.batch labelThenDelete) twoNodes).2 = .ok () ∧
      applyInOrder labelThenDelete twoNodes = apply (.batch labelThenDelete) twoNodes :=
  ⟨rfl, (batch_is_elements_in_order twoNodes labelThenDelete).1 rfl⟩

/-- The second element needs the node that the first one creates. -/
def createThenLink : List GraphMutation :=
  [.createNode "c" [] ∅ none, .createRelationship 1 "a" "c" 0 ∅ 0]

/-- The second element needs the node that the first one deletes. -/
def deleteThenLabel : List GraphMutation := [.deleteNode "a", .setNodeLabels "a" [1]]

/-- A batch is refused although its elements in order succeed, and another one returns an
    error with its first element done. -/
theorem batch_is_not_elements_in_order : ((applyInOrder createThenLink twoNodes).2 = .ok () ∧
        (apply (.batch createThenLink) twoNodes).2 ≠ .ok ()) ∧
      ((apply (.batch deleteThenLabel) twoNodes).2 = .error (.nodeNotFound "a") ∧
        (apply (.batch deleteThenLabel) twoNodes).1 ≠ twoNodes) := by
  refine ⟨⟨rfl, nofun⟩, rfl, ?_⟩
  intro same
  have gone : (apply (.batch deleteThenLabel) twoNodes).1.nodeIdMap "a" = none := rfl
  rw [same] at gone
  cases gone

end HoloSphere.Graph.GraphMutationApplier
