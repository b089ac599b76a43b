import HoloSphere.Graph.Query.Ast

/-! # Logical plans

The plans of `graph/query/logical.rs`, and the rows that a plan denotes over any graph.  Both
kinds of expansion share their fields.
-/

namespace HoloSphere.Graph.Query
open Function List

abbrev SymbolId := UInt32

structure ExpandOp where
  srcBinding : SymbolId
  relBinding : Option SymbolId
  dstBinding : SymbolId
  relTypeFilter : Option RelTypeId
  direction : Direction
  minHops : UInt8
  maxHops : UInt8
  deriving DecidableEq

inductive LogicalPlan (F : Type) where
  | nodeScan (binding : SymbolId) (labelFilter : Option LabelId)
      (preds : List (ScalarPredicate F))
  | vectorSeed (binding : SymbolId) (seed : VectorMatchClause)
  | expand (input : LogicalPlan F) (op : ExpandOp)
  | optionalExpand (input : LogicalPlan F) (op : ExpandOp)
  | filter (input : LogicalPlan F) (preds : List (ScalarPredicate F))
  | project (input : LogicalPlan F) (outputBindings : List SymbolId)
  | limit (input : LogicalPlan F) (count : Nat)
  deriving DecidableEq

variable {F : Type}

def ExpandOp.added (op : ExpandOp) : List SymbolId := op.relBinding.toList ++ [op.dstBinding]

def LogicalPlan.outputBindings : LogicalPlan F → List SymbolId
  | .nodeScan binding _ _ | .vectorSeed binding _ => [binding]
  | .expand input op | .optionalExpand input op => input.outputBindings ++ op.added
  | .filter input _ | .limit input _ => input.outputBindings
  | .project _ bindings => bindings

/-- What a binding can hold, over any nodes and relationships. -/
inductive Cell (N E : Type) where
  | node (node : N)
  | relationship (relationship : E)
  | null

abbrev BindingRow (N E : Type) := SymbolId → Option (Cell N E)

/-- What a plan asks of a graph, and when a predicate holds in a row. -/
structure QueriedGraph (F N E : Type) where
  scan : Option LabelId → List N
  seeds : VectorMatchClause → List N
  matching : Option RelTypeId → Direction → UInt8 → UInt8 → N → List (E × N)
  holds : ScalarPredicate F → BindingRow N E → Bool

variable {N E : Type} (graph : QueriedGraph F N E)

def nodeAt (row : BindingRow N E) (symbol : SymbolId) : Option N :=
  match row symbol with
  | some (.node node) => some node
  | _ => none

def extend (op : ExpandOp) (row : BindingRow N E) (rel dst : Cell N E) : BindingRow N E :=
  update (op.relBinding.elim row fun symbol => update row symbol (some rel))
    op.dstBinding (some dst)

def following (op : ExpandOp) (row : BindingRow N E) : List (E × N) :=
  (nodeAt row op.srcBinding).elim []
    (graph.matching op.relTypeFilter op.direction op.minHops op.maxHops)

def expandRow (op : ExpandOp) (row : BindingRow N E) : List (BindingRow N E) :=
  (following graph op row).map fun pair => extend op row (.relationship pair.1) (.node pair.2)

def optionalRow (op : ExpandOp) (row : BindingRow N E) : List (BindingRow N E) :=
  if (following graph op row).isEmpty then [extend op row .null .null] else expandRow graph op row

def single (symbol : SymbolId) (node : N) : BindingRow N E :=
  update (fun _ => none) symbol (some (.node node))

def satisfies (preds : List (ScalarPredicate F)) (row : BindingRow N E) : Bool :=
  preds.all fun pred => graph.holds pred row

def rows : LogicalPlan F → List (BindingRow N E)
  | .nodeScan binding label preds =>
    ((graph.scan label).map (single binding)).filter (satisfies graph preds)
  | .vectorSeed binding seed => (graph.seeds seed).map (single binding)
  | .expand input op => (rows input).flatMap (expandRow graph op)
  | .optionalExpand input op => (rows input).flatMap (optionalRow graph op)
  | .filter input preds => (rows input).filter (satisfies graph preds)
  | .project input bindings =>
    (rows input).map fun row symbol => if symbol ∈ bindings then row symbol else none
  | .limit input count => (rows input).take count

variable {graph}

theorem extend_other (fresh : symbol ∉ op.added) : extend op row rel dst symbol = row symbol := by
  simp only [ExpandOp.added, mem_append, Option.mem_toList, mem_singleton, not_or] at fresh
  unfold extend
  rw [update_of_ne fresh.2]
  cases isRel : op.relBinding with
  | none => rfl
  | some other => exact update_of_ne (fun same => fresh.1 (by rw [isRel, same])) _ _

theorem exists_extend (h : post ∈ expandRow graph op row ∨ post ∈ optionalRow graph op row) :
    ∃ rel dst, post = extend op row rel dst := by
  have expanded : post ∈ expandRow graph op row → ∃ rel dst, post = extend op row rel dst := by
    intro mem
    obtain ⟨pair, -, rfl⟩ := mem_map.mp mem
    exact ⟨_, _, rfl⟩
  rcases h with mem | mem
  · exact expanded mem
  · unfold optionalRow at mem
    split at mem
    · exact ⟨_, _, mem_singleton.mp mem⟩
    · exact expanded mem

end HoloSphere.Graph.Query
