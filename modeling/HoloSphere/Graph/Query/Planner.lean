import HoloSphere.Graph.Query.LogicalPlan

/-! # From the syntax tree to a logical plan

`SemanticAnalyzer::analyse` numbers the aliases, `build_logical_plan` chains the patterns of a
query.  Of the node patterns only the first one becomes a scan, and only if there is no
vector match; the loop over the patterns passes the others by.
-/

namespace HoloSphere.Graph.Query
open GraphPattern
variable {F : Type}

structure SymbolTable where
  nameToId : String → Option SymbolId := fun _ => none
  idToName : List String := []

namespace SymbolTable

def get (syms : SymbolTable) (name : String) : Option SymbolId := syms.nameToId name

def intern (syms : SymbolTable) (name : String) : SymbolTable :=
  match syms.nameToId name with
  | some _ => syms
  | none => ⟨Function.update syms.nameToId name (some (UInt32.ofNat syms.idToName.length)),
      syms.idToName ++ [name]⟩

/-- Names that are known stay known. -/
def Knows (syms : SymbolTable) (name : String) : Prop := syms.get name ≠ none

theorem intern_knows (syms : SymbolTable) : (syms.intern name).Knows name := by
  unfold intern Knows get
  cases known : syms.nameToId name <;> simp [known]

theorem Knows.intern {syms : SymbolTable} (h : syms.Knows name) (other : String) :
    (syms.intern other).Knows name := by
  unfold SymbolTable.intern Knows get at *
  cases syms.nameToId other with
  | some id => exact h
  | none => by_cases same : name = other <;> simp [same, h]

theorem Knows.foldl {syms : SymbolTable} (h : syms.Knows name) (others : List String) :
    (others.foldl SymbolTable.intern syms).Knows name := by
  induction others generalizing syms with
  | nil => exact h
  | cons other others ih => exact ih (h.intern other)

end SymbolTable

inductive SemanticError where
  | undeclaredAlias (name : String)
  | invalidHopRange (min max : UInt8)

/-- What an expansion declares and what is wrong with it. -/
def analyseStep (step : ExpandStep) (st : SymbolTable × List SemanticError) :
    SymbolTable × List SemanticError :=
  let (syms, errors) := st
  ((step.dstAlias :: step.relAlias.toList).foldl SymbolTable.intern syms,
    errors ++ (if step.minHops > step.maxHops then [.invalidHopRange step.minHops step.maxHops]
      else []) ++
    if (syms.get step.srcAlias).isNone then [.undeclaredAlias step.srcAlias] else [])

def analysePattern (st : SymbolTable × List SemanticError) :
    GraphPattern F → SymbolTable × List SemanticError
  | .nodePattern name _ _ =>
    if (st.1.get name).isSome then st else (st.1.intern name, st.2)
  | .expand step | .optionalExpand step => analyseStep step st
  | .hyperMatch antecedents rel _ consequents _ =>
    ((antecedents ++ consequents ++ rel.toList).foldl SymbolTable.intern st.1, st.2)

def ReturnItem.ownerAlias : ReturnItem → String
  | .aliasOf name => name
  | .propertyRef owner _ => owner

def analyse (ast : QueryAst F) : Except (List SemanticError) SymbolTable :=
  let seeded := (ast.vectorMatch.map VectorMatchClause.binding).toList.foldl SymbolTable.intern {}
  let (syms, errors) := ast.patterns.foldl analysePattern (seeded, [])
  let undeclared := ast.returnClause.items.filterMap fun item =>
    if (syms.get item.ownerAlias).isNone then some (.undeclaredAlias item.ownerAlias) else none
  if (errors ++ undeclared).isEmpty then .ok syms else .error (errors ++ undeclared)

theorem SymbolTable.Knows.analysePattern {st : SymbolTable × List SemanticError}
    (h : st.1.Knows name) (pattern : GraphPattern F) :
    (Query.analysePattern st pattern).1.Knows name := by
  cases pattern with
  | nodePattern other label preds =>
    rw [Query.analysePattern]
    split
    · exact h
    · exact h.intern other
  | expand step | optionalExpand step => exact h.foldl (step.dstAlias :: step.relAlias.toList)
  | hyperMatch antecedents rel relType consequents dirn => exact h.foldl _

theorem foldl_analyse_knows {patterns : List (GraphPattern F)} {name : String}
    {label : Option LabelId} {preds : List (ScalarPredicate F)}
    (st : SymbolTable × List SemanticError)
    (h : .nodePattern name label preds ∈ patterns ∨ st.1.Knows name) :
    (patterns.foldl analysePattern st).1.Knows name := by
  induction patterns generalizing st with
  | nil => simpa using h
  | cons pattern patterns ih =>
    refine ih _ ?_
    rcases h with mem | known
    · rcases List.mem_cons.mp mem with rfl | later
      · refine .inr ?_
        rw [analysePattern]
        split
        · exact Option.isSome_iff_ne_none.mp ‹_›
        · exact st.1.intern_knows
      · exact .inl later
    · exact .inr (known.analysePattern pattern)

/-- The analyser numbers the alias of every node pattern. -/
theorem analyse_knows (acc : analyse ast = .ok syms)
    (mem : .nodePattern name label preds ∈ ast.patterns) : syms.Knows name := by
  unfold analyse at acc
  dsimp only at acc
  split at acc
  · cases acc
    exact foldl_analyse_knows _ (.inl mem)
  · cases acc

section

def GraphPattern.scanned : GraphPattern F → Option (String × Option LabelId)
  | .nodePattern name label _ => some (name, label)
  | _ => none

def GraphPattern.predicatesFor (name : String) : GraphPattern F → Option (List (ScalarPredicate F))
  | .nodePattern other _ preds => if other = name then some preds else none
  | _ => none

variable (syms : SymbolTable)

def SymbolTable.getOrZero (name : String) : SymbolId := (syms.get name).getD 0

def ExpandStep.op (step : ExpandStep) : ExpandOp :=
  ⟨syms.getOrZero step.srcAlias, step.relAlias.bind syms.get,
    syms.getOrZero step.dstAlias, step.relType, step.direction, step.minHops, step.maxHops⟩

def rootScan (ast : QueryAst F) : LogicalPlan F :=
  match ast.vectorMatch with
  | some clause => .vectorSeed (syms.getOrZero clause.binding) clause
  | none =>
    match ast.patterns.findSome? scanned with
    | some (name, label) => .nodeScan (syms.getOrZero name) label
        ((ast.patterns.findSome? (predicatesFor name)).getD [])
    | none => .nodeScan 0 none []

def addPattern (plan : LogicalPlan F) : GraphPattern F → LogicalPlan F
  | .nodePattern _ _ _ => plan
  | .expand step => .expand plan (step.op syms)
  | .optionalExpand step => .optionalExpand plan (step.op syms)
  | .hyperMatch antecedents rel relType consequents dirn =>
    .expand plan ⟨(antecedents.filterMap syms.get).head?.getD 0, rel.bind syms.get,
      (consequents.head?.bind syms.get).getD 0, relType, dirn, 1, 1⟩

/-- The plan up to the `WHERE` clause. -/
def matchedPlan (ast : QueryAst F) : LogicalPlan F :=
  let plan := ast.patterns.foldl (addPattern syms) (rootScan syms ast)
  if ast.wherePredicates.isEmpty then plan else .filter plan ast.wherePredicates

def buildLogicalPlan (ast : QueryAst F) : LogicalPlan F :=
  let plan := matchedPlan syms ast
  let outputs := ast.returnClause.items.filterMap fun item => syms.get item.ownerAlias
  let plan := if outputs.isEmpty then plan else .project plan outputs
  match ast.returnClause.limit with
  | some count => .limit plan count
  | none => plan

end

/-- What a node pattern can ask of its alias. -/
inductive Constraint (F : Type) where
  | label (label : LabelId)
  | predicate (predicate : ScalarPredicate F)

def PredicateValue.owner : PredicateValue F → List String
  | .propertyRef owner _ => [owner]
  | _ => []

/-- The aliases that a predicate names. -/
def Predicate.owners : ScalarPredicate F → List String
  | .eq left right | .ne left right | .lt left right | .le left right | .gt left right
  | .ge left right => left.owner ++ right.owner
  | .isNull opd | .isNotNull opd => opd.owner
  | .and left right | .or left right => left.owners ++ right.owners
  | .not inner => inner.owners

/-- A predicate reads the bindings of the aliases it names. -/
def QueriedGraph.Reads (graph : QueriedGraph F N E) (syms : SymbolTable) : Prop :=
  ∀ pred row other, (∀ symbol ∈ pred.owners.filterMap syms.get, row symbol = other symbol) →
    graph.holds pred row = graph.holds pred other

namespace Constraint

def Of (label : Option LabelId) (preds : List (ScalarPredicate F)) : Constraint F → Prop
  | .label l => label = some l
  | .predicate p => p ∈ preds

/-- What decides whether a row satisfies the constraint. -/
def reads (syms : SymbolTable) (symbol : SymbolId) : Constraint F → List SymbolId
  | .label _ => [symbol]
  | .predicate p => p.owners.filterMap syms.get

def Holds (graph : QueriedGraph F N E) (symbol : SymbolId) (row : BindingRow N E) :
    Constraint F → Prop
  | .label l => ∃ node ∈ graph.scan (some l), row symbol = some (.node node)
  | .predicate p => graph.holds p row = true

end Constraint

/-- Somewhere in the plan the binding is restricted by the constraint, and no expansion above
    binds again what the constraint reads. -/
def LogicalPlan.Restricts (syms : SymbolTable) (symbol : SymbolId) (constraint : Constraint F) :
    LogicalPlan F → Prop
  | .nodeScan binding label preds => binding = symbol ∧ constraint.Of label preds
  | .vectorSeed _ _ => False
  | .expand input op | .optionalExpand input op => input.Restricts syms symbol constraint ∧
      ∀ read ∈ constraint.reads syms symbol, read ∉ op.added
  | .project input _ | .limit input _ => input.Restricts syms symbol constraint
  | .filter input preds => input.Restricts syms symbol constraint ∨ constraint.Of none preds

/-- Every row that a plan denotes shows a part of a matched row which satisfies the
    constraint. -/
def Satisfied (ast : QueryAst F) (syms : SymbolTable) (symbol : SymbolId)
    (constraint : Constraint F) : Prop :=
  ∀ (N E : Type) (graph : QueriedGraph F N E), graph.Reads syms →
    ∀ row ∈ rows graph (buildLogicalPlan syms ast), ∃ whole ∈ rows graph (matchedPlan syms ast),
      (∀ other, row other = whole other ∨ row other = none) ∧ constraint.Holds graph symbol whole

/-- Each label and each inline predicate of every node pattern restricts its alias, and every
    row satisfies it. -/
def KeepsConstraints (ast : QueryAst F) (syms : SymbolTable) : Prop :=
  ∀ name label preds, .nodePattern name label preds ∈ ast.patterns →
    ∀ constraint : Constraint F, constraint.Of label preds → ∃ symbol, syms.get name = some symbol ∧
      (buildLogicalPlan syms ast).Restricts syms symbol constraint ∧
        Satisfied ast syms symbol constraint

/-- The symbols that a pattern binds when it is added to a plan. -/
def GraphPattern.bound (syms : SymbolTable) : GraphPattern F → List SymbolId
  | .nodePattern _ _ _ => []
  | .expand step | .optionalExpand step => (step.op syms).added
  | .hyperMatch _ rel _ consequents _ =>
    (rel.bind syms.get).toList ++ [(consequents.head?.bind syms.get).getD 0]

/-- The first node pattern has the same alias and the same constraint, there is no vector
    match, and no expansion binds again what the constraint reads. -/
def ScansFirst (ast : QueryAst F) (syms : SymbolTable) (name : String)
    (constraint : Constraint F) : Prop :=
  (ast.vectorMatch = none ∧ ∃ fst label, ast.patterns.findSome? scanned = some (fst, label) ∧
    syms.getOrZero fst = syms.getOrZero name ∧
    constraint.Of label ((ast.patterns.findSome? (predicatesFor fst)).getD [])) ∧
  ∀ pattern ∈ ast.patterns, ∀ read ∈ constraint.reads syms (syms.getOrZero name),
    read ∉ pattern.bound syms

theorem restricts_addPattern (pattern : GraphPattern F) :
    (addPattern syms plan pattern).Restricts syms symbol constraint ↔
      plan.Restricts syms symbol constraint ∧
        ∀ read ∈ constraint.reads syms symbol, read ∉ pattern.bound syms := by
  cases pattern with
  | nodePattern name label preds => simp [addPattern, bound]
  | expand | optionalExpand | hyperMatch => rfl

theorem restricts_foldl (patterns : List (GraphPattern F)) :
    (patterns.foldl (addPattern syms) plan).Restricts syms symbol constraint ↔
      plan.Restricts syms symbol constraint ∧ ∀ pattern ∈ patterns,
        ∀ read ∈ constraint.reads syms symbol, read ∉ pattern.bound syms := by
  induction patterns generalizing plan with
  | nil => simp
  | cons pattern patterns ih =>
    rw [List.foldl_cons, ih, restricts_addPattern, and_assoc, List.forall_mem_cons]

/-- The scan and the `WHERE` clause are all that restricts. -/
theorem restricts_build : (buildLogicalPlan syms ast).Restricts syms symbol constraint ↔
      (ast.patterns.foldl (addPattern syms) (rootScan syms ast)).Restricts syms symbol constraint ∨
        constraint.Of none ast.wherePredicates := by
  have filtered : (matchedPlan syms ast).Restricts syms symbol constraint ↔
      (ast.patterns.foldl (addPattern syms) (rootScan syms ast)).Restricts syms symbol constraint ∨
        constraint.Of none ast.wherePredicates := by
    unfold matchedPlan
    dsimp only
    split
    · next none =>
        rw [List.isEmpty_iff.mp none]
        cases constraint <;> simp [Constraint.Of]
    · rfl
  rw [← filtered, buildLogicalPlan]
  cases ast.returnClause.limit <;> dsimp only [LogicalPlan.Restricts] <;> split <;> rfl

theorem restricts_rootScan : (rootScan syms ast).Restricts syms (syms.getOrZero name) constraint ↔
      ast.vectorMatch = none ∧ ∃ fst label, ast.patterns.findSome? scanned = some (fst, label) ∧
        syms.getOrZero fst = syms.getOrZero name ∧
        constraint.Of label ((ast.patterns.findSome? (predicatesFor fst)).getD []) := by
  unfold rootScan
  cases ast.vectorMatch with
  | some clause => simp [LogicalPlan.Restricts]
  | none =>
    cases ast.patterns.findSome? scanned with
    | some found =>
      obtain ⟨fst, label⟩ := found
      simp [LogicalPlan.Restricts, and_assoc]
    | none => cases constraint <;> simp [LogicalPlan.Restricts, Constraint.Of]

section
variable {N E : Type} {graph : QueriedGraph F N E} {constraint : Constraint F}
  (reading : graph.Reads syms)

theorem holds_scan (restricted : (LogicalPlan.nodeScan binding label preds).Restricts syms symbol
      constraint) : ∀ row ∈ rows graph (.nodeScan binding label preds),
    constraint.Holds graph symbol row := by
  intro row mem
  obtain ⟨rfl, asked⟩ := restricted
  obtain ⟨listed, satisfied⟩ := List.mem_filter.mp mem
  cases constraint with
  | label l =>
    obtain ⟨node, isNode, rfl⟩ := List.mem_map.mp listed
    exact ⟨node, asked ▸ isNode, Function.update_self ..⟩
  | predicate p => exact List.all_eq_true.mp satisfied p asked

theorem holds_rootScan (restricted : (rootScan syms ast).Restricts syms symbol constraint) :
    ∀ row ∈ rows graph (rootScan syms ast), constraint.Holds graph symbol row := by
  unfold rootScan at *
  split at restricted
  · cases restricted
  · split at restricted <;> exact holds_scan restricted

include reading

theorem holds_extend {op : ExpandOp} (kept : ∀ read ∈ constraint.reads syms symbol, read ∉ op.added)
    (h : constraint.Holds graph symbol row) :
    constraint.Holds graph symbol (extend op row rel dst) := by
  cases constraint with
  | label l =>
    obtain ⟨node, scanned, here⟩ := h
    exact ⟨node, scanned, (extend_other (kept symbol List.mem_cons_self)).trans here⟩
  | predicate p => exact (reading p _ row fun read mem => extend_other (kept read mem)).trans h

theorem holds_addPattern (pattern : GraphPattern F)
    (kept : ∀ read ∈ constraint.reads syms symbol, read ∉ pattern.bound syms)
    (h : ∀ row ∈ rows graph plan, constraint.Holds graph symbol row) :
    ∀ row ∈ rows graph (addPattern syms plan pattern), constraint.Holds graph symbol row := by
  intro row mem
  cases pattern with
  | nodePattern name label preds => exact h row mem
  | expand | hyperMatch =>
    obtain ⟨pre, isRow, isNext⟩ := List.mem_flatMap.mp mem
    obtain ⟨rel, dst, rfl⟩ := exists_extend (.inl isNext)
    exact holds_extend reading kept (h pre isRow)
  | optionalExpand step =>
    obtain ⟨pre, isRow, isNext⟩ := List.mem_flatMap.mp mem
    obtain ⟨rel, dst, rfl⟩ := exists_extend (.inr isNext)
    exact holds_extend reading kept (h pre isRow)

theorem holds_foldl (patterns : List (GraphPattern F))
    (kept : ∀ pattern ∈ patterns, ∀ read ∈ constraint.reads syms symbol, read ∉ pattern.bound syms)
    (h : ∀ row ∈ rows graph plan, constraint.Holds graph symbol row) :
    ∀ row ∈ rows graph (patterns.foldl (addPattern syms) plan),
      constraint.Holds graph symbol row := by
  induction patterns generalizing plan with
  | nil => exact h
  | cons pattern patterns ih =>
    obtain ⟨now, later⟩ := List.forall_mem_cons.mp kept
    exact ih later (holds_addPattern reading pattern now h)

theorem holds_matched
    (restricted : (buildLogicalPlan syms ast).Restricts syms symbol constraint) :
    ∀ row ∈ rows graph (matchedPlan syms ast), constraint.Holds graph symbol row := by
  have scanned (h : (ast.patterns.foldl (addPattern syms) (rootScan syms ast)).Restricts syms
      symbol constraint) := by
    obtain ⟨root, kept⟩ := (restricts_foldl _).mp h
    exact holds_foldl reading ast.patterns kept (holds_rootScan root)
  intro row mem
  unfold matchedPlan at mem
  dsimp only at mem
  split at mem
  · next none =>
      refine scanned ?_ row mem
      refine (restricts_build.mp restricted).resolve_right ?_
      rw [List.isEmpty_iff.mp none]
      cases constraint <;> simp [Constraint.Of]
  · obtain ⟨isRow, satisfied⟩ := List.mem_filter.mp mem
    rcases restricts_build.mp restricted with root | filtered
    · exact scanned root row isRow
    · cases constraint with
      | label l => cases filtered
      | predicate p => exact List.all_eq_true.mp satisfied p filtered

end

theorem shown_of_build {graph : QueriedGraph F N E}
    (mem : row ∈ rows graph (buildLogicalPlan syms ast)) :
    ∃ whole ∈ rows graph (matchedPlan syms ast),
      ∀ other, row other = whole other ∨ row other = none := by
  have projected : ∀ (outputs : List SymbolId) (row : BindingRow N E), row ∈ rows graph
      (if outputs.isEmpty then matchedPlan syms ast else .project (matchedPlan syms ast) outputs) →
        ∃ whole ∈ rows graph (matchedPlan syms ast),
          ∀ other, row other = whole other ∨ row other = none := by
    intro outputs row mem
    split at mem
    · exact ⟨row, mem, fun other => .inl rfl⟩
    · obtain ⟨whole, isRow, rfl⟩ := List.mem_map.mp mem
      refine ⟨whole, isRow, fun other => ?_⟩
      dsimp only
      split <;> simp
  unfold buildLogicalPlan at mem
  cases limit : ast.returnClause.limit with
  | none =>
    rw [limit] at mem
    exact projected _ row mem
  | some count =>
    rw [limit] at mem
    exact projected _ row (List.mem_of_mem_take mem)

theorem satisfied_of_restricts
    (restricted : (buildLogicalPlan syms ast).Restricts syms symbol constraint) :
    Satisfied ast syms symbol constraint := by
  intro N E graph reading row mem
  obtain ⟨whole, isRow, shown⟩ := shown_of_build mem
  exact ⟨whole, isRow, shown, holds_matched reading restricted whole isRow⟩

/-- For every query that the analyser accepts: its constraints are kept just if each one is in
    the `WHERE` clause or is a constraint of the first node pattern, on the same alias, no
    expansion binds again what it reads, and there is no vector match. -/
theorem keeps_constraints_iff (ast : QueryAst F) (syms : SymbolTable)
    (acc : analyse ast = .ok syms) :
    KeepsConstraints ast syms ↔ ∀ name label preds, .nodePattern name label preds ∈ ast.patterns →
        ∀ constraint : Constraint F, constraint.Of label preds →
          ScansFirst ast syms name constraint ∨ constraint.Of none ast.wherePredicates := by
  refine forall₃_congr fun name label preds => forall_congr' fun mem =>
    forall₂_congr fun constraint _ => ?_
  obtain ⟨symbol, known⟩ := Option.ne_none_iff_exists'.mp (analyse_knows acc mem)
  have zero : syms.getOrZero name = symbol := by simp [SymbolTable.getOrZero, known]
  rw [ScansFirst, ← restricts_rootScan, ← restricts_foldl, ← restricts_build, zero]
  simp only [known, Option.some.injEq, exists_eq_left']
  exact ⟨And.left, fun restricted => ⟨restricted, satisfied_of_restricts restricted⟩⟩

/-- `MATCH (a:L)-[r]->(b)` -/
def labelledStart : QueryAst Unit :=
  { patterns := [.nodePattern "a" (some 1) [],
      .expand ⟨"a", some "r", none, "b", .outgoing, 1, 1⟩] }

theorem labelled_start_is_kept : ∃ syms, analyse labelledStart = .ok syms ∧
    KeepsConstraints labelledStart syms := by
  refine ⟨_, rfl, (keeps_constraints_iff labelledStart _ rfl).mpr ?_⟩
  intro name label preds mem constraint wanted
  simp only [labelledStart, List.mem_cons, nodePattern.injEq, reduceCtorEq, List.not_mem_nil,
    or_false] at mem
  obtain ⟨rfl, rfl, rfl⟩ := mem
  cases constraint with
  | predicate p => cases wanted
  | label l =>
    cases wanted
    refine .inl ⟨⟨rfl, "a", some 1, rfl, rfl, rfl⟩, fun pattern mem =>
      List.forall_mem_singleton.mpr ?_⟩
    revert pattern
    decide

/-- `MATCH (a), (b:L)` -/
def secondLabelled : QueryAst Unit :=
  { patterns := [.nodePattern "a" none [], .nodePattern "b" (some 1) []] }

/-- The label of the second node is dropped. -/
theorem second_label_is_dropped : ∃ syms, analyse secondLabelled = .ok syms ∧
    ¬ KeepsConstraints secondLabelled syms := by
  refine ⟨_, rfl, fun keeps => ?_⟩
  obtain ⟨symbol, -, restricted, -⟩ :=
    keeps "b" (some 1) [] (by simp [secondLabelled]) (.label 1) rfl
  rcases restricts_build.mp restricted with ⟨-, scanned⟩ | filtered
  · cases scanned
  · cases filtered

end HoloSphere.Graph.Query
