import HoloSphere.Graph.Query.ChainLinks
import HoloSphere.Graph.Query.PredicateSyntax

/-! # What of a query the tree shows

Each part of a query is compared with what the tree holds for it.  Two things can go wrong
between them: a number is cut down to its field or is no number, and a name is dropped.
-/

namespace HoloSphere.Graph.Query
open List Operand
variable {F : Type}

def Literal.meaning (f64 : FloatReader F) : Literal → Option (Value F)
  | .string text => some (.string text)
  | .int text => some (.integer text.value)
  | .float text => (f64.parse text).map .float
  | .bool b => some (.bool b)
  | .null => some .null

def Literal.Fits (f64 : FloatReader F) : Literal → Prop
  | .int text => text.value < 2 ^ 63
  | .float text => ∃ f, f64.parse text = some f ∧ f64.isFinite f = true
  | _ => True

theorem Literal.fits_iff (literal : Literal) :
    literal.Fits f64 ↔ literal.Readable f64 ∧ literal.meaning f64 = some (literal.value f64) := by
  cases literal with
  | float text =>
    cases parsed : f64.parse text with
    | none => simp [Literal.Fits, Literal.Readable, parsed]
    | some f =>
      cases finite : f64.isFinite f <;>
        simp [Literal.Fits, Literal.Readable, Literal.meaning, Literal.value, parsed, finite]
  | _ => simp [Literal.Fits, Literal.Readable, Literal.meaning, Literal.value]

theorem Literal.finite_of_value {literal : Literal} (same : literal.value f64 = .float f) :
    f64.isFinite f = true := by
  cases literal with
  | float text =>
    cases parsed : f64.parse text with
    | none => simp [Literal.value, parsed] at same
    | some g => cases finite : f64.isFinite g <;> simp_all [Literal.value]
  | _ => cases same

/-- If one literal is shown by what another one became, both became the same. -/
theorem Literal.value_eq_of_meaning {literal other : Literal}
    (shown : literal.meaning f64 = some (other.value f64)) :
    literal.value f64 = other.value f64 := by
  cases literal with
  | float text =>
    obtain ⟨f, parsed, same⟩ := Option.map_eq_some_iff.mp shown
    simp [Literal.value, parsed, Literal.finite_of_value same.symm, same]
  | _ => exact Option.some.inj shown

def Operand.meaning (f64 : FloatReader F) : Operand → Option (PredicateValue F)
  | .literal written => (written.meaning f64).map .literal
  | .parameter name => some (.parameter name)
  | .property owner key => some (.propertyRef owner key)

def Operand.Fits (f64 : FloatReader F) : Operand → Prop
  | .literal written => written.Fits f64
  | _ => True

theorem Operand.fits_iff (opd : Operand) :
    opd.Fits f64 ↔ opd.Readable f64 ∧ opd.meaning f64 = some (opd.value f64) := by
  cases opd with
  | literal written =>
    simp [Fits, Literal.fits_iff, Readable, meaning, value]
  | _ => simp [Fits, Readable, meaning, value]

theorem Predicate.map_map {U V W : Type} (f : U → V) (g : V → W) (pred : Predicate U) :
    (pred.map f).map g = pred.map (g ∘ f) := by
  induction pred <;> simp_all [Predicate.map]

theorem Predicate.map_inj {V W : Type} {f g : V → W} (pred : Predicate V) :
    pred.map f = pred.map g ↔ ∀ opd ∈ pred.operands, f opd = g opd := by
  induction pred with
  | and left right ihl ihr | or left right ihl ihr =>
    simp [Predicate.map, Predicate.operands, ihl, ihr, or_imp, forall_and]
  | not inner ih => simp [Predicate.map, Predicate.operands, ih]
  | _ => simp [Predicate.map, Predicate.operands]

def PredicateShown (f64 : FloatReader F) (pred : Predicate Operand)
    (shown : ScalarPredicate F) : Prop :=
  pred.map (meaning f64) = shown.map some

theorem predicate_fits_iff (pred : Predicate Operand) : (∀ opd ∈ pred.operands, opd.Fits f64) ↔
      pred.Readable f64 ∧ PredicateShown f64 pred (pred.value f64) := by
  rw [PredicateShown, Predicate.value, Predicate.map_map, Predicate.map_inj, Predicate.Readable]
  simp only [fits_iff, imp_and, forall_and]
  rfl

/-- The second catalog has all labels of the first, with the same identifiers. -/
def ExtendsLabels (pre after : LabelCatalog) : Prop :=
  ∀ name id, pre.nameToId name = some id → after.nameToId name = some id

theorem extendsLabels_register (label : Option String) (cats : Catalogs) :
    ExtendsLabels cats.labels (registerLabel label cats).2.labels := by
  cases label with
  | none => exact fun _ _ known => known
  | some name =>
    intro other id known
    simp only [registerLabel, LabelCatalog.getOrRegister]
    cases found : cats.labels.nameToId name with
    | some id' => exact known
    | none =>
      have differs : other ≠ name := by
        rintro rfl
        rw [found] at known
        cases known
      simpa [Function.update_of_ne differs] using known

def ShowsLabel (labels : LabelCatalog) : Option String → Option LabelId → Prop
  | none, shown => shown = none
  | some name, shown => ∃ id, shown = some id ∧ labels.nameToId name = some id

theorem showsLabel_register (later : ExtendsLabels (registerLabel label cats).2.labels labels) :
    ShowsLabel labels label (registerLabel label cats).1 := by
  cases label with
  | none => rfl
  | some name =>
    refine ⟨_, rfl, later _ _ ?_⟩
    simp only [registerLabel, LabelCatalog.getOrRegister]
    cases found : cats.labels.nameToId name with
    | some id => exact found
    | none => simp

/-- The equations that a property filter writes. -/
def NodeSyntax.filters (f64 : FloatReader F) (node : NodeSyntax) :
    List (Option (ScalarPredicate F)) :=
  node.pairs.map fun pair =>
    (pair.2.meaning f64).map fun val => propPredicate node.nodeAlias (pair.1, val)

def NodeShown (f64 : FloatReader F) (labels : LabelCatalog) (node : NodeSyntax)
    (shown : GraphPattern F) : Prop :=
  ∃ label preds, shown = .nodePattern node.shownAlias label preds ∧
    ShowsLabel labels node.label label ∧ node.filters f64 = preds.map some

def NodeSyntax.Fits (f64 : FloatReader F) (node : NodeSyntax) : Prop :=
  ∀ pair ∈ node.pairs, pair.2.Fits f64

theorem NodeSyntax.fits_iff (node : NodeSyntax) (cats : Catalogs) :
    node.Fits f64 ↔ node.Readable f64 ∧
      node.filters f64 = (node.spec f64 cats).predicates.map some := by
  simp only [NodeSyntax.Fits, NodeSyntax.Readable, NodeSyntax.filters, NodeSyntax.spec, pairValues,
    map_map, map_inj_left, Literal.fits_iff, imp_and, forall_and]
  refine and_congr_right fun _ => forall₂_congr fun pair _ => ?_
  cases pair.2.meaning f64 <;> simp [propPredicate]

theorem nodeShown_iff (node : NodeSyntax) (cats : Catalogs) {labels : LabelCatalog}
    (later : ExtendsLabels (registerLabel node.label cats).2.labels labels) :
    node.Readable f64 ∧ NodeShown f64 labels node (.nodePattern node.shownAlias
      (node.spec f64 cats).label (node.spec f64 cats).predicates) ↔ node.Fits f64 := by
  rw [node.fits_iff cats]
  refine and_congr_right fun _ => ⟨?_, fun same => ?_⟩
  · rintro ⟨label, preds, same, -, filters⟩
    cases same
    exact filters
  · exact ⟨_, _, rfl, showsLabel_register later, same⟩

/-- The patterns that a text writes.  A pattern of a single node has no optional form. -/
inductive Written where
  | lone (opt : Bool) (node : NodeSyntax)
  | node (node : NodeSyntax)
  | link (opt : Bool) (rel : RelSyntax) (tgt : NodeSyntax)

def Written.Shown (f64 : FloatReader F) (cats : Catalogs) : Written → GraphPattern F → Prop
  | .lone opt single, shown => opt = false ∧ NodeShown f64 cats.labels single shown
  | .node single, shown => NodeShown f64 cats.labels single shown
  | .link opt rel tgt, shown =>
    ∃ step, shown = expandPattern opt step ∧ LinkShown cats.rels rel tgt step

def stepWritten (opt : Bool) (step : RelSyntax × NodeSyntax) : List Written :=
  (if step.2.filtered then [.node step.2] else []) ++ [.link opt step.1 step.2]

/-- What a node without relationships or at the start of a chain writes. -/
def firstWritten (opt : Bool) (chain : ChainSyntax) : List Written :=
  if chain.steps.isEmpty then [.lone opt chain.first]
  else if chain.first.nodeAlias.isSome || chain.first.filtered then [.node chain.first]
  else []

def ChainSyntax.written (opt : Bool) (chain : ChainSyntax) : List Written :=
  firstWritten opt chain ++ chain.steps.flatMap (stepWritten opt)

/-- The hop bounds fit their fields and the literals of the target are values. -/
def StepFits (f64 : FloatReader F) (step : RelSyntax × NodeSyntax) : Prop :=
  (step.1.hops.least < 256 ∧ step.1.hops.most < 256) ∧ step.2.Fits f64

/-- The first node is pushed, or there is nothing to push, and `OPTIONAL` stands before a
    relationship. -/
structure FirstKept (f64 : FloatReader F) (opt : Bool) (chain : ChainSyntax) : Prop where
  pushed : chain.first.nodeAlias ≠ none ∨ chain.first.filtered = false ∧ chain.steps ≠ []
  linked : opt = true → chain.steps ≠ []
  fits : chain.first.Fits f64

/-- Everything that the chain says is in the tree. -/
def ChainSyntax.Kept (f64 : FloatReader F) (opt : Bool) (chain : ChainSyntax) : Prop :=
  FirstKept f64 opt chain ∧ ∀ step ∈ chain.steps, StepFits f64 step

/-- What a part of a query adds to the patterns and the catalogs, and when it is what is
    written. -/
def Writes (f64 : FloatReader F) (push : PatternState F → PatternState F)
    (written : List Written) (names : List String) (readable kept : Prop) : Prop :=
  ∀ st, ∃ added, (push st).1 = st.1 ++ added ∧ added.length ≤ written.length ∧
    (push st).2.rels = registered st.2.rels names ∧
    ExtendsLabels st.2.labels (push st).2.labels ∧
    ∀ final : Catalogs, Extends (push st).2.rels final.rels →
      ExtendsLabels (push st).2.labels final.labels →
      (readable ∧ List.Forall₂ (Written.Shown f64 final) written added ↔
        kept ∧ RoomFor st.2.rels names)

theorem forall₂_append_iff {α β : Type} {R : α → β → Prop} {fst snd : List α}
    {firsts seconds : List β} (one : firsts.length ≤ fst.length)
    (two : seconds.length ≤ snd.length) :
    List.Forall₂ R (fst ++ snd) (firsts ++ seconds) ↔
      List.Forall₂ R fst firsts ∧ List.Forall₂ R snd seconds := by
  refine ⟨fun related => ?_, fun both => rel_append both.1 both.2⟩
  have lengths := related.length_eq
  rw [length_append, length_append] at lengths
  have same : firsts.length = fst.length := by omega
  have front := forall₂_take_append _ _ _ related
  have back := forall₂_drop_append _ _ _ related
  rw [same, take_left] at front
  rw [same, drop_left] at back
  exact ⟨front, back⟩

section
variable {readable readable' kept kept' : Prop}

theorem Writes.none : Writes f64 (fun st => st) [] [] True True := fun st =>
  ⟨[], by simp, Nat.le_refl _, rfl, fun _ _ known => known, by simp [RoomFor]⟩

theorem Writes.comp (one : Writes f64 push written names readable kept)
    (two : Writes f64 push' written' names' readable' kept') :
    Writes f64 (push' ∘ push) (written ++ written') (names ++ names') (readable ∧ readable')
      (kept ∧ kept') := by
  intro st
  obtain ⟨added, patterns, short, rels, labels, shown⟩ := one st
  obtain ⟨added', patterns', short', rels', labels', shown'⟩ := two (push st)
  refine ⟨added ++ added', ?_, ?_, ?_, ?_, fun final laterRels laterLabels => ?_⟩
  · rw [Function.comp_apply, patterns', patterns, append_assoc]
  · simp only [length_append]
    omega
  · rw [Function.comp_apply, rels', rels, registered_append]
  · exact fun name id known => labels' name id (labels name id known)
  · have midRels : Extends (push st).2.rels final.rels := by
      rw [Function.comp_apply, rels'] at laterRels
      exact fun name id known => laterRels name id (extends_registered _ _ name id known)
    have midLabels : ExtendsLabels (push st).2.labels final.labels :=
      fun name id known => laterLabels name id (labels' name id known)
    rw [forall₂_append_iff short short', roomFor_append, ← rels]
    have here := shown final midRels midLabels
    have there := shown' final laterRels laterLabels
    tauto

theorem Writes.foldl {α : Type} {push : PatternState F → α → PatternState F}
    {written : α → List Written} {names : α → List String} {readable kept : α → Prop}
    (parts : List α)
    (each : ∀ part, Writes f64 (push · part) (written part) (names part) (readable part)
      (kept part)) :
    Writes f64 (parts.foldl push ·) (parts.flatMap written) (parts.flatMap names)
      (∀ part ∈ parts, readable part) (∀ part ∈ parts, kept part) := by
  induction parts with
  | nil => simpa using Writes.none
  | cons part parts ih =>
    simp only [flatMap_cons, forall_mem_cons]
    exact (each part).comp ih

end

/-- The pattern of a relationship shows it just if the bounds fit and the type is known. -/
theorem linkWritten_iff (opt : Bool) (rel : RelSyntax) (src : String)
    (tgt : NodeSyntax) (cats final : Catalogs)
    (later : Extends (registered cats.rels rel.relType.toList) final.rels) :
    (Written.link opt rel tgt).Shown f64 final (expandPattern opt (rel.step src tgt cats)) ↔
      (rel.hops.least < 256 ∧ rel.hops.most < 256) ∧ RoomFor cats.rels rel.relType.toList := by
  rw [← linkShown_iff src tgt later]
  constructor
  · rintro ⟨step, same, shown⟩
    cases opt <;> cases same <;> exact shown
  · exact fun shown => ⟨_, rfl, shown⟩

/-- A relationship and its target. -/
theorem writes_step (f64 : FloatReader F) (opt : Bool) (step : RelSyntax × NodeSyntax) :
    Writes f64 (pushedStep f64 opt firstAlias · step) (stepWritten opt step)
      step.1.relType.toList (step.1.Readable ∧ step.2.Readable f64) (StepFits f64 step) := by
  obtain ⟨rel, node⟩ := step
  intro st
  obtain ⟨cats, isCatalogs⟩ : ∃ cats, cats = (registerRelType rel.relType st.2).2 := ⟨_, rfl⟩
  obtain ⟨src, pushed⟩ : ∃ src, (pushedStep f64 opt firstAlias st (rel, node)).1 =
      st.1 ++ (targetPattern (node.spec f64 cats) ++
        [expandPattern opt (rel.step src node st.2)]) := by
    refine ⟨sourceOf (firstAlias.getD anonymous) (st.1 ++ targetPattern (node.spec f64 cats)), ?_⟩
    rw [← append_assoc, isCatalogs]
    rfl
  refine ⟨_, pushed, ?_, pushedStep_rels opt firstAlias st rel node, ?_,
    fun final laterRels laterLabels => ?_⟩
  · rw [targetPattern_spec, stepWritten]
    cases node.filtered <;> simp
  · have labels := extendsLabels_register node.label cats
    rw [isCatalogs] at labels
    cases relType : rel.relType <;> simpa [pushedStep, registerRelType, relType] using labels
  · rw [pushedStep_rels] at laterRels
    have link := @linkWritten_iff F f64 opt rel src node st.2 final laterRels
    have tgt := @nodeShown_iff F f64 node cats final.labels (by rwa [isCatalogs])
    have readable : StepFits f64 (rel, node) → rel.Readable := by
      rintro ⟨⟨least, most⟩, -⟩
      exact ⟨Nat.lt_trans least (by decide), Nat.lt_trans most (by decide)⟩
    have plain : node.filtered = false → (node.Readable f64 ∧ node.Fits f64) := by
      intro unfiltered
      simp only [NodeSyntax.filtered, Bool.or_eq_false_iff, Bool.not_eq_false',
        List.isEmpty_iff] at unfiltered
      simp [NodeSyntax.Readable, NodeSyntax.Fits, unfiltered.2]
    rw [targetPattern_spec, stepWritten]
    simp only [StepFits] at readable ⊢
    cases filtered : node.filtered with
    | true =>
      simp only [if_true, singleton_append, forall₂_cons, forall₂_nil_left_iff, and_true, link]
      tauto
    | false =>
      have := plain filtered
      simp only [Bool.false_eq_true, if_false, nil_append, forall₂_cons,
        forall₂_nil_left_iff, and_true, link]
      tauto

theorem writes_first (f64 : FloatReader F) (opt : Bool) :
    Writes f64 (fun st => (st.1 ++ firstPattern (chain.first.spec f64 st.2),
        (registerLabel chain.first.label st.2).2)) (firstWritten opt chain) []
      (chain.first.Readable f64) (FirstKept f64 opt chain) := by
  intro st
  refine ⟨_, rfl, ?_, by rw [registerLabel_rels]; rfl, extendsLabels_register _ _,
    fun final laterRels laterLabels => ?_⟩
  · unfold firstPattern firstWritten
    cases named : chain.first.nodeAlias <;> cases chain.steps <;> simp [named]
  · have shown := @nodeShown_iff F f64 chain.first st.2 final.labels laterLabels
    have kept : FirstKept f64 opt chain ↔
        (chain.first.nodeAlias ≠ none ∨ chain.first.filtered = false ∧ chain.steps ≠ []) ∧
          (opt = true → chain.steps ≠ []) ∧ chain.first.Fits f64 :=
      ⟨fun ⟨pushed, linked, fits⟩ => ⟨pushed, linked, fits⟩,
        fun ⟨pushed, linked, fits⟩ => ⟨pushed, linked, fits⟩⟩
    rw [kept, ← shown]
    unfold firstPattern firstWritten
    cases named : chain.first.nodeAlias with
    | some name =>
      have same : chain.first.shownAlias = name := by simp [NodeSyntax.shownAlias, named]
      cases steps : chain.steps <;> cases opt <;>
        simp [named, Written.Shown, RoomFor, same]
    | none =>
      cases steps : chain.steps with
      | nil => simp [named]
      | cons step steps =>
        cases filtered : chain.first.filtered with
        | true => simp [named]
        | false =>
          simp only [NodeSyntax.filtered, Bool.or_eq_false_iff, Bool.not_eq_false',
            List.isEmpty_iff] at filtered
          have fits : chain.first.Fits f64 := by simp [NodeSyntax.Fits, filtered.2]
          simp [named, RoomFor, shown.mpr fits]

theorem writes_chain (f64 : FloatReader F) (opt : Bool) (chain : ChainSyntax) :
    Writes f64 (chain.pushed f64 opt) (chain.written opt) (typeNamesOf chain.steps)
      (chain.Readable f64) (chain.Kept f64 opt) :=
  (writes_first f64 opt).comp
    (Writes.foldl chain.steps (writes_step f64 opt))

end HoloSphere.Graph.Query
