import HoloSphere.Graph.Query.PatternSyntax
import Mathlib.Data.List.Forall2

/-! # Path patterns as they are written

A chain of nodes should become one `Expand` per relationship, from the node before it to the
node after it.  The parser finds the source of a relationship by looking at the last pattern
it has pushed, after it has pushed the target if that has a label or a filter, so such a
target becomes its own source.  Hop bounds are cut to eight bits.
-/

namespace HoloSphere.Graph.Query
open Program Reader
variable {F : Type}

def NodeSyntax.shownAlias (node : NodeSyntax) : String := node.nodeAlias.getD anonymous

def NodeSyntax.filtered (node : NodeSyntax) : Bool := node.label.isSome || !node.pairs.isEmpty

def RelSyntax.direction (rel : RelSyntax) : Direction :=
  if rel.incoming = rel.outgoing then .undirected
  else if rel.incoming then .incoming
  else .outgoing

/-- The type of the step is the identifier of the name that is written. -/
def ShowsType (rels : RelTypeCatalog) : Option String → Option RelTypeId → Prop
  | none, shown => shown = none
  | some name, shown => ∃ id, shown = some id ∧ rels.nameToId name = some id

/-- The step leads to the target over the relationship. -/
structure LinkShown (rels : RelTypeCatalog) (rel : RelSyntax) (tgt : NodeSyntax)
    (step : ExpandStep) : Prop where
  dst : step.dstAlias = tgt.shownAlias
  relAlias : step.relAlias = rel.relAlias
  relType : ShowsType rels rel.relType step.relType
  direction : step.direction = rel.direction
  least : step.minHops.toNat = rel.hops.least
  most : step.maxHops.toNat = rel.hops.most

/-- The step is the relationship between two nodes as it is written. -/
structure Shows (rels : RelTypeCatalog) (link : NodeSyntax × RelSyntax × NodeSyntax)
    (step : ExpandStep) : Prop where
  src : step.srcAlias = link.1.shownAlias
  leads : LinkShown rels link.2.1 link.2.2 step

/-- The relationships of a chain with the nodes on both sides. -/
def linksFrom (node : NodeSyntax) :
    List (RelSyntax × NodeSyntax) → List (NodeSyntax × RelSyntax × NodeSyntax)
  | [] => []
  | (rel, next) :: rest => (node, rel, next) :: linksFrom next rest

def ChainSyntax.links (chain : ChainSyntax) : List (NodeSyntax × RelSyntax × NodeSyntax) :=
  linksFrom chain.first chain.steps

def expandSteps (patterns : List (GraphPattern F)) : List ExpandStep :=
  patterns.filterMap fun pattern =>
    match pattern with
    | .expand step => some step
    | .optionalExpand step => some step
    | _ => none

/-- Every bound fits the eight bits of its field. -/
def ChainSyntax.BoundsFit (chain : ChainSyntax) : Prop :=
  ∀ step ∈ chain.steps, step.1.hops.least < 256 ∧ step.1.hops.most < 256

/-- The chain becomes one expand step per relationship, each as written, or an error if a
    bound does not fit. -/
def ParsedAsWritten (f64 : FloatReader F) (opt : Bool) (chain : ChainSyntax)
    (rest : List Token) (out : List (GraphPattern F)) (cats : Catalogs) : Prop :=
  (chain.BoundsFit → ∃ added catalogs', parsePatternChain f64 opt out (chain.text ++ rest, cats) =
      .ok (out ++ added, rest, catalogs') ∧
    List.Forall₂ (Shows catalogs'.rels) chain.links (expandSteps added)) ∧
  (¬ chain.BoundsFit → ∃ e, parsePatternChain f64 opt out (chain.text ++ rest, cats) = .error e)

def RoomFor : RelTypeCatalog → List String → Prop
  | _, [] => True
  | rels, name :: rest =>
    (rels.nameToId name ≠ none ∨ rels.idToName.length ≤ 65535) ∧
      RoomFor (rels.getOrRegister name).2 rest

def typeNamesOf (steps : List (RelSyntax × NodeSyntax)) : List String :=
  steps.flatMap fun step => step.1.relType.toList

theorem typeNamesOf_cons :
    typeNamesOf ((rel, node) :: steps) = rel.relType.toList ++ typeNamesOf steps := rfl

/-- A target with a label or a filter has the alias of the node before it. -/
def FilteredRepeats : NodeSyntax → List (RelSyntax × NodeSyntax) → Prop
  | _, [] => True
  | node, (_, next) :: rest =>
    (next.filtered = true → next.shownAlias = node.shownAlias) ∧ FilteredRepeats next rest

/-- Where the last pushed pattern names the node before each relationship. -/
def Linked (out : List (GraphPattern F)) (chain : ChainSyntax) : Prop :=
  match chain.steps with
  | [] => True
  | (_, fst) :: rest =>
    FilteredRepeats fst rest ∧
    (fst.filtered = true →
      (out = [] ∧ chain.first.nodeAlias = none) ∨ fst.shownAlias = chain.first.shownAlias) ∧
    (fst.filtered = false → chain.first.nodeAlias = none → 2 ≤ out.length →
      out.getLast?.map (GraphPattern.lastAlias anonymous) = some anonymous) ∧
    (fst.filtered = false → chain.first.nodeAlias = none → out = [] → match rest with
      | [] => True
      | (_, snd) :: _ => snd.filtered = false → fst.shownAlias = anonymous)

/-- The second catalog has all names of the first, with the same identifiers. -/
def Extends (pre after : RelTypeCatalog) : Prop :=
  ∀ name id, pre.nameToId name = some id → after.nameToId name = some id

def registered (rels : RelTypeCatalog) (names : List String) : RelTypeCatalog :=
  names.foldl (fun rels name => (rels.getOrRegister name).2) rels

theorem registered_append : registered rels (fst ++ snd) = registered (registered rels fst) snd :=
  List.foldl_append

theorem roomFor_append :
    RoomFor rels (fst ++ snd) ↔ RoomFor rels fst ∧ RoomFor (registered rels fst) snd := by
  induction fst generalizing rels with
  | nil => simp [RoomFor, registered]
  | cons name names ih =>
    simp [RoomFor, ih, registered, and_assoc]

theorem extends_getOrRegister : Extends rels (rels.getOrRegister name).2 := by
  intro other id known
  unfold RelTypeCatalog.getOrRegister
  cases found : rels.nameToId name with
  | some id' => exact known
  | none =>
    simp only
    split
    · exact known
    · have differs : other ≠ name := by
        rintro rfl
        rw [found] at known
        cases known
      simpa [Function.update_of_ne differs] using known

theorem extends_registered (rels : RelTypeCatalog) (names : List String) :
    Extends rels (registered rels names) := by
  induction names generalizing rels with
  | nil => exact fun _ _ known => known
  | cons name names ih =>
    exact fun other id known => ih _ other id (extends_getOrRegister other id known)

theorem getOrRegister_known {rels : RelTypeCatalog} {name : String} {id : RelTypeId}
    (found : (rels.getOrRegister name).1 = some id) :
    (rels.getOrRegister name).2.nameToId name = some id := by
  unfold RelTypeCatalog.getOrRegister at *
  cases known : rels.nameToId name with
  | some id' => simpa [known] using found
  | none =>
    simp only [known] at found ⊢
    split at found
    · cases found
    · simpa [*] using found

theorem getOrRegister_isSome (rels : RelTypeCatalog) : (rels.getOrRegister name).1.isSome = true ↔
      rels.nameToId name ≠ none ∨ rels.idToName.length ≤ 65535 := by
  unfold RelTypeCatalog.getOrRegister
  cases rels.nameToId name with
  | some id => simp
  | none =>
    simp only [ne_eq, not_true_eq_false, false_or]
    split
    · simpa using ‹_›
    · simp only [Option.isSome_some, true_iff]
      omega

theorem registerLabel_rels : (registerLabel label cats).2.rels = cats.rels := by
  cases label <;> rfl

theorem showsType_iff (later : Extends (registered cats.rels relType.toList) rels) :
    ShowsType rels relType (registerRelType relType cats).1 ↔ RoomFor cats.rels relType.toList := by
  cases relType with
  | none => simp [ShowsType, registerRelType, RoomFor]
  | some name =>
    simp only [ShowsType, registerRelType, Option.toList_some, RoomFor, and_true,
      ← getOrRegister_isSome, Option.isSome_iff_exists]
    exact exists_congr fun id =>
      and_iff_left_of_imp fun shown => later name id (getOrRegister_known shown)

@[simp] theorem NodeSyntax.spec_nodeAlias (node : NodeSyntax) :
    (node.spec f64 cats).nodeAlias = node.nodeAlias := rfl

open NodeSyntax

theorem targetPattern_spec (node : NodeSyntax) (cats : Catalogs) :
    targetPattern (node.spec f64 cats) =
      if node.filtered then [.nodePattern node.shownAlias (node.spec f64 cats).label
        (node.spec f64 cats).predicates] else [] := by
  have pushes : ((node.spec f64 cats).label.isSome ||
      !(node.spec f64 cats).predicates.isEmpty) = node.filtered := by
    unfold filtered spec pairValues registerLabel
    cases node.label <;> simp
  rw [targetPattern, pushes]
  rfl

theorem expandSteps_append : expandSteps (fst ++ snd) = expandSteps fst ++ expandSteps snd :=
  List.filterMap_append

@[simp] theorem expandSteps_target : expandSteps (targetPattern dst) = [] := by
  unfold targetPattern
  split <;> rfl

@[simp] theorem expandSteps_expand :
    expandSteps [(expandPattern opt step : GraphPattern F)] = [step] := by
  cases opt <;> rfl

theorem direction_eq (rel : RelSyntax) : directionOf rel.incoming rel.outgoing = rel.direction := by
  unfold RelSyntax.direction
  cases rel.incoming <;> cases rel.outgoing <;> rfl

def RelSyntax.step (rel : RelSyntax) (source : String) (tgt : NodeSyntax)
    (cats : Catalogs) : ExpandStep :=
  ⟨source, rel.relAlias, (registerRelType rel.relType cats).1, tgt.shownAlias,
    directionOf rel.incoming rel.outgoing, UInt8.ofNat rel.hops.least, UInt8.ofNat rel.hops.most⟩

theorem pushedStep_rels (opt : Bool) (firstAlias : Option String) (st : PatternState F)
    (rel : RelSyntax) (node : NodeSyntax) :
    (pushedStep f64 opt firstAlias st (rel, node)).2.rels =
      registered st.2.rels rel.relType.toList := by
  rw [pushedStep, registerLabel_rels]
  cases rel.relType <;> rfl

/-- A pushed step is shown if its bounds fit and its type was registered. -/
theorem linkShown_iff (source : String) (tgt : NodeSyntax)
    (later : Extends (registered cats.rels rel.relType.toList) rels) :
    LinkShown rels rel tgt (rel.step source tgt cats) ↔
      (rel.hops.least < 256 ∧ rel.hops.most < 256) ∧ RoomFor cats.rels rel.relType.toList := by
  rw [← showsType_iff later]
  constructor
  · intro shown
    have least := shown.least
    have most := shown.most
    simp only [RelSyntax.step, UInt8.toNat_ofNat'] at least most
    exact ⟨⟨by omega, by omega⟩, shown.relType⟩
  · rintro ⟨⟨least, most⟩, typed⟩
    refine ⟨rfl, rfl, typed, direction_eq rel, ?_, ?_⟩ <;>
      simp only [RelSyntax.step, UInt8.toNat_ofNat'] <;> omega

section

/-- The number of patterns so far and the alias that the last of them declares. -/
structure Trail (srcAlias : String) (out : List (GraphPattern F)) (count : Nat)
    (last : String) : Prop where
  count : out.length = count
  last : ∀ pattern, out.getLast? = some pattern → pattern.lastAlias srcAlias = last

def nextSource (srcAlias : String) (count : Nat) (last : String) (node : NodeSyntax) : String :=
  if node.filtered then if 1 ≤ count then node.shownAlias else srcAlias
  else if 2 ≤ count then last else srcAlias

/-- Each relationship gets the node before it as its source. -/
def LinkedFrom (srcAlias : String) :
    Nat → String → NodeSyntax → List (RelSyntax × NodeSyntax) → Prop
  | _, _, _, [] => True
  | count, last, node, (_, next) :: rest =>
    nextSource srcAlias count last next = node.shownAlias ∧
      LinkedFrom srcAlias (if next.filtered then count + 2 else count + 1) next.shownAlias next
        rest

variable {last : String} {count : Nat}

theorem sourceOf_target (trail : Trail srcAlias out count last) :
    sourceOf srcAlias (out ++ targetPattern (node.spec f64 cats)) =
      nextSource srcAlias count last node := by
  have size := trail.count
  unfold nextSource
  rw [targetPattern_spec]
  cases node.filtered with
  | true =>
    by_cases pre : 1 ≤ count
    · simp [sourceOf, size, pre, GraphPattern.lastAlias]
    · simp [sourceOf, size, pre]
  | false =>
    by_cases two : 2 ≤ count
    · obtain ⟨pattern, found⟩ : ∃ pattern, out.getLast? = some pattern := by
        cases out with
        | nil => simp [← size] at two
        | cons fst rest => exact ⟨_, List.getLast?_eq_some_getLast (by simp)⟩
      simp [sourceOf, size, two, found, trail.last pattern found]
    · simp [sourceOf, size, two]

theorem Trail.pushed {firstAlias : Option String} {st : PatternState F}
    (trail : Trail (firstAlias.getD anonymous) st.1 count last) (f64 : FloatReader F)
    (opt : Bool) (rel : RelSyntax) (node : NodeSyntax) :
    (pushedStep f64 opt firstAlias st (rel, node)).1 = st.1 ++
        (targetPattern (node.spec f64 (registerRelType rel.relType st.2).2) ++
          [expandPattern opt (rel.step
            (nextSource (firstAlias.getD anonymous) count last node) node st.2)]) ∧
      Trail (firstAlias.getD anonymous) (pushedStep f64 opt firstAlias st (rel, node)).1
        (if node.filtered then count + 2 else count + 1) node.shownAlias := by
  have pushed : (pushedStep f64 opt firstAlias st (rel, node)).1 = st.1 ++
      targetPattern (node.spec f64 (registerRelType rel.relType st.2).2) ++
        [expandPattern opt (rel.step
          (nextSource (firstAlias.getD anonymous) count last node) node st.2)] := by
    rw [← sourceOf_target trail]
    rfl
  refine ⟨by rw [pushed, List.append_assoc], ?_, fun pattern found => ?_⟩
  · rw [pushed, targetPattern_spec]
    cases node.filtered <;> simp [trail.count]
  · rw [pushed, List.getLast?_concat] at found
    cases found
    cases opt <;> rfl

theorem steps_written (fit : ∀ step ∈ steps, step.1.hops.least < 256 ∧ step.1.hops.most < 256)
    (st : PatternState F) (trail : Trail (firstAlias.getD anonymous) st.1 count last)
    (node : NodeSyntax) :
    ∃ added, (steps.foldl (pushedStep f64 opt firstAlias) st).1 = st.1 ++ added ∧
      (steps.foldl (pushedStep f64 opt firstAlias) st).2.rels =
        registered st.2.rels (typeNamesOf steps) ∧
      ∀ rels, Extends (registered st.2.rels (typeNamesOf steps)) rels →
        (List.Forall₂ (Shows rels) (linksFrom node steps) (expandSteps added) ↔
          RoomFor st.2.rels (typeNamesOf steps) ∧
            LinkedFrom (firstAlias.getD anonymous) count last node steps) := by
  induction steps generalizing st count last node with
  | nil =>
    refine ⟨[], by simp, rfl, ?_⟩
    simp [linksFrom, expandSteps, typeNamesOf, RoomFor, LinkedFrom]
  | cons step steps ih =>
    obtain ⟨rel, next⟩ := step
    obtain ⟨fits, others⟩ := List.forall_mem_cons.mp fit
    obtain ⟨pushed, grown⟩ := trail.pushed f64 opt rel next
    obtain ⟨added, patterns, rels, written⟩ := ih others _ grown next
    rw [pushedStep_rels] at rels written
    refine ⟨_, by rw [List.foldl_cons, patterns, pushed, List.append_assoc], ?_,
      fun final later => ?_⟩
    · rw [List.foldl_cons, rels, typeNamesOf_cons, registered_append]
    · rw [typeNamesOf_cons, registered_append] at later
      have here : Extends (registered st.2.rels rel.relType.toList) final :=
        fun name id known => later name id (extends_registered _ _ name id known)
      have shown : Shows final (node, rel, next) (rel.step
          (nextSource (firstAlias.getD anonymous) count last next) next st.2) ↔
          nextSource (firstAlias.getD anonymous) count last next = node.shownAlias ∧
            RoomFor st.2.rels rel.relType.toList := by
        have leads := linkShown_iff (nextSource (firstAlias.getD anonymous) count last next)
          next here
        rw [and_iff_right fits] at leads
        rw [← leads]
        exact ⟨fun shown => ⟨shown.src, shown.leads⟩, fun both => ⟨both.1, both.2⟩⟩
      rw [expandSteps_append, expandSteps_append, expandSteps_target, expandSteps_expand,
        List.nil_append, List.singleton_append, linksFrom, List.forall₂_cons,
        written final later, shown, LinkedFrom, typeNamesOf_cons, roomFor_append]
      tauto

end

/-- Once there are two patterns, only filtered targets are a problem. -/
theorem linkedFrom_of_two_le (two : 2 ≤ count) :
    LinkedFrom srcAlias count node.shownAlias node steps ↔ FilteredRepeats node steps := by
  induction steps generalizing count node with
  | nil => simp [LinkedFrom, FilteredRepeats]
  | cons step steps ih =>
    obtain ⟨rel, next⟩ := step
    cases filtered : next.filtered with
    | true =>
      simp [LinkedFrom, FilteredRepeats, nextSource, filtered, if_pos (show 1 ≤ count by omega),
        ih (show 2 ≤ count + 2 by omega)]
    | false =>
      simp [LinkedFrom, FilteredRepeats, nextSource, filtered, if_pos two,
        ih (show 2 ≤ count + 1 by omega)]

theorem linkedFrom_named {chain : ChainSyntax} (named : chain.first.nodeAlias = some name) :
    LinkedFrom chain.first.shownAlias (out.length + 1) chain.first.shownAlias chain.first
      chain.steps ↔ Linked out chain := by
  unfold Linked
  cases chain.steps with
  | nil => simp [LinkedFrom]
  | cons step rest =>
    obtain ⟨rel, next⟩ := step
    cases filtered : next.filtered with
    | true =>
      simp only [LinkedFrom, nextSource, filtered, if_true, named, reduceCtorEq,
        if_pos (show 1 ≤ out.length + 1 by omega),
        linkedFrom_of_two_le (show 2 ≤ out.length + 1 + 2 by omega)]
      simp [and_comm]
    | false =>
      simp only [LinkedFrom, nextSource, filtered, Bool.false_eq_true, if_false, ite_self,
        named, reduceCtorEq,
        linkedFrom_of_two_le (show 2 ≤ out.length + 1 + 1 by omega)]
      simp

/-- After an anonymous first node and an unfiltered target there is a single pattern, so the
    second relationship does not look at it. -/
theorem linkedFrom_one :
    LinkedFrom anonymous 1 node.shownAlias node steps ↔ FilteredRepeats node steps ∧
        match steps with
        | [] => True
        | (_, snd) :: _ => snd.filtered = false → node.shownAlias = anonymous := by
  cases steps with
  | nil => simp [LinkedFrom, FilteredRepeats]
  | cons step rest =>
    obtain ⟨rel, next⟩ := step
    cases filtered : next.filtered with
    | true =>
      simp [LinkedFrom, nextSource, filtered, FilteredRepeats,
        linkedFrom_of_two_le (show 2 ≤ 3 by omega)]
    | false =>
      simp [LinkedFrom, nextSource, filtered, FilteredRepeats, linkedFrom_of_two_le (Nat.le_refl 2)]
      rw [and_comm, eq_comm]

theorem linkedFrom_anonymous {chain : ChainSyntax} (unnamed : chain.first.nodeAlias = none)
    (out : List (GraphPattern F))
    (isLast : ∀ pattern, out.getLast? = some pattern → pattern.lastAlias anonymous = last) :
    LinkedFrom anonymous out.length last chain.first chain.steps ↔ Linked out chain := by
  have shown : chain.first.shownAlias = anonymous := by simp [shownAlias, unnamed]
  unfold Linked
  cases chain.steps with
  | nil => simp [LinkedFrom]
  | cons step rest =>
    obtain ⟨rel, next⟩ := step
    cases filtered : next.filtered with
    | true =>
      simp only [LinkedFrom, nextSource, filtered, if_true, unnamed, shown,
        linkedFrom_of_two_le (show 2 ≤ out.length + 2 by omega)]
      cases out with
      | nil => simp
      | cons pattern others => simp [and_comm]
    | false =>
      simp only [LinkedFrom, nextSource, filtered, Bool.false_eq_true, if_false, unnamed, shown]
      cases out with
      | nil => simp [linkedFrom_one]
      | cons pattern others =>
        obtain ⟨final, found⟩ : ∃ final, (pattern :: others).getLast? = some final :=
          ⟨_, List.getLast?_eq_some_getLast (by simp)⟩
        rw [linkedFrom_of_two_le (show 2 ≤ (pattern :: others).length + 1 by simp), found,
          Option.map_some, isLast final found]
        simp [and_comm]

theorem ChainSyntax.pushed_written {chain : ChainSyntax} (fit : chain.BoundsFit) (opt : Bool)
    (st : PatternState F) :
    ∃ added, (chain.pushed f64 opt st).1 = st.1 ++ added ∧
      (List.Forall₂ (Shows (chain.pushed f64 opt st).2.rels) chain.links (expandSteps added) ↔
        RoomFor st.2.rels (typeNamesOf chain.steps) ∧ Linked st.1 chain) := by
  obtain ⟨fst, isFirst⟩ : ∃ fst, fst = firstPattern (chain.first.spec f64 st.2) := ⟨_, rfl⟩
  obtain ⟨last, trail, linked⟩ : ∃ last, Trail (chain.first.nodeAlias.getD anonymous)
      (st.1 ++ fst) (st.1 ++ fst).length last ∧
      (LinkedFrom (chain.first.nodeAlias.getD anonymous) (st.1 ++ fst).length last chain.first
        chain.steps ↔ Linked st.1 chain) := by
    cases named : chain.first.nodeAlias with
    | none =>
      have empty : fst = [] := by simp [isFirst, firstPattern, named]
      have isLast : ∀ pattern, st.1.getLast? = some pattern → pattern.lastAlias anonymous =
            (st.1.getLast?.map (GraphPattern.lastAlias anonymous)).getD anonymous := by
        intro pattern found
        rw [found]
        rfl
      rw [empty, List.append_nil]
      exact ⟨_, ⟨rfl, isLast⟩, linkedFrom_anonymous named st.1 isLast⟩
    | some name =>
      have shown : chain.first.shownAlias = name := by simp [shownAlias, named]
      have single : fst = [.nodePattern name (chain.first.spec f64 st.2).label
          (chain.first.spec f64 st.2).predicates] := by simp [isFirst, firstPattern, named]
      refine ⟨name, ⟨rfl, fun pattern found => ?_⟩, ?_⟩
      · rw [single, List.getLast?_concat] at found
        cases found
        rfl
      · rw [single, List.length_append, ← linkedFrom_named named, shown]
        rfl
  obtain ⟨added, patterns, rels, written⟩ := steps_written fit
    (st.1 ++ fst, (registerLabel chain.first.label st.2).2) trail chain.first
  have noSteps : expandSteps fst = [] := by
    rw [isFirst, firstPattern]
    split <;> rfl
  refine ⟨fst ++ added, by rw [ChainSyntax.pushed, ← isFirst, patterns, List.append_assoc], ?_⟩
  rw [ChainSyntax.pushed, ← isFirst, rels, ChainSyntax.links, expandSteps_append, noSteps,
    List.nil_append, written _ fun _ _ known => known, linked, registerLabel_rels]

section
variable {opt : Bool} (ends : next Token.relStart rest = none) {out : List (GraphPattern F)}
include ends

theorem parsedAsWritten_of_fit (fit : chain.BoundsFit) :
    ParsedAsWritten f64 opt chain rest out cats ↔
      chain.Readable f64 ∧ RoomFor cats.rels (typeNamesOf chain.steps) ∧ Linked out chain := by
  have parses := @parsePatternChain_text F opt rest f64 chain ends (out, cats)
  obtain ⟨added, patterns, written⟩ :=
    @ChainSyntax.pushed_written F f64 chain fit opt (out, cats)
  simp only [ParsedAsWritten, fit, true_implies, not_true_eq_false, false_implies, and_true, parses,
    ← written, patterns, Prod.mk.injEq, List.append_cancel_left_eq, true_and]
  constructor
  · rintro ⟨_, _, ⟨readable, rfl, rfl⟩, shown⟩
    exact ⟨readable, shown⟩
  · rintro ⟨readable, shown⟩
    exact ⟨_, _, ⟨readable, rfl, rfl⟩, shown⟩

theorem parsedAsWritten_of_not_fit (unfit : ¬ chain.BoundsFit) :
    ParsedAsWritten f64 opt chain rest out cats ↔ ¬ chain.Readable f64 := by
  have parses := @parsePatternChain_text F opt rest f64 chain ends (out, cats)
  simp only [ParsedAsWritten, unfit, false_implies, not_false_eq_true, true_implies, true_and]
  cases parsed : parsePatternChain f64 opt out (chain.text ++ rest, cats) with
  | error e =>
    simp only [Except.error.injEq, exists_eq', true_iff]
    intro readable
    have taken := (parses _).mpr ⟨readable, rfl⟩
    rw [parsed] at taken
    cases taken
  | ok res => simp [((parses res).mp parsed).1]

end

/-- For every chain, wherever it stands in a query: it is parsed as written if all bounds fit
    eight bits, the literals can be read, the catalog has room for the types, and the last
    pushed pattern names the node before each relationship; and, if a bound does not fit, if
    it does not even fit `usize` or a literal cannot be read. -/
theorem chain_parsed_as_written_iff (f64 : FloatReader F) (opt : Bool) (chain : ChainSyntax)
    {rest : List Token} (ends : next Token.relStart rest = none) (out : List (GraphPattern F))
    (cats : Catalogs) :
    ParsedAsWritten f64 opt chain rest out cats ↔
      (chain.BoundsFit ∧ chain.Readable f64 ∧ RoomFor cats.rels (typeNamesOf chain.steps) ∧
        Linked out chain) ∨
      (¬ chain.BoundsFit ∧ ¬ chain.Readable f64) := by
  by_cases fit : chain.BoundsFit
  · simp [parsedAsWritten_of_fit ends fit, fit]
  · simp [parsedAsWritten_of_not_fit ends fit, fit]

/-- A reader that takes every text for zero. -/
def zeroReader : FloatReader Unit := ⟨fun _ => some (), fun _ => true⟩

/-- `(a:L)-[:T]->(b)<-[:S*2..3]-()-[]-(d)` -/
def plainChain : ChainSyntax :=
  ⟨⟨some "a", some "L", none⟩,
    [({ incoming := false, outgoing := true, relType := some "T" }, ⟨some "b", none, none⟩),
      ({ incoming := true, outgoing := false, relType := some "S"
         hops := .between ⟨['2'], by simp, by simp⟩ ⟨['3'], by simp, by simp⟩ },
        ⟨none, none, none⟩),
      ({ incoming := false, outgoing := false }, ⟨some "d", none, none⟩)]⟩

/-- `(a)-[]->(b:L)` -/
def labelledChain : ChainSyntax :=
  ⟨⟨some "a", none, none⟩, [({ incoming := false, outgoing := true }, ⟨some "b", some "L", none⟩)]⟩

theorem unlabelled_chain_is_parsed_as_written :
    ParsedAsWritten zeroReader false plainChain [] [] Catalogs.empty := by
  refine (chain_parsed_as_written_iff zeroReader false plainChain rfl [] Catalogs.empty).mpr
    (.inl ⟨?_, ?_, ?_, ?_⟩)
  · simp [ChainSyntax.BoundsFit, plainChain, Hops.least, Hops.most, IntText.value,
      Nat.ofDigitChars]
  · simp [ChainSyntax.Readable, plainChain, Readable, pairs,
      RelSyntax.Readable, Hops.least, Hops.most, IntText.value, Nat.ofDigitChars]
  · exact ⟨.inr (by decide), .inr (by decide), trivial⟩
  · simp [Linked, plainChain, filtered, pairs, FilteredRepeats]

/-- The expand step of the chain goes from `b` to `b`. -/
theorem labelled_target_is_its_own_source :
    ¬ ParsedAsWritten zeroReader false labelledChain [] [] Catalogs.empty := by
  rw [parsedAsWritten_of_fit rfl]
  · simp [Linked, labelledChain, filtered, shownAlias]
  · simp [ChainSyntax.BoundsFit, labelledChain, Hops.least, Hops.most]

end HoloSphere.Graph.Query
