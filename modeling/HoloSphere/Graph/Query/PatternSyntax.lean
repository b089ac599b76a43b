import HoloSphere.Graph.Query.Parser

/-! # Path patterns and their texts

Nodes, relationships and chains as they are written, each with the tokens of its text and
with what the parser makes of it.  On the text of a form the parser succeeds just if the
numbers in it can be read, and then returns this value.
-/

namespace HoloSphere.Graph.Query
open Program Reader
variable {F α : Type}

section
variable {β : Type} {token : Token}

@[simp] theorem Token.only_self (token : Token) : token.only token = some () := if_pos rfl

theorem expectSome_cons (tells : Token → Option α) (msg : String) :
    expectSome tells msg (token :: rest, cats) = match tells token with
      | some value => .ok (value, rest, cats)
      | none => .error (.invalid msg) := by
  cases said : tells token <;> simp [expectSome, advance, said, Except.map]

theorem whenNext_cons (tells : Token → Option α) (yes : α → Parser β) (no : Parser β) :
    whenNext tells yes no (token :: rest, cats) = match tells token with
      | some value => yes value (rest, cats)
      | none => no (token :: rest, cats) := by
  cases said : tells token <;> simp [whenNext, said]

end

inductive Literal where
  | string (text : String)
  | int (text : IntText)
  | float (text : String)
  | bool (b : Bool)
  | null
  deriving DecidableEq

def Literal.token : Literal → Token
  | .string text => .stringLit text
  | .int text => .intLit text
  | .float text => .floatLit text
  | .bool true => .trueKw
  | .bool false => .falseKw
  | .null => .null

/-- The number fits the type it is read as. -/
def Literal.Readable (f64 : FloatReader F) : Literal → Prop
  | .int text => text.value < 2 ^ 63
  | .float text => ∃ f, f64.parse text = some f
  | _ => True

/-- What a readable literal becomes; an infinite number becomes `null`. -/
def Literal.value (f64 : FloatReader F) : Literal → Value F
  | .string text => .string text
  | .int text => .integer text.value
  | .float text =>
    match f64.parse text with
    | some f => if f64.isFinite f then .float f else .null
    | none => .null
  | .bool b => .bool b
  | .null => .null

theorem literalValue_token {literal : Literal} : literalValue f64 literal.token = .ok value ↔
      literal.Readable f64 ∧ literal.value f64 = value := by
  cases literal with
  | string text | null => simp [literalValue, Literal.token, Literal.Readable, Literal.value]
  | bool b =>
    cases b <;> simp [literalValue, Literal.token, Literal.Readable, Literal.value]
  | int text => exact literalValue_int
  | float text =>
    cases parsed : f64.parse text with
    | none => simp [literalValue, Literal.token, Literal.Readable, parsed]
    | some f =>
      cases finite : f64.isFinite f <;>
        simp [literalValue, Literal.token, Literal.Readable, Literal.value, parsed, finite]

/-- `(alias:Label {key: literal, ...})`, each part optional. -/
structure NodeSyntax where
  nodeAlias : Option String
  label : Option String
  props : Option (List (String × Literal))

def NodeSyntax.pairs (node : NodeSyntax) : List (String × Literal) := node.props.getD []

def nameText (name : Option String) : List Token := name.toList.map .ident

/-- A colon and a name. -/
def labelText (label : Option String) : List Token :=
  label.elim [] fun name => [.colon, .ident name]

def pairsText : List (String × Literal) → List Token
  | [] => []
  | [(key, literal)] => [.ident key, .colon, literal.token]
  | (key, literal) :: pairs => .ident key :: .colon :: literal.token :: .comma :: pairsText pairs

def propsText (props : Option (List (String × Literal))) : List Token :=
  props.elim [] fun pairs => .lBrace :: (pairsText pairs ++ [.rBrace])

def NodeSyntax.text (node : NodeSyntax) : List Token :=
  .lParen :: (nameText node.nodeAlias ++ (labelText node.label ++
    (propsText node.props ++ [.rParen])))

def NodeSyntax.Readable (f64 : FloatReader F) (node : NodeSyntax) : Prop :=
  ∀ pair ∈ node.pairs, pair.2.Readable f64

def pairValues (f64 : FloatReader F) (pairs : List (String × Literal)) : List (String × Value F) :=
  pairs.map fun pair => (pair.1, pair.2.value f64)

def NodeSyntax.spec (f64 : FloatReader F) (node : NodeSyntax) (cats : Catalogs) : NodeSpec F :=
  ⟨node.nodeAlias, (registerLabel node.label cats).1,
    (pairValues f64 node.pairs).map (propPredicate node.nodeAlias)⟩

theorem parsePair_text {literal : Literal} :
    parsePair f64 msg pre (.ident key :: .colon :: literal.token :: rest, cats) = .ok out ↔
      literal.Readable f64 ∧ (pre ++ [(key, literal.value f64)],
        (after Token.comma.only rest).getD rest, cats) = out := by
  have skips : whenToken .comma (return ()) (return ()) (rest, cats) =
      .ok ((), (after Token.comma.only rest).getD rest, cats) := by
    unfold whenToken whenNext after
    cases next Token.comma.only rest <;> rfl
  have reads : ∀ mid, parseLiteralValue f64 (literal.token :: rest, cats) = .ok mid ↔
      literal.Readable f64 ∧ (literal.value f64, rest, cats) = mid := by
    intro mid
    simp [parseLiteralValue, advance_ok, literalValue_token, and_assoc]
  simp only [parsePair, bind_apply, pure_apply, expectIdent, expectSome_cons, Token.nameText,
    Token.separator, ok_bind, bind_eq_ok, reads]
  simp [skips]

theorem pairsLoop_text : loop beforeRBrace (fun _ => parsePair f64 msg) some pre
        (pairsText pairs ++ (.rBrace :: rest), cats) = .ok out ↔
      (∀ pair ∈ pairs, pair.2.Readable f64) ∧
        (pre ++ pairValues f64 pairs, .rBrace :: rest, cats) = out := by
  induction pairs generalizing pre with
  | nil =>
    rw [loop_ok]
    simp [beforeRBrace, pairsText, pairValues]
  | cons pair pairs ih =>
    obtain ⟨key, literal⟩ := pair
    rw [loop_ok]
    cases pairs with
    | nil =>
      simp only [pairsText, List.nil_append] at ih
      simp [beforeRBrace, pairsText, Token.only, parsePair_text, after, ih, pairValues]
    | cons other pairs =>
      simp [pairsText, beforeRBrace, Token.only, parsePair_text, after, ih, pairValues, and_assoc]
      intros
      omega

theorem parsePairs_text :
    parsePairs f64 msg (pairsText pairs ++ (.rBrace :: rest), cats) = .ok out ↔
      (∀ pair ∈ pairs, pair.2.Readable f64) ∧ (pairValues f64 pairs, rest, cats) = out := by
  rw [parsePairs, bind_ok]
  simp [pairsLoop_text, bind_apply, expectSome_cons, pure_apply]

theorem parseNodeSpec_text (node : NodeSyntax) {rest : List Token} {cats : Catalogs}
    {out : NodeSpec F × List Token × Catalogs} :
    parseNodeSpec f64 (node.text ++ rest, cats) = .ok out ↔ node.Readable f64 ∧
        (node.spec f64 cats, rest, (registerLabel node.label cats).2) = out := by
  obtain ⟨nodeAlias, label, props⟩ := node
  cases nodeAlias <;> cases label <;> cases props <;>
    simp [parseNodeSpec, NodeSyntax.text, NodeSyntax.Readable, NodeSyntax.pairs, NodeSyntax.spec,
      nameText, labelText, propsText, expectLParen, expectRParen, optionalIdent, parseLabel,
      parseInlineProps, expectIdent, Token.identName, Token.nameText, Token.only, bind_apply,
      pure_apply, map_apply, onState, expectSome_cons, whenNext_cons, bind_eq_ok, parsePairs_text,
      registerLabel, pairValues]

inductive Hops where
  | once
  | any
  | exactly (text : IntText)
  | between (least most : IntText)
  deriving DecidableEq

def Hops.least : Hops → Nat
  | .once => 1
  | .any => 1
  | .exactly text => text.value
  | .between least _ => least.value

def Hops.most : Hops → Nat
  | .once => 1
  | .any => 255
  | .exactly text => text.value
  | .between _ most => most.value

def Hops.text : Hops → List Token
  | .once => []
  | .any => [.star]
  | .exactly text => [.star, .intLit text]
  | .between least most => [.star, .intLit least, .dotDot, .intLit most]

/-- `<-[r:TYPE*min..max]->`, where both arrows are optional.  The parser also takes it without
    the brackets and what is in them, and without the second dash. -/
structure RelSyntax where
  incoming : Bool
  outgoing : Bool
  relAlias : Option String := none
  relType : Option String := none
  hops : Hops := .once
  brackets : Bool := true
  dash : Bool := true
  bare : brackets = false → relAlias = none ∧ relType = none ∧ hops = .once := by simp

def RelSyntax.bracketsText (rel : RelSyntax) : List Token :=
  if rel.brackets then
    .lBracket ::
      (nameText rel.relAlias ++ (labelText rel.relType ++ (rel.hops.text ++ [.rBracket])))
  else []

def RelSyntax.restText (rel : RelSyntax) : List Token :=
  (if rel.incoming then [.dash] else []) ++ (rel.bracketsText ++
    ((if rel.dash then [.dash] else []) ++ if rel.outgoing then [.gt] else []))

def RelSyntax.text (rel : RelSyntax) : List Token :=
  (if rel.incoming then .lt else .dash) :: rel.restText

def RelSyntax.Readable (rel : RelSyntax) : Prop := rel.hops.least < 2 ^ 64 ∧ rel.hops.most < 2 ^ 64

def RelSyntax.spec (rel : RelSyntax) (cats : Catalogs) : RelSpec :=
  ⟨rel.relAlias, (registerRelType rel.relType cats).1, UInt8.ofNat rel.hops.least,
    UInt8.ofNat rel.hops.most⟩

theorem parseHops_text (hops : Hops) :
    parseHops (hops.text ++ (.rBracket :: rest), cats) = .ok out ↔
      (hops.least < 2 ^ 64 ∧ hops.most < 2 ^ 64) ∧
        ((UInt8.ofNat hops.least, UInt8.ofNat hops.most), .rBracket :: rest, cats) = out := by
  cases hops <;>
    simp [parseHops, Hops.text, Hops.least, Hops.most, whenNext_cons, Token.only, Token.intText,
      bind_apply, pure_apply, map_apply, bind_eq_ok, ofResult, map_eq_ok, expectUint, advance,
      usizeOf_eq_ok, and_assoc]

open RelSyntax

theorem parseRelSpec_text (rel : RelSyntax) {rest : List Token} {cats : Catalogs}
    {out : RelSpec × List Token × Catalogs} :
    parseRelSpec (nameText rel.relAlias ++ (labelText rel.relType ++ (rel.hops.text ++
        (.rBracket :: rest))), cats) = .ok out ↔
      rel.Readable ∧ (rel.spec cats, rest, (registerRelType rel.relType cats).2) = out := by
  obtain ⟨incoming, outgoing, relAlias, relType, hops, brackets, dash, bare⟩ := rel
  have begins : ∀ {α : Type} (tells : Token → Option α), tells .star = none →
      tells .rBracket = none → next tells (hops.text ++ (.rBracket :: rest)) = none := by
    intro α tells noStar noBracket
    cases hops <;> simp [Hops.text, noStar, noBracket]
  have noAlias := begins Token.identName rfl rfl
  have noType := begins Token.colon.only rfl rfl
  simp only [Readable, spec]
  cases relAlias <;> cases relType <;>
    simp [parseRelSpec, nameText, labelText, optionalIdent, parseRelType, expectIdent,
      Token.identName, Token.nameText, Token.only, noAlias, noType, whenNext, bind_apply,
      pure_apply, map_apply, onState, expectSome_cons, bind_eq_ok, parseHops_text,
      registerRelType]

/-- What the parser makes of a relationship and the node after it. -/
theorem parseStep_text (opt : Bool) (rel : RelSyntax)
    (node : NodeSyntax) {pre : List (GraphPattern F)} {rest : List Token} {cats : Catalogs}
    {out : List (GraphPattern F) × List Token × Catalogs} :
    parseStep f64 opt firstAlias rel.incoming pre
        (rel.restText ++ (node.text ++ rest), cats) = .ok out ↔
      (rel.Readable ∧ node.Readable f64) ∧
        (pushStep opt firstAlias (rel.spec cats) (directionOf rel.incoming rel.outgoing)
          (node.spec f64 (registerRelType rel.relType cats).2) pre, rest,
          (registerLabel node.label (registerRelType rel.relType cats).2).2) = out := by
  have begins : ∃ hin, node.text ++ rest = .lParen :: hin := ⟨_, rfl⟩
  have reached := @parseNodeSpec_text F f64 node rest
  generalize node.text ++ rest = tokens at begins reached
  obtain ⟨hin, rfl⟩ := begins
  unfold parseStep restText bracketsText
  cases brackets : rel.brackets with
  | true =>
    have spec := @parseRelSpec_text rel
    cases rel.incoming <;> cases rel.outgoing <;> cases rel.dash <;>
      simp [parseRelPrefix, parseRelSuffix, whenNext_cons, expectSome_cons, bind_apply,
        pure_apply, map_apply, bind_eq_ok, Token.only, spec, reached, and_assoc]
  | false =>
    obtain ⟨noAlias, noType, once⟩ := rel.bare brackets
    cases rel.incoming <;> cases rel.outgoing <;> cases rel.dash <;>
      simp [parseRelPrefix, parseRelSuffix, whenNext_cons, expectSome_cons, bind_apply,
        pure_apply, map_apply, bind_eq_ok, Token.only, reached, Readable,
        spec, noAlias, noType, once, Hops.least, Hops.most, registerRelType]

section

structure ChainSyntax where
  first : NodeSyntax
  steps : List (RelSyntax × NodeSyntax)

def stepsText (steps : List (RelSyntax × NodeSyntax)) : List Token :=
  steps.flatMap fun step => step.1.text ++ step.2.text

def ChainSyntax.text (chain : ChainSyntax) : List Token := chain.first.text ++ stepsText chain.steps

def ChainSyntax.Readable (f64 : FloatReader F) (chain : ChainSyntax) : Prop :=
  chain.first.Readable f64 ∧ ∀ step ∈ chain.steps, step.1.Readable ∧ step.2.Readable f64

abbrev PatternState (F : Type) := List (GraphPattern F) × Catalogs

def pushedStep (f64 : FloatReader F) (opt : Bool) (firstAlias : Option String)
    (st : PatternState F) (step : RelSyntax × NodeSyntax) : PatternState F :=
  let cats := (registerRelType step.1.relType st.2).2
  (pushStep opt firstAlias (step.1.spec st.2)
    (directionOf step.1.incoming step.1.outgoing) (step.2.spec f64 cats) st.1,
    (registerLabel step.2.label cats).2)

def ChainSyntax.pushed (f64 : FloatReader F) (opt : Bool) (st : PatternState F)
    (chain : ChainSyntax) : PatternState F :=
  chain.steps.foldl (pushedStep f64 opt chain.first.nodeAlias)
    (st.1 ++ firstPattern (chain.first.spec f64 st.2), (registerLabel chain.first.label st.2).2)

variable {opt : Bool}

theorem stepsLoop_text (ends : next Token.relStart rest = none) (st : PatternState F) :
    loop (next Token.relStart) (parseStep f64 opt firstAlias) some st.1
        (stepsText steps ++ rest, st.2) = .ok out ↔
      (∀ step ∈ steps, step.1.Readable ∧ step.2.Readable f64) ∧
        ((steps.foldl (pushedStep f64 opt firstAlias) st).1, rest,
          (steps.foldl (pushedStep f64 opt firstAlias) st).2) = out := by
  induction steps generalizing st with
  | nil =>
    rw [loop_ok]
    simp [stepsText, ends]
  | cons step steps ih =>
    have enters : next Token.relStart (stepsText (step :: steps) ++ rest) =
        some (step.1.incoming, step.1.restText ++ (step.2.text ++ (stepsText steps ++ rest))) := by
      cases incoming : step.1.incoming <;>
        simp [stepsText, text, incoming, Token.relStart]
    have shorter : (stepsText steps ++ rest).length <
        (stepsText (step :: steps) ++ rest).length := by
      simp only [stepsText, List.flatMap_cons, List.length_append, text, List.length_cons]
      omega
    have later := ih (pushedStep f64 opt firstAlias st step)
    rw [loop_ok]
    simp only [enters, parseStep_text, and_assoc, exists_and_left, exists_eq_left', shorter,
      true_and, List.forall_mem_cons, List.foldl_cons]
    exact and_congr_right fun _ => and_congr_right fun _ => later

theorem parsePatternChain_text (chain : ChainSyntax) (ends : next Token.relStart rest = none)
    (st : PatternState F) (out : List (GraphPattern F) × List Token × Catalogs) :
    parsePatternChain f64 opt st.1 (chain.text ++ rest, st.2) = .ok out ↔
      chain.Readable f64 ∧ ((chain.pushed f64 opt st).1, rest,
        (chain.pushed f64 opt st).2) = out := by
  rw [parsePatternChain, bind_ok, ChainSyntax.text, List.append_assoc]
  simp only [parseNodeSpec_text, and_assoc, exists_and_left, exists_eq_left', ChainSyntax.Readable]
  exact and_congr_right fun _ => stepsLoop_text ends
    (st.1 ++ firstPattern (chain.first.spec f64 st.2), (registerLabel chain.first.label st.2).2)

end
end HoloSphere.Graph.Query
