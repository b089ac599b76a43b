import HoloSphere.Graph.Query.Ast
import HoloSphere.Program.Parsing

/-! # The parser of graph queries

The recursive descent of `graph/query/parser.rs` over the tokens that are left and the
catalogs.  A `match` on the next token that consumes it is an `advance`; one that only looks
at it first is a `whenNext`.
-/

namespace HoloSphere.Graph.Query
open Program Reader Token

/-- The only error that the parser itself makes. -/
inductive ParseError where
  | invalid (msg : String)
  deriving DecidableEq, Inhabited

abbrev Parser (α : Type) := Reader Token Catalogs ParseError α

variable {F α : Type}

/-- Says nothing but that it is this token. -/
def Token.only (token other : Token) : Option Unit := if other = token then some () else none

abbrev whenToken (token : Token) (yes no : Parser α) : Parser α :=
  whenNext token.only (fun _ => yes) no

def expectSome (tells : Token → Option α) (msg : String) : Parser α :=
  advance fun next =>
    match next.bind tells with
    | some val => .ok val
    | none => .error (.invalid msg)

def expectLParen : Parser Unit := expectSome lParen.only "Expected `(`"

def expectRParen : Parser Unit := expectSome rParen.only "Expected `)`"

/-- The name that a token stands for: an identifier, or a keyword used as one. -/
def Token.nameText : Token → Option String
  | .ident name => some name
  | token => token.keywordName

def expectIdent : Parser String := expectSome nameText "Expected identifier"

def Token.identName : Token → Option String
  | .ident name => some name
  | _ => none

/-- An identifier, if one is next. -/
def optionalIdent : Parser (Option String) :=
  whenNext identName (fun name => return some name) (return none)

def Token.intText : Token → Option IntText
  | .intLit text => some text
  | _ => none

def usizeOf (text : IntText) : Except ParseError Nat :=
  match parseUsize text with
  | some n => .ok n
  | none => .error (.invalid "Expected unsigned integer")

theorem usizeOf_cases : (usizeOf text = .ok text.value ∧ (text.value < 2 ^ 64) = True) ∨
      ∃ e, usizeOf text = .error e ∧ (text.value < 2 ^ 64) = False := by
  unfold usizeOf parseUsize
  by_cases small : text.value < 2 ^ 64
  · rw [if_pos small]
    exact .inl ⟨rfl, eq_true small⟩
  · rw [if_neg small]
    exact .inr ⟨_, rfl, eq_false small⟩

theorem usizeOf_eq_ok : usizeOf text = .ok n ↔ text.value < 2 ^ 64 ∧ text.value = n := by
  obtain ⟨read, fits⟩ | ⟨e, read, fits⟩ := usizeOf_cases <;> rw [read, fits] <;> simp

def expectUint : Parser Nat :=
  advance fun next =>
    match next.bind intText with
    | some text => usizeOf text
    | none => .error (.invalid "Expected integer literal")

def literalValue (f64 : FloatReader F) : Token → Except ParseError (Value F)
  | .stringLit text => .ok (.string text)
  | .intLit text =>
    match parseI64 text with
    | some n => .ok (.integer n)
    | none => .error (.invalid "Invalid integer literal")
  | .floatLit text =>
    match f64.parse text with
    | some f => .ok (if f64.isFinite f then .float f else .null)
    | none => .error (.invalid "Invalid float literal")
  | .trueKw => .ok (.bool true)
  | .falseKw => .ok (.bool false)
  | .null => .ok .null
  | _ => .error (.invalid "Expected literal value")

theorem literalValue_int : literalValue f64 (.intLit text) = .ok val ↔
      text.value < 2 ^ 63 ∧ Value.integer text.value = val := by
  simp only [literalValue, parseI64]
  by_cases small : text.value < 2 ^ 63
  · rw [if_pos small]
    exact ⟨fun h => ⟨small, Except.ok.inj h⟩, fun h => congrArg Except.ok h.2⟩
  · rw [if_neg small]
    exact ⟨nofun, fun h => absurd h.1 small⟩

def parseLiteralValue (f64 : FloatReader F) : Parser (Value F) :=
  advance fun next =>
    match next with
    | some token => literalValue f64 token
    | none => .error (.invalid "Expected literal value")

abbrev afterComma : List Token → Option (List Token) := after comma.only

/-- The loops that begin without a look at the next token. -/
def always (tokens : List Token) : Option (Unit × List Token) := some ((), tokens)

/-- The sign between a key and its value. -/
def Token.separator : Token → Option Unit
  | .colon => some ()
  | .eq => some ()
  | _ => none

/-- One entry of `{ key: value, ... }`. -/
def parsePair (f64 : FloatReader F) (msg : String) (pairs : List (String × Value F)) :
    Parser (List (String × Value F)) := do
  let key ← expectIdent
  expectSome separator msg
  let val ← parseLiteralValue f64
  whenToken .comma (return ()) (return ())
  return pairs ++ [(key, val)]

def beforeRBrace (tokens : List Token) : Option (Unit × List Token) :=
  match next rBrace.only tokens with
  | some _ => none
  | none => some ((), tokens)

/-- The pairs after an opening brace, in the order of the text, and the closing brace that
    ends the loop. -/
def parsePairs (f64 : FloatReader F) (msg : String) : Parser (List (String × Value F)) := do
  let pairs ← loop beforeRBrace (fun _ => parsePair f64 msg) some []
  expectSome rBrace.only msg
  return pairs

def propPredicate (owner : Option String) (pair : String × Value F) : ScalarPredicate F :=
  .eq (.propertyRef (owner.getD "_") pair.1) (.literal pair.2)

/-- The inline property filter of a node; the opening brace is consumed. -/
def parseInlineProps (f64 : FloatReader F) (owner : Option String) :
    Parser (List (ScalarPredicate F)) := do
  let pairs ← parsePairs f64 "Expected `:` or `=` in property filter"
  return pairs.map (propPredicate owner)

/-- What the parser knows of a node: its alias, its label and its property filter. -/
structure NodeSpec (F : Type) where
  nodeAlias : Option String
  label : Option LabelId
  predicates : List (ScalarPredicate F)

def registerLabel (label : Option String) (cats : Catalogs) : Option LabelId × Catalogs :=
  match label with
  | none => (none, cats)
  | some name =>
    let (id, labels) := cats.labels.getOrRegister name
    (some id, { cats with labels := labels })

def parseLabel : Parser (Option LabelId) :=
  whenToken .colon (do
    let name ← expectIdent
    onState (registerLabel (some name))) (return none)

def parseNodeSpec (f64 : FloatReader F) : Parser (NodeSpec F) := do
  expectLParen
  let nodeAlias ← optionalIdent
  let label ← parseLabel
  let preds ← whenToken .lBrace (parseInlineProps f64 nodeAlias) (return [])
  expectRParen
  return ⟨nodeAlias, label, preds⟩

/-- What stands between the brackets of a relationship. -/
structure RelSpec where
  relAlias : Option String := none
  relType : Option RelTypeId := none
  minHops : UInt8 := 1
  maxHops : UInt8 := 1

def registerRelType (relType : Option String) (cats : Catalogs) : Option RelTypeId × Catalogs :=
  match relType with
  | none => (none, cats)
  | some name =>
    let (id, rels) := cats.rels.getOrRegister name
    (id, { cats with rels := rels })

def parseRelType : Parser (Option RelTypeId) :=
  whenToken .colon (do
    let name ← expectIdent
    onState (registerRelType (some name))) (return none)

/-- The numbers are cut to their low eight bits. -/
def parseHops : Parser (UInt8 × UInt8) :=
  whenToken .star
    (whenNext intText
      (fun text => do
        let least ← ofResult (usizeOf text)
        whenToken .dotDot (do
          let most ← expectUint
          return (UInt8.ofNat least, UInt8.ofNat most))
          (return (UInt8.ofNat least, UInt8.ofNat least)))
      (return (1, 255)))
    (return (1, 1))

/-- The opening bracket is consumed. -/
def parseRelSpec : Parser RelSpec := do
  let relAlias ← optionalIdent
  let relType ← parseRelType
  let (minHops, maxHops) ← parseHops
  expectSome rBracket.only "Expected `]` to close relationship spec"
  return ⟨relAlias, relType, minHops, maxHops⟩

/-- Whether a relationship begins, and if so whether with `<`. -/
def Token.relStart : Token → Option Bool
  | .dash => some false
  | .lt => some true
  | _ => none

/-- `<` must be followed by `-`. -/
def parseRelPrefix (incoming : Bool) : Parser Unit :=
  if incoming then expectSome dash.only "Expected `-` after `<`" else return ()

/-- Whether the relationship ends in `>`. -/
def parseRelSuffix : Parser Bool :=
  whenToken .dash (whenToken .gt (return true) (return false))
    (whenToken .gt (return true) (return false))

def directionOf (incomingPrefix outgoingSuffix : Bool) : Direction :=
  match incomingPrefix, outgoingSuffix with
  | true, false => .incoming
  | false, true => .outgoing
  | _, _ => .undirected

def GraphPattern.lastAlias (srcAlias : String) : GraphPattern F → String
  | .expand step => step.dstAlias
  | .optionalExpand step => step.dstAlias
  | .nodePattern nodeAlias _ _ => nodeAlias
  | .hyperMatch antecedents _ _ consequents _ =>
    (consequents.getLast?.or antecedents.getLast?).getD srcAlias

def anonymous : String := "_anon"

def targetPattern (dst : NodeSpec F) : List (GraphPattern F) :=
  if dst.label.isSome || !dst.predicates.isEmpty then
    [.nodePattern (dst.nodeAlias.getD anonymous) dst.label dst.predicates]
  else []

/-- The alias of the last pattern, if there are two or more. -/
def sourceOf (srcAlias : String) (out : List (GraphPattern F)) : String :=
  if out.length ≥ 2 then
    match out.getLast? with
    | some pattern => pattern.lastAlias srcAlias
    | none => srcAlias
  else srcAlias

def expandPattern (opt : Bool) (step : ExpandStep) : GraphPattern F :=
  if opt then .optionalExpand step else .expand step

/-- The patterns of one relationship and the node it leads to are pushed.  The source is
    looked up after the node was pushed. -/
def pushStep (opt : Bool) (firstAlias : Option String) (rel : RelSpec)
    (dirn : Direction) (dst : NodeSpec F) (out : List (GraphPattern F)) :
    List (GraphPattern F) :=
  let out := out ++ targetPattern dst
  out ++ [expandPattern opt ⟨sourceOf (firstAlias.getD anonymous) out, rel.relAlias,
    rel.relType, dst.nodeAlias.getD anonymous, dirn, rel.minHops, rel.maxHops⟩]

def parseStep (f64 : FloatReader F) (opt : Bool) (firstAlias : Option String)
    (incoming : Bool) (out : List (GraphPattern F)) : Parser (List (GraphPattern F)) := do
  parseRelPrefix incoming
  let rel ← whenToken .lBracket parseRelSpec (return {})
  let outgoing ← parseRelSuffix
  let dst ← parseNodeSpec f64
  return pushStep opt firstAlias rel (directionOf incoming outgoing) dst out

def firstPattern (fst : NodeSpec F) : List (GraphPattern F) :=
  match fst.nodeAlias with
  | some nodeAlias => [.nodePattern nodeAlias fst.label fst.predicates]
  | none => []

def parsePatternChain (f64 : FloatReader F) (opt : Bool) (out : List (GraphPattern F)) :
    Parser (List (GraphPattern F)) := do
  let fst ← parseNodeSpec f64
  loop (next relStart) (parseStep f64 opt fst.nodeAlias) some
    (out ++ firstPattern fst)

def parseMatchPatterns (f64 : FloatReader F) (opt : Bool) (out : List (GraphPattern F)) :
    Parser (List (GraphPattern F)) :=
  loop always (fun _ => parsePatternChain f64 opt) afterComma out

def Token.isLiteral : Token → Bool
  | .stringLit _ | .intLit _ | .floatLit _ | .trueKw | .falseKw | .null => true
  | _ => false

def parseLiteralOperand (f64 : FloatReader F) : Parser (PredicateValue F) :=
  advance fun next =>
    match next with
    | some token =>
      if token.isLiteral then (literalValue f64 token).map .literal
      else .error (.invalid "Expected predicate operand")
    | none => .error (.invalid "Expected predicate operand")

def parsePredValue (f64 : FloatReader F) : Parser (PredicateValue F) :=
  whenToken .dollar (do
    let name ← expectIdent
    return .parameter name)
    (whenNext identName
      (fun owner => whenToken .dot (do
        let key ← expectIdent
        return .propertyRef owner key)
        (return .parameter owner))
      (parseLiteralOperand f64))

inductive Comparison where
  | eq
  | ne
  | lt
  | le
  | gt
  | ge
  deriving DecidableEq

def Comparison.predicate {V : Type} : Comparison → V → V → Predicate V
  | .eq => .eq
  | .ne => .ne
  | .lt => .lt
  | .le => .le
  | .gt => .gt
  | .ge => .ge

def Token.comparison : Token → Option Comparison
  | .eq => some .eq
  | .ne => some .ne
  | .lt => some .lt
  | .le => some .le
  | .gt => some .gt
  | .ge => some .ge
  | _ => none

/-- An operand and what is said of it. -/
def parseComparison (f64 : FloatReader F) : Parser (ScalarPredicate F) := do
  let lhs ← parsePredValue f64
  whenToken .is
    (whenToken .not
      (do
        expectSome null.only "Expected NULL after IS NOT"
        return .isNotNull lhs)
      (do
        expectSome null.only "Expected NULL after IS"
        return .isNull lhs))
    (whenNext comparison
      (fun compare => do
        let rhs ← parsePredValue f64
        return compare.predicate lhs rhs)
      (fail (.invalid "Expected comparison operator in predicate")))

def parseAtomPred (f64 : FloatReader F) (pred : Parser (ScalarPredicate F)) :
    Parser (ScalarPredicate F) :=
  whenToken .lParen (do
    let inner ← pred
    expectRParen
    return inner)
    (parseComparison f64)

def parseNotPred (f64 : FloatReader F) (pred : Parser (ScalarPredicate F)) :
    Parser (ScalarPredicate F) :=
  recurse fun notPred =>
    whenToken .not (do
      let inner ← notPred
      return .not inner)
      (parseAtomPred f64 pred)

/-- Operands between connectives, combined from the left. -/
def parseJoined (token : Token) (opd : Parser (ScalarPredicate F))
    (join : ScalarPredicate F → ScalarPredicate F → ScalarPredicate F)
    (left : ScalarPredicate F) : Parser (ScalarPredicate F) :=
  loop (next token.only) (fun _ left => do
    let right ← opd
    return join left right) some left

def parseAndPred (f64 : FloatReader F) (pred : Parser (ScalarPredicate F)) :
    Parser (ScalarPredicate F) := do
  let left ← parseNotPred f64 pred
  parseJoined .and (parseNotPred f64 pred) .and left

def parseOrPred (f64 : FloatReader F) (pred : Parser (ScalarPredicate F)) :
    Parser (ScalarPredicate F) := do
  let left ← parseAndPred f64 pred
  parseJoined .or (parseAndPred f64 pred) .or left

def parsePredicate (f64 : FloatReader F) : Parser (ScalarPredicate F) := recurse (parseOrPred f64)

/-- `alias` or `alias.key`. -/
def parseReturnItem (items : List ReturnItem) : Parser (List ReturnItem) := do
  let name ← expectIdent
  whenToken .dot (do
    let key ← expectIdent
    return items ++ [.propertyRef name key])
    (return items ++ [.aliasOf name])

def beforeItem : List Token → Option (Unit × List Token)
  | [] => none
  | .limit :: _ => none
  | .whereKw :: _ => none
  | .matchKw :: _ => none
  | tokens => some ((), tokens)

def parseLimit : Parser (Option Nat) :=
  whenToken .limit (do
    let n ← expectUint
    return some n) (return none)

def parseReturnClause : Parser ReturnClause := do
  let items ← loop beforeItem (fun _ => parseReturnItem) afterComma []
  let limit ← parseLimit
  return ⟨items, limit⟩

/-- `map.insert` for each pair in turn. -/
def propertyMap (pairs : List (String × Value F)) : String → Option (Value F) :=
  pairs.foldl (fun props pair => Function.update props pair.1 (some pair.2))
    fun _ => none

/-- One node to create; the opening parenthesis is consumed.  Its alias is not optional. -/
def parseCreateNode (f64 : FloatReader F) (ops : List (GraphMutationClause F)) :
    Parser (List (GraphMutationClause F)) := do
  let nodeAlias ← expectIdent
  let label ← parseLabel
  let pairs ← whenToken .lBrace (parsePairs f64 "Expected `:` in property map") (return [])
  expectRParen
  return ops ++ [.createNode nodeAlias label.toList (propertyMap pairs)]

def parseCreateClause (f64 : FloatReader F) : Parser (List (GraphMutationClause F)) :=
  loop (next lParen.only) (fun _ => parseCreateNode f64) afterComma []

def parseDeleteClause : Parser (List (GraphMutationClause F)) :=
  loop always (fun _ ops => do
    let name ← expectIdent
    return ops ++ [.deleteAlias name]) afterComma []

def Token.word (word : String) (token : Token) : Option Unit :=
  if token.isWord word then some () else none

def Token.contract : Token → Option VectorContract
  | .certified => some .certified
  | .highRecall => some .highRecall
  | .bounded => some .bounded
  | _ => none

/-- After `CONTRACT` any token will do. -/
def parseContract : Parser VectorContract :=
  whenNext (word "CONTRACT")
    (fun _ => advance fun next => .ok ((next.bind contract).getD .certified))
    (whenNext contract (fun contract => return contract) (return .certified))

/-- `VECTOR` is consumed. -/
def parseVectorMatch : Parser VectorMatchClause := do
  expectSome matchKw.only "Expected MATCH after VECTOR"
  expectLParen
  let binding ← expectIdent
  expectRParen
  whenNext (word "USING") (fun _ => return ()) (return ())
  let queryParam ← whenToken .dollar expectIdent (return binding)
  let k ← parseLimit
  let contract ← parseContract
  return ⟨binding, queryParam, k.getD 10, contract⟩

/-- One turn of the loop in `parse`; the token is consumed. -/
def parseClause (f64 : FloatReader F) (token : Token) (ast : QueryAst F) : Parser (QueryAst F) :=
  match token with
  | .vector => do
      let clause ← parseVectorMatch
      return { ast with vectorMatch := some clause }
  | .matchKw => do
      let patterns ← parseMatchPatterns f64 false ast.patterns
      return { ast with patterns := patterns }
  | .optionalMatch => do
      expectSome matchKw.only "Expected MATCH after OPTIONAL"
      let patterns ← parseMatchPatterns f64 true ast.patterns
      return { ast with patterns := patterns }
  | .whereKw => do
      let pred ← parsePredicate f64
      return { ast with wherePredicates := ast.wherePredicates ++ [pred] }
  | .returnKw => do
      let clause ← parseReturnClause
      return { ast with returnClause := clause }
  | .create => do
      let ops ← parseCreateClause f64
      return { ast with mutations := ast.mutations ++ ops }
  | .delete => do
      let ops ← parseDeleteClause
      return { ast with mutations := ast.mutations ++ ops }
  | _ => return ast

def parse (f64 : FloatReader F) : Parser (QueryAst F) := loop (next some) (parseClause f64) some {}

end HoloSphere.Graph.Query
