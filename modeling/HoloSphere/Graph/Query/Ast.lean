import Mathlib.Algebra.Group.Nat.Defs
import Mathlib.Logic.Function.Basic

/-! # Tokens and syntax trees of graph queries

The tokens of `graph/query/lexer.rs`, the trees of `graph/query/ast.rs` as far as the parser
builds them, and the catalogs in which the parser looks up names.  The end of the input is
the end of the token list, so there is no token for it.  Numbers with a point are read by
`f64`, which is a parameter.
-/

namespace HoloSphere.Graph.Query

/-- The text of an integer literal, as the lexer cuts it out. -/
structure IntText where
  digits : List Char
  nonempty : digits ≠ []
  decimal : ∀ digit ∈ digits, digit.isDigit = true
  deriving DecidableEq

def IntText.value (text : IntText) : Nat := Nat.ofDigitChars 10 text.digits 0

inductive Token where
  | matchKw
  | optionalMatch
  | whereKw
  | returnKw
  | limit
  | withKw
  | and
  | or
  | not
  | is
  | null
  | create
  | delete
  | merge
  | setKw
  | vector
  | certified
  | highRecall
  | bounded
  | asKw
  | trueKw
  | falseKw
  | shortestpath
  | ident (name : String)
  | stringLit (text : String)
  | intLit (text : IntText)
  | floatLit (text : String)
  | lParen
  | rParen
  | lBracket
  | rBracket
  | lBrace
  | rBrace
  | dash
  | gt
  | lt
  | colon
  | comma
  | dot
  | pipe
  | star
  | eq
  | ne
  | le
  | ge
  | dollar
  | dotDot
  deriving DecidableEq

def Token.keywordName : Token → Option String
  | .matchKw => some "match"
  | .whereKw => some "where"
  | .returnKw => some "return"
  | .withKw => some "with"
  | .asKw => some "as"
  | .setKw => some "set"
  | .create => some "create"
  | .delete => some "delete"
  | .merge => some "merge"
  | .trueKw => some "true"
  | .falseKw => some "false"
  | .null => some "null"
  | _ => none

/-- An identifier that spells the word, in either case. -/
def Token.isWord (word : String) : Token → Bool
  | .ident name => name.map Char.toUpper = word
  | _ => false

/-- How `f64` reads a literal, and which of its values are numbers in JSON. -/
structure FloatReader (F : Type) where
  parse : String → Option F
  isFinite : F → Bool

/-- `parse::<usize>` of a literal. -/
def parseUsize (text : IntText) : Option Nat :=
  if text.value < 2 ^ 64 then some text.value else none

/-- `parse::<i64>` of a literal. -/
def parseI64 (text : IntText) : Option Int :=
  if text.value < 2 ^ 63 then some (text.value : Int) else none

inductive Direction where
  | outgoing
  | incoming
  | undirected
  deriving DecidableEq

/-- The JSON values that a literal can denote. -/
inductive Value (F : Type) where
  | string (text : String)
  | integer (n : Int)
  | float (f : F)
  | bool (b : Bool)
  | null
  deriving DecidableEq

inductive PredicateValue (F : Type) where
  | literal (value : Value F)
  | parameter (name : String)
  | propertyRef (owner key : String)
  deriving DecidableEq

/-- The scalar predicates over any kind of operands. -/
inductive Predicate (V : Type) where
  | eq (left right : V)
  | ne (left right : V)
  | lt (left right : V)
  | le (left right : V)
  | gt (left right : V)
  | ge (left right : V)
  | isNull (opd : V)
  | isNotNull (opd : V)
  | and (left right : Predicate V)
  | or (left right : Predicate V)
  | not (inner : Predicate V)
  deriving DecidableEq

abbrev ScalarPredicate (F : Type) := Predicate (PredicateValue F)

abbrev LabelId := UInt32
abbrev RelTypeId := UInt16

/-- The fields that `Expand` and `OptionalExpand` share. -/
structure ExpandStep where
  srcAlias : String
  relAlias : Option String
  relType : Option RelTypeId
  dstAlias : String
  direction : Direction
  minHops : UInt8
  maxHops : UInt8
  deriving DecidableEq

inductive GraphPattern (F : Type) where
  | nodePattern (nodeAlias : String) (label : Option LabelId)
      (predicates : List (ScalarPredicate F))
  | expand (step : ExpandStep)
  | optionalExpand (step : ExpandStep)
  | hyperMatch (antecedentAliases : List String) (relAlias : Option String)
      (relType : Option RelTypeId) (consequentAliases : List String) (dirn : Direction)
  deriving DecidableEq

inductive VectorContract where
  | certified
  | highRecall
  | bounded
  deriving DecidableEq

structure VectorMatchClause where
  binding : String
  queryParam : String
  k : Nat
  contract : VectorContract
  deriving DecidableEq

inductive ReturnItem where
  | aliasOf (name : String)
  | propertyRef (owner key : String)
  deriving DecidableEq

structure ReturnClause where
  items : List ReturnItem := []
  limit : Option Nat := none
  deriving DecidableEq

/-- The mutations that a query can hold; a property map is a function of the key. -/
inductive GraphMutationClause (F : Type) where
  | createNode (nodeAlias : String) (labels : List LabelId)
      (properties : String → Option (Value F))
  | deleteAlias (name : String)

structure QueryAst (F : Type) where
  vectorMatch : Option VectorMatchClause := none
  patterns : List (GraphPattern F) := []
  wherePredicates : List (ScalarPredicate F) := []
  returnClause : ReturnClause := {}
  mutations : List (GraphMutationClause F) := []

structure LabelCatalog where
  nameToId : String → Option LabelId
  idToName : List String

def LabelCatalog.getOrRegister (catalog : LabelCatalog) (name : String) : LabelId × LabelCatalog :=
  match catalog.nameToId name with
  | some id => (id, catalog)
  | none =>
    let id := UInt32.ofNat catalog.idToName.length
    (id, ⟨Function.update catalog.nameToId name (some id), catalog.idToName ++ [name]⟩)

structure RelTypeCatalog where
  nameToId : String → Option RelTypeId
  idToName : List String

/-- A full catalog gives no identifier to a new name. -/
def RelTypeCatalog.getOrRegister (catalog : RelTypeCatalog) (name : String) :
    Option RelTypeId × RelTypeCatalog :=
  match catalog.nameToId name with
  | some id => (some id, catalog)
  | none =>
    let next := catalog.idToName.length
    if next > 65535 then (none, catalog)
    else
      let id := UInt16.ofNat next
      (some id, ⟨Function.update catalog.nameToId name (some id), catalog.idToName ++ [name]⟩)

structure Catalogs where
  labels : LabelCatalog
  rels : RelTypeCatalog

/-- Catalogs in which nothing has been registered. -/
def Catalogs.empty : Catalogs := ⟨⟨fun _ => none, []⟩, ⟨fun _ => none, []⟩⟩

end HoloSphere.Graph.Query
