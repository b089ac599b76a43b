import HoloSphere.Graph.Query.Parser

/-! # The grammar that the parser takes

For each function of the parser the form of the texts that it takes: in most places more than
the documented grammar allows.  Numbers have to fit the type they are read as.
-/

namespace HoloSphere.Graph.Query
open Program Reader Token
variable {F α : Type}

def isToken (terminal : Token) : Form Token := token (· = terminal)

/-- An identifier, or a keyword in its place. -/
def nameForm : Form Token := token fun token => token.nameText.isSome = true

def uintForm : Form Token := token fun token => ∃ text, token = .intLit text ∧ text.value < 2 ^ 64

/-- A literal whose number can be read. -/
def Token.Readable (f64 : FloatReader F) : Token → Prop
  | .intLit text => text.value < 2 ^ 63
  | .floatLit text => (f64.parse text).isSome = true
  | token => token.isLiteral = true

def literalForm (f64 : FloatReader F) : Form Token := token (Readable f64)

/-- A token that may be left out. -/
def maybe (tells : Token → Option α) : Form Token := branch tells (fun _ => Eq) Eq

theorem takes_expectSome (tells : Token → Option α) :
    Takes bound (expectSome tells msg) (token fun token => (tells token).isSome = true) := by
  refine takes_advance (by simp) fun token => ?_
  cases found : tells token <;> simp [found]

theorem takes_expect : Takes bound (expectSome terminal.only msg) (isToken terminal) := by
  have same : (fun token => (terminal.only token).isSome = true) = (· = terminal) := by
    funext token
    by_cases is : token = terminal <;> simp [only, is]
  have takes : Takes bound (expectSome terminal.only msg) _ := takes_expectSome _
  rwa [same] at takes

theorem takes_expectIdent : Takes bound expectIdent nameForm := takes_expectSome _

theorem usizeOf_ok_iff : (∃ n, usizeOf text = .ok n) ↔ text.value < 2 ^ 64 := by
  simp [usizeOf_eq_ok]

theorem takes_expectUint : Takes bound expectUint uintForm := by
  refine takes_advance (by simp) fun token => ?_
  cases token <;> simp [intText, usizeOf_ok_iff]

theorem literalValue_ok_iff (token : Token) :
    (∃ val, literalValue f64 token = .ok val) ↔ token.Readable f64 := by
  cases token with
  | intLit text => simp [literalValue_int, Readable]
  | floatLit text =>
    cases parsed : f64.parse text <;> simp [literalValue, Readable, parsed]
  | _ => simp [literalValue, Readable, isLiteral]

theorem takes_parseLiteralValue : Takes bound (parseLiteralValue f64) (literalForm f64) :=
  takes_advance (by simp) (literalValue_ok_iff)

theorem takes_maybe (tells : Token → Option α) {β : Type} (yes : α → β) (no : β) :
    Takes bound (whenNext tells (fun val => return yes val) (return no) : Parser β)
      (maybe tells) :=
  takes_whenNext (fun _ => takes_pure) (takes_pure)

def pairForm (f64 : FloatReader F) : Form Token :=
  series [nameForm, token fun token => token.separator.isSome = true, literalForm f64,
    maybe comma.only]

def pairsForm (f64 : FloatReader F) : Form Token :=
  series [Turns beforeRBrace (fun _ => pairForm f64) some, isToken .rBrace]

def labelForm : Form Token := branch colon.only (fun _ => series [nameForm]) Eq

def nodeForm (f64 : FloatReader F) : Form Token :=
  series [isToken .lParen, maybe identName, labelForm,
    branch lBrace.only (fun _ => series [pairsForm f64]) Eq, isToken .rParen]

section
variable (f64 : FloatReader F) (msg : String)

theorem takes_pairRest (key : String) : Takes bound (do
      expectSome separator msg
      let val ← parseLiteralValue f64
      whenToken .comma (return ()) (return ())
      return pairs ++ [(key, val)] : Parser _)
      (series [token fun token => token.separator.isSome = true, literalForm f64,
        maybe comma.only]) :=
  takes_bind (takes_expectSome _) fun _ => takes_bind (takes_parseLiteralValue) fun _ =>
    takes_bind (takes_maybe _ _ _) fun _ => takes_pure

theorem takes_parsePairs : Takes bound (parsePairs f64 msg) (pairsForm f64) := by
  have enters : ∀ {toks entered hin}, beforeRBrace toks = some (entered, hin) → hin = toks := by
    intro toks entered hin enters
    unfold beforeRBrace at enters
    split at enters <;> cases enters
    rfl
  have loops : Takes bound (loop beforeRBrace (fun _ => parsePair f64 msg) some [])
      (Turns beforeRBrace (fun _ => pairForm f64) some) := by
    refine takes_loop (fun found => by rw [enters found]) ?_
      (fun _ pairs => takes_bind takes_expectIdent (takes_pairRest f64 msg)) []
    intro toks entered hin pairs state out rest below found stepped goes
    obtain rfl := enters found
    cases goes
    exact takes_expectIdent.bind_shorter (takes_pairRest f64 msg) below stepped
  exact takes_bind loops fun _ => takes_bind (takes_expect) fun _ => takes_pure

end

theorem takes_parseLabel : Takes bound parseLabel labelForm :=
  takes_whenNext (fun _ => takes_bind takes_expectIdent fun _ => takes_onState _) (takes_pure)

theorem takes_parseNodeSpec : Takes bound (parseNodeSpec f64) (nodeForm f64) :=
  takes_bind (takes_expect) fun _ => takes_bind (takes_maybe _ _ _) fun _ =>
    takes_bind takes_parseLabel fun _ => takes_bind (takes_whenNext (fun _ =>
      takes_bind (takes_parsePairs f64 _) fun _ => takes_pure) (takes_pure)) fun _ =>
        takes_bind (takes_expect) fun _ => takes_pure

def relTypeForm : Form Token := branch colon.only (fun _ => series [nameForm]) Eq

def hopsForm : Form Token :=
  branch star.only
    (fun _ => branch intText
      (fun text => Relation.Comp (given (text.value < 2 ^ 64))
        (branch dotDot.only (fun _ => series [uintForm]) Eq)) Eq) Eq

def relSpecForm : Form Token := series [maybe identName, relTypeForm, hopsForm, isToken .rBracket]

def relSuffixForm : Form Token := branch dash.only (fun _ => maybe gt.only) (maybe gt.only)

def stepForm (f64 : FloatReader F) (incoming : Bool) : Form Token :=
  series [if incoming then isToken .dash else Eq,
    branch lBracket.only (fun _ => relSpecForm) Eq, relSuffixForm, nodeForm f64]

def chainForm (f64 : FloatReader F) : Form Token :=
  Relation.Comp (nodeForm f64) (Turns (next relStart) (stepForm f64) some)

def patternsForm (f64 : FloatReader F) : Form Token :=
  Turns always (fun _ => chainForm f64) afterComma

theorem takes_parseHops : Takes bound parseHops hopsForm :=
  takes_whenNext (fun _ => takes_whenNext (fun _ =>
    takes_bind (takes_ofResult (usizeOf_ok_iff)) fun _ =>
      takes_whenNext (fun _ => takes_bind takes_expectUint fun _ => takes_pure) (takes_pure))
    (takes_pure)) (takes_pure)

theorem takes_parseRelSpec : Takes bound parseRelSpec relSpecForm :=
  takes_bind (takes_maybe _ _ _) fun _ =>
    takes_bind (takes_whenNext (fun _ => takes_bind takes_expectIdent fun _ => takes_onState _)
      (takes_pure)) fun _ =>
      takes_bind takes_parseHops fun _ => takes_bind (takes_expect) fun _ => takes_pure

theorem takes_parseRelPrefix :
    Takes bound (parseRelPrefix incoming) (if incoming then isToken .dash else Eq) := by
  cases incoming with
  | true => exact takes_expect
  | false => exact takes_pure

theorem takes_parseStep (f64 : FloatReader F) (opt : Bool)
    (incoming : Bool) (out : List (GraphPattern F)) :
    Takes bound (parseStep f64 opt firstAlias incoming out) (stepForm f64 incoming) :=
  takes_bind (takes_parseRelPrefix) fun _ =>
    takes_bind (takes_whenNext (fun _ => takes_parseRelSpec) (takes_pure)) fun _ =>
      takes_bind (takes_whenNext (fun _ => takes_maybe _ (fun _ => true) false)
        (takes_maybe _ (fun _ => true) false)) fun _ =>
        takes_bind (takes_parseNodeSpec) fun _ => takes_pure

theorem takes_parsePatternChain (opt : Bool) (out : List (GraphPattern F)) :
    Takes bound (parsePatternChain f64 opt out) (chainForm f64) :=
  takes_bind (takes_parseNodeSpec) fun _ => takes_while (takes_parseStep f64 opt) _

theorem always_shorter (enters : always toks = some (entered, hin)) : hin.length ≤ toks.length := by
  cases enters
  exact Nat.le_refl _

theorem takes_parseMatchPatterns :
    Takes bound (parseMatchPatterns f64 opt out) (patternsForm f64) :=
  takes_separated always_shorter (fun _ => takes_parsePatternChain opt)

def operandForm (f64 : FloatReader F) : Form Token :=
  branch dollar.only (fun _ => series [nameForm])
    (branch identName (fun _ => branch dot.only (fun _ => series [nameForm]) Eq)
      (literalForm f64))

def comparisonForm (f64 : FloatReader F) : Form Token :=
  Relation.Comp (operandForm f64)
    (branch is.only
      (fun _ => branch not.only (fun _ => series [isToken .null]) (series [isToken .null]))
      (branch comparison (fun _ => series [operandForm f64]) fun _ _ => False))

def atomForm (f64 : FloatReader F) (pred : Form Token) : Form Token :=
  branch lParen.only (fun _ => series [pred, isToken .rParen]) (comparisonForm f64)

def notForm (f64 : FloatReader F) (pred : Form Token) : Form Token :=
  nesting fun notPred =>
    branch not.only (fun _ => series [notPred]) (atomForm f64 pred)

def joinedForm (connective : Token) (opd : Form Token) : Form Token :=
  Relation.Comp opd (Turns (next connective.only) (fun _ => series [opd]) some)

def orForm (f64 : FloatReader F) (pred : Form Token) : Form Token :=
  joinedForm .or (joinedForm .and (notForm f64 pred))

def predicateForm (f64 : FloatReader F) : Form Token := nesting (orForm f64)

theorem takes_parseLiteralOperand : Takes bound (parseLiteralOperand f64) (literalForm f64) := by
  refine takes_advance (by simp) fun token => ?_
  rw [← literalValue_ok_iff]
  cases literal : token.isLiteral with
  | true =>
    simp only [literal, if_true]
    cases literalValue f64 token <;> simp [Except.map]
  | false => cases token <;> simp_all [isLiteral, literalValue]

theorem takes_parsePredValue : Takes bound (parsePredValue f64) (operandForm f64) :=
  takes_whenNext (fun _ => takes_bind takes_expectIdent fun _ => takes_pure)
    (takes_whenNext (fun _ => takes_whenNext (fun _ =>
      takes_bind takes_expectIdent fun _ => takes_pure) (takes_pure))
      (takes_parseLiteralOperand))

theorem takes_parseComparison : Takes bound (parseComparison f64) (comparisonForm f64) :=
  takes_bind (takes_parsePredValue) fun _ =>
    takes_whenNext (fun _ => takes_whenNext
      (fun _ => takes_bind (takes_expect) fun _ => takes_pure)
      (takes_bind (takes_expect) fun _ => takes_pure))
    (takes_whenNext (fun _ => takes_bind (takes_parsePredValue) fun _ => takes_pure)
      (takes_fail _))

/-- The predicate is read after a parenthesis, so on a shorter text. -/
theorem takes_parseAtomPred (inner : Takes bound pred form) :
    Takes (bound + 1) (parseAtomPred f64 pred) (atomForm f64 form) :=
  takes_whenNext (fun _ => takes_bind inner fun _ => takes_bind (takes_expect) fun _ =>
    takes_pure) (takes_parseComparison)

theorem takes_parseNotPred (inner : Takes bound pred form) :
    Takes (bound + 1) (parseNotPred f64 pred) (notForm f64 form) :=
  takes_recurse fun below again =>
    takes_whenNext (fun _ => takes_bind again fun _ => takes_pure)
      ((takes_parseAtomPred inner).mono (by omega))

theorem takes_parseJoined (join : ScalarPredicate F → ScalarPredicate F → ScalarPredicate F)
    (opd : Takes bound pred form) :
    Takes bound (pred >>= parseJoined connective pred join) (joinedForm connective form) :=
  takes_bind opd fun _ =>
    takes_while (fun _ _ => takes_bind opd fun _ => takes_pure) _

theorem takes_parsePredicate : Takes bound (parsePredicate f64) (predicateForm f64) :=
  takes_recurse fun _ inner =>
    takes_parseJoined _ (takes_parseJoined _ (takes_parseNotPred inner))

def itemForm : Form Token :=
  Relation.Comp nameForm (branch dot.only (fun _ => series [nameForm]) Eq)

def limitForm : Form Token := branch limit.only (fun _ => series [uintForm]) Eq

def returnForm : Form Token := series [Turns beforeItem (fun _ => itemForm) afterComma, limitForm]

def createForm (f64 : FloatReader F) : Form Token :=
  Turns (next lParen.only)
    (fun _ => series [nameForm, labelForm, branch lBrace.only (fun _ => pairsForm f64) Eq,
      isToken .rParen]) afterComma

def deleteForm : Form Token := Turns always (fun _ => series [nameForm]) afterComma

def contractForm : Form Token :=
  branch (word "CONTRACT") (fun _ toks rest => rest = toks.tail) (maybe contract)

def vectorForm : Form Token :=
  series [isToken .matchKw, isToken .lParen, nameForm, isToken .rParen,
    maybe (word "USING"), branch dollar.only (fun _ => nameForm) Eq, limitForm,
    contractForm]

/-- What may follow a token.  Most tokens stand alone. -/
def clauseForm (f64 : FloatReader F) : Token → Form Token
  | .vector => series [vectorForm]
  | .matchKw => series [patternsForm f64]
  | .optionalMatch => series [isToken .matchKw, patternsForm f64]
  | .whereKw => series [predicateForm f64]
  | .returnKw => series [returnForm]
  | .create => series [createForm f64]
  | .delete => series [deleteForm]
  | _ => Eq

/-- Clauses in any order and tokens that start none. -/
def queryForm (f64 : FloatReader F) : Form Token := Turns (next some) (clauseForm f64) some

theorem takes_parseLimit : Takes bound parseLimit limitForm :=
  takes_whenNext (fun _ => takes_bind takes_expectUint fun _ => takes_pure) (takes_pure)

theorem beforeItem_shorter (enters : beforeItem toks = some (entered, hin)) :
    hin.length ≤ toks.length := by
  unfold beforeItem at enters
  split at enters <;> cases enters
  exact Nat.le_refl _

theorem takes_parseReturnClause : Takes bound parseReturnClause returnForm :=
  takes_bind (takes_separated beforeItem_shorter (fun _ _ => takes_bind takes_expectIdent fun _ =>
    takes_whenNext (fun _ => takes_bind takes_expectIdent fun _ => takes_pure) (takes_pure)))
    fun _ => takes_bind takes_parseLimit fun _ => takes_pure

theorem takes_parseCreateClause : Takes bound (parseCreateClause f64) (createForm f64) := by
  refine takes_separated ?_ (fun _ _ => takes_bind takes_expectIdent fun _ =>
    takes_bind takes_parseLabel fun _ =>
      takes_bind (takes_whenNext (fun _ => takes_parsePairs f64 _) (takes_pure)) fun _ =>
        takes_bind (takes_expect) fun _ => takes_pure)
  intro toks entered hin enters
  obtain ⟨token, rfl, -⟩ := next_some enters
  simp

theorem takes_parseDeleteClause :
    Takes bound (parseDeleteClause : Parser (List (GraphMutationClause F))) deleteForm :=
  takes_separated always_shorter
    (fun _ _ => takes_bind takes_expectIdent fun _ => takes_pure)

theorem takes_parseContract : Takes bound parseContract contractForm :=
  takes_whenNext (fun _ => takes_any _) (takes_maybe _ (fun contract => contract) _)

theorem takes_parseVectorMatch : Takes bound parseVectorMatch vectorForm :=
  takes_bind (takes_expect) fun _ => takes_bind (takes_expect) fun _ =>
    takes_bind takes_expectIdent fun _ => takes_bind (takes_expect) fun _ =>
      takes_bind (takes_maybe _ _ _) fun _ =>
        takes_bind (takes_whenNext (fun _ => takes_expectIdent) (takes_pure)) fun _ =>
          takes_bind takes_parseLimit fun _ => takes_bind takes_parseContract fun _ => takes_pure

theorem takes_parseClause (token : Token) (ast : QueryAst F) :
    Takes bound (parseClause f64 token ast) (clauseForm f64 token) := by
  cases token with
  | vector => exact takes_bind takes_parseVectorMatch fun _ => takes_pure
  | matchKw => exact takes_bind (takes_parseMatchPatterns) fun _ => takes_pure
  | optionalMatch =>
    exact takes_bind (takes_expect) fun _ =>
      takes_bind (takes_parseMatchPatterns) fun _ => takes_pure
  | whereKw => exact takes_bind (takes_parsePredicate) fun _ => takes_pure
  | returnKw => exact takes_bind takes_parseReturnClause fun _ => takes_pure
  | create => exact takes_bind (takes_parseCreateClause) fun _ => takes_pure
  | delete => exact takes_bind takes_parseDeleteClause fun _ => takes_pure
  | _ => exact takes_pure

theorem takes_parse : Takes bound (parse f64) (queryForm f64) := takes_while (takes_parseClause) _

/-- The parser succeeds just on the texts of this grammar, whatever the catalogs. -/
theorem parse_ok_iff : (∃ out, parse f64 (toks, cats) = .ok out) ↔ queryForm f64 toks [] := by
  have takes : ∀ {rest}, _ ↔ queryForm f64 toks rest := (takes_parse).iff cats (Nat.lt_succ_self _)
  constructor
  · rintro ⟨⟨ast, rest, catalogs'⟩, done⟩
    have turns := takes.mp ⟨ast, catalogs', done⟩
    cases rest with
    | nil => exact turns
    | cons token rest => cases turns.out_at
  · intro form
    obtain ⟨ast, catalogs', done⟩ := takes.mpr form
    exact ⟨_, done⟩

end HoloSphere.Graph.Query
