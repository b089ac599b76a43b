import HoloSphere.Graph.Query.PatternSyntax

/-! # Predicates and their texts

The derivations of the documented grammar of predicates, each with its tokens and with the
predicate that it stands for.  On such a text the parser succeeds just if the literals in it
can be read, and then returns this predicate.
-/

namespace HoloSphere.Graph.Query
open Program Reader List Predicate Except
variable {F : Type} {f64 : FloatReader F}

/-- What may stand on either side of a comparison. -/
inductive Operand where
  | literal (written : Literal)
  | parameter (name : String)
  | property (owner key : String)
  deriving DecidableEq

def Operand.text : Operand → List Token
  | .literal written => [written.token]
  | .parameter name => [.dollar, .ident name]
  | .property owner key => [.ident owner, .dot, .ident key]

def Operand.Readable (f64 : FloatReader F) : Operand → Prop
  | .literal written => written.Readable f64
  | _ => True

def Operand.value (f64 : FloatReader F) : Operand → PredicateValue F
  | .literal written => .literal (written.value f64)
  | .parameter name => .parameter name
  | .property owner key => .propertyRef owner key

theorem Literal.token_isLiteral (literal : Literal) : literal.token.isLiteral = true := by
  cases literal with
  | bool b => cases b <;> rfl
  | _ => rfl

theorem parsePredValue_text (opd : Operand) :
    parsePredValue f64 (opd.text ++ rest, cats) = .ok out ↔
      opd.Readable f64 ∧ (opd.value f64, rest, cats) = out := by
  cases opd with
  | literal written =>
    have plain : Token.dollar.only written.token = none ∧ written.token.identName = none := by
      cases written with
      | bool b => cases b <;> exact ⟨rfl, rfl⟩
      | _ => exact ⟨rfl, rfl⟩
    simp [parsePredValue, Operand.text, whenNext_cons, plain, parseLiteralOperand, advance,
      written.token_isLiteral, map_eq_ok, literalValue_token, Operand.Readable, Operand.value,
      and_assoc]
  | parameter name | property owner key =>
    simp [parsePredValue, Operand.text, whenNext_cons, Token.only, Token.identName, expectIdent,
      Token.nameText, map_apply, expectSome_cons, Operand.Readable, Operand.value]

section

inductive Level where
  | or
  | and
  | not

/-- The derivations of `Predicate`, `AndPred` and `NotPred`. -/
inductive PredTree : Level → Type where
  | or (left : PredTree .or) (right : PredTree .and) : PredTree .or
  | ofAnd (inner : PredTree .and) : PredTree .or
  | and (left : PredTree .and) (right : PredTree .not) : PredTree .and
  | ofNot (inner : PredTree .not) : PredTree .and
  | not (inner : PredTree .not) : PredTree .not
  | paren (inner : PredTree .or) : PredTree .not
  | compare (left : Operand) (comparison : Comparison) (right : Operand) : PredTree .not
  | isNull (opd : Operand) : PredTree .not
  | isNotNull (opd : Operand) : PredTree .not

def Comparison.token : Comparison → Token
  | .eq => .eq
  | .ne => .ne
  | .lt => .lt
  | .le => .le
  | .gt => .gt
  | .ge => .ge

def PredTree.text {level : Level} : PredTree level → List Token
  | .or left right => left.text ++ .or :: right.text
  | .ofAnd inner => inner.text
  | .and left right => left.text ++ .and :: right.text
  | .ofNot inner => inner.text
  | .not inner => .not :: inner.text
  | .paren inner => .lParen :: (inner.text ++ [.rParen])
  | .compare left comparison right => left.text ++ comparison.token :: right.text
  | .isNull opd => opd.text ++ [.is, .null]
  | .isNotNull opd => opd.text ++ [.is, .not, .null]

def PredTree.predicate {level : Level} : PredTree level → Predicate Operand
  | .or left right => .or left.predicate right.predicate
  | .ofAnd inner => inner.predicate
  | .and left right => .and left.predicate right.predicate
  | .ofNot inner => inner.predicate
  | .not inner => .not inner.predicate
  | .paren inner => inner.predicate
  | .compare left comparison right => comparison.predicate left right
  | .isNull opd => .isNull opd
  | .isNotNull opd => .isNotNull opd

variable {V W : Type}

def Predicate.map (f : V → W) : Predicate V → Predicate W
  | .eq left right => .eq (f left) (f right)
  | .ne left right => .ne (f left) (f right)
  | .lt left right => .lt (f left) (f right)
  | .le left right => .le (f left) (f right)
  | .gt left right => .gt (f left) (f right)
  | .ge left right => .ge (f left) (f right)
  | .isNull opd => .isNull (f opd)
  | .isNotNull opd => .isNotNull (f opd)
  | .and left right => .and (left.map f) (right.map f)
  | .or left right => .or (left.map f) (right.map f)
  | .not inner => .not (inner.map f)

def Predicate.operands : Predicate V → List V
  | .eq left right | .ne left right | .lt left right | .le left right | .gt left right
  | .ge left right => [left, right]
  | .isNull opd | .isNotNull opd => [opd]
  | .and left right | .or left right => left.operands ++ right.operands
  | .not inner => inner.operands

theorem Comparison.predicate_map (comparison : Comparison) (f : V → W) (left right : V) :
    (comparison.predicate left right).map f = comparison.predicate (f left) (f right) := by
  cases comparison <;> rfl

theorem Comparison.operands_predicate (comparison : Comparison) (left right : V) :
    (comparison.predicate left right).operands = [left, right] := by
  cases comparison <;> rfl

/-- The literals of the predicate can be read. -/
def Predicate.Readable (f64 : FloatReader F) (pred : Predicate Operand) : Prop :=
  ∀ opd ∈ pred.operands, opd.Readable f64

def Predicate.value (f64 : FloatReader F) (pred : Predicate Operand) : ScalarPredicate F :=
  pred.map (Operand.value f64)

end

theorem parseNotPred_not : parseNotPred f64 pred (.not :: rest, cats) =
      (parseNotPred f64 pred >>= fun inner => return .not inner) (rest, cats) := by
  rw [parseNotPred, recurse, whenToken, whenNext_cons]
  simp [bind_apply]

theorem parseNotPred_atom {token : Token} (atom : token ≠ .not) :
    parseNotPred f64 pred (token :: rest, cats) = parseAtomPred f64 pred (token :: rest, cats) := by
  rw [parseNotPred, recurse, whenToken, whenNext_cons]
  simp [Token.only, atom]

theorem parseJoined_stop {connective : Token} (ends : next connective.only rest = none) :
    parseJoined connective pred join left (rest, cats) = .ok (left, rest, cats) := by
  rw [parseJoined, loop_ok]
  simp [ends]

def levelStart (f64 : FloatReader F) (pred : Parser (ScalarPredicate F)) :
    Level → Parser (ScalarPredicate F)
  | .or => parseOrPred f64 pred
  | .and => parseAndPred f64 pred
  | .not => parseNotPred f64 pred

/-- What is left to do at a level once an operand has been read. -/
def levelRest (f64 : FloatReader F) (pred : Parser (ScalarPredicate F)) :
    Level → ScalarPredicate F → Parser (ScalarPredicate F)
  | .or => parseJoined .or (parseAndPred f64 pred) .or
  | .and => parseJoined .and (parseNotPred f64 pred) .and
  | .not => pure

theorem parseJoined_more :
    parseJoined connective pred join left (connective :: rest, cats) = .ok out ↔
      ∃ mid, pred (rest, cats) = .ok mid ∧ mid.2.1.length < rest.length + 1 ∧
        parseJoined connective pred join (join left mid.1) mid.2 = .ok out := by
  rw [parseJoined, loop_ok]
  simp only [next_cons, Token.only_self, Option.map_some, length_cons, bind_apply, bind_eq_ok,
    pure_apply, ok.injEq]
  constructor
  · rintro ⟨_, ⟨mid, done, rfl⟩, later⟩
    exact ⟨mid, done, later⟩
  · rintro ⟨mid, done, later⟩
    exact ⟨_, ⟨mid, done, rfl⟩, later⟩

section
variable {rest : List Token} {cats : Catalogs}

/-- The operand that a comparison begins with. -/
def PredTree.subject : PredTree level → Option Operand
  | .compare opd .. | .isNull opd | .isNotNull opd => some opd
  | _ => none

theorem parseComparison_text {tree : PredTree .not} (atom : tree.subject = some opd) :
    parseComparison f64 (tree.text ++ rest, cats) = .ok out ↔
      tree.predicate.Readable f64 ∧ (tree.predicate.value f64, rest, cats) = out := by
  cases tree with
  | compare left comparison right =>
    have tells : Token.is.only comparison.token = none ∧
        comparison.token.comparison = some comparison := by
      cases comparison <;> exact ⟨rfl, rfl⟩
    simp [parseComparison, bind_ok, PredTree.text, parsePredValue_text, whenNext_cons, tells,
      map_apply, bind_eq_ok, PredTree.predicate, Readable, value,
      Comparison.operands_predicate, Comparison.predicate_map, and_assoc]
  | isNull | isNotNull =>
    simp [parseComparison, bind_ok, PredTree.text, parsePredValue_text, whenNext_cons,
      Token.only, map_apply, expectSome_cons, PredTree.predicate, Readable, value,
      Predicate.operands, Predicate.map]
  | not | paren => cases atom

theorem Operand.text_begins (opd : Operand) :
    ∃ token others, opd.text = token :: others ∧ token ≠ .not ∧ token ≠ .lParen := by
  cases opd with
  | literal written =>
    cases written with
    | bool b => cases b <;> exact ⟨_, _, rfl, nofun, nofun⟩
    | _ => exact ⟨_, _, rfl, nofun, nofun⟩
  | parameter | property => exact ⟨_, _, rfl, nofun, nofun⟩

theorem parseNotPred_text {tree : PredTree .not} (atom : tree.subject = some opd)
    {pred : Parser (ScalarPredicate F)} :
    parseNotPred f64 pred (tree.text ++ rest, cats) = .ok out ↔
      tree.predicate.Readable f64 ∧ (tree.predicate.value f64, rest, cats) = out := by
  have parsed := @parseComparison_text F f64 rest cats opd out tree atom
  obtain ⟨token, others, begins, notNot, notParen⟩ :
      ∃ token others, tree.text ++ rest = token :: others ∧ token ≠ .not ∧ token ≠ .lParen := by
    obtain ⟨token, others, begins, differs⟩ := opd.text_begins
    cases tree with
    | not | paren => cases atom
    | _ =>
      cases atom
      simp [PredTree.text, begins, differs]
  rw [begins] at parsed ⊢
  rw [parseNotPred_atom notNot, parseAtomPred, whenToken, whenNext_cons, ← parsed]
  simp [Token.only, notParen]

/-- The inner reader only has to be right on shorter texts. -/
def Agrees (f64 : FloatReader F) (pred : Parser (ScalarPredicate F)) (bound : Nat) : Prop :=
  ∀ input, input.1.length < bound → pred input = parsePredicate f64 input

theorem parsePredicate_eq (input : List Token × Catalogs) : ∃ pred, Agrees f64 pred input.1.length ∧
      parsePredicate f64 input = parseOrPred f64 pred input := by
  refine ⟨fun rest => if rest.1.length < input.1.length then parsePredicate f64 rest
    else .error default, fun rest shorter => if_pos shorter, ?_⟩
  rw [parsePredicate, recurse]
  rfl

theorem readable_and :
    (Predicate.and left right).Readable f64 ↔ left.Readable f64 ∧ right.Readable f64 :=
  forall_mem_append

theorem readable_or :
    (Predicate.or left right).Readable f64 ↔ left.Readable f64 ∧ right.Readable f64 :=
  forall_mem_append

theorem Agrees.rear (h : Agrees f64 pred (text ++ sep :: rest).length) :
    Agrees f64 pred rest.length := fun input below =>
  h input (by rw [length_append, length_cons]; omega)

theorem shorter_append : rest.length < (text ++ rest).length + 1 := by
  rw [length_append]
  omega

/-- What is read of a derivation at its level.  The operands of an `OR` would take a following
    `AND` with them. -/
theorem PredTree.parsed {level : Level} (tree : PredTree level) {rest : List Token}
    (ends : level = .or → next Token.and.only rest = none) {cats : Catalogs}
    {pred : Parser (ScalarPredicate F)} (agrees : Agrees f64 pred (tree.text ++ rest).length)
    (out : ScalarPredicate F × List Token × Catalogs) :
    levelStart f64 pred level (tree.text ++ rest, cats) = .ok out ↔ tree.predicate.Readable f64 ∧
        levelRest f64 pred level (tree.predicate.value f64) (rest, cats) = .ok out := by
  induction tree generalizing rest cats out pred with
  | compare | isNull | isNotNull =>
    simpa [levelStart, levelRest, pure_apply] using parseNotPred_text rfl
  | ofNot inner ih =>
    have here := @ih rest nofun cats pred agrees
    simp only [levelStart, levelRest, pure_apply, ok.injEq] at here
    simp only [levelStart, parseAndPred, bind_ok, PredTree.text, here, and_assoc,
      exists_and_left, exists_eq_left']
    rfl
  | ofAnd inner ih =>
    have here := @ih rest nofun cats pred agrees
    simp only [levelStart, levelRest, parseJoined_stop (ends rfl), ok.injEq] at here
    simp only [levelStart, parseOrPred, bind_ok, PredTree.text, here, and_assoc,
      exists_and_left, exists_eq_left']
    rfl
  | not inner ih =>
    have shorter : Agrees f64 pred (inner.text ++ rest).length :=
      fun input below => agrees input (Nat.lt_succ_of_lt below)
    have here := @ih rest nofun cats pred shorter
    simp only [levelStart, levelRest, pure_apply, ok.injEq] at here
    simp only [levelStart, levelRest, PredTree.text, cons_append, parseNotPred_not, bind_ok,
      here, and_assoc, exists_and_left, exists_eq_left', pure_apply]
    rfl
  | paren inner ih =>
    have below : (inner.text ++ .rParen :: rest).length < (inner.paren.text ++ rest).length := by
      simp [PredTree.text]
    obtain ⟨again, right, same⟩ :=
      @parsePredicate_eq F f64 (inner.text ++ .rParen :: rest, cats)
    have here := @ih (.rParen :: rest) (fun _ => rfl) cats again right
    have stops : parseJoined .or (parseAndPred f64 again) .or (inner.predicate.value f64)
        (.rParen :: rest, cats) = .ok (_, .rParen :: rest, cats) := parseJoined_stop rfl
    simp only [levelStart, levelRest, ← same, stops, ok.injEq] at here
    simp only [levelStart, levelRest, PredTree.text, cons_append, append_assoc,
      nil_append, pure_apply, ok.injEq]
    have notNot : Token.lParen ≠ .not := nofun
    rw [parseNotPred_atom notNot, parseAtomPred, whenToken, whenNext_cons]
    simp only [Token.only_self, bind_ok, agrees (_, cats) below, here, and_assoc, exists_and_left,
      exists_eq_left', expectRParen, expectSome_cons, ok.injEq, pure_apply]
    rfl
  | and left right ihl ihr =>
    have pre : Agrees f64 pred (left.text ++ .and :: (right.text ++ rest)).length := by
      simpa [PredTree.text] using agrees
    have fst := @ihl (.and :: (right.text ++ rest)) nofun cats pred pre
    have snd := @ihr rest nofun cats pred pre.rear
    simp only [levelStart, levelRest, pure_apply, ok.injEq] at fst snd
    simp only [levelStart, levelRest, PredTree.text, append_assoc, cons_append, fst,
      parseJoined_more, snd, and_assoc, exists_and_left, exists_eq_left', shorter_append,
      true_and, PredTree.predicate, readable_and]
    rfl
  | or left right ihl ihr =>
    have pre : Agrees f64 pred (left.text ++ .or :: (right.text ++ rest)).length := by
      simpa [PredTree.text] using agrees
    have fst := @ihl (.or :: (right.text ++ rest)) (fun _ => rfl) cats pred pre
    have snd := @ihr rest nofun cats pred pre.rear
    simp only [levelStart, levelRest, parseJoined_stop (ends rfl), ok.injEq] at fst snd
    simp only [levelStart, levelRest, PredTree.text, append_assoc, cons_append, fst,
      parseJoined_more, snd, and_assoc, exists_and_left, exists_eq_left', shorter_append,
      true_and, PredTree.predicate, readable_or]
    rfl

theorem parsePredicate_text (tree : PredTree .or) {rest : List Token}
    (noAnd : next Token.and.only rest = none) (noOr : next Token.or.only rest = none)
    {cats : Catalogs} {out : ScalarPredicate F × List Token × Catalogs} :
    parsePredicate f64 (tree.text ++ rest, cats) = .ok out ↔
      tree.predicate.Readable f64 ∧ (tree.predicate.value f64, rest, cats) = out := by
  obtain ⟨again, right, same⟩ := @parsePredicate_eq F f64 (tree.text ++ rest, cats)
  have parsed := @PredTree.parsed F f64 .or tree rest (fun _ => noAnd) cats again right out
  simp only [levelStart, levelRest, parseJoined_stop noOr, ok.injEq] at parsed
  rw [same, parsed]

end
end HoloSphere.Graph.Query
