import HoloSphere.Graph.Query.LooseGrammar
import HoloSphere.Graph.Query.Shown
import Mathlib.Data.List.Induction

/-! # The documented grammar

The derivations of the grammar in the documentation of `graph/query/parser.rs` with their
tokens, what the parser makes of them, and what it takes for all of a query to be in the
tree.
-/

namespace HoloSphere.Graph.Query
open Program Reader
open List hiding after filter
variable {F α : Type} {f64 : FloatReader F}

/-- A chain with brackets and both dashes. -/
def ChainSyntax.Documented (chain : ChainSyntax) : Prop :=
  ∀ step ∈ chain.steps, step.1.brackets = true ∧ step.1.dash = true

/-- Only a property is compared. -/
def PredTree.Documented {level : Level} : PredTree level → Prop
  | .or left right => left.Documented ∧ right.Documented
  | .ofAnd inner => inner.Documented
  | .and left right => left.Documented ∧ right.Documented
  | .ofNot inner => inner.Documented
  | .not inner => inner.Documented
  | .paren inner => inner.Documented
  | .compare left _ _ => ∃ owner key, left = .property owner key
  | .isNull opd => ∃ owner key, opd = .property owner key
  | .isNotNull opd => ∃ owner key, opd = .property owner key

def commaText (text : α → List Token) (ents : α × List α) : List Token :=
  text ents.1 ++ ents.2.flatMap fun entry => .comma :: text entry

def allOf (ents : α × List α) : List α := ents.1 :: ents.2

abbrev Spelling (word : String) := { name : String // (Token.ident name).isWord word = true }

structure VectorSyntax where
  binding : String
  usingWord : Spelling "USING"
  param : String
  limit : IntText
  contractWord : Spelling "CONTRACT"
  contract : VectorContract

def VectorContract.token : VectorContract → Token
  | .certified => .certified
  | .highRecall => .highRecall
  | .bounded => .bounded

def VectorSyntax.text (vec : VectorSyntax) : List Token :=
  [.matchKw, .lParen, .ident vec.binding, .rParen, .ident vec.usingWord, .dollar,
    .ident vec.param, .limit, .intLit vec.limit, .ident vec.contractWord,
    vec.contract.token]

structure MatchSyntax where
  optional : Bool
  chains : ChainSyntax × List ChainSyntax

def MatchSyntax.restText (clause : MatchSyntax) : List Token :=
  (if clause.optional then [.matchKw] else []) ++ commaText ChainSyntax.text clause.chains

def MatchSyntax.text (clause : MatchSyntax) : List Token :=
  (if clause.optional then .optionalMatch else .matchKw) :: clause.restText

def ReturnItem.text : ReturnItem → List Token
  | .aliasOf name => [.ident name]
  | .propertyRef owner key => [.ident owner, .dot, .ident key]

def limitText (limit : Option IntText) : List Token :=
  limit.elim [] fun text => [.limit, .intLit text]

structure ReadSyntax where
  vector : Option VectorSyntax
  matched : List MatchSyntax
  filter : Option (PredTree .or)
  items : ReturnItem × List ReturnItem
  limit : Option IntText

def vectorText (vec : Option VectorSyntax) : List Token :=
  vec.elim [] fun vec => .vector :: vec.text

def filterText (filter : Option (PredTree .or)) : List Token :=
  filter.elim [] fun tree => .whereKw :: tree.text

def ReadSyntax.returnText (qry : ReadSyntax) : List Token :=
  commaText ReturnItem.text qry.items ++ limitText qry.limit

def ReadSyntax.text (qry : ReadSyntax) : List Token :=
  vectorText qry.vector ++ (qry.matched.flatMap MatchSyntax.text ++
    (filterText qry.filter ++ .returnKw :: qry.returnText))

inductive QuerySyntax where
  | read (qry : ReadSyntax)
  | create (nodes : NodeSyntax × List NodeSyntax)
  | delete (names : String × List String)

def QuerySyntax.text : QuerySyntax → List Token
  | .read qry => qry.text
  | .create nodes => .create :: (nodes.1.text ++ nodes.2.flatMap NodeSyntax.text)
  | .delete names => .delete :: commaText (fun name => [.ident name]) names

/-- The tokens are derivable from the documented grammar, as this query. -/
def Derives (toks : List Token) (qry : QuerySyntax) : Prop :=
  toks = qry.text ∧ match qry with
    | .read qry =>
      (∀ clause ∈ qry.matched, ∀ chain ∈ allOf clause.chains, chain.Documented) ∧
        ∀ tree ∈ qry.filter, tree.Documented
    | _ => True

def VectorSyntax.clause (vec : VectorSyntax) : VectorMatchClause :=
  ⟨vec.binding, vec.param, vec.limit.value, vec.contract⟩

def MatchSyntax.written (clause : MatchSyntax) : List Written :=
  (allOf clause.chains).flatMap (ChainSyntax.written clause.optional)

/-- Every clause of the query is in the tree, in its place and as it is written. -/
structure ReadSyntax.Occurs (f64 : FloatReader F) (qry : ReadSyntax) (cats : Catalogs)
    (ast : QueryAst F) : Prop where
  vector : ast.vectorMatch = qry.vector.map VectorSyntax.clause
  matched : Forall₂ (Written.Shown f64 cats) (qry.matched.flatMap MatchSyntax.written)
    ast.patterns
  filtered : Forall₂ (PredicateShown f64) (qry.filter.toList.map PredTree.predicate)
    ast.wherePredicates
  returned : ast.returnClause = ⟨allOf qry.items, qry.limit.map IntText.value⟩

/-- The created node has the alias, the label and all the properties that are written, and no
    other ones. -/
def CreateShown (f64 : FloatReader F) (labels : LabelCatalog) (node : NodeSyntax)
    (op : GraphMutationClause F) : Prop :=
  ∃ name label properties, node.nodeAlias = some name ∧
    op = .createNode name label.toList properties ∧ ShowsLabel labels node.label label ∧
    (∀ pair ∈ node.pairs, ∃ val, properties pair.1 = some val ∧ pair.2.meaning f64 = some val) ∧
    ∀ key, (∀ pair ∈ node.pairs, pair.1 ≠ key) → properties key = none

def QuerySyntax.Occurs (f64 : FloatReader F) (cats : Catalogs) (ast : QueryAst F) :
    QuerySyntax → Prop
  | .read qry => qry.Occurs f64 cats ast
  | .create nodes => Forall₂ (CreateShown f64 cats.labels) (allOf nodes) ast.mutations
  | .delete names => ast.mutations = (allOf names).map .deleteAlias

/-- The parser takes a list of tokens just if it is documented, and puts every clause of it
    into the tree. -/
def AcceptsDocumented (f64 : FloatReader F) (toks : List Token) (cats : Catalogs) : Prop :=
  (∀ qry, Derives toks qry → ∃ ast catalogs',
    parse f64 (toks, cats) = .ok (ast, [], catalogs') ∧ qry.Occurs f64 catalogs' ast) ∧
  ((∀ qry, ¬ Derives toks qry) → ∃ e, parse f64 (toks, cats) = .error e)

def MatchSyntax.typeNames (clause : MatchSyntax) : List String :=
  (allOf clause.chains).flatMap fun chain => typeNamesOf chain.steps

/-- Numbers fit, types can be registered, and no node or literal is dropped. -/
structure ReadSyntax.Faithful (f64 : FloatReader F) (cats : Catalogs) (qry : ReadSyntax) :
    Prop where
  vectorLimit : ∀ vec ∈ qry.vector, vec.limit.value < 2 ^ 64
  matched : ∀ clause ∈ qry.matched, ∀ chain ∈ allOf clause.chains, chain.Kept f64 clause.optional
  room : RoomFor cats.rels (qry.matched.flatMap MatchSyntax.typeNames)
  filtered : ∀ tree ∈ qry.filter, ∀ opd ∈ tree.predicate.operands, opd.Fits f64
  limit : ∀ text ∈ qry.limit, text.value < 2 ^ 64

/-- A key that is written twice has the same value both times. -/
def KeysAgree (f64 : FloatReader F) (pairs : List (String × Literal)) : Prop :=
  ∀ pair ∈ pairs, ∀ other ∈ pairs, pair.1 = other.1 → pair.2.value f64 = other.2.value f64

def QuerySyntax.Faithful (f64 : FloatReader F) (cats : Catalogs) : QuerySyntax → Prop
  | .read qry => qry.Faithful f64 cats
  | .create nodes => nodes.2 = [] ∧ nodes.1.nodeAlias ≠ none ∧ nodes.1.Fits f64 ∧
      KeysAgree f64 nodes.1.pairs
  | .delete _ => True

section
variable {S : Type} {enter : List Token → Option (Unit × List Token)} {step : S → Parser S}
  {text : α → List Token} {Readable : α → Prop} {push : S × Catalogs → α → S × Catalogs}
  {Ends : List Token → Prop}

theorem commaLoop_text (comma : ∀ rest, Ends (.comma :: rest))
    (enters : ∀ entry rest, enter (text entry ++ rest) = some ((), text entry ++ rest))
    (steps : ∀ entry {rest}, Ends rest → ∀ (st : S × Catalogs) mid,
      step st.1 (text entry ++ rest, st.2) = .ok mid ↔
        Readable entry ∧ ((push st entry).1, rest, (push st entry).2) = mid)
    {rest : List Token} (ends : Ends rest) (noComma : next Token.comma.only rest = none)
    (ents : α × List α) (st : S × Catalogs) {out : S × List Token × Catalogs} :
    loop enter (fun _ => step) afterComma st.1 (commaText text ents ++ rest, st.2) = .ok out ↔
      (∀ entry ∈ allOf ents, Readable entry) ∧
        (((allOf ents).foldl push st).1, rest, ((allOf ents).foldl push st).2) = out := by
  obtain ⟨fst, others⟩ := ents
  unfold allOf
  induction others generalizing fst st with
  | nil =>
    rw [loop_ok]
    simp [commaText, enters, steps fst ends, after, noComma]
  | cons other others ih =>
    have text_eq : commaText text (fst, other :: others) ++ rest =
        text fst ++ .comma :: (commaText text (other, others) ++ rest) := by
      simp [commaText]
    have later := ih (push st fst) other
    rw [loop_ok, text_eq]
    simp only [enters, steps fst (comma _), and_assoc, exists_and_left, exists_eq_left', after,
      next_cons, Token.only_self, Option.map_some, length_append, length_cons,
      forall_mem_cons, foldl_cons] at later ⊢
    rw [later]
    exact and_congr_right fun _ => and_iff_right (by omega)

variable {token : Token} {body rest : List Token} {ast ast' : QueryAst F}
  {cats catalogs' : Catalogs} {readable : Prop}

/-- The rest of the loop in `parse`. -/
abbrev parseFrom (f64 : FloatReader F) : QueryAst F → Parser (QueryAst F) :=
  loop (next some) (parseClause f64) some

theorem parseFrom_nil : parseFrom f64 ast ([], cats) = .ok out ↔ (ast, [], cats) = out := by
  rw [parseFrom, loop_ok]
  simp

theorem parseFrom_clause (reads : ∀ mid, parseClause f64 token ast (body ++ rest, cats) = .ok mid ↔
      readable ∧ (ast', rest, catalogs') = mid) :
    parseFrom f64 ast (token :: (body ++ rest), cats) = .ok out ↔
      readable ∧ parseFrom f64 ast' (rest, catalogs') = .ok out := by
  rw [parseFrom, loop_ok]
  simp only [next_cons, Option.map_some, reads, and_assoc, exists_and_left, exists_eq_left',
    length_cons, length_append]
  exact and_congr_right fun _ => and_iff_right (by omega)

end

/-- A clause that may follow patterns begins here. -/
def Clear (toks : List Token) : Prop :=
  ∃ token rest, toks = token :: rest ∧ token ∈ [.matchKw, .optionalMatch, .whereKw, .returnKw]

theorem Clear.next_none {toks : List Token} (clear : Clear toks) {tells : Token → Option α}
    (silent : ∀ token ∈ [.matchKw, .optionalMatch, .whereKw, .returnKw], tells token = none) :
    next tells toks = none := by
  obtain ⟨token, rest, rfl, mem⟩ := clear
  simp [silent token mem]

theorem parseFrom_vector (fresh : ast.vectorMatch = none) :
    parseFrom f64 ast (vectorText vec ++ rest, cats) = .ok out ↔
      (∀ written ∈ vec, written.limit.value < 2 ^ 64) ∧
        parseFrom f64 { ast with vectorMatch := vec.map VectorSyntax.clause }
          (rest, cats) = .ok out := by
  cases vec with
  | none => simp [vectorText, ← fresh]
  | some vec =>
    obtain ⟨binding, usingWord, param, limit, contractWord, contract⟩ := vec
    simp only [Option.mem_def, Option.some.injEq, forall_eq', Option.map_some]
    refine parseFrom_clause fun mid => ?_
    have isUsing : (Token.ident usingWord).isWord "USING" = true := usingWord.2
    have isContract : (Token.ident contractWord).isWord "CONTRACT" = true := contractWord.2
    obtain ⟨read, fits⟩ | ⟨e, read, fits⟩ := usizeOf_cases <;> rw [fits] <;> cases contract <;>
      simp [parseClause, parseVectorMatch, VectorSyntax.text, VectorSyntax.clause, expectLParen,
        expectRParen, expectIdent, parseLimit, parseContract, expectUint, bind_apply, map_apply,
        pure_apply, expectSome_cons, whenNext_cons, Token.only, Token.nameText, Token.word,
        isUsing, isContract, advance, Token.intText, VectorContract.token, Token.contract,
        Except.map, read]

def MatchSyntax.pushed (f64 : FloatReader F) (st : PatternState F) (clause : MatchSyntax) :
    PatternState F :=
  (allOf clause.chains).foldl (ChainSyntax.pushed f64 clause.optional) st

def MatchSyntax.Readable (f64 : FloatReader F) (clause : MatchSyntax) : Prop :=
  ∀ chain ∈ allOf clause.chains, chain.Readable f64

theorem parseFrom_match (clause : MatchSyntax) (clear : Clear rest) :
    parseFrom f64 ast (clause.text ++ rest, cats) = .ok out ↔ clause.Readable f64 ∧
        parseFrom f64 { ast with patterns := (clause.pushed f64 (ast.patterns, cats)).1 }
          (rest, (clause.pushed f64 (ast.patterns, cats)).2) = .ok out := by
  obtain ⟨opt, chains⟩ := clause
  have reads := @commaLoop_text ChainSyntax (List (GraphPattern F)) always
    (parsePatternChain f64 opt) ChainSyntax.text (ChainSyntax.Readable f64)
    (ChainSyntax.pushed f64 opt) (fun rest => next Token.relStart rest = none) (fun _ => rfl)
    (fun _ _ => rfl) (fun chain rest => parsePatternChain_text chain) rest
    (clear.next_none (by simp [Token.relStart])) (clear.next_none (by simp [Token.only])) chains
    (ast.patterns, cats)
  refine parseFrom_clause fun mid => ?_
  cases opt <;>
    simp [parseClause, MatchSyntax.restText, parseMatchPatterns, bind_apply, pure_apply,
      map_apply, expectSome_cons, bind_eq_ok, reads, MatchSyntax.Readable, MatchSyntax.pushed]

variable (clauses : List MatchSyntax)

theorem clear_matches (clear : Clear rest) : Clear (clauses.flatMap MatchSyntax.text ++ rest) := by
  cases clauses with
  | nil => exact clear
  | cons clause clauses =>
    refine ⟨_, _, rfl, ?_⟩
    cases clause.optional <;> simp

theorem parseFrom_matches (clear : Clear rest) :
    parseFrom f64 ast (clauses.flatMap MatchSyntax.text ++ rest, cats) = .ok out ↔
      (∀ clause ∈ clauses, clause.Readable f64) ∧ parseFrom f64 { ast with
            patterns := (clauses.foldl (MatchSyntax.pushed f64) (ast.patterns, cats)).1 }
          (rest, (clauses.foldl (MatchSyntax.pushed f64) (ast.patterns, cats)).2) = .ok out := by
  induction clauses generalizing ast cats with
  | nil => simp
  | cons clause clauses ih =>
    rw [flatMap_cons, append_assoc,
      parseFrom_match clause (clear_matches clauses clear), ih, forall_mem_cons, and_assoc]
    rfl

theorem parseFrom_filter (fresh : ast.wherePredicates = []) :
    parseFrom f64 ast (filterText filter ++ .returnKw :: rest, cats) = .ok out ↔
      (∀ tree ∈ filter, tree.predicate.Readable f64) ∧ parseFrom f64 { ast with
            wherePredicates := filter.toList.map fun tree => tree.predicate.value f64 }
          (.returnKw :: rest, cats) = .ok out := by
  cases filter with
  | none => simp [filterText, ← fresh]
  | some tree =>
    refine parseFrom_clause fun mid => ?_
    have reads : ∀ mid, _ := fun mid => @parsePredicate_text F f64 tree (.returnKw :: rest) rfl
      rfl cats mid
    simp [parseClause, map_apply, bind_eq_ok, reads, fresh]

theorem parseReturnItem_text (noDot : next Token.dot.only rest = none)
    (st : List ReturnItem × Catalogs) (mid : List ReturnItem × List Token × Catalogs) :
    parseReturnItem st.1 (item.text ++ rest, st.2) = .ok mid ↔
      True ∧ (st.1 ++ [item], rest, st.2) = mid := by
  cases item <;>
    simp [parseReturnItem, ReturnItem.text, expectIdent, bind_apply, pure_apply, map_apply,
      expectSome_cons, Token.nameText, whenNext, noDot]

theorem foldl_push {items : List α} (made : α → β) (st : List β × Catalogs) :
    items.foldl (fun st item => (st.1 ++ [made item], st.2)) st =
      (st.1 ++ items.map made, st.2) := by
  induction items generalizing st with
  | nil => simp
  | cons item items ih => simp [ih]

theorem parseFrom_return (qry : ReadSyntax) :
    parseFrom f64 ast (.returnKw :: qry.returnText, cats) = .ok out ↔
      (∀ text ∈ qry.limit, text.value < 2 ^ 64) ∧
        ({ ast with returnClause := ⟨allOf qry.items, qry.limit.map IntText.value⟩ }, [],
          cats) = out := by
  have quiet : ∀ tells : Token → Option Unit, tells .limit = none →
      next tells (limitText qry.limit) = none := by
    intro tells silent
    cases qry.limit <;> simp [limitText, silent]
  have reads := @commaLoop_text ReturnItem (List ReturnItem) beforeItem
    parseReturnItem ReturnItem.text (fun _ => True) (fun st item => (st.1 ++ [id item], st.2))
    (fun rest => next Token.dot.only rest = none) (fun _ => rfl)
    (fun item rest => by cases item <;> rfl) (fun item rest noDot => parseReturnItem_text noDot)
    (limitText qry.limit) (quiet _ rfl) (quiet _ rfl) qry.items ([], cats)
  simp only [foldl_push id, map_id, nil_append, implies_true, true_and] at reads
  rw [← append_nil qry.returnText, ← @parseFrom_nil F f64]
  refine parseFrom_clause fun mid => ?_
  rw [append_nil, ReadSyntax.returnText]
  simp only [parseClause, parseReturnClause, reads, exists_eq_left', bind_apply, bind_eq_ok,
    pure_apply]
  cases qry.limit with
  | none => simp [limitText, parseLimit, whenNext, pure_apply]
  | some text =>
    simp only [Option.mem_def, Option.some.injEq, forall_eq']
    obtain ⟨read, fits⟩ | ⟨e, read, fits⟩ := usizeOf_cases <;> rw [fits] <;>
      simp [limitText, parseLimit, whenNext_cons, expectUint, advance, Token.intText, read,
        map_apply, Except.map]

/-- The numbers of the query can be read. -/
def ReadSyntax.Readable (f64 : FloatReader F) (qry : ReadSyntax) : Prop :=
  (∀ vec ∈ qry.vector, vec.limit.value < 2 ^ 64) ∧ (∀ clause ∈ qry.matched, clause.Readable f64) ∧
    (∀ tree ∈ qry.filter, tree.predicate.Readable f64) ∧
    ∀ text ∈ qry.limit, text.value < 2 ^ 64

def ReadSyntax.pushed (f64 : FloatReader F) (qry : ReadSyntax) (cats : Catalogs) : PatternState F :=
  qry.matched.foldl (MatchSyntax.pushed f64) ([], cats)

def ReadSyntax.tree (f64 : FloatReader F) (qry : ReadSyntax) (cats : Catalogs) : QueryAst F where
  vectorMatch := qry.vector.map VectorSyntax.clause
  patterns := (qry.pushed f64 cats).1
  wherePredicates := qry.filter.toList.map fun tree => tree.predicate.value f64
  returnClause := ⟨allOf qry.items, qry.limit.map IntText.value⟩

theorem parse_read (qry : ReadSyntax) : parse f64 (qry.text, cats) = .ok out ↔
      qry.Readable f64 ∧ (qry.tree f64 cats, [], (qry.pushed f64 cats).2) = out := by
  have clear : Clear (filterText qry.filter ++ .returnKw :: qry.returnText) := by
    cases qry.filter with
    | none | some => exact ⟨_, _, rfl, by simp⟩
  have same : parse f64 = parseFrom f64 {} := rfl
  rw [same, ReadSyntax.text, parseFrom_vector rfl,
    parseFrom_matches qry.matched clear, parseFrom_filter rfl, parseFrom_return]
  simp only [ReadSyntax.Readable, and_assoc]
  rfl

theorem writes_matches :
    Writes f64 (clauses.foldl (MatchSyntax.pushed f64) ·) (clauses.flatMap MatchSyntax.written)
      (clauses.flatMap MatchSyntax.typeNames) (∀ clause ∈ clauses, clause.Readable f64)
      (∀ clause ∈ clauses, ∀ chain ∈ allOf clause.chains, chain.Kept f64 clause.optional) :=
  Writes.foldl clauses fun clause =>
    Writes.foldl (allOf clause.chains) (writes_chain f64 clause.optional)

theorem filter_fits_iff (filter : Option (PredTree .or)) :
    (∀ tree ∈ filter, ∀ opd ∈ tree.predicate.operands, opd.Fits f64) ↔
      (∀ tree ∈ filter, tree.predicate.Readable f64) ∧
        Forall₂ (PredicateShown f64) (filter.toList.map PredTree.predicate)
          (filter.toList.map fun tree => tree.predicate.value f64) := by
  cases filter <;> simp [predicate_fits_iff]

/-- A query that reads is taken and in the tree just if it is faithful. -/
theorem read_occurs_iff (qry : ReadSyntax) :
    (∃ ast catalogs', parse f64 (qry.text, cats) = .ok (ast, [], catalogs') ∧
      qry.Occurs f64 catalogs' ast) ↔ qry.Faithful f64 cats := by
  obtain ⟨added, patterns, -, -, -, shown⟩ := writes_matches qry.matched ([], cats)
  have matched := shown (qry.pushed f64 cats).2 (fun _ _ known => known) fun _ _ known => known
  have filtered := @filter_fits_iff F f64 qry.filter
  rw [nil_append] at patterns
  rw [← patterns] at matched
  simp only [parse_read, Prod.mk.injEq, true_and, ReadSyntax.Readable]
  constructor
  · rintro ⟨ast, catalogs', ⟨⟨vectorLimit, readable, valued, limit⟩, rfl, rfl⟩, occurs⟩
    obtain ⟨kept, room⟩ := matched.mp ⟨readable, occurs.matched⟩
    exact ⟨vectorLimit, kept, room, filtered.mpr ⟨valued, occurs.filtered⟩, limit⟩
  · rintro ⟨vectorLimit, kept, room, fits, limit⟩
    obtain ⟨readable, written⟩ := matched.mpr ⟨kept, room⟩
    obtain ⟨valued, isFilter⟩ := filtered.mp fits
    exact ⟨_, _, ⟨⟨vectorLimit, readable, valued, limit⟩, rfl, rfl⟩, rfl, written, isFilter, rfl⟩

/-- A written key has the value of some pair with this key, and no other key has one. -/
theorem propertyMap_pairs (f64 : FloatReader F) (pairs : List (String × Literal)) (key : String) :
    (∃ pair ∈ pairs, pair.1 = key ∧
      propertyMap (pairValues f64 pairs) key = some (pair.2.value f64)) ∨
      (∀ pair ∈ pairs, pair.1 ≠ key) ∧ propertyMap (pairValues f64 pairs) key = none := by
  induction pairs using reverseRecOn with
  | nil => exact .inr ⟨by simp, rfl⟩
  | append_singleton pairs last ih =>
    have concat : propertyMap (pairValues f64 (pairs ++ [last])) = Function.update
        (propertyMap (pairValues f64 pairs)) last.1 (some (last.2.value f64)) := by
      simp [propertyMap, pairValues]
    by_cases same : last.1 = key
    · subst same
      exact .inl ⟨last, by simp, rfl, by simp [concat]⟩
    · rw [concat, Function.update_of_ne (Ne.symm same)]
      rcases ih with ⟨pair, mem, isKey, found⟩ | ⟨missing, unset⟩
      · exact .inl ⟨pair, by simp [mem], isKey, found⟩
      · refine .inr ⟨?_, unset⟩
        simp only [forall_mem_append, forall_mem_singleton]
        exact ⟨missing, same⟩

/-- The map holds what every pair says if the literals are values and no key is given two of
    them. -/
theorem propertyMap_shown_iff (readable : ∀ pair ∈ pairs, pair.2.Readable f64) :
    (∀ pair ∈ pairs, ∃ val, propertyMap (pairValues f64 pairs) pair.1 = some val ∧
      pair.2.meaning f64 = some val) ↔
      (∀ pair ∈ pairs, pair.2.Fits f64) ∧ KeysAgree f64 pairs := by
  constructor
  · intro shown
    have stored : ∀ pair ∈ pairs, propertyMap (pairValues f64 pairs) pair.1 =
        some (pair.2.value f64) ∧ pair.2.meaning f64 = some (pair.2.value f64) := by
      intro pair mem
      obtain ⟨val, found, isShown⟩ := shown pair mem
      rcases propertyMap_pairs f64 pairs pair.1 with ⟨last, -, -, isFound⟩ | ⟨missing, -⟩
      · rw [isFound, Option.some.injEq] at found
        rw [← found] at isShown
        rw [isFound, isShown, Literal.value_eq_of_meaning isShown]
        exact ⟨rfl, rfl⟩
      · exact absurd rfl (missing pair mem)
    refine ⟨fun pair mem => (Literal.fits_iff _).mpr ⟨readable pair mem,
      (stored pair mem).2⟩, fun pair mem other isOther same => ?_⟩
    have found := (stored pair mem).1
    rw [same, (stored other isOther).1, Option.some.injEq] at found
    exact found.symm
  · rintro ⟨fits, agree⟩ pair mem
    rcases propertyMap_pairs f64 pairs pair.1 with ⟨last, isLast, isKey, found⟩ | ⟨missing, -⟩
    · refine ⟨_, found, ?_⟩
      rw [((Literal.fits_iff _).mp (fits pair mem)).2, agree pair mem last isLast isKey.symm]
    · exact absurd rfl (missing pair mem)

def NodeSyntax.created (f64 : FloatReader F) (node : NodeSyntax) (name : String)
    (cats : Catalogs) : GraphMutationClause F :=
  .createNode name (registerLabel node.label cats).1.toList
    (propertyMap (pairValues f64 node.pairs))

theorem createShown_iff {node : NodeSyntax} (named : node.nodeAlias = some name) :
    node.Readable f64 ∧ CreateShown f64 (registerLabel node.label cats).2.labels node
        (node.created f64 name cats) ↔ node.Fits f64 ∧ KeysAgree f64 node.pairs := by
  constructor
  · rintro ⟨readable, _, label, properties, -, same, -, shown, -⟩
    simp only [NodeSyntax.created, GraphMutationClause.createNode.injEq] at same
    rw [← same.2.2] at shown
    exact (propertyMap_shown_iff readable).mp shown
  · rintro ⟨fits, agree⟩
    have readable : node.Readable f64 := fun pair mem =>
      ((Literal.fits_iff _).mp (fits pair mem)).1
    refine ⟨readable, name, _, _, named, rfl, showsLabel_register fun _ _ known => known,
      (propertyMap_shown_iff readable).mpr ⟨fits, agree⟩, fun key missing => ?_⟩
    rcases propertyMap_pairs f64 node.pairs key with ⟨pair, mem, isKey, -⟩ | ⟨-, unset⟩
    · exact absurd isKey (missing pair mem)
    · exact unset

theorem parseCreateNode_text (node : NodeSyntax) {rest : List Token}
    {pre : List (GraphMutationClause F)}
    {out : List (GraphMutationClause F) × List Token × Catalogs} :
    parseCreateNode f64 pre (nameText node.nodeAlias ++ (labelText node.label ++
        (propsText node.props ++ (.rParen :: rest))), cats) = .ok out ↔
      ∃ name, node.nodeAlias = some name ∧ node.Readable f64 ∧
        (pre ++ [node.created f64 name cats], rest, (registerLabel node.label cats).2) = out := by
  obtain ⟨nodeAlias, label, props⟩ := node
  cases nodeAlias <;> cases label <;> cases props <;>
    simp [parseCreateNode, NodeSyntax.Readable, NodeSyntax.pairs, NodeSyntax.created, nameText,
      labelText, propsText, expectRParen, parseLabel, expectIdent, Token.nameText,
      Token.keywordName, Token.only, bind_apply, pure_apply, map_apply, onState, expectSome_cons,
      whenNext_cons, bind_eq_ok, parsePairs_text, registerLabel, pairValues]

/-- The token starts no clause. -/
def Token.Idle (f64 : FloatReader F) (token : Token) : Prop :=
  ∀ ast, parseClause f64 token ast = pure ast

theorem parseFrom_idle (idle : ∀ token ∈ toks, token.Idle f64) :
    parseFrom f64 ast (toks, cats) = .ok out ↔ (ast, [], cats) = out := by
  induction toks with
  | nil => exact parseFrom_nil
  | cons token toks ih =>
    rw [forall_mem_cons] at idle
    rw [← ih idle.2, parseFrom, loop_ok]
    simp [idle.1 ast, pure_apply]

theorem Literal.token_idle (literal : Literal) : literal.token.Idle f64 := by
  cases literal with
  | bool b => cases b <;> exact fun _ => rfl
  | _ => exact fun _ => rfl

theorem pairsText_idle : ∀ token ∈ pairsText pairs, token.Idle f64 := by
  induction pairs with
  | nil => simp [pairsText]
  | cons pair pairs ih =>
    cases pairs with
    | nil =>
      simp only [pairsText, forall_mem_cons]
      exact ⟨fun _ => rfl, fun _ => rfl, pair.2.token_idle, by simp⟩
    | cons other pairs =>
      simp only [pairsText, forall_mem_cons]
      exact ⟨fun _ => rfl, fun _ => rfl, pair.2.token_idle, fun _ => rfl, ih⟩

theorem NodeSyntax.text_idle (node : NodeSyntax) : ∀ token ∈ node.text, token.Idle f64 := by
  obtain ⟨nodeAlias, label, props⟩ := node
  simp only [NodeSyntax.text, forall_mem_cons, forall_mem_append]
  refine ⟨fun _ => rfl, ?_, ?_, ?_, fun _ => rfl, by simp⟩
  · cases nodeAlias <;> simp [nameText, Token.Idle, parseClause]
  · cases label <;> simp [labelText, Token.Idle, parseClause]
  · cases props with
    | none => simp [propsText]
    | some pairs =>
      simp only [propsText, Option.elim, forall_mem_cons, forall_mem_append]
      exact ⟨fun _ => rfl, pairsText_idle, fun _ => rfl, by simp⟩

/-- Of nodes to create the parser takes the first one, if it has an alias. -/
theorem parse_create (fst : NodeSyntax) (others : List NodeSyntax)
    {out : QueryAst F × List Token × Catalogs} :
    parse f64 (.create :: (fst.text ++ others.flatMap NodeSyntax.text), cats) = .ok out ↔
      ∃ name, fst.nodeAlias = some name ∧ fst.Readable f64 ∧
        ({ mutations := [fst.created f64 name cats] }, [],
          (registerLabel fst.label cats).2) = out := by
  have idle : ∀ token ∈ others.flatMap NodeSyntax.text, token.Idle f64 := by
    intro token mem
    obtain ⟨node, -, hin⟩ := mem_flatMap.mp mem
    exact node.text_idle token hin
  have noComma : next Token.comma.only (others.flatMap NodeSyntax.text) = none := by
    cases others with
    | nil | cons => rfl
  have hin := @parseCreateNode_text F f64 cats fst (others.flatMap NodeSyntax.text) []
  have looped : ∀ mid, loop (next Token.lParen.only) (fun _ => parseCreateNode f64) afterComma []
      (fst.text ++ others.flatMap NodeSyntax.text, cats) = .ok mid ↔
        ∃ name, (fst.nodeAlias = some name ∧ fst.Readable f64) ∧
          ([fst.created f64 name cats], others.flatMap NodeSyntax.text,
            (registerLabel fst.label cats).2) = mid := by
    intro mid
    rw [loop_ok]
    simp only [NodeSyntax.text, cons_append, append_assoc, nil_append, next_cons, Token.only_self,
      Option.map_some, hin, ← and_assoc, exists_exists_and_eq_and, after, noComma, Option.map_none]
  have same : parse f64 = parseFrom f64 {} := rfl
  rw [same, parseFrom, loop_ok]
  simp only [next_cons, Option.map_some, parseClause, parseCreateClause, bind_apply, bind_eq_ok,
    looped, pure_apply, exists_exists_and_eq_and, Except.ok.injEq]
  refine exists_congr fun name => ?_
  rw [and_assoc, length_cons, length_append]
  refine and_congr_right fun _ => and_congr_right fun _ => ?_
  exact (and_iff_right (by omega)).trans (parseFrom_idle idle)

open QuerySyntax

theorem create_occurs_iff : (∃ ast catalogs', parse f64 ((create nodes).text, cats) =
        .ok (ast, [], catalogs') ∧ (create nodes).Occurs f64 catalogs' ast) ↔
      (create nodes).Faithful f64 cats := by
  obtain ⟨fst, others⟩ := nodes
  simp only [text, parse_create, Occurs, Faithful, allOf]
  constructor
  · rintro ⟨ast, catalogs', ⟨name, named, readable, same⟩, occurs⟩
    cases same
    cases occurs with
    | cons shown rest =>
      cases rest
      exact ⟨rfl, by simp [named], (createShown_iff named).mp ⟨readable, shown⟩⟩
  · rintro ⟨rfl, isNamed, fits⟩
    obtain ⟨name, named⟩ := Option.ne_none_iff_exists'.mp isNamed
    obtain ⟨readable, shown⟩ := (createShown_iff named).mpr fits
    exact ⟨_, _, ⟨name, named, readable, rfl⟩, .cons shown .nil⟩

theorem delete_occurs : ∃ ast catalogs', parse f64 ((delete names).text, cats) =
      .ok (ast, [], catalogs') ∧ (delete names).Occurs f64 catalogs' ast := by
  have reads := @commaLoop_text String (List (GraphMutationClause F)) always
    (fun ops => do
      let name ← expectIdent
      return ops ++ [.deleteAlias name]) (fun name => [.ident name]) (fun _ => True)
    (fun st name => (st.1 ++ [.deleteAlias name], st.2)) (fun _ => True)
    (fun _ => trivial) (fun _ _ => rfl)
    (fun name rest _ st mid => by
      simp [map_apply, expectIdent, expectSome_cons, Token.nameText]) [] trivial rfl names
    ([], cats)
  simp only [foldl_push, nil_append, implies_true, true_and] at reads
  refine ⟨{ mutations := (allOf names).map .deleteAlias }, cats, ?_, rfl⟩
  have same : parse f64 = parseFrom f64 {} := rfl
  rw [same, text, ← append_nil (commaText _ _)]
  refine (@parseFrom_clause _ _ _ _ _ _ _ _ _ True _ fun mid => ?_).mpr
    ⟨trivial, parseFrom_nil.mpr rfl⟩
  simp only [parseClause, parseDeleteClause, bind_apply, bind_eq_ok, reads, exists_eq_left',
    pure_apply]
  simp

/-- For every list of tokens: a documented query is taken and is in the tree just if it is
    faithful, and a list that is not documented is refused just if it cannot be cut into
    loose clauses, with numbers that can be read, and tokens that start no clause. -/
theorem accepts_documented_iff (f64 : FloatReader F) (toks : List Token) (cats : Catalogs) :
    AcceptsDocumented f64 toks cats ↔ (∀ qry, Derives toks qry → qry.Faithful f64 cats) ∧
      ((∀ qry, ¬ Derives toks qry) → ¬ queryForm f64 toks []) := by
  have documented : ∀ qry, Derives toks qry → ((∃ ast catalogs',
      parse f64 (toks, cats) = .ok (ast, [], catalogs') ∧
        qry.Occurs f64 catalogs' ast) ↔ qry.Faithful f64 cats) := by
    rintro qry ⟨rfl, -⟩
    cases qry with
    | read qry => exact read_occurs_iff qry
    | create nodes => exact create_occurs_iff
    | delete names => exact iff_of_true (delete_occurs) trivial
  have refused : (∃ e, parse f64 (toks, cats) = .error e) ↔ ¬ queryForm f64 toks [] := by
    rw [← parse_ok_iff]
    cases parse f64 (toks, cats) <;> simp
  unfold AcceptsDocumented
  rw [refused]
  exact and_congr_left fun _ =>
    forall_congr' fun qry => forall_congr' fun derived => documented qry derived

theorem QuerySyntax.text_begins (qry : QuerySyntax) (name : String) (rest : List Token) :
    qry.text ≠ .ident name :: rest := by
  cases qry with
  | read qry =>
    obtain ⟨vec, matched, filter, items, limit⟩ := qry
    cases vec <;> cases matched <;> cases filter <;>
      simp [text, ReadSyntax.text, vectorText, filterText, MatchSyntax.text]
    all_goals split <;> simp
  | create nodes | delete names => simp [text]

/-- `CREATE (a) (b)` -/
def twoNodes : QuerySyntax := .create (⟨some "a", none, none⟩, [⟨some "b", none, none⟩])

/-- A word that means nothing is skipped and taken for an empty query, and of two nodes to
    create the second one is skipped. -/
theorem words_and_nodes_are_skipped :
    ¬ AcceptsDocumented zeroReader [.ident "hello"] Catalogs.empty ∧
      ¬ AcceptsDocumented zeroReader twoNodes.text Catalogs.empty := by
  constructor
  · rintro ⟨-, refuses⟩
    obtain ⟨e, refused⟩ := refuses fun qry derived => qry.text_begins _ _ derived.1.symm
    have idle : ∀ token ∈ [Token.ident "hello"], token.Idle zeroReader := by
      simp [Token.Idle, parseClause]
    have taken : parse zeroReader ([.ident "hello"], Catalogs.empty) = .ok _ :=
      (parseFrom_idle idle).mpr rfl
    rw [taken] at refused
    cases refused
  · rintro ⟨takes, -⟩
    have faithful := (create_occurs_iff).mp (takes twoNodes ⟨rfl, trivial⟩)
    cases faithful.1

end HoloSphere.Graph.Query
