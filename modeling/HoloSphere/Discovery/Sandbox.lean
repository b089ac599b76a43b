import HoloSphere.Discovery.Records
import HoloSphere.Program.Parsing

/-! # Sandboxed operator programs

How an operator program computes its Q32 numbers, decides its condition and collects its
effects.  Every node checks its own value against the configured bound, after arithmetic
that saturates at the ends of `i64`.  Below the largest `i64` the check catches each
saturation at the node where it happens, so what an evaluation returns is the value
over the unbounded integers.
-/

namespace HoloSphere.Discovery
open Function (update)
open Program.Reader (bind_eq_ok)

abbrev NumericAttributeId := Nat
abbrev HypergraphMotifId := Digest

inductive ComparisonOperator where
  | equal
  | notEqual
  | less
  | lessOrEqual
  | greater
  | greaterOrEqual

inductive NumericExpression where
  | attributeQ32 (attr : NumericAttributeId)
  | constantQ32 (val : ℤ)
  | add (left right : NumericExpression)
  | subtract (left right : NumericExpression)
  | multiplyQ32 (left right : NumericExpression)
  | min (left right : NumericExpression)
  | max (left right : NumericExpression)

inductive ConditionExpression where
  | true
  | featurePresent (feature : FeatureId)
  | featureAbsent (feature : FeatureId)
  | numericCompare (left : NumericExpression) (operator : ComparisonOperator)
    (right : NumericExpression)
  | featurePersists (feature : FeatureId) (minimumDurationLsn : ℕ)
  | hypergraphMotifPresent (motif : HypergraphMotifId)
  | causalMotifPresent (motif : HypergraphMotifId)
  | domainIs (domain : DomainId)
  | all (children : List ConditionExpression)
  | any (children : List ConditionExpression)
  | not (child : ConditionExpression)

inductive DiscoveryOutcome where
  | successful
  | failed
  | unknown
  deriving DecidableEq

inductive HypergraphTransformation where
  | instantiateCanonicalMotif (motif : HypergraphMotifId)
  | projectRole (motif : HypergraphMotifId) (roleOrdinal : ℕ)
  | composeMotifs (left right : HypergraphMotifId)
  deriving DecidableEq

inductive DslEffect where
  | predictOutcome (outcome : DiscoveryOutcome)
  | predictFeature (feature : FeatureId)
  | proposeResolution (resolution : ResolutionId)
  | setDerivedNumeric (attr : NumericAttributeId) (val : NumericExpression)
  | requireConstraint (constraint : FeatureId)
  | proposeHypergraphTransformation (transformation : HypergraphTransformation)

structure ResourceCostBounds where
  maxAstNodes : ℕ
  maxDepth : ℕ
  maxEffects : ℕ
  maxNumericAbsQ32 : ℤ

structure OperatorProgram where
  condition : ConditionExpression
  effects : List DslEffect
  bounds : ResourceCostBounds

structure ProgramCost where
  astNodes : ℕ := 0
  maxDepth : ℕ := 0
  effectsEvaluated : ℕ := 0

structure ProgramResult where
  matched : Bool
  cost : ProgramCost
  predictedOutcomes : List DiscoveryOutcome := []
  predictedFeatures : List FeatureId := []
  proposedResolutions : List ResolutionId := []
  derivedNumericQ32 : NumericAttributeId → Option ℤ := fun _ => none
  unsatisfiedConstraints : List FeatureId := []
  proposedHypergraphTransformations : List HypergraphTransformation := []

structure DiscoveryCase where
  domain : DomainId
  features : List FeatureId

structure ReasoningContext where
  case : Option DiscoveryCase
  numericValuesQ32 : NumericAttributeId → Option ℤ
  featureDurationsLsn : FeatureId → Option ℕ
  presentMotifs : List HypergraphMotifId
  causalMotifs : List HypergraphMotifId
  satisfiedConstraints : List FeatureId

inductive OperatorSandboxError where
  | astNodeLimit (actual limit : ℕ)
  | depthLimit (actual limit : ℕ)
  | effectLimit (actual limit : ℕ)
  | missingNumericAttribute (attr : NumericAttributeId)
  | numericBoundExceeded

abbrev Evaluated := Except OperatorSandboxError

namespace ProgramCost

/-- The counters saturate. -/
def visit (depth : ℕ) (cost : ProgramCost) : ProgramCost :=
  { cost with
    astNodes := min (cost.astNodes + 1) (2 ^ 32 - 1), maxDepth := max cost.maxDepth depth }

def inspectNumeric (depth : ℕ) (cost : ProgramCost) : NumericExpression → ProgramCost
  | .attributeQ32 _ | .constantQ32 _ => cost.visit depth
  | .add left right | .subtract left right | .multiplyQ32 left right | .min left right
  | .max left right =>
    inspectNumeric (depth + 1) (inspectNumeric (depth + 1) (cost.visit depth) left) right

mutual

def inspectCondition (depth : ℕ) (cost : ProgramCost) : ConditionExpression → ProgramCost
  | .numericCompare left _ right =>
    ((cost.visit depth).inspectNumeric (depth + 1) left).inspectNumeric (depth + 1) right
  | .all children | .any children => inspectChildren (depth + 1) (cost.visit depth) children
  | .not child => inspectCondition (depth + 1) (cost.visit depth) child
  | _ => cost.visit depth

def inspectChildren (depth : ℕ) (cost : ProgramCost) : List ConditionExpression → ProgramCost
  | [] => cost
  | child :: rest => inspectChildren depth (inspectCondition depth cost child) rest

end

def inspectEffect (cost : ProgramCost) (eff : DslEffect) : ProgramCost :=
  let cost :=
    { cost with
      effectsEvaluated := min (cost.effectsEvaluated + 1) (2 ^ 16 - 1)
      astNodes := min (cost.astNodes + 1) (2 ^ 32 - 1) }
  match eff with
  | .setDerivedNumeric _ val => cost.inspectNumeric 2 val
  | _ => cost

end ProgramCost

/-- No result where the depth overflows its 16 bits, which panics. -/
def validateProgram (program : OperatorProgram) : Option (Evaluated ProgramCost) :=
  let cost := program.effects.foldl ProgramCost.inspectEffect
    (ProgramCost.inspectCondition 1 {} program.condition)
  let bounds := program.bounds
  if 2 ^ 16 ≤ cost.maxDepth then none
  else if cost.astNodes > bounds.maxAstNodes then
    some (.error (.astNodeLimit cost.astNodes bounds.maxAstNodes))
  else if cost.maxDepth > bounds.maxDepth then
    some (.error (.depthLimit cost.maxDepth bounds.maxDepth))
  else if cost.effectsEvaluated > bounds.maxEffects then
    some (.error (.effectLimit cost.effectsEvaluated bounds.maxEffects))
  else some (.ok cost)

def clampI64 (val : ℤ) : ℤ := max (-9223372036854775808) (min val 9223372036854775807)

def withinBound (bound val : ℤ) : Evaluated ℤ :=
  if bound.natAbs < val.natAbs then .error .numericBoundExceeded else .ok val

def ComparisonOperator.compare (left right : ℤ) : ComparisonOperator → Bool
  | .equal => left = right
  | .notEqual => left ≠ right
  | .less => left < right
  | .lessOrEqual => left ≤ right
  | .greater => left > right
  | .greaterOrEqual => left ≥ right

namespace ReasoningContext
variable (ctx : ReasoningContext)

def valueQ32 (attr : NumericAttributeId) : Evaluated ℤ :=
  (ctx.numericValuesQ32 attr).elim (.error (.missingNumericAttribute attr)) .ok

/-- The shift by 32 of the source rounds down, as integer division does. -/
def evaluateNumeric (bound : ℤ) : NumericExpression → Evaluated ℤ
  | .attributeQ32 attr => do withinBound bound (← ctx.valueQ32 attr)
  | .constantQ32 val => withinBound bound val
  | .add left right => do
    withinBound bound (clampI64 ((← evaluateNumeric bound left) + (← evaluateNumeric bound right)))
  | .subtract left right => do
    withinBound bound (clampI64 ((← evaluateNumeric bound left) - (← evaluateNumeric bound right)))
  | .multiplyQ32 left right => do
    withinBound bound
      (clampI64 ((← evaluateNumeric bound left) * (← evaluateNumeric bound right) / 4294967296))
  | .min left right => do
    withinBound bound (min (← evaluateNumeric bound left) (← evaluateNumeric bound right))
  | .max left right => do
    withinBound bound (max (← evaluateNumeric bound left) (← evaluateNumeric bound right))

/-- The value over the unbounded integers, which only a missing attribute denies. -/
def exactNumeric : NumericExpression → Evaluated ℤ
  | .attributeQ32 attr => ctx.valueQ32 attr
  | .constantQ32 val => pure val
  | .add left right => return (← exactNumeric left) + (← exactNumeric right)
  | .subtract left right => return (← exactNumeric left) - (← exactNumeric right)
  | .multiplyQ32 left right => return (← exactNumeric left) * (← exactNumeric right) / 4294967296
  | .min left right => return min (← exactNumeric left) (← exactNumeric right)
  | .max left right => return max (← exactNumeric left) (← exactNumeric right)

mutual

/-- The verdict on a condition whose numbers `numeric` computes. -/
def conditionBy (numeric : NumericExpression → Evaluated ℤ) : ConditionExpression → Evaluated Bool
  | .true => pure true
  | .featurePresent feature => pure (ctx.case.any fun held => feature ∈ held.features)
  | .featureAbsent feature => pure (ctx.case.any fun held => feature ∉ held.features)
  | .numericCompare left operator right =>
    return operator.compare (← numeric left) (← numeric right)
  | .featurePersists feature least => pure ((ctx.featureDurationsLsn feature).any (least ≤ ·))
  | .hypergraphMotifPresent motif => pure (motif ∈ ctx.presentMotifs)
  | .causalMotifPresent motif => pure (motif ∈ ctx.causalMotifs)
  | .domainIs domain => pure (ctx.case.any (·.domain = domain))
  | .all children => loopBy numeric false children
  | .any children => loopBy numeric true children
  | .not child => return !(← conditionBy numeric child)

/-- The loop over children, left early by the first one with the verdict `stop`. -/
def loopBy (numeric : NumericExpression → Evaluated ℤ) (stop : Bool) :
    List ConditionExpression → Evaluated Bool
  | [] => pure !stop
  | child :: rest => do
    if (← conditionBy numeric child) = stop then pure stop else loopBy numeric stop rest

end

def evaluateCondition (bound : ℤ) : ConditionExpression → Evaluated Bool :=
  ctx.conditionBy (ctx.evaluateNumeric bound)

def effectBy (numeric : NumericExpression → Evaluated ℤ) (res : ProgramResult) :
    DslEffect → Evaluated ProgramResult
  | .predictOutcome outcome =>
    pure { res with predictedOutcomes := res.predictedOutcomes.insert outcome }
  | .predictFeature feature =>
    pure { res with predictedFeatures := res.predictedFeatures.insert feature }
  | .proposeResolution resolution =>
    pure { res with proposedResolutions := res.proposedResolutions.insert resolution }
  | .setDerivedNumeric attr val => do
    let val ← numeric val
    pure { res with derivedNumericQ32 := update res.derivedNumericQ32 attr (some val) }
  | .requireConstraint constraint =>
    if constraint ∈ ctx.satisfiedConstraints then pure res
    else pure { res with unsatisfiedConstraints := res.unsatisfiedConstraints.insert constraint }
  | .proposeHypergraphTransformation transformation =>
    pure
      { res with
        proposedHypergraphTransformations :=
          res.proposedHypergraphTransformations.insert transformation }

/-- What a program does once its cost is known. -/
def runBy (numeric : NumericExpression → Evaluated ℤ) (program : OperatorProgram)
    (cost : ProgramCost) : Evaluated ProgramResult := do
  let matched ← ctx.conditionBy numeric program.condition
  if matched then
    let res ← program.effects.foldlM (ctx.effectBy numeric) { matched, cost }
    pure (if res.unsatisfiedConstraints = [] then res else { res with proposedResolutions := [] })
  else pure { matched, cost }

def executeProgram (program : OperatorProgram) : Option (Evaluated ProgramResult) :=
  (validateProgram program).map fun validated =>
    validated.bind (ctx.runBy (ctx.evaluateNumeric program.bounds.maxNumericAbsQ32) program)

end ReasoningContext

theorem withinBound_ok {val : ℤ} : withinBound bound val = .ok res ↔
    val.natAbs ≤ bound.natAbs ∧ val = res := by
  grind [withinBound]

theorem clampI64_exact {bound : ℤ} (below : bound.natAbs < 9223372036854775807)
    (within : (clampI64 val).natAbs ≤ bound.natAbs) : clampI64 val = val := by
  unfold clampI64 at *
  omega

namespace ReasoningContext
variable {ctx : ReasoningContext}

theorem exact_of_evaluate {bound : ℤ} (below : bound.natAbs < 9223372036854775807)
    (expr : NumericExpression) : ∀ val, ctx.evaluateNumeric bound expr = .ok val →
      val.natAbs ≤ bound.natAbs ∧ ctx.exactNumeric expr = .ok val := by
  induction expr with
  | attributeQ32 =>
    intro val done
    obtain ⟨held, found, done⟩ := bind_eq_ok.mp done
    obtain ⟨within, rfl⟩ := withinBound_ok.mp done
    exact ⟨within, found⟩
  | constantQ32 =>
    intro val done
    obtain ⟨within, rfl⟩ := withinBound_ok.mp done
    exact ⟨within, rfl⟩
  | _ left right ihLeft ihRight =>
    intro val done
    obtain ⟨first, onLeft, done⟩ := bind_eq_ok.mp done
    obtain ⟨second, onRight, done⟩ := bind_eq_ok.mp done
    obtain ⟨within, rfl⟩ := withinBound_ok.mp done
    refine ⟨within, bind_eq_ok.mpr ⟨first, (ihLeft _ onLeft).2, bind_eq_ok.mpr ⟨second,
      (ihRight _ onRight).2, ?_⟩⟩⟩
    -- A saturated value is an end of `i64`, which the bound excludes.
    first
    | exact congrArg Except.ok (clampI64_exact below within).symm
    | rfl

mutual

theorem condition_mono (keeps : ∀ expr val, numeric expr = .ok val → exact expr = .ok val)
    (cond : ConditionExpression) (done : conditionBy ctx numeric cond = .ok verdict) :
    conditionBy ctx exact cond = .ok verdict := by
  cases cond with
  | numericCompare left operator right =>
    obtain ⟨first, onLeft, done⟩ := bind_eq_ok.mp done
    obtain ⟨second, onRight, done⟩ := bind_eq_ok.mp done
    exact bind_eq_ok.mpr ⟨first, keeps _ _ onLeft, bind_eq_ok.mpr ⟨second, keeps _ _ onRight, done⟩⟩
  | not child =>
    obtain ⟨inner, evaluated, done⟩ := bind_eq_ok.mp done
    exact bind_eq_ok.mpr ⟨inner, condition_mono keeps child evaluated, done⟩
  | all children => exact loop_mono keeps children done
  | any children => exact loop_mono keeps children done
  | _ => exact done

theorem loop_mono (keeps : ∀ expr val, numeric expr = .ok val → exact expr = .ok val)
    (children : List ConditionExpression) (done : loopBy ctx numeric stop children = .ok verdict) :
    loopBy ctx exact stop children = .ok verdict := by
  match children with
  | [] => exact done
  | child :: rest =>
    obtain ⟨inner, evaluated, done⟩ := bind_eq_ok.mp done
    refine bind_eq_ok.mpr ⟨inner, condition_mono keeps child evaluated, ?_⟩
    by_cases stops : inner = stop
    · simpa [stops] using done
    · simp only [stops, if_false] at done ⊢
      exact loop_mono keeps rest done

end

/-- The loop over effects, where the only numbers are those of the evaluation. -/
theorem effects_mono {effects : List DslEffect}
    (keeps : ∀ expr val, numeric expr = .ok val → exact expr = .ok val)
    (done : effects.foldlM (ctx.effectBy numeric) res = .ok final) :
    effects.foldlM (ctx.effectBy exact) res = .ok final := by
  induction effects generalizing res with
  | nil => exact done
  | cons eff rest ih =>
    obtain ⟨mid, now, later⟩ := bind_eq_ok.mp done
    refine bind_eq_ok.mpr ⟨mid, ?_, ih later⟩
    cases eff with
    | setDerivedNumeric attr expr =>
      obtain ⟨val, found, made⟩ := bind_eq_ok.mp now
      exact bind_eq_ok.mpr ⟨val, keeps expr val found, made⟩
    | _ => exact now

theorem run_mono (keeps : ∀ expr val, numeric expr = .ok val → exact expr = .ok val)
    (done : ctx.runBy numeric program cost = .ok res) : ctx.runBy exact program cost = .ok res := by
  obtain ⟨matched, decided, rest⟩ := bind_eq_ok.mp done
  refine bind_eq_ok.mpr ⟨matched, condition_mono keeps program.condition decided, ?_⟩
  cases matched with
  | false => exact rest
  | true =>
    obtain ⟨final, ran, made⟩ := bind_eq_ok.mp rest
    exact bind_eq_ok.mpr ⟨final, effects_mono keeps ran, made⟩

/-- Below the largest `i64` a returned number is within the bound and is the value over
    the unbounded integers, and so is each number that a returned verdict or the result of
    a program rests on. -/
theorem sandboxed_arithmetic_exact (ctx : ReasoningContext) (bound : ℤ)
    (below : bound.natAbs < 9223372036854775807) :
    (∀ expr val, ctx.evaluateNumeric bound expr = .ok val →
      val.natAbs ≤ bound.natAbs ∧ ctx.exactNumeric expr = .ok val) ∧
    (∀ cond verdict, ctx.evaluateCondition bound cond = .ok verdict →
      ctx.conditionBy ctx.exactNumeric cond = .ok verdict) ∧
    ∀ program, program.bounds.maxNumericAbsQ32 = bound →
      ∀ res, ctx.executeProgram program = some (.ok res) →
        ∃ cost, validateProgram program = some (.ok cost) ∧
          ctx.runBy ctx.exactNumeric program cost = .ok res := by
  have keeps : ∀ expr val, ctx.evaluateNumeric bound expr = .ok val →
      ctx.exactNumeric expr = .ok val :=
    fun expr val found => (exact_of_evaluate below expr val found).2
  refine ⟨exact_of_evaluate below, fun cond _ done => condition_mono keeps cond done, ?_⟩
  rintro program rfl res done
  obtain ⟨validated, valid, ran⟩ := Option.map_eq_some_iff.mp done
  obtain ⟨cost, rfl, made⟩ := bind_eq_ok.mp ran
  exact ⟨cost, valid, run_mono keeps made⟩

theorem negative_product_rounds_down :
    let ctx : ReasoningContext := ⟨none, fun _ => some 3, fun _ => none, [], [], []⟩
    let product := NumericExpression.multiplyQ32 (.attributeQ32 0) (.constantQ32 (-6442450944))
    ctx.evaluateNumeric 10000000000 product = .ok (-5) ∧ ctx.exactNumeric product = .ok (-5) :=
  ⟨rfl, ((sandboxed_arithmetic_exact _ 10000000000 (by decide)).1 _ _ rfl).2⟩

end ReasoningContext
end HoloSphere.Discovery
