import HoloSphere.Discovery.Records
import Mathlib.Data.List.Chain
import Mathlib.Data.List.Sort

/-! # The operator catalog

`DiscoveryCatalog` of `learning/discovery/engine.rs`: the committed versions of
each discovered operator.  An operator without versions is an empty list.
-/

namespace HoloSphere.Discovery

inductive DiscoveryCatalogError where
  | invalidOperatorIdentity
  | missingAdmissionAuthority
  | definitionChanged
  | nonMonotonicCommit (current incoming : Nat)
  | forbiddenTransition (before after : OperatorLifecycle)
  deriving DecidableEq

def DiscoveryCatalogError.display : DiscoveryCatalogError → String
  | .invalidOperatorIdentity => "Operator ID does not match its declarative definition"
  | .missingAdmissionAuthority => "Admitted operator is missing an external governance authority"
  | .definitionChanged => "Operator definition changed during a lifecycle transition"
  | .nonMonotonicCommit current incoming =>
    s!"Operator commit LSN {incoming} is not newer than {current}"
  | .forbiddenTransition before after =>
    let source := before.debug
    let target := after.debug
    s!"Operator transition from {source} to {target} is forbidden"

def allowedTransition (before after : OperatorLifecycle) : Bool :=
  match before, after with
  | .generated, .provisional => true
  | .provisional, .falsificationTesting => true
  | .provisional, .rejected => true
  | .falsificationTesting, .shadow => true
  | .falsificationTesting, .rejected => true
  | .shadow, .shadowValidated => true
  | .shadow, .rejected => true
  | .shadowValidated, .admitted => true
  | .shadowValidated, .rejected => true
  | .admitted, .monitored => true
  | .admitted, .deprecated => true
  | .admitted, .superseded => true
  | .monitored, .deprecated => true
  | .monitored, .superseded => true
  | .deprecated, .superseded => true
  | before, after => before = after

section
variable [Primitives]

/-- The fields that no transition may change. -/
def DeclarativeOperator.sameDefinition (existing opr : DeclarativeOperator) : Bool :=
  existing.predicates = opr.predicates && existing.effect = opr.effect &&
    existing.version = opr.version && existing.sourceMotifs = opr.sourceMotifs &&
    existing.sourceHypergraphMotifs = opr.sourceHypergraphMotifs &&
    existing.program = opr.program

/-- The transition against the newest version there is. -/
def validateSuccessor (opr : DeclarativeOperator) (expected : Option OperatorLifecycle)
    (commitLsn : Nat) : Option DeclarativeOperator → Except DiscoveryCatalogError Unit
  | some existing =>
    if !existing.sameDefinition opr then .error .definitionChanged
    else if commitLsn ≤ existing.committedLsn then
      .error (.nonMonotonicCommit existing.committedLsn commitLsn)
    else if expected ≠ some existing.lifecycle ∨
        !allowedTransition existing.lifecycle opr.lifecycle then
      .error (.forbiddenTransition existing.lifecycle opr.lifecycle)
    else .ok ()
  | none =>
    if expected.isSome ∨ (opr.lifecycle ≠ .generated ∧ opr.lifecycle ≠ .provisional) then
      .error (.forbiddenTransition .generated opr.lifecycle)
    else .ok ()

structure DiscoveryCatalog where
  operators : DiscoveredOperatorId → List DeclarativeOperator

namespace DiscoveryCatalog

def new : DiscoveryCatalog := ⟨fun _ => []⟩

/-- `validate_catalog_transition`. -/
def prevalidate (opr : DeclarativeOperator) (expected : Option OperatorLifecycle)
    (commitLsn : Nat) (catalog : DiscoveryCatalog) : Except DiscoveryCatalogError Unit :=
  if !opr.hasValidIdentity then .error .invalidOperatorIdentity
  else if opr.lifecycle = .admitted ∧ opr.admissionAuthority.isNone then
    .error .missingAdmissionAuthority
  else validateSuccessor opr expected commitLsn (catalog.operators opr.id).getLast?

def commit (opr : DeclarativeOperator) (commitLsn : Nat) (catalog : DiscoveryCatalog) :
    DiscoveryCatalog :=
  let stamped := { opr with committedLsn := commitLsn }
  ⟨Function.update catalog.operators opr.id (catalog.operators opr.id ++ [stamped])⟩

def apply (opr : DeclarativeOperator) (expected : Option OperatorLifecycle) (commitLsn : Nat)
    (catalog : DiscoveryCatalog) : Except DiscoveryCatalogError DiscoveryCatalog := do
  catalog.prevalidate opr expected commitLsn
  .ok (catalog.commit opr commitLsn)

theorem prevalidate_commit {opr other : DeclarativeOperator}
    (uniq : opr.id ≠ other.id) (catalog : DiscoveryCatalog) :
    (catalog.commit opr commitLsn).prevalidate other expected commitLsn =
      catalog.prevalidate other expected commitLsn := by
  simp [prevalidate, commit, Function.update_of_ne uniq.symm]

/-- The catalog of the versions of a snapshot, in whatever order they come. -/
def replaceFrom (operators : List DeclarativeOperator) : DiscoveryCatalog :=
  ⟨fun opId => (operators.filter (·.id = opId)).mergeSort (·.committedLsn ≤ ·.committedLsn)⟩

/-- A call, accepted or refused. -/
def call (catalog : DiscoveryCatalog)
    (request : DeclarativeOperator × Option OperatorLifecycle × Nat) : DiscoveryCatalog :=
  (catalog.apply request.1 request.2.1 request.2.2).toOption.getD catalog

structure Precedes (before after : DeclarativeOperator) : Prop where
  definition : before.sameDefinition after
  lsn : before.committedLsn < after.committedLsn
  allowed : allowedTransition before.lifecycle after.lifecycle

/-- The versions of one operator, oldest first. -/
structure History (opId : DiscoveredOperatorId) (versions : List DeclarativeOperator) : Prop where
  valid : ∀ opr ∈ versions, opr.id = opId ∧ opr.hasValidIdentity ∧
    (opr.lifecycle = .admitted → opr.admissionAuthority ≠ none)
  fresh : ∀ fst ∈ versions.head?, fst.lifecycle = .generated ∨ fst.lifecycle = .provisional
  chain : versions.IsChain Precedes

theorem validateSuccessor_ok {prev : Option DeclarativeOperator}
    (valid : validateSuccessor opr expected lsn prev = .ok ()) :
    (∀ last ∈ prev, Precedes last { opr with committedLsn := lsn }) ∧
      (prev = none → opr.lifecycle = .generated ∨ opr.lifecycle = .provisional) := by
  revert valid
  fun_cases validateSuccessor opr expected lsn prev <;> rintro ⟨⟩
  case case4 existing same newer step =>
    refine ⟨?_, nofun⟩
    rintro _ ⟨⟩
    have same : existing.sameDefinition opr := by simpa using same
    exact ⟨same, Nat.lt_of_not_le newer, by simpa using (not_or.mp step).2⟩
  · exact ⟨nofun, fun _ => by grind⟩

theorem History.concat (h : History opr.id versions) (identity : opr.hasValidIdentity)
    (authority : opr.lifecycle = .admitted → opr.admissionAuthority ≠ none)
    (valid : validateSuccessor opr expected lsn versions.getLast? = .ok ()) :
    History opr.id (versions ++ [{ opr with committedLsn := lsn }]) where
  valid := List.forall_mem_append.mpr
    ⟨h.valid, List.forall_mem_singleton.mpr ⟨rfl, identity, authority⟩⟩
  fresh := by
    cases versions with
    | nil => simpa using (validateSuccessor_ok valid).2 rfl
    | cons fst rest => exact h.fresh
  chain := h.chain.append (.singleton _) fun last mem _ new => by
    cases new
    exact (validateSuccessor_ok valid).1 last mem

theorem history_call {catalog : DiscoveryCatalog}
    (h : ∀ opId, History opId (catalog.operators opId)) (opId : DiscoveredOperatorId) :
    History opId ((catalog.call request).operators opId) := by
  obtain ⟨opr, expected, lsn⟩ := request
  rw [call, apply]
  cases checked : catalog.prevalidate opr expected lsn with
  | error => exact h opId
  | ok =>
    unfold prevalidate at checked
    split at checked
    · cases checked
    split at checked
    · cases checked
    case _ identity authority =>
      exact (Function.forall_update_iff _ fun opId => History opId).mpr
        ⟨(h opr.id).concat (by simpa using identity) (by simpa using authority) checked,
          fun other _ => h other⟩ opId

/-- As no two versions have the same LSN, sorting finds their order again. -/
theorem History.restored (h : History opId versions) (perm : List.Perm saved versions) :
    saved.mergeSort (·.committedLsn ≤ ·.committedLsn) = versions := by
  have : IsTrans DeclarativeOperator (·.committedLsn < ·.committedLsn) :=
    ⟨fun _ _ _ => Nat.lt_trans⟩
  have rising : versions.Pairwise (·.committedLsn < ·.committedLsn) :=
    (h.chain.imp fun _ _ next => next.lsn).pairwise
  have uniq : (versions.map (·.committedLsn)).Nodup :=
    List.pairwise_map.mpr (rising.imp Nat.ne_of_lt)
  have sorted := (saved.mergeSort_perm (·.committedLsn ≤ ·.committedLsn)).trans perm
  refine sorted.eq_of_pairwise (fun fst snd mem mem' le ge => ?_)
    (List.pairwise_mergeSort (by simp; omega) (by simp; omega) saved)
    (rising.imp (by simp; omega))
  simp only [decide_eq_true_eq] at le ge
  exact List.inj_on_of_nodup_map uniq (sorted.mem_iff.mp mem) mem' (Nat.le_antisymm le ge)

/-- After any calls, accepted or refused, the versions of an operator stand in the order of
    their LSNs, keep its definition and take allowed steps only; and a list of all versions,
    in any order, restores the catalog. -/
theorem operators_follow_lifecycle
    (calls : List (DeclarativeOperator × Option OperatorLifecycle × Nat)) :
    let catalog := calls.foldl call new
    (∀ opId, History opId (catalog.operators opId)) ∧ ∀ saved,
      (∀ opId, (saved.filter (·.id = opId)).Perm (catalog.operators opId)) →
        replaceFrom saved = catalog := by
  have kept : ∀ opId, History opId ((calls.foldl call new).operators opId) := by
    induction calls using List.reverseRecOn with
    | nil => exact fun _ => ⟨fun _ => nofun, fun _ => nofun, .nil⟩
    | append_singleton calls request ih =>
      rw [List.foldl_concat]
      exact history_call ih
  refine ⟨kept, fun saved all => ?_⟩
  exact congrArg DiscoveryCatalog.mk (funext fun opId => (kept opId).restored (all opId))

end DiscoveryCatalog
end
end HoloSphere.Discovery
