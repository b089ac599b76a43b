import HoloSphere.Discovery.Governed
import HoloSphere.Program.Machine
import HoloSphere.Program.Parsing

/-! # What a governed record may not change

Every upsert brings a whole record, and the validators compare some of its fields with
the last version: the kind of a schema, the sides of a mapping, and nothing of what an
experiment is to do.
-/

namespace HoloSphere.Discovery
open Function Program
open Program.Reader (bind_eq_ok)

/-- What is authorized: all but the status, the estimate and what comes later. -/
def ActiveExperimentProposal.definition (experiment : ActiveExperimentProposal) :=
  (experiment.kind, experiment.operators, experiment.targetDomains, experiment.requiredFeatures,
    experiment.candidateResolutions, experiment.risk, experiment.requiresExternalAuthorization,
    experiment.maximumTrials)

def GovernedMappingRecord.sides (rec : GovernedMappingRecord) :=
  (rec.hypothesis.left, rec.hypothesis.right)

/-- Every version has what the first one has. -/
def Constant (part : α → β) (versions : List (Versioned α)) : Prop :=
  ∀ fst ∈ versions.head?, ∀ later ∈ versions, part later.value = part fst.value

theorem Constant.concat_iff {versions : List (Versioned α)} (h : Constant part versions) :
    Constant part (versions ++ [⟨lsn, val⟩]) ↔
      ∀ prev ∈ versions.getLast?, part prev.value = part val := by
  cases versions with
  | nil => simp [Constant]
  | cons fst rest =>
    have filled := List.cons_ne_nil fst rest
    have last := h fst rfl _ (List.getLast_mem filled)
    have start (tail : List (Versioned α)) : (fst :: rest ++ tail).head? = some fst := rfl
    simp only [Constant, start, List.getLast?_eq_some_getLast filled, Option.mem_def,
      Option.some.injEq, forall_eq', List.forall_mem_append, List.forall_mem_singleton, last]
    exact ⟨fun same => same.2.symm, fun same => ⟨h fst rfl, same.symm⟩⟩

namespace GovernedDiscoveryState

structure KeepsDefinitions (st : GovernedDiscoveryState) : Prop where
  proposed : ∀ id, ∀ fst ∈ (st.experiments id).head?, fst.value.status = .proposed
  experiments : ∀ id, Constant ActiveExperimentProposal.definition (st.experiments id)
  schemas : ∀ id, Constant (·.proposal.kind) (st.schemas id)
  mappings : ∀ id, Constant GovernedMappingRecord.sides (st.mappings id)

/-- A known experiment comes back with the definition of its last version. -/
def Restates (st : GovernedDiscoveryState) (entry : DiscoveryStateMutation × Nat) : Prop :=
  match entry.1 with
  | .upsertExperiment experiment _ => ∀ prev ∈ (st.experiments experiment.id).getLast?,
      prev.value.definition = experiment.definition
  | _ => True

theorem kind_of_validate (valid : validateSchema record expected prev lsn = .ok ()) :
    ∀ last ∈ prev, last.value.proposal.kind = record.proposal.kind := by
  rintro last ⟨⟩
  obtain ⟨_, -, compared⟩ := bind_eq_ok.mp valid
  by_contra changed
  simp [changed] at compared

theorem sides_of_validate (valid : validateMapping record expected prev lsn = .ok ()) :
    ∀ last ∈ prev, last.value.sides = record.sides := by
  rintro last ⟨⟩
  obtain ⟨_, -, compared⟩ := bind_eq_ok.mp valid
  by_contra changed
  simp only [GovernedMappingRecord.sides, Prod.mk.injEq, not_and_or] at changed
  simp [changed] at compared

theorem proposed_of_validate (valid : validateExperiment experiment expected none lsn = .ok ()) :
    experiment.status = .proposed := by
  by_contra other
  simp [validateExperiment, other] at valid

variable [Primitives] {st : GovernedDiscoveryState}

def call (st : GovernedDiscoveryState) (entry : DiscoveryStateMutation × Nat) :
    Option GovernedDiscoveryState :=
  (st.apply entry.1 entry.2).toOption

theorem keepsDefinitions_call (h : st.KeepsDefinitions) (done : st.call (op, lsn) = some next) :
    next.KeepsDefinitions ↔ st.Restates (op, lsn) := by
  have accepted : st.apply op lsn = .ok next := by
    cases ans : st.apply op lsn <;> simp_all [call, Except.toOption]
  obtain ⟨_, valid, made⟩ := bind_eq_ok.mp accepted
  cases made
  have valid := (prevalidate_ok_iff.mp valid).2
  cases op with
  | upsertSchema =>
    refine iff_of_true { h with schemas := ?_ } trivial
    exact (forall_update_iff _ fun _ => Constant _).mpr
      ⟨(h.schemas _).concat_iff.mpr (kind_of_validate valid), fun id _ => h.schemas id⟩
  | upsertMapping =>
    refine iff_of_true { h with mappings := ?_ } trivial
    exact (forall_update_iff _ fun _ => Constant _).mpr
      ⟨(h.mappings _).concat_iff.mpr (sides_of_validate valid), fun id _ => h.mappings id⟩
  | upsertExperiment experiment =>
    have constant : Constant _ (_ ++ [⟨lsn, experiment⟩]) ↔ _ :=
      (h.experiments experiment.id).concat_iff
    refine ⟨fun kept => ?_, fun restated => { h with proposed := ?_, experiments := ?_ }⟩
    · exact constant.mp (by simpa [commit] using kept.experiments experiment.id)
    · refine (forall_update_iff _ fun _ (versions : List (Versioned ActiveExperimentProposal)) =>
        ∀ fst ∈ versions.head?, fst.value.status = .proposed).mpr
          ⟨?_, fun id _ => h.proposed id⟩
      have known := h.proposed experiment.id
      simp only [checkEntry] at valid
      cases versions : st.experiments experiment.id with
      | nil =>
        rw [versions] at valid
        rintro _ ⟨⟩
        exact proposed_of_validate valid
      | cons fst rest =>
        rw [versions] at known
        exact known
    · exact (forall_update_iff _ fun _ => Constant _).mpr
        ⟨constant.mpr restated, fun id _ => h.experiments id⟩
  | installSafetyKernel | recordEvaluation | appendAudit => exact iff_of_true { h with } trivial

omit [Primitives] in
theorem keepsDefinitions_new : KeepsDefinitions new := by
  constructor <;> simp [new, Constant]

/-- Along every run of accepted calls the definitions stay as they were proposed exactly if
    each upsert of a known experiment restates its definition. -/
theorem definitions_kept_iff (calls : List (DiscoveryStateMutation × Nat)) :
    Always call KeepsDefinitions new calls ↔ Throughout call Restates new calls :=
  always_iff_throughout (fun _ => True)
    (fun _ _ _ _ kept _ done => ⟨trivial, keepsDefinitions_call kept done⟩)
    (fun _ _ => trivial) trivial keepsDefinitions_new

theorem call_of_valid (valid : st.prevalidate op lsn = .ok ()) :
    st.call (op, lsn) = some (st.commit op lsn) := by
  simp [call, apply, valid, bind, Except.bind, Except.toOption]

def kernel : ImmutableSafetyKernel :=
  let kernel : ImmutableSafetyKernel :=
    ⟨1, true, true, true, true, true, true, true, true, true, true, 1, .zero⟩
  { kernel with digest := kernel.computeDigest }

def experimentOf (status : ExperimentStatus) (maximumTrials : Nat) : ActiveExperimentProposal :=
  ⟨.zero, .abTest, status, [], [], [], [], 0, .low, true, maximumTrials, some ⟨1, 1, 3, 9⟩, none⟩

omit [Primitives] in
/-- One trial is proposed and a thousand are authorized, whatever the hash is. -/
theorem authorized_trials_differ :
    ¬ ∃ _ : Primitives, Always call KeepsDefinitions new [(.installSafetyKernel kernel, 1),
      (.upsertExperiment (experimentOf .proposed 1) none, 2),
      (.upsertExperiment (experimentOf .authorized 1000) (some .proposed), 3)] := by
  rintro ⟨_, always⟩
  have verified : kernel.verify = true := by
    simp [kernel, ImmutableSafetyKernel.verify, ImmutableSafetyKernel.requirements,
      ImmutableSafetyKernel.computeDigest]
  have first : new.call (.installSafetyKernel kernel, 1) =
      some { new with safetyKernel := [⟨1, kernel⟩] } := by
    refine call_of_valid (prevalidate_ok_iff.mpr ⟨nofun, ?_⟩)
    simp [checkEntry, verified, new]
  have upserted : ∀ (st : GovernedDiscoveryState) experiment expected lsn,
      st.safetyKernel = [⟨1, kernel⟩] →
      validateExperiment experiment expected (st.experiments experiment.id).getLast? lsn = .ok () →
      st.call (.upsertExperiment experiment expected, lsn) =
        some (st.commit (.upsertExperiment experiment expected) lsn) := by
    intro st experiment expected lsn held valid
    refine call_of_valid (prevalidate_ok_iff.mpr ⟨fun _ => ?_, valid⟩)
    simp [verifyKernelInstalled, held, verified]
  have later := (always_cons.mp always).2 _ first
  have later := (always_cons.mp later).2 _ (upserted _ _ _ _ rfl rfl)
  have kept := always_nil.mp ((always_cons.mp later).2 _ (upserted _ _ _ _ rfl rfl))
  cases kept.experiments .zero _ rfl _ (List.mem_of_getLast? rfl)

end GovernedDiscoveryState
end HoloSphere.Discovery
