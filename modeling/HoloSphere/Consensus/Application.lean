import HoloSphere.Consensus.Repair

/-! # Application of committed commands

The loop of `apply_committed_entries` stops at the first command that the state machine
rejects and does not count it as applied, so it reaches the commit index exactly when no
command on the way is rejected.
-/

namespace HoloSphere.Consensus
namespace RaftNode
variable {σ δ : Type} [ReplicatedStateMachine σ δ]

/-- The machine after a command was handed to it, accepted or not. -/
def offer (sm : σ) (entry : RaftLogEntry δ) : σ :=
  match entry.command with
  | .data op => (ReplicatedStateMachine.apply sm entry.index op).1
  | _ => sm

def Accepts (sm : σ) (entry : RaftLogEntry δ) : Prop :=
  match entry.command with
  | .data op => (ReplicatedStateMachine.apply sm entry.index op).2.isOk
  | _ => True

def AcceptsAll : σ → List (RaftLogEntry δ) → Prop
  | _, [] => True
  | sm, entry :: rest => Accepts sm entry ∧ AcceptsAll (offer sm entry) rest

theorem applyCommand_goOn {node : RaftNode σ δ} (attached : node.replicatedSm = some sm)
    (entry : RaftLogEntry δ) : ((node.applyCommand entry).2.2 = true ↔ Accepts sm entry) ∧
      (node.applyCommand entry).1.replicatedSm = some (offer sm entry) ∧
      (node.applyCommand entry).1.lastApplied = node.lastApplied := by
  unfold applyCommand Accepts offer
  cases entry.command with
  | topology | membership | noOp => exact ⟨by simp, attached, rfl⟩
  | data op =>
    simp only [attached]
    rcases ReplicatedStateMachine.apply sm entry.index op with ⟨after, _ | receipt⟩
    · exact ⟨by simp [Except.isOk, Except.toBool], rfl, rfl⟩
    · exact ⟨by simp [Except.isOk, Except.toBool], rfl, rfl⟩

theorem applyLoop_reaches_iff {log : List (RaftLogEntry δ)} (indexed : Indexed log)
    {node : RaftNode σ δ} (attached : node.replicatedSm = some sm)
    (inside : node.lastApplied + fuel < log.length) (answers) :
    ((node.applyLoop log (node.lastApplied + fuel) fuel answers).1.lastApplied =
        node.lastApplied + fuel ∧
      (node.applyLoop log (node.lastApplied + fuel) fuel answers).1.replicatedSm =
        some (((log.drop (node.lastApplied + 1)).take fuel).foldl offer sm)) ↔
    AcceptsAll sm ((log.drop (node.lastApplied + 1)).take fuel) := by
  induction fuel generalizing node sm answers with
  | zero => simp [applyLoop, AcceptsAll, attached]
  | succ fuel ih =>
    have hin : node.lastApplied + 1 < log.length := by omega
    obtain ⟨goOn, machine, same⟩ := applyCommand_goOn attached log[node.lastApplied + 1]
    have idx := indexed _ _ (List.getElem?_eq_getElem hin)
    rw [List.drop_eq_getElem_cons hin, List.take_succ_cons, List.foldl_cons, AcceptsAll]
    rw [applyLoop, if_pos (by omega), List.getElem?_eq_getElem hin]
    by_cases accepted : Accepts sm log[node.lastApplied + 1]
    · let after : RaftNode σ δ := { (node.applyCommand log[node.lastApplied + 1]).1 with
        lastApplied := node.lastApplied + 1 }
      have attached : after.replicatedSm = some (offer sm log[node.lastApplied + 1]) := machine
      have goal : after.lastApplied + fuel = node.lastApplied + (fuel + 1) := by
        show node.lastApplied + 1 + fuel = _
        omega
      have rest := ih attached (goal ▸ inside)
      rw [goal] at rest
      simp only [goOn.mpr accepted, if_true, idx, accepted, true_and]
      exact rest _
    · have stopped : (node.applyCommand log[node.lastApplied + 1]).2.2 = false :=
        Bool.not_eq_true _ ▸ mt goOn.mp accepted
      simp only [stopped, Bool.false_eq_true, if_false, same, accepted, false_and, iff_false]
      omega

/-- A replica reaches its commit index, with every command handed to the machine, exactly
    when the machine rejects none of them. -/
theorem rejected_command_blocks_iff (fault : Fault) {log : List (RaftLogEntry δ)}
    (indexed : Indexed log) {node : RaftNode σ δ} (attached : node.replicatedSm = some sm)
    (behind : node.lastApplied ≤ target) (inside : target < log.length) :
    ((node.applyCommittedEntries fault log target).lastApplied = target ∧
      (node.applyCommittedEntries fault log target).replicatedSm =
        some (((log.take (target + 1)).drop (node.lastApplied + 1)).foldl offer sm)) ↔
    AcceptsAll sm ((log.take (target + 1)).drop (node.lastApplied + 1)) := by
  obtain ⟨fuel, rfl⟩ := Nat.exists_eq_add_of_le behind
  have part : (log.take (node.lastApplied + fuel + 1)).drop (node.lastApplied + 1) =
      (log.drop (node.lastApplied + 1)).take fuel := by
    rw [List.drop_take]
    congr 1
    omega
  rw [part, ← applyLoop_reaches_iff indexed attached inside [], applyCommittedEntries,
    Nat.add_sub_cancel_left]

/-- A machine that keeps the numbers it is given and rejects zero. -/
instance : ReplicatedStateMachine (List Nat) Nat where
  apply st idx val := if val = 0 then (st, .error (.internal "zero")) else
    (st ++ [val], .ok ⟨"", idx, idx, 0⟩)
  mutationId _ := ""

def keeper : RaftNode (List Nat) Nat :=
  { (new 1 [1] : RaftNode (List Nat) Nat) with replicatedSm := some [] }

def numbersLog (vals : List Nat) : List (RaftLogEntry Nat) :=
  .sentinel :: vals.mapIdx fun i val => ⟨1, i + 1, .data val⟩

theorem accepted_commands_applied :
    (keeper.applyCommittedEntries .none (numbersLog [5, 7]) 2).lastApplied = 2 := by
  have indexed : Indexed (numbersLog [5, 7]) := by
    rintro (_ | _ | _ | k) e here <;> cases here <;> rfl
  have attached : keeper.replicatedSm = some [] := rfl
  have behind : keeper.lastApplied ≤ 2 := by decide
  exact ((rejected_command_blocks_iff .none indexed attached behind (by decide)).mpr
    ⟨rfl, rfl, trivial⟩).1

/-- The command after a rejected one is not applied, by this call or by the next. -/
theorem rejected_command_blocks_log :
    (keeper.applyCommittedEntries .none (numbersLog [0, 7]) 2).lastApplied = 0 ∧
      ((keeper.applyCommittedEntries .none (numbersLog [0, 7]) 2).applyCommittedEntries .none
        (numbersLog [0, 7]) 2).replicatedSm = some [] :=
  ⟨rfl, rfl⟩

end RaftNode
end HoloSphere.Consensus
