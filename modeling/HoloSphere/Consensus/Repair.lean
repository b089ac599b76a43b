import HoloSphere.Consensus.Rounds
import HoloSphere.Replication.World

/-! # Log repair against a leader's log

What the entry loop of `handle_append_entries` makes of a follower's log when the
message was cut out of a leader's log and the two logs match wherever their terms
do.  However the storage calls end, the follower keeps its log or ends with a
leading part of the leader's log that it did not hold before.
-/

namespace HoloSphere.Consensus
open Replication
variable {σ δ : Type}

instance : Stamped (RaftLogEntry δ) := ⟨RaftLogEntry.term⟩

/-- Every entry stands at its own index. -/
def Indexed (log : List (RaftLogEntry δ)) : Prop :=
  ∀ (k : Nat) (e : RaftLogEntry δ), log[k]? = some e → e.index = k

theorem Indexed.of_isPrefix (h : Indexed log) (le : part <+: log) : Indexed part := by
  intro k e here
  have hin : k < part.length := (List.getElem?_eq_some_iff.mp here).1
  exact h k e (by rw [getElem_of_isPrefix le hin, here])

theorem Indexed.append {log more : List (RaftLogEntry δ)} (h : Indexed log)
    (next : ∀ k e, more[k]? = some e → e.index = log.length + k) : Indexed (log ++ more) := by
  intro k e here
  by_cases old : k < log.length
  · rw [List.getElem?_append_left old] at here
    exact h k e here
  · rw [List.getElem?_append_right (by omega)] at here
    rw [next _ e here]
    omega

theorem Indexed.snoc (h : Indexed log) {entry : RaftLogEntry δ} (next : entry.index = log.length) :
    Indexed (log ++ [entry]) := by
  refine h.append fun k e here => ?_
  obtain ⟨rfl, rfl⟩ : k = 0 ∧ entry = e := by simpa [List.getElem?_singleton] using here
  exact next

theorem Indexed.newEntries {node : RaftNode σ δ} (h : Indexed node.log)
    (cmds : List (RaftCommand δ)) : Indexed (node.log ++ node.newEntries cmds) := by
  refine h.append fun k e here => ?_
  obtain ⟨command, -, rfl⟩ := node.newEntries_get here
  rfl

theorem Indexed.sentinel : Indexed [(RaftLogEntry.sentinel : RaftLogEntry δ)] :=
  @Indexed.snoc δ [] nofun _ rfl

/-- Wherever the terms of two logs meet, the logs are the same up to there. -/
def Agrees (log src : List (RaftLogEntry δ)) : Prop :=
  ∀ k (hin : k < log.length) (inside' : k < src.length),
    log[k].term = src[k].term → log.take (k + 1) = src.take (k + 1)

theorem Agrees.of_lead (le : lead <+: src) : Agrees lead src := by
  intro k hin _ _
  exact (take_eq_of_isPrefix le hin).symm

theorem Agrees.of_isPrefix (h : Agrees log src) (le : part <+: src) : Agrees log part := by
  intro k hin inside' same
  have here := getElem_of_isPrefix le inside'
  rw [List.getElem?_eq_getElem inside'] at here
  obtain ⟨bound, equal⟩ := List.getElem?_eq_some_iff.mp here
  rw [h k hin bound (by rw [equal, same]), take_eq_of_isPrefix le (by omega)]

theorem Agrees.of_coherent (h : Coherent rec log) (h' : Coherent rec src) : Agrees log src :=
  fun _ hin inside' same => h.matching h' hin inside' same

/-- The log after a repair against the leader's log, and whether the repair was completed. -/
structure Repaired (log src after : List (RaftLogEntry δ)) (done : Bool) : Prop where
  outcome : after = log ∨ after <+: src ∧ ¬ after <+: log
  completed : done = true → src <+: after

/-- A completed repair took the leader's log over, unless the follower held it already. -/
theorem Repaired.log_eq (h : Repaired log src after true) :
    (src <+: log → after = log) ∧ (¬ src <+: log → after = src) := by
  have whole := h.completed rfl
  rcases h.outcome with rfl | ⟨part, new⟩
  · exact ⟨fun _ => rfl, fun absent => absurd whole absent⟩
  · exact ⟨fun held => absurd (part.trans held) new,
      fun _ => part.eq_of_length_le whole.length_le⟩

theorem Repaired.stop (log src : List (RaftLogEntry δ)) : Repaired log src log false :=
  ⟨.inl rfl, nofun⟩

/-- A repair that goes on from the next entry of the leader's log, just taken over. -/
theorem Repaired.taken (part : front <+: src) (new : ¬ front <+: log)
    (h : Repaired front src after done) : Repaired log src after done where
  outcome := by
    rcases h.outcome with rfl | ⟨lead, longer⟩
    · exact .inr ⟨part, new⟩
    · have begins := (List.prefix_or_prefix_of_prefix lead part).resolve_left longer
      exact .inr ⟨lead, fun held => new (begins.trans held)⟩
  completed := h.completed

theorem repairLog_repaired (faults : StorageFaults) {src : List (RaftLogEntry δ)}
    (ents : List (RaftLogEntry δ)) :
    ∀ (k : Nat) (front : List (RaftLogEntry δ)) (sto : MemoryRaftStorage δ)
      (log : List (RaftLogEntry δ)), front ++ ents = src → front <+: log → Agrees log src →
      Repaired log src (RaftNode.repairLog faults k front.length sto log ents).log
        (RaftNode.repairLog faults k front.length sto log ents).completed := by
  induction ents with
  | nil =>
    rintro k front sto log rfl held -
    exact ⟨.inl rfl, fun _ => by rwa [List.append_nil]⟩
  | cons entry rest ih =>
    intro k front sto log whole held agrees
    rw [List.append_cons] at whole
    have part : front ++ [entry] <+: src := ⟨rest, whole⟩
    have next := ih (k + 1) (front ++ [entry])
    rw [List.length_append, List.length_singleton] at next
    have step (stored : MemoryRaftStorage δ) (new : ¬ front ++ [entry] <+: log) :=
      (next stored _ whole List.prefix_rfl (.of_lead part)).taken part new
    unfold RaftNode.repairLog
    split
    case h_1 existing found =>
      obtain ⟨within, val⟩ := List.getElem?_eq_some_iff.mp found
      split
      case isTrue conflict =>
        have new : ¬ front ++ [entry] <+: log := by
          intro old
          have same := getElem_of_isPrefix old (n := front.length) (by simp)
          rw [found, List.getElem?_concat_length] at same
          exact conflict (congrArg RaftLogEntry.term (Option.some.inj same))
        simp only
        split
        · split
          · rw [← List.prefix_iff_eq_take.mp held]
            exact step _ new
          · exact .stop _ _
        · exact .stop _ _
      case isFalse same =>
        refine next sto log whole ?_ agrees
        have hin : front.length < src.length := by
          have := part.length_le
          rwa [List.length_append] at this
        have matched := agrees front.length within hin (by simpa [val, ← whole] using same)
        have lead := List.prefix_iff_eq_take.mp part
        rw [List.length_append, List.length_singleton, ← matched] at lead
        rw [lead]
        exact List.take_prefix _ _
    case h_2 missing =>
      obtain rfl := held.eq_of_length_le (List.getElem?_eq_none_iff.mp missing)
      simp only
      split
      · exact step _ fun old => absurd old.length_le (by simp)
      · exact .stop _ _

end HoloSphere.Consensus
