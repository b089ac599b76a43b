import HoloSphere.Consensus.Simulation
import HoloSphere.Replication.Completeness

/-! # Leader completeness

A leader counts a follower's report as an acknowledgement of its own log.  The
handler reports the length of the follower's whole log, so the count is right only
while no follower's log goes on past the last entry of the leader's log
(`Overhangs`).  In every run without such a round, what a leader has committed is
held by every leader of a later term.
-/

namespace HoloSphere.Consensus
open Replication
open List hiding after
variable {σ δ : Type}

/-- `other` holds the last entry of `log` and goes on after it. -/
def Overhangs (log other : List (RaftLogEntry δ)) : Prop :=
  log.length < other.length ∧
    (other[log.length - 1]?).map RaftLogEntry.term = log.getLast?.map RaftLogEntry.term

instance (log other : List (RaftLogEntry δ)) : Decidable (Overhangs log other) :=
  inferInstanceAs (Decidable (_ ∧ _))

theorem overhangs_of_isPrefix (part : log <+: other) (filled : log ≠ [])
    (short : log.length < other.length) : Overhangs log other := by
  have size : 0 < log.length := length_pos_iff.mpr filled
  refine ⟨short, ?_⟩
  rw [getElem_of_isPrefix part (by omega), getLast?_eq_getElem?]

namespace RaftCluster

structure Tracked (voters : List NodeId) (cluster : RaftCluster σ δ)
    (w : World NodeId (RaftLogEntry δ)) (decided : Nat → Nat → Prop) : Prop where
  group : Group voters cluster w
  live : ∀ p ∈ voters, p ∈ cluster.ids
  settled : w.Settled voters (fun p => (cluster.node p).commitIndex) decided
  matched : ∀ l, (cluster.node l).role = .leader → ∀ p ∈ voters, p ≠ l → ∀ k,
    (cluster.node l).matchIndex p = some k → 0 < k → w.acked p (cluster.node l).currentTerm (k + 1)

open World

/-- Tracked by a later history, in which what was decided still is. -/
def TrackedOn (voters : List NodeId) (w : World NodeId (RaftLogEntry δ))
    (decided : Nat → Nat → Prop) (after : RaftCluster σ δ) : Prop :=
  ∃ w' decided', Evolves w w' ∧ (∀ t k, decided t k → decided' t k) ∧
    Tracked voters after w' decided'

theorem TrackedOn.bind {mid after : RaftCluster σ δ} (on : TrackedOn voters w decided mid)
    (next : ∀ w' decided', Tracked voters mid w' decided' → TrackedOn voters w' decided' after) :
    TrackedOn voters w decided after := by
  obtain ⟨between, made, ev, grown, h⟩ := on
  obtain ⟨w', decided', ev', grown', last⟩ := next between made h
  exact ⟨w', decided', ev.trans ev', fun t k old => grown' t k (grown t k old), last⟩

namespace Tracked
variable {cluster : RaftCluster σ δ} {decided : Nat → Nat → Prop}

theorem on (h : Tracked voters cluster w' decided) (ev : Evolves w w') :
    TrackedOn voters w decided cluster :=
  ⟨w', decided, ev, fun _ _ made => made, h⟩

/-- What an election without its heartbeats leaves of commit indices and records. -/
structure Reset (voters : List NodeId) (cluster cluster' : RaftCluster σ δ) : Prop where
  ids : cluster'.ids = cluster.ids
  commit : ∀ p, (cluster'.node p).commitIndex = (cluster.node p).commitIndex
  leaders : ∀ l, (cluster'.node l).role = .leader → ((cluster.node l).role = .leader ∧
      (cluster'.node l).currentTerm = (cluster.node l).currentTerm ∧
      ∀ p, p ≠ l → (cluster'.node l).matchIndex p = (cluster.node l).matchIndex p) ∨
    ∀ p ∈ voters, p ≠ l → (cluster'.node l).matchIndex p = some 0

variable {node : RaftNode σ δ}

/-- One node is replaced, and the others know no more of the log than before. -/
theorem Reset.of_quiet {mid : RaftCluster σ δ} (quiet : ∀ p, p ≠ nid →
      (cluster.node p).Moved (mid.node p) ∧ (cluster.node p).SameLog (mid.node p))
    (ids : mid.ids = cluster.ids)
    (commit : node.commitIndex = (cluster.node nid).commitIndex)
    (leader : node.role = .leader → ((cluster.node nid).role = .leader ∧
        node.currentTerm = (cluster.node nid).currentTerm ∧
        ∀ p, p ≠ nid → node.matchIndex p = (cluster.node nid).matchIndex p) ∨
      ∀ p ∈ voters, p ≠ nid → node.matchIndex p = some 0) :
    Reset voters cluster (mid.put nid node) where
  ids := ids
  commit := forall_put (fun p after => after.commitIndex = (cluster.node p).commitIndex) commit
    fun p other => (quiet p other).2.commitIndex
  leaders l leads := by
    by_cases same : l = nid
    · subst same
      rw [put_same] at leads ⊢
      exact leader leads
    · rw [put_other same] at leads ⊢
      obtain ⟨moved, kept⟩ := quiet l same
      obtain ⟨led, level⟩ := moved.leader leads
      exact .inl ⟨led, level, fun p _ => by rw [kept.matchIndex]⟩

theorem quiet_refl (p : NodeId) (_ : p ≠ nid) :
    (cluster.node p).Moved (cluster.node p) ∧ (cluster.node p).SameLog (cluster.node p) :=
  ⟨.refl _, .refl _⟩

/-- A step that neither commits nor records a report: a leader afterwards led before
    with the same records, or has reset them. -/
theorem quiet (h : Tracked voters cluster w decided) (steps : Steps voters w w')
    (group : Group voters cluster' w') (reset : Reset voters cluster cluster') :
    Tracked voters cluster' w' decided where
  group := group
  live p mem := reset.ids ▸ h.live p mem
  settled := by
    have same : (fun p => (cluster'.node p).commitIndex) =
        fun p => (cluster.node p).commitIndex := funext reset.commit
    rw [same]
    exact h.settled.steps h.group.sound steps
  matched l leads p mem other k known pos := by
    rw [Steps.acked steps]
    rcases reset.leaders l leads with ⟨led, level, kept⟩ | reset
    · rw [level]
      exact h.matched l led p mem other k (kept p other ▸ known) pos
    · rw [reset p mem other] at known
      have := Option.some.inj known
      omega

theorem acknowledge (h : Tracked voters cluster w decided) (legal : w.Acknowledges extra) :
    Tracked voters cluster (w.acknowledge extra) decided where
  group := h.group.acknowledge legal
  live := h.live
  settled := h.settled.acknowledge extra
  matched l leads p mem other k known pos :=
    .inl (h.matched l leads p mem other k known pos)

/-- The index a leader is about to commit is chosen, once its own copy counts. -/
theorem chosen (h : Tracked voters cluster w decided) (leads : (cluster.node l).role = .leader)
    (found : (cluster.node l).quorumIndex = some n)
    (agreed : (cluster.node l).votingPeers.Perm voters)
    (self : ∃ m, n < m ∧ w.acked l (cluster.node l).currentTerm m) :
    w.Chosen voters (cluster.node l).currentTerm n := by
  obtain ⟨above, hin, cur, enough⟩ := RaftNode.quorumIndex_some found
  refine ⟨?_, ?_⟩
  · rw [h.group.record_eq_log leads]
    obtain ⟨e, here, same⟩ := Option.map_eq_some_iff.mp cur
    exact ⟨e, here, same⟩
  · have counted : Majority (cluster.node l).votingPeers _ := Majority.of_filter _ enough
    refine (counted.perm agreed).mono ?_
    intro p mem count
    by_cases isLeader : p = l
    · rw [isLeader]
      exact self
    · cases known : (cluster.node l).matchIndex p with
      | none =>
        simp only [known, (h.group.replica l).id, decide_eq_true_eq] at count
        exact absurd count isLeader
      | some k =>
        simp only [known, decide_eq_true_eq] at count
        exact ⟨k + 1, by omega, h.matched l leads p mem isLeader k known (by omega)⟩

theorem proposeBatch (h : Tracked voters cluster w decided) {id : NodeId}
    {cmds : List (RaftCommand δ)} (eff : (cluster.node id).ProposeEffect cmds node)
    (new : ∀ c ∈ cmds, c.KeepsVoters voters) :
    TrackedOn voters w decided (cluster.put id node) := by
  obtain ⟨w', steps, group⟩ := h.group.propose eff new
  refine (h.quiet steps group (.of_quiet quiet_refl rfl eff.commitIndex ?_)).on
    (Steps.evolves steps h.group.sound)
  refine fun leads => .inl ⟨eff.role ▸ leads, eff.currentTerm, fun p other => ?_⟩
  rcases eff.log with ⟨-, kept⟩ | ⟨-, -, grown⟩
  · rw [kept]
  · rw [grown, (h.group.replica id).id]
    exact if_neg other

/-- The voters of an election keep what they know of the log. -/
theorem asked_quiet (other : p ≠ nid) :
    (cluster.node p).Moved ((cluster.asked faults nid cand).node p) ∧
      (cluster.node p).SameLog ((cluster.asked faults nid cand).node p) := by
  rcases asked_peer faults other cand cluster with untouched | called
  · rw [untouched]
    exact ⟨.refl _, .refl _⟩
  · rw [called]
    have eff := (cluster.node p).handleRequestVote_effect (faults.vote p) (cand.voteArgs nid)
    exact ⟨eff.moved, eff.sameLog⟩

theorem campaign_reset (live : ∀ p ∈ voters, p ∈ cluster.ids) (named : (cluster.node nid).id = nid)
    (eff : CampaignEffect faults nid cluster res) :
    Reset voters cluster res.1 := by
  cases eff with
  | idle => exact ⟨rfl, fun _ => rfl, fun l leads => .inl ⟨leads, rfl, fun _ _ => rfl⟩⟩
  | unsaved cand hin stood =>
    have kept := stand_sameLog stood
    refine .of_quiet quiet_refl rfl kept.commitIndex fun leads => ?_
    obtain ⟨led, level⟩ := (stand_moved stood).leader leads
    exact .inl ⟨led, level, fun p _ => by rw [kept.matchIndex]⟩
  | lost cand hin stood =>
    exact .of_quiet (fun _ => asked_quiet) rfl (stand_sameLog stood).commitIndex fun leads => by
      cases leads
  | won cand hin stood enough =>
    have eff := RaftNode.proposeBatch_effect faults.candidate [RaftCommand.noOp]
      (cand.becomeLeader cluster.ids)
    refine .of_quiet (fun _ => asked_quiet) rfl
      (eff.commitIndex.trans (stand_sameLog stood).commitIndex) ?_
    refine fun _ => .inr ?_
    intro p mem other
    have id : (cand.becomeLeader cluster.ids).id = nid := (stand_moved stood).id.trans named
    have reset : (cand.becomeLeader cluster.ids).matchIndex p = some 0 := by
      have notSelf : p ≠ cand.id := fun same => other (same.trans id)
      simp [RaftNode.becomeLeader, notSelf, live p mem]
    rcases eff.log with ⟨-, kept⟩ | ⟨-, -, grown⟩
    · rw [kept, reset]
    · rw [grown, id]
      exact (if_neg other).trans reset

/-- The candidate's log after a won election cannot be overhung, unless it already was
    before and the first proposal failed. -/
theorem campaign_no_overhang (h : Tracked voters cluster w decided) (mem : nid ∈ voters)
    (stood : (cluster.node nid).stand (faults.candidate.hardState 0) nid = (cand, true))
    (enough : cand.votingPeers.length / 2 + 1 ≤ 1 + (cluster.granting faults nid cand).length)
    (allowed : faults.candidate.append 0 = .none ∨ ∀ q ∈ cluster.ids, q ≠ nid →
      ¬ Overhangs (cluster.node nid).log (cluster.node q).log) (live : q ∈ cluster.ids)
    (other : q ≠ nid) :
    ¬ Overhangs ((cand.becomeLeader cluster.ids).proposeBatch faults.candidate [.noOp]).1.log
      (cluster.node q).log := by
  have eff := RaftNode.proposeBatch_effect faults.candidate [RaftCommand.noOp]
    (cand.becomeLeader cluster.ids)
  have own : (cand.becomeLeader cluster.ids).log = (cluster.node nid).log :=
    (stand_sameLog stood).log
  have written : ((cand.becomeLeader cluster.ids).proposeBatch faults.candidate [.noOp]).1.log =
      (cluster.node nid).log ++ (cand.becomeLeader cluster.ids).newEntries [.noOp] →
      ¬ Overhangs ((cand.becomeLeader cluster.ids).proposeBatch faults.candidate
        [.noOp]).1.log (cluster.node q).log := by
    rintro grown ⟨-, same⟩
    have last : (cand.becomeLeader cluster.ids).newEntries [.noOp] =
        [⟨cand.currentTerm, (cluster.node nid).log.length, .noOp⟩] := by
      rw [← own]
      rfl
    rw [grown, last, getLast?_append_of_ne_nil _ (by simp)] at same
    obtain ⟨e, here, term⟩ := Option.map_eq_some_iff.mp same
    exact h.group.unused mem stood enough q e (mem_of_getElem? here) term
  rcases eff.log with ⟨kept, -⟩ | ⟨-, grown, -⟩
  · rcases allowed with saved | clear
    · refine written ?_
      rw [RaftNode.proposeBatch_written rfl saved (by simp), own]
    · rw [kept, own]
      exact clear q live other
  · exact written (by rw [grown, own])

variable [ReplicatedStateMachine σ δ]

theorem checkQuorumCommit (h : Tracked voters cluster w decided) (mem : l ∈ voters)
    (faults : StorageFaults) :
    TrackedOn voters w decided (cluster.put l ((cluster.node l).checkQuorumCommit faults).1) := by
  have eff := (cluster.node l).checkQuorumCommit_effect faults
  cases eff with
  | nothing same =>
    rw [same, put_self]
    exact h.on (.refl w)
  | committed n leads found applied =>
    have own := h.group.record_eq_log leads
    have legal : w.Acknowledges fun v t m =>
        v = l ∧ t = (cluster.node l).currentTerm ∧ m = (cluster.node l).log.length := by
      rintro v t m ⟨rfl, rfl, rfl⟩
      rw [own, (h.group.replica v).term, (h.group.replica v).log]
      exact ⟨rfl, le_rfl, take_prefix _ _⟩
    have acked := h.acknowledge legal
    obtain ⟨above, hin, -, -⟩ := RaftNode.quorumIndex_some found
    have chosen := acked.chosen leads found ((h.group.replica l).keeps mem).peers
      ⟨_, hin, .inr ⟨rfl, rfl, rfl⟩⟩
    have leading := (acked.group.replica l).leads.mpr leads
    have made := acked.settled.decide acked.group.sound leading
      (by rwa [(acked.group.replica l).term]) (Nat.le_of_lt above)
    obtain ⟨steps, group⟩ := acked.group.followOne l (.checkQuorumCommit faults)
    refine ⟨_, fun t j => decided t j ∨ (t = w.term l ∧ j = n),
      (evolves_acknowledge _).trans (Steps.evolves steps acked.group.sound),
      fun t k old => .inl old,
      { group := group
        live := h.live
        settled := ?_
        matched := ?_ }⟩
    · have commit : (fun p => ((cluster.put l
          ((cluster.node l).checkQuorumCommit faults).1).node p).commitIndex) =
          Function.update (fun p => (cluster.node p).commitIndex) l n := by
        funext p
        by_cases same : p = l
        · subst same
          rw [put_same, Function.update_self]
          exact applied.commitIndex
        · rw [put_other same, Function.update_of_ne same]
      rw [commit]
      exact made.steps acked.group.sound steps
    · intro l' leads' p voter other k known pos
      rw [Steps.acked steps]
      by_cases same : l' = l
      · subst same
        rw [put_same] at known ⊢
        rw [applied.matchIndex] at known
        rw [applied.currentTerm]
        exact acked.matched l' leads p voter other k known pos
      · rw [put_other same] at leads' known ⊢
        exact acked.matched l' leads' p voter other k known pos

/-- A report in a round without overhang means that the follower now holds exactly the
    leader's log. -/
theorem reported_holds (h : Tracked voters cluster w decided)
    (leads : (cluster.node l).role = .leader)
    (noOverhang : ∀ q ∈ cluster.ids, q ≠ l → ¬ Overhangs (cluster.node l).log (cluster.node q).log)
    {faults : NodeId → StorageFaults} {k : Nat}
    (report : cluster.reported faults l (cluster.node l) cluster.ids p = some k) :
    cluster.Reaches cluster.ids l p ∧ k + 1 = (cluster.node l).log.length ∧
      (cluster.appendReply faults (cluster.node l) p).1.log = (cluster.node l).log ∧
      (cluster.appendReply faults (cluster.node l) p).1.currentTerm =
        (cluster.node l).currentTerm := by
  unfold reported at report
  split at report
  case isFalse => cases report
  case isTrue answered =>
    obtain ⟨reached, success⟩ := answered
    obtain ⟨part, cut⟩ := h.group.appendArgs_cut leads
    have filled := h.group.inhabited l
    have size : 0 < (cluster.node l).log.length := length_pos_iff.mpr filled
    have eff := (cluster.node p).handleAppendEntries_effect (faults p)
      ((cluster.node l).appendArgs p)
    cases eff with
    | refused moved same failed =>
      rw [appendReply, failed] at success
      cases success
    | accepted accepted =>
      have repaired := accepted_repaired (h.group.coherent p) (h.group.coherent l) cut accepted
      have whole := repaired.completed success
      have equal : (cluster.appendReply faults (cluster.node l) p).1.log =
          (cluster.node l).log := by
        refine (whole.eq_of_length ?_).symm
        refine Nat.le_antisymm whole.length_le ?_
        rcases repaired.outcome with same | ⟨lead, -⟩
        · rw [same] at whole ⊢
          by_contra longer
          exact noOverhang p reached.2.2 reached.2.1 (overhangs_of_isPrefix whole filled (by omega))
        · exact lead.length_le
      refine ⟨reached, ?_, equal, accepted.term⟩
      have matched := accepted.reported success
      have val := Option.some.inj report
      rw [appendReply, matched, ← appendReply, equal] at val
      omega

theorem round_commit (h : Tracked voters cluster w decided) (other : p ≠ l)
    (leads : (cluster.node l).role = .leader) (faults : NodeId → StorageFaults) :
    ((cluster.afterRound faults l eng).node p).commitIndex = (cluster.node p).commitIndex ∨
      (((cluster.afterRound faults l eng).node p).role ≠ .leader ∧
        ((cluster.afterRound faults l eng).node p).currentTerm = (cluster.node l).currentTerm ∧
        (cluster.node l).log <+: ((cluster.afterRound faults l eng).node p).log ∧
        ((cluster.afterRound faults l eng).node p).commitIndex ≤ (cluster.node l).commitIndex) := by
  rcases afterRound_peer faults other eng cluster with untouched | handled
  · exact .inl (by rw [untouched])
  · rw [handled]
    have eff := (cluster.node p).handleAppendEntries_effect (faults p)
      ((cluster.node l).appendArgs p)
    cases eff with
    | refused moved same failed => exact .inl same.commitIndex
    | accepted accepted =>
      rcases accepted.commit with same | ⟨success, -, learnt⟩
      · exact .inl same
      · obtain ⟨part, cut⟩ := h.group.appendArgs_cut leads
        refine .inr ⟨accepted.follows, accepted.term, ?_, ?_⟩
        · exact (accepted_repaired (h.group.coherent p) (h.group.coherent l) cut accepted).completed
            success
        · show ((cluster.node p).handleAppendEntries _ _).1.commitIndex ≤ _
          rw [learnt]
          exact Nat.min_le_left _ _

theorem round_leader (other : p ≠ l) (faults : NodeId → StorageFaults)
    (leads : ((cluster.afterRound faults l eng).node p).role = .leader) :
    (cluster.node p).role = .leader ∧
      ((cluster.afterRound faults l eng).node p).currentTerm = (cluster.node p).currentTerm ∧
      ((cluster.afterRound faults l eng).node p).matchIndex = (cluster.node p).matchIndex := by
  rcases afterRound_peer faults other eng cluster with untouched | handled
  · rw [untouched] at leads ⊢
    exact ⟨leads, rfl, rfl⟩
  · rw [handled] at leads ⊢
    have eff := (cluster.node p).handleAppendEntries_effect (faults p)
      ((cluster.node l).appendArgs p)
    cases eff with
    | refused moved same failed =>
      obtain ⟨led, level⟩ := moved.leader leads
      exact ⟨led, level, same.matchIndex⟩
    | accepted accepted => exact absurd leads accepted.follows

theorem round (h : Tracked voters cluster w decided) (live : l ∈ cluster.ids)
    (leads : (cluster.node l).role = .leader)
    (noOverhang : ∀ q ∈ cluster.ids, q ≠ l → ¬ Overhangs (cluster.node l).log (cluster.node q).log)
    (faults : NodeId → StorageFaults) (eng : ReadIndexEngine) :
    TrackedOn voters w decided (cluster.afterRound faults l eng) := by
  obtain ⟨steps, group⟩ := h.group.round faults live leads eng
  have settled := h.settled.steps h.group.sound steps
  have own := h.group.record_eq_log leads
  have legal : (seen (cluster.afterRound faults l eng) w).Acknowledges fun v t m =>
      ∃ k, cluster.reported faults l (cluster.node l) cluster.ids v = some k ∧
        t = (cluster.node l).currentTerm ∧ m = k + 1 := by
    rintro v t m ⟨k, report, rfl, rfl⟩
    obtain ⟨reached, size, log, term⟩ := h.reported_holds leads noOverhang report
    simp only [seen, afterRound_reached faults reached]
    rw [own, log, term, size]
    exact ⟨rfl, le_rfl, take_prefix _ _⟩
  refine on ⟨group.acknowledge legal, h.live, (settled.acknowledge _).learn ?_, ?_⟩
    ((Steps.evolves steps h.group.sound).trans (evolves_acknowledge _))
  · intro p
    by_cases same : p = l
    · subst same
      refine .inl ?_
      rw [afterRound_leader]
      rfl
    · rcases h.round_commit same leads faults with kept | ⟨follows, level, holds, below⟩
      · exact .inl kept
      · refine .inr ⟨follows, l, ?_, ?_, below⟩
        · show ((cluster.afterRound faults l eng).node l).currentTerm ≤
            ((cluster.afterRound faults l eng).node p).currentTerm
          rw [afterRound_leader, level]
          exact le_rfl
        · show ((cluster.afterRound faults l eng).node l).log <+:
            ((cluster.afterRound faults l eng).node p).log
          rw [afterRound_leader]
          exact holds
  · intro l' leads' p mem other k known pos
    by_cases same : l' = l
    · subst same
      rw [afterRound_leader] at known ⊢
      simp only [bookkeeping] at known
      cases report : cluster.reported faults l' (cluster.node l') cluster.ids p with
      | some matched =>
        rw [report, Option.some_or] at known
        exact .inr ⟨matched, report, rfl, by rw [Option.some.inj known]⟩
      | none =>
        rw [report, Option.none_or] at known
        refine .inl ?_
        exact h.matched l' leads p mem other k known pos
    · obtain ⟨led, level, kept⟩ := round_leader same faults leads'
      refine .inl ?_
      rw [Steps.acked steps, level]
      exact h.matched l' led p mem other k (kept ▸ known) pos

theorem broadcastHeartbeats (h : Tracked voters cluster w decided)
    (noOverhang : (cluster.node l).role = .leader → ∀ q ∈ cluster.ids, q ≠ l →
      ¬ Overhangs (cluster.node l).log (cluster.node q).log) (faults : BroadcastFaults) :
    TrackedOn voters w decided (cluster.broadcastHeartbeats faults l) := by
  have eff := broadcastHeartbeats_effect faults l h.group.distinct
  generalize cluster.broadcastHeartbeats faults l = res at eff ⊢
  cases eff with
  | idle => exact h.on (.refl w)
  | round live leads eng =>
    exact (h.round live leads (noOverhang leads) faults.peer eng).bind fun _ _ tracked =>
      tracked.checkQuorumCommit (h.group.members l live) faults.leader

theorem triggerElection (h : Tracked voters cluster w decided) (uniq : voters.Nodup)
    (allowed : faults.candidate.append 0 = .none ∨ ∀ q ∈ cluster.ids, q ≠ nid →
      ¬ Overhangs (cluster.node nid).log (cluster.node q).log) :
    TrackedOn voters w decided (cluster.triggerElection faults nid).1 := by
  unfold RaftCluster.triggerElection
  by_cases hin : nid ∈ cluster.ids
  · have mem := h.group.members nid hin
    have eff := campaign_effect faults
      (((h.group.replica nid).keeps mem).peers.nodup_iff.mpr uniq)
    obtain ⟨between, steps, group⟩ := h.group.campaign uniq faults nid
    have reset := campaign_reset h.live (h.group.replica nid).id eff
    have tracked := h.quiet steps group reset
    have ev := Steps.evolves steps h.group.sound
    generalize cluster.campaign faults nid = res at eff group reset tracked ⊢
    cases eff with
    | idle | unsaved | lost => exact tracked.on ev
    | won cand live stood enough =>
      refine (tracked.on ev).bind fun _ _ tracked =>
        tracked.broadcastHeartbeats (fun _ q inIds other => ?_) faults.broadcast
      rw [put_same, put_other other, (asked_quiet other).2.log]
      exact h.campaign_no_overhang mem stood enough allowed inIds other
  · simp only [RaftCluster.campaign, get_of_not_mem hin]
    exact h.on (.refl w)

end Tracked

/-- The public calls of a cluster that never loses a node. -/
def Op.IsCall : Op σ δ → Prop
  | .setReplicatedSm _ _ | .triggerElection _ _ | .proposeBatch _ _ _ | .proposeDataMutation _ _ _
  | .broadcastHeartbeats _ _ | .checkQuorumCommit _ _ => True
  | .handleRequestVote _ _ _ | .handleAppendEntries _ _ _ | .crash _ | .restart _ _ => False

/-- No follower's log goes on past the last entry of the log a leader is about to
    send.  After an election that log ends with the leader's first entry, unless
    writing this entry failed. -/
def NoOverhang (cluster : RaftCluster σ δ) : Op σ δ → Prop
  | .broadcastHeartbeats id _ => (cluster.node id).role = .leader → ∀ q ∈ cluster.ids, q ≠ id →
      ¬ Overhangs (cluster.node id).log (cluster.node q).log
  | .triggerElection id faults => faults.candidate.append 0 = .none ∨ ∀ q ∈ cluster.ids, q ≠ id →
      ¬ Overhangs (cluster.node id).log (cluster.node q).log
  | _ => True

section
variable [ReplicatedStateMachine σ δ]

/-- Every operation of the run meets `NoOverhang` in the state before it. -/
def Clear (peers : List NodeId) : RaftCluster σ δ → List (Op σ δ) → Prop
  | _, [] => True
  | cluster, op :: rest => NoOverhang cluster op ∧ Clear peers (step peers cluster op) rest

theorem clear_append : ∀ {cluster : RaftCluster σ δ}, Clear peers cluster (pre ++ after) →
      Clear peers cluster pre ∧ Clear peers (run peers cluster pre) after := by
  induction pre with
  | nil => exact fun clear => ⟨trivial, clear⟩
  | cons op rest ih =>
    intro cluster clear
    obtain ⟨first, later⟩ := clear
    obtain ⟨hin, outside⟩ := ih later
    exact ⟨⟨first, hin⟩, outside⟩

variable {decided : Nat → Nat → Prop}

omit [ReplicatedStateMachine σ δ] in
theorem Tracked.modify {voters : List NodeId} (h : Tracked voters cluster w decided) {id : NodeId}
    {f : RaftNode σ δ → RaftNode σ δ}
    (called : id ∈ cluster.ids →
      TrackedOn voters w decided (cluster.put id (f (cluster.node id)))) :
    TrackedOn voters w decided (cluster.modify id f) := by
  unfold RaftCluster.modify
  by_cases live : id ∈ cluster.ids
  · rw [get_of_mem live]
    exact called live
  · rw [get_of_not_mem live]
    exact h.on (.refl w)

theorem Tracked.step (h : Tracked peers.dedup cluster w decided) {op : Op σ δ} (call : op.IsCall)
    (keeps : op.KeepsVoters peers.dedup) (clear : NoOverhang cluster op) :
    TrackedOn peers.dedup w decided (step peers cluster op) := by
  cases op with
  | setReplicatedSm id mach =>
    refine h.modify fun _ => ?_
    obtain ⟨steps, group⟩ := h.group.followOne id
      (.of_sameLog (setReplicatedSm_kept (m := mach)) rfl rfl)
    exact (h.quiet steps group (.of_quiet quiet_refl rfl rfl fun leads =>
      .inl ⟨leads, rfl, fun _ _ => rfl⟩)).on (Steps.evolves steps h.group.sound)
  | triggerElection id faults => exact h.triggerElection (nodup_dedup peers) clear
  | proposeBatch id cmds faults =>
    exact h.modify fun _ => h.proposeBatch ((cluster.node id).proposeBatch_effect faults cmds) keeps
  | proposeDataMutation id mu faults =>
    exact h.modify fun _ => h.proposeBatch ((cluster.node id).proposeDataMutation_effect)
      (by simp [RaftCommand.KeepsVoters])
  | broadcastHeartbeats id faults => exact h.broadcastHeartbeats clear faults
  | checkQuorumCommit id faults =>
    exact h.modify fun live => h.checkQuorumCommit (h.group.members id live) faults
  | handleRequestVote | handleAppendEntries | crash | restart => exact call.elim

variable {ops : List (Op σ δ)}

theorem Tracked.run (calls : ∀ op ∈ ops, op.IsCall)
    (keeps : ∀ op ∈ ops, op.KeepsVoters peers.dedup) :
    ∀ {cluster : RaftCluster σ δ} {w : World NodeId (RaftLogEntry δ)}
      {decided : Nat → Nat → Prop}, Tracked peers.dedup cluster w decided →
      Clear peers cluster ops →
      TrackedOn peers.dedup w decided (run peers cluster ops) := by
  induction ops with
  | nil => exact fun h _ => h.on (.refl _)
  | cons op rest ih =>
    intro cluster w decided h clear
    obtain ⟨call, callsRest⟩ := forall_mem_cons.mp calls
    obtain ⟨kept, keepsRest⟩ := forall_mem_cons.mp keeps
    exact (h.step call kept clear.1).bind fun _ _ next => ih callsRest keepsRest next clear.2

omit [ReplicatedStateMachine σ δ] in
theorem tracked_new (nonempty : peers ≠ []) :
    Tracked peers.dedup (new peers : RaftCluster σ δ) (.genesis .sentinel)
      (fun t k => t = 0 ∧ k = 0) where
  group := group_new
  live _ mem := mem
  settled := Settled.genesis rfl (by simpa using nonempty)
  matched l leads := by cases leads

theorem peers_nonempty (keeps : ∀ op ∈ ops, op.KeepsVoters peers.dedup)
    (live : a ∈ (run peers (new peers : RaftCluster σ δ) (ops.take m)).ids) : peers ≠ [] := by
  have keepsTaken : ∀ op ∈ ops.take m, op.KeepsVoters peers.dedup :=
    fun op hin => keeps op (mem_of_mem_take hin)
  obtain ⟨winner, -, safe⟩ := Safe.run keepsTaken (safe_new)
  exact ne_nil_of_mem (mem_dedup.mp (safe.members a live))

/-- Two states of a clear run, the earlier one first, with a common history. -/
theorem tracked_pair (nonempty : peers ≠ []) (calls : ∀ op ∈ ops, op.IsCall)
    (keeps : ∀ op ∈ ops, op.KeepsVoters peers.dedup) (clear : Clear peers (new peers) ops)
    (le : m ≤ n) :
    ∃ w decided w' decided', Evolves w w' ∧ (∀ t k, decided t k → decided' t k) ∧
      Tracked peers.dedup (run peers (new peers) (ops.take m)) w decided ∧
      Tracked peers.dedup (run peers (new peers) (ops.take n)) w' decided' := by
  have split : ops.take n = ops.take m ++ (ops.take n).drop m := by
    conv_lhs => rw [← take_append_drop m (ops.take n), take_take, Nat.min_eq_left le]
  have inFirst : ∀ op ∈ ops.take m, op ∈ ops := fun op => mem_of_mem_take
  have inSecond : ∀ op ∈ (ops.take n).drop m, op ∈ ops :=
    fun op hin => mem_of_mem_take (mem_of_mem_drop hin)
  rw [← take_append_drop n ops, split] at clear
  obtain ⟨clearFirst, clearSecond⟩ := clear_append (clear_append clear).1
  obtain ⟨w, decided, -, -, first⟩ := Tracked.run (fun op hin => calls op (inFirst op hin))
    (fun op hin => keeps op (inFirst op hin)) (tracked_new nonempty) clearFirst
  obtain ⟨w', decided', ev, grown, snd⟩ :=
    Tracked.run (fun op hin => calls op (inSecond op hin))
      (fun op hin => keeps op (inSecond op hin)) first clearSecond
  have whole : run peers (new peers : RaftCluster σ δ) (ops.take n) =
      run peers (run peers (new peers) (ops.take m)) ((ops.take n).drop m) := by
    rw [split]
    unfold RaftCluster.run
    rw [foldl_append, ← split]
  exact ⟨w, decided, w', decided', ev, grown, first, whole ▸ snd⟩

omit [ReplicatedStateMachine σ δ] in
/-- What one node had committed in one state, a leader of a later term in another
    state holds.  The states share the history `hist`. -/
theorem Tracked.committed_held {hist : World NodeId (RaftLogEntry δ)}
    {decided decided' : Nat → Nat → Prop} (h : Tracked voters cluster w decided)
    (h' : Tracked voters cluster' w' decided') (sound : hist.Sound voters)
    (ev : Evolves w hist) (ev' : Evolves w' hist)
    (committed : k ≤ (cluster.node a).commitIndex) (entry : (cluster.node a).log[k]? = some e)
    (leads : (cluster'.node b).role = .leader)
    (later : (cluster.node a).currentTerm < (cluster'.node b).currentTerm) :
    (cluster'.node b).log[k]? = some e := by
  obtain ⟨t, n, made, reached, below, holds⟩ := h.settled.committed a
  have chosen := h.settled.chosen t n made
  have within : k < ((w.record t).take ((cluster.node a).commitIndex + 1)).length := by
    have := chosen.inside
    rw [length_take]
    omega
  have recorded : (w.record t)[k]? = some e := by
    rw [(h.group.replica a).log] at holds
    rw [← entry, getElem_of_isPrefix holds within, getElem?_take_of_lt (by omega)]
  obtain ⟨won, own⟩ := h'.group.sound.leader b ((h'.group.replica b).leads.mpr leads)
  rw [(h'.group.replica b).term] at won own
  have complete := sound.completeness (chosen.evolve ev) (cluster'.node b).currentTerm
    (by rw [(h.group.replica a).term] at reached; omega) b (ev'.winner _ b won)
  rw [ev'.ballot _ b won] at complete
  have part := complete.trans (h'.group.sound.ballot_record _ b won)
  rw [own, (h'.group.replica b).log] at part
  have hin : k < (w.record t).length := (List.getElem?_eq_some_iff.mp recorded).1
  have longer := (ev.record t).length_le
  rw [getElem_of_isPrefix part (by rw [length_take]; omega),
    getElem?_take_of_lt (by omega), getElem_of_isPrefix (ev.record t) hin, recorded]

/-- In a run: whenever a node of some term has committed up to `k`, its entry at `k` is
    held by every node that leads in a later term. -/
def Complete (peers : List NodeId) (ops : List (Op σ δ)) : Prop :=
  ∀ m n a b k e, a ∈ (run peers (new peers : RaftCluster σ δ) (ops.take m)).ids →
    b ∈ (run peers (new peers : RaftCluster σ δ) (ops.take n)).ids →
    k ≤ ((run peers (new peers : RaftCluster σ δ) (ops.take m)).node a).commitIndex →
    ((run peers (new peers : RaftCluster σ δ) (ops.take m)).node a).log[k]? = some e →
    ((run peers (new peers : RaftCluster σ δ) (ops.take n)).node b).role = .leader →
    ((run peers (new peers : RaftCluster σ δ) (ops.take m)).node a).currentTerm <
      ((run peers (new peers : RaftCluster σ δ) (ops.take n)).node b).currentTerm →
    ((run peers (new peers : RaftCluster σ δ) (ops.take n)).node b).log[k]? = some e

theorem clear_runs_are_complete (peers : List NodeId) (ops : List (Op σ δ))
    (calls : ∀ op ∈ ops, op.IsCall) (keeps : ∀ op ∈ ops, op.KeepsVoters peers.dedup)
    (clear : Clear peers (new peers) ops) : Complete peers ops := by
  intro m n a b k e liveA liveB committed entry leads later
  have nonempty := peers_nonempty keeps liveA
  rcases Nat.le_total m n with first | first
  · obtain ⟨w, decided, w', decided', ev, -, h, h'⟩ := tracked_pair nonempty calls keeps clear first
    exact h.committed_held h' h'.group.sound ev (.refl w') committed entry leads later
  · obtain ⟨w', decided', w, decided, ev, -, h', h⟩ := tracked_pair nonempty calls keeps clear first
    exact h.committed_held h' h.group.sound (.refl w) ev committed entry leads later

/-- The first leader writes three entries that reach nobody.  Node 2 is elected with
    the vote of node 3 while its own first entry is not written; the heartbeat it sends
    instead is accepted by node 1, which reports all of its own log. -/
def overreport : List (Op Nat Nat) :=
  [.triggerElection 1 {}, .proposeBatch 1 [.data 1, .data 2, .data 3] {},
    .triggerElection 2 { candidate := { append := fun _ => .before } },
    .proposeBatch 2 [.data 4, .data 5, .data 6] {}, .checkQuorumCommit 2 {},
    .triggerElection 1 {}]

theorem overreport_is_not_complete : ¬ Complete [1, 2, 3] overreport := by
  intro complete
  have held := complete 5 6 2 1 2 ⟨2, 2, .data 4⟩ (by decide) (by decide) (by decide) (by decide)
    (by decide) (by decide)
  exact absurd held (by decide)

theorem elections_in_turn_are_complete :
    Complete [1, 2, 3] ([.triggerElection 1 {}, .proposeBatch 1 [.data 1] {},
      .broadcastHeartbeats 1 {}, .triggerElection 2 {}] : List (Op Nat Nat)) :=
  clear_runs_are_complete [1, 2, 3] _ (by simp [Op.IsCall])
    (by simp [Op.KeepsVoters, RaftCommand.KeepsVoters])
    ⟨.inl rfl, trivial, by simp only [NoOverhang]; decide, .inl rfl, trivial⟩

/-- What two nodes have committed agrees, also between different states of a run. -/
theorem committed_logs_agree (peers : List NodeId) (ops : List (Op σ δ))
    (calls : ∀ op ∈ ops, op.IsCall) (keeps : ∀ op ∈ ops, op.KeepsVoters peers.dedup)
    (clear : Clear peers (new peers) ops) :
    let reached (m : Nat) : RaftCluster σ δ := run peers (new peers) (ops.take m)
    ∀ m n a b k, a ∈ (reached m).ids → b ∈ (reached n).ids →
      k ≤ ((reached m).node a).commitIndex → k ≤ ((reached n).node b).commitIndex →
      ((reached m).node a).log[k]? = ((reached n).node b).log[k]? := by
  intro reached m n a b k liveA liveB le le'
  wlog first : m ≤ n generalizing m n a b
  · exact (this n m b a liveB liveA le' le (Nat.le_of_not_le first)).symm
  obtain ⟨w, decided, w', decided', ev, -, h, h'⟩ :=
    tracked_pair (peers_nonempty keeps liveA) calls keeps clear first
  have agree := h.settled.agree h'.settled ev h'.group.sound le le'
  rwa [(h.group.replica a).log, (h'.group.replica b).log] at agree

theorem committed_logs_agree_between_nodes :
    let ops : List (Op Nat Nat) := [.triggerElection 1 {}, .proposeBatch 1 [.data 7] {},
      .broadcastHeartbeats 1 {}]
    ((run [1, 2] (new [1, 2]) (ops.take 1)).node 1).log[1]? =
      ((run [1, 2] (new [1, 2]) (ops.take 3)).node 2).log[1]? := by
  intro ops
  exact committed_logs_agree [1, 2] ops (by simp [ops, Op.IsCall])
    (by simp [ops, Op.KeepsVoters, RaftCommand.KeepsVoters])
    ⟨.inl rfl, trivial, by simp only [NoOverhang]; decide, trivial⟩
    1 3 1 2 1 (by decide) (by decide) (by decide) (by decide)

end
end RaftCluster
end HoloSphere.Consensus
