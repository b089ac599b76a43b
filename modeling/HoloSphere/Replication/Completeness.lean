import HoloSphere.Replication.World

/-! # Chosen entries and what is committed

An entry is chosen once a majority has acknowledged the log of its term's leader
beyond it.  Every later leader starts from a log that holds it.  `Settled` ties
the commit positions of the replicas to chosen entries, and the last theorem
compares the commit position of a leader with every position committed so far.
-/

namespace HoloSphere.Replication
open Stamped List
namespace World
variable {ν ε : Type} [Stamped ε]

structure Chosen (voters : List ν) (w : World ν ε) (t i : Nat) : Prop where
  own : ∃ e, (w.record t)[i]? = some e ∧ stamp e = t
  majority : Majority voters (fun v => ∃ m, i < m ∧ w.acked v t m)

theorem Chosen.inside {w : World ν ε} (h : w.Chosen voters t i) : i < (w.record t).length := by
  obtain ⟨e, here, -⟩ := h.own
  exact (List.getElem?_eq_some_iff.mp here).1

theorem Chosen.evolve {w : World ν ε} (h : w.Chosen voters t i) (ev : Evolves w w') :
    w'.Chosen voters t i where
  own := by
    obtain ⟨e, here, same⟩ := h.own
    exact ⟨e, by rw [getElem_of_isPrefix (ev.record t) h.inside, here], same⟩
  majority := h.majority.mono fun v _ ⟨m, below, ack⟩ => ⟨m, below, ev.acked v t m ack⟩

section
variable {w : World ν ε}

theorem Sound.won_of_record (h : w.Sound voters) (pos : 0 < t) (filled : w.record t ≠ []) :
    ∃ c, w.winner t = some c := by
  cases won : w.winner t with
  | none => exact absurd (h.unelected t pos won) filled
  | some c => exact ⟨c, rfl⟩

/-- One round of the completeness argument: a log that beats the log of a voter
    holding the chosen entry holds that entry itself. -/
theorem Sound.chosen_in_ballot (h : w.Sound voters) {t i u : Nat} {c : ν} {log : List ε}
    (chosen : w.Chosen voters t i) (won : w.winner u = some c)
    (coherent : Coherent w.record log) (upToDate : UpToDate (w.ballot u) log)
    (held : (w.record t).take (i + 1) <+: log) (carried : w.Carried t i u) :
    (w.record t).take (i + 1) <+: w.ballot u := by
  have hin := chosen.inside
  have size : ((w.record t).take (i + 1)).length = i + 1 := by
    rw [length_take]
    omega
  have logInside : i < log.length := by
    have := held.length_le
    omega
  have logFilled : log ≠ [] := ne_nil_of_length_pos (by omega)
  have ballotCoherent : Coherent w.record (w.ballot u) :=
    (h.coherent_record u).of_isPrefix (h.ballot_record u c won)
  have late : t ≤ lastStamp log := by
    obtain ⟨e, here, own⟩ := chosen.own
    have there : log[i]? = some e := by
      rw [getElem_of_isPrefix held (by omega), getElem?_take_of_succ, here]
    obtain ⟨_, val⟩ := List.getElem?_eq_some_iff.mp there
    have le := coherent.stamp_le_last h.record_bound logInside
    rw [val, own] at le
    exact le
  rcases upToDate with newer | ⟨level, long⟩
  · have ballotFilled : w.ballot u ≠ [] := by
      intro empty
      rw [empty] at newer
      simp [lastStamp] at newer
    have size' : (w.ballot u).length - 1 < (w.ballot u).length := by
      have := length_pos_iff.mpr ballotFilled
      omega
    have last : lastStamp (w.ballot u) < u := by
      rw [lastStamp_eq size']
      exact h.ballot_bound u c won _ (getElem_mem _)
    have whole := ballotCoherent.whole ballotFilled
    have kept := carried _ (by omega) last (whole.ne_nil ballotFilled)
    rcases Nat.le_total ((w.record t).take (i + 1)).length (w.ballot u).length with short | short
    · exact prefix_of_prefix_length_le kept whole short
    · have part := prefix_of_prefix_length_le whole kept short
      have low : lastStamp (w.ballot u) ≤ t := by
        rw [lastStamp_eq size']
        exact h.record_bound t _ (mem_of_mem_take (part.subset (getElem_mem _)))
      omega
  · have ballotFilled : w.ballot u ≠ [] := ne_nil_of_length_pos (by omega)
    have left := coherent.whole logFilled
    have right := ballotCoherent.whole ballotFilled
    rw [level] at right
    exact held.trans (prefix_of_prefix_length_le left right long)

/-- Leader completeness. -/
theorem Sound.completeness [DecidableEq ν] (h : w.Sound voters) (chosen : w.Chosen voters t i) :
    ∀ u, t < u → ∀ c, w.winner u = some c → (w.record t).take (i + 1) <+: w.ballot u := by
  intro u
  induction u using Nat.strong_induction_on with
  | h u ih =>
    intro later c won
    have carried : w.Carried t i u := by
      intro s above below filled
      obtain ⟨d, wonS⟩ := h.won_of_record (by omega) filled
      exact (ih s below above d wonS).trans (h.ballot_record s d wonS)
    obtain ⟨v, -, ⟨m, below, ack⟩, promise⟩ := chosen.majority.meet (h.elected u c won).2.2
    obtain ⟨log, coherent, upToDate, kept⟩ := promise.seen
    exact h.chosen_in_ballot chosen won coherent upToDate
      (kept t m i ack later below carried) carried

theorem Sound.chosen_in_record [DecidableEq ν] (h : w.Sound voters) (chosen : w.Chosen voters t i)
    (le : t ≤ u) (filled : w.record u ≠ []) :
    (w.record t).take (i + 1) <+: w.record u := by
  rcases Nat.lt_or_eq_of_le le with later | rfl
  · obtain ⟨c, won⟩ := h.won_of_record (by omega) filled
    exact (h.completeness chosen u later c won).trans (h.ballot_record u c won)
  · exact take_prefix _ _

theorem Sound.chosen_agree [DecidableEq ν] (h : w.Sound voters) (fst : w.Chosen voters t i)
    (snd : w.Chosen voters u j) (le : k ≤ i) (le' : k ≤ j) :
    (w.record t)[k]? = (w.record u)[k]? := by
  wlog earlier : t ≤ u generalizing t u i j
  · exact (this snd fst le' le (Nat.le_of_not_le earlier)).symm
  have hin := fst.inside
  have filled : w.record u ≠ [] := ne_nil_of_length_pos (Nat.zero_lt_of_lt snd.inside)
  rw [getElem_of_isPrefix (h.chosen_in_record fst earlier filled) (by rw [length_take]; omega),
    getElem?_take_of_lt (by omega)]

end

/-- The commit positions rest on decisions of leaders, and a leader knows the
    decisions of its own term. -/
structure Settled (voters : List ν) (w : World ν ε) (commit : ν → Nat)
    (decided : Nat → Nat → Prop) : Prop where
  chosen : ∀ t k, decided t k → w.Chosen voters t k
  committed : ∀ n, ∃ t k, decided t k ∧ t ≤ w.term n ∧ commit n ≤ k ∧
    (w.record t).take (commit n + 1) <+: w.log n
  current : ∀ n, w.leads n → ∀ k, decided (w.term n) k → k ≤ commit n

namespace Settled
variable {w : World ν ε} {decided : Nat → Nat → Prop} {term : ν → Nat} {vote : ν → Option ν}
  {leads : ν → Prop} {log : ν → List ε}

/-- The general case: the history grows and no replica loses a committed entry. -/
theorem evolve (h : w.Settled voters commit decided) (ev : Evolves w w')
    (keeps : ∀ n t, (∃ k, decided t k ∧ commit n ≤ k) → t ≤ w.term n →
      (w.record t).take (commit n + 1) <+: w.log n →
      (w.record t).take (commit n + 1) <+: w'.log n)
    (current : ∀ n, w'.leads n → ∀ k, decided (w'.term n) k → k ≤ commit n) :
    w'.Settled voters commit decided where
  chosen t k made := (h.chosen t k made).evolve ev
  committed n := by
    obtain ⟨t, k, made, reached, below, holds⟩ := h.committed n
    have within : commit n + 1 ≤ (w.record t).length := by
      have := (h.chosen t k made).inside
      omega
    refine ⟨t, k, made, reached.trans (ev.term_le n), below, ?_⟩
    rw [take_eq_of_isPrefix (ev.record t) within]
    exact keeps n t ⟨k, made, below⟩ reached holds
  current := current

theorem turn (h : w.Settled voters commit decided) (legal : w.Turns term vote leads) :
    (w.turn term vote leads).Settled voters commit decided := by
  refine h.evolve legal.evolves (fun _ _ _ _ holds => holds) ?_
  intro n leading k made
  obtain ⟨pre, level⟩ := legal.stays n leading
  exact h.current n pre k (level ▸ made)

theorem adopt [DecidableEq ν] (h : w.Settled voters commit decided) (sound : w.Sound voters)
    (legal : w.Adopts log) : (w.adopt log).Settled voters commit decided := by
  refine h.evolve (evolves_adopt w log) ?_ h.current
  rintro n t ⟨k, made, below⟩ reached holds
  show (w.record t).take (commit n + 1) <+: log n
  rcases legal n with same | ⟨-, part, filled, new⟩
  · exact same ▸ holds
  · have kept : (w.record t).take (commit n + 1) <+: w.record (w.term n) :=
      (take_prefix_take_left (by omega)).trans
        (sound.chosen_in_record (h.chosen t k made) reached (part.ne_nil filled))
    exact isPrefix_of_new kept part new holds

theorem acknowledge (h : w.Settled voters commit decided) (extra : ν → Nat → Nat → Prop) :
    (w.acknowledge extra).Settled voters commit decided :=
  h.evolve (evolves_acknowledge extra) (fun _ _ _ _ holds => holds) h.current

/-- Followers that hold a leader's log commit no further than that leader. -/
theorem learn (h : w.Settled voters commit decided)
    (legal : ∀ n, commit' n = commit n ∨ (¬ w.leads n ∧ ∃ l, w.term l ≤ w.term n ∧
      w.log l <+: w.log n ∧ commit' n ≤ commit l)) : w.Settled voters commit' decided where
  chosen := h.chosen
  committed n := by
    rcases legal n with same | ⟨-, l, level, holds, below⟩
    · exact same ▸ h.committed n
    · obtain ⟨t, k, made, reached, within, part⟩ := h.committed l
      refine ⟨t, k, made, reached.trans level, below.trans within, ?_⟩
      exact ((take_prefix_take_left (by omega)).trans part).trans holds
  current n leads := by
    rcases legal n with same | ⟨follows, -⟩
    · exact same ▸ h.current n leads
    · exact absurd leads follows

variable [DecidableEq ν]

theorem elect (h : w.Settled voters commit decided) (sound : w.Sound voters)
    (legal : w.Electable voters n) : (w.elect n).Settled voters commit decided := by
  have empty := sound.unelected _ legal.pos legal.fresh
  refine h.evolve (legal.evolves sound) (fun _ _ _ _ holds => holds) ?_
  intro m leads k made
  by_cases same : m = n
  · subst same
    have hin := (h.chosen _ k made).inside
    rw [show (w.elect m).term m = w.term m from rfl, empty] at hin
    simp at hin
  · have old : w.leads m := by simpa [World.elect, same] using leads
    exact h.current m old k made

theorem extend (h : w.Settled voters commit decided) (sound : w.Sound voters)
    (leads : w.leads n) (ents : List ε) :
    (w.extend n ents).Settled voters commit decided := by
  refine h.evolve (evolves_extend (sound.leader n leads).2) ?_ h.current
  intro m t _ _ holds
  by_cases same : m = n
  · subst same
    simpa [World.extend] using holds.trans (prefix_append _ ents)
  · simpa [World.extend, same] using holds

theorem steps (h : w.Settled voters commit decided) (sound : w.Sound voters)
    (path : Steps voters w w') : w'.Settled voters commit decided := by
  induction path with
  | refl => exact h
  | tail earlier step ih =>
    have between := Steps.sound earlier sound
    cases step with
    | turn legal => exact ih.turn legal
    | adopt legal => exact ih.adopt between legal
    | elect legal => exact ih.elect between legal
    | extend n leads ents own => exact ih.extend between leads ents

/-- A leader commits a chosen position of its own term. -/
theorem decide (h : w.Settled voters commit decided) (sound : w.Sound voters) (leads : w.leads n)
    (chosen : w.Chosen voters (w.term n) k) (up : commit n ≤ k) :
    w.Settled voters (Function.update commit n k)
      (fun t j => decided t j ∨ (t = w.term n ∧ j = k)) where
  chosen := by
    rintro t j (made | ⟨rfl, rfl⟩)
    · exact h.chosen t j made
    · exact chosen
  committed m := by
    by_cases same : m = n
    · subst same
      refine ⟨w.term m, k, .inr ⟨rfl, rfl⟩, le_rfl, by simp, ?_⟩
      rw [(sound.leader m leads).2]
      exact take_prefix _ _
    · obtain ⟨t, j, made, rest⟩ := h.committed m
      exact ⟨t, j, .inl made, by simpa [same] using rest⟩
  current := by
    rintro m leading j made
    by_cases same : m = n
    · subst same
      rw [Function.update_self]
      rcases made with old | ⟨-, rfl⟩
      · exact (h.current m leading j old).trans up
      · exact le_rfl
    · rw [Function.update_of_ne same]
      rcases made with old | ⟨level, -⟩
      · exact h.current m leading j old
      · exact absurd (sound.leader_unique leading leads level) same

/-- A leader whose term no voter has left, and whose commit position holds an entry of
    its own term, is behind no decision. -/
theorem le_commit (h : w.Settled voters commit decided) (sound : w.Sound voters) (leads : w.leads n)
    (newest : ∀ v ∈ voters, w.term v ≤ w.term n) (here : (w.log n)[commit n]? = some e)
    (own : stamp e = w.term n) (made : decided t k) : k ≤ commit n := by
  have chosen := h.chosen t k made
  rcases Nat.lt_trichotomy t (w.term n) with earlier | level | later
  · obtain ⟨won, same⟩ := sound.leader n leads
    have complete := sound.completeness chosen (w.term n) earlier n won
    have ballot := sound.ballot_record (w.term n) n won
    rw [same] at ballot
    by_contra behind
    have size := complete.length_le
    rw [length_take] at size
    have hin : commit n < (w.ballot (w.term n)).length := by
      have := chosen.inside
      omega
    rw [getElem_of_isPrefix ballot hin] at here
    have older := sound.ballot_bound (w.term n) n won e (mem_of_getElem? here)
    omega
  · exact h.current n leads k (level ▸ made)
  · obtain ⟨v, mem, m, -, ack⟩ := chosen.majority.exists_mem
    have reached := (sound.retained v t m ack).1
    have := newest v mem
    omega

/-- Replicas agree on what both have committed, also across a history. -/
theorem agree (h : w.Settled voters commit decided) (h' : w'.Settled voters commit' decided')
    (ev : Evolves w w') (sound : w'.Sound voters) (le : k ≤ commit m) (le' : k ≤ commit' n) :
    (w.log m)[k]? = (w'.log n)[k]? := by
  obtain ⟨t, i, made, -, below, holds⟩ := h.committed m
  obtain ⟨u, j, made', -, below', holds'⟩ := h'.committed n
  have fst := h.chosen t i made
  have snd := h'.chosen u j made'
  have hin := fst.inside
  have hin' := snd.inside
  rw [getElem_of_isPrefix holds (by rw [length_take]; omega), getElem?_take_of_lt (by omega),
    getElem_of_isPrefix holds' (by rw [length_take]; omega), getElem?_take_of_lt (by omega),
    ← getElem_of_isPrefix (ev.record t) (by omega)]
  exact sound.chosen_agree (fst.evolve ev) snd (by omega) (by omega)

omit [DecidableEq ν] in
theorem genesis [Nonempty ν] (zero : stamp root = 0) (pos : voters ≠ []) :
    (World.genesis root : World ν ε).Settled voters (fun _ => 0) (fun t k => t = 0 ∧ k = 0) where
  chosen := by
    rintro t k ⟨rfl, rfl⟩
    refine ⟨⟨root, by simp [World.genesis], zero⟩, voters, List.Subperm.refl _, ?_, ?_⟩
    · have := length_pos_iff.mpr pos
      omega
    · exact fun v _ => ⟨1, by omega, rfl, rfl⟩
  committed n := ⟨0, 0, ⟨rfl, rfl⟩, le_rfl, le_rfl, by simp [World.genesis]⟩
  current n leads := leads.elim

end Settled
end World
end HoloSphere.Replication
