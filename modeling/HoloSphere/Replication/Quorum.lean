import Mathlib.Data.List.Perm.Subperm

/-! # Majorities and votes

Quorums over a list of voters, without reference to any protocol.  A majority is
a part of the list with more than half of the voters; any two share a voter, and
the order in which the voters are listed does not matter.  A voter casts one vote
in a term, and a majority of votes settles who can win it.
-/

namespace HoloSphere.Replication
variable {ν : Type}

/-- More than half of the voters satisfy `p`. -/
def Majority (voters : List ν) (p : ν → Prop) : Prop :=
  ∃ quorum : List ν, quorum.Subperm voters ∧ voters.length / 2 + 1 ≤ quorum.length ∧
    ∀ v ∈ quorum, p v

namespace Majority

theorem mono {p q : ν → Prop} (h : Majority voters p) (weaken : ∀ v ∈ voters, p v → q v) :
    Majority voters q := by
  obtain ⟨quorum, sub, large, holds⟩ := h
  exact ⟨quorum, sub, large, fun v mem => weaken v (sub.subset mem) (holds v mem)⟩

theorem of_filter {voters : List ν} (p : ν → Bool)
    (large : voters.length / 2 + 1 ≤ (voters.filter p).length) :
    Majority voters (fun v => p v = true) :=
  ⟨voters.filter p, List.filter_sublist.subperm, large, fun _ mem => (List.mem_filter.mp mem).2⟩

theorem perm {p : ν → Prop} (h : Majority voters p) (same : voters.Perm other) :
    Majority other p := by
  obtain ⟨quorum, sub, large, holds⟩ := h
  exact ⟨quorum, sub.trans same.subperm, by rwa [← same.length_eq], holds⟩

theorem exists_mem {p : ν → Prop} (h : Majority voters p) : ∃ v ∈ voters, p v := by
  obtain ⟨quorum, sub, large, holds⟩ := h
  have nonempty : quorum ≠ [] := List.ne_nil_of_length_pos (by omega)
  exact ⟨quorum.head nonempty, sub.subset (List.head_mem nonempty),
    holds _ (List.head_mem nonempty)⟩

private theorem disjoint_length [DecidableEq ν] {left right : List ν} (hl : left.Subperm voters)
    (hr : right.Subperm voters) (apart : ∀ v ∈ left, v ∉ right) :
    left.length + right.length ≤ voters.length := by
  have countLeft : left.length ≤ voters.countP (· ∈ left) := by
    calc left.length = left.countP (· ∈ left) :=
          (List.countP_eq_length.mpr (by simp)).symm
      _ ≤ voters.countP (· ∈ left) := hl.countP_le _
  have countRight : right.length ≤ voters.countP (fun v => ¬ decide (v ∈ left) = true) := by
    calc right.length = right.countP (fun v => ¬ decide (v ∈ left) = true) := by
          refine (List.countP_eq_length.mpr ?_).symm
          intro v mem
          have outside : v ∉ left := fun hin => apart v hin mem
          simp [outside]
      _ ≤ voters.countP (fun v => ¬ decide (v ∈ left) = true) := hr.countP_le _
  have total := List.length_eq_countP_add_countP (fun v => decide (v ∈ left)) (l := voters)
  omega

/-- Two majorities of the same voters meet. -/
theorem meet [DecidableEq ν] {p q : ν → Prop} (hp : Majority voters p) (hq : Majority voters q) :
    ∃ v ∈ voters, p v ∧ q v := by
  obtain ⟨left, subLeft, largeLeft, holdsLeft⟩ := hp
  obtain ⟨right, subRight, largeRight, holdsRight⟩ := hq
  by_contra none
  have apart : ∀ v ∈ left, v ∉ right := by
    intro v inLeft inRight
    exact none ⟨v, subLeft.subset inLeft, holdsLeft v inLeft, holdsRight v inRight⟩
  have bound := disjoint_length subLeft subRight apart
  omega

end Majority

/-- A term and a vote may be followed by another pair: a newer term, or the same
    term with the vote kept or cast. -/
def Advances (term : Nat) (vote : Option ν) (term' : Nat) (vote' : Option ν) : Prop :=
  term < term' ∨ (term = term' ∧ (vote = none ∨ vote = vote'))

namespace Advances

theorem refl (term : Nat) (vote : Option ν) : Advances term vote term vote := .inr ⟨rfl, .inr rfl⟩

variable {v : Option ν}

theorem le (h : Advances t v t' v') : t ≤ t' := by
  rcases h with lt | ⟨eq, -⟩ <;> omega

theorem trans (fst : Advances t v t' v') (snd : Advances t' v' t'' v'') : Advances t v t'' v'' := by
  rcases fst with lt | ⟨rfl, free | rfl⟩
  · exact .inl (Nat.lt_of_lt_of_le lt snd.le)
  · rcases snd with lt | ⟨rfl, -⟩
    · exact .inl lt
    · exact .inr ⟨rfl, .inl free⟩
  · exact snd

end Advances

/-- A term and vote that can no longer support anyone but `c` in term `t`. -/
def Holds (t : Nat) (c : ν) (term : Nat) (vote : Option ν) : Prop :=
  t < term ∨ (t = term ∧ vote = some c)

theorem Holds.advance {c : ν} (h : Holds t c term vote) (forward : Advances term vote term' vote') :
    Holds t c term' vote' := by
  rcases h with past | ⟨rfl, voted⟩
  · exact .inl (Nat.lt_of_lt_of_le past forward.le)
  · rcases forward with raised | ⟨level, free | kept⟩
    · exact .inl raised
    · rw [voted] at free
      cases free
    · exact .inr ⟨level, kept.symm.trans voted⟩

/-- Whoever gathers a majority in a term is its winner, if it has one. -/
theorem Majority.winner_eq [DecidableEq ν] {c other : ν} {term : ν → Nat} {vote : ν → Option ν}
    (votes : Majority voters (fun v => term v = t ∧ vote v = some c))
    (pledged : Majority voters (fun v => Holds t other (term v) (vote v))) : other = c := by
  obtain ⟨v, -, ⟨level, voted⟩, past | ⟨-, vote⟩⟩ := votes.meet pledged
  · omega
  · rw [voted] at vote
    exact (Option.some.inj vote).symm

end HoloSphere.Replication
