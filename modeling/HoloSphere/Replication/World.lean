import HoloSphere.Replication.Log
import HoloSphere.Replication.Quorum

/-! # Terms, votes and logs of a replicated group

The state of a group of replicas together with its history: the log of each
term's leader, the log with which that leader was elected, and which replica has
acknowledged how much of which leader's log.  Five kinds of change are allowed,
and `Sound` holds along all of them.  What an acknowledgement promises is stated
conditionally: the acknowledged prefix stays in the replica's log as long as every
later leader's log keeps it.  That the later leaders do keep it is the subject of
`Completeness`, not an assumption here.
-/

namespace HoloSphere.Replication
open Stamped Function List

structure World (ν ε : Type) where
  term : ν → Nat
  vote : ν → Option ν
  leads : ν → Prop
  log : ν → List ε
  /-- The log of the leader of each term, as far as it has been written. -/
  record : Nat → List ε
  /-- The log with which the leader of each term was elected. -/
  ballot : Nat → List ε
  winner : Nat → Option ν
  acked : ν → Nat → Nat → Prop

namespace World
variable {ν ε : Type}

/-- How the history of a run grows. -/
structure Evolves (w w' : World ν ε) : Prop where
  term_le : ∀ n, w.term n ≤ w'.term n
  record : ∀ t, w.record t <+: w'.record t
  winner : ∀ t c, w.winner t = some c → w'.winner t = some c
  ballot : ∀ t c, w.winner t = some c → w'.ballot t = w.ballot t
  acked : ∀ v t m, w.acked v t m → w'.acked v t m

namespace Evolves

theorem refl (w : World ν ε) : Evolves w w :=
  ⟨fun _ => le_rfl, fun _ => prefix_rfl, fun _ _ h => h, fun _ _ _ => rfl, fun _ _ _ h => h⟩

theorem trans (fst : Evolves w w') (snd : Evolves w' w'') : Evolves w w'' where
  term_le n := (fst.term_le n).trans (snd.term_le n)
  record t := (fst.record t).trans (snd.record t)
  winner t c h := snd.winner t c (fst.winner t c h)
  ballot t c h := (snd.ballot t c (fst.winner t c h)).trans (fst.ballot t c h)
  acked v t m h := snd.acked v t m (fst.acked v t m h)

end Evolves

/-- Every leader between the terms `t` and `bound` keeps the entries of `t`'s leader
    up to position `i`. -/
def Carried (w : World ν ε) (t i bound : Nat) : Prop :=
  ∀ s, t < s → s < bound → w.record s ≠ [] → (w.record t).take (i + 1) <+: w.record s

variable {w : World ν ε}

theorem Carried.shorten (h : w.Carried t i bound) (le : bound' ≤ bound) : w.Carried t i bound' :=
  fun s above below => h s above (by omega)

variable {term : ν → Nat} {vote : ν → Option ν} {leads : ν → Prop} {log : ν → List ε}
section

/-- Replicas may move on to newer terms, cast their votes and stop leading. -/
structure Turns (w : World ν ε) (term : ν → Nat) (vote : ν → Option ν) (leads : ν → Prop) :
    Prop where
  advances : ∀ n, Advances (w.term n) (w.vote n) (term n) (vote n)
  stays : ∀ n, leads n → w.leads n ∧ w.term n = term n

def turn (term : ν → Nat) (vote : ν → Option ν) (leads : ν → Prop) (w : World ν ε) : World ν ε :=
  { w with term := term, vote := vote, leads := leads }

/-- Followers may take over any part of their leader's log that they do not hold. -/
def Adopts (w : World ν ε) (log : ν → List ε) : Prop :=
  ∀ n, log n = w.log n ∨ (¬ w.leads n ∧ log n <+: w.record (w.term n) ∧
    log n ≠ [] ∧ ¬ log n <+: w.log n)

def adopt (log : ν → List ε) (w : World ν ε) : World ν ε := { w with log := log }

/-- Replicas may acknowledge leading parts of the log of their term's leader. -/
def Acknowledges (w : World ν ε) (extra : ν → Nat → Nat → Prop) : Prop :=
  ∀ v t m, extra v t m → t = w.term v ∧ m ≤ (w.record t).length ∧ (w.record t).take m <+: w.log v

def acknowledge (extra : ν → Nat → Nat → Prop) (w : World ν ε) : World ν ε :=
  { w with acked := fun v t m => w.acked v t m ∨ extra v t m }

theorem Turns.evolves (legal : w.Turns term vote leads) :
    Evolves w (w.turn term vote leads) :=
  { Evolves.refl w with term_le := fun n => (legal.advances n).le }

theorem evolves_adopt (w : World ν ε) (log : ν → List ε) : Evolves w (w.adopt log) :=
  { Evolves.refl w with }

theorem evolves_acknowledge (extra : ν → Nat → Nat → Prop) : Evolves w (w.acknowledge extra) :=
  { Evolves.refl w with acked := fun _ _ _ h => .inl h }

variable [DecidableEq ν]

/-- Become the leader of the present term. -/
def elect (n : ν) (w : World ν ε) : World ν ε :=
  { w with
    leads := update w.leads n True
    record := update w.record (w.term n) (w.log n)
    ballot := update w.ballot (w.term n) (w.log n)
    winner := update w.winner (w.term n) (some n) }

/-- A leader writes entries of its own. -/
def extend (n : ν) (ents : List ε) (w : World ν ε) : World ν ε :=
  { w with
    log := update w.log n (w.log n ++ ents)
    record := update w.record (w.term n) (w.log n ++ ents) }

variable {w : World ν ε}

theorem evolves_elect (empty : w.record (w.term n) = []) (fresh : w.winner (w.term n) = none) :
    Evolves w (w.elect n) where
  term_le _ := le_rfl
  record t := by
    by_cases same : t = w.term n
    · subst same
      simp [empty]
    · simp [elect, same]
  winner t c won := by
    by_cases same : t = w.term n
    · subst same
      rw [fresh] at won
      cases won
    · simpa [elect, same] using won
  ballot t c won := by
    have different : t ≠ w.term n := by
      rintro rfl
      rw [fresh] at won
      cases won
    simp [elect, different]
  acked _ _ _ h := h

theorem evolves_extend (own : w.record (w.term n) = w.log n) : Evolves w (w.extend n ents) where
  term_le _ := le_rfl
  record t := by
    by_cases same : t = w.term n
    · subst same
      simp [extend, own]
    · simp [extend, same]
  winner _ _ h := h
  ballot _ _ _ := rfl
  acked _ _ _ h := h

theorem carried_elect (empty : w.record (w.term n) = []) (within : i < (w.record s).length)
    (carried : (w.elect n).Carried s i bound) :
    w.Carried s i bound := by
  intro u above below nonempty
  have apart : ∀ t, w.record t ≠ [] → t ≠ w.term n := fun t filled same => filled (same ▸ empty)
  have sourceNe := apart s (ne_nil_of_length_pos (by omega))
  have targetNe := apart u nonempty
  have kept := carried u above below
  simp only [elect, update_of_ne sourceNe, update_of_ne targetNe] at kept
  exact kept nonempty

end

variable [Stamped ε]

/-- What a voter of `t`'s winner `c` can never take back. -/
structure Backed (w : World ν ε) (t : Nat) (c v : ν) : Prop where
  held : Holds t c (w.term v) (w.vote v)
  seen : ∃ log, Coherent w.record log ∧ UpToDate (w.ballot t) log ∧
    ∀ s m i, w.acked v s m → s < t → i < m → w.Carried s i t → (w.record s).take (i + 1) <+: log

structure Sound (voters : List ν) (w : World ν ε) : Prop where
  coherent_log : ∀ n, Coherent w.record (w.log n)
  coherent_record : ∀ t, Coherent w.record (w.record t)
  log_bound : ∀ n, ∀ e ∈ w.log n, stamp e ≤ w.term n
  record_bound : ∀ t, ∀ e ∈ w.record t, stamp e ≤ t
  inhabited : ∀ n, w.log n ≠ []
  leader : ∀ n, w.leads n → w.winner (w.term n) = some n ∧ w.record (w.term n) = w.log n
  unelected : ∀ t, 0 < t → w.winner t = none → w.record t = []
  ballot_bound : ∀ t c, w.winner t = some c → ∀ e ∈ w.ballot t, stamp e < t
  ballot_record : ∀ t c, w.winner t = some c → w.ballot t <+: w.record t
  elected : ∀ t c, w.winner t = some c → 0 < t ∧ t ≤ w.term c ∧ Majority voters (w.Backed t c)
  retained : ∀ v t m, w.acked v t m → t ≤ w.term v ∧ m ≤ (w.record t).length ∧
    ∀ i < m, w.Carried t i (w.term v + 1) → (w.record t).take (i + 1) <+: w.log v

/-- A winner and the promises to it outlive a change that keeps the history, as long as
    nothing that was dropped before the change is carried after it. -/
theorem Sound.elected_grow (sound : w.Sound voters) (ev : Evolves w w') (won : w.winner t = some c)
    (held : ∀ v, Holds t c (w.term v) (w.vote v) → Holds t c (w'.term v) (w'.vote v))
    (acked : ∀ v, Holds t c (w.term v) (w.vote v) → ∀ s m, w'.acked v s m → s < t → w.acked v s m)
    (back : ∀ s i bound, i < (w.record s).length → w'.Carried s i bound → w.Carried s i bound) :
    0 < t ∧ t ≤ w'.term c ∧ Majority voters (w'.Backed t c) := by
  obtain ⟨pos, reached, backed⟩ := sound.elected t c won
  refine ⟨pos, reached.trans (ev.term_le c), backed.mono fun v _ promise => ?_⟩
  obtain ⟨log, coherent, upToDate, kept⟩ := promise.seen
  refine ⟨held v promise.held, log, coherent.grow ev.record, ev.ballot t c won ▸ upToDate, ?_⟩
  intro s m i ack earlier hin carried
  have oldAck := acked v promise.held s m ack earlier
  have within : i < (w.record s).length := lt_of_lt_of_le hin (sound.retained v s m oldAck).2.1
  rw [take_eq_of_isPrefix (ev.record s) within]
  exact kept s m i oldAck earlier hin (back s i t within carried)

/-- The same for an acknowledgement of a replica that does not lose entries. -/
theorem Sound.retained_grow (sound : w.Sound voters) (ev : Evolves w w')
    (ack : w.acked v t m) (log : w.log v <+: w'.log v)
    (back : ∀ s i bound, i < (w.record s).length → w'.Carried s i bound → w.Carried s i bound) :
    t ≤ w'.term v ∧ m ≤ (w'.record t).length ∧
      ∀ i < m, w'.Carried t i (w'.term v + 1) → (w'.record t).take (i + 1) <+: w'.log v := by
  obtain ⟨reached, long, kept⟩ := sound.retained v t m ack
  refine ⟨reached.trans (ev.term_le v), long.trans (ev.record t).length_le, ?_⟩
  intro i hin carried
  have within : i < (w.record t).length := lt_of_lt_of_le hin long
  rw [take_eq_of_isPrefix (ev.record t) within]
  have older := (back t i _ within carried).shorten (Nat.succ_le_succ (ev.term_le v))
  exact (kept i hin older).trans log

theorem Sound.leader_unique (h : w.Sound voters) (ha : w.leads a) (hb : w.leads b)
    (same : w.term a = w.term b) : a = b := by
  have left := (h.leader a ha).1
  have right := (h.leader b hb).1
  rw [same, right] at left
  exact (Option.some.inj left).symm

/-- A candidate that gathers a majority in a term it has just entered is the first
    to win that term. -/
theorem Sound.unwon [DecidableEq ν] {w w' : World ν ε} (pre : w.Sound voters)
    (after : w'.Sound voters) (same : w'.winner t = w.winner t) (low : w.term c < t)
    (votes : Majority voters (fun v => w'.term v = t ∧ w'.vote v = some c)) :
    w'.winner t = none := by
  cases won : w'.winner t with
  | none => rfl
  | some other =>
    obtain ⟨-, -, backed⟩ := after.elected t other won
    obtain rfl := votes.winner_eq (backed.mono fun v _ promise => promise.held)
    have high := (pre.elected t other (same ▸ won)).2.1
    omega

/-- Before a term has a leader no log holds an entry of that term. -/
theorem Sound.stamp_ne (h : w.Sound voters) (empty : w.record t = [])
    (mem : e ∈ w.log n) : stamp e ≠ t := by
  intro same
  obtain ⟨k, hin, rfl⟩ := getElem_of_mem mem
  have part := h.coherent_log n k hin
  rw [same, empty, prefix_nil, take_eq_nil_iff] at part
  rcases part with absurd | absurd
  · omega
  · exact h.inhabited n absurd

section
variable {w : World ν ε}

theorem Sound.turn (h : w.Sound voters) (legal : w.Turns term vote leads) :
    (w.turn term vote leads).Sound voters := by
  have ev := legal.evolves
  refine
    { h with
      log_bound := fun m e mem => (h.log_bound m e mem).trans (ev.term_le m)
      leader := ?_
      elected := ?_
      retained := fun v s m ack => h.retained_grow ev ack prefix_rfl fun _ _ _ _ c => c }
  · intro m leading
    obtain ⟨pre, level⟩ := legal.stays m leading
    have facts := h.leader m pre
    rw [level] at facts
    exact facts
  · exact fun s c won => h.elected_grow ev won (fun v held => held.advance (legal.advances v))
      (fun _ _ _ _ ack _ => ack) fun _ _ _ _ carried => carried

theorem Sound.adopt (h : w.Sound voters) (legal : w.Adopts log) : (w.adopt log).Sound voters := by
  have fits : ∀ n, Coherent w.record (log n) ∧ (∀ e ∈ log n, stamp e ≤ w.term n) ∧ log n ≠ [] ∧
      (w.leads n → log n = w.log n) := by
    intro n
    rcases legal n with same | ⟨follows, part, filled, -⟩
    · rw [same]
      exact ⟨h.coherent_log n, h.log_bound n, h.inhabited n, fun _ => rfl⟩
    · exact ⟨(h.coherent_record _).of_isPrefix part,
        fun e mem => h.record_bound _ e (part.subset mem), filled, fun led => absurd led follows⟩
  refine
    { h with
      coherent_log := fun n => (fits n).1
      log_bound := fun n => (fits n).2.1
      inhabited := fun n => (fits n).2.2.1
      leader := ?_
      elected := ?_
      retained := ?_ }
  · intro n leads
    have facts := h.leader n leads
    rw [← (fits n).2.2.2 leads] at facts
    exact facts
  · intro t c won
    obtain ⟨above, reached, backed⟩ := h.elected t c won
    exact ⟨above, reached, backed.mono fun v _ promise => ⟨promise.held, promise.seen⟩⟩
  · intro v t m ack
    obtain ⟨reached, long, kept⟩ := h.retained v t m ack
    refine ⟨reached, long, ?_⟩
    intro i hin carried
    have old := kept i hin carried
    show (w.record t).take (i + 1) <+: log v
    rcases legal v with same | ⟨-, part, filled, new⟩
    · exact same ▸ old
    · have held : (w.record t).take (i + 1) <+: w.record (w.term v) := by
        rcases Nat.lt_or_eq_of_le reached with earlier | level
        · exact carried (w.term v) earlier (Nat.lt_succ_self _) (part.ne_nil filled)
        · rw [level]
          exact take_prefix _ _
      exact isPrefix_of_new held part new old

theorem Sound.acknowledge (h : w.Sound voters) (legal : w.Acknowledges extra) :
    (w.acknowledge extra).Sound voters := by
  refine { h with elected := ?_, retained := ?_ }
  · intro t c won
    refine h.elected_grow (evolves_acknowledge extra) won (fun _ held => held) ?_
      fun _ _ _ _ carried => carried
    rintro v held s m (old | new) earlier
    · exact old
    · have level := (legal v s m new).1
      rcases held with past | ⟨present, -⟩ <;> omega
  · intro v t m ack
    rcases ack with old | new
    · exact h.retained v t m old
    · obtain ⟨level, long, holds⟩ := legal v t m new
      refine ⟨level.le, long, fun i hin _ => ?_⟩
      exact (take_prefix_take_left (by omega)).trans holds

variable [DecidableEq ν]

/-- Those who vote for a candidate promise it what they have acknowledged before. -/
theorem Sound.backed_elect (h : w.Sound voters) (empty : w.record (w.term n) = [])
    (ev : Evolves w (w.elect n)) (atTerm : w.term v = w.term n) (voted : w.vote v = some n)
    (upToDate : UpToDate (w.log n) (w.log v)) : (w.elect n).Backed (w.term n) n v := by
  refine ⟨.inr ⟨atTerm.symm, voted⟩, w.log v, (h.coherent_log v).grow ev.record, ?_, ?_⟩
  · simpa [World.elect] using upToDate
  · intro s m i ack earlier hin carried
    obtain ⟨-, long, kept⟩ := h.retained v s m ack
    have within : i < (w.record s).length := lt_of_lt_of_le hin long
    rw [take_eq_of_isPrefix (ev.record s) within]
    refine kept i hin ?_
    intro u above below nonempty
    have lower : u < w.term n := by
      have ne : u ≠ w.term n := fun equal => nonempty (equal ▸ empty)
      omega
    exact carried_elect empty within carried u above lower nonempty

/-- A majority supports a candidate that is the first to win its term. -/
structure Electable (voters : List ν) (w : World ν ε) (n : ν) : Prop where
  pos : 0 < w.term n
  fresh : w.winner (w.term n) = none
  votes : Majority voters
    (fun v => w.term v = w.term n ∧ w.vote v = some n ∧ UpToDate (w.log n) (w.log v))

theorem Electable.evolves (legal : w.Electable voters n) (h : w.Sound voters) :
    Evolves w (w.elect n) :=
  evolves_elect (h.unelected _ legal.pos legal.fresh) legal.fresh

theorem Sound.elect (h : w.Sound voters) (legal : w.Electable voters n) :
    (w.elect n).Sound voters := by
  have fresh := legal.fresh
  have empty := h.unelected _ legal.pos fresh
  have ev := legal.evolves h
  have back : ∀ s i bound, i < (w.record s).length → (w.elect n).Carried s i bound →
      w.Carried s i bound := fun _ _ _ within => carried_elect empty within
  refine
    { coherent_log := fun m => (h.coherent_log m).grow ev.record
      coherent_record := ?_
      log_bound := h.log_bound
      record_bound := ?_
      inhabited := h.inhabited
      leader := ?_
      unelected := ?_
      ballot_bound := ?_
      ballot_record := ?_
      elected := ?_
      retained := fun v s m ack => h.retained_grow ev ack prefix_rfl back }
  · exact (forall_update_iff w.record fun _ log => Coherent (w.elect n).record log).mpr
      ⟨(h.coherent_log n).grow ev.record, fun t _ => (h.coherent_record t).grow ev.record⟩
  · exact (forall_update_iff w.record fun t log => ∀ e ∈ log, stamp e ≤ t).mpr
      ⟨h.log_bound n, fun t _ => h.record_bound t⟩
  · intro m leads
    by_cases same : m = n
    · subst same
      simp [World.elect]
    · have old : w.leads m := by simpa [World.elect, same] using leads
      obtain ⟨won, own⟩ := h.leader m old
      have different : w.term m ≠ w.term n := by
        intro equal
        rw [equal, fresh] at won
        cases won
      simpa [World.elect, different] using ⟨won, own⟩
  · intro t above none
    by_cases same : t = w.term n
    · simp [World.elect, same] at none
    · simp only [World.elect, update_of_ne same] at none ⊢
      exact h.unelected t above none
  · intro t c won
    by_cases same : t = w.term n
    · subst same
      intro e mem
      have own : e ∈ w.log n := by simpa [World.elect] using mem
      exact lt_of_le_of_ne (h.log_bound n e own) (h.stamp_ne empty own)
    · simp only [World.elect, update_of_ne same] at won ⊢
      exact h.ballot_bound t c won
  · intro t c won
    by_cases same : t = w.term n
    · simp [World.elect, same]
    · simp only [World.elect, update_of_ne same] at won ⊢
      exact h.ballot_record t c won
  · intro t c won
    by_cases same : t = w.term n
    · subst same
      have winner : n = c := by simpa [World.elect] using won
      subst winner
      refine ⟨legal.pos, le_rfl, legal.votes.mono ?_⟩
      rintro v - ⟨atTerm, voted, upToDate⟩
      exact h.backed_elect empty ev atTerm voted upToDate
    · have old : w.winner t = some c := by simpa [World.elect, same] using won
      exact h.elected_grow ev old (fun _ held => held) (fun _ _ _ _ ack _ => ack) back

/-- Entries of the leader's own term cannot be part of what an older leader wrote. -/
theorem Sound.carried_extend (h : w.Sound voters) (leads : w.leads n)
    (own : ∀ e ∈ ents, stamp e = w.term n) (within : i < (w.record s).length)
    (carried : (w.extend n ents).Carried s i bound) :
    w.Carried s i bound := by
  intro u above below nonempty
  have ev : Evolves w (w.extend n ents) := evolves_extend (h.leader n leads).2
  have kept := carried u above below ((ev.record u).ne_nil nonempty)
  rw [take_eq_of_isPrefix (n := i + 1) (ev.record s) within] at kept
  refine prefix_of_prefix_length_le kept (ev.record u) ?_
  by_contra long
  rw [Nat.not_le] at long
  have level : u = w.term n := by
    by_contra different
    have same : (w.extend n ents).record u = w.record u := by
      simp [World.extend, different]
    rw [same] at kept
    have := kept.length_le
    omega
  subst level
  have grown : (w.extend n ents).record (w.term n) = w.record (w.term n) ++ ents := by
    simp [World.extend, (h.leader n leads).2]
  rw [grown] at kept
  obtain ⟨rest, split⟩ := kept
  have mem : ∃ e ∈ ents, e ∈ w.record s := by
    have hin : (w.record (w.term n)).length < (w.record (w.term n) ++ ents).length := by
      rw [← split, length_append]
      omega
    have nonemptyEntries : 0 < ents.length := by
      rw [length_append] at hin
      omega
    refine ⟨ents[0], getElem_mem _, mem_of_mem_take (i := i + 1) ?_⟩
    have here : (w.record (w.term n) ++ ents)[(w.record (w.term n)).length]? = some ents[0] := by
      simp [nonemptyEntries]
    rw [← split, getElem?_append_left long] at here
    exact mem_of_getElem? here
  obtain ⟨e, inEntries, inRecord⟩ := mem
  have low := h.record_bound s e inRecord
  rw [own e inEntries] at low
  omega

theorem Sound.coherent_extend (h : w.Sound voters) (ev : Evolves w (w.extend n ents))
    (own : ∀ e ∈ ents, stamp e = w.term n) :
    Coherent (w.extend n ents).record (w.log n ++ ents) := by
  intro k hin
  by_cases old : k < (w.log n).length
  · have part := (h.coherent_log n).grow ev.record k old
    rwa [take_append_of_le_length (by omega), getElem_append_left old]
  · have mem : (w.log n ++ ents)[k] ∈ ents := by
      rw [getElem_append_right (by omega)]
      exact getElem_mem _
    rw [own _ mem]
    simpa [World.extend] using take_prefix (k + 1) (w.log n ++ ents)

theorem Sound.extend (h : w.Sound voters) (leads : w.leads n)
    (own : ∀ e ∈ ents, stamp e = w.term n) : (w.extend n ents).Sound voters := by
  obtain ⟨won, same⟩ := h.leader n leads
  have ev : Evolves w (w.extend n ents) := evolves_extend same
  have back : ∀ s i bound, i < (w.record s).length → (w.extend n ents).Carried s i bound →
      w.Carried s i bound := fun _ _ _ within => h.carried_extend leads own within
  have coherent := h.coherent_extend ev own
  have bound : ∀ e ∈ w.log n ++ ents, stamp e ≤ w.term n := by
    intro e mem
    rcases mem_append.mp mem with old | new
    · exact h.log_bound n e old
    · exact (own e new).le
  refine
    { coherent_log := ?_
      coherent_record := ?_
      log_bound := ?_
      record_bound := ?_
      inhabited := ?_
      leader := ?_
      unelected := ?_
      ballot_bound := h.ballot_bound
      ballot_record := fun t c won => (h.ballot_record t c won).trans (ev.record t)
      elected := fun t c won =>
        h.elected_grow ev won (fun _ held => held) (fun _ _ _ _ ack _ => ack) back
      retained := ?_ }
  · exact (forall_update_iff w.log fun _ log =>
      Coherent (w.extend n ents).record log).mpr
        ⟨coherent, fun m _ => (h.coherent_log m).grow ev.record⟩
  · exact (forall_update_iff w.record fun _ log =>
      Coherent (w.extend n ents).record log).mpr
        ⟨coherent, fun t _ => (h.coherent_record t).grow ev.record⟩
  · exact (forall_update_iff w.log fun m log => ∀ e ∈ log, stamp e ≤ w.term m).mpr
      ⟨bound, fun m _ => h.log_bound m⟩
  · exact (forall_update_iff w.record fun t log => ∀ e ∈ log, stamp e ≤ t).mpr
      ⟨bound, fun t _ => h.record_bound t⟩
  · exact (forall_update_iff w.log fun _ log => log ≠ []).mpr
      ⟨append_ne_nil_of_left_ne_nil (h.inhabited n) ents, fun m _ => h.inhabited m⟩
  · intro m leading
    by_cases equal : m = n
    · subst equal
      simpa [World.extend] using won
    · have different : w.term m ≠ w.term n :=
        fun level => equal (h.leader_unique leading leads level)
      simpa [World.extend, equal, different] using h.leader m leading
  · intro t above none
    have different : t ≠ w.term n := by
      rintro rfl
      rw [show (w.extend n ents).winner (w.term n) = w.winner (w.term n) from rfl, won] at none
      cases none
    simpa [World.extend, different] using h.unelected t above none
  · intro v t m ack
    refine h.retained_grow ev ack ?_ back
    by_cases equal : v = n
    · subst equal
      simp [World.extend]
    · simp [World.extend, equal]

end

section
variable [DecidableEq ν]

/-- The changes a group may make apart from acknowledging, with their conditions. -/
inductive Step (voters : List ν) : World ν ε → World ν ε → Prop where
  | turn {w : World ν ε} {term vote leads} (legal : w.Turns term vote leads) :
      Step voters w (w.turn term vote leads)
  | adopt {w : World ν ε} {log} (legal : w.Adopts log) : Step voters w (w.adopt log)
  | elect {w : World ν ε} (legal : w.Electable voters n) : Step voters w (w.elect n)
  | extend {w : World ν ε} (n : ν) (leads : w.leads n) (ents : List ε)
      (own : ∀ e ∈ ents, stamp e = w.term n) :
      Step voters w (w.extend n ents)

theorem Step.sound {w w' : World ν ε} (step : Step voters w w') (h : w.Sound voters) :
    w'.Sound voters := by
  cases step with
  | turn legal => exact h.turn legal
  | adopt legal => exact h.adopt legal
  | elect legal => exact h.elect legal
  | extend n leads ents own => exact h.extend leads own

theorem Step.evolves {w w' : World ν ε} (step : Step voters w w') (h : w.Sound voters) :
    Evolves w w' := by
  cases step with
  | turn legal => exact legal.evolves
  | adopt legal => exact evolves_adopt w _
  | elect legal => exact legal.evolves h
  | extend n leads ents own => exact evolves_extend (h.leader n leads).2

theorem Step.acked {w w' : World ν ε} (step : Step voters w w') : w'.acked = w.acked := by
  cases step with
  | turn | adopt | elect | extend => rfl

/-- Any number of changes. -/
abbrev Steps (voters : List ν) : World ν ε → World ν ε → Prop := Relation.ReflTransGen (Step voters)

theorem Steps.sound {w w' : World ν ε} (steps : Steps voters w w') (h : w.Sound voters) :
    w'.Sound voters := by
  induction steps with
  | refl => exact h
  | tail _ step ih => exact step.sound ih

theorem Steps.evolves {w w' : World ν ε} (steps : Steps voters w w') (h : w.Sound voters) :
    Evolves w w' := by
  induction steps with
  | refl => exact .refl w
  | tail earlier step ih => exact ih.trans (step.evolves (Steps.sound earlier h))

theorem Steps.acked {w w' : World ν ε} (steps : Steps voters w w') : w'.acked = w.acked := by
  induction steps with
  | refl => rfl
  | tail _ step ih => exact step.acked.trans ih

end

/-- A group that starts with one common entry, which counts as written and
    acknowledged in term 0. -/
def genesis (root : ε) : World ν ε where
  term _ := 0
  vote _ := none
  leads _ := False
  log _ := [root]
  record t := if t = 0 then [root] else []
  ballot _ := []
  winner _ := none
  acked _ t m := t = 0 ∧ m = 1

theorem sound_genesis (voters : List ν) (zero : stamp root = 0) :
    (genesis root : World ν ε).Sound voters := by
  have coherent : Coherent (genesis root : World ν ε).record [root] := by
    intro k hin
    have fst : k = 0 := by simpa using hin
    simp [genesis, zero]
  refine
    { coherent_log := fun _ => coherent
      coherent_record := ?_
      log_bound := by simp [genesis, zero]
      record_bound := ?_
      inhabited := by simp [genesis]
      leader := fun _ leads => leads.elim
      unelected := fun t above _ => by simp [genesis, Nat.pos_iff_ne_zero.mp above]
      ballot_bound := fun _ _ won => by cases won
      ballot_record := fun _ _ won => by cases won
      elected := fun _ _ won => by cases won
      retained := ?_ }
  · intro t
    by_cases start : t = 0
    · subst start
      exact coherent
    · intro k hin
      simp [genesis, start] at hin
  · intro t e mem
    by_cases start : t = 0
    · subst start
      simp only [genesis, if_pos, mem_singleton] at mem
      rw [mem, zero]
    · simp [genesis, start] at mem
  · rintro v t m ⟨rfl, rfl⟩
    exact ⟨le_rfl, by simp [genesis], fun i _ _ => by simp [genesis]⟩

end World
end HoloSphere.Replication
