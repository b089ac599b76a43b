import Mathlib.Data.List.Infix

/-! # Replicated logs

Lists of entries stamped with a term, and the one notion the protocol proofs rest
on: a log is *coherent* with a record of leader logs when each of its entries was
copied, with everything before it, from the log of the leader of that entry's
term.  Log matching and the order of terms are consequences.
-/

namespace HoloSphere.Replication
open List

/-- Entries that carry the term in which they were created. -/
class Stamped (ε : Type) where
  stamp : ε → Nat

open Stamped
variable {ε : Type} [Stamped ε]

def lastStamp (log : List ε) : Nat := (log.getLast?.map stamp).getD 0

/-- The election restriction: `candidate` is at least as recent as `voter`. -/
def UpToDate (cand voter : List ε) : Prop :=
  lastStamp voter < lastStamp cand ∨ (lastStamp cand = lastStamp voter ∧ voter.length ≤ cand.length)

/-- Each prefix of `log` stands in the record of the term of its last entry. -/
def Coherent (record : Nat → List ε) (log : List ε) : Prop :=
  ∀ k (hin : k < log.length), log.take (k + 1) <+: record (stamp log[k])

theorem lastStamp_eq {log : List ε} (hin : log.length - 1 < log.length) :
    lastStamp log = stamp log[log.length - 1] := by
  rw [lastStamp, getLast?_eq_getElem?, getElem?_eq_getElem hin]
  rfl

theorem take_eq_of_isPrefix {α : Type} {a b : List α} (h : a <+: b) {n : Nat}
    (short : n ≤ a.length) : b.take n = a.take n := by
  obtain ⟨rest, rfl⟩ := h
  exact take_append_of_le_length short

theorem getElem_of_isPrefix {α : Type} {a b : List α} (h : a <+: b) {n : Nat}
    (hin : n < a.length) : b[n]? = a[n]? := by
  obtain ⟨rest, rfl⟩ := h
  exact getElem?_append_left hin

/-- What the old log held of the leader's is in a part of it that the old log did not hold. -/
theorem isPrefix_of_new {α : Type} {piece log whole old : List α} (held : piece <+: whole)
    (part : log <+: whole) (new : ¬ log <+: old) (kept : piece <+: old) : piece <+: log := by
  rcases Nat.le_total piece.length log.length with short | short
  · exact prefix_of_prefix_length_le held part short
  · exact absurd ((prefix_of_prefix_length_le part held short).trans kept) new

namespace Coherent
variable {log : List ε}

theorem of_isPrefix (h : Coherent record log) (part : other <+: log) : Coherent record other := by
  intro k hin
  have longer : k < log.length := lt_of_lt_of_le hin part.length_le
  obtain ⟨rest, rfl⟩ := part
  have whole := h k longer
  rw [take_append_of_le_length (by omega), getElem_append_left hin] at whole
  exact whole

theorem grow (h : Coherent record log) (more : ∀ t, record t <+: grown t) : Coherent grown log :=
  fun k hin => (h k hin).trans (more _)

/-- Log matching: equal stamps at one position mean equal logs up to it. -/
theorem matching (h : Coherent record log) (h' : Coherent record other) {k : Nat}
    (hin : k < log.length) (inside' : k < other.length)
    (same : stamp log[k] = stamp other[k]) : log.take (k + 1) = other.take (k + 1) := by
  have left := h k hin
  have right := h' k inside'
  rw [← same] at right
  apply IsPrefix.eq_of_length (prefix_of_prefix_length_le left right _)
  all_goals simp only [length_take]; omega

/-- A nonempty coherent log is a prefix of the record of its last term. -/
theorem whole (h : Coherent record log) (nonempty : log ≠ []) : log <+: record (lastStamp log) := by
  have positive : 0 < log.length := length_pos_iff.mpr nonempty
  have last := h (log.length - 1) (by omega)
  rw [lastStamp_eq (by omega)]
  rwa [take_of_length_le (by omega)] at last

/-- Stamps never decrease along a coherent log. -/
theorem sorted (h : Coherent record log) (bounded : ∀ t, ∀ e ∈ record t, stamp e ≤ t) (le : i ≤ j)
    (hin : j < log.length) : stamp log[i] ≤ stamp log[j] := by
  have part := h j hin
  apply bounded
  apply part.subset
  have short : i < (log.take (j + 1)).length := by simp only [length_take]; omega
  have mem := getElem_mem short
  rwa [getElem_take] at mem

theorem stamp_le_last (h : Coherent record log) (bounded : ∀ t, ∀ e ∈ record t, stamp e ≤ t)
    (hin : i < log.length) : stamp log[i] ≤ lastStamp log := by
  rw [lastStamp_eq (by omega)]
  exact h.sorted bounded (by omega) (by omega)

end Coherent
end HoloSphere.Replication
