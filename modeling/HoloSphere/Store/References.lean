import Mathlib.Logic.Function.Basic

/-! # References between rows

Rows at addresses, each address in a table.  A link says that what a row of one table has
in a column is to be found in a column of another table.  All links resolved is a property
of the whole store; what a single write must observe for it is local, and is asked of the
store before the write: the row that it leaves needs its targets, and the row that it
replaces must not have been the only target of another.
-/

namespace HoloSphere.Store
open Function
variable {α τ ρ γ ν : Type}

/-- A foreign key of a table. -/
structure Link (τ γ : Type) where
  column : γ
  target : τ
  targetColumn : γ

variable (tableOf : α → τ) (cell : ρ → γ → Option ν) (null : ν → Prop)

def Resolved (links : τ → List (Link τ γ)) (rows : α → Option ρ) : Prop :=
  ∀ addr row, rows addr = some row → ∀ link ∈ links (tableOf addr), ∀ val,
    cell row link.column = some val → ¬ null val →
      ∃ tgt other, rows tgt = some other ∧ tableOf tgt = link.target ∧
        cell other link.targetColumn = some val

/-- A row at another address has the value. -/
def HeldElsewhere (rows : α → Option ρ) (addr : α) (tbl : τ) (col : γ) (val : ν) : Prop :=
  ∃ other row, other ≠ addr ∧ rows other = some row ∧ tableOf other = tbl ∧ cell row col = some val

/-- What is to be checked before a row is put at an address, or the one there is removed. -/
structure KeepsReferences (links : τ → List (Link τ γ)) (rows : α → Option ρ) (addr : α)
    (new : Option ρ) : Prop where
  child : ∀ row, new = some row → ∀ link ∈ links (tableOf addr), ∀ val,
    cell row link.column = some val → ¬ null val →
      (tableOf addr = link.target ∧ cell row link.targetColumn = some val) ∨
        HeldElsewhere tableOf cell rows addr link.target link.targetColumn val
  parent : ∀ old, rows addr = some old → ∀ referrer row, referrer ≠ addr →
    rows referrer = some row → ∀ link ∈ links (tableOf referrer), tableOf addr = link.target →
      ∀ val, cell row link.column = some val → ¬ null val → cell old link.targetColumn = some val →
          (∃ row, new = some row ∧ cell row link.targetColumn = some val) ∨
            HeldElsewhere tableOf cell rows addr link.target link.targetColumn val

variable {tableOf cell null}
variable [DecidableEq α]

theorem HeldElsewhere.update (held : HeldElsewhere tableOf cell rows addr tbl col val) :
    ∃ tgt other, update rows addr new tgt = some other ∧
      tableOf tgt = tbl ∧ cell other col = some val := by
  obtain ⟨other, row, apart, here, named, holds⟩ := held
  refine ⟨other, row, ?_, named, holds⟩
  rw [update_of_ne apart]
  exact here

theorem Resolved.update (resolved : Resolved tableOf cell null links rows)
    (keeps : KeepsReferences tableOf cell null links rows addr new) :
    Resolved tableOf cell null links (update rows addr new) := by
  intro referrer row here link mem val read present
  by_cases same : referrer = addr
  · subst same
    rw [update_self] at here
    rcases keeps.child row here link mem val read present with ⟨own, holds⟩ | held
    · refine ⟨referrer, row, ?_, own, holds⟩
      rw [update_self]
      exact here
    · exact held.update
  · rw [update_of_ne same] at here
    obtain ⟨tgt, old, found, named, holds⟩ := resolved referrer row here link mem val read present
    by_cases replaced : tgt = addr
    · subst replaced
      rcases keeps.parent old found referrer row same here link mem named val read present
        holds with ⟨written, stored, again⟩ | held
      · refine ⟨tgt, written, ?_, named, again⟩
        rw [update_self]
        exact stored
      · exact held.update
    · refine ⟨tgt, old, ?_, named, holds⟩
      rw [update_of_ne replaced]
      exact found

/-- A target after the write is the new row or one that the write left alone. -/
theorem target_of_update (held : ∃ tgt other, update rows addr new tgt = some other ∧
      tableOf tgt = tbl ∧ cell other col = some val) :
    (∃ row, new = some row ∧ tableOf addr = tbl ∧ cell row col = some val) ∨
      HeldElsewhere tableOf cell rows addr tbl col val := by
  obtain ⟨tgt, other, found, named, holds⟩ := held
  by_cases same : tgt = addr
  · subst same
    rw [update_self] at found
    exact .inl ⟨other, found, named, holds⟩
  · rw [update_of_ne same] at found
    exact .inr ⟨tgt, other, same, found, named, holds⟩

/-- The check is not only enough: a write that fails it leaves a link unresolved. -/
theorem resolved_update_iff (resolved : Resolved tableOf cell null links rows) :
    Resolved tableOf cell null links (update rows addr new) ↔
      KeepsReferences tableOf cell null links rows addr new := by
  refine ⟨fun after => ⟨?_, ?_⟩, resolved.update⟩
  · intro row stored link mem val read present
    have here : update rows addr new addr = some row := by
      rw [update_self]
      exact stored
    rcases target_of_update (after addr row here link mem val read present) with
      ⟨other, own, named, holds⟩ | held
    · rw [stored] at own
      cases own
      exact .inl ⟨named, holds⟩
    · exact .inr held
  · intro old found referrer row apart here link mem named val read present _
    rw [← update_of_ne apart new rows] at here
    rcases target_of_update (after referrer row here link mem val read present) with
      ⟨other, own, -, holds⟩ | held
    · exact .inl ⟨other, own, holds⟩
    · exact .inr held

end HoloSphere.Store
