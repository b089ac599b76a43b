import HoloSphere.Store.BinaryHeap
import HoloSphere.Store.Selection
import Mathlib.Data.Prod.Lex
import Mathlib.Order.WithBot

/-! # The top-k accumulator

`Finalist` and `TopKAccumulator` of `proof/search.rs`, over scores of any total order.  The
order of finalists is that of the source: the least is the best, with the highest score and,
among equal scores, the smallest slot.
-/

namespace HoloSphere.Proof
open Store List

abbrev NodeIndex := Nat

structure Finalist (α : Type) where
  slot : NodeIndex
  score : α
  deriving DecidableEq

namespace Finalist
variable {α : Type}

def key (finalist : Finalist α) : αᵒᵈ ×ₗ ℕ := toLex (OrderDual.toDual finalist.score, finalist.slot)

theorem key_injective : Function.Injective (key : Finalist α → αᵒᵈ ×ₗ ℕ) := by
  rintro ⟨slot, score⟩ ⟨other, rival⟩ same
  cases same
  rfl

variable [LinearOrder α]

instance : LinearOrder (Finalist α) := LinearOrder.lift' key key_injective

theorem lt_iff {fst snd : Finalist α} : fst < snd ↔
      snd.score < fst.score ∨ fst.score = snd.score ∧ fst.slot < snd.slot :=
  Prod.Lex.lt_iff

theorem score_le_of_le {fst snd : Finalist α} (pre : fst ≤ snd) : snd.score ≤ fst.score := by
  rcases pre.lt_or_eq with less | same
  · rcases lt_iff.mp less with higher | ⟨equal, -⟩
    · exact higher.le
    · exact equal.ge
  · exact same ▸ le_rfl

end Finalist

structure TopKAccumulator (α : Type) [LinearOrder α] where
  k : Nat
  heap : BinaryHeap (Finalist α)

namespace TopKAccumulator
variable {α : Type} [LinearOrder α]

def new (k : Nat) : TopKAccumulator α := ⟨k, .empty⟩

def isFull (topk : TopKAccumulator α) : Bool := topk.k ≤ topk.heap.size

/-- Below every score until there are `k` finalists. -/
def kthScore (topk : TopKAccumulator α) : WithBot α :=
  if topk.k ≤ topk.heap.size then (topk.heap.peek).elim ⊥ fun worst => worst.score else ⊥

def offer (slot : NodeIndex) (score : α) (topk : TopKAccumulator α) : TopKAccumulator α :=
  if topk.k = 0 then topk
  else if topk.heap.items.any fun item => item.slot = slot then topk
  else if topk.heap.size < topk.k then { topk with heap := topk.heap.push ⟨slot, score⟩ }
  else
    match topk.heap.peek with
    | none => topk
    | some worst =>
      if worst.score < score ∨ score = worst.score ∧ slot < worst.slot then
        { topk with heap := topk.heap.rest.push ⟨slot, score⟩ }
      else topk

def intoSortedVec (topk : TopKAccumulator α) : List (NodeIndex × α) :=
  (topk.heap.items.insertionSort (· ≤ ·)).map fun finalist => (finalist.slot, finalist.score)

/-- A bound below the score of the worst finalist, once no more are needed. -/
def prunes (bound : WithBot α) (topk : TopKAccumulator α) : Bool :=
  topk.isFull && decide (bound < topk.kthScore)

/-- The accumulator holds the best `k` of the finalists it has been offered. -/
structure Holds (k : Nat) (offered : List (Finalist α)) (topk : TopKAccumulator α) : Prop where
  limit : topk.k = k
  items : topk.heap.items = best k offered

variable {k : Nat} {topk : TopKAccumulator α}

theorem holds_new (k : Nat) : Holds k [] (new k : TopKAccumulator α) := ⟨rfl, (best_nil k).symm⟩

theorem Holds.size (holds : Holds k offered topk) : topk.heap.size = min k offered.length := by
  simp [BinaryHeap.size, holds.items]

theorem Holds.intoSortedVec (holds : Holds k offered topk) :
    topk.intoSortedVec = (best k offered).map fun finalist => (finalist.slot, finalist.score) := by
  rw [TopKAccumulator.intoSortedVec, topk.heap.sorted.insertionSort_eq, holds.items]

theorem offer_k : (topk.offer slot score).k = topk.k := by
  unfold offer
  repeat' split
  all_goals rfl

theorem Holds.offer (holds : Holds k offered topk) (score : α)
    (fresh : ∀ finalist ∈ offered, finalist.slot ≠ slot) :
    Holds k (⟨slot, score⟩ :: offered) (topk.offer slot score) := by
  refine ⟨(offer_k).trans holds.limit, ?_⟩
  have unheld : (topk.heap.items.any fun item => item.slot = slot) = false := by
    rw [holds.items, any_eq_false]
    intro item mem
    simpa using fresh item (mem_of_mem_best mem)
  unfold TopKAccumulator.offer
  rw [unheld, holds.limit]
  by_cases none : k = 0
  · simp [none, holds.items, best]
  rw [if_neg none, if_neg Bool.false_ne_true]
  by_cases room : topk.heap.size < k
  · rw [if_pos room, BinaryHeap.items_push, holds.items, best_cons, take_of_length_le]
    rw [orderedInsert_length, ← holds.items]
    exact room
  · rw [if_neg room]
    cases peeked : topk.heap.peek with
    | none =>
      have empty : topk.heap.items = [] := getLast?_eq_none_iff.mp peeked
      simp [BinaryHeap.size, empty] at room
      exact absurd room none
    | some worst =>
      have parts := BinaryHeap.items_of_peek peeked
      have full : topk.heap.rest.items.length + 1 = k := by
        have count := congrArg length parts
        have size := holds.size
        simp only [BinaryHeap.size, length_append, length_singleton] at count size room
        omega
      rw [best_cons_of_full (holds.items.symm.trans parts) full]
      simp only [← @Finalist.lt_iff _ _ ⟨slot, score⟩ worst]
      split
      · rfl
      · exact parts

/-- A bound that prunes is below the score of each of the `k` finalists. -/
theorem Holds.of_prunes (holds : Holds k offered topk) (pruned : topk.prunes bound = true) :
    (best k offered).length = k ∧ ∀ finalist ∈ best k offered, bound < finalist.score := by
  simp only [prunes, isFull, Bool.and_eq_true, decide_eq_true_eq] at pruned
  obtain ⟨full, below⟩ := pruned
  rw [kthScore, if_pos full] at below
  have size := holds.size
  rw [← holds.items]
  rw [holds.limit] at full
  refine ⟨by simp only [BinaryHeap.size] at *; omega, fun finalist mem => ?_⟩
  cases peeked : topk.heap.peek with
  | none =>
    rw [peeked] at below
    exact absurd below (by simp)
  | some worst =>
    rw [peeked] at below
    have parts := BinaryHeap.items_of_peek peeked
    have sorted := topk.heap.sorted
    rw [parts] at sorted mem
    have order : finalist ≤ worst := by
      rcases mem_append.mp mem with early | last
      · exact (pairwise_append.mp sorted).2.2 finalist early worst mem_cons_self
      · exact (mem_singleton.mp last).le
    exact below.trans_le (WithBot.coe_le_coe.mpr (Finalist.score_le_of_le order))

end TopKAccumulator
end HoloSphere.Proof
