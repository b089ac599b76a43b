import Mathlib.Data.List.Sort

/-! # Binary heaps

A heap that gives its greatest item first.  How it lays its items out is not visible from
outside, so a heap is the list of its items in ascending order.
-/

namespace HoloSphere.Store

structure BinaryHeap (ι : Type) [LinearOrder ι] where
  items : List ι
  sorted : items.Pairwise (· ≤ ·)

namespace BinaryHeap
variable {ι : Type} [LinearOrder ι]

def empty : BinaryHeap ι := ⟨[], .nil⟩

def push (item : ι) (heap : BinaryHeap ι) : BinaryHeap ι :=
  ⟨heap.items.orderedInsert (· ≤ ·) item, heap.sorted.orderedInsert item heap.items⟩

def peek (heap : BinaryHeap ι) : Option ι := heap.items.getLast?

/-- The heap without its greatest item. -/
def rest (heap : BinaryHeap ι) : BinaryHeap ι :=
  ⟨heap.items.dropLast, heap.sorted.sublist heap.items.dropLast_sublist⟩

def pop (heap : BinaryHeap ι) : Option (ι × BinaryHeap ι) :=
  heap.peek.map fun item => (item, heap.rest)

def size (heap : BinaryHeap ι) : Nat := heap.items.length

@[simp] theorem items_empty : (empty : BinaryHeap ι).items = [] := rfl

@[simp] theorem items_push (item : ι) (heap : BinaryHeap ι) :
    (push item heap).items = heap.items.orderedInsert (· ≤ ·) item := rfl

theorem push_perm (item : ι) (heap : BinaryHeap ι) :
    (push item heap).items.Perm (item :: heap.items) :=
  List.perm_orderedInsert _ item heap.items

variable {heap : BinaryHeap ι}

theorem items_of_peek (greatest : heap.peek = some item) : heap.items = heap.rest.items ++ [item] :=
  (List.dropLast_append_getLast? item greatest).symm

theorem pop_eq_none : heap.pop = none ↔ heap.items = [] := by
  simp [pop, peek]

theorem items_of_pop (popped : heap.pop = some (item, later)) :
    heap.items = later.items ++ [item] := by
  obtain ⟨greatest, peeked, same⟩ := Option.map_eq_some_iff.mp popped
  cases same
  exact items_of_peek peeked

end BinaryHeap
end HoloSphere.Store
