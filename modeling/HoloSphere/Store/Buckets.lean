import Mathlib.Data.List.Perm.Basic

/-! # Rows packed by counting

Items are packed into one list, row after row, in three passes: the items of each row are
counted, the counts are summed up to the offsets at which the rows begin, and every item is
written where the cursor of its row stands.  At the end each row may be sorted in its place.
A row then holds its items, in some order.
-/

namespace HoloSphere.Store.Buckets
open List hiding count
variable {α β : Type}

def tally (key : α → Nat) (rows : Nat) (items : List α) : List Nat :=
  items.foldl (fun degrees item => degrees.modify (key item) (· + 1)) (replicate rows 0)

/-- The sums of the degrees so far, beginning with `total`. -/
def offsetsFrom : Nat → List Nat → List Nat
  | total, [] => [total]
  | total, degree :: rest => total :: offsetsFrom (total + degree) rest

/-- An item goes to the cursor of its row, which moves on. -/
def place (key : α → Nat) (entry : α → β) (st : List β × List Nat) (item : α) : List β × List Nat :=
  (st.1.set (st.2.getD (key item) 0) (entry item), st.2.modify (key item) (· + 1))

def fill (key : α → Nat) (entry : α → β) (blank : β) (starts : List Nat) (rows : Nat)
    (items : List α) : List β :=
  (items.foldl (place key entry)
    (replicate (starts.getD rows 0) blank, starts.take rows)).1

def slice (packed : List β) (start stop : Nat) : List β := (packed.drop start).take (stop - start)

def row (starts : List Nat) (packed : List β) (v : Nat) : List β :=
  slice packed (starts.getD v 0) (starts.getD (v + 1) 0)

/-- A row of fewer than two items is left alone. -/
def sortRow (sort : List β → List β) (starts : List Nat) (packed : List β) (v : Nat) : List β :=
  let start := starts.getD v 0
  let stop := starts.getD (v + 1) 0
  if start + 1 < stop then packed.take start ++ (sort (slice packed start stop) ++ packed.drop stop)
  else packed

def sortRows (sort : List β → List β) (starts : List Nat) (rows : Nat) (packed : List β) : List β :=
  (range rows).foldl (sortRow sort starts) packed

/-- How many of the items belong to a row. -/
def members (key : α → Nat) (items : List α) (v : Nat) : Nat :=
  items.countP fun item => key item = v

section
variable (key : α → Nat)

theorem members_append (done : List α) (item : α) (v : Nat) :
    members key (done ++ [item]) v = members key done v + if key item = v then 1 else 0 := by
  simp [members, countP_append, countP_cons]

theorem members_le (split : items = done ++ rest) (v : Nat) :
    members key done v ≤ members key items v := by
  rw [split, members, members, countP_append]
  omega

theorem getElem?_foldl_modify (degrees : List Nat) :
    (items.foldl (fun degrees item => degrees.modify (key item) (· + 1)) degrees)[v]? =
      degrees[v]?.map (· + members key items v) := by
  induction items generalizing degrees with
  | nil =>
    cases here : degrees[v]? with
    | none | some => simp [members, here]
  | cons item rest ih =>
    rw [foldl_cons, ih, getElem?_modify, members, members, countP_cons]
    cases degrees[v]? with
    | none => rfl
    | some degree =>
      by_cases same : key item = v
      · simp only [same, decide_true, if_true, Option.map_eq_map, Option.map_some]
        congr 1
        omega
      · simp [same]

theorem getElem?_tally (hin : v < rows) :
    (tally key rows items)[v]? = some (members key items v) := by
  rw [tally, getElem?_foldl_modify]
  simp [hin]

theorem length_tally : (tally key rows items).length = rows := by
  have start : (replicate rows 0).length = rows := length_replicate
  unfold tally
  generalize replicate rows 0 = degrees at start
  induction items generalizing degrees with
  | nil => exact start
  | cons item rest ih => exact ih _ (by rw [length_modify]; exact start)

theorem length_offsetsFrom : (offsetsFrom total degrees).length = degrees.length + 1 := by
  induction degrees generalizing total with
  | nil => rfl
  | cons degree rest ih => simp [offsetsFrom, ih]

theorem offsetsFrom_next (total : Nat) (here : degrees[v]? = some degree) :
    (offsetsFrom total degrees).getD (v + 1) 0 = (offsetsFrom total degrees).getD v 0 + degree := by
  induction degrees generalizing total v with
  | nil => simp at here
  | cons fst rest ih =>
    cases v with
    | zero =>
      cases here
      cases rest <;> rfl
    | succ v => exact ih (total + fst) here

/-- Rows that follow each other without a gap. -/
structure Laid (starts : List Nat) (rows : Nat) (count : Nat → Nat) : Prop where
  length : starts.length = rows + 1
  next : ∀ v, v < rows → starts.getD (v + 1) 0 = starts.getD v 0 + count v

theorem laid_offsets (rows : Nat) (items : List α) :
    Laid (offsetsFrom 0 (tally key rows items)) rows (members key items) where
  length := by rw [length_offsetsFrom, length_tally]
  next _ hin := offsetsFrom_next 0 (getElem?_tally key hin)

end

namespace Laid

theorem le (laid : Laid starts rows count) (pre : u ≤ v) (hin : v ≤ rows) :
    starts.getD u 0 ≤ starts.getD v 0 := by
  induction v with
  | zero =>
    cases Nat.le_zero.mp pre
    exact Nat.le_refl _
  | succ v ih =>
    by_cases same : u = v + 1
    · exact Nat.le_of_eq (by rw [same])
    · have earlier := ih (by omega) (by omega)
      have next := laid.next v (by omega)
      omega

theorem ends_before (laid : Laid starts rows count) (pre : u < v) (hin : v ≤ rows) :
    starts.getD u 0 + count u ≤ starts.getD v 0 := by
  rw [← laid.next u (by omega)]
  exact laid.le pre hin

end Laid

/-- The items done so far stand in their rows in order, and the cursors behind them. -/
structure Filled (key : α → Nat) (entry : α → β) (starts : List Nat) (rows : Nat) (done : List α)
    (st : List β × List Nat) : Prop where
  size : st.1.length = starts.getD rows 0
  cursors : ∀ v, v < rows → st.2[v]? = some (starts.getD v 0 + members key done v)
  entries : ∀ v, v < rows → ∀ k item, (done.filter fun item => key item = v)[k]? = some item →
    st.1[starts.getD v 0 + k]? = some (entry item)

theorem filled_blank (laid : Laid starts rows (members key items)) (entry : α → β) (blank : β) :
    Filled key entry starts rows [] (replicate (starts.getD rows 0) blank, starts.take rows) where
  size := length_replicate
  cursors v hin := by
    have present : v < starts.length := by
      rw [laid.length]
      omega
    simp [hin, members, getD_eq_getElem?_getD, present]
  entries v hin k item found := by simp at found

theorem length_filter_eq (key : α → Nat) :
    (done.filter fun item => key item = v).length = members key done v :=
  countP_eq_length_filter.symm

/-- The place of the next item is taken by none of those before it. -/
theorem Filled.place (filled : Filled key entry starts rows done st)
    (laid : Laid starts rows (members key items)) (split : items = done ++ item :: rest)
    (hin : key item < rows) :
    Filled key entry starts rows (done ++ [item]) (place key entry st item) := by
  have cursor : st.2.getD (key item) 0 =
      starts.getD (key item) 0 + members key done (key item) := by
    rw [getD_eq_getElem?_getD, filled.cursors _ hin]
    rfl
  have grown : members key done (key item) + 1 ≤ members key items (key item) := by
    have later := members_le key (split.trans (append_cons done item rest)) (key item)
    rw [members_append, if_pos rfl] at later
    exact later
  have room := laid.ends_before hin (Nat.le_refl rows)
  refine ⟨?_, ?_, ?_⟩
  · rw [Buckets.place, length_set]
    exact filled.size
  · intro v below
    rw [Buckets.place, getElem?_modify, filled.cursors v below, members_append]
    by_cases same : key item = v
    · simp [same, Nat.add_assoc]
    · simp [same]
  · intro v below k found present
    rw [Buckets.place, cursor, getElem?_set]
    rw [filter_append] at present
    by_cases earlier : k < members key done v
    · -- an item placed before keeps its place
      rw [getElem?_append_left (by rw [length_filter_eq]; exact earlier)] at present
      have among := members_le key split v
      have apart : starts.getD (key item) 0 + members key done (key item) ≠
          starts.getD v 0 + k := by
        rcases Nat.lt_trichotomy (key item) v with less | same | more
        · have ends := laid.ends_before less (Nat.le_of_lt below)
          omega
        · rw [same]
          omega
        · have ends := laid.ends_before more (Nat.le_of_lt hin)
          omega
      rw [if_neg apart]
      exact filled.entries v below k found present
    · rw [getElem?_append_right (by rw [length_filter_eq]; omega), length_filter_eq] at present
      by_cases same : key item = v
      · have last : k = members key done v := by
          have short := (List.getElem?_eq_some_iff.mp present).1
          simp [same] at short
          omega
        rw [last, Nat.sub_self] at present
        simp only [filter_cons, same, decide_true, if_true, getElem?_cons_zero,
          Option.some.injEq] at present
        rw [same, last, if_pos rfl, if_pos, present]
        rw [filled.size]
        rw [same] at room grown
        omega
      · simp [same] at present

theorem Filled.foldl (filled : Filled key entry starts rows done st)
    (laid : Laid starts rows (members key items)) (split : items = done ++ rest)
    (hin : ∀ item ∈ rest, key item < rows) :
    Filled key entry starts rows items (rest.foldl (Buckets.place key entry) st) := by
  induction rest generalizing done st with
  | nil =>
    rw [split, append_nil]
    exact filled
  | cons item rest ih =>
    apply ih (filled.place laid split (hin item mem_cons_self))
    · rw [split, append_cons]
    · exact (forall_mem_cons.mp hin).2

theorem getElem?_slice :
    (slice packed start stop)[k]? = if k < stop - start then packed[start + k]? else none := by
  rw [slice, getElem?_take]
  split
  · rw [getElem?_drop]
  · rfl

theorem row_fill (laid : Laid starts rows (members key items))
    (hin : ∀ item ∈ items, key item < rows) (entry : α → β) (below : v < rows) :
    row starts (fill key entry blank starts rows items) v =
      (items.filter fun item => key item = v).map entry := by
  have filled := (filled_blank laid entry blank).foldl laid rfl hin
  apply ext_getElem?
  intro k
  rw [row, getElem?_slice, laid.next v below, Nat.add_sub_cancel_left, getElem?_map]
  split
  · rename_i among
    rw [← length_filter_eq] at among
    have present := getElem?_eq_getElem among
    rw [present]
    exact filled.entries v below k _ present
  · rename_i outside
    rw [← length_filter_eq] at outside
    rw [getElem?_eq_none (Nat.not_lt.mp outside)]
    rfl

section
variable {packed : List β}

theorem getElem?_exchange {fresh : List β} (ordered : start ≤ stop) (hin : stop ≤ packed.length)
    (fits : fresh.length = stop - start) :
    (packed.take start ++ (fresh ++ packed.drop stop))[k]? =
      if start ≤ k ∧ k < stop then fresh[k - start]? else packed[k]? := by
  have front : (packed.take start).length = start := by
    rw [length_take]
    omega
  by_cases early : k < start
  · rw [getElem?_append_left (by omega), getElem?_take, if_pos early, if_neg (by omega)]
  rw [getElem?_append_right (by omega), front]
  by_cases within : k < stop
  · rw [getElem?_append_left (by omega), if_pos ⟨by omega, within⟩]
  · rw [getElem?_append_right (by omega), getElem?_drop, fits, if_neg (by omega)]
    congr 1
    omega

theorem sortRow_spec (laid : Laid starts rows count) (perm : ∀ list, (sort list).Perm list)
    (size : packed.length = starts.getD rows 0) (below : u < rows) :
    (sortRow sort starts packed u).length = starts.getD rows 0 ∧
      ∀ v, v < rows → (row starts (sortRow sort starts packed u) v).Perm (row starts packed v) := by
  have ordered : starts.getD u 0 ≤ starts.getD (u + 1) 0 := laid.le (Nat.le_succ u) below
  have hin : starts.getD (u + 1) 0 ≤ packed.length := by
    rw [size]
    exact laid.le below (Nat.le_refl rows)
  unfold sortRow
  dsimp only
  split
  · have fits : (sort (slice packed (starts.getD u 0) (starts.getD (u + 1) 0))).length =
        starts.getD (u + 1) 0 - starts.getD u 0 := by
      rw [(perm _).length_eq, slice, length_take, length_drop]
      omega
    refine ⟨?_, ?_⟩
    · rw [length_append, length_append, fits, length_take, length_drop]
      omega
    · intro v inRows
      have places (k : Nat) := getElem?_exchange ordered hin fits (k := k)
      generalize packed.take _ ++ (sort _ ++ packed.drop _) = exchanged at places ⊢
      by_cases same : v = u
      · have sorted : row starts exchanged v =
            sort (slice packed (starts.getD u 0) (starts.getD (u + 1) 0)) := by
          rw [same]
          apply ext_getElem?
          intro k
          rw [row, getElem?_slice, places]
          split
          · rw [if_pos (by omega), Nat.add_sub_cancel_left]
          · rw [getElem?_eq_none (by omega)]
        rw [sorted, same]
        exact perm _
      · have kept : row starts exchanged v = row starts packed v := by
          apply ext_getElem?
          intro k
          rw [row, row, getElem?_slice, getElem?_slice, places]
          split
          · rw [if_neg]
            rcases Nat.lt_or_gt_of_ne same with less | more
            · have ends := laid.le (show v + 1 ≤ u from less) (Nat.le_of_lt below)
              omega
            · have ends := laid.le (show u + 1 ≤ v from more) (Nat.le_of_lt inRows)
              omega
          · rfl
        rw [kept]
  · exact ⟨size, fun v _ => .refl _⟩

theorem sortRows_perm (laid : Laid starts rows count) (perm : ∀ list, (sort list).Perm list)
    (size : packed.length = starts.getD rows 0) (below : v < rows) :
    (row starts (sortRows sort starts rows packed) v).Perm (row starts packed v) := by
  have all : ∀ u ∈ range rows, u < rows := fun u => mem_range.mp
  unfold sortRows
  generalize range rows = order at all
  induction order generalizing packed with
  | nil => exact .refl _
  | cons u rest ih =>
    obtain ⟨sameSize, sameRows⟩ := sortRow_spec laid perm size (all u mem_cons_self)
    have later := ih sameSize (forall_mem_cons.mp all).2
    exact later.trans (sameRows v below)

end

theorem row_perm (hin : ∀ item ∈ items, key item < rows) (entry : α → β) (blank : β)
    (perm : ∀ list, (sort list).Perm list) (below : v < rows) :
    (row (offsetsFrom 0 (tally key rows items))
      (sortRows sort (offsetsFrom 0 (tally key rows items)) rows
        (fill key entry blank (offsetsFrom 0 (tally key rows items)) rows items)) v).Perm
      ((items.filter fun item => key item = v).map entry) := by
  have laid := laid_offsets key rows items
  have filled := (filled_blank laid entry blank).foldl laid rfl hin
  rw [← row_fill laid hin entry below]
  exact sortRows_perm laid perm filled.size below

end HoloSphere.Store.Buckets
