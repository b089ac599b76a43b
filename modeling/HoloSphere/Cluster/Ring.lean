import HoloSphere.Format.Decimal
import Mathlib.Data.List.Sort
import Mathlib.Data.Prod.Lex

/-! # The consistent hash ring

`ConsistentHashRing` of `cluster/ring.rs`.  A key belongs to the shard of the first virtual node
at or after its hash, going round; the ring's vector is sorted by token, and a binary search
finds that node.  Ownership depends on the set of virtual nodes only, so adding a shard can give
it keys but not move a key between two others, and removing one moves only its own.
-/

namespace HoloSphere.Cluster
open Format List

abbrev ShardId := Nat

/-- FNV-1a over the bytes, then the avalanche of SplitMix64. -/
def hashKey (key : Bytes) : Nat :=
  let hash : UInt64 := key.foldl (fun hash byte => (hash ^^^ byte.toUInt64) * 0x100000001b3)
    0xcbf29ce484222325
  let z := hash + 0x9e3779b97f4a7c15
  let z := (z ^^^ (z >>> 30)) * 0xbf58476d1ce4e5b9
  let z := (z ^^^ (z >>> 27)) * 0x94d049bb133111eb
  (z ^^^ (z >>> 31)).toNat

def vnodeKey (shard v : Nat) : Bytes :=
  "shard_".toUTF8.toList ++ decimal shard ++ "_vnode_".toUTF8.toList ++ decimal v

abbrev VNode := Nat × ShardId

/-- What the standard library documents for a sorted vector: the position of an item with the
    key, or else the position where one would be inserted. -/
def binarySearchByKey (token : Nat) (ring : List VNode) : Except Nat Nat :=
  let idx := ring.findIdx fun vnode => token ≤ vnode.1
  if ring[idx]?.any fun vnode => vnode.1 = token then .ok idx else .error idx

structure ConsistentHashRing where
  vnodesPerShard : Nat
  ring : List VNode

/-- The order in which a walk from `place` meets the tokens. -/
def arc (place token : Nat) : Bool ×ₗ ℕ := toLex (decide (token < place), token)

/-- The first virtual node at or after the place, going round. -/
def First (place : Nat) (ring : List VNode) (vnode : VNode) : Prop :=
  vnode ∈ ring ∧ ∀ other ∈ ring, arc place vnode.1 ≤ arc place other.1

theorem First.subset (fst : First place ring vnode) (fewer : others ⊆ ring)
    (mem : vnode ∈ others) : First place others vnode :=
  ⟨mem, fun other among => fst.2 other (fewer among)⟩

theorem First.eq (fst : First place ring vnode) (snd : First place ring other)
    (distinct : (ring.map Prod.fst).Nodup) : vnode = other := by
  have same : arc place vnode.1 = arc place other.1 :=
    le_antisymm (fst.2 other snd.1) (snd.2 vnode fst.1)
  exact inj_on_of_nodup_map distinct fst.1 snd.1 (congrArg (fun a => (ofLex a).2) same)

theorem arc_le_iff : arc place token ≤ arc place other ↔
    token < place ∧ other < place ∧ token ≤ other ∨
      place ≤ token ∧ (other < place ∨ token ≤ other) := by
  simp only [arc, Prod.Lex.toLex_le_toLex, Bool.lt_iff, decide_eq_true_eq, decide_eq_false_iff_not,
    decide_eq_decide]
  omega

/-- In a sorted ring the first node is found by looking for the first token that is not too
    small, and is the first of all if there is none. -/
theorem first_of_sorted (sorted : ring.Pairwise fun a b : VNode => a.1 ≤ b.1)
    (found : (ring.find? fun vnode => place ≤ vnode.1).or ring.head? = some vnode) :
    First place ring vnode := by
  rcases Option.or_eq_some_iff.mp found with later | ⟨none, head⟩
  · obtain ⟨reaches, pre, post, rfl, small⟩ := find?_eq_some_iff_append.mp later
    refine ⟨by simp, fun other mem => arc_le_iff.mpr (.inr ⟨of_decide_eq_true reaches, ?_⟩)⟩
    rcases mem_append.mp mem with early | late
    · exact .inl (by simpa using small other early)
    · rcases mem_cons.mp late with rfl | after
      · exact .inr le_rfl
      · exact .inr ((pairwise_cons.mp (pairwise_append.mp sorted).2.1).1 other after)
  · obtain ⟨rest, rfl⟩ := head?_eq_some_iff.mp head
    have small : ∀ other ∈ vnode :: rest, other.1 < place := by simpa using none
    refine ⟨mem_cons_self, fun other mem => arc_le_iff.mpr (.inl ?_)⟩
    refine ⟨small vnode mem_cons_self, small other mem, ?_⟩
    rcases mem_cons.mp mem with rfl | after
    · exact le_rfl
    · exact (pairwise_cons.mp sorted).1 other after

namespace ConsistentHashRing

def new (vnodesPerShard : Nat) : ConsistentHashRing := ⟨max vnodesPerShard 1, []⟩

def vnodesOf (shard : ShardId) (r : ConsistentHashRing) : List VNode :=
  (range r.vnodesPerShard).map fun v => (hashKey (vnodeKey shard v), shard)

def addShard (shard : ShardId) (r : ConsistentHashRing) : ConsistentHashRing :=
  { r with ring := (r.ring ++ r.vnodesOf shard).insertionSort fun a b => a.1 ≤ b.1 }

def removeShard (shard : ShardId) (r : ConsistentHashRing) : ConsistentHashRing :=
  { r with ring := r.ring.filter fun vnode => vnode.2 ≠ shard }

def shardForKey (key : Bytes) (r : ConsistentHashRing) : Option ShardId :=
  if r.ring = [] then none
  else
    match binarySearchByKey (hashKey key) r.ring with
    | .ok idx => r.ring[idx]?.map Prod.snd
    | .error idx =>
      if idx < r.ring.length then r.ring[idx]?.map Prod.snd else r.ring[0]?.map Prod.snd

def Absent (shard : ShardId) (r : ConsistentHashRing) : Prop := ∀ vnode ∈ r.ring, vnode.2 ≠ shard

def Distinct (r : ConsistentHashRing) : Prop := (r.ring.map Prod.fst).Nodup

def Sorted (r : ConsistentHashRing) : Prop := r.ring.Pairwise fun a b => a.1 ≤ b.1

inductive Reached : ConsistentHashRing → Prop where
  | new (vnodesPerShard : Nat) : Reached (new vnodesPerShard)
  | addShard : Reached r → r.Absent shard → Reached (r.addShard shard)
  | removeShard : Reached r → Reached (r.removeShard shard)

variable {r r' : ConsistentHashRing}

theorem sorted_addShard : (r.addShard shard).Sorted := by
  exact pairwise_insertionSort _ _

theorem Reached.sorted (reached : Reached r) : r.Sorted := by
  induction reached with
  | new => exact .nil
  | addShard => exact sorted_addShard
  | removeShard _ ih => exact ih.filter _

theorem shardForKey_eq : r.shardForKey key =
      ((r.ring.find? fun vnode => hashKey key ≤ vnode.1).or r.ring.head?).map Prod.snd := by
  unfold shardForKey binarySearchByKey
  rw [find?_eq_getElem?_findIdx, head?_eq_getElem?]
  grind

theorem shardForKey_eq_none : r.shardForKey key = none ↔ r.ring = [] := by
  rw [shardForKey_eq, Option.map_eq_none_iff, Option.or_eq_none_iff, head?_eq_none_iff]
  refine ⟨And.right, fun empty => ⟨?_, empty⟩⟩
  rw [empty, find?_nil]

theorem exists_first (sorted : r.Sorted) (owned : r.shardForKey key = some shard) :
    ∃ token, First (hashKey key) r.ring (token, shard) := by
  rw [shardForKey_eq] at owned
  obtain ⟨⟨token, _⟩, found, rfl⟩ := Option.map_eq_some_iff.mp owned
  exact ⟨token, first_of_sorted sorted found⟩

theorem shardForKey_eq_some_iff (sorted : r.Sorted) (distinct : r.Distinct) :
    r.shardForKey key = some shard ↔ ∃ token, First (hashKey key) r.ring (token, shard) := by
  refine ⟨exists_first sorted, fun ⟨token, fst⟩ => ?_⟩
  cases owned : r.shardForKey key with
  | none => exact absurd fst.1 (by simp [shardForKey_eq_none.mp owned])
  | some other =>
    obtain ⟨_, snd⟩ := exists_first sorted owned
    cases fst.eq snd distinct
    rfl

theorem mem_addShard :
    vnode ∈ (r.addShard shard).ring ↔ vnode ∈ r.ring ∨ vnode ∈ r.vnodesOf shard := by
  rw [addShard, mem_insertionSort, mem_append]

theorem snd_of_mem_vnodesOf (mem : vnode ∈ r.vnodesOf shard) : vnode.2 = shard := by
  obtain ⟨_, _, rfl⟩ := mem_map.mp mem
  rfl

/-- Between two rings one of which has all nodes of the other, a key moves only to a node that
    the smaller one lacks. -/
theorem keeps_or_moves (sorted : r'.Sorted) (sorted' : r.Sorted) (distinct : r.Distinct)
    (more : r.ring ⊆ r'.ring) :
    r'.shardForKey key = r.shardForKey key ∨
      ∃ vnode ∈ r'.ring, vnode ∉ r.ring ∧ r'.shardForKey key = some vnode.2 := by
  cases owned : r'.shardForKey key with
  | none =>
    rw [shardForKey_eq_none] at owned
    exact .inl (shardForKey_eq_none.mpr (subset_nil.mp (owned ▸ more))).symm
  | some owner =>
    obtain ⟨token, fst⟩ := exists_first sorted owned
    by_cases old : (token, owner) ∈ r.ring
    · exact .inl ((shardForKey_eq_some_iff sorted' distinct).mpr ⟨token, fst.subset more old⟩).symm
    · exact .inr ⟨_, fst.1, old, rfl⟩

/-- A key is owned by the shard of the first token at or after its hash; a shard that joins or
    leaves changes the owner of no key but those it owns then or owned before. -/
theorem Reached.moves_only_what_it_must (reached : Reached r) (distinct : r.Distinct) :
    (∀ key shard, r.shardForKey key = some shard ↔
      ∃ token, First (hashKey key) r.ring (token, shard)) ∧
    (∀ shard, r.Absent shard → (r.addShard shard).Distinct → ∀ key,
      (r.addShard shard).shardForKey key = r.shardForKey key ∨
        (r.addShard shard).shardForKey key = some shard) ∧
    (∀ shard key, r.shardForKey key ≠ some shard →
      (r.removeShard shard).shardForKey key = r.shardForKey key) ∧
    ∀ shard, r.Absent shard → ∀ key,
      ((r.addShard shard).removeShard shard).shardForKey key = r.shardForKey key := by
  have sorted := reached.sorted
  refine ⟨fun _ _ => shardForKey_eq_some_iff sorted distinct, fun shard _ _ key => ?_,
    fun shard key other => ?_, fun shard absent key => ?_⟩
  · have more : r.ring ⊆ (r.addShard shard).ring := fun _ mem => mem_addShard.mpr (.inl mem)
    rcases keeps_or_moves (sorted_addShard) sorted distinct more with
      same | ⟨vnode, mem, new, owned⟩
    · exact .inl same
    · rw [owned, snd_of_mem_vnodesOf ((mem_addShard.mp mem).resolve_left new)]
      exact .inr rfl
  · have fewer : (r.removeShard shard).ring.Sublist r.ring := filter_sublist
    rcases keeps_or_moves sorted (sorted.sublist fewer) (distinct.sublist (fewer.map _))
      fewer.subset with same | ⟨vnode, mem, gone, owned⟩
    · exact same.symm
    · by_cases own : vnode.2 = shard
      · exact absurd (own ▸ owned) other
      · exact absurd (mem_filter.mpr ⟨mem, decide_eq_true own⟩) gone
  · have more : r.ring ⊆ ((r.addShard shard).removeShard shard).ring := fun vnode mem =>
      mem_filter.mpr ⟨mem_addShard.mpr (.inl mem), decide_eq_true (absent vnode mem)⟩
    have again : ((r.addShard shard).removeShard shard).Sorted := (sorted_addShard).filter _
    rcases keeps_or_moves again sorted distinct more with same | ⟨vnode, mem, new, -⟩
    · exact same
    · obtain ⟨added, kept⟩ := mem_filter.mp mem
      have own := snd_of_mem_vnodesOf ((mem_addShard.mp added).resolve_left new)
      exact absurd own (of_decide_eq_true kept)

def twoShards : ConsistentHashRing := ((new 3).addShard 0).addShard 1

/-- A third shard takes a key of the second and gives it back. -/
theorem moves_only_what_it_must_two :
    twoShards.shardForKey [1] = some 0 ∧ (twoShards.removeShard 1).shardForKey [1] = some 0 ∧
      twoShards.shardForKey [2] = some 1 ∧ (twoShards.addShard 2).shardForKey [2] = some 2 ∧
      ((twoShards.addShard 2).removeShard 2).shardForKey [2] = some 1 := by
  have fst : ((new 3).addShard 0).Absent 1 := by
    unfold Absent
    decide +kernel
  have snd : twoShards.Absent 2 := by
    unfold Absent
    decide +kernel
  have distinct : twoShards.Distinct := by
    unfold Distinct
    decide +kernel
  have kept : twoShards.shardForKey [1] = some 0 := by decide +kernel
  have lent : twoShards.shardForKey [2] = some 1 := by decide +kernel
  have reached : Reached twoShards := .addShard (.addShard (.new 3) fun _ mem => by cases mem) fst
  obtain ⟨-, -, left, back⟩ := reached.moves_only_what_it_must distinct
  refine ⟨kept, (left 1 [1] ?_).trans kept, lent, by decide +kernel, (back 2 snd [2]).trans lent⟩
  rw [kept]
  decide

end ConsistentHashRing
end HoloSphere.Cluster
