import Mathlib.Data.List.Induction
import Mathlib.Data.List.Nodup
import Mathlib.Data.Prod.Lex
import Mathlib.Data.String.Basic

/-! # Federated replicas

A replicator keeps, for each document, the event with the greatest clock it was given,
whatever the order (`Follows`).  The clock compares the names of the regions first, so
the greatest clock need not belong to the latest write.
-/

namespace HoloSphere.Cluster
open Function

structure VectorClockTimestamp where
  regionId : String
  generation : Nat
  lsn : Nat
  wallTimeMs : Nat

namespace VectorClockTimestamp

/-- The derived order compares the fields as they are declared. -/
def key (clock : VectorClockTimestamp) : String ×ₗ Nat ×ₗ Nat ×ₗ Nat :=
  toLex (clock.regionId, toLex (clock.generation, toLex (clock.lsn, clock.wallTimeMs)))

theorem key_injective : Injective key := by
  rintro ⟨⟩ ⟨⟩ same
  simpa [key] using same

instance : LinearOrder VectorClockTimestamp := LinearOrder.lift' key key_injective

/-- Later in all that tells the age of a write. -/
def Before (clock other : VectorClockTimestamp) : Prop :=
  clock.generation < other.generation ∧ clock.lsn < other.lsn ∧
    clock.wallTimeMs < other.wallTimeMs

theorem Before.le_iff (older : Before clock other) :
    clock ≤ other ↔ clock.regionId ≤ other.regionId := by
  change clock.key ≤ other.key ↔ _
  simp only [key, Prod.Lex.toLex_le_toLex, older.1, true_or, and_true]
  exact le_iff_lt_or_eq.symm

end VectorClockTimestamp

structure FederatedMutationEvent (ν : Type) where
  eventId : String
  originRegion : String
  docId : String
  vector : Option ν
  metadata : Option (String → Option String)
  isTombstone : Bool
  clock : VectorClockTimestamp

structure CrossRegionReplicator (ν : Type) where
  localRegionId : String
  replicatedEvents : List (FederatedMutationEvent ν)
  latestClocks : String → Option VectorClockTimestamp

variable {ν : Type} {events : List (FederatedMutationEvent ν)}

namespace CrossRegionReplicator

def new (localRegionId : String) : CrossRegionReplicator ν :=
  ⟨localRegionId, [], fun _ => none⟩

def ingestFederatedEvent (rep : CrossRegionReplicator ν) (event : FederatedMutationEvent ν) :
    CrossRegionReplicator ν × Bool :=
  if event.originRegion = rep.localRegionId then (rep, false)
  else if ∃ existing ∈ rep.latestClocks event.docId, event.clock ≤ existing then (rep, false)
  else ({ rep with
    latestClocks := update rep.latestClocks event.docId (some event.clock)
    replicatedEvents := rep.replicatedEvents ++ [event] }, true)

def ingestAll (rep : CrossRegionReplicator ν) (events : List (FederatedMutationEvent ν)) :
    CrossRegionReplicator ν :=
  events.foldl (fun rep event => (rep.ingestFederatedEvent event).1) rep

/-- The last of the applied events for `doc`. -/
def lastApplied (rep : CrossRegionReplicator ν) (doc : String) :
    Option (FederatedMutationEvent ν) :=
  (rep.replicatedEvents.filter (·.docId = doc)).getLast?

theorem lastApplied_push {rep after : CrossRegionReplicator ν}
    (pushed : after.replicatedEvents = rep.replicatedEvents ++ [event]) :
    after.lastApplied = update rep.lastApplied event.docId (some event) := by
  funext doc
  by_cases own : doc = event.docId
  · simp [lastApplied, pushed, own]
  · simp [lastApplied, pushed, own, Ne.symm own]

/-- For each document, the replicator keeps a given event that none given exceeds. -/
structure Follows (region : String) (rep : CrossRegionReplicator ν)
    (given : List (FederatedMutationEvent ν)) : Prop where
  home : rep.localRegionId = region
  clocks : rep.latestClocks = Option.map (·.clock) ∘ rep.lastApplied
  kept : ∀ doc, ∀ kept ∈ rep.lastApplied doc, kept ∈ given ∧ kept.docId = doc
  greatest : ∀ event ∈ given, ∃ kept ∈ rep.lastApplied event.docId, event.clock ≤ kept.clock

theorem Follows.ingest {rep : CrossRegionReplicator ν} (h : rep.Follows region given)
    (foreign : event.originRegion ≠ region) :
    (rep.ingestFederatedEvent event).1.Follows region (given ++ [event]) := by
  have stale_iff : (∃ existing ∈ rep.latestClocks event.docId, event.clock ≤ existing) ↔
      ∃ kept ∈ rep.lastApplied event.docId, event.clock ≤ kept.clock := by simp [h.clocks]
  have kept : ∀ doc, ∀ kept ∈ rep.lastApplied doc, kept ∈ given ++ [event] ∧ kept.docId = doc :=
    fun doc kept mem => (h.kept doc kept mem).imp_left (List.mem_append_left _)
  unfold ingestFederatedEvent
  rw [if_neg (h.home ▸ foreign)]
  split
  case isTrue stale =>
    refine ⟨h.home, h.clocks, kept, fun other mem => ?_⟩
    rcases List.mem_append.mp mem with old | new
    · exact h.greatest other old
    · rw [List.mem_singleton.mp new]
      exact stale_iff.mp stale
  case isFalse fresh =>
    refine ⟨h.home, ?_, ?_, fun other mem => ?_⟩
    · rw [lastApplied_push rfl, comp_update, ← h.clocks]
      rfl
    · rw [lastApplied_push rfl, forall_update_iff _ fun doc last =>
        ∀ kept ∈ last, kept ∈ given ++ [event] ∧ kept.docId = doc]
      exact ⟨by simp, fun doc _ => kept doc⟩
    · rw [lastApplied_push rfl]
      rcases List.mem_append.mp mem with old | new
      · obtain ⟨last, here, le⟩ := h.greatest other old
        by_cases own : other.docId = event.docId
        · rw [own] at here ⊢
          have newer := le_of_not_ge fun older => fresh (stale_iff.mpr ⟨last, here, older⟩)
          exact ⟨event, update_self .., le.trans newer⟩
        · exact ⟨last, by rwa [update_of_ne own], le⟩
      · rw [List.mem_singleton.mp new]
        exact ⟨event, update_self .., le_rfl⟩

theorem follows_ingestAll (foreign : ∀ event ∈ events, event.originRegion ≠ region) :
    ((new region).ingestAll events).Follows region events := by
  induction events using List.reverseRecOn with
  | nil => exact ⟨rfl, rfl, by simp [lastApplied, new, ingestAll], by simp⟩
  | append_singleton given event ih =>
    rw [ingestAll, List.foldl_concat]
    exact (ih fun other mem => foreign other (by simp [mem])).ingest (foreign event (by simp))

/-- Where no two events have one clock, the greatest one is known by its clock. -/
theorem Follows.lastApplied_iff {rep : CrossRegionReplicator ν} (h : rep.Follows region events)
    (clocks : ∀ event ∈ events, ∀ other ∈ events, event.clock = other.clock → event = other)
    (doc : String) (last : FederatedMutationEvent ν) : rep.lastApplied doc = some last ↔
      last ∈ events ∧ last.docId = doc ∧
        ∀ event ∈ events, event.docId = doc → event.clock ≤ last.clock := by
  constructor
  · intro remains
    obtain ⟨mem, own⟩ := h.kept doc last remains
    refine ⟨mem, own, fun event hin same => ?_⟩
    obtain ⟨kept, here, le⟩ := h.greatest event hin
    rw [same, remains] at here
    rwa [Option.some.inj here]
  · rintro ⟨mem, rfl, greatest⟩
    obtain ⟨kept, here, le⟩ := h.greatest last mem
    obtain ⟨hin, own⟩ := h.kept _ kept here
    rw [Option.mem_def.mp here, clocks last mem kept hin (le_antisymm le (greatest kept hin own))]

theorem lastApplied_eq_some_iff (distinct : (events.map (·.clock)).Nodup)
    (foreign : ∀ event ∈ events, event.originRegion ≠ region) (order : given.Perm events)
    (doc : String) (last : FederatedMutationEvent ν) :
    ((new region).ingestAll given).lastApplied doc = some last ↔ last ∈ events ∧
      last.docId = doc ∧ ∀ event ∈ events, event.docId = doc → event.clock ≤ last.clock := by
  have follows := follows_ingestAll fun event mem => foreign event (order.mem_iff.mp mem)
  simpa only [order.mem_iff] using follows.lastApplied_iff (fun event mem other hin =>
    List.inj_on_of_nodup_map distinct (order.mem_iff.mp mem) (order.mem_iff.mp hin)) doc last

/-- Replicas converge, and to the last write if no other region's name is greater. -/
theorem replicas_converge_to_last_write_iff (distinct : (events.map (·.clock)).Nodup)
    (foreign : ∀ event ∈ events, event.originRegion ≠ region ∧ event.originRegion ≠ region')
    (order : one.Perm events) (order' : two.Perm events) :
    (∀ doc, ((new region).ingestAll one).lastApplied doc =
      ((new region').ingestAll two).lastApplied doc) ∧
    ∀ last ∈ events, (∀ event ∈ events, event.docId = last.docId → event ≠ last →
        event.clock.Before last.clock) →
      (((new region).ingestAll one).lastApplied last.docId = some last ↔
        ∀ event ∈ events, event.docId = last.docId →
          event.clock.regionId ≤ last.clock.regionId) := by
  have left := lastApplied_eq_some_iff distinct (fun event mem => (foreign event mem).1) order
  have right := lastApplied_eq_some_iff distinct (fun event mem => (foreign event mem).2) order'
  refine ⟨fun doc => Option.ext fun last => (left doc last).trans (right doc last).symm, ?_⟩
  intro last mem latest
  simp only [left, mem, true_and]
  refine forall₃_congr fun event hin own => ?_
  by_cases same : event = last
  · simp [same]
  · exact (latest event hin own same).le_iff

/-- Replicas that were given the same events, each in any order and any number of times, keep
    the same event for every document. -/
theorem repeated_delivery_converges {one two : List (FederatedMutationEvent ν)}
    (same : ∀ event, event ∈ one ↔ event ∈ two)
    (clocks : ∀ event ∈ one, ∀ other ∈ one, event.clock = other.clock → event = other)
    (foreign : ∀ event ∈ one, event.originRegion ≠ region ∧ event.originRegion ≠ region') :
    ((new region).ingestAll one).lastApplied = ((new region').ingestAll two).lastApplied := by
  have left := follows_ingestAll fun event mem => (foreign event mem).1
  have right := follows_ingestAll fun event mem => (foreign event ((same event).mpr mem)).2
  funext doc
  refine Option.ext fun last => ?_
  rw [left.lastApplied_iff clocks, right.lastApplied_iff (by simpa only [← same] using clocks)]
  simp only [same]

def older : FederatedMutationEvent Unit := ⟨"1", "b", "d", none, none, false, ⟨"b", 1, 1, 1⟩⟩

def newer : FederatedMutationEvent Unit := ⟨"2", "a", "d", none, none, true, ⟨"a", 2, 2, 2⟩⟩

theorem converge_older_newer :
    ((new "c").ingestAll [older, newer]).lastApplied "d" =
      ((new "d").ingestAll [newer, older]).lastApplied "d" :=
  (replicas_converge_to_last_write_iff (by decide) (by decide) (.refl _) (.swap ..)).1 "d"

theorem converge_repeated : ((new "c").ingestAll [older, newer, older]).lastApplied =
    ((new "d").ingestAll [newer, newer, older]).lastApplied :=
  repeated_delivery_converges (by simp [or_comm]) (by simp [older, newer]) (by decide)

/-- The newer write of region `a` loses against the older one of region `b`. -/
theorem later_write_lost : older.clock.Before newer.clock ∧
    ((new "c").ingestAll [older, newer]).lastApplied "d" = some older :=
  ⟨⟨by decide, by decide, by decide⟩, rfl⟩

end CrossRegionReplicator
end HoloSphere.Cluster
