import HoloSphere.Index.Certified

/-! # Certified search after a history

The proof material of an index is stale once a vector has been added without it being thrown
away.  That happens to every insertion that does not end a complete wiring: all of them in strict
mode, and the one that becomes the root of the graph.  In a history without such an insertion into
an index that has been searched, certified search ranks like the scan.
-/

namespace HoloSphere.Index
open Proof Rivero Metadata Store List HNSQRIndex VectorEmbedding
namespace CertifiedIndex

inductive Op where
  | insert (id : String) (data : VectorEmbedding) (drawn : Nat) (attrs : Attributes)
  | remove (id : String)
  | clear
  | certifiedSearch (fuel : Nat) (qry : VectorEmbedding) (k : Nat)
      (mask : Option (Finset NodeIndex))

section
variable (nums : Numerals) (route : Routing ℂ ℝ)

noncomputable def step (st : CertifiedIndex) : Op → CertifiedIndex
  | .insert id data drawn attrs => st.insert nums route id data drawn attrs
  | .remove id => st.remove route id
  | .clear => st.clear
  | .certifiedSearch fuel qry k mask =>
    (st.certifiedSearch route fuel qry k mask).1

noncomputable def run (st : CertifiedIndex) (ops : List Op) : CertifiedIndex :=
  ops.foldl (step nums route) st

end

/-- An insertion that fails. -/
def Refuses (id : String) (data : VectorEmbedding) (st : CertifiedIndex) : Prop :=
  data.dimension ≠ st.index.dimension ∨ st.index.contains id = true ∨
    st.index.maxCapacity ≤ st.index.arena.length

/-- A non-zero vector is added before anything is cached, or to a graph that has a root. -/
def Keeps (st : CertifiedIndex) : Op → Prop
  | .insert id data _ _ =>
    data.norm ≠ 0 ∧ (st.Refuses id data ∨ st.proofTree = none ∨
        st.index.buildGraph = true ∧ st.index.entryPoints ≠ [] ∧ st.index.arena ≠ [])
  | _ => True

def KeepsThroughout (nums : Numerals) (route : Routing ℂ ℝ) (st : CertifiedIndex) : List Op → Prop
  | [] => True
  | op :: rest =>
    st.Keeps op ∧ (st.step nums route op).KeepsThroughout nums route rest

/-- The proof material is that of the index, unless there is nothing to search. -/
structure Sound (route : Routing ℂ ℝ) (config : HNSQRConfig) (dim : Nat) (st : CertifiedIndex) :
    Prop where
  config : st.index.config = config
  dimension : st.index.dimension = dim
  formed : st.index.WellFormed exactArithmetic route
  nonzero : ∀ face ∈ st.index.faces, norm face.vector ≠ 0
  fresh : st.proofTree = none ∨ st.index.arena = [] ∨ st.proofTree = some st.index.proofTree ∧
      st.proofVectors = some st.index.normalizedVectors

section
variable {nums : Numerals} {route : Routing ℂ ℝ} {config : HNSQRConfig} {st : CertifiedIndex}

theorem sound_new (config : HNSQRConfig) (dim : Nat) :
    Sound route config dim (new config dim) where
  config := rfl
  dimension := rfl
  formed := wellFormed_new config dim
  nonzero _ := nofun
  fresh := .inl rfl

theorem refuses_of_error {id : String} {data : VectorEmbedding} {drawn : Nat}
    {attrs : Attributes} {res : HNSQRIndex ℂ ℝ × NodeIndex}
    (refuses : st.Refuses id data) :
    st.index.insert nums exactArithmetic route id data drawn attrs ≠ .ok res := by
  obtain ⟨after, slot⟩ := res
  intro acc
  obtain ⟨done, -⟩ := inserted_of_insert acc
  rcases refuses with length | known | full
  · exact length done.length
  · simp [HNSQRIndex.contains, done.fresh] at known
  · exact full.not_gt done.room

theorem Sound.insert (sound : Sound route config dim st) {id : String} {data : VectorEmbedding}
    {drawn : Nat} {attrs : Attributes} (keeps : st.Keeps (.insert id data drawn attrs)) :
    Sound route config dim (st.insert nums route id data drawn attrs) := by
  obtain ⟨nonzero, allowed⟩ := keeps
  unfold CertifiedIndex.insert
  split
  · exact sound
  · rename_i after slot acc
    obtain ⟨done, rfl⟩ := inserted_of_insert acc
    have formed := sound.formed.inserted done
    have settings := done.config.trans sound.config
    have size := done.dimension.trans sound.dimension
    have measured : ∀ face ∈ after.faces, norm face.vector ≠ 0 := by
      intro face mem
      rw [done.faces] at mem
      rcases mem_append.mp mem with old | last
      · exact sound.nonzero face old
      · cases mem_singleton.mp last
        exact nonzero
    split
    · exact ⟨settings, size, formed, measured, .inl rfl⟩
    · rename_i kept
      refine ⟨settings, size, formed, measured, .inl ?_⟩
      rcases allowed with refuses | none | ⟨graph, rooted, filled⟩
      · exact absurd acc (refuses_of_error refuses)
      · exact none
      · have root : st.index.isRoot st.index.arena.length = false := by
          simp [isRoot, rooted, filled]
        rw [graph, root] at kept
        exact absurd rfl kept

theorem Sound.remove (sound : Sound route config dim st) (id : String) :
    Sound route config dim (st.remove route id) := by
  unfold CertifiedIndex.remove
  cases held : st.index.idToIndex id with
  | none =>
    rw [remove_of_unknown held]
    exact sound
  | some slot =>
    have done := @removed_of_remove _ _ _ _ _ route held
    have found : (st.index.remove route id).2 = true := by
      rw [HNSQRIndex.remove, held]
    split
    · rename_i same
      rw [same] at found
      cases found
    · rename_i after same
      rw [same] at done
      refine ⟨done.config.trans sound.config, done.dimension.trans sound.dimension,
        sound.formed.removed done, ?_, .inl rfl⟩
      intro face mem
      rw [done.faces] at mem
      obtain ⟨place, bound, rfl⟩ := getElem_of_mem mem
      rw [length_modify] at bound
      rw [getElem_modify]
      have pre := sound.nonzero _ (getElem_mem bound)
      split
      · exact pre
      · exact pre

theorem arena_ne_nil (filled : st.index.isEmpty = false) : st.index.arena ≠ [] := by
  intro none
  simp [HNSQRIndex.isEmpty, none] at filled

/-- A search has the proof material of the index at hand, cached or built. -/
theorem Sound.getOrBuildProofTree (sound : Sound route config dim st)
    (filled : st.index.isEmpty = false) :
    st.getOrBuildProofTree = (st.index.proofTree,
        ⟨st.index, some st.index.proofTree, some st.index.normalizedVectors⟩) := by
  rcases sound.fresh with none | nothing | ⟨tree, vecs⟩
  · rw [CertifiedIndex.getOrBuildProofTree, none]
    rfl
  · exact absurd nothing (arena_ne_nil filled)
  · rw [CertifiedIndex.getOrBuildProofTree, tree]
    obtain ⟨idx, proofTree, proofVectors⟩ := st
    dsimp only at tree vecs
    rw [tree, vecs]

theorem certifiedSearch_of_material {qry : VectorEmbedding} {k : Nat}
    (length : qry.dimension = st.index.dimension) (pos : 0 < k)
    (filled : st.index.isEmpty = false)
    (metric : st.index.config.distanceFunction = .cosine) {tree : SemanticProofTree Envelope}
    {vecs : List VectorEmbedding}
    (material : st.getOrBuildProofTree = (tree, ⟨st.index, some tree, some vecs⟩))
    (fuel : Nat) (mask : Option (Finset NodeIndex)) :
    st.certifiedSearch route fuel qry k mask = (⟨st.index, some tree, some vecs⟩,
        (GlobalExactProofSearch.search fuel
          (certifiedQuery st.index.dimension qry.intoNormalized) k [⟨tree, vecs, none, none⟩]
          [] (st.index.riveroIndex.withCandidates (route.compile qry.intoNormalized))
          mask).map fun found =>
            if found.2.globallyExact then .ok (.exact found.1 found.2)
            else .error (.internal
              "Proof search completed without deadline but globally_exact is false")) := by
  rw [certifiedSearch, if_neg (not_not.mpr length), if_neg (by simp [pos.ne', filled]),
    if_neg (not_not.mpr metric), material]
  rfl

theorem Sound.search (sound : Sound route config dim st) (fuel : Nat) (qry : VectorEmbedding)
    (k : Nat) (mask : Option (Finset NodeIndex)) :
    Sound route config dim (st.certifiedSearch route fuel qry k mask).1 := by
  by_cases length : qry.dimension = st.index.dimension
  swap
  · rw [certifiedSearch, if_pos length]
    exact sound
  by_cases trivial : k = 0 ∨ st.index.isEmpty = true
  · rw [certifiedSearch, if_neg (not_not.mpr length), if_pos trivial]
    exact sound
  by_cases metric : st.index.config.distanceFunction = .cosine
  swap
  · rw [certifiedSearch, if_neg (not_not.mpr length), if_neg trivial, if_pos metric]
    exact sound
  rw [not_or, Bool.not_eq_true] at trivial
  rw [certifiedSearch_of_material length (Nat.pos_of_ne_zero trivial.1) trivial.2 metric
    (sound.getOrBuildProofTree trivial.2)]
  exact { sound with fresh := .inr (.inr ⟨rfl, rfl⟩) }

theorem Sound.step (sound : Sound route config dim st) (keeps : st.Keeps op) :
    Sound route config dim (st.step nums route op) := by
  cases op with
  | insert id data drawn attrs => exact sound.insert keeps
  | remove id => exact sound.remove id
  | clear =>
    exact ⟨sound.config, sound.dimension, wellFormed_clear _, fun _ => nofun, .inr (.inl rfl)⟩
  | certifiedSearch fuel qry k mask => exact sound.search fuel qry k mask

theorem Sound.run (sound : Sound route config dim st) (keeps : st.KeepsThroughout nums route ops) :
    Sound route config dim (st.run nums route ops) := by
  induction ops generalizing st with
  | nil => exact sound
  | cons op rest ih => exact ih (sound.step keeps.1) keeps.2

/-- With fresh proof material a search returns what the scan returns, the best by cosine. -/
theorem Sound.certifiedSearch (sound : Sound route config dim st)
    (metric : st.index.config.distanceFunction = .cosine) {qry : VectorEmbedding}
    (length : qry.dimension = st.index.dimension) (k : Nat)
    (fits : st.index.arena.length < 2 ^ 31)
    (comparable : st.index.Comparable qry mask)
    (prunable : st.index.Prunable mask) :
    st.index.searchIndicesExact exactArithmetic qry k mask =
        .ok (st.index.cosineRanking qry k mask) ∧
      ∃ turns, ∀ fuel, turns ≤ fuel → ∃ proof, (st.certifiedSearch route fuel qry k mask).2 =
          some (.ok (.exact (st.index.cosineRanking qry k mask) proof)) := by
  by_cases trivial : k = 0 ∨ st.index.isEmpty = true
  · have nothing : st.index.cosineRanking qry k mask = [] := by
      rcases trivial with none | empty
      · simp [cosineRanking, none, best]
      · simp [cosineRanking, liveSlots_eq_nil.mpr empty, best]
    rw [nothing]
    refine ⟨?_, 0, fun fuel _ => ⟨{}, ?_⟩⟩
    · rw [searchIndicesExact, if_neg (not_not.mpr
        (show List.length qry = st.index.dimension from length)), if_pos trivial]
    · rw [CertifiedIndex.certifiedSearch, if_neg (not_not.mpr length), if_pos trivial]
  · rw [not_or, Bool.not_eq_true] at trivial
    obtain ⟨some, filled⟩ := trivial
    have pos := Nat.pos_of_ne_zero some
    have spacious : 0 < st.index.dimension := by
      obtain ⟨entry, mem⟩ := exists_mem_of_ne_nil _ (arena_ne_nil filled)
      have among := mem_map_of_mem (f := Slot.face) mem
      rw [← (sound.formed.written _ among).1]
      refine length_pos_iff.mpr fun none => sound.nonzero _ among ?_
      simp [none, VectorEmbedding.norm, VectorEmbedding.dimension, Geometry.size, Geometry.dot]
    refine ⟨searchIndicesExact_eq sound.formed metric length pos filled comparable, ?_⟩
    obtain ⟨turns, ends⟩ := search_fresh sound.formed length spacious pos filled fits comparable
      prunable (route.compile qry.intoNormalized)
    refine ⟨turns, fun fuel enough => ?_⟩
    obtain ⟨proof, returned, exact⟩ := ends fuel enough
    refine ⟨proof, ?_⟩
    have view : [(⟨st.index.proofTree, st.index.normalizedVectors, none, none⟩ :
        SegmentProofView VectorEmbedding Unit Envelope)] = [st.index.proofView] := rfl
    rw [certifiedSearch_of_material length pos filled metric
      (sound.getOrBuildProofTree filled), view, returned]
    simp [exact]

end

/-- Over every history that adds no vector behind the back of the proof material. -/
theorem certifiedSearch_after_history (nums : Numerals) (route : Routing ℂ ℝ)
    (config : HNSQRConfig) (metric : config.distanceFunction = .cosine) (dim : Nat)
    (ops : List Op) (keeps : (new config dim).KeepsThroughout nums route ops)
    (qry : VectorEmbedding) (length : qry.dimension = dim) (k : Nat)
    (mask : Option (Finset NodeIndex)) :
    let reached := (new config dim).run nums route ops
    reached.index.arena.length < 2 ^ 31 → reached.index.Comparable qry mask →
      reached.index.Prunable mask →
      reached.index.searchIndicesExact exactArithmetic qry k mask =
          .ok (reached.index.cosineRanking qry k mask) ∧
        ∃ turns, ∀ fuel, turns ≤ fuel → ∃ proof, (reached.certifiedSearch route fuel qry k mask).2 =
            some (.ok (.exact (reached.index.cosineRanking qry k mask) proof)) := by
  intro reached fits comparable prunable
  have sound := (sound_new config dim).run keeps
  exact sound.certifiedSearch ((congrArg HNSQRConfig.distanceFunction sound.config).trans metric)
    (length.trans sound.dimension.symm) k fits comparable prunable

/-- Nothing is registered and nothing is wired. -/
def idleRouting : Routing ℂ ℝ where
  compile _ := []
  selectRiveroWitnesses _ _ := []
  reciprocalWitnesses _ _ _ := []
  connections _ _ _ := []

def plainNumerals : Numerals := ⟨fun _ => "", fun _ => 0, fun _ => none⟩

/-- The second vector comes after a search. -/
def searchedBetween : List Op :=
  [.insert "a" [1] 0 .none, .certifiedSearch 0 [1] 1 none, .insert "b" [1] 0 .none]

theorem unit_norm : norm [1] = 1 := by
  rw [norm_singleton, norm_one]

theorem unit_cosine : cosine [1] [1] = 1 := by
  rw [cosine, unit_norm, dotProduct_singleton]
  simp

theorem searchedBetween_keeps :
    (new {} 1).KeepsThroughout plainNumerals idleRouting searchedBetween :=
  ⟨⟨by rw [unit_norm]; exact one_ne_zero, .inr (.inl rfl)⟩, trivial,
    ⟨by rw [unit_norm]; exact one_ne_zero,
      .inr (.inr ⟨rfl, cons_ne_nil _ _, cons_ne_nil _ _⟩)⟩, trivial⟩

/-- Every slot is live and holds the same vector. -/
def Uniform (idx : HNSQRIndex ℂ ℝ) : Prop :=
  ∀ face ∈ idx.faces, face.vector = [1] ∧ face.live = true

section
variable {idx : HNSQRIndex ℂ ℝ}

theorem Uniform.comparable (uniform : Uniform idx) : idx.Comparable [1] mask := by
  intro slot live _
  rw [isLive_eq, Option.any_eq_true] at live
  obtain ⟨face, found, -⟩ := live
  rw [vectorSlice_eq, found, Option.elim_some, (uniform face (mem_of_getElem? found)).1]
  refine .inr ?_
  rw [unit_norm]
  norm_num

theorem Uniform.isLive (uniform : Uniform idx) (hin : slot < idx.arena.length) :
    idx.isLive slot = true := by
  rw [← length_faces] at hin
  rw [isLive_eq, getElem?_eq_getElem hin]
  exact (uniform _ (getElem_mem hin)).2

theorem Uniform.prunable (uniform : Uniform idx) : idx.Prunable mask :=
  .inr fun _ hin _ => uniform.isLive hin

theorem Uniform.cosineRanking (uniform : Uniform idx) {k : Nat} (few : idx.arena.length ≤ k) :
    idx.cosineRanking [1] k none = (range idx.arena.length).map fun slot => (slot, 1) := by
  have live : idx.liveSlots.filter (admits none) = range idx.arena.length := by
    rw [liveSlots, filter_filter, filter_eq_self]
    intro slot hin
    simp [admits, uniform.isLive (mem_range.mp hin)]
  have scores : ∀ slot, idx.isLive slot = true → admits none slot = true →
      1 = cosine [1] (idx.vectorSlice slot) := by
    intro slot live _
    have bound := lt_of_isLive live
    rw [← length_faces] at bound
    rw [vectorSlice_eq, getElem?_eq_getElem bound, Option.elim_some,
      (uniform _ (getElem_mem bound)).1, unit_cosine]
  have sorted : ((range idx.arena.length).map fun slot =>
      (⟨slot, 1⟩ : Finalist ℝ)).Pairwise (· ≤ ·) := by
    rw [pairwise_map]
    refine pairwise_lt_range.imp fun {slot other} pre => ?_
    exact (Finalist.lt_iff.mpr (.inr ⟨rfl, pre⟩) : (⟨slot, 1⟩ : Finalist ℝ) < ⟨other, 1⟩).le
  rw [← cosineRanking_eq scores, live, best_of_length_le (by simpa using few),
    sorted.insertionSort_eq, map_map]
  rfl

end

noncomputable def unitFace (id : String) : Face ℂ ℝ := ⟨[1], norm [1] ^ 2, some id, true⟩

theorem uniform_of_faces {idx : HNSQRIndex ℂ ℝ} (ids : List String)
    (shown : idx.faces = ids.map unitFace) : Uniform idx := by
  intro face mem
  rw [shown] at mem
  obtain ⟨id, -, rfl⟩ := mem_map.mp mem
  exact ⟨rfl, rfl⟩

/-- In a graph the second vector is found. -/
theorem wired_vector_is_found : norm [1] = 1 ∧ ∃ turns, ∀ fuel, turns ≤ fuel → ∃ proof,
        (((new {} 1).run plainNumerals idleRouting searchedBetween).certifiedSearch idleRouting fuel
          [1] 2 none).2 = some (.ok (.exact [(0, 1), (1, 1)] proof)) := by
  have uniform : Uniform ((new {} 1).run plainNumerals idleRouting searchedBetween).index :=
    uniform_of_faces ["a", "b"] rfl
  have ranking := uniform.cosineRanking (k := 2) le_rfl
  obtain ⟨-, found⟩ := certifiedSearch_after_history plainNumerals idleRouting {} rfl 1
    searchedBetween searchedBetween_keeps [1] rfl 2 none (by decide) uniform.comparable
    uniform.prunable
  rw [ranking] at found
  exact ⟨unit_norm, found⟩

def strictConfig : HNSQRConfig := { riveroEnabled := true, riveroFallbackOnUnderfill := false }

noncomputable def strictFirst : CertifiedIndex :=
  (new strictConfig 1).insert plainNumerals idleRouting "a" [1] 0 .none

noncomputable def strictBoth : CertifiedIndex :=
  (new strictConfig 1).run plainNumerals idleRouting searchedBetween

theorem strictFirst_sound : Sound idleRouting strictConfig 1 strictFirst :=
  (sound_new strictConfig 1).insert ⟨by rw [unit_norm]; exact one_ne_zero, .inr (.inl rfl)⟩

theorem strictBoth_formed : strictBoth.index.WellFormed exactArithmetic idleRouting := by
  have acc : strictFirst.index.insert plainNumerals exactArithmetic idleRouting "b" [1] 0
      .none = .ok (strictBoth.index, 1) := rfl
  exact strictFirst_sound.formed.inserted (inserted_of_insert acc).1

theorem strictBoth_material : strictBoth.getOrBuildProofTree =
    (strictFirst.index.proofTree, ⟨strictBoth.index, some strictFirst.index.proofTree,
      some strictFirst.index.normalizedVectors⟩) := rfl

/-- In strict mode the second vector is missed. -/
theorem strict_vector_is_missed : (∃ turns, ∀ fuel, turns ≤ fuel → ∃ proof,
      (strictBoth.certifiedSearch idleRouting fuel [1] 2 none).2 =
        some (.ok (.exact [(0, 1)] proof))) ∧
      strictBoth.index.searchIndicesExact exactArithmetic [1] 2 none = .ok [(0, 1), (1, 1)] := by
  have alone : Uniform strictFirst.index := uniform_of_faces ["a"] rfl
  have both : Uniform strictBoth.index := uniform_of_faces ["a", "b"] rfl
  constructor
  · obtain ⟨turns, ends⟩ := @search_fresh strictFirst.index idleRouting 2 [1] none
      strictFirst_sound.formed rfl one_pos two_pos rfl (by decide) alone.comparable
      alone.prunable []
    refine ⟨turns, fun fuel enough => ?_⟩
    obtain ⟨proof, returned, exact⟩ := ends fuel enough
    have ranking := alone.cosineRanking (k := 2) (by decide)
    refine ⟨proof, ?_⟩
    rw [@certifiedSearch_of_material idleRouting strictBoth [1] 2 rfl two_pos rfl rfl _ _
      strictBoth_material]
    have dim : strictBoth.index.dimension = strictFirst.index.dimension := rfl
    have addr : idleRouting.compile (intoNormalized [1]) = [] := rfl
    have view : [(⟨strictFirst.index.proofTree, strictFirst.index.normalizedVectors, none, none⟩ :
        SegmentProofView VectorEmbedding Unit Envelope)] = [strictFirst.index.proofView] := rfl
    rw [RiveroTerritoryIndex.withCandidates_nil, ranking] at returned
    rw [dim, addr, RiveroTerritoryIndex.withCandidates_nil, view, returned,
      Option.map_some, if_pos exact]
    rfl
  · have ranking := both.cosineRanking (k := 2) (by decide)
    have scan := @searchIndicesExact_eq strictBoth.index idleRouting 2 [1] none
      strictBoth_formed rfl rfl two_pos rfl both.comparable
    rw [ranking] at scan
    exact scan

end CertifiedIndex
end HoloSphere.Index
