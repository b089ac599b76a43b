import HoloSphere.Consensus.DurableStorage
import HoloSphere.Consensus.Repair
import Mathlib.Data.List.TakeWhile

/-! # The durable store stays in step

The three representations of the log, memory, segment metadata and files, agree
over every sequence of appends, truncations and compactions: the segments tile an
interval of indices that ends with the last entry (`Tiles`), and each file frames
its part of the cached log (`Backed`).
-/

namespace HoloSphere.Consensus
open Format AList
open List hiding count mem_keys
variable {δ : Type}

theorem ofDigitChars_zeros :
    Nat.ofDigitChars 10 (replicate count '0' ++ digits) 0 = Nat.ofDigitChars 10 digits 0 := by
  induction count with
  | zero => rfl
  | succ count ih => exact ih

theorem segmentFileName_injective (same : segmentFileName start = segmentFileName start') :
    start = start' := by
  have chars := String.ofList_injective same
  have padded := append_cancel_right chars
  have values := congrArg (fun digits => Nat.ofDigitChars 10 digits 0) padded
  simpa [ofDigitChars_zeros] using values

theorem hasRlogExtension_segmentFileName : hasRlogExtension (segmentFileName start) = true := by
  have digits : 0 < (Nat.toDigits 10 start).length := Nat.length_toDigits_pos
  simp only [hasRlogExtension, segmentFileName, String.toList_ofList, Bool.and_eq_true,
    isSuffixOf_iff_suffix, decide_eq_true_eq]
  refine ⟨suffix_append _ _, ?_⟩
  simp only [length_append, length_cons, length_nil]
  omega

/-- Segments that tile the indices from `lo` to below `hi` in order. -/
def Tiles : Nat → Nat → List LogSegmentMeta → Prop
  | lo, hi, [] => lo = hi
  | lo, hi, seg :: rest =>
    seg.startIndex = lo ∧ lo ≤ seg.endIndex ∧ seg.entryCount = seg.endIndex + 1 - lo ∧
      Tiles (seg.endIndex + 1) hi rest

namespace Tiles

theorem append (h : Tiles lo mid fst) (h' : Tiles mid hi snd) : Tiles lo hi (fst ++ snd) := by
  induction fst generalizing lo with
  | nil =>
    cases h
    exact h'
  | cons seg rest ih => exact ⟨h.1, h.2.1, h.2.2.1, ih h.2.2.2⟩

theorem split (h : Tiles lo hi (fst ++ snd)) : ∃ mid, Tiles lo mid fst ∧ Tiles mid hi snd := by
  induction fst generalizing lo with
  | nil => exact ⟨lo, rfl, h⟩
  | cons seg rest ih =>
    obtain ⟨mid, left, right⟩ := ih h.2.2.2
    exact ⟨mid, ⟨h.1, h.2.1, h.2.2.1, left⟩, right⟩

section
variable (h : Tiles lo hi segs)
include h

theorem le : lo ≤ hi := by
  induction segs generalizing lo with
  | nil => exact Nat.le_of_eq h
  | cons seg rest ih =>
    have later := ih h.2.2.2
    have fst := h.2.1
    omega

/-- Where a segment of the tiling lies. -/
theorem mem (hm : seg ∈ segs) :
    lo ≤ seg.startIndex ∧ seg.startIndex ≤ seg.endIndex ∧ seg.endIndex < hi ∧
      seg.entryCount = seg.endIndex + 1 - seg.startIndex := by
  induction segs generalizing lo with
  | nil => cases hm
  | cons head rest ih =>
    obtain ⟨start, fst, count, later⟩ := h
    have bound := later.le
    rcases mem_cons.mp hm with rfl | hin
    · exact ⟨by omega, by omega, by omega, by omega⟩
    · have inner := ih later hin
      exact ⟨by omega, inner.2.1, inner.2.2⟩

theorem nodup : (segs.map LogSegmentMeta.startIndex).Nodup := by
  induction segs generalizing lo with
  | nil => exact nodup_nil
  | cons head rest ih =>
    obtain ⟨start, fst, -, later⟩ := h
    refine nodup_cons.mpr ⟨?_, ih later⟩
    intro again
    obtain ⟨seg, hm, same⟩ := mem_map.mp again
    have beyond := (later.mem hm).1
    omega

theorem start_inj (hm : seg ∈ segs) (member' : seg' ∈ segs)
    (same : seg.startIndex = seg'.startIndex) : seg = seg' :=
  inj_on_of_nodup_map h.nodup hm member' same

/-- Dropping the segments that start at `fromIndex` or later cuts the tiling there, up
    to a last segment that reaches over. -/
theorem retain_start :
    ∃ mid, Tiles lo mid (segs.filter fun seg => seg.startIndex < fromIndex) ∧ mid ≤ hi ∧
      (mid = hi ∨ fromIndex ≤ mid) := by
  induction segs generalizing lo with
  | nil => exact ⟨lo, rfl, Nat.le_of_eq h, .inl h⟩
  | cons seg rest ih =>
    have whole := h
    obtain ⟨start, fst, count, later⟩ := h
    by_cases early : seg.startIndex < fromIndex
    · obtain ⟨mid, tiles, below, reached⟩ := ih later
      rw [filter_cons_of_pos (by simpa using early)]
      exact ⟨mid, ⟨start, fst, count, tiles⟩, below, reached⟩
    · have nothing : (seg :: rest).filter (fun seg => seg.startIndex < fromIndex) = [] := by
        refine filter_eq_nil_iff.mpr ?_
        intro other hm
        have beyond := (whole.mem hm).1
        simp only [decide_eq_true_eq]
        omega
      rw [nothing]
      exact ⟨lo, rfl, whole.le, .inr (by omega)⟩

/-- Dropping the segments that end at `snapshotIndex` or earlier leaves a tiling of the rest. -/
theorem retain_end :
    ∃ mid, lo ≤ mid ∧ Tiles mid hi (segs.filter fun seg => snapshotIndex < seg.endIndex) := by
  induction segs generalizing lo with
  | nil => exact ⟨lo, Nat.le_refl lo, h⟩
  | cons seg rest ih =>
    have whole := h
    obtain ⟨start, fst, count, later⟩ := h
    by_cases kept : snapshotIndex < seg.endIndex
    · have all : (seg :: rest).filter (fun seg => snapshotIndex < seg.endIndex) = seg :: rest := by
        refine filter_eq_self.mpr ?_
        intro other hm
        rcases mem_cons.mp hm with rfl | hin
        · simpa using kept
        · have beyond := later.mem hin
          simp only [decide_eq_true_eq]
          omega
      rw [all]
      exact ⟨lo, Nat.le_refl lo, whole⟩
    · obtain ⟨mid, above, tiles⟩ := ih later
      rw [filter_cons_of_neg (by simpa using kept)]
      exact ⟨mid, by omega, tiles⟩

end
end Tiles

/-- The entries at positions `start` to below `start + count`. -/
def slice (log : List (RaftLogEntry δ)) (start count : Nat) : List (RaftLogEntry δ) :=
  (log.drop start).take count

theorem slice_append (hin : start + count ≤ log.length) :
    slice (log ++ ents) start count = slice log start count := by
  unfold slice
  rw [drop_append_of_le_length (by omega), take_append_of_le_length]
  rw [length_drop]
  omega

theorem slice_take (hin : start + count ≤ bound) :
    slice (log.take bound) start count = slice log start count := by
  unfold slice
  rw [drop_take, take_take, Nat.min_eq_left]
  omega

theorem slice_rest (all : log.length = start + count) : slice log start count = log.drop start := by
  refine take_of_length_le ?_
  rw [length_drop]
  omega

/-- A tiling up to the end of the log covers everything from its start on. -/
theorem Tiles.flatMap_slice (h : Tiles lo log.length segs) :
    segs.flatMap (fun seg => slice log seg.startIndex seg.entryCount) = log.drop lo := by
  induction segs generalizing lo with
  | nil =>
    cases h
    simp
  | cons seg rest ih =>
    obtain ⟨start, fst, count, later⟩ := h
    have next : seg.endIndex + 1 = lo + seg.entryCount := by omega
    rw [flatMap_cons, ih later, start, next, ← drop_drop]
    exact take_append_drop _ _

theorem Indexed.getLast_index (h : Indexed log) (size : log.length = last + 1)
    (hin : start ≤ last) :
    ((log.drop start).getLast?.map RaftLogEntry.index) = some last := by
  have posn : (log.drop start).getLast? = log[last]? := by
    rw [getLast?_eq_getElem?, length_drop, getElem?_drop]
    congr 1
    omega
  rw [posn, getElem?_eq_getElem (by omega), Option.map_some]
  exact congrArg some (h last _ (getElem?_eq_getElem (by omega)))

namespace DurableRaftStorage

/-- The file of a segment frames its part of the log. -/
structure Backed (codec : RaftCodec δ) (log : List (RaftLogEntry δ)) (dir : Directory)
    (seg : LogSegmentMeta) : Prop where
  path : seg.filePath = segmentFileName seg.startIndex
  content : ∃ bytes, dir.lookup seg.filePath = some bytes ∧
    encodeAll codec.entry (slice log seg.startIndex seg.entryCount) = .ok bytes

theorem Backed.insert (h : Backed codec log dir seg) (other : seg.startIndex ≠ start)
    (bytes : Bytes) :
    Backed codec log (dir.insert (segmentFileName start) bytes) seg := by
  refine ⟨h.path, ?_⟩
  rw [lookup_insert_ne]
  · exact h.content
  · intro same
    exact other (segmentFileName_injective (h.path.symm.trans same))

theorem Backed.of_slice (h : Backed codec log dir seg)
    (same : slice log' seg.startIndex seg.entryCount = slice log seg.startIndex seg.entryCount) :
    Backed codec log' dir seg :=
  ⟨h.path, by rw [same]; exact h.content⟩

theorem slice_grown (all : log.length = start + count) :
    slice (log ++ ents) start (count + ents.length) = slice log start count ++ ents := by
  have size : (log ++ ents).length = start + (count + ents.length) := by
    rw [length_append, all, Nat.add_assoc]
  rw [slice_rest size, slice_rest all, drop_append_of_le_length]
  omega

/-- Nothing but segment files. -/
def Bare (disk : Disk) : Prop :=
  disk.stateFile = none ∧ disk.progressFile = none ∧ disk.snapshotFile = none ∧
    disk.legacyLogFile = none

/-- The cached log up to the index `last`, and the files by their names. -/
structure Cached (codec : RaftCodec δ) (last : Nat) (sto : DurableRaftStorage δ) : Prop where
  size : sto.memoryCache.log.length = last + 1
  indexed : Indexed sto.memoryCache.log
  carried : ∀ e ∈ sto.memoryCache.log.drop 1, codec.entry.RoundTrips e
  named : ∀ name ∈ sto.disk.logDir, ∃ seg ∈ sto.segments, name = seg.filePath
  bare : Bare sto.disk

/-- Memory, metadata and files after calls that left `last` as the last index. -/
structure Mirrored (codec : RaftCodec δ) (last : Nat) (sto : DurableRaftStorage δ) : Prop
    extends Cached codec last sto where
  tiles : ∃ lo, 1 ≤ lo ∧ Tiles lo (last + 1) sto.segments
  backed : ∀ seg ∈ sto.segments, Backed codec sto.memoryCache.log sto.disk.logDir seg

theorem Mirrored.fresh (codec : RaftCodec δ) :
    Mirrored codec 0 { disk := {}, segments := [], memoryCache := .new } where
  size := rfl
  indexed := .sentinel
  carried _ hm := by cases hm
  tiles := ⟨1, Nat.le_refl 1, rfl⟩
  backed _ hm := by cases hm
  named name hm := by
    have none := mem_keys.mp hm
    cases none
  bare := ⟨rfl, rfl, rfl, rfl⟩

/-- Entries that continue the log after the index `last`. -/
def Consecutive (last : Nat) (ents : List (RaftLogEntry δ)) : Prop :=
  ∀ (k : Nat) (e : RaftLogEntry δ), ents[k]? = some e → e.index = last + 1 + k

theorem Consecutive.head (h : Consecutive last ents) (found : ents.head? = some fst) :
    fst.index = last + 1 := by
  rw [List.head?_eq_getElem?] at found
  exact h 0 fst found

theorem Consecutive.getLast (h : Consecutive last ents) (found : ents.getLast? = some final) :
    final.index = last + ents.length := by
  rw [getLast?_eq_getElem?] at found
  have hin := (List.getElem?_eq_some_iff.mp found).1
  rw [h _ final found]
  omega

theorem Consecutive.foldl_putEntry {log : List (RaftLogEntry δ)} (h : Consecutive last ents)
    (size : log.length = last + 1) :
    ents.foldl MemoryRaftStorage.putEntry log = log ++ ents := by
  refine MemoryRaftStorage.foldl_putEntry_end ents log ?_
  intro k hin
  rw [h k _ (getElem?_eq_getElem hin), size]

theorem Consecutive.indexed {log : List (RaftLogEntry δ)} (h : Consecutive last ents)
    (size : log.length = last + 1) (indexed : Indexed log) :
    Indexed (log ++ ents) :=
  indexed.append fun k e here => by rw [h k e here, size]

/-- What a successful segmented append does with a batch that is not empty. -/
inductive Appended (codec : RaftCodec δ) (ents : List (RaftLogEntry δ)) (fst last : Nat)
    (sto : DurableRaftStorage δ) : DurableRaftStorage δ → Prop where
  | extended (init : List LogSegmentMeta) (seg : LogSegmentMeta) (framed : Bytes)
      (encoded : encodeAll codec.entry ents = .ok framed)
      (segs : sto.segments = init ++ [seg]) :
      Appended codec ents fst last sto { sto with
        disk := { sto.disk with
          logDir := sto.disk.logDir.insert seg.filePath
            ((sto.disk.logDir.lookup seg.filePath).getD [] ++ framed) }
        segments := init ++ [{ seg with
            endIndex := last
            entryCount := seg.entryCount + ents.length
            byteSize := seg.byteSize + framed.length }] }
  | rotated (framed : Bytes) (encoded : encodeAll codec.entry ents = .ok framed) :
      Appended codec ents fst last sto { sto with
        disk := { sto.disk with
          logDir := sto.disk.logDir.insert (segmentFileName fst) framed }
        segments := sto.segments ++ [⟨fst, last, ents.length, framed.length, segmentFileName fst⟩] }

variable {sto : DurableRaftStorage δ}

theorem appendEntriesSegmented_effect {ents : List (RaftLogEntry δ)} (head : ents.head? = some fst)
    (last : ents.getLast? = some final)
    (done : sto.appendEntriesSegmented codec ents = .ok stored) :
    Appended codec ents fst.index final.index sto stored := by
  unfold appendEntriesSegmented at done
  simp only [head, last] at done
  cases encoded : encodeAll codec.entry ents with
  | error e => simp [encoded] at done
  | ok framed =>
    simp only [encoded] at done
    split at done
    case h_1 lastSeg rotation found =>
      obtain ⟨init, segs⟩ := getLast?_eq_some_iff.mp found
      cases done
      have shorter : sto.segments.dropLast = init := by
        rw [segs, dropLast_concat]
      rw [shorter]
      exact .extended init lastSeg framed encoded segs
    case h_2 =>
      cases done
      exact .rotated framed encoded

section
variable {ents : List (RaftLogEntry δ)}

/-- The entries are in memory; it is left to say how they came to the files. -/
theorem Mirrored.of_grown (h : Mirrored codec last sto) (consecutive : Consecutive last ents)
    (carried : ∀ e ∈ ents, codec.entry.RoundTrips e)
    (memory : stored.memoryCache.log = sto.memoryCache.log ++ ents)
    (tiles : ∃ lo, 1 ≤ lo ∧ Tiles lo (last + ents.length + 1) stored.segments)
    (backed : ∀ seg ∈ stored.segments,
      Backed codec (sto.memoryCache.log ++ ents) stored.disk.logDir seg)
    (named : ∀ name ∈ stored.disk.logDir, ∃ seg ∈ stored.segments, name = seg.filePath)
    (bare : Bare stored.disk) : Mirrored codec (last + ents.length) stored := by
  refine ⟨⟨?_, ?_, ?_, named, bare⟩, tiles, ?_⟩
  · rw [memory, length_append, h.size]
    omega
  · rw [memory]
    exact consecutive.indexed h.size h.indexed
  · rw [memory, drop_append_of_le_length (by rw [h.size]; omega)]
    intro e hm
    rcases mem_append.mp hm with old | new
    · exact h.carried e old
    · exact carried e new
  · rw [memory]
    exact backed

theorem Mirrored.backed_grown (h : Mirrored codec last sto) (held : seg ∈ sto.segments)
    (apart : seg.startIndex ≠ start) :
    Backed codec (sto.memoryCache.log ++ ents)
      (sto.disk.logDir.insert (segmentFileName start) bytes) seg := by
  obtain ⟨lo, -, tiles⟩ := h.tiles
  have place := tiles.mem held
  apply ((h.backed seg held).insert apart bytes).of_slice
  exact slice_append (by rw [h.size]; omega)

theorem named_rewritten {segs : List LogSegmentMeta} {dir : AList fun _ : String => Bytes}
    (named : ∀ name ∈ dir, ∃ seg ∈ segs ++ [old], name = seg.filePath)
    (path : new.filePath = old.filePath) :
    ∀ name ∈ dir.insert old.filePath bytes, ∃ seg ∈ segs ++ [new], name = seg.filePath := by
  intro name hm
  have here : ∃ seg ∈ segs ++ [new], old.filePath = seg.filePath := ⟨new, by simp, path.symm⟩
  rcases (mem_insert _).mp hm with rfl | held
  · exact here
  · obtain ⟨seg, among, rfl⟩ := named name held
    rcases mem_append.mp among with earlier | same
    · exact ⟨seg, mem_append_left _ earlier, rfl⟩
    · exact mem_singleton.mp same ▸ here

theorem Mirrored.appended (h : Mirrored codec last sto) (nonempty : 0 < ents.length)
    (consecutive : Consecutive last ents) (carried : ∀ e ∈ ents, codec.entry.RoundTrips e)
    (eff : Appended codec ents (last + 1) (last + ents.length) sto stored) :
    Mirrored codec (last + ents.length) { stored with
      memoryCache := { sto.memoryCache with log := sto.memoryCache.log ++ ents } } := by
  obtain ⟨lo, pos, tiles⟩ := h.tiles
  cases eff with
  | extended init seg framed encoded segs =>
    rw [segs] at tiles
    obtain ⟨mid, pre, start, ordered, count, rest⟩ := tiles.split
    have ends : seg.endIndex + 1 = last + 1 := rest
    have hin : seg ∈ sto.segments := by simp [segs]
    obtain ⟨path, bytes, found, content⟩ := h.backed seg hin
    refine h.of_grown consecutive carried rfl ⟨lo, pos, ?_⟩ ?_ ?_ h.bare
    · refine pre.append ⟨start, ?_, ?_, ?_⟩
      · show mid ≤ last + ents.length
        omega
      · show seg.entryCount + ents.length = last + ents.length + 1 - mid
        omega
      · rfl
    · intro other hm
      rcases mem_append.mp hm with old | new
      · have held : other ∈ sto.segments := by simp [segs, old]
        have place := pre.mem old
        rw [path]
        exact h.backed_grown held (by omega)
      · obtain rfl := mem_singleton.mp new
        refine ⟨path, bytes ++ framed, ?_, ?_⟩
        · rw [found]
          exact lookup_insert _
        · show encodeAll codec.entry (slice (sto.memoryCache.log ++ ents) seg.startIndex
            (seg.entryCount + ents.length)) = _
          rw [slice_grown (by rw [h.size]; omega)]
          exact encodeAll_append content encoded
    · exact named_rewritten (segs ▸ h.named) rfl
  | rotated framed encoded =>
    refine h.of_grown consecutive carried rfl ⟨lo, pos, ?_⟩ ?_ ?_ h.bare
    · refine tiles.append ⟨rfl, ?_, ?_, rfl⟩
      · show last + 1 ≤ last + ents.length
        omega
      · show ents.length = last + ents.length + 1 - (last + 1)
        omega
    · intro other hm
      rcases mem_append.mp hm with old | new
      · have place := tiles.mem old
        exact h.backed_grown old (by omega)
      · obtain rfl := mem_singleton.mp new
        refine ⟨rfl, framed, lookup_insert _, ?_⟩
        rw [slice_rest (by rw [length_append, h.size]), drop_left' h.size]
        exact encoded
    · intro name hm
      rcases (mem_insert _).mp hm with rfl | old
      · exact ⟨_, mem_append_right _ (mem_singleton_self _), rfl⟩
      · obtain ⟨other, held, rfl⟩ := h.named name old
        exact ⟨other, mem_append_left _ held, rfl⟩

end

theorem Mirrored.appendEntries (h : Mirrored codec last sto)
    (consecutive : Consecutive last ents) (carried : ∀ e ∈ ents, codec.entry.RoundTrips e)
    (done : sto.appendEntries codec ents = .ok stored) :
    Mirrored codec (last + ents.length) stored := by
  unfold DurableRaftStorage.appendEntries at done
  cases segmented : sto.appendEntriesSegmented codec ents with
  | error e => simp [segmented] at done
  | ok between =>
    simp only [segmented] at done
    cases done
    cases ents with
    | nil =>
      cases segmented
      exact h
    | cons head rest =>
      have final : (head :: rest).getLast? = some ((head :: rest).getLast (by simp)) :=
        getLast?_eq_some_getLast _
      have eff := appendEntriesSegmented_effect rfl final segmented
      rw [consecutive.getLast final, consecutive.head rfl] at eff
      have mirrored := h.appended (by simp) consecutive carried eff
      have cached : between.memoryCache = sto.memoryCache := by cases eff <;> rfl
      rw [cached]
      simp only [MemoryRaftStorage.appendEntries, Fault.run_none]
      rw [consecutive.foldl_putEntry h.size]
      exact mirrored

theorem lookup_foldl_erase (gone : List LogSegmentMeta) (dir : Directory)
    (other : ∀ seg ∈ gone, name ≠ seg.filePath) :
    (gone.foldl (fun dir seg => dir.erase seg.filePath) dir).lookup name = dir.lookup name := by
  induction gone generalizing dir with
  | nil => rfl
  | cons seg rest ih =>
    rw [foldl_cons, ih _ (forall_mem_cons.mp other).2]
    exact lookup_erase_ne (other seg mem_cons_self)

theorem mem_foldl_erase (gone : List LogSegmentMeta) {dir : Directory} {name : String}
    (hm : name ∈ gone.foldl (fun dir seg => dir.erase seg.filePath) dir) :
    name ∈ dir ∧ ∀ seg ∈ gone, name ≠ seg.filePath := by
  induction gone generalizing dir with
  | nil => exact ⟨hm, fun _ none => by cases none⟩
  | cons seg rest ih =>
    obtain ⟨hin, others⟩ := ih hm
    obtain ⟨apart, held⟩ := mem_erase.mp hin
    refine ⟨held, ?_⟩
    intro s choice
    rcases mem_cons.mp choice with rfl | later
    · exact apart
    · exact others s later

/-- The files after `retain` are those of the segments that stay. -/
theorem retainSegments_files (tiles : Tiles lo hi sto.segments)
    (backed : ∀ seg ∈ sto.segments, seg.filePath = segmentFileName seg.startIndex)
    (named : ∀ name ∈ sto.disk.logDir, ∃ seg ∈ sto.segments, name = seg.filePath)
    (keep : LogSegmentMeta → Bool) :
    (∀ seg ∈ (sto.retainSegments keep).segments, ∀ log, Backed codec log sto.disk.logDir seg →
        Backed codec log (sto.retainSegments keep).disk.logDir seg) ∧
    ∀ name ∈ (sto.retainSegments keep).disk.logDir,
      ∃ seg ∈ (sto.retainSegments keep).segments, name = seg.filePath := by
  refine ⟨?_, ?_⟩
  · intro seg hm log held
    obtain ⟨hin, kept⟩ := mem_filter.mp hm
    refine ⟨held.path, ?_⟩
    rw [show (sto.retainSegments keep).disk.logDir.lookup seg.filePath =
      sto.disk.logDir.lookup seg.filePath from lookup_foldl_erase _ _ ?_]
    · exact held.content
    · intro gone dropped same
      obtain ⟨inside', rejected⟩ := mem_filter.mp dropped
      rw [backed seg hin, backed gone inside'] at same
      have equal := tiles.start_inj hin inside' (segmentFileName_injective same)
      rw [← equal, kept] at rejected
      cases rejected
  · intro name hm
    obtain ⟨old, apart⟩ := mem_foldl_erase _ hm
    obtain ⟨seg, hin, rfl⟩ := named name old
    refine ⟨seg, mem_filter.mpr ⟨hin, ?_⟩, rfl⟩
    by_contra rejected
    exact apart seg (mem_filter.mpr ⟨hin, by simpa using rejected⟩) rfl

theorem Mirrored.compactPrefix (h : Mirrored codec last sto) (snapshotIndex : Nat) :
    Mirrored codec last (sto.compactPrefix snapshotIndex) := by
  obtain ⟨lo, pos, tiles⟩ := h.tiles
  obtain ⟨mid, above, rest⟩ := tiles.retain_end
  obtain ⟨kept, named⟩ := retainSegments_files tiles
    (fun seg hm => (h.backed seg hm).path) h.named fun seg => snapshotIndex < seg.endIndex
  exact { h with
    tiles := ⟨mid, by omega, rest⟩
    backed := fun seg hm => kept seg hm _ (h.backed seg (mem_filter.mp hm).1)
    named := named }

/-- The cache after `truncate_suffix`, whose caller never cuts off the sentinel. -/
theorem truncated_log {sto : MemoryRaftStorage δ} (size : sto.log.length = last + 1)
    (pos : 1 ≤ fromIndex) :
    (sto.truncateSuffix .none fromIndex).1.log = sto.log.take (min last (fromIndex - 1) + 1) := by
  simp only [MemoryRaftStorage.truncateSuffix, Fault.run_none]
  split
  · congr 1
    omega
  · refine (take_of_length_le ?_).symm
    omega

/-- The store between the two halves of a truncation: the last segment may still
    reach over the end of the cached log. -/
structure Cut (codec : RaftCodec δ) (last fromIndex : Nat) (sto : DurableRaftStorage δ) : Prop
    extends Cached codec last sto where
  below : last < fromIndex
  tiles : ∃ lo mid, 1 ≤ lo ∧ Tiles lo mid sto.segments ∧
    (sto.segments = [] ∨ mid = last + 1 ∨ (last + 1 = fromIndex ∧ fromIndex < mid))
  starts : ∀ seg ∈ sto.segments, seg.startIndex < fromIndex
  paths : ∀ seg ∈ sto.segments, seg.filePath = segmentFileName seg.startIndex
  backed : ∀ seg ∈ sto.segments, seg.endIndex ≤ last →
    Backed codec sto.memoryCache.log sto.disk.logDir seg

theorem Mirrored.cut (h : Mirrored codec last sto) (pos : 1 ≤ fromIndex) :
    Cut codec (min last (fromIndex - 1)) fromIndex
      (DurableRaftStorage.retainSegments (fun seg => seg.startIndex < fromIndex) { sto with
        memoryCache := (sto.memoryCache.truncateSuffix .none fromIndex).1 }) := by
  obtain ⟨lo, fst, tiles⟩ := h.tiles
  obtain ⟨mid, rest, below, reached⟩ := tiles.retain_start
  obtain ⟨kept, named⟩ := retainSegments_files tiles
    (fun seg hm => (h.backed seg hm).path) h.named fun seg => seg.startIndex < fromIndex
  have log := truncated_log h.size pos
  generalize newLast : min last (fromIndex - 1) = last' at log ⊢
  refine
    { below := by omega, size := ?_, indexed := ?_, carried := ?_
      tiles := ⟨lo, mid, fst, rest, ?_⟩, starts := ?_, paths := ?_
      backed := ?_, named := named, bare := h.bare }
  · show (sto.memoryCache.truncateSuffix .none fromIndex).1.log.length = last' + 1
    rw [log, length_take, h.size]
    omega
  · show Indexed (sto.memoryCache.truncateSuffix .none fromIndex).1.log
    rw [log]
    exact h.indexed.of_isPrefix (List.take_prefix _ _)
  · show ∀ e ∈ (sto.memoryCache.truncateSuffix .none fromIndex).1.log.drop 1, _
    intro e hm
    rw [log, drop_take] at hm
    exact h.carried e (mem_of_mem_take hm)
  · cases segs : sto.segments.filter fun seg => seg.startIndex < fromIndex with
    | nil => exact .inl segs
    | cons head others => exact .inr (by omega)
  · intro seg hm
    simpa using (mem_filter.mp hm).2
  · exact fun seg hm => (h.backed seg (mem_filter.mp hm).1).path
  · intro seg hm hin
    have place := rest.mem hm
    refine (kept seg hm _ (h.backed seg (mem_filter.mp hm).1)).of_slice ?_
    show slice (sto.memoryCache.truncateSuffix .none fromIndex).1.log _ _ = _
    rw [log]
    exact slice_take (by omega)

theorem Cut.pruned (h : Cut codec last fromIndex sto) (fst : 1 ≤ lo)
    (tiles : Tiles lo mid sto.segments) (hin : mid = last + 1) :
    Mirrored codec last sto where
  toCached := h.toCached
  tiles := ⟨lo, fst, hin ▸ tiles⟩
  backed seg hm := by
    have place := tiles.mem hm
    exact h.backed seg hm (by omega)

/-- The whole cached rest of the boundary segment is written back. -/
theorem Cut.kept {codec : RaftCodec δ} {last : Nat}
    (h : Cut codec last fromIndex sto) (cut : last + 1 = fromIndex) (start : Nat) :
    (sto.memoryCache.log.drop start).takeWhile (fun entry => entry.index < fromIndex) =
      sto.memoryCache.log.drop start := by
  refine takeWhile_eq_self_iff.mpr ?_
  intro e hm
  obtain ⟨k, bound, rfl⟩ := getElem_of_mem (mem_of_mem_drop hm)
  have own := h.indexed k _ (getElem?_eq_getElem bound)
  have size := h.size
  simp only [decide_eq_true_eq]
  omega

theorem Cut.rewritten (h : Cut codec last fromIndex sto)
    (segs : sto.segments = init ++ [boundary]) (fst : 1 ≤ lo) (tiles : Tiles lo mid sto.segments)
    (cut : last + 1 = fromIndex)
    (encoded : encodeAll codec.entry (sto.memoryCache.log.drop boundary.startIndex) = .ok framed) :
    Mirrored codec last { sto with
      disk := { sto.disk with logDir := sto.disk.logDir.insert boundary.filePath framed }
      segments := init ++ [{ boundary with
          endIndex := last
          entryCount := (sto.memoryCache.log.drop boundary.startIndex).length
          byteSize := framed.length }] } := by
  have here : boundary ∈ sto.segments := by
    rw [segs]
    exact mem_append_right init (mem_singleton_self _)
  have early := h.starts boundary here
  have path := h.paths boundary here
  rw [segs] at tiles
  obtain ⟨start, pre, begins, ordered, count, ends⟩ := tiles.split
  have size := h.size
  refine
    { h.toCached with
      named := named_rewritten (segs ▸ h.named) rfl, tiles := ⟨lo, fst, ?_⟩, backed := ?_ }
  · refine pre.append ⟨begins, ?_, ?_, rfl⟩
    · show start ≤ last
      omega
    · show (sto.memoryCache.log.drop boundary.startIndex).length = last + 1 - start
      rw [length_drop]
      omega
  · intro seg hm
    rcases mem_append.mp hm with old | new
    · have place := pre.mem old
      have held := h.backed seg (by rw [segs]; exact mem_append_left _ old) (by omega)
      rw [path]
      exact held.insert (by omega) framed
    · obtain rfl := mem_singleton.mp new
      refine ⟨path, framed, lookup_insert _, ?_⟩
      show encodeAll codec.entry (slice sto.memoryCache.log boundary.startIndex
        (sto.memoryCache.log.drop boundary.startIndex).length) = .ok framed
      rw [slice_rest (by rw [length_drop]; omega)]
      exact encoded

theorem Cut.pruneBoundary (h : Cut codec last fromIndex sto)
    (done : sto.pruneBoundary codec fromIndex = .ok stored) : Mirrored codec last stored := by
  obtain ⟨lo, mid, fst, tiles, reach⟩ := h.tiles
  unfold DurableRaftStorage.pruneBoundary at done
  cases found : sto.segments.getLast? with
  | none =>
    simp only [found] at done
    cases done
    have empty := getLast?_eq_none_iff.mp found
    have nothing : Tiles (last + 1) (last + 1) sto.segments := by
      rw [empty]
      rfl
    exact h.pruned (by omega) nothing rfl
  | some boundary =>
    obtain ⟨init, segs⟩ := getLast?_eq_some_iff.mp found
    have here : boundary ∈ sto.segments := by
      rw [segs]
      exact mem_append_right init (mem_singleton_self _)
    have early := h.starts boundary here
    have parts := tiles
    rw [segs] at parts
    obtain ⟨start, pre, begins, ordered, count, ends⟩ := parts.split
    have ends' : boundary.endIndex + 1 = mid := ends
    have filled : sto.segments ≠ [] := ne_nil_of_mem here
    have below := h.below
    simp only [found] at done
    split at done
    case isFalse hin =>
      cases done
      exact h.pruned fst tiles (by
        rcases reach with none | same | ⟨cut, past⟩
        · exact absurd none filled
        · exact same
        · omega)
    case isTrue past =>
      have cut : last + 1 = fromIndex := by
        rcases reach with none | same | ⟨cut, -⟩
        · exact absurd none filled
        · omega
        · exact cut
      have shorter : sto.segments.dropLast = init := by
        rw [segs, dropLast_concat]
      rw [h.kept cut, h.indexed.getLast_index h.size (by omega)] at done
      cases encoded : encodeAll codec.entry (sto.memoryCache.log.drop boundary.startIndex) with
      | error e => simp [encoded] at done
      | ok framed =>
        simp only [encoded, shorter] at done
        cases done
        exact h.rewritten segs fst tiles cut encoded

theorem Mirrored.truncateSuffix (h : Mirrored codec last sto) (pos : 1 ≤ fromIndex)
    (done : sto.truncateSuffix codec fromIndex = .ok stored) :
    Mirrored codec (min last (fromIndex - 1)) stored :=
  (h.cut pos).pruneBoundary done

end DurableRaftStorage
end HoloSphere.Consensus
