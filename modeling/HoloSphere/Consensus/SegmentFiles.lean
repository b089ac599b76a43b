import HoloSphere.Consensus.DurableReopen

/-! # Segment files without a cache

What `open` reads from the segment files and what `append_entries` does to them, whatever
the memory cache holds.  The files are read in the order of their names, so the log comes
back in order exactly if the names are sorted as the files were written.  Names are padded
to sixteen digits, which is enough below `10 ^ 16`.
-/

namespace HoloSphere.Consensus
open Format Nat
open List hiding after
variable {δ : Type}

theorem ofDigitChars_cons_zero : ofDigitChars 10 (digit :: chars) 0 =
      10 ^ chars.length * (digit.toNat - '0'.toNat) + Nat.ofDigitChars 10 chars 0 := by
  rw [Nat.ofDigitChars_cons, Nat.ofDigitChars_eq_ofDigitChars_zero, Nat.mul_zero, Nat.zero_add]

theorem isDigit_bounds {digit : Char} (isDigit : digit.isDigit = true) :
    '0'.toNat ≤ digit.toNat ∧ digit.toNat ≤ '0'.toNat + 9 := by
  simp only [Char.isDigit, Bool.and_eq_true, decide_eq_true_eq] at isDigit
  exact isDigit

theorem ofDigitChars_lt_pow (all : ∀ digit ∈ chars, digit.isDigit = true) :
    ofDigitChars 10 chars 0 < 10 ^ chars.length := by
  induction chars with
  | nil => simp
  | cons digit chars ih =>
    have later := ih (forall_mem_cons.mp all).2
    have value := (isDigit_bounds (all digit mem_cons_self)).2
    have bound : 10 ^ chars.length * (digit.toNat - '0'.toNat) ≤ 10 ^ chars.length * 9 :=
      mul_le_mul_left _ (by omega)
    rw [ofDigitChars_cons_zero, length_cons, Nat.pow_succ]
    omega

/-- Digits of the same number of places, before the same rest, are ordered as the numbers are. -/
theorem ofDigitChars_lt_of_lt {fst snd : List Char} (lengths : fst.length = snd.length)
    (digits : ∀ digit ∈ fst ++ snd, digit.isDigit = true) (less : fst ++ after < snd ++ after) :
    ofDigitChars 10 fst 0 < ofDigitChars 10 snd 0 := by
  induction fst generalizing snd with
  | nil =>
    rw [eq_nil_of_length_eq_zero lengths.symm] at less
    exact absurd less (List.lt_irrefl _)
  | cons digit fst ih =>
    cases snd with
    | nil => cases lengths
    | cons other snd =>
      have places : fst.length = snd.length := succ.inj lengths
      rw [ofDigitChars_cons_zero, ofDigitChars_cons_zero, places]
      rw [cons_append, cons_append] at less
      rcases cons_lt_cons_iff.mp less with smaller | ⟨rfl, later⟩
      · have low := isDigit_bounds (digits digit (by simp))
        have step : digit.toNat < other.toNat := smaller
        have rest := @ofDigitChars_lt_pow fst fun other mem =>
          digits other (by simp [mem])
        have bound : 10 ^ snd.length * (digit.toNat - '0'.toNat + 1) ≤
            10 ^ snd.length * (other.toNat - '0'.toNat) :=
          mul_le_mul_left _ (by omega)
        rw [places] at rest
        rw [mul_succ] at bound
        omega
      · have tail := ih places (fun other mem => digits other (by
          rcases mem_append.mp mem with hin | hin
          · simp [hin]
          · simp [hin])) later
        omega

/-- Names of sixteen digits sort as the indices they stand for. -/
theorem segmentFileName_le (order : start ≤ later) (small : later < 10 ^ 16) :
    segmentFileName start ≤ segmentFileName later := by
  refine String.not_lt.mp fun less => ?_
  have digits : ∀ n, n < 10 ^ 16 → (replicate (16 - (toDigits 10 n).length) '0' ++
      toDigits 10 n).length = 16 ∧ ∀ digit ∈ replicate (16 - (toDigits 10 n).length)
        '0' ++ toDigits 10 n, digit.isDigit = true := by
    intro n below
    have places : (toDigits 10 n).length ≤ 16 :=
      (length_toDigits_le_iff (by decide) (by decide)).mpr below
    refine ⟨by simp; omega, fun digit mem => ?_⟩
    rcases mem_append.mp mem with padding | hin
    · rw [(mem_replicate.mp padding).2]
      rfl
    · exact isDigit_of_mem_toDigits (by decide) (by decide) hin
  obtain ⟨firstLength, firstDigits⟩ := digits later small
  obtain ⟨secondLength, secondDigits⟩ := digits start (lt_of_le_of_lt order small)
  have less : (segmentFileName later).toList < (segmentFileName start).toList := less
  simp only [segmentFileName, String.toList_ofList] at less
  have values := ofDigitChars_lt_of_lt (firstLength.trans secondLength.symm) (fun digit mem =>
    (mem_append.mp mem).elim (firstDigits digit) (secondDigits digit)) less
  simp only [ofDigitChars_zeros, ofDigitChars_ten_toDigits] at values
  omega

/-- A segment file by its name and the entries it frames. -/
structure SegmentFile (δ : Type) where
  path : String
  entries : List (RaftLogEntry δ)

def entriesIn (files : List (SegmentFile δ)) (path : String) : List (RaftLogEntry δ) :=
  ((files.find? fun file => file.path = path).map SegmentFile.entries).getD []

/-- Indices that rise along the log. -/
def Rising (ents : List (RaftLogEntry δ)) : Prop :=
  ents.Pairwise fun entry later => entry.index < later.index

namespace DurableRaftStorage

/-- Files that hold a rising log, each named after its first entry.  Every other file of the
    directory is empty, but for the file `loose`, of which nothing is said. -/
structure Laid (codec : RaftCodec δ) (loose : Option String) (files : List (SegmentFile δ))
    (dir : Directory) : Prop where
  named : ∀ file ∈ files,
    ∃ fst, file.entries.head? = some fst ∧ file.path = segmentFileName fst.index
  rising : Rising (files.flatMap SegmentFile.entries)
  carried : ∀ e ∈ files.flatMap SegmentFile.entries, codec.entry.RoundTrips e
  framed : ∀ file ∈ files,
    ∃ bytes, dir.lookup file.path = some bytes ∧ encodeAll codec.entry file.entries = .ok bytes
  others : ∀ name, some name ≠ loose → (∀ file ∈ files, file.path ≠ name) →
    (dir.lookup name).getD [] = []

section
variable {files : List (SegmentFile δ)}

theorem Laid.filled (h : Laid codec loose files dir) (mem : file ∈ files) : file.entries ≠ [] := by
  obtain ⟨fst, head, -⟩ := h.named file mem
  rintro empty
  simp [empty] at head

theorem Laid.ordered (h : Laid codec loose files dir) :
    files.Pairwise fun file later => ∀ x ∈ file.entries, ∀ y ∈ later.entries, x.index < y.index :=
  (pairwise_flatMap.mp h.rising).2

theorem Laid.distinct (h : Laid codec loose files dir) : (files.map SegmentFile.path).Nodup := by
  rw [Nodup, pairwise_map]
  refine h.ordered.imp_of_mem ?_
  intro file later mem member' below same
  obtain ⟨fst, head, path⟩ := h.named file mem
  obtain ⟨other, head', path'⟩ := h.named later member'
  rw [path, path'] at same
  have indices := segmentFileName_injective same
  have less := below fst (mem_of_mem_head? head) other (mem_of_mem_head? head')
  omega

theorem entriesIn_of_mem (uniq : (files.map SegmentFile.path).Nodup) (mem : file ∈ files) :
    entriesIn files file.path = file.entries := by
  unfold entriesIn
  cases found : files.find? fun other => other.path = file.path with
  | none =>
    have absent := find?_eq_none.mp found file mem
    simp at absent
  | some other =>
    have same : other.path = file.path := by simpa using find?_some found
    have hin := mem_of_find?_eq_some found
    rw [inj_on_of_nodup_map uniq hin mem same]
    rfl

theorem entriesIn_eq_nil (absent : ∀ file ∈ files, file.path ≠ name) :
    entriesIn files name = [] := by
  have none : (files.find? fun file => file.path = name) = none := by
    simpa [find?_eq_none] using absent
  simp [entriesIn, none]

theorem Laid.reads (h : Laid codec loose files dir) (other : some name ≠ loose) :
    Framed codec dir (entriesIn files) name := by
  by_cases present : ∃ file ∈ files, file.path = name
  · obtain ⟨file, mem, rfl⟩ := present
    obtain ⟨bytes, found, encoded⟩ := h.framed file mem
    unfold Framed
    rw [entriesIn_of_mem h.distinct mem, found]
    exact ⟨fun e hin => h.carried e (mem_flatMap.mpr ⟨file, mem, hin⟩), encoded⟩
  · have absent : ∀ file ∈ files, file.path ≠ name := by simpa using present
    unfold Framed
    rw [entriesIn_eq_nil absent, h.others name other absent]
    exact ⟨by simp, rfl⟩

/-- The last file may be given up. -/
theorem Laid.release (h : Laid codec none (front ++ [file]) dir) :
    Laid codec (some file.path) front dir where
  named other mem := h.named other (mem_append_left _ mem)
  rising := by
    have all := h.rising
    rw [flatMap_append] at all
    exact (pairwise_append.mp all).1
  carried e mem := h.carried e (by
    rw [flatMap_append]
    exact mem_append_left _ mem)
  framed other mem := h.framed other (mem_append_left _ mem)
  others name differs absent := by
    refine h.others name (by simp) fun other mem => ?_
    rcases mem_append.mp mem with hin | hin
    · exact absent other hin
    · rw [mem_singleton.mp hin]
      intro same
      exact differs (by rw [same])

theorem Laid.loosen (h : Laid codec none files dir) : Laid codec loose files dir :=
  { h with others := fun name _ => h.others name (by simp) }

theorem Laid.overwrite (h : Laid codec (some path) front dir)
    (absent : ∀ file ∈ front, file.path ≠ path) (bytes : Bytes) :
    Laid codec (some path) front (dir.insert path bytes) where
  __ := h
  framed file mem := by
    rw [AList.lookup_insert_ne (absent file mem)]
    exact h.framed file mem
  others name differs missing := by
    rw [AList.lookup_insert_ne (fun same => differs (by rw [same]))]
    exact h.others name differs missing

theorem Laid.clear (h : Laid codec (some path) front dir)
    (absent : ∀ file ∈ front, file.path ≠ path) :
    Laid codec none front (dir.insert path []) :=
  { h.overwrite absent [] with
    others := by
      intro name _ missing
      by_cases same : name = path
      · rw [same, AList.lookup_insert]
        rfl
      · exact (h.overwrite absent []).others name (by simpa using same) missing }

theorem Laid.write (h : Laid codec (some path) front dir)
    (absent : ∀ file ∈ front, file.path ≠ path) {ents : List (RaftLogEntry δ)}
    (head : ents.head? = some fst) (name : path = segmentFileName fst.index)
    (rising : Rising (front.flatMap SegmentFile.entries ++ ents))
    (carried : ∀ e ∈ ents, codec.entry.RoundTrips e)
    (encoded : encodeAll codec.entry ents = .ok bytes) :
    Laid codec none (front ++ [⟨path, ents⟩]) (dir.insert path bytes) where
  named file mem := by
    rcases mem_append.mp mem with hin | hin
    · exact h.named file hin
    · rw [mem_singleton.mp hin]
      exact ⟨fst, head, name⟩
  rising := by simpa [flatMap_append] using rising
  carried e mem := by
    rw [flatMap_append, flatMap_singleton] at mem
    exact (mem_append.mp mem).elim (h.carried e) (carried e)
  framed file mem := by
    rcases mem_append.mp mem with hin | hin
    · exact (h.overwrite absent bytes).framed file hin
    · rw [mem_singleton.mp hin]
      exact ⟨bytes, AList.lookup_insert dir, encoded⟩
  others other _ missing := by
    have differs : path ≠ other := missing ⟨path, ents⟩ (by simp)
    exact (h.overwrite absent bytes).others other (by simpa using Ne.symm differs)
      fun file mem => missing file (mem_append_left _ mem)

end

theorem segmentPaths_sorted (dir : Directory) : (segmentPaths dir).Pairwise (· ≤ ·) :=
  pairwise_insertionSort _ _

theorem Laid.mem_segmentPaths_of_mem (h : Laid codec loose files dir) (mem : file ∈ files) :
    file.path ∈ segmentPaths dir := by
  obtain ⟨bytes, found, -⟩ := h.framed file mem
  obtain ⟨fst, -, path⟩ := h.named file mem
  refine mem_segmentPaths.mpr ⟨AList.lookup_isSome.mp (by rw [found]; rfl), ?_⟩
  rw [path]
  exact hasRlogExtension_segmentFileName

theorem Laid.filled_paths (h : Laid codec loose files dir) :
    ((segmentPaths dir).filter fun path => !(entriesIn files path).isEmpty).Perm
      (files.map SegmentFile.path) := by
  refine (perm_ext_iff_of_nodup ((segmentPaths_nodup).filter _) h.distinct).mpr ?_
  intro name
  rw [mem_filter, mem_map]
  constructor
  · rintro ⟨-, filled⟩
    by_contra absent
    have missing : ∀ file ∈ files, file.path ≠ name := by simpa using absent
    rw [entriesIn_eq_nil missing] at filled
    simp at filled
  · rintro ⟨file, mem, rfl⟩
    refine ⟨h.mem_segmentPaths_of_mem mem, ?_⟩
    rw [entriesIn_of_mem h.distinct mem]
    simpa using h.filled mem

theorem flatMap_filter_isEmpty {α β : Type} (content : α → List β) (items : List α) :
    (items.filter fun item => !(content item).isEmpty).flatMap content = items.flatMap content := by
  induction items with
  | nil => rfl
  | cons item items ih =>
    cases here : content item with
    | nil | cons => simp [here, ih]

theorem rel_or_rel {α : Type} {related : α → α → Prop} {items : List α}
    (pairs : items.Pairwise related) {one other : α} (here : one ∈ items) (there : other ∈ items)
    (differ : one ≠ other) : related one other ∨ related other one := by
  let either (one other : α) := related one other ∨ related other one
  have : Std.Symm either := ⟨fun _ _ => Or.symm⟩
  exact (pairs.imp (S := either) .inl).forall here there differ

theorem Laid.flatMap_paths (h : Laid codec loose files dir) :
    (files.map SegmentFile.path).flatMap (entriesIn files) = files.flatMap SegmentFile.entries := by
  rw [flatMap_map]
  exact flatMap_congr fun file mem => entriesIn_of_mem h.distinct mem

theorem Laid.scanned_perm (h : Laid codec loose files dir) :
    ((segmentPaths dir).flatMap (entriesIn files)).Perm (files.flatMap SegmentFile.entries) := by
  rw [← flatMap_filter_isEmpty, ← h.flatMap_paths]
  exact h.filled_paths.flatMap_right _

/-- Names that sort as the files were written. -/
def InOrder (files : List (SegmentFile δ)) : Prop := (files.map SegmentFile.path).Pairwise (· ≤ ·)

theorem Laid.filled_paths_eq (h : Laid codec loose files dir) (sorted : InOrder files) :
    ((segmentPaths dir).filter fun path => !(entriesIn files path).isEmpty) =
      files.map SegmentFile.path :=
  h.filled_paths.eq_of_pairwise (fun _ _ _ _ => String.le_antisymm)
    ((segmentPaths_sorted dir).filter _) sorted

/-- The scan reads the log in its order exactly if the names are sorted. -/
theorem Laid.scanned_iff (h : Laid codec loose files dir) :
    (segmentPaths dir).flatMap (entriesIn files) = files.flatMap SegmentFile.entries ↔
      InOrder files := by
  constructor
  · intro same
    have read := h.rising
    rw [← same, Rising, pairwise_flatMap] at read
    refine pairwise_map.mpr (h.ordered.imp_of_mem ?_)
    intro file later mem member' below
    by_cases equal : file.path = later.path
    · exact Eq.subst (motive := (file.path ≤ ·)) equal (String.le_refl _)
    -- Found the other way round, the entries of the later file would come first.
    rcases rel_or_rel ((segmentPaths_sorted dir).and read.2) (h.mem_segmentPaths_of_mem mem)
      (h.mem_segmentPaths_of_mem member') equal with ⟨sorted, -⟩ | ⟨-, above⟩
    · exact sorted
    · rw [entriesIn_of_mem h.distinct mem, entriesIn_of_mem h.distinct member'] at above
      obtain ⟨x, xs⟩ := exists_mem_of_ne_nil _ (h.filled mem)
      obtain ⟨y, ys⟩ := exists_mem_of_ne_nil _ (h.filled member')
      have less := below x xs y ys
      have more := above y ys x xs
      omega
  · intro sorted
    rw [← flatMap_filter_isEmpty, h.filled_paths_eq sorted, h.flatMap_paths]

section
variable {codec : RaftCodec δ}

theorem recoverSegments_append (rest : List String)
    (done : recoverSegments codec lastPath recovery paths = .ok mid) :
    recoverSegments codec lastPath recovery (paths ++ rest) =
      recoverSegments codec lastPath mid rest := by
  induction paths generalizing recovery with
  | nil =>
    cases done
    rfl
  | cons path paths ih =>
    unfold recoverSegments at done
    cases stepped : recoverSegment codec lastPath recovery path with
    | error e => simp [stepped] at done
    | ok next =>
      simp only [stepped] at done
      simp only [cons_append, recoverSegments, stepped]
      exact ih done

theorem recoveredLog_injective {ents entries' : List (RaftLogEntry δ)}
    (lengths : ents.length = entries'.length)
    (same : recoveredLog ents = recoveredLog entries') : ents = entries' := by
  cases ents with
  | nil => exact (eq_nil_of_length_eq_zero lengths.symm).symm
  | cons fst rest =>
    cases entries' with
    | nil => cases lengths
    | cons first' rest' => exact same

/-- Opening the directory gives the store exactly these entries. -/
def Recovers (codec : RaftCodec δ) (disk : Disk) (ents : List (RaftLogEntry δ)) : Prop :=
  ∃ reopened, openDir codec disk = .ok reopened ∧ reopened.memoryCache.log = recoveredLog ents

/-- A store whose segments are these files. -/
structure Written (codec : RaftCodec δ) (files : List (SegmentFile δ))
    (sto : DurableRaftStorage δ) : Prop where
  laid : Laid codec none files sto.disk.logDir
  segments : summaries sto.segments = files.map fun file => (file.path, file.entries.length)
  bare : Bare sto.disk

theorem Laid.found_eq (h : Laid codec loose files dir) (sorted : InOrder files) :
    found (entriesIn files) (segmentPaths dir) =
      files.map fun file => (file.path, file.entries.length) := by
  rw [found, h.filled_paths_eq sorted, map_map]
  refine map_congr_left fun file mem => ?_
  rw [Function.comp_apply, entriesIn_of_mem h.distinct mem]

/-- A directory of whole frames opens, and gives the log back in the order of the names. -/
theorem Laid.opened {disk : Disk} (h : Laid codec none files disk.logDir) (bare : Bare disk) :
    ∃ reopened, openDir codec disk = .ok reopened ∧ reopened.memoryCache.log =
        recoveredLog ((segmentPaths disk.logDir).flatMap (entriesIn files)) ∧
      (InOrder files → Written codec files reopened) := by
  have readable : ∀ path ∈ segmentPaths disk.logDir,
      Framed codec (Recovery.logDir (δ := δ) { logDir := disk.logDir }) (entriesIn files) path :=
    fun path _ => h.reads (by simp)
  obtain ⟨final, recovered, dir, ents, segs⟩ := recoverSegments_framed readable
  refine ⟨_, by rw [openDir_bare bare, recovered]; rfl, ?_, fun sorted => ⟨?_, ?_, bare⟩⟩
  · show recoveredLog final.entries = _
    rw [ents, nil_append]
  · show Laid codec none files final.logDir
    rw [dir]
    exact h
  · show summaries final.segments = _
    rw [segs, h.found_eq sorted]
    rfl

theorem Laid.recovers_iff {disk : Disk} (h : Laid codec none files disk.logDir) (bare : Bare disk) :
    Recovers codec disk (files.flatMap SegmentFile.entries) ↔ InOrder files := by
  obtain ⟨reopened, opened, log, -⟩ := h.opened bare
  rw [← h.scanned_iff]
  constructor
  · rintro ⟨other, opened', log'⟩
    rw [opened] at opened'
    cases opened'
    exact recoveredLog_injective h.scanned_perm.length_eq (log.symm.trans log')
  · intro same
    exact ⟨reopened, opened, by rw [log, same]⟩

end

section
variable {sto : DurableRaftStorage δ}

/-- Every file of the directory is one of these. -/
def Complete (files : List (SegmentFile δ)) (dir : Directory) : Prop :=
  ∀ name ∈ dir, ∃ file ∈ files, file.path = name

theorem appendEntriesSegmented_ok (encoded : encodeAll codec.entry ents = .ok framed) :
    ∃ stored, sto.appendEntriesSegmented codec ents = .ok stored := by
  unfold appendEntriesSegmented
  split
  · simp only [encoded]
    split
    · exact ⟨_, rfl⟩
    · exact ⟨_, rfl⟩
  · exact ⟨_, rfl⟩

theorem Complete.insert {front : List (SegmentFile δ)} {dir : Directory} (path : String)
    (ents : List (RaftLogEntry δ)) (bytes : Bytes)
    (h : ∀ name ∈ dir, name ≠ path → ∃ file ∈ front, file.path = name) :
    Complete (front ++ [⟨path, ents⟩]) (dir.insert path bytes) := by
  intro name mem
  by_cases same : name = path
  · exact ⟨⟨path, ents⟩, by simp, same.symm⟩
  · obtain ⟨file, hin, here⟩ := h name (by simpa [same] using mem) same
    exact ⟨file, mem_append_left _ hin, here⟩

theorem not_mem_paths_of_nodup (uniq : ((front ++ [last]).map SegmentFile.path).Nodup) :
    ∀ file ∈ front, file.path ≠ last.path := by
  intro file mem same
  rw [map_append, nodup_append] at uniq
  exact uniq.2.2 file.path (mem_map_of_mem mem) last.path (by simp) same

/-- The last file of a log that is written to again, or the file that is started after it. -/
theorem Written.appended (h : Written codec files sto) {ents : List (RaftLogEntry δ)}
    (head : ents.head? = some fst)
    (rising : Rising (files.flatMap SegmentFile.entries ++ ents))
    (carried : ∀ e ∈ ents, codec.entry.RoundTrips e)
    (eff : Appended codec ents fst.index last sto stored) :
    ∃ files', Written codec files' stored ∧
      files'.flatMap SegmentFile.entries = files.flatMap SegmentFile.entries ++ ents ∧
      (Complete files sto.disk.logDir → Complete files' stored.disk.logDir) := by
  cases eff with
  | extended init seg framed encoded segs =>
    have summary := h.segments
    rw [segs, summaries, map_append] at summary
    obtain ⟨front, lastFiles, rfl, frontSummary, lastSummary⟩ := append_eq_map_iff.mp summary
    obtain ⟨file, rfl, pair⟩ := map_eq_singleton_iff.mp lastSummary
    obtain ⟨path, count⟩ := Prod.mk.inj pair
    obtain ⟨bytes, found, held⟩ := h.laid.framed file (by simp)
    obtain ⟨start, startHead, name⟩ := h.laid.named file (by simp)
    have absent := not_mem_paths_of_nodup h.laid.distinct
    have whole : Rising (front.flatMap SegmentFile.entries ++ (file.entries ++ ents)) := by
      simpa [flatMap_append] using rising
    refine ⟨front ++ [⟨file.path, file.entries ++ ents⟩], ⟨?_, ?_, h.bare⟩, ?_, ?_⟩
    · rw [← path, found]
      have sameHead : (file.entries ++ ents).head? = some start := by
        rw [List.head?_append, startHead]
        rfl
      refine h.laid.release.write absent sameHead name whole ?_ (encodeAll_append held encoded)
      · intro e mem
        rcases mem_append.mp mem with old | new
        · exact h.laid.carried e (by simp [old])
        · exact carried e new
    · simp only [summaries, map_append, map_cons, map_nil, length_append, path, count]
      rw [frontSummary]
    · simp [flatMap_append]
    · intro complete
      rw [← path]
      refine Complete.insert _ _ _ fun name mem differs => ?_
      obtain ⟨other, hin, here⟩ := complete name mem
      rcases mem_append.mp hin with old | new
      · exact ⟨other, old, here⟩
      · rw [mem_singleton.mp new] at here
        exact absurd here.symm differs
  | rotated framed encoded =>
    have absent : ∀ file ∈ files, file.path ≠ segmentFileName fst.index := by
      intro file mem same
      obtain ⟨start, startHead, name⟩ := h.laid.named file mem
      have equal := segmentFileName_injective (name.symm.trans same)
      have less := (pairwise_append.mp rising).2.2 start
        (mem_flatMap.mpr ⟨file, mem, mem_of_mem_head? startHead⟩) fst
        (mem_of_mem_head? head)
      omega
    refine ⟨files ++ [⟨segmentFileName fst.index, ents⟩],
      ⟨h.laid.loosen.write absent head rfl rising carried encoded, ?_, h.bare⟩, ?_, ?_⟩
    · have summary := h.segments
      simp only [summaries] at summary
      simp [summaries, summary]
    · simp [flatMap_append]
    · intro complete
      exact Complete.insert _ _ _ fun name mem _ => complete name mem

theorem Written.appendEntries (h : Written codec files sto)
    (rising : Rising (files.flatMap SegmentFile.entries ++ ents))
    (carried : ∀ e ∈ ents, codec.entry.RoundTrips e) :
    ∃ next files', sto.appendEntries codec ents = .ok next ∧ Written codec files' next ∧
      files'.flatMap SegmentFile.entries = files.flatMap SegmentFile.entries ++ ents ∧
      (Complete files sto.disk.logDir → Complete files' next.disk.logDir) := by
  obtain ⟨framed, encoded⟩ := encodeAll_of_roundTrips carried
  obtain ⟨stored, segmented⟩ : ∃ stored, sto.appendEntriesSegmented codec ents = .ok stored :=
    appendEntriesSegmented_ok encoded
  unfold DurableRaftStorage.appendEntries
  simp only [segmented]
  cases ents with
  | nil =>
    cases segmented
    exact ⟨_, files, rfl, { h with }, by simp, id⟩
  | cons fst rest =>
    have final : (fst :: rest).getLast? = some ((fst :: rest).getLast (by simp)) :=
      getLast?_eq_some_getLast _
    obtain ⟨files', written, all, complete⟩ := h.appended rfl rising carried
      (appendEntriesSegmented_effect rfl final segmented)
    exact ⟨_, files', rfl, { written with }, all, complete⟩

theorem Written.run (batches : List (List (RaftLogEntry δ))) (h : Written codec files sto)
    (rising : Rising (files.flatMap SegmentFile.entries ++ batches.flatten))
    (carried : ∀ e ∈ batches.flatten, codec.entry.RoundTrips e) :
    ∃ final files', sto.run codec (batches.map .appendEntries) = .ok final ∧
      Written codec files' final ∧
      files'.flatMap SegmentFile.entries = files.flatMap SegmentFile.entries ++ batches.flatten ∧
      (Complete files sto.disk.logDir → Complete files' final.disk.logDir) := by
  induction batches generalizing files sto with
  | nil => exact ⟨sto, files, rfl, h, by simp, id⟩
  | cons batch batches ih =>
    rw [flatten_cons, ← append_assoc] at rising
    obtain ⟨next, files₁, stepped, written, all, complete⟩ := h.appendEntries
      (pairwise_append.mp rising).1 fun e mem => carried e (by simp [mem])
    rw [← all] at rising
    obtain ⟨final, files₂, done, written', all', complete'⟩ := ih written rising
      fun e mem => carried e (by
        exact mem_append_right _ mem)
    refine ⟨final, files₂, ?_, written', ?_, complete' ∘ complete⟩
    · simp only [map_cons, DurableRaftStorage.run, step, stepped]
      exact done
    · rw [all', all, flatten_cons, append_assoc]

theorem Written.fresh (codec : RaftCodec δ) :
    Written codec [] ({ disk := {} } : DurableRaftStorage δ) where
  laid := {
    named := by simp
    rising := Pairwise.nil
    carried := by simp
    framed := by simp
    others := fun _ _ _ => rfl }
  segments := rfl
  bare := ⟨rfl, rfl, rfl, rfl⟩

theorem session_written (batches : List (List (RaftLogEntry δ))) (rising : Rising batches.flatten)
    (carried : ∀ e ∈ batches.flatten, codec.entry.RoundTrips e) :
    ∃ sto files, session codec (batches.map .appendEntries) = .ok sto ∧
      Written codec files sto ∧ files.flatMap SegmentFile.entries = batches.flatten ∧
      Complete files sto.disk.logDir := by
  obtain ⟨sto, files, ran, written, all, complete⟩ :=
    (Written.fresh codec).run batches (by simpa using rising) carried
  exact ⟨sto, files, ran, written, by simpa using all,
    complete fun name mem => absurd mem (AList.notMem_empty name)⟩

end
end DurableRaftStorage
end HoloSphere.Consensus
