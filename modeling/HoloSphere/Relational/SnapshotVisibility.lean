import HoloSphere.Relational.Interleaving

/-! # What a snapshot shows of a transaction

A commit writes its rows one by one, and a snapshot clones its tables one by one.  Each
clone is the replay of the writes that its table had seen; a snapshot shows a transaction
as a whole if these hold all of its writes or none.  That is so unless the two loops
overlap on the tables of the transaction.
-/

namespace HoloSphere.Relational
open Program Function List SqlAction

def Shows (journal : String → List JournalEntry) (stamp : Nat × Nat) (tbl : String) : Prop :=
  some stamp ∈ (journal tbl).map JournalEntry.stamp

/-- The table is what the writes of the journal make of an empty one. -/
def Replays (tbl : ColumnarTable) (ents : List JournalEntry) : Prop :=
  tbl = ents.foldl (fun tbl entry => entry.write.onTable entry.version tbl)
    (.new tbl.schema)

def AllOrNone (journal : String → List JournalEntry) (txId : Nat) (writes : List StagedWrite) :
    Prop :=
  (∀ place write, writes[place]? = some write → Shows journal (txId, place) write.table) ∨
    ∀ place write, writes[place]? = some write → ¬ Shows journal (txId, place) write.table

namespace SqlMachine

/-- The loops of a snapshot and of a commit do not overlap on the tables of the transaction:
    none of them is cloned between its first write and its last, and none is written while
    the snapshot has some of them behind it and others ahead. -/
def LoopsApart (mach : SqlMachine) : SqlAction → Prop
  | .cloneTable pos => ∀ running name rest commit,
      mach.snapshots[pos]? = some running → running.remaining = some (name :: rest) →
      mach.committing = some commit → 0 < commit.written → commit.written < commit.writes.length →
        ∀ write ∈ commit.writes, write.table ≠ name
  | .commitWrite => ∀ commit, mach.committing = some commit →
      ∀ running ∈ mach.snapshots, ∀ rem, running.remaining = some rem →
        (∀ write ∈ commit.writes, write.table ∈ rem) ∨ ∀ write ∈ commit.writes, write.table ∉ rem
  | _ => True

/-- The transactions and their tables are accounted for. -/
structure Ledger (mach : SqlMachine) : Prop where
  stored : ∀ name, (mach.engine.storage name).isSome ↔ name ∈ mach.names
  schemas : ∀ name, (mach.engine.tables name).isSome ↔ name ∈ mach.names
  active : ∀ txId txn, mach.engine.activeTransactions txId = some txn →
    txId < mach.engine.nextTxId ∧ mach.history txId = none ∧
      ∀ write ∈ txn.uncommittedWrites, write.table ∈ mach.names
  prepared : ∀ entry ∈ mach.prepared, entry.2.table ∈ mach.names
  committed : ∀ txId writes, mach.history txId = some writes →
    txId < mach.engine.nextTxId ∧ ∀ write ∈ writes, write.table ∈ mach.names
  running : ∀ commit, mach.committing = some commit →
    mach.history commit.txId = some commit.writes ∧ commit.written ≤ commit.writes.length

variable {mach next : SqlMachine}

theorem isSome_update {α : Type} {map : String → Option α} {names : List String} {name : String}
    {val : α} (known : ∀ other, (map other).isSome ↔ other ∈ names) (other : String) :
    (update map name (some val) other).isSome ↔ other ∈ names ++ [name] := by
  by_cases same : other = name
  · simp [same]
  · simp [same, known]

variable {eng : RelationalSqlEngine}

section
variable (h : mach.Ledger)
include h

theorem Ledger.wrote (wrote : mach.engine.Wrote eng ver write) (name : String) :
    (eng.storage name).isSome ↔ name ∈ mach.names := by
  rw [← h.stored, wrote.storage_at]
  split <;> simp

theorem Ledger.held (name : String)
    (known : (mach.engine.tables name).isSome) : (mach.engine.storage name).isSome :=
  (h.stored name).mpr ((h.schemas name).mp known)

theorem Ledger.writes_eq (running : mach.committing = some commit)
    (committed : mach.history commit.txId = some writes) : commit.writes = writes := by
  have own := (h.running commit running).1
  rw [committed] at own
  exact (Option.some.inj own).symm

theorem Ledger.addTable (schema : TableSchema) : Ledger (mach.addTable schema) := by
  constructor
  · exact isSome_update h.stored
  · exact isSome_update h.schemas
  · intro txId txn active
    obtain ⟨fresh, unseen, tables⟩ := h.active txId txn active
    exact ⟨fresh, unseen, fun write mem => mem_append_left _ (tables write mem)⟩
  · exact fun entry mem => mem_append_left _ (h.prepared entry mem)
  · intro txId writes committed
    obtain ⟨fresh, tables⟩ := h.committed txId writes committed
    exact ⟨fresh, fun write mem => mem_append_left _ (tables write mem)⟩
  · exact h.running

theorem Ledger.queue (queued : mach.Queued txns bound waiting) :
    Ledger (mach.queue txns bound waiting) := by
  refine ⟨h.stored, h.schemas, fun txId txn found => ?_, fun entry mem => ?_,
    fun txId writes committed => ?_, h.running⟩
  · rcases queued.active txId txn found with ⟨rfl, below, empty⟩ | ⟨earlier, pre, staged⟩
    · refine ⟨below, Option.eq_none_iff_forall_ne_some.mpr fun writes seen => ?_, ?_⟩
      · exact absurd (h.committed _ _ seen).1 (Nat.lt_irrefl _)
      · rw [empty]
        exact nofun
    · obtain ⟨fresh, unseen, known⟩ := h.active txId earlier pre
      refine ⟨Nat.lt_of_lt_of_le fresh queued.counted, unseen, fun write mem => ?_⟩
      rcases staged write mem with old | ⟨tx, checked⟩
      · exact known write old
      · exact h.prepared _ checked
  · rcases queued.prepared entry mem with old | known
    · exact h.prepared entry old
    · exact (h.schemas _).mp known
  · obtain ⟨fresh, known⟩ := h.committed txId writes committed
    exact ⟨Nat.lt_of_lt_of_le fresh queued.counted, known⟩

theorem Ledger.startCommit (active : mach.engine.activeTransactions txId = some txn) :
    Ledger (mach.startCommit txId txn) := by
  obtain ⟨fresh, unseen, known⟩ := h.active txId txn active
  refine ⟨h.stored, h.schemas, fun id other found => ?_, h.prepared,
    fun id writes committed => ?_, ?_⟩
  · have apart : id ≠ txId := by
      rintro rfl
      simp [SqlMachine.startCommit] at found
    simp only [SqlMachine.startCommit, update_of_ne apart] at found ⊢
    exact h.active id other found
  · by_cases same : id = txId
    · subst same
      cases (update_self ..).symm.trans committed
      exact ⟨fresh, known⟩
    · exact h.committed id writes ((update_of_ne same ..).symm.trans committed)
  · rintro commit ⟨⟩
    exact ⟨update_self .., Nat.zero_le _⟩

theorem Ledger.step (done : mach.act action = some next) : next.Ledger := by
  cases effect_of_act done with
  | createRefused | commitRefused | applyRefused => exact h
  | createTable absent => exact h.addTable _
  | beginTransaction queued | prepareInsert queued | stage queued | rollback queued =>
    exact h.queue queued
  | beginCommit free active => exact h.startCommit active
  | @commitWrite commit write running here =>
    refine { h with stored := h.wrote (mach.engine.wrote_writeRow _ write), running := ?_ }
    rintro later ⟨⟩
    exact ⟨(h.running commit running).1, (List.getElem?_eq_some_iff.mp here).1⟩
  | endCommit running finished =>
    exact { h with running := fun _ found => nomatch found }
  | applyCommitted stands known wrote =>
    have wrote := wrote (h.held _ known)
    refine { h with stored := h.wrote wrote, schemas := ?_ }
    rw [wrote.tables]
    exact h.schemas
  | beginSnapshot | openStorage | cloneTable | endSnapshot =>
    exact { h with }

end

/-- How many of its writes the transaction has made. -/
def progress (mach : SqlMachine) (txId : Nat) (writes : List StagedWrite) : Nat :=
  match mach.committing with
  | some commit => if commit.txId = txId then commit.written else writes.length
  | none => writes.length

theorem progress_free (free : mach.committing = none) :
    mach.progress txId writes = writes.length := by
  simp [progress, free]

theorem progress_running (running : mach.committing = some commit) :
    mach.progress txId writes = if commit.txId = txId then commit.written else writes.length := by
  simp [progress, running]

theorem Ledger.progress_le (h : mach.Ledger) (committed : mach.history txId = some writes) :
    mach.progress txId writes ≤ writes.length := by
  unfold progress
  cases running : mach.committing with
  | none => exact Nat.le_refl _
  | some commit =>
    dsimp only
    split
    case isTrue same =>
      subst same
      rw [← h.writes_eq running committed]
      exact (h.running commit running).2
    case isFalse => exact Nat.le_refl _

theorem shows_record (journal : String → List JournalEntry) (name : String) :
    Shows (record entry journal) stamp name ↔
      Shows journal stamp name ∨ entry.write.table = name ∧ entry.stamp = some stamp := by
  unfold Shows record
  by_cases same : name = entry.write.table
  · subst same
    simp [eq_comm]
  · simp [update_of_ne same, Ne.symm same]

/-- A stamped entry of the journal is the write of its transaction at its place, made once. -/
structure Owned (history : Nat → Option (List StagedWrite)) (ents : List JournalEntry) : Prop where
  own : ∀ entry ∈ ents, ∀ txId place, entry.stamp = some (txId, place) →
    ∃ writes, history txId = some writes ∧ writes[place]? = some entry.write
  once : (ents.filterMap JournalEntry.stamp).Nodup

/-- The journals say what the tables hold and which writes have been made. -/
structure Journaled (mach : SqlMachine) : Prop where
  unknown : ∀ name, name ∉ mach.names → mach.journal name = []
  replays : ∀ name tbl, mach.engine.storage name = some tbl → Replays tbl (mach.journal name)
  stamps : ∀ txId place name, Shows mach.journal (txId, place) name ↔
    ∃ writes write, mach.history txId = some writes ∧ writes[place]? = some write ∧
      write.table = name ∧ place < mach.progress txId writes
  owned : ∀ name, Owned mach.history (mach.journal name)

section
variable (h : mach.Journaled)
include h

theorem Journaled.unknown_record {entry : JournalEntry}
    (known : entry.write.table ∈ mach.names) (name : String) (absent : name ∉ mach.names) :
    record entry mach.journal name = [] := by
  have apart : name ≠ entry.write.table := by
    rintro rfl
    exact absent known
  rw [record, update_of_ne apart]
  exact h.unknown name absent

theorem Journaled.replays_record (wrote : mach.engine.Wrote eng ver write)
    (found : eng.storage name = some tbl) :
    Replays tbl (record ⟨stamp, ver, write⟩ mach.journal name) := by
  rw [wrote.storage_at] at found
  by_cases same : name = write.table
  · subst same
    rw [if_pos rfl] at found
    obtain ⟨old, stored, rfl⟩ := Option.map_eq_some_iff.mp found
    unfold Replays record
    rw [update_self, foldl_append, StagedWrite.onTable_schema, ← h.replays _ _ stored]
    rfl
  · rw [if_neg same] at found
    rw [record, update_of_ne same]
    exact h.replays name tbl found

theorem Journaled.owned_record (own : ∀ txId place, entry.stamp = some (txId, place) →
      (∃ writes, mach.history txId = some writes ∧ writes[place]? = some entry.write) ∧
        ¬ Shows mach.journal (txId, place) entry.write.table) (name : String) :
    Owned mach.history (record entry mach.journal name) := by
  unfold record
  by_cases same : name = entry.write.table
  · subst same
    rw [update_self]
    refine ⟨fun other mem txId place stamped => ?_, ?_⟩
    · rcases mem_append.mp mem with old | new
      · exact (h.owned _).own other old txId place stamped
      · cases mem_singleton.mp new
        exact (own txId place stamped).1
    · cases stamped : entry.stamp with
      | none => simpa [stamped] using (h.owned _).once
      | some stamp =>
        have new := (own _ _ stamped).2
        rw [Shows, mem_map] at new
        simpa [stamped] using (h.owned _).once.concat (mt mem_filterMap.mp new)
  · rw [update_of_ne same]
    exact h.owned name

theorem Journaled.addTable (ledger : mach.Ledger)
    (absent : mach.engine.tables schema.name = none) : Journaled (mach.addTable schema) := by
  have unseen : schema.name ∉ mach.names := by
    rw [← ledger.schemas, absent]
    exact Bool.false_ne_true
  refine ⟨fun name outside => ?_, fun name tbl found => ?_, h.stamps, h.owned⟩
  · exact h.unknown name fun known => outside (mem_append_left _ known)
  · by_cases same : name = schema.name
    · subst same
      cases (update_self ..).symm.trans found
      rw [SqlMachine.addTable, h.unknown _ unseen]
      rfl
    · exact h.replays name tbl ((update_of_ne same ..).symm.trans found)

theorem Journaled.startCommit (free : mach.committing = none)
    (unseen : mach.history txId = none) : Journaled (mach.startCommit txId txn) := by
  refine ⟨h.unknown, h.replays, fun id place name => ?_, fun name => ⟨?_, (h.owned name).once⟩⟩
  · simp only [SqlMachine.startCommit, h.stamps]
    by_cases same : id = txId
    · subst same
      simp [unseen, progress]
    · simp [update_of_ne same, progress, free, Ne.symm same]
  · intro entry mem id place stamped
    obtain ⟨writes, made, here⟩ := (h.owned name).own entry mem id place stamped
    have other : id ≠ txId := by
      rintro rfl
      cases made.symm.trans unseen
    exact ⟨writes, (update_of_ne other ..).trans made, here⟩

/-- The stamp of the write is new, and it is that of the next place of the commit. -/
theorem Journaled.writeNext (ledger : mach.Ledger) (running : mach.committing = some commit)
    (here : commit.writes[commit.written]? = some write) :
    Journaled (mach.writeNext commit write) := by
  obtain ⟨own, -⟩ := ledger.running commit running
  have known := (ledger.committed _ _ own).2 write (mem_of_getElem? here)
  refine ⟨h.unknown_record known, fun name tbl found => ?_, fun id place name => ?_, ?_⟩
  · exact h.replays_record (mach.engine.wrote_writeRow commit.version write) found
  · simp only [SqlMachine.writeNext, shows_record, h.stamps]
    by_cases same : id = commit.txId
    · subst same
      simp only [own, progress, running, if_true, Option.some.injEq,
        Prod.mk.injEq, true_and, exists_and_left, exists_eq_left']
      constructor
      · rintro (⟨other, found, named, pre⟩ | ⟨named, rfl⟩)
        · exact ⟨other, found, named, Nat.lt_succ_of_lt pre⟩
        · exact ⟨write, here, named, Nat.lt_succ_self _⟩
      · rintro ⟨other, found, named, pre⟩
        rcases Nat.lt_succ_iff_lt_or_eq.mp pre with earlier | rfl
        · exact .inl ⟨other, found, named, earlier⟩
        · rw [here] at found
          cases found
          exact .inr ⟨named, rfl⟩
    · simp [progress, running, Ne.symm same]
  · apply h.owned_record
    rintro _ _ ⟨⟩
    refine ⟨⟨_, own, here⟩, fun shown => ?_⟩
    obtain ⟨_, _, -, -, -, less⟩ := (h.stamps ..).mp shown
    simp [progress_running running] at less

theorem Journaled.step (ledger : mach.Ledger)
    (done : mach.act action = some next) : next.Journaled := by
  cases effect_of_act done with
  | createRefused | commitRefused | applyRefused => exact h
  | createTable absent => exact h.addTable ledger absent
  | beginTransaction | prepareInsert | stage | rollback => exact { h with }
  | beginCommit free active => exact h.startCommit free (ledger.active _ _ active).2.1
  | commitWrite running here => exact h.writeNext ledger running here
  | @endCommit commit running finished =>
    refine ⟨h.unknown, h.replays, fun id place name => ?_, h.owned⟩
    rw [h.stamps]
    by_cases same : id = commit.txId
    · subst same
      have own := (ledger.running commit running).1
      simp [own, progress, running, finished]
    · simp [progress, running, Ne.symm same]
  | applyCommitted stands known wrote =>
    refine ⟨h.unknown_record ((ledger.schemas _).mp known), fun name tbl found => ?_,
      fun id place name => ?_, h.owned_record nofun⟩
    · exact h.replays_record (wrote (ledger.held _ known)) found
    · rw [shows_record, h.stamps]
      simp [progress]
  | beginSnapshot | openStorage | cloneTable | endSnapshot =>
    exact { h with }

end

section
variable (rem : List String) (journal : String → List JournalEntry) (txId : Nat)
  (writes : List StagedWrite)

/-- No table of the transaction has been cloned. -/
def Untouched : Prop := ∀ write ∈ writes, write.table ∈ rem

/-- All that has been cloned shows the transaction. -/
def ShownSoFar : Prop :=
  ∀ place write, writes[place]? = some write → write.table ∉ rem →
    Shows journal (txId, place) write.table

/-- Everything has been cloned without the transaction. -/
def Hidden : Prop :=
  ∀ place write, writes[place]? = some write →
    write.table ∉ rem ∧ ¬ Shows journal (txId, place) write.table

/-- Where a snapshot stands to a transaction that has made some of its writes. -/
structure Standing (written : Nat) : Prop where
  midway : 0 < written → written < writes.length →
    Untouched rem writes ∨ Hidden rem journal txId writes
  settled : written = writes.length →
    ShownSoFar rem journal txId writes ∨ Hidden rem journal txId writes

variable {rem journal txId writes}

theorem Untouched.shownSoFar (untouched : Untouched rem writes) :
    ShownSoFar rem journal txId writes := fun _ write here outside =>
  absurd (untouched write (mem_of_getElem? here)) outside

theorem Standing.of_apart (apart : Untouched rem writes ∨ Hidden rem journal txId writes) :
    Standing rem journal txId writes written where
  midway _ _ := apart
  settled _ := apart.imp Untouched.shownSoFar id

theorem Untouched.clone (untouched : Untouched (name :: rem) writes)
    (other : ∀ write ∈ writes, write.table ≠ name) : Untouched rem writes := by
  intro write mem
  rcases mem_cons.mp (untouched write mem) with same | later
  · exact absurd same (other write mem)
  · exact later

theorem Hidden.clone (hidden : Hidden (name :: rem) journal txId writes) :
    Hidden rem (update journal name ents) txId writes := by
  intro place write here
  obtain ⟨outside, unseen⟩ := hidden place write here
  rw [mem_cons, not_or] at outside
  obtain ⟨apart, later⟩ := outside
  refine ⟨later, ?_⟩
  rw [Shows, update_of_ne apart]
  exact unseen

theorem ShownSoFar.clone (shown : ShownSoFar (name :: rem) journal txId writes)
    (seen : ∀ place write, writes[place]? = some write → write.table = name →
      some (txId, place) ∈ ents.map JournalEntry.stamp) :
    ShownSoFar rem (update journal name ents) txId writes := by
  intro place write here outside
  by_cases same : write.table = name
  · rw [Shows, same, update_self]
    exact seen place write here same
  · rw [Shows, update_of_ne same]
    refine shown place write here ?_
    rw [mem_cons, not_or]
    exact ⟨same, outside⟩

end

/-- Tables with the writes that they had seen, all of them made since. -/
structure Copied (mach : SqlMachine) (sto : String → Option ColumnarTable)
    (journal : String → List JournalEntry) : Prop where
  replays : ∀ name tbl, sto name = some tbl → Replays tbl (journal name)
  old : ∀ stamp name, Shows journal stamp name → Shows mach.journal stamp name

theorem Copied.later (h : Copied mach sto ents)
    (stamps : ∀ stamp name, Shows mach.journal stamp name → Shows next.journal stamp name) :
    Copied next sto ents :=
  ⟨h.replays, fun stamp name shown => stamps stamp name (h.old stamp name shown)⟩

structure CloneSound (mach : SqlMachine) (running : RunningSnapshot) : Prop
    extends Copied mach running.storage running.journal where
  standing : ∀ rem, running.remaining = some rem → ∀ txId writes, mach.history txId = some writes →
      Standing rem running.journal txId writes (mach.progress txId writes)

structure ReturnSound (mach : SqlMachine)
    (returned : RelationalSqlSnapshot × (String → List JournalEntry)) : Prop
    extends Copied mach returned.1.storage returned.2 where
  whole : ∀ txId writes, mach.history txId = some writes → AllOrNone returned.2 txId writes

/-- The invariant of all runs in which the loops keep apart. -/
structure Visible (mach : SqlMachine) : Prop where
  ledger : mach.Ledger
  journaled : mach.Journaled
  clones : ∀ running ∈ mach.snapshots, CloneSound mach running
  returned : ∀ entry ∈ mach.returned, ReturnSound mach entry

/-- A stamp that a clone shows belongs to a write that has been made. -/
theorem Journaled.made (h : mach.Journaled) (committed : mach.history txId = some writes)
    (shown : Shows mach.journal (txId, place) name) :
    place < mach.progress txId writes := by
  obtain ⟨other, write, again, -, -, pre⟩ := (h.stamps txId place name).mp shown
  rw [committed] at again
  cases again
  exact pre

theorem shows_writeNext (stamp : Nat × Nat) (name : String)
    (shown : Shows mach.journal stamp name) :
    Shows (mach.writeNext commit write).journal stamp name :=
  (shows_record ..).mpr (.inl shown)

theorem CloneSound.writeNext (h : CloneSound mach running) (visible : mach.Visible)
    (committing : mach.committing = some commit)
    (here : commit.writes[commit.written]? = some write)
    (apart : ∀ rem, running.remaining = some rem → (∀ write ∈ commit.writes, write.table ∈ rem) ∨
        ∀ write ∈ commit.writes, write.table ∉ rem) :
    CloneSound (mach.writeNext commit write) running := by
  refine ⟨h.later shows_writeNext, fun rem opened txId writes committed => ?_⟩
  have standing := h.standing rem opened txId writes committed
  rw [progress_running committing] at standing
  rw [progress_running rfl]
  by_cases same : commit.txId = txId
  · subst same
    obtain rfl := visible.ledger.writes_eq committing committed
    simp only [if_true] at standing ⊢
    apply Standing.of_apart
    rcases Nat.eq_zero_or_pos commit.written with start | started
    · refine (apart rem opened).imp id fun cloned place other found => ?_
      refine ⟨cloned other (mem_of_getElem? found), fun shown => ?_⟩
      have made := visible.journaled.made committed (h.old _ _ shown)
      rw [progress_running committing, if_pos rfl, start] at made
      exact Nat.not_lt_zero _ made
    · exact standing.midway started (List.getElem?_eq_some_iff.mp here).1
  · simp only [if_neg same] at standing ⊢
    exact standing

theorem CloneSound.cloneTable (h : CloneSound mach running) (visible : mach.Visible)
    (opened : running.remaining = some (name :: rest))
    (apart : ∀ commit, mach.committing = some commit → 0 < commit.written →
      commit.written < commit.writes.length → ∀ write ∈ commit.writes, write.table ≠ name) :
    CloneSound mach { running with
      remaining := some rest
      storage := update running.storage name (mach.engine.storage name)
      journal := update running.journal name (mach.journal name) } := by
  refine ⟨⟨fun other tbl found => ?_, fun stamp other shown => ?_⟩, ?_⟩
  · by_cases same : other = name
    · subst same
      simp only [update_self] at found ⊢
      exact visible.journaled.replays other tbl found
    · simp only [update_of_ne same] at found ⊢
      exact h.replays other tbl found
  · by_cases same : other = name
    · subst same
      simp only [Shows, update_self] at shown
      exact shown
    · simp only [Shows, update_of_ne same] at shown
      exact h.old stamp other shown
  · rintro _ ⟨⟩ txId writes committed
    have standing := h.standing _ opened txId writes committed
    constructor
    · intro started unfinished
      refine (standing.midway started unfinished).imp (fun untouched => ?_) Hidden.clone
      apply untouched.clone
      -- only the running commit is midway
      cases committing : mach.committing with
      | none =>
        rw [progress_free committing] at unfinished
        exact absurd unfinished (Nat.lt_irrefl _)
      | some commit =>
        rw [progress_running committing] at started unfinished
        by_cases same : commit.txId = txId
        · subst same
          obtain rfl := visible.ledger.writes_eq committing committed
          rw [if_pos rfl] at started unfinished
          exact apart commit committing started unfinished
        · rw [if_neg same] at unfinished
          exact absurd unfinished (Nat.lt_irrefl _)
    · intro finished
      refine (standing.settled finished).imp (fun shown => ?_) Hidden.clone
      apply shown.clone
      intro place write here named
      apply (visible.journaled.stamps txId place name).mpr
      refine ⟨writes, write, committed, here, named, ?_⟩
      rw [finished]
      exact (List.getElem?_eq_some_iff.mp here).1

/-- What the end of the loop leaves is the whole of each transaction or nothing of it. -/
theorem CloneSound.whole (h : CloneSound mach running) (visible : mach.Visible)
    (opened : running.remaining = some []) (committed : mach.history txId = some writes) :
    AllOrNone running.journal txId writes := by
  have standing := h.standing [] opened txId writes committed
  rcases Nat.eq_or_lt_of_le (visible.ledger.progress_le committed) with finished | unfinished
  · refine (standing.settled finished).imp (fun shown place write here => ?_) fun hidden => ?_
    · exact shown place write here not_mem_nil
    · exact fun place write here => (hidden place write here).2
  · refine .inr fun place write here shown => ?_
    rcases Nat.eq_zero_or_pos (mach.progress txId writes) with start | started
    · have made := visible.journaled.made committed (h.old _ _ shown)
      rw [start] at made
      exact Nat.not_lt_zero _ made
    · rcases standing.midway started unfinished with untouched | hidden
      · cases untouched write (mem_of_getElem? here)
      · exact (hidden place write here).2 shown

/-- A step that adds no stamp and no transaction leaves every snapshot as sound as it was. -/
theorem Visible.of_same (h : mach.Visible) (ledger : next.Ledger) (journaled : next.Journaled)
    (stamps : ∀ stamp name, Shows mach.journal stamp name → Shows next.journal stamp name)
    (hist : next.history = mach.history)
    (progress : ∀ txId writes, mach.history txId = some writes →
      next.progress txId writes = mach.progress txId writes)
    (snaps : next.snapshots = mach.snapshots)
    (returned : next.returned = mach.returned) : next.Visible := by
  refine ⟨ledger, journaled, fun running mem => ?_, fun entry mem => ?_⟩
  · have sound := h.clones running (snaps ▸ mem)
    refine ⟨sound.later stamps, fun rem opened txId writes committed => ?_⟩
    rw [hist] at committed
    rw [progress txId writes committed]
    exact sound.standing rem opened txId writes committed
  · have sound := h.returned entry (returned ▸ mem)
    exact ⟨sound.later stamps, hist ▸ sound.whole⟩

theorem Visible.startCommit (h : mach.Visible) (free : mach.committing = none)
    (active : mach.engine.activeTransactions txId = some txn) :
    Visible (mach.startCommit txId txn) := by
  have unseen := (h.ledger.active txId txn active).2.1
  refine ⟨h.ledger.startCommit active, h.journaled.startCommit free unseen,
    fun running mem => ?_, fun entry mem => ?_⟩
  · have sound := h.clones running mem
    refine { sound with standing := fun rem opened id later committed => ?_ }
    by_cases same : id = txId
    · subst same
      simp only [progress, SqlMachine.startCommit, if_true]
      refine ⟨fun started => absurd started (Nat.lt_irrefl _), fun empty => .inl ?_⟩
      rw [length_eq_zero_iff.mp empty.symm]
      intro place write here
      cases here
    · have standing := sound.standing rem opened id later
        ((update_of_ne same ..).symm.trans committed)
      rw [progress_free free] at standing
      simp only [progress, SqlMachine.startCommit, if_neg (Ne.symm same)]
      exact standing
  · have sound := h.returned entry mem
    refine { sound with whole := fun id later committed => ?_ }
    by_cases same : id = txId
    · refine .inr fun place write _ shown => ?_
      obtain ⟨other, write, seen, -⟩ := (h.journaled.stamps ..).mp (sound.old _ _ shown)
      cases seen.symm.trans (same ▸ unseen)
    · exact sound.whole id later ((update_of_ne same ..).symm.trans committed)

theorem Visible.of_clone (h : mach.Visible) (sound : CloneSound mach changed) :
    Visible { mach with snapshots := mach.snapshots.set pos changed } := by
  refine ⟨{ h.ledger with }, { h.journaled with }, fun other mem => ?_, fun entry mem => ?_⟩
  · rcases mem_or_eq_of_mem_set mem with earlier | rfl
    · exact { h.clones other earlier with }
    · exact { sound with }
  · exact { h.returned entry mem with }

theorem Visible.step (h : mach.Visible) (apart : mach.LoopsApart action)
    (done : mach.act action = some next) : next.Visible := by
  have ledger := h.ledger.step done
  have journaled := h.journaled.step h.ledger done
  have kept : ∀ stamp name, Shows mach.journal stamp name → Shows mach.journal stamp name :=
    fun _ _ shown => shown
  cases effect_of_act done with
  | createRefused | commitRefused | applyRefused => exact h
  | createTable | beginTransaction | prepareInsert | stage | rollback =>
    exact h.of_same ledger journaled kept rfl (fun _ _ _ => rfl) rfl rfl
  | beginCommit free active => exact h.startCommit free active
  | @commitWrite commit write running here =>
    refine ⟨ledger, journaled, fun clone mem => ?_, fun entry mem => ?_⟩
    · exact (h.clones clone mem).writeNext h running here (apart commit running clone mem)
    · have sound := h.returned entry mem
      exact ⟨sound.later shows_writeNext, sound.whole⟩
  | @endCommit commit running finished =>
    refine h.of_same ledger journaled kept rfl (fun txId writes committed => ?_) rfl rfl
    rw [progress_running running, progress_free rfl]
    split
    case isTrue same =>
      subst same
      rw [← h.ledger.writes_eq running committed]
      exact finished.symm
    case isFalse => rfl
  | applyCommitted =>
    exact h.of_same ledger journaled (fun stamp name shown => (shows_record ..).mpr (.inl shown))
      rfl (fun _ _ _ => rfl) rfl rfl
  | beginSnapshot =>
    refine ⟨ledger, journaled, fun running mem => ?_,
      fun entry mem => { h.returned entry mem with }⟩
    rcases mem_append.mp mem with earlier | last
    · exact { h.clones running earlier with }
    · rw [mem_singleton.mp last]
      exact ⟨⟨nofun, nofun⟩, nofun⟩
  | @openStorage pos running order here all =>
    have sound := h.clones running (mem_of_getElem? here)
    refine h.of_clone { sound with standing := ?_ }
    rintro _ ⟨⟩ txId writes committed
    apply Standing.of_apart
    refine .inl fun write mem => ?_
    exact all.mem_iff.mpr ((h.ledger.committed txId writes committed).2 write mem)
  | @cloneTable pos running name rest here rem =>
    have sound := h.clones running (mem_of_getElem? here)
    exact h.of_clone (sound.cloneTable h rem fun commit =>
      apart running name rest commit here rem)
  | @endSnapshot pos running here rem =>
    refine ⟨ledger, journaled, fun other mem => ?_, fun entry mem => ?_⟩
    · exact { h.clones other (mem_of_mem_eraseIdx mem) with }
    · rcases mem_append.mp mem with earlier | last
      · exact { h.returned entry earlier with }
      · rw [mem_singleton.mp last]
        have sound := h.clones running (mem_of_getElem? here)
        exact { sound with whole := fun txId writes => sound.whole h rem }

theorem new_visible : (new : SqlMachine).Visible := by
  refine ⟨⟨fun _ => ?_, fun _ => ?_, nofun, nofun, nofun, nofun⟩,
    ⟨fun _ _ => rfl, nofun, ?_, fun _ => ⟨nofun, nodup_nil⟩⟩, nofun, nofun⟩
  · simp [new, AcidSqlEngine.new, RelationalSqlEngine.new]
  · simp [new, AcidSqlEngine.new, RelationalSqlEngine.new]
  · intro txId place name
    simp [Shows, new]

/-- In every run, whatever the interleaving: each table is the replay of its journal, which has
    of the transactions only writes of those no longer active, each once, and between commits
    all writes of all transactions that have been committed. -/
theorem tables_hold_committed_writes (actions : List SqlAction) :
    Always act (fun mach =>
      (∀ name tbl, mach.engine.storage name = some tbl → Replays tbl (mach.journal name)) ∧
      (∀ name, ((mach.journal name).filterMap JournalEntry.stamp).Nodup ∧
        ∀ entry ∈ mach.journal name, ∀ txId place, entry.stamp = some (txId, place) →
          mach.engine.activeTransactions txId = none ∧
          ∃ writes, mach.history txId = some writes ∧ writes[place]? = some entry.write) ∧
      (mach.committing = none → ∀ txId writes, mach.history txId = some writes →
        ∀ place write, writes[place]? = some write →
          Shows mach.journal (txId, place) write.table)) new actions := by
  have kept : Always act (fun mach => mach.Ledger ∧ mach.Journaled) new actions :=
    .of_step ⟨new_visible.ledger, new_visible.journaled⟩ fun _ _ _ ⟨ledger, journaled⟩ done =>
      ⟨ledger.step done, journaled.step ledger done⟩
  intro count mach ran
  obtain ⟨ledger, journaled⟩ := kept count mach ran
  have owned := journaled.owned
  refine ⟨journaled.replays, fun name => ⟨(owned name).once,
    fun entry mem txId place stamped => ?_⟩, fun free txId writes made place write here => ?_⟩
  · obtain ⟨writes, made, here⟩ := (owned name).own entry mem txId place stamped
    refine ⟨Option.eq_none_iff_forall_ne_some.mpr fun txn active => ?_, writes, made, here⟩
    cases made.symm.trans (ledger.active txId txn active).2.1
  · refine (journaled.stamps ..).mpr ⟨writes, write, made, here, rfl, ?_⟩
    rw [progress_free free]
    exact (List.getElem?_eq_some_iff.mp here).1

/-- In every run in which the loops keep apart, a snapshot shows all writes of a transaction
    or none: its tables are the replays of journals that hold all of them or none. -/
theorem snapshots_show_whole_transactions (actions : List SqlAction)
    (apart : Throughout act LoopsApart new actions) :
    Always act (fun mach => ∀ returned ∈ mach.returned,
      (∀ name tbl, returned.1.storage name = some tbl → Replays tbl (returned.2 name)) ∧
        ∀ txId writes, mach.history txId = some writes → AllOrNone returned.2 txId writes)
      new actions := by
  have visible : Always act Visible new actions :=
    apart.always new_visible fun _ _ _ h permitted done => h.step permitted done
  intro count mach ran returned mem
  have sound := (visible count mach ran).returned returned mem
  exact ⟨sound.replays, sound.whole⟩

def bookSchema (name : String) : TableSchema where
  name := name
  columns := [⟨"id", .integer, true, false, none⟩]
  primaryKeyColumn := "id"

def bookRow (id : Int) : RelationalRow :=
  ⟨fun name => if name = "id" then some (.integer id) else none⟩

/-- A transaction stages a row in each of two tables. -/
def stagedTransfer : List SqlAction :=
  [.createTable (bookSchema "debits"), .createTable (bookSchema "credits"), .beginTransaction,
    .prepareInsert 1 "debits" (bookRow 7), .stage 0, .prepareInsert 1 "credits" (bookRow 7),
    .stage 0]

def snapshotActions : List SqlAction :=
  [.beginSnapshot, .openStorage 0 ["debits", "credits"], .cloneTable 0, .cloneTable 0,
    .endSnapshot 0]

theorem snapshots_around_transfer : Always act (fun mach => ∀ returned ∈ mach.returned,
      (∀ name tbl, returned.1.storage name = some tbl → Replays tbl (returned.2 name)) ∧
        ∀ txId writes, mach.history txId = some writes → AllOrNone returned.2 txId writes) new
      (stagedTransfer ++ snapshotActions ++
        [.beginCommit 1, .commitWrite, .commitWrite, .endCommit] ++ snapshotActions) := by
  apply snapshots_show_whole_transactions
  have quiet : ∀ {mach : SqlMachine} {pos : Nat}, mach.committing = none →
      LoopsApart mach (.cloneTable pos) := by
    intro mach pos free running name rest commit _ _ committing
    rw [free] at committing
    cases committing
  have alone : ∀ {mach : SqlMachine}, mach.snapshots = [] → LoopsApart mach .commitWrite := by
    intro mach none commit _ running mem
    rw [none] at mem
    cases mem
  refine .cons rfl trivial (.cons rfl trivial (.cons rfl trivial (.cons rfl trivial
    (.cons rfl trivial (.cons rfl trivial (.cons rfl trivial (.cons rfl trivial
    (.cons rfl trivial (.cons rfl (quiet rfl) (.cons rfl (quiet rfl) (.cons rfl trivial
    (.cons rfl trivial (.cons rfl (alone rfl) (.cons rfl (alone rfl) (.cons rfl trivial
    (.cons rfl trivial (.cons rfl trivial (.cons rfl (quiet rfl) (.cons rfl (quiet rfl)
    (.cons rfl trivial trivial))))))))))))))))))))

/-- The commit falls between the two clones: the snapshot has the credit and not the debit. -/
theorem snapshot_splits_transfer : ∃ final returned writes, (stagedTransfer ++ [beginSnapshot,
        openStorage 0 ["debits", "credits"], cloneTable 0,
        beginCommit 1, commitWrite, commitWrite, endCommit,
        cloneTable 0, endSnapshot 0]).foldlM act new = some final ∧
      final.returned = [returned] ∧
      (returned.1.storage "debits").map (fun tbl => tbl.iterRows.length) = some 0 ∧
      (returned.1.storage "credits").map (fun tbl => tbl.iterRows.length) = some 1 ∧
      final.history 1 = some writes ∧ ¬ AllOrNone returned.2 1 writes := by
  refine ⟨_, _, _, rfl, rfl, rfl, rfl, rfl, ?_⟩
  rintro (all | none)
  · have debit := all 0 _ rfl
    cases debit
  · exact none 1 _ rfl (mem_singleton.mpr rfl)

end SqlMachine
end HoloSphere.Relational
