import HoloSphere.Program.Machine
import HoloSphere.Relational.Transactions

/-! # Interleaved calls

The calls of any number of threads on one `RelationalSqlEngine`, cut at the locks they
take.  A commit holds the lock of the transactions from before its first write until after
its last and locks one table for each write.  A snapshot holds the map of the tables open
for reading while it clones one table after the other.  The checks of an insert, the write
of a replicated row and the writes of a commit may fall between any two of these.

The journals and the history are not in the source: they record which writes a table has
seen, and what each commit set out to write.
-/

namespace HoloSphere.Relational
open Function
open List hiding count

/-- A write that a table has seen.  The stamp of a committed row is its transaction with the
    place among its writes; a replicated row has none. -/
structure JournalEntry where
  stamp : Option (Nat × Nat)
  version : Nat
  write : StagedWrite

/-- A commit between its writes, of which the first `written` are done. -/
structure RunningCommit where
  txId : Nat
  version : Nat
  writes : List StagedWrite
  written : Nat

/-- A snapshot between its steps.  `remaining` is what its loop has yet to clone, and none
    before the map of the tables is locked. -/
structure RunningSnapshot where
  tables : String → Option TableSchema
  remaining : Option (List String)
  storage : String → Option ColumnarTable
  journal : String → List JournalEntry

structure SqlMachine where
  engine : AcidSqlEngine
  /-- The keys of `storage`. -/
  names : List String
  /-- Inserts that passed their checks and wait for the lock of the transactions. -/
  prepared : List (Nat × StagedWrite)
  committing : Option RunningCommit
  snapshots : List RunningSnapshot
  returned : List (RelationalSqlSnapshot × (String → List JournalEntry))
  journal : String → List JournalEntry
  history : Nat → Option (List StagedWrite)

inductive SqlAction where
  | createTable (schema : TableSchema)
  | beginTransaction
  | prepareInsert (txId : Nat) (tbl : String) (row : RelationalRow)
  | stage (pos : Nat)
  | rollback (txId : Nat)
  | beginCommit (txId : Nat)
  | commitWrite
  | endCommit
  | applyCommitted (tbl : String) (row : RelationalRow) (isDelete : Bool)
  | beginSnapshot
  | openStorage (pos : Nat) (order : List String)
  | cloneTable (pos : Nat)
  | endSnapshot (pos : Nat)

def AcidSqlEngine.replicatedWrite (tbl : String) (row : RelationalRow) (isDelete : Bool)
    (eng : AcidSqlEngine) : Option StagedWrite :=
  match eng.tables tbl with
  | none => none
  | some schema =>
    match RelationalSqlEngine.primaryKeyOf schema row with
    | .error _ => none
    | .ok pk => some ⟨tbl, pk, if isDelete then none else some row⟩

namespace AcidSqlEngine
variable {eng : AcidSqlEngine}

/-- A row is replicated exactly if there is a write for it, to a table that is known. -/
theorem wrote_replicated (stands : eng.replicatedWrite tbl row isDelete = some write) :
    ∃ core, eng.applyCommittedRowMutation tbl row isDelete =
        .ok { eng with toRelationalSqlEngine := core } ∧
      (eng.tables write.table).isSome ∧ ((eng.storage write.table).isSome →
        RelationalSqlEngine.Wrote eng.toRelationalSqlEngine core core.currentVersion write) := by
  unfold replicatedWrite at stands
  split at stands
  · cases stands
  case h_2 schema known =>
    split at stands
    · cases stands
    · cases stands
      obtain ⟨core, applied, wrote⟩ := RelationalSqlEngine.wrote_apply known ‹_›
      refine ⟨core, ?_, by simp [known], wrote⟩
      simp [applyCommittedRowMutation, applied, Except.map]

end AcidSqlEngine

namespace SqlMachine

def new : SqlMachine where
  engine := .new
  names := []
  prepared := []
  committing := none
  snapshots := []
  returned := []
  journal := fun _ => []
  history := fun _ => none

def record (entry : JournalEntry) (journal : String → List JournalEntry) :
    String → List JournalEntry :=
  update journal entry.write.table (journal entry.write.table ++ [entry])

/-- `create_table` writes the schemas, which a waiting insert holds open, and the map of the
    tables, which a cloning snapshot holds open. -/
def canCreate (m : SqlMachine) : Bool :=
  m.prepared.isEmpty && m.snapshots.all fun running => running.remaining.isNone

/-- One step of one of the threads.  A call that fails leaves the engine as it was. -/
def act (m : SqlMachine) : SqlAction → Option SqlMachine
  | .createTable schema =>
    if m.canCreate then
      match m.engine.createTable schema with
      | .error _ => some m
      | .ok eng =>
        some { m with engine := eng, names := m.names ++ [schema.name] }
    else none
  | .beginTransaction =>
    if m.committing.isSome then none
    else some { m with engine := m.engine.beginTransaction.2 }
  | .prepareInsert txId tbl row =>
    match m.engine.prepareInsert tbl row with
    | .error _ => some m
    | .ok write => some { m with prepared := m.prepared ++ [(txId, write)] }
  | .stage pos =>
    if m.committing.isSome then none
    else
      match m.prepared[pos]? with
      | none => none
      | some (txId, write) => some { m with
          engine := (m.engine.stage txId write).toOption.getD m.engine
          prepared := m.prepared.eraseIdx pos }
  | .rollback txId =>
    if m.committing.isSome then none
    else some { m with
      engine := (m.engine.rollback txId).toOption.getD m.engine }
  | .beginCommit txId =>
    if m.committing.isSome then none
    else
      match m.engine.takeTransaction txId with
      | .error _ => some m
      | .ok (writes, eng) => some { m with
          engine := eng
          committing := some ⟨txId, eng.currentVersion, writes, 0⟩
          history := update m.history txId (some writes) }
  | .commitWrite =>
    match m.committing with
    | none => none
    | some commit =>
      match commit.writes[commit.written]? with
      | none => none
      | some write => some { m with
          engine := m.engine.writeRow commit.version write
          committing := some { commit with written := commit.written + 1 }
          journal := record ⟨some (commit.txId, commit.written), commit.version, write⟩
            m.journal }
  | .endCommit =>
    match m.committing with
    | none => none
    | some commit =>
      if commit.written = commit.writes.length then some { m with committing := none }
      else none
  | .applyCommitted tbl row isDelete =>
    match m.engine.replicatedWrite tbl row isDelete,
      m.engine.applyCommittedRowMutation tbl row isDelete with
    | some write, .ok eng => some { m with
        engine := eng
        journal := record ⟨none, eng.currentVersion, write⟩ m.journal }
    | _, _ => some m
  | .beginSnapshot => some { m with
      snapshots := m.snapshots ++ [⟨m.engine.tables, none, fun _ => none, fun _ => []⟩] }
  | .openStorage pos order =>
    match m.snapshots[pos]? with
    | none => none
    | some running =>
      if running.remaining = none ∧ order.Perm m.names then
        some { m with
          snapshots := m.snapshots.set pos { running with remaining := some order } }
      else none
  | .cloneTable pos =>
    match m.snapshots[pos]? with
    | some ⟨tables, some (name :: rest), sto, journal⟩ =>
      let running : RunningSnapshot := {
        tables := tables
        remaining := some rest
        storage := update sto name (m.engine.storage name)
        journal := update journal name (m.journal name) }
      some { m with snapshots := m.snapshots.set pos running }
    | _ => none
  | .endSnapshot pos =>
    match m.snapshots[pos]? with
    | some ⟨tables, some [], sto, journal⟩ => some { m with
        snapshots := m.snapshots.eraseIdx pos
        returned := m.returned ++ [(⟨tables, sto, m.engine.currentVersion⟩, journal)] }
    | _ => none

/-- What a step does that is only about transactions: one may be new, and without rows; the
    others were active before, and rows that they have since had been checked. -/
structure Queued (m : SqlMachine) (active : Nat → Option AcidTransaction) (count : Nat)
    (prepared : List (Nat × StagedWrite)) : Prop where
  counted : m.engine.nextTxId ≤ count
  active : ∀ id txn, active id = some txn →
    (id = m.engine.nextTxId ∧ id < count ∧ txn.uncommittedWrites = []) ∨
      ∃ earlier, m.engine.activeTransactions id = some earlier ∧
        ∀ write ∈ txn.uncommittedWrites,
          write ∈ earlier.uncommittedWrites ∨ ∃ tx, (tx, write) ∈ m.prepared
  prepared : ∀ entry ∈ prepared, entry ∈ m.prepared ∨ (m.engine.tables entry.2.table).isSome

section
variable (m : SqlMachine)

def queue (active : Nat → Option AcidTransaction) (count : Nat)
    (prepared : List (Nat × StagedWrite)) : SqlMachine :=
  { m with
    engine := { m.engine with activeTransactions := active, nextTxId := count }
    prepared := prepared }

def addTable (schema : TableSchema) : SqlMachine :=
  { m with
    engine := { m.engine with toRelationalSqlEngine := m.engine.withTable schema }
    names := m.names ++ [schema.name] }

def startCommit (txId : Nat) (txn : AcidTransaction) : SqlMachine :=
  { m with
    engine := { m.engine with
      activeTransactions := update m.engine.activeTransactions txId none
      currentVersion := m.engine.currentVersion + 1 }
    committing := some ⟨txId, m.engine.currentVersion + 1, txn.uncommittedWrites, 0⟩
    history := update m.history txId (some txn.uncommittedWrites) }

def writeNext (commit : RunningCommit) (write : StagedWrite) : SqlMachine :=
  { m with
    engine := m.engine.writeRow commit.version write
    committing := some { commit with written := commit.written + 1 }
    journal := record ⟨some (commit.txId, commit.written), commit.version, write⟩ m.journal }

/-- All that a step can do, with what it found. -/
inductive Effect : SqlAction → SqlMachine → Prop where
  | createRefused : Effect (.createTable schema) m
  | createTable (absent : m.engine.tables schema.name = none) :
      Effect (.createTable schema) (m.addTable schema)
  | beginTransaction (queued : m.Queued active count waiting) :
      Effect .beginTransaction (m.queue active count waiting)
  | prepareInsert (queued : m.Queued active count waiting) :
      Effect (.prepareInsert txId tbl row) (m.queue active count waiting)
  | stage (queued : m.Queued active count waiting) :
      Effect (.stage pos) (m.queue active count waiting)
  | rollback (queued : m.Queued active count waiting) :
      Effect (.rollback txId) (m.queue active count waiting)
  | commitRefused : Effect (.beginCommit txId) m
  | beginCommit (free : m.committing = none)
      (active : m.engine.activeTransactions txId = some txn) :
      Effect (.beginCommit txId) (m.startCommit txId txn)
  | commitWrite (running : m.committing = some commit)
      (next : commit.writes[commit.written]? = some write) :
      Effect .commitWrite (m.writeNext commit write)
  | endCommit (running : m.committing = some commit)
      (done : commit.written = commit.writes.length) :
      Effect .endCommit { m with committing := none }
  | applyRefused (refused : m.engine.replicatedWrite tbl row isDelete = none) :
      Effect (.applyCommitted tbl row isDelete) m
  | applyCommitted (stands : m.engine.replicatedWrite tbl row isDelete = some write)
      (known : (m.engine.tables write.table).isSome)
      (wrote : (m.engine.storage write.table).isSome → RelationalSqlEngine.Wrote
        m.engine.toRelationalSqlEngine core core.currentVersion write) :
      Effect (.applyCommitted tbl row isDelete) { m with
        engine := { m.engine with toRelationalSqlEngine := core }
        journal := record ⟨none, core.currentVersion, write⟩ m.journal }
  | beginSnapshot : Effect .beginSnapshot { m with
        snapshots := m.snapshots ++ [⟨m.engine.tables, none, fun _ => none, fun _ => []⟩] }
  | openStorage (here : m.snapshots[pos]? = some running) (all : order.Perm m.names) :
      Effect (.openStorage pos order) { m with
        snapshots := m.snapshots.set pos { running with remaining := some order } }
  | cloneTable (here : m.snapshots[pos]? = some running)
      (rem : running.remaining = some (name :: rest)) :
      Effect (.cloneTable pos) { m with
        snapshots := m.snapshots.set pos { running with
          remaining := some rest
          storage := update running.storage name (m.engine.storage name)
          journal := update running.journal name (m.journal name) } }
  | endSnapshot (here : m.snapshots[pos]? = some running) (rem : running.remaining = some []) :
      Effect (.endSnapshot pos) { m with
        snapshots := m.snapshots.eraseIdx pos
        returned := m.returned ++
          [(⟨running.tables, running.storage, m.engine.currentVersion⟩, running.journal)] }

end

variable {m : SqlMachine}

theorem Queued.same (queued : ∀ entry ∈ waiting,
      entry ∈ m.prepared ∨ (m.engine.tables entry.2.table).isSome) :
    m.Queued m.engine.activeTransactions m.engine.nextTxId waiting :=
  ⟨Nat.le_refl _, fun _ txn active => .inr ⟨txn, active, fun _ mem => .inl mem⟩, queued⟩

theorem effect_beginTransaction :
    Effect m .beginTransaction { m with engine := m.engine.beginTransaction.2 } := by
  refine .beginTransaction ⟨Nat.le_succ _, fun id txn active => ?_, fun _ mem => .inl mem⟩
  by_cases same : id = m.engine.nextTxId
  · rw [same, update_self] at active
    cases active
    exact .inl ⟨same, same ▸ Nat.lt_succ_self _, rfl⟩
  · rw [update_of_ne same] at active
    exact .inr ⟨txn, active, fun _ mem => .inl mem⟩

theorem effect_prepareInsert (checked : m.engine.prepareInsert tbl row = .ok write) :
    Effect m (.prepareInsert txId tbl row) { m with
      prepared := m.prepared ++ [(txId, write)] } := by
  refine .prepareInsert (.same fun entry mem => (mem_append.mp mem).imp id fun last => ?_)
  rw [mem_singleton.mp last]
  exact AcidSqlEngine.prepareInsert_ok checked

theorem effect_stage (waiting : m.prepared[pos]? = some (txId, write)) :
    Effect m (.stage pos) { m with
      engine := (m.engine.stage txId write).toOption.getD m.engine
      prepared := m.prepared.eraseIdx pos } := by
  unfold AcidSqlEngine.stage
  cases found : m.engine.activeTransactions txId with
  | none => exact .stage (.same fun _ mem => .inl (mem_of_mem_eraseIdx mem))
  | some earlier =>
    refine .stage ⟨Nat.le_refl _, fun id txn active => .inr ?_,
      fun _ mem => .inl (mem_of_mem_eraseIdx mem)⟩
    by_cases same : id = txId
    · rw [same, update_self] at active
      cases active
      refine ⟨earlier, same ▸ found, fun entry mem => (mem_append.mp mem).imp_right fun last => ?_⟩
      rw [mem_singleton.mp last]
      exact ⟨txId, mem_of_getElem? waiting⟩
    · rw [update_of_ne same] at active
      exact ⟨txn, active, fun _ mem => .inl mem⟩

theorem effect_rollback (txId : Nat) : Effect m (.rollback txId) { m with
      engine := (m.engine.rollback txId).toOption.getD m.engine } := by
  unfold AcidSqlEngine.rollback
  split
  · refine .rollback ⟨Nat.le_refl _, fun id txn active => ?_, fun _ mem => .inl mem⟩
    by_cases same : id = txId
    · rw [same, update_self] at active
      cases active
    · rw [update_of_ne same] at active
      exact .inr ⟨txn, active, fun _ mem => .inl mem⟩
  · exact .rollback (.same fun _ mem => .inl mem)

theorem effect_of_act {next : SqlMachine} (done : m.act action = some next) :
    Effect m action next := by
  revert done
  fun_cases act m action <;> rintro ⟨⟩
  · exact .createRefused
  case case2 created =>
    obtain ⟨absent, rfl⟩ := AcidSqlEngine.createTable_ok created
    exact .createTable absent
  · exact effect_beginTransaction
  · exact .prepareInsert (.same fun _ mem => .inl mem)
  · exact effect_prepareInsert ‹_›
  · exact effect_stage ‹_›
  · exact effect_rollback _
  · exact .commitRefused
  case case15 free _ _ taken =>
    obtain ⟨txn, active, rfl, rfl⟩ := AcidSqlEngine.takeTransaction_ok taken
    exact .beginCommit (Option.not_isSome_iff_eq_none.mp free) active
  · exact .commitWrite ‹_› ‹_›
  · exact .endCommit ‹_› ‹_›
  case case22 applied stands =>
    obtain ⟨core, again, known, wrote⟩ := AcidSqlEngine.wrote_replicated stands
    cases applied.symm.trans again
    exact .applyCommitted stands known wrote
  case case23 refused =>
    refine .applyRefused (Option.eq_none_iff_forall_ne_some.mpr fun write stands => ?_)
    obtain ⟨core, applied, -⟩ := AcidSqlEngine.wrote_replicated stands
    exact refused write _ stands applied
  · exact .beginSnapshot
  case case26 fits => exact .openStorage ‹_› fits.2
  · exact .cloneTable ‹_› rfl
  · exact .endSnapshot ‹_› rfl

end SqlMachine
end HoloSphere.Relational
