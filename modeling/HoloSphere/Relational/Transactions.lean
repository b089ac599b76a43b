import HoloSphere.Relational.Sheet

/-! # Transactions

The transactional side of `RelationalSqlEngine`: `begin_transaction`, `insert`, `commit`,
`rollback` and `snapshot`.  An insert looks its foreign keys up in the committed tables
and stages the row; a commit writes the staged rows one after the other.
-/

namespace HoloSphere.Relational
open Function

/-- An entry of `uncommitted_writes`; no row stands for a deletion. -/
structure StagedWrite where
  table : String
  pk : String
  row : Option RelationalRow

inductive TransactionState where
  | active
  | committed
  | aborted
  deriving DecidableEq

structure AcidTransaction where
  transactionId : Nat
  state : TransactionState
  readSnapshotVersion : Nat
  lockedKeys : List (String × String)
  uncommittedWrites : List StagedWrite

structure AcidSqlEngine extends RelationalSqlEngine where
  activeTransactions : Nat → Option AcidTransaction
  nextTxId : Nat

structure RelationalSqlSnapshot where
  tables : String → Option TableSchema
  storage : String → Option ColumnarTable
  version : Nat

namespace StagedWrite

def onTable (ver : Nat) (write : StagedWrite) (table : ColumnarTable) : ColumnarTable :=
  match write.row with
  | some row => table.insertOrUpdate write.pk row ver
  | none => table.delete write.pk

/-- A write to a table that is not there is passed over. -/
def onStorage (ver : Nat) (sto : String → Option ColumnarTable) (write : StagedWrite) :
    String → Option ColumnarTable :=
  match sto write.table with
  | none => sto
  | some table => update sto write.table (some (write.onTable ver table))

theorem onTable_schema (ver : Nat) (write : StagedWrite) (table : ColumnarTable) :
    (write.onTable ver table).schema = table.schema := by
  unfold StagedWrite.onTable
  cases write.row with
  | some row => exact ColumnarTable.schema_insertOrUpdate ..
  | none => exact ColumnarTable.schema_delete ..

end StagedWrite

namespace AcidSqlEngine

def new : AcidSqlEngine :=
  { RelationalSqlEngine.new with activeTransactions := fun _ => none, nextTxId := 1 }

def createTable (schema : TableSchema) (eng : AcidSqlEngine) : Except HNSQRError AcidSqlEngine :=
  (eng.toRelationalSqlEngine.createTable schema).map fun core =>
    { eng with toRelationalSqlEngine := core }

def applyCommittedRowMutation (table : String) (row : RelationalRow) (isDelete : Bool)
    (eng : AcidSqlEngine) : Except HNSQRError AcidSqlEngine :=
  (eng.toRelationalSqlEngine.applyCommittedRowMutation table row isDelete).map fun core =>
    { eng with toRelationalSqlEngine := core }

def beginTransaction (eng : AcidSqlEngine) : Nat × AcidSqlEngine :=
  let txn : AcidTransaction := {
    transactionId := eng.nextTxId
    state := .active
    readSnapshotVersion := eng.currentVersion
    lockedKeys := []
    uncommittedWrites := [] }
  (eng.nextTxId, { eng with
    nextTxId := eng.nextTxId + 1
    activeTransactions :=
      update eng.activeTransactions eng.nextTxId (some txn) })

/-- The key of a row as `insert` reads it; its text for a missing one is not that of the
    replicated path. -/
def stagedKeyOf (schema : TableSchema) (row : RelationalRow) : Except HNSQRError String :=
  match row.values schema.primaryKeyColumn with
  | none => .error (.invalidRequest s!"Missing primary key column '{schema.primaryKeyColumn}'")
  | some (.text val) => .ok val
  | some (.integer val) => .ok (toString val)
  | some _ => .error (.invalidRequest "Primary key must be Text or Integer")

def checkForeignKey (row : RelationalRow) (eng : AcidSqlEngine) (column : ColumnDefinition) :
    Except HNSQRError Unit :=
  match column.foreignKeyTarget, row.values column.name with
  | some (targetTable, targetCol), some val =>
    if val = .null then .ok ()
    else
      match eng.storage targetTable with
      | none => .error (.invalidRequest s!"Target table '{targetTable}' not found")
      | some tgt =>
        if tgt.targetExists targetCol val then .ok ()
        else .error (.invalidRequest
          s!"Foreign key violation on column '{column.name}' -> '{targetTable}.{targetCol}'")
  | _, _ => .ok ()

/-- The part of `insert` before it takes the lock of the transactions. -/
def prepareInsert (table : String) (row : RelationalRow) (eng : AcidSqlEngine) :
    Except HNSQRError StagedWrite := do
  let schema ← match eng.tables table with
    | some schema => Except.ok schema
    | none => .error (.invalidRequest s!"Table '{table}' not found")
  let pk ← stagedKeyOf schema row
  schema.columns.forM (checkForeignKey row eng)
  .ok ⟨table, pk, some row⟩

def stage (txId : Nat) (write : StagedWrite) (eng : AcidSqlEngine) :
    Except HNSQRError AcidSqlEngine :=
  match eng.activeTransactions txId with
  | none => .error (.invalidRequest s!"Transaction {txId} not active")
  | some txn =>
    let txn := { txn with
      lockedKeys := txn.lockedKeys.insert (write.table, write.pk)
      uncommittedWrites := txn.uncommittedWrites ++ [write] }
    .ok { eng with
      activeTransactions := update eng.activeTransactions txId (some txn) }

/-- The part of `commit` before its first write: the transaction is taken out of the table
    and the version of its rows is drawn. -/
def takeTransaction (txId : Nat) (eng : AcidSqlEngine) :
    Except HNSQRError (List StagedWrite × AcidSqlEngine) :=
  match eng.activeTransactions txId with
  | none => .error (.invalidRequest s!"Transaction {txId} not active")
  | some txn => .ok (txn.uncommittedWrites, { eng with
      activeTransactions := update eng.activeTransactions txId none
      currentVersion := eng.currentVersion + 1 })

def writeRow (ver : Nat) (eng : AcidSqlEngine) (write : StagedWrite) : AcidSqlEngine :=
  { eng with storage := write.onStorage ver eng.storage }

def rollback (txId : Nat) (eng : AcidSqlEngine) : Except HNSQRError AcidSqlEngine :=
  if (eng.activeTransactions txId).isSome then
    .ok { eng with activeTransactions := update eng.activeTransactions txId none }
  else .error (.invalidRequest s!"Transaction {txId} not active")

end AcidSqlEngine

namespace RelationalSqlEngine

structure Wrote (eng after : RelationalSqlEngine) (ver : Nat) (write : StagedWrite) : Prop where
  tables : after.tables = eng.tables
  storage : after.storage = write.onStorage ver eng.storage

theorem Wrote.storage_at (wrote : Wrote eng after ver write) (name : String) :
    after.storage name = if name = write.table then (eng.storage name).map (write.onTable ver)
      else eng.storage name := by
  rw [wrote.storage, StagedWrite.onStorage]
  by_cases same : name = write.table
  · subst same
    cases stored : eng.storage write.table <;> simp [stored]
  · cases eng.storage write.table <;> simp [same]

/-- What `create_table` leaves under a name that is free. -/
def withTable (schema : TableSchema) (eng : RelationalSqlEngine) : RelationalSqlEngine :=
  { eng with
    tables := update eng.tables schema.name (some schema)
    storage := update eng.storage schema.name (some (ColumnarTable.new schema)) }

theorem wrote_apply (known : eng.tables table = some schema)
    (keyed : primaryKeyOf schema row = .ok pk) :
    ∃ after, eng.applyCommittedRowMutation table row isDelete = .ok after ∧
      ((eng.storage table).isSome → Wrote eng after after.currentVersion
        ⟨table, pk, if isDelete then none else some row⟩) := by
  simp only [applyCommittedRowMutation, known, keyed, bind, Except.bind]
  refine ⟨_, rfl, fun held => ⟨rfl, ?_⟩⟩
  obtain ⟨current, stored⟩ := Option.isSome_iff_exists.mp held
  cases isDelete <;> simp [StagedWrite.onStorage, StagedWrite.onTable, stored]

end RelationalSqlEngine

namespace AcidSqlEngine
variable {eng : AcidSqlEngine}

theorem wrote_writeRow (eng : AcidSqlEngine) (ver : Nat) (write : StagedWrite) :
    RelationalSqlEngine.Wrote eng.toRelationalSqlEngine
      (eng.writeRow ver write).toRelationalSqlEngine ver write := ⟨rfl, rfl⟩

theorem createTable_ok (created : eng.createTable schema = .ok after) :
    eng.tables schema.name = none ∧ after = { eng with
      toRelationalSqlEngine := eng.withTable schema } := by
  unfold createTable RelationalSqlEngine.createTable at created
  split at created
  case isTrue => cases created
  case isFalse unknown =>
    cases created
    exact ⟨Option.not_isSome_iff_eq_none.mp unknown, rfl⟩

theorem prepareInsert_ok (checked : eng.prepareInsert table row = .ok write) :
    (eng.tables write.table).isSome := by
  unfold prepareInsert at checked
  cases known : eng.tables table with
  | none => simp [known, bind, Except.bind] at checked
  | some schema =>
    simp only [known, bind, Except.bind] at checked
    split at checked
    · cases checked
    · split at checked
      · cases checked
      · cases checked
        simp [known]

theorem takeTransaction_ok (taken : eng.takeTransaction txId = .ok (writes, after)) :
    ∃ txn, eng.activeTransactions txId = some txn ∧
      writes = txn.uncommittedWrites ∧ after = { eng with
        activeTransactions := update eng.activeTransactions txId none
        currentVersion := eng.currentVersion + 1 } := by
  unfold takeTransaction at taken
  split at taken
  · cases taken
  · cases taken
    exact ⟨_, ‹_›, rfl, rfl⟩

end AcidSqlEngine
end HoloSphere.Relational
