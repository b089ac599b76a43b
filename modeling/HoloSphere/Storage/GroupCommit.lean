import HoloSphere.Storage.WalRecovery

/-! # Group commit

Threads that append to one log.  The steps of a thread are the parts of `append` and
`sync_target_lsn` between which another thread can act: the part that holds the writer, the
look at `last_synced_lsn`, the look under the sync lock, `sync_data` under the writer, the
load of `current_lsn` and the store to `last_synced_lsn`.  All policies but `Memory` take
these steps.

The load comes after the writer is free again.  A record written in between is taken for
synced.
-/

namespace HoloSphere.Storage
open Format Consensus Program Function List

inductive AppendPhase where
  | idle
  | written (tgtLsn : Nat)
  | waiting (tgtLsn : Nat)
  | holding (tgtLsn : Nat)
  | synced (tgtLsn : Nat)
  | loaded (tgtLsn cur : Nat)
  deriving DecidableEq

/-- The number of the record that a call waits for. -/
def AppendPhase.target : AppendPhase → Option Nat
  | .idle => none
  | .written tgtLsn | .waiting tgtLsn | .holding tgtLsn | .synced tgtLsn
  | .loaded tgtLsn _ => some tgtLsn

/-- The manager with its threads.  The rest is what an observer of the disk notes: the file of
    every record, the records whose file was synced after them, and the number of the last
    record written before the latest `sync_data` that completed. -/
structure CommitMachine where
  wal : WalManager
  syncLock : Option Nat
  phase : Nat → AppendPhase
  written : List (Nat × Nat)
  covered : List Nat
  barrier : Nat
  answers : List (Nat × Except HNSQRError Nat)

inductive CommitAction where
  | append (thread : Nat) (op : WalMutation) (rotationSynced : Bool) (disk : DiskOutcome)
  | check (thread : Nat)
  | lock (thread : Nat)
  | sync (thread : Nat) (failure : Option String)
  | load (thread : Nat)
  | store (thread : Nat)

namespace CommitMachine

def start (wal : WalManager) : CommitMachine :=
  ⟨wal, none, fun _ => .idle, [], [], wal.currentLsn, []⟩

def enter (thread : Nat) (phase : AppendPhase) (m : CommitMachine) : CommitMachine :=
  { m with phase := update m.phase thread phase }

def answer (thread : Nat) (res : Except HNSQRError Nat) (m : CommitMachine) : CommitMachine :=
  { m.enter thread .idle with answers := m.answers ++ [(thread, res)] }

/-- A sync of the file being written. -/
def coverActive (m : CommitMachine) : CommitMachine :=
  { m with covered := m.covered ++
    (m.written.filter fun entry => entry.2 = m.wal.segmentId).map Prod.fst }

/-- The result of the sync before a rotation is ignored. -/
def syncRotated (rotationSynced : Bool) (m : CommitMachine) : CommitMachine :=
  if m.wal.RotationDue ∧ rotationSynced then m.coverActive else m

/-- The part that holds the writer. -/
def write (thread : Nat) (op : WalMutation) (payload : Bytes) (disk : DiskOutcome)
    (m : CommitMachine) : CommitMachine :=
  match m.wal.writeRecord op payload disk with
  | (wal, .error e) => answer thread (.error e) { m with wal := wal }
  | (wal, .ok tgtLsn) =>
    enter thread (.written tgtLsn) { m with
      wal := wal
      written := m.written ++ [(tgtLsn, wal.segmentId)] }

def append (serde : Serde WalMutation) (thread : Nat) (op : WalMutation)
    (rotationSynced : Bool) (disk : DiskOutcome) (m : CommitMachine) : CommitMachine :=
  match serde.serialize op with
  | .error e => m.answer thread (.error (.corruptedSnapshot s!"Serialization error: {e}"))
  | .ok payload => (m.syncRotated rotationSynced).write thread op payload disk

def check (thread tgtLsn : Nat) (m : CommitMachine) : CommitMachine :=
  if tgtLsn ≤ m.wal.lastSyncedLsn then m.answer thread (.ok tgtLsn)
  else m.enter thread (.waiting tgtLsn)

def lock (thread tgtLsn : Nat) (m : CommitMachine) : CommitMachine :=
  if tgtLsn ≤ m.wal.lastSyncedLsn then m.answer thread (.ok tgtLsn)
  else { m.enter thread (.holding tgtLsn) with syncLock := some thread }

def sync (thread tgtLsn : Nat) (m : CommitMachine) : Option String → CommitMachine
  | some reason => answer thread (.error (.ioError reason)) { m with syncLock := none }
  | none =>
    enter thread (.synced tgtLsn)
      { m.coverActive with barrier := m.wal.currentLsn }

def load (thread tgtLsn : Nat) (m : CommitMachine) : CommitMachine :=
  m.enter thread (.loaded tgtLsn m.wal.currentLsn)

def store (thread tgtLsn cur : Nat) (m : CommitMachine) : CommitMachine :=
  answer thread (.ok tgtLsn) { m with
    wal := { m.wal with lastSyncedLsn := cur }
    syncLock := none }

def act (serde : Serde WalMutation) (m : CommitMachine) : CommitAction → Option CommitMachine
  | .append thread op rotationSynced disk =>
    match m.phase thread with
    | .idle => some (m.append serde thread op rotationSynced disk)
    | _ => none
  | .check thread =>
    match m.phase thread with
    | .written tgtLsn => some (m.check thread tgtLsn)
    | _ => none
  | .lock thread =>
    match m.phase thread, m.syncLock with
    | .waiting tgtLsn, none => some (m.lock thread tgtLsn)
    | _, _ => none
  | .sync thread failure =>
    match m.phase thread with
    | .holding tgtLsn => some (m.sync thread tgtLsn failure)
    | _ => none
  | .load thread =>
    match m.phase thread with
    | .synced tgtLsn => some (m.load thread tgtLsn)
    | _ => none
  | .store thread =>
    match m.phase thread with
    | .loaded tgtLsn cur => some (m.store thread tgtLsn cur)
    | _ => none

/-- What is possible in which phase. -/
inductive Step (serde : Serde WalMutation) (m : CommitMachine) : CommitAction → CommitMachine → Prop
  | append {thread : Nat} (idle : m.phase thread = .idle) (op : WalMutation)
      (rotationSynced : Bool) (disk : DiskOutcome) :
      Step serde m (.append thread op rotationSynced disk)
        (m.append serde thread op rotationSynced disk)
  | check {thread tgtLsn : Nat} (here : m.phase thread = .written tgtLsn) :
      Step serde m (.check thread) (m.check thread tgtLsn)
  | lock {thread tgtLsn : Nat} (here : m.phase thread = .waiting tgtLsn)
      (free : m.syncLock = none) :
      Step serde m (.lock thread) (m.lock thread tgtLsn)
  | sync {thread tgtLsn : Nat} (here : m.phase thread = .holding tgtLsn)
      (failure : Option String) :
      Step serde m (.sync thread failure) (m.sync thread tgtLsn failure)
  | load {thread tgtLsn : Nat} (here : m.phase thread = .synced tgtLsn) :
      Step serde m (.load thread) (m.load thread tgtLsn)
  | store {thread tgtLsn cur : Nat} (here : m.phase thread = .loaded tgtLsn cur) :
      Step serde m (.store thread) (m.store thread tgtLsn cur)

theorem step_of_act {m : CommitMachine} (done : m.act serde action = some later) :
    Step serde m action later := by
  revert done
  fun_cases act serde m action <;> rintro ⟨⟩
  · exact .append ‹_› _ _ _
  · exact .check ‹_›
  · exact .lock ‹_› ‹_›
  · exact .sync ‹_› _
  · exact .load ‹_›
  · exact .store ‹_›

@[simp] theorem phase_enter (phase : AppendPhase) (m : CommitMachine) :
    (m.enter thread phase).phase thread = phase := update_self _ _ _

theorem phase_enter_other (apart : other ≠ thread) (phase : AppendPhase) (m : CommitMachine) :
    (m.enter thread phase).phase other = m.phase other :=
  update_of_ne apart _ _

/-- A sync of the record's file has completed that began after it was written, and so has a
    `sync_data`. -/
def Settled (m : CommitMachine) (lsn : Nat) : Prop := lsn ∈ m.covered ∧ lsn ≤ m.barrier

/-- Of the records behind `base`, those up to `last_synced_lsn` and those acknowledged are
    settled. -/
structure AcknowledgesSettled (base : Nat) (m : CommitMachine) : Prop where
  published : ∀ lsn, base < lsn → lsn ≤ m.wal.lastSyncedLsn → m.Settled lsn
  answered : ∀ thread lsn, (thread, .ok lsn) ∈ m.answers → m.Settled lsn

/-- No record was written since the latest `sync_data` when `current_lsn` is loaded, and a
    rotation whose sync fails leaves a file that was synced before. -/
def Undisturbed (m : CommitMachine) : CommitAction → Prop
  | .append _ _ false _ => m.wal.RotationDue →
      ∀ entry ∈ m.written, entry.2 = m.wal.segmentId → entry.1 ∈ m.covered
  | .load _ => m.wal.currentLsn = m.barrier
  | _ => True

structure Sound (base : Nat) (m : CommitMachine) : Prop where
  started : base ≤ m.wal.currentLsn
  behind : m.barrier ≤ m.wal.currentLsn
  numbered : ∀ lsn, base < lsn → lsn ≤ m.wal.currentLsn → ∃ seg, (lsn, seg) ∈ m.written
  older : ∀ entry ∈ m.written, entry.2 ≠ m.wal.segmentId → entry.1 ∈ m.covered
  barred : ∀ lsn, base < lsn → lsn ≤ m.barrier → lsn ∈ m.covered
  published : m.wal.lastSyncedLsn ≤ m.barrier
  targets : ∀ thread tgtLsn, (m.phase thread).target = some tgtLsn →
    base < tgtLsn ∧ tgtLsn ≤ m.wal.currentLsn
  loads : ∀ thread tgtLsn cur, m.phase thread = .loaded tgtLsn cur → tgtLsn ≤ cur ∧ cur ≤ m.barrier
  answered : ∀ thread lsn, (thread, .ok lsn) ∈ m.answers → base < lsn ∧ lsn ≤ m.barrier

variable {m : CommitMachine}

theorem Sound.settled (sound : m.Sound base) : m.AcknowledgesSettled base where
  published lsn new synced :=
    ⟨sound.barred lsn new (le_trans synced sound.published), le_trans synced sound.published⟩
  answered thread lsn answered :=
    have ⟨new, pre⟩ := sound.answered thread lsn answered
    ⟨sound.barred lsn new pre, pre⟩

theorem sound_start {wal : WalManager} (settled : wal.lastSyncedLsn = wal.currentLsn) :
    (start wal).Sound wal.currentLsn where
  started := le_refl _
  behind := le_refl _
  numbered _ new old := absurd new (not_lt.mpr old)
  older _ mem := absurd mem not_mem_nil
  barred _ new old := absurd new (not_lt.mpr old)
  published := le_of_eq settled
  targets _ _ waiting := nomatch waiting
  loads _ _ _ loaded := nomatch loaded
  answered _ _ mem := absurd mem not_mem_nil

theorem Sound.enter (sound : m.Sound base) {phase : AppendPhase}
    (tgt : ∀ tgtLsn, phase.target = some tgtLsn → base < tgtLsn ∧ tgtLsn ≤ m.wal.currentLsn)
    (load : ∀ tgtLsn cur, phase = .loaded tgtLsn cur → tgtLsn ≤ cur ∧ cur ≤ m.barrier) :
    (m.enter thread phase).Sound base := by
  refine { sound with targets := ?_, loads := ?_ }
  · intro other tgtLsn waiting
    by_cases same : other = thread
    · rw [same, phase_enter] at waiting
      exact tgt tgtLsn waiting
    · rw [phase_enter_other same] at waiting
      exact sound.targets other tgtLsn waiting
  · intro other tgtLsn cur loaded
    by_cases same : other = thread
    · rw [same, phase_enter] at loaded
      exact load tgtLsn cur loaded
    · rw [phase_enter_other same] at loaded
      exact sound.loads other tgtLsn cur loaded

theorem Sound.answer (sound : m.Sound base)
    (settled : ∀ lsn, res = .ok lsn → base < lsn ∧ lsn ≤ m.barrier) :
    (m.answer thread res).Sound base := by
  have idle : (m.enter thread .idle).Sound base :=
    sound.enter (fun _ waiting => nomatch waiting) (fun _ _ loaded => nomatch loaded)
  refine { idle with answered := ?_ }
  intro other lsn mem
  rcases mem_append.mp mem with earlier | new
  · exact sound.answered other lsn earlier
  · cases mem_singleton.mp new
    exact settled lsn rfl

theorem mem_coverActive (covered : lsn ∈ m.covered) :
    lsn ∈ m.coverActive.covered := mem_append_left _ covered

theorem mem_coverActive_of_active (mem : entry ∈ m.written)
    (active : entry.2 = m.wal.segmentId) : entry.1 ∈ m.coverActive.covered := by
  apply mem_append_right
  apply mem_map_of_mem
  exact mem_filter.mpr ⟨mem, decide_eq_true active⟩

section
variable (sound : m.Sound base)
include sound

theorem Sound.coverActive : m.coverActive.Sound base :=
  { sound with
    older := fun entry mem other => mem_coverActive (sound.older entry mem other)
    barred := fun lsn new pre => mem_coverActive (sound.barred lsn new pre) }

/-- After a rotation all older files are covered. -/
theorem Sound.syncRotated (op : WalMutation) (rotationSynced : Bool) (disk : DiskOutcome)
    (undisturbed : m.Undisturbed (.append thread op rotationSynced disk)) :
    (m.syncRotated rotationSynced).Sound base ∧ ((m.syncRotated rotationSynced).wal.RotationDue →
        ∀ entry ∈ (m.syncRotated rotationSynced).written,
          entry.2 = (m.syncRotated rotationSynced).wal.segmentId →
            entry.1 ∈ (m.syncRotated rotationSynced).covered) := by
  unfold CommitMachine.syncRotated
  by_cases both : m.wal.RotationDue ∧ rotationSynced
  · rw [if_pos both]
    exact ⟨sound.coverActive, fun _ entry mem active => mem_coverActive_of_active mem active⟩
  · rw [if_neg both]
    refine ⟨sound, fun due => ?_⟩
    cases rotationSynced with
    | true => exact absurd ⟨due, rfl⟩ both
    | false => exact undisturbed due

/-- A writer that failed has given out no number. -/
theorem Sound.unlogged {wal : WalManager} (same : wal.currentLsn = m.wal.currentLsn)
    (synced : wal.lastSyncedLsn = m.wal.lastSyncedLsn)
    (older : ∀ entry ∈ m.written, entry.2 ≠ wal.segmentId → entry.1 ∈ m.covered) :
    ({ m with wal := wal } : CommitMachine).Sound base := by
  refine ⟨?_, ?_, ?_, older, sound.barred, ?_, ?_, sound.loads, sound.answered⟩
  · exact sound.started.trans_eq same.symm
  · exact sound.behind.trans_eq same.symm
  · exact fun lsn new old => sound.numbered lsn new (old.trans_eq same)
  · exact synced.trans_le sound.published
  · intro thread tgtLsn waiting
    obtain ⟨new, old⟩ := sound.targets thread tgtLsn waiting
    exact ⟨new, old.trans_eq same.symm⟩

/-- A new record in the file that is written. -/
theorem Sound.logged {wal : WalManager} (next : wal.currentLsn = m.wal.currentLsn + 1)
    (synced : wal.lastSyncedLsn = m.wal.lastSyncedLsn)
    (older : ∀ entry ∈ m.written, entry.2 ≠ wal.segmentId → entry.1 ∈ m.covered) :
    ({ m with
      wal := wal
      written := m.written ++ [(m.wal.currentLsn + 1, wal.segmentId)] } :
        CommitMachine).Sound base := by
  have started := sound.started
  have behind := sound.behind
  refine ⟨?_, ?_, ?_, ?_, sound.barred, ?_, ?_, sound.loads, sound.answered⟩
  · show base ≤ wal.currentLsn
    omega
  · show m.barrier ≤ wal.currentLsn
    omega
  · intro lsn new old
    have old : lsn ≤ wal.currentLsn := old
    by_cases last : lsn = m.wal.currentLsn + 1
    · rw [last]
      exact ⟨wal.segmentId, mem_append_right _ mem_cons_self⟩
    · obtain ⟨seg, mem⟩ := sound.numbered lsn new (by omega)
      exact ⟨seg, mem_append_left _ mem⟩
  · intro entry mem other
    rcases mem_append.mp mem with earlier | new
    · exact older entry earlier other
    · cases mem_singleton.mp new
      exact absurd rfl other
  · exact synced.trans_le sound.published
  · intro thread tgtLsn waiting
    obtain ⟨new, old⟩ := sound.targets thread tgtLsn waiting
    refine ⟨new, ?_⟩
    show tgtLsn ≤ wal.currentLsn
    omega

theorem Sound.write (rotated : m.wal.RotationDue → ∀ entry ∈ m.written,
      entry.2 = m.wal.segmentId → entry.1 ∈ m.covered)
    (op : WalMutation) (payload : Bytes) (disk : DiskOutcome) :
    (m.write thread op payload disk).Sound base := by
  have written := WalManager.writeRecord_written op payload disk m.wal
  unfold CommitMachine.write
  generalize m.wal.writeRecord op payload disk = outc at written ⊢
  obtain ⟨wal, res⟩ := outc
  obtain ⟨sameSynced, seg, failed⟩ := written.numbers
  have older : ∀ entry ∈ m.written, entry.2 ≠ wal.segmentId → entry.1 ∈ m.covered := by
    intro entry mem other
    by_cases active : entry.2 = m.wal.segmentId
    · rcases seg with same | due
      · exact absurd (active.trans same.symm) other
      · exact rotated due entry mem active
    · exact sound.older entry mem active
  cases res with
  | error e =>
    have kept := sound.unlogged (failed e rfl) sameSynced older
    exact kept.answer fun _ succeeded => nomatch succeeded
  | ok lsn =>
    obtain ⟨-, after, rfl⟩ := written.ok_inv
    have next : wal.currentLsn = m.wal.currentLsn + 1 := congrArg WalManager.currentLsn after
    have started := sound.started
    apply (sound.logged next sameSynced older).enter
    · rintro tgtLsn ⟨⟩
      refine ⟨by omega, ?_⟩
      exact le_of_eq next.symm
    · exact fun _ _ loaded => nomatch loaded

theorem Sound.sync (here : m.phase thread = .holding tgtLsn)
    (failure : Option String) : (m.sync thread tgtLsn failure).Sound base := by
  cases failure with
  | some reason =>
    have released : ({ m with syncLock := none } : CommitMachine).Sound base := { sound with }
    exact released.answer fun _ succeeded => nomatch succeeded
  | none =>
    have covered : ({ m.coverActive with barrier := m.wal.currentLsn } :
        CommitMachine).Sound base := by
      refine { sound.coverActive with
        behind := le_refl _
        barred := ?_
        published := le_trans sound.published sound.behind
        loads := ?_
        answered := ?_ }
      · intro lsn new old
        obtain ⟨seg, mem⟩ := sound.numbered lsn new old
        by_cases active : seg = m.wal.segmentId
        · exact mem_coverActive_of_active mem active
        · exact mem_coverActive (sound.older _ mem active)
      · intro other tgtLsn cur loaded
        obtain ⟨reached, pre⟩ := sound.loads other tgtLsn cur loaded
        exact ⟨reached, le_trans pre sound.behind⟩
      · intro other lsn mem
        obtain ⟨new, pre⟩ := sound.answered other lsn mem
        exact ⟨new, le_trans pre sound.behind⟩
    apply covered.enter
    · rintro tgtLsn ⟨⟩
      exact sound.targets thread tgtLsn (by rw [here]; rfl)
    · exact fun _ _ loaded => nomatch loaded

theorem Sound.acknowledge (new : base < tgtLsn) (synced : tgtLsn ≤ m.wal.lastSyncedLsn) :
    (m.answer thread (.ok tgtLsn)).Sound base := by
  apply sound.answer
  rintro lsn ⟨⟩
  exact ⟨new, le_trans synced sound.published⟩

/-- A call on its way to the sync. -/
theorem Sound.proceed (tgt : base < tgtLsn ∧ tgtLsn ≤ m.wal.currentLsn) {phase : AppendPhase}
    (pre : phase = .waiting tgtLsn ∨ phase = .holding tgtLsn) :
    (m.enter thread phase).Sound base := by
  rcases pre with rfl | rfl
  all_goals
    apply sound.enter
    · rintro lsn ⟨⟩
      exact tgt
    · exact fun _ _ loaded => nomatch loaded

theorem Sound.step (undisturbed : m.Undisturbed action) (step : Step serde m action later) :
    later.Sound base := by
  cases step with
  | append idle op rotationSynced disk =>
    unfold CommitMachine.append
    cases serde.serialize op with
    | error e => exact sound.answer fun _ succeeded => nomatch succeeded
    | ok payload =>
      obtain ⟨synced, rotated⟩ := sound.syncRotated op rotationSynced disk undisturbed
      exact synced.write rotated op payload disk
  | @check thread tgtLsn here =>
    have tgt := sound.targets thread tgtLsn (by rw [here]; rfl)
    unfold CommitMachine.check
    split
    case isTrue synced => exact sound.acknowledge tgt.1 synced
    case isFalse => exact sound.proceed tgt (.inl rfl)
  | @lock thread tgtLsn here =>
    have tgt := sound.targets thread tgtLsn (by rw [here]; rfl)
    unfold CommitMachine.lock
    split
    case isTrue synced => exact sound.acknowledge tgt.1 synced
    case isFalse =>
      have holding : (m.enter thread (.holding tgtLsn)).Sound base := sound.proceed tgt (.inr rfl)
      exact { holding with }
  | sync here failure => exact sound.sync here failure
  | @load thread tgtLsn here =>
    obtain ⟨new, old⟩ := sound.targets thread tgtLsn (by rw [here]; rfl)
    apply sound.enter
    · rintro lsn ⟨⟩
      exact ⟨new, old⟩
    · rintro lsn cur ⟨⟩
      exact ⟨old, le_of_eq undisturbed⟩
  | @store thread tgtLsn cur here =>
    obtain ⟨new, old⟩ := sound.targets thread tgtLsn (by rw [here]; rfl)
    obtain ⟨reached, pre⟩ := sound.loads thread tgtLsn cur here
    have stored : ({ m with
        wal := { m.wal with lastSyncedLsn := cur }
        syncLock := none } : CommitMachine).Sound base := { sound with published := pre }
    apply stored.answer
    rintro lsn ⟨⟩
    exact ⟨new, le_trans reached pre⟩

end

/-- While no load of `current_lsn` finds a record written after the `sync_data`, and no
    rotation loses the sync of an unsynced file, what is published as synced or acknowledged
    has been synced. -/
theorem acknowledged_records_are_synced (serde : Serde WalMutation) (wal : WalManager)
    (settled : wal.lastSyncedLsn = wal.currentLsn) (actions : List CommitAction)
    (undisturbed : Throughout (act serde) Undisturbed (start wal) actions) :
    Always (act serde) (AcknowledgesSettled wal.currentLsn) (start wal) actions := by
  have sound : Always (act serde) (Sound wal.currentLsn) (start wal) actions :=
    undisturbed.always (sound_start settled)
      fun _ _ _ sound undisturbed done => sound.step undisturbed (step_of_act done)
  exact fun count m ran => (sound count m ran).settled

/-- One thread appends, and a second one after the first has synced and published. -/
def syncedAppends : List CommitAction :=
  [.append 0 (.delete "a") true .done, .check 0, .lock 0, .sync 0 none, .load 0, .store 0,
    .append 1 (.delete "b") true .done, .check 1]

theorem synced_appends_acknowledge_settled : Always (act WalMachine.deletionSerde)
      (AcknowledgesSettled 0) (start (.openDir "wal" 0 [])) syncedAppends ∧
    (syncedAppends.foldlM (act WalMachine.deletionSerde) (start (.openDir "wal" 0 []))).map
      (fun m => m.wal.lastSyncedLsn) = some 1 := by
  refine ⟨acknowledged_records_are_synced WalMachine.deletionSerde (.openDir "wal" 0 []) rfl
    syncedAppends (.cons rfl trivial (.cons rfl trivial (.cons rfl trivial (.cons rfl trivial
      (.cons rfl rfl (.cons rfl trivial (.cons rfl trivial (.cons rfl trivial trivial)))))))), ?_⟩
  decide +kernel

/-- The second thread writes its record between the `sync_data` and the load of the first. -/
def overtakingAppends : List CommitAction :=
  [.append 0 (.delete "a") true .done, .check 0, .lock 0, .sync 0 none,
    .append 1 (.delete "b") true .done, .load 0, .store 0, .check 1]

theorem overtaking_append_is_not_synced :
    ∃ m, overtakingAppends.foldlM (act WalMachine.deletionSerde)
        (start (.openDir "wal" 0 [])) = some m ∧
      (1, .ok 2) ∈ m.answers ∧ ¬ m.Settled 2 := by
  have observed : (overtakingAppends.foldlM (act WalMachine.deletionSerde)
      (start (.openDir "wal" 0 []))).map
        (fun m => (m.answers.map fun answer => (answer.1, answer.2.toOption),
          m.covered, m.barrier)) =
      some ([(0, some 1), (1, some 2)], [1], 1) := by
    decide +kernel
  obtain ⟨m, ran, observed⟩ := Option.map_eq_some_iff.mp observed
  simp only [Prod.mk.injEq] at observed
  obtain ⟨answers, covered, -⟩ := observed
  refine ⟨m, ran, ?_, ?_⟩
  · have snd : (1, some 2) ∈ m.answers.map fun answer => (answer.1, answer.2.toOption) := by
      rw [answers]
      decide
    obtain ⟨⟨thread, res⟩, mem, same⟩ := mem_map.mp snd
    cases res with
    | error e => cases same
    | ok lsn =>
      cases same
      exact mem
  · rintro ⟨synced, -⟩
    rw [covered] at synced
    revert synced
    decide

end CommitMachine
end HoloSphere.Storage
