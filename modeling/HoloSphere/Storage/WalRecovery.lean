import HoloSphere.Program.Machine
import HoloSphere.Storage.WalDirectory

/-! # Sessions of the log

A log goes through sessions: the directory is opened, replayed from the beginning, written
to, and left by a crash that may cut the record written last.  The writer of the next session
goes on behind whatever the crash left.  A replay therefore finds every acknowledged record
as long as no session appends behind a torn record.
-/

namespace HoloSphere.Storage
open Format Consensus Program
open List hiding after

/-- A replay at the start of a session, with what had been acknowledged before it. -/
structure SessionReplay where
  acknowledged : List (Nat × WalMutation)
  delivered : List (Nat × WalMutation)
  outcome : Except HNSQRError WalRecoverySummary

/-- The replay succeeds and delivers the records in the order of their numbers, each once,
    among them all that were acknowledged. -/
structure SessionReplay.Faithful (replay : SessionReplay) : Prop where
  succeeds : ∃ summary, replay.outcome = .ok summary
  ordered : replay.delivered.Pairwise fun fst snd => fst.1 < snd.1
  complete : ∀ entry ∈ replay.acknowledged, entry ∈ replay.delivered

/-- The files between two sessions, or the manager of a session; `settled` bytes of the file
    being written are out of reach of a crash. -/
structure WalMachine where
  segments : List WalSegment
  manager : Option WalManager
  settled : Nat
  acknowledged : List (Nat × WalMutation)
  replays : List SessionReplay

inductive WalAction where
  | start
  | append (op : WalMutation) (disk : DiskOutcome)
  | crash (kept : Nat)

def collect (lsn : Nat) (op : WalMutation) (delivered : List (Nat × WalMutation)) :
    List (Nat × WalMutation) × Except HNSQRError Unit :=
  (delivered ++ [(lsn, op)], .ok ())

namespace WalMachine

def empty : WalMachine := ⟨[], none, 0, [], []⟩

def start (serde : Serde WalMutation) (walDir : String) (maxSeg : Nat)
    (m : WalMachine) : WalMachine :=
  let opened := WalManager.openDir walDir maxSeg m.segments
  let ans := opened.replay serde 0 collect []
  { m with
    segments := opened.segments
    manager := match ans.2 with
      | .ok _ => some ans.1.1
      | .error _ => none
    settled := ans.1.1.activeBytes.length
    replays := m.replays ++ [⟨m.acknowledged, ans.1.2, ans.2⟩] }

/-- A record that is not acknowledged is the one a crash may cut. -/
def append (serde : Serde WalMutation) (op : WalMutation) (disk : DiskOutcome)
    (m : WalMachine) (wal : WalManager) : WalMachine :=
  let ans := wal.append serde op .walSync disk
  match ans.2 with
  | .ok lsn =>
    { m with
      manager := some ans.1
      settled := ans.1.activeBytes.length
      acknowledged := m.acknowledged ++ [(lsn, op)] }
  | .error _ =>
    { m with
      manager := some ans.1
      settled := if ans.1 = wal then m.settled else wal.writable.activeBytes.length }

def crash (kept : Nat) (m : WalMachine) (wal : WalManager) : WalMachine :=
  { m with
    segments := wal.cutActive (m.settled + kept)
    manager := none }

def act (serde : Serde WalMutation) (walDir : String) (maxSeg : Nat)
    (m : WalMachine) : WalAction → Option WalMachine
  | .start =>
    match m.manager with
    | none => some (m.start serde walDir maxSeg)
    | some _ => none
  | .append op disk => m.manager.map (m.append serde op disk)
  | .crash kept => m.manager.map (m.crash kept)

/-- An append finds the file being written ending with a whole record, or is about to begin
    the next file; and the length of its payload fits the header. -/
def AppendsToWhole (serde : Serde WalMutation) (m : WalMachine) : WalAction → Prop
  | .append op _ => ∀ wal, m.manager = some wal → (WholeRecords wal.activeBytes ∨ wal.RotationDue) ∧
        ∀ payload, serde.serialize op = .ok payload → payload.length < 2 ^ 32
  | _ => True

end WalMachine

/-- The files hold records of ascending numbers up to a bound, all acknowledged ones among
    them. -/
structure Keeps (serde : Serde WalMutation) (acknowledged : List (Nat × WalMutation)) (bound : Nat)
    (segs : List WalSegment) (recs : List WalRecord) : Prop where
  stored : Stored serde segs recs
  ascending : recs.Pairwise fun fst snd => fst.lsn < snd.lsn
  bounded : ∀ rec ∈ recs, rec.lsn ≤ bound
  complete : ∀ entry ∈ acknowledged, ∃ rec ∈ recs, rec.entry = entry

def Recoverable (serde : Serde WalMutation) (acknowledged : List (Nat × WalMutation)) (bound : Nat)
    (segs : List WalSegment) : Prop :=
  ∃ recs, Keeps serde acknowledged bound segs recs

theorem Keeps.snoc {rec : WalRecord} (keeps : Keeps serde acknowledged rec.prevLsn segs recs)
    (stored : Stored serde files (recs ++ [rec])) :
    Keeps serde (acknowledged ++ [rec.entry]) rec.lsn files (recs ++ [rec]) := by
  refine ⟨stored, ?_, ?_, ?_⟩
  · rw [pairwise_append]
    refine ⟨keeps.ascending, pairwise_singleton _ _, fun earlier mem later new => ?_⟩
    cases mem_singleton.mp new
    exact Nat.lt_succ_of_le (keeps.bounded earlier mem)
  · intro other mem
    rcases mem_append.mp mem with earlier | new
    · exact Nat.le_succ_of_le (keeps.bounded other earlier)
    · cases mem_singleton.mp new
      exact Nat.le_refl _
  · intro entry mem
    rcases mem_append.mp mem with earlier | new
    · obtain ⟨found, present, same⟩ := keeps.complete entry earlier
      exact ⟨found, mem_append_left _ present, same⟩
    · cases mem_singleton.mp new
      exact ⟨rec, mem_append_right _ mem_cons_self, rfl⟩

/-- Whatever a crash leaves of the record being written, the others are kept. -/
theorem Keeps.write_prefix {rec : WalRecord}
    (keeps : Keeps serde acknowledged rec.prevLsn (front ++ [last]) recs)
    (whole : WholeRecords last.bytes) (fits : rec.Fits) (reads : rec.Reads serde)
    (begins : piece <+: rec.frame) :
    Recoverable serde acknowledged rec.lsn
      (front ++ [{ last with bytes := last.bytes ++ piece }]) := by
  by_cases shorter : piece.length < rec.frame.length
  · exact ⟨recs, { keeps with
      stored := keeps.stored.write_torn whole (.inr ⟨rec, fits, begins, shorter⟩)
      bounded := fun other mem => Nat.le_succ_of_le (keeps.bounded other mem) }⟩
  · rw [begins.eq_of_length_le (Nat.not_lt.mp shorter)]
    have grown := keeps.snoc (keeps.stored.write_frame whole fits reads)
    exact ⟨_, { grown with complete := fun entry mem => grown.complete _ (mem_append_left _ mem) }⟩

/-- Whatever a crash leaves, the acknowledged records can be recovered. -/
structure SessionSafe (serde : Serde WalMutation) (acknowledged : List (Nat × WalMutation))
    (settled : Nat) (wal : WalManager) : Prop where
  writing : ∃ front last, wal.Writing front last
  crash : ∀ kept, settled ≤ kept →
    Recoverable serde acknowledged wal.currentLsn (wal.cutActive kept)

namespace WalManager
variable {wal : WalManager}

theorem Writing.cutActive_long (writing : wal.Writing front last)
    (long : wal.activeBytes.length ≤ kept) : wal.cutActive kept = wal.segments := by
  rw [writing.activeBytes_eq] at long
  rw [writing.cutActive_eq, take_of_length_le long, writing.segments]

end WalManager

namespace SessionSafe

theorem recoverable (safe : SessionSafe serde acknowledged settled wal) :
    Recoverable serde acknowledged wal.currentLsn wal.segments := by
  obtain ⟨⟨front, last, writing⟩, crash⟩ := safe
  rw [← writing.cutActive_long (Nat.le_max_right settled _)]
  exact crash _ (Nat.le_max_left _ _)

/-- When everything is out of reach of a crash, only the files themselves count. -/
theorem of_settled (writing : ∃ front last, wal.Writing front last)
    (recoverable : Recoverable serde acknowledged wal.currentLsn wal.segments) :
    SessionSafe serde acknowledged wal.activeBytes.length wal := by
  refine ⟨writing, fun kept long => ?_⟩
  obtain ⟨front, last, writing⟩ := writing
  rw [writing.cutActive_long long]
  exact recoverable

section
variable (safe : SessionSafe serde acknowledged settled wal)
  (whole : WholeRecords wal.activeBytes ∨ wal.RotationDue)
  (carried : ∀ payload, serde.serialize op = .ok payload →
    payload.length < 2 ^ 32 ∧ serde.deserialize payload = .ok op)
include safe whole carried

/-- An append that is not acknowledged leaves a record that a crash may cut. -/
theorem append_error (appended : WalManager.Appended serde op disk wal after (.error e)) :
    SessionSafe serde acknowledged
      (if after = wal then settled else wal.writable.activeBytes.length) after := by
  by_cases same : after = wal
  · rw [if_pos same, same]
    exact safe
  rw [if_neg same]
  obtain ⟨front, last, writing⟩ := safe.writing
  obtain ⟨recs, keeps⟩ := safe.recoverable
  obtain ⟨front, last, tgt, wholeTarget, stored⟩ := writing.target keeps.stored whole
  -- what is left of the new bytes begins behind the settled ones
  have cut : ∀ piece kept, wal.writable.activeBytes.length ≤ kept →
      (wal.writable.writeAll piece).cutActive kept =
        front ++ [{ last with bytes := last.bytes ++ piece.take (kept - last.bytes.length) }] := by
    intro piece kept long
    rw [tgt.activeBytes_eq] at long
    rw [(tgt.writeAll piece).cutActive_eq, take_append, take_of_length_le long]
  have unnumbered := WalManager.writable_currentLsn wal
  cases appended with
  | refused => exact absurd rfl same
  | @failed payload after e ser written =>
    cases written with
    | refused => exact absurd rfl same
    | exhausted =>
      apply of_settled ⟨front, last, tgt⟩
      rw [unnumbered, tgt.segments]
      exact ⟨recs, { keeps with stored }⟩
    | torn e _ numbered begins shorter =>
      refine ⟨⟨front, _, tgt.writeAll _⟩, fun length long => ?_⟩
      rw [cut _ _ long]
      exact ⟨recs, { keeps with
        stored := stored.write_torn wholeTarget (.inr ⟨wal.nextRecord op payload,
          ⟨numbered, (carried _ ser).1⟩, (List.take_prefix _ _).trans begins,
          Nat.lt_of_le_of_lt (length_take_le' ..) shorter⟩)
        bounded := fun rec mem => unnumbered.symm ▸ keeps.bounded rec mem }⟩
  | @logged payload _ synced ser numbered =>
    obtain ⟨short, reads⟩ := carried _ ser
    have written := tgt.writeAll (wal.nextRecord op payload).frame
    refine ⟨⟨front, _, written.transfer rfl rfl⟩, fun length long => ?_⟩
    have fits : (wal.nextRecord op payload).Fits := ⟨numbered, short⟩
    have recovered := Keeps.write_prefix { keeps with stored } wholeTarget fits reads
      (List.take_prefix (length - last.bytes.length) _)
    rw [← cut _ _ long] at recovered
    exact recovered

theorem append_ok (appended : WalManager.Appended serde op disk wal after (.ok lsn)) :
    SessionSafe serde (acknowledged ++ [(lsn, op)]) after.activeBytes.length after := by
  obtain ⟨front, last, writing⟩ := safe.writing
  obtain ⟨recs, keeps⟩ := safe.recoverable
  rcases appended.stored keeps.stored writing whole carried with
    ⟨⟨e, failed⟩, -⟩ | ⟨payload, answer, count, holds⟩
  · cases failed
  · obtain ⟨front, last, writing, -⟩ := holds.writing
    apply of_settled ⟨front, last, writing⟩
    rw [count, answer lsn rfl]
    exact ⟨_, keeps.snoc holds.stored⟩

end
end SessionSafe

theorem run_collect (entries delivered : List (Nat × WalMutation)) (top : Nat) :
    ∃ bound, Program.run (Replay.deliver collect) entries (delivered, top) =
      ((delivered ++ entries, bound), .ok ()) := by
  induction entries generalizing delivered top with
  | nil => exact ⟨top, by simp⟩
  | cons entry rest ih =>
    obtain ⟨bound, ran⟩ := ih (delivered ++ [entry]) (max top entry.1)
    rw [append_assoc] at ran
    exact ⟨bound, ran⟩

namespace WalMachine

/-- Every replay so far was faithful, and the next one will be. -/
structure Sound (serde : Serde WalMutation) (m : WalMachine) : Prop where
  faithful : ∀ replay ∈ m.replays, replay.Faithful
  closed : m.manager = none → ∃ bound, Recoverable serde m.acknowledged bound m.segments
  opened : ∀ wal, m.manager = some wal → SessionSafe serde m.acknowledged m.settled wal

variable {m : WalMachine} {maxSeg : Nat}

theorem sound_empty : empty.Sound serde where
  faithful _ mem := absurd mem not_mem_nil
  closed _ := ⟨0, [], .empty, .nil, fun _ mem => absurd mem not_mem_nil,
    fun _ mem => absurd mem not_mem_nil⟩
  opened _ opened := nomatch opened

theorem Sound.start (sound : m.Sound serde) (idle : m.manager = none) :
    (m.start serde walDir maxSeg).Sound serde := by
  obtain ⟨bound, recs, stored, ascending, bounded, complete⟩ := sound.closed idle
  obtain ⟨storedOpen, writing⟩ := WalManager.openDir_stored stored walDir maxSeg
  obtain ⟨summary, replayed⟩ := WalManager.replay_stored storedOpen 0 collect []
  obtain ⟨top, ran⟩ := run_collect (recs.map WalRecord.entry) [] 0
  have below := (Replay.run_deliver_highest ran).2
  rw [WalManager.filter_lsn_pos, ran, nil_append] at replayed
  have faithful : (⟨m.acknowledged, recs.map WalRecord.entry, .ok summary⟩ :
      SessionReplay).Faithful := by
    refine ⟨⟨summary, rfl⟩, ?_, ?_⟩
    · exact pairwise_map.mpr ascending
    · intro entry mem
      obtain ⟨rec, present, same⟩ := complete entry mem
      exact mem_map.mpr ⟨rec, present, same⟩
  unfold WalMachine.start
  simp only [replayed]
  refine ⟨?_, fun closed => (nomatch closed), ?_⟩
  · intro replay mem
    rcases mem_append.mp mem with earlier | new
    · exact sound.faithful replay earlier
    · cases mem_singleton.mp new
      exact faithful
  · rintro wal ⟨⟩
    obtain ⟨front, last, writing⟩ := writing
    exact SessionSafe.of_settled ⟨front, last, writing.transfer rfl rfl⟩
      ⟨recs, storedOpen, ascending, fun rec mem => below _ (mem_map_of_mem mem), complete⟩

theorem Sound.append (sound : m.Sound serde) (running : m.manager = some wal)
    (roundTrip : serde.Faithful) (allowed : m.AppendsToWhole serde (.append op disk)) :
    (m.append serde op disk wal).Sound serde := by
  obtain ⟨whole, short⟩ := allowed wal running
  have safe := sound.opened wal running
  have carried : ∀ payload, serde.serialize op = .ok payload →
      payload.length < 2 ^ 32 ∧ serde.deserialize payload = .ok op :=
    fun payload ser => ⟨short payload ser, roundTrip op payload ser⟩
  have appended := WalManager.append_appended serde op
    (show DurabilityPolicy.walSync ≠ .memory by decide) disk wal
  unfold WalMachine.append
  cases outc : (wal.append serde op .walSync disk).2 with
  | ok lsn =>
    rw [outc] at appended
    simp only [outc]
    refine ⟨sound.faithful, fun closed => (nomatch closed), ?_⟩
    rintro after ⟨⟩
    exact safe.append_ok whole carried appended
  | error e =>
    rw [outc] at appended
    simp only [outc]
    refine ⟨sound.faithful, fun closed => (nomatch closed), ?_⟩
    rintro after ⟨⟩
    exact safe.append_error whole carried appended

theorem Sound.crash (sound : m.Sound serde) (running : m.manager = some wal) (kept : Nat) :
    (m.crash kept wal).Sound serde where
  faithful := sound.faithful
  closed _ := ⟨wal.currentLsn, (sound.opened wal running).crash _ (Nat.le_add_right _ _)⟩
  opened _ opened := nomatch opened

theorem Sound.act (sound : m.Sound serde)
    (roundTrip : serde.Faithful) (allowed : m.AppendsToWhole serde action)
    (done : m.act serde walDir maxSeg action = some later) : later.Sound serde := by
  cases action with
  | start =>
    cases idle : m.manager with
    | some => simp [WalMachine.act, idle] at done
    | none =>
      simp only [WalMachine.act, idle, Option.some.injEq] at done
      rw [← done]
      exact sound.start idle
  | append op disk =>
    obtain ⟨wal, running, rfl⟩ := Option.map_eq_some_iff.mp done
    exact sound.append running roundTrip allowed
  | crash kept =>
    obtain ⟨wal, running, rfl⟩ := Option.map_eq_some_iff.mp done
    exact sound.crash running kept

/-- As long as every append finds a file that ends with a whole record, each replay succeeds
    and delivers in order, and once each, all the records acknowledged before it. -/
theorem replays_deliver_acknowledged (serde : Serde WalMutation)
    (roundTrip : ∀ op payload, serde.serialize op = .ok payload →
      serde.deserialize payload = .ok op)
    (walDir : String) (maxSeg : Nat) (actions : List WalAction)
    (whole : Throughout (act serde walDir maxSeg) (AppendsToWhole serde) empty actions) :
    Always (act serde walDir maxSeg)
      (fun m => ∀ replay ∈ m.replays, replay.Faithful) empty actions := by
  have sound : Always (act serde walDir maxSeg) (Sound serde) empty actions :=
    whole.always sound_empty fun _ _ _ sound allowed done => sound.act roundTrip allowed done
  exact fun count m ran => (sound count m ran).faithful

/-- The layout of the deletion of a node whose id is one ASCII letter. -/
def deletionOf (letter : UInt8) : Bytes := toLe 4 1 ++ toLe 8 1 ++ [letter]

/-- The serialiser on the deletions of two nodes. -/
def deletionSerde : Serde WalMutation where
  serialize
    | .delete "a" => .ok (deletionOf 97)
    | .delete "b" => .ok (deletionOf 98)
    | _ => .error "unsupported mutation"
  deserialize bytes :=
    if bytes = deletionOf 97 then .ok (.delete "a")
    else if bytes = deletionOf 98 then .ok (.delete "b")
    else .error "unexpected bytes"

theorem deletionSerde_roundTrip (op : WalMutation) (payload : Bytes)
    (ser : deletionSerde.serialize op = .ok payload) :
    deletionSerde.deserialize payload = .ok op := by
  unfold deletionSerde at ser
  dsimp only at ser
  split at ser
  · cases ser
    rfl
  · cases ser
    rfl
  · cases ser

/-- Two sessions, the first with one deletion. -/
def twoSessions : List WalAction := [.start, .append (.delete "a") .done, .crash 0, .start]

theorem two_sessions_deliver : Always (act deletionSerde "wal" 0)
        (fun m => ∀ replay ∈ m.replays, replay.Faithful) empty twoSessions ∧
      (twoSessions.foldlM (act deletionSerde "wal" 0) empty).map
        (fun m => m.replays.map fun replay => replay.acknowledged.length) = some [0, 1] := by
  refine ⟨replays_deliver_acknowledged deletionSerde deletionSerde_roundTrip "wal" 0 twoSessions
    (.cons rfl trivial (.cons rfl ?_ (.cons rfl trivial (.cons rfl trivial trivial)))), ?_⟩
  · intro wal running
    cases running
    refine ⟨.inl wholeRecords_nil, fun payload ser => ?_⟩
    cases ser
    decide
  · decide +kernel

/-- A crash leaves two bytes of a record, and the next session appends behind them. -/
def tornSessions : List WalAction :=
  [.start, .append (.delete "a") .done, .append (.delete "b") (.writeFails "power loss" 2),
    .crash 2, .start, .append (.delete "b") .done, .crash 0, .start]

theorem torn_bytes_stop_replay :
    ∃ m, tornSessions.foldlM (act deletionSerde "wal" 0) empty = some m ∧
      ∃ replay ∈ m.replays, ¬ replay.Faithful := by
  have outcomes : (tornSessions.foldlM (act deletionSerde "wal" 0) empty).map
      (fun m => m.replays.map fun replay => replay.outcome.toBool) = some [true, true, false] := by
    decide +kernel
  obtain ⟨m, ran, outcomes⟩ := Option.map_eq_some_iff.mp outcomes
  refine ⟨m, ran, ?_⟩
  have failed : false ∈ m.replays.map fun replay => replay.outcome.toBool := by
    rw [outcomes]
    decide
  obtain ⟨replay, mem, stopped⟩ := mem_map.mp failed
  refine ⟨replay, mem, fun faithful => ?_⟩
  obtain ⟨summary, succeeded⟩ := faithful.succeeds
  rw [succeeded] at stopped
  cases stopped

end WalMachine
end HoloSphere.Storage
