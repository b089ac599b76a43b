import HoloSphere.Program.Machine
import HoloSphere.Store.Retain
import Mathlib.Algebra.Group.Int.Defs
import Mathlib.Algebra.Group.Nat.Defs
import Mathlib.Data.Finset.Basic

/-! # The in-memory key-value store

`MemoryKvStore` of `ecosystem/kv_cache.rs` beside a store from which an entry is gone as soon as
its deadline is reached.  Instants are natural numbers up to the latest that the platform can
represent, a text key is its bytes, and each call is given the reading of the clock that it takes.
-/

namespace HoloSphere.Ecosystem
open Store Program Option Function

/-- A `Float` is its bit pattern. -/
inductive KvValue where
  | string (text : String)
  | bytes (payload : List UInt8)
  | integer (value : Int64)
  | float (bits : UInt64)
  | hashSet (mems : Finset String)
  | hashMap (fields : List (String × String))
  deriving DecidableEq

structure KvEntry where
  value : KvValue
  expiresAt : Option Nat
  deriving DecidableEq

namespace KvEntry

def live (now : Nat) (entry : KvEntry) : Bool := entry.expiresAt.all (now < ·)

def contains (mem : String) (entry : KvEntry) : Bool :=
  match entry.value with
  | .hashSet mems => mem ∈ mems
  | _ => false

end KvEntry

/-- An overflow is a panic. -/
def checkedAdd (value delta : Int64) : Option Int64 :=
  let sum := value.toInt + delta.toInt
  if -2 ^ 63 ≤ sum ∧ sum < 2 ^ 63 then some (value + delta) else none

abbrev MemoryKvStore := AList fun _ : List UInt8 => KvEntry

namespace MemoryKvStore

/-- A deadline after the latest instant is a panic, before anything is written. -/
def setRaw (latest now : Nat) (key : List UInt8) (value : KvValue) (ttl : Option Nat)
    (store : MemoryKvStore) : Option MemoryKvStore :=
  if ttl.all (now + · ≤ latest) then some (store.insert key ⟨value, ttl.map (now + ·)⟩) else none

def getRaw (now : Nat) (key : List UInt8) (store : MemoryKvStore) :
    Option KvValue × MemoryKvStore :=
  match store.lookup key with
  | some entry => if entry.live now then (some entry.value, store) else (none, store.erase key)
  | none => (none, store)

def deleteRaw (key : List UInt8) (store : MemoryKvStore) : Bool × MemoryKvStore :=
  ((store.lookup key).isSome, store.erase key)

/-- Nothing is returned if the addition panics. -/
def incrByRaw (key : List UInt8) (delta : Int64) (store : MemoryKvStore) :
    Option Int64 × MemoryKvStore :=
  let entry := (store.lookup key).getD ⟨.integer 0, none⟩
  match entry.value with
  | .integer value =>
    match checkedAdd value delta with
    | some sum => (some sum, store.insert key { entry with value := .integer sum })
    | none => (none, store)
  | _ => (some delta, store.insert key { entry with value := .integer delta })

def setAdd (key : List UInt8) (mem : String) (store : MemoryKvStore) : Bool × MemoryKvStore :=
  let entry := (store.lookup key).getD ⟨.hashSet ∅, none⟩
  match entry.value with
  | .hashSet mems =>
    (mem ∉ mems, store.insert key { entry with value := .hashSet (insert mem mems) })
  | _ => (true, store.insert key { entry with value := .hashSet {mem} })

def setIsMember (key : List UInt8) (mem : String) (store : MemoryKvStore) : Bool :=
  (store.lookup key).any (·.contains mem)

def purgeExpired (now : Nat) (store : MemoryKvStore) : Nat × MemoryKvStore :=
  let kept := retain (fun entry => if entry.live now then some entry else none) store
  (store.entries.length - kept.entries.length, kept)

end MemoryKvStore

inductive KvCall where
  | set (key : List UInt8) (value : KvValue) (ttl : Option Nat)
  | get (key : List UInt8)
  | delete (key : List UInt8)
  | incrBy (key : List UInt8) (delta : Int64)
  | setAdd (key : List UInt8) (mem : String)
  | setIsMember (key : List UInt8) (mem : String)
  | purgeExpired

inductive KvReply where
  | written (stored : Bool)
  | value (found : Option KvValue)
  | flag (answer : Bool)
  | sum (result : Option Int64)
  | count (removed : Nat)
  deriving DecidableEq

namespace MemoryKvStore

def call (latest now : Nat) : KvCall → MemoryKvStore → KvReply × MemoryKvStore
  | .set key value ttl, store =>
    let stored := store.setRaw latest now key value ttl
    (.written stored.isSome, stored.getD store)
  | .get key, store => (store.getRaw now key).map .value id
  | .delete key, store => (store.deleteRaw key).map .flag id
  | .incrBy key delta, store => (store.incrByRaw key delta).map .sum id
  | .setAdd key mem, store => (store.setAdd key mem).map .flag id
  | .setIsMember key mem, store => (.flag (store.setIsMember key mem), store)
  | .purgeExpired, store => (store.purgeExpired now).map .count id

def visible (now : Nat) (store : MemoryKvStore) (key : List UInt8) : Option KvEntry :=
  (store.lookup key).filter (·.live now)

/-- The entry under the key has reached its deadline. -/
def Dead (now : Nat) (store : MemoryKvStore) (key : List UInt8) : Prop :=
  ∃ entry ∈ store.lookup key, entry.live now = false

end MemoryKvStore

/-- The store, the store that loses each entry at its deadline, the last reading of the clock,
    and whether both gave the last answer. -/
structure Shadowed where
  store : MemoryKvStore := ∅
  reference : MemoryKvStore := ∅
  clock : Nat := 0
  agreed : Bool := true

namespace Shadowed
open MemoryKvStore

/-- A call on both; the clock never goes back. -/
def act (latest : Nat) (st : Shadowed) (action : Nat × KvCall) : Option Shadowed :=
  let ours := st.store.call latest action.1 action.2
  let theirs := (st.reference.purgeExpired action.1).2.call latest action.1 action.2
  if st.clock ≤ action.1 then
    some ⟨ours.2, theirs.2, action.1, ours.1 = theirs.1⟩
  else none

/-- Both gave the same answer and hold the same entries with the same deadlines. -/
def Agrees (st : Shadowed) : Prop :=
  st.agreed = true ∧ visible st.clock st.store = visible st.clock st.reference

/-- The call does not come upon an entry that has reached its deadline, except where it does not
    look at it. -/
def Respects (st : Shadowed) (action : Nat × KvCall) : Prop :=
  match action.2 with
  | .set .. | .get _ => True
  | .delete key | .incrBy key _ | .setAdd key _ => ¬ Dead action.1 st.store key
  | .setIsMember key mem =>
    ∀ entry ∈ st.store.lookup key, entry.contains mem → entry.live action.1
  | .purgeExpired => ∀ key, ¬ Dead action.1 st.store key

end Shadowed

namespace MemoryKvStore
variable {store other : MemoryKvStore} {entry : KvEntry}

theorem visible_insert : visible now (store.insert key entry) =
      update (visible now store) key ((some entry).filter (·.live now)) := by
  funext other
  by_cases same : other = key
  · rw [same, update_self, visible, AList.lookup_insert]
  · rw [update_of_ne same, visible, AList.lookup_insert_ne same, visible]

theorem visible_erase : visible now (store.erase key) = update (visible now store) key none := by
  funext other
  by_cases same : other = key
  · rw [same, update_self, visible, AList.lookup_erase]
    rfl
  · rw [update_of_ne same, visible, AList.lookup_erase_ne same, visible]

theorem lookup_purgeExpired : (store.purgeExpired now).2.lookup key = visible now store key := by
  rw [purgeExpired, lookup_retain, visible]
  cases store.lookup key with
  | none => rfl
  | some entry => exact (filter_some ..).symm

theorem visible_purgeExpired : visible now (store.purgeExpired now).2 = visible now store := by
  funext key
  rw [visible, lookup_purgeExpired, visible, filter_filter]
  simp

theorem purgeExpired_eq_zero : (store.purgeExpired now).1 = 0 ↔ ∀ key, ¬ Dead now store key := by
  rw [purgeExpired, Nat.sub_eq_zero_iff_le, length_le_retain]
  simp [Dead]

theorem visible_of_dead (dead : Dead now store key) : visible now store key = none := by
  obtain ⟨entry, found, past⟩ := dead
  rw [visible, mem_def.mp found, filter_some_neg (by simp [past])]

theorem visible_of_not_dead (alive : ¬ Dead now store key) :
    visible now store key = store.lookup key := by
  rw [visible]
  cases found : store.lookup key with
  | none => rfl
  | some entry =>
    by_contra past
    exact alive ⟨entry, found, by simpa using past⟩

variable {other : MemoryKvStore}

theorem visible_insert_self :
    visible now (store.insert key entry) key = (some entry).filter (·.live now) := by
  rw [visible_insert, update_self]

/-- An entry that is written over keeps its deadline. -/
theorem visible_insert_of_dead (past : entry.live now = false) :
    visible now (store.insert key { entry with value }) key = none := by
  rw [visible_insert_self]
  exact filter_some_neg past

theorem visible_incrByRaw_of_dead (dead : Dead now store key) :
    visible now (store.incrByRaw key delta).2 key = none := by
  obtain ⟨entry, found, past⟩ := id dead
  simp only [incrByRaw, mem_def.mp found, getD_some]
  split
  · split
    · exact visible_insert_of_dead past
    · exact visible_of_dead dead
  · exact visible_insert_of_dead past

theorem visible_setAdd_of_dead (dead : Dead now store key) :
    visible now (store.setAdd key mem).2 key = none := by
  obtain ⟨entry, found, past⟩ := id dead
  simp only [setAdd, mem_def.mp found, getD_some]
  split <;> exact visible_insert_of_dead past

theorem checkedAdd_zero : checkedAdd 0 delta = some delta := by
  have low := delta.le_toInt
  have high := delta.toInt_lt
  simp only [checkedAdd, Int64.toInt_zero, Int.zero_add]
  rw [if_pos ⟨low, high⟩, Int64.zero_add]

open Shadowed

/-- A call on the store and on one that holds what is visible of it. -/
theorem call_agrees_iff (latest : Nat) (call : KvCall)
    (look : ∀ key, other.lookup key = visible now store key) :
    ((store.call latest now call).1 = (other.call latest now call).1 ∧
      visible now (store.call latest now call).2 = visible now (other.call latest now call).2) ↔
    Respects { store } (now, call) := by
  have same : visible now other = visible now store := by
    funext key
    rw [visible, look, visible, filter_filter]
    simp
  have gone : ∀ {key}, Dead now store key → other.lookup key = none := fun dead => by
    rw [look, visible_of_dead dead]
  have kept : ∀ {key}, ¬ Dead now store key → other.lookup key = store.lookup key :=
    fun alive => by rw [look, visible_of_not_dead alive]
  cases call with
  | set key value ttl =>
    simp only [MemoryKvStore.call, setRaw, Respects, iff_true]
    split
    · exact ⟨rfl, by rw [getD_some, getD_some, visible_insert, visible_insert, same]⟩
    · exact ⟨rfl, same.symm⟩
  | get key =>
    simp only [MemoryKvStore.call, getRaw, Respects, iff_true]
    by_cases dead : Dead now store key
    · obtain ⟨entry, found, past⟩ := id dead
      simp [mem_def.mp found, past, visible_erase, same, visible_of_dead dead, gone dead]
    · cases found : store.lookup key with
      | none => simp [same, kept dead, found]
      | some entry =>
        have : entry.live now = true := by simpa [Dead, found] using dead
        simp [this, same, kept dead, found]
  | delete key =>
    by_cases dead : Dead now store key
    · obtain ⟨entry, found, past⟩ := id dead
      simp [MemoryKvStore.call, deleteRaw, Respects, gone dead, dead, mem_def.mp found]
    · simp [MemoryKvStore.call, deleteRaw, Respects, kept dead, dead, visible_erase, same]
  | incrBy key delta =>
    by_cases dead : Dead now store key
    · refine iff_of_false (fun alike => ?_) (not_not_intro dead)
      have fresh := congrFun alike.2 key
      simp only [MemoryKvStore.call, Prod.map_snd, id_eq, visible_incrByRaw_of_dead dead] at fresh
      simp [incrByRaw, gone dead, checkedAdd_zero, visible_insert_self, KvEntry.live,
        Option.filter] at fresh
    · simp only [MemoryKvStore.call, incrByRaw, Respects, dead, kept dead]
      split
      · split
        · simp [visible_insert, same]
        · simp [same]
      · simp [visible_insert, same]
  | setAdd key mem =>
    by_cases dead : Dead now store key
    · refine iff_of_false (fun alike => ?_) (not_not_intro dead)
      have fresh := congrFun alike.2 key
      simp only [MemoryKvStore.call, Prod.map_snd, id_eq, visible_setAdd_of_dead dead] at fresh
      simp [setAdd, gone dead, visible_insert_self, KvEntry.live, Option.filter] at fresh
    · simp only [MemoryKvStore.call, setAdd, Respects, dead, kept dead]
      split <;> simp [visible_insert, same]
  | setIsMember key mem =>
    simp only [MemoryKvStore.call, setIsMember, Respects, look key, visible, same, and_true]
    cases store.lookup key with
    | none => simp
    | some entry => cases live : entry.live now <;> simp [live]
  | purgeExpired =>
    simp only [MemoryKvStore.call, Respects, Prod.map_snd, Prod.map_fst, id_eq,
      visible_purgeExpired, same]
    have none : (other.purgeExpired now).1 = 0 :=
      purgeExpired_eq_zero.mpr fun key => by
        simp [Dead, look, visible]
    simp [none, purgeExpired_eq_zero]

theorem visible_mono {clock now : Nat} (later : clock ≤ now)
    (same : visible clock store = visible clock other) : visible now store = visible now other := by
  have live : ∀ entry : KvEntry, (entry.live clock && entry.live now) = entry.live now := by
    intro entry
    rw [Bool.and_eq_right_iff_imp, KvEntry.live, KvEntry.live]
    cases entry.expiresAt with
    | none => simp
    | some deadline => simpa using fun early => by omega
  funext key
  have same := congrArg (Option.filter (·.live now)) (congrFun same key)
  simp only [visible, filter_filter, live] at same
  exact same

end MemoryKvStore

namespace Shadowed
open MemoryKvStore

theorem agrees_act (agrees : Agrees st) (done : act latest st action = some next) :
    Agrees next ↔ Respects st action := by
  rw [act] at done
  split at done
  case isFalse => cases done
  case isTrue later =>
    cases done
    have same := visible_mono later agrees.2
    have exact := call_agrees_iff latest action.2 fun key =>
      (lookup_purgeExpired).trans (congrFun same.symm key)
    simp only [Agrees, decide_eq_true_eq]
    exact exact

/-- All answers are those of the store that loses each entry at its deadline, and the same
    entries are there after every call, exactly if no call comes upon a dead entry. -/
theorem always_agrees_iff (latest : Nat) (calls : List (Nat × KvCall)) :
    Always (act latest) Agrees {} calls ↔ Throughout (act latest) Respects {} calls :=
  always_iff_throughout (fun _ => True)
    (fun _ _ _ _ agrees _ done => ⟨trivial, agrees_act agrees done⟩)
    (fun _ _ => trivial) trivial ⟨rfl, rfl⟩

/-- A key that has reached its deadline can still be deleted. -/
theorem not_always_agrees_delete : ¬ Always (act (2 ^ 64)) Agrees {}
      [(0, .set [107] (.integer 5) (some 1)), (1, .delete [107])] := by
  intro always
  have after := always 2 _ rfl
  exact absurd after.1 (by decide)

end Shadowed
end HoloSphere.Ecosystem
