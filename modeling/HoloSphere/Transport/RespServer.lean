import HoloSphere.Ecosystem.KvCache
import HoloSphere.Transport.Resp

/-! # The RESP command dispatcher

`RespServer::handle_raw_command` over the key-value store.  What the streams, the subscribers and
the graph answer is arbitrary, and so is the text that bytes are read as.
-/

namespace HoloSphere.Transport
open Format Ecosystem Program List Function

def ascii (text : String) : Bytes := text.toList.map Char.toUInt8

inductive QueryOutcome where
  | compilationFailed (message : Bytes)
  | executionFailed (message : Bytes)
  | rows (columns : List Bytes) (rows : List (List Int64))

def QueryOutcome.message : QueryOutcome → Option Bytes
  | .compilationFailed message | .executionFailed message => some message
  | .rows .. => none

/-- The latest instant of the clock, and what a command asks of others.  There is no answer to a
    graph query without a graph. -/
structure Surroundings where
  latest : Nat
  lossy : Bytes → Bytes
  publish : Bytes → Bytes → Int64
  xadd : Bytes → List (Bytes × Bytes) → Bytes
  xread : Bytes → Nat → List (Bytes × List (Bytes × Bytes))
  query : Option (Bytes → QueryOutcome)

inductive Verb where
  | ping | set | get | incr | del | publish | xadd | xread | graphQuery | ftSearch | unknown
  deriving DecidableEq

def eqIgnoreAsciiCase (first second : Bytes) : Bool :=
  let lower (byte : UInt8) := if 65 ≤ byte ∧ byte ≤ 90 then byte + 32 else byte
  first.map lower = second.map lower

def verbOf (cmd : Bytes) : Verb :=
  if eqIgnoreAsciiCase cmd (ascii "PING") then .ping
  else if eqIgnoreAsciiCase cmd (ascii "SET") then .set
  else if eqIgnoreAsciiCase cmd (ascii "GET") then .get
  else if eqIgnoreAsciiCase cmd (ascii "INCR") then .incr
  else if eqIgnoreAsciiCase cmd (ascii "DEL") then .del
  else if eqIgnoreAsciiCase cmd (ascii "PUBLISH") then .publish
  else if eqIgnoreAsciiCase cmd (ascii "XADD") then .xadd
  else if eqIgnoreAsciiCase cmd (ascii "XREAD") then .xread
  else if eqIgnoreAsciiCase cmd (ascii "GRAPH.QUERY") then .graphQuery
  else if eqIgnoreAsciiCase cmd (ascii "FT.SEARCH") then .ftSearch
  else .unknown

def parseUsize (text : Bytes) : Option Nat :=
  (parseDigits (if text.head? = some 43 then text.tail else text)).filter (· < 2 ^ 64)

/-- The fields and values that follow each other. -/
def pairs : List Bytes → List (Bytes × Bytes)
  | field :: value :: rest => (field, value) :: pairs rest
  | _ => []

namespace RespFrame

def bulk (payload : Bytes) : RespFrame := .bulkString (some payload)

def wrongNumber (name : String) : RespFrame :=
  .error (ascii ("ERR wrong number of arguments for '" ++ name ++ "' command"))

/-- What `GET` makes of a value. -/
def ofValue : Option KvValue → RespFrame
  | some (.bytes payload) => bulk payload
  | some (.string text) => bulk text.toUTF8.toList
  | some (.integer value) => bulk (decimalInt value.toInt)
  | some _ => .error (ascii "WRONGTYPE Operation against a key holding the wrong kind of value")
  | none => .null

def ofEntry (entry : Bytes × List (Bytes × Bytes)) : RespFrame :=
  .array (some [bulk entry.1, .array (some (entry.2.flatMap fun field =>
    [bulk field.1, bulk field.2]))])

def ofQuery : QueryOutcome → RespFrame
  | .compilationFailed message => .error (ascii "ERR cypher compilation failed: " ++ message)
  | .executionFailed message => .error (ascii "ERR graph execution failed: " ++ message)
  | .rows columns rows => .array (some (.array (some (columns.map bulk)) ::
      rows.map fun row => .array (some (row.map .integer))))

end RespFrame

open RespFrame

/-- There is no reply if `set_raw` or the addition of `INCR` panics. -/
def dispatch (around : Surroundings) (now : Nat) (cmd : Bytes) (verb : Verb) (args : List Bytes)
    (store : MemoryKvStore) : Option RespFrame × MemoryKvStore :=
  match verb, args with
  | .ping, text :: _ => (some (bulk text), store)
  | .ping, [] => (some (.simpleString (ascii "PONG")), store)
  | .set, key :: value :: _ =>
    let stored := store.setRaw around.latest now key (.bytes value) none
    (stored.map fun _ => .simpleString (ascii "OK"), stored.getD store)
  | .set, _ => (some (wrongNumber "set"), store)
  | .get, key :: _ => (store.getRaw now key).map (some ∘ ofValue) id
  | .get, [] => (some (wrongNumber "get"), store)
  | .incr, key :: _ => (store.incrByRaw key 1).map (Option.map .integer) id
  | .incr, [] => (some (wrongNumber "incr"), store)
  | .del, key :: _ => (store.deleteRaw key).map (fun gone => some (.integer gone.toInt64)) id
  | .del, [] => (some (wrongNumber "del"), store)
  | .publish, channel :: message :: _ =>
    (some (.integer (around.publish (around.lossy channel) (around.lossy message))), store)
  | .publish, _ => (some (wrongNumber "publish"), store)
  | .xadd, stream :: fields =>
    if fields.length < 2 ∨ fields.length % 2 ≠ 0 then (some (wrongNumber "xadd"), store)
    else (some (bulk (around.xadd (around.lossy stream)
      (pairs (fields.map around.lossy)))), store)
  | .xadd, [] => (some (wrongNumber "xadd"), store)
  | .xread, stream :: count :: _ =>
    (some (.array (some ((around.xread (around.lossy stream)
      ((parseUsize (around.lossy count)).getD 10)).map ofEntry))), store)
  | .xread, _ => (some (wrongNumber "xread"), store)
  | .graphQuery, graph :: query :: _ =>
    match around.query with
    | some answer => (some (ofQuery (answer (around.lossy query))), store)
    | none => (some (.error (ascii "ERR GRAPH.QUERY requires a live graph binding (graph '" ++
        around.lossy graph ++ ascii "')")), store)
  | .graphQuery, _ => (some (wrongNumber "graph.query"), store)
  | .ftSearch, index :: query :: _ =>
    (some (.array (some [.integer 1, bulk (around.lossy index ++ ascii ":1"),
      .array (some [bulk (ascii "query"), bulk (around.lossy query)])])), store)
  | .ftSearch, _ => (some (wrongNumber "ft.search"), store)
  | .unknown, _ =>
    (some (.error (ascii "ERR unknown command '" ++ around.lossy cmd ++ ascii "'")), store)

def handleRawCommand (around : Surroundings) (now : Nat) (args : List Bytes)
    (store : MemoryKvStore) : Option RespFrame × MemoryKvStore :=
  match args with
  | [] => (some (.error (ascii "ERR empty command")), store)
  | cmd :: args => dispatch around now cmd (verbOf cmd) args store

/-- The frames of the protocol. -/
inductive IsFrame : Bytes → Prop
  | simple : ¬ crlf <:+: text → IsFrame (43 :: (text ++ crlf))
  | error : ¬ crlf <:+: text → IsFrame (45 :: (text ++ crlf))
  | integer : parseI64 text = some value → IsFrame (58 :: (text ++ crlf))
  | nullBulk : IsFrame ([36, 45, 49] ++ crlf)
  | bulk : parseDigits header = some payload.length →
    IsFrame (36 :: (header ++ crlf) ++ payload ++ crlf)
  | nullArray : IsFrame ([42, 45, 49] ++ crlf)
  | array {pieces : List Bytes} : parseDigits header = some pieces.length →
    (∀ piece ∈ pieces, IsFrame piece) → IsFrame (42 :: (header ++ crlf) ++ pieces.flatten)

/-- The text that an error repeats. -/
def echo (around : Surroundings) (cmd : Bytes) : Verb → List Bytes → Option Bytes
  | .graphQuery, graph :: query :: _ =>
    match around.query with
    | some answer => (answer (around.lossy query)).message
    | none => some (around.lossy graph)
  | .unknown, _ => some (around.lossy cmd)
  | _, _ => none

def echoed (around : Surroundings) : List Bytes → Option Bytes
  | [] => none
  | cmd :: args => echo around cmd (verbOf cmd) args

theorem isFrame_error_iff : IsFrame (error text).serialize ↔ ¬ crlf <:+: text := by
  refine ⟨fun frame => ?_, .error⟩
  generalize written : (error text).serialize = bytes at frame
  cases frame <;> simp [serialize] at written
  case error whole => rwa [written]

theorem isFrame_bulk : IsFrame (bulk payload).serialize := by
  have frame := IsFrame.bulk (parseDigits_decimal payload.length)
  simpa [bulk, serialize] using frame

theorem isFrame_integer : IsFrame (integer value).serialize :=
  .integer (parseI64_decimalInt value.le_toInt value.toInt_lt)

theorem isFrame_array (each : ∀ frame ∈ frames, IsFrame frame.serialize) :
    IsFrame (array (some frames)).serialize := by
  have all : serializeAll frames = (frames.map serialize).flatten := by
    clear each
    induction frames with
    | nil => rfl
    | cons frame frames ih => simp [serializeAll, ih]
  have length := parseDigits_decimal (frames.map serialize).length
  simpa [serialize, all] using IsFrame.array length (by simpa using each)

theorem crlf_infix_append (left : 13 ∉ first) : crlf <:+: first ++ text ↔ crlf <:+: text := by
  induction first with
  | nil => rfl
  | cons byte first ih =>
    simp only [mem_cons, not_or] at left
    rw [cons_append, infix_cons_iff, ih left.2]
    simp [crlf, left.1]

theorem append_crlf_infix (right : ∀ byte ∈ last, byte ≠ 13 ∧ byte ≠ 10) :
    crlf <:+: text ++ last ↔ crlf <:+: text := by
  induction text with
  | nil =>
    refine iff_of_false (fun inside => ?_) (by simp [crlf])
    exact (right 13 (inside.subset (by simp [crlf]))).1 rfl
  | cons byte text ih =>
    rw [cons_append, infix_cons_iff, infix_cons_iff, ih]
    cases text with
    | nil =>
      cases last with
      | nil => rfl
      | cons next last =>
        have apart := (right next mem_cons_self).2
        simp [crlf, apart.symm]
    | cons next text => simp [crlf]

/-- An error that repeats a text is one frame exactly if the text has no line end. -/
theorem isFrame_echo (left : first.all (· ≠ 13)) (right : last.all fun b => b ≠ 13 ∧ b ≠ 10) :
    IsFrame (error (first ++ text ++ last)).serialize ↔ ¬ crlf <:+: text := by
  rw [isFrame_error_iff, append_crlf_infix (by simpa using right),
    crlf_infix_append (fun mem => by simpa using all_eq_true.mp left _ mem)]

theorem isFrame_wrongNumber : ∀ name ∈ ["set", "get", "incr", "del", "publish", "xadd", "xread",
    "graph.query", "ft.search"], IsFrame (wrongNumber name).serialize := by
  simp only [wrongNumber, isFrame_error_iff]
  decide

theorem isFrame_ofValue : IsFrame (ofValue value).serialize := by
  fun_cases ofValue value with
  | case1 | case2 | case3 => exact isFrame_bulk
  | case4 => exact isFrame_error_iff.mpr (by decide)
  | case5 => exact .nullBulk

theorem isFrame_ofEntry : IsFrame (ofEntry entry).serialize := by
  refine isFrame_array ?_
  simp only [forall_mem_cons, not_mem_nil, false_imp_iff, implies_true, and_true]
  refine ⟨isFrame_bulk, isFrame_array ?_⟩
  simp only [mem_flatMap, mem_cons, not_mem_nil, or_false]
  rintro frame ⟨field, -, rfl | rfl⟩ <;> exact isFrame_bulk

theorem isFrame_ofQuery_iff :
    IsFrame (ofQuery outcome).serialize ↔ ∀ text ∈ outcome.message, ¬ crlf <:+: text := by
  cases outcome with
  | compilationFailed message | executionFailed message =>
    rw [ofQuery, isFrame_error_iff, crlf_infix_append (by decide)]
    simp [QueryOutcome.message]
  | rows columns rows =>
    refine iff_of_true (isFrame_array ?_) (by simp [QueryOutcome.message])
    rw [forall_mem_cons, forall_mem_map]
    refine ⟨isFrame_array ?_, fun row _ => isFrame_array ?_⟩
    · exact forall_mem_map.mpr fun name _ => isFrame_bulk
    · exact forall_mem_map.mpr fun value _ => isFrame_integer

theorem isFrame_dispatch_iff :
    (∀ reply ∈ (dispatch around now cmd verb args store).1, IsFrame reply.serialize) ↔
      ∀ text ∈ echo around cmd verb args, ¬ crlf <:+: text := by
  have wrong := isFrame_wrongNumber
  have fixed : ∀ text ∈ ["OK", "PONG"], IsFrame (simpleString (ascii text)).serialize :=
    fun text mem => .simple (by revert text; decide)
  cases verb with
  | ping => cases args <;> simp [dispatch, echo, fixed, isFrame_bulk]
  | set =>
    rcases args with _ | ⟨key, _ | ⟨value, _⟩⟩ <;> simp [dispatch, echo, wrong, fixed]
  | get => cases args <;> simp [dispatch, echo, wrong, isFrame_ofValue]
  | incr | del => cases args <;> simp [dispatch, echo, wrong, isFrame_integer]
  | publish =>
    rcases args with _ | ⟨key, _ | ⟨value, _⟩⟩ <;> simp [dispatch, echo, wrong, isFrame_integer]
  | xadd =>
    cases args with
    | nil => simp [dispatch, echo, wrong]
    | cons stream fields =>
      rw [dispatch]
      split <;> simp [echo, wrong, isFrame_bulk]
  | xread =>
    rcases args with _ | ⟨key, _ | ⟨value, _⟩⟩ <;> simp [dispatch, echo, wrong]
    exact isFrame_array (forall_mem_map.mpr fun entry _ => isFrame_ofEntry)
  | graphQuery =>
    rcases args with _ | ⟨graph, _ | ⟨query, _⟩⟩
    · simp [dispatch, echo, wrong]
    · simp [dispatch, echo, wrong]
    · rw [dispatch, echo]
      cases around.query with
      | none => simpa [-append_assoc] using isFrame_echo rfl rfl
      | some answer => simpa using isFrame_ofQuery_iff
  | ftSearch =>
    rcases args with _ | ⟨key, _ | ⟨value, _⟩⟩ <;> simp [dispatch, echo, wrong]
    refine isFrame_array ?_
    simp only [forall_mem_cons, not_mem_nil, false_imp_iff, implies_true, and_true]
    exact ⟨isFrame_integer, isFrame_bulk, isFrame_array (by simp [isFrame_bulk])⟩
  | unknown => simpa [dispatch, echo, -append_assoc] using isFrame_echo rfl rfl

/-- A command gets one frame for a reply exactly if no error repeats a text with a line end. -/
theorem isFrame_reply_iff (around : Surroundings) (now : Nat) (args : List Bytes)
    (store : MemoryKvStore) :
    (∀ reply ∈ (handleRawCommand around now args store).1, IsFrame reply.serialize) ↔
      ∀ text ∈ echoed around args, ¬ crlf <:+: text := by
  cases args with
  | nil => simpa [handleRawCommand, echoed, isFrame_error_iff] using by decide
  | cons cmd args => exact isFrame_dispatch_iff ..

/-- Nobody listens, and there is no graph. -/
def alone : Surroundings := ⟨0, id, fun _ _ => 0, fun _ _ => [], fun _ _ => [], none⟩

/-- An unknown command is repeated with the line end in it. -/
theorem not_isFrame_reply_unknown :
    ¬ ∀ reply ∈ (handleRawCommand alone 0 [[88, 13, 10]] ∅).1, IsFrame reply.serialize := by
  intro one
  exact isFrame_error_iff.mp (one _ rfl) (by decide)

inductive CounterCall where
  | set (key payload : Bytes)
  | get (key : Bytes)
  | incr (key : Bytes)
  | del (key : Bytes)

/-- The store, the text that each key should have, and whether the last reply was right. -/
structure Counted where
  store : MemoryKvStore
  texts : Bytes → Option Bytes
  right : Prop

namespace Counted

def new : Counted := ⟨∅, fun _ => none, True⟩

/-- The number under a key, zero if there is none. -/
def number (text : Option Bytes) : Int := (text.bind parseI64).getD 0

/-- The reply and the texts that a call should give.  Payloads are numbers, and all numbers stay
    within the range of an `i64`. -/
def expected (texts : Bytes → Option Bytes) :
    CounterCall → Option (RespFrame × (Bytes → Option Bytes))
  | .set key payload =>
    if (parseI64 payload).isSome then
      some (.simpleString (ascii "OK"), update texts key (some payload))
    else none
  | .get key => some ((texts key).elim .null bulk, texts)
  | .incr key =>
    let next := number (texts key) + 1
    if next < 2 ^ 63 then
      some (.integer (.ofInt next), update texts key (some (decimalInt next)))
    else none
  | .del key => some (.integer (texts key).isSome.toInt64, update texts key none)

def words : CounterCall → List Bytes
  | .set key payload => [ascii "SET", key, payload]
  | .get key => [ascii "GET", key]
  | .incr key => [ascii "INCR", key]
  | .del key => [ascii "DEL", key]

def act (around : Surroundings) (state : Counted) (action : Nat × CounterCall) :
    Option Counted := do
  let (reply, texts) ← expected state.texts action.2
  let result := handleRawCommand around action.1 (words action.2) state.store
  some ⟨result.2, texts, result.1 = some reply⟩

/-- What an entry shows of a text. -/
inductive Shows : Option KvEntry → Option Bytes → Prop
  | absent : Shows none none
  | set : parseI64 payload = some n → Shows (some ⟨.bytes payload, none⟩) (some payload)
  | counted : Shows (some ⟨.integer value, none⟩) (some (decimalInt value.toInt))

/-- The last reply was right, and every key shows its text. -/
def Right (state : Counted) : Prop :=
  state.right ∧ ∀ key, Shows (state.store.lookup key) (state.texts key)

/-- No `INCR` meets a payload other than zero. -/
def Fresh (state : Counted) (action : Nat × CounterCall) : Prop :=
  match action.2 with
  | .incr key => ∀ entry ∈ state.store.lookup key, ∀ payload, entry.value = .bytes payload →
      parseI64 payload = some 0
  | _ => True

theorem Shows.isSome (shown : Shows held text) : held.isSome = text.isSome := by
  cases shown <;> rfl

theorem Shows.number_eq (shown : Shows held text) :
    (∃ value : Int64, held.getD ⟨.integer 0, none⟩ = ⟨.integer value, none⟩ ∧
      number text = value.toInt ∧ ∀ entry ∈ held, ∀ payload, entry.value ≠ .bytes payload) ∨
    ∃ payload, held = some ⟨.bytes payload, none⟩ ∧ parseI64 payload = some (number text) := by
  cases shown with
  | absent => exact .inl ⟨0, rfl, rfl, nofun⟩
  | set parsed => exact .inr ⟨_, rfl, by simp [number, parsed]⟩
  | @counted value =>
    refine .inl ⟨value, rfl, ?_, by simp⟩
    simp [number, parseI64_decimalInt value.le_toInt value.toInt_lt]

section
variable {store : MemoryKvStore} {texts : Bytes → Option Bytes} {key : Bytes}
  (shows : ∀ key, Shows (store.lookup key) (texts key))

include shows

theorem shows_insert (shown : Shows (some entry) (some text)) (other : Bytes) :
    Shows ((store.insert key entry).lookup other) (update texts key (some text) other) := by
  by_cases same : other = key
  · rwa [same, AList.lookup_insert, update_self]
  · rw [AList.lookup_insert_ne same, update_of_ne same]
    exact shows other

theorem shows_erase (other : Bytes) :
    Shows ((store.erase key).lookup other) (update texts key none other) := by
  by_cases same : other = key
  · rw [same, AList.lookup_erase, update_self]
    exact .absent
  · rw [AList.lookup_erase_ne same, update_of_ne same]
    exact shows other

theorem getRaw_of_shows : (store.getRaw now key).2 = store ∧
      ofValue (store.getRaw now key).1 = (texts key).elim .null bulk := by
  have shown := shows key
  rw [MemoryKvStore.getRaw]
  generalize store.lookup key = held at shown ⊢
  generalize texts key = text at shown ⊢
  cases shown <;> simp [KvEntry.live, ofValue]

end

theorem incrByRaw_integer {store : MemoryKvStore} {value : Int64}
    (held : (store.lookup key).getD ⟨.integer 0, none⟩ = ⟨.integer value, none⟩)
    (room : value.toInt + 1 < 2 ^ 63) :
    store.incrByRaw key 1 = (some (.ofInt (value.toInt + 1)),
      store.insert key ⟨.integer (.ofInt (value.toInt + 1)), none⟩) := by
  have low := value.le_toInt
  have sum : checkedAdd value 1 = some (.ofInt (value.toInt + 1)) := by
    rw [checkedAdd, show (1 : Int64).toInt = 1 from rfl, if_pos ⟨by omega, room⟩,
      Int64.ofInt_add, Int64.ofInt_toInt]
    rfl
  simp [MemoryKvStore.incrByRaw, held, sum]

theorem right_act {around : Surroundings} {state : Counted} {action : Nat × CounterCall}
    (right : Right state) (done : act around state action = some post) :
    Right post ↔ Fresh state action := by
  obtain ⟨-, shows⟩ := right
  obtain ⟨now, call⟩ := action
  obtain ⟨⟨reply, texts⟩, wanted, done⟩ := Option.bind_eq_some_iff.mp done
  cases done
  cases call with
  | set key payload =>
    simp only [expected] at wanted
    split at wanted
    · cases wanted
      obtain ⟨n, parsed⟩ := Option.isSome_iff_exists.mp ‹_›
      exact iff_of_true ⟨rfl, shows_insert shows (.set parsed)⟩ trivial
    · cases wanted
  | get key =>
    cases wanted
    obtain ⟨kept, shown⟩ := getRaw_of_shows shows
    exact iff_of_true ⟨congrArg some shown, kept.symm ▸ shows⟩ trivial
  | incr key =>
    simp only [expected] at wanted
    split at wanted
    case isFalse => cases wanted
    case isTrue room =>
      cases wanted
      have answered : handleRawCommand around now (words (.incr key)) state.store =
          (state.store.incrByRaw key 1).map (Option.map .integer) id := rfl
      -- a number that was counted goes on, and a payload starts afresh
      rcases (shows key).number_eq with ⟨value, held, same, fresh⟩ | ⟨payload, held, parsed⟩
      · have low := value.le_toInt
        rw [same] at room ⊢
        refine iff_of_true ?_ fun entry mem payload set => absurd set (fresh entry mem payload)
        rw [answered, incrByRaw_integer held room]
        refine ⟨rfl, fun other => ?_⟩
        have shown := @Shows.counted (.ofInt (value.toInt + 1))
        rw [Int64.toInt_ofInt_of_le (by omega) room] at shown
        exact shows_insert shows shown other
      · have afresh : state.store.incrByRaw key 1 =
            (some 1, state.store.insert key ⟨.integer 1, none⟩) := by
          simp [MemoryKvStore.incrByRaw, held]
        have low := le_parseI64 parsed
        rw [answered, afresh]
        constructor
        · rintro ⟨same, -⟩ entry mem other set
          have value := congrArg Int64.toInt (integer.inj (Option.some.inj same))
          rw [Int64.toInt_ofInt_of_le (by omega) room] at value
          have one : number (state.texts key) = 0 := by
            have : (1 : Int64).toInt = 1 := rfl
            omega
          rw [held] at mem
          cases mem
          cases set
          rw [parsed, one]
        · intro fresh
          have zero := fresh _ held payload rfl
          rw [parsed] at zero
          rw [Option.some.inj zero]
          exact ⟨rfl, fun other => shows_insert shows .counted other⟩
  | del key =>
    cases wanted
    have same : some (integer (state.store.lookup key).isSome.toInt64) =
        some (.integer (state.texts key).isSome.toInt64) := by rw [(shows key).isSome]
    exact iff_of_true ⟨same, shows_erase shows⟩ trivial

/-- All replies are right and every key shows its text exactly if no `INCR` meets a payload
    other than zero. -/
theorem always_right_iff (around : Surroundings) (calls : List (Nat × CounterCall)) :
    Always (act around) Right new calls ↔ Throughout (act around) Fresh new calls :=
  always_iff_throughout (fun _ => True)
    (fun _ _ _ _ right _ done => ⟨trivial, right_act right done⟩)
    (fun _ _ => trivial) trivial ⟨trivial, fun _ => .absent⟩

/-- After `SET k 5`, `INCR k` answers one. -/
theorem not_always_right_set :
    ¬ Always (act alone) Right new [(0, .set [107] [53]), (0, .incr [107])] := by
  intro always
  have wrong : some (integer 1) = some (.integer (.ofInt 6)) := (always 2 _ rfl).1
  exact absurd (integer.inj (Option.some.inj wrong)) (by decide)

end Counted
end HoloSphere.Transport
