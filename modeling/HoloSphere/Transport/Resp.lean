import HoloSphere.Format.Decimal
import Mathlib.Data.List.Forall2
import Mathlib.Data.List.Infix

/-! # RESP frames

The serialiser and the streaming parser of `transport/resp.rs`.  A text is its bytes, and which
bytes are UTF-8 is arbitrary.  Lengths are added without a bound: they are below `2 ^ 63`.
-/

namespace HoloSphere.Transport
open Format Option
open List (Forall₂ infix_cons_iff cons_prefix_cons)

inductive RespFrame where
  | simpleString (text : Bytes)
  | error (text : Bytes)
  | integer (value : Int64)
  | bulkString (payload : Option Bytes)
  | array (frames : Option (List RespFrame))
  | null

def crlf : Bytes := [13, 10]

mutual

def RespFrame.serialize : RespFrame → Bytes
  | .simpleString text => 43 :: text ++ crlf
  | .error text => 45 :: text ++ crlf
  | .integer value => 58 :: decimalInt value.toInt ++ crlf
  | .bulkString none | .null => [36, 45, 49] ++ crlf
  | .bulkString (some payload) => 36 :: decimal payload.length ++ crlf ++ payload ++ crlf
  | .array none => [42, 45, 49] ++ crlf
  | .array (some frames) => 42 :: decimal frames.length ++ crlf ++ RespFrame.serializeAll frames

def RespFrame.serializeAll : List RespFrame → Bytes
  | [] => []
  | frame :: frames => frame.serialize ++ serializeAll frames

end

inductive RespBorrowedFrame where
  | simpleString (text : Bytes)
  | error (text : Bytes)
  | integer (value : Int)
  | bulkString (payload : Option Bytes)
  | array (count : Nat)
  | null

inductive ParsePanic where
  | capacityOverflow
  | sliceOutOfRange

/-- The bytes before the first line end, and how many bytes it ends at. -/
def readCrlfLine : Bytes → Option (Bytes × Nat)
  | 13 :: 10 :: _ => some ([], 2)
  | byte :: rest => do
    let (line, consumed) ← readCrlfLine rest
    some (byte :: line, consumed + 1)
  | [] => none

section
variable (utf8 : Bytes → Bool)

/-- The frame that a first byte and the line behind it begin. -/
def frameOf (buf : Bytes) (pre : UInt8) (line : Bytes) (consumed : Nat) :
    Option (RespBorrowedFrame × Nat) :=
  if pre = 43 then
    if utf8 line then some (.simpleString line, consumed + 1) else none
  else if pre = 45 then
    if utf8 line then some (.error line, consumed + 1) else none
  else if pre = 58 then do
    let value ← parseI64 line
    some (.integer value, consumed + 1)
  else if pre = 36 then do
    let len ← parseI64 line
    if len < 0 then some (.bulkString none, consumed + 1)
    else
      let start := 1 + consumed
      if buf.length < start + len.toNat + 2 then none
      else some (.bulkString (some ((buf.drop start).take len.toNat)), start + len.toNat + 2)
  else if pre = 42 then do
    let count ← parseI64 line
    if count < 0 then some (.null, consumed + 1) else some (.array count.toNat, consumed + 1)
  else none

def parseFrame : Bytes → Option (RespBorrowedFrame × Nat)
  | [] => none
  | pre :: rest => do
    let (line, consumed) ← readCrlfLine rest
    frameOf utf8 (pre :: rest) pre line consumed

/-- The next argument of a command. -/
def parseArg (buf : Bytes) : Option (Bytes × Nat) := do
  let (frame, consumed) ← parseFrame utf8 buf
  match frame with
  | .bulkString (some bytes) => some (bytes, consumed)
  | .simpleString text => some (text, consumed)
  | _ => none

def parseArgs (buf : Bytes) : Nat → Nat → List Bytes → Except ParsePanic (Option (List Bytes × Nat))
  | 0, offset, args => .ok (some (args, offset))
  | count + 1, offset, args =>
    if buf.length < offset then .error .sliceOutOfRange
    else
      match parseArg utf8 (buf.drop offset) with
      | none => .ok none
      | some (arg, consumed) => parseArgs buf count (offset + consumed) (args ++ [arg])

/-- Room is reserved for as many slices of 16 bytes as the header says. -/
def parseCommandSlices (buf : Bytes) : Except ParsePanic (Option (List Bytes × Nat)) :=
  match parseFrame utf8 buf with
  | some (.array count, offset) =>
    if 16 * count < 2 ^ 63 then parseArgs utf8 buf count offset []
    else .error .capacityOverflow
  | _ => .ok none

end

/-- How many arguments room is reserved for. -/
def reserved (utf8 : Bytes → Bool) (buf : Bytes) : Nat :=
  match parseFrame utf8 buf with
  | some (.array count, _) => count
  | _ => 0

/-- A length: digits, or what is read as an `i64`. -/
def Length : Bool → Bytes → Nat → Prop
  | true, text, n => parseI64 text = some (n : Int)
  | false, text, n => parseDigits text = some n

/-- An argument as it is sent.  A lax one may have a length with a sign and any two bytes behind
    its payload. -/
inductive Arg (utf8 : Bytes → Bool) (lax : Bool) : Bytes → Bytes → Prop
  | simple : utf8 text → ¬ crlf <:+: text → Arg utf8 lax text (43 :: (text ++ crlf))
  | bulk : Length lax header payload.length → gap.length = 2 → (lax ∨ gap = crlf) →
    Arg utf8 lax payload (36 :: (header ++ crlf) ++ payload ++ gap)

def Command (utf8 : Bytes → Bool) (lax : Bool) (args : List Bytes) (bytes : Bytes) : Prop :=
  ∃ header pieces, Length lax header args.length ∧ Forall₂ (Arg utf8 lax) args pieces ∧
    bytes = 42 :: (header ++ crlf) ++ pieces.flatten

/-- The header of an array at the front of the buffer. -/
def Announces (buf : Bytes) (count : Nat) : Prop :=
  ∃ header, Length true header count ∧ 42 :: (header ++ crlf) <+: buf

theorem readCrlfLine_iff : readCrlfLine buf = some (line, n) ↔
      ¬ crlf <:+: line ∧ line ++ crlf <+: buf ∧ n = line.length + 2 := by
  fun_induction readCrlfLine buf generalizing line n with
  | case1 rest =>
    cases line with
    | nil => simpa [crlf] using Iff.intro Eq.symm Eq.symm
    | cons byte line =>
      cases line with
      | nil => simp [crlf]
      | cons next line =>
        simp only [some.injEq, Prod.mk.injEq, reduceCtorEq, false_and, false_iff,
          infix_cons_iff, List.cons_append, cons_prefix_cons, crlf]
        rintro ⟨ends, ⟨rfl, rfl, -⟩, -⟩
        simp at ends
  | case2 byte rest apart ih =>
    cases line with
    | nil =>
      refine iff_of_false (by simp [bind_eq_some_iff]) ?_
      rintro ⟨-, ⟨more, front⟩, -⟩
      obtain ⟨rfl, rfl⟩ := List.cons.inj front
      exact apart more rfl rfl
    | cons first line =>
      simp only [bind_eq_bind, bind_eq_some_iff, Prod.exists, some.injEq,
        Prod.mk.injEq, List.cons.injEq, ih, infix_cons_iff, List.cons_append,
        cons_prefix_cons, List.length_cons]
      constructor
      · rintro ⟨_, consumed, ⟨whole, front, rfl⟩, ⟨rfl, rfl⟩, rfl⟩
        refine ⟨?_, ⟨rfl, front⟩, by omega⟩
        rintro (⟨more, starts⟩ | later)
        · obtain ⟨rfl, rfl⟩ := List.cons.inj starts
          obtain ⟨rest, rfl⟩ := front
          exact apart _ rfl rfl
        · exact whole later
      · rintro ⟨whole, ⟨rfl, front⟩, rfl⟩
        exact ⟨line, line.length + 2, ⟨fun later => whole (.inr later), front, rfl⟩, ⟨rfl, rfl⟩,
          by omega⟩
  | case3 => simp [crlf]

/-- A number has no line end inside. -/
theorem Length.line (length : Length true header n) : ¬ crlf <:+: header :=
  fun inside => parseI64_no_cr length (inside.subset (by simp [crlf]))

variable {utf8 : Bytes → Bool}

theorem frameOf_array_iff : frameOf utf8 buf pre line consumed = some (.array count, offset) ↔
      pre = 42 ∧ Length true line count ∧ offset = consumed + 1 := by
  grind [frameOf, Length, bind_eq_some_iff]

theorem frameOf_simple_iff :
    frameOf utf8 buf pre line consumed = some (.simpleString text, offset) ↔
      pre = 43 ∧ utf8 line ∧ text = line ∧ offset = consumed + 1 := by
  grind [frameOf, bind_eq_some_iff]

theorem frameOf_bulk_iff :
    frameOf utf8 buf pre line consumed = some (.bulkString (some payload), offset) ↔
      pre = 36 ∧ ∃ len, Length true line len ∧ offset = 1 + consumed + len + 2 ∧
        offset ≤ buf.length ∧ payload = (buf.drop (1 + consumed)).take len := by
  grind [frameOf, Length, bind_eq_some_iff]

theorem parseFrame_iff :
    parseFrame utf8 buf = some result ↔ ∃ pre line rest, buf = pre :: (line ++ crlf) ++ rest ∧
      ¬ crlf <:+: line ∧ frameOf utf8 buf pre line (line.length + 2) = some result := by
  constructor
  · intro parsed
    cases buf with
    | nil => cases parsed
    | cons pre rest =>
      obtain ⟨⟨line, consumed⟩, read, parsed⟩ := bind_eq_some_iff.mp parsed
      obtain ⟨whole, ⟨rest, rfl⟩, rfl⟩ := readCrlfLine_iff.mp read
      exact ⟨pre, line, rest, rfl, whole, parsed⟩
  · rintro ⟨pre, line, rest, rfl, whole, parsed⟩
    rw [List.cons_append, parseFrame, readCrlfLine_iff.mpr ⟨whole, List.prefix_append _ _, rfl⟩]
    exact parsed

theorem parseFrame_array_iff : parseFrame utf8 buf = some (.array count, offset) ↔
      ∃ header, Length true header count ∧ 42 :: (header ++ crlf) <+: buf ∧
        offset = header.length + 3 := by
  simp only [parseFrame_iff, frameOf_array_iff]
  constructor
  · rintro ⟨_, header, rest, rfl, -, rfl, length, rfl⟩
    exact ⟨header, length, List.prefix_append _ _, rfl⟩
  · rintro ⟨header, length, ⟨rest, rfl⟩, rfl⟩
    exact ⟨42, header, rest, rfl, length.line, rfl, length, rfl⟩

theorem parseArg_iff : parseArg utf8 buf = some (arg, n) ↔
      ∃ bytes, Arg utf8 true arg bytes ∧ bytes <+: buf ∧ bytes.length = n := by
  have kinds : parseArg utf8 buf = some (arg, n) ↔
      parseFrame utf8 buf = some (.simpleString arg, n) ∨
        parseFrame utf8 buf = some (.bulkString (some arg), n) := by
    grind [parseArg, bind_eq_some_iff]
  simp only [kinds, parseFrame_iff, frameOf_simple_iff, frameOf_bulk_iff]
  constructor
  · rintro (⟨_, text, rest, rfl, whole, rfl, valid, rfl, rfl⟩ |
      ⟨_, header, rest, rfl, whole, rfl, len, length, rfl, inside, rfl⟩)
    · exact ⟨_, .simple valid whole, List.prefix_append _ _, by simp [crlf]⟩
    · have fits : len + 2 ≤ rest.length := by simp [crlf] at inside; omega
      have start : (36 :: (header ++ crlf) ++ rest).drop (1 + (header.length + 2)) = rest :=
        List.drop_left' (by simp [crlf]; omega)
      rw [start]
      have size : (rest.take len).length = len := List.length_take_of_le (by omega)
      have gap : ((rest.drop len).take 2).length = 2 := List.length_take_of_le (by simp; omega)
      refine ⟨36 :: (header ++ crlf) ++ rest.take len ++ (rest.drop len).take 2,
        .bulk (by rwa [size]) gap (.inl rfl), ?_, by simp [crlf]; omega⟩
      rw [List.append_assoc, ← List.take_add]
      exact (List.prefix_append_right_inj _).mpr (List.take_prefix _ _)
  · rintro ⟨_, ⟨valid, whole⟩ | ⟨length, two, -⟩, ⟨rest, rfl⟩, rfl⟩
    · exact .inl ⟨43, arg, rest, rfl, whole, rfl, valid, rfl, by simp [crlf]⟩
    · rename_i header gap
      have size : (36 :: (header ++ crlf)).length = 1 + (header.length + 2) := by
        simp [crlf]
        omega
      refine .inr ⟨36, header, arg ++ gap ++ rest, by simp, length.line, rfl, _, length, ?_, ?_, ?_⟩
      · rw [List.length_append, List.length_append, size, two]
      · simp
      · rw [← size, List.append_assoc, List.append_assoc, take_drop_field]

theorem flatten_prefix_iff {piece : Bytes} (front : piece <+: buf) :
    (piece :: pieces).flatten <+: buf ↔ pieces.flatten <+: buf.drop piece.length := by
  obtain ⟨rest, rfl⟩ := front
  rw [List.flatten_cons, List.prefix_append_right_inj, List.drop_left]

theorem parseArgs_spec (inside : offset ≤ buf.length) :
    ∃ result, parseArgs utf8 buf count offset args = .ok result ∧
      ∀ all n, result = some (all, n) ↔ ∃ more pieces, all = args ++ more ∧ more.length = count ∧
        Forall₂ (Arg utf8 true) more pieces ∧ pieces.flatten <+: buf.drop offset ∧
        n = offset + pieces.flatten.length := by
  induction count generalizing offset args with
  | zero =>
    refine ⟨_, rfl, fun all n => ?_⟩
    simp only [List.length_eq_zero_iff]
    constructor
    · rintro ⟨⟩
      exact ⟨[], [], by simp⟩
    · rintro ⟨_, _, rfl, rfl, ⟨⟩, -, rfl⟩
      simp
  | succ count ih =>
    rw [parseArgs, if_neg (by omega)]
    have heads : ∀ {arg piece others}, Arg utf8 true arg piece →
        (piece :: others).flatten <+: buf.drop offset →
          parseArg utf8 (buf.drop offset) = some (arg, piece.length) :=
      fun first front => parseArg_iff.mpr ⟨_, first, (List.prefix_append _ _).trans front, rfl⟩
    cases found : parseArg utf8 (buf.drop offset) with
    | none =>
      refine ⟨none, rfl, fun all n => iff_of_false nofun ?_⟩
      rintro ⟨_, _, -, size, _ | ⟨first, -⟩, front, -⟩
      · cases size
      · rw [heads first front] at found
        cases found
    | some taken =>
      obtain ⟨arg, consumed⟩ := taken
      obtain ⟨piece, first, front, rfl⟩ := parseArg_iff.mp found
      have room : offset + piece.length ≤ buf.length := by
        have := front.length_le
        rw [List.length_drop] at this
        omega
      obtain ⟨result, done, spec⟩ := @ih _ (args ++ [arg]) room
      refine ⟨result, done, fun all n => ?_⟩
      rw [spec, ← List.drop_drop]
      constructor
      · rintro ⟨more, pieces, rfl, rfl, rest, later, rfl⟩
        exact ⟨arg :: more, piece :: pieces, by simp, rfl, .cons first rest,
          (flatten_prefix_iff front).mpr later, by simp; omega⟩
      · rintro ⟨_, _, rfl, size, _ | ⟨again, rest⟩, whole, rfl⟩
        · cases size
        · obtain ⟨rfl, size'⟩ := Prod.mk.inj (some.inj (found.symm.trans (heads again whole)))
          have same := List.prefix_of_prefix_length_le front ((List.prefix_append _ _).trans whole)
            size'.le
          cases same.eq_of_length size'
          exact ⟨_, _, by simp, by simpa using size, rest, (flatten_prefix_iff front).mp whole,
            by simp; omega⟩

theorem parseCommandSlices_eq (length : Length true header count)
    (front : 42 :: (header ++ crlf) <+: buf) :
    parseCommandSlices utf8 buf =
      if 16 * count < 2 ^ 63 then parseArgs utf8 buf count (42 :: (header ++ crlf)).length []
      else .error .capacityOverflow := by
  rw [parseCommandSlices, parseFrame_array_iff.mpr ⟨header, length, front, rfl⟩]
  simp [crlf]

theorem parseCommandSlices_silent (silent : ∀ count, ¬ Announces buf count) :
    parseCommandSlices utf8 buf = .ok none := by
  rw [parseCommandSlices]
  split
  case h_1 found =>
    obtain ⟨header, length, front, -⟩ := parseFrame_array_iff.mp found
    exact absurd ⟨header, length, front⟩ (silent _)
  case h_2 => rfl

/-- A command is taken exactly if a lax one is at the front of the buffer. -/
theorem parseCommandSlices_eq_ok :
    parseCommandSlices utf8 buf = .ok (some (args, n)) ↔ 16 * args.length < 2 ^ 63 ∧
      ∃ bytes, Command utf8 true args bytes ∧ bytes <+: buf ∧ bytes.length = n := by
  constructor
  · intro parsed
    by_cases silent : ∀ count, ¬ Announces buf count
    · rw [parseCommandSlices_silent silent] at parsed
      cases parsed
    · obtain ⟨count, header, length, front⟩ := by simpa using silent
      rw [parseCommandSlices_eq length front] at parsed
      split_ifs at parsed with room
      obtain ⟨_, done, spec⟩ := parseArgs_spec front.length_le
      obtain ⟨args, pieces, rfl, rfl, each, rest, rfl⟩ :=
        (spec args n).mp (Except.ok.inj (done.symm.trans parsed))
      obtain ⟨_, rfl⟩ := front
      rw [List.drop_left] at rest
      exact ⟨room, _, ⟨header, pieces, length, each, rfl⟩,
        (List.prefix_append_right_inj _).mpr rest, List.length_append⟩
  · rintro ⟨room, _, ⟨header, pieces, length, each, rfl⟩, front, rfl⟩
    have start := (List.prefix_append _ _).trans front
    rw [parseCommandSlices_eq length start, if_pos room]
    obtain ⟨_, done, spec⟩ := parseArgs_spec start.length_le
    rw [done, (spec args _).mpr ⟨args, pieces, rfl, rfl, each, ?_, List.length_append⟩]
    obtain ⟨rest, rfl⟩ := start
    rw [List.drop_left]
    exact (List.prefix_append_right_inj _).mp front

/-- The parser panics exactly if the header announces too many arguments. -/
theorem parseCommandSlices_eq_error : (∃ panic, parseCommandSlices utf8 buf = .error panic) ↔
      ∃ count, Announces buf count ∧ ¬ 16 * count < 2 ^ 63 := by
  constructor
  · rintro ⟨panic, parsed⟩
    by_cases silent : ∀ count, ¬ Announces buf count
    · rw [parseCommandSlices_silent silent] at parsed
      cases parsed
    · obtain ⟨count, header, length, front⟩ := by simpa using silent
      rw [parseCommandSlices_eq length front] at parsed
      split_ifs at parsed with room
      · obtain ⟨_, done, -⟩ := parseArgs_spec front.length_le
        cases done.symm.trans parsed
      · exact ⟨count, ⟨header, length, front⟩, room⟩
  · rintro ⟨count, ⟨header, length, front⟩, many⟩
    exact ⟨_, (parseCommandSlices_eq length front).trans (if_neg many)⟩

theorem reserved_eq (announced : Announces buf count) : reserved utf8 buf = count := by
  obtain ⟨header, length, front⟩ := announced
  rw [reserved, parseFrame_array_iff.mpr ⟨header, length, front, rfl⟩]

theorem reserved_silent (silent : ∀ count, ¬ Announces buf count) : reserved utf8 buf = 0 := by
  rw [reserved]
  split
  case h_1 found =>
    obtain ⟨header, length, front, -⟩ := parseFrame_array_iff.mp found
    exact absurd ⟨header, length, front⟩ (silent _)
  case h_2 => rfl

def RespFrame.command (args : List Bytes) : RespFrame :=
  .array (some (args.map fun arg => .bulkString (some arg)))

theorem length_decimal (fits : n < 2 ^ 63) : Length true (decimal n) n :=
  parseI64_of_digits (parseDigits_decimal n) fits

open RespFrame

theorem command_serialize (slices : 16 * args.length < 2 ^ 63)
    (sizes : ∀ arg ∈ args, arg.length < 2 ^ 63) :
    Command utf8 true args (command args).serialize := by
  let piece (arg : Bytes) := 36 :: (decimal arg.length ++ crlf) ++ arg ++ crlf
  have all : ∀ args : List Bytes, serializeAll
      (args.map fun arg => .bulkString (some arg)) = (args.map piece).flatten := by
    intro args
    induction args with
    | nil => rfl
    | cons arg args ih => simp [serializeAll, serialize, ih, piece]
  refine ⟨decimal args.length, args.map piece, length_decimal (by omega), ?_, ?_⟩
  · rw [List.forall₂_map_right_iff, List.forall₂_same]
    exact fun arg mem => .bulk (length_decimal (sizes arg mem)) rfl (.inr rfl)
  · simp [command, serialize, all]

/-- Commands are read back, however their bytes arrive.  The slices of a command and the bytes of
    an argument take up less than `2 ^ 63` bytes. -/
theorem parse_serialize (utf8 : Bytes → Bool) (args : List Bytes)
    (slices : 16 * args.length < 2 ^ 63) (sizes : ∀ arg ∈ args, arg.length < 2 ^ 63) :
    (∀ rest, parseCommandSlices utf8 ((command args).serialize ++ rest) =
      .ok (some (args, (command args).serialize.length))) ∧
    ∀ cut, cut <+: (command args).serialize → cut ≠ (command args).serialize →
      parseCommandSlices utf8 cut = .ok none := by
  have command : Command utf8 true args _ := command_serialize slices sizes
  generalize (RespFrame.command args).serialize = bytes at command
  have read : ∀ rest, parseCommandSlices utf8 (bytes ++ rest) = .ok (some (args, bytes.length)) :=
    fun rest => parseCommandSlices_eq_ok.mpr
      ⟨slices, bytes, command, List.prefix_append _ _, rfl⟩
  refine ⟨read, fun cut front short => ?_⟩
  have whole := read []
  rw [List.append_nil] at whole
  rcases result : parseCommandSlices utf8 cut with panic | _ | ⟨found, n⟩
  · -- the header would announce as much in the whole serialisation
    obtain ⟨count, ⟨header, length, start⟩, many⟩ := parseCommandSlices_eq_error.mp ⟨panic, result⟩
    obtain ⟨panic, failed⟩ := parseCommandSlices_eq_error.mpr
      ⟨count, ⟨header, length, start.trans front⟩, many⟩
    cases whole.symm.trans failed
  · rfl
  · -- and a command in the cut would be one in the whole
    obtain ⟨room, piece, again, start, rfl⟩ := parseCommandSlices_eq_ok.mp result
    have same := parseCommandSlices_eq_ok.mpr ⟨room, piece, again, start.trans front, rfl⟩
    obtain ⟨-, length⟩ := Prod.mk.inj (some.inj (Except.ok.inj (whole.symm.trans same)))
    exact absurd (front.eq_of_length_le (length.le.trans start.length_le)) short

/-- Two arguments, one of them a line end. -/
theorem parse_serialize_get :
    parseCommandSlices (fun _ => true) ((command [[71], crlf]).serialize ++ [42]) =
      .ok (some ([[71], crlf], (command [[71], crlf]).serialize.length)) :=
  (parse_serialize _ [[71], crlf] (by decide) (by decide)).1 [42]

/-- No panic, no more room than there are bytes, and what is taken is a command. -/
def Safe (utf8 : Bytes → Bool) (buf : Bytes) : Prop :=
  reserved utf8 buf ≤ buf.length ∧ ∃ result, parseCommandSlices utf8 buf = .ok result ∧
    ∀ args n, result = some (args, n) → n ≤ buf.length ∧ Command utf8 false args (buf.take n)

/-- The header of an array at the front announces no more arguments than there are bytes, and
    as many slices have room; and if a lax command is at the front, it is a command. -/
def Tame (utf8 : Bytes → Bool) (buf : Bytes) : Prop :=
  (∀ count, Announces buf count → count ≤ buf.length ∧ 16 * count < 2 ^ 63) ∧
    ∀ args bytes, bytes <+: buf → Command utf8 true args bytes → Command utf8 false args bytes

theorem safe_iff_tame (utf8 : Bytes → Bool) (buf : Bytes) : Safe utf8 buf ↔ Tame utf8 buf := by
  constructor
  · rintro ⟨few, result, parsed, sound⟩
    have announced : ∀ count, Announces buf count → count ≤ buf.length ∧ 16 * count < 2 ^ 63 := by
      intro count header
      rw [reserved_eq header] at few
      refine ⟨few, ?_⟩
      by_contra many
      obtain ⟨panic, failed⟩ := parseCommandSlices_eq_error.mpr ⟨count, header, many⟩
      cases parsed.symm.trans failed
    refine ⟨announced, fun args bytes front lax => ?_⟩
    obtain ⟨header, pieces, length, -, rfl⟩ := id lax
    have room := (announced _ ⟨header, length, (List.prefix_append _ _).trans front⟩).2
    have taken := parseCommandSlices_eq_ok.mpr ⟨room, _, lax, front, rfl⟩
    have strict := (sound args _ (Except.ok.inj (parsed.symm.trans taken))).2
    rwa [← List.prefix_iff_eq_take.mp front] at strict
  · rintro ⟨announced, strict⟩
    have few : reserved utf8 buf ≤ buf.length := by
      by_cases silent : ∀ count, ¬ Announces buf count
      · rw [reserved_silent silent]
        exact Nat.zero_le _
      · obtain ⟨count, header⟩ := not_forall_not.mp silent
        rw [reserved_eq header]
        exact (announced count header).1
    refine ⟨few, ?_⟩
    cases parsed : parseCommandSlices utf8 buf with
    | error panic =>
      obtain ⟨count, header, many⟩ := parseCommandSlices_eq_error.mp ⟨panic, parsed⟩
      exact absurd (announced count header).2 many
    | ok result =>
      refine ⟨result, rfl, ?_⟩
      rintro args n rfl
      obtain ⟨-, bytes, lax, front, rfl⟩ := parseCommandSlices_eq_ok.mp parsed
      rw [← List.prefix_iff_eq_take.mp front]
      exact ⟨front.length_le, strict args bytes front lax⟩

/-- The header alone asks for more slices than there can be. -/
theorem not_safe_header : ¬ Safe (fun _ => true) (42 :: decimal (2 ^ 63 - 1) ++ crlf) := by
  rintro ⟨-, result, parsed, -⟩
  have failed : parseCommandSlices (fun _ => true) (42 :: decimal (2 ^ 63 - 1) ++ crlf) =
      .error .capacityOverflow := rfl
  cases parsed.symm.trans failed

end HoloSphere.Transport
