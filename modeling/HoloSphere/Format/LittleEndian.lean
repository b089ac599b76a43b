import Mathlib.Algebra.Group.Nat.Defs
import Mathlib.Data.Nat.Basic

/-! # Bytes of fixed-width numbers

A natural number as a fixed count of bytes, least significant first.  Writing
drops what does not fit, as a narrowing cast does.
-/

namespace HoloSphere.Format

abbrev Bytes := List UInt8

/-- The bytes of a byte-string literal or of a name. -/
def utf8 (text : String) : Bytes := text.toUTF8.toList

def toLe : Nat → Nat → Bytes
  | 0, _ => []
  | width + 1, n => UInt8.ofNat n :: toLe width (n / 256)

def fromLe : Bytes → Nat
  | [] => 0
  | byte :: rest => byte.toNat + 256 * fromLe rest

@[simp] theorem length_toLe : (toLe width n).length = width := by
  induction width generalizing n with
  | zero => rfl
  | succ width ih => simp [toLe, ih]

theorem fromLe_toLe : fromLe (toLe width n) = n % 256 ^ width := by
  induction width generalizing n with
  | zero => simp [toLe, fromLe, Nat.mod_one]
  | succ width ih =>
    have low : (UInt8.ofNat n).toNat = n % 256 := UInt8.toNat_ofNat
    rw [toLe, fromLe, ih, low, Nat.pow_succ', Nat.mod_mul]

theorem fromLe_toLe_of_lt (fits : n < 256 ^ width) : fromLe (toLe width n) = n := by
  rw [fromLe_toLe, Nat.mod_eq_of_lt fits]

/-- A field of a record is read back whatever stands around it. -/
theorem take_drop_field (pre field after : Bytes) :
    ((pre ++ (field ++ after)).drop pre.length).take field.length = field := by
  rw [List.drop_left, List.take_left]

end HoloSphere.Format
