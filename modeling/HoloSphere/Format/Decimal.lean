import HoloSphere.Format.LittleEndian
import Mathlib.Data.Nat.Digits.Defs

/-! # Decimal numbers as bytes

What a number prints as, and what is read as one: digits, for an `i64` after an optional sign.
-/

namespace HoloSphere.Format
open List Option UInt8

def decimal (n : Nat) : Bytes :=
  if n = 0 then [48] else (Nat.digits 10 n).reverse.map fun digit => ofNat (48 + digit)

def decimalInt : Int → Bytes
  | .ofNat n => decimal n
  | .negSucc n => 45 :: decimal (n + 1)

def pushDigit (n : Nat) (byte : UInt8) : Option Nat :=
  if 48 ≤ byte ∧ byte ≤ 57 then some (10 * n + (byte.toNat - 48)) else none

def parseDigits (text : Bytes) : Option Nat :=
  if text = [] then none else text.foldlM pushDigit 0

def parseI64 : Bytes → Option Int
  | 45 :: text => do
    let n ← parseDigits text
    if n ≤ 2 ^ 63 then some (-n) else none
  | text => do
    let n ← parseDigits (if text.head? = some 43 then text.tail else text)
    if n < 2 ^ 63 then some n else none

theorem pushDigit_ofNat (n : Nat) (small : d < 10) :
    pushDigit n (ofNat (48 + d)) = some (10 * n + d) := by
  have val : (ofNat (48 + d)).toNat = 48 + d := by
    rw [toNat_ofNat', Nat.mod_eq_of_lt (by omega)]
  have within : 48 ≤ ofNat (48 + d) ∧ ofNat (48 + d) ≤ 57 := by
    rw [le_iff_toNat_le, le_iff_toNat_le, val]
    exact ⟨by simp, by simp; omega⟩
  rw [pushDigit, if_pos within, val, Nat.add_sub_cancel_left]

theorem foldlM_pushDigit (small : ∀ d ∈ digits, d < 10) :
    (digits.reverse.map fun digit => ofNat (48 + digit)).foldlM pushDigit 0 =
      some (Nat.ofDigits 10 digits) := by
  induction digits with
  | nil => rfl
  | cons digit digits ih =>
    have later := ih (forall_mem_cons.mp small).2
    rw [reverse_cons, map_append, foldlM_append, later]
    have last := pushDigit_ofNat (Nat.ofDigits 10 digits) (small digit mem_cons_self)
    simp only [map_cons, map_nil, bind_eq_bind, bind_some,
      foldlM_cons, foldlM_nil, last, Nat.ofDigits_cons]
    exact congrArg some (Nat.add_comm _ _)

theorem parseDigits_decimal (n : Nat) : parseDigits (decimal n) = some n := by
  by_cases zero : n = 0
  · rw [zero]
    rfl
  · have some_digit : decimal n ≠ [] := by
      rw [decimal, if_neg zero]
      simpa using Nat.digits_ne_nil_iff_ne_zero.mpr zero
    rw [parseDigits, if_neg some_digit, decimal, if_neg zero, foldlM_pushDigit, Nat.ofDigits_digits]
    exact fun d mem => Nat.digits_lt_base (by omega) mem

theorem parseDigits_mem (parsed : parseDigits text = some n) (mem : byte ∈ text) :
    48 ≤ byte ∧ byte ≤ 57 := by
  rw [parseDigits] at parsed
  split at parsed
  · cases parsed
  · clear * - parsed mem
    generalize 0 = start at parsed
    induction text generalizing start with
    | nil => cases mem
    | cons fst text ih =>
      obtain ⟨next, pushed, rest⟩ := bind_eq_some_iff.mp parsed
      rcases mem_cons.mp mem with rfl | later
      · rw [pushDigit] at pushed
        split at pushed
        · assumption
        · cases pushed
      · exact ih later next rest

/-- Digits alone have no sign. -/
theorem parseI64_of_digits (parsed : parseDigits text = some n) (fits : n < 2 ^ 63) :
    parseI64 text = some n := by
  cases text with
  | nil => cases parsed
  | cons fst text =>
    have digit := parseDigits_mem parsed mem_cons_self
    have minus : fst ≠ 45 := by rintro rfl; exact absurd digit (by decide)
    have plus : fst ≠ 43 := by rintro rfl; exact absurd digit (by decide)
    rw [parseI64]
    · simpa [plus, parsed] using fits
    · exact fun _ same => minus (cons.inj same).1

theorem parseI64_decimalInt (low : -2 ^ 63 ≤ val) (high : val < 2 ^ 63) :
    parseI64 (decimalInt val) = some val := by
  cases val with
  | ofNat n => exact parseI64_of_digits (parseDigits_decimal n) (Int.ofNat_lt.mp high)
  | negSucc n =>
    have fits : n + 1 ≤ 2 ^ 63 := by omega
    simp only [decimalInt, parseI64, parseDigits_decimal, bind_eq_bind, bind_some, if_pos fits]
    rfl

theorem parseI64_no_cr (parsed : parseI64 text = some val) : 13 ∉ text := by
  intro mem
  have digit : ∀ {digits : Bytes} {n}, parseDigits digits = some n → 13 ∉ digits :=
    fun parsed mem => absurd (parseDigits_mem parsed mem) (by decide)
  rw [parseI64.eq_def] at parsed
  split at parsed
  · obtain ⟨n, digits, -⟩ := bind_eq_some_iff.mp parsed
    exact digit digits (mem_of_ne_of_mem (by decide) mem)
  · obtain ⟨n, digits, -⟩ := bind_eq_some_iff.mp parsed
    split at digits
    case isTrue plus =>
      obtain ⟨rest, rfl⟩ := head?_eq_some_iff.mp plus
      exact digit digits (mem_of_ne_of_mem (by decide) mem)
    case isFalse => exact digit digits mem

theorem le_parseI64 (parsed : parseI64 text = some val) : -2 ^ 63 ≤ val := by
  rw [parseI64.eq_def] at parsed
  split at parsed
  all_goals
    obtain ⟨n, -, bounded⟩ := bind_eq_some_iff.mp parsed
    split at bounded
    · cases bounded
      omega
    · cases bounded

example : parseI64 (decimalInt (-1205)) = some (-1205) := by decide

end HoloSphere.Format
