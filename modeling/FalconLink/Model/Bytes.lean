import Mathlib.Data.Nat.Notation

/-! # Byte strings and exceptional outcomes -/

namespace FalconLink

/-- `std::string` and `std::vector<unsigned char>` hold the same bytes here. -/
abbrev Bytes := List UInt8

/-- The bytes of an ASCII literal. -/
def ascii (s : String) : Bytes :=
  s.toList.map fun c => c.toNat.toUInt8

/-- `std::to_string` on an unsigned number. -/
def toDecimal (n : ℕ) : Bytes :=
  (Nat.toDigits 10 n).map fun c => c.toNat.toUInt8

/-- The ways in which a call can fail to return. -/
inductive Fault where
  /-- `std::filesystem::filesystem_error`. Nothing below the task of a reactor catches it. -/
  | filesystemError
  /-- A failed `assert`. -/
  | assertionFailed
  /-- An access through a null or dangling pointer. -/
  | invalidPointer
  /-- The call goes on for ever. -/
  | endless
  deriving DecidableEq, Repr

theorem toDecimal_map_char (n : ℕ) :
    (toDecimal n).map (fun b => Char.ofNat b.toNat) = Nat.toDigits 10 n := by
  rw [toDecimal, List.map_map]
  have hdigit : ∀ c ∈ Nat.toDigits 10 n, Char.ofNat c.toNat.toUInt8.toNat = c := by
    intro c hc
    have hrange := Nat.isDigit_of_mem_toDigits (by decide) (by decide) hc
    have hlt : c.toNat < 256 := by
      simp only [Char.isDigit, Bool.and_eq_true, decide_eq_true_eq] at hrange
      have hle : c.toNat ≤ 57 := UInt32.le_iff_toNat_le.mp hrange.2
      omega
    have hbyte : c.toNat.toUInt8.toNat = c.toNat := by
      rw [Nat.toUInt8, UInt8.toNat_ofNat', Nat.mod_eq_of_lt hlt]
    rw [hbyte, Char.ofNat_toNat]
  exact (List.map_congr_left hdigit).trans (List.map_id _)

/-- The number that decimal digits stand for. -/
def ofDecimal (digits : Bytes) : ℕ :=
  Nat.ofDigitChars 10 (digits.map fun b => Char.ofNat b.toNat) 0

theorem ofDecimal_toDecimal (n : ℕ) : ofDecimal (toDecimal n) = n := by
  rw [ofDecimal, toDecimal_map_char, Nat.ofDigitChars_ten_toDigits]

end FalconLink
