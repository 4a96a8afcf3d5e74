import FalconLink.Model.Http.Utils

/-! # Encoding and decoding of URLs -/

namespace FalconLink.Http

/-! ## Output streams -/

/-- `std::ostringstream` with its format: the base and the letter case stay as they are set, the
width holds for one insertion. -/
structure OStream where
  out : Bytes := []
  hex : Bool := false
  uppercase : Bool := false
  width : ℕ := 0
  fill : UInt8 := 32
  deriving DecidableEq, Repr

namespace OStream

/-- What is inserted is filled up on its left. -/
def insert (os : OStream) (str : Bytes) : OStream :=
  { os with out := os.out ++ List.replicate (os.width - str.length) os.fill ++ str, width := 0 }

def putChar (os : OStream) (c : UInt8) : OStream :=
  os.insert [c]

def digits (os : OStream) (n : ℕ) : Bytes :=
  let str := (Nat.toDigits (if os.hex then 16 else 10) n).map fun c => c.toNat.toUInt8
  if os.uppercase then toUpper str else str

def putInt (os : OStream) (n : ℕ) : OStream :=
  os.insert (os.digits n)

end OStream

/-! ## Encoding -/

/-- `isalnum` in the C locale. -/
def isAlnum (c : UInt8) : Bool :=
  (48 ≤ c && c ≤ 57) || (65 ≤ c && c ≤ 90) || (97 ≤ c && c ≤ 122)

/-- Alphanumeric and other accepted bytes, `-`, `_`, `.` and `~`. -/
def isAccepted (c : UInt8) : Bool :=
  isAlnum c || c = 45 || c = 95 || c = 46 || c = 126

def encodeByte (escaped : OStream) (c : UInt8) : OStream :=
  if isAccepted c then escaped.putChar c
  else
    let escaped := { escaped with uppercase := true }
    let escaped := escaped.putChar 37
    let escaped := { escaped with width := 2 }
    let escaped := escaped.putInt c.toNat
    { escaped with uppercase := false }

def urlEncode (value : Bytes) : Bytes :=
  (value.foldl encodeByte { fill := 48, hex := true }).out

/-! ## Decoding -/

/-- `std::string::substr`. Behind the end it throws `std::out_of_range`. -/
def substr (str : Bytes) (pos count : ℕ) : Option Bytes :=
  if pos ≤ str.length then some ((str.drop pos).take count) else none

/-- The loop of `urlDecode` as it stands in the source, from the index `i`. It has no result when
an access is out of range. -/
def urlDecodeFrom (value : Bytes) (i : ℕ) (result : Bytes) : Option Bytes :=
  if h : i < value.length then
    if value[i] ≠ 37 ∧ value[i] ≠ 43 then urlDecodeFrom value (i + 1) (result ++ [value[i]])
    else if value[i] = 37 then
      match substr value (i + 1) 2 with
      | some digits => urlDecodeFrom value (i + 3) (result ++ [extractHex digits])
      | none => none
    else urlDecodeFrom value (i + 1) (result ++ [32])
  else some result
termination_by value.length - i

end FalconLink.Http
