import FalconLink.Model.Http.UrlCoding

/-! # What is encoded is decoded -/

namespace FalconLink.Http

/-! ## Encodings -/

/-- The digit stands for the value, in either letter case. -/
def IsHexDigit (value digit : UInt8) : Prop :=
  (ascii "0123456789ABCDEF")[value.toNat]? = some digit ∨
    (ascii "0123456789abcdef")[value.toNat]? = some digit

/-- `Encodes s t`: each byte of `s` is written to `t` as itself, as `%` and its two digits, or, when
it is a space, as `+`. -/
inductive Encodes : Bytes → Bytes → Prop where
  | nil : Encodes [] []
  | literal {s t : Bytes} (c : UInt8) (hpercent : c ≠ 37) (hplus : c ≠ 43) (h : Encodes s t) :
      Encodes (c :: s) (c :: t)
  | percent {s t : Bytes} (c high low : UInt8) (hhigh : IsHexDigit (c / 16) high)
      (hlow : IsHexDigit (c % 16) low) (h : Encodes s t) : Encodes (c :: s) (37 :: high :: low :: t)
  | plus {s t : Bytes} (h : Encodes s t) : Encodes (32 :: s) (43 :: t)

/-! ## Decoding -/

theorem urlDecode_percent (value : Bytes) :
    urlDecode (37 :: value) = extractHex (value.take 2) :: urlDecode (value.drop 2) := by
  match value with
  | [] => rfl
  | [a] => rfl
  | a :: b :: value => rfl

theorem urlDecode_cons {c : UInt8} (h : c ≠ 37) (value : Bytes) :
    urlDecode (c :: value) = (if c = 43 then 32 else c) :: urlDecode value := by
  rw [urlDecode.eq_def]
  split <;> simp_all

/-- No access of the loop is out of range. -/
theorem urlDecodeFrom_eq (value : Bytes) (i : ℕ) (result : Bytes) :
    urlDecodeFrom value i result = some (result ++ urlDecode (value.drop i)) := by
  fun_induction urlDecodeFrom value i result with
  | case1 i result h hother ih =>
      rw [ih, List.drop_eq_getElem_cons h, urlDecode_cons hother.1, if_neg hother.2]
      simp
  | case2 i result h hspecial hpercent digits hdigits ih =>
      obtain ⟨-, hdigits⟩ := Option.ite_none_right_eq_some.mp hdigits
      obtain rfl := Option.some.inj hdigits
      rw [ih, List.drop_eq_getElem_cons h, hpercent, urlDecode_percent, List.drop_drop,
        List.append_assoc]
      rfl
  | case3 i result h hspecial hpercent hnone =>
      have hinside : i + 1 ≤ value.length := h
      simp [substr, hinside] at hnone
  | case4 i result h hspecial hpercent ih =>
      have hplus : value[i] = 43 := by
        by_contra hplus
        exact hspecial ⟨hpercent, hplus⟩
      rw [ih, List.drop_eq_getElem_cons h, urlDecode_cons hpercent, if_pos hplus]
      simp
  | case5 i result h =>
      rw [List.drop_eq_nil_of_le (by omega)]
      simp [urlDecode]

/-! ## Hexadecimal digits -/

theorem IsHexDigit.toNat_lt {value digit : UInt8} (h : IsHexDigit value digit) :
    value.toNat < 16 := by
  cases h with
  | inl h => exact (List.getElem?_eq_some_iff.mp h).1
  | inr h => exact (List.getElem?_eq_some_iff.mp h).1

theorem isHexDigit_spec :
    ∀ value < 16, ∀ digit ∈ (ascii "0123456789ABCDEF")[value]?.toList ++
      (ascii "0123456789abcdef")[value]?.toList,
      hexDigit digit = some value.toUInt8 ∧ isSpace digit = false ∧ digit ≠ 43 ∧ digit ≠ 45 := by
  decide +kernel

theorem IsHexDigit.spec {value digit : UInt8} (h : IsHexDigit value digit) :
    hexDigit digit = some value ∧ isSpace digit = false ∧ digit ≠ 43 ∧ digit ≠ 45 := by
  have hspec := isHexDigit_spec value.toNat h.toNat_lt digit (by
    cases h with
    | inl h => simp [h]
    | inr h => simp [h])
  simpa using hspec

/-- The extraction reads two digits in either letter case. -/
theorem extractHex_digits {c high low : UInt8} (hhigh : IsHexDigit (c / 16) high)
    (hlow : IsHexDigit (c % 16) low) : extractHex [high, low] = c := by
  obtain ⟨hhighValue, hnotSpace, hnotPlus, hnotMinus⟩ := hhigh.spec
  have hvalue : c / 16 * 16 + c % 16 = c := by
    apply UInt8.toNat_inj.mp
    have hc := c.toNat_lt
    simp only [UInt8.toNat_add, UInt8.toNat_mul, UInt8.toNat_div, UInt8.toNat_mod]
    simp only [UInt8.reduceToNat]
    omega
  have hread : readHexDigits 0 [high, low] = c := by
    simp [readHexDigits, hhighValue, hlow.spec.1, hvalue]
  have hdrop : [high, low].dropWhile isSpace = [high, low] := by
    rw [List.dropWhile_cons, hnotSpace]
    rfl
  rw [extractHex, hdrop]
  split
  · simp_all
  · simp_all
  · exact hread

/-- Whatever way each byte is written, it is read back. -/
theorem Encodes.urlDecode_eq {s t : Bytes} (h : Encodes s t) : urlDecode t = s := by
  induction h with
  | nil => rfl
  | literal c hpercent hplus h ih => rw [urlDecode_cons hpercent, if_neg hplus, ih]
  | percent c high low hhigh hlow h ih =>
      rw [urlDecode_percent]
      simp only [List.take_succ_cons, List.take_zero, List.drop_succ_cons, List.drop_zero]
      rw [extractHex_digits hhigh hlow, ih]
  | plus h ih => rw [urlDecode_cons (by decide), if_pos rfl, ih]

/-! ## Encoding -/

def upperHexDigit (value : UInt8) : UInt8 :=
  (ascii "0123456789ABCDEF").getD value.toNat 0

/-- What the encoder writes for a byte. -/
def encoded (c : UInt8) : Bytes :=
  if isAccepted c then [c] else [37, upperHexDigit (c / 16), upperHexDigit (c % 16)]

theorem isHexDigit_upper {value : UInt8} (h : value.toNat < 16) :
    IsHexDigit value (upperHexDigit value) := by
  left
  rw [upperHexDigit, List.getD_eq_getElem?_getD, List.getElem?_eq_getElem h]
  rfl

theorem highDigit_lt (c : UInt8) : (c / 16).toNat < 16 := by
  have hc := c.toNat_lt
  simp only [UInt8.toNat_div, UInt8.reduceToNat]
  omega

theorem lowDigit_lt (c : UInt8) : (c % 16).toNat < 16 := by
  simp only [UInt8.toNat_mod, UInt8.reduceToNat]
  omega

def upperDigits (n : ℕ) : Bytes :=
  toUpper ((Nat.toDigits 16 n).map fun c => c.toNat.toUInt8)

theorem padded_lt : ∀ n < 256, List.replicate (2 - (upperDigits n).length) 48 ++ upperDigits n =
    [upperHexDigit (n / 16).toUInt8, upperHexDigit (n % 16).toUInt8] := by
  decide +kernel

/-- With the width 2 and the fill 0, every byte is written with two digits. -/
theorem padded_byte (c : UInt8) :
    List.replicate (2 - (upperDigits c.toNat).length) 48 ++ upperDigits c.toNat =
      [upperHexDigit (c / 16), upperHexDigit (c % 16)] := by
  have hhigh : (c.toNat / 16).toUInt8 = c / 16 := by
    apply UInt8.toNat_inj.mp
    simp only [UInt8.toNat_div, UInt8.reduceToNat, Nat.toUInt8, UInt8.toNat_ofNat']
    exact Nat.mod_eq_of_lt (Nat.lt_of_le_of_lt (Nat.div_le_self _ _) c.toNat_lt)
  have hlow : (c.toNat % 16).toUInt8 = c % 16 := by
    apply UInt8.toNat_inj.mp
    simp only [UInt8.toNat_mod, UInt8.reduceToNat, Nat.toUInt8, UInt8.toNat_ofNat']
    omega
  rw [padded_lt c.toNat c.toNat_lt, hhigh, hlow]

/-- The format of the stream between two bytes. -/
structure Ready (escaped : OStream) : Prop where
  hex : escaped.hex = true
  uppercase : escaped.uppercase = false
  width : escaped.width = 0
  fill : escaped.fill = 48

theorem Ready.encodeByte {escaped : OStream} (h : Ready escaped) (c : UInt8) :
    Ready (encodeByte escaped c) ∧ (Http.encodeByte escaped c).out = escaped.out ++ encoded c := by
  obtain ⟨hhex, huppercase, hwidth, hfill⟩ := h
  unfold Http.encodeByte encoded
  by_cases haccepted : isAccepted c = true
  · rw [if_pos haccepted, if_pos haccepted]
    refine ⟨⟨hhex, huppercase, rfl, hfill⟩, ?_⟩
    simp [OStream.putChar, OStream.insert, hwidth]
  · rw [if_neg haccepted, if_neg haccepted]
    refine ⟨⟨hhex, rfl, rfl, hfill⟩, ?_⟩
    have hdigits := padded_byte c
    unfold upperDigits at hdigits
    simp [OStream.putInt, OStream.putChar, OStream.insert, OStream.digits, hhex, hwidth, hfill,
      hdigits]

theorem foldl_encodeByte (value : Bytes) {escaped : OStream} (h : Ready escaped) :
    (value.foldl encodeByte escaped).out = escaped.out ++ value.flatMap encoded := by
  induction value generalizing escaped with
  | nil => simp
  | cons c value ih =>
      obtain ⟨hready, hout⟩ := h.encodeByte c
      rw [List.foldl_cons, ih hready, hout, List.flatMap_cons, List.append_assoc]

theorem urlEncode_eq (value : Bytes) : urlEncode value = value.flatMap encoded :=
  foldl_encodeByte value ⟨rfl, rfl, rfl, rfl⟩

theorem encodes_flatMap (value : Bytes) : Encodes value (value.flatMap encoded) := by
  induction value with
  | nil => exact .nil
  | cons c value ih =>
      rw [List.flatMap_cons, encoded]
      by_cases haccepted : isAccepted c = true
      · rw [if_pos haccepted]
        refine .literal c ?_ ?_ ih
        · rintro rfl
          exact absurd haccepted (by decide)
        · rintro rfl
          exact absurd haccepted (by decide)
      · rw [if_neg haccepted]
        exact .percent c _ _ (isHexDigit_upper (highDigit_lt c)) (isHexDigit_upper (lowDigit_lt c)) ih

theorem isAlnum_upperHexDigit : ∀ value < 16, isAlnum (upperHexDigit (Nat.toUInt8 value)) = true := by
  decide

theorem encoded_alphabet (c : UInt8) :
    ∀ b ∈ encoded c, isAlnum b = true ∨ b ∈ ascii "-_.~%" := by
  intro b hb
  have hdigit : ∀ value : UInt8, value.toNat < 16 → isAlnum (upperHexDigit value) = true := by
    intro value hvalue
    simpa using isAlnum_upperHexDigit value.toNat hvalue
  unfold encoded at hb
  by_cases haccepted : isAccepted c = true
  · rw [if_pos haccepted, List.mem_singleton] at hb
    subst hb
    simp only [isAccepted, Bool.or_eq_true, decide_eq_true_eq] at haccepted
    rcases haccepted with (((halnum | rfl) | rfl) | rfl) | rfl
    · exact .inl halnum
    all_goals exact .inr (by decide)
  · rw [if_neg haccepted] at hb
    simp only [List.mem_cons, List.not_mem_nil, or_false] at hb
    rcases hb with rfl | rfl | rfl
    · exact .inr (by decide)
    · exact .inl (hdigit _ (highDigit_lt c))
    · exact .inl (hdigit _ (lowDigit_lt c))

/-! ## Both together -/

/-- Every encoding of a text is decoded to it, the encoder writes one with the accepted bytes
only, and the decoder stays within every text. -/
theorem urlDecode_inverse (s : Bytes) :
    (∀ t, Encodes s t → urlDecode t = s) ∧
      Encodes s (urlEncode s) ∧
      (∀ b ∈ urlEncode s, isAlnum b = true ∨ b ∈ ascii "-_.~%") ∧
      urlDecode (urlEncode s) = s ∧
      urlDecodeFrom s 0 [] = some (urlDecode s) := by
  have hencodes : Encodes s (urlEncode s) := urlEncode_eq s ▸ encodes_flatMap s
  refine ⟨fun t h => h.urlDecode_eq, hencodes, ?_, hencodes.urlDecode_eq, urlDecodeFrom_eq s 0 []⟩
  intro b hb
  rw [urlEncode_eq] at hb
  obtain ⟨c, -, hc⟩ := List.mem_flatMap.mp hb
  exact encoded_alphabet c b hc

end FalconLink.Http
