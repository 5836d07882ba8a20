import ImagePipeline.Colour
import ImagePipeline.Text.Numeral
import Mathlib.Data.UInt
import Mathlib.Tactic.IntervalCases

/-!
# Numerals read back

A number that is written in decimal is read back, with and without a sign (`uint32?_decimal`,
`int32?_signedDecimal`), and so is a colour that is written in six hexadecimal digits
(`Rgb.ofHex?_toHex`). Numerals are made of digits and a minus sign alone.
-/

namespace ImagePipeline.Text

/-! ### Decimal digits -/

theorem digitsOnto?_append (base : Nat) (value? : Char → Option Nat) (acc : Nat)
    (first second : List Char) :
    digitsOnto? base value? acc (first ++ second) =
      (digitsOnto? base value? acc first).bind fun n => digitsOnto? base value? n second := by
  induction first generalizing acc with
  | nil => rfl
  | cons c rest ih =>
    simp only [List.cons_append, digitsOnto?]
    cases value? c with
    | none => rfl
    | some d => exact ih (acc * base + d)

theorem digitValue?_digitChar {d : Nat} (h : d < 10) : digitValue? d.digitChar = some d := by
  interval_cases d <;> rfl

theorem digitsOnto?_decimalDigits (n : Nat) :
    digitsOnto? 10 digitValue? 0 (decimalDigits n) = some n := by
  induction n using Nat.strongRecOn with
  | ind n ih =>
    rw [decimalDigits, Nat.toDigits_eq_if (by omega)]
    split
    · rename_i hsmall
      simp [digitsOnto?, digitValue?_digitChar hsmall]
    · have hlead := ih (n / 10) (by omega)
      rw [decimalDigits] at hlead
      have hlast : digitValue? (n % 10).digitChar = some (n % 10) :=
        digitValue?_digitChar (Nat.mod_lt n (by omega))
      have hvalue : n / 10 * 10 + n % 10 = n := by omega
      rw [digitsOnto?_append, hlead]
      simp [digitsOnto?, hlast, hvalue]

theorem decimalDigits_ne_nil (n : Nat) : decimalDigits n ≠ [] := Nat.toDigits_ne_nil

theorem isDigit_of_mem_decimalDigits {n : Nat} {c : Char} (h : c ∈ decimalDigits n) :
    c.isDigit = true :=
  Nat.isDigit_of_mem_toDigits (by omega) (Nat.le_refl 10) h

theorem digits?_decimalDigits (n : Nat) : digits? (decimalDigits n) = some n := by
  rw [digits?, if_neg (by simpa using decimalDigits_ne_nil n), digitsOnto?_decimalDigits]

/-! ### Decimal numerals -/

theorem natural?_decimalDigits {limit n : Nat} (h : n ≤ limit) :
    natural? limit (decimalDigits n) = some n := by
  have hread := digits?_decimalDigits n
  unfold natural?
  split
  · rename_i rest hplus
    have hdigit : '+'.isDigit = true :=
      isDigit_of_mem_decimalDigits (hplus ▸ List.mem_cons_self)
    exact absurd hdigit (by decide)
  · simp [hread, h]

theorem uint32?_decimal (n : UInt32) : uint32? (decimal n.toNat) = some n := by
  have hrange : n.toNat ≤ 4294967295 := Nat.le_of_lt_succ n.toNat_lt
  rw [uint32?, decimal, String.toList_ofList, natural?_decimalDigits hrange, Option.map_some,
    UInt32.ofNat_toNat]

theorem decimal_injective : Function.Injective fun n : UInt32 => decimal n.toNat := by
  intro m n h
  have hread := congrArg uint32? h
  simpa [uint32?_decimal] using hread

theorem integer?_decimalDigits {low high : Int} {n : Nat} (h : low ≤ n ∧ n ≤ high) :
    integer? low high (decimalDigits n) = some (n : Int) := by
  have hread := digits?_decimalDigits n
  have hsign : ∀ c ∈ decimalDigits n, c.isDigit = true := fun _ => isDigit_of_mem_decimalDigits
  unfold integer?
  split
  · rename_i rest hminus
    exact absurd (hsign '-' (hminus ▸ List.mem_cons_self)) (by decide)
  · rename_i rest hplus
    exact absurd (hsign '+' (hplus ▸ List.mem_cons_self)) (by decide)
  · simp [hread, h]

theorem int32?_signedDecimal (i : Int32) : int32? (signedDecimal i.toInt) = some i.toInt := by
  have hlow : -2147483648 ≤ i.toInt := i.le_toInt
  have hhigh : i.toInt ≤ 2147483647 := i.toInt_le
  rw [int32?, signedDecimal]
  split
  · rename_i hnegative
    have habs : -(i.toInt.natAbs : Int) = i.toInt := by omega
    have htext : ("-" ++ decimal i.toInt.natAbs).toList = '-' :: decimalDigits i.toInt.natAbs := by
      simp [decimal]
    rw [htext]
    simp only [integer?, digits?_decimalDigits, Option.pure_def, Option.map_some,
      Option.bind_eq_bind, Option.bind_some, habs, hlow, hhigh, and_self, if_true]
  · have habs : (i.toInt.natAbs : Int) = i.toInt := by omega
    rw [decimal, String.toList_ofList, integer?_decimalDigits (by omega), habs]

theorem signedDecimal_injective : Function.Injective fun i : Int32 => signedDecimal i.toInt := by
  intro i j h
  have hread := congrArg int32? h
  simp only [int32?_signedDecimal, Option.some.injEq] at hread
  exact Int32.toInt_inj.mp hread

theorem mem_signedDecimal {i : Int} {c : Char} (h : c ∈ (signedDecimal i).toList) :
    c = '-' ∨ c.isDigit = true := by
  rw [signedDecimal] at h
  split at h
  · simp only [decimal, String.toList_append, String.toList_ofList, List.mem_append] at h
    rcases h with h | h
    · exact .inl (List.mem_singleton.mp h)
    · exact .inr (isDigit_of_mem_decimalDigits h)
  · rw [decimal, String.toList_ofList] at h
    exact .inr (isDigit_of_mem_decimalDigits h)

/-! ### Hexadecimal digits -/

theorem hexValue?_hexDigit {d : Nat} (h : d < 16) : hexValue? (hexDigit d) = some d := by
  interval_cases d <;> rfl

theorem hexDigits_two (n : Nat) : hexDigits 2 n = [hexDigit (n / 16 % 16), hexDigit (n % 16)] := rfl

theorem mem_fixedHex {width n : Nat} {c : Char} (h : c ∈ (fixedHex width n).toList) :
    (hexValue? c).isSome = true := by
  rw [fixedHex, String.toList_ofList] at h
  induction width generalizing n with
  | zero => cases h
  | succ width ih =>
    rw [hexDigits, List.mem_append, List.mem_singleton] at h
    rcases h with h | rfl
    · exact ih h
    · rw [hexValue?_hexDigit (Nat.mod_lt n (by omega))]
      rfl

end ImagePipeline.Text

namespace ImagePipeline.Rgb

theorem hexByte?_hexDigits (b : UInt8) :
    hexByte? (Text.hexDigit (b.toNat / 16 % 16)) (Text.hexDigit (b.toNat % 16)) = some b := by
  have hhigh : b.toNat / 16 % 16 < 16 := Nat.mod_lt _ (by omega)
  have hlow : b.toNat % 16 < 16 := Nat.mod_lt _ (by omega)
  have hb := b.toNat_lt
  have hvalue : b.toNat / 16 % 16 * 16 + b.toNat % 16 = b.toNat := by omega
  simp only [hexByte?, Text.hexValue?_hexDigit hhigh, Text.hexValue?_hexDigit hlow,
    Option.bind_eq_bind, Option.bind_some, Option.pure_def, hvalue, UInt8.ofNat_toNat]

theorem ofHex?_toHex (c : Rgb) : ofHex? c.toHex = some c := by
  have htext : c.toHex.toList = Text.hexDigits 2 c.red.toNat ++ Text.hexDigits 2 c.green.toNat
      ++ Text.hexDigits 2 c.blue.toNat := by
    simp only [toHex, Text.fixedHex, String.toList_append, String.toList_ofList]
  rw [ofHex?, htext]
  simp [Text.hexDigits_two, hexByte?_hexDigits]

theorem toHex_injective : Function.Injective toHex := by
  intro c d h
  have hread := congrArg ofHex? h
  simpa [ofHex?_toHex] using hread

theorem mem_toHex {c : Rgb} {x : Char} (h : x ∈ c.toHex.toList) :
    (Text.hexValue? x).isSome = true := by
  rw [toHex, String.toList_append, String.toList_append, List.mem_append, List.mem_append] at h
  rcases h with (h | h) | h <;> exact Text.mem_fixedHex h

end ImagePipeline.Rgb
