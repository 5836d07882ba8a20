/-!
# Whole numbers as text

Decimal numerals as the option values and addresses write them: ASCII digits with an optional
sign, no blanks and no digit separators. `natural? limit` reads a numeral without a minus sign,
`integer? low high` one with either sign; both refuse what lies outside the stated range.
-/

namespace ImagePipeline.Text

def digitValue? (c : Char) : Option Nat :=
  if '0' ≤ c ∧ c ≤ '9' then some (c.toNat - '0'.toNat) else none

def hexValue? (c : Char) : Option Nat :=
  if '0' ≤ c ∧ c ≤ '9' then some (c.toNat - '0'.toNat)
  else if 'a' ≤ c ∧ c ≤ 'f' then some (c.toNat - 'a'.toNat + 10)
  else if 'A' ≤ c ∧ c ≤ 'F' then some (c.toNat - 'A'.toNat + 10)
  else none

def digitsOnto? (base : Nat) (value? : Char → Option Nat) : Nat → List Char → Option Nat
  | acc, [] => some acc
  | acc, c :: cs => do
    let d ← value? c
    digitsOnto? base value? (acc * base + d) cs

def digits? (cs : List Char) : Option Nat :=
  if cs.isEmpty then none else digitsOnto? 10 digitValue? 0 cs

/-- Reads a decimal numeral up to `limit`, with an optional plus sign. -/
def natural? (limit : Nat) (cs : List Char) : Option Nat := do
  let n ← match cs with
    | '+' :: rest => digits? rest
    | _ => digits? cs
  if n ≤ limit then some n else none

def integer? (low high : Int) (cs : List Char) : Option Int := do
  let i ← match cs with
    | '-' :: rest => (digits? rest).map fun n => -(n : Int)
    | '+' :: rest => (digits? rest).map Int.ofNat
    | _ => (digits? cs).map Int.ofNat
  if low ≤ i ∧ i ≤ high then some i else none

def uint32? (text : String) : Option UInt32 :=
  (natural? 4294967295 text.toList).map UInt32.ofNat

def int32? (text : String) : Option Int :=
  integer? (-2147483648) 2147483647 text.toList

/-- The decimal digits of a natural number, most significant first. -/
def decimalDigits (n : Nat) : List Char := Nat.toDigits 10 n

def decimal (n : Nat) : String := String.ofList (decimalDigits n)

/-- The decimal numeral of an integer, with a minus sign when it is negative. -/
def signedDecimal (i : Int) : String :=
  if i < 0 then "-" ++ decimal i.natAbs else decimal i.natAbs

def hexadecimal (n : Nat) : String := String.ofList (Nat.toDigits 16 n)

def hexDigit (n : Nat) : Char :=
  if n < 10 then Char.ofNat ('0'.toNat + n) else Char.ofNat ('a'.toNat + (n - 10))

/-- The `width` lowest hexadecimal digits of a number, most significant first. -/
def hexDigits : Nat → Nat → List Char
  | 0, _ => []
  | width + 1, n => hexDigits width (n / 16) ++ [hexDigit (n % 16)]

def fixedHex (width n : Nat) : String := String.ofList (hexDigits width n)

end ImagePipeline.Text
