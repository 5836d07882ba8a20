import ImagePipeline.Text.Numeral

/-!
# Doubles as decimal text

A finite double is `mantissa · 2 ^ exponent` (`Binary64.parts`). `Binary64.shortest` finds the
fewest decimal digits that read back as the same double by exact arithmetic on natural numbers:
on each decimal grid it tries the two neighbours of the value. `Binary64.text` writes the digits
in positional notation, never with an exponent. `Binary64.read?` reads a decimal numeral with an
optional exponent, and the names of the infinities and of NaN.
-/

namespace ImagePipeline.Binary64

/-! ### Taking a double apart -/

def isNegative (x : Float) : Bool := x.toBits.toNat / Nat.pow 2 63 = 1

/-- The mantissa `m` and the binary exponent `q` of the magnitude `m · 2 ^ q` of a finite
double. -/
def parts (x : Float) : Nat × Int :=
  let field : Nat := x.toBits.toNat / Nat.pow 2 52 % Nat.pow 2 11
  let fraction : Nat := x.toBits.toNat % Nat.pow 2 52
  if field = 0 then (fraction, -1074) else (fraction + Nat.pow 2 52, Int.ofNat field - 1075)

/-! ### The fewest digits -/

structure Fraction where
  num : Nat
  den : Nat

def binaryFraction (n : Nat) (q : Int) : Fraction :=
  if q ≥ 0 then ⟨n * Nat.pow 2 q.toNat, 1⟩ else ⟨n, Nat.pow 2 (-q).toNat⟩

def Fraction.scaleDown (f : Fraction) (e : Int) : Fraction :=
  if e ≥ 0 then ⟨f.num, f.den * Nat.pow 10 e.toNat⟩
  else ⟨f.num * Nat.pow 10 (-e).toNat, f.den⟩

/-- The numbers that round to one double: the interval between the midpoints to its neighbours,
ends included when the mantissa is even. -/
structure Interval where
  low : Fraction
  high : Fraction
  closed : Bool

/-- The interval of a positive finite double. The lower neighbour of a power of two is only half
as far away as the upper one. -/
def interval (m : Nat) (q : Int) : Interval :=
  let narrow := m = Nat.pow 2 52 ∧ q > -1074
  { low := if narrow then binaryFraction (4 * m - 1) (q - 2) else binaryFraction (2 * m - 1) (q - 1)
    high := binaryFraction (2 * m + 1) (q - 1)
    closed := m % 2 = 0 }

def Interval.holds (i : Interval) (d : Nat) (e : Int) : Bool :=
  let low := i.low.scaleDown e
  let high := i.high.scaleDown e
  if i.closed then decide (low.num ≤ d * low.den) && decide (d * high.den ≤ high.num)
  else decide (low.num < d * low.den) && decide (d * high.den < high.num)

/-- The point of the grid of multiples of `10 ^ e` that lies in the interval, the one nearer to
the value when both neighbours do. -/
def onGrid? (value : Fraction) (i : Interval) (e : Int) : Option Nat :=
  let v := value.scaleDown e
  let below := v.num / v.den
  let above := below + 1
  match i.holds below e && decide (0 < below), i.holds above e with
  | true, true => some (if v.num * 2 ≤ (2 * below + 1) * v.den then below else above)
  | true, false => some below
  | false, true => some above
  | false, false => none

/-- The decimal exponent of the leading digit: the largest `k` with `10 ^ k` at most the value,
found downwards from `k` within `fuel` steps. -/
def leadingExponent (value : Fraction) : Nat → Int → Int
  | 0, k => k
  | fuel + 1, k =>
    let v := value.scaleDown k
    if v.den ≤ v.num then k else leadingExponent value fuel (k - 1)

def firstGrid (value : Fraction) (i : Interval) : Nat → Int → Nat × Int
  | 0, e => (0, e)
  | fuel + 1, e =>
    match onGrid? value i e with
    | some d => (d, e)
    | none => firstGrid value i fuel (e - 1)

/-- The digits `d` and exponent `e` of the shortest decimal `d · 10 ^ e` that reads back as the
positive finite double. The search starts above the leading digit, where only a value just under a
power of ten has a point. -/
def shortest (x : Float) : Nat × Int :=
  let (m, q) := parts x
  let value := binaryFraction m q
  firstGrid value (interval m q) 19 (leadingExponent value 640 309 + 1)

/-! ### Text -/

def positional (d : Nat) (e : Int) : List Char :=
  let digits := Text.decimalDigits d
  if e ≥ 0 then digits ++ List.replicate e.toNat '0'
  else
    let places := (-e).toNat
    if places < digits.length then
      digits.take (digits.length - places) ++ '.' :: digits.drop (digits.length - places)
    else '0' :: '.' :: (List.replicate (places - digits.length) '0' ++ digits)

/-- The text of a double: the fewest digits that read back, never an exponent, no point in a whole
number, a minus sign also on zero. -/
def text (x : Float) : String :=
  if x.isNaN then "NaN"
  else
    let sign := if isNegative x then "-" else ""
    if x.isInf then sign ++ "inf"
    else if x == 0 then sign ++ "0"
    else
      let (d, e) := shortest x
      sign ++ String.ofList (positional d e)

/-! ### Reading -/

def takeDigits (cs : List Char) : List Char × List Char :=
  cs.span fun c => (Text.digitValue? c).isSome

/-- The exponent of a numeral: `e` or `E`, an optional sign and at least one digit. -/
def exponent? : List Char → Option Int
  | [] => some 0
  | c :: cs =>
    if c = 'e' ∨ c = 'E' then
      match cs with
      | '-' :: rest => (Text.digits? rest).map fun n => -(n : Int)
      | '+' :: rest => (Text.digits? rest).map Int.ofNat
      | _ => (Text.digits? cs).map Int.ofNat
    else none

/-- The double nearest to `d · 10 ^ e`; a decimal point that stands more than 400 places outside
the digits is beyond the range of doubles. -/
def ofDecimal (d : Nat) (e : Int) : Float :=
  let size := (Text.decimalDigits d).length
  if d = 0 then 0
  else if e + size > 400 then 1 / 0
  else if e + size < -400 then 0
  else Float.ofScientific d (e < 0) e.natAbs

/-- Reads an unsigned numeral: digits with an optional point, at least one digit in all, and an
optional exponent. -/
def magnitude? (cs : List Char) : Option Float := do
  let (whole, rest) := takeDigits cs
  let (fraction, rest) := match rest with
    | '.' :: more => takeDigits more
    | _ => ([], rest)
  if whole.isEmpty && fraction.isEmpty then none
  let d ← Text.digitsOnto? 10 Text.digitValue? 0 (whole ++ fraction)
  let e ← exponent? rest
  return ofDecimal d (e - fraction.length)

/-- The names of the infinity and of NaN, in any case. -/
def named? (cs : List Char) : Option Float :=
  match String.ofList (cs.map Char.toLower) with
  | "inf" => some (1 / 0)
  | "infinity" => some (1 / 0)
  | "nan" => some (0 / 0)
  | _ => none

/-- Reads a double: an optional sign, then a numeral or a name. -/
def read? (text : String) : Option Float :=
  let unsigned (cs : List Char) := (named? cs).or (magnitude? cs)
  match text.toList with
  | '-' :: cs => (unsigned cs).map fun x => -x
  | '+' :: cs => unsigned cs
  | cs => unsigned cs

end ImagePipeline.Binary64
