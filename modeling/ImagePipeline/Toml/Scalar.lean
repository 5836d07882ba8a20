import ImagePipeline.Config.Value
import ImagePipeline.Number.Binary64
import ImagePipeline.Text.Split

/-!
# Numbers, truth values and dates

A scalar without quotes is a run of characters (`word`) that is read as a whole. Whole numbers are
decimal with an optional sign, or hexadecimal, octal or binary, and fit in 64 bits with a sign; a
single underscore may stand between two digits. A floating point number has a fraction or an
exponent. Dates and times are kept as they are written.
-/

namespace ImagePipeline.Toml

open Config (Value)

def isScalar (c : Char) : Bool :=
  c.isAlphanum || c = '_' || c = '-' || c = '+' || c = '.' || c = ':'

/-! ### Digits -/

/-- The digits of a base with single underscores in between, without the underscores. -/
def joinedDigits? (base : Nat) (cs : List Char) : Option (List Char) :=
  let isDigit (c : Char) : Bool := ((Text.hexValue? c).map fun d => decide (d < base)).getD false
  let groups := Text.pieces '_' cs
  if groups.all fun g => !g.isEmpty && g.all isDigit then some groups.flatten else none

/-- The digits of a decimal number, which has no leading zeros. -/
def plainDigits? (cs : List Char) : Option (List Char) := do
  let digits ← joinedDigits? 10 cs
  match digits with
  | '0' :: _ :: _ => none
  | _ => some digits

def signed : List Char → List Char × List Char
  | '-' :: rest => (['-'], rest)
  | '+' :: rest => ([], rest)
  | cs => ([], cs)

/-! ### Numbers -/

def wholeValue? (n : Int) : Option Value :=
  if -9223372036854775808 ≤ n ∧ n ≤ 9223372036854775807 then some (.integer n) else none

def basedValue? (base : Nat) (cs : List Char) : Option Value := do
  let digits ← joinedDigits? base cs
  wholeValue? (← Text.digitsOnto? base Text.hexValue? 0 digits)

def integer? (cs : List Char) : Option Value :=
  match cs with
  | '0' :: 'x' :: rest => basedValue? 16 rest
  | '0' :: 'o' :: rest => basedValue? 8 rest
  | '0' :: 'b' :: rest => basedValue? 2 rest
  | _ => do
    let (sign, rest) := signed cs
    let n ← Text.digits? (← plainDigits? rest)
    wholeValue? (if sign.isEmpty then n else -n)

/-- The exponent of a number, from its mark on, without underscores. -/
def exponentText? : List Char → Option (List Char)
  | [] => some []
  | mark :: rest =>
    if mark = 'e' ∨ mark = 'E' then do
      let (sign, rest) := signed rest
      let digits ← joinedDigits? 10 rest
      return 'e' :: (sign ++ digits)
    else none

def fractionText? : List Char → Option (List Char)
  | [] => none
  | '.' :: rest => do
    let isMark (c : Char) : Bool := c = 'e' || c = 'E'
    let digits ← joinedDigits? 10 (rest.takeWhile fun c => !isMark c)
    let tail ← exponentText? (rest.dropWhile fun c => !isMark c)
    return '.' :: (digits ++ tail)
  | cs => exponentText? cs

def float? (cs : List Char) : Option Value := do
  let (sign, rest) := signed cs
  let isInWhole (c : Char) : Bool := c.isDigit || c = '_'
  let text ←
    if rest = ['i', 'n', 'f'] ∨ rest = ['n', 'a', 'n'] then some rest
    else do
      let whole ← plainDigits? (rest.takeWhile isInWhole)
      let tail ← fractionText? (rest.dropWhile isInWhole)
      some (whole ++ tail)
  return .float (← Binary64.read? (String.ofList (sign ++ text)))

/-! ### Dates and times -/

/-- A decimal number of exactly so many digits between two bounds, in front of a text. -/
def field? (digits low high : Nat) (cs : List Char) : Option (List Char) := do
  let front := cs.take digits
  if front.length ≠ digits then none
  else
    let n ← Text.digits? front
    if low ≤ n ∧ n ≤ high then some (cs.drop digits) else none

def after? (c : Char) : List Char → Option (List Char)
  | [] => none
  | d :: rest => if c = d then some rest else none

def date? (cs : List Char) : Option (List Char) := do
  let cs ← after? '-' (← field? 4 0 9999 cs)
  let cs ← after? '-' (← field? 2 1 12 cs)
  field? 2 1 31 cs

def time? (cs : List Char) : Option (List Char) := do
  let cs ← after? ':' (← field? 2 0 23 cs)
  let cs ← after? ':' (← field? 2 0 59 cs)
  let cs ← field? 2 0 60 cs
  match cs with
  | '.' :: rest =>
    if (rest.takeWhile Char.isDigit).isEmpty then none else some (rest.dropWhile Char.isDigit)
  | _ => some cs

def isOffset : List Char → Bool
  | [] => true
  | ['Z'] => true
  | ['z'] => true
  | '+' :: rest => ((field? 2 0 23 rest).bind (after? ':') |>.bind (field? 2 0 59)) == some []
  | '-' :: rest => ((field? 2 0 23 rest).bind (after? ':') |>.bind (field? 2 0 59)) == some []
  | _ => false

def isDatetime (cs : List Char) : Bool :=
  match date? cs with
  | some [] => true
  | some (mark :: rest) =>
    (mark = 'T' || mark = 't' || mark = ' ') && ((time? rest).map isOffset).getD false
  | none => time? cs == some []

/-! ### Scalars -/

/-- The characters of an unquoted scalar and what follows them; between a date and a time one
blank may stand. -/
def word (cs : List Char) : List Char × List Char :=
  let front := cs.takeWhile isScalar
  let rest := cs.dropWhile isScalar
  match date? front, rest with
  | some [], ' ' :: more =>
    let time := more.takeWhile isScalar
    if (time.head?.map Char.isDigit).getD false then (front ++ ' ' :: time, more.dropWhile isScalar)
    else (front, rest)
  | _, _ => (front, rest)

def scalar? (cs : List Char) : Option Value :=
  if cs = ['t', 'r', 'u', 'e'] then some (.boolean true)
  else if cs = ['f', 'a', 'l', 's', 'e'] then some (.boolean false)
  else if isDatetime cs then some (.datetime (String.ofList cs))
  else (integer? cs).or (float? cs)

end ImagePipeline.Toml
