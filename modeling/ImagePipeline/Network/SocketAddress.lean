import ImagePipeline.Text.Numeral

/-!
# Socket addresses

A socket address is an address and a port. `SocketAddress.parse` reads four decimal numbers with
dots, or eight hexadecimal groups with colons in brackets, where one run of zero groups may be left
out, the last two groups may be four decimal numbers, and a zone number may follow. The written
form (`SocketAddress.text`) leaves out the longest run of two or more zero groups, the first one of
several, and shows an address that maps a four-part one with dots.
-/

namespace ImagePipeline

inductive SocketAddress where
  | v4 (a b c d : UInt8) (port : UInt16)
  | v6 (groups : List UInt16) (zone : UInt32) (port : UInt16)
  deriving DecidableEq

namespace SocketAddress

/-! ### Reading -/

/-- A number up to a limit in front of a text, in a base, with so many digits at most. -/
def number? (base limit : Nat) (maxDigits : Option Nat) (leadingZeros : Bool) (cs : List Char) :
    Option (Nat × List Char) :=
  let isDigit (c : Char) : Bool := ((Text.hexValue? c).map fun d => decide (d < base)).getD false
  let digits := cs.takeWhile isDigit
  let tooLong := (maxDigits.map fun m => decide (m < digits.length)).getD false
  if digits.isEmpty || tooLong || (!leadingZeros && digits.head? == some '0' && 1 < digits.length)
  then none
  else
    match Text.digitsOnto? base Text.hexValue? 0 digits with
    | some n => if n ≤ limit then some (n, cs.dropWhile isDigit) else none
    | none => none

def expect? (c : Char) : List Char → Option (List Char)
  | [] => none
  | d :: rest => if d = c then some rest else none

/-- One of four decimal numbers; leading zeros are refused. -/
def octet? (cs : List Char) : Option (Nat × List Char) := number? 10 255 (some 3) false cs

def dotted? (cs : List Char) : Option ((Nat × Nat × Nat × Nat) × List Char) := do
  let (a, cs) ← octet? cs
  let (b, cs) ← octet? (← expect? '.' cs)
  let (c, cs) ← octet? (← expect? '.' cs)
  let (d, cs) ← octet? (← expect? '.' cs)
  return ((a, b, c, d), cs)

def port? (cs : List Char) : Option (Nat × List Char) := do
  number? 10 65535 none true (← expect? ':' cs)

def group? (cs : List Char) : Option (Nat × List Char) := number? 16 65535 (some 4) true cs

/-- The text where the next group begins: behind a colon, unless it is the first one. -/
def groupStart? (first : Bool) (cs : List Char) : Option (List Char) :=
  if first then some cs else expect? ':' cs

/-- As many groups as there are, up to a number; whether the last two were written with dots; and
the text behind them. -/
def groups : Nat → Bool → List Char → List Nat × Bool × List Char
  | 0, _, cs => ([], false, cs)
  | left + 1, first, cs =>
    let quad := if 1 ≤ left then (groupStart? first cs).bind dotted? else none
    match quad with
    | some ((a, b, c, d), rest) => ([a * 256 + b, c * 256 + d], true, rest)
    | none =>
      match (groupStart? first cs).bind group? with
      | some (g, rest) =>
        let (more, quad, rest) := groups left false rest
        (g :: more, quad, rest)
      | none => ([], false, cs)

/-- Eight groups, or fewer with two colons in place of a run of zeros. -/
def eightGroups? (cs : List Char) : Option (List Nat × List Char) :=
  let (head, quad, rest) := groups 8 true cs
  if head.length = 8 then some (head, rest)
  else if quad then none
  else do
    let rest ← expect? ':' (← expect? ':' rest)
    let (tail, _, rest) := groups (7 - head.length) true rest
    return (head ++ List.replicate (8 - head.length - tail.length) 0 ++ tail, rest)

/-- The number of a zone behind its percent sign; without one the zone is zero. -/
def zone (cs : List Char) : Nat × List Char :=
  match (expect? '%' cs).bind (number? 10 4294967295 none true) with
  | some found => found
  | none => (0, cs)

def parseV4 (cs : List Char) : Option (SocketAddress × List Char) := do
  let ((a, b, c, d), cs) ← dotted? cs
  let (port, cs) ← port? cs
  return (.v4 (UInt8.ofNat a) (UInt8.ofNat b) (UInt8.ofNat c) (UInt8.ofNat d) (UInt16.ofNat port),
    cs)

def parseV6 (cs : List Char) : Option (SocketAddress × List Char) := do
  let (groups, cs) ← eightGroups? (← expect? '[' cs)
  let (zone, cs) := zone cs
  let (port, cs) ← port? (← expect? ']' cs)
  return (.v6 (groups.map UInt16.ofNat) (UInt32.ofNat zone) (UInt16.ofNat port), cs)

def parse (text : String) : Option SocketAddress :=
  match (parseV4 text.toList).or (parseV6 text.toList) with
  | some (address, []) => some address
  | _ => none

/-! ### Writing -/

def dottedText (a b c d : Nat) : String :=
  ".".intercalate ([a, b, c, d].map Text.decimal)

/-- Groups in hexadecimal without leading zeros, with colons in between. -/
def groupsText (groups : List UInt16) : String :=
  ":".intercalate (groups.map fun g => Text.hexadecimal g.toNat)

/-- The number of zero groups in front. -/
def zerosInFront (groups : List UInt16) : Nat := (groups.takeWhile (· == 0)).length

/-- The start and the length of the longest run of zero groups, the first one of several. -/
def longestZeros (groups : List UInt16) : Nat × Nat :=
  (List.range groups.length).foldl
    (fun (best : Nat × Nat) i =>
      let length := zerosInFront (groups.drop i)
      if best.2 < length then (i, length) else best)
    (0, 0)

def addressText (groups : List UInt16) : String :=
  match groups with
  | [0, 0, 0, 0, 0, 0xFFFF, high, low] =>
    "::ffff:" ++ dottedText (high.toNat / 256) (high.toNat % 256) (low.toNat / 256)
      (low.toNat % 256)
  | _ =>
    let (start, length) := longestZeros groups
    if 1 < length then
      groupsText (groups.take start) ++ "::" ++ groupsText (groups.drop (start + length))
    else groupsText groups

def text : SocketAddress → String
  | v4 a b c d port =>
    dottedText a.toNat b.toNat c.toNat d.toNat ++ ":" ++ Text.decimal port.toNat
  | v6 groups zone port =>
    let zoneText := if zone = 0 then "" else "%" ++ Text.decimal zone.toNat
    "[" ++ addressText groups ++ zoneText ++ "]:" ++ Text.decimal port.toNat

end SocketAddress

end ImagePipeline
