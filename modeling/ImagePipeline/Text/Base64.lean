import ImagePipeline.Text.Numeral

/-!
# Base64 with optional padding

A byte string is written in groups of four symbols, six bits each; the last group may be shorter.
`Base64.encode` writes the symbols without padding. `Base64.decode` reads them back, takes
padding when it is present and stands where padding may stand, and otherwise names the first
offending byte in a `Base64.Fault`. Two alphabets are known; they differ in the last two symbols.
-/

namespace ImagePipeline

/-- The sixty-four symbols; only the last two differ between the alphabets. -/
inductive Base64.Alphabet where
  | standard
  | urlSafe
  deriving DecidableEq, Repr

namespace Base64

def padding : UInt8 := 61

namespace Alphabet

def symbol62 : Alphabet → UInt8
  | standard => 43
  | urlSafe => 45

def symbol63 : Alphabet → UInt8
  | standard => 47
  | urlSafe => 95

def symbol (a : Alphabet) (v : Nat) : UInt8 :=
  if v < 26 then UInt8.ofNat (65 + v)
  else if v < 52 then UInt8.ofNat (97 + (v - 26))
  else if v < 62 then UInt8.ofNat (48 + (v - 52))
  else if v = 62 then a.symbol62
  else a.symbol63

/-- The six-bit value of a symbol; nothing for a byte outside the alphabet. -/
def value? (a : Alphabet) (b : UInt8) : Option Nat :=
  if 65 ≤ b ∧ b ≤ 90 then some (b.toNat - 65)
  else if 97 ≤ b ∧ b ≤ 122 then some (b.toNat - 97 + 26)
  else if 48 ≤ b ∧ b ≤ 57 then some (b.toNat - 48 + 52)
  else if b = a.symbol62 then some 62
  else if b = a.symbol63 then some 63
  else none

end Alphabet

/-! ### Writing -/

def encode (a : Alphabet) : List UInt8 → List UInt8
  | [] => []
  | [x] => [a.symbol (x.toNat / 4), a.symbol (x.toNat % 4 * 16)]
  | [x, y] =>
    [a.symbol (x.toNat / 4), a.symbol (x.toNat % 4 * 16 + y.toNat / 16),
      a.symbol (y.toNat % 16 * 4)]
  | x :: y :: z :: rest =>
    a.symbol (x.toNat / 4) :: a.symbol (x.toNat % 4 * 16 + y.toNat / 16)
      :: a.symbol (y.toNat % 16 * 4 + z.toNat / 64) :: a.symbol (z.toNat % 64) :: encode a rest

def fullPadding (n : Nat) : Nat := (3 - n % 3) % 3

/-! ### Reading -/

/-- Why a byte string is not base64; offsets count from the start of the input. -/
inductive Fault where
  | symbol (byte : UInt8) (offset : Nat)
  /-- The last group has a single symbol, or none. -/
  | length (length : Nat)
  | lastSymbol (byte : UInt8) (offset : Nat)
  deriving DecidableEq, Repr

def Fault.message : Fault → String
  | .symbol b i => "Invalid symbol " ++ Text.decimal b.toNat ++ ", offset " ++ Text.decimal i ++ "."
  | .length n => "Invalid input length: " ++ Text.decimal n
  | .lastSymbol b i =>
    "Invalid last symbol " ++ Text.decimal b.toNat ++ ", offset " ++ Text.decimal i ++ "."

def quadBytes (p q r s : Nat) : List UInt8 :=
  [UInt8.ofNat (p * 4 + q / 16), UInt8.ofNat (q % 16 * 16 + r / 4), UInt8.ofNat (r % 4 * 64 + s)]

def symbolAt (a : Alphabet) (b : UInt8) (offset : Nat) : Except Fault Nat :=
  match a.value? b with
  | some v => .ok v
  | none => .error (.symbol b offset)

/-- What the scan of the last group has seen: the symbols' values, the last symbol itself, and
where the padding began. -/
structure LastGroup where
  values : List Nat := []
  last : UInt8 := 0
  paddedFrom : Option Nat := none

/-- Scans the last group, which starts at `start`; `i` is the position inside it. -/
def scanLast (a : Alphabet) (start : Nat) : Nat → LastGroup → List UInt8 → Except Fault LastGroup
  | _, g, [] => .ok g
  | i, g, b :: bs =>
    if b = padding then
      if i < 2 then .error (.symbol padding (start + i))
      else scanLast a start (i + 1) { g with paddedFrom := some (g.paddedFrom.getD i) } bs
    else
      match g.paddedFrom with
      | some p => .error (.symbol padding (start + p))
      | none => do
        let v ← symbolAt a b (start + i)
        scanLast a start (i + 1) { g with values := g.values ++ [v], last := b } bs

/-- The bytes of the last group: one fewer than its symbols, and no bit left over. -/
def lastBytes (start : Nat) (g : LastGroup) : Except Fault (List UInt8) :=
  match g.values with
  | [p, q] =>
    if q % 16 = 0 then .ok [UInt8.ofNat (p * 4 + q / 16)]
    else .error (.lastSymbol g.last (start + 1))
  | [p, q, r] =>
    if r % 4 = 0 then .ok [UInt8.ofNat (p * 4 + q / 16), UInt8.ofNat (q % 16 * 16 + r / 4)]
    else .error (.lastSymbol g.last (start + 2))
  | [p, q, r, s] => .ok (quadBytes p q r s)
  | values => .error (.length (start + values.length))

/-- Reads the groups from `start` on: all but the last must be four symbols. -/
def decodeGroups (a : Alphabet) (start : Nat) : List UInt8 → Except Fault (List UInt8)
  | b₀ :: b₁ :: b₂ :: b₃ :: b₄ :: rest => do
    let p ← symbolAt a b₀ start
    let q ← symbolAt a b₁ (start + 1)
    let r ← symbolAt a b₂ (start + 2)
    let s ← symbolAt a b₃ (start + 3)
    let tail ← decodeGroups a (start + 4) (b₄ :: rest)
    .ok (quadBytes p q r s ++ tail)
  | group => do
    let g ← scanLast a start 0 {} group
    lastBytes start g
termination_by bytes => bytes.length

/-- A single byte after the last full group, when it is neither padding nor a symbol. -/
def strayByte? (a : Alphabet) (bytes : List UInt8) : Option UInt8 :=
  match bytes.getLast? with
  | some b =>
    if bytes.length % 4 = 1 ∧ b ≠ padding ∧ a.value? b = none then some b else none
  | none => none

/-- Reads a byte string in one alphabet. A stray byte at the end is reported before anything
else; otherwise the fault is the leftmost one. -/
def decode (a : Alphabet) (bytes : List UInt8) : Except Fault (List UInt8) :=
  match strayByte? a bytes with
  | some b => .error (.symbol b (bytes.length - 1))
  | none => if bytes.isEmpty then .ok [] else decodeGroups a 0 bytes

/-- Reads in the standard alphabet, else in the URL-safe one, whose fault is the one reported. -/
def decodeAny (bytes : List UInt8) : Except Fault (List UInt8) :=
  match decode .standard bytes with
  | .ok out => .ok out
  | .error _ => decode .urlSafe bytes

end Base64

end ImagePipeline
