/-!
# Rounding binary fractions to whole numbers

The geometry of a picture is whole, the factors that change it are not. These are the three
roundings in use, for doubles and for single-precision numbers: to the nearest whole number with
a half going away from zero, up, and down. Results saturate at the ends of the target range and a
NaN counts as zero.
-/

namespace ImagePipeline.Number

/-- The largest unsigned 64-bit number, where roundings saturate. -/
def maxUInt64 : Nat := 18446744073709551615

def maxUInt32 : Nat := 4294967295

def capped (n : Nat) : Nat := min n maxUInt64

/-- The nearest natural number, a half going up; negative numbers count as zero. -/
def nearest (x : Float) : Nat :=
  let whole := x.toUInt64
  if x - whole.toFloat ≥ 0.5 then min (whole.toNat + 1) maxUInt64 else whole.toNat

def ceiling (x : Float) : Nat :=
  let whole := x.toUInt64
  if x > whole.toFloat then min (whole.toNat + 1) maxUInt64 else whole.toNat

/-- The greatest natural number that is not above `x`; negative numbers count as zero. -/
def floor (x : Float) : Nat := x.toUInt64.toNat

/-- The nearest natural number of a single-precision number, a half going up. -/
def nearest32 (x : Float32) : Nat :=
  let whole := x.toUInt64
  if x - whole.toFloat32 ≥ 0.5 then min (whole.toNat + 1) maxUInt64 else whole.toNat

def ceiling32 (x : Float32) : Nat :=
  let whole := x.toUInt64
  if x > whole.toFloat32 then min (whole.toNat + 1) maxUInt64 else whole.toNat

def floorInt32 (x : Float32) : Int :=
  if x < 0 then -(ceiling32 (-x) : Int) else (x.toUInt64.toNat : Int)

def ceilingInt32 (x : Float32) : Int :=
  if x < 0 then -(((-x).toUInt64.toNat : Nat) : Int) else (ceiling32 x : Int)

/-- The value pressed into the range from 1 to the largest unsigned 32-bit number. -/
def clampSide (n : Nat) : UInt32 := UInt32.ofNat (max 1 (min n maxUInt32))

theorem toNat_clampSide (n : Nat) : (clampSide n).toNat = max 1 (min n maxUInt32) := by
  simp only [clampSide, maxUInt32, UInt32.toNat_ofNat']
  omega

theorem one_le_clampSide (n : Nat) : 1 ≤ (clampSide n).toNat := by
  rw [toNat_clampSide]
  omega

end ImagePipeline.Number
