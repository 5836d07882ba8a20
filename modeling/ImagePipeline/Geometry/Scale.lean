import ImagePipeline.Number.Binary64
import ImagePipeline.Number.Rounding

/-!
# Scale factors

A plan holds its factors as exact fractions. `Scale` says what a backend needs from a number type
to use them: how a fraction is read, which factors are usable, and how a factor changes a side.
Two readings are given: exact fractions, and doubles, where every operation rounds.
-/

namespace ImagePipeline

class Scale (σ : Type) where
  ofRatio : Rat → σ
  /-- A usable factor: positive and not NaN. -/
  isPositive : σ → Bool
  /-- The side a factor makes of a side: the nearest whole number, a half going up, pressed into
  the range from 1 to the largest unsigned 32-bit number. -/
  side : σ → UInt32 → UInt32
  /-- The same side, only that a product beyond all numbers makes the largest one. -/
  saturating : σ → UInt32 → UInt32
  cover : σ → UInt32 → Nat
  text : σ → String

namespace Scale

def ratio (target source : UInt32) : Rat := (target.toNat : Rat) / (source.toNat : Rat)

def percent (p : UInt32) : Rat := (p.toNat : Rat) / 100

def smaller (a b : Rat) : Rat := if a ≤ b then a else b

def larger (a b : Rat) : Rat := if a ≤ b then b else a

/-- The nearest whole number of a fraction, a half going up; negative fractions count as zero. -/
def roundRat (x : Rat) : Nat := (x + 1 / 2).floor.toNat

/-- The double nearest to a fraction of natural numbers that doubles hold exactly. -/
def toDouble (r : Rat) : Float := r.num.toNat.toUInt64.toFloat / r.den.toUInt64.toFloat

def product (r : Rat) (side : UInt32) : Rat := (side.toNat : Rat) * r

end Scale

/-- Fractions as scale factors: nothing is rounded but the sides. -/
instance : Scale Rat where
  ofRatio r := r
  isPositive r := decide (0 < r)
  side r n := Number.clampSide (Scale.roundRat (Scale.product r n))
  saturating r n := Number.clampSide (Scale.roundRat (Scale.product r n))
  cover r n := max 1 (Scale.product r n).ceil.toNat
  text r := Text.signedDecimal r.num ++ "/" ++ Text.decimal r.den

/-- Doubles as scale factors: the product is rounded to a double before it is rounded to a side,
and a product beyond the range of doubles makes a side of 1. -/
instance : Scale Float where
  ofRatio := Scale.toDouble
  isPositive x := !x.isNaN && !(x ≤ 0)
  side x n :=
    let product := n.toFloat * x
    if product.isFinite then Number.clampSide (Number.nearest product) else 1
  saturating x n := Number.clampSide (Number.nearest (n.toFloat * x))
  cover x n := max 1 (Number.ceiling (n.toFloat * x))
  text := Binary64.text

end ImagePipeline
