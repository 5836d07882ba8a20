/-!
# Between number types

Conversions of numbers that round to nearest, a tie going to the even mantissa: doubles to
single-precision numbers, and whole numbers to doubles.
-/

namespace ImagePipeline.Number

open Float.Model (Format UnpackedFloat)

/-- The single-precision number nearest to a double. -/
def toSingle (x : Float) : Float32 :=
  match x.toModel.unpack with
  | .finite sign mantissa exponent _ =>
    .ofModel (.pack (UnpackedFloat.round Format.binary32 sign mantissa exponent))
  | special => .ofModel (.pack special)

/-- The double nearest to a signed 64-bit number. -/
def ofInt64 (n : Int64) : Float := .ofModel (.ofInt64 n)

end ImagePipeline.Number
