import ImagePipeline.Text.Numeral
import ImagePipeline.Text.Split
import ImagePipeline.Text.Utf8

/-!
# Queries

A query is a row of pairs with `&` in between, a pair being a key and a value on the two sides of
its first `=`. In both a `+` stands for a blank and `%` with two hexadecimal digits for a byte; the
bytes are read as UTF-8. Of several pairs with one key the last counts.
-/

namespace ImagePipeline.FormQuery

/-- The bytes of a part of a query. A percent sign without two digits stands for itself. -/
def unescape : List Char → List UInt8
  | [] => []
  | '%' :: high :: low :: rest =>
    match Text.hexValue? high, Text.hexValue? low with
    | some h, some l => UInt8.ofNat (h * 16 + l) :: unescape rest
    | _, _ => 0x25 :: unescape (high :: low :: rest)
  | '+' :: rest => 0x20 :: unescape rest
  | c :: rest => (String.singleton c).toUTF8.toList ++ unescape rest

def text (part : List Char) : String := String.ofList (Text.Utf8.decode (unescape part))

/-- The key and the value of a piece; without an equals sign the value is empty. -/
def pair (piece : List Char) : String × String :=
  match Text.cutAt '=' piece with
  | some (key, value) => (text key, text value)
  | none => (text piece, "")

/-- The pairs of a query; empty pieces are passed over. -/
def pairs (query : String) : List (String × String) :=
  ((Text.pieces '&' query.toList).filter fun piece => !piece.isEmpty).map pair

def value? (query : String) (key : String) : Option String := (pairs query).reverse.lookup key

end ImagePipeline.FormQuery
