/-!
# Numbers in files

Files hold numbers of several bytes with the most significant byte first or last. Reading a field
takes so many bytes off the front (`take?`) and says nothing when there are not that many. Writing
one spells a number in so many bytes (`toLittleEndian`, `toBigEndian`).
-/

namespace ImagePipeline.Container

abbrev Bytes := List UInt8

/-- The number that bytes spell with the most significant one first. -/
def bigEndian (bytes : Bytes) : Nat := bytes.foldl (fun n b => n * 256 + b.toNat) 0

/-- The number that bytes spell with the least significant one first. -/
def littleEndian (bytes : Bytes) : Nat := bytes.foldr (fun b n => b.toNat + 256 * n) 0

/-- The `count` lowest bytes of a number, the least significant one first. -/
def toLittleEndian : Nat → Nat → Bytes
  | 0, _ => []
  | count + 1, n => UInt8.ofNat n :: toLittleEndian count (n / 256)

/-- The `count` lowest bytes of a number, the most significant one first. -/
def toBigEndian (count n : Nat) : Bytes := (toLittleEndian count n).reverse

def take? (n : Nat) (bytes : Bytes) : Option (Bytes × Bytes) :=
  if n ≤ bytes.length then some (bytes.take n, bytes.drop n) else none

def startsWith (front : Bytes) (bytes : Bytes) : Bool := front.isPrefixOf bytes

end ImagePipeline.Container
