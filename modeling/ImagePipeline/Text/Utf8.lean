/-!
# Reading UTF-8 that may be broken

`Utf8.decode` reads every byte string. A well-formed sequence gives its character. Where a sequence
breaks off, the bytes of it that are in order give one replacement character together, and reading
goes on with the byte that was out of order.
-/

namespace ImagePipeline.Text.Utf8

def replacement : Char := '\uFFFD'

/-- What the first byte of a sequence says: how many bytes follow, the range of the first of those,
and the bits that the byte contributes. -/
structure Lead where
  follow : Nat
  low : UInt8
  high : UInt8
  bits : Nat

/-- The meaning of a first byte, unless no sequence begins with it. -/
def lead? (b : UInt8) : Option Lead :=
  if b ≤ 0x7F then some ⟨0, 0x80, 0xBF, b.toNat⟩
  else if 0xC2 ≤ b ∧ b ≤ 0xDF then some ⟨1, 0x80, 0xBF, b.toNat - 0xC0⟩
  else if 0xE0 ≤ b ∧ b ≤ 0xEF then
    some ⟨2, if b = 0xE0 then 0xA0 else 0x80, if b = 0xED then 0x9F else 0xBF, b.toNat - 0xE0⟩
  else if 0xF0 ≤ b ∧ b ≤ 0xF4 then
    some ⟨3, if b = 0xF0 then 0x90 else 0x80, if b = 0xF4 then 0x8F else 0xBF, b.toNat - 0xF0⟩
  else none

/-- The number that the bits so far and the following bytes make up, and the bytes behind them;
nothing when a byte is out of order, which then is the first of the bytes left. -/
def follow : Nat → UInt8 → UInt8 → Nat → List UInt8 → Option Nat × List UInt8
  | 0, _, _, bits, rest => (some bits, rest)
  | _ + 1, _, _, _, [] => (none, [])
  | n + 1, low, high, bits, b :: rest =>
    if low ≤ b ∧ b ≤ high then follow n 0x80 0xBF (bits * 64 + (b.toNat - 0x80)) rest
    else (none, b :: rest)

theorem length_follow_le (n : Nat) (low high : UInt8) (bits : Nat) (bytes : List UInt8) :
    (follow n low high bits bytes).2.length ≤ bytes.length := by
  induction n generalizing low high bits bytes with
  | zero => simp [follow]
  | succ n ih =>
    cases bytes with
    | nil => simp [follow]
    | cons b rest =>
      simp only [follow]
      split
      · have := ih 0x80 0xBF (bits * 64 + (b.toNat - 0x80)) rest
        simp only [List.length_cons]
        omega
      · simp

def decode : List UInt8 → List Char
  | [] => []
  | b :: rest =>
    match lead? b with
    | none => replacement :: decode rest
    | some l =>
      have := length_follow_le l.follow l.low l.high l.bits rest
      let found := follow l.follow l.low l.high l.bits rest
      (found.1.map Char.ofNat).getD replacement :: decode found.2
termination_by bytes => bytes.length

end ImagePipeline.Text.Utf8
