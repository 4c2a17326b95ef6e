/-!
# Decoding UTF-8

* `Utf8.decode`: the characters that bytes encode, or where they stop to be text.
* `Utf8.Fault.message`: the wording of a fault.
-/

namespace LogSearch.Utf8

/-- Why bytes are no text. -/
inductive Fault
  /-- From `index` on, `length` bytes belong to no character. -/
  | invalid (index length : Nat)
  /-- The bytes end within the character that starts at `index`. -/
  | incomplete (index : Nat)
deriving DecidableEq, Repr

/-- The wording of a fault. -/
def Fault.message : Fault → String
  | invalid index length =>
    "invalid utf-8 sequence of " ++ toString length ++ " bytes from index " ++ toString index
  | incomplete index => "incomplete utf-8 byte sequence from index " ++ toString index

/-- The number of bytes of the character that a byte starts, its bits in that byte, and the range of
the byte after it. -/
def lead? (b : UInt8) : Option (Nat × Nat × UInt8 × UInt8) :=
  let n := b.toNat
  if n < 0x80 then some (1, n, 0x80, 0xBF)
  else if 0xC2 ≤ n ∧ n ≤ 0xDF then some (2, n - 0xC0, 0x80, 0xBF)
  else if n = 0xE0 then some (3, 0, 0xA0, 0xBF)
  else if n = 0xED then some (3, 0xD, 0x80, 0x9F)
  else if 0xE1 ≤ n ∧ n ≤ 0xEF then some (3, n - 0xE0, 0x80, 0xBF)
  else if n = 0xF0 then some (4, 0, 0x90, 0xBF)
  else if n = 0xF4 then some (4, 4, 0x80, 0x8F)
  else if 0xF1 ≤ n ∧ n ≤ 0xF3 then some (4, n - 0xF0, 0x80, 0xBF)
  else none

/-- Reads `count` more bytes of a character that started at `index` and has `seen` bytes so far. -/
def follow (index : Nat) : Nat → Nat → Nat → UInt8 × UInt8 → List UInt8 →
    Except Fault (Nat × List UInt8)
  | 0, n, _, _, bytes => .ok (n, bytes)
  | _ + 1, _, _, _, [] => .error (.incomplete index)
  | count + 1, n, seen, (low, high), b :: bytes =>
    if low ≤ b && b ≤ high then
      follow index count (64 * n + b.toNat % 64) (seen + 1) (0x80, 0xBF) bytes
    else .error (.invalid index seen)

/-- Reads characters from `index` on. -/
def decodeFrom : Nat → Nat → List UInt8 → Except Fault (List Char)
  | 0, _, _ => .ok []
  | _, _, [] => .ok []
  | fuel + 1, index, b :: bytes =>
    match lead? b with
    | none => .error (.invalid index 1)
    | some (width, bits, low, high) => do
      let (n, rest) ← follow index (width - 1) bits 1 (low, high) bytes
      return Char.ofNat n :: (← decodeFrom fuel (index + width) rest)

/-- The characters that bytes encode. -/
def decode (bytes : List UInt8) : Except Fault (List Char) := decodeFrom bytes.length 0 bytes

end LogSearch.Utf8
