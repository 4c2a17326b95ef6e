/-!
# Positions in UTF-8

Positions in a text count UTF-8 bytes.

* `byteLength cs`: the number of bytes that `cs` takes.
* `byteLength_append`: lengths add up.
* `splitAtByte n cs`: the longest part of `cs` within its first `n` bytes, and the rest.
-/

namespace LogSearch.Text

/-- Number of UTF-8 bytes of a text. -/
def byteLength : List Char → Nat
  | [] => 0
  | c :: cs => c.utf8Size + byteLength cs

/-- Nothing takes no bytes. -/
@[simp] theorem byteLength_nil : byteLength [] = 0 := rfl

/-- A character takes the bytes of its encoding. -/
@[simp] theorem byteLength_cons (c : Char) (cs : List Char) :
    byteLength (c :: cs) = c.utf8Size + byteLength cs := rfl

/-- Texts that follow each other take the bytes of both. -/
@[simp] theorem byteLength_append (as bs : List Char) :
    byteLength (as ++ bs) = byteLength as + byteLength bs := by
  induction as with
  | nil => simp
  | cons c cs ih => simp [ih, Nat.add_assoc]

/-- The longest leading part of `cs` that ends at or before byte `n`, and the rest. -/
def splitAtByte : Nat → List Char → List Char × List Char
  | _, [] => ([], [])
  | n, c :: cs =>
    if c.utf8Size ≤ n then
      let (before, after) := splitAtByte (n - c.utf8Size) cs
      (c :: before, after)
    else
      ([], c :: cs)

/-- Cutting a text loses nothing of it. -/
theorem splitAtByte_append (n : Nat) (cs : List Char) :
    (splitAtByte n cs).1 ++ (splitAtByte n cs).2 = cs := by
  fun_induction splitAtByte n cs <;> simp_all

/-- The part of `cs` between the byte positions `start` and `stop`. -/
def byteSlice (cs : List Char) (start stop : Nat) : List Char :=
  (splitAtByte (stop - start) (splitAtByte start cs).2).1

/-- UTF-8 bytes of a text. -/
def encode (cs : List Char) : List UInt8 := cs.flatMap String.utf8EncodeChar

end LogSearch.Text
