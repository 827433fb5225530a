/-!
Positions in a text are counted in UTF-8 bytes, while readers walk over its characters.
-/
namespace ChatFlow.Text

/-- Number of bytes that the characters take in UTF-8. -/
def byteLength : List Char → Nat
  | [] => 0
  | c :: cs => c.utf8Size + byteLength cs

@[simp] theorem byteLength_append (s t : List Char) :
    byteLength (s ++ t) = byteLength s + byteLength t := by
  induction s with
  | nil => simp [byteLength]
  | cons c cs ih => simp [byteLength, ih, Nat.add_assoc]

/-- First byte of a character's UTF-8 form. -/
def leadByte (c : Char) : Nat :=
  match c.utf8Size with
  | 1 => c.toNat
  | 2 => 0xc0 + c.toNat / 0x40
  | 3 => 0xe0 + c.toNat / 0x1000
  | _ => 0xf0 + c.toNat / 0x40000

end ChatFlow.Text
