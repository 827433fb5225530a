/-!
Two notions of white space: the five ASCII blanks that separate tokens and forms, and the wider
set of Unicode that separates the words of a message.
-/
namespace ChatFlow.Text

/-- Space, tab, line feed, form feed or carriage return. -/
def isBlank (c : Char) : Bool :=
  c == ' ' || c == '\t' || c == '\n' || c == '\x0c' || c == '\r'

/-- Characters with the Unicode property White_Space. -/
def isWhiteSpace (c : Char) : Bool :=
  let n := c.toNat
  (0x09 ≤ n && n ≤ 0x0d) || n == 0x20 || n == 0x85 || n == 0xa0 || n == 0x1680 ||
  (0x2000 ≤ n && n ≤ 0x200a) || n == 0x2028 || n == 0x2029 || n == 0x202f || n == 0x205f ||
  n == 0x3000

/-- The first maximal run of characters that are not white space; empty when there is none. -/
def firstWord (s : List Char) : List Char :=
  (s.dropWhile isWhiteSpace).takeWhile fun c => !isWhiteSpace c

end ChatFlow.Text
