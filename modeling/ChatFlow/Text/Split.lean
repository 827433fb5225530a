/-!
Cutting a text at a separator.
-/
namespace ChatFlow.Text

/-- The parts of a text between its separators; one more than there are separators. -/
def split (separator : Char) : List Char → List (List Char)
  | [] => [[]]
  | c :: cs =>
    if c = separator then [] :: split separator cs
    else
      match split separator cs with
      | [] => [[c]]
      | part :: parts => (c :: part) :: parts

end ChatFlow.Text
