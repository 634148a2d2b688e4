/-!
Splitting a text at a character. The parts do not have the character, and between
two of them it stood once.
-/

namespace GraphQL.Text

/-- The parts of a text between occurrences of a character. -/
def split (separator : Char) : List Char → List (List Char)
  | [] => [[]]
  | c :: rest =>
    if c = separator then [] :: split separator rest
    else match split separator rest with
      | [] => [[c]]
      | part :: parts => (c :: part) :: parts

end GraphQL.Text
