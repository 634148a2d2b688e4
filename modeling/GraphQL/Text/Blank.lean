/-!
Blank characters: the characters with the Unicode property White_Space, and
trimming by them. The table is closed: no version of the standard since 6.3
has moved a character in or out of it.
-/

namespace GraphQL.Text

/-- The code points with the property White_Space. -/
def isBlank (c : Char) : Bool :=
  let n := c.toNat
  (9 ≤ n && n ≤ 13) || n == 0x20 || n == 0x85 || n == 0xA0 || n == 0x1680 ||
    (0x2000 ≤ n && n ≤ 0x200A) || n == 0x2028 || n == 0x2029 || n == 0x202F ||
    n == 0x205F || n == 0x3000

/-- The text without the blanks at its end. -/
def trimEnd (s : List Char) : List Char :=
  (s.reverse.dropWhile isBlank).reverse

/-- The text without the blanks at its start and at its end. -/
def trim (s : List Char) : List Char :=
  trimEnd (s.dropWhile isBlank)

theorem length_dropWhile_le (p : Char → Bool) (s : List Char) :
    (s.dropWhile p).length ≤ s.length :=
  (List.dropWhile_sublist p).length_le

theorem length_trim_le (s : List Char) : (trim s).length ≤ s.length := by
  have h := length_dropWhile_le isBlank (s.dropWhile isBlank).reverse
  have h' := length_dropWhile_le isBlank s
  simp only [List.length_reverse] at h
  simp only [trim, trimEnd, List.length_reverse]
  omega

end GraphQL.Text
