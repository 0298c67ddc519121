/-!
# Splitting a text at a separator

The separator is looked for from left to right, and what one occurrence covers is not looked at
again. Between, before and after the occurrences stand the parts, so there is always one part more
than there are occurrences.
-/

namespace Scripting.Text

/-- Splits what is left of a text. `skip` characters still belong to the last occurrence, and
`part` holds the current part, its last character first. -/
def splitFrom (separator : List Char) : Nat → List Char → List Char → List (List Char)
  | _, part, [] => [part.reverse]
  | skip + 1, part, _ :: cs => splitFrom separator skip part cs
  | 0, part, c :: cs =>
    if separator.isPrefixOf (c :: cs) then
      part.reverse :: splitFrom separator (separator.length - 1) [] cs
    else splitFrom separator 0 (c :: part) cs

/-- The parts of a text between the occurrences of a separator. The empty separator takes the text
apart into its characters. -/
def split (separator text : List Char) : List (List Char) :=
  if separator.isEmpty then text.map ([·]) else splitFrom separator 0 [] text

end Scripting.Text
