import ShaderLift.Text.Extending
import ShaderLift.Text.Unprintable

/-!
# Quoted text

Text in double quotes in which every character can be seen: quotes, backslashes and the usual control
characters are escaped by a backslash, other characters that cannot be seen on their own by their code point.
-/

namespace ShaderLift

namespace Text

/-- Whether a code point lies in one of the ranges. -/
def inRanges (ranges : List (Nat × Nat)) (code : Nat) : Bool :=
  ranges.any fun (first, last) => decide (first ≤ code) && decide (code ≤ last)

/-- Whether a character cannot be seen on its own. -/
def isHidden (c : Char) : Bool :=
  inRanges extendingRanges c.toNat || inRanges unprintableRanges c.toNat

/-- The character as it stands in quoted text. -/
def escape (c : Char) : List Char :=
  if c = '"' then ['\\', '"']
  else if c = '\\' then ['\\', '\\']
  else if c = '\n' then ['\\', 'n']
  else if c = '\r' then ['\\', 'r']
  else if c = '\t' then ['\\', 't']
  else if c = '\x00' then ['\\', '0']
  else if isHidden c then ['\\', 'u', '\x7b'] ++ Nat.toDigits 16 c.toNat ++ ['\x7d']
  else [c]

/-- The text in double quotes. -/
def quoted (s : String) : String :=
  String.ofList ('"' :: (s.toList.flatMap escape ++ ['"']))

/-- A list of texts, each quoted. -/
def quotedList (names : List String) : String :=
  "[" ++ ", ".intercalate (names.map quoted) ++ "]"

end Text

end ShaderLift
