/-!
# Quoted text

The quoted form of a text: between double quotes, with a backslash before a double quote and a
backslash, short escapes for the common control characters and the hexadecimal number of the
others.
-/

namespace PropertyRecord.Quoted

/-- Whether a character is one of the two ranges of control characters. -/
def isControl (c : Char) : Bool := c.toNat < 0x20 || (0x7f ≤ c.toNat && c.toNat < 0xa0)

/-- The quoted form of one character. -/
def escape (c : Char) : List Char :=
  if c = '"' ∨ c = '\\' then ['\\', c]
  else if c = '\n' then ['\\', 'n']
  else if c = '\t' then ['\\', 't']
  else if c = '\r' then ['\\', 'r']
  else if c = '\x00' then ['\\', '0']
  else if isControl c then ['\\', 'u', '\x7b'] ++ Nat.toDigits 16 c.toNat ++ ['\x7d']
  else [c]

/-- The quoted form of a text. -/
def render (text : String) : String := String.ofList ('"' :: text.toList.flatMap escape ++ ['"'])

end PropertyRecord.Quoted
