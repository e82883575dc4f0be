/-
  StateObject.Text.Quoted — texts in double quotes.

  A quote and a backslash take a backslash before them; tab, carriage return, newline
  and NUL have short forms; every other character without a visible shape of its own
  is written by its code, `\u{200b}`; all else stands for itself.

  Which characters have no shape is told by whole blocks, and that is an approximation: the
  marks of single scripts (U+0483) and code points that are not assigned (U+0378) lie outside
  of these blocks and stand for themselves, where the full tables have them written by code.
-/

namespace StateObject.Text

/-- The control characters. -/
def controls : List (Nat × Nat) := [(0x00, 0x1f), (0x7f, 0x9f)]

/-- Blanks and line ends other than the plain space. -/
def separators : List (Nat × Nat) :=
  [(0xa0, 0xa0), (0x1680, 0x1680), (0x2000, 0x200a), (0x2028, 0x2029), (0x202f, 0x202f),
    (0x205f, 0x205f), (0x3000, 0x3000)]

/-- Characters that only steer how their neighbours are set. -/
def formatting : List (Nat × Nat) :=
  [(0xad, 0xad), (0x200b, 0x200f), (0x202a, 0x202e), (0x2060, 0x206f), (0xfeff, 0xfeff),
    (0xfff0, 0xfffb)]

/-- The blocks of marks that are drawn onto the character before them. -/
def combining : List (Nat × Nat) :=
  [(0x300, 0x36f), (0x1ab0, 0x1aff), (0x1dc0, 0x1dff), (0x20d0, 0x20ff), (0xfe00, 0xfe0f),
    (0xfe20, 0xfe2f)]

/-- Code points that no standard gives a shape. -/
def privateUse : List (Nat × Nat) := [(0xe000, 0xf8ff), (0xf0000, 0x10ffff)]

def isShapeless (c : Char) : Bool :=
  (controls ++ separators ++ formatting ++ combining ++ privateUse).any fun (low, high) =>
    low ≤ c.toNat && c.toNat ≤ high

/-- One character inside the quotes. -/
def escape (c : Char) : List Char :=
  if c = '"' then ['\\', '"']
  else if c = '\\' then ['\\', '\\']
  else if c = '\t' then ['\\', 't']
  else if c = '\r' then ['\\', 'r']
  else if c = '\n' then ['\\', 'n']
  else if c = '\x00' then ['\\', '0']
  else if isShapeless c then ['\\', 'u', '\x7b'] ++ Nat.toDigits 16 c.toNat ++ ['\x7d']
  else [c]

def encode (cs : List Char) : List Char := cs.flatMap escape

def quoted (s : String) : String := String.ofList ('"' :: encode s.toList ++ ['"'])

end StateObject.Text
