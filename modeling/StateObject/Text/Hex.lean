/-
  StateObject.Text.Hex — numbers in base sixteen.
-/

namespace StateObject.Text

/-- Marked by `0x`, in lower case and without padding. -/
def hex (n : Nat) : String := "0x" ++ String.ofList (Nat.toDigits 16 n)

end StateObject.Text
