/-!
# Character classes

The two Unicode classes that rendering consults: white space, which is trimmed at the
end of each line, and control characters, which literals escape by number.
-/

namespace TrialLayout.Text

/-- The Unicode property `White_Space`, as inclusive ranges of code points. -/
def blankRanges : List (Nat × Nat) :=
  [(0x09, 0x0D), (0x20, 0x20), (0x85, 0x85), (0xA0, 0xA0), (0x1680, 0x1680),
   (0x2000, 0x200A), (0x2028, 0x2029), (0x202F, 0x202F), (0x205F, 0x205F), (0x3000, 0x3000)]

/-- White space in the sense of the Unicode property `White_Space`. -/
def isBlank (c : Char) : Bool :=
  blankRanges.any fun range => range.1 ≤ c.toNat && c.toNat ≤ range.2

/-- A control character: Unicode category `Cc`. -/
def isControl (c : Char) : Bool :=
  c.toNat < 0x20 || (0x7F ≤ c.toNat && c.toNat ≤ 0x9F)

example : isBlank '\n' ∧ isBlank ' ' ∧ isBlank '\t' ∧ ¬ isBlank 'a' := by decide

example : isControl '\n' ∧ isControl (Char.ofNat 0x7F) ∧ ¬ isControl ' ' := by decide

end TrialLayout.Text
