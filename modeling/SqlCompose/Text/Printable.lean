import SqlCompose.Text.Combining
import SqlCompose.Text.Unassigned

/-!
# Characters that show

A description writes a character as itself when the character can be seen on its own. Controls,
separators other than the space, format characters, private characters, fillers, unassigned code
points and marks that combine with the character before them can not. Main statement: every
character from the space to the tilde shows (`shows_of_ascii`).
-/

namespace SqlCompose

namespace CodeRanges

/-- The format characters (general category `Cf`). -/
def format : CodeRanges := [
    (0x00AD, 0x00AD), (0x0600, 0x0605), (0x061C, 0x061C), (0x06DD, 0x06DD), (0x070F, 0x070F),
    (0x0890, 0x0891), (0x08E2, 0x08E2), (0x180E, 0x180E), (0x200B, 0x200F), (0x202A, 0x202E),
    (0x2060, 0x2064), (0x2066, 0x206F), (0xFEFF, 0xFEFF), (0xFFF9, 0xFFFB), (0x110BD, 0x110BD),
    (0x110CD, 0x110CD), (0x13430, 0x1343F), (0x1BCA0, 0x1BCA3), (0x1D173, 0x1D17A),
    (0xE0001, 0xE0001), (0xE0020, 0xE007F)]

/-- The separators of words, lines and paragraphs (general categories `Zs`, `Zl` and `Zp`), except
the space. -/
def separators : CodeRanges := [
    (0x00A0, 0x00A0), (0x1680, 0x1680), (0x2000, 0x200A), (0x2028, 0x2029), (0x202F, 0x202F),
    (0x205F, 0x205F), (0x3000, 0x3000)]

/-- The code points for private use (general category `Co`). -/
def privateUse : CodeRanges := [
    (0xE000, 0xF8FF), (0xF0000, 0xFFFFD), (0x100000, 0x10FFFD)]

/-- The letters that are drawn as nothing: they fill an empty place in a Hangul syllable (general
category `Lo`, with the property `Default_Ignorable_Code_Point`). -/
def fillers : CodeRanges := [
    (0x115F, 0x1160), (0x3164, 0x3164), (0xFFA0, 0xFFA0)]

end CodeRanges

namespace Printable

/-- Whether a character is a control character: code points below the space, and those from
delete to the end of the second control block. -/
def isControl (c : Char) : Bool := c.toNat < 0x20 || (0x7F ≤ c.toNat && c.toNat < 0xA0)

/-- The classes of characters, apart from the controls, that do not show on their own. -/
def hiddenClasses : List CodeRanges :=
  [.separators, .format, .privateUse, .fillers, .combining, .unassigned]

/-- Whether a character shows on its own. -/
def shows (c : Char) : Bool :=
  !isControl c && !hiddenClasses.any (·.covers c)

/-- No hidden class has a code point of the first two blocks of controls and letters. -/
theorem bound_hiddenClasses :
    hiddenClasses.all (fun ranges => ranges.all fun range => 0xA0 ≤ range.1) = true := by
  decide +kernel

theorem shows_of_ascii {c : Char} (low : 0x20 ≤ c.toNat) (high : c.toNat < 0x7F) :
    shows c = true := by
  have control : isControl c = false := by
    simp only [isControl, Bool.or_eq_false_iff, Bool.and_eq_false_iff, decide_eq_false_iff_not]
    omega
  have hidden : hiddenClasses.any (·.covers c) = false := by
    rw [List.any_eq_false]
    intro ranges member
    have above := List.all_eq_true.mp bound_hiddenClasses ranges member
    rw [CodeRanges.covers_eq_false above (by omega)]
    decide
  simp [shows, control, hidden]

end Printable

end SqlCompose
