import GenericTypes.CharClass

/-!
# Blanks

Spaces of every width, tabs and the ends of lines, paragraphs and pages. The
blanks of the basic alphabet are among them.
-/

namespace GenericTypes

namespace CharClass

/-- Blanks, in order. -/
def blank : CharClass where
  ranges :=
    [ (0x9, 0xd), (0x20, 0x20), (0x85, 0x85), (0xa0, 0xa0), (0x1680, 0x1680),
      (0x2000, 0x200a), (0x2028, 0x2029), (0x202f, 0x202f), (0x205f, 0x205f),
      (0x3000, 0x3000) ]

end CharClass

end GenericTypes
