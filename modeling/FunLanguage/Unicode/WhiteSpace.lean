import FunLanguage.Unicode.CodeTable

/-!
# The property White_Space

The characters that separate the words of a command line. The no-break space and the line and
paragraph separators are among them; the zero-width space and the byte order mark are not.
-/

namespace FunLanguage.Unicode

/-- The code points with the property White_Space, as maximal ascending ranges. -/
def whiteSpace : CodeTable where
  ranges := [⟨0x9, 0xD⟩, ⟨0x20, 0x20⟩, ⟨0x85, 0x85⟩, ⟨0xA0, 0xA0⟩, ⟨0x1680, 0x1680⟩,
    ⟨0x2000, 0x200A⟩, ⟨0x2028, 0x2029⟩, ⟨0x202F, 0x202F⟩, ⟨0x205F, 0x205F⟩, ⟨0x3000, 0x3000⟩]
  ascending := by decide +kernel

/-- Whether `c` has the property White_Space. -/
def isWhiteSpace (c : Char) : Bool :=
  whiteSpace.contains c

end FunLanguage.Unicode
