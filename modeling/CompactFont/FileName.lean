/-! File names for fonts and glyphs: characters that would be in the way become underscores. -/

namespace CompactFont.FileName

/-- Punctuation and the space. -/
def punctuation : List Char := "-!\"#$&'*+,.:;=?@^`| ".toList

def separators : List Char := "./\\".toList

def blank (characters : List Char) (name : String) : String :=
  String.ofList (name.toList.map fun c => if c ∈ characters then '_' else c)

/-- The name of a font without punctuation. -/
def ofFont (name : String) : String := blank punctuation name

/-- The name of a glyph without dots and separators. -/
def ofGlyph (name : String) : String := blank separators name

end CompactFont.FileName
