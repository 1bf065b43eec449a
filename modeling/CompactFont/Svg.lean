import CompactFont.Font

/-! A glyph as an SVG document. The y axis points down there, so heights are measured from the top of the
canvas; every segment is written with its own start. -/

namespace CompactFont.Svg

structure Canvas where
  left : Float
  top : Float
  width : Float
  height : Float
deriving Repr, Inhabited

/-- The canvas of a box; nothing is drawn on that of an empty one. -/
def Canvas.ofBounds (box : Bounds) : Canvas :=
  if box.isEmpty then ⟨0.0, 0.0, 0.0, 0.0⟩ else ⟨box.min.x, box.max.y, box.width, box.height⟩

def Canvas.project (canvas : Canvas) (p : Point) : Point := ⟨p.x - canvas.left, canvas.top - p.y⟩

def point (canvas : Canvas) (p : Point) : String :=
  let shown := canvas.project p
  Number.text shown.x ++ "," ++ Number.text shown.y

/-- A move to the start of a segment and the segment itself. -/
def fragment (canvas : Canvas) : Segment → String
  | .line start finish => "M " ++ point canvas start ++ " L " ++ point canvas finish
  | .curve arc =>
    "M " ++ point canvas arc.start ++ " C " ++ point canvas arc.firstControl ++ " "
      ++ point canvas arc.secondControl ++ " " ++ point canvas arc.finish

def opening (canvas : Canvas) : String :=
  "<svg viewBox='0 0 " ++ Number.text canvas.width ++ " " ++ Number.text canvas.height
    ++ "' xmlns='http://www.w3.org/2000/svg' version='1.1'>\n"

/-- A document with one path, a line of text to a segment. -/
def document (canvas : Canvas) (path : List Segment) : String :=
  opening canvas ++ "  <path fill='none' stroke='black' d='\n"
    ++ String.join (path.map fun segment => "    " ++ fragment canvas segment ++ "\n")
    ++ "  '/>\n</svg>\n"

/-- A font box of zeros says nothing, and the glyph's own bounds take its place. -/
def canvas (fontBox : Bounds) (path : List Segment) : Canvas :=
  Canvas.ofBounds (if fontBox == ⟨⟨0.0, 0.0⟩, ⟨0.0, 0.0⟩⟩ then pathBounds path else fontBox)

def render (fontBox : Bounds) (path : List Segment) : String := document (canvas fontBox path) path

end CompactFont.Svg
