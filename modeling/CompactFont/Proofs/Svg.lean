import CompactFont.Proofs.Number.Text
import CompactFont.Svg

/-! What a document tells of the glyph that it shows. No number breaks a word of the path data, so that these are
read back as the segments in their order, each of its kind and with the texts of its coordinates. Once the canvas
is known, that is all that the document tells. -/

namespace CompactFont.Svg

/-! ### Segments as they are printed -/

/-- A point as a document has it, by the texts of its numbers. -/
structure Mark where
  x : String
  y : String
deriving DecidableEq, Repr

/-- A segment as a document has it: two points for a line and four for a curve. -/
inductive Print where
  | line (start finish : Mark)
  | curve (start firstControl secondControl finish : Mark)
deriving DecidableEq, Repr

def Mark.text (mark : Mark) : String := mark.x ++ "," ++ mark.y

def Print.text : Print → String
  | .line start finish => "M " ++ start.text ++ " L " ++ finish.text
  | .curve start firstControl secondControl finish =>
    "M " ++ start.text ++ " C " ++ firstControl.text ++ " " ++ secondControl.text ++ " " ++ finish.text

def Mark.words (mark : Mark) : List String := [mark.x, mark.y]

def Print.words : Print → List String
  | .line start finish => "M" :: start.words ++ "L" :: finish.words
  | .curve start firstControl secondControl finish =>
    "M" :: start.words ++ "C" :: firstControl.words ++ secondControl.words ++ finish.words

def Canvas.mark (canvas : Canvas) (p : Point) : Mark :=
  ⟨Number.text (canvas.project p).x, Number.text (canvas.project p).y⟩

def Canvas.print (canvas : Canvas) : Segment → Print
  | .line start finish => .line (canvas.mark start) (canvas.mark finish)
  | .curve arc =>
    .curve (canvas.mark arc.start) (canvas.mark arc.firstControl) (canvas.mark arc.secondControl)
      (canvas.mark arc.finish)

theorem fragment_eq (canvas : Canvas) (segment : Segment) : fragment canvas segment = (canvas.print segment).text := by
  cases segment with
  | line start finish => rfl
  | curve arc => rfl

/-- The row of a segment in the path data. -/
def Print.row (print : Print) : String := "    " ++ print.text ++ "\n"

def rows (prints : List Print) : String := String.join (prints.map Print.row)

/-- A document has nothing of the path but the segments as they are printed. -/
theorem document_eq (canvas : Canvas) (path : List Segment) :
    document canvas path = opening canvas ++ "  <path fill='none' stroke='black' d='\n" ++
      rows (path.map canvas.print) ++ "  '/>\n</svg>\n" := by
  have same : (path.map fun segment => "    " ++ fragment canvas segment ++ "\n") =
      (path.map canvas.print).map Print.row := by
    rw [List.map_map]
    apply List.map_congr_left
    intro segment _
    rw [fragment_eq, Function.comp_apply, Print.row]
  rw [document, same, rows]

/-! ### Words -/

/-- What stands between words. -/
def isBreak (c : Char) : Bool := ['\n', ' ', ','].contains c

def words (cs : List Char) : List String := ((cs.splitOnP isBreak).filter (!·.isEmpty)).map String.ofList

theorem words_append_break {c : Char} (breaks : isBreak c = true) (front back : List Char) :
    words (front ++ c :: back) = words front ++ words back := by
  unfold words
  rw [List.splitOnP_append_cons front back breaks, List.filter_append, List.map_append]

theorem words_cons_break {c : Char} (breaks : isBreak c = true) (back : List Char) : words (c :: back) = words back :=
  words_append_break breaks [] back

theorem words_of_unbroken {cs : List Char} (some : cs ≠ []) (unbroken : ∀ c ∈ cs, isBreak c = false) :
    words cs = [String.ofList cs] := by
  unfold words
  rw [List.splitOnP_eq_singleton unbroken, List.filter_cons_of_pos]
  · rfl
  · rw [Bool.not_eq_true', List.isEmpty_eq_false_iff]
    exact some

theorem words_letter {c : Char} (unbroken : isBreak c = false) (back : List Char) :
    words (c :: ' ' :: back) = String.ofList [c] :: words back := by
  have letter : words [c] = [String.ofList [c]] :=
    words_of_unbroken (List.cons_ne_nil _ _) (List.forall_mem_singleton.2 unbroken)
  calc
    words (c :: ' ' :: back) = words [c] ++ words back := words_append_break rfl [c] back
    _ = String.ofList [c] :: words back := by rw [letter, List.singleton_append]

/-- What a number is written with is neither a quote nor a break. -/
theorem plain_of_mem_characters {x : Float} {c : Char} (member : c ∈ Number.characters x) :
    c ∉ ['\'', '\n', ' ', ','] := by
  have apart : ∀ c ∈ ['\'', '\n', ' ', ','], c.isDigit = false ∧ c ∉ Number.signs := by
    rw [List.forall_mem_cons, List.forall_mem_cons, List.forall_mem_cons, List.forall_mem_singleton]
    decide
  intro special
  obtain ⟨noDigit, noSign⟩ := apart c special
  rcases Number.mem_characters member with digit | sign
  · exact Bool.false_ne_true (noDigit.symm.trans digit)
  · exact noSign sign

theorem words_number (x : Float) : words (Number.text x).toList = [Number.text x] := by
  rw [Number.text, String.toList_ofList]
  apply words_of_unbroken Number.characters_ne_nil
  intro c member
  rw [isBreak, List.contains_eq_mem, decide_eq_false_iff_not]
  exact fun breaks => plain_of_mem_characters member (List.mem_cons_of_mem _ breaks)

theorem words_mark (canvas : Canvas) (p : Point) : words (canvas.mark p).text.toList = (canvas.mark p).words := by
  simp only [Mark.text, String.toList_append, String.reduceToList, List.append_assoc, List.cons_append, List.nil_append]
  calc
    words ((canvas.mark p).x.toList ++ ',' :: (canvas.mark p).y.toList) =
        words (canvas.mark p).x.toList ++ words (canvas.mark p).y.toList := words_append_break rfl _ _
    _ = (canvas.mark p).words := by
      rw [Canvas.mark, words_number, words_number]
      rfl

theorem words_print (canvas : Canvas) (segment : Segment) :
    words (canvas.print segment).text.toList = (canvas.print segment).words := by
  cases segment with
  | line start finish =>
    simp only [Canvas.print, Print.text, String.toList_append, String.reduceToList, List.append_assoc, List.cons_append,
      List.nil_append]
    rw [words_letter rfl, words_append_break rfl, words_letter rfl, words_mark, words_mark]
    rfl
  | curve arc =>
    simp only [Canvas.print, Print.text, String.toList_append, String.reduceToList, List.append_assoc, List.cons_append,
      List.nil_append]
    rw [words_letter rfl, words_append_break rfl, words_letter rfl, words_append_break rfl, words_append_break rfl,
      words_mark, words_mark, words_mark, words_mark]
    rfl

/-! ### Reading a document -/

/-- The path data stand in the last quotes of a document. -/
def pathData (text : String) : List Char := (text.toList.splitOn '\'').dropLast.getLastD []

/-- Reads words as segments, a move before each. -/
def read? : List String → Option (List Print)
  | [] => some []
  | "M" :: x :: y :: "L" :: x₁ :: y₁ :: rest => (read? rest).map (.line ⟨x, y⟩ ⟨x₁, y₁⟩ :: ·)
  | "M" :: x :: y :: "C" :: x₁ :: y₁ :: x₂ :: y₂ :: x₃ :: y₃ :: rest =>
    (read? rest).map (.curve ⟨x, y⟩ ⟨x₁, y₁⟩ ⟨x₂, y₂⟩ ⟨x₃, y₃⟩ :: ·)
  | _ => none

theorem read?_print_append (print : Print) (rest : List String) :
    read? (print.words ++ rest) = (read? rest).map (print :: ·) := by
  cases print with
  | line start finish => rfl
  | curve start firstControl secondControl finish => rfl

theorem read?_flatMap_words (prints : List Print) : read? (prints.flatMap Print.words) = some prints := by
  induction prints with
  | nil => rfl
  | cons print prints ih => rw [List.flatMap_cons, read?_print_append, ih, Option.map_some]

theorem pathData_eq {text : String} {front data back : List Char}
    (cut : text.toList = front ++ '\'' :: (data ++ '\'' :: back)) (plain : '\'' ∉ data) (last : '\'' ∉ back) :
    pathData text = data := by
  have pieces : text.toList.splitOn '\'' = front.splitOn '\'' ++ [data] ++ [back] := by
    rw [cut, List.splitOn_append_cons_self, List.splitOn_append_cons_self, List.splitOn_eq_singleton plain,
      List.splitOn_eq_singleton last, List.append_assoc]
  rw [pathData, pieces, List.dropLast_concat, List.getLastD_concat]

theorem quote_not_mem_number (x : Float) : '\'' ∉ (Number.text x).toList := by
  rw [Number.text, String.toList_ofList]
  exact fun member => plain_of_mem_characters member List.mem_cons_self

theorem quote_not_mem_mark (canvas : Canvas) (p : Point) : '\'' ∉ (canvas.mark p).text.toList := by
  simp only [Canvas.mark, Mark.text, String.toList_append, List.mem_append, quote_not_mem_number, or_false]
  decide

theorem quote_not_mem_print (canvas : Canvas) (segment : Segment) : '\'' ∉ (canvas.print segment).text.toList := by
  cases segment with
  | line start finish =>
    simp only [Canvas.print, Print.text, String.toList_append, List.mem_append, quote_not_mem_mark, or_false]
    decide
  | curve arc =>
    simp only [Canvas.print, Print.text, String.toList_append, List.mem_append, quote_not_mem_mark, or_false]
    decide

theorem quote_not_mem_rows (canvas : Canvas) (path : List Segment) :
    '\'' ∉ (rows (path.map canvas.print)).toList := by
  rw [rows, String.toList_join, List.mem_flatMap]
  rintro ⟨row, known, member⟩
  obtain ⟨print, printed, rfl⟩ := List.mem_map.1 known
  obtain ⟨segment, _, rfl⟩ := List.mem_map.1 printed
  simp only [Print.row, String.toList_append, List.mem_append, quote_not_mem_print, or_false] at member
  exact absurd member (by decide)

theorem pathData_document (canvas : Canvas) (path : List Segment) :
    pathData (document canvas path) = '\n' :: ((rows (path.map canvas.print)).toList ++ [' ', ' ']) := by
  have cut : (document canvas path).toList =
      (opening canvas ++ "  <path fill='none' stroke='black' d=").toList ++ '\'' ::
        ('\n' :: ((rows (path.map canvas.print)).toList ++ [' ', ' ']) ++ '\'' :: "/>\n</svg>\n".toList) := by
    simp only [document_eq, String.toList_append, String.reduceToList, List.append_assoc, List.cons_append,
      List.nil_append]
  apply pathData_eq cut
  · simp only [List.mem_cons, List.mem_append, quote_not_mem_rows]
    decide
  · decide

theorem words_rows (canvas : Canvas) (path : List Segment) (rest : List Char) :
    words ((rows (path.map canvas.print)).toList ++ rest) =
      (path.map canvas.print).flatMap Print.words ++ words rest := by
  induction path with
  | nil => rfl
  | cons segment path ih =>
    have cut : (rows ((segment :: path).map canvas.print)).toList ++ rest =
        ' ' :: ' ' :: ' ' :: ' ' :: ((canvas.print segment).text.toList ++ '\n' ::
          ((rows (path.map canvas.print)).toList ++ rest)) := by
      simp only [rows, Print.row, List.map_cons, String.join_cons, String.toList_append, String.reduceToList,
        List.append_assoc, List.cons_append, List.nil_append]
    rw [cut, words_cons_break rfl, words_cons_break rfl, words_cons_break rfl, words_cons_break rfl,
      words_append_break rfl, words_print, ih, List.map_cons, List.flatMap_cons, List.append_assoc]

/-- Reads the segments in the path data of a document. -/
def drawing? (text : String) : Option (List Print) := read? (words (pathData text))

theorem drawing?_document (canvas : Canvas) (path : List Segment) :
    drawing? (document canvas path) = some (path.map canvas.print) := by
  have trailing : words [' ', ' '] = [] := rfl
  rw [drawing?, pathData_document, words_cons_break rfl, words_rows, trailing, List.append_nil, read?_flatMap_words]

/-- A document that is drawn on the canvas of a font tells the segments as they are printed there, and no more: two
paths have the same document if and only if they are as long and have in each place a segment of the same kind with
the same texts of its coordinates. -/
theorem render_tells_prints (box : Bounds) (sized : (box == ⟨⟨0.0, 0.0⟩, ⟨0.0, 0.0⟩⟩) = false)
    (path other : List Segment) :
    drawing? (render box path) = some (path.map (Canvas.ofBounds box).print) ∧
      (render box path = render box other ↔
        path.map (Canvas.ofBounds box).print = other.map (Canvas.ofBounds box).print) := by
  have own (path : List Segment) : render box path = document (Canvas.ofBounds box) path := by
    rw [render, canvas, sized]
    rfl
  rw [own, own]
  constructor
  · exact drawing?_document _ path
  · constructor
    · intro same
      apply Option.some.inj
      rw [← drawing?_document, ← drawing?_document, same]
    · intro same
      rw [document_eq, document_eq, same]

/-- A line and a curve on the canvas of a font; a zero of either sign is printed alike. -/
theorem render_tells_prints_line_curve :
    let box : Bounds := ⟨⟨-50.0, -100.0⟩, ⟨450.0, 800.0⟩⟩
    let path (zero : Float) : List Segment :=
      [.line ⟨zero, zero⟩ ⟨100.0, zero⟩, .curve ⟨⟨100.0, 0.0⟩, ⟨zero, 0.0⟩, ⟨100.0, 50.0⟩, ⟨0.5, 50.0⟩⟩]
    (box == ⟨⟨0.0, 0.0⟩, ⟨0.0, 0.0⟩⟩) = false ∧
      drawing? (render box (path 0.0)) = some [.line ⟨"50", "800"⟩ ⟨"150", "800"⟩,
        .curve ⟨"150", "800"⟩ ⟨"50", "800"⟩ ⟨"150", "750"⟩ ⟨"50.5", "750"⟩] ∧
      render box (path 0.0) = render box (path (-0.0)) := by
  intro box path
  have sized : (box == ⟨⟨0.0, 0.0⟩, ⟨0.0, 0.0⟩⟩) = false := by decide +kernel
  obtain ⟨read, same⟩ := render_tells_prints box sized (path 0.0) (path (-0.0))
  exact ⟨sized, read.trans (by decide +kernel), same.2 (by decide +kernel)⟩

end CompactFont.Svg
