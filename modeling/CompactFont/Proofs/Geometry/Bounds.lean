import Mathlib.Data.Set.Image
import CompactFont.Font
import CompactFont.Proofs.Number.Order

/-! The bounds of a path, put together from the boxes of its segments, are those of all its points at once. Each side is
the extreme number among the coordinates there, so neither the order of the segments nor the way they are grouped is
seen in it. -/

namespace CompactFont

open Number

/-- A point that a segment is measured by: one of its ends, or the point of a curve at a thousandth of the parameter. -/
inductive Segment.Measured : Segment → Point → Prop where
  | start (segment : Segment) : Measured segment segment.start
  | finish (segment : Segment) : Measured segment segment.finish
  | inner (arc : Curve) {i : Nat} (after : 1 ≤ i) (before : i ≤ 999) :
      Measured (.curve arc) (arc.at (Float.ofNat i / 1000.0))

/-- The points that a path is measured by. -/
def measured (path : List Segment) : Set Point := {p | ∃ segment ∈ path, segment.Measured p}

theorem Curve.mem_inner_iff {arc : Curve} {p : Point} :
    p ∈ arc.inner ↔ ∃ i, 1 ≤ i ∧ i ≤ 999 ∧ p = arc.at (Float.ofNat i / 1000.0) := by
  rw [inner, List.mem_map]
  constructor
  · rintro ⟨i, small, rfl⟩
    exact ⟨i + 1, Nat.le_add_left 1 i, List.mem_range.1 small, rfl⟩
  · rintro ⟨i, after, before, rfl⟩
    refine ⟨i - 1, List.mem_range.2 (by omega), ?_⟩
    rw [Nat.sub_add_cancel after]

theorem Segment.mem_samples_iff {segment : Segment} {p : Point} : p ∈ segment.samples ↔ segment.Measured p := by
  cases segment with
  | line start finish =>
    rw [samples, List.mem_cons, List.mem_singleton]
    constructor
    · rintro (rfl | rfl)
      · exact .start _
      · exact .finish (.line start p)
    · intro sampled
      cases sampled with
      | start => exact .inl rfl
      | finish => exact .inr rfl
  | curve arc =>
    rw [samples, List.mem_cons, List.mem_cons, Curve.mem_inner_iff]
    constructor
    · rintro (rfl | rfl | ⟨i, after, before, rfl⟩)
      · exact .start (.curve arc)
      · exact .finish (.curve arc)
      · exact .inner arc after before
    · intro sampled
      cases sampled with
      | start => exact .inl rfl
      | finish => exact .inr (.inl rfl)
      | inner arc after before => exact .inr (.inr ⟨_, after, before, rfl⟩)

theorem mem_flatMap_samples {path : List Segment} {p : Point} : p ∈ path.flatMap Segment.samples ↔ p ∈ measured path :=
  List.mem_flatMap.trans (exists_congr fun _ => and_congr_right fun _ => Segment.mem_samples_iff)

namespace Bounds

/-- Each side of the box is the extreme number among the coordinates of the points, or infinite if none is a number. -/
structure Spans (box : Bounds) (points : Set Point) : Prop where
  left : Least (Point.x '' points) box.min.x
  bottom : Least (Point.y '' points) box.min.y
  right : Greatest (Point.x '' points) box.max.x
  top : Greatest (Point.y '' points) box.max.y

/-- No side of the inner box lies beyond the same side of the outer one. -/
structure Within (inner outer : Bounds) : Prop where
  left : outer.min.x ≤ inner.min.x
  bottom : outer.min.y ≤ inner.min.y
  right : inner.max.x ≤ outer.max.x
  top : inner.max.y ≤ outer.max.y

/-- A box with a number for each side. -/
structure Numeric (box : Bounds) : Prop where
  left : box.min.x.isNaN = false
  bottom : box.min.y.isNaN = false
  right : box.max.x.isNaN = false
  top : box.max.y.isNaN = false

/-! ### Boxes put together -/

instance : Std.Associative merge where
  assoc first second third := by simp only [merge, lesser_eq_pick, greater_eq_pick, Outlook.pick_assoc]

variable {box : Bounds}

theorem merge_empty (numeric : box.Numeric) : box.merge empty = box := by
  have left : fromBelow.pick box.min.x (1.0 / 0.0) = box.min.x := Outlook.pick_last numeric.left
  have bottom : fromBelow.pick box.min.y (1.0 / 0.0) = box.min.y := Outlook.pick_last numeric.bottom
  have right : fromAbove.pick box.max.x (-1.0 / 0.0) = box.max.x := Outlook.pick_last numeric.right
  have top : fromAbove.pick box.max.y (-1.0 / 0.0) = box.max.y := Outlook.pick_last numeric.top
  simp only [merge, empty, lesser_eq_pick, greater_eq_pick, left, bottom, right, top]

/-- Points that are added to a box one by one may first be put into a box of their own. -/
theorem merge_around (numeric : box.Numeric) (points : List Point) :
    box.merge (around points) = points.foldl extend box := by
  let singles : List Bounds := points.map fun p => ⟨p, p⟩
  have each (start : Bounds) : points.foldl extend start = singles.foldl merge start := by
    rw [List.foldl_map]
    rfl
  calc
    box.merge (around points) = box.merge (singles.foldl merge empty) := by rw [around, each]
    _ = singles.foldl merge (box.merge empty) := List.foldl_assoc.symm
    _ = points.foldl extend box := by rw [merge_empty numeric, each]

theorem foldl_extend (points : List Point) (box : Bounds) :
    points.foldl extend box =
      ⟨⟨(points.map Point.x).foldl fromBelow.pick box.min.x, (points.map Point.y).foldl fromBelow.pick box.min.y⟩,
        ⟨(points.map Point.x).foldl fromAbove.pick box.max.x, (points.map Point.y).foldl fromAbove.pick box.max.y⟩⟩ := by
  induction points generalizing box with
  | nil => rfl
  | cons p points ih =>
    rw [List.foldl_cons, ih]
    simp only [extend, merge, lesser_eq_pick, greater_eq_pick, List.map_cons, List.foldl_cons]

theorem around_eq (points : List Point) :
    around points =
      ⟨⟨fromBelow.foremost (points.map Point.x), fromBelow.foremost (points.map Point.y)⟩,
        ⟨fromAbove.foremost (points.map Point.x), fromAbove.foremost (points.map Point.y)⟩⟩ :=
  foldl_extend points empty

theorem numeric_around (points : List Point) : (around points).Numeric := by
  rw [around_eq]
  exact ⟨Outlook.isNaN_foremost _, Outlook.isNaN_foremost _, Outlook.isNaN_foremost _, Outlook.isNaN_foremost _⟩

theorem around_append (front back : List Point) : around (front ++ back) = (around front).merge (around back) := by
  rw [merge_around (numeric_around front), around, around, List.foldl_append]

/-! ### The box of points -/

theorem spans_around (points : List Point) : (around points).Spans {p | p ∈ points} := by
  have values (axis : Point → Float) : axis '' {p | p ∈ points} = {x | x ∈ points.map axis} :=
    Set.ext fun x => List.mem_map.symm
  rw [around_eq]
  constructor
  · rw [values]
    exact least_iff.2 (Outlook.foremost_foremost _)
  · rw [values]
    exact least_iff.2 (Outlook.foremost_foremost _)
  · rw [values]
    exact greatest_iff.2 (Outlook.foremost_foremost _)
  · rw [values]
    exact greatest_iff.2 (Outlook.foremost_foremost _)

variable {other : Bounds} {points more : Set Point}

theorem Spans.within (spans : box.Spans points) (subset : points ⊆ more) (wider : other.Spans more) :
    box.Within other where
  left := spans.left.le (Set.image_mono subset) wider.left
  bottom := spans.bottom.le (Set.image_mono subset) wider.bottom
  right := spans.right.le (Set.image_mono subset) wider.right
  top := spans.top.le (Set.image_mono subset) wider.top

/-- The points of a box leave open no more than the signs of its zeros. -/
theorem Spans.beq (spans : box.Spans points) (again : other.Spans points) : (box == other) = true := by
  change (box.min.x == other.min.x && box.min.y == other.min.y && (box.max.x == other.max.x && box.max.y == other.max.y)) = true
  rw [spans.left.beq again.left, spans.bottom.beq again.bottom, spans.right.beq again.right, spans.top.beq again.top]
  rfl

end Bounds

theorem pathBounds_eq_around (path : List Segment) :
    pathBounds path = Bounds.around (path.flatMap Segment.samples) := by
  have fold (before : List Point) : path.foldl (fun box segment => box.merge segment.bounds) (Bounds.around before) =
      Bounds.around (before ++ path.flatMap Segment.samples) := by
    -- The box that the segments are merged into is always that of all points before them.
    induction path generalizing before with
    | nil => rw [List.foldl_nil, List.flatMap_nil, List.append_nil]
    | cons segment path ih =>
      rw [List.foldl_cons, Segment.bounds, ← Bounds.around_append, ih, List.flatMap_cons, List.append_assoc]
  exact fold []

theorem spans_pathBounds (path : List Segment) : (pathBounds path).Spans (measured path) := by
  have same : {p | p ∈ path.flatMap Segment.samples} = measured path := Set.ext fun p => mem_flatMap_samples
  rw [pathBounds_eq_around, ← same]
  exact Bounds.spans_around _

/-- The bounds of a glyph span the points of its path: each side is the least or the greatest number among the
coordinates of the ends of its segments and of 999 points on each of its curves, or infinite if there is none. The
same segments in another order have numerically equal bounds, the bounds of a path in two parts are those of the parts
merged, more segments never shrink them, and they are empty where nothing is drawn. -/
theorem Glyph.bounds_span_path (glyph : Glyph) :
    glyph.bounds.Spans (measured glyph.path) ∧
    (∀ path : List Segment, path.Perm glyph.path → ({ glyph with path }.bounds == glyph.bounds) = true) ∧
    (∀ front back : List Segment, { glyph with path := front ++ back }.bounds =
      { glyph with path := front }.bounds.merge { glyph with path := back }.bounds) ∧
    (∀ path : List Segment, glyph.path ⊆ path → glyph.bounds.Within { glyph with path }.bounds) ∧
    { glyph with path := [] }.bounds = Bounds.empty ∧ Bounds.empty.isEmpty = true := by
  have spans := spans_pathBounds glyph.path
  refine ⟨spans, fun path shuffled => ?_, fun front back => ?_, fun path more => ?_, rfl, rfl⟩
  · have same : measured path = measured glyph.path :=
      Set.ext fun p => exists_congr fun segment => and_congr_left fun _ => shuffled.mem_iff
    exact (same ▸ spans_pathBounds path).beq spans
  · change pathBounds (front ++ back) = (pathBounds front).merge (pathBounds back)
    rw [pathBounds_eq_around, pathBounds_eq_around, pathBounds_eq_around, List.flatMap_append, Bounds.around_append]
  · have wider : measured glyph.path ⊆ measured path := fun p ⟨segment, drawn, sampled⟩ => ⟨segment, more drawn, sampled⟩
    exact spans.within wider (spans_pathBounds path)

/-- A line without a number to the side, from the negative zero up. -/
def strayLine : Segment := .line ⟨0.0 / 0.0, -0.0⟩ ⟨0.0 / 0.0, 1.0⟩

def arch : Segment := .curve ⟨⟨0.0, 0.0⟩, ⟨1.0, 3.0⟩, ⟨2.0, 3.0⟩, ⟨3.0, 0.0⟩⟩

/-- The curve is measured halfway, where it is highest. -/
theorem measured_arch_halfway : (⟨1.5, 2.25⟩ : Point) ∈ measured [arch] := by
  have halfway : Segment.Measured arch _ := .inner _ (show 1 ≤ 500 by decide) (show 500 ≤ 999 by decide)
  have point : (⟨⟨0.0, 0.0⟩, ⟨1.0, 3.0⟩, ⟨2.0, 3.0⟩, ⟨3.0, 0.0⟩⟩ : Curve).at (Float.ofNat 500 / 1000.0) = ⟨1.5, 2.25⟩ := by
    decide +kernel
  rw [point] at halfway
  exact ⟨arch, List.mem_singleton_self _, halfway⟩

/-- A line of which nothing but the heights can be measured, before and behind a curve, and then without it; and the curve
alone, whose box holds its start, its finish and the place where it is halfway. -/
theorem Glyph.bounds_span_path_stray :
    let glyph : Glyph := { sid := 0, name := ".notdef", width := 0.0, path := [strayLine, arch] }
    let line : Glyph := { glyph with path := [strayLine] }
    let curve : Glyph := { glyph with path := [arch] }
    [arch, strayLine].Perm glyph.path ∧ ({ glyph with path := [arch, strayLine] }.bounds == glyph.bounds) = true ∧
      line.path ⊆ glyph.path ∧ line.bounds.Within glyph.bounds ∧
      (line.bounds == ⟨⟨1.0 / 0.0, 0.0⟩, ⟨-1.0 / 0.0, 1.0⟩⟩) = true ∧
      (⟨⟨0.0, 0.0⟩, ⟨3.0, 2.25⟩⟩ : Bounds).Within curve.bounds := by
  intro glyph line curve
  have shuffled : [arch, strayLine].Perm glyph.path := .swap ..
  have more : line.path ⊆ glyph.path := List.cons_subset_cons _ (List.nil_subset _)
  have heights : (line.bounds == ⟨⟨1.0 / 0.0, 0.0⟩, ⟨-1.0 / 0.0, 1.0⟩⟩) = true := by decide +kernel
  have corners : Bounds.around [⟨0.0, 0.0⟩, ⟨3.0, 0.0⟩, ⟨1.5, 2.25⟩] = ⟨⟨0.0, 0.0⟩, ⟨3.0, 2.25⟩⟩ := by decide +kernel
  have reached : ∀ p ∈ [⟨0.0, 0.0⟩, ⟨3.0, 0.0⟩, ⟨1.5, 2.25⟩], p ∈ measured curve.path := by
    have here : arch ∈ curve.path := List.mem_singleton_self _
    exact List.forall_mem_cons.2 ⟨⟨arch, here, .start arch⟩, List.forall_mem_cons.2 ⟨⟨arch, here, .finish arch⟩,
      List.forall_mem_singleton.2 measured_arch_halfway⟩⟩
  have spanned := (Bounds.spans_around _).within reached curve.bounds_span_path.1
  rw [corners] at spanned
  exact ⟨shuffled, glyph.bounds_span_path.2.1 _ shuffled, more, line.bounds_span_path.2.2.2.1 _ more, heights, spanned⟩

end CompactFont
