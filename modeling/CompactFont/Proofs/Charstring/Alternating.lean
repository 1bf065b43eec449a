import CompactFont.Proofs.Charstring.Strokes

/-! The operators whose strokes follow the two axes in turn. Each does what the plain operator for its kind of stroke
does when every coordinate is written out, the zeros too. -/

namespace CompactFont.Charstring

def DrawOperator.alternatingLine (horizontal : Bool) : DrawOperator := if horizontal then .hlineto else .vlineto

def DrawOperator.alternatingCurve (horizontal : Bool) : DrawOperator := if horizontal then .hvcurveto else .vhcurveto

/-- Whether the axis at an index is the horizontal one, when axes take turns. -/
def axisAt (horizontal : Bool) (i : Nat) : Bool := if i % 2 = 0 then horizontal else !horizontal

@[simp] theorem axisAt_zero (horizontal : Bool) : axisAt horizontal 0 = horizontal := rfl

@[simp] theorem axisAt_succ (horizontal : Bool) (i : Nat) : axisAt horizontal (i + 1) = axisAt (!horizontal) i := by
  unfold axisAt
  by_cases even : i % 2 = 0
  · rw [if_pos even, if_neg (by omega)]
  · rw [if_neg even, if_pos (by omega), Bool.not_not]

/-! ### Lines -/

/-- Distances along the axes in turn, each with the coordinate that does not change. -/
def spelledLines (horizontal : Bool) (distances : List Float) : List Float :=
  (distances.mapIdx fun i d => if axisAt horizontal i then [d, 0.0] else [0.0, d]).flatten

theorem alternatingLines_eq_mapIdx (horizontal : Bool) (distances : List Float) :
    alternatingLines horizontal distances =
      distances.mapIdx fun i d => if axisAt horizontal i then .line d 0.0 else .line 0.0 d := by
  induction distances generalizing horizontal with
  | nil => rfl
  | cons d distances ih =>
    simp only [alternatingLines, List.mapIdx_cons, axisAt_succ, ih]
    rfl

theorem lines?_spelledLines (horizontal : Bool) (distances : List Float) :
    lines? (spelledLines horizontal distances) = some (alternatingLines horizontal distances) := by
  rw [alternatingLines_eq_mapIdx]
  refine repeats_lines.flatten (fun i d => ?_) distances
  cases axisAt horizontal i <;> rfl

theorem strokes?_alternatingLine (horizontal : Bool) (distances : List Float) :
    (DrawOperator.alternatingLine horizontal).strokes? distances =
      DrawOperator.rlineto.strokes? (spelledLines horizontal distances) := by
  have plain : DrawOperator.rlineto.strokes? (spelledLines horizontal distances) =
      nonempty? (some (alternatingLines horizontal distances)) :=
    congrArg nonempty? (lines?_spelledLines horizontal distances)
  rw [plain]
  cases horizontal <;> rfl

theorem exists_strokes_alternatingLine_iff (horizontal : Bool) (distances : List Float) :
    (∃ strokes, (DrawOperator.alternatingLine horizontal).strokes? distances = some strokes) ↔
      1 ≤ distances.length := by
  have reads : (DrawOperator.alternatingLine horizontal).strokes? distances =
      nonempty? (some (alternatingLines horizontal distances)) := by
    cases horizontal <;> rfl
  simp [reads, nonempty?_eq_some_iff, alternatingLines_eq_mapIdx, Nat.one_le_iff_ne_zero]

/-! ### Curves -/

/-- The curve of four operands that leaves along one axis and arrives along the other, but for `slant`. -/
def Quad.turn (horizontal : Bool) (slant : Float) (quad : Quad) : List Float :=
  if horizontal then [quad.a, 0.0, quad.b, quad.c, slant, quad.d] else [0.0, quad.a, quad.b, quad.c, quad.d, slant]

/-- What is left over belongs to the last of `count` curves. -/
def lastSlant (odd? : Option Float) (count i : Nat) : Float := if i + 1 = count then odd?.getD 0.0 else 0.0

@[simp] theorem lastSlant_succ (odd? : Option Float) (count i : Nat) :
    lastSlant odd? (count + 1) (i + 1) = lastSlant odd? count i := by
  simp [lastSlant]

/-- Groups with axes that take turns, each with the coordinates that do not change. -/
def spelledTurns (horizontal : Bool) (groups : Groups) : List Float :=
  (groups.quads.mapIdx fun i quad =>
    quad.turn (axisAt horizontal i) (lastSlant groups.odd? groups.quads.length i)).flatten

/-- The strokes of the same groups. -/
def turns (horizontal : Bool) (quads : List Quad) (odd? : Option Float) : List Stroke :=
  quads.mapIdx fun i quad => quarter (axisAt horizontal i) quad.a quad.b quad.c quad.d (lastSlant odd? quads.length i)

theorem strokes?_spelledTurns (horizontal : Bool) (groups : Groups) :
    DrawOperator.rrcurveto.strokes? (spelledTurns horizontal groups) =
      some (turns horizontal groups.quads groups.odd?) := by
  refine repeats_curves.strokes?_flatten (fun i quad => ?_) groups.full
  cases axisAt horizontal i <;> rfl

theorem turns_cons (horizontal : Bool) (quad : Quad) {quads : List Quad} (more : quads ≠ []) (odd? : Option Float) :
    turns horizontal (quad :: quads) odd? =
      quarter horizontal quad.a quad.b quad.c quad.d 0.0 :: turns (!horizontal) quads odd? := by
  have inner : lastSlant odd? (quads.length + 1) 0 = 0.0 := by
    have positive := List.length_pos_iff.2 more
    exact if_neg (by omega)
  simp only [turns, List.mapIdx_cons, List.length_cons, axisAt_zero, axisAt_succ, lastSlant_succ, inner]

theorem alternatingCurves?_eq_turns (horizontal : Bool) {quads : List Quad} (full : quads ≠ []) (odd? : Option Float) :
    alternatingCurves? horizontal (quads.flatMap Quad.operands ++ odd?.toList) =
      some (turns horizontal quads odd?) := by
  induction quads generalizing horizontal with
  | nil => exact absurd rfl full
  | cons quad quads ih =>
    cases quads with
    | nil => cases odd? <;> rfl
    | cons next quads =>
      have rest := ih (!horizontal) (List.cons_ne_nil next quads)
      rw [turns_cons horizontal quad (List.cons_ne_nil next quads)]
      exact congrArg (Option.map (quarter horizontal quad.a quad.b quad.c quad.d 0.0 :: ·)) rest

theorem length_of_alternatingCurves? {horizontal : Bool} {operands : List Float} {strokes : List Stroke}
    (reads : alternatingCurves? horizontal operands = some strokes) :
    4 ≤ operands.length ∧ (operands.length % 4 = 0 ∨ operands.length % 4 = 1) := by
  fun_induction alternatingCurves? horizontal operands generalizing strokes with
  | case1 => simp
  | case2 => simp
  | case3 horizontal a b c d rest _ _ ih =>
    obtain ⟨others, readsRest, _⟩ := Option.map_eq_some_iff.1 reads
    have counted := ih readsRest
    simp only [List.length_cons]
    omega
  | case4 => cases reads

theorem strokes?_alternatingCurve (horizontal : Bool) (operands : List Float) :
    (DrawOperator.alternatingCurve horizontal).strokes? operands = alternatingCurves? horizontal operands := by
  cases horizontal <;> rfl

theorem strokes?_alternatingCurve_oddLast (horizontal : Bool) (groups : Groups) :
    (DrawOperator.alternatingCurve horizontal).strokes? groups.oddLast =
      DrawOperator.rrcurveto.strokes? (spelledTurns horizontal groups) := by
  rw [strokes?_alternatingCurve, strokes?_spelledTurns]
  exact alternatingCurves?_eq_turns horizontal groups.full groups.odd?

theorem exists_strokes_alternatingCurve_iff (horizontal : Bool) (operands : List Float) :
    (∃ strokes, (DrawOperator.alternatingCurve horizontal).strokes? operands = some strokes) ↔
      4 ≤ operands.length ∧ (operands.length % 4 = 0 ∨ operands.length % 4 = 1) := by
  constructor
  · intro ⟨strokes, reads⟩
    rw [strokes?_alternatingCurve] at reads
    exact length_of_alternatingCurves? reads
  · intro ⟨enough, fits⟩
    obtain ⟨groups, rfl⟩ := Groups.exists_oddLast enough fits
    exact ⟨_, (strokes?_alternatingCurve_oddLast horizontal groups).trans (strokes?_spelledTurns horizontal groups)⟩

/-- With an open subpath, lines along the axes in turn take one operand or more and are plain lines; curves take groups
of four, with one operand left over at the end or none, and are plain curves. Nothing but the operands and the pen
changes. -/
theorem Machine.draws_alternating {machine : Machine} (begun : machine.registers.pen.hasSubpath = true)
    (context : Context) (horizontal : Bool) (operands : List Float) :
    ((∃ after, Draws context machine (.alternatingLine horizontal) operands after) ↔ 1 ≤ operands.length) ∧
    (∀ after, Draws context machine (.alternatingLine horizontal) operands after ↔
      Draws context machine .rlineto (spelledLines horizontal operands) after) ∧
    ((∃ after, Draws context machine (.alternatingCurve horizontal) operands after) ↔
      4 ≤ operands.length ∧ (operands.length % 4 = 0 ∨ operands.length % 4 = 1)) ∧
    (∀ after, Draws context machine (.alternatingCurve horizontal) operands after ↔
      ∃ groups : Groups, operands = groups.oddLast ∧
        Draws context machine .rrcurveto (spelledTurns horizontal groups) after) ∧
    ∀ op after, Draws context machine op operands after →
      after = { machine with registers := { machine.registers with operands := [], pen := after.registers.pen } } := by
  have curveCount := exists_strokes_alternatingCurve_iff horizontal operands
  refine ⟨?lineCount, ?lines, (exists_draws_iff begun).trans curveCount, ?curves, fun op after => eq_of_draws⟩
  case lineCount => exact (exists_draws_iff begun).trans (exists_strokes_alternatingLine_iff horizontal operands)
  case lines => exact fun after => draws_congr (strokes?_alternatingLine horizontal operands)
  case curves =>
    intro after
    refine draws_iff_spelled (strokes?_alternatingCurve_oddLast horizontal) fun reads => ?_
    obtain ⟨enough, fits⟩ := curveCount.1 reads
    exact Groups.exists_oddLast enough fits

/-- Two curves of `hvcurveto`, the last of which has a slant. -/
theorem Machine.draws_alternating_two :
    let machine : Machine := { program := [], registers := { pen := Pen.move {} 1.0 2.0 } }
    ∃ after, Draws {} machine .rrcurveto [1.0, 0.0, 2.0, 3.0, 0.0, 4.0, 0.0, 5.0, 6.0, 7.0, 8.0, 9.0] after ∧
      Draws {} machine .hvcurveto [1.0, 2.0, 3.0, 4.0, 5.0, 6.0, 7.0, 8.0, 9.0] after ∧
      after.registers.pen.path =
        [.curve ⟨⟨1.0, 2.0⟩, ⟨2.0, 2.0⟩, ⟨4.0, 5.0⟩, ⟨4.0, 9.0⟩⟩,
          .curve ⟨⟨4.0, 9.0⟩, ⟨4.0, 14.0⟩, ⟨10.0, 21.0⟩, ⟨18.0, 30.0⟩⟩] := by
  intro machine
  let after := machine.drawn [.curve 1.0 0.0 2.0 3.0 0.0 4.0, .curve 0.0 5.0 6.0 7.0 8.0 9.0]
  let groups : Groups := ⟨[⟨1.0, 2.0, 3.0, 4.0⟩, ⟨5.0, 6.0, 7.0, 8.0⟩], nofun, some 9.0⟩
  have begun : machine.registers.pen.hasSubpath = true := rfl
  have plain : Draws {} machine .rrcurveto [1.0, 0.0, 2.0, 3.0, 0.0, 4.0, 0.0, 5.0, 6.0, 7.0, 8.0, 9.0] after := rfl
  have curves := (draws_alternating begun {} true [1.0, 2.0, 3.0, 4.0, 5.0, 6.0, 7.0, 8.0, 9.0]).2.2.2.1
  have path : ((Pen.move {} 1.0 2.0).draw [.curve 1.0 0.0 2.0 3.0 0.0 4.0, .curve 0.0 5.0 6.0 7.0 8.0 9.0]).path =
      [.curve ⟨⟨1.0, 2.0⟩, ⟨2.0, 2.0⟩, ⟨4.0, 5.0⟩, ⟨4.0, 9.0⟩⟩,
        .curve ⟨⟨4.0, 9.0⟩, ⟨4.0, 14.0⟩, ⟨10.0, 21.0⟩, ⟨18.0, 30.0⟩⟩] := by decide +kernel
  exact ⟨after, plain, (curves after).2 ⟨groups, rfl, plain⟩, path⟩

end CompactFont.Charstring
