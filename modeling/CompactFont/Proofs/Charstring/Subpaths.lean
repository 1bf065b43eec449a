import Mathlib.Data.List.Chain
import CompactFont.Proofs.Charstring.Effects
import CompactFont.Proofs.Charstring.Execution

/-! The outline of a glyph is closed and connected: one subpath for each move, drawn without a gap and closed by
a line back to where it began. Closing leaves the pen where it is, so a move goes from where the last subpath
was drawn to, not from where it was closed. -/

namespace CompactFont

/-- Segments drawn one after the other from `first`, of which the last is a line from `corner` to `start`. -/
structure ClosesFrom (first corner start : Point) (segments : List Segment) : Prop where
  begins : segments.head?.map Segment.start = some first
  linked : segments.IsChain fun segment next => next.start = segment.finish
  closes : segments.getLast? = some (.line corner start)

theorem closesFrom_line (corner start : Point) : ClosesFrom corner corner start [.line corner start] where
  begins := rfl
  linked := .singleton _
  closes := rfl

theorem closesFrom_cons {corner start : Point} {segment : Segment} {segments : List Segment}
    (rest : ClosesFrom segment.finish corner start segments) :
    ClosesFrom segment.start corner start (segment :: segments) := by
  cases segments with
  | nil => cases rest.begins
  | cons next segments =>
    exact ⟨rfl, .cons_cons (Option.some.inj rest.begins) rest.linked, rest.closes⟩

@[simp] theorem Stroke.start_segment (p : Point) (stroke : Stroke) : (stroke.segment p).start = p := by
  cases stroke <;> rfl

namespace Charstring

/-- The way that a move goes by its own operands, which are on top. -/
def MoveOperator.way? : MoveOperator → List Float → Option (Float × Float)
  | .rmoveto, dy :: dx :: _ => some (dx, dy)
  | .hmoveto, dx :: _ => some (dx, 0.0)
  | .vmoveto, dy :: _ => some (0.0, dy)
  | _, _ => none

/-- One closed subpath for each move. A move starts at the point from which the subpath before it was closed. -/
inductive Subpaths : Point → List (MoveOperator × List Float) → List (List Segment) → Prop where
  | none (point : Point) : Subpaths point [] []
  | move {point corner : Point} {op : MoveOperator} {operands : List Float} {dx dy : Float}
      {moves : List (MoveOperator × List Float)} {segments : List Segment} {subpaths : List (List Segment)}
      (way : op.way? operands = some (dx, dy))
      (closes : ClosesFrom (point.translate dx dy) corner (point.translate dx dy) segments)
      (later : Subpaths corner moves subpaths) :
      Subpaths point ((op, operands) :: moves) (segments :: subpaths)

/-- The moves among executed operators, each with the operands that it finds. -/
def movesOf (executed : List (Operator × Registers)) : List (MoveOperator × List Float) :=
  executed.filterMap fun
    | (.move op, found) => some (op, found.operands)
    | _ => none

/-- What is added to the path of a pen until the end: the rest of its open subpath, if it has one, and one
subpath for each move. -/
def Completes (pen : Pen) (moves : List (MoveOperator × List Float)) (added : List Segment) : Prop :=
  match pen.subpath? with
  | none => ∃ subpaths, added = subpaths.flatten ∧ Subpaths pen.point moves subpaths
  | some start => ∃ corner rest subpaths, added = rest ++ subpaths.flatten ∧
      ClosesFrom pen.point corner start rest ∧ Subpaths corner moves subpaths

theorem completes_none {pen : Pen} {moves : List (MoveOperator × List Float)} {added : List Segment}
    (absent : pen.subpath? = none) :
    Completes pen moves added ↔ ∃ subpaths, added = subpaths.flatten ∧ Subpaths pen.point moves subpaths := by
  rw [Completes, absent]

theorem completes_some {pen : Pen} {moves : List (MoveOperator × List Float)} {added : List Segment}
    {start : Point} (begun : pen.subpath? = some start) :
    Completes pen moves added ↔ ∃ corner rest subpaths, added = rest ++ subpaths.flatten ∧
      ClosesFrom pen.point corner start rest ∧ Subpaths corner moves subpaths := by
  rw [Completes, begun]

/-- Closing a pen and going on from its point completes it. -/
theorem completes_close {pen : Pen} {moves : List (MoveOperator × List Float)} {subpaths : List (List Segment)}
    (later : Subpaths pen.point moves subpaths) :
    ∃ added, pen.close.path ++ subpaths.flatten = pen.path ++ added ∧ Completes pen moves added := by
  cases begun : pen.subpath? with
  | none =>
    refine ⟨subpaths.flatten, ?_, (completes_none begun).2 ⟨subpaths, rfl, later⟩⟩
    simp only [Pen.close, begun]
  | some start =>
    refine ⟨.line pen.point start :: subpaths.flatten, ?_, (completes_some begun).2
      ⟨pen.point, [.line pen.point start], subpaths, rfl, closesFrom_line _ _, later⟩⟩
    simp [Pen.close, begun, Pen.path]

theorem completes_move {pen : Pen} {op : MoveOperator} {operands : List Float} {dx dy : Float}
    {moves : List (MoveOperator × List Float)} {added : List Segment} (way : op.way? operands = some (dx, dy))
    (later : Completes (pen.move dx dy) moves added) :
    ∃ more, (pen.move dx dy).path ++ added = pen.path ++ more ∧
      Completes pen ((op, operands) :: moves) more := by
  have point : pen.close.point = pen.point := by
    unfold Pen.close
    split <;> rfl
  obtain ⟨corner, rest, subpaths, rfl, closes, others⟩ := (completes_some rfl).1 later
  have begins : (pen.move dx dy).point = pen.close.point.translate dx dy := rfl
  rw [begins, point] at closes
  obtain ⟨more, path, completes⟩ := completes_close (Subpaths.move way closes others)
  refine ⟨more, ?_, completes⟩
  rw [← path]
  rfl

theorem completes_stroke {pen : Pen} {stroke : Stroke} {moves : List (MoveOperator × List Float)}
    {added : List Segment} (begun : pen.hasSubpath = true) (later : Completes (pen.stroke stroke) moves added) :
    ∃ more, (pen.stroke stroke).path ++ added = pen.path ++ more ∧ Completes pen moves more := by
  obtain ⟨start, open_⟩ := Option.isSome_iff_exists.1 begun
  have same : (pen.stroke stroke).subpath? = some start := open_
  obtain ⟨corner, rest, subpaths, rfl, closes, others⟩ := (completes_some same).1 later
  have joined := closesFrom_cons closes
  rw [Stroke.start_segment] at joined
  refine ⟨stroke.segment pen.point :: rest ++ subpaths.flatten, ?_, (completes_some open_).2
    ⟨corner, _, subpaths, rfl, joined, others⟩⟩
  simp [Pen.stroke, Pen.path]

theorem completes_draw {pen : Pen} {strokes : List Stroke} {moves : List (MoveOperator × List Float)}
    {added : List Segment} (begun : pen.hasSubpath = true) (later : Completes (pen.draw strokes) moves added) :
    ∃ more, (pen.draw strokes).path ++ added = pen.path ++ more ∧ Completes pen moves more := by
  induction strokes generalizing pen with
  | nil => exact ⟨added, rfl, later⟩
  | cons stroke strokes ih =>
    have still : (pen.stroke stroke).hasSubpath = true := begun
    obtain ⟨more, path, completes⟩ := ih still later
    obtain ⟨all, first, completed⟩ := completes_stroke begun completes
    exact ⟨all, path.trans first, completed⟩

/-- A successful move goes by the operands on top, those that are left when the width is taken. -/
theorem way?_of_moveBy? {op : MoveOperator} {left operands : List Float} {way : Float × Float}
    (above : left <+: operands) (found : Registers.moveBy? op left = some way) : op.way? operands = some way := by
  obtain ⟨below, rfl⟩ := above
  unfold Registers.moveBy? at found
  split at found
  · exact found
  · exact found
  · exact found
  · cases found

namespace Machine

variable {context : Context}

/-- What a step that goes on adds to the path: what a move closes, what a draw operator draws, or nothing. -/
theorem completes_of_effect {op? : Option Operator} {registers after : Registers}
    {moves : List (MoveOperator × List Float)} {added : List Segment} (effect : Effect op? registers after)
    (later : Completes after.pen moves added) :
    ∃ more, after.pen.path ++ added = registers.pen.path ++ more ∧
      Completes registers.pen (movesOf (op?.map (·, registers)).toList ++ moves) more := by
  cases effect with
  | push => exact ⟨added, rfl, later⟩
  | act acts =>
    cases acts with
    | push number => cases number
    | stem acts =>
      obtain ⟨_, rfl⟩ := Registers.declare_eq_ok_iff.1 acts
      rw [Registers.pen_takeWidth] at later ⊢
      exact ⟨added, rfl, later⟩
    | mask acts =>
      obtain ⟨_, rfl⟩ := Registers.declare_eq_ok_iff.1 acts
      rw [Registers.pen_takeWidth] at later ⊢
      exact ⟨added, rfl, later⟩
    | move acts =>
      obtain ⟨dx, dy, way, rfl⟩ := Registers.move_eq_ok_iff.1 acts
      exact completes_move (way?_of_moveBy? (Registers.operands_takeWidth_prefix _ _) way) later
    | draw acts =>
      obtain ⟨begun, strokes, _, rfl⟩ := Registers.draw_eq_ok_iff.1 acts
      exact completes_draw begun later
    | compute acts =>
      obtain ⟨workspace, _, rfl⟩ := Registers.compute_eq_ok_iff.1 acts
      exact ⟨added, rfl, later⟩
  | call calls _ =>
    rcases calls with rfl | rfl
    · exact ⟨added, rfl, later⟩
    · exact ⟨added, rfl, later⟩
  | leave leaves =>
    rcases leaves with rfl | rfl
    · exact ⟨added, rfl, later⟩
    · exact ⟨added, rfl, later⟩

theorem completes_run {machine : Machine} {registers : Registers} (finishes : Finishes context machine registers) :
    ∃ added, registers.pen.path = machine.registers.pen.path ++ added ∧
      Completes machine.registers.pen (movesOf (executed context machine)) added := by
  induction finishes with
  | @done machine registers event? ends =>
    obtain ⟨_, _, _, _, closed⟩ := step_eq_done_iff.1 ends
    have last := completes_close (Subpaths.none machine.registers.pen.point)
    rw [executed_of_done ends, Registers.endchar_eq_ok closed]
    rw [List.flatten_nil, List.append_nil] at last
    exact last
  | @goes machine following registers goes _ ih =>
    obtain ⟨added, path, later⟩ := ih
    obtain ⟨more, before, completes⟩ := completes_of_effect (effect_of_goes goes) later
    refine ⟨more, path.trans before, ?_⟩
    rw [executed_of_goes goes, movesOf, List.filterMap_append]
    exact completes

end Machine

/-- The path of a glyph is one closed subpath for each executed move, the first of them from the origin. -/
theorem path_eq_closed_subpaths (context : Context) (nominal : Float) (program : List UInt8) (outline : Outline)
    (drawn : (Outline.ofProgram context nominal program).result = .ok outline) :
    ∃ subpaths, outline.path = subpaths.flatten ∧
      Subpaths Point.origin (movesOf (Machine.executed context (.start nominal program))) subpaths := by
  obtain ⟨registers, finishes, rfl⟩ := Outline.ofProgram_eq_ok_iff.1 drawn
  obtain ⟨added, path, completes⟩ := Machine.completes_run finishes
  obtain ⟨subpaths, rfl, closed⟩ := (completes_none rfl).1 completes
  exact ⟨subpaths, path, closed⟩

theorem path_eq_closed_subpaths_two :
    let outline : Outline := {
      width := 500.0
      path := [.line ⟨10.0, 10.0⟩ ⟨15.0, 10.0⟩, .line ⟨15.0, 10.0⟩ ⟨10.0, 10.0⟩,
        .line ⟨15.0, 30.0⟩ ⟨15.0, 30.0⟩] }
    (Outline.ofProgram {} 500.0 [149, 149, 21, 144, 6, 159, 4, 14]).result = .ok outline ∧
      ∃ subpaths, outline.path = subpaths.flatten ∧ Subpaths Point.origin
        (movesOf (Machine.executed {} (.start 500.0 [149, 149, 21, 144, 6, 159, 4, 14]))) subpaths := by
  intro outline
  have ended : Machine.loop {} 9 (.start 500.0 [149, 149, 21, 144, 6, 159, 4, 14]) = some (.ok _) := rfl
  have drawn : (Outline.ofProgram {} 500.0 [149, 149, 21, 144, 6, 159, 4, 14]).result = .ok outline :=
    Outline.ofProgram_of_loop ended
  exact ⟨drawn, path_eq_closed_subpaths _ _ _ _ drawn⟩

end Charstring
end CompactFont
