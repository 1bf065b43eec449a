import CompactFont.Charstring.Work
import CompactFont.Proofs.Charstring.Alternating
import CompactFont.Proofs.Charstring.Compound

/-! The drawing operators, operand by operand. When the number of operands fits, the loops of an operator draw the strokes
that its operands are read as, come to no operand that is missing and leave none; when it does not fit, nothing is done
at all. -/

namespace CompactFont

/-- Strokes add segments behind those that are there, one for each. -/
theorem Pen.exists_path_draw (pen : Pen) (strokes : List Stroke) :
    ∃ drawn, (pen.draw strokes).path = pen.path ++ drawn ∧ drawn.length = strokes.length := by
  induction strokes generalizing pen with
  | nil => exact ⟨[], (List.append_nil _).symm, rfl⟩
  | cons stroke strokes ih =>
    obtain ⟨drawn, behind, counted⟩ := ih (pen.stroke stroke)
    have first : (pen.stroke stroke).path = pen.path ++ [stroke.segment pen.point] := List.reverse_cons
    refine ⟨stroke.segment pen.point :: drawn, ?_, congrArg _ counted⟩
    rw [Pen.draw, List.foldl_cons, ← Pen.draw, behind, first, List.append_assoc]
    rfl

namespace Charstring

namespace Machine

theorem holding_reverse (machine : Machine) : machine.holding machine.registers.operands.reverse = machine := by
  simp only [holding, List.reverse_reverse]

@[simp] theorem count_holding (machine : Machine) (operands : List Float) :
    (machine.holding operands).registers.count = operands.length := List.length_reverse

end Machine

namespace Work

variable {machine : Machine} {operands kept : List Float} {strokes : List Stroke}

/-! ### One round -/

@[simp] theorem takeBottom_holding (machine : Machine) (x : Float) (rest : List Float) :
    takeBottom (machine.holding (x :: rest)) = .ok x (machine.holding rest) := by
  simp [takeBottom, Machine.holding]

theorem stroke_holding (machine : Machine) (drawn : Stroke) (rest : List Float) :
    stroke drawn (machine.holding rest) = .ok () ((machine.drawn [drawn]).holding rest) := rfl

theorem takeSlant_holding_cons {present : Nat → Bool} {x : Float} {rest : List Float}
    (there : present (rest.length + 1) = true) :
    takeSlant present (machine.holding (x :: rest)) = .ok x (machine.holding rest) := by
  simp [takeSlant, bind_apply, registers, there]

theorem takeSlant_holding_of_absent {present : Nat → Bool} (absent : present operands.length = false) :
    takeSlant present (machine.holding operands) = .ok 0.0 (machine.holding operands) := by
  simp [takeSlant, bind_apply, registers, absent, pure_apply]

theorem line_holding (machine : Machine) (dx dy : Float) (rest : List Float) :
    line (machine.holding (dx :: dy :: rest)) = .ok () ((machine.drawn [.line dx dy]).holding rest) := by
  simp only [line, bind_apply, takeBottom_holding, stroke_holding]

theorem curve_holding (machine : Machine) (dx₁ dy₁ dx₂ dy₂ dx₃ dy₃ : Float) (rest : List Float) :
    curve (machine.holding (dx₁ :: dy₁ :: dx₂ :: dy₂ :: dx₃ :: dy₃ :: rest)) =
      .ok () ((machine.drawn [.curve dx₁ dy₁ dx₂ dy₂ dx₃ dy₃]).holding rest) := by
  simp only [curve, bind_apply, takeBottom_holding, stroke_holding]

theorem axisLine_holding (machine : Machine) (horizontal : Bool) (d : Float) (rest : List Float) :
    axisLine horizontal (machine.holding (d :: rest)) =
      .ok (!horizontal) ((machine.drawn [if horizontal then .line d 0.0 else .line 0.0 d]).holding rest) := by
  simp only [axisLine, bind_apply, takeBottom_holding, stroke_holding, pure_apply]

theorem bend_holding (machine : Machine) (horizontal : Bool) (slant a b c d : Float) (rest : List Float) :
    bend horizontal slant (machine.holding (a :: b :: c :: d :: rest)) =
      .ok 0.0 ((machine.drawn [arch horizontal slant a b c d]).holding rest) := by
  simp only [bend, bind_apply, takeBottom_holding, stroke_holding, pure_apply]

/-- Four operands make a turn, unless there is just one behind them. -/
theorem turn_holding (machine : Machine) (horizontal : Bool) (a b c d : Float) {rest : List Float}
    (plain : rest.length ≠ 1) :
    turn horizontal (machine.holding (a :: b :: c :: d :: rest)) =
      .ok (!horizontal) ((machine.drawn [quarter horizontal a b c d 0.0]).holding rest) := by
  have absent : (rest.length == 1) = false := beq_false_of_ne plain
  have slant : takeSlant (· == 1) (machine.holding rest) = .ok 0.0 (machine.holding rest) :=
    takeSlant_holding_of_absent absent
  simp only [turn, bind_apply, takeBottom_holding, slant, stroke_holding, pure_apply]

theorem turn_holding_slanted (machine : Machine) (horizontal : Bool) (a b c d slant : Float) :
    turn horizontal (machine.holding [a, b, c, d, slant]) =
      .ok (!horizontal) ((machine.drawn [quarter horizontal a b c d slant]).holding []) := by
  have taken : takeSlant (· == 1) (machine.holding [slant]) = .ok slant (machine.holding []) :=
    takeSlant_holding_cons rfl
  simp only [turn, bind_apply, takeBottom_holding, taken, stroke_holding, pure_apply]

/-! ### All rounds -/

/-- Rounds that draw one stroke each with a group of operands go on until the operands that are kept are left. -/
theorem repeatWhile_groups {op : DrawOperator} {size : Nat} {reading : List Float → Option (List Stroke)}
    (repeats : Repeats op size reading) {round : Round Unit}
    (passes : ∀ group : List Float, group.length = size →
      ∃ drawn, (∀ rest, reading (group ++ rest) = (reading rest).map (drawn :: ·)) ∧
        ∀ (machine : Machine) rest,
          round.pass () (machine.holding (group ++ rest)) = .ok () ((machine.drawn [drawn]).holding rest))
    {asks : Nat → Bool} (asked : ∀ n, asks n = decide (kept.length < n)) (reads : reading operands = some strokes) :
    round.repeatWhile asks () (machine.holding (operands ++ kept)) = .ok () ((machine.drawn strokes).holding kept) := by
  induction operands using Repeats.induction repeats.positive generalizing machine strokes with
  | nil =>
    rw [repeats.nil] at reads
    cases reads
    exact Round.repeatWhile_stop (by simp [asked])
  | short operands full less =>
    rw [repeats.short operands full less] at reads
    cases reads
  | group group rest sized ih =>
    obtain ⟨drawn, law, passes⟩ := passes group sized
    rw [law rest] at reads
    obtain ⟨others, readsRest, rfl⟩ := Option.map_eq_some_iff.1 reads
    have positive := repeats.positive
    have more : asks (machine.holding (group ++ rest ++ kept)).registers.count = true := by
      simp only [asked, Machine.count_holding, List.length_append, sized, decide_eq_true_eq]
      omega
    rw [Round.repeatWhile_again more (List.append_assoc group rest kept ▸ passes machine (rest ++ kept)), ih readsRest,
      Machine.drawn_drawn]
    rfl

theorem repeatWhile_lines {asks : Nat → Bool} (asked : ∀ n, asks n = decide (kept.length < n))
    (reads : lines? operands = some strokes) :
    lines.repeatWhile asks () (machine.holding (operands ++ kept)) = .ok () ((machine.drawn strokes).holding kept) := by
  refine repeatWhile_groups repeats_lines (fun group sized => ?_) asked reads
  match group, sized with
  | [dx, dy], _ => exact ⟨.line dx dy, fun _ => rfl, fun machine rest => line_holding machine dx dy rest⟩

theorem repeatWhile_curves {asks : Nat → Bool} (asked : ∀ n, asks n = decide (kept.length < n))
    (reads : curves? operands = some strokes) :
    curves.repeatWhile asks () (machine.holding (operands ++ kept)) = .ok () ((machine.drawn strokes).holding kept) := by
  refine repeatWhile_groups repeats_curves (fun group sized => ?_) asked reads
  match group, sized with
  | [dx₁, dy₁, dx₂, dy₂, dx₃, dy₃], _ =>
    exact ⟨.curve dx₁ dy₁ dx₂ dy₂ dx₃ dy₃, fun _ => rfl, fun machine rest => curve_holding machine ..⟩

theorem repeatWhile_axisLines (machine : Machine) (horizontal : Bool) (operands : List Float) :
    axisLines.repeatWhile (0 < ·) horizontal (machine.holding operands) =
      .ok () (machine.drawn (alternatingLines horizontal operands)) := by
  induction operands generalizing machine horizontal with
  | nil => exact Round.repeatWhile_stop rfl
  | cons d rest ih =>
    rw [Round.repeatWhile_again (by simp) (axisLine_holding machine horizontal d rest), ih, Machine.drawn_drawn]
    rfl

theorem repeatWhile_turns {horizontal : Bool} (reads : alternatingCurves? horizontal operands = some strokes) :
    turns.repeatWhile (4 ≤ ·) horizontal (machine.holding operands) = .ok () (machine.drawn strokes) := by
  fun_induction alternatingCurves? horizontal operands generalizing machine strokes with
  | case1 horizontal a b c d =>
    cases reads
    rw [Round.repeatWhile_again (by simp) (turn_holding machine horizontal a b c d (by simp))]
    exact Round.repeatWhile_stop rfl
  | case2 horizontal a b c d slant =>
    cases reads
    rw [Round.repeatWhile_again (by simp) (turn_holding_slanted machine horizontal a b c d slant)]
    exact Round.repeatWhile_stop rfl
  | case3 horizontal a b c d rest _ _ ih =>
    obtain ⟨others, readsRest, rfl⟩ := Option.map_eq_some_iff.1 reads
    have enough := (length_of_alternatingCurves? readsRest).1
    rw [Round.repeatWhile_again (by simp) (turn_holding machine horizontal a b c d (by omega)), ih readsRest,
      Machine.drawn_drawn]
    rfl
  | case4 => cases reads

theorem repeatWhile_bends {horizontal : Bool} {slant : Float} (reads : arches? horizontal slant operands = some strokes) :
    (bends horizontal).repeatWhile (0 < ·) slant (machine.holding operands) = .ok () (machine.drawn strokes) := by
  fun_induction arches? horizontal slant operands generalizing machine strokes with
  | case1 =>
    cases reads
    exact Round.repeatWhile_stop rfl
  | case2 slant a b c d rest ih =>
    obtain ⟨others, readsRest, rfl⟩ := Option.map_eq_some_iff.1 reads
    rw [Round.repeatWhile_again (by simp) (bend_holding machine horizontal slant a b c d rest), ih readsRest,
      Machine.drawn_drawn]
    rfl
  | case3 => cases reads

theorem bends_holding {horizontal : Bool} (reads : slantedArches? horizontal operands = some strokes) :
    (do
      let slant ← takeSlant (· % 4 == 1)
      (bends horizontal).repeatWhile (0 < ·) slant : Work Unit) (machine.holding operands) =
      .ok () (machine.drawn strokes) := by
  cases operands with
  | nil => cases reads
  | cons slant rest =>
    rw [slantedArches?] at reads
    split at reads
    next odd =>
      have there : ((rest.length + 1) % 4 == 1) = true := beq_iff_eq.2 (by omega)
      rw [bind_apply, takeSlant_holding_cons there]
      exact repeatWhile_bends reads
    next =>
      have fours := length_of_arches? reads
      have absent : ((slant :: rest).length % 4 == 1) = false := beq_eq_false_iff_ne.2 (by omega)
      rw [bind_apply, takeSlant_holding_of_absent absent]
      exact repeatWhile_bends reads

end Work

namespace DrawOperator

variable {op : DrawOperator} {machine : Machine} {operands : List Float} {strokes : List Stroke}

/-- The operands of two kinds of stroke, of which the last ones have a fixed number. -/
theorem exists_of_split {count : Nat} {readFirst readLast : List Float → Option (List Stroke)}
    (none : readFirst [] = some []) (reads : split? count readFirst readLast operands = some strokes) :
    ∃ front kept before after, operands = front ++ kept ∧ kept.length = count ∧ readFirst front = some before ∧
      readLast kept = some after ∧ strokes = before ++ after := by
  obtain ⟨before, after, readsBefore, readsAfter, same⟩ := split?_eq_some_iff.1 reads
  obtain ⟨readsFront, drawn⟩ := nonempty?_eq_some_iff.1 readsBefore
  have longer : operands.length - count ≠ 0 := by
    intro short
    rw [short, List.take_zero, none] at readsFront
    cases readsFront
    exact drawn rfl
  have sized : (operands.drop (operands.length - count)).length = count := by
    rw [List.length_drop]
    omega
  exact ⟨_, _, before, after, (List.take_append_drop _ operands).symm, sized, readsFront,
    (nonempty?_eq_some_iff.1 readsAfter).1, same⟩

/-- The loops draw what the operands are read as, and use them up. -/
theorem drawing_holding (reads : op.strokes? operands = some strokes) :
    op.drawing (machine.holding operands) = .ok () (machine.drawn strokes) := by
  have alone {work : Work Unit} (ends : work (machine.holding (operands ++ [])) = .ok () ((machine.drawn strokes).holding [])) :
      work (machine.holding operands) = .ok () (machine.drawn strokes) := by
    rwa [List.append_nil] at ends
  cases op with
  | rlineto => exact alone (Work.repeatWhile_lines (fun _ => rfl) (nonempty?_eq_some_iff.1 reads).1)
  | rrcurveto => exact alone (Work.repeatWhile_curves (fun _ => rfl) (nonempty?_eq_some_iff.1 reads).1)
  | hlineto | vlineto =>
    cases (nonempty?_eq_some_iff.1 reads).1
    exact Work.repeatWhile_axisLines machine _ operands
  | vvcurveto | hhcurveto => exact Work.bends_holding reads
  | vhcurveto | hvcurveto => exact Work.repeatWhile_turns reads
  | rcurveline =>
    obtain ⟨front, kept, before, after, rfl, sized, readsFront, readsKept, rfl⟩ := exists_of_split rfl reads
    match kept, sized with
    | [dx, dy], _ =>
      cases readsKept
      have curves : Work.curves.repeatWhile (2 < ·) () (machine.holding (front ++ [dx, dy])) =
          .ok () ((machine.drawn before).holding [dx, dy]) := Work.repeatWhile_curves (fun _ => rfl) readsFront
      rw [drawing, Work.bind_apply, curves, ← Machine.drawn_drawn]
      exact Work.line_holding (machine.drawn before) dx dy []
  | rlinecurve =>
    obtain ⟨front, kept, before, after, rfl, sized, readsFront, readsKept, rfl⟩ := exists_of_split rfl reads
    match kept, sized with
    | [dx₁, dy₁, dx₂, dy₂, dx₃, dy₃], _ =>
      cases readsKept
      have lines : Work.lines.repeatWhile (6 < ·) () (machine.holding (front ++ [dx₁, dy₁, dx₂, dy₂, dx₃, dy₃])) =
          .ok () ((machine.drawn before).holding [dx₁, dy₁, dx₂, dy₂, dx₃, dy₃]) :=
        Work.repeatWhile_lines (fun _ => rfl) readsFront
      rw [drawing, Work.bind_apply, lines, ← Machine.drawn_drawn]
      exact Work.curve_holding (machine.drawn before) dx₁ dy₁ dx₂ dy₂ dx₃ dy₃ []

/-- The checks let a number of operands pass if and only if the operands can be read. -/
theorem exists_strokes_iff_admits (op : DrawOperator) (operands : List Float) :
    (∃ strokes, op.strokes? operands = some strokes) ↔ op.admits operands.length = true := by
  have axes (horizontal : Bool) := exists_strokes_alternatingLine_iff horizontal operands
  have arches (horizontal : Bool) := exists_strokes_archCurve_iff horizontal operands
  have turns (horizontal : Bool) := exists_strokes_alternatingCurve_iff horizontal operands
  have lines : (∃ strokes, DrawOperator.rlineto.strokes? operands = some strokes) ↔ _ := repeats_lines.exists_strokes_iff
  have curves : (∃ strokes, DrawOperator.rrcurveto.strokes? operands = some strokes) ↔ _ :=
    repeats_curves.exists_strokes_iff
  have curvesLine : (∃ strokes, DrawOperator.rcurveline.strokes? operands = some strokes) ↔ _ :=
    exists_strokes_split_iff rfl repeats_curves repeats_lines
  have linesCurve : (∃ strokes, DrawOperator.rlinecurve.strokes? operands = some strokes) ↔ _ :=
    exists_strokes_split_iff rfl repeats_lines repeats_curves
  generalize operands.length = n at *
  cases op with
  | rlineto => exact lines.trans (by simp [admits]; omega)
  | rrcurveto => exact curves.trans (by simp [admits]; omega)
  | hlineto => exact (axes true).trans (by simp [admits]; omega)
  | vlineto => exact (axes false).trans (by simp [admits]; omega)
  | hhcurveto => exact (arches true).trans (by simp [admits])
  | vvcurveto => exact (arches false).trans (by simp [admits])
  | hvcurveto => exact (turns true).trans (by simp [admits]; omega)
  | vhcurveto => exact (turns false).trans (by simp [admits]; omega)
  | rcurveline => exact curvesLine.trans (by simp [admits]; omega)
  | rlinecurve => exact linesCurve.trans (by simp [admits]; omega)

/-- How many segments an operator draws with so many operands. -/
def segments : DrawOperator → Nat → Nat
  | .rlineto, n => n / 2
  | .hlineto, n | .vlineto, n => n
  | .rrcurveto, n => n / 6
  | .rcurveline, n => (n - 2) / 6 + 1
  | .rlinecurve, n => (n - 6) / 2 + 1
  | .vvcurveto, n | .hhcurveto, n | .hvcurveto, n | .vhcurveto, n => n / 4

theorem length_of_turns {horizontal : Bool} (reads : alternatingCurves? horizontal operands = some strokes) :
    strokes.length = operands.length / 4 := by
  fun_induction alternatingCurves? horizontal operands generalizing strokes with
  | case1 | case2 =>
    cases reads
    simp
  | case3 horizontal a b c d rest _ _ ih =>
    obtain ⟨others, readsRest, rfl⟩ := Option.map_eq_some_iff.1 reads
    have counted := ih readsRest
    simp only [List.length_cons]
    omega
  | case4 => cases reads

theorem length_of_bends {horizontal : Bool} {slant : Float} (reads : arches? horizontal slant operands = some strokes) :
    strokes.length = operands.length / 4 := by
  fun_induction arches? horizontal slant operands generalizing strokes with
  | case1 =>
    cases reads
    rfl
  | case2 slant a b c d rest ih =>
    obtain ⟨others, readsRest, rfl⟩ := Option.map_eq_some_iff.1 reads
    have counted := ih readsRest
    simp only [List.length_cons]
    omega
  | case3 => cases reads

theorem length_of_slantedBends {horizontal : Bool} (reads : slantedArches? horizontal operands = some strokes) :
    strokes.length = operands.length / 4 := by
  cases operands with
  | nil => cases reads
  | cons slant rest =>
    rw [slantedArches?] at reads
    split at reads
    next odd =>
      have counted := length_of_bends reads
      rw [List.length_cons]
      omega
    next => exact length_of_bends reads

theorem length_of_strokes? (reads : op.strokes? operands = some strokes) :
    strokes.length = op.segments operands.length := by
  have lines {front : List Float} {before : List Stroke} (reads : lines? front = some before) :
      before.length = front.length / 2 := by
    rw [repeats_lines.length_eq reads, Nat.mul_div_cancel_left _ repeats_lines.positive]
  have curves {front : List Float} {before : List Stroke} (reads : curves? front = some before) :
      before.length = front.length / 6 := by
    rw [repeats_curves.length_eq reads, Nat.mul_div_cancel_left _ repeats_curves.positive]
  cases op with
  | rlineto => exact lines (nonempty?_eq_some_iff.1 reads).1
  | rrcurveto => exact curves (nonempty?_eq_some_iff.1 reads).1
  | hlineto | vlineto =>
    cases (nonempty?_eq_some_iff.1 reads).1
    rw [alternatingLines_eq_mapIdx, List.length_mapIdx, segments]
  | rcurveline =>
    obtain ⟨front, kept, before, after, rfl, sized, readsFront, readsKept, rfl⟩ := exists_of_split rfl reads
    rw [List.length_append, List.length_append, curves readsFront, lines readsKept, sized, segments, Nat.add_sub_cancel]
  | rlinecurve =>
    obtain ⟨front, kept, before, after, rfl, sized, readsFront, readsKept, rfl⟩ := exists_of_split rfl reads
    rw [List.length_append, List.length_append, lines readsFront, curves readsKept, sized, segments, Nat.add_sub_cancel]
  | vvcurveto | hhcurveto => exact length_of_slantedBends reads
  | vhcurveto | hvcurveto => exact length_of_turns reads

/-- The work of a drawing operator is what the operator makes of the registers, or nothing. -/
theorem work_eq (op : DrawOperator) (machine : Machine) :
    op.work machine =
      match machine.registers.draw op with
      | .ok registers => .ok () { machine with registers }
      | .error fault => .error fault machine := by
  have admitted := exists_strokes_iff_admits op machine.registers.operands.reverse
  rw [List.length_reverse] at admitted
  unfold work Registers.draw
  simp only [Work.bind_apply, Work.require]
  by_cases begun : machine.registers.pen.hasSubpath = true
  · rw [if_pos begun, if_pos begun]
    by_cases fits : op.admits machine.registers.count = true
    · obtain ⟨strokes, reads⟩ := admitted.2 fits
      have draws : op.drawing (machine.holding _) = .ok () (machine.drawn strokes) := drawing_holding reads
      rw [Machine.holding_reverse] at draws
      simp only [fits, reads, if_true]
      exact draws
    · have unread : op.strokes? machine.registers.operands.reverse = none := by
        rw [Option.eq_none_iff_forall_ne_some]
        intro strokes reads
        exact fits (admitted.1 ⟨strokes, reads⟩)
      simp only [fits, unread]
      rfl
  · rw [if_neg begun, if_neg begun]

theorem exists_work_eq_ok_iff (op : DrawOperator) (machine : Machine) :
    (∃ after, op.work machine = .ok () after) ↔
      machine.registers.pen.hasSubpath = true ∧ op.admits machine.registers.count = true := by
  have admitted := exists_strokes_iff_admits op machine.registers.operands.reverse
  rw [List.length_reverse] at admitted
  rw [Registers.count, ← admitted, work_eq]
  constructor
  · rintro ⟨after, ends⟩
    split at ends
    next registers drawn =>
      obtain ⟨begun, strokes, reads, _⟩ := Registers.draw_eq_ok_iff.1 drawn
      exact ⟨begun, strokes, reads⟩
    next => cases ends
  · rintro ⟨begun, strokes, reads⟩
    rw [Registers.draw_eq_ok_iff.2 ⟨begun, strokes, reads, rfl⟩]
    exact ⟨_, rfl⟩

theorem eq_of_work_eq_error {fault : Fault} {left : Machine} (breaks : op.work machine = .error fault left) :
    left = machine := by
  rw [work_eq] at breaks
  split at breaks
  next => cases breaks
  next =>
    cases breaks
    rfl

theorem path_of_work_eq_ok {after : Machine} (ends : op.work machine = .ok () after) :
    ∃ drawn, after.registers.pen.path = machine.registers.pen.path ++ drawn ∧
      drawn.length = op.segments machine.registers.count := by
  rw [work_eq] at ends
  split at ends
  next registers draws =>
    cases ends
    obtain ⟨_, strokes, reads, rfl⟩ := Registers.draw_eq_ok_iff.1 draws
    obtain ⟨drawn, behind, counted⟩ := machine.registers.pen.exists_path_draw strokes
    refine ⟨drawn, behind, ?_⟩
    rw [counted, length_of_strokes? reads, List.length_reverse]
    rfl
  next => cases ends

end DrawOperator

end Charstring
end CompactFont
