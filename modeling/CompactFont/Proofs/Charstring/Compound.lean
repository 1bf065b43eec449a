import CompactFont.Proofs.Charstring.Strokes

/-! The operators that draw what plain lines and curves draw together: curves along one axis with the zeros left out,
curves and a line, lines and a curve. A plain operator does with two lists of operands in turn what it does with both
at once. -/

namespace CompactFont.Charstring

/-! ### Curves along one axis -/

def DrawOperator.archCurve (horizontal : Bool) : DrawOperator := if horizontal then .hhcurveto else .vvcurveto

/-- The curve of four operands that leaves and arrives along one axis, but for `slant` at the start. -/
def Quad.arch (horizontal : Bool) (slant : Float) (quad : Quad) : List Float :=
  if horizontal then [quad.a, slant, quad.b, quad.c, quad.d, 0.0] else [slant, quad.a, quad.b, quad.c, 0.0, quad.d]

/-- What is left over belongs to the first curve. -/
def firstSlant (odd? : Option Float) (i : Nat) : Float := if i = 0 then odd?.getD 0.0 else 0.0

/-- Groups along one axis, each with the coordinates that do not change. -/
def spelledArches (horizontal : Bool) (groups : Groups) : List Float :=
  (groups.quads.mapIdx fun i quad => quad.arch horizontal (firstSlant groups.odd? i)).flatten

/-- The strokes of the same groups. -/
def archStrokes (horizontal : Bool) (odd? : Option Float) (quads : List Quad) : List Stroke :=
  quads.mapIdx fun i quad => arch horizontal (firstSlant odd? i) quad.a quad.b quad.c quad.d

theorem strokes?_spelledArches (horizontal : Bool) (groups : Groups) :
    DrawOperator.rrcurveto.strokes? (spelledArches horizontal groups) =
      some (archStrokes horizontal groups.odd? groups.quads) := by
  refine repeats_curves.strokes?_flatten (fun i quad => ?_) groups.full
  cases horizontal <;> rfl

theorem archStrokes_cons (horizontal : Bool) (odd? : Option Float) (quad : Quad) (quads : List Quad) :
    archStrokes horizontal odd? (quad :: quads) =
      arch horizontal (odd?.getD 0.0) quad.a quad.b quad.c quad.d :: archStrokes horizontal none quads := by
  have later (i : Nat) : firstSlant odd? (i + 1) = firstSlant none i := by simp [firstSlant]
  simp only [archStrokes, List.mapIdx_cons, later]
  rfl

theorem arches?_eq_archStrokes (horizontal : Bool) (odd? : Option Float) (quads : List Quad) :
    arches? horizontal (odd?.getD 0.0) (quads.flatMap Quad.operands) = some (archStrokes horizontal odd? quads) := by
  induction quads generalizing odd? with
  | nil => rfl
  | cons quad quads ih =>
    rw [archStrokes_cons]
    exact congrArg (Option.map (arch horizontal (odd?.getD 0.0) quad.a quad.b quad.c quad.d :: ·)) (ih none)

theorem length_of_arches? {horizontal : Bool} {slant : Float} {operands : List Float} {strokes : List Stroke}
    (reads : arches? horizontal slant operands = some strokes) : operands.length % 4 = 0 := by
  fun_induction arches? horizontal slant operands generalizing strokes with
  | case1 => rfl
  | case2 slant a b c d rest ih =>
    obtain ⟨others, readsRest, _⟩ := Option.map_eq_some_iff.1 reads
    have counted := ih readsRest
    simp only [List.length_cons]
    omega
  | case3 => cases reads

theorem slantedArches?_oddFirst (horizontal : Bool) (groups : Groups) :
    slantedArches? horizontal groups.oddFirst = some (archStrokes horizontal groups.odd? groups.quads) := by
  obtain ⟨quads, full, odd?⟩ := groups
  have counted := Groups.length_flatMap_operands quads
  rw [← arches?_eq_archStrokes]
  cases odd? with
  | some slant =>
    have fits : (quads.flatMap Quad.operands).length % 4 = 0 ∧ quads.flatMap Quad.operands ≠ [] := by
      have positive := List.length_pos_iff.2 full
      exact ⟨by omega, List.length_pos_iff.1 (by omega)⟩
    exact if_pos fits
  | none =>
    cases quads with
    | nil => exact absurd rfl full
    | cons quad quads =>
      -- with nothing left over the operands above the bottom one are three of the first group and the other groups
      have short : ¬ ((quad.b :: quad.c :: quad.d :: quads.flatMap Quad.operands).length % 4 = 0 ∧
          quad.b :: quad.c :: quad.d :: quads.flatMap Quad.operands ≠ []) := by
        simp only [List.length_cons, Groups.length_flatMap_operands]
        omega
      exact if_neg short

theorem length_of_slantedArches? {horizontal : Bool} {operands : List Float} {strokes : List Stroke}
    (reads : slantedArches? horizontal operands = some strokes) :
    4 ≤ operands.length ∧ (operands.length % 4 = 0 ∨ operands.length % 4 = 1) := by
  cases operands with
  | nil => cases reads
  | cons slant rest =>
    rw [slantedArches?] at reads
    by_cases fits : rest.length % 4 = 0 ∧ rest ≠ []
    · have positive := List.length_pos_iff.2 fits.2
      rw [List.length_cons]
      omega
    · rw [if_neg fits] at reads
      have counted := length_of_arches? reads
      rw [List.length_cons] at counted ⊢
      omega

theorem strokes?_archCurve (horizontal : Bool) (operands : List Float) :
    (DrawOperator.archCurve horizontal).strokes? operands = slantedArches? horizontal operands := by
  cases horizontal <;> rfl

theorem strokes?_archCurve_oddFirst (horizontal : Bool) (groups : Groups) :
    (DrawOperator.archCurve horizontal).strokes? groups.oddFirst =
      DrawOperator.rrcurveto.strokes? (spelledArches horizontal groups) := by
  rw [strokes?_archCurve, slantedArches?_oddFirst, strokes?_spelledArches]

theorem exists_strokes_archCurve_iff (horizontal : Bool) (operands : List Float) :
    (∃ strokes, (DrawOperator.archCurve horizontal).strokes? operands = some strokes) ↔
      4 ≤ operands.length ∧ (operands.length % 4 = 0 ∨ operands.length % 4 = 1) := by
  constructor
  · intro ⟨strokes, reads⟩
    rw [strokes?_archCurve] at reads
    exact length_of_slantedArches? reads
  · intro ⟨enough, fits⟩
    obtain ⟨groups, rfl⟩ := Groups.exists_oddFirst enough fits
    exact ⟨_, (strokes?_archCurve_oddFirst horizontal groups).trans (strokes?_spelledArches horizontal groups)⟩

/-! ### Two kinds of stroke -/

section Split

variable {op first last : DrawOperator} {count firstSize lastSize : Nat} {operands : List Float}
  {readFirst readLast : List Float → Option (List Stroke)}

theorem split?_eq_some_iff {strokes : List Stroke} :
    split? count readFirst readLast operands = some strokes ↔
      ∃ before after, nonempty? (readFirst (operands.take (operands.length - count))) = some before ∧
        nonempty? (readLast (operands.drop (operands.length - count))) = some after ∧ strokes = before ++ after := by
  simp [split?, Option.bind_eq_some_iff, @eq_comm _ strokes]

/-- Both parts have to fit. -/
theorem exists_strokes_split_iff (splits : op.strokes? operands = split? count readFirst readLast operands)
    (begins : Repeats first firstSize readFirst) (ends : Repeats last lastSize readLast) :
    (∃ strokes, op.strokes? operands = some strokes) ↔
      (0 < operands.length - count ∧ (operands.length - count) % firstSize = 0) ∧
        0 < operands.length - (operands.length - count) ∧
          (operands.length - (operands.length - count)) % lastSize = 0 := by
  have firstFits : (∃ strokes, first.strokes? (operands.take (operands.length - count)) = some strokes) ↔ _ :=
    begins.exists_strokes_iff
  have lastFits : (∃ strokes, last.strokes? (operands.drop (operands.length - count)) = some strokes) ↔ _ :=
    ends.exists_strokes_iff
  rw [List.length_take_of_le (Nat.sub_le _ _), begins.strokes] at firstFits
  rw [List.length_drop, ends.strokes] at lastFits
  rw [splits, ← firstFits, ← lastFits]
  constructor
  · intro ⟨strokes, reads⟩
    obtain ⟨before, after, readsBefore, readsAfter, _⟩ := split?_eq_some_iff.1 reads
    exact ⟨⟨before, readsBefore⟩, after, readsAfter⟩
  · intro ⟨⟨before, readsBefore⟩, after, readsAfter⟩
    exact ⟨before ++ after, split?_eq_some_iff.2 ⟨before, after, readsBefore, readsAfter, rfl⟩⟩

theorem Machine.draws_split_iff {context : Context} {machine after : Machine}
    (splits : op.strokes? operands = split? count readFirst readLast operands)
    (begins : Repeats first firstSize readFirst) (ends : Repeats last lastSize readLast) :
    Draws context machine op operands after ↔
      ∃ between, Draws context machine first (operands.take (operands.length - count)) between ∧
        Draws context between last (operands.drop (operands.length - count)) after := by
  rw [draws_iff, draws_then_iff, splits, begins.strokes, ends.strokes]
  refine and_congr_right fun begun => ?_
  constructor
  · intro ⟨strokes, reads, same⟩
    obtain ⟨before, more, readsBefore, readsMore, rfl⟩ := split?_eq_some_iff.1 reads
    exact ⟨before, more, readsBefore, readsMore, same⟩
  · intro ⟨before, more, readsBefore, readsMore, same⟩
    exact ⟨before ++ more, split?_eq_some_iff.2 ⟨before, more, readsBefore, readsMore, rfl⟩, same⟩

end Split

/-- What one plain operator draws with all operands, it draws with the first ones and then with the others. -/
theorem Machine.draws_append {op : DrawOperator} {size : Nat} {reading : List Float → Option (List Stroke)}
    (repeats : Repeats op size reading) {machine : Machine} (begun : machine.registers.pen.hasSubpath = true)
    (context : Context) {operands more : List Float} (fits : 0 < operands.length ∧ operands.length % size = 0)
    (moreFits : 0 < more.length ∧ more.length % size = 0) :
    ∃ between after, Draws context machine op operands between ∧ Draws context between op more after ∧
      Draws context machine op (operands ++ more) after := by
  obtain ⟨strokes, reads⟩ := repeats.exists_strokes_iff.2 fits
  obtain ⟨others, readsMore⟩ := repeats.exists_strokes_iff.2 moreFits
  have both : op.strokes? (operands ++ more) = some (strokes ++ others) := by
    have first := (repeats.strokes?_eq_some_iff.1 reads).1
    have last := repeats.strokes?_eq_some_iff.1 readsMore
    refine repeats.strokes?_eq_some_iff.2 ⟨?_, List.append_ne_nil_of_right_ne_nil _ last.2⟩
    rw [repeats.append first, last.1]
    rfl
  have composed : ∃ between, Draws context machine op operands between ∧
      Draws context between op more (machine.drawn (strokes ++ others)) :=
    draws_then_iff.2 ⟨begun, strokes, others, reads, readsMore, rfl⟩
  obtain ⟨between, firstDraws, lastDraws⟩ := composed
  exact ⟨between, _, firstDraws, lastDraws, draws_iff.2 ⟨begun, strokes ++ others, both, rfl⟩⟩

/-- With an open subpath, curves along one axis take groups of four, with one operand before them or none, and are plain
curves; the operators of two kinds do what the plain ones do with the two parts of the operands, of which the last is
one stroke; and a plain operator does with two lists in turn what it does with both. Nothing but the operands and the
pen changes. -/
theorem Machine.draws_compound {machine : Machine} (begun : machine.registers.pen.hasSubpath = true)
    (context : Context) (operands : List Float) :
    (∀ horizontal,
      ((∃ after, Draws context machine (.archCurve horizontal) operands after) ↔
        4 ≤ operands.length ∧ (operands.length % 4 = 0 ∨ operands.length % 4 = 1)) ∧
      ∀ after, Draws context machine (.archCurve horizontal) operands after ↔
        ∃ groups : Groups, operands = groups.oddFirst ∧
          Draws context machine .rrcurveto (spelledArches horizontal groups) after) ∧
    (((∃ after, Draws context machine .rcurveline operands after) ↔
        8 ≤ operands.length ∧ operands.length % 6 = 2) ∧
      ∀ after, Draws context machine .rcurveline operands after ↔
        ∃ between, Draws context machine .rrcurveto (operands.take (operands.length - 2)) between ∧
          Draws context between .rlineto (operands.drop (operands.length - 2)) after) ∧
    (((∃ after, Draws context machine .rlinecurve operands after) ↔
        8 ≤ operands.length ∧ operands.length % 2 = 0) ∧
      ∀ after, Draws context machine .rlinecurve operands after ↔
        ∃ between, Draws context machine .rlineto (operands.take (operands.length - 6)) between ∧
          Draws context between .rrcurveto (operands.drop (operands.length - 6)) after) ∧
    (∀ more op size, (op, size) ∈ [(DrawOperator.rlineto, 2), (.rrcurveto, 6)] →
      0 < operands.length ∧ operands.length % size = 0 → 0 < more.length ∧ more.length % size = 0 →
      ∃ between after, Draws context machine op operands between ∧ Draws context between op more after ∧
        Draws context machine op (operands ++ more) after) ∧
    ∀ op after, Draws context machine op operands after →
      after = { machine with registers := { machine.registers with operands := [], pen := after.registers.pen } } := by
  refine ⟨?arches, ⟨?curvesLineCount, fun _ => draws_split_iff rfl repeats_curves repeats_lines⟩,
    ⟨?linesCurveCount, fun _ => draws_split_iff rfl repeats_lines repeats_curves⟩, ?append, fun op after => eq_of_draws⟩
  case arches =>
    intro horizontal
    have count := exists_strokes_archCurve_iff horizontal operands
    refine ⟨(exists_draws_iff begun).trans count, fun after => ?_⟩
    refine draws_iff_spelled (strokes?_archCurve_oddFirst horizontal) fun reads => ?_
    obtain ⟨enough, fits⟩ := count.1 reads
    exact Groups.exists_oddFirst enough fits
  case curvesLineCount =>
    refine (exists_draws_iff begun).trans ((exists_strokes_split_iff rfl repeats_curves repeats_lines).trans ?_)
    omega
  case linesCurveCount =>
    refine (exists_draws_iff begun).trans ((exists_strokes_split_iff rfl repeats_lines repeats_curves).trans ?_)
    omega
  case append =>
    intro more op size plain fits moreFits
    rcases plain with _ | ⟨_, _ | ⟨_, none⟩⟩
    · exact draws_append repeats_lines begun context fits moreFits
    · exact draws_append repeats_curves begun context fits moreFits
    · cases none

/-- A curve of `vvcurveto` with a slant, two lines and a curve of `rlinecurve`, and the lines of two `rlineto` in one. -/
theorem Machine.draws_compound_three :
    let machine : Machine := { program := [], registers := { pen := Pen.move {} 1.0 2.0 } }
    (∃ after, Draws {} machine .rrcurveto [9.0, 1.0, 2.0, 3.0, 0.0, 4.0] after ∧
      Draws {} machine .vvcurveto [9.0, 1.0, 2.0, 3.0, 4.0] after ∧
      after.registers.pen.path = [.curve ⟨⟨1.0, 2.0⟩, ⟨10.0, 3.0⟩, ⟨12.0, 6.0⟩, ⟨12.0, 10.0⟩⟩]) ∧
    (∃ between after, Draws {} machine .rlineto [1.0, 2.0, 3.0, 4.0] between ∧
      Draws {} between .rrcurveto [5.0, 6.0, 7.0, 8.0, 9.0, 10.0] after ∧
      Draws {} machine .rlinecurve [1.0, 2.0, 3.0, 4.0, 5.0, 6.0, 7.0, 8.0, 9.0, 10.0] after ∧
      after.registers.pen.path = [.line ⟨1.0, 2.0⟩ ⟨2.0, 4.0⟩, .line ⟨2.0, 4.0⟩ ⟨5.0, 8.0⟩,
        .curve ⟨⟨5.0, 8.0⟩, ⟨10.0, 14.0⟩, ⟨17.0, 22.0⟩, ⟨26.0, 32.0⟩⟩]) ∧
    ∃ between after, Draws {} machine .rlineto [1.0, 2.0] between ∧ Draws {} between .rlineto [3.0, 4.0] after ∧
      Draws {} machine .rlineto [1.0, 2.0, 3.0, 4.0] after ∧
      after.registers.pen.path = [.line ⟨1.0, 2.0⟩ ⟨2.0, 4.0⟩, .line ⟨2.0, 4.0⟩ ⟨5.0, 8.0⟩] := by
  intro machine
  have begun : machine.registers.pen.hasSubpath = true := rfl
  refine ⟨?_, ?_, ?_⟩
  · let after := machine.drawn [.curve 9.0 1.0 2.0 3.0 0.0 4.0]
    have plain : Draws {} machine .rrcurveto [9.0, 1.0, 2.0, 3.0, 0.0, 4.0] after := rfl
    have arches := ((draws_compound begun {} [9.0, 1.0, 2.0, 3.0, 4.0]).1 false).2
    have path : ((Pen.move {} 1.0 2.0).draw [.curve 9.0 1.0 2.0 3.0 0.0 4.0]).path =
        [.curve ⟨⟨1.0, 2.0⟩, ⟨10.0, 3.0⟩, ⟨12.0, 6.0⟩, ⟨12.0, 10.0⟩⟩] := by decide +kernel
    exact ⟨after, plain, (arches after).2 ⟨⟨[⟨1.0, 2.0, 3.0, 4.0⟩], nofun, some 9.0⟩, rfl, plain⟩, path⟩
  · let between := machine.drawn [.line 1.0 2.0, .line 3.0 4.0]
    let after := between.drawn [.curve 5.0 6.0 7.0 8.0 9.0 10.0]
    have lines : Draws {} machine .rlineto [1.0, 2.0, 3.0, 4.0] between := rfl
    have curve : Draws {} between .rrcurveto [5.0, 6.0, 7.0, 8.0, 9.0, 10.0] after := rfl
    have both := (draws_compound begun {} [1.0, 2.0, 3.0, 4.0, 5.0, 6.0, 7.0, 8.0, 9.0, 10.0]).2.2.1.2
    have path : (((Pen.move {} 1.0 2.0).draw [.line 1.0 2.0, .line 3.0 4.0]).draw
        [.curve 5.0 6.0 7.0 8.0 9.0 10.0]).path = [.line ⟨1.0, 2.0⟩ ⟨2.0, 4.0⟩, .line ⟨2.0, 4.0⟩ ⟨5.0, 8.0⟩,
          .curve ⟨⟨5.0, 8.0⟩, ⟨10.0, 14.0⟩, ⟨17.0, 22.0⟩, ⟨26.0, 32.0⟩⟩] := by decide +kernel
    exact ⟨between, after, lines, curve, (both after).2 ⟨between, lines, curve⟩, path⟩
  · have plain : (DrawOperator.rlineto, 2) ∈ [(DrawOperator.rlineto, 2), (.rrcurveto, 6)] := by decide
    have fits : 0 < [1.0, 2.0].length ∧ [1.0, 2.0].length % 2 = 0 := by decide
    obtain ⟨between, after, first, last, both⟩ :=
      (draws_compound begun {} [1.0, 2.0]).2.2.2.1 [3.0, 4.0] _ _ plain fits (by decide)
    have whole : Draws {} machine .rlineto [1.0, 2.0, 3.0, 4.0] (machine.drawn [.line 1.0 2.0, .line 3.0 4.0]) := rfl
    cases whole.symm.trans both
    have path : ((Pen.move {} 1.0 2.0).draw [.line 1.0 2.0, .line 3.0 4.0]).path =
        [.line ⟨1.0, 2.0⟩ ⟨2.0, 4.0⟩, .line ⟨2.0, 4.0⟩ ⟨5.0, 8.0⟩] := by decide +kernel
    exact ⟨between, _, first, last, both, path⟩

end CompactFont.Charstring
