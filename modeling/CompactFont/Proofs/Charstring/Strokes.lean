import CompactFont.Charstring.Machine
import CompactFont.Proofs.Charstring.Effects

/-! What a draw operator does, by the strokes that it reads from its operands: two operators that read the same do
the same, and strokes add up. The others are compared with the operators that repeat one kind of stroke. -/

namespace CompactFont

@[simp] theorem Pen.hasSubpath_draw (pen : Pen) (strokes : List Stroke) :
    (pen.draw strokes).hasSubpath = pen.hasSubpath := by
  induction strokes generalizing pen with
  | nil => rfl
  | cons stroke strokes ih => exact ih (pen.stroke stroke)

theorem Pen.draw_append (pen : Pen) (strokes more : List Stroke) :
    pen.draw (strokes ++ more) = (pen.draw strokes).draw more := List.foldl_append

namespace Charstring

/-! ### Drawing from given operands -/

namespace Machine

/-- The machine with other operands, the bottom one first. -/
def holding (machine : Machine) (operands : List Float) : Machine :=
  { machine with registers := { machine.registers with operands := operands.reverse } }

/-- The machine after strokes: its operands are gone and its pen has moved. -/
def drawn (machine : Machine) (strokes : List Stroke) : Machine :=
  { machine with registers := { machine.registers with operands := [], pen := machine.registers.pen.draw strokes } }

/-- The operator succeeds on the operands and leaves this machine. -/
def Draws (context : Context) (machine : Machine) (op : DrawOperator) (operands : List Float) (after : Machine) :
    Prop :=
  (machine.holding operands).execute context (.draw op) = .next after

variable {context : Context} {machine after : Machine} {op : DrawOperator} {operands : List Float}

theorem drawn_drawn (machine : Machine) (strokes more : List Stroke) :
    (machine.drawn strokes).drawn more = machine.drawn (strokes ++ more) := by
  simp only [drawn, Pen.draw_append]

theorem proceed_eq_next_iff {result : Except Fault Registers} :
    machine.proceed result = .next after ↔
      ∃ registers, result = .ok registers ∧ after = { machine with registers } := by
  cases result with
  | ok registers => simp [proceed, eq_comm]
  | error fault => simp [proceed]

theorem draws_iff :
    Draws context machine op operands after ↔
      machine.registers.pen.hasSubpath = true ∧ ∃ strokes, op.strokes? operands = some strokes ∧
        after = machine.drawn strokes := by
  have read : (machine.holding operands).registers.operands.reverse = operands := List.reverse_reverse operands
  have proceeds : (machine.holding operands).execute context (.draw op) =
      (machine.holding operands).proceed ((machine.holding operands).registers.draw op) := rfl
  rw [Draws, proceeds, proceed_eq_next_iff]
  simp only [Registers.draw_eq_ok_iff, read]
  constructor
  · intro ⟨_, ⟨begun, strokes, reads, rfl⟩, same⟩
    exact ⟨begun, strokes, reads, same⟩
  · intro ⟨begun, strokes, reads, same⟩
    exact ⟨_, ⟨begun, strokes, reads, rfl⟩, same⟩

/-- Drawing clears the operands, moves the pen and changes nothing else. -/
theorem eq_of_draws (draws : Draws context machine op operands after) :
    after = { machine with registers := { machine.registers with operands := [], pen := after.registers.pen } } := by
  obtain ⟨_, strokes, _, rfl⟩ := draws_iff.1 draws
  rfl

theorem exists_draws_iff (begun : machine.registers.pen.hasSubpath = true) :
    (∃ after, Draws context machine op operands after) ↔ ∃ strokes, op.strokes? operands = some strokes := by
  constructor
  · intro ⟨after, draws⟩
    obtain ⟨_, strokes, reads, _⟩ := draws_iff.1 draws
    exact ⟨strokes, reads⟩
  · intro ⟨strokes, reads⟩
    exact ⟨machine.drawn strokes, draws_iff.2 ⟨begun, strokes, reads, rfl⟩⟩

/-- Operators that read the same strokes do the same. -/
theorem draws_congr {other : DrawOperator} {others : List Float} (same : op.strokes? operands = other.strokes? others) :
    Draws context machine op operands after ↔ Draws context machine other others after := by
  rw [draws_iff, draws_iff, same]

/-- Two operators one after the other draw the strokes of both. -/
theorem draws_then_iff {next : DrawOperator} {others : List Float} :
    (∃ between, Draws context machine op operands between ∧ Draws context between next others after) ↔
      machine.registers.pen.hasSubpath = true ∧ ∃ strokes more, op.strokes? operands = some strokes ∧
        next.strokes? others = some more ∧ after = machine.drawn (strokes ++ more) := by
  constructor
  · intro ⟨between, first, last⟩
    obtain ⟨begun, strokes, reads, rfl⟩ := draws_iff.1 first
    obtain ⟨_, more, readsMore, rfl⟩ := draws_iff.1 last
    exact ⟨begun, strokes, more, reads, readsMore, drawn_drawn _ _ _⟩
  · intro ⟨begun, strokes, more, reads, readsMore, both⟩
    have still : (machine.drawn strokes).registers.pen.hasSubpath = true :=
      (Pen.hasSubpath_draw _ strokes).trans begun
    refine ⟨machine.drawn strokes, draws_iff.2 ⟨begun, strokes, reads, rfl⟩, draws_iff.2 ⟨still, more, readsMore, ?_⟩⟩
    rw [both, drawn_drawn]

end Machine

/-! ### One kind of stroke, repeated -/

theorem nonempty?_eq_some_iff {α : Type} {reading : Option (List α)} {strokes : List α} :
    nonempty? reading = some strokes ↔ reading = some strokes ∧ strokes ≠ [] := by
  simp [nonempty?, Option.filter_eq_some_iff]

/-- An operator that reads groups of `size` operands as one stroke each. -/
structure Repeats (op : DrawOperator) (size : Nat) (reading : List Float → Option (List Stroke)) : Prop where
  strokes : ∀ operands, op.strokes? operands = nonempty? (reading operands)
  positive : 0 < size
  nil : reading [] = some []
  short : ∀ operands, operands ≠ [] → operands.length < size → reading operands = none
  group : ∀ group, group.length = size → ∃ stroke, ∀ rest, reading (group ++ rest) = (reading rest).map (stroke :: ·)

theorem repeats_lines : Repeats .rlineto 2 lines? where
  strokes _ := rfl
  positive := by decide
  nil := rfl
  short
    | [], full, _ => absurd rfl full
    | [_], _, _ => rfl
  group
    | [dx, dy], _ => ⟨.line dx dy, fun _ => rfl⟩

theorem repeats_curves : Repeats .rrcurveto 6 curves? where
  strokes _ := rfl
  positive := by decide
  nil := rfl
  short
    | [], full, _ => absurd rfl full
    | [_], _, _ | [_, _], _, _ | [_, _, _], _, _ | [_, _, _, _], _, _ | [_, _, _, _, _], _, _ => rfl
  group
    | [dx₁, dy₁, dx₂, dy₂, dx₃, dy₃], _ => ⟨.curve dx₁ dy₁ dx₂ dy₂ dx₃ dy₃, fun _ => rfl⟩

namespace Repeats

variable {op : DrawOperator} {size : Nat} {reading : List Float → Option (List Stroke)} {operands : List Float}
  {strokes : List Stroke}

/-- Induction along the groups. -/
theorem induction (positive : 0 < size) {holds : List Float → Prop} (nil : holds [])
    (short : ∀ operands, operands ≠ [] → operands.length < size → holds operands)
    (group : ∀ group rest, group.length = size → holds rest → holds (group ++ rest)) (operands : List Float) :
    holds operands := by
  by_cases none : operands = []
  · rw [none]
    exact nil
  by_cases less : operands.length < size
  · exact short operands none less
  have first : (operands.take size).length = size := List.length_take_of_le (Nat.not_lt.1 less)
  rw [← List.take_append_drop size operands]
  exact group _ _ first (induction positive nil short group (operands.drop size))
termination_by operands.length
decreasing_by
  rw [List.length_drop]
  omega

theorem length_eq (repeats : Repeats op size reading) (reads : reading operands = some strokes) :
    operands.length = size * strokes.length := by
  induction operands using induction repeats.positive generalizing strokes with
  | nil =>
    rw [repeats.nil] at reads
    cases reads
    rfl
  | short operands full less =>
    rw [repeats.short operands full less] at reads
    cases reads
  | group group rest sized ih =>
    obtain ⟨stroke, law⟩ := repeats.group group sized
    rw [law rest] at reads
    obtain ⟨others, readsRest, rfl⟩ := Option.map_eq_some_iff.1 reads
    rw [List.length_append, sized, ih readsRest, List.length_cons, Nat.mul_succ, Nat.add_comm]

theorem reads_whole (repeats : Repeats op size reading) (multiple : operands.length % size = 0) :
    ∃ strokes, reading operands = some strokes := by
  induction operands using induction repeats.positive with
  | nil => exact ⟨[], repeats.nil⟩
  | short operands full less =>
    rw [Nat.mod_eq_of_lt less] at multiple
    exact absurd (List.length_eq_zero_iff.1 multiple) full
  | group group rest sized ih =>
    obtain ⟨stroke, law⟩ := repeats.group group sized
    rw [List.length_append, sized, Nat.add_mod_left] at multiple
    obtain ⟨strokes, reads⟩ := ih multiple
    exact ⟨stroke :: strokes, by rw [law rest, reads]; rfl⟩

theorem append (repeats : Repeats op size reading) (reads : reading operands = some strokes) (more : List Float) :
    reading (operands ++ more) = (reading more).map (strokes ++ ·) := by
  induction operands using induction repeats.positive generalizing strokes with
  | nil =>
    rw [repeats.nil] at reads
    cases reads
    simp
  | short operands full less =>
    rw [repeats.short operands full less] at reads
    cases reads
  | group group rest sized ih =>
    obtain ⟨stroke, law⟩ := repeats.group group sized
    rw [law rest] at reads
    obtain ⟨others, readsRest, rfl⟩ := Option.map_eq_some_iff.1 reads
    rw [List.append_assoc, law, ih readsRest, Option.map_map]
    rfl

theorem strokes?_eq_some_iff (repeats : Repeats op size reading) :
    op.strokes? operands = some strokes ↔ reading operands = some strokes ∧ operands ≠ [] := by
  rw [repeats.strokes, nonempty?_eq_some_iff]
  refine and_congr_right fun reads => not_congr ?_
  constructor
  · intro none
    have counted := repeats.length_eq reads
    rw [none, List.length_nil, Nat.mul_zero] at counted
    exact List.length_eq_zero_iff.1 counted
  · intro none
    rw [none, repeats.nil] at reads
    cases reads
    rfl

theorem exists_strokes_iff (repeats : Repeats op size reading) :
    (∃ strokes, op.strokes? operands = some strokes) ↔ 0 < operands.length ∧ operands.length % size = 0 := by
  simp only [repeats.strokes?_eq_some_iff, List.length_pos_iff]
  constructor
  · intro ⟨strokes, reads, full⟩
    refine ⟨full, ?_⟩
    rw [repeats.length_eq reads, Nat.mul_mod_right]
  · intro ⟨full, multiple⟩
    obtain ⟨strokes, reads⟩ := repeats.reads_whole multiple
    exact ⟨strokes, reads, full⟩

/-- Groups that are made one for each item are read one for each item. -/
theorem flatten (repeats : Repeats op size reading) {α : Type} {group : Nat → α → List Float}
    {stroke : Nat → α → Stroke} (each : ∀ i x, reading (group i x) = some [stroke i x]) (items : List α) :
    reading (items.mapIdx group).flatten = some (items.mapIdx stroke) := by
  induction items generalizing group stroke with
  | nil => exact repeats.nil
  | cons x items ih =>
    have rest := ih (fun i => each (i + 1))
    rw [List.mapIdx_cons, List.mapIdx_cons, List.flatten_cons, repeats.append (each 0 x), rest]
    rfl

theorem strokes?_flatten (repeats : Repeats op size reading) {α : Type} {group : Nat → α → List Float}
    {stroke : Nat → α → Stroke} (each : ∀ i x, reading (group i x) = some [stroke i x]) {items : List α}
    (full : items ≠ []) : op.strokes? (items.mapIdx group).flatten = some (items.mapIdx stroke) := by
  rw [repeats.strokes, repeats.flatten each items]
  exact nonempty?_eq_some_iff.2 ⟨rfl, fun none => full (List.mapIdx_eq_nil_iff.1 none)⟩

end Repeats

/-! ### Curves along the axes -/

/-- The operands of a curve that leaves along an axis and arrives along an axis. -/
structure Quad where
  a : Float
  b : Float
  c : Float
  d : Float

def Quad.operands (quad : Quad) : List Float := [quad.a, quad.b, quad.c, quad.d]

/-- Operands in groups of four, of which there is one at least, and the one that is left over if their number is odd. -/
structure Groups where
  quads : List Quad
  full : quads ≠ []
  odd? : Option Float

namespace Groups

/-- What is left over stands at the end. -/
def oddLast (groups : Groups) : List Float := groups.quads.flatMap Quad.operands ++ groups.odd?.toList

/-- What is left over stands at the beginning. -/
def oddFirst (groups : Groups) : List Float := groups.odd?.toList ++ groups.quads.flatMap Quad.operands

theorem length_flatMap_operands (quads : List Quad) : (quads.flatMap Quad.operands).length = 4 * quads.length := by
  simp [List.length_flatMap, Quad.operands, List.map_const', Nat.mul_comm]

theorem exists_quads : ∀ operands : List Float, operands.length % 4 = 0 →
    ∃ quads : List Quad, operands = quads.flatMap Quad.operands
  | [], _ => ⟨[], rfl⟩
  | a :: b :: c :: d :: rest, fours => by
    obtain ⟨quads, split⟩ := exists_quads rest (by simp only [List.length_cons] at fours; omega)
    exact ⟨⟨a, b, c, d⟩ :: quads, by rw [split]; rfl⟩
  | [_], short | [_, _], short | [_, _, _], short => by simp at short

/-- Operands that are not fewer than four make groups when their number is a multiple of four. -/
theorem exists_groups (odd? : Option Float) {operands : List Float} (enough : 4 ≤ operands.length)
    (fours : operands.length % 4 = 0) :
    ∃ groups : Groups, groups.odd? = odd? ∧ groups.quads.flatMap Quad.operands = operands := by
  obtain ⟨quads, rfl⟩ := exists_quads operands fours
  have full : quads ≠ [] := by
    rintro rfl
    cases enough
  exact ⟨⟨quads, full, odd?⟩, rfl, rfl⟩

theorem exists_oddLast {operands : List Float} (enough : 4 ≤ operands.length)
    (fits : operands.length % 4 = 0 ∨ operands.length % 4 = 1) : ∃ groups : Groups, operands = groups.oddLast := by
  rcases fits with fours | odd
  · obtain ⟨groups, none, split⟩ := exists_groups none enough fours
    exact ⟨groups, by rw [oddLast, none, split, Option.toList_none, List.append_nil]⟩
  · have nonempty : operands ≠ [] := List.length_pos_iff.1 (by omega)
    have shorter : operands.dropLast.length = operands.length - 1 := List.length_dropLast
    obtain ⟨groups, last, split⟩ := exists_groups (some (operands.getLast nonempty))
      (show 4 ≤ operands.dropLast.length by omega) (by omega)
    refine ⟨groups, ?_⟩
    rw [oddLast, last, split]
    exact (List.dropLast_concat_getLast nonempty).symm

theorem exists_oddFirst {operands : List Float} (enough : 4 ≤ operands.length)
    (fits : operands.length % 4 = 0 ∨ operands.length % 4 = 1) : ∃ groups : Groups, operands = groups.oddFirst := by
  rcases fits with fours | odd
  · obtain ⟨groups, none, split⟩ := exists_groups none enough fours
    exact ⟨groups, by rw [oddFirst, none, split]; rfl⟩
  · cases operands with
    | nil => cases enough
    | cons first rest =>
      rw [List.length_cons] at enough odd
      obtain ⟨groups, found, split⟩ := exists_groups (some first) (show 4 ≤ rest.length by omega) (by omega)
      exact ⟨groups, by rw [oddFirst, found, split]; rfl⟩

end Groups

/-- An operator that takes groups of four draws what a plain one draws when every coordinate is spelled out. -/
theorem Machine.draws_iff_spelled {context : Context} {machine after : Machine} {op plain : DrawOperator}
    {operands : List Float} {written spelled : Groups → List Float}
    (same : ∀ groups, op.strokes? (written groups) = plain.strokes? (spelled groups))
    (grouped : (∃ strokes, op.strokes? operands = some strokes) → ∃ groups, operands = written groups) :
    Draws context machine op operands after ↔
      ∃ groups, operands = written groups ∧ Draws context machine plain (spelled groups) after := by
  constructor
  · intro draws
    obtain ⟨_, strokes, reads, _⟩ := draws_iff.1 draws
    obtain ⟨groups, split⟩ := grouped ⟨strokes, reads⟩
    rw [split] at draws
    exact ⟨groups, split, (draws_congr (same groups)).1 draws⟩
  · intro ⟨groups, split, draws⟩
    rw [split]
    exact (draws_congr (same groups)).2 draws

end Charstring
end CompactFont
