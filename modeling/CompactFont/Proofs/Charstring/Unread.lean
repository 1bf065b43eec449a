import CompactFont.Proofs.Charstring.Inlining

/-! What a run has not come to counts for nothing. A run that ends well ends the same with more bytes behind its
program, and with a `return` behind any subroutines: running off their end is the same as returning there. -/

namespace CompactFont

namespace Subroutines

/-- The subroutines with a `return` behind each of the marked ones. -/
def withReturns (marked : Nat → Bool) (table : Subroutines) : Subroutines where
  programs := table.programs.mapIdx fun number body => if marked number then body ++ [11] else body

@[simp] theorem size_withReturns (marked : Nat → Bool) (table : Subroutines) :
    (table.withReturns marked).size = table.size := by
  simp [withReturns, size]

@[simp] theorem number_withReturns (marked : Nat → Bool) (table : Subroutines) (operand : Float) :
    (table.withReturns marked).number operand = table.number operand := by
  simp [number, bias]

/-- What may stand behind a subroutine: nothing, or a `return`. -/
def Closing (tail : List UInt8) : Prop := tail = [] ∨ tail = [11]

theorem get_withReturns {table : Subroutines} {operand : Float} {body : List UInt8} (marked : Nat → Bool)
    (found : table.get operand = .ok body) :
    ∃ tail, Closing tail ∧ (table.withReturns marked).get operand = .ok (body ++ tail) := by
  unfold get at found ⊢
  rw [number_withReturns]
  split at found
  next program chosen =>
    cases found
    obtain ⟨number, position, there⟩ := Option.bind_eq_some_iff.1 chosen
    have marking : (table.withReturns marked).programs[number]? =
        some (if marked number then body ++ [11] else body) := by
      simp only [withReturns, Array.getElem?_mapIdx, there, Option.map_some]
    simp only [position, Option.bind_some, marking]
    by_cases returns : marked number = true
    · exact ⟨[11], .inr rfl, by rw [if_pos returns]⟩
    · exact ⟨[], .inl rfl, by rw [if_neg returns, List.append_nil]⟩
  next => cases found

end Subroutines

namespace Charstring

/-- The same limits, with a `return` behind each of the marked subroutines. -/
def Context.withReturns (globals locals : Nat → Bool) (context : Context) : Context :=
  { context with
    globals := context.globals.withReturns globals
    locals? := context.locals?.map (Subroutines.withReturns locals) }

/-- The same limits, and the same subroutines with at most a `return` behind each. -/
structure Context.Extends (longer context : Context) : Prop where
  leftover : longer.leftover = context.leftover
  maxDepth : longer.maxDepth = context.maxDepth
  bodies : ∀ {op : Operator} {table : Subroutines} {operand : Float} {body : List UInt8},
    op.table? context = some table → table.get operand = .ok body →
    ∃ other tail, op.table? longer = some other ∧ Subroutines.Closing tail ∧ other.get operand = .ok (body ++ tail)

theorem Context.extends_self (context : Context) : context.Extends context where
  leftover := rfl
  maxDepth := rfl
  bodies chosen found := ⟨_, [], chosen, .inl rfl, by rw [found, List.append_nil]⟩

theorem Context.extends_withReturns (globals locals : Nat → Bool) (context : Context) :
    (context.withReturns globals locals).Extends context where
  leftover := rfl
  maxDepth := rfl
  bodies := by
    intro op table operand body chosen found
    cases op with
    | callsubr =>
      have there : context.locals? = some table := chosen
      obtain ⟨tail, closing, found⟩ := Subroutines.get_withReturns locals found
      exact ⟨_, tail, by simp [Operator.table?, withReturns, there], closing, found⟩
    | callgsubr =>
      cases chosen
      obtain ⟨tail, closing, found⟩ := Subroutines.get_withReturns globals found
      exact ⟨_, tail, rfl, closing, found⟩
    | _ => cases chosen

namespace Machine

variable {longer context : Context}

/-- Frames with more behind them, the innermost first: anything behind the glyph program, and at most a `return` behind a
subroutine. -/
inductive Extended : List (List UInt8) → List (List UInt8) → Prop where
  | outermost (program more : List UInt8) : Extended [program] [program ++ more]
  | called {tail : List UInt8} {outer others : List (List UInt8)} (program : List UInt8)
      (closing : Subroutines.Closing tail) (below : Extended outer others) :
      Extended (program :: outer) ((program ++ tail) :: others)

namespace Extended

theorem length_eq {frames others : List (List UInt8)} (extended : Extended frames others) :
    others.length = frames.length := by
  induction extended with
  | outermost => rfl
  | called _ _ _ ih => rw [List.length_cons, List.length_cons, ih]

/-- What is behind the innermost frame may stand behind any other program there. -/
theorem head {program other : List UInt8} {outer others : List (List UInt8)}
    (extended : Extended (program :: outer) (other :: others)) :
    ∃ tail, other = program ++ tail ∧ ∀ rest, Extended (rest :: outer) ((rest ++ tail) :: others) := by
  cases extended with
  | outermost _ more => exact ⟨more, rfl, fun rest => .outermost rest more⟩
  | called _ closing below => exact ⟨_, rfl, fun rest => .called rest closing below⟩

/-- A frame above others is that of a subroutine. -/
theorem tail {program first other : List UInt8} {outer others : List (List UInt8)}
    (extended : Extended (program :: first :: outer) (other :: others)) :
    (∃ tail, Subroutines.Closing tail ∧ other = program ++ tail) ∧ Extended (first :: outer) others := by
  cases extended with
  | called _ closing below => exact ⟨⟨_, closing, rfl⟩, below⟩

end Extended

theorem depth_of_extended {machine other : Machine} (extended : Extended machine.frames other.frames) :
    other.callers.depth = machine.callers.depth := by
  have lengths := extended.length_eq
  simp only [frames, List.length_cons, Nat.add_right_cancel_iff] at lengths
  rw [other.callers.depth_eq, machine.callers.depth_eq, lengths]

/-- A `return` behind a program that goes no further is where it returns. -/
theorem leaves_append {program tail : List UInt8} (leaves : Leaves program) (closing : Subroutines.Closing tail) :
    Leaves (program ++ tail) := by
  rcases leaves with rfl | ⟨used, rest, rfl, takes⟩
  · rcases closing with rfl | rfl
    · exact .inl rfl
    · exact .inr ⟨[11], [], rfl, fun _ => rfl⟩
  · exact .inr ⟨used, rest ++ tail, List.append_assoc .., takes⟩

/-- A step does the same where more stands behind the frames. -/
theorem goes_of_extended {machine following other : Machine} (lengthens : longer.Extends context)
    (goes : Goes context machine following) (extended : Extended machine.frames other.frames)
    (same : other.registers = machine.registers) :
    ∃ next, Goes longer other next ∧ Extended following.frames next.frames ∧
      next.registers = following.registers := by
  obtain ⟨tail, reads, behind⟩ := extended.head
  have depth := depth_of_extended extended
  cases goes with
  | @act token used mask rest registers program takes acts covers =>
    have further : other.program = used ++ (mask ++ (rest ++ tail)) := by
      simp only [reads, program, List.append_assoc]
    rw [← same] at acts
    exact ⟨_, .act further takes acts covers, behind rest, rfl⟩
  | @call op table operand operands body used rest program takes chosen stack found shallow =>
    have further : other.program = used ++ (rest ++ tail) := by
      rw [reads, program, List.append_assoc]
    obtain ⟨other, closing, chosen, closes, found⟩ := lengthens.bodies chosen found
    rw [← same] at stack ⊢
    rw [← depth, ← lengthens.maxDepth] at shallow
    exact ⟨_, .call further takes chosen stack found shallow, .called body closes (behind rest), rfl⟩
  | @leave outer callers leaves popped =>
    have called := Callers.programs_of_pop? popped
    rw [frames, called] at extended
    obtain ⟨⟨closing, closes, ends⟩, below⟩ := extended.tail
    have others : other.callers.programs ≠ [] := by
      apply List.ne_nil_of_length_pos
      rw [below.length_eq]
      exact Nat.succ_pos _
    obtain ⟨next, step, shape, registers⟩ :=
      goes_of_leaves (ends ▸ leaves_append leaves closes) others
    exact ⟨next, step, shape ▸ below, registers.trans same⟩

theorem finishes_of_extended {machine other : Machine} {registers : Registers}
    (lengthens : longer.Extends context) (finishes : Finishes context machine registers)
    (extended : Extended machine.frames other.frames) (same : other.registers = machine.registers) :
    Finishes longer other registers := by
  induction finishes generalizing other with
  | done ends =>
    obtain ⟨used, rest, program, takes, closes⟩ := step_eq_done_iff.1 ends
    obtain ⟨tail, reads, _⟩ := extended.head
    apply Finishes.done
    apply step_eq_done_iff.2
    rw [lengthens.leftover, same]
    refine ⟨used, rest ++ tail, ?_, takes, closes⟩
    rw [reads, program, List.append_assoc]
  | goes goes _ ih =>
    obtain ⟨next, step, shape, registers⟩ := goes_of_extended lengthens goes extended same
    exact .goes step (ih shape registers)

end Machine

/-- A program that draws an outline draws the same with any bytes behind it, and with a `return` behind any of the
subroutines. -/
theorem outline_of_extended (context : Context) (nominal : Float) (program : List UInt8) (outline : Outline)
    (drawn : (Outline.ofProgram context nominal program).result = .ok outline) :
    (∀ more, (Outline.ofProgram context nominal (program ++ more)).result = .ok outline) ∧
    ∀ globals locals,
      (Outline.ofProgram (context.withReturns globals locals) nominal program).result = .ok outline := by
  obtain ⟨registers, finishes, rfl⟩ := Outline.ofProgram_eq_ok_iff.1 drawn
  have ending (longer : Context) (more : List UInt8) (lengthens : longer.Extends context) :
      (Outline.ofProgram longer nominal (program ++ more)).result =
        .ok { width := registers.width, path := registers.pen.path } := by
    apply Outline.ofProgram_eq_ok_iff.2
    have extended : Machine.Extended [program] [program ++ more] := .outermost program more
    exact ⟨registers, Machine.finishes_of_extended lengthens finishes extended rfl, rfl⟩
  constructor
  · intro more
    exact ending context more context.extends_self
  · intro globals locals
    have closed := ending _ [] (context.extends_withReturns globals locals)
    rwa [List.append_nil] at closed

/-- One subroutine, a mask operator with two bytes behind it. Where a mask has one byte, the second is a `return`. -/
def masking : Context := { globals := .ofList [[19, 11, 11]] }

/-- A program that calls it with one hint and again with nine. -/
def masked : List UInt8 :=
  [139, 139, 18, 32, 29, 139, 139, 139, 139, 139, 139, 139, 139, 139, 139, 139, 139, 139, 139, 139, 139, 23,
    32, 29, 14]

theorem outline_of_extended_masking :
    ∃ outline, (Outline.ofProgram masking 500.0 masked).result = .ok outline ∧
      (Outline.ofProgram masking 500.0 (masked ++ [12, 9])).result = .ok outline ∧
      (Outline.ofProgram { globals := .ofList [[19, 11, 11, 11]] } 500.0 masked).result = .ok outline := by
  have ended : Machine.loop masking 40 (.start 500.0 masked) = some (.ok _) := rfl
  have drawn := Outline.ofProgram_of_loop ended
  obtain ⟨unread, closed⟩ := outline_of_extended masking 500.0 masked _ drawn
  exact ⟨_, drawn, unread [12, 9], closed (fun _ => true) (fun _ => false)⟩

end Charstring
end CompactFont
