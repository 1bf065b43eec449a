import CompactFont.Charstring.Semantics
import CompactFont.Proofs.Charstring.Lexemes
import CompactFont.Proofs.Index
import CompactFont.Proofs.Number.Exact

/-! The operands that call subroutines. Every subroutine of a table has one integer that calls it, and this integer can
be written in a glyph program: the biases are as large as they can be for that, and no larger than the tables ask for. -/

namespace CompactFont.Subroutines

open Charstring (Context Form Lexeme Machine Operator Token)

variable {table : Subroutines} {k : Int} {i : Nat} {program : List UInt8}

/-- The integer that calls a subroutine. -/
def operand (table : Subroutines) (i : Nat) : Int := i - table.bias

theorem bias_le (table : Subroutines) : table.bias ≤ 32768 := by
  unfold bias biasOf
  split
  · decide
  split <;> decide

/-- Whether the sum of an operand and the bias is more than a 64-bit integer holds. -/
def overflows (table : Subroutines) (operand : Float) : Bool :=
  Int64.maxValue.toInt < Number.word64 operand + table.bias

theorem number_eq_bmod (table : Subroutines) (operand : Float) :
    table.number operand = (Number.word64 operand + table.bias).bmod 18446744073709551616 := by
  have bias : (Int64.ofNat table.bias).toInt = table.bias :=
    Int64.toInt_ofNat_of_lt (Nat.lt_of_le_of_lt table.bias_le (by decide))
  obtain ⟨least, most⟩ := Number.word64_bounds operand
  rw [number, Int64.toInt_add, bias, Int64.toInt_ofInt_of_le least (Int.lt_add_one_of_le most)]

theorem number_of_fits {operand : Float} (fits : table.overflows operand = false) :
    table.number operand = Number.word64 operand + table.bias := by
  have least : Int64.minValue.toInt = -9223372036854775808 := rfl
  have most : Int64.maxValue.toInt = 9223372036854775807 := rfl
  have bounds := Number.word64_bounds operand
  have sum := of_decide_eq_false fits
  rw [number_eq_bmod]
  exact Int.bmod_eq_of_le_mul_two (by omega) (by omega)

/-- A sum that wraps around is negative. -/
theorem number_of_overflows {operand : Float} (overflows : table.overflows operand = true) :
    table.number operand = Number.word64 operand + table.bias - 18446744073709551616 ∧ table.number operand < 0 := by
  have most : Int64.maxValue.toInt = 9223372036854775807 := rfl
  have bounds := Number.word64_bounds operand
  have sum := of_decide_eq_true overflows
  have bias := table.bias_le
  have wraps : table.number operand = Number.word64 operand + table.bias - 18446744073709551616 := by
    rw [number_eq_bmod, ← Int.sub_bmod_right]
    exact Int.bmod_eq_of_le_mul_two (by omega) (by omega)
  exact ⟨wraps, by omega⟩

/-- So it is the number of no subroutine. -/
theorem get_of_overflows {operand : Float} (overflows : table.overflows operand = true) :
    table.get operand = .error (.glyph (.subroutineBeyond (table.number operand) table.size)) := by
  obtain ⟨_, negative⟩ := number_of_overflows overflows
  have nothing : (table.number operand).toNat? = none := by
    rw [Option.eq_none_iff_forall_ne_some]
    intro n same
    have number := Int.mem_toNat?.1 same
    omega
  rw [get, nothing]
  rfl

theorem number_ofInt (small : k.natAbs < 2147483648) : table.number (Float.ofInt k) = k + table.bias := by
  have unit : Number.leadingBit = 4503599627370496 := rfl
  have holds := Number.equals_ofInt (n := k) (by omega)
  have least : Int64.minValue.toInt = -9223372036854775808 := rfl
  have most : Int64.maxValue.toInt = 9223372036854775807 := rfl
  have word := Number.word64_of_equals holds (by omega) (by omega)
  have bias := table.bias_le
  rw [number_of_fits (decide_eq_false (by omega)), word]

theorem get_ofInt_eq_ok_iff (small : k.natAbs < 2147483648) :
    table.get (Float.ofInt k) = .ok program ↔ ∃ i : Nat, k + table.bias = i ∧ table.programs[i]? = some program := by
  unfold get
  rw [number_ofInt small]
  constructor
  · intro found
    split at found
    next chosen =>
      cases found
      obtain ⟨i, place, there⟩ := Option.bind_eq_some_iff.1 chosen
      exact ⟨i, Int.mem_toNat?.1 place, there⟩
    next => cases found
  · intro ⟨i, place, there⟩
    have chosen : (k + table.bias).toNat?.bind (table.programs[·]?) = some program :=
      Option.bind_eq_some_iff.2 ⟨i, Int.mem_toNat?.2 place, there⟩
    rw [chosen]

/-- An integer calls a subroutine if and only if the biased number is that of one. -/
theorem exists_get_ofInt_iff (small : k.natAbs < 2147483648) :
    (∃ program, table.get (Float.ofInt k) = .ok program) ↔ 0 ≤ k + table.bias ∧ k + table.bias < table.size := by
  simp only [get_ofInt_eq_ok_iff small]
  constructor
  · intro ⟨_, i, place, there⟩
    have within : i < table.size := (Array.getElem?_eq_some_iff.1 there).1
    omega
  · intro ⟨least, less⟩
    have within : (k + table.bias).toNat < table.programs.size := by
      change _ < table.size
      omega
    exact ⟨_, (k + table.bias).toNat, by omega, Array.getElem?_eq_getElem within⟩

/-- What is told of an integer that calls nothing. -/
theorem get_ofInt_eq_error (small : k.natAbs < 2147483648)
    (absent : ¬ (0 ≤ k + table.bias ∧ k + table.bias < table.size)) :
    table.get (Float.ofInt k) = .error (.glyph (.subroutineBeyond (k + table.bias) table.size)) := by
  have nothing : (k + table.bias).toNat?.bind (table.programs[·]?) = none := by
    rw [Option.eq_none_iff_forall_ne_some]
    intro program chosen
    obtain ⟨i, place, there⟩ := Option.bind_eq_some_iff.1 chosen
    have within : i < table.size := (Array.getElem?_eq_some_iff.1 there).1
    have same := Int.mem_toNat?.1 place
    omega
  unfold get
  rw [number_ofInt small, nothing]

/-! ### The operand of a subroutine -/

theorem bias_cases (table : Subroutines) :
    (table.size < 1240 ∧ table.bias = 107) ∨ (1240 ≤ table.size ∧ table.size < 33900 ∧ table.bias = 1131) ∨
      (33900 ≤ table.size ∧ table.bias = 32768) := by
  unfold bias biasOf
  by_cases few : table.size < 1240
  · rw [if_pos few]
    exact .inl ⟨few, rfl⟩
  · rw [if_neg few]
    by_cases some_more : table.size < 33900
    · rw [if_pos some_more]
      exact .inr (.inl ⟨Nat.not_lt.1 few, some_more, rfl⟩)
    · rw [if_neg some_more]
      exact .inr (.inr ⟨Nat.not_lt.1 some_more, rfl⟩)

theorem operand_bounds (countable : table.size ≤ 65535) (there : i < table.size) :
    -32768 ≤ table.operand i ∧ table.operand i ≤ 32767 := by
  unfold operand
  rcases table.bias_cases with ⟨_, bias⟩ | ⟨_, _, bias⟩ | ⟨_, bias⟩ <;> rw [bias] <;> omega

theorem operand_bounds_of_few (few : table.size < 1240) (there : i < table.size) :
    -1131 ≤ table.operand i ∧ table.operand i ≤ 1131 := by
  unfold operand
  rcases table.bias_cases with ⟨_, bias⟩ | ⟨many, _, _⟩ | ⟨many, _⟩
  · rw [bias]
    omega
  · omega
  · omega

theorem get_operand (countable : table.size ≤ 65535) (there : table.programs[i]? = some program) :
    table.get (Float.ofInt (table.operand i)) = .ok program := by
  have bounds := operand_bounds countable (Array.getElem?_eq_some_iff.1 there).1
  refine (get_ofInt_eq_ok_iff (by omega)).2 ⟨i, ?_, there⟩
  exact Int.sub_add_cancel ..

/-- Few subroutines are called by operands of one or two bytes, and all that an INDEX can hold by operands of three. -/
theorem exists_form (countable : table.size ≤ 65535) (there : i < table.size) :
    ∃ form : Form, form.Admits (table.operand i) ∧ (table.size < 1240 → form ≠ .three) := by
  by_cases few : table.size < 1240
  · have bounds := operand_bounds_of_few few there
    by_cases short : -107 ≤ table.operand i ∧ table.operand i ≤ 107
    · exact ⟨.one, short, fun _ => nofun⟩
    · refine ⟨.two, ?_, fun _ => nofun⟩
      show (108 ≤ table.operand i ∧ table.operand i ≤ 1131) ∨ (-1131 ≤ table.operand i ∧ table.operand i ≤ -108)
      omega
  · exact ⟨.three, operand_bounds countable there, fun few' => absurd few' few⟩

/-! ### Calls -/

/-- An operand and a call operator behind it run the subroutine, with the operands that there were before. -/
theorem steps_of_call {context : Context} {op : Operator} {machine : Machine} {form : Form} {rest : List UInt8}
    (countable : table.size ≤ 65535) (there : table.programs[i]? = some program)
    (chosen : op.table? context = some table) (admits : form.Admits (table.operand i))
    (written : machine.program = form.bytes (table.operand i) ++ (op.opcode.bytes ++ rest))
    (shallow : machine.callers.depth < context.maxDepth) :
    ∃ pushed, machine.step context = .next pushed ∧
      pushed.step context = .next ⟨program, machine.callers.push rest, machine.registers⟩
        (some (.called i (machine.callers.depth + 1))) := by
  have bounds := operand_bounds countable (Array.getElem?_eq_some_iff.1 there).1
  have number : table.number (Float.ofInt (table.operand i)) = i :=
    (number_ofInt (by omega)).trans (Int.sub_add_cancel ..)
  have first := Machine.step_of_takes context written (Token.takes_lexeme (.integer form _ admits))
  have reads := (Token.takes_lexeme (.operator op)).read rest
  refine ⟨_, first, ?_⟩
  rw [Machine.step_of_call reads chosen rfl (get_operand countable there), if_pos shallow, number]
  rfl

/-- In a table of at most 65535 subroutines each has one integer that calls it: its number less the bias. This integer
can be written in three bytes, and in one or two if there are fewer than 1240 subroutines. An integer of less than 32
bits calls a subroutine if and only if its sum with the bias is the number of one, and otherwise is refused with that
sum. So what a call operator runs behind the integer for an item of an INDEX is that item. -/
theorem called_by_own_operand (table : Subroutines) :
    (table.size ≤ 65535 → ∀ i program, table.programs[i]? = some program →
      (-32768 ≤ table.operand i ∧ table.operand i ≤ 32767) ∧
      (table.size < 1240 → -1131 ≤ table.operand i ∧ table.operand i ≤ 1131) ∧
      (∃ form : Form, form.Admits (table.operand i) ∧ (table.size < 1240 → form ≠ .three) ∧
        Token.Takes (form.bytes (table.operand i)) (.integer (table.operand i))) ∧
      table.get (Float.ofInt (table.operand i)) = .ok program ∧
      ∀ k : Int, k.natAbs < 2147483648 → (table.number (Float.ofInt k) = i ↔ k = table.operand i)) ∧
    (∀ k : Int, k.natAbs < 2147483648 →
      ((∃ program, table.get (Float.ofInt k) = .ok program) ↔
        0 ≤ k + table.bias ∧ k + table.bias < table.size) ∧
      (¬ (0 ≤ k + table.bias ∧ k + table.bias < table.size) →
        table.get (Float.ofInt k) = .error (.glyph (.subroutineBeyond (k + table.bias) table.size)))) ∧
    ∀ index : Index, table = ofIndex index → index.count ≤ 65535 → ∀ i blob, index.items[i]? = some blob →
      ∀ (context : Context) (op : Operator) (machine : Machine) (form : Form) (rest : List UInt8),
        op.table? context = some table → form.Admits (table.operand i) →
        machine.program = form.bytes (table.operand i) ++ (op.opcode.bytes ++ rest) →
        machine.callers.depth < context.maxDepth →
          ∃ pushed, machine.step context = .next pushed ∧
            pushed.step context = .next ⟨blob, machine.callers.push rest, machine.registers⟩
              (some (.called i (machine.callers.depth + 1))) := by
  refine ⟨fun countable i program there => ?_, fun k small => ?_, ?_⟩
  · have within : i < table.size := (Array.getElem?_eq_some_iff.1 there).1
    obtain ⟨form, admits, short⟩ := exists_form countable within
    refine ⟨operand_bounds countable within, fun few => operand_bounds_of_few few within,
      ⟨form, admits, short, Token.takes_lexeme (.integer form _ admits)⟩, get_operand countable there, ?_⟩
    intro k small
    rw [number_ofInt small, operand]
    omega
  · exact ⟨exists_get_ofInt_iff small, get_ofInt_eq_error small⟩
  · rintro index rfl countable i blob there context op machine form rest chosen admits written shallow
    have size : (ofIndex index).size = index.count := Index.length_items index
    have held : (ofIndex index).programs[i]? = some blob := List.getElem?_toArray.trans there
    exact steps_of_call (size ▸ countable) held chosen admits written shallow

/-- Two subroutines, of which the second pushes a zero before it returns. -/
def pairOfSubroutines : Index := { offsetSize := 1, offsets := [1, 2, 4], data := [11, 139, 11] }

/-- The second of them is called by -106, written in one byte, and no subroutine by -105. -/
theorem called_by_own_operand_second :
    (ofIndex pairOfSubroutines).get (Float.ofInt (-106)) = .ok [139, 11] ∧
      (ofIndex pairOfSubroutines).get (Float.ofInt (-105)) = .error (.glyph (.subroutineBeyond 2 2)) ∧
      ∃ pushed, Machine.step { globals := ofIndex pairOfSubroutines } { program := [33, 29, 14] } = .next pushed ∧
        pushed.step { globals := ofIndex pairOfSubroutines } =
          .next { program := [139, 11], callers := Charstring.Callers.empty.push [14] } (some (.called 1 1)) := by
  have all := called_by_own_operand (ofIndex pairOfSubroutines)
  have countable : (ofIndex pairOfSubroutines).size ≤ 65535 := by decide
  have there : (ofIndex pairOfSubroutines).programs[1]? = some [139, 11] := by decide
  refine ⟨(all.1 countable 1 _ there).2.2.2.1, (all.2.1 (-105) (by decide)).2 (by decide), ?_⟩
  exact all.2.2 _ rfl (by decide) 1 _ (by decide) { globals := ofIndex pairOfSubroutines } .callgsubr
    { program := [33, 29, 14] } .one [14] rfl (by decide) (by decide) (by decide)

end CompactFont.Subroutines
