import Mathlib.Data.List.Rotate
import CompactFont.Charstring.Compute

/-! Rolling turns a block at the top of the stack cyclically. In a block of `count` operands, counted from its bottom, the
one at a place moves up by the shift, and from the top of the block to its bottom; shifts add up, and only what is left
of them by the size of the block matters. -/

namespace CompactFont.Charstring

/-- The stack after the top `count` operands have moved up by `shift` places, cyclically. -/
def rolled (count : Nat) (shift : Int) (operands : List Float) : List Float :=
  (operands.take count).rotate (shift % count).toNat ++ operands.drop count

variable {count : Nat} {shift more : Int} {operands : List Float}

theorem rotate_eq_rolled (fits : count ≤ operands.length) :
    rotate count (shift % count).toNat operands = rolled count shift operands := by
  have size : (operands.take count).length = count := List.length_take_of_le fits
  by_cases none : count = 0
  · subst none
    simp [rotate, rolled]
  · have less : (shift % count).toNat ≤ (operands.take count).length := by
      have positive : 0 ≤ shift % count := Int.emod_nonneg shift (by omega)
      have below : shift % count < count := Int.emod_lt_of_pos shift (by omega)
      omega
    rw [rolled, List.rotate_eq_drop_append_take less, rotate]

theorem take_rolled (fits : count ≤ operands.length) :
    (rolled count shift operands).take count = (operands.take count).rotate (shift % count).toNat := by
  have size : ((operands.take count).rotate (shift % count).toNat).length = count := by
    rw [List.length_rotate, List.length_take_of_le fits]
  rw [rolled, List.take_append_of_le_length (Nat.le_of_eq size.symm), List.take_of_length_le (Nat.le_of_eq size)]

theorem drop_rolled (fits : count ≤ operands.length) :
    (rolled count shift operands).drop count = operands.drop count := by
  have size : ((operands.take count).rotate (shift % count).toNat).length = count := by
    rw [List.length_rotate, List.length_take_of_le fits]
  rw [rolled, List.drop_append_of_le_length (Nat.le_of_eq size.symm), List.drop_of_length_le (Nat.le_of_eq size),
    List.nil_append]

theorem perm_rolled (count : Nat) (shift : Int) (operands : List Float) : (rolled count shift operands).Perm operands := by
  have turned := List.rotate_perm (operands.take count) (shift % count).toNat
  calc rolled count shift operands
    _ |>.Perm (operands.take count ++ operands.drop count) := turned.append_right _
    _ = operands := List.take_append_drop count operands

/-- Turning a block twice turns it by the sum. -/
theorem rolled_rolled (fits : count ≤ operands.length) :
    rolled count more (rolled count shift operands) = rolled count (shift + more) operands := by
  have size : (operands.take count).length = count := List.length_take_of_le fits
  by_cases none : count = 0
  · subst none
    rfl
  have positive (turn : Int) : ((turn % count).toNat : Int) = turn % count :=
    Int.toNat_of_nonneg (Int.emod_nonneg turn (by omega))
  have sum : ((shift % count).toNat + (more % count).toNat) % count = ((shift + more) % count).toNat := by
    apply Int.natCast_inj.1
    push_cast [positive]
    exact (Int.add_emod shift more count).symm
  calc rolled count more (rolled count shift operands)
    _ = ((operands.take count).rotate (shift % count).toNat).rotate (more % count).toNat ++ operands.drop count := by
      rw [rolled, take_rolled fits, drop_rolled fits]
    _ = (operands.take count).rotate (((shift % count).toNat + (more % count).toNat) % count) ++
        operands.drop count := by
      rw [List.rotate_rotate, ← List.rotate_mod, size]
    _ = rolled count (shift + more) operands := by rw [sum, rolled]

theorem rolled_of_dvd (multiple : (count : Int) ∣ shift) : rolled count shift operands = operands := by
  rw [rolled, Int.emod_eq_zero_of_dvd multiple, Int.toNat_zero, List.rotate_zero, List.take_append_drop]

/-- The operand at a place of the block, counted from its bottom, moves up by the shift, around the block. -/
theorem getElem?_rolled (fits : count ≤ operands.length) {place : Nat} (inside : place < count) :
    ((rolled count shift operands).take count).reverse[((place + shift) % count).toNat]? =
      (operands.take count).reverse[place]? := by
  have size : (operands.take count).length = count := List.length_take_of_le fits
  obtain ⟨turn, same⟩ : ∃ turn : Nat, shift % count = turn :=
    ⟨(shift % count).toNat, (Int.toNat_of_nonneg (Int.emod_nonneg shift (by omega))).symm⟩
  have short : turn < count := by
    have below : shift % count < count := Int.emod_lt_of_pos shift (by omega)
    omega
  have target : ((place + shift) % count).toNat = (place + turn) % count := by
    have reduced : (place + shift) % count = (place + turn : Int) % count := by
      rw [← same, Int.add_emod_emod]
    rw [reduced]
    exact congrArg Int.toNat (Int.natCast_emod (place + turn) count).symm
  -- seen from the top, the place that an operand moves to comes back to where it was after `turn` more
  have back : (count - 1 - (place + turn) % count + turn) % count = count - 1 - place := by
    rcases Nat.lt_or_ge (place + turn) count with within | around
    · rw [Nat.mod_eq_of_lt within, Nat.mod_eq_of_lt (by omega)]
      omega
    · have wrapped : (place + turn) % count = place + turn - count := by
        rw [Nat.mod_eq_sub_mod around, Nat.mod_eq_of_lt (by omega)]
      have again : count - 1 - (place + turn - count) + turn = count + (count - 1 - place) := by omega
      rw [wrapped, again, Nat.add_mod_left, Nat.mod_eq_of_lt (by omega)]
  have moved : (place + turn) % count < count := Nat.mod_lt _ (by omega)
  rw [take_rolled fits, same, target, Int.toNat_natCast,
    List.getElem?_reverse (by rwa [List.length_rotate, size]), List.getElem?_reverse (by rwa [size]),
    List.length_rotate, size, List.getElem?_rotate (by omega), size, back]

/-! ### The operator -/

section Roll

variable {j n : Float}

theorem rollBlock_of_indices {size : Int} (shifts : index? j = some shift) (counts : index? n = some size) :
    rollBlock (j :: n :: operands) =
      if 0 ≤ size ∧ size ≤ operands.length then .ok (rolled size.toNat shift operands)
      else .error (.rollBeyond size operands.length) := by
  have counted : ((operands.take size.toNat).length : Int) = size ↔ 0 ≤ size ∧ size ≤ operands.length := by
    rw [List.length_take]
    omega
  simp only [rollBlock, popIndex_cons, shifts, counts, ok_bind, counted]
  split
  next fits =>
    have sized : (size.toNat : Int) = size := Int.toNat_of_nonneg fits.1
    have turned : rotate size.toNat (shift % size.toNat).toNat operands = rolled size.toNat shift operands :=
      rotate_eq_rolled (by omega)
    rw [sized] at turned
    exact congrArg Except.ok turned
  next => rfl

theorem apply_roll (shifts : index? j = some shift) (counts : index? n = some (count : Int))
    (fits : count ≤ operands.length) (transient : Transient) :
    ComputeOperator.roll.apply ⟨j :: n :: operands, transient⟩ = .ok ⟨rolled count shift operands, transient⟩ := by
  have admitted : 0 ≤ (count : Int) ∧ (count : Int) ≤ operands.length := by omega
  have turned : rollBlock (j :: n :: operands) = .ok (rolled count shift operands) := by
    rw [rollBlock_of_indices shifts counts, if_pos admitted, Int.toNat_natCast]
  simp only [ComputeOperator.apply, onStack, turned]
  rfl

/-- With a count that the stack below it holds, `roll` succeeds for every shift. Each operand of the block moves up by the
shift, around the block, what is below stays, and nothing is lost or doubled. Two rolls of one block are one roll by the
sum; a multiple of the count and the count 0 change nothing, and two operands rolled by one are exchanged. -/
theorem roll_turns_block (shifts : index? j = some shift) (counts : index? n = some (count : Int))
    (fits : count ≤ operands.length) (transient : Transient) :
    ∃ turned, ComputeOperator.roll.apply ⟨j :: n :: operands, transient⟩ = .ok ⟨turned, transient⟩ ∧
      (∀ place < count, (turned.take count).reverse[((place + shift) % count).toNat]? =
        (operands.take count).reverse[place]?) ∧
      turned.drop count = operands.drop count ∧
      turned.Perm operands ∧
      (∀ k m both more, index? k = some more → index? m = some (count : Int) → index? both = some (shift + more) →
        ComputeOperator.roll.apply ⟨k :: m :: turned, transient⟩ =
          ComputeOperator.roll.apply ⟨both :: n :: operands, transient⟩) ∧
      ((count : Int) ∣ shift → turned = operands) ∧
      (count = 0 → turned = operands) ∧
      (count = 2 → shift = 1 → ComputeOperator.exch.apply ⟨operands, transient⟩ = .ok ⟨turned, transient⟩) := by
  refine ⟨rolled count shift operands, apply_roll shifts counts fits transient, fun place inside => getElem?_rolled fits inside,
    drop_rolled fits, perm_rolled count shift operands, ?twice, rolled_of_dvd, ?none, ?exchange⟩
  case twice =>
    intro k m both more again same sum
    have still : count ≤ (rolled count shift operands).length := by
      rwa [(perm_rolled count shift operands).length_eq]
    rw [apply_roll again same still, apply_roll sum counts fits, rolled_rolled fits]
  case none =>
    rintro rfl
    rfl
  case exchange =>
    rintro rfl rfl
    match operands, fits with
    | _ :: _ :: _, _ => rfl

/-- Three operands rolled down by one, and then up by five. -/
theorem roll_turns_block_three :
    let operands := [4.0, 3.0, 2.0, 1.0]
    (index? (-1.0) = some (-1) ∧ index? 3.0 = some ((3 : Nat) : Int) ∧ 3 ≤ operands.length ∧ index? 5.0 = some 5 ∧
      index? 4.0 = some (-1 + 5)) ∧
    ∃ turned, ComputeOperator.roll.apply ⟨-1.0 :: 3.0 :: operands, {}⟩ = .ok ⟨turned, {}⟩ ∧
      (turned.take 3).reverse[0]? = some 3.0 ∧ turned.drop 3 = [1.0] ∧
      ComputeOperator.roll.apply ⟨5.0 :: 3.0 :: turned, {}⟩ = ComputeOperator.roll.apply ⟨4.0 :: 3.0 :: operands, {}⟩ := by
  intro operands
  have shifts : index? (-1.0) = some (-1) := rfl
  have counts : index? 3.0 = some ((3 : Nat) : Int) := rfl
  have again : index? 5.0 = some 5 := rfl
  have sum : index? 4.0 = some (-1 + 5) := rfl
  have fits : 3 ≤ operands.length := by decide
  obtain ⟨turned, rolls, moves, below, _, twice, _⟩ := roll_turns_block shifts counts fits {}
  exact ⟨⟨shifts, counts, fits, again, sum⟩, turned, rolls, moves 1 (by decide), below, twice 5.0 3.0 4.0 5 again counts sum⟩

end Roll

end CompactFont.Charstring
