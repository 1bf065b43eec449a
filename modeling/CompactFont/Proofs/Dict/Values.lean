import CompactFont.Dict.Operands
import CompactFont.Proofs.Number.Whole

/-! What the operands of a key have to be, by the form of the key, and what they mean if they are that. Of several
entries with one key the last counts. -/

namespace CompactFont.Dict

inductive Form where
  | number
  | flag
  | stringId
  | offset
  | box
  | matrix
  | region
  | delta
deriving DecidableEq, Repr

/-- A number that is a natural number and at most the bound. -/
def IsNatural (bound : Nat) (x : Float) : Prop := ∃ n : Nat, n ≤ bound ∧ Number.Equals x n

/-- How many operands a form takes, and which of them have to be natural numbers. -/
def Form.Admits : Form → List Float → Prop
  | .number, operands => operands.length = 1
  | .flag, operands => operands.length = 1
  | .stringId, operands => ∃ x, operands = [x] ∧ IsNatural 65535 x
  | .offset, operands => ∃ x, operands = [x] ∧ IsNatural 4294967295 x
  | .box, operands => operands.length = 4
  | .matrix, operands => operands.length = 6
  | .region, operands =>
    ∃ length start, operands = [length, start] ∧ IsNatural 4294967295 length ∧ IsNatural 4294967295 start
  | .delta, _ => True

/-- The operand at a place. -/
def operandAt (place : Nat) (operands : List Float) : Float := operands.getD place 0.0

/-- The natural number that the operand at a place is. -/
def naturalAt (place : Nat) (operands : List Float) : Nat :=
  ((Number.whole? (operandAt place operands)).getD 0).toNat

/-- The first operand as it stands, and then every value less the next operand. -/
def descending : List Float → List Float
  | [] => []
  | x :: rest => rest.scanl (· - ·) x

/-- What asks for one operand gets that operand. -/
theorem number_bind_eq_ok_iff {α : Type} {operands : List Float} {next : Float → Except Fault α} {found : α} :
    (number operands >>= next) = .ok found ↔ ∃ x, operands = [x] ∧ next x = .ok found := by
  match operands with
  | [] => exact ⟨nofun, fun ⟨_, absent, _⟩ => nomatch absent⟩
  | [only] =>
    constructor
    · intro later
      exact ⟨only, rfl, later⟩
    · rintro ⟨x, same, later⟩
      cases same
      exact later
  | _ :: _ :: _ => exact ⟨nofun, fun ⟨_, more, _⟩ => nomatch more⟩

theorem number_eq_ok_iff {operands : List Float} {x : Float} :
    number operands = .ok x ↔ Form.number.Admits operands ∧ x = operandAt 0 operands := by
  rw [← bind_pure (number operands), number_bind_eq_ok_iff]
  constructor
  · rintro ⟨only, rfl, same⟩
    cases same
    exact ⟨rfl, rfl⟩
  · rintro ⟨single, rfl⟩
    obtain ⟨only, rfl⟩ := List.length_eq_one_iff.1 single
    exact ⟨only, rfl, rfl⟩

theorem flag_eq_ok_iff {operands : List Float} {b : Bool} :
    flag operands = .ok b ↔ Form.flag.Admits operands ∧ b = (operandAt 0 operands != 0.0) := by
  have mapped : flag operands = number operands >>= fun x => .ok (x != 0.0) := by
    rw [flag]
    cases number operands <;> rfl
  rw [mapped, number_bind_eq_ok_iff]
  constructor
  · rintro ⟨only, rfl, same⟩
    cases same
    exact ⟨rfl, rfl⟩
  · rintro ⟨single, rfl⟩
    obtain ⟨only, rfl⟩ := List.length_eq_one_iff.1 single
    exact ⟨only, rfl, rfl⟩

/-- An operand that is a natural number is that number and no other. -/
theorem toNat_whole?_of_equals {n : Nat} {x : Float} (same : Number.Equals x n) :
    ((Number.whole? x).getD 0).toNat = n := by
  rw [Number.whole?_eq_some_iff.2 same]
  rfl

theorem natural?_eq_some_iff {bound n : Nat} {x : Float} :
    Number.natural? bound x = some n ↔ IsNatural bound x ∧ n = ((Number.whole? x).getD 0).toNat := by
  rw [Number.natural?_eq_some_iff]
  constructor
  · rintro ⟨small, same⟩
    exact ⟨⟨n, small, same⟩, (toNat_whole?_of_equals same).symm⟩
  · rintro ⟨⟨m, small, same⟩, rfl⟩
    rw [toNat_whole?_of_equals same]
    exact ⟨small, same⟩

theorem toStringId_eq_ok_iff {x : Float} {n : Nat} :
    toStringId x = .ok n ↔ IsNatural 65535 x ∧ n = ((Number.whole? x).getD 0).toNat := by
  rw [← natural?_eq_some_iff, toStringId]
  cases Number.natural? 65535 x with
  | none => exact ⟨nofun, nofun⟩
  | some m => rw [Except.ok.injEq, Option.some.injEq]

theorem toOffset_eq_ok_iff {x : Float} {n : Nat} :
    toOffset x = .ok n ↔ IsNatural 4294967295 x ∧ n = ((Number.whole? x).getD 0).toNat := by
  rw [← natural?_eq_some_iff, toOffset]
  cases Number.natural? 4294967295 x with
  | none => exact ⟨nofun, nofun⟩
  | some m => rw [Except.ok.injEq, Option.some.injEq]

theorem stringId_eq_ok_iff {operands : List Float} {n : Nat} :
    stringId operands = .ok n ↔ Form.stringId.Admits operands ∧ n = naturalAt 0 operands := by
  rw [stringId, number_bind_eq_ok_iff]
  constructor
  · rintro ⟨x, rfl, found⟩
    obtain ⟨natural, same⟩ := toStringId_eq_ok_iff.1 found
    exact ⟨⟨x, rfl, natural⟩, same⟩
  · rintro ⟨⟨x, rfl, natural⟩, same⟩
    exact ⟨x, rfl, toStringId_eq_ok_iff.2 ⟨natural, same⟩⟩

theorem offset_eq_ok_iff {operands : List Float} {n : Nat} :
    offset operands = .ok n ↔ Form.offset.Admits operands ∧ n = naturalAt 0 operands := by
  rw [offset, number_bind_eq_ok_iff]
  constructor
  · rintro ⟨x, rfl, found⟩
    obtain ⟨natural, same⟩ := toOffset_eq_ok_iff.1 found
    exact ⟨⟨x, rfl, natural⟩, same⟩
  · rintro ⟨⟨x, rfl, natural⟩, same⟩
    exact ⟨x, rfl, toOffset_eq_ok_iff.2 ⟨natural, same⟩⟩

theorem region_eq_ok_iff {operands : List Float} {found : Nat × Nat} :
    region operands = .ok found ↔
      Form.region.Admits operands ∧ found = (naturalAt 0 operands, naturalAt 1 operands) := by
  constructor
  · intro read
    match operands with
    | [] | [_] | _ :: _ :: _ :: _ => cases read
    | [length, start] =>
      obtain ⟨first, lengthIs, read⟩ := bind_eq_ok_iff.1 read
      obtain ⟨second, startIs, read⟩ := bind_eq_ok_iff.1 read
      cases read
      obtain ⟨natural, rfl⟩ := toOffset_eq_ok_iff.1 lengthIs
      obtain ⟨alsoNatural, rfl⟩ := toOffset_eq_ok_iff.1 startIs
      exact ⟨⟨length, start, rfl, natural, alsoNatural⟩, rfl⟩
  · rintro ⟨⟨length, start, rfl, natural, alsoNatural⟩, rfl⟩
    have lengthIs := toOffset_eq_ok_iff.2 ⟨natural, rfl⟩
    have startIs := toOffset_eq_ok_iff.2 ⟨alsoNatural, rfl⟩
    rw [region, lengthIs]
    show (do let second ← toOffset start; pure (_, second)) = _
    rw [startIs]
    rfl

theorem delta_eq_descending (operands : List Float) : delta operands = descending operands := by
  have descends (value : Float) (rest : List Float) : value :: descend value rest = rest.scanl (· - ·) value := by
    induction rest generalizing value with
    | nil => rfl
    | cons x rest ih => rw [descend, ih, List.scanl_cons]
  cases operands with
  | nil => rfl
  | cons x rest => exact descends x rest

/-- What the last entry with a key means, or else what holds without one. -/
def latest {κ α : Type} [DecidableEq κ] (entries : List (κ × List Float)) (key : κ) (meaning : List Float → α)
    (initial : α) : α :=
  ((entries.reverse.lookup key).map meaning).getD initial

theorem latest_append {κ α : Type} [DecidableEq κ] (entries : List (κ × List Float)) (last key : κ)
    (operands : List Float) (meaning : List Float → α) (initial : α) :
    latest (entries ++ [(last, operands)]) key meaning initial =
      if key = last then meaning operands else latest entries key meaning initial := by
  rw [latest, List.reverse_append, List.reverse_singleton, List.singleton_append, List.lookup_cons]
  split
  next same => rw [if_pos (beq_iff_eq.1 same)]; rfl
  next other => rw [if_neg (beq_eq_false_iff_ne.1 other)]; rfl

end CompactFont.Dict
