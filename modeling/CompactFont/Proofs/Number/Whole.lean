import Mathlib.Algebra.Order.Ring.Int
import CompactFont.Number.Parts

/-! What it means for a number to be an integer, said of its exact value, and that the test for it is right. -/

namespace CompactFont.Number

/-- The exact value of the parts is the integer: nothing is rounded on either side. -/
def Parts.Equals : Parts → Int → Prop
  | .finite negative significand (.ofNat up), n => n = signed negative (significand * Nat.pow 2 up)
  | .finite negative significand (.negSucc down), n =>
    n * (Nat.pow 2 (down + 1) : Nat) = signed negative significand
  | _, _ => False

/-- A number is exactly an integer. -/
def Equals (x : Float) (n : Int) : Prop := (parts x).Equals n

theorem signed_mul (negative : Bool) (magnitude factor : Nat) :
    signed negative (magnitude * factor) = signed negative magnitude * factor := by
  cases negative with
  | false => exact Int.natCast_mul magnitude factor
  | true => simp [signed]

theorem dvd_of_mul_eq_signed {negative : Bool} {magnitude factor : Nat} {n : Int}
    (same : n * factor = signed negative magnitude) : factor ∣ magnitude := by
  have divides : (factor : Int) ∣ signed negative magnitude := ⟨n, by rw [← same, Int.mul_comm]⟩
  cases negative with
  | false => exact Int.natCast_dvd_natCast.1 divides
  | true => exact Int.natCast_dvd_natCast.1 ((Int.dvd_neg).1 divides)

/-- A magnitude that is divided without a remainder is a multiple of the unit, with the same sign. -/
theorem signed_div_eq_iff {unit : Nat} (positive : 0 < unit) {negative : Bool} {magnitude : Nat} {n : Int} :
    magnitude % unit = 0 ∧ signed negative (magnitude / unit) = n ↔ n * unit = signed negative magnitude := by
  constructor
  · rintro ⟨divides, rfl⟩
    rw [← signed_mul, Nat.div_mul_cancel (Nat.dvd_of_mod_eq_zero divides)]
  · intro same
    have divides := dvd_of_mul_eq_signed same
    refine ⟨Nat.mod_eq_zero_of_dvd divides, ?_⟩
    apply Int.eq_of_mul_eq_mul_right (Int.natCast_ne_zero.2 positive.ne')
    rw [same, ← signed_mul, Nat.div_mul_cancel divides]

theorem whole?_eq_some_iff {x : Float} {n : Int} : whole? x = some n ↔ Equals x n := by
  unfold whole? Equals
  cases exact : parts x with
  | nan => exact ⟨nofun, nofun⟩
  | infinite negative => exact ⟨nofun, nofun⟩
  | finite negative significand exponent =>
    cases exponent with
    | ofNat up =>
      show some (signed negative (significand <<< up)) = some n ↔ n = signed negative (significand * Nat.pow 2 up)
      rw [Nat.shiftLeft_eq, Option.some.injEq]
      exact eq_comm
    | negSucc down =>
      have power : 1 <<< (down + 1) = Nat.pow 2 (down + 1) := Nat.one_shiftLeft (down + 1)
      have positive : 0 < Nat.pow 2 (down + 1) := Nat.two_pow_pos (down + 1)
      have shifted : significand >>> (down + 1) = significand / Nat.pow 2 (down + 1) :=
        Nat.shiftRight_eq_div_pow significand (down + 1)
      show (if isIntegral significand (.negSucc down) then
          some (signed negative (significand >>> (down + 1))) else none) = some n ↔
        n * (Nat.pow 2 (down + 1) : Nat) = signed negative significand
      rw [← signed_div_eq_iff positive, shifted, Option.ite_none_right_eq_some,
        Option.some.injEq, isIntegral, beq_iff_eq, power]

theorem natural?_eq_some_iff {bound n : Nat} {x : Float} :
    natural? bound x = some n ↔ n ≤ bound ∧ Equals x n := by
  unfold natural?
  rw [← whole?_eq_some_iff]
  constructor
  · intro found
    split at found
    next m whole =>
      obtain ⟨small, same⟩ := Option.ite_none_right_eq_some.1 found
      cases same
      exact ⟨small, whole⟩
    next => cases found
  · rintro ⟨small, whole⟩
    rw [whole]
    exact if_pos small

end CompactFont.Number
