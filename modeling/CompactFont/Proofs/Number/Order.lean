import Mathlib.Data.Prod.Lex
import Mathlib.Order.Bounds.Defs
import Mathlib.Order.Compare
import CompactFont.Proofs.Number.Exact

/-! The order of numbers. What is not a number stands beside it; among all others it is total, with the infinities at
its ends and the two zeros in one place. The lesser and the greater of two numbers are therefore one choice, by the place
of a number or by its place seen from the other end. -/

namespace CompactFont.Number

open Float.Model Float.Model.UnpackedFloat

/-! ### The place of a number -/

/-- Where a number stands: its side of zero, and there its exponent before its significand. -/
abbrev Place := ℤ ×ₗ ℤ ×ₗ ℤ

def placeAt (side exponent significand : ℤ) : Place := toLex (side, toLex (exponent, significand))

def placeOfUnpacked : UnpackedFloat → Place
  | .infinity .negative => placeAt (-2) 0 0
  | .finite .negative significand exponent _ => placeAt (-1) (-exponent) (-significand)
  | .zero _ => placeAt 0 0 0
  | .finite .positive significand exponent _ => placeAt 1 exponent significand
  | .infinity .positive => placeAt 2 0 0
  | .notANumber => placeAt 3 0 0

def place (x : Float) : Place := placeOfUnpacked x.toModel.unpack

theorem placeAt_lt {side other e m f n : ℤ} (less : side < other) : placeAt side e m < placeAt other f n :=
  Prod.Lex.toLex_lt_toLex.2 (.inl less)

theorem compares_then {α β : Type*} [Preorder α] [LT β] {first second : Ordering} {a b : α} {c d : β}
    (front : first.Compares a b) (back : second.Compares c d) :
    (first.then second).Compares (toLex (a, c)) (toLex (b, d)) := by
  cases first with
  | lt => exact Prod.Lex.toLex_lt_toLex.2 (.inl front)
  | gt => exact Prod.Lex.toLex_lt_toLex.2 (.inl front)
  | eq =>
    obtain rfl : a = b := front
    cases second with
    | lt => exact Prod.Lex.toLex_lt_toLex.2 (.inr ⟨rfl, back⟩)
    | eq => exact congrArg (fun rest => toLex (a, rest)) (back : c = d)
    | gt => exact Prod.Lex.toLex_lt_toLex.2 (.inr ⟨rfl, back⟩)

theorem compares_beside {β : Type*} [LT β] {o : Ordering} {c d : β} (side : ℤ) (compares : o.Compares c d) :
    o.Compares (toLex (side, c)) (toLex (side, d)) := by
  have same : Ordering.eq.Compares side side := rfl
  exact compares_then same compares

theorem compares_cast (m n : ℕ) : (compare m n).Compares (m : ℤ) (n : ℤ) := by
  cases order : compare m n with
  | lt => exact Int.ofNat_lt.2 (compare_lt_iff_lt.1 order)
  | eq => exact congrArg Int.ofNat (compare_eq_iff_eq.1 order)
  | gt => exact Int.ofNat_lt.2 (compare_gt_iff_gt.1 order)

theorem compares_neg {o : Ordering} {i j : ℤ} (compares : o.Compares i j) : o.Compares (-j) (-i) := by
  cases o with
  | lt => exact Int.neg_lt_neg compares
  | eq => exact congrArg Int.neg (compares : i = j).symm
  | gt => exact Int.neg_lt_neg compares

/-- Two numbers are compared by their places: by their sides of zero, and on one side by exponent and significand. -/
theorem exists_compare {x y : UnpackedFloat} (first : x.isNaN = false) (second : y.isNaN = false) :
    ∃ o, x.compare y = some o ∧ o.Compares (placeOfUnpacked x) (placeOfUnpacked y) := by
  cases x with
  | notANumber => cases first
  | infinity sign =>
    cases y with
    | notANumber => cases second
    | infinity other =>
      cases sign <;> cases other
      · exact ⟨.eq, rfl, rfl⟩
      · exact ⟨.lt, rfl, placeAt_lt (by decide)⟩
      · exact ⟨.gt, rfl, placeAt_lt (by decide)⟩
      · exact ⟨.eq, rfl, rfl⟩
    | zero other => cases sign <;> exact ⟨_, rfl, placeAt_lt (by decide)⟩
    | finite other n f _ => cases sign <;> cases other <;> exact ⟨_, rfl, placeAt_lt (by decide)⟩
  | zero sign =>
    cases y with
    | notANumber => cases second
    | infinity other => cases other <;> exact ⟨_, rfl, placeAt_lt (by decide)⟩
    | zero other => exact ⟨.eq, rfl, rfl⟩
    | finite other n f _ => cases other <;> exact ⟨_, rfl, placeAt_lt (by decide)⟩
  | finite sign m e _ =>
    cases y with
    | notANumber => cases second
    | infinity other => cases sign <;> cases other <;> exact ⟨_, rfl, placeAt_lt (by decide)⟩
    | zero other => cases sign <;> exact ⟨_, rfl, placeAt_lt (by decide)⟩
    | finite other n f _ =>
      have exponents : (compare e f).Compares e f := (compare_iff e f).1 rfl
      have significands := compares_cast m n
      cases sign <;> cases other
      -- Below zero the one that is further from it comes first, so that both parts are turned over.
      · exact ⟨_, rfl, .swap (compares_beside (-1)
          (compares_then (compares_neg exponents) (compares_neg significands)))⟩
      · exact ⟨.lt, rfl, placeAt_lt (by decide)⟩
      · exact ⟨.gt, rfl, placeAt_lt (by decide)⟩
      · exact ⟨_, rfl, compares_beside 1 (compares_then exponents significands)⟩

variable {x y z : Float}

theorem lt_iff_place (first : x.isNaN = false) (second : y.isNaN = false) : x < y ↔ place x < place y := by
  obtain ⟨o, compared, places⟩ := exists_compare first second
  have ordered : x < y ↔ o = .lt := by
    change decide ((x.toModel.unpack.compare y.toModel.unpack == some .lt) = true) = true ↔ o = .lt
    rw [compared, decide_eq_true_iff, beq_iff_eq, Option.some_inj]
  exact ordered.trans places.eq_lt

theorem le_iff_place (first : x.isNaN = false) (second : y.isNaN = false) : x ≤ y ↔ place x ≤ place y := by
  obtain ⟨o, compared, places⟩ := exists_compare first second
  have ordered : x ≤ y ↔ o ≠ .gt := by
    change decide ((x.toModel.unpack.compare y.toModel.unpack).any (·.isLE) = true) = true ↔ o ≠ .gt
    rw [compared, decide_eq_true_iff]
    cases o <;> decide
  exact ordered.trans places.ne_gt

theorem beq_iff_place (first : x.isNaN = false) (second : y.isNaN = false) : x == y ↔ place x = place y := by
  obtain ⟨o, compared, places⟩ := exists_compare first second
  have ordered : x == y ↔ o = .eq := by
    change (x.toModel.unpack.compare y.toModel.unpack == some .eq) = true ↔ o = .eq
    rw [compared, beq_iff_eq, Option.some_inj]
  exact ordered.trans places.eq_eq

theorem eq_notANumber {x : UnpackedFloat} (nan : x.isNaN = true) : x = .notANumber := by
  cases x with
  | notANumber => rfl
  | infinity sign => cases nan
  | zero sign => cases nan
  | finite sign m e positive => cases nan

theorem compare_of_isNaN {x y : UnpackedFloat} (nan : x.isNaN = true ∨ y.isNaN = true) : x.compare y = none := by
  rcases nan with nan | nan
  · rw [eq_notANumber nan]
    rfl
  · rw [eq_notANumber nan]
    cases x <;> rfl

theorem not_lt_of_isNaN (nan : x.isNaN = true ∨ y.isNaN = true) : ¬ x < y := by
  change ¬ decide ((x.toModel.unpack.compare y.toModel.unpack == some .lt) = true) = true
  rw [compare_of_isNaN nan]
  decide

/-! ### The ends of the order -/

theorem eq_of_toBits (same : x.toBits = y.toBits) : x = y := by
  obtain ⟨⟨bits, valid⟩⟩ := x
  obtain ⟨⟨other, valid'⟩⟩ := y
  obtain rfl : bits = other := same
  rfl

/-- There is one infinity of each sign. -/
theorem toBits_of_infinite {negative : Bool} (infinite : parts x = .infinite negative) :
    x.toBits = if negative then 0xFFF0000000000000 else 0x7FF0000000000000 := by
  rw [parts, Parts.ofBits] at infinite
  split at infinite
  next ones =>
    split at infinite
    next empty =>
      obtain rfl := Parts.infinite.inj infinite
      have unit : leadingBit = 2 ^ 52 := rfl
      have bound := x.toBits.toNat_lt
      rw [Nat.shiftRight_eq_div_pow] at ones
      rw [unit] at empty
      apply UInt64.toNat_inj.1
      rw [Nat.testBit_eq_decide_div_mod_eq]
      by_cases high : x.toBits.toNat / 2 ^ 63 % 2 = 1
      · rw [if_pos (decide_eq_true high)]
        show x.toBits.toNat = 0xFFF0000000000000
        omega
      · rw [if_neg (by simpa using high)]
        show x.toBits.toNat = 0x7FF0000000000000
        omega
    next => cases infinite
  next => split at infinite <;> cases infinite

theorem eq_of_unpack {sign : Sign} (first : x.toModel.unpack = .infinity sign)
    (second : y.toModel.unpack = .infinity sign) : x = y := by
  have infinite {x : Float} (held : x.toModel.unpack = .infinity sign) : parts x = .infinite (isNegative sign) := by
    rw [parts_eq_ofUnpacked, held]
    rfl
  exact eq_of_toBits ((toBits_of_infinite (infinite first)).trans (toBits_of_infinite (infinite second)).symm)

/-- A number is one of the ends or lies between them. -/
theorem end_or_between (number : x.isNaN = false) :
    x = -1.0 / 0.0 ∨ x = 1.0 / 0.0 ∨ place (-1.0 / 0.0) < place x ∧ place x < place (1.0 / 0.0) := by
  change x.toModel.unpack.isNaN = false at number
  unfold place
  cases held : x.toModel.unpack with
  | notANumber =>
    rw [held] at number
    cases number
  | infinity sign =>
    cases sign with
    | negative => exact .inl (eq_of_unpack held rfl)
    | positive => exact .inr (.inl (eq_of_unpack held rfl))
  | zero sign => exact .inr (.inr ⟨placeAt_lt (by decide), placeAt_lt (by decide)⟩)
  | finite sign m e positive => cases sign <;> exact .inr (.inr ⟨placeAt_lt (by decide), placeAt_lt (by decide)⟩)

theorem place_ends : place (-1.0 / 0.0) < place (1.0 / 0.0) := placeAt_lt (by decide)

/-! ### The foremost of some numbers -/

/-- The order of numbers as it is seen from one end: a key that grows towards the other, where the last number is. -/
structure Outlook (κ : Type*) [LinearOrder κ] where
  key : Float → κ
  last : Float
  isNaN_last : last.isNaN = false
  eq_or_lt : ∀ {x : Float}, x.isNaN = false → x = last ∨ key x < key last

def fromBelow : Outlook Place where
  key := place
  last := 1.0 / 0.0
  isNaN_last := rfl
  eq_or_lt number := by
    rcases end_or_between number with rfl | rfl | ⟨_, less⟩
    · exact .inr place_ends
    · exact .inl rfl
    · exact .inr less

def fromAbove : Outlook Placeᵒᵈ where
  key x := OrderDual.toDual (place x)
  last := -1.0 / 0.0
  isNaN_last := rfl
  eq_or_lt number := by
    rcases end_or_between number with rfl | rfl | ⟨greater, _⟩
    · exact .inl rfl
    · exact .inr place_ends
    · exact .inr greater

namespace Outlook

variable {κ : Type*} [LinearOrder κ] (outlook : Outlook κ)

/-- The foremost of two numbers, and the second of two in one place; what is not a number is passed over. -/
def pick (x y : Float) : Float :=
  if y.isNaN = true ∨ x.isNaN = false ∧ outlook.key x < outlook.key y then x else y

variable {outlook}

theorem pick_of_isNaN (nan : y.isNaN = true) : outlook.pick x y = x := if_pos (.inl nan)

theorem pick_of_isNaN_left (nan : x.isNaN = true) (number : y.isNaN = false) : outlook.pick x y = y := by
  apply if_neg
  rintro (other | ⟨other, _⟩)
  · exact Bool.false_ne_true (number.symm.trans other)
  · exact Bool.false_ne_true (other.symm.trans nan)

theorem pick_of_numbers (first : x.isNaN = false) (second : y.isNaN = false) :
    outlook.pick x y = if outlook.key x < outlook.key y then x else y := by
  rw [pick, first, second]
  simp

theorem isNaN_pick (number : x.isNaN = false) : (outlook.pick x y).isNaN = false := by
  cases nan : y.isNaN with
  | true => rwa [pick_of_isNaN nan]
  | false =>
    rw [pick_of_numbers number nan]
    split
    · exact number
    · exact nan

theorem pick_last (number : x.isNaN = false) : outlook.pick x outlook.last = x := by
  rw [pick_of_numbers number outlook.isNaN_last]
  split
  · rfl
  · next there => exact ((outlook.eq_or_lt number).resolve_right there).symm

theorem pick_assoc (x y z : Float) : outlook.pick (outlook.pick x y) z = outlook.pick x (outlook.pick y z) := by
  cases third : z.isNaN with
  | true => rw [pick_of_isNaN third, pick_of_isNaN third]
  | false =>
    cases second : y.isNaN with
    | true => rw [pick_of_isNaN second, pick_of_isNaN_left second third]
    | false =>
      cases first : x.isNaN with
      | true => rw [pick_of_isNaN_left first second, pick_of_isNaN_left first (isNaN_pick second)]
      | false =>
        rw [pick_of_numbers first second, pick_of_numbers second third]
        -- In one place the later number is taken, on both sides the last of the foremost.
        by_cases less : outlook.key x < outlook.key y
        · by_cases later : outlook.key y < outlook.key z
          · rw [if_pos less, if_pos later, pick_of_numbers first second, pick_of_numbers first third,
              if_pos less, if_pos (less.trans later)]
          · rw [if_pos less, if_neg later]
        · by_cases later : outlook.key y < outlook.key z
          · rw [if_neg less, if_pos later, pick_of_numbers first second, pick_of_numbers second third,
              if_neg less, if_pos later]
          · have least := (not_lt.1 later).trans (not_lt.1 less)
            rw [if_neg less, if_neg later, pick_of_numbers first third, pick_of_numbers second third,
              if_neg later, if_neg (not_lt.2 least)]

theorem key_pick_le (number : x.isNaN = false) : outlook.key (outlook.pick x y) ≤ outlook.key x := by
  cases nan : y.isNaN with
  | true => rw [pick_of_isNaN nan]
  | false =>
    rw [pick_of_numbers number nan]
    split
    · rfl
    · next there => exact not_lt.1 there

theorem key_pick_le_right (first : x.isNaN = false) (second : y.isNaN = false) :
    outlook.key (outlook.pick x y) ≤ outlook.key y := by
  rw [pick_of_numbers first second]
  split
  · next less => exact less.le
  · rfl

theorem pick_eq_or : outlook.pick x y = x ∨ outlook.pick x y = y := ite_eq_or_eq ..

variable (outlook)

/-- The foremost of a number and the numbers of a list is one of them, and none of them is before it. -/
theorem foldl_pick (numbers : List Float) (number : x.isNaN = false) :
    let found := numbers.foldl outlook.pick x
    found.isNaN = false ∧ (found = x ∨ found ∈ numbers) ∧ outlook.key found ≤ outlook.key x ∧
      ∀ y ∈ numbers, y.isNaN = false → outlook.key found ≤ outlook.key y := by
  induction numbers generalizing x with
  | nil => exact ⟨number, .inl rfl, le_rfl, List.forall_mem_nil _⟩
  | cons y numbers ih =>
    have one : outlook.pick x y = x ∨ outlook.pick x y = y := pick_eq_or
    have picked : (outlook.pick x y).isNaN = false := isNaN_pick number
    obtain ⟨still, among, least, all⟩ := ih picked
    refine ⟨still, ?_, least.trans (key_pick_le number), List.forall_mem_cons.2 ⟨?_, all⟩⟩
    · rcases among with first | later
      · exact one.imp first.trans fun second => List.mem_cons.2 (.inl (first.trans second))
      · exact .inr (List.mem_cons_of_mem y later)
    · exact fun second => least.trans (key_pick_le_right number second)

/-- The foremost number of a list, and the last of all where the list has none. -/
def foremost (numbers : List Float) : Float := numbers.foldl outlook.pick outlook.last

variable {outlook}

theorem isNaN_foremost (numbers : List Float) : (outlook.foremost numbers).isNaN = false :=
  (foldl_pick outlook numbers outlook.isNaN_last).1

theorem key_foremost_le {numbers : List Float} (member : y ∈ numbers) (number : y.isNaN = false) :
    outlook.key (outlook.foremost numbers) ≤ outlook.key y :=
  (foldl_pick outlook numbers outlook.isNaN_last).2.2.2 y member number

/-- The last number of all is found only where it is in the list or nothing in it is a number. -/
theorem foremost_mem_or (outlook : Outlook κ) (numbers : List Float) :
    outlook.foremost numbers ∈ numbers ∨ outlook.foremost numbers = outlook.last ∧ ∀ y ∈ numbers, y.isNaN = true := by
  obtain ⟨_, here | there, _, _⟩ := foldl_pick outlook numbers outlook.isNaN_last
  · have here : outlook.foremost numbers = outlook.last := here
    rw [here]
    by_cases member : outlook.last ∈ numbers
    · exact .inl member
    · refine .inr ⟨rfl, fun y among => ?_⟩
      by_contra nan
      have number : y.isNaN = false := Bool.eq_false_iff.2 nan
      rcases outlook.eq_or_lt number with rfl | less
      · exact member among
      · have least : outlook.key (outlook.foremost numbers) ≤ outlook.key y := key_foremost_le among number
        rw [here] at least
        exact absurd least (not_le.2 less)
  · exact .inl there

/-- A choice by any test that agrees with the keys of numbers and refuses what is not a number. -/
theorem ite_eq_pick {before : Prop} [Decidable before]
    (numbers : x.isNaN = false → y.isNaN = false → (before ↔ outlook.key x < outlook.key y))
    (refuses : x.isNaN = true → ¬ before) :
    (if before then x else if y.isNaN = true then x else y) = outlook.pick x y := by
  cases second : y.isNaN with
  | true => rw [pick_of_isNaN second, if_pos rfl, ite_self]
  | false =>
    rw [if_neg Bool.false_ne_true]
    cases first : x.isNaN with
    | true => rw [pick_of_isNaN_left first second, if_neg (refuses first)]
    | false =>
      rw [pick_of_numbers first second]
      exact if_congr (numbers first second) rfl rfl

end Outlook

theorem lesser_eq_pick : lesser x y = fromBelow.pick x y :=
  Outlook.ite_eq_pick lt_iff_place fun nan => not_lt_of_isNaN (.inl nan)

theorem greater_eq_pick : greater x y = fromAbove.pick x y :=
  Outlook.ite_eq_pick (fun first second => lt_iff_place second first) fun nan => not_lt_of_isNaN (.inr nan)

/-! ### The least and the greatest -/

/-- Those of some values that are numbers. -/
def numbersIn (values : Set Float) : Set Float := {x | x ∈ values ∧ x.isNaN = false}

/-- The least number among some values, and infinity if none of them is a number. -/
def Least (values : Set Float) (x : Float) : Prop :=
  IsLeast (numbersIn values) x ∨ numbersIn values = ∅ ∧ x = 1.0 / 0.0

/-- The greatest number among some values, and negative infinity if none of them is a number. -/
def Greatest (values : Set Float) (x : Float) : Prop :=
  IsGreatest (numbersIn values) x ∨ numbersIn values = ∅ ∧ x = -1.0 / 0.0

/-- A value that is seen first, or the last number of all if no value is a number. -/
def Outlook.Foremost {κ : Type*} [LinearOrder κ] (outlook : Outlook κ) (values : Set Float) (x : Float) : Prop :=
  (x ∈ numbersIn values ∧ ∀ y ∈ numbersIn values, outlook.key x ≤ outlook.key y) ∨
    numbersIn values = ∅ ∧ x = outlook.last

variable {values more : Set Float}

theorem least_iff : Least values x ↔ fromBelow.Foremost values x := by
  refine or_congr_left (and_congr_right fun member => forall₂_congr fun y among => ?_)
  exact le_iff_place member.2 among.2

theorem greatest_iff : Greatest values x ↔ fromAbove.Foremost values x := by
  refine or_congr_left (and_congr_right fun member => forall₂_congr fun y among => ?_)
  exact le_iff_place among.2 member.2

namespace Outlook

variable {κ : Type*} [LinearOrder κ] {outlook : Outlook κ}

theorem foremost_foremost (numbers : List Float) : outlook.Foremost {x | x ∈ numbers} (outlook.foremost numbers) := by
  rcases foremost_mem_or outlook numbers with member | ⟨last, none⟩
  · exact .inl ⟨⟨member, isNaN_foremost numbers⟩, fun y among => key_foremost_le among.1 among.2⟩
  · refine .inr ⟨Set.eq_empty_of_forall_notMem fun y among => ?_, last⟩
    exact Bool.false_ne_true (among.2.symm.trans (none y among.1))

theorem Foremost.isNaN (found : outlook.Foremost values x) : x.isNaN = false := by
  rcases found with ⟨member, _⟩ | ⟨_, rfl⟩
  · exact member.2
  · exact outlook.isNaN_last

/-- More values can only bring the foremost forward. -/
theorem Foremost.key_le (found : outlook.Foremost values x) (within : values ⊆ more) (other : outlook.Foremost more y) :
    outlook.key y ≤ outlook.key x := by
  have number := other.isNaN
  rcases found with ⟨member, _⟩ | ⟨_, rfl⟩
  · have among : x ∈ numbersIn more := ⟨within member.1, member.2⟩
    rcases other with ⟨_, least⟩ | ⟨none, _⟩
    · exact least x among
    · exact absurd among (none ▸ Set.notMem_empty x)
  · rcases outlook.eq_or_lt number with rfl | less
    · exact le_rfl
    · exact less.le

theorem Foremost.key_eq (found : outlook.Foremost values x) (other : outlook.Foremost values y) :
    outlook.key x = outlook.key y :=
  le_antisymm (other.key_le subset_rfl found) (found.key_le subset_rfl other)

end Outlook

theorem Least.le (found : Least values x) (within : values ⊆ more) (other : Least more y) : y ≤ x := by
  have found := least_iff.1 found
  have other := least_iff.1 other
  exact (le_iff_place other.isNaN found.isNaN).2 (found.key_le within other)

theorem Greatest.le (found : Greatest values x) (within : values ⊆ more) (other : Greatest more y) : x ≤ y := by
  have found := greatest_iff.1 found
  have other := greatest_iff.1 other
  exact (le_iff_place found.isNaN other.isNaN).2 (found.key_le within other)

theorem Least.beq (found : Least values x) (other : Least values y) : (x == y) = true := by
  have found := least_iff.1 found
  have other := least_iff.1 other
  exact (beq_iff_place found.isNaN other.isNaN).2 (found.key_eq other)

theorem Greatest.beq (found : Greatest values x) (other : Greatest values y) : (x == y) = true := by
  have found := greatest_iff.1 found
  have other := greatest_iff.1 other
  exact (beq_iff_place found.isNaN other.isNaN).2 (found.key_eq other)

end CompactFont.Number
