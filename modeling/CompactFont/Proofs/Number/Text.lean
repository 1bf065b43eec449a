import CompactFont.Number.Text

/-! The characters in the text of a number: digits, a sign, a point and the letters of what is not finite. -/

namespace CompactFont.Number

/-- What the text of a number can hold beside digits. -/
def signs : List Char := ['.', '-', 'i', 'n', 'f', 'N', 'a']

theorem mem_positional {decimal : Decimal} {c : Char} (member : c ∈ positional decimal) :
    c.isDigit = true ∨ c = '.' := by
  have digit {c : Char} (member : c ∈ Nat.toDigits 10 decimal.digits) : c.isDigit = true :=
    Nat.isDigit_of_mem_toDigits (by decide) (by decide) member
  have zero {count : Nat} {c : Char} (member : c ∈ List.replicate count '0') : c.isDigit = true := by
    rw [List.eq_of_mem_replicate member]
    rfl
  unfold positional at member
  dsimp only at member
  split at member
  next zeros _ =>
    exact .inl ((List.mem_append.1 member).elim digit zero)
  next places _ =>
    -- the point only cuts the digits in two, so it is enough to know them and the zeros before them
    have padded {c : Char} (member : c ∈ List.replicate (places + 2 - (Nat.toDigits 10 decimal.digits).length) '0' ++
        Nat.toDigits 10 decimal.digits) : c.isDigit = true := (List.mem_append.1 member).elim zero digit
    rcases List.mem_append.1 member with whole | fraction
    · exact .inl (padded (List.mem_of_mem_take whole))
    · rcases List.mem_cons.1 fraction with point | fraction
      · exact .inr point
      · exact .inl (padded (List.mem_of_mem_drop fraction))

theorem positional_ne_nil {decimal : Decimal} : positional decimal ≠ [] := by
  unfold positional
  dsimp only
  split
  · exact List.append_ne_nil_of_left_ne_nil Nat.toDigits_ne_nil _
  · exact List.append_ne_nil_of_right_ne_nil _ (List.cons_ne_nil _ _)

theorem mem_magnitudeText {significand : Nat} {exponent : Int} {c : Char}
    (member : c ∈ magnitudeText significand exponent) : c.isDigit = true ∨ c ∈ signs := by
  unfold magnitudeText at member
  split at member
  · cases List.mem_singleton.1 member
    exact .inl rfl
  · exact (mem_positional member).imp_right fun (point : c = '.') => point ▸ List.mem_cons_self

theorem magnitudeText_ne_nil {significand : Nat} {exponent : Int} : magnitudeText significand exponent ≠ [] := by
  unfold magnitudeText
  split
  · exact List.cons_ne_nil _ _
  · exact positional_ne_nil

theorem mem_characters {x : Float} {c : Char} (member : c ∈ characters x) : c.isDigit = true ∨ c ∈ signs := by
  have letters {word : List Char} (known : word ⊆ signs) (member : c ∈ word) : c.isDigit = true ∨ c ∈ signs :=
    .inr (known member)
  unfold characters at member
  split at member
  · exact letters (by decide) member
  · exact letters (by decide) member
  · exact letters (by decide) member
  · rcases List.mem_cons.1 member with sign | member
    · cases sign
      exact .inr (by decide)
    · exact mem_magnitudeText member
  · exact mem_magnitudeText member

theorem characters_ne_nil {x : Float} : characters x ≠ [] := by
  unfold characters
  split
  · exact List.cons_ne_nil _ _
  · exact List.cons_ne_nil _ _
  · exact List.cons_ne_nil _ _
  · exact List.cons_ne_nil _ _
  · exact magnitudeText_ne_nil

end CompactFont.Number
