import CompactFont.Reader

/-! The faults that a reader can fail with: all of a kind if those of its parts are. A field that is cut short is the
end of the data. -/

namespace CompactFont.Reader

variable {α β : Type} {kind : Fault → Prop}

/-- Every fault of the reader is of this kind. -/
def FailsWith (kind : Fault → Prop) (reader : Reader α) : Prop :=
  ∀ bytes fault rest, reader bytes = .error fault rest → kind fault

theorem failsWith_pure (value : α) : FailsWith kind (pure value) := nofun

theorem failsWith_throw {fault : Fault} (blamed : kind fault) : FailsWith kind (throw fault : Reader α) := by
  intro bytes other rest fails
  cases fails
  exact blamed

theorem failsWith_bind {reader : Reader α} {next : α → Reader β} (first : FailsWith kind reader)
    (second : ∀ value, FailsWith kind (next value)) : FailsWith kind (reader >>= next) := by
  intro bytes fault rest fails
  change EStateM.bind reader next bytes = .error fault rest at fails
  unfold EStateM.bind at fails
  cases found : reader bytes with
  | ok value between =>
    rw [found] at fails
    exact second value between fault rest fails
  | error other between =>
    rw [found] at fails
    cases fails
    exact first bytes fault rest found

theorem failsWith_map {reader : Reader α} (f : α → β) (first : FailsWith kind reader) :
    FailsWith kind (f <$> reader) := by
  rw [map_eq_pure_bind]
  exact failsWith_bind first fun _ => failsWith_pure _

section Fields

variable (ended : kind .endOfData)

include ended

theorem failsWith_byte : FailsWith kind byte := by
  intro bytes fault rest fails
  cases bytes with
  | nil =>
    cases fails
    exact ended
  | cons b bytes => cases fails

theorem failsWith_digits (width value : Nat) : FailsWith kind (digits value width) := by
  induction width generalizing value with
  | zero => exact failsWith_pure value
  | succ width ih => exact failsWith_bind (failsWith_byte ended) fun b => ih _

theorem failsWith_unsigned (width : Nat) : FailsWith kind (unsigned width) := failsWith_digits ended width 0

theorem failsWith_signed (width : Nat) : FailsWith kind (signed width) :=
  failsWith_bind (failsWith_unsigned ended width) fun _ => failsWith_pure _

theorem failsWith_offset (size : UInt8) (sized : kind (.offsetSize size)) : FailsWith kind (offset size) := by
  unfold offset
  split
  · exact failsWith_unsigned ended _
  · exact failsWith_throw sized

theorem failsWith_slice (length : Nat) : FailsWith kind (slice length) := by
  intro bytes fault rest fails
  dsimp only [slice] at fails
  split at fails
  · cases fails
  · cases fails
    exact ended

theorem failsWith_shortInteger (lead : UInt8) : FailsWith kind (shortInteger lead) := by
  unfold shortInteger
  split
  · exact failsWith_pure _
  · split
    · exact failsWith_bind (failsWith_byte ended) fun _ => failsWith_pure _
    · exact failsWith_bind (failsWith_byte ended) fun _ => failsWith_pure _

end Fields

theorem failsWith_times {item : Reader α} (each : FailsWith kind item) (count : Nat) :
    FailsWith kind (times item count) := by
  induction count with
  | zero => exact failsWith_pure _
  | succ count ih => exact failsWith_bind each fun _ => failsWith_bind ih fun _ => failsWith_pure _

end CompactFont.Reader
