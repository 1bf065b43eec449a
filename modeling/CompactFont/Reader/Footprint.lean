import CompactFont.Reader

/-! What a reader consumes decides what it finds. A reading that succeeds goes the same way in front of any
other bytes, so that fields can be put one behind the other. -/

namespace CompactFont.Reader

variable {α β : Type}

/-- The reader takes exactly these bytes for the value, whatever follows them. -/
def Finds (reader : Reader α) (used : List UInt8) (value : α) : Prop :=
  ∀ tail, reader (used ++ tail) = .ok value tail

/-- Every successful reading finds its value in the bytes it consumed. -/
def Local (reader : Reader α) : Prop :=
  ∀ bytes value rest, reader bytes = .ok value rest →
    ∃ used, bytes = used ++ rest ∧ reader.Finds used value

theorem bind_of_ok {reader : Reader α} {next : α → Reader β} {bytes rest : List UInt8} {value : α}
    (reads : reader bytes = .ok value rest) : (reader >>= next) bytes = next value rest := by
  show EStateM.bind reader next bytes = _
  rw [EStateM.bind, reads]

theorem bind_of_error {reader : Reader α} {next : α → Reader β} {bytes rest : List UInt8} {fault : Fault}
    (fails : reader bytes = .error fault rest) : (reader >>= next) bytes = .error fault rest := by
  show EStateM.bind reader next bytes = _
  rw [EStateM.bind, fails]

theorem ok_bind_iff {reader : Reader α} {next : α → Reader β} {bytes rest : List UInt8} {value : β} :
    (reader >>= next) bytes = .ok value rest ↔
      ∃ first between, reader bytes = .ok first between ∧ next first between = .ok value rest := by
  show EStateM.bind reader next bytes = .ok value rest ↔ _
  unfold EStateM.bind
  cases found : reader bytes with
  | ok first between =>
    constructor
    · intro later
      exact ⟨first, between, rfl, later⟩
    · intro ⟨other, after, same, later⟩
      cases same
      exact later
  | error fault between =>
    constructor
    · intro failed
      cases failed
    · intro ⟨other, after, same, _⟩
      cases same

theorem finds_pure (value : α) : Finds (pure value) [] value := fun _ => rfl

theorem finds_bind {reader : Reader α} {next : α → Reader β} {used more : List UInt8} {first : α} {value : β}
    (start : reader.Finds used first) (later : (next first).Finds more value) :
    Finds (reader >>= next) (used ++ more) value := by
  intro tail
  rw [List.append_assoc]
  exact ok_bind_iff.2 ⟨first, more ++ tail, start _, later tail⟩

theorem local_pure (value : α) : Local (pure value) := by
  intro bytes found rest reads
  cases reads
  exact ⟨[], rfl, finds_pure value⟩

theorem local_throw (fault : Fault) : Local (throw fault : Reader α) := by
  intro bytes found rest reads
  cases reads

theorem local_bind {reader : Reader α} {next : α → Reader β} (first : Local reader)
    (second : ∀ value, Local (next value)) : Local (reader >>= next) := by
  intro bytes value rest reads
  obtain ⟨middle, between, start, later⟩ := ok_bind_iff.1 reads
  obtain ⟨used, rfl, here⟩ := first _ _ _ start
  obtain ⟨more, rfl, there⟩ := second _ _ _ _ later
  refine ⟨used ++ more, ?_, finds_bind here there⟩
  rw [List.append_assoc]

theorem local_map {reader : Reader α} (f : α → β) (first : Local reader) : Local (f <$> reader) := by
  rw [map_eq_pure_bind]
  exact local_bind first fun _ => local_pure _

theorem local_byte : Local byte := by
  intro bytes value rest reads
  cases bytes with
  | nil => cases reads
  | cons b bytes =>
    cases reads
    exact ⟨[value], rfl, fun _ => rfl⟩

theorem local_digits (width value : Nat) : Local (digits value width) := by
  induction width generalizing value with
  | zero => exact local_pure value
  | succ width ih => exact local_bind local_byte fun b => ih _

theorem local_unsigned (width : Nat) : Local (unsigned width) := local_digits width 0

theorem local_signed (width : Nat) : Local (signed width) :=
  local_bind (local_unsigned width) fun _ => local_pure _

/-- A slice takes as many bytes as it is asked for. -/
theorem finds_slice (bytes : List UInt8) : Finds (slice bytes.length) bytes bytes := by
  intro tail
  dsimp only [slice]
  rw [List.take_left, List.drop_left, if_pos rfl]

theorem ok_slice_iff {length : Nat} {bytes value rest : List UInt8} :
    slice length bytes = .ok value rest ↔ value.length = length ∧ bytes = value ++ rest := by
  constructor
  · intro reads
    dsimp only [slice] at reads
    split at reads
    next full =>
      cases reads
      exact ⟨full, (List.take_append_drop length bytes).symm⟩
    next => cases reads
  · intro ⟨full, split⟩
    rw [← full, split]
    exact finds_slice value rest

theorem local_slice (length : Nat) : Local (slice length) := by
  intro bytes value rest reads
  obtain ⟨rfl, split⟩ := ok_slice_iff.1 reads
  exact ⟨value, split, finds_slice value⟩

theorem local_shortInteger (lead : UInt8) : Local (shortInteger lead) := by
  unfold shortInteger
  split
  · exact local_pure _
  · split
    · exact local_bind local_byte fun _ => local_pure _
    · exact local_bind local_byte fun _ => local_pure _

end CompactFont.Reader
