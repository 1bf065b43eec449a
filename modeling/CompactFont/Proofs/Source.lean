import CompactFont.Reader.Written

/-! Fields at a position of a byte string. A field is found where all of its bytes are there, and its value is what they
say; a number that is cut short takes the reader to the end, a slice leaves it where it was. Positions are natural
numbers, so that none is too far beyond the end and no sum of a position and a length is lost. -/

namespace CompactFont

namespace BigEndian

/-- The number that bytes spell as two's complement: the upper half of the range stands below zero. -/
def signedValue (bytes : List UInt8) : Int :=
  if 2 * value bytes < Nat.pow 256 bytes.length then value bytes else (value bytes : Int) - Nat.pow 256 bytes.length

theorem bmod_value {bytes : List UInt8} (positive : 0 < bytes.length) :
    (value bytes : Int).bmod (Nat.pow 256 bytes.length) = signedValue bytes := by
  have small := value_lt bytes
  obtain ⟨half, even⟩ : ∃ half, Nat.pow 256 bytes.length = 2 * half := by
    obtain ⟨width, more⟩ := Nat.exists_eq_succ_of_ne_zero (Nat.ne_of_gt positive)
    have power : Nat.pow 256 width.succ = Nat.pow 256 width * 256 := rfl
    exact ⟨Nat.pow 256 width * 128, by rw [more, power]; omega⟩
  have reduced : (value bytes : Int) % (Nat.pow 256 bytes.length : Nat) = value bytes :=
    Int.emod_eq_of_lt (Int.natCast_nonneg _) (Int.ofNat_lt.2 small)
  rw [Int.bmod_def, reduced, signedValue]
  rw [even] at small ⊢
  split <;> split <;> omega

end BigEndian

namespace Reader

variable {α : Type} {width : Nat}

/-- The reader takes so many bytes and gives what they mean; of fewer it takes all and fails. -/
def Fixed (reader : Reader α) (width : Nat) (meaning : List UInt8 → α) : Prop :=
  ∀ bytes, reader bytes =
    if width ≤ bytes.length then .ok (meaning (bytes.take width)) (bytes.drop width) else .error .endOfData []

theorem fixed_byte : Fixed byte 1 fun bytes => UInt8.ofNat (BigEndian.value bytes) := by
  intro bytes
  cases bytes with
  | nil => rfl
  | cons b rest =>
    have value : BigEndian.value [b] = b.toNat := Nat.zero_add _
    refine Eq.trans ?_ (if_pos (Nat.le_add_left 1 rest.length)).symm
    change byte (b :: rest) = .ok (UInt8.ofNat (BigEndian.value [b])) rest
    rw [value, UInt8.ofNat_toNat]
    rfl

theorem fixed_digits (width value : Nat) :
    Fixed (digits value width) width (List.foldl (fun value b => 256 * value + b.toNat) value) := by
  intro bytes
  induction width generalizing value bytes with
  | zero => rfl
  | succ width ih =>
    rw [digits]
    cases bytes with
    | nil => exact bind_of_error rfl
    | cons b rest =>
      have step : (byte >>= fun b => digits (256 * value + b.toNat) width) (b :: rest) =
          digits (256 * value + b.toNat) width rest := bind_of_ok rfl
      rw [step, ih]
      exact if_congr Nat.succ_le_succ_iff.symm rfl rfl

theorem fixed_unsigned (width : Nat) : Fixed (unsigned width) width BigEndian.value := fixed_digits width 0

theorem fixed_signed (positive : 0 < width) : Fixed (signed width) width BigEndian.signedValue := by
  intro bytes
  have here := fixed_unsigned width bytes
  by_cases enough : width ≤ bytes.length
  · have length : (bytes.take width).length = width := List.length_take_of_le enough
    have value := BigEndian.bmod_value (length.symm ▸ positive)
    rw [length] at value
    rw [if_pos enough] at here ⊢
    rw [← value]
    exact bind_of_ok here
  · rw [if_neg enough] at here ⊢
    exact bind_of_error here

end Reader

namespace Source

/-- The bytes that lie between the positions of two sources. -/
def between (source moved : Source) : List UInt8 :=
  (source.bytes.drop source.position).take (moved.position - source.position)

/-- A number that is not empty is read at a position where all of it is there. -/
theorem read_of_fixed {α : Type} {reader : Reader α} {width : Nat} {meaning : List UInt8 → α}
    (fixed : reader.Fixed width meaning) (positive : 0 < width) (source : Source) :
    source.read reader =
      if source.position + width ≤ source.bytes.length then
        (.ok (meaning ((source.bytes.drop source.position).take width)), source.seek (source.position + width))
      else (.error .endOfData, source.seek (max source.position source.bytes.length)) := by
  have length : source.remaining.length = source.bytes.length - source.position := List.length_drop
  have here := fixed source.remaining
  unfold read
  by_cases enough : source.position + width ≤ source.bytes.length
  · have moved : source.position + (source.remaining.length - (source.remaining.drop width).length) =
        source.position + width := by
      rw [List.length_drop]
      omega
    rw [if_pos (by omega)] at here
    rw [if_pos enough, here]
    dsimp only
    rw [moved]
    rfl
  · have moved : source.position + (source.remaining.length - ([] : List UInt8).length) =
        max source.position source.bytes.length := by
      rw [length, List.length_nil]
      omega
    rw [if_neg (by omega)] at here
    rw [if_neg enough, here]
    dsimp only
    rw [moved]

/-! ### Fields -/

/-- What is read at once: a byte, a number of so many bytes, or so many bytes as they are. -/
inductive Field where
  | byte
  | unsigned (width : Nat) (positive : 0 < width)
  | signed (width : Nat) (positive : 0 < width)
  | offset (size : UInt8) (sized : 1 ≤ size ∧ size ≤ 4)
  /-- The rest of an integer of two bytes that begins with `lead`. -/
  | short (lead : UInt8) (double : 247 ≤ lead ∧ lead ≤ 254)
  | slice (length : Nat)

namespace Field

abbrev Value : Field → Type
  | byte => UInt8
  | unsigned .. => Nat
  | signed .. => Int
  | offset .. => Nat
  | short .. => Int
  | slice _ => List UInt8

def width : Field → Nat
  | byte => 1
  | unsigned width _ => width
  | signed width _ => width
  | offset size _ => size.toNat
  | short .. => 1
  | slice length => length

/-- What the bytes of a field mean. -/
def meaning : (field : Field) → List UInt8 → field.Value
  | byte, bytes => UInt8.ofNat (BigEndian.value bytes)
  | unsigned .., bytes => BigEndian.value bytes
  | signed .., bytes => BigEndian.signedValue bytes
  | offset .., bytes => BigEndian.value bytes
  | short lead _, bytes =>
    if lead ≤ 250 then (((lead.toNat : Int) - 247) * 256 + BigEndian.value bytes + 108 : Int)
    else (-((lead.toNat : Int) - 251) * 256 - BigEndian.value bytes - 108 : Int)
  | slice _, bytes => bytes

def read : (field : Field) → Source → Except Fault field.Value × Source
  | byte => Source.read Reader.byte
  | unsigned width _ => Source.read (Reader.unsigned width)
  | signed width _ => Source.read (Reader.signed width)
  | offset size _ => Source.read (Reader.offset size)
  | short lead _ => Source.read (Reader.shortInteger lead)
  | slice length => Source.slice length

/-- Where a field that is cut short leaves the source. -/
def stop : Field → Source → Nat
  | slice _, source => source.position
  | _, source => max source.position source.bytes.length

theorem fixed_offset {size : UInt8} (sized : 1 ≤ size ∧ size ≤ 4) :
    (Reader.offset size).Fixed size.toNat BigEndian.value := by
  rw [Reader.offset, if_pos sized]
  exact Reader.fixed_unsigned _

theorem fixed_short {lead : UInt8} (double : 247 ≤ lead ∧ lead ≤ 254) :
    (Reader.shortInteger lead).Fixed 1 (meaning (.short lead double)) := by
  have long : ¬ lead < 247 := UInt8.not_lt.2 double.1
  have above : lead < 251 ↔ lead ≤ 250 := by
    rw [UInt8.lt_iff_toNat_lt, UInt8.le_iff_toNat_le]
    exact Nat.lt_succ_iff
  intro bytes
  rw [Reader.shortInteger, if_neg long]
  cases bytes with
  | nil => split <;> exact Reader.bind_of_error rfl
  | cons b rest =>
    have value : BigEndian.value [b] = b.toNat := Nat.zero_add _
    refine Eq.trans ?_ (if_pos (Nat.le_add_left 1 rest.length)).symm
    change _ = EStateM.Result.ok (meaning (.short lead double) [b]) rest
    rw [meaning, value]
    split
    next small =>
      rw [if_pos (above.1 small)]
      exact Reader.bind_of_ok rfl
    next large =>
      rw [if_neg fun small => large (above.2 small)]
      exact Reader.bind_of_ok rfl

theorem read_eq (field : Field) (source : Source) :
    field.read source =
      if source.position + field.width ≤ source.bytes.length then
        (.ok (field.meaning ((source.bytes.drop source.position).take field.width)),
          source.seek (source.position + field.width))
      else (.error .endOfData, source.seek (field.stop source)) := by
  cases field with
  | byte => exact read_of_fixed Reader.fixed_byte Nat.one_pos source
  | unsigned width positive => exact read_of_fixed (Reader.fixed_unsigned width) positive source
  | signed width positive => exact read_of_fixed (Reader.fixed_signed positive) positive source
  | offset size sized => exact read_of_fixed (fixed_offset sized) sized.1 source
  | short lead double => exact read_of_fixed (fixed_short double) Nat.one_pos source
  | slice length =>
    change Source.slice length source = _
    unfold Source.slice region
    by_cases enough : source.position + length ≤ source.bytes.length
    · rw [if_pos enough]
      exact (if_pos enough).symm
    · rw [if_neg enough]
      exact (if_neg enough).symm

/-- A read moves the source forward, and not beyond the end unless it was there. -/
theorem position_read (field : Field) (source : Source) :
    (field.read source).2.bytes = source.bytes ∧ source.position ≤ (field.read source).2.position ∧
      (field.read source).2.position ≤ max source.position source.bytes.length := by
  rw [read_eq]
  split
  next enough => exact ⟨rfl, Nat.le_add_right .., Nat.le_trans enough (Nat.le_max_right ..)⟩
  next =>
    cases field with
    | slice length => exact ⟨rfl, Nat.le_refl _, Nat.le_max_left ..⟩
    | _ => exact ⟨rfl, Nat.le_max_left .., Nat.le_refl _⟩

/-- The source that reads one behind the other leave, whatever comes of them. -/
def readAll (fields : List Field) (source : Source) : Source :=
  fields.foldl (fun source field => (field.read source).2) source

theorem position_readAll (fields : List Field) (source : Source) :
    (readAll fields source).bytes = source.bytes ∧ source.position ≤ (readAll fields source).position ∧
      (readAll fields source).position ≤ max source.position source.bytes.length := by
  induction fields generalizing source with
  | nil => exact ⟨rfl, Nat.le_refl _, Nat.le_max_left ..⟩
  | cons field fields ih =>
    obtain ⟨same, forward, within⟩ := position_read field source
    obtain ⟨same', forward', within'⟩ := ih (field.read source).2
    rw [same] at same' within'
    have reached := Nat.le_trans within' (Nat.max_le.2 ⟨within, Nat.le_max_right ..⟩)
    exact ⟨same', Nat.le_trans forward forward', reached⟩

/-! ### What values depend on -/

theorem between_self (source : Source) : source.between source = [] := by
  rw [between, Nat.sub_self, List.take_zero]

theorem between_append {source moved last : Source} (same : moved.bytes = source.bytes)
    (first : source.position ≤ moved.position) (second : moved.position ≤ last.position) :
    source.between last = source.between moved ++ moved.between last := by
  have whole : last.position - source.position =
      (moved.position - source.position) + (last.position - moved.position) := by omega
  have middle : source.position + (moved.position - source.position) = moved.position := by omega
  rw [between, between, between, whole, List.take_add, List.drop_drop, middle, same]

/-- A field that was found has the bytes that were taken for it, and is found with its value wherever they stand. -/
theorem read_of_found {field : Field} {source moved : Source} {value : field.Value}
    (found : field.read source = (.ok value, moved)) :
    moved.position = source.position + (source.between moved).length ∧ ∀ front back : List UInt8,
      field.read ⟨front ++ source.between moved ++ back, front.length⟩ =
        (.ok value, ⟨front ++ source.between moved ++ back, front.length + (source.between moved).length⟩) := by
  rw [read_eq] at found
  split at found
  next enough =>
    obtain ⟨same, rfl⟩ := Prod.mk.inj found
    obtain rfl := Except.ok.inj same
    have taken : source.between (source.seek (source.position + field.width)) =
        (source.bytes.drop source.position).take field.width := by
      rw [between, seek, Nat.add_sub_cancel_left]
    have size : ((source.bytes.drop source.position).take field.width).length = field.width := by
      rw [List.length_take, List.length_drop]
      omega
    rw [taken, size]
    refine ⟨rfl, fun front back => ?_⟩
    generalize (source.bytes.drop source.position).take field.width = used at size
    have enough : front.length + field.width ≤ (front ++ used ++ back).length := by
      rw [List.length_append, List.length_append, size]
      exact Nat.le_add_right ..
    have here : ((front ++ used ++ back).drop front.length).take field.width = used := by
      rw [List.append_assoc, List.drop_left, ← size, List.take_left]
    rw [read_eq]
    dsimp only
    rw [if_pos enough, here]
    rfl
  next => cases found

/-- Fields that are read one behind the other and found, with their values. -/
inductive Reads : Source → List ((field : Field) × field.Value) → Source → Prop where
  | nil (source : Source) : Reads source [] source
  | cons {source moved last : Source} {field : Field} {value : field.Value} {found : List ((field : Field) × field.Value)}
      (first : field.read source = (.ok value, moved)) (others : Reads moved found last) :
      Reads source (⟨field, value⟩ :: found) last

theorem position_reads {source last : Source} {found : List ((field : Field) × field.Value)}
    (reads : Reads source found last) :
    last.bytes = source.bytes ∧ last.position = source.position + (source.between last).length := by
  induction reads with
  | nil source =>
    rw [between_self]
    exact ⟨rfl, rfl⟩
  | @cons source moved last field value found first others ih =>
    obtain ⟨same, forward, _⟩ := position_read field source
    rw [first] at same forward
    have further : moved.position ≤ last.position := Nat.le.intro ih.2.symm
    rw [between_append same forward further, List.length_append, ← Nat.add_assoc, ← (read_of_found first).1]
    exact ⟨ih.1.trans same, ih.2⟩

/-- The values of fields are decided by the bytes that were taken for them. -/
theorem reads_between {source last : Source} {found : List ((field : Field) × field.Value)}
    (reads : Reads source found last) (front back : List UInt8) :
    Reads ⟨front ++ source.between last ++ back, front.length⟩ found
      ⟨front ++ source.between last ++ back, front.length + (source.between last).length⟩ := by
  induction reads generalizing front with
  | nil source =>
    rw [between_self]
    exact .nil _
  | @cons source moved last field value found first others ih =>
    obtain ⟨same, forward, _⟩ := position_read field source
    rw [first] at same forward
    have further : moved.position ≤ last.position := Nat.le.intro (position_reads others).2.symm
    rw [between_append same forward further, List.length_append, ← Nat.add_assoc]
    -- The later fields are found behind the bytes of the first, which are a part of what is in front of them.
    have here := (read_of_found first).2 front (moved.between last ++ back)
    have there := ih (front ++ source.between moved)
    simp only [List.append_assoc, List.length_append] at here there ⊢
    exact .cons here there

end Field

/-- Up to the end of the bytes a slice is taken alike by a reader of what remains. -/
theorem read_slice {source : Source} (within : source.position ≤ source.bytes.length) (length : Nat) :
    source.read (Reader.slice length) = source.slice length := by
  have remains : source.remaining.length = source.bytes.length - source.position := List.length_drop
  unfold read slice region
  rw [Reader.slice]
  by_cases enough : source.position + length ≤ source.bytes.length
  · have whole : (source.remaining.take length).length = length := by
      rw [List.length_take]
      omega
    have moved : source.remaining.length - (source.remaining.drop length).length = length := by
      rw [List.length_drop]
      omega
    rw [if_pos whole, if_pos enough]
    dsimp only
    rw [moved]
    rfl
  · have short : (source.remaining.take length).length ≠ length := by
      rw [List.length_take]
      omega
    rw [if_neg short, if_neg enough]
    dsimp only
    rw [Nat.sub_self]
    rfl

/-- A field is read where all of its bytes are there, otherwise it fails. However many reads there are, the source moves
forward, and not beyond the end unless it was there. What is found depends on nothing but the bytes that were taken: the
same values are found in them between any others. -/
theorem fields_read_where_whole :
    (∀ (field : Field) (source : Source), field.read source =
      if source.position + field.width ≤ source.bytes.length then
        (.ok (field.meaning ((source.bytes.drop source.position).take field.width)),
          source.seek (source.position + field.width))
      else (.error .endOfData, source.seek (field.stop source))) ∧
    (∀ (source : Source) (length : Nat), source.position ≤ source.bytes.length →
      source.read (Reader.slice length) = (Field.slice length).read source) ∧
    (∀ (fields : List Field) (source : Source), (Field.readAll fields source).bytes = source.bytes ∧
      source.position ≤ (Field.readAll fields source).position ∧
      (Field.readAll fields source).position ≤ max source.position source.bytes.length) ∧
    ∀ (source last : Source) (found : List ((field : Field) × field.Value)), Field.Reads source found last →
      last.position = source.position + (source.between last).length ∧ ∀ front back : List UInt8,
        Field.Reads ⟨front ++ source.between last ++ back, front.length⟩ found
          ⟨front ++ source.between last ++ back, front.length + (source.between last).length⟩ :=
  ⟨Field.read_eq, fun _ length within => read_slice within length, Field.position_readAll,
    fun _ _ _ reads => ⟨(Field.position_reads reads).2, Field.reads_between reads⟩⟩

/-- A negative number with a byte behind it, found again at the front. -/
theorem fields_read_where_whole_negative :
    Field.Reads ⟨[0xff, 0xfe, 0x2a, 0x0b], 0⟩ [⟨.signed 2 Nat.two_pos, (-2 : Int)⟩, ⟨.byte, (0x2a : UInt8)⟩]
      ⟨[0xff, 0xfe, 0x2a, 0x0b], 3⟩ ∧
    (Field.unsigned 2 Nat.two_pos).read ⟨[0x0a, 0xff], 1⟩ = (.error .endOfData, ⟨[0x0a, 0xff], 2⟩) ∧
    (Field.unsigned 2 Nat.two_pos).read ⟨[0x0a, 0xff], 7⟩ = (.error .endOfData, ⟨[0x0a, 0xff], 7⟩) ∧
    Source.read (Reader.slice 0) ⟨[0x0a, 0xff], 2⟩ = (.ok [], ⟨[0x0a, 0xff], 2⟩) := by
  obtain ⟨law, slices, _, moves⟩ := fields_read_where_whole
  have reads : Field.Reads ⟨[0x0a, 0xff, 0xfe, 0x2a], 1⟩
      [⟨.signed 2 Nat.two_pos, (-2 : Int)⟩, ⟨.byte, (0x2a : UInt8)⟩] ⟨[0x0a, 0xff, 0xfe, 0x2a], 4⟩ :=
    .cons (law _ _) (.cons (law _ _) (.nil _))
  exact ⟨(moves _ _ _ reads).2 [] [0x0b], law _ _, law _ _, slices ⟨_, 2⟩ 0 (Nat.le_refl 2)⟩

end Source
end CompactFont
