import Mathlib.Data.List.Induction
import CompactFont.Reader.Footprint

/-! The bytes in which a value is found, said both ways: a reader finds a value in its written form and in
nothing else. Readers that are put together are taken apart by the same laws. -/

namespace CompactFont

namespace BigEndian

/-- The number that bytes spell, the most significant first. -/
def value (bytes : List UInt8) : Nat := bytes.foldl (fun value b => 256 * value + b.toNat) 0

/-- The bytes of a number, as many as asked for. -/
def bytes : Nat → Nat → List UInt8
  | 0, _ => []
  | width + 1, n => bytes width (n / 256) ++ [UInt8.ofNat n]

theorem length_bytes (width n : Nat) : (bytes width n).length = width := by
  induction width generalizing n with
  | zero => rfl
  | succ width ih => rw [bytes, List.length_append, ih, List.length_singleton]

theorem value_append (front : List UInt8) (b : UInt8) : value (front ++ [b]) = 256 * value front + b.toNat := by
  rw [value, List.foldl_append]
  rfl

theorem value_bytes {width n : Nat} (fits : n < Nat.pow 256 width) : value (bytes width n) = n := by
  induction width generalizing n with
  | zero =>
    have none : n = 0 := Nat.lt_one_iff.1 fits
    rw [none]
    rfl
  | succ width ih =>
    have shorter : n / 256 < Nat.pow 256 width := by
      rw [Nat.div_lt_iff_lt_mul (by decide)]
      exact fits
    have low : (UInt8.ofNat n).toNat = n % 256 := UInt8.toNat_ofNat'
    rw [bytes, value_append, ih shorter, low]
    omega

theorem value_lt (written : List UInt8) : value written < Nat.pow 256 written.length := by
  induction written using List.reverseRecOn with
  | nil => exact Nat.one_pos
  | append_singleton front b ih =>
    have small := b.toNat_lt
    have power : Nat.pow 256 (front.length + 1) = Nat.pow 256 front.length * 256 := rfl
    rw [value_append, List.length_append, List.length_singleton, power]
    omega

theorem bytes_value (written : List UInt8) : bytes written.length (value written) = written := by
  induction written using List.reverseRecOn with
  | nil => rfl
  | append_singleton front b ih =>
    have small := b.toNat_lt
    have high : (256 * value front + b.toNat) / 256 = value front := by omega
    have low : UInt8.ofNat (256 * value front + b.toNat) = b := by
      apply UInt8.toNat_inj.1
      have reduced : (UInt8.ofNat (256 * value front + b.toNat)).toNat = (256 * value front + b.toNat) % 256 :=
        UInt8.toNat_ofNat'
      omega
    rw [List.length_append, List.length_singleton, bytes, value_append, high, low, ih]

/-- A number of so many bytes and its bytes are the same thing. -/
theorem eq_bytes_iff {width n : Nat} {written : List UInt8} :
    n < Nat.pow 256 width ∧ written = bytes width n ↔ written.length = width ∧ value written = n := by
  constructor
  · rintro ⟨fits, rfl⟩
    exact ⟨length_bytes width n, value_bytes fits⟩
  · rintro ⟨rfl, rfl⟩
    exact ⟨value_lt written, (bytes_value written).symm⟩

end BigEndian

namespace Reader

variable {α β : Type} {reader : Reader α} {used : List UInt8}

theorem local_offset (size : UInt8) : Local (offset size) := by
  unfold offset
  split
  · exact local_unsigned _
  · exact local_throw _

theorem local_times {item : Reader α} (each : Local item) (count : Nat) : Local (times item count) := by
  induction count with
  | zero => exact local_pure _
  | succ count ih => exact local_bind each fun _ => local_bind ih fun _ => local_pure _

theorem finds_iff_ok (reads : Local reader) {value : α} :
    reader.Finds used value ↔ reader used = .ok value [] := by
  constructor
  · intro finds
    have alone := finds []
    rwa [List.append_nil] at alone
  · intro alone
    obtain ⟨same, split, finds⟩ := reads _ _ _ alone
    rw [split, List.append_nil]
    exact finds

/-- A law that says in which bytes a reader finds what. -/
theorem finds_iff_of_law {form : List UInt8 → α → Prop}
    (law : ∀ bytes value rest, reader bytes = .ok value rest ↔ ∃ used, bytes = used ++ rest ∧ form used value)
    {value : α} : reader.Finds used value ↔ form used value := by
  constructor
  · intro finds
    obtain ⟨same, split, here⟩ := (law _ _ _).1 (finds [])
    rw [List.append_nil, List.append_nil] at split
    rwa [split]
  · intro here rest
    exact (law _ _ _).2 ⟨used, rfl, here⟩

theorem local_of_law {form : List UInt8 → α → Prop}
    (law : ∀ bytes value rest, reader bytes = .ok value rest ↔ ∃ used, bytes = used ++ rest ∧ form used value) :
    Local reader := by
  intro bytes value rest reads
  obtain ⟨used, split, here⟩ := (law _ _ _).1 reads
  exact ⟨used, split, (finds_iff_of_law law).2 here⟩

theorem finds_pure_iff {value found : α} : Finds (pure value) used found ↔ used = [] ∧ found = value := by
  rw [finds_iff_ok (local_pure value)]
  constructor
  · intro reads
    cases reads
    exact ⟨rfl, rfl⟩
  · rintro ⟨rfl, rfl⟩
    rfl

theorem not_finds_throw {fault : Fault} {found : α} : ¬ Finds (throw fault : Reader α) used found := by
  intro finds
  cases finds []

theorem finds_bind_iff {next : α → Reader β} (first : Local reader) (second : ∀ value, Local (next value))
    {found : β} :
    Finds (reader >>= next) used found ↔
      ∃ value before after, used = before ++ after ∧ reader.Finds before value ∧
        (next value).Finds after found := by
  constructor
  · intro finds
    obtain ⟨value, between, start, later⟩ := ok_bind_iff.1 ((finds_iff_ok (local_bind first second)).1 finds)
    obtain ⟨before, split, here⟩ := first _ _ _ start
    exact ⟨value, before, between, split, here, (finds_iff_ok (second value)).2 later⟩
  · rintro ⟨value, before, after, rfl, here, there⟩
    exact finds_bind here there

/-- A value that is made from what a reader finds. -/
theorem finds_return_iff {f : α → β} (reads : Local reader) {found : β} :
    Finds (do let value ← reader; return f value) used found ↔ ∃ value, reader.Finds used value ∧ found = f value := by
  rw [finds_bind_iff reads fun _ => local_pure _]
  constructor
  · rintro ⟨value, before, after, rfl, here, there⟩
    obtain ⟨rfl, rfl⟩ := finds_pure_iff.1 there
    rw [List.append_nil]
    exact ⟨value, here, rfl⟩
  · rintro ⟨value, here, rfl⟩
    exact ⟨value, used, [], (List.append_nil used).symm, here, finds_pure _⟩

theorem finds_byte_iff {b : UInt8} : Finds byte used b ↔ used = [b] := by
  rw [finds_iff_ok local_byte]
  constructor
  · intro reads
    cases used with
    | nil => cases reads
    | cons first rest =>
      cases reads
      rfl
  · rintro rfl
    rfl

theorem finds_digits_iff {width value n : Nat} :
    (digits value width).Finds used n ↔
      used.length = width ∧ used.foldl (fun value b => 256 * value + b.toNat) value = n := by
  induction width generalizing value used with
  | zero =>
    rw [digits, finds_pure_iff]
    constructor
    · rintro ⟨rfl, rfl⟩
      exact ⟨rfl, rfl⟩
    · rintro ⟨empty, rfl⟩
      rw [List.length_eq_zero_iff.1 empty]
      exact ⟨rfl, rfl⟩
  | succ width ih =>
    rw [digits, finds_bind_iff local_byte fun _ => local_digits _ _]
    constructor
    · rintro ⟨b, before, after, rfl, here, there⟩
      rw [finds_byte_iff.1 here]
      obtain ⟨enough, same⟩ := ih.1 there
      exact ⟨congrArg Nat.succ enough, same⟩
    · rintro ⟨enough, same⟩
      cases used with
      | nil => cases enough
      | cons b rest =>
        exact ⟨b, [b], rest, rfl, finds_byte_iff.2 rfl, ih.2 ⟨Nat.succ.inj enough, same⟩⟩

theorem finds_unsigned_iff {width n : Nat} :
    (unsigned width).Finds used n ↔ n < Nat.pow 256 width ∧ used = BigEndian.bytes width n := by
  rw [BigEndian.eq_bytes_iff]
  exact finds_digits_iff

theorem finds_signed_iff {width : Nat} {n : Int} :
    (signed width).Finds used n ↔
      used.length = width ∧ n = (BigEndian.value used : Int).bmod (Nat.pow 256 width) := by
  rw [signed, finds_return_iff (local_unsigned width)]
  constructor
  · rintro ⟨value, here, rfl⟩
    obtain ⟨enough, rfl⟩ := finds_digits_iff.1 here
    exact ⟨enough, rfl⟩
  · rintro ⟨enough, rfl⟩
    exact ⟨_, finds_digits_iff.2 ⟨enough, rfl⟩, rfl⟩

/-- The lead decides the width of a short integer, and its sign. -/
theorem finds_shortInteger_iff {lead : UInt8} {n : Int} :
    (shortInteger lead).Finds used n ↔
      (lead < 247 ∧ used = [] ∧ n = (lead.toNat : Int) - 139) ∨
      (¬ lead < 247 ∧ lead < 251 ∧ ∃ low : UInt8, used = [low] ∧
        n = ((lead.toNat : Int) - 247) * 256 + low.toNat + 108) ∨
      (¬ lead < 247 ∧ ¬ lead < 251 ∧ ∃ low : UInt8, used = [low] ∧
        n = -((lead.toNat : Int) - 251) * 256 - low.toNat - 108) := by
  unfold shortInteger
  split
  next small => simp only [small, not_true, false_and, or_false, true_and, finds_pure_iff]
  next =>
    split
    next small => simp only [*, true_and, false_and, false_or, or_false, not_true, not_false_iff,
        finds_return_iff local_byte, finds_byte_iff]
    next => simp only [*, true_and, false_and, false_or, not_false_iff, finds_return_iff local_byte, finds_byte_iff]

theorem finds_offset_iff {size : UInt8} {n : Nat} :
    (offset size).Finds used n ↔
      ((1 ≤ size ∧ size ≤ 4) ∧ n < Nat.pow 256 size.toNat) ∧ used = BigEndian.bytes size.toNat n := by
  unfold offset
  split
  next allowed => rw [finds_unsigned_iff, and_iff_right allowed]
  next refused => exact ⟨fun finds => absurd finds not_finds_throw, fun written => absurd written.1.1 refused⟩

theorem finds_slice_iff {length : Nat} {found : List UInt8} :
    (slice length).Finds used found ↔ found.length = length ∧ used = found := by
  rw [finds_iff_ok (local_slice length), ok_slice_iff, List.append_nil]

/-- Items that have one written form each are written one behind the other. -/
theorem finds_times_iff {item : Reader α} {Fits : α → Prop} {write : α → List UInt8} (reads : Local item)
    (each : ∀ used value, item.Finds used value ↔ Fits value ∧ used = write value) {count : Nat}
    {found : List α} :
    (times item count).Finds used found ↔
      found.length = count ∧ (∀ value ∈ found, Fits value) ∧ used = found.flatMap write := by
  induction count generalizing used found with
  | zero =>
    rw [times, finds_pure_iff, List.length_eq_zero_iff]
    constructor
    · rintro ⟨rfl, rfl⟩
      exact ⟨rfl, List.forall_mem_nil _, rfl⟩
    · rintro ⟨rfl, _, rfl⟩
      exact ⟨rfl, rfl⟩
  | succ count ih =>
    have later value : Local (do let rest ← times item count; return value :: rest) :=
      local_bind (local_times reads count) fun _ => local_pure _
    rw [times, finds_bind_iff reads later]
    constructor
    · rintro ⟨value, before, after, rfl, here, there⟩
      obtain ⟨rest, middle, last, rfl, items, ends⟩ :=
        (finds_bind_iff (local_times reads count) fun _ => local_pure _).1 there
      obtain ⟨rfl, rfl⟩ := finds_pure_iff.1 ends
      obtain ⟨fits, rfl⟩ := (each _ _).1 here
      obtain ⟨enough, others, rfl⟩ := ih.1 items
      refine ⟨congrArg Nat.succ enough, List.forall_mem_cons.2 ⟨fits, others⟩, ?_⟩
      rw [List.append_nil, List.flatMap_cons]
    · rintro ⟨enough, fits, rfl⟩
      cases found with
      | nil => cases enough
      | cons value rest =>
        obtain ⟨first, others⟩ := List.forall_mem_cons.1 fits
        have items := ih.2 ⟨Nat.succ.inj enough, others, rfl⟩
        refine ⟨value, write value, rest.flatMap write, rfl, (each _ _).2 ⟨first, rfl⟩, ?_⟩
        have ends : Finds (do let rest ← times item count; return value :: rest)
            (rest.flatMap write ++ []) (value :: rest) := finds_bind items (finds_pure _)
        rwa [List.append_nil] at ends

theorem parse_eq_ok_iff {bytes rest : List UInt8} {value : α} :
    reader.parse bytes = .ok (value, rest) ↔ reader bytes = .ok value rest := by
  unfold parse
  constructor
  · intro parsed
    split at parsed
    next reads =>
      cases parsed
      exact reads
    next => cases parsed
  · intro reads
    rw [reads]

theorem parse_eq_ok_iff_finds (reads : Local reader) {bytes rest : List UInt8} {value : α} :
    reader.parse bytes = .ok (value, rest) ↔ ∃ used, bytes = used ++ rest ∧ reader.Finds used value := by
  rw [parse_eq_ok_iff]
  constructor
  · exact reads bytes value rest
  · rintro ⟨used, rfl, finds⟩
    exact finds rest

end Reader

theorem Source.region_eq_ok_iff {bytes data : List UInt8} {start length : Nat} :
    region bytes start length = .ok data ↔
      start + length ≤ bytes.length ∧ data = (bytes.drop start).take length := by
  unfold region
  split
  next inside =>
    constructor
    · intro same
      cases same
      exact ⟨inside, rfl⟩
    · rintro ⟨_, rfl⟩
      rfl
  next outside => exact ⟨nofun, fun found => absurd found.1 outside⟩

/-- What a source finds is written at its position, and the source moves past it. -/
theorem Source.read_eq_ok_iff {α : Type} {reader : Reader α} (reads : reader.Local) {source moved : Source}
    {value : α} :
    source.read reader = (.ok value, moved) ↔
      ∃ used rest, source.remaining = used ++ rest ∧ reader.Finds used value ∧
        moved = source.seek (source.position + used.length) := by
  unfold Source.read
  constructor
  · intro found
    dsimp only at found
    split at found
    next other rest here =>
      cases found
      obtain ⟨used, split, finds⟩ := reads _ _ _ here
      refine ⟨used, rest, split, finds, ?_⟩
      rw [split, List.length_append, Nat.add_sub_cancel]
    next => cases found
  · rintro ⟨used, rest, split, finds, rfl⟩
    dsimp only
    rw [split, finds rest]
    dsimp only
    rw [List.length_append, Nat.add_sub_cancel]

end CompactFont
