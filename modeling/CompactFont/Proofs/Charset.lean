import CompactFont.Charset
import CompactFont.Reader.Written

/-! The written form of a charset: ids one by one, or ranges that go just as far as there are glyphs. What is read
for some number of glyphs has an id for every one of them. -/

namespace CompactFont

namespace SidRange

/-- How many glyphs ranges give an id. -/
def total : List SidRange → Nat
  | [] => 0
  | range :: ranges => range.following + 1 + total ranges

/-- Ranges that are enough for so many glyphs, but not without the last of them. -/
def Covers (glyphs : Nat) (ranges : List SidRange) : Prop :=
  glyphs ≤ total ranges ∧ ∀ front last, ranges = front ++ [last] → total front < glyphs

/-- A range that can be written with so many bytes for what follows its first id. -/
def Fits (width : Nat) (range : SidRange) : Prop :=
  range.first < Nat.pow 256 2 ∧ range.following < Nat.pow 256 width

def encode (width : Nat) (range : SidRange) : List UInt8 :=
  BigEndian.bytes 2 range.first ++ BigEndian.bytes width range.following

theorem covers_zero_iff {ranges : List SidRange} : Covers 0 ranges ↔ ranges = [] := by
  constructor
  · rintro ⟨_, needed⟩
    rcases List.eq_nil_or_concat ranges with empty | ⟨front, last, split⟩
    · exact empty
    · rw [List.concat_eq_append] at split
      exact absurd (needed front last split) (Nat.not_lt_zero _)
  · rintro rfl
    exact ⟨Nat.le_refl 0, fun front last split => absurd split.symm (List.append_ne_nil_of_right_ne_nil _ nofun)⟩

/-- What the first range leaves is covered by the others. -/
theorem covers_succ_iff {glyphs : Nat} {ranges : List SidRange} :
    Covers (glyphs + 1) ranges ↔
      ∃ range rest, ranges = range :: rest ∧ Covers (glyphs - range.following) rest := by
  constructor
  · rintro ⟨enough, needed⟩
    cases ranges with
    | nil => cases enough
    | cons range rest =>
      rw [total] at enough
      refine ⟨range, rest, rfl, by omega, ?_⟩
      intro front last split
      have short := needed (range :: front) last (congrArg _ split)
      rw [total] at short
      omega
  · rintro ⟨range, rest, rfl, enough, needed⟩
    refine ⟨by rw [total]; omega, ?_⟩
    intro front last split
    cases front with
    | nil => exact Nat.succ_pos glyphs
    | cons first front =>
      obtain ⟨rfl, behind⟩ := List.cons.inj split
      have short := needed front last behind
      rw [total]
      omega

end SidRange

namespace Charset

open SidRange (Covers Fits total)

/-- What a charset for so many glyphs can be if it is written in a font. -/
inductive Stored (glyphs : Nat) : Charset → Prop where
  | listed {sids : List Nat} (size : sids.length = glyphs - 1) (fits : ∀ sid ∈ sids, sid < Nat.pow 256 2) :
      Stored glyphs (.listed sids)
  | narrow {ranges : List SidRange} (covers : Covers (glyphs - 1) ranges) (fits : ∀ range ∈ ranges, Fits 1 range) :
      Stored glyphs (.narrow ranges)
  | wide {ranges : List SidRange} (covers : Covers (glyphs - 1) ranges) (fits : ∀ range ∈ ranges, Fits 2 range) :
      Stored glyphs (.wide ranges)

/-- The written form: the format, and then ids or ranges. Predefined charsets are not written. -/
def encode : Charset → List UInt8
  | .isoAdobe | .expert | .expertSubset => []
  | .listed sids => 0 :: sids.flatMap (BigEndian.bytes 2)
  | .narrow ranges => 1 :: ranges.flatMap (SidRange.encode 1)
  | .wide ranges => 2 :: ranges.flatMap (SidRange.encode 2)

theorem Stored.encode_ne_nil {glyphs : Nat} {charset : Charset} (stored : charset.Stored glyphs) :
    charset.encode ≠ [] := by
  cases stored <;> nofun

/-! ### Reading -/

theorem local_readRanges {following : Reader Nat} (each : Reader.Local following) (remaining : Nat) :
    Reader.Local (readRanges following remaining) := by
  -- one range can take off any number of glyphs
  induction remaining using Nat.strongRecOn with
  | ind remaining ih =>
    cases remaining with
    | zero =>
      rw [readRanges]
      exact Reader.local_pure _
    | succ remaining =>
      rw [readRanges]
      refine Reader.local_bind (Reader.local_unsigned 2) fun first => ?_
      refine Reader.local_bind each fun more => ?_
      exact Reader.local_bind (ih _ (by omega)) fun rest => Reader.local_pure _

variable {used : List UInt8}

/-- Ranges are read until they cover the glyphs. -/
theorem finds_readRanges_iff {width remaining : Nat} {ranges : List SidRange} :
    (readRanges (Reader.unsigned width) remaining).Finds used ranges ↔
      Covers remaining ranges ∧ (∀ range ∈ ranges, Fits width range) ∧
        used = ranges.flatMap (SidRange.encode width) := by
  induction remaining using Nat.strongRecOn generalizing used ranges with
  | ind remaining ih =>
    cases remaining with
    | zero =>
      rw [readRanges, Reader.finds_pure_iff, SidRange.covers_zero_iff]
      constructor
      · rintro ⟨rfl, rfl⟩
        exact ⟨rfl, List.forall_mem_nil _, rfl⟩
      · rintro ⟨rfl, _, rfl⟩
        exact ⟨rfl, rfl⟩
    | succ remaining =>
      have others (more : Nat) : Reader.Local (readRanges (Reader.unsigned width) (remaining - more)) :=
        local_readRanges (Reader.local_unsigned width) _
      have third (first more : Nat) : Reader.Local (do
          let rest ← readRanges (Reader.unsigned width) (remaining - more)
          return (⟨first, more⟩ : SidRange) :: rest) :=
        Reader.local_bind (others more) fun _ => Reader.local_pure _
      have second (first : Nat) := Reader.local_bind (Reader.local_unsigned width) (third first)
      rw [readRanges, Reader.finds_bind_iff (Reader.local_unsigned 2) second, SidRange.covers_succ_iff]
      constructor
      · rintro ⟨first, front, behind, rfl, here, later⟩
        obtain ⟨more, middle, last, rfl, next, there⟩ :=
          (Reader.finds_bind_iff (Reader.local_unsigned width) (third first)).1 later
        obtain ⟨rest, restHere, rfl⟩ := (Reader.finds_return_iff (others more)).1 there
        obtain ⟨small, rfl⟩ := Reader.finds_unsigned_iff.1 here
        obtain ⟨alsoSmall, rfl⟩ := Reader.finds_unsigned_iff.1 next
        obtain ⟨covers, fits, rfl⟩ := (ih _ (by omega)).1 restHere
        refine ⟨⟨_, rest, rfl, covers⟩, List.forall_mem_cons.2 ⟨⟨small, alsoSmall⟩, fits⟩, ?_⟩
        rw [List.flatMap_cons, SidRange.encode, List.append_assoc]
      · rintro ⟨⟨⟨first, more⟩, rest, rfl, covers⟩, fits, rfl⟩
        obtain ⟨⟨small, alsoSmall⟩, fits⟩ := List.forall_mem_cons.1 fits
        have restHere := (ih (remaining - more) (by omega)).2 ⟨covers, fits, rfl⟩
        have there := (Reader.finds_bind_iff (Reader.local_unsigned width) (third first)).2
          ⟨more, _, _, rfl, Reader.finds_unsigned_iff.2 ⟨alsoSmall, rfl⟩,
            (Reader.finds_return_iff (others more)).2 ⟨rest, restHere, rfl⟩⟩
        rw [List.flatMap_cons, SidRange.encode, List.append_assoc]
        exact ⟨first, _, _, rfl, Reader.finds_unsigned_iff.2 ⟨small, rfl⟩, there⟩

theorem local_readSids (count : Nat) : Reader.Local (Reader.times (Reader.unsigned 2) count) :=
  Reader.local_times (Reader.local_unsigned 2) count

/-- What follows the format of a charset. -/
theorem local_readFormat (remaining : Nat) (format : UInt8) : Reader.Local (readFormat remaining format) := by
  unfold readFormat
  split
  · exact Reader.local_bind (local_readSids remaining) fun _ => Reader.local_pure _
  · exact Reader.local_bind (local_readRanges (Reader.local_unsigned 1) remaining) fun _ => Reader.local_pure _
  · exact Reader.local_bind (local_readRanges (Reader.local_unsigned 2) remaining) fun _ => Reader.local_pure _
  · exact Reader.local_throw _

theorem local_read (glyphs : Nat) : Reader.Local (read glyphs) :=
  Reader.local_bind Reader.local_byte (local_readFormat _)

/-- A charset is read from its written form for the number of glyphs and from nothing else. -/
theorem finds_read_iff {glyphs : Nat} {charset : Charset} :
    (read glyphs).Finds used charset ↔ charset.Stored glyphs ∧ used = charset.encode := by
  have sidsHere {used : List UInt8} {sids : List Nat} :
      (Reader.times (Reader.unsigned 2) (glyphs - 1)).Finds used sids ↔ _ :=
    Reader.finds_times_iff (Reader.local_unsigned 2) fun _ _ => Reader.finds_unsigned_iff
  rw [read, Reader.finds_bind_iff Reader.local_byte (local_readFormat _)]
  constructor
  · rintro ⟨format, front, behind, rfl, here, there⟩
    rw [Reader.finds_byte_iff.1 here]
    unfold readFormat at there
    split at there
    next =>
      obtain ⟨sids, body, rfl⟩ := (Reader.finds_return_iff (local_readSids _)).1 there
      obtain ⟨size, fits, rfl⟩ := sidsHere.1 body
      exact ⟨.listed size fits, rfl⟩
    next =>
      obtain ⟨ranges, body, rfl⟩ :=
        (Reader.finds_return_iff (local_readRanges (Reader.local_unsigned 1) _)).1 there
      obtain ⟨covers, fits, rfl⟩ := finds_readRanges_iff.1 body
      exact ⟨.narrow covers fits, rfl⟩
    next =>
      obtain ⟨ranges, body, rfl⟩ :=
        (Reader.finds_return_iff (local_readRanges (Reader.local_unsigned 2) _)).1 there
      obtain ⟨covers, fits, rfl⟩ := finds_readRanges_iff.1 body
      exact ⟨.wide covers fits, rfl⟩
    next => exact absurd there Reader.not_finds_throw
  · rintro ⟨stored, rfl⟩
    cases stored with
    | listed size fits =>
      exact ⟨0, [0], _, rfl, Reader.finds_byte_iff.2 rfl,
        (Reader.finds_return_iff (local_readSids _)).2 ⟨_, sidsHere.2 ⟨size, fits, rfl⟩, rfl⟩⟩
    | narrow covers fits =>
      exact ⟨1, [1], _, rfl, Reader.finds_byte_iff.2 rfl,
        (Reader.finds_return_iff (local_readRanges (Reader.local_unsigned 1) _)).2
          ⟨_, finds_readRanges_iff.2 ⟨covers, fits, rfl⟩, rfl⟩⟩
    | wide covers fits =>
      exact ⟨2, [2], _, rfl, Reader.finds_byte_iff.2 rfl,
        (Reader.finds_return_iff (local_readRanges (Reader.local_unsigned 2) _)).2
          ⟨_, finds_readRanges_iff.2 ⟨covers, fits, rfl⟩, rfl⟩⟩

/-! ### The ids of glyphs -/

theorem length_assign {slots : Nat} {ranges : List SidRange} {sids : List Nat}
    (assigned : assign slots ranges = .ok sids) : sids.length = min slots (total ranges) := by
  induction ranges generalizing slots sids with
  | nil =>
    have none : sids = [] := by cases slots <;> cases assigned <;> rfl
    rw [none, show total [] = 0 from rfl, Nat.min_zero, List.length_nil]
  | cons range ranges ih =>
    cases slots with
    | zero =>
      cases assigned
      rw [Nat.zero_min, List.length_nil]
    | succ slots =>
      rw [assign] at assigned
      · split at assigned
        next => cases assigned
        next =>
          cases others : assign (slots + 1 - min (slots + 1) (range.following + 1)) ranges with
          | error fault =>
            rw [others] at assigned
            cases assigned
          | ok rest =>
            rw [others] at assigned
            cases assigned
            rw [List.length_append, List.length_range', ih others, total]
            omega
      · exact Nat.succ_ne_zero slots

theorem length_firstOf {glyphs : Nat} {all sids : List Nat} {fault : CharsetFault}
    (found : firstOf glyphs all fault = .ok sids) : sids.length = glyphs := by
  unfold firstOf at found
  split at found
  next enough =>
    cases found
    rw [List.length_take, Nat.min_eq_left enough]
  next => cases found

theorem length_ranged {glyphs : Nat} {ranges : List SidRange} {sids : List Nat} (covers : Covers (glyphs - 1) ranges)
    (found : ranged glyphs ranges = .ok sids) : sids.length = glyphs := by
  unfold ranged at found
  cases assigned : assign (glyphs - 1) ranges with
  | error fault =>
    rw [assigned] at found
    cases found
  | ok others =>
    rw [assigned] at found
    cases found
    have enough := covers.1
    rw [List.length_take, List.length_cons, length_assign assigned]
    omega

/-- Every glyph has an id, by a predefined charset and by one that was read for that number of glyphs. -/
theorem length_sids {glyphs : Nat} {charset : Charset} {sids : List Nat}
    (known : (∃ n, predefined? n = some charset) ∨ charset.Stored glyphs)
    (found : charset.sids glyphs = .ok sids) : sids.length = glyphs := by
  rcases known with ⟨n, named⟩ | stored
  · match n, named with
    | 0, rfl | 1, rfl | 2, rfl => exact length_firstOf found
  · cases stored with
    | listed size =>
      cases found
      rw [List.length_take, List.length_cons, size]
      omega
    | narrow covers => exact length_ranged covers found
    | wide covers => exact length_ranged covers found

end Charset
end CompactFont
