import Mathlib.Data.List.Chain
import CompactFont.Index
import CompactFont.Reader.Written

/-! An INDEX is read from its written form and from nothing else, and its items tile its data: no offset leads
out of it, and nothing lies between two items. -/

namespace CompactFont.Index

/-- Offsets from `first` to the end of the data, of which none goes back. -/
structure Tiles (first : Nat) (offsets : List Nat) (data : List UInt8) : Prop where
  starts : offsets.head? = some first
  ascends : offsets.Pairwise (· ≤ ·)
  ends : offsets.getLast? = some (first + data.length)

/-- What an INDEX has to be so that it can be written. -/
inductive WellFormed : Index → Prop where
  | empty : WellFormed {}
  | table {index : Index} (inhabited : 1 ≤ index.count) (countable : index.count ≤ 65535)
      (wide : 1 ≤ index.offsetSize) (narrow : index.offsetSize ≤ 4) (tiles : Tiles 1 index.offsets index.data)
      (fits : index.data.length + 1 < Nat.pow 256 index.offsetSize.toNat) : WellFormed index

/-- The written form: the count and, if there are items, the width of an offset, the offsets and the data. -/
def encode (index : Index) : List UInt8 :=
  if index.count = 0 then [0, 0]
  else BigEndian.bytes 2 index.count ++ [index.offsetSize] ++
    index.offsets.flatMap (BigEndian.bytes index.offsetSize.toNat) ++ index.data

theorem WellFormed.count_le {index : Index} (sound : index.WellFormed) : index.count ≤ 65535 := by
  cases sound with
  | empty => exact Nat.zero_le _
  | table _ countable => exact countable

/-! ### Cutting the data -/

theorem ascending_iff {offsets : List Nat} : ascending offsets = true ↔ offsets.Pairwise (· ≤ ·) := by
  rw [← List.isChain_iff_pairwise]
  fun_induction ascending offsets with
  | case1 first second rest ih =>
    rw [Bool.and_eq_true, decide_eq_true_iff, ih, List.isChain_cons_cons]
  | case2 offsets short =>
    match offsets with
    | [] => simp
    | [only] => simp
    | first :: second :: rest => exact absurd rfl (short first second rest)

namespace Tiles

variable {first second stop : Nat} {rest offsets : List Nat} {data : List UInt8}

theorem le_end (tiles : Tiles first offsets data) : ∀ offset ∈ offsets, offset ≤ first + data.length := by
  intro offset member
  rw [← List.dropLast_append_getLast? _ tiles.ends] at member
  rcases List.mem_append.1 member with earlier | last
  · have ordered := tiles.ascends
    rw [← List.dropLast_append_getLast? _ tiles.ends] at ordered
    exact (List.pairwise_append.1 ordered).2.2 offset earlier _ (List.mem_singleton_self _)
  · rw [List.mem_singleton.1 last]

theorem first_le (tiles : Tiles first offsets data) : ∀ offset ∈ offsets, first ≤ offset := by
  intro offset member
  cases offsets with
  | nil => cases member
  | cons head rest =>
    obtain rfl : head = first := Option.some.inj tiles.starts
    rcases List.mem_cons.1 member with rfl | later
    · exact Nat.le_refl _
    · exact (List.pairwise_cons.1 tiles.ascends).1 offset later

/-- What is left when the first item is taken off. -/
theorem tail (tiles : Tiles first (stop :: second :: rest) data) :
    stop = first ∧ first ≤ second ∧ second - first ≤ data.length ∧
      Tiles second (second :: rest) (data.drop (second - first)) := by
  obtain rfl : stop = first := Option.some.inj tiles.starts
  obtain ⟨least, ordered⟩ := List.pairwise_cons.1 tiles.ascends
  have onward : stop ≤ second := least second (List.mem_cons_self ..)
  have inside : second ≤ stop + data.length := tiles.le_end second (by simp)
  refine ⟨rfl, onward, by omega, rfl, ordered, ?_⟩
  have ends := tiles.ends
  rw [List.getLast?_cons_cons] at ends
  rw [ends, List.length_drop]
  congr 1
  omega

end Tiles

theorem flatten_cut {first : Nat} {offsets : List Nat} {data : List UInt8} (tiles : Tiles first offsets data) :
    (cut offsets data).flatten = data := by
  fun_induction cut offsets data generalizing first with
  | case1 start second rest data ih =>
    obtain ⟨rfl, _, _, later⟩ := tiles.tail
    rw [List.flatten_cons, ih later, List.take_append_drop]
  | case2 offsets data short =>
    match offsets with
    | [] => cases tiles.starts
    | [only] =>
      have same : only = first := Option.some.inj tiles.starts
      have ends : only = first + data.length := Option.some.inj tiles.ends
      have empty : data.length = 0 := by omega
      rw [List.length_eq_zero_iff.1 empty]
      rfl
    | start :: second :: rest => exact absurd rfl (short start second rest)

theorem length_cut (offsets : List Nat) (data : List UInt8) :
    (cut offsets data).length = offsets.length - 1 := by
  fun_induction cut offsets data with
  | case1 start second rest data ih => simp [ih]
  | case2 offsets data short =>
    match offsets with
    | [] => rfl
    | [only] => rfl
    | start :: second :: rest => exact absurd rfl (short start second rest)

/-- An item lies between its offset and the next one. -/
theorem getElem?_cut {first : Nat} {offsets : List Nat} {data : List UInt8} (tiles : Tiles first offsets data)
    {place start stop : Nat} (begins : offsets[place]? = some start) (ends : offsets[place + 1]? = some stop) :
    (cut offsets data)[place]? = some ((data.drop (start - first)).take (stop - start)) := by
  fun_induction cut offsets data generalizing first place with
  | case1 before second rest data ih =>
    obtain ⟨rfl, onward, inside, later⟩ := tiles.tail
    cases place with
    | zero =>
      cases begins
      cases ends
      rw [List.getElem?_cons_zero, Nat.sub_self, List.drop_zero]
    | succ place =>
      rw [List.getElem?_cons_succ] at begins ends ⊢
      have past : second ≤ start := by
        rcases List.mem_cons.1 (List.mem_of_getElem? begins) with rfl | member
        · exact Nat.le_refl _
        · exact (List.pairwise_cons.1 later.ascends).1 start member
      rw [ih later begins ends, List.drop_drop]
      congr 3
      omega
  | case2 offsets data short =>
    match offsets with
    | [] => cases begins
    | [only] => cases ends
    | start :: second :: rest => exact absurd rfl (short start second rest)

/-! ### Items -/

variable {index : Index}

theorem count_eq_zero_iff (sound : index.WellFormed) : index.count = 0 ↔ index = {} := by
  constructor
  · intro none
    cases sound with
    | empty => rfl
    | table inhabited => omega
  · rintro rfl
    rfl

theorem length_items (index : Index) : index.items.length = index.count := length_cut _ _

theorem flatten_items (sound : index.WellFormed) : index.items.flatten = index.data := by
  cases sound with
  | empty => rfl
  | table _ _ _ _ tiles => exact flatten_cut tiles

/-- The offsets of an item lie in the order of the data and within it, so that it is there to be had. -/
theorem offsets_of_lt_count (sound : index.WellFormed) {place : Nat} (lt : place < index.count) :
    ∃ start stop, index.offsets[place]? = some start ∧ index.offsets[place + 1]? = some stop ∧
      1 ≤ start ∧ start ≤ stop ∧ stop ≤ index.data.length + 1 ∧
      index.items[place]? = some ((index.data.drop (start - 1)).take (stop - start)) ∧
      index.get? place = index.items[place]? := by
  cases sound with
  | empty => cases lt
  | table _ _ _ _ tiles =>
    have second : place + 1 < index.offsets.length := Nat.add_lt_of_lt_sub lt
    have first : place < index.offsets.length := Nat.lt_of_succ_lt second
    have begins := List.getElem?_eq_getElem first
    have ends := List.getElem?_eq_getElem second
    have onward := List.pairwise_iff_getElem.1 tiles.ascends place (place + 1) first second (Nat.lt_succ_self _)
    have inside := tiles.le_end _ (List.getElem_mem second)
    have least := tiles.first_le _ (List.getElem_mem first)
    have here := getElem?_cut tiles begins ends
    refine ⟨_, _, begins, ends, least, onward, by omega, here, ?_⟩
    rw [items, here, get?, begins, ends]
    show between? _ _ _ = _
    rw [between?, if_pos (by omega), Nat.sub_sub_sub_cancel_right least]

theorem get?_eq_none {place : Nat} (beyond : index.count ≤ place) : index.get? place = none := by
  have past : index.offsets.length ≤ place + 1 := Nat.le_add_of_sub_le beyond
  rw [get?, List.getElem?_eq_none past]
  cases index.offsets[place]? <;> rfl

theorem get?_eq_getElem? (sound : index.WellFormed) (place : Nat) : index.get? place = index.items[place]? := by
  by_cases lt : place < index.count
  · obtain ⟨_, _, _, _, _, _, _, _, same⟩ := offsets_of_lt_count sound lt
    exact same
  · have beyond : index.count ≤ place := Nat.le_of_not_lt lt
    rw [get?_eq_none beyond, List.getElem?_eq_none (by rwa [length_items])]

/-! ### Reading -/

theorem local_readData (offsetSize : UInt8) (offsets : List Nat) : Reader.Local (readData offsetSize offsets) := by
  unfold readData
  split
  · exact Reader.local_throw _
  split
  · exact Reader.local_throw _
  · exact Reader.local_bind (Reader.local_slice _) fun data => Reader.local_pure _

theorem local_offsets (offsetSize : UInt8) (count : Nat) :
    Reader.Local (Reader.times (Reader.offset offsetSize) count) :=
  Reader.local_times (Reader.local_offset offsetSize) count

theorem local_readTable (count : Nat) : Reader.Local (readTable count) :=
  Reader.local_bind Reader.local_byte fun offsetSize =>
    Reader.local_bind (local_offsets offsetSize _) fun offsets => local_readData offsetSize offsets

theorem local_read : Reader.Local read := by
  refine Reader.local_bind (Reader.local_unsigned 2) fun count => ?_
  split
  · exact Reader.local_pure _
  · exact local_readTable count

variable {used : List UInt8}

/-- The last offset says how much data there is. -/
theorem tiles_iff {offsets : List Nat} (starts : offsets.head? = some 1) (ascends : offsets.Pairwise (· ≤ ·)) :
    Tiles 1 offsets used ↔ used.length = offsets.getLastD 1 - 1 := by
  cases ends : offsets.getLast? with
  | none =>
    rw [List.getLast?_eq_none_iff.1 ends] at starts
    cases starts
  | some last =>
    have least : 1 ≤ last := by
      obtain ⟨rest, rfl⟩ := List.head?_eq_some_iff.1 starts
      rcases List.mem_cons.1 (List.mem_of_getLast? ends) with rfl | member
      · exact Nat.le_refl _
      · exact (List.pairwise_cons.1 ascends).1 last member
    rw [List.getLastD_eq_getLast?, ends, Option.getD_some]
    constructor
    · intro tiles
      have same : last = 1 + used.length := Option.some.inj (ends.symm.trans tiles.ends)
      omega
    · intro enough
      have same : last = 1 + used.length := by omega
      exact ⟨starts, ascends, ends.trans (congrArg some same)⟩

theorem finds_readData_iff {offsetSize : UInt8} {offsets : List Nat} :
    (readData offsetSize offsets).Finds used index ↔
      Tiles 1 offsets used ∧ index = { offsetSize, offsets, data := used } := by
  unfold readData
  split
  next astray =>
    exact ⟨fun finds => absurd finds Reader.not_finds_throw, fun sound => absurd sound.1.starts astray⟩
  next starts =>
    split
    next falls =>
      rw [Bool.not_eq_true', ← Bool.not_eq_true, ascending_iff] at falls
      exact ⟨fun finds => absurd finds Reader.not_finds_throw, fun sound => absurd sound.1.ascends falls⟩
    next ascends =>
      rw [Bool.not_eq_true', Bool.not_eq_false, ascending_iff] at ascends
      have starts : offsets.head? = some 1 := not_not.1 starts
      rw [Reader.finds_bind_iff (Reader.local_slice _) fun _ => Reader.local_pure _, tiles_iff starts ascends]
      constructor
      · rintro ⟨data, before, after, rfl, here, there⟩
        obtain ⟨rfl, rfl⟩ := Reader.finds_pure_iff.1 there
        obtain ⟨enough, rfl⟩ := Reader.finds_slice_iff.1 here
        rw [List.append_nil]
        exact ⟨enough, rfl⟩
      · rintro ⟨enough, rfl⟩
        exact ⟨used, used, [], (List.append_nil used).symm, Reader.finds_slice_iff.2 ⟨enough, rfl⟩,
          Reader.finds_pure _⟩

/-- The offsets of a sound table can be written as soon as the last one can. -/
theorem Tiles.fits {width : Nat} {offsets : List Nat} (tiles : Tiles 1 offsets used) :
    (∀ offset ∈ offsets, offset < Nat.pow 256 width) ↔ used.length + 1 < Nat.pow 256 width := by
  constructor
  · intro all
    rw [Nat.add_comm]
    exact all _ (List.mem_of_getLast? tiles.ends)
  · intro last offset member
    have inside := tiles.le_end offset member
    omega

theorem finds_readTable_iff {count : Nat} (inhabited : 1 ≤ count) (countable : count ≤ 65535) :
    (readTable count).Finds used index ↔
      index.WellFormed ∧ index.count = count ∧
        used = [index.offsetSize] ++ (index.offsets.flatMap (BigEndian.bytes index.offsetSize.toNat) ++ index.data) := by
  have later (offsetSize : UInt8) :=
    Reader.local_bind (local_offsets offsetSize (count + 1)) (local_readData offsetSize)
  rw [readTable, Reader.finds_bind_iff Reader.local_byte later]
  constructor
  · rintro ⟨offsetSize, lead, behind, rfl, here, there⟩
    obtain ⟨offsets, table, data, rfl, offsetsHere, dataHere⟩ :=
      (Reader.finds_bind_iff (local_offsets offsetSize _) (local_readData offsetSize)).1 there
    rw [Reader.finds_byte_iff.1 here]
    obtain ⟨enough, fits, rfl⟩ :=
      (Reader.finds_times_iff (Reader.local_offset offsetSize) fun _ _ => Reader.finds_offset_iff).1 offsetsHere
    obtain ⟨tiles, rfl⟩ := finds_readData_iff.1 dataHere
    have size : offsets.length - 1 = count := by omega
    obtain ⟨wide, narrow⟩ := (fits 1 (List.mem_of_head? tiles.starts)).1
    have last := tiles.fits.1 fun offset member => (fits offset member).2
    subst size
    exact ⟨.table inhabited countable wide narrow tiles last, rfl, rfl⟩
  · rintro ⟨sound, size, rfl⟩
    cases sound with
    | empty =>
      subst size
      cases inhabited
    | table _ _ wide narrow tiles fits =>
      have enough : index.offsets.length = count + 1 := by
        have size : index.offsets.length - 1 = count := size
        omega
      have all (offset : Nat) (member : offset ∈ index.offsets) :
          (1 ≤ index.offsetSize ∧ index.offsetSize ≤ 4) ∧ offset < Nat.pow 256 index.offsetSize.toNat :=
        ⟨⟨wide, narrow⟩, tiles.fits.2 fits offset member⟩
      have offsetsHere :=
        (Reader.finds_times_iff (Reader.local_offset _) fun _ _ => Reader.finds_offset_iff).2 ⟨enough, all, rfl⟩
      exact ⟨_, _, _, rfl, Reader.finds_byte_iff.2 rfl,
        Reader.finds_bind offsetsHere (finds_readData_iff.2 ⟨tiles, rfl⟩)⟩

/-- An INDEX is read from its written form and from nothing else. -/
theorem finds_read_iff : read.Finds used index ↔ index.WellFormed ∧ used = index.encode := by
  have later (count : Nat) : Reader.Local (if count = 0 then pure {} else readTable count) := by
    split
    · exact Reader.local_pure _
    · exact local_readTable count
  rw [read, Reader.finds_bind_iff (Reader.local_unsigned 2) later]
  constructor
  · rintro ⟨count, lead, behind, rfl, here, there⟩
    obtain ⟨small, rfl⟩ := Reader.finds_unsigned_iff.1 here
    by_cases none : count = 0
    · rw [if_pos none] at there
      obtain ⟨rfl, rfl⟩ := Reader.finds_pure_iff.1 there
      rw [none]
      exact ⟨.empty, rfl⟩
    · rw [if_neg none] at there
      have inhabited : 1 ≤ count := Nat.one_le_iff_ne_zero.2 none
      have countable : count ≤ 65535 := Nat.le_of_lt_succ small
      obtain ⟨sound, rfl, rfl⟩ := (finds_readTable_iff inhabited countable).1 there
      refine ⟨sound, ?_⟩
      rw [encode, if_neg none, List.append_assoc, List.append_assoc]
  · rintro ⟨sound, rfl⟩
    by_cases none : index.count = 0
    · obtain rfl := (count_eq_zero_iff sound).1 none
      exact ⟨0, [0, 0], [], rfl, Reader.finds_unsigned_iff.2 ⟨by decide, rfl⟩, Reader.finds_pure _⟩
    · have inhabited : 1 ≤ index.count := Nat.one_le_iff_ne_zero.2 none
      have countable := sound.count_le
      have lead : (Reader.unsigned 2).Finds (BigEndian.bytes 2 index.count) index.count :=
        Reader.finds_unsigned_iff.2 ⟨Nat.lt_succ_of_le countable, rfl⟩
      have behind := (finds_readTable_iff inhabited countable).2 ⟨sound, rfl, rfl⟩
      rw [encode, if_neg none, List.append_assoc, List.append_assoc]
      refine ⟨index.count, _, _, rfl, lead, ?_⟩
      rw [if_neg none]
      exact behind

/-! ### Writing -/

/-- Where every item begins if the first one begins at `start`, and where the last one ends. -/
def offsetsFrom (start : Nat) : List (List UInt8) → List Nat
  | [] => [start]
  | item :: items => start :: offsetsFrom (start + item.length) items

/-- The INDEX of the given items. -/
def ofItems (offsetSize : UInt8) (items : List (List UInt8)) : Index :=
  if items = [] then {} else { offsetSize, offsets := offsetsFrom 1 items, data := items.flatten }

theorem length_offsetsFrom (start : Nat) (items : List (List UInt8)) :
    (offsetsFrom start items).length = items.length + 1 := by
  induction items generalizing start with
  | nil => rfl
  | cons item items ih => rw [offsetsFrom, List.length_cons, ih, List.length_cons]

theorem offsetsFrom_eq_cons (start : Nat) (items : List (List UInt8)) :
    ∃ rest, offsetsFrom start items = start :: rest := by
  cases items with
  | nil => exact ⟨[], rfl⟩
  | cons item items => exact ⟨_, rfl⟩

theorem tiles_offsetsFrom (start : Nat) (items : List (List UInt8)) :
    Tiles start (offsetsFrom start items) items.flatten := by
  induction items generalizing start with
  | nil => exact ⟨rfl, List.pairwise_singleton _ _, rfl⟩
  | cons item items ih =>
    have later := ih (start + item.length)
    obtain ⟨rest, split⟩ := offsetsFrom_eq_cons (start + item.length) items
    refine ⟨rfl, ?_, ?_⟩
    · refine List.pairwise_cons.2 ⟨fun offset member => ?_, later.ascends⟩
      exact Nat.le_trans (Nat.le_add_right start item.length) (later.first_le offset member)
    · have ends := later.ends
      rw [offsetsFrom, List.flatten_cons, List.length_append]
      rw [split] at ends ⊢
      rw [List.getLast?_cons_cons, ends, Nat.add_assoc]

theorem cut_offsetsFrom (start : Nat) (items : List (List UInt8)) :
    cut (offsetsFrom start items) items.flatten = items := by
  induction items generalizing start with
  | nil => rfl
  | cons item items ih =>
    obtain ⟨rest, split⟩ := offsetsFrom_eq_cons (start + item.length) items
    have later := ih (start + item.length)
    rw [split] at later
    rw [offsetsFrom, split, cut, List.flatten_cons, Nat.add_sub_cancel_left, List.take_left, List.drop_left, later]

theorem items_ofItems (offsetSize : UInt8) (items : List (List UInt8)) : (ofItems offsetSize items).items = items := by
  unfold ofItems
  split
  next empty =>
    rw [empty]
    rfl
  next => exact cut_offsetsFrom 1 items

theorem wellFormed_ofItems {offsetSize : UInt8} {items : List (List UInt8)} (countable : items.length ≤ 65535)
    (wide : 1 ≤ offsetSize) (narrow : offsetSize ≤ 4)
    (fits : items.flatten.length + 1 < Nat.pow 256 offsetSize.toNat) : (ofItems offsetSize items).WellFormed := by
  unfold ofItems
  split
  next => exact .empty
  next inhabited =>
    have size : (offsetsFrom 1 items).length - 1 = items.length := by
      rw [length_offsetsFrom, Nat.add_sub_cancel]
    refine .table ?_ ?_ wide narrow (tiles_offsetsFrom 1 items) fits
    · rw [count, size]
      exact List.length_pos_iff.2 inhabited
    · rw [count, size]
      exact countable

/-- Reading an INDEX at a position succeeds just where its written form lies and goes past it; the items are
the pieces of its data between the offsets, one for each place below the count; and whatever items are written
are read back, in front of any other bytes. -/
theorem read_exact :
    (∀ (source moved : Source) (index : Index), source.read read = (.ok index, moved) ↔
      index.WellFormed ∧ (∃ rest, source.remaining = index.encode ++ rest) ∧
        moved = source.seek (source.position + index.encode.length)) ∧
    (∀ index : Index, index.WellFormed →
      index.items.length = index.count ∧ index.items.flatten = index.data ∧
      (∀ place < index.count, ∃ start stop,
        index.offsets[place]? = some start ∧ index.offsets[place + 1]? = some stop ∧
        1 ≤ start ∧ start ≤ stop ∧ stop ≤ index.data.length + 1 ∧
        index.items[place]? = some ((index.data.drop (start - 1)).take (stop - start)) ∧
        index.get? place = index.items[place]?) ∧
      ∀ place, index.count ≤ place → index.get? place = none) ∧
    ∀ (offsetSize : UInt8) (items : List (List UInt8)), items.length ≤ 65535 → 1 ≤ offsetSize → offsetSize ≤ 4 →
      items.flatten.length + 1 < Nat.pow 256 offsetSize.toNat → ∀ rest,
        read ((ofItems offsetSize items).encode ++ rest) = .ok (ofItems offsetSize items) rest ∧
        (ofItems offsetSize items).items = items := by
  refine ⟨?_, ?_, ?_⟩
  · intro source moved index
    rw [Source.read_eq_ok_iff local_read]
    constructor
    · rintro ⟨used, rest, split, finds, rfl⟩
      obtain ⟨sound, rfl⟩ := finds_read_iff.1 finds
      exact ⟨sound, ⟨rest, split⟩, rfl⟩
    · rintro ⟨sound, ⟨rest, split⟩, rfl⟩
      exact ⟨index.encode, rest, split, finds_read_iff.2 ⟨sound, rfl⟩, rfl⟩
  · intro index sound
    exact ⟨length_items index, flatten_items sound, fun _ => offsets_of_lt_count sound, fun _ => get?_eq_none⟩
  · intro offsetSize items countable wide narrow fits rest
    have sound := wellFormed_ofItems countable wide narrow fits
    exact ⟨finds_read_iff.2 ⟨sound, rfl⟩ rest, items_ofItems offsetSize items⟩

/-- Three items, one of them empty, with offsets of two bytes. -/
theorem read_exact_three :
    let items : List (List UInt8) := [[1, 2, 3], [], [4]]
    let index := ofItems 2 items
    (items.length ≤ 65535 ∧ items.flatten.length + 1 < Nat.pow 256 2 ∧ index.WellFormed) ∧
      read ([0, 3, 2, 0, 1, 0, 4, 0, 4, 0, 5, 1, 2, 3, 4] ++ [9]) = .ok index [9] ∧ index.items = items ∧
      index.items.length = index.count ∧ index.get? 3 = none := by
  intro items index
  have countable : items.length ≤ 65535 := by decide
  have fits : items.flatten.length + 1 < Nat.pow 256 2 := by decide
  have sound : index.WellFormed := wellFormed_ofItems countable (by decide) (by decide) fits
  have written : index.encode = [0, 3, 2, 0, 1, 0, 4, 0, 4, 0, 5, 1, 2, 3, 4] := by decide
  obtain ⟨reads, same⟩ := read_exact.2.2 2 items countable (by decide) (by decide) fits [9]
  rw [show (ofItems 2 items).encode = _ from written] at reads
  obtain ⟨enough, _, _, beyond⟩ := read_exact.2.1 index sound
  exact ⟨⟨countable, fits, sound⟩, reads, same, enough, beyond 3 (by decide)⟩

end CompactFont.Index
