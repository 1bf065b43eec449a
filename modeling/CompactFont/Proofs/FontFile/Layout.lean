import CompactFont.FontFile
import CompactFont.Proofs.Charset
import CompactFont.Proofs.Index

/-! Where the structures of a font lie in its data. They are read from a layout of their written forms, and data
without such a layout are refused; the structures may lie in any order, leave gaps and share bytes. -/

namespace CompactFont

/-- The part begins at the offset. -/
def At (bytes : List UInt8) (offset : Nat) (part : List UInt8) : Prop :=
  ∃ before after, bytes = before ++ part ++ after ∧ before.length = offset

/-- What begins at an offset is what the bytes from there on begin with, unless it is empty. -/
theorem at_iff_drop {bytes part : List UInt8} (inhabited : part ≠ []) {offset : Nat} :
    At bytes offset part ↔ ∃ rest, bytes.drop offset = part ++ rest := by
  constructor
  · rintro ⟨before, after, rfl, rfl⟩
    rw [List.append_assoc, List.drop_left]
    exact ⟨after, rfl⟩
  · rintro ⟨rest, split⟩
    -- nothing is left beyond the end, so a part that is not empty cannot begin there
    have inside : offset < bytes.length := by
      by_contra beyond
      rw [List.drop_eq_nil_of_le (Nat.le_of_not_lt beyond)] at split
      exact inhabited (List.append_eq_nil_iff.1 split.symm).1
    refine ⟨bytes.take offset, rest, ?_, List.length_take_of_le (Nat.le_of_lt inside)⟩
    rw [List.append_assoc, ← split, List.take_append_drop]

/-- An INDEX is written at the offset. -/
def Index.At (bytes : List UInt8) (offset : Nat) (index : Index) : Prop :=
  index.WellFormed ∧ CompactFont.At bytes offset index.encode

theorem Index.encode_ne_nil (index : Index) : index.encode ≠ [] := by
  unfold encode
  split
  · nofun
  · intro empty
    have size := congrArg List.length empty
    simp only [List.length_append, List.length_singleton, List.length_nil] at size
    omega

def Header.encode (header : Header) : List UInt8 := [header.major, header.minor, header.size, header.offsetSize]

namespace FontFile

/-- The charset of so many glyphs is a predefined one or is written at its offset. -/
inductive CharsetAt (bytes : List UInt8) (glyphs : Nat) : Nat → Charset → Prop where
  | isoAdobe : CharsetAt bytes glyphs 0 .isoAdobe
  | expert : CharsetAt bytes glyphs 1 .expert
  | expertSubset : CharsetAt bytes glyphs 2 .expertSubset
  | stored {offset : Nat} {charset : Charset} (beyond : 2 < offset) (stored : charset.Stored glyphs)
      (lies : At bytes offset charset.encode) : CharsetAt bytes glyphs offset charset

theorem CharsetAt.known {bytes : List UInt8} {glyphs offset : Nat} {charset : Charset}
    (lies : CharsetAt bytes glyphs offset charset) :
    (∃ n, Charset.predefined? n = some charset) ∨ charset.Stored glyphs := by
  cases lies with
  | isoAdobe => exact .inl ⟨0, rfl⟩
  | expert => exact .inl ⟨1, rfl⟩
  | expertSubset => exact .inl ⟨2, rfl⟩
  | stored _ stored => exact .inr stored

/-- The local subroutines are written at their distance from the start of the Private DICT. -/
inductive LocalsAt (bytes : List UInt8) (start : Nat) : Option Nat → Option Index → Prop where
  | absent : LocalsAt bytes start none none
  | present {distance : Nat} {locals : Index} (lies : locals.At bytes (start + distance)) :
      LocalsAt bytes start (some distance) (some locals)

/-- The Private DICT is decoded from the region that the Top DICT gives, by its length and its start. -/
inductive PrivateAt (bytes : List UInt8) : Option (Nat × Nat) → Option PrivateDict → Option Index → Prop where
  | absent : PrivateAt bytes none none none
  | present {length start : Nat} {dict : PrivateDict} {locals? : Option Index}
      (inside : start + length ≤ bytes.length)
      (decoded : PrivateDict.ofBytes ((bytes.drop start).take length) = .ok dict)
      (locals : LocalsAt bytes start dict.subroutines? locals?) :
      PrivateAt bytes (some (length, start)) (some dict) locals?

/-- The structures of a font are written in the bytes: the first ones one behind the other, the others where the
dictionaries say. -/
structure Layout (bytes : List UInt8) (file : FontFile) : Prop where
  version : file.header.major = 1
  headerSize : file.header.size = 4
  front : ∃ (topDicts : Index) (first rest : List UInt8),
    bytes = file.header.encode ++ file.names.encode ++ topDicts.encode ++ file.strings.encode ++
      file.globals.encode ++ rest ∧
    topDicts.WellFormed ∧ topDicts.items.head? = some first ∧ TopDict.ofBytes first = .ok file.topDict
  names : file.names.WellFormed
  strings : file.strings.WellFormed
  globals : file.globals.WellFormed
  charstrings : ∃ offset, file.topDict.charstrings? = some offset ∧ file.charstrings.At bytes offset
  charset : CharsetAt bytes file.charstrings.count file.topDict.charset file.charset
  privateDict : PrivateAt bytes file.topDict.privateDict? file.privateDict? file.locals?

/-! ### Reading one structure -/

theorem during_eq_ok_iff {α : Type} {stage : Stage} {found : Except Fault α} {value : α} :
    during stage found = .ok value ↔ found = .ok value := by
  cases found with
  | error fault => exact ⟨nofun, nofun⟩
  | ok other => rw [during, Except.ok.injEq, Except.ok.injEq]

theorem bare_eq_ok_iff {α : Type} {found : Except Fault α} {value : α} :
    bare found = .ok value ↔ found = .ok value := by
  cases found with
  | error fault => exact ⟨nofun, nofun⟩
  | ok other => rw [bare, Except.ok.injEq, Except.ok.injEq]

variable {bytes rest : List UInt8}

theorem parse_index_eq_ok_iff {index : Index} :
    Index.read.parse bytes = .ok (index, rest) ↔ index.WellFormed ∧ bytes = index.encode ++ rest := by
  rw [Reader.parse_eq_ok_iff_finds Index.local_read]
  constructor
  · rintro ⟨used, rfl, finds⟩
    obtain ⟨sound, rfl⟩ := Index.finds_read_iff.1 finds
    exact ⟨sound, rfl⟩
  · rintro ⟨sound, rfl⟩
    exact ⟨index.encode, rfl, Index.finds_read_iff.2 ⟨sound, rfl⟩⟩

theorem parse_header_eq_ok_iff {header : Header} :
    Header.read.parse bytes = .ok (header, rest) ↔
      header.major = 1 ∧ header.size = 4 ∧ bytes = header.encode ++ rest := by
  rw [Reader.parse_eq_ok_iff]
  constructor
  · intro reads
    match bytes with
    | [] | [_] | [_, _] | [_, _, _] => cases reads
    | major :: minor :: size :: offsetSize :: behind =>
      have checked : (if major ≠ 1 then throw (.version major) else if size ≠ 4 then throw (.headerSize size)
          else pure { major, minor, size, offsetSize } : Reader Header) behind = .ok header rest := reads
      split at checked
      next => cases checked
      next one =>
        split at checked
        next => cases checked
        next four =>
          cases checked
          exact ⟨not_not.1 one, not_not.1 four, rfl⟩
  · rintro ⟨one, four, rfl⟩
    obtain ⟨major, minor, size, offsetSize⟩ := header
    cases one
    cases four
    rfl

/-- What is read at an offset is written there. -/
theorem readAt_eq_ok_iff {α : Type} {reader : Reader α} (reads : reader.Local)
    {Sound : α → Prop} {encode : α → List UInt8}
    (law : ∀ {used value}, reader.Finds used value ↔ Sound value ∧ used = encode value)
    (inhabited : ∀ {value}, Sound value → encode value ≠ []) {stage : Stage} {offset : Nat} {value : α} :
    readAt stage reader bytes offset = .ok value ↔ Sound value ∧ At bytes offset (encode value) := by
  have mapped : readAt stage reader bytes offset = .ok value ↔
      ∃ rest, reader.parse (bytes.drop offset) = .ok (value, rest) := by
    rw [readAt]
    cases reader.parse (bytes.drop offset) with
    | error fault => exact ⟨nofun, fun ⟨_, absent⟩ => nomatch absent⟩
    | ok found =>
      constructor
      · intro same
        cases same
        exact ⟨found.2, rfl⟩
      · rintro ⟨rest, same⟩
        cases same
        rfl
  rw [mapped]
  constructor
  · rintro ⟨rest, parsed⟩
    obtain ⟨used, split, finds⟩ := (Reader.parse_eq_ok_iff_finds reads).1 parsed
    obtain ⟨sound, rfl⟩ := law.1 finds
    exact ⟨sound, (at_iff_drop (inhabited sound)).2 ⟨rest, split⟩⟩
  · rintro ⟨sound, lies⟩
    obtain ⟨rest, split⟩ := (at_iff_drop (inhabited sound)).1 lies
    exact ⟨rest, (Reader.parse_eq_ok_iff_finds reads).2 ⟨_, split, law.2 ⟨sound, rfl⟩⟩⟩

theorem readAt_index_eq_ok_iff {stage : Stage} {offset : Nat} {index : Index} :
    readAt stage Index.read bytes offset = .ok index ↔ index.At bytes offset :=
  readAt_eq_ok_iff Index.local_read Index.finds_read_iff fun {index} _ => index.encode_ne_nil

theorem firstTopDict_eq_ok_iff {topDicts : Index} (sound : topDicts.WellFormed) {first : List UInt8} :
    firstTopDict topDicts = .ok first ↔ topDicts.items.head? = some first := by
  rw [firstTopDict, Index.get?_eq_getElem? sound, List.head?_eq_getElem?]
  cases topDicts.items[0]? with
  | none => exact ⟨nofun, nofun⟩
  | some data => rw [Except.ok.injEq, Option.some.injEq]

theorem readCharstrings_eq_ok_iff {topDict : TopDict} {charstrings : Index} :
    readCharstrings bytes topDict = .ok charstrings ↔
      ∃ offset, topDict.charstrings? = some offset ∧ charstrings.At bytes offset := by
  unfold readCharstrings
  cases topDict.charstrings? with
  | none => exact ⟨nofun, fun ⟨_, absent, _⟩ => nomatch absent⟩
  | some offset =>
    rw [readAt_index_eq_ok_iff]
    constructor
    · intro lies
      exact ⟨offset, rfl, lies⟩
    · rintro ⟨_, same, lies⟩
      cases same
      exact lies

theorem readCharset_eq_ok_iff {topDict : TopDict} {glyphs : Nat} {charset : Charset} :
    readCharset bytes topDict glyphs = .ok charset ↔ CharsetAt bytes glyphs topDict.charset charset := by
  unfold readCharset
  match topDict.charset with
  | 0 | 1 | 2 =>
    constructor
    · intro same
      cases same
      constructor
    · intro named
      cases named with
      | stored beyond => exact absurd beyond (by decide)
      | _ => rfl
  | offset + 3 =>
    have read : readAt .charset (Charset.read glyphs) bytes (offset + 3) = .ok charset ↔ _ :=
      readAt_eq_ok_iff (Charset.local_read glyphs) Charset.finds_read_iff Charset.Stored.encode_ne_nil
    refine read.trans ⟨fun ⟨stored, lies⟩ => .stored (Nat.le_add_left 3 offset) stored lies, ?_⟩
    intro named
    cases named with
    | stored _ stored lies => exact ⟨stored, lies⟩

theorem readLocals_eq_ok_iff {start : Nat} {dict : PrivateDict} {locals? : Option Index} :
    readLocals bytes start dict = .ok locals? ↔ LocalsAt bytes start dict.subroutines? locals? := by
  unfold readLocals
  cases dict.subroutines? with
  | none =>
    constructor
    · intro same
      cases same
      exact .absent
    · intro none
      cases none
      rfl
  | some distance =>
    constructor
    · intro found
      cases read : readAt .localSubroutines Index.read bytes (start + distance) with
      | error failure =>
        simp only [read] at found
        cases found
      | ok locals =>
        simp only [read] at found
        cases found
        exact .present (readAt_index_eq_ok_iff.1 read)
    · intro present
      cases present with
      | present lies =>
        simp only [readAt_index_eq_ok_iff.2 lies]
        rfl

theorem readPrivate_eq_ok_iff {topDict : TopDict} {dict? : Option PrivateDict} {locals? : Option Index} :
    readPrivate bytes topDict = .ok (dict?, locals?) ↔ PrivateAt bytes topDict.privateDict? dict? locals? := by
  unfold readPrivate
  cases topDict.privateDict? with
  | none =>
    constructor
    · intro same
      cases same
      exact .absent
    · intro none
      cases none
      rfl
  | some region =>
    obtain ⟨length, start⟩ := region
    simp only [bind_eq_ok_iff, bare_eq_ok_iff, during_eq_ok_iff, Source.region_eq_ok_iff, readLocals_eq_ok_iff]
    constructor
    · rintro ⟨data, ⟨inside, rfl⟩, dict, decoded, found, locals, same⟩
      cases same
      exact .present inside decoded locals
    · intro present
      cases present with
      | present inside decoded locals => exact ⟨_, ⟨inside, rfl⟩, _, decoded, _, locals, rfl⟩

/-- What is read as a font is laid out. -/
theorem layout_of_read {file : FontFile} (found : (read bytes).result = .ok file) : Layout bytes file := by
  rw [read] at found
  simp only [Logged.result_bind, Logged.result_quiet, Logged.result_noteIf, Logged.result_note, Logged.result_pure,
    bind_eq_ok_iff, bare_eq_ok_iff, during_eq_ok_iff, readCharstrings_eq_ok_iff, readCharset_eq_ok_iff] at found
  obtain ⟨⟨header, behindHeader⟩, headerHere, ⟨names, behindNames⟩, namesHere, ⟨topDicts, behindTopDicts⟩,
    topDictsHere, _, _, first, firstHere, topDict, decoded, ⟨strings, behindStrings⟩, stringsHere,
    ⟨globals, behindGlobals⟩, globalsHere, charstrings, charstringsHere, _, _, charset, charsetHere,
    ⟨dict?, locals?⟩, privateHere, same⟩ := found
  obtain ⟨version, headerSize, rfl⟩ := parse_header_eq_ok_iff.1 headerHere
  obtain ⟨soundNames, rfl⟩ := parse_index_eq_ok_iff.1 namesHere
  obtain ⟨soundTopDicts, rfl⟩ := parse_index_eq_ok_iff.1 topDictsHere
  obtain ⟨soundStrings, rfl⟩ := parse_index_eq_ok_iff.1 stringsHere
  obtain ⟨soundGlobals, rfl⟩ := parse_index_eq_ok_iff.1 globalsHere
  cases same
  refine ⟨version, headerSize, ⟨topDicts, first, behindGlobals, ?_, soundTopDicts, ?_, decoded⟩, soundNames,
    soundStrings, soundGlobals, charstringsHere, charsetHere, readPrivate_eq_ok_iff.1 privateHere⟩
  · simp only [List.append_assoc]
  · exact (firstTopDict_eq_ok_iff soundTopDicts).1 firstHere

/-- What is laid out is read. -/
theorem read_of_layout {file : FontFile} (laid : Layout bytes file) : (read bytes).result = .ok file := by
  obtain ⟨version, headerSize, ⟨topDicts, first, rest, split, soundTopDicts, firstHere, decoded⟩, soundNames,
    soundStrings, soundGlobals, charstringsHere, charsetHere, privateHere⟩ := laid
  simp only [List.append_assoc] at split
  rw [read]
  simp only [Logged.result_bind, Logged.result_quiet, Logged.result_noteIf, Logged.result_note, Logged.result_pure,
    bind_eq_ok_iff, bare_eq_ok_iff, during_eq_ok_iff, readCharstrings_eq_ok_iff, readCharset_eq_ok_iff]
  exact ⟨(file.header, _), parse_header_eq_ok_iff.2 ⟨version, headerSize, split⟩,
    (file.names, _), parse_index_eq_ok_iff.2 ⟨soundNames, rfl⟩,
    (topDicts, _), parse_index_eq_ok_iff.2 ⟨soundTopDicts, rfl⟩, (), trivial,
    first, (firstTopDict_eq_ok_iff soundTopDicts).2 firstHere, file.topDict, decoded,
    (file.strings, _), parse_index_eq_ok_iff.2 ⟨soundStrings, rfl⟩,
    (file.globals, rest), parse_index_eq_ok_iff.2 ⟨soundGlobals, rfl⟩,
    file.charstrings, charstringsHere, (), trivial, file.charset, charsetHere,
    (file.privateDict?, file.locals?), readPrivate_eq_ok_iff.2 privateHere, rfl⟩

/-- Data are read as a font exactly if its structures are written in them, in whatever order and with whatever else
there may be between them, behind them or in the same bytes. -/
theorem read_eq_ok_iff_layout (bytes : List UInt8) (file : FontFile) :
    (read bytes).result = .ok file ↔ Layout bytes file :=
  ⟨layout_of_read, read_of_layout⟩

end FontFile
end CompactFont
