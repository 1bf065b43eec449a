import Mathlib.Data.List.Induction
import CompactFont.Dict.Private
import CompactFont.Dict.Top
import CompactFont.Proofs.Dict.Grammar
import CompactFont.Proofs.Dict.Values

/-! Dictionaries say what the last entry of every key says, and hold their defaults where there is none. They are
decoded from entries whose operands have the form of their keys, and from nothing else. -/

namespace CompactFont

open Dict

/-! ### One entry -/

namespace Dict

/-- Setting a field to what operands of the right form mean. -/
theorem set_eq_ok_iff {α δ : Type} {read : Except Fault α} {Admitted : Prop} {value : α}
    (law : ∀ {found}, read = .ok found ↔ Admitted ∧ found = value) (put : α → δ) {result : δ} :
    (do let found ← read; return put found) = .ok result ↔ Admitted ∧ result = put value := by
  rw [bind_eq_ok_iff]
  constructor
  · rintro ⟨found, here, same⟩
    obtain ⟨admitted, rfl⟩ := law.1 here
    cases same
    exact ⟨admitted, rfl⟩
  · rintro ⟨admitted, rfl⟩
    exact ⟨value, law.2 ⟨admitted, rfl⟩, rfl⟩

/-- Setting a field to what any operands mean. -/
theorem pure_eq_ok_iff {δ : Type} {value result : δ} (operands : List Float) :
    (pure value : Except Fault δ) = .ok result ↔ Form.delta.Admits operands ∧ result = value := by
  constructor
  · intro same
    cases same
    exact ⟨trivial, rfl⟩
  · rintro ⟨_, rfl⟩
    rfl

section

variable {κ δ : Type} {code : κ → KeyCode} {form : κ → Form} {assign : δ → List Float → κ → Except Fault δ}
  {meaning : List (κ × List Float) → δ}

/-- What one entry more does: it is assigned if its operands have the form of its key. -/
def Extends (form : κ → Form) (assign : δ → List Float → κ → Except Fault δ)
    (meaning : List (κ × List Float) → δ) : Prop :=
  ∀ entries key operands result, assign (meaning entries) operands key = .ok result ↔
    (form key).Admits operands ∧ result = meaning (entries ++ [(key, operands)])

/-- Entries that are assigned one after the other. -/
theorem foldlM_eq_ok_iff (step : Extends form assign meaning) (entries : List (κ × List Float)) {result : δ} :
    entries.foldlM (fun dict entry => assign dict entry.2 entry.1) (meaning []) = .ok result ↔
      (∀ entry ∈ entries, (form entry.1).Admits entry.2) ∧ result = meaning entries := by
  induction entries using List.reverseRecOn generalizing result with
  | nil =>
    refine (pure_eq_ok_iff []).trans ⟨fun same => ?_, fun same => ⟨trivial, same.2⟩⟩
    exact ⟨List.forall_mem_nil _, same.2⟩
  | append_singleton entries last ih =>
    obtain ⟨key, operands⟩ := last
    have alone : [(key, operands)].foldlM (fun dict entry => assign dict entry.2 entry.1) (meaning entries) =
        assign (meaning entries) operands key := by
      simp only [List.foldlM_cons, List.foldlM_nil, bind_pure]
    rw [List.foldlM_append, bind_eq_ok_iff, List.forall_mem_append, List.forall_mem_singleton]
    constructor
    · rintro ⟨dict, front, back⟩
      obtain ⟨all, rfl⟩ := ih.1 front
      rw [alone, step] at back
      exact ⟨⟨all, back.1⟩, back.2⟩
    · rintro ⟨⟨all, admitted⟩, rfl⟩
      refine ⟨_, ih.2 ⟨all, rfl⟩, ?_⟩
      rw [alone, step]
      exact ⟨admitted, rfl⟩

/-- The key that is found for a code is the one with that code, if every key is found for its own. -/
theorem find?_eq_some_iff {all : List κ} (each : ∀ key, all.find? (code · == code key) = some key)
    {keyCode : KeyCode} {key : κ} : all.find? (code · == keyCode) = some key ↔ code key = keyCode := by
  constructor
  · intro found
    have same := List.find?_some found
    exact beq_iff_eq.1 same
  · rintro rfl
    exact each key

variable {ofCode? : KeyCode → Option κ} {refuse : KeyCode → Fault}
  {assignCode : KeyCode → List Float → δ → Except Fault δ}

/-- Entries are assigned by looking up the keys of their codes, and codes without a key are refused. -/
def LooksUp (ofCode? : KeyCode → Option κ) (refuse : KeyCode → Fault) (assign : δ → List Float → κ → Except Fault δ)
    (assignCode : KeyCode → List Float → δ → Except Fault δ) : Prop :=
  ∀ keyCode operands dict, assignCode keyCode operands dict =
    match ofCode? keyCode with
    | some key => assign dict operands key
    | none => .error (refuse keyCode)

/-- Decoding with a table of keys: what is decoded is made of entries for its keys, with operands of the right
form, and is what these entries mean. -/
theorem decode_keys_eq_ok_iff (valid : ∀ key, (code key).IsKey)
    (inverse : ∀ {keyCode key}, ofCode? keyCode = some key ↔ code key = keyCode) (step : Extends form assign meaning)
    (looks : LooksUp ofCode? refuse assign assignCode) {bytes : List UInt8} {result : δ} :
    decode assignCode [] (meaning []) bytes = .ok result ↔
      ∃ entries, Entries code bytes entries ∧ (∀ entry ∈ entries, (form entry.1).Admits entry.2) ∧
        result = meaning entries := by
  rw [decode_eq_ok_iff valid]
  · have own (key : κ) (operands : List Float) (dict : δ) :
        assignCode (code key) operands dict = assign dict operands key := by
      rw [looks, inverse.2 rfl]
    simp only [own, foldlM_eq_ok_iff step]
  · intro keyCode operands dict after assigned
    rw [looks] at assigned
    split at assigned
    next key found => exact ⟨key, inverse.1 found⟩
    next => cases assigned

end

end Dict

namespace TopDict

def Key.form : Key → Form
  | .version | .notice | .fullName | .familyName | .weight | .copyright | .postScript | .baseFontName => .stringId
  | .italicAngle | .underlinePosition | .underlineThickness | .paintType | .strokeWidth | .syntheticBase
  | .uniqueId => .number
  | .charstringType | .charset | .encoding | .charstrings => .offset
  | .isFixedPitch => .flag
  | .fontBox => .box
  | .fontMatrix => .matrix
  | .privateDict => .region
  | .baseFontBlend | .xuid => .delta

/-- The corners of a box. -/
def corners (operands : List Float) : Bounds :=
  ⟨⟨operandAt 0 operands, operandAt 1 operands⟩, ⟨operandAt 2 operands, operandAt 3 operands⟩⟩

/-- The coefficients of a matrix. -/
def coefficients (operands : List Float) : Affine :=
  ⟨operandAt 0 operands, operandAt 1 operands, operandAt 2 operands, operandAt 3 operands, operandAt 4 operands,
    operandAt 5 operands⟩

/-- What entries say, the last one of every key. -/
def ofEntries (entries : List (Key × List Float)) : TopDict :=
  let initial : TopDict := {}
  let number key := latest entries key (operandAt 0)
  let number? key := latest entries key (fun operands => some (operandAt 0 operands)) none
  let natural key := latest entries key (naturalAt 0)
  let natural? key := latest entries key (fun operands => some (naturalAt 0 operands)) none
  let delta? key := latest entries key (fun operands => some (descending operands)) none
  { version? := natural? .version
    notice? := natural? .notice
    copyright? := natural? .copyright
    fullName? := natural? .fullName
    familyName? := natural? .familyName
    weight? := natural? .weight
    isFixedPitch := latest entries .isFixedPitch (fun operands => operandAt 0 operands != 0.0) initial.isFixedPitch
    italicAngle := number .italicAngle initial.italicAngle
    underlinePosition := number .underlinePosition initial.underlinePosition
    underlineThickness := number .underlineThickness initial.underlineThickness
    paintType := number .paintType initial.paintType
    charstringType := natural .charstringType initial.charstringType
    fontMatrix := latest entries .fontMatrix coefficients initial.fontMatrix
    uniqueId? := number? .uniqueId
    fontBox := latest entries .fontBox corners initial.fontBox
    strokeWidth := number .strokeWidth initial.strokeWidth
    xuid? := delta? .xuid
    charset := natural .charset initial.charset
    encoding := natural .encoding initial.encoding
    charstrings? := natural? .charstrings
    privateDict? := latest entries .privateDict
      (fun operands => some (naturalAt 0 operands, naturalAt 1 operands)) none
    syntheticBase? := number? .syntheticBase
    postScript? := natural? .postScript
    baseFontName? := natural? .baseFontName
    baseFontBlend? := delta? .baseFontBlend }

theorem box_eq_ok_iff {operands : List Float} {found : Bounds} :
    box operands = .ok found ↔ Form.box.Admits operands ∧ found = corners operands := by
  constructor
  · intro read
    match operands with
    | [] | [_] | [_, _] | [_, _, _] | _ :: _ :: _ :: _ :: _ :: _ => cases read
    | [left, bottom, right, top] =>
      cases read
      exact ⟨rfl, rfl⟩
  · rintro ⟨four, rfl⟩
    match operands, four with
    | [left, bottom, right, top], _ => rfl

theorem matrix_eq_ok_iff {operands : List Float} {found : Affine} :
    matrix operands = .ok found ↔ Form.matrix.Admits operands ∧ found = coefficients operands := by
  constructor
  · intro read
    match operands with
    | [] | [_] | [_, _] | [_, _, _] | [_, _, _, _] | [_, _, _, _, _] | _ :: _ :: _ :: _ :: _ :: _ :: _ :: _ => cases read
    | [xx, xy, yx, yy, dx, dy] =>
      cases read
      exact ⟨rfl, rfl⟩
  · rintro ⟨six, rfl⟩
    match operands, six with
    | [xx, xy, yx, yy, dx, dy], _ => rfl

/-- One more entry sets the field of its key if its operands have the form of the key. -/
theorem assign_ofEntries : Extends Key.form assign ofEntries := by
  intro entries key operands result
  cases key with
  | version | notice | fullName | familyName | weight | copyright | postScript | baseFontName =>
    refine (set_eq_ok_iff stringId_eq_ok_iff _).trans ?_
    simp only [ofEntries, latest_append, reduceCtorEq, if_true, if_false, Key.form]
  | italicAngle | underlinePosition | underlineThickness | paintType | strokeWidth | syntheticBase | uniqueId =>
    refine (set_eq_ok_iff number_eq_ok_iff _).trans ?_
    simp only [ofEntries, latest_append, reduceCtorEq, if_true, if_false, Key.form]
  | charstringType | charset | encoding | charstrings =>
    refine (set_eq_ok_iff offset_eq_ok_iff _).trans ?_
    simp only [ofEntries, latest_append, reduceCtorEq, if_true, if_false, Key.form]
  | isFixedPitch =>
    refine (set_eq_ok_iff flag_eq_ok_iff _).trans ?_
    simp only [ofEntries, latest_append, reduceCtorEq, if_true, if_false, Key.form]
  | fontBox =>
    refine (set_eq_ok_iff box_eq_ok_iff _).trans ?_
    simp only [ofEntries, latest_append, reduceCtorEq, if_true, if_false, Key.form]
  | fontMatrix =>
    refine (set_eq_ok_iff matrix_eq_ok_iff _).trans ?_
    simp only [ofEntries, latest_append, reduceCtorEq, if_true, if_false, Key.form]
  | privateDict =>
    refine (set_eq_ok_iff region_eq_ok_iff _).trans ?_
    simp only [ofEntries, latest_append, reduceCtorEq, if_true, if_false, Key.form]
  | baseFontBlend | xuid =>
    refine (pure_eq_ok_iff operands).trans ?_
    simp only [ofEntries, latest_append, reduceCtorEq, if_true, if_false, Key.form, delta_eq_descending]

theorem Key.isKey_code (key : Key) : key.code.IsKey := by
  cases key <;> first | exact trivial | exact ⟨by decide, by decide⟩

theorem Key.ofCode?_eq_some_iff {code : KeyCode} {key : Key} : ofCode? code = some key ↔ key.code = code :=
  find?_eq_some_iff (by intro key; cases key <;> decide)

theorem looksUp_assignCode : LooksUp Key.ofCode? refuse assign assignCode := by
  intro keyCode operands dict
  rw [assignCode]
  cases Key.ofCode? keyCode <;> rfl

theorem ofBytes_eq_ok_iff {bytes : List UInt8} {dict : TopDict} :
    ofBytes bytes = .ok dict ↔
      ∃ entries, Entries Key.code bytes entries ∧ (∀ entry ∈ entries, entry.1.form.Admits entry.2) ∧
        dict = ofEntries entries ∧ dict.charstringType = 2 := by
  have decoded {found : TopDict} : decode assignCode [] {} bytes = .ok found ↔ _ :=
    decode_keys_eq_ok_iff Key.isKey_code Key.ofCode?_eq_some_iff assign_ofEntries looksUp_assignCode
  rw [ofBytes, bind_eq_ok_iff]
  constructor
  · rintro ⟨found, here, checked⟩
    obtain ⟨entries, form, admitted, rfl⟩ := decoded.1 here
    split at checked
    next two =>
      cases checked
      exact ⟨entries, form, admitted, rfl, two⟩
    next => cases checked
  · rintro ⟨entries, form, admitted, rfl, two⟩
    exact ⟨_, decoded.2 ⟨entries, form, admitted, rfl⟩, if_pos two⟩

end TopDict

namespace PrivateDict

def Key.form : Key → Form
  | .blueValues | .otherBlues | .familyBlues | .familyOtherBlues | .stemSnapH | .stemSnapV => .delta
  | .stdHW | .stdVW | .blueScale | .blueShift | .blueFuzz | .languageGroup | .expansionFactor | .initialRandomSeed
  | .defaultWidth | .nominalWidth => .number
  | .forceBold => .flag
  | .subroutines => .offset

/-- What entries say, the last one of every key. -/
def ofEntries (entries : List (Key × List Float)) : PrivateDict :=
  let initial : PrivateDict := {}
  let number key := latest entries key (operandAt 0)
  let number? key := latest entries key (fun operands => some (operandAt 0 operands)) none
  let delta? key := latest entries key (fun operands => some (descending operands)) none
  { blueValues? := delta? .blueValues
    otherBlues? := delta? .otherBlues
    familyBlues? := delta? .familyBlues
    familyOtherBlues? := delta? .familyOtherBlues
    blueScale := number .blueScale initial.blueScale
    blueShift := number .blueShift initial.blueShift
    blueFuzz := number .blueFuzz initial.blueFuzz
    stdHW? := number? .stdHW
    stdVW? := number? .stdVW
    stemSnapH? := delta? .stemSnapH
    stemSnapV? := delta? .stemSnapV
    forceBold := latest entries .forceBold (fun operands => operandAt 0 operands != 0.0) initial.forceBold
    languageGroup := number .languageGroup initial.languageGroup
    expansionFactor := number .expansionFactor initial.expansionFactor
    initialRandomSeed := number .initialRandomSeed initial.initialRandomSeed
    subroutines? := latest entries .subroutines (fun operands => some (naturalAt 0 operands)) none
    defaultWidth := number .defaultWidth initial.defaultWidth
    nominalWidth := number .nominalWidth initial.nominalWidth }

/-- One more entry sets the field of its key if its operands have the form of the key. -/
theorem assign_ofEntries : Extends Key.form assign ofEntries := by
  intro entries key operands result
  cases key with
  | blueValues | otherBlues | familyBlues | familyOtherBlues | stemSnapH | stemSnapV =>
    refine (pure_eq_ok_iff operands).trans ?_
    simp only [ofEntries, latest_append, reduceCtorEq, if_true, if_false, Key.form, delta_eq_descending]
  | stdHW | stdVW | blueScale | blueShift | blueFuzz | languageGroup | expansionFactor | initialRandomSeed
  | defaultWidth | nominalWidth =>
    refine (set_eq_ok_iff number_eq_ok_iff _).trans ?_
    simp only [ofEntries, latest_append, reduceCtorEq, if_true, if_false, Key.form]
  | forceBold =>
    refine (set_eq_ok_iff flag_eq_ok_iff _).trans ?_
    simp only [ofEntries, latest_append, reduceCtorEq, if_true, if_false, Key.form]
  | subroutines =>
    refine (set_eq_ok_iff offset_eq_ok_iff _).trans ?_
    simp only [ofEntries, latest_append, reduceCtorEq, if_true, if_false, Key.form]

theorem Key.isKey_code (key : Key) : key.code.IsKey := by
  cases key <;> first | exact trivial | exact ⟨by decide, by decide⟩

theorem Key.ofCode?_eq_some_iff {code : KeyCode} {key : Key} : ofCode? code = some key ↔ key.code = code :=
  find?_eq_some_iff (by intro key; cases key <;> decide)

theorem looksUp_assignCode : LooksUp Key.ofCode? refuse assign assignCode := by
  intro keyCode operands dict
  rw [assignCode]
  cases Key.ofCode? keyCode <;> rfl

theorem ofBytes_eq_ok_iff {bytes : List UInt8} {dict : PrivateDict} :
    ofBytes bytes = .ok dict ↔
      ∃ entries, Entries Key.code bytes entries ∧ (∀ entry ∈ entries, entry.1.form.Admits entry.2) ∧
        dict = ofEntries entries :=
  decode_keys_eq_ok_iff Key.isKey_code Key.ofCode?_eq_some_iff assign_ofEntries looksUp_assignCode

end PrivateDict

namespace Dict

/-- Both dictionaries are decoded from the bytes of entries and from no other bytes: every key is one of the
dictionary's own, the operands before it are as many and of the kind it takes, and none are left over. What is decoded
holds for every key what the last entry with it says. A Top DICT has to say in the end that the glyph programs are of
type 2. -/
theorem decoded_iff_entries (bytes : List UInt8) :
    (∀ dict, TopDict.ofBytes bytes = .ok dict ↔
      ∃ entries, Entries TopDict.Key.code bytes entries ∧ (∀ entry ∈ entries, entry.1.form.Admits entry.2) ∧
        dict = TopDict.ofEntries entries ∧ dict.charstringType = 2) ∧
    (∀ dict, PrivateDict.ofBytes bytes = .ok dict ↔
      ∃ entries, Entries PrivateDict.Key.code bytes entries ∧ (∀ entry ∈ entries, entry.1.form.Admits entry.2) ∧
        dict = PrivateDict.ofEntries entries) :=
  ⟨fun _ => TopDict.ofBytes_eq_ok_iff, fun _ => PrivateDict.ofBytes_eq_ok_iff⟩

end Dict
end CompactFont
