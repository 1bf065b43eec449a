import CompactFont.Charstring.Operator
import CompactFont.Number.Text
import CompactFont.Text.Quoted

/-! What can go wrong with a font, and how it is reported: a fault, and the stage of the work at which it
was met. -/

namespace CompactFont

open Charstring (Operator)

/-- Well-formed input that asks for something this library does not do. -/
inductive Feature where
  | flex
  | hflex
  | hflex1
  | flex1
  | random
  | accentedEndchar
  | cidKeyed (key : UInt8)
  | charstringType (value : Nat)
deriving DecidableEq, Repr

def Feature.text : Feature → String
  | .flex => "Flex"
  | .hflex => "HFlex"
  | .hflex1 => "HFlex1"
  | .flex1 => "Flex1"
  | .random => "Random"
  | .accentedEndchar => "AccentedEndChar"
  | .cidKeyed key => "CidKeyedFont \x7b op: " ++ toString key.toNat ++ " \x7d"
  | .charstringType value => s!"CharstringType({value})"

inductive IndexFault where
  | firstOffset
  | descending
  | noFontName
  | noTopDict
deriving DecidableEq, Repr

def IndexFault.text : IndexFault → String
  | .firstOffset => "first offset must be 1"
  | .descending => "offsets are not ascending"
  | .noFontName => "the Name INDEX is empty"
  | .noTopDict => "the Top DICT INDEX is empty"

inductive CharsetFault where
  | beyondIsoAdobe
  | beyondPredefined
  | beyondLastSid (first : Nat)
deriving DecidableEq, Repr

def CharsetFault.text : CharsetFault → String
  | .beyondIsoAdobe => "more glyphs than the ISOAdobe charset"
  | .beyondPredefined => "more glyphs than the predefined charset"
  | .beyondLastSid first => s!"range starting at SID {first} runs past 65535"

inductive DictFault where
  | operandCount (expected found : Nat)
  | stringId (found : Float)
  | offset (found : Float)
  | leftover (count : Nat)
  | malformedReal (spelling : String)
deriving Repr

def DictFault.text : DictFault → String
  | .operandCount expected found => s!"expected {expected} operands, found {found}"
  | .stringId found => "expected a string id, found " ++ Number.text found
  | .offset found => "expected an offset, found " ++ Number.text found
  | .leftover count => s!"{count} operands left without a key"
  | .malformedReal spelling => "malformed real number " ++ Text.quoted spelling

inductive GlyphFault where
  | operandCount (count : Nat) (op : Operator)
  | beforeMove (op : Operator)
  | underflow
  | divisionByZero
  | squareRoot (operand : Float)
  | notIndex (operand : Float)
  | unsetSlot (slot : Int)
  | indexBeyond (index size : Nat)
  | rollBeyond (count : Int) (size : Nat)
  | noLocalSubroutines
  | subroutineBeyond (index : Int) (size : Nat)
  | nestedDeeper (limit : Nat)
  | returnOutside
  | noEndchar
  | leftover (count : Nat)
  | maskWithoutHints
deriving Repr

def GlyphFault.text : GlyphFault → String
  | .operandCount count op => s!"{count} operands for " ++ op.mnemonic
  | .beforeMove op => op.mnemonic ++ " before any moveto"
  | .underflow => "stack underflow"
  | .divisionByZero => "division by zero"
  | .squareRoot operand => "square root of " ++ Number.text operand
  | .notIndex operand => Number.text operand ++ " is not an index"
  | .unsetSlot slot => s!"get of unset transient slot {slot}"
  | .indexBeyond index size => s!"index {index} into a stack of {size}"
  | .rollBeyond count size => s!"roll of {count} elements in a stack of {size}"
  | .noLocalSubroutines => "callsubr without local subroutines"
  | .subroutineBeyond index size => s!"subroutine {index} out of range ({size} subroutines)"
  | .nestedDeeper limit => s!"subroutines nested deeper than {limit}"
  | .returnOutside => "return outside of a subroutine"
  | .noEndchar => "charstring ended without endchar"
  | .leftover count => s!"{count} operands left at endchar"
  | .maskWithoutHints => "hint masks cannot be tokenized without interpreting stem hints"

inductive Fault where
  | markerNotFound
  | endOfData
  | version (major : UInt8)
  | headerSize (size : UInt8)
  | offsetSize (size : UInt8)
  | index (fault : IndexFault)
  | charsetFormat (format : UInt8)
  | charset (fault : CharsetFault)
  | unknownStringId (sid : Nat)
  | noCharstrings
  | unknownKey (code : UInt8) (escaped? : Option UInt8)
  | reservedOperator (code : UInt8) (escaped? : Option UInt8)
  | reservedNibble (nibble : Nat)
  | duplicateName (name : String)
  | dict (fault : DictFault)
  | glyph (fault : GlyphFault)
  | unsupported (feature : Feature)
deriving Repr

namespace Fault

/-- One code, or an escape and a code. -/
def codeText (code : UInt8) : Option UInt8 → String
  | none => toString code.toNat
  | some second => toString code.toNat ++ " " ++ toString second.toNat

def text : Fault → String
  | .markerNotFound => "StartData marker not found"
  | .endOfData => "unexpected end of data"
  | .version major => "unsupported CFF major version " ++ toString major.toNat
  | .headerSize size => "unsupported CFF header size " ++ toString size.toNat
  | .offsetSize size => "invalid offsize: " ++ toString size.toNat
  | .index fault => "broken INDEX: " ++ fault.text
  | .charsetFormat format => "invalid charset format: " ++ toString format.toNat
  | .charset fault => "broken charset: " ++ fault.text
  | .unknownStringId sid => s!"unknown string id {sid}"
  | .noCharstrings => "top dict has no CharStrings offset"
  | .unknownKey code escaped? => "unknown dict operator " ++ codeText code escaped?
  | .reservedOperator code escaped? => "reserved charstring operator " ++ codeText code escaped?
  | .reservedNibble nibble => s!"reserved real number nibble {nibble}"
  | .duplicateName name => "glyph name " ++ Text.quoted name ++ " is mapped more than once"
  | .dict fault => "broken dict: " ++ fault.text
  | .glyph fault => "broken glyph: " ++ fault.text
  | .unsupported feature => "unsupported: " ++ feature.text

def isUnsupported : Fault → Bool
  | .unsupported _ => true
  | _ => false

end Fault

/-- What was being done when a fault was met. -/
inductive Stage where
  | nameIndex
  | topDictIndex
  | topDict
  | stringIndex
  | globalSubroutines
  | charstrings
  | charset
  | privateDict
  | localSubroutines
  | fullName
  | glyph (index : Nat) (name : String)
deriving DecidableEq, Repr

def Stage.text : Stage → String
  | .nameIndex => "reading the Name INDEX"
  | .topDictIndex => "reading the Top DICT INDEX"
  | .topDict => "reading the Top DICT"
  | .stringIndex => "reading the String INDEX"
  | .globalSubroutines => "reading the global subroutines"
  | .charstrings => "reading the CharStrings INDEX"
  | .charset => "reading the charset"
  | .privateDict => "reading the Private DICT"
  | .localSubroutines => "reading the local subroutines"
  | .fullName => "resolving FullName"
  | .glyph index name => s!"interpreting glyph {index} ({name})"

/-- A fault, and the stage at which it was met if the fault alone does not tell. -/
structure Failure where
  stage? : Option Stage := none
  fault : Fault
deriving Repr

def Failure.text (failure : Failure) : String :=
  match failure.stage? with
  | some stage => stage.text ++ ": " ++ failure.fault.text
  | none => failure.fault.text

/-- A stage that ends well hands on what it gives. -/
theorem ok_bind {ε α β : Type} (value : α) (next : α → Except ε β) : (.ok value >>= next) = next value := rfl

theorem eq_ok_of_toOption {ε α : Type} {found : Except ε α} {value : α} (same : found.toOption = some value) :
    found = .ok value := by
  cases found with
  | error fault => cases same
  | ok other =>
    cases same
    rfl

/-- Two stages end well if the first does and the second does with what it gives. -/
theorem bind_eq_ok_iff {ε α β : Type} {first : Except ε α} {next : α → Except ε β} {found : β} :
    (first >>= next) = .ok found ↔ ∃ value, first = .ok value ∧ next value = .ok found := by
  cases first with
  | error fault => exact ⟨nofun, nofun⟩
  | ok value =>
    constructor
    · intro later
      exact ⟨value, rfl, later⟩
    · intro ⟨_, same, later⟩
      cases same
      exact later

theorem return_eq_ok_iff {ε α : Type} {value found : α} : (pure value : Except ε α) = .ok found ↔ found = value := by
  constructor
  · intro same
    cases same
    rfl
  · intro same
    rw [same]
    rfl

/-- Two stages fail if the first does or the second does with what it gives. -/
theorem bind_eq_error_iff {ε α β : Type} {first : Except ε α} {next : α → Except ε β} {fault : ε} :
    (first >>= next) = .error fault ↔
      first = .error fault ∨ ∃ value, first = .ok value ∧ next value = .error fault := by
  cases first with
  | error other =>
    constructor
    · intro same
      cases same
      exact .inl rfl
    · rintro (same | ⟨_, absent, _⟩)
      · cases same
        rfl
      · cases absent
  | ok value =>
    constructor
    · intro later
      exact .inr ⟨value, rfl, later⟩
    · rintro (absent | ⟨_, same, later⟩)
      · cases absent
      · cases same
        exact later

/-- A result whose fault, if it fails, is of this kind. -/
def FailsWith {ε α : Type} (kind : ε → Prop) (result : Except ε α) : Prop :=
  ∀ fault, result = .error fault → kind fault

section FailsWith

variable {ε α β : Type} {kind : ε → Prop}

theorem failsWith_ok (value : α) : FailsWith kind (.ok value) := nofun

theorem failsWith_error {fault : ε} (blamed : kind fault) : FailsWith kind (.error fault : Except ε α) := by
  intro other same
  cases same
  exact blamed

theorem failsWith_bind {first : Except ε α} {next : α → Except ε β} (start : FailsWith kind first)
    (later : ∀ value, FailsWith kind (next value)) : FailsWith kind (first >>= next) := by
  intro fault fails
  rcases bind_eq_error_iff.1 fails with failed | ⟨value, _, failed⟩
  · exact start fault failed
  · exact later value fault failed

theorem failsWith_map {result : Except ε α} (f : α → β) (start : FailsWith kind result) :
    FailsWith kind (result.map f) := by
  cases result with
  | ok value => exact failsWith_ok _
  | error fault => exact failsWith_error (start fault rfl)

end FailsWith

end CompactFont
