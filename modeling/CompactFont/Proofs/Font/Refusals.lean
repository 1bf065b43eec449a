import CompactFont.Proofs.Charset.Expansion
import CompactFont.Proofs.Charstring.Refusals
import CompactFont.Proofs.Font.Leniency

/-! What a font is refused for. Its own data can ask for two features that are not supported, glyphs chosen by number and
programs of another type; all others are asked for by glyph programs, and leave out glyphs where that is allowed. -/

namespace CompactFont

theorem failsWith_parse {α : Type} {kind : Fault → Prop} {reader : Reader α} (reads : reader.FailsWith kind)
    (bytes : List UInt8) :
    FailsWith kind (reader.parse bytes) := by
  intro fault fails
  unfold Reader.parse at fails
  split at fails
  next => cases fails
  next other rest failed =>
    cases fails
    exact reads _ _ _ failed

/-- The faults of a font that are not faults of its glyph programs. -/
def Fault.OfFont : Fault → Prop
  | .unsupported (.cidKeyed _) | .unsupported (.charstringType _) => True
  | .unsupported _ => False
  | _ => True

theorem Fault.ofFont_endOfData : OfFont .endOfData := trivial

theorem Fault.ofFont_of_plain {fault : Fault} (plain : fault.isUnsupported = false) : fault.OfFont := by
  cases fault with
  | unsupported => cases plain
  | _ => trivial

def Failure.OfFont (failure : Failure) : Prop := failure.fault.OfFont

/-! ### Dictionaries -/

namespace Dict

theorem failsWith_spelling (written : List Char) : (spelling written).FailsWith Fault.OfFont := by
  intro bytes
  induction bytes generalizing written with
  | nil =>
    intro fault rest fails
    cases fails
    trivial
  | cons b bytes ih =>
    intro fault rest fails
    unfold spelling at fails
    dsimp only at fails
    split at fails
    · cases fails
    · cases fails
      trivial
    · split at fails
      · cases fails
      · cases fails
        trivial
      · exact ih _ fault rest fails

theorem failsWith_real : real.FailsWith Fault.OfFont := by
  refine Reader.failsWith_bind (failsWith_spelling []) fun characters => ?_
  split
  · exact Reader.failsWith_pure _
  · exact Reader.failsWith_throw trivial

theorem Lexeme.failsWith_after (lead : UInt8) : (after lead).FailsWith Fault.OfFont := by
  unfold after
  split
  · exact Reader.failsWith_bind (Reader.failsWith_byte Fault.ofFont_endOfData) fun _ => Reader.failsWith_pure _
  split
  · exact Reader.failsWith_pure _
  split
  · exact Reader.failsWith_bind (Reader.failsWith_signed Fault.ofFont_endOfData 2) fun _ => Reader.failsWith_pure _
  split
  · exact Reader.failsWith_bind (Reader.failsWith_signed Fault.ofFont_endOfData 4) fun _ => Reader.failsWith_pure _
  split
  · exact Reader.failsWith_bind failsWith_real fun _ => Reader.failsWith_pure _
  split
  · exact Reader.failsWith_bind (Reader.failsWith_shortInteger Fault.ofFont_endOfData lead)
      fun _ => Reader.failsWith_pure _
  · exact Reader.failsWith_throw trivial

theorem failsWith_decode {δ : Type} {assign : KeyCode → List Float → δ → Except Fault δ}
    (assigns : ∀ code operands dict, FailsWith Fault.OfFont (assign code operands dict)) (pending : List Float)
    (dict : δ) (bytes : List UInt8) : FailsWith Fault.OfFont (decode assign pending dict bytes) := by
  fun_induction decode assign pending dict bytes with
  | case1 => exact failsWith_ok _
  | case2 => exact failsWith_error trivial
  | case3 pending dict lead bytes fault rest failed => exact failsWith_error (Lexeme.failsWith_after lead _ _ _ failed)
  | case4 pending dict lead bytes x rest _ ih => exact ih
  | case5 pending dict lead bytes code rest _ fault failed =>
    have failed : assign code pending.reverse dict = .error fault := by simpa using failed
    rw [failed]
    exact failsWith_error (assigns _ _ _ _ failed)
  | case6 pending dict lead bytes code rest _ after assigned ih =>
    have assigned : assign code pending.reverse dict = .ok after := by simpa using assigned
    rw [assigned]
    exact ih

theorem failsWith_number (operands : List Float) : FailsWith Fault.OfFont (number operands) := by
  unfold number
  split
  · exact failsWith_ok _
  · exact failsWith_error trivial

theorem failsWith_flag (operands : List Float) : FailsWith Fault.OfFont (flag operands) :=
  failsWith_map _ (failsWith_number operands)

theorem failsWith_toStringId (x : Float) : FailsWith Fault.OfFont (toStringId x) := by
  unfold toStringId
  split
  · exact failsWith_ok _
  · exact failsWith_error trivial

theorem failsWith_stringId (operands : List Float) : FailsWith Fault.OfFont (stringId operands) :=
  failsWith_bind (failsWith_number operands) failsWith_toStringId

theorem failsWith_toOffset (x : Float) : FailsWith Fault.OfFont (toOffset x) := by
  unfold toOffset
  split
  · exact failsWith_ok _
  · exact failsWith_error trivial

theorem failsWith_offset (operands : List Float) : FailsWith Fault.OfFont (offset operands) :=
  failsWith_bind (failsWith_number operands) failsWith_toOffset

theorem failsWith_region (operands : List Float) : FailsWith Fault.OfFont (region operands) := by
  unfold region
  split
  · exact failsWith_bind (failsWith_toOffset _) fun _ => failsWith_bind (failsWith_toOffset _) fun _ => failsWith_ok _
  · exact failsWith_error trivial

end Dict

namespace TopDict

open Dict

theorem failsWith_box (operands : List Float) : FailsWith Fault.OfFont (box operands) := by
  unfold box
  split
  · exact failsWith_ok _
  · exact failsWith_error trivial

theorem failsWith_matrix (operands : List Float) : FailsWith Fault.OfFont (matrix operands) := by
  unfold matrix
  split
  · exact failsWith_ok _
  · exact failsWith_error trivial

theorem failsWith_assign (dict : TopDict) (operands : List Float) (key : Key) :
    FailsWith Fault.OfFont (dict.assign operands key) := by
  cases key
  case fontBox => exact failsWith_bind (failsWith_box operands) fun _ => failsWith_ok _
  case fontMatrix => exact failsWith_bind (failsWith_matrix operands) fun _ => failsWith_ok _
  case isFixedPitch => exact failsWith_bind (failsWith_flag operands) fun _ => failsWith_ok _
  case privateDict => exact failsWith_bind (failsWith_region operands) fun _ => failsWith_ok _
  case baseFontBlend | xuid => exact failsWith_ok _
  case charstringType | charset | encoding | charstrings =>
    exact failsWith_bind (failsWith_offset operands) fun _ => failsWith_ok _
  case italicAngle | underlinePosition | underlineThickness | paintType | strokeWidth | syntheticBase | uniqueId =>
    exact failsWith_bind (failsWith_number operands) fun _ => failsWith_ok _
  case version | notice | fullName | familyName | weight | copyright | postScript | baseFontName =>
    exact failsWith_bind (failsWith_stringId operands) fun _ => failsWith_ok _

theorem ofFont_refuse (code : KeyCode) : (refuse code).OfFont := by
  unfold refuse
  split
  · trivial
  · split <;> trivial

theorem failsWith_ofBytes (bytes : List UInt8) : FailsWith Fault.OfFont (ofBytes bytes) := by
  refine failsWith_bind (failsWith_decode ?_ [] _ bytes) fun dict => ?_
  · intro code operands dict
    unfold assignCode
    split
    · exact failsWith_assign dict operands _
    · exact failsWith_error (ofFont_refuse code)
  · split
    · exact failsWith_ok _
    · exact failsWith_error trivial

end TopDict

namespace PrivateDict

open Dict

theorem failsWith_assign (dict : PrivateDict) (operands : List Float) (key : Key) :
    FailsWith Fault.OfFont (dict.assign operands key) := by
  cases key
  case forceBold => exact failsWith_bind (failsWith_flag operands) fun _ => failsWith_ok _
  case subroutines => exact failsWith_bind (failsWith_offset operands) fun _ => failsWith_ok _
  case blueValues | otherBlues | familyBlues | familyOtherBlues | stemSnapH | stemSnapV => exact failsWith_ok _
  case stdHW | stdVW | blueScale | blueShift | blueFuzz | languageGroup | expansionFactor | initialRandomSeed
      | defaultWidth | nominalWidth =>
    exact failsWith_bind (failsWith_number operands) fun _ => failsWith_ok _

theorem failsWith_ofBytes (bytes : List UInt8) : FailsWith Fault.OfFont (ofBytes bytes) := by
  apply failsWith_decode
  intro code operands dict
  unfold assignCode
  split
  · exact failsWith_assign dict operands _
  · apply failsWith_error
    cases code <;> trivial

end PrivateDict

/-! ### Files -/

namespace Index

theorem failsWith_readData (offsetSize : UInt8) (offsets : List Nat) :
    (readData offsetSize offsets).FailsWith Fault.OfFont := by
  unfold readData
  split
  · exact Reader.failsWith_throw trivial
  split
  · exact Reader.failsWith_throw trivial
  · exact Reader.failsWith_bind (Reader.failsWith_slice Fault.ofFont_endOfData _) fun _ => Reader.failsWith_pure _

theorem failsWith_read : read.FailsWith Fault.OfFont := by
  refine Reader.failsWith_bind (Reader.failsWith_unsigned Fault.ofFont_endOfData 2) fun count => ?_
  split
  · exact Reader.failsWith_pure _
  · refine Reader.failsWith_bind (Reader.failsWith_byte Fault.ofFont_endOfData) fun offsetSize => ?_
    have each := Reader.failsWith_offset Fault.ofFont_endOfData offsetSize trivial
    exact Reader.failsWith_bind (Reader.failsWith_times each _) fun offsets => failsWith_readData offsetSize offsets

end Index

namespace Charset

theorem failsWith_readRanges {following : Reader Nat} (follows : following.FailsWith Fault.OfFont) (remaining : Nat) :
    (readRanges following remaining).FailsWith Fault.OfFont := by
  fun_induction readRanges following remaining with
  | case1 => exact Reader.failsWith_pure _
  | case2 remaining ih =>
    refine Reader.failsWith_bind (Reader.failsWith_unsigned Fault.ofFont_endOfData 2) fun first => ?_
    refine Reader.failsWith_bind follows fun count => ?_
    exact Reader.failsWith_bind (ih count) fun _ => Reader.failsWith_pure _

theorem failsWith_read (glyphs : Nat) : (read glyphs).FailsWith Fault.OfFont := by
  have field (width : Nat) := Reader.failsWith_unsigned Fault.ofFont_endOfData width
  refine Reader.failsWith_bind (Reader.failsWith_byte Fault.ofFont_endOfData) fun format => ?_
  unfold readFormat
  split
  · exact Reader.failsWith_bind (Reader.failsWith_times (field 2) _) fun _ => Reader.failsWith_pure _
  · exact Reader.failsWith_bind (failsWith_readRanges (field 1) _) fun _ => Reader.failsWith_pure _
  · exact Reader.failsWith_bind (failsWith_readRanges (field 2) _) fun _ => Reader.failsWith_pure _
  · exact Reader.failsWith_throw trivial

end Charset

namespace FontFile

theorem failsWith_during {α : Type} {result : Except Fault α} (stage : Stage) (start : FailsWith Fault.OfFont result) :
    FailsWith Failure.OfFont (during stage result) := by
  cases result with
  | ok value => exact failsWith_ok _
  | error fault => exact failsWith_error (start fault rfl)

theorem failsWith_bare {α : Type} {result : Except Fault α} (start : FailsWith Fault.OfFont result) :
    FailsWith Failure.OfFont (bare result) := by
  cases result with
  | ok value => exact failsWith_ok _
  | error fault => exact failsWith_error (start fault rfl)

theorem failsWith_header : Header.read.FailsWith Fault.OfFont := by
  have byte := Reader.failsWith_byte Fault.ofFont_endOfData
  refine Reader.failsWith_bind byte fun major => Reader.failsWith_bind byte fun minor => ?_
  refine Reader.failsWith_bind byte fun size => Reader.failsWith_bind byte fun offsetSize => ?_
  split
  · exact Reader.failsWith_throw trivial
  split
  · exact Reader.failsWith_throw trivial
  · exact Reader.failsWith_pure _

theorem failsWith_readAt {α : Type} {reader : Reader α} (stage : Stage) (reads : reader.FailsWith Fault.OfFont)
    (bytes : List UInt8) (offset : Nat) : FailsWith Failure.OfFont (readAt stage reader bytes offset) :=
  failsWith_map _ (failsWith_during stage (failsWith_parse reads _))

theorem failsWith_firstTopDict (topDicts : Index) : FailsWith Failure.OfFont (firstTopDict topDicts) := by
  unfold firstTopDict
  split
  · exact failsWith_ok _
  · exact failsWith_error trivial

theorem failsWith_readCharstrings (bytes : List UInt8) (topDict : TopDict) :
    FailsWith Failure.OfFont (readCharstrings bytes topDict) := by
  unfold readCharstrings
  split
  · exact failsWith_readAt _ Index.failsWith_read bytes _
  · exact failsWith_error trivial

theorem failsWith_readCharset (bytes : List UInt8) (topDict : TopDict) (glyphs : Nat) :
    FailsWith Failure.OfFont (readCharset bytes topDict glyphs) := by
  unfold readCharset
  split
  · exact failsWith_ok _
  · exact failsWith_readAt _ (Charset.failsWith_read glyphs) bytes _

theorem failsWith_region (bytes : List UInt8) (start length : Nat) :
    FailsWith Fault.OfFont (Source.region bytes start length) := by
  unfold Source.region
  split
  · exact failsWith_ok _
  · exact failsWith_error trivial

theorem failsWith_readLocals (bytes : List UInt8) (start : Nat) (dict : PrivateDict) :
    FailsWith Failure.OfFont (readLocals bytes start dict) := by
  unfold readLocals
  split
  · exact failsWith_map _ (failsWith_readAt _ Index.failsWith_read bytes _)
  · exact failsWith_ok _

theorem failsWith_readPrivate (bytes : List UInt8) (topDict : TopDict) :
    FailsWith Failure.OfFont (readPrivate bytes topDict) := by
  unfold readPrivate
  split
  · refine failsWith_bind (failsWith_bare (failsWith_region bytes _ _)) fun data => ?_
    refine failsWith_bind (failsWith_during _ (PrivateDict.failsWith_ofBytes data)) fun dict => ?_
    exact failsWith_bind (failsWith_readLocals bytes _ dict) fun _ => failsWith_ok _
  · exact failsWith_ok _

theorem failsWith_read (bytes : List UInt8) : FailsWith Failure.OfFont (read bytes).result := by
  have index (stage : Stage) (rest : List UInt8) :=
    failsWith_during stage (failsWith_parse Index.failsWith_read rest)
  simp only [read, Logged.result_bind, Logged.result_quiet, Logged.result_note, Logged.result_noteIf,
    Logged.result_pure, ok_bind]
  refine failsWith_bind (failsWith_bare (failsWith_parse failsWith_header bytes)) ?_
  rintro ⟨header, rest⟩
  refine failsWith_bind (index .nameIndex rest) ?_
  rintro ⟨names, rest⟩
  refine failsWith_bind (index .topDictIndex rest) ?_
  rintro ⟨topDicts, rest⟩
  refine failsWith_bind (failsWith_firstTopDict topDicts) fun data => ?_
  refine failsWith_bind (failsWith_during .topDict (TopDict.failsWith_ofBytes data)) fun topDict => ?_
  refine failsWith_bind (index .stringIndex rest) ?_
  rintro ⟨strings, rest⟩
  refine failsWith_bind (index .globalSubroutines rest) ?_
  rintro ⟨globals, _⟩
  refine failsWith_bind (failsWith_readCharstrings bytes topDict) fun charstrings => ?_
  refine failsWith_bind (failsWith_readCharset bytes topDict charstrings.count) fun charset => ?_
  exact failsWith_bind (failsWith_readPrivate bytes topDict) fun _ => failsWith_ok _

end FontFile

/-! ### Fonts -/

namespace Font

open Charstring (Asks Outline)

theorem failsWith_data (bytes : List UInt8) : FailsWith Failure.OfFont (FontSet.data bytes).result := by
  unfold FontSet.data
  split
  · exact failsWith_ok _
  · exact failsWith_error trivial

theorem failsWith_get (strings : SidTable) (sid : Nat) : FailsWith Fault.OfFont (strings.get sid) := by
  unfold SidTable.get
  split
  · exact failsWith_ok _
  · exact failsWith_error trivial

theorem failsWith_resolveNames (strings : SidTable) (seen : Std.HashSet String) (sids : List Nat) :
    FailsWith Fault.OfFont (resolveNames strings seen sids) := by
  induction sids generalizing seen with
  | nil => exact failsWith_ok _
  | cons sid sids ih =>
    refine failsWith_bind (failsWith_get strings sid) fun name => ?_
    split
    · exact failsWith_error trivial
    · exact failsWith_bind (ih _) fun _ => failsWith_ok _

theorem failsWith_resolveName (file : FontFile) : FailsWith Failure.OfFont (resolveName file) := by
  unfold resolveName
  split
  · exact failsWith_ok _
  · exact failsWith_error trivial

theorem failsWith_resolveFullName (file : FontFile) (strings : SidTable) (name : String) :
    FailsWith Failure.OfFont (resolveFullName file strings name) := by
  unfold resolveFullName
  split
  · exact FontFile.failsWith_during _ (failsWith_get strings _)
  · exact failsWith_ok _

/-- Where glyphs may be left out, those that are not fail as broken ones. -/
theorem failsWith_outcomes {options : Options} (skips : options.skipUnsupported = true) (file : FontFile)
    (drafts : List Draft) : FailsWith Failure.OfFont (outcomes options file drafts) := by
  intro failure failed
  obtain ⟨place, draft, _, refused, _⟩ := outcomes_eq_error_iff.1 failed
  obtain ⟨stuck, fault, ran, rfl⟩ := outcome_eq_error_iff.1 refused
  apply Fault.ofFont_of_plain
  rw [Passes, ran] at stuck
  apply Bool.eq_false_iff.2
  intro unsupported
  exact stuck ⟨skips, unsupported⟩

theorem failsWith_decode {options : Options} (skips : options.skipUnsupported = true) (bytes : List UInt8) :
    FailsWith Failure.OfFont (decode options bytes).result := by
  simp only [decode, ofFile, Logged.result_bind, Logged.result_quiet, Logged.result_note, Logged.result_pure, ok_bind]
  refine failsWith_bind (failsWith_data bytes) fun data => ?_
  refine failsWith_bind (FontFile.failsWith_read data) fun file => ?_
  refine failsWith_bind (failsWith_resolveName file) fun name => ?_
  refine failsWith_bind (failsWith_resolveFullName file _ name) fun fullName => ?_
  refine failsWith_bind (FontFile.failsWith_bare (Charset.failsWith_sids (fun _ => trivial) _ _)) fun sids => ?_
  refine failsWith_bind (FontFile.failsWith_bare (failsWith_resolveNames _ _ sids)) fun names => ?_
  exact failsWith_bind (failsWith_outcomes skips file _) fun _ => failsWith_ok _

/-- A program that passes has no glyph if and only if its run comes to an operator that asks for a feature. -/
theorem Passes.exists_fault_iff {options : Options} {file : FontFile} {program : List UInt8}
    (passes : Passes options file program) :
    (∃ fault, evaluate options file program = .error fault) ↔
      ∃ feature, Asks (context options file) (nominal file) program feature := by
  constructor
  · rintro ⟨fault, ran⟩
    rw [Passes, ran] at passes
    cases fault with
    | unsupported feature => exact ⟨feature, Outline.ofProgram_eq_unsupported_iff.1 ((evaluate_eq ..).symm.trans ran)⟩
    | _ => cases passes.2
  · rintro ⟨feature, asks⟩
    exact ⟨_, (evaluate_eq ..).trans (Outline.ofProgram_eq_unsupported_iff.2 asks)⟩

/-- A glyph program that fails is broken or asks for one of six features, and it does the latter if and only if its run comes
to an operator that asks for the feature. So where glyphs may be left out, a font is refused as unsupported only for what
its own data ask for, and the glyphs that are left out are those of the programs that come to such an operator. -/
theorem unsupported_iff_asks :
    (∀ (context : Charstring.Context) (nominal : Float) (program : List UInt8),
      (∀ fault, (Outline.ofProgram context nominal program).result = .error fault →
        fault.Broken ∨ ∃ feature ∈ Charstring.Feature.ofGlyphs, fault = .unsupported feature) ∧
      ∀ feature, (Outline.ofProgram context nominal program).result = .error (.unsupported feature) ↔
        Asks context nominal program feature) ∧
    ∀ (options : Options) (bytes : List UInt8), options.skipUnsupported = true →
      (∀ failure feature, (decode options bytes).result = .error failure → failure.fault = .unsupported feature →
        (∃ key, feature = .cidKeyed key) ∨ ∃ value, feature = .charstringType value) ∧
      ∀ font, (decode options bytes).result = .ok font → ∃ file names, Ready bytes file names ∧
        font.glyphs = (List.range file.charstrings.count).filterMap font.glyphAt? ∧
        ∀ index < file.charstrings.count, ∃ program, file.charstrings.get? index = some program ∧
          (font.glyphAt? index = none ↔ ∃ feature, Asks (context options file) (nominal file) program feature) := by
  constructor
  · intro context nominal program
    constructor
    · intro fault failed
      exact Outline.ofProgram_eq_error failed
    · intro feature
      exact Outline.ofProgram_eq_unsupported_iff
  · intro options bytes skips
    constructor
    · intro failure feature failed same
      have blamed : failure.fault.OfFont := failsWith_decode skips bytes failure failed
      rw [same] at blamed
      cases feature with
      | cidKeyed key => exact .inl ⟨key, rfl⟩
      | charstringType value => exact .inr ⟨value, rfl⟩
      | _ => cases blamed
    · intro font decoded
      obtain ⟨data, marked, file, read, made⟩ := decode_eq_ok_iff.1 decoded
      obtain ⟨fontName, fullName, sids, names, prepared⟩ := prepared_of_ofFile made
      obtain ⟨passes, rfl⟩ := (ofFile_eq_ok_iff prepared).1 made
      have labelled := prepared.labelled (FontFile.layout_of_read read)
      have faithful : Faithful options file names (assembled options file fontName fullName sids names) :=
        faithful_assembled labelled passes
      refine ⟨file, names, ⟨data, fontName, fullName, sids, marked, read, prepared⟩, ?_, ?_⟩
      · rw [funext faithful.byIndex]
        exact faithful.glyphs
      · intro index lt
        obtain ⟨program, there, passes⟩ := faithful.passes index lt
        refine ⟨program, there, ?_⟩
        have passes : Passes options file program := passes_iff.2 passes
        rw [faithful.leftOut, ← passes.exists_fault_iff]
        constructor
        · rintro (beyond | ⟨_, fault, same, failed⟩)
          · omega
          · cases there.symm.trans same
            exact ⟨fault, failed⟩
        · rintro ⟨fault, failed⟩
          exact .inr ⟨program, fault, there, failed⟩

/-- The second glyph of a font asks for an accented letter, so the font is decoded without it. -/
theorem unsupported_iff_asks_accented :
    let options : Options := { skipUnsupported := true }
    ((Outline.ofProgram {} 0.0 [12, 23]).result = .error (.unsupported .random) ∧ Asks {} 0.0 [12, 23] .random) ∧
    ∃ font, (decode options (FontSet.marker ++ 32 :: accented)).result = .ok font ∧
      accentedFile.charstrings.get? 1 = some [139, 139, 139, 139, 14] ∧ font.glyphAt? 1 = none ∧
      ∃ feature, Asks (context options accentedFile) (nominal accentedFile) [139, 139, 139, 139, 14] feature := by
  intro options
  constructor
  · have fails : Charstring.Machine.step {} (.start 0.0 [12, 23]) = .failed (.unsupported .random) := rfl
    have refused : (Outline.ofProgram {} 0.0 [12, 23]).result = .error (.unsupported .random) := by
      rw [Outline.ofProgram_eq_error_iff, Charstring.Machine.run_of_failed fails]
    exact ⟨refused, ((unsupported_iff_asks.1 {} 0.0 [12, 23]).2 .random).1 refused⟩
  · have ready := ready_accented
    obtain ⟨data, fontName, fullName, sids, marked, read, prepared⟩ := ready
    have passes : ∀ program ∈ accentedFile.charstrings.items, Passes options accentedFile program := by decide +kernel
    have decoded := decode_eq_assembled marked read prepared passes
    have second : accentedFile.charstrings.get? 1 = some [139, 139, 139, 139, 14] := by decide +kernel
    -- what a program comes to is the same whether or not glyphs may be left out
    have refused : ¬ Passes {} accentedFile [139, 139, 139, 139, 14] := by decide +kernel
    obtain ⟨fault, failed⟩ := exists_fault_of_not_passes refused
    have failed : evaluate options accentedFile [139, 139, 139, 139, 14] = .error fault := failed
    have asks := (Passes.exists_fault_iff (passes _ (by decide +kernel))).1 ⟨fault, failed⟩
    obtain ⟨file, names, again, _, each⟩ := (unsupported_iff_asks.2 options _ rfl).2 _ decoded
    obtain ⟨rfl, rfl⟩ := ready_accented.unique again
    obtain ⟨program, there, absent⟩ := each 1 (by decide +kernel)
    cases second.symm.trans there
    exact ⟨_, decoded, second, absent.2 asks, asks⟩

end Font
end CompactFont
