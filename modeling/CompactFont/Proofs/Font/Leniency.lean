import CompactFont.Proofs.Charstring.Execution
import CompactFont.Proofs.Font.Assembly

/-! Options only ever forbid. A glyph program that looser options let go on comes to the same under stricter ones, or
is refused as broken; so a font that is decoded is decoded to the same font under all looser options. -/

namespace CompactFont

/-- Options that allow all that stricter ones do. -/
structure Options.Loosens (loose strict : Options) : Prop where
  leftover : loose.leftover = strict.leftover ∨ loose.leftover = .ignore
  skipUnsupported : strict.skipUnsupported = true → loose.skipUnsupported = true
  maxDepth : strict.maxDepth ≤ loose.maxDepth

/-! ### Glyph programs -/

namespace Charstring

/-- The same subroutines under looser limits. -/
structure Context.Loosens (loose strict : Context) : Prop where
  globals : loose.globals = strict.globals
  locals : loose.locals? = strict.locals?
  leftover : loose.leftover = strict.leftover ∨ loose.leftover = .ignore
  maxDepth : strict.maxDepth ≤ loose.maxDepth

theorem Registers.endchar_of_loosens {loose strict : Leftover} (looser : loose = strict ∨ loose = .ignore)
    (registers : Registers) :
    registers.endchar loose = registers.endchar strict ∨
      ∃ fault, registers.endchar strict = .error (.glyph fault) := by
  rcases looser with rfl | rfl
  · exact .inl rfl
  · cases strict with
    | ignore => exact .inl rfl
    | reject =>
      dsimp only [endchar]
      split
      · exact .inl rfl
      split
      · exact .inl rfl
      · exact .inr ⟨_, rfl⟩

namespace Machine

variable {loose strict : Context}

theorem enter_of_loosens (loosens : loose.Loosens strict) (machine : Machine) (table : Subroutines) :
    machine.enter loose table = machine.enter strict table ∨
      ∃ fault, machine.enter strict table = .failed (.glyph fault) := by
  unfold enter
  split
  · exact .inl rfl
  split
  · exact .inl rfl
  · by_cases shallow : machine.callers.depth < strict.maxDepth
    · left
      rw [if_pos shallow, if_pos (Nat.lt_of_lt_of_le shallow loosens.maxDepth)]
    · right
      rw [if_neg shallow]
      exact ⟨_, rfl⟩

/-- Limits are read where a subroutine is called and where the glyph ends. There they make a step fail or they do not
count. -/
theorem step_of_loosens (loosens : loose.Loosens strict) (machine : Machine) :
    machine.step loose = machine.step strict ∨ ∃ fault, machine.step strict = .failed (.glyph fault) := by
  cases found : Token.read machine.program with
  | error fault rest =>
    left
    simp only [step, found]
  | ok token? rest =>
    cases token? with
    | none =>
      left
      simp only [step, found]
    | some token =>
      rw [step_of_read loose found, step_of_read strict found]
      cases token with
      | integer value => exact .inl rfl
      | fixed raw => exact .inl rfl
      | operator op =>
        cases op with
        | callsubr =>
          simp only [handle, execute, loosens.locals]
          split
          · exact enter_of_loosens loosens _ _
          · exact .inl rfl
        | callgsubr =>
          simp only [handle, execute, loosens.globals]
          exact enter_of_loosens loosens _ _
        | endchar =>
          simp only [handle, execute]
          rcases machine.registers.endchar_of_loosens loosens.leftover with same | ⟨fault, refused⟩
          · left
            rw [same]
          · right
            rw [refused]
            exact ⟨fault, rfl⟩
        | _ => exact .inl rfl

theorem run_of_loosens (loosens : loose.Loosens strict) (machine : Machine) (past : List Event) :
    machine.run loose past = machine.run strict past ∨
      ∃ fault, (machine.run strict past).result = .error (.glyph fault) := by
  induction machine using step_induction strict generalizing past with
  | each machine ih =>
    rcases step_of_loosens loosens machine with same | ⟨fault, failed⟩
    · cases steps : machine.step strict with
      | next following event? =>
        rw [steps] at same
        rw [run_of_next steps, run_of_next same]
        exact ih following (goes_of_step steps) _
      | done registers event? =>
        rw [steps] at same
        rw [run_of_done steps, run_of_done same]
        exact .inl rfl
      | failed fault =>
        rw [steps] at same
        rw [run_of_failed steps, run_of_failed same]
        exact .inl rfl
    · rw [run_of_failed failed]
      exact .inr ⟨fault, rfl⟩

end Machine

/-- Under looser limits a program comes to the same, unless the stricter ones refuse it as broken. -/
theorem Outline.ofProgram_of_loosens {loose strict : Context} (loosens : loose.Loosens strict) (nominal : Float)
    (program : List UInt8) :
    Outline.ofProgram loose nominal program = Outline.ofProgram strict nominal program ∨
      ∃ fault, (Outline.ofProgram strict nominal program).result = .error (.glyph fault) := by
  rw [ofProgram_eq, ofProgram_eq]
  rcases Machine.run_of_loosens loosens (.start nominal program) [] with same | ⟨fault, failed⟩
  · exact .inl (by rw [same])
  · right
    rw [failed]
    exact ⟨fault, rfl⟩

end Charstring

/-! ### Fonts -/

namespace Font

open Charstring (Context Outline)

variable {loose strict : Options} {file : FontFile}

theorem context_loosens (loosens : loose.Loosens strict) (file : FontFile) :
    (context loose file).Loosens (context strict file) where
  globals := rfl
  locals := rfl
  leftover := loosens.leftover
  maxDepth := loosens.maxDepth

/-- A program that passes comes to the same under looser options, be it that it is left out. -/
theorem Passes.loosened {program : List UInt8} (passes : Passes strict file program) (loosens : loose.Loosens strict) :
    evaluate loose file program = evaluate strict file program ∧ Passes loose file program := by
  have same : evaluate loose file program = evaluate strict file program := by
    rcases Outline.ofProgram_of_loosens (context_loosens loosens file) (nominal file) program with same | ⟨fault, failed⟩
    · rw [evaluate_eq, evaluate_eq, same]
    · rw [← evaluate_eq] at failed
      rw [Passes, failed] at passes
      cases passes.2
  refine ⟨same, ?_⟩
  unfold Passes at passes ⊢
  rw [same]
  cases ran : evaluate strict file program with
  | ok outline => trivial
  | error fault =>
    rw [ran] at passes
    exact ⟨loosens.skipUnsupported passes.1, passes.2⟩

theorem ofFile_of_loosens (loosens : loose.Loosens strict) {font : Font}
    (made : (ofFile strict file).result = .ok font) : (ofFile loose file).result = .ok font := by
  obtain ⟨fontName, fullName, sids, names, prepared⟩ := prepared_of_ofFile made
  obtain ⟨passes, rfl⟩ := (ofFile_eq_ok_iff prepared).1 made
  refine (ofFile_eq_ok_iff prepared).2 ⟨fun draft member => ((passes draft member).loosened loosens).2, ?_⟩
  have slots : (drafts 0 sids names file.charstrings.items).filterMap (slot loose file) =
      (drafts 0 sids names file.charstrings.items).filterMap (slot strict file) := by
    apply List.filterMap_congr
    intro draft member
    rw [slot, slot, ((passes draft member).loosened loosens).1]
  rw [assembled, assembled, slots]
  rfl

theorem decode_eq_ok_iff {options : Options} {bytes : List UInt8} {font : Font} :
    (decode options bytes).result = .ok font ↔
      ∃ data, (FontSet.data bytes).result = .ok data ∧
        ∃ file, (FontFile.read data).result = .ok file ∧ (ofFile options file).result = .ok font := by
  simp only [decode, Logged.result_bind, bind_eq_ok_iff]

/-- Looser options leave a font that is decoded as it is. And where leftover operands are ignored and a program draws
an outline, refusing them leaves it the same outline or makes the glyph a broken one. -/
theorem decode_of_loosens :
    (∀ strict loose : Options, loose.Loosens strict → ∀ bytes font, (decode strict bytes).result = .ok font →
      (decode loose bytes).result = .ok font) ∧
    ∀ (context : Context) (nominal : Float) (program : List UInt8) (outline : Outline),
      (Outline.ofProgram { context with leftover := .ignore } nominal program).result = .ok outline →
      (Outline.ofProgram { context with leftover := .reject } nominal program).result = .ok outline ∨
      ∃ fault, (Outline.ofProgram { context with leftover := .reject } nominal program).result =
        .error (.glyph fault) := by
  constructor
  · intro strict loose loosens bytes font decoded
    obtain ⟨data, marked, file, read, made⟩ := decode_eq_ok_iff.1 decoded
    exact decode_eq_ok_iff.2 ⟨data, marked, file, read, ofFile_of_loosens loosens made⟩
  · intro context nominal program outline drawn
    have loosens : Context.Loosens { context with leftover := .ignore } { context with leftover := .reject } :=
      ⟨rfl, rfl, .inr rfl, Nat.le_refl _⟩
    rcases Outline.ofProgram_of_loosens loosens nominal program with same | failed
    · left
      rw [← same]
      exact drawn
    · exact .inr failed

/-- A font with a glyph that is left out, and a program that leaves two operands. -/
theorem decode_of_loosens_accented :
    let bytes := FontSet.marker ++ 32 :: accented
    let strict : Options := { leftover := .reject, skipUnsupported := true, maxDepth := 1 }
    let loose : Options := { skipUnsupported := true }
    (loose.Loosens strict ∧ ∃ font, (decode strict bytes).result = .ok font ∧ (decode loose bytes).result = .ok font) ∧
      ∃ outline, (Outline.ofProgram { leftover := .ignore } 500.0 [139, 139, 14]).result = .ok outline ∧
        ((Outline.ofProgram { leftover := .reject } 500.0 [139, 139, 14]).result = .ok outline ∨
          ∃ fault, (Outline.ofProgram { leftover := .reject } 500.0 [139, 139, 14]).result = .error (.glyph fault)) := by
  intro bytes strict loose
  have loosens : loose.Loosens strict := ⟨.inr rfl, id, by decide⟩
  constructor
  · obtain ⟨data, fontName, fullName, sids, marked, read, prepared⟩ := ready_accented
    have passes : ∀ program ∈ accentedFile.charstrings.items, Passes strict accentedFile program := by decide +kernel
    have decoded := decode_eq_assembled marked read prepared passes
    exact ⟨loosens, _, decoded, decode_of_loosens.1 strict loose loosens bytes _ decoded⟩
  · have ended :
        Charstring.Machine.loop { leftover := .ignore } 3 (.start 500.0 [139, 139, 14]) = some (.ok _) := rfl
    have drawn := Outline.ofProgram_of_loop ended
    exact ⟨_, drawn, decode_of_loosens.2 {} 500.0 [139, 139, 14] _ drawn⟩

end Font
end CompactFont
