import CompactFont.Fault

/-! What is worth telling about a decode besides its result, and computations that tell it. -/

namespace CompactFont

/-- From the gravest to the least. -/
inductive Level where
  | error
  | warn
  | info
  | debug
  | trace
deriving DecidableEq, Repr, Inhabited

def Level.rank : Level → Nat
  | .error => 0
  | .warn => 1
  | .info => 2
  | .debug => 3
  | .trace => 4

def Level.text : Level → String
  | .error => "ERROR"
  | .warn => "WARN"
  | .info => "INFO"
  | .debug => "DEBUG"
  | .trace => "TRACE"

inductive Event where
  | dataBegins (position : Nat)
  | severalFonts (count : Nat)
  | contents (glyphs strings globals : Nat)
  | decoding (font : String) (glyphs locals : Nat)
  | called (number : Int) (depth : Nat)
  | ignored (operands : Nat)
  | skipped (index : Nat) (name : String) (fault : Fault)
  | interpreted (index : Nat) (name : String) (width : Float) (segments : Nat)
  | replaced (path font : String)
  | failed (message : String)
deriving Repr

namespace Event

def level : Event → Level
  | .failed _ => .error
  | .severalFonts _ | .ignored _ | .skipped .. | .replaced .. => .warn
  | .dataBegins _ | .contents .. | .decoding .. => .debug
  | .called .. | .interpreted .. => .trace

def text : Event → String
  | .dataBegins position => s!"CFF data begins at byte {position}"
  | .severalFonts count => s!"font set holds {count} fonts, only the first is decoded"
  | .contents glyphs strings globals =>
    s!"{glyphs} glyphs, {strings} strings, {globals} global subroutines"
  | .decoding font glyphs locals =>
    "decoding " ++ Text.quoted font ++ s!": {glyphs} glyphs, {locals} local subroutines"
  | .called number depth => s!"calling subroutine {number} at depth {depth}"
  | .ignored operands => s!"ignoring {operands} operands left at endchar"
  | .skipped index name fault => s!"skipping glyph {index} ({name}): " ++ fault.text
  | .interpreted index name width segments =>
    s!"glyph {index} ({name}): width " ++ Number.text width ++ s!", {segments} segments"
  | .replaced path font => path ++ " replaces an earlier font named " ++ Text.quoted font
  | .failed message => message

/-- A line of the log. -/
def line (event : Event) : String := event.level.text ++ " " ++ event.text

end Event

/-- A result, or the fault that prevented it, and what happened on the way to either. -/
structure Logged (ε α : Type) where
  result : Except ε α
  events : List Event := []

namespace Logged

variable {ε α β : Type}

def bind (first : Logged ε α) (next : α → Logged ε β) : Logged ε β :=
  match first.result with
  | .ok value =>
    let second := next value
    ⟨second.result, first.events ++ second.events⟩
  | .error fault => ⟨.error fault, first.events⟩

instance : Monad (Logged ε) where
  pure value := ⟨.ok value, []⟩
  bind := bind

/-- A result about which there is nothing to tell. -/
def quiet (result : Except ε α) : Logged ε α := ⟨result, []⟩

def note (event : Event) : Logged ε Unit := ⟨.ok (), [event]⟩

def noteIf (condition : Bool) (event : Event) : Logged ε Unit := ⟨.ok (), if condition then [event] else []⟩

@[simp] theorem result_pure (value : α) : (pure value : Logged ε α).result = .ok value := rfl

@[simp] theorem result_quiet (result : Except ε α) : (quiet result).result = result := rfl

@[simp] theorem result_note (event : Event) : (note event : Logged ε Unit).result = .ok () := rfl

@[simp] theorem result_noteIf (condition : Bool) (event : Event) :
    (noteIf condition event : Logged ε Unit).result = .ok () := rfl

/-- The results of a computation do not depend on what it tells. -/
@[simp] theorem result_bind (first : Logged ε α) (next : α → Logged ε β) :
    (first >>= next).result = first.result >>= fun value => (next value).result := by
  show (bind first next).result = _
  unfold bind
  cases first.result <;> rfl

end Logged
end CompactFont
