import CompactFont.Charstring.Machine

/-! Operators as work that is done operand by operand. Work can break off, and what was done before stays done, so that
it shows what an operator leaves behind when it fails. -/

namespace CompactFont.Charstring

/-- Something to do on a machine. -/
abbrev Work := EStateM Fault Machine

namespace Work

variable {α β σ : Type}

/-- The step of the machine that the work of an operator comes to. -/
def step : EStateM.Result Fault Machine Unit → Step
  | .ok _ machine => .next machine
  | .error fault _ => .failed fault

theorem bind_apply (work : Work α) (next : α → Work β) (machine : Machine) :
    (work >>= next) machine =
      match work machine with
      | .ok value after => next value after
      | .error fault after => .error fault after := by
  change EStateM.bind work next machine = _
  unfold EStateM.bind
  cases work machine <;> rfl

theorem pure_apply (value : α) (machine : Machine) : (pure value : Work α) machine = .ok value machine := rfl

/-! ### Single actions -/

/-- Breaks off because of the glyph program. -/
def fail (fault : GlyphFault) : Work α := fun machine => .error (.glyph fault) machine

def registers : Work Registers := fun machine => .ok machine.registers machine

def update (change : Registers → Registers) : Work Unit := fun machine =>
  .ok () { machine with registers := change machine.registers }

/-- Goes on only with registers of which this holds. -/
def require (holds : Registers → Bool) (fault : Registers → Fault) : Work Unit := fun machine =>
  if holds machine.registers then .ok () machine else .error (fault machine.registers) machine

def push (x : Float) : Work Unit := update (·.push x)

def clear : Work Unit := update ({ · with operands := [] })

def stroke (stroke : Stroke) : Work Unit := update fun registers => { registers with pen := registers.pen.stroke stroke }

/-- Takes the operand at the top. -/
def takeTop : Work Float := fun machine =>
  match machine.registers.operands with
  | [] => .error (.glyph .underflow) machine
  | x :: rest => .ok x { machine with registers := { machine.registers with operands := rest } }

/-- Takes the operand at the bottom. -/
def takeBottom : Work Float := fun machine =>
  match machine.registers.operands.getLast? with
  | none => .error (.glyph .underflow) machine
  | some x =>
    .ok x { machine with registers := { machine.registers with operands := machine.registers.operands.dropLast } }

/-- Takes two operands from the top, the lower one first. -/
def takePair : Work (Float × Float) := do
  let second ← takeTop
  let first ← takeTop
  return (first, second)

def takeIndex : Work Int := do
  let x ← takeTop
  match index? x with
  | some n => return n
  | none => fail (.notIndex x)

/-- Settles the advance width if that has not been done. -/
def settleWidth (carries : Nat → Bool) : Work Unit := do
  let found ← registers
  if found.settled then return
  else if carries found.count then
    let difference ← takeBottom
    update fun found => { found with width := found.width + difference, settled := true }
  else update ({ · with settled := true })

/-- Counts the operands as pairs of hint edges. -/
def declare (op : Operator) (admits : Nat → Bool) : Work Unit := do
  settleWidth Registers.isOdd
  require (fun found => admits found.count) (·.miscount op)
  update fun found => { found with hints := found.hints + found.count / 2 }
  clear

def skipMask : Work Unit := fun machine =>
  match Reader.slice machine.registers.maskLength machine.program with
  | .ok _ rest => .ok () { machine with program := rest }
  | .error fault _ => .error fault machine

/-! ### Loops -/

/-- If the work does not break off, so many operands are gone at least. -/
def Takes (least : Nat) (work : Work α) : Prop :=
  ∀ machine value after, work machine = .ok value after → after.registers.count + least ≤ machine.registers.count

theorem takes_pure (value : α) : Takes 0 (pure value) := by
  intro machine _ after ends
  cases ends
  exact Nat.le_refl _

theorem takes_bind {least more : Nat} {work : Work α} {next : α → Work β} (first : Takes least work)
    (second : ∀ value, Takes more (next value)) : Takes (least + more) (work >>= next) := by
  intro machine value after ends
  rw [bind_apply] at ends
  cases start : work machine with
  | error fault between =>
    rw [start] at ends
    cases ends
  | ok found between =>
    rw [start] at ends
    have before := first _ _ _ start
    have behind := second _ _ _ _ ends
    omega

theorem Takes.of_le {least more : Nat} {work : Work α} (takes : Takes more work) (less : least ≤ more) :
    Takes least work := by
  intro machine value after ends
  have counted := takes _ _ _ ends
  omega

theorem takes_registers : Takes 0 registers := by
  intro machine value after ends
  cases ends
  exact Nat.le_refl _

theorem takes_stroke (drawn : Stroke) : Takes 0 (stroke drawn) := by
  intro machine value after ends
  cases ends
  exact Nat.le_refl _

theorem takes_takeBottom : Takes 1 takeBottom := by
  intro machine value after ends
  unfold takeBottom at ends
  split at ends
  next => cases ends
  next found =>
    cases ends
    have full : machine.registers.operands ≠ [] := by
      intro none
      rw [none] at found
      cases found
    have positive := List.length_pos_iff.2 full
    simp only [Registers.count, List.length_dropLast]
    omega

/-- What a loop does each time, and what it hands on to the next time. Every time takes an operand at least. -/
structure Round (σ : Type) where
  pass : σ → Work σ
  takes : ∀ current, Takes 1 (pass current)

namespace Round

/-- Repeats a round as long as the number of operands asks for it. -/
def repeatWhile (round : Round σ) (asks : Nat → Bool) (current : σ) : Work Unit := fun machine =>
  if asks machine.registers.count then
    match _ : round.pass current machine with
    | .ok next after => round.repeatWhile asks next after
    | .error fault after => .error fault after
  else .ok () machine
termination_by machine => machine.registers.count
decreasing_by exact round.takes _ _ _ _ ‹_›

variable {round : Round σ} {asks : Nat → Bool} {current next : σ} {machine after : Machine}

theorem repeatWhile_stop (enough : asks machine.registers.count = false) :
    round.repeatWhile asks current machine = .ok () machine := by
  rw [repeatWhile, enough]
  rfl

theorem repeatWhile_again (asked : asks machine.registers.count = true)
    (passes : round.pass current machine = .ok next after) :
    round.repeatWhile asks current machine = round.repeatWhile asks next after := by
  rw [repeatWhile, if_pos asked]
  split
  next same =>
    rw [passes] at same
    cases same
    rfl
  next same =>
    rw [passes] at same
    cases same

end Round

/-! ### Strokes, with operands from the bottom -/

/-- A line by two operands. -/
def line : Work Unit := do
  let dx ← takeBottom
  let dy ← takeBottom
  stroke (.line dx dy)

/-- A curve by six operands. -/
def curve : Work Unit := do
  let dx₁ ← takeBottom
  let dy₁ ← takeBottom
  let dx₂ ← takeBottom
  let dy₂ ← takeBottom
  let dx₃ ← takeBottom
  let dy₃ ← takeBottom
  stroke (.curve dx₁ dy₁ dx₂ dy₂ dx₃ dy₃)

/-- A line along one axis; the next one goes along the other. -/
def axisLine (horizontal : Bool) : Work Bool := do
  let d ← takeBottom
  stroke (if horizontal then .line d 0.0 else .line 0.0 d)
  return !horizontal

/-- An operand that is there in one case only, and else zero. -/
def takeSlant (present : Nat → Bool) : Work Float := do
  let found ← registers
  if present found.count then takeBottom else return 0.0

/-- A curve that leaves along one axis and arrives along the other; the next one leaves along the other. A single operand
behind it is its slant. -/
def turn (horizontal : Bool) : Work Bool := do
  let a ← takeBottom
  let b ← takeBottom
  let c ← takeBottom
  let d ← takeBottom
  let slant ← takeSlant (· == 1)
  stroke (quarter horizontal a b c d slant)
  return !horizontal

/-- A curve that leaves and arrives along one axis; the next one has no slant. -/
def bend (horizontal : Bool) (slant : Float) : Work Float := do
  let a ← takeBottom
  let b ← takeBottom
  let c ← takeBottom
  let d ← takeBottom
  stroke (arch horizontal slant a b c d)
  return 0.0

theorem takes_takeSlant (present : Nat → Bool) : Takes 0 (takeSlant present) := by
  have each (found : Registers) : Takes 0 (if present found.count then takeBottom else pure 0.0) := by
    split
    · exact takes_takeBottom.of_le (Nat.zero_le 1)
    · exact takes_pure _
  exact takes_bind takes_registers each

def lines : Round Unit where
  pass _ := line
  takes _ := by
    have pair := takes_bind takes_takeBottom fun dx => takes_bind takes_takeBottom fun dy => takes_stroke (.line dx dy)
    exact pair.of_le (by decide)

def curves : Round Unit where
  pass _ := curve
  takes _ := by
    have six := takes_bind takes_takeBottom fun dx₁ => takes_bind takes_takeBottom fun dy₁ =>
      takes_bind takes_takeBottom fun dx₂ => takes_bind takes_takeBottom fun dy₂ =>
      takes_bind takes_takeBottom fun dx₃ => takes_bind takes_takeBottom fun dy₃ =>
      takes_stroke (.curve dx₁ dy₁ dx₂ dy₂ dx₃ dy₃)
    exact six.of_le (by decide)

def axisLines : Round Bool where
  pass := axisLine
  takes horizontal := by
    have one := takes_bind takes_takeBottom fun d =>
      takes_bind (takes_stroke (if horizontal then .line d 0.0 else .line 0.0 d)) fun _ => takes_pure (!horizontal)
    exact one.of_le (by decide)

def turns : Round Bool where
  pass := turn
  takes horizontal := by
    have four := takes_bind takes_takeBottom fun a => takes_bind takes_takeBottom fun b =>
      takes_bind takes_takeBottom fun c => takes_bind takes_takeBottom fun d =>
      takes_bind (takes_takeSlant (· == 1)) fun slant =>
      takes_bind (takes_stroke (quarter horizontal a b c d slant)) fun _ => takes_pure (!horizontal)
    exact four.of_le (by decide)

def bends (horizontal : Bool) : Round Float where
  pass := bend horizontal
  takes slant := by
    have four := takes_bind takes_takeBottom fun a => takes_bind takes_takeBottom fun b =>
      takes_bind takes_takeBottom fun c => takes_bind takes_takeBottom fun d =>
      takes_bind (takes_stroke (arch horizontal slant a b c d)) fun _ => takes_pure 0.0
    exact four.of_le (by decide)

/-! ### Computing, with operands from the top -/

/-- Hands on a value, or breaks off. -/
def accept : Except GlyphFault α → Work α
  | .ok value => pure value
  | .error fault => fail fault

/-- Replaces the operand at the top. -/
def unary (f : Float → Except GlyphFault Float) : Work Unit := do
  let x ← takeTop
  push (← accept (f x))

/-- Replaces the two operands at the top. -/
def binary (f : Float → Float → Except GlyphFault Float) : Work Unit := do
  let (x, y) ← takePair
  push (← accept (f x y))

def choose : Work Unit := do
  let (low, high) ← takePair
  let (x, y) ← takePair
  push (if low ≤ high then x else y)

def duplicate : Work Unit := do
  let x ← takeTop
  push x
  push x

def exchange : Work Unit := do
  let (x, y) ← takePair
  push y
  push x

def store : Work Unit := do
  let slot ← takeIndex
  let value ← takeTop
  update fun registers => { registers with transient := registers.transient.put slot value }

def fetch : Work Unit := do
  let slot ← takeIndex
  let found ← registers
  match found.transient.get? slot with
  | some value => push value
  | none => fail (.unsetSlot slot)

/-- The depth is counted from the operand below it. -/
def copy : Work Unit := do
  let depth ← takeIndex
  let found ← registers
  match found.operands[depth.toNat]? with
  | some x => push x
  | none => fail (.indexBeyond depth.toNat found.count)

def roll : Work Unit := do
  let shift ← takeIndex
  let count ← takeIndex
  let found ← registers
  if 0 ≤ count ∧ count ≤ found.count then
    update fun registers =>
      { registers with operands := rotate count.toNat (shift % count).toNat registers.operands }
  else fail (.rollBeyond count found.count)

end Work

/-! ### The work of an operator -/

def StemOperator.work (op : StemOperator) : Work Unit := Work.declare (.stem op) fun n => n != 0 && n % 2 == 0

def MaskOperator.work (op : MaskOperator) : Work Unit := do
  Work.declare (.mask op) fun n => n % 2 == 0
  Work.skipMask

def MoveOperator.work (op : MoveOperator) : Work Unit := do
  Work.settleWidth (· == Registers.moveArity op + 1)
  Work.require (fun found => found.count == Registers.moveArity op) (·.miscount (.move op))
  let (dx, dy) ←
    match op with
    | .rmoveto => do
      let dx ← Work.takeBottom
      let dy ← Work.takeBottom
      pure (dx, dy)
    | .hmoveto => do
      let dx ← Work.takeBottom
      pure (dx, 0.0)
    | .vmoveto => do
      let dy ← Work.takeBottom
      pure (0.0, dy)
  Work.update fun found => { found with pen := found.pen.move dx dy }

/-- The numbers of operands that a drawing operator is made for. -/
def DrawOperator.admits : DrawOperator → Nat → Bool
  | .rlineto, n => n != 0 && n % 2 == 0
  | .hlineto, n | .vlineto, n => n != 0
  | .rrcurveto, n => n != 0 && n % 6 == 0
  | .rcurveline, n => 8 ≤ n && (n - 2) % 6 == 0
  | .rlinecurve, n => 8 ≤ n && n % 2 == 0
  | .vvcurveto, n | .hhcurveto, n => 4 ≤ n && (n % 4 == 0 || n % 4 == 1)
  | .vhcurveto, n | .hvcurveto, n => 4 ≤ n && (n % 8 == 0 || n % 8 == 1 || n % 8 == 4 || n % 8 == 5)

/-- What follows the checks of a drawing operator. -/
def DrawOperator.drawing : DrawOperator → Work Unit
  | .rlineto => Work.lines.repeatWhile (0 < ·) ()
  | .hlineto => Work.axisLines.repeatWhile (0 < ·) true
  | .vlineto => Work.axisLines.repeatWhile (0 < ·) false
  | .rrcurveto => Work.curves.repeatWhile (0 < ·) ()
  | .rcurveline => do
    Work.curves.repeatWhile (2 < ·) ()
    Work.line
  | .rlinecurve => do
    Work.lines.repeatWhile (6 < ·) ()
    Work.curve
  | .vvcurveto => do
    let slant ← Work.takeSlant (· % 4 == 1)
    (Work.bends false).repeatWhile (0 < ·) slant
  | .hhcurveto => do
    let slant ← Work.takeSlant (· % 4 == 1)
    (Work.bends true).repeatWhile (0 < ·) slant
  | .vhcurveto => Work.turns.repeatWhile (4 ≤ ·) false
  | .hvcurveto => Work.turns.repeatWhile (4 ≤ ·) true

def DrawOperator.work (op : DrawOperator) : Work Unit := do
  Work.require (·.pen.hasSubpath) fun _ => .glyph (.beforeMove (.draw op))
  Work.require (fun found => op.admits found.count) (·.miscount (.draw op))
  op.drawing

def ComputeOperator.work : ComputeOperator → Work Unit
  | .dotsection => pure ()
  | .and => Work.binary fun x y => .ok (truth (x != 0.0 && y != 0.0))
  | .or => Work.binary fun x y => .ok (truth (x != 0.0 || y != 0.0))
  | .not => Work.unary fun x => .ok (truth (x == 0.0))
  | .abs => Work.unary fun x => .ok x.abs
  | .add => Work.binary fun x y => .ok (x + y)
  | .sub => Work.binary fun x y => .ok (x - y)
  | .div => Work.binary fun x y => if y == 0.0 then .error .divisionByZero else .ok (x / y)
  | .neg => Work.unary fun x => .ok (-x)
  | .eq => Work.binary fun x y => .ok (truth (x == y))
  | .drop => discard Work.takeTop
  | .put => Work.store
  | .get => Work.fetch
  | .ifelse => Work.choose
  | .mul => Work.binary fun x y => .ok (x * y)
  | .sqrt => Work.unary fun x => if x ≥ 0.0 then .ok x.sqrt else .error (.squareRoot x)
  | .dup => Work.duplicate
  | .exch => Work.exchange
  | .index => Work.copy
  | .roll => Work.roll

end CompactFont.Charstring
