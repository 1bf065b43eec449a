import CompactFont.Proofs.Charstring.Effects
import CompactFont.Proofs.Charstring.Inlining

/-! Hint masks. Behind a mask operator stand as many bytes as all hints that the run has declared so far need, one bit
for each, whatever programs declared them. The run passes over these bytes unread: others in their places change
nothing. -/

namespace CompactFont.Charstring

namespace Registers

/-- Hints are pairs of operands, and a width among them is not part of a pair. -/
theorem hints_of_declare {registers after : Registers} {op : Operator} {admits : Nat → Bool}
    (declared : registers.declare op admits = .ok after) :
    after.hints = registers.hints + registers.count / 2 := by
  obtain ⟨_, rfl⟩ := declare_eq_ok_iff.1 declared
  show (registers.takeWidth isOdd).hints + (registers.takeWidth isOdd).count / 2 = _
  cases state : registers.settled with
  | true => rw [takeWidth_of_settled isOdd state]
  | false =>
    rcases takeWidth_cases isOdd state with ⟨odd, above, difference, split, taken⟩ | ⟨_, taken⟩
    · have counted : registers.count = above.length + 1 := by
        rw [count, split, List.length_append, List.length_singleton]
      have odd : registers.count % 2 = 1 := beq_iff_eq.1 odd
      have pairs : above.length / 2 = registers.count / 2 := by omega
      rw [taken, ← pairs]
      rfl
    · rw [taken]
      rfl

end Registers

namespace Machine

variable {context : Context} {start machine following : Machine}

/-- How many hints the operator that comes next declares: one for each pair of operands. -/
def declares (machine : Machine) : Nat :=
  match machine.operator? with
  | some (.stem _) | some (.mask _) => machine.registers.count / 2
  | _ => 0

/-- How many hints a run declares at the machines that it has come to. -/
def declared : List Machine → Nat
  | [] => 0
  | machine :: machines => machine.declares + declared machines

/-- A step executes a mask operator and goes on behind the mask. -/
def Skips (op : MaskOperator) (mask : List UInt8) (machine following : Machine) : Prop :=
  following.callers = machine.callers ∧
    ∃ used, Token.Takes used (.operator (.mask op)) ∧ machine.program = used ++ (mask ++ following.program)

/-- A byte of the glyph's own program is passed over as part of a mask: the one with so many bytes behind it. -/
def PassesOver (context : Context) (start : Machine) (behind : Nat) : Prop :=
  ∃ before machine following after op mask,
    visits context start = before ++ machine :: following :: after ∧ machine.callers.programs = [] ∧
    Skips op mask machine following ∧
    following.program.length ≤ behind ∧ behind < following.program.length + mask.length

/-! ### The length of a mask -/

theorem hints_of_goes (goes : Goes context machine following) :
    following.registers.hints = machine.registers.hints + machine.declares := by
  have effect := effect_of_goes goes
  unfold declares
  generalize machine.operator? = op?, machine.registers = registers, following.registers = after at effect ⊢
  cases effect with
  | push => rfl
  | act acts =>
    cases acts with
    | push number => cases number
    | stem acts => exact Registers.hints_of_declare acts
    | mask acts => exact Registers.hints_of_declare acts
    | move acts =>
      obtain ⟨dx, dy, _, moved⟩ := Registers.move_eq_ok_iff.1 acts
      obtain ⟨width, operands, _, taken⟩ := Registers.takeWidth_frame _ registers
      rw [moved, taken]
      rfl
    | draw acts =>
      obtain ⟨_, strokes, _, drawn⟩ := Registers.draw_eq_ok_iff.1 acts
      rw [drawn]
      rfl
    | compute acts =>
      obtain ⟨workspace, _, computed⟩ := Registers.compute_eq_ok_iff.1 acts
      rw [computed]
      rfl
  | call calls _ => rcases calls with rfl | rfl <;> rfl
  | leave leaves => rcases leaves with rfl | rfl <;> rfl

/-- The count of hints is what the operators before have declared, each with the operands that it found. -/
theorem hints_of_visited {before after : List Machine}
    (visited : visits context start = before ++ machine :: after) :
    machine.registers.hints = start.registers.hints + declared before := by
  induction before generalizing start with
  | nil =>
    obtain ⟨later, head⟩ := visits_head context start
    obtain ⟨rfl, _⟩ := List.cons_eq_cons.1 (head.symm.trans visited)
    rfl
  | cons first before ih =>
    obtain ⟨rfl, next, goes, rest⟩ :=
      goes_of_visits visited (List.append_ne_nil_of_right_ne_nil _ (List.cons_ne_nil _ _))
    rw [ih rest, hints_of_goes goes, declared, Nat.add_assoc]

theorem skips_of_goes {op : MaskOperator} (goes : Goes context machine following)
    (next : machine.operator? = some (.mask op)) :
    ∃ mask, Skips op mask machine following ∧ mask.length = following.registers.maskLength := by
  cases goes with
  | @act token used mask rest registers program takes acts covers =>
    cases token with
    | operator other =>
      rw [operator?_of_takes program takes] at next
      cases next
      exact ⟨mask, ⟨rfl, used, takes, program⟩, covers⟩
    | integer value =>
      rw [operator?_of_number program takes rfl] at next
      cases next
    | fixed raw =>
      rw [operator?_of_number program takes rfl] at next
      cases next
  | @call other table operand operands body used rest program takes chosen =>
    rw [operator?_of_takes program takes] at next
    cases next
    cases chosen
  | leave leaves =>
    rcases leaves with ended | ⟨used, rest, program, takes⟩
    · rw [operator?, ended] at next
      cases next
    · rw [operator?_of_takes program takes] at next
      cases next

/-! ### Bytes that are passed over -/

theorem eq_program_of_frames {inner : List (List UInt8)} {program : List UInt8} (own : machine.callers.programs = [])
    (frames : machine.frames = inner ++ [program]) : program = machine.program := by
  have alone : machine.frames = [] ++ [machine.program] := by
    rw [Machine.frames, own]
    rfl
  obtain ⟨_, last⟩ := List.append_inj' (frames.symm.trans alone) rfl
  exact (List.cons_eq_cons.1 last).1

theorem passesOver_of_goes {behind : Nat} (goes : Goes context machine following)
    (passes : PassesOver context machine behind) :
    (machine.callers.programs = [] ∧ ∃ op mask, Skips op mask machine following ∧
      following.program.length ≤ behind ∧ behind < following.program.length + mask.length) ∨
    PassesOver context following behind := by
  obtain ⟨before, current, next, after, op, mask, visited, own, skips, least, most⟩ := passes
  obtain ⟨event?, steps⟩ := step_of_goes goes
  rw [visits_of_next steps] at visited
  cases before with
  | nil =>
    left
    obtain ⟨rfl, rest⟩ := List.cons_eq_cons.1 visited
    obtain ⟨later, head⟩ := visits_head context following
    obtain ⟨rfl, _⟩ := List.cons_eq_cons.1 (head.symm.trans rest)
    exact ⟨own, op, mask, skips, least, most⟩
  | cons first before =>
    right
    obtain ⟨_, rest⟩ := List.cons_eq_cons.1 visited
    exact ⟨before, current, next, after, op, mask, rest, own, skips, least, most⟩

theorem goes_of_passesOver {behind : Nat} (passes : PassesOver context machine behind) :
    ∃ following, Goes context machine following := by
  obtain ⟨before, current, next, after, op, mask, visited, _⟩ := passes
  cases before with
  | nil =>
    obtain ⟨_, following, goes, _⟩ := goes_of_visits visited (List.cons_ne_nil _ _)
    exact ⟨following, goes⟩
  | cons first before =>
    obtain ⟨_, following, goes, _⟩ :=
      goes_of_visits visited (List.append_ne_nil_of_right_ne_nil _ (List.cons_ne_nil _ _))
    exact ⟨following, goes⟩

/-- The glyph's program stays the lowest frame, and what is unread of it gets no longer. -/
theorem frames_of_goes {inner : List (List UInt8)} {program : List UInt8} (goes : Goes context machine following)
    (frames : machine.frames = inner ++ [program]) :
    ∃ above rest, following.frames = above ++ [rest] ∧ rest.length ≤ program.length := by
  rcases leaves_or_readsOn goes with ⟨_, after, _⟩ | ⟨used, rest, above, reads⟩
  · cases inner with
    | nil =>
      obtain ⟨_, callers⟩ := List.cons_eq_cons.1 frames
      rw [callers] at after
      cases after
    | cons first inner =>
      obtain ⟨_, callers⟩ := List.cons_eq_cons.1 frames
      exact ⟨inner, program, after.trans callers, Nat.le_refl _⟩
  · have after := reads.frames
    cases inner with
    | nil =>
      obtain ⟨rfl, callers⟩ := List.cons_eq_cons.1 frames
      rw [callers] at after
      refine ⟨above, rest, after, ?_⟩
      rw [reads.program, List.length_append]
      exact Nat.le_add_left ..
    | cons first inner =>
      obtain ⟨_, callers⟩ := List.cons_eq_cons.1 frames
      refine ⟨above ++ rest :: inner, program, ?_, Nat.le_refl _⟩
      rw [after, callers, List.append_assoc]
      rfl

/-- What the run is still to pass over is unread. -/
theorem lt_of_passesOver {behind : Nat} {inner : List (List UInt8)} {program : List UInt8}
    (passes : PassesOver context machine behind) (frames : machine.frames = inner ++ [program]) :
    behind < program.length := by
  induction machine using step_induction context generalizing inner program with
  | each machine ih =>
    obtain ⟨following, goes⟩ := goes_of_passesOver passes
    rcases passesOver_of_goes goes passes with ⟨own, op, mask, ⟨_, used, _, split⟩, _, most⟩ | later
    · rw [eq_program_of_frames own frames, split, List.length_append, List.length_append]
      omega
    · obtain ⟨above, rest, after, shorter⟩ := frames_of_goes goes frames
      exact Nat.lt_of_lt_of_le (ih following goes later after) shorter

end Machine

/-! ### Programs that differ in masks -/

/-- Two programs of one length that differ at hidden bytes at most; bytes are told by how many are behind them. -/
inductive Agrees (hidden : Nat → Prop) : List UInt8 → List UInt8 → Prop where
  | nil : Agrees hidden [] []
  | cons {byte other : UInt8} {bytes others : List UInt8} (same : other = byte ∨ hidden bytes.length)
      (behind : Agrees hidden bytes others) : Agrees hidden (byte :: bytes) (other :: others)

namespace Agrees

variable {hidden : Nat → Prop} {bytes others front back : List UInt8}

theorem of_places (lengths : others.length = bytes.length)
    (places : ∀ place, others[place]? = bytes[place]? ∨ hidden (bytes.length - 1 - place)) :
    Agrees hidden bytes others := by
  induction bytes generalizing others with
  | nil =>
    rw [List.length_eq_zero_iff.1 lengths]
    exact .nil
  | cons byte bytes ih =>
    obtain ⟨other, others, rfl⟩ := List.exists_cons_of_length_eq_add_one lengths
    refine .cons ?_ (ih (Nat.succ.inj lengths) ?_)
    · exact (places 0).imp_left Option.some.inj
    · intro place
      refine (places (place + 1)).imp_right ?_
      rw [List.length_cons, Nat.add_sub_cancel, Nat.sub_sub, Nat.add_comm 1 place]
      exact id

theorem imp {also : Nat → Prop} (agrees : Agrees hidden bytes others)
    (more : ∀ behind < bytes.length, hidden behind → also behind) : Agrees also bytes others := by
  induction agrees with
  | nil => exact .nil
  | @cons byte other bytes others same _ ih =>
    refine .cons (same.imp_right (more _ (Nat.lt_succ_self _))) (ih ?_)
    intro behind shorter
    exact more behind (Nat.lt_succ_of_lt shorter)

theorem eq (agrees : Agrees hidden bytes others) (hidesNone : ∀ behind, ¬ hidden behind) : others = bytes := by
  induction agrees with
  | nil => rfl
  | cons same _ ih => rw [same.resolve_right (hidesNone _), ih]

theorem split (agrees : Agrees hidden (front ++ back) others) :
    ∃ otherFront otherBack, others = otherFront ++ otherBack ∧ otherFront.length = front.length ∧
      Agrees hidden back otherBack := by
  induction front generalizing others with
  | nil => exact ⟨[], others, rfl, rfl, agrees⟩
  | cons byte front ih =>
    cases agrees with
    | @cons _ other _ others _ behind =>
      obtain ⟨otherFront, otherBack, rfl, lengths, rest⟩ := ih behind
      exact ⟨other :: otherFront, otherBack, rfl, congrArg Nat.succ lengths, rest⟩

/-- In front of all hidden bytes the programs are the same. -/
theorem split_of_front (agrees : Agrees hidden (front ++ back) others)
    (plain : ∀ behind, hidden behind → behind < back.length) :
    ∃ otherBack, others = front ++ otherBack ∧ Agrees hidden back otherBack := by
  induction front generalizing others with
  | nil => exact ⟨others, rfl, agrees⟩
  | cons byte front ih =>
    cases agrees with
    | @cons _ other _ others same behind =>
      obtain ⟨otherBack, rfl, rest⟩ := ih behind
      have far : ¬ hidden (front ++ back).length := by
        intro hides
        have near := plain _ hides
        rw [List.length_append] at near
        omega
      rw [same.resolve_right far]
      exact ⟨otherBack, rfl, rest⟩

end Agrees

namespace Machine

variable {context : Context} {machine following other : Machine}

/-- Two machines that differ in bytes of the glyph's program alone, and there in masks that the first is still to
pass over. -/
structure Alike (context : Context) (machine other : Machine) : Prop where
  registers : other.registers = machine.registers
  frames : ∃ inner program otherProgram, machine.frames = inner ++ [program] ∧
    other.frames = inner ++ [otherProgram] ∧ Agrees (PassesOver context machine) program otherProgram

/-- Of the bytes that a step leaves unread, the run passes over those that the rest of it passes over. -/
theorem later_of_passesOver {behind : Nat} {inner : List (List UInt8)} {rest : List UInt8}
    (goes : Goes context machine following) (frames : following.frames = inner ++ [rest])
    (within : behind < rest.length) (passes : PassesOver context machine behind) :
    PassesOver context following behind := by
  rcases passesOver_of_goes goes passes with ⟨own, _, _, ⟨callers, _⟩, least, _⟩ | later
  · rw [eq_program_of_frames (callers ▸ own) frames] at within
    exact absurd within (Nat.not_lt.2 least)
  · exact later

/-- The bytes of a token are not part of a mask, so a program that differs in masks has the same token. -/
theorem agrees_behind_token {token : Token} {used mask rest otherProgram : List UInt8} {inner : List (List UInt8)}
    (goes : Goes context machine following) (program : machine.program = used ++ (mask ++ rest))
    (takes : Token.Takes used token) (frames : following.frames = inner ++ [rest])
    (agrees : Agrees (PassesOver context machine) machine.program otherProgram) :
    ∃ otherMask otherRest, otherProgram = used ++ (otherMask ++ otherRest) ∧ otherMask.length = mask.length ∧
      Agrees (PassesOver context following) rest otherRest := by
  have plain : ∀ behind, PassesOver context machine behind → behind < (mask ++ rest).length := by
    intro behind passes
    rcases passesOver_of_goes goes passes with ⟨_, op, also, ⟨_, more, takesMore, split⟩, _, most⟩ | later
    · obtain ⟨_, _, tail⟩ := takes.unique takesMore (program.symm.trans split)
      rw [tail, List.length_append]
      omega
    · have unread := lt_of_passesOver later frames
      rw [List.length_append]
      omega
  rw [program] at agrees
  obtain ⟨tail, rfl, unread⟩ := agrees.split_of_front plain
  obtain ⟨otherMask, otherRest, rfl, lengths, left⟩ := unread.split
  exact ⟨otherMask, otherRest, rfl, lengths, left.imp fun _ within => later_of_passesOver goes frames within⟩

/-- Where no subroutine runs. -/
theorem alike_step_own {program otherProgram : List UInt8} (goes : Goes context machine following)
    (frames : machine.frames = [program]) (otherFrames : other.frames = [otherProgram])
    (same : other.registers = machine.registers)
    (agrees : Agrees (PassesOver context machine) program otherProgram) :
    ∃ next, Goes context other next ∧ Alike context following next := by
  obtain ⟨rfl, own⟩ := List.cons_eq_cons.1 frames
  obtain ⟨rfl, otherOwn⟩ := List.cons_eq_cons.1 otherFrames
  have step := goes
  cases goes with
  | @act token used mask rest registers program takes acts covers =>
    have after : Machine.frames { machine with program := rest, registers } = [] ++ [rest] := by
      rw [Machine.frames, own]
      rfl
    obtain ⟨otherMask, otherRest, otherProgram, lengths, left⟩ :=
      agrees_behind_token step program takes after agrees
    refine ⟨_, .act otherProgram takes (same ▸ acts) (lengths.trans covers), rfl, [], rest, otherRest, after, ?_, left⟩
    rw [Machine.frames, otherOwn]
    rfl
  | @call op table operand operands body used rest program takes chosen stack found shallow =>
    have after : Machine.frames ⟨body, machine.callers.push rest, { machine.registers with operands }⟩ =
        [body] ++ [rest] := by
      rw [Machine.frames, Callers.programs_push, own]
      rfl
    have unmasked : machine.program = used ++ ([] ++ rest) := program
    obtain ⟨otherMask, otherRest, otherProgram, lengths, left⟩ :=
      agrees_behind_token step unmasked takes after agrees
    rw [List.length_eq_zero_iff.1 lengths, List.nil_append] at otherProgram
    have otherShallow : other.callers.depth < context.maxDepth := by
      rw [machine.callers.depth_eq, own] at shallow
      rw [other.callers.depth_eq, otherOwn]
      exact shallow
    refine ⟨_, .call otherProgram takes chosen (same ▸ stack) found otherShallow, ?_, [body], rest, otherRest, after,
      ?_, left⟩
    · rw [same]
    · rw [Machine.frames, Callers.programs_push, otherOwn]
      rfl
  | leave _ popped =>
    have called := Callers.programs_of_pop? popped
    rw [own] at called
    cases called

/-- A subroutine is the same on both sides, and the glyph's program waits below. -/
theorem alike_step_called {first program otherProgram : List UInt8} {inner : List (List UInt8)}
    (goes : Goes context machine following) (frames : machine.frames = first :: inner ++ [program])
    (otherFrames : other.frames = first :: inner ++ [otherProgram]) (same : other.registers = machine.registers)
    (agrees : Agrees (PassesOver context machine) program otherProgram) :
    ∃ next, Goes context other next ∧ Alike context following next := by
  obtain ⟨reads, callers⟩ := List.cons_eq_cons.1 frames
  obtain ⟨otherReads, otherCallers⟩ := List.cons_eq_cons.1 otherFrames
  have joined : other.program = machine.program := otherReads.trans reads.symm
  rcases leaves_or_readsOn goes with ⟨leaves, after, unchanged⟩ | ⟨used, behind, above, step⟩
  · have called : other.callers.programs ≠ [] := by
      rw [otherCallers]
      exact List.append_ne_nil_of_right_ne_nil inner (List.cons_ne_nil _ _)
    obtain ⟨next, also, shape, kept⟩ := goes_of_leaves (joined ▸ leaves) called
    have left : following.frames = inner ++ [program] := after.trans callers
    refine ⟨next, also, ?_, inner, program, otherProgram, left, shape.trans otherCallers, ?_⟩
    · rw [kept, same, unchanged]
    · exact agrees.imp fun _ within => later_of_passesOver goes left within
  · have depth : other.callers.depth ≤ machine.callers.depth :=
      Nat.le_of_eq ((depth_of_frames otherFrames).trans (depth_of_frames frames).symm)
    obtain ⟨next, also, shape, kept⟩ := step.elsewhere other behind (joined.trans step.program) same depth
    have after : following.frames = (above ++ behind :: inner) ++ [program] := by
      rw [step.frames, callers, List.append_assoc]
      rfl
    refine ⟨next, also, kept, above ++ behind :: inner, program, otherProgram, after, ?_, ?_⟩
    · rw [shape, otherCallers, List.append_assoc]
      rfl
    · exact agrees.imp fun _ within => later_of_passesOver goes after within

theorem alike_step (alike : Alike context machine other) (goes : Goes context machine following) :
    ∃ next, Goes context other next ∧ Alike context following next := by
  obtain ⟨same, inner, program, otherProgram, frames, otherFrames, agrees⟩ := alike
  cases inner with
  | nil => exact alike_step_own goes frames otherFrames same agrees
  | cons first inner => exact alike_step_called goes frames otherFrames same agrees

/-- Where the run goes no further, no mask is left to pass over, so nothing differs. -/
theorem eq_of_alike (alike : Alike context machine other) (halts : ¬ ∃ following, Goes context machine following) :
    other = machine := by
  obtain ⟨same, inner, program, otherProgram, frames, otherFrames, agrees⟩ := alike
  have hidesNone : ∀ behind, ¬ PassesOver context machine behind :=
    fun behind passes => halts (goes_of_passesOver passes)
  rw [agrees.eq hidesNone, ← frames] at otherFrames
  exact ext_frames otherFrames same

theorem result_run_of_alike (alike : Alike context machine other) :
    (other.run context).result = (machine.run context).result := by
  induction machine using step_induction context generalizing other with
  | each machine ih =>
    by_cases goesOn : ∃ following, Goes context machine following
    · obtain ⟨following, goes⟩ := goesOn
      obtain ⟨next, also, alike⟩ := alike_step alike goes
      rw [result_run_of_goes goes, result_run_of_goes also, ih following goes alike]
    · rw [eq_of_alike alike goesOn]

/-- A mask has one bit for every hint that the operators so far have declared, those in subroutines and the mask
operator itself included. And whatever bytes stand in the masks that the run passes over in the glyph's program, it
comes to the same. -/
theorem masks_sized_and_unread (context : Context) (nominal : Float) (program : List UInt8) :
    (∀ before machine following after op,
      visits context (.start nominal program) = before ++ machine :: following :: after → machine.operator? = some (.mask op) →
      ∃ mask, Skips op mask machine following ∧ mask.length = (declared (before ++ [machine]) + 7) / 8) ∧
    ∀ other, other.length = program.length →
      (∀ place, other[place]? = program[place]? ∨
        PassesOver context (.start nominal program) (program.length - 1 - place)) →
      (Outline.ofProgram context nominal other).result = (Outline.ofProgram context nominal program).result := by
  constructor
  · intro before machine following after op visited next
    obtain ⟨mask, skips, covers⟩ := skips_of_goes (goes_of_visited visited) next
    have joined : visits context (.start nominal program) = (before ++ [machine]) ++ following :: after := by
      rw [visited, List.append_assoc]
      rfl
    have hints : following.registers.hints = 0 + declared (before ++ [machine]) := hints_of_visited joined
    rw [Nat.zero_add] at hints
    refine ⟨mask, skips, ?_⟩
    rw [covers, Registers.maskLength, hints]
  · intro other lengths places
    have alike : Alike context (.start nominal program) (.start nominal other) :=
      ⟨rfl, [], program, other, rfl, rfl, .of_places lengths places⟩
    rw [Outline.ofProgram, Outline.ofProgram, Logged.result_bind, Logged.result_bind, result_run_of_alike alike]

/-- One subroutine, which declares eight hints behind a width. -/
def hinting : Context := { globals := .ofList [List.replicate 17 139 ++ [18]] }

/-- A program that calls it and declares a ninth hint at a mask, which so has two bytes. -/
def hinted (first second : UInt8) : List UInt8 := [32, 29, 139, 139, 19, first, second, 14]

/-- A mask that as tokens would begin a number, and `return` and `endchar` in its place. -/
theorem masks_sized_and_unread_called :
    (∃ before machine following after,
      visits hinting (.start 500.0 (hinted 255 128)) = before ++ machine :: following :: after ∧
      machine.operator? = some (.mask .hintmask) ∧ declared (before ++ [machine]) = 9 ∧
      ∃ mask, Skips .hintmask mask machine following ∧ mask.length = 2) ∧
    (∀ place, (hinted 11 14)[place]? = (hinted 255 128)[place]? ∨
      PassesOver hinting (.start 500.0 (hinted 255 128)) ((hinted 255 128).length - 1 - place)) ∧
    (Outline.ofProgram hinting 500.0 (hinted 11 14)).result =
      (Outline.ofProgram hinting 500.0 (hinted 255 128)).result := by
  have visited : visits hinting (.start 500.0 (hinted 255 128)) = trail hinting 26 (.start 500.0 (hinted 255 128)) := by
    have ended : loop hinting 26 (.start 500.0 (hinted 255 128)) = some (.ok _) := rfl
    exact visits_eq_trail ended
  have next : (trail hinting 26 (.start 500.0 (hinted 255 128)))[23]?.bind operator? = some (.mask .hintmask) := rfl
  have own : (trail hinting 26 (.start 500.0 (hinted 255 128)))[23]?.map (·.callers.programs) = some [] := rfl
  have left : (trail hinting 26 (.start 500.0 (hinted 255 128)))[24]?.map Machine.program = some [14] := rfl
  have hints : declared ((trail hinting 26 (.start 500.0 (hinted 255 128))).take 24) = 9 := rfl
  -- From here on only these facts about the machines count, which are large terms.
  generalize trail hinting 26 (.start 500.0 (hinted 255 128)) = run at visited next own left hints
  obtain ⟨machine, here, next⟩ := Option.bind_eq_some_iff.1 next
  obtain ⟨following, there, left⟩ := Option.map_eq_some_iff.1 left
  obtain ⟨within, rfl⟩ := List.getElem?_eq_some_iff.1 here
  obtain ⟨also, rfl⟩ := List.getElem?_eq_some_iff.1 there
  have own : run[23].callers.programs = [] := by
    rw [here] at own
    exact Option.some.inj own
  rw [← List.take_append_drop 23 run, List.drop_eq_getElem_cons within, List.drop_eq_getElem_cons also] at visited
  rw [← List.take_append_getElem within] at hints
  obtain ⟨mask, skips, covers⟩ := (masks_sized_and_unread hinting 500.0 (hinted 255 128)).1 _ _ _ _ _ visited next
  rw [hints] at covers
  have passes (behind : Nat) (least : 1 ≤ behind) (most : behind < 1 + 2) :
      PassesOver hinting (.start 500.0 (hinted 255 128)) behind := by
    refine ⟨_, _, _, _, _, mask, visited, own, skips, ?_, ?_⟩
    · rw [left]
      exact least
    · rw [left, covers]
      exact most
  have places : ∀ place, (hinted 11 14)[place]? = (hinted 255 128)[place]? ∨
      PassesOver hinting (.start 500.0 (hinted 255 128)) ((hinted 255 128).length - 1 - place) := by
    intro place
    match place with
    | 0 | 1 | 2 | 3 | 4 | 7 => exact .inl rfl
    | 5 => exact .inr (passes 2 (by decide) (by decide))
    | 6 => exact .inr (passes 1 (by decide) (by decide))
    | _ + 8 => exact .inl rfl
  refine ⟨⟨_, _, _, _, visited, next, hints, mask, skips, covers⟩, places, ?_⟩
  exact (masks_sized_and_unread hinting 500.0 (hinted 255 128)).2 (hinted 11 14) rfl places

end Machine
end CompactFont.Charstring
