import CompactFont.Proofs.Charstring.Rolling

/-! What the computing operators ask of the workspace and what they leave of it. Each has a number of operands that it needs
and at most one condition of its own; what lies deeper than it reaches stays, and so does the transient array but for the one
slot that `put` names. -/

namespace CompactFont.Charstring

/-- An operand that can stand for a slot, a depth or a count. -/
def IsIndex (x : Float) : Prop := x.isFinite = true ∧ x.abs ≤ 2147483647.0

/-- A finite number without its fraction. -/
def truncated (x : Float) : Int := (Number.truncate? x).getD 0

theorem index?_eq_some_iff {x : Float} {n : Int} : index? x = some n ↔ IsIndex x ∧ truncated x = n := by
  rw [index?, IsIndex, truncated, Number.isFinite_iff]
  cases Number.truncate? x with
  | none => simp
  | some m => simp [and_comm]

/-! ### The parts of the operators -/

section Parts

variable {operands rest after : List Float} {found left : Workspace} {x y : Float} {n : Int}

theorem pop_eq_ok_iff : pop operands = .ok (x, rest) ↔ operands = x :: rest := by
  cases operands with
  | nil => exact ⟨nofun, nofun⟩
  | cons first rest => simp [pop]

theorem popPair_eq_ok_iff : popPair operands = .ok (x, y, rest) ↔ operands = y :: x :: rest := by
  match operands with
  | [] | [_] => exact ⟨nofun, nofun⟩
  | second :: first :: rest => simp [popPair, and_left_comm]

theorem popIndex_eq_ok_iff :
    popIndex operands = .ok (n, rest) ↔ ∃ x, operands = x :: rest ∧ IsIndex x ∧ truncated x = n := by
  match operands with
  | [] => exact ⟨nofun, nofun⟩
  | x :: below =>
    rw [popIndex_cons]
    cases decided : index? x with
    | none => simp [← index?_eq_some_iff, decided]
    | some m => simp [← index?_eq_some_iff, decided, and_comm]

theorem unary_eq_ok_iff {f : Float → Except GlyphFault Float} :
    unary f operands = .ok after ↔ ∃ x rest y, operands = x :: rest ∧ f x = .ok y ∧ after = y :: rest := by
  simp only [unary, bind_eq_ok_iff, Prod.exists, pop_eq_ok_iff, return_eq_ok_iff, exists_and_left]

theorem binary_eq_ok_iff {f : Float → Float → Except GlyphFault Float} :
    binary f operands = .ok after ↔
      ∃ x y rest z, operands = y :: x :: rest ∧ f x y = .ok z ∧ after = z :: rest := by
  simp only [binary, bind_eq_ok_iff, Prod.exists, popPair_eq_ok_iff, return_eq_ok_iff, exists_and_left]

theorem onStack_eq_ok_iff {change : List Float → Except GlyphFault (List Float)} :
    onStack change found = .ok left ↔
      ∃ operands, change found.operands = .ok operands ∧ left = { found with operands } := by
  rw [onStack]
  cases change found.operands <;> simp [Except.map, eq_comm]

theorem choose_eq_ok_iff : choose operands = .ok after ↔
    ∃ low high x y rest, operands = high :: low :: y :: x :: rest ∧ after = (if low ≤ high then x else y) :: rest := by
  simp only [choose, bind_eq_ok_iff, Prod.exists, popPair_eq_ok_iff, binary_eq_ok_iff]
  simp [eq_comm]

theorem map_pop_eq_ok_iff : (pop operands).map (·.2) = .ok after ↔ ∃ x, operands = x :: after := by
  cases operands with
  | nil => exact ⟨nofun, nofun⟩
  | cons first rest => simp [pop, Except.map]

theorem duplicate_eq_ok_iff :
    duplicate operands = .ok after ↔ ∃ x rest, operands = x :: rest ∧ after = x :: x :: rest := by
  simp only [duplicate, bind_eq_ok_iff, Prod.exists, pop_eq_ok_iff, return_eq_ok_iff]

theorem exchange_eq_ok_iff :
    exchange operands = .ok after ↔ ∃ x y rest, operands = y :: x :: rest ∧ after = x :: y :: rest := by
  simp only [exchange, bind_eq_ok_iff, Prod.exists, popPair_eq_ok_iff, return_eq_ok_iff]

theorem copy_eq_ok_iff : copy operands = .ok after ↔
    ∃ depth rest x, operands = depth :: rest ∧ IsIndex depth ∧ rest[(truncated depth).toNat]? = some x ∧
      after = x :: rest := by
  simp only [copy, bind_eq_ok_iff, Prod.exists, popIndex_eq_ok_iff]
  constructor
  · rintro ⟨_, rest, ⟨depth, split, index, rfl⟩, copied⟩
    split at copied
    next x there =>
      cases copied
      exact ⟨depth, rest, x, split, index, there, rfl⟩
    next => cases copied
  · rintro ⟨depth, rest, x, split, index, there, rfl⟩
    refine ⟨_, rest, ⟨depth, split, index, rfl⟩, ?_⟩
    simp only [there]
    rfl

theorem rollBlock_eq_ok_iff : rollBlock operands = .ok after ↔
    ∃ shift count rest, operands = shift :: count :: rest ∧ IsIndex shift ∧ IsIndex count ∧
      (0 ≤ truncated count ∧ truncated count ≤ rest.length) ∧
      after = rolled (truncated count).toNat (truncated shift) rest := by
  constructor
  · intro turned
    obtain ⟨⟨n, below⟩, first, later⟩ := bind_eq_ok_iff.1 turned
    obtain ⟨⟨m, rest⟩, second, _⟩ := bind_eq_ok_iff.1 later
    obtain ⟨shift, rfl, shifts⟩ := popIndex_eq_ok_iff.1 first
    obtain ⟨count, rfl, counts⟩ := popIndex_eq_ok_iff.1 second
    rw [rollBlock_of_indices (index?_eq_some_iff.2 shifts) (index?_eq_some_iff.2 counts)] at turned
    obtain ⟨shifts, rfl⟩ := shifts
    obtain ⟨counts, rfl⟩ := counts
    split at turned
    next fits =>
      cases turned
      exact ⟨shift, count, rest, rfl, shifts, counts, fits, rfl⟩
    next => cases turned
  · rintro ⟨shift, count, rest, rfl, shifts, counts, fits, rfl⟩
    rw [rollBlock_of_indices (index?_eq_some_iff.2 ⟨shifts, rfl⟩) (index?_eq_some_iff.2 ⟨counts, rfl⟩), if_pos fits]

theorem store_eq_ok_iff : store found = .ok left ↔
    ∃ slot value rest, found.operands = slot :: value :: rest ∧ IsIndex slot ∧
      left = ⟨rest, found.transient.put (truncated slot) value⟩ := by
  simp only [store, bind_eq_ok_iff, Prod.exists, popIndex_eq_ok_iff, pop_eq_ok_iff]
  constructor
  · rintro ⟨_, _, ⟨slot, split, index, rfl⟩, value, rest, rfl, stored⟩
    cases stored
    exact ⟨slot, value, rest, split, index, rfl⟩
  · rintro ⟨slot, value, rest, split, index, rfl⟩
    exact ⟨_, _, ⟨slot, split, index, rfl⟩, value, rest, rfl, rfl⟩

theorem fetch_eq_ok_iff : fetch found = .ok left ↔
    ∃ slot rest value, found.operands = slot :: rest ∧ IsIndex slot ∧
      found.transient.get? (truncated slot) = some value ∧ left = { found with operands := value :: rest } := by
  simp only [fetch, bind_eq_ok_iff, Prod.exists, popIndex_eq_ok_iff]
  constructor
  · rintro ⟨_, rest, ⟨slot, split, index, rfl⟩, fetched⟩
    split at fetched
    next value set =>
      cases fetched
      exact ⟨slot, rest, value, split, index, set, rfl⟩
    next => cases fetched
  · rintro ⟨slot, rest, value, split, index, set, rfl⟩
    refine ⟨_, rest, ⟨slot, split, index, rfl⟩, ?_⟩
    simp only [set]
    rfl

end Parts

namespace ComputeOperator

/-- The number of operands that an operator needs. -/
def arity : ComputeOperator → Nat
  | .dotsection => 0
  | .not | .abs | .neg | .drop | .get | .sqrt | .dup | .index => 1
  | .and | .or | .add | .sub | .div | .eq | .put | .mul | .exch | .roll => 2
  | .ifelse => 4

/-- What an operator asks besides the number of operands. -/
def Admits : ComputeOperator → Workspace → Prop
  | .div, ⟨divisor :: _, _⟩ => (divisor == 0.0) = false
  | .sqrt, ⟨x :: _, _⟩ => x ≥ 0.0
  | .put, ⟨slot :: _, _⟩ => IsIndex slot
  | .get, ⟨slot :: _, transient⟩ => IsIndex slot ∧ ∃ value, transient.get? (truncated slot) = some value
  | .index, ⟨depth :: rest, _⟩ => IsIndex depth ∧ max (truncated depth) 0 < rest.length
  | .roll, ⟨shift :: count :: rest, _⟩ =>
    IsIndex shift ∧ IsIndex count ∧ 0 ≤ truncated count ∧ truncated count ≤ rest.length
  | _, _ => True

/-- How many operands from the top an operator can change. -/
def reach : ComputeOperator → List Float → Nat
  | .roll, _ :: count :: _ => (truncated count).toNat + 2
  | op, _ => op.arity

/-- What an operator that succeeds leaves of the workspace. -/
structure Leaves (op : ComputeOperator) (found left : Workspace) : Prop where
  below : ∃ above, left.operands = above ++ found.operands.drop (op.reach found.operands)
  kept : op ≠ .put → left.transient = found.transient
  stored : op = .put → ∃ slot value rest, found.operands = slot :: value :: rest ∧
    left.transient.get? (truncated slot) = some value ∧
    ∀ other, other ≠ truncated slot → left.transient.get? other = found.transient.get? other

variable {op : ComputeOperator} {found left : Workspace}

theorem exists_apply_eq_ok_iff :
    (∃ left, op.apply found = .ok left) ↔ op.arity ≤ found.operands.length ∧ op.Admits found := by
  obtain ⟨operands, transient⟩ := found
  cases op with
  | dotsection => simp [apply, arity, Admits]
  | not | abs | neg | drop | dup =>
    simp only [apply, onStack_eq_ok_iff, unary_eq_ok_iff, map_pop_eq_ok_iff, duplicate_eq_ok_iff]
    cases operands with
    | nil => simp [arity]
    | cons x rest => simp [arity, Admits]
  | and | or | add | sub | eq | mul | exch =>
    simp only [apply, onStack_eq_ok_iff, binary_eq_ok_iff, exchange_eq_ok_iff]
    rcases operands with _ | ⟨y, _ | ⟨x, rest⟩⟩ <;> simp [arity, Admits]
  | ifelse =>
    simp only [apply, onStack_eq_ok_iff, choose_eq_ok_iff]
    rcases operands with _ | ⟨high, _ | ⟨low, _ | ⟨y, _ | ⟨x, rest⟩⟩⟩⟩ <;> simp [arity, Admits]
  | div =>
    simp only [apply, onStack_eq_ok_iff, binary_eq_ok_iff]
    rcases operands with _ | ⟨y, _ | ⟨x, rest⟩⟩
    · simp [arity]
    · simp [arity]
    · cases zero : y == 0.0 <;> simp [arity, Admits, zero]
  | sqrt =>
    simp only [apply, onStack_eq_ok_iff, unary_eq_ok_iff]
    cases operands with
    | nil => simp [arity]
    | cons x rest => by_cases root : x ≥ 0.0 <;> simp [arity, Admits, root]
  | get =>
    simp only [apply, fetch_eq_ok_iff]
    cases operands with
    | nil => simp [arity]
    | cons slot rest => simp [arity, Admits]
  | index =>
    simp only [apply, onStack_eq_ok_iff, copy_eq_ok_iff]
    cases operands with
    | nil => simp [arity]
    | cons depth rest =>
      have there : (∃ x, rest[(truncated depth).toNat]? = some x) ↔ max (truncated depth) 0 < rest.length := by
        simp only [List.getElem?_eq_some_iff, exists_comm, exists_eq', exists_prop, and_true]
        omega
      simp [arity, Admits, ← there]
  | put | roll =>
    simp only [apply, onStack_eq_ok_iff, store_eq_ok_iff, rollBlock_eq_ok_iff]
    rcases operands with _ | ⟨first, _ | ⟨second, rest⟩⟩ <;> simp [arity, Admits]

theorem Leaves.of_ne_put {operands : List Float} {transient : Transient} (other : op ≠ .put) (above : List Float) :
    op.Leaves ⟨operands, transient⟩ ⟨above ++ operands.drop (op.reach operands), transient⟩ :=
  ⟨⟨above, rfl⟩, fun _ => rfl, fun put => absurd put other⟩

theorem leaves_of_apply (applied : op.apply found = .ok left) : op.Leaves found left := by
  obtain ⟨operands, transient⟩ := found
  cases op with
  | dotsection =>
    cases applied
    exact .of_ne_put (by decide) []
  | not | abs | neg | sqrt =>
    obtain ⟨_, done, rfl⟩ := onStack_eq_ok_iff.1 applied
    obtain ⟨x, rest, y, rfl, _, rfl⟩ := unary_eq_ok_iff.1 done
    exact .of_ne_put (by decide) [y]
  | and | or | add | sub | div | eq | mul =>
    obtain ⟨_, done, rfl⟩ := onStack_eq_ok_iff.1 applied
    obtain ⟨x, y, rest, z, rfl, _, rfl⟩ := binary_eq_ok_iff.1 done
    exact .of_ne_put (by decide) [z]
  | drop =>
    simp only [apply, onStack_eq_ok_iff, map_pop_eq_ok_iff] at applied
    obtain ⟨rest, ⟨x, rfl⟩, rfl⟩ := applied
    exact .of_ne_put (by decide) []
  | put =>
    obtain ⟨slot, value, rest, rfl, _, rfl⟩ := store_eq_ok_iff.1 applied
    refine ⟨⟨[], rfl⟩, fun other => absurd rfl other, fun _ => ⟨slot, value, rest, rfl, ?_, ?_⟩⟩
    · exact Transient.get?_put_self transient _ value
    · exact fun other => Transient.get?_put_of_ne transient value
  | get =>
    obtain ⟨slot, rest, value, rfl, _, _, rfl⟩ := fetch_eq_ok_iff.1 applied
    exact .of_ne_put (by decide) [value]
  | ifelse =>
    obtain ⟨_, done, rfl⟩ := onStack_eq_ok_iff.1 applied
    obtain ⟨low, high, x, y, rest, rfl, rfl⟩ := choose_eq_ok_iff.1 done
    exact .of_ne_put (by decide) [_]
  | dup =>
    obtain ⟨_, done, rfl⟩ := onStack_eq_ok_iff.1 applied
    obtain ⟨x, rest, rfl, rfl⟩ := duplicate_eq_ok_iff.1 done
    exact .of_ne_put (by decide) [x, x]
  | exch =>
    obtain ⟨_, done, rfl⟩ := onStack_eq_ok_iff.1 applied
    obtain ⟨x, y, rest, rfl, rfl⟩ := exchange_eq_ok_iff.1 done
    exact .of_ne_put (by decide) [x, y]
  | index =>
    obtain ⟨_, done, rfl⟩ := onStack_eq_ok_iff.1 applied
    obtain ⟨depth, rest, x, rfl, _, _, rfl⟩ := copy_eq_ok_iff.1 done
    exact .of_ne_put (by decide) [x]
  | roll =>
    obtain ⟨_, done, rfl⟩ := onStack_eq_ok_iff.1 applied
    obtain ⟨shift, count, rest, rfl, _, _, _, rfl⟩ := rollBlock_eq_ok_iff.1 done
    exact .of_ne_put (by decide) ((rest.take _).rotate _)

end ComputeOperator

end CompactFont.Charstring
