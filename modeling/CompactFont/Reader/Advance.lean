import CompactFont.Reader

/-! A reader only ever moves forward: what it leaves is a suffix of what it was given. -/

namespace CompactFont.Reader

variable {α β : Type}

def remainder : EStateM.Result Fault (List UInt8) α → List UInt8
  | .ok _ rest => rest
  | .error _ rest => rest

def Advances (reader : Reader α) : Prop := ∀ bytes, remainder (reader bytes) <:+ bytes

theorem advances_pure (value : α) : Advances (pure value) := fun _ => List.suffix_rfl

theorem advances_throw (fault : Fault) : Advances (throw fault : Reader α) := fun _ => List.suffix_rfl

theorem advances_bind {reader : Reader α} {next : α → Reader β} (first : Advances reader)
    (second : ∀ value, Advances (next value)) : Advances (reader >>= next) := by
  intro bytes
  have start := first bytes
  show remainder (EStateM.bind reader next bytes) <:+ bytes
  unfold EStateM.bind
  cases found : reader bytes with
  | ok value rest =>
    rw [found] at start
    exact (second value rest).trans start
  | error fault rest =>
    rw [found] at start
    exact start

theorem advances_byte : Advances byte := by
  intro bytes
  cases bytes with
  | nil => exact List.suffix_rfl
  | cons b rest => exact List.suffix_cons b rest

theorem advances_digits (width value : Nat) : Advances (digits value width) := by
  induction width generalizing value with
  | zero => exact advances_pure value
  | succ width ih => exact advances_bind advances_byte fun b => ih _

theorem advances_unsigned (width : Nat) : Advances (unsigned width) := advances_digits width 0

theorem advances_signed (width : Nat) : Advances (signed width) :=
  advances_bind (advances_unsigned width) fun _ => advances_pure _

theorem advances_shortInteger (lead : UInt8) : Advances (shortInteger lead) := by
  unfold shortInteger
  split
  · exact advances_pure _
  · split
    · exact advances_bind advances_byte fun _ => advances_pure _
    · exact advances_bind advances_byte fun _ => advances_pure _

theorem suffix_of_ok {reader : Reader α} (moves : Advances reader) {bytes rest : List UInt8} {value : α}
    (found : reader bytes = .ok value rest) : rest <:+ bytes := by
  have ends := moves bytes
  rwa [found] at ends

end CompactFont.Reader
