import CompactFont.Charstring.Token
import CompactFont.Reader.Written

/-! The written forms of tokens. No form is the beginning of another, so that bytes have one reading at most,
whatever follows them, and a program without mask operators is read if and only if it is made of such forms. -/

namespace CompactFont.Charstring

/-! ### Forms -/

/-- The ways to write an integer, by the number of bytes. -/
inductive Form where
  | one
  | two
  | three
deriving DecidableEq, Repr

namespace Form

/-- The integers that can be written in a form. -/
def Admits (n : Int) : Form → Prop
  | .one => -107 ≤ n ∧ n ≤ 107
  | .two => (108 ≤ n ∧ n ≤ 1131) ∨ (-1131 ≤ n ∧ n ≤ -108)
  | .three => -32768 ≤ n ∧ n ≤ 32767

instance (n : Int) (form : Form) : Decidable (form.Admits n) :=
  match form with
  | .one => inferInstanceAs (Decidable (-107 ≤ n ∧ n ≤ 107))
  | .two => inferInstanceAs (Decidable ((108 ≤ n ∧ n ≤ 1131) ∨ (-1131 ≤ n ∧ n ≤ -108)))
  | .three => inferInstanceAs (Decidable (-32768 ≤ n ∧ n ≤ 32767))

/-- A number in two bytes, of which the first counts from a lead. -/
def pair (lead n : Nat) : List UInt8 := [UInt8.ofNat (lead + n / 256), UInt8.ofNat n]

def bytes (n : Int) : Form → List UInt8
  | .one => [UInt8.ofNat (n + 139).toNat]
  | .two => if 0 < n then pair 247 (n - 108).toNat else pair 251 (-108 - n).toNat
  | .three => 28 :: BigEndian.bytes 2 (n % 65536).toNat

theorem length_bytes (n : Int) (form : Form) :
    (form.bytes n).length = match form with | .one => 1 | .two => 2 | .three => 3 := by
  cases form with
  | one => rfl
  | two =>
    rw [bytes]
    split <;> rfl
  | three => rfl

theorem singleton_eq_iff {n : Nat} (fits : n < 256) {lead : UInt8} {used : List UInt8} :
    [UInt8.ofNat n] = lead :: used ↔ lead.toNat = n ∧ used = [] := by
  have whole : (UInt8.ofNat n).toNat = n := by
    rw [UInt8.toNat_ofNat']
    omega
  rw [List.cons_eq_cons, ← UInt8.toNat_inj, whole, eq_comm, eq_comm (a := [])]

theorem pair_eq_iff {start n : Nat} (fits : start + n / 256 < 256) {lead : UInt8} {used : List UInt8} :
    pair start n = lead :: used ↔ lead.toNat = start + n / 256 ∧ ∃ low : UInt8, used = [low] ∧ low.toNat = n % 256 := by
  have high : (UInt8.ofNat (start + n / 256)).toNat = start + n / 256 := by
    rw [UInt8.toNat_ofNat']
    omega
  have low : (UInt8.ofNat n).toNat = n % 256 := UInt8.toNat_ofNat'
  rw [pair, List.cons_eq_cons, ← UInt8.toNat_inj, high]
  constructor
  · rintro ⟨same, rfl⟩
    exact ⟨same.symm, _, rfl, low⟩
  · rintro ⟨same, byte, rfl, value⟩
    rw [same, UInt8.toNat_inj.1 (low.trans value.symm)]
    exact ⟨rfl, rfl⟩

/-- The two short forms are told apart, and from all else, by their lead. -/
theorem finds_shortInteger_iff {lead : UInt8} (low : 32 ≤ lead) (high : lead ≠ 255) {used : List UInt8} {n : Int} :
    (Reader.shortInteger lead).Finds used n ↔
      (Admits n .one ∧ bytes n .one = lead :: used) ∨ (Admits n .two ∧ bytes n .two = lead :: used) := by
  have least : 32 ≤ lead.toNat := UInt8.le_iff_toNat_le.1 low
  have most : lead.toNat ≤ 254 := by
    have other : lead.toNat ≠ 255 := fun same => high (UInt8.toNat_inj.1 same)
    have bound := lead.toNat_lt
    omega
  rw [Reader.finds_shortInteger_iff]
  simp only [UInt8.lt_iff_toNat_lt, UInt8.reduceToNat]
  constructor
  · rintro (⟨small, rfl, rfl⟩ | ⟨large, small, next, rfl, rfl⟩ | ⟨_, large, next, rfl, rfl⟩)
    · left
      refine ⟨⟨by omega, by omega⟩, (singleton_eq_iff (by omega)).2 ⟨by omega, rfl⟩⟩
    · right
      have bound := next.toNat_lt
      refine ⟨.inl ⟨by omega, by omega⟩, ?_⟩
      rw [bytes, if_pos (by omega), pair_eq_iff (by omega)]
      exact ⟨by omega, next, rfl, by omega⟩
    · right
      have bound := next.toNat_lt
      refine ⟨.inr ⟨by omega, by omega⟩, ?_⟩
      rw [bytes, if_neg (by omega), pair_eq_iff (by omega)]
      exact ⟨by omega, next, rfl, by omega⟩
  · rintro (⟨⟨least, most⟩, written⟩ | ⟨⟨least, most⟩ | ⟨least, most⟩, written⟩)
    · obtain ⟨same, rfl⟩ := (singleton_eq_iff (by omega)).1 written
      exact .inl ⟨by omega, rfl, by omega⟩
    · rw [bytes, if_pos (by omega), pair_eq_iff (by omega)] at written
      obtain ⟨same, next, rfl, value⟩ := written
      exact .inr (.inl ⟨by omega, by omega, next, rfl, by omega⟩)
    · rw [bytes, if_neg (by omega), pair_eq_iff (by omega)] at written
      obtain ⟨same, next, rfl, value⟩ := written
      exact .inr (.inr ⟨by omega, by omega, next, rfl, by omega⟩)

/-- A short form begins with a lead that nothing else begins with. -/
theorem exists_lead {n : Int} {form : Form} (admits : form.Admits n) (short : form ≠ .three) :
    ∃ lead used, form.bytes n = lead :: used ∧ 32 ≤ lead ∧ lead ≠ 255 := by
  have within {value : Nat} (low : 32 ≤ value) (high : value < 255) :
      32 ≤ UInt8.ofNat value ∧ UInt8.ofNat value ≠ 255 := by
    have whole : (UInt8.ofNat value).toNat = value := by
      rw [UInt8.toNat_ofNat']
      omega
    rw [UInt8.le_iff_toNat_le, ← UInt8.toNat_inj.ne, whole]
    exact ⟨low, Nat.ne_of_lt high⟩
  cases form with
  | one =>
    obtain ⟨least, most⟩ := admits
    exact ⟨_, _, rfl, within (by omega) (by omega)⟩
  | two =>
    unfold bytes
    rcases admits with ⟨least, most⟩ | ⟨least, most⟩
    · rw [if_pos (by omega)]
      exact ⟨_, _, rfl, within (by omega) (by omega)⟩
    · rw [if_neg (by omega)]
      exact ⟨_, _, rfl, within (by omega) (by omega)⟩
  | three => exact absurd rfl short

/-- The numbers that two bytes in two's complement can be. -/
theorem bmod_eq_iff {value : Nat} (fits : value < 65536) {n : Int} :
    n = (value : Int).bmod 65536 ↔ Admits n .three ∧ value = (n % 65536).toNat := by
  rw [Int.bmod_def, Admits]
  split <;> omega

theorem finds_signed_iff {used : List UInt8} {n : Int} :
    (Reader.signed 2).Finds used n ↔ Admits n .three ∧ bytes n .three = 28 :: used := by
  have fits (value : Nat) : value < Nat.pow 256 2 ↔ value < 65536 := Iff.rfl
  rw [Reader.finds_signed_iff, bytes, List.cons_eq_cons, eq_comm (b := used), and_iff_right rfl]
  constructor
  · rintro ⟨size, same⟩
    have small := BigEndian.value_lt used
    rw [size] at small
    obtain ⟨admits, value⟩ := (bmod_eq_iff ((fits _).1 small)).1 same
    rw [← value, ← size]
    exact ⟨admits, (BigEndian.bytes_value used).symm⟩
  · rintro ⟨admits, rfl⟩
    have small : (n % 65536).toNat < 65536 := by omega
    rw [BigEndian.length_bytes, BigEndian.value_bytes ((fits _).2 small)]
    exact ⟨rfl, (bmod_eq_iff small).2 ⟨admits, rfl⟩⟩

end Form

/-! ### Operators -/

def Opcode.bytes : Opcode → List UInt8
  | .single code => [code]
  | .escaped code => [12, code]

/-- A code that cannot be taken for a number or an escape. -/
def Opcode.IsOperator : Opcode → Prop
  | .single code => code < 32 ∧ code ≠ 12 ∧ code ≠ 28
  | .escaped _ => True

namespace Operator

theorem isOperator_opcode (op : Operator) : op.opcode.IsOperator := by
  cases op with
  | stem op => cases op <;> exact ⟨by decide, by decide, by decide⟩
  | mask op => cases op <;> exact ⟨by decide, by decide, by decide⟩
  | move op => cases op <;> exact ⟨by decide, by decide, by decide⟩
  | draw op => cases op <;> exact ⟨by decide, by decide, by decide⟩
  | compute op => cases op <;> exact trivial
  | flex op => cases op <;> exact trivial
  | random => exact trivial
  | callsubr => exact ⟨by decide, by decide, by decide⟩
  | callgsubr => exact ⟨by decide, by decide, by decide⟩
  | ret => exact ⟨by decide, by decide, by decide⟩
  | endchar => exact ⟨by decide, by decide, by decide⟩

/-- No two operators have one code. -/
theorem ofOpcode?_eq_some_iff {code : Opcode} {op : Operator} : ofOpcode? code = some op ↔ op.opcode = code := by
  have all_found : ∀ op ∈ all, ofOpcode? op.opcode = some op := by decide
  constructor
  · intro found
    have same := List.find?_some found
    exact beq_iff_eq.1 same
  · rintro rfl
    exact all_found op (mem_all op)

end Operator

/-! ### Lexemes -/

/-- A token together with the form in which it is written. -/
inductive Lexeme where
  | integer (form : Form) (n : Int) (admits : form.Admits n)
  | fixed (raw : UInt32)
  | operator (op : Operator)

namespace Lexeme

def token : Lexeme → Token
  | .integer _ n _ => .integer n
  | .fixed raw => .fixed raw
  | .operator op => .operator op

def bytes : Lexeme → List UInt8
  | .integer form n _ => form.bytes n
  | .fixed raw => 255 :: BigEndian.bytes 4 raw.toNat
  | .operator op => op.opcode.bytes

/-- The token and the number of bytes tell the form. -/
theorem eq_of_token_of_bytes {lexeme other : Lexeme} (tokens : lexeme.token = other.token)
    (written : lexeme.bytes = other.bytes) : lexeme = other := by
  cases lexeme with
  | integer form n admits =>
    cases other with
    | integer otherForm m _ =>
      cases tokens
      have sizes := congrArg List.length written
      rw [bytes, bytes, Form.length_bytes, Form.length_bytes] at sizes
      cases form <;> cases otherForm <;> first | rfl | cases sizes
    | _ => cases tokens
  | fixed raw =>
    cases other with
    | fixed => cases tokens; rfl
    | _ => cases tokens
  | operator op =>
    cases other with
    | operator => cases tokens; rfl
    | _ => cases tokens

end Lexeme

namespace Token

variable {lead : UInt8} {used : List UInt8} {token : Token}

theorem finds_ofOpcode_iff {code : Opcode} :
    (ofOpcode code).Finds used token ↔ used = [] ∧ ∃ op : Operator, op.opcode = code ∧ token = .operator op := by
  cases known : Operator.ofOpcode? code with
  | some op =>
    have reads : ofOpcode code = pure (.operator op) := by simp only [ofOpcode, known]
    rw [reads, Reader.finds_pure_iff]
    constructor
    · rintro ⟨rfl, rfl⟩
      exact ⟨rfl, op, Operator.ofOpcode?_eq_some_iff.1 known, rfl⟩
    · rintro ⟨rfl, other, same, rfl⟩
      rw [Operator.ofOpcode?_eq_some_iff.2 same] at known
      cases known
      exact ⟨rfl, rfl⟩
  | none =>
    constructor
    · intro finds
      cases code with
      | single code =>
        simp only [ofOpcode, known] at finds
        exact absurd finds Reader.not_finds_throw
      | escaped code =>
        simp only [ofOpcode, known] at finds
        exact absurd finds Reader.not_finds_throw
    · rintro ⟨_, op, same, _⟩
      rw [Operator.ofOpcode?_eq_some_iff.2 same] at known
      cases known

theorem takes_cons_iff : Takes (lead :: used) token ↔ (after lead).Finds used token := by
  have reads : Takes (lead :: used) token ↔ (some <$> after lead : Reader (Option Token)).Finds used (some token) :=
    Iff.rfl
  rw [reads, map_eq_pure_bind, Reader.finds_return_iff (local_after lead)]
  constructor
  · rintro ⟨_, finds, same⟩
    cases same
    exact finds
  · intro finds
    exact ⟨token, finds, rfl⟩

/-- A lexeme begins with the given lead and goes on with the bytes behind it. -/
def Spelled (lead : UInt8) (used : List UInt8) (token : Token) : Prop :=
  ∃ lexeme : Lexeme, lexeme.token = token ∧ lexeme.bytes = lead :: used

theorem spelled_of_finds_after (finds : (after lead).Finds used token) : Spelled lead used token := by
  unfold after at finds
  split at finds
  next escape =>
    rw [Reader.finds_bind_iff Reader.local_byte fun code => local_ofOpcode (.escaped code)] at finds
    obtain ⟨code, before, behind, rfl, here, there⟩ := finds
    obtain ⟨rfl, op, coded, rfl⟩ := finds_ofOpcode_iff.1 there
    rw [Reader.finds_byte_iff.1 here, escape]
    exact ⟨.operator op, rfl, by rw [Lexeme.bytes, coded]; rfl⟩
  split at finds
  next two =>
    obtain ⟨n, here, rfl⟩ := (Reader.finds_return_iff (Reader.local_signed 2)).1 finds
    obtain ⟨admits, written⟩ := Form.finds_signed_iff.1 here
    rw [two]
    exact ⟨.integer .three n admits, rfl, written⟩
  split at finds
  next four =>
    obtain ⟨raw, here, rfl⟩ := (Reader.finds_return_iff (Reader.local_unsigned 4)).1 finds
    obtain ⟨small, rfl⟩ := Reader.finds_unsigned_iff.1 here
    rw [four]
    refine ⟨.fixed (UInt32.ofNat raw), rfl, ?_⟩
    rw [Lexeme.bytes, UInt32.toNat_ofNat_of_lt' small]
  split at finds
  next high _ _ low =>
    obtain ⟨n, here, rfl⟩ := (Reader.finds_return_iff (Reader.local_shortInteger lead)).1 finds
    rcases (Form.finds_shortInteger_iff low (by assumption)).1 here with ⟨admits, written⟩ | ⟨admits, written⟩
    · exact ⟨.integer .one n admits, rfl, written⟩
    · exact ⟨.integer .two n admits, rfl, written⟩
  next =>
    obtain ⟨rfl, op, coded, rfl⟩ := finds_ofOpcode_iff.1 finds
    exact ⟨.operator op, rfl, by rw [Lexeme.bytes, coded]; rfl⟩

theorem after_of_short (low : 32 ≤ lead) (high : lead ≠ 255) :
    after lead = do let n ← Reader.shortInteger lead; return .integer n := by
  have other (code : UInt8) (less : code < 32) : lead ≠ code := by
    rintro rfl
    exact absurd (UInt8.lt_of_lt_of_le less low) (UInt8.lt_irrefl _)
  rw [after, if_neg (other 12 (by decide)), if_neg (other 28 (by decide)), if_neg high, if_pos low]

theorem after_of_single {code : UInt8} (valid : Opcode.IsOperator (.single code)) :
    after code = ofOpcode (.single code) := by
  obtain ⟨low, unescaped, other⟩ := valid
  have last : code ≠ 255 := by
    rintro rfl
    exact absurd low (by decide)
  rw [after, if_neg unescaped, if_neg other, if_neg last, if_neg (UInt8.not_le.2 low)]

/-- Every written form is read as its token. -/
theorem takes_lexeme (lexeme : Lexeme) : Takes lexeme.bytes lexeme.token := by
  cases lexeme with
  | integer form n admits =>
    by_cases short : form = .three
    · subst short
      refine takes_cons_iff.2 ((Reader.finds_return_iff (Reader.local_signed 2)).2 ⟨n, ?_, rfl⟩)
      exact Form.finds_signed_iff.2 ⟨admits, rfl⟩
    · obtain ⟨lead, used, written, low, high⟩ := Form.exists_lead admits short
      rw [Lexeme.bytes, written, takes_cons_iff, after_of_short low high,
        Reader.finds_return_iff (Reader.local_shortInteger lead)]
      refine ⟨n, (Form.finds_shortInteger_iff low high).2 ?_, rfl⟩
      cases form with
      | one => exact .inl ⟨admits, written⟩
      | two => exact .inr ⟨admits, written⟩
      | three => exact absurd rfl short
  | fixed raw =>
    refine takes_cons_iff.2 ((Reader.finds_return_iff (Reader.local_unsigned 4)).2 ⟨raw.toNat, ?_, ?_⟩)
    · exact Reader.finds_unsigned_iff.2 ⟨raw.toNat_lt, rfl⟩
    · rw [UInt32.ofNat_toNat]
      rfl
  | operator op =>
    have valid := op.isOperator_opcode
    cases coded : op.opcode with
    | single code =>
      rw [coded] at valid
      rw [Lexeme.bytes, coded, Opcode.bytes, takes_cons_iff, after_of_single valid, finds_ofOpcode_iff]
      exact ⟨rfl, op, coded, rfl⟩
    | escaped code =>
      rw [Lexeme.bytes, coded, Opcode.bytes, takes_cons_iff]
      have there : (ofOpcode (.escaped code)).Finds [] (.operator op) := finds_ofOpcode_iff.2 ⟨rfl, op, coded, rfl⟩
      exact Reader.finds_bind (Reader.finds_byte_iff.2 rfl) there

/-- Bytes are a token if and only if they are one of its written forms. -/
theorem takes_iff : Takes used token ↔ ∃ lexeme : Lexeme, lexeme.token = token ∧ lexeme.bytes = used := by
  constructor
  · intro takes
    cases used with
    | nil => exact absurd takes.length_pos (Nat.lt_irrefl 0)
    | cons lead used => exact spelled_of_finds_after (takes_cons_iff.1 takes)
  · rintro ⟨lexeme, rfl, rfl⟩
    exact takes_lexeme lexeme

/-! ### Whole programs -/

theorem readAll_nil : readAll [] = .ok [] := by
  rw [readAll]
  rfl

theorem readAll_of_takes (takes : Takes used token) (plain : token.isMask = false) (rest : List UInt8) :
    readAll (used ++ rest) = (readAll rest).map (token :: ·) := by
  have reads := takes.read rest
  rw [readAll]
  split
  next failed => rw [failed] at reads; cases reads
  next ended => rw [ended] at reads; cases reads
  next found =>
    rw [found] at reads
    cases reads
    rw [if_neg (Bool.eq_false_iff.1 plain)]

theorem readAll_cases {bytes : List UInt8} {tokens : List Token} (reads : readAll bytes = .ok tokens) :
    (bytes = [] ∧ tokens = []) ∨
      ∃ used token rest more, bytes = used ++ rest ∧ tokens = token :: more ∧ Takes used token ∧
        token.isMask = false ∧ readAll rest = .ok more := by
  rw [readAll] at reads
  split at reads
  next => cases reads
  next ended =>
    cases reads
    exact .inl ⟨(read_eq_none_iff.1 ended).1, rfl⟩
  next token rest found =>
    split at reads
    next => cases reads
    next plain =>
      obtain ⟨used, split, takes⟩ := takes_of_read found
      cases later : readAll rest with
      | error fault =>
        rw [later] at reads
        cases reads
      | ok more =>
        rw [later] at reads
        cases reads
        exact .inr ⟨used, token, rest, more, split, rfl, takes, Bool.eq_false_iff.2 plain, later⟩

/-- Lexemes in front of other bytes are read, and then the other bytes are. -/
theorem readAll_lexemes_append {lexemes : List Lexeme}
    (plain : ∀ token ∈ lexemes.map Lexeme.token, token.isMask = false) (rest : List UInt8) :
    readAll (lexemes.flatMap Lexeme.bytes ++ rest) = (readAll rest).map (lexemes.map Lexeme.token ++ ·) := by
  induction lexemes with
  | nil =>
    rw [List.flatMap_nil, List.nil_append]
    cases readAll rest <;> rfl
  | cons lexeme lexemes ih =>
    obtain ⟨first, others⟩ := List.forall_mem_cons.1 plain
    rw [List.flatMap_cons, List.append_assoc, readAll_of_takes (takes_lexeme lexeme) first, ih others]
    cases readAll rest <;> rfl

theorem readAll_lexemes {lexemes : List Lexeme} (plain : ∀ token ∈ lexemes.map Lexeme.token, token.isMask = false) :
    readAll (lexemes.flatMap Lexeme.bytes) = .ok (lexemes.map Lexeme.token) := by
  have alone := readAll_lexemes_append plain []
  rw [List.append_nil, readAll_nil] at alone
  rw [alone, Except.map, List.append_nil]

theorem exists_lexemes {bytes : List UInt8} {tokens : List Token} (reads : readAll bytes = .ok tokens) :
    ∃ lexemes : List Lexeme, bytes = lexemes.flatMap Lexeme.bytes ∧ tokens = lexemes.map Lexeme.token ∧
      ∀ token ∈ tokens, token.isMask = false := by
  induction tokens generalizing bytes with
  | nil =>
    rcases readAll_cases reads with ⟨rfl, _⟩ | ⟨_, _, _, _, _, absent, _⟩
    · exact ⟨[], rfl, rfl, List.forall_mem_nil _⟩
    · cases absent
  | cons token tokens ih =>
    rcases readAll_cases reads with ⟨_, absent⟩ | ⟨used, _, rest, _, rfl, same, takes, plain, later⟩
    · cases absent
    · cases same
      obtain ⟨lexeme, rfl, rfl⟩ := takes_iff.1 takes
      obtain ⟨lexemes, rfl, rfl, others⟩ := ih later
      exact ⟨lexeme :: lexemes, rfl, rfl, List.forall_mem_cons.2 ⟨plain, others⟩⟩

/-- What a token has to be so that it can be written. -/
def Fits : Token → Prop
  | .integer n => -32768 ≤ n ∧ n ≤ 32767
  | _ => True

instance (token : Token) : Decidable token.Fits :=
  match token with
  | .integer n => inferInstanceAs (Decidable (-32768 ≤ n ∧ n ≤ 32767))
  | .fixed _ | .operator _ => .isTrue trivial

theorem exists_lexeme (fits : token.Fits) : ∃ lexeme : Lexeme, lexeme.token = token := by
  cases token with
  | integer n => exact ⟨.integer .three n fits, rfl⟩
  | fixed raw => exact ⟨.fixed raw, rfl⟩
  | operator op => exact ⟨.operator op, rfl⟩

theorem exists_lexemes_of_fits {tokens : List Token} (fits : ∀ token ∈ tokens, token.Fits) :
    ∃ lexemes : List Lexeme, lexemes.map Lexeme.token = tokens := by
  induction tokens with
  | nil => exact ⟨[], rfl⟩
  | cons token tokens ih =>
    obtain ⟨first, others⟩ := List.forall_mem_cons.1 fits
    obtain ⟨lexeme, rfl⟩ := exists_lexeme first
    obtain ⟨lexemes, rfl⟩ := ih others
    exact ⟨lexeme :: lexemes, rfl⟩

theorem bytes_ne_nil (lexeme : Lexeme) : lexeme.bytes ≠ [] :=
  List.length_pos_iff.1 (takes_lexeme lexeme).length_pos

/-- No lexeme is the beginning of another, so bytes fall into lexemes in one way only. -/
theorem flatMap_bytes_injective : Function.Injective fun lexemes : List Lexeme => lexemes.flatMap Lexeme.bytes := by
  intro lexemes others same
  dsimp only at same
  induction lexemes generalizing others with
  | nil =>
    cases others with
    | nil => rfl
    | cons other others => exact absurd (List.append_eq_nil_iff.1 same.symm).1 (bytes_ne_nil other)
  | cons lexeme lexemes ih =>
    cases others with
    | nil => exact absurd (List.append_eq_nil_iff.1 same).1 (bytes_ne_nil lexeme)
    | cons other others =>
      rw [List.flatMap_cons, List.flatMap_cons] at same
      obtain ⟨tokens, written, rests⟩ := (takes_lexeme lexeme).unique (takes_lexeme other) same
      rw [Lexeme.eq_of_token_of_bytes tokens written, ih rests]

/-- A program without mask operators is read if and only if it is made of written tokens, whatever their forms; every
list of tokens that can be written is read back from all that it can be written as; bytes are made of written tokens in
one way at most; and what is read stays in front of whatever follows. -/
theorem readAll_exact :
    (∀ bytes tokens, readAll bytes = .ok tokens ↔
      ∃ lexemes : List Lexeme, bytes = lexemes.flatMap Lexeme.bytes ∧ tokens = lexemes.map Lexeme.token ∧
        ∀ token ∈ tokens, token.isMask = false) ∧
    (∀ tokens : List Token, (∀ token ∈ tokens, token.isMask = false ∧ token.Fits) →
      (∃ lexemes : List Lexeme, lexemes.map Lexeme.token = tokens) ∧
      ∀ lexemes : List Lexeme, lexemes.map Lexeme.token = tokens →
        readAll (lexemes.flatMap Lexeme.bytes) = .ok tokens) ∧
    (Function.Injective fun lexemes : List Lexeme => lexemes.flatMap Lexeme.bytes) ∧
    ∀ bytes tokens, readAll bytes = .ok tokens → ∀ rest,
      (∀ more, readAll rest = .ok more → readAll (bytes ++ rest) = .ok (tokens ++ more)) ∧
      ∀ fault, readAll rest = .error fault → readAll (bytes ++ rest) = .error fault := by
  refine ⟨?_, ?_, flatMap_bytes_injective, ?_⟩
  · intro bytes tokens
    constructor
    · exact exists_lexemes
    · rintro ⟨lexemes, rfl, rfl, plain⟩
      exact readAll_lexemes plain
  · intro tokens writable
    refine ⟨exists_lexemes_of_fits fun token member => (writable token member).2, ?_⟩
    rintro lexemes rfl
    exact readAll_lexemes fun token member => (writable token member).1
  · intro bytes tokens reads rest
    obtain ⟨lexemes, rfl, rfl, plain⟩ := exists_lexemes reads
    have joined := readAll_lexemes_append plain rest
    constructor
    · intro more later
      rw [joined, later]
      rfl
    · intro fault later
      rw [joined, later]
      rfl

/-- Zero in three bytes, the least number of two bytes, a fixed number, and operators of one byte and of two. -/
theorem readAll_exact_mixed :
    let lexemes : List Lexeme := [.integer .three 0 (by decide), .integer .two (-1131) (by decide), .fixed 163840,
      .operator (.compute .roll), .operator .endchar]
    let bytes : List UInt8 := [28, 0, 0, 254, 255, 255, 0, 2, 128, 0, 12, 30, 14]
    (lexemes.flatMap Lexeme.bytes = bytes ∧ ∀ token ∈ lexemes.map Lexeme.token, token.isMask = false ∧ token.Fits) ∧
      readAll bytes = .ok (lexemes.map Lexeme.token) ∧
      readAll (bytes ++ [28, 1]) = .error .endOfData := by
  intro lexemes bytes
  have written : lexemes.flatMap Lexeme.bytes = bytes := by decide
  have writable : ∀ token ∈ lexemes.map Lexeme.token, token.isMask = false ∧ token.Fits := by decide
  have reads : readAll bytes = .ok (lexemes.map Lexeme.token) := (readAll_exact.2.1 _ writable).2 lexemes rfl
  refine ⟨⟨written, writable⟩, reads, ?_⟩
  have cut : readAll [28, 1] = .error .endOfData := by
    rw [readAll]
    rfl
  exact (readAll_exact.2.2.2 _ _ reads [28, 1]).2 _ cut

end Token
end CompactFont.Charstring
