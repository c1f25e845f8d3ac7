import AnKi.Library.Regex
import Mathlib.Algebra.Order.Ring.Nat

/-!
# validation.rs: addresses and message formats

Both checks compile a pattern and search the text for it; `engine` is the regex
engine they use. The pattern for addresses is compared with the grammar of
dotted addresses.
-/

namespace AnKi
set_option autoImplicit false

namespace Validator
open Regex

section Checks
variable (engine : Engine)

inductive ValidationError where
  | regex (e : engine.Error)
  | text (s : String)

def validate (pattern failure text : String) : Except (ValidationError engine) Unit :=
  match engine.new pattern with
  | .error e => .error (.regex e)
  | .ok regex => if engine.isMatch regex text then .ok () else .error (.text failure)

def ipPattern : String :=
  "^((25[0-5]|2[0-4][0-9]|[0-1]?[0-9][0-9]?)\\.)\x7b3\x7d(25[0-5]|2[0-4][0-9]|[0-1]?[0-9][0-9]?)$"

def validateIpAddress (ipAddress : String) : Except (ValidationError engine) Unit :=
  validate engine ipPattern "Invalid IP address format" ipAddress

def validateMessageFormat (message pattern : String) : Except (ValidationError engine) Unit :=
  validate engine pattern "Invalid message format" message

variable {engine}

theorem validate_ok_iff {text : String} {regex : engine.Compiled} {pattern : Pattern}
    (hnew : engine.new text = .ok regex) (hparse : parse text = some pattern)
    (failure s : String) : validate engine text failure s = .ok () ↔ pattern.IsMatch s := by
  rw [← engine.isMatch_iff hnew hparse s]
  by_cases hmatch : engine.isMatch regex s = true <;> simp [validate, hnew, hmatch]

theorem validate_error_iff {text : String} {regex : engine.Compiled} {pattern : Pattern}
    (hnew : engine.new text = .ok regex) (hparse : parse text = some pattern)
    (failure s : String) :
    validate engine text failure s = .error (.text failure) ↔ ¬ pattern.IsMatch s := by
  rw [← engine.isMatch_iff hnew hparse s]
  by_cases hmatch : engine.isMatch regex s = true <;> simp [validate, hnew, hmatch]

/-- A message passes when the pattern matches somewhere in it, and fails with one text else. -/
theorem validateMessageFormat_iff {text : String} {regex : engine.Compiled} {pattern : Pattern}
    (hnew : engine.new text = .ok regex) (hparse : parse text = some pattern) (message : String) :
    (validateMessageFormat engine message text = .ok () ↔ pattern.IsMatch message) ∧
      (validateMessageFormat engine message text = .error (.text "Invalid message format") ↔
        ¬ pattern.IsMatch message) :=
  ⟨validate_ok_iff hnew hparse _ message, validate_error_iff hnew hparse _ message⟩

end Checks

/-! ## Dotted addresses -/

/-- One to three decimal digits with a value of a byte; leading zeros are allowed. -/
def IsOctet (part : List Char) : Prop :=
  (1 ≤ part.length ∧ part.length ≤ 3) ∧ part.all Char.isDigit = true ∧
    Nat.ofDigitChars 10 part 0 ≤ 255

def IsIpv4 (s : String) : Prop :=
  (s.toList.splitOn '.').length = 4 ∧ ∀ part ∈ s.toList.splitOn '.', IsOctet part

instance (part : List Char) : Decidable (IsOctet part) :=
  inferInstanceAs (Decidable (_ ∧ _))

instance (s : String) : Decidable (IsIpv4 s) := inferInstanceAs (Decidable (_ ∧ _))

def digitTo (hi : Char) : Expr := oneOf (charRange '0' hi)

/-- The group that stands twice in the pattern, as it is read. -/
def octet : Expr :=
  1 * oneOf ['2'] * oneOf ['5'] * digitTo '5' + 1 * oneOf ['2'] * digitTo '4' * digitTo '9' +
    1 * (digitTo '1' + 1) * digitTo '9' * (digitTo '9' + 1)

theorem toList_ipPattern : ipPattern.toList =
    ['^', '(', '(', '2', '5', '[', '0', '-', '5', ']', '|', '2', '[', '0', '-', '4', ']',
      '[', '0', '-', '9', ']', '|', '[', '0', '-', '1', ']', '?', '[', '0', '-', '9', ']',
      '[', '0', '-', '9', ']', '?', ')', '\\', '.', ')', '{', '3', '}',
      '(', '2', '5', '[', '0', '-', '5', ']', '|', '2', '[', '0', '-', '4', ']',
      '[', '0', '-', '9', ']', '|', '[', '0', '-', '1', ']', '?', '[', '0', '-', '9', ']',
      '[', '0', '-', '9', ']', '?', ')', '$'] := String.toList_ofList

theorem parse_ipPattern :
    parse ipPattern = some ⟨true, 1 * (1 * octet * oneOf ['.']) ^ 3 * octet, true⟩ := by
  rw [parse, toList_ipPattern]
  rfl

theorem mem_digitTo {hi : Char} (hvalid : hi.toNat < 0xd800) (c : Char) :
    c ∈ charRange '0' hi ↔ 48 ≤ c.toNat ∧ c.toNat ≤ hi.toNat := mem_charRange hvalid '0' c

theorem isDigit_iff (c : Char) : c.isDigit = true ↔ 48 ≤ c.toNat ∧ c.toNat ≤ 57 :=
  Char.isDigit_iff_toNat

theorem eq_two_iff (c : Char) : c = '2' ↔ c.toNat = 50 := Char.toNat_inj.symm

theorem eq_five_iff (c : Char) : c = '5' ↔ c.toNat = 53 := Char.toNat_inj.symm

theorem octet_matches : octet.matches' =
    (oneOf ['2']).matches' * ((oneOf ['5']).matches' * (digitTo '5').matches') +
      (oneOf ['2']).matches' * ((digitTo '4').matches' * (digitTo '9').matches') +
      ((digitTo '1').matches' * ((digitTo '9').matches' * ((digitTo '9').matches' + 1)) +
        (digitTo '9').matches' * ((digitTo '9').matches' + 1)) := by
  simp [octet, mul_assoc, add_mul]

theorem mem_octet_iff (part : List Char) : part ∈ octet.matches' ↔ IsOctet part := by
  rw [octet_matches]
  unfold digitTo IsOctet
  match part with
  | [] => simp [Language.mem_add]
  | [a] =>
    simp [Language.mem_add, Language.mem_one, mem_digitTo, isDigit_iff, Nat.ofDigitChars]
    omega
  | [a, b] =>
    simp [Language.mem_add, Language.mem_one, mem_digitTo, isDigit_iff, eq_two_iff, eq_five_iff,
      Nat.ofDigitChars]
    omega
  | [a, b, c] =>
    simp [Language.mem_add, Language.mem_one, mem_digitTo, isDigit_iff, eq_two_iff, eq_five_iff,
      Nat.ofDigitChars]
    omega
  | a :: b :: c :: d :: rest => simp [Language.mem_add, Language.mem_one]

theorem dot_notMem_octet (part : List Char) (h : part ∈ octet.matches') : '.' ∉ part := by
  intro hdot
  have hdigit := List.all_eq_true.mp ((mem_octet_iff part).mp h).2.1 '.' hdot
  exact absurd hdigit (by decide)

/-- The pattern of `validate_ip_address` is the grammar of dotted addresses. -/
theorem isMatch_ipPattern_iff (s : String) :
    Pattern.IsMatch ⟨true, 1 * (1 * octet * oneOf ['.']) ^ 3 * octet, true⟩ s ↔ IsIpv4 s := by
  have hwords : RegularExpression.matches' (1 * (1 * octet * oneOf ['.']) ^ 3 * octet) =
      (octet.matches' * (oneOf ['.']).matches') ^ 3 * octet.matches' := by
    simp
  rw [isMatch_anchored, hwords, mem_separated_iff_splitOn dot_notMem_octet, IsIpv4]
  simp only [mem_octet_iff]

theorem validateIpAddress_ok_iff (engine : Engine) {regex : engine.Compiled}
    (hnew : engine.new ipPattern = .ok regex) (ipAddress : String) :
    validateIpAddress engine ipAddress = .ok () ↔ IsIpv4 ipAddress := by
  rw [validateIpAddress, validate_ok_iff hnew parse_ipPattern, isMatch_ipPattern_iff]

theorem isIpv4_single : IsIpv4 "192.168.1.1" := by
  have htext : "192.168.1.1".toList =
      ['1', '9', '2', '.', '1', '6', '8', '.', '1', '.', '1'] := String.toList_ofList
  rw [IsIpv4, htext]
  decide

theorem validateIpAddress_single : validateIpAddress searchEngine "192.168.1.1" = .ok () :=
  (validateIpAddress_ok_iff searchEngine (searchEngine_new parse_ipPattern) _).mpr isIpv4_single

end Validator

end AnKi
