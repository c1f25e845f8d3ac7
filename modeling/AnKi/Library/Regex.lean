import Mathlib.Computability.RegularExpressions

/-!
# Regular expressions written as text

A pattern is text in the notation of regular expression engines. `parse` reads
the fragment with escaped punctuation, classes of letters and digits, groups,
alternatives, the quantifiers `?`, `*`, `+` and `{n}`, and the two anchors at the
ends of the pattern; outside the fragment it has no result. What a pattern
matches is a regular language of Mathlib.
-/

namespace Regex
set_option autoImplicit false

abbrev Expr := RegularExpression Char

/-- The expression that is searched for, and whether a match has to start where the text starts
and to end where it ends. -/
structure Pattern where
  fromStart : Bool
  expr : Expr
  toEnd : Bool

/-- Some part of the text, between what is before and after it, is in the language. -/
def Pattern.IsMatch (pattern : Pattern) (text : String) : Prop :=
  ∃ before found after, text.toList = before ++ found ++ after ∧ found ∈ pattern.expr.matches' ∧
    (pattern.fromStart = true → before = []) ∧ (pattern.toEnd = true → after = [])

theorem isMatch_anchored (expr : Expr) (text : String) :
    Pattern.IsMatch ⟨true, expr, true⟩ text ↔ text.toList ∈ expr.matches' := by
  constructor
  · intro h
    obtain ⟨before, found, after, htext, hfound, hstart, hend⟩ := h
    rw [htext, hstart rfl, hend rfl, List.nil_append, List.append_nil]
    exact hfound
  · intro h
    exact ⟨[], text.toList, [], by simp, h, fun _ => rfl, fun _ => rfl⟩

/-! ## Characters -/

def charRange (lo hi : Char) : List Char :=
  (List.range' lo.toNat (hi.toNat + 1 - lo.toNat)).map Char.ofNat

def oneOf : List Char → Expr
  | [] => 0
  | c :: cs => .char c + oneOf cs

/-- Below the surrogates every number is the code of a character. -/
theorem toNat_ofNat_of_lt {n : Nat} (h : n < 0xd800) : (Char.ofNat n).toNat = n := by
  rw [Char.ofNat, dif_pos (Or.inl h)]
  rfl

theorem mem_charRange {hi : Char} (hvalid : hi.toNat < 0xd800) (lo c : Char) :
    c ∈ charRange lo hi ↔ lo.toNat ≤ c.toNat ∧ c.toNat ≤ hi.toNat := by
  simp only [charRange, List.mem_map, List.mem_range'_1]
  constructor
  · intro h
    obtain ⟨n, hn, rfl⟩ := h
    rw [toNat_ofNat_of_lt (by omega)]
    omega
  · intro h
    exact ⟨c.toNat, by omega, Char.ofNat_toNat c⟩

theorem mem_oneOf_iff (cs w : List Char) : w ∈ (oneOf cs).matches' ↔ ∃ c ∈ cs, w = [c] := by
  induction cs with
  | nil => simp [oneOf, Language.notMem_zero]
  | cons d cs ih =>
    rw [oneOf, RegularExpression.matches'_add, Language.mem_add, ih,
      RegularExpression.matches'_char, List.exists_mem_cons_iff]
    rfl

section Words
variable {L : Language Char}

@[simp] theorem nil_mem_oneOf (cs : List Char) : [] ∉ (oneOf cs).matches' := by
  simp [mem_oneOf_iff]

@[simp] theorem cons_mem_oneOf (cs : List Char) (c : Char) (w : List Char) :
    c :: w ∈ (oneOf cs).matches' ↔ c ∈ cs ∧ w = [] := by
  simp only [mem_oneOf_iff, List.cons.injEq]
  constructor
  · intro h
    obtain ⟨d, hd, rfl, hw⟩ := h
    exact ⟨hd, hw⟩
  · intro h
    exact ⟨c, h.1, rfl, h.2⟩

@[simp] theorem nil_mem_oneOf_mul (cs : List Char) : [] ∉ (oneOf cs).matches' * L := by
  simp [Language.mem_mul, mem_oneOf_iff]

@[simp] theorem cons_mem_oneOf_mul (cs : List Char) (c : Char) (w : List Char) :
    c :: w ∈ (oneOf cs).matches' * L ↔ c ∈ cs ∧ w ∈ L := by
  simp only [Language.mem_mul, mem_oneOf_iff]
  constructor
  · intro h
    obtain ⟨_, ⟨d, hd, rfl⟩, v, hv, hw⟩ := h
    obtain ⟨rfl, rfl⟩ := List.cons.inj hw
    exact ⟨hd, hv⟩
  · intro h
    exact ⟨[c], ⟨c, h.1, rfl⟩, w, h.2, rfl⟩

theorem mem_mul_separator_iff {M : Language Char} (sep : Char) (w : List Char) :
    w ∈ L * ((oneOf [sep]).matches' * M) ↔
      ∃ part ∈ L, ∃ rest ∈ M, part ++ sep :: rest = w := by
  rw [Language.mem_mul]
  constructor
  · intro h
    obtain ⟨part, hpart, tail, htail, rfl⟩ := h
    cases tail with
    | nil => exact absurd htail (nil_mem_oneOf_mul _)
    | cons c rest =>
      rw [cons_mem_oneOf_mul, List.mem_singleton] at htail
      obtain ⟨rfl, hrest⟩ := htail
      exact ⟨part, hpart, rest, hrest, rfl⟩
  · intro h
    obtain ⟨part, hpart, rest, hrest, rfl⟩ := h
    refine ⟨part, hpart, sep :: rest, ?_, rfl⟩
    rw [cons_mem_oneOf_mul]
    exact ⟨List.mem_singleton_self sep, hrest⟩

theorem intercalate_cons_of_length (sep : Char) (part : List Char) {parts : List (List Char)}
    {n : Nat} (h : parts.length = n + 1) :
    [sep].intercalate (part :: parts) = part ++ sep :: [sep].intercalate parts := by
  rw [List.intercalate_cons_of_ne_nil (List.ne_nil_of_length_eq_add_one h), List.append_assoc]
  rfl

/-- A counted repetition with a separator after each word, and one more word at the end. -/
theorem mem_separated_iff (sep : Char) (n : Nat) (w : List Char) :
    w ∈ (L * (oneOf [sep]).matches') ^ n * L ↔ ∃ parts : List (List Char),
      parts.length = n + 1 ∧ [sep].intercalate parts = w ∧ ∀ part ∈ parts, part ∈ L := by
  induction n generalizing w with
  | zero =>
    rw [pow_zero, one_mul]
    constructor
    · intro h
      exact ⟨[w], rfl, List.intercalate_singleton, by simpa using h⟩
    · intro h
      obtain ⟨parts, hlength, rfl, hparts⟩ := h
      obtain ⟨part, rfl⟩ := List.length_eq_one_iff.mp hlength
      rw [List.intercalate_singleton]
      exact hparts part (by simp)
  | succ n ih =>
    rw [pow_succ', mul_assoc, mul_assoc, mem_mul_separator_iff]
    constructor
    · intro h
      obtain ⟨part, hpart, rest, hrest, rfl⟩ := h
      obtain ⟨parts, hlength, rfl, hparts⟩ := (ih rest).mp hrest
      exact ⟨part :: parts, by simp [hlength], intercalate_cons_of_length sep part hlength,
        List.forall_mem_cons.mpr ⟨hpart, hparts⟩⟩
    · intro h
      obtain ⟨parts, hlength, rfl, hparts⟩ := h
      cases parts with
      | nil => simp at hlength
      | cons part parts =>
        rw [List.length_cons, Nat.add_right_cancel_iff] at hlength
        obtain ⟨hpart, hrest⟩ := List.forall_mem_cons.mp hparts
        exact ⟨part, hpart, [sep].intercalate parts, (ih _).mpr ⟨parts, hlength, rfl, hrest⟩,
          (intercalate_cons_of_length sep part hlength).symm⟩

/-- When no word has the separator in it, the words are the parts of the split. -/
theorem mem_separated_iff_splitOn {sep : Char} (hsep : ∀ part ∈ L, sep ∉ part) (n : Nat)
    (w : List Char) : w ∈ (L * (oneOf [sep]).matches') ^ n * L ↔
      (w.splitOn sep).length = n + 1 ∧ ∀ part ∈ w.splitOn sep, part ∈ L := by
  rw [mem_separated_iff]
  constructor
  · intro h
    obtain ⟨parts, hlength, rfl, hparts⟩ := h
    have hne : parts ≠ [] := List.ne_nil_of_length_eq_add_one hlength
    rw [List.splitOn_intercalate sep (fun part hpart => hsep part (hparts part hpart)) hne]
    exact ⟨hlength, hparts⟩
  · intro h
    exact ⟨w.splitOn sep, h.1, List.intercalate_splitOn sep, h.2⟩

end Words

/-! ## Tokens -/

inductive Quantifier where
  | optional
  | star
  | plus
  | exactly (n : Nat)

def Quantifier.apply (r : Expr) : Quantifier → Expr
  | .optional => r + 1
  | .star => r.star
  | .plus => r * r.star
  | .exactly n => r ^ n

inductive Token where
  | one (cs : List Char)
  | lpar
  | rpar
  | bar
  | times (quantifier : Quantifier)

def metaChars : List Char :=
  ['\\', '.', '+', '*', '?', '(', ')', '|', '[', ']', '{', '}', '^', '$']

/-- The characters that are a token of their own. -/
def symbol (c : Char) : Option Token :=
  if c = '(' then some .lpar
  else if c = ')' then some .rpar
  else if c = '|' then some .bar
  else if c = '?' then some (.times .optional)
  else if c = '*' then some (.times .star)
  else if c = '+' then some (.times .plus)
  else if c ∈ metaChars then none
  else some (.one [c])

/-- Where the reader is: between tokens, after a backslash, in a class (`last` may turn out to
start a range), after the hyphen of a range or in a count. -/
inductive Mode where
  | plain
  | escaped
  | inClass (cs : List Char) (last : Option Char)
  | inRange (cs : List Char) (lo : Char)
  | inCount (n : Option Nat)

def lex : Mode → List Char → Option (List Token)
  | .plain, [] => some []
  | .escaped, [] | .inClass _ _, [] | .inRange _ _, [] | .inCount _, [] => none
  | .plain, c :: text =>
    if c = '\\' then lex .escaped text
    else if c = '[' then lex (.inClass [] none) text
    else if c = '{' then lex (.inCount none) text
    else match symbol c with
      | some token => (lex .plain text).map (token :: ·)
      | none => none
  | .escaped, c :: text =>
    if c ∈ metaChars then (lex .plain text).map (.one [c] :: ·) else none
  | .inClass cs last, c :: text =>
    if c = ']' then
      if cs ++ last.toList = [] then none
      else (lex .plain text).map (.one (cs ++ last.toList) :: ·)
    else if c = '-' then
      match last with
      | some lo => lex (.inRange cs lo) text
      | none => none
    else if c.isAlphanum then lex (.inClass (cs ++ last.toList) (some c)) text
    else none
  | .inRange cs lo, c :: text =>
    if c.isAlphanum ∧ lo ≤ c then lex (.inClass (cs ++ charRange lo c) none) text else none
  | .inCount n, c :: text =>
    if c.isDigit then lex (.inCount (some (10 * n.getD 0 + (c.toNat - '0'.toNat)))) text
    else if c = '}' then
      match n with
      | some n => (lex .plain text).map (.times (.exactly n) :: ·)
      | none => none
    else none

/-! ## Expressions -/

/-- A group that is being read: its alternatives before the last bar, what is read of the last
one, and the item at its end, which a quantifier would apply to. -/
structure Group where
  alternatives : Option Expr
  items : Expr
  last : Option Expr

namespace Group

def new : Group := ⟨none, 1, none⟩

def sequence (group : Group) : Expr :=
  match group.last with
  | some r => group.items * r
  | none => group.items

def expr (group : Group) : Expr :=
  match group.alternatives with
  | some r => r + group.sequence
  | none => group.sequence

def push (r : Expr) (group : Group) : Group :=
  { group with items := group.sequence, last := some r }

def bar (group : Group) : Group := ⟨some group.expr, 1, none⟩

def times (quantifier : Quantifier) (group : Group) : Option Group :=
  group.last.map fun r => { group with items := group.items * quantifier.apply r, last := none }

end Group

/-- `outer` are the groups around the one that is being read, the innermost first. -/
def assemble : Group → List Group → List Token → Option Group
  | group, [], [] => some group
  | _, _ :: _, [] => none
  | group, outer, .one cs :: tokens => assemble (group.push (oneOf cs)) outer tokens
  | group, outer, .lpar :: tokens => assemble .new (group :: outer) tokens
  | _, [], .rpar :: _ => none
  | group, around :: outer, .rpar :: tokens => assemble (around.push group.expr) outer tokens
  | group, outer, .bar :: tokens => assemble group.bar outer tokens
  | group, outer, .times quantifier :: tokens =>
    match group.times quantifier with
    | some group => assemble group outer tokens
    | none => none

def parse (pattern : String) : Option Pattern :=
  let (fromStart, text) := match pattern.toList with
    | '^' :: text => (true, text)
    | text => (false, text)
  let (text, toEnd) :=
    if text.getLast? = some '$' then (text.dropLast, true) else (text, false)
  match (lex .plain text).bind (assemble .new []) with
  | some group =>
    -- an anchor beside a bar would belong to one of the alternatives only
    if (fromStart || toEnd) && group.alternatives.isSome then none
    else some ⟨fromStart, group.expr, toEnd⟩
  | none => none

/-! ## Engines -/

/-- A match by trying every part of the text. -/
def Pattern.search (pattern : Pattern) (text : List Char) : Bool :=
  (if pattern.fromStart then [text] else text.tails).any fun rest =>
    (if pattern.toEnd then [rest] else rest.inits).any pattern.expr.rmatch

theorem Pattern.search_iff (pattern : Pattern) (text : String) :
    pattern.search text.toList = true ↔ pattern.IsMatch text := by
  have hstart : ∀ rest, rest ∈ (if pattern.fromStart then [text.toList] else text.toList.tails) ↔
      ∃ before, text.toList = before ++ rest ∧ (pattern.fromStart = true → before = []) := by
    intro rest
    cases pattern.fromStart with
    | true => simp [eq_comm]
    | false => simp [List.IsSuffix, eq_comm]
  have hend : ∀ rest found : List Char, found ∈ (if pattern.toEnd then [rest] else rest.inits) ↔
      ∃ after, rest = found ++ after ∧ (pattern.toEnd = true → after = []) := by
    intro rest found
    cases pattern.toEnd with
    | true => simp [eq_comm]
    | false => simp [List.IsPrefix, eq_comm]
  simp only [search, List.any_eq_true, hstart, hend, RegularExpression.rmatch_iff_matches']
  constructor
  · intro h
    obtain ⟨rest, ⟨before, htext, hbefore⟩, found, ⟨after, rfl, hafter⟩, hfound⟩ := h
    exact ⟨before, found, after, by simp [htext], hfound, hbefore, hafter⟩
  · intro h
    obtain ⟨before, found, after, htext, hfound, hbefore, hafter⟩ := h
    exact ⟨found ++ after, ⟨before, by simp [htext], hbefore⟩, found, ⟨after, rfl, hafter⟩, hfound⟩

/-- An engine is only known on the fragment, and only for patterns it compiles. -/
structure Engine where
  Compiled : Type
  Error : Type
  new : String → Except Error Compiled
  isMatch : Compiled → String → Bool
  isMatch_iff : ∀ {text compiled pattern}, new text = .ok compiled → parse text = some pattern →
    ∀ s, isMatch compiled s = true ↔ pattern.IsMatch s

def searchEngine : Engine where
  Compiled := Pattern
  Error := Unit
  new text := match parse text with
    | some pattern => .ok pattern
    | none => .error ()
  isMatch pattern s := pattern.search s.toList
  isMatch_iff := by
    intro text compiled pattern hnew hparse s
    rw [hparse] at hnew
    rw [← Except.ok.inj hnew]
    exact pattern.search_iff s

theorem searchEngine_new {text : String} {pattern : Pattern} (h : parse text = some pattern) :
    searchEngine.new text = .ok pattern := by
  simp [searchEngine, h]

end Regex
