import Mathlib.Algebra.Group.Nat.Defs
import Mathlib.Data.List.Infix
import Mathlib.Logic.Equiv.Fin.Basic

/-!
# Printers with a parser that reads them back

A `TextCodec` carries the two laws that make it usable inside a larger text: the
parser finds the end of what was printed, and what it has accepted does not
depend on the text behind. The combinators keep both laws, so a format built
from them has a unique reading, no printed text is a proper beginning of another
one, and a document followed by anything but white space is refused.
-/

set_option autoImplicit false

structure TextCodec (α : Type) where
  print : α → List Char
  parse : List Char → Option (α × List Char)
  parse_print : ∀ a rest, parse (print a ++ rest) = some (a, rest)
  parse_extend : ∀ {s a rest} (more : List Char),
    parse s = some (a, rest) → parse (s ++ more) = some (a, rest ++ more)

namespace TextCodec

variable {α β : Type}

@[simp] theorem parse_print_self (c : TextCodec α) (a : α) :
    c.parse (c.print a) = some (a, []) := by
  simpa using c.parse_print a []

theorem parse_of_cut (c : TextCodec α) {a : α} {s more : List Char}
    (h : c.print a = s ++ more) (hmore : more ≠ []) : c.parse s = none := by
  cases hs : c.parse s with
  | none => rfl
  | some found =>
    have hlong := c.parse_extend more hs
    rw [← h, c.parse_print_self] at hlong
    simp only [Option.some.injEq, Prod.mk.injEq] at hlong
    have hnil : more = [] := (List.append_eq_nil_iff.mp hlong.2.symm).2
    exact absurd hnil hmore

/-! ## Whole documents -/

def white (c : Char) : Bool := c == ' ' || c == '\t' || c == '\n' || c == '\r'

/-- A document is one value, with nothing but white space behind it. -/
def decode (c : TextCodec α) (s : List Char) : Option α :=
  match c.parse s with
  | some (a, rest) => if rest.all white then some a else none
  | none => none

theorem decode_append (c : TextCodec α) (a : α) (rest : List Char) :
    c.decode (c.print a ++ rest) = if rest.all white then some a else none := by
  simp [decode, c.parse_print]

@[simp] theorem decode_print (c : TextCodec α) (a : α) : c.decode (c.print a) = some a := by
  simp [decode]

theorem decode_of_cut (c : TextCodec α) {a : α} {s more : List Char}
    (h : c.print a = s ++ more) (hmore : more ≠ []) : c.decode s = none := by
  simp [decode, c.parse_of_cut h hmore]

theorem decode_congr {c d : TextCodec α} (h : c.parse = d.parse) : c.decode = d.decode := by
  funext s
  rw [decode, decode, h]

/-! ## Combinators -/

def literal (text : List Char) : TextCodec Unit where
  print _ := text
  parse s := if text <+: s then some ((), s.drop text.length) else none
  parse_print _ rest := by simp
  parse_extend := by
    intro s a rest more h
    split at h
    · rename_i hs
      obtain ⟨tail, rfl⟩ := hs
      simp only [List.drop_left, Option.some.injEq, Prod.mk.injEq, true_and] at h
      simp [h]
    · simp at h

def single (read : Char → Option α) (char : α → Char) (h : ∀ a, read (char a) = some a) :
    TextCodec α where
  print a := [char a]
  parse
    | [] => none
    | c :: rest => (read c).map (·, rest)
  parse_print a rest := by simp [h]
  parse_extend := by
    intro s a rest more hs
    cases s with
    | nil => simp at hs
    | cons c s =>
      simp only [Option.map_eq_some_iff, Prod.mk.injEq] at hs
      obtain ⟨b, hb, rfl, rfl⟩ := hs
      simp [hb]

def both (c : TextCodec α) (d : TextCodec β) : TextCodec (α × β) where
  print p := c.print p.1 ++ d.print p.2
  parse s := (c.parse s).bind fun x => (d.parse x.2).map fun y => ((x.1, y.1), y.2)
  parse_print p rest := by simp [c.parse_print, d.parse_print]
  parse_extend := by
    intro s p rest more h
    simp only [Option.bind_eq_some_iff, Option.map_eq_some_iff, Prod.mk.injEq] at h
    obtain ⟨x, hx, y, hy, rfl, rfl⟩ := h
    simp [c.parse_extend more hx, d.parse_extend more hy]

def convert (c : TextCodec α) (f : α → β) (g : β → α) (h : ∀ b, f (g b) = b) : TextCodec β where
  print b := c.print (g b)
  parse s := (c.parse s).map fun x => (f x.1, x.2)
  parse_print b rest := by simp [c.parse_print, h]
  parse_extend := by
    intro s b rest more hs
    simp only [Option.map_eq_some_iff, Prod.mk.injEq] at hs
    obtain ⟨x, hx, rfl, rfl⟩ := hs
    simp [c.parse_extend more hx]

def after (text : List Char) (c : TextCodec α) : TextCodec α :=
  ((literal text).both c).convert Prod.snd (Prod.mk ()) fun _ => rfl

def before (c : TextCodec α) (text : List Char) : TextCodec α :=
  (c.both (literal text)).convert Prod.fst (·, ()) fun _ => rfl

@[simp] theorem print_after (text : List Char) (c : TextCodec α) (a : α) :
    (after text c).print a = text ++ c.print a := rfl

@[simp] theorem print_before (text : List Char) (c : TextCodec α) (a : α) :
    (c.before text).print a = c.print a ++ text := rfl

/-- What is printed for a value never starts with the character that ends a list. -/
def Avoids (c : TextCodec α) (stop : Char) : Prop :=
  ∀ a, ∃ first tail, c.print a = first :: tail ∧ first ≠ stop

section Many
variable (item : TextCodec α) (stop : Char)

/-- Items up to the stop character. The fuel bounds their number. -/
def readUntil : Nat → List Char → Option (List α × List Char)
  | 0, _ => none
  | _ + 1, [] => none
  | fuel + 1, c :: s =>
    if c = stop then some ([], s)
    else (item.parse (c :: s)).bind fun x =>
      (readUntil fuel x.2).map fun y => (x.1 :: y.1, y.2)

theorem readUntil_print (havoid : item.Avoids stop) (as : List α) (rest : List Char) (fuel : Nat)
    (hfuel : as.length < fuel) :
    readUntil item stop fuel (as.flatMap item.print ++ stop :: rest) = some (as, rest) := by
  induction as generalizing fuel with
  | nil =>
    cases fuel with
    | zero => simp at hfuel
    | succ fuel => simp [readUntil]
  | cons a as ih =>
    cases fuel with
    | zero => simp at hfuel
    | succ fuel =>
      obtain ⟨first, tail, hprint, hfirst⟩ := havoid a
      have hrest := ih fuel (by simpa using hfuel)
      have hitem := item.parse_print a (as.flatMap item.print ++ stop :: rest)
      rw [hprint, List.cons_append] at hitem
      simp only [List.flatMap_cons, hprint, List.cons_append, List.append_assoc, readUntil,
        if_neg hfirst, hitem, Option.bind_some, hrest, Option.map_some]

theorem readUntil_extend {fuel : Nat} {s : List Char} {as : List α} {rest : List Char}
    (extra : Nat) (more : List Char) (h : readUntil item stop fuel s = some (as, rest)) :
    readUntil item stop (fuel + extra) (s ++ more) = some (as, rest ++ more) := by
  induction fuel generalizing s as with
  | zero => simp [readUntil] at h
  | succ fuel ih =>
    cases s with
    | nil => simp [readUntil] at h
    | cons c s =>
      rw [Nat.add_right_comm]
      simp only [readUntil, List.cons_append] at h ⊢
      split at h
      · rename_i hc
        simp only [Option.some.injEq, Prod.mk.injEq] at h
        simp [hc, ← h.1, ← h.2]
      · rename_i hc
        simp only [Option.bind_eq_some_iff, Option.map_eq_some_iff, Prod.mk.injEq] at h
        obtain ⟨x, hx, y, hy, rfl, rfl⟩ := h
        have hitem := item.parse_extend more hx
        rw [List.cons_append] at hitem
        simp [hc, hitem, ih hy]

theorem length_le_flatMap (havoid : item.Avoids stop) (as : List α) :
    as.length ≤ (as.flatMap item.print).length := by
  induction as with
  | nil => simp
  | cons a as ih =>
    obtain ⟨first, tail, hprint, _⟩ := havoid a
    simp only [List.flatMap_cons, List.length_append, List.length_cons, hprint]
    omega

def untilStop (havoid : item.Avoids stop) : TextCodec (List α) where
  print as := as.flatMap item.print ++ [stop]
  parse s := readUntil item stop (s.length + 1) s
  parse_print as rest := by
    have hlen := length_le_flatMap item stop havoid as
    rw [List.append_assoc, List.singleton_append]
    apply readUntil_print item stop havoid
    simp only [List.length_append]
    omega
  parse_extend := by
    intro s as rest more h
    rw [List.length_append, Nat.add_right_comm]
    exact readUntil_extend item stop more.length more h

theorem after_avoids {c : Char} (text : List Char) (h : c ≠ stop) :
    (after (c :: text) item).Avoids stop :=
  fun a => ⟨c, text ++ item.print a, rfl, h⟩

def commaList (havoid : item.Avoids stop) (hcomma : ',' ≠ stop) : TextCodec (List α) where
  print
    | [] => [stop]
    | a :: as => item.print a ++ ((after [','] item).untilStop stop
        (after_avoids item stop [] hcomma)).print as
  parse
    | [] => none
    | c :: s =>
      if c = stop then some ([], s)
      else ((item.both ((after [','] item).untilStop stop
        (after_avoids item stop [] hcomma))).parse (c :: s)).map fun x => (x.1.1 :: x.1.2, x.2)
  parse_print as rest := by
    cases as with
    | nil => simp
    | cons a as =>
      obtain ⟨first, tail, hprint, hfirst⟩ := havoid a
      have hboth := (item.both ((after [','] item).untilStop stop
        (after_avoids item stop [] hcomma))).parse_print (a, as) rest
      simp only [both, hprint, List.cons_append] at hboth ⊢
      simp only [if_neg hfirst, hboth, Option.map_some]
  parse_extend := by
    intro s as rest more h
    cases s with
    | nil => simp at h
    | cons c s =>
      simp only [List.cons_append] at h ⊢
      split at h
      · rename_i hc
        simp only [Option.some.injEq, Prod.mk.injEq] at h
        simp [hc, ← h.1, ← h.2]
      · rename_i hc
        simp only [Option.map_eq_some_iff, Prod.mk.injEq] at h
        obtain ⟨x, hx, rfl, rfl⟩ := h
        have hlong := (item.both ((after [','] item).untilStop stop
          (after_avoids item stop [] hcomma))).parse_extend more hx
        rw [List.cons_append] at hlong
        simp [hc, hlong]

end Many

/-! ## Hexadecimal numbers -/

def hexChar (d : Fin 16) : Char := "0123456789abcdef".toList.getD d '0'

def hexValue (c : Char) : Option (Fin 16) := (List.finRange 16).find? fun d => hexChar d == c

def hexDigit : TextCodec (Fin 16) := single hexValue hexChar (by decide)

def hexNumber : (digits : Nat) → TextCodec (Fin (16 ^ digits))
  | 0 => (literal []).convert (fun _ => 0) (fun _ => ()) fun v => (Fin.fin_one_eq_zero v).symm
  | digits + 1 => ((hexNumber digits).both hexDigit).convert finProdFinEquiv
      finProdFinEquiv.symm finProdFinEquiv.apply_symm_apply

end TextCodec
