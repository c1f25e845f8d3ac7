import AnKi.Library.Files

/-!
# Base64

`Codec` is what the callers of a base64 library rely on. The codec below has the
standard alphabet with padding: three bytes are written as four digits of six
bits, and a rest of one or two bytes is filled up with zero bits and with `=`.
Decoders differ in what else they take; this one insists on both.
-/

namespace Base64
open Files
set_option autoImplicit false

structure Codec where
  encode : Bytes → String
  decode : String → Option Bytes
  decode_encode : ∀ data, decode (encode data) = some data

def alphabet : List Char :=
  "ABCDEFGHIJKLMNOPQRSTUVWXYZabcdefghijklmnopqrstuvwxyz0123456789+/".toList

/-- The digit of the lowest six bits. -/
def digit (n : Nat) : Char := alphabet.getD (n % 64) 'A'

def value (c : Char) : Option Nat := if c ∈ alphabet then some (alphabet.idxOf c) else none

def byte (n : Nat) : UInt8 := UInt8.ofNat n

def encodeChars : Bytes → List Char
  | a :: b :: c :: rest =>
    let n := (a.toNat * 256 + b.toNat) * 256 + c.toNat
    digit (n / 262144) :: digit (n / 4096) :: digit (n / 64) :: digit n :: encodeChars rest
  | [a, b] =>
    let n := (a.toNat * 256 + b.toNat) * 4
    [digit (n / 4096), digit (n / 64), digit n, '=']
  | [a] =>
    let n := a.toNat * 16
    [digit (n / 64), digit n, '=', '=']
  | [] => []

/-- The bytes of the last four characters when there is padding among them. -/
def decodePadded (w x y : Char) : Option Bytes :=
  match value w, value x with
  | some w, some x =>
    if y = '=' then
      let n := w * 64 + x
      if n % 16 = 0 then some [byte (n / 16)] else none
    else match value y with
      | some y =>
        let n := (w * 64 + x) * 64 + y
        if n % 4 = 0 then some [byte (n / 1024), byte (n / 4)] else none
      | none => none
  | _, _ => none

def decodeChars : List Char → Option Bytes
  | w :: x :: y :: z :: rest =>
    if z = '=' then
      if rest = [] then decodePadded w x y else none
    else match value w, value x, value y, value z with
      | some w, some x, some y, some z =>
        let n := ((w * 64 + x) * 64 + y) * 64 + z
        (decodeChars rest).map fun bytes => byte (n / 65536) :: byte (n / 256) :: byte n :: bytes
      | _, _, _, _ => none
  | [] => some []
  | _ => none

def encode (data : Bytes) : String := String.ofList (encodeChars data)

def decode (s : String) : Option Bytes := decodeChars s.toList

theorem value_digit (n : Nat) : value (digit n) = some (n % 64) := by
  have hall : ∀ k : Fin 64, value (alphabet.getD k.val 'A') = some k.val := by
    decide +kernel
  exact hall ⟨n % 64, Nat.mod_lt n (by decide)⟩

theorem digit_ne_pad (n : Nat) : digit n ≠ '=' := by
  intro h
  have hvalue := value_digit n
  have hpad : value '=' = none := by decide +kernel
  rw [h, hpad] at hvalue
  simp at hvalue

theorem byte_of_mod {n : Nat} {a : UInt8} (h : n % 256 = a.toNat) : byte n = a := by
  apply UInt8.toNat_inj.mp
  simpa [byte] using h

theorem decodeChars_encodeChars (data : Bytes) : decodeChars (encodeChars data) = some data := by
  induction data using encodeChars.induct with
  | case1 a b c rest ih =>
    have ha := a.toNat_lt
    have hb := b.toNat_lt
    have hc := c.toNat_lt
    simp only [encodeChars, decodeChars, digit_ne_pad, if_false, value_digit, ih, Option.map_some,
      Option.some.injEq, List.cons.injEq, and_true]
    refine ⟨byte_of_mod ?_, byte_of_mod ?_, byte_of_mod ?_⟩ <;> omega
  | case2 a b =>
    have ha := a.toNat_lt
    have hb := b.toNat_lt
    simp only [encodeChars, decodeChars, decodePadded, digit_ne_pad, if_true, if_false, value_digit]
    -- the bits that fill up the third digit are zero
    rw [if_pos (by omega)]
    simp only [Option.some.injEq, List.cons.injEq, and_true]
    refine ⟨byte_of_mod ?_, byte_of_mod ?_⟩ <;> omega
  | case3 a =>
    have ha := a.toNat_lt
    simp only [encodeChars, decodeChars, decodePadded, if_true, value_digit]
    rw [if_pos (by omega)]
    simp only [Option.some.injEq, List.cons.injEq, and_true]
    exact byte_of_mod (by omega)
  | case4 => rfl

theorem decode_encode (data : Bytes) : decode (encode data) = some data := by
  simp [decode, encode, decodeChars_encodeChars]

example : encode [77, 97] = "TWE=" := by decide

def standard : Codec := ⟨encode, decode, decode_encode⟩

instance : Inhabited Codec := ⟨standard⟩

end Base64
