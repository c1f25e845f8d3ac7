import AnKi.Library.Files
import AnKi.Library.TextCodec

/-!
# JSON documents

`SerdeJson` stands for the text functions of a JSON library at one type, and
`SerdeSlice` for those on bytes; what their callers rely on is stated law by law.
Every `TextCodec` gives an instance with all of these laws, and the string codec
below is the part of the format the documents here need.
-/

set_option autoImplicit false

/-- `to_string` and `from_str`. Equal values that are laid out differently, as equal hash maps
may be, can have different texts. -/
structure SerdeJson (α : Type) (Layout : Type := Unit) where
  toString : Layout → α → String
  fromStr : String → Option α
  fromStr_toString : ∀ layout a, fromStr (toString layout a) = some a

namespace SerdeJson
open Files

variable {α Layout : Type} (json : SerdeJson α Layout)

def RejectsEmpty : Prop := json.fromStr "" = none

def RejectsCut : Prop :=
  ∀ layout a s more, json.toString layout a = s ++ more → s ≠ "" → more ≠ "" →
    json.fromStr s = none

def RejectsTrailing : Prop :=
  ∀ layout a more, more.toList.all TextCodec.white = false →
    json.fromStr (json.toString layout a ++ more) = none

def SkipsWhite : Prop :=
  ∀ layout a more, more.toList.all TextCodec.white = true →
    json.fromStr (json.toString layout a ++ more) = some a

variable {json} {layout : Layout}

/-- A text has one value, however the value was laid out. -/
theorem eq_of_toString_eq (json : SerdeJson α Layout) {layout' : Layout} {a b : α}
    (h : json.toString layout a = json.toString layout' b) : a = b := by
  have ha := json.fromStr_toString layout a
  rw [h, json.fromStr_toString] at ha
  exact (Option.some.inj ha).symm

theorem toString_ne_empty (h : json.RejectsEmpty) (a : α) : json.toString layout a ≠ "" := by
  intro ha
  have hround := json.fromStr_toString layout a
  rw [ha, h] at hround
  cases hround

theorem utf8_toString_ne_nil (h : json.RejectsEmpty) (a : α) :
    utf8 (json.toString layout a) ≠ [] := by
  rw [Ne, utf8_eq_nil]
  exact toString_ne_empty h a

theorem ofUtf8_nil (h : json.RejectsEmpty) : (ofUtf8 []).bind json.fromStr = none := by
  have hempty : ofUtf8 [] = some "" := by rw [← utf8_empty, ofUtf8_utf8]
  rw [hempty]
  exact h

/-- A file cut off inside an encoding cannot be read back, whether or not it is still text. -/
theorem ofUtf8_cut (hcut : json.RejectsCut) {a : α} {b more : Bytes}
    (h : utf8 (json.toString layout a) = b ++ more) (hb : b ≠ []) (hmore : more ≠ []) :
    (ofUtf8 b).bind json.fromStr = none := by
  cases hs : ofUtf8 b with
  | none => rfl
  | some s =>
    have hsb := utf8_of_ofUtf8 hs
    subst hsb
    obtain ⟨u, hu, rfl⟩ := utf8_split h
    exact hcut layout a s u hu (by simpa using hb) (by simpa using hmore)

/-- A file that continues behind an encoding reads back as encoded exactly when the rest is
white space. -/
theorem ofUtf8_trailing_iff (htrail : json.RejectsTrailing) (hwhite : json.SkipsWhite)
    (layout : Layout) (a : α) (rest : Bytes) :
    (ofUtf8 (utf8 (json.toString layout a) ++ rest)).bind json.fromStr = some a ↔
      ∃ w, w.toList.all TextCodec.white = true ∧ rest = utf8 w := by
  constructor
  · intro h
    obtain ⟨s, hs, hread⟩ := Option.bind_eq_some_iff.mp h
    obtain ⟨u, rfl, hu⟩ := utf8_split (utf8_of_ofUtf8 hs)
    cases hall : u.toList.all TextCodec.white with
    | true => exact ⟨u, hall, hu.symm⟩
    | false =>
      rw [htrail layout a u hall] at hread
      cases hread
  · intro hrest
    rcases hrest with ⟨w, hall, rfl⟩
    rw [← utf8_append, ofUtf8_utf8]
    exact hwhite layout a w hall

/-! ## The instance of a codec -/

/-- Codecs that differ in what they print and read the same. -/
def ofCodecs [Inhabited Layout] (c : Layout → TextCodec α)
    (hparse : ∀ layout, (c layout).parse = (c default).parse) : SerdeJson α Layout where
  toString layout a := String.ofList ((c layout).print a)
  fromStr s := (c default).decode s.toList
  fromStr_toString layout a := by
    rw [← TextCodec.decode_congr (hparse layout)]
    simp

def ofCodec (c : TextCodec α) : SerdeJson α := ofCodecs (fun _ => c) fun _ => rfl

section Codecs
variable [Inhabited Layout] {c : Layout → TextCodec α}
variable (hparse : ∀ layout, (c layout).parse = (c default).parse)

theorem ofCodecs_fromStr (layout : Layout) (s : String) :
    (ofCodecs c hparse).fromStr s = (c layout).decode s.toList := by
  rw [TextCodec.decode_congr (hparse layout)]
  rfl

theorem ofCodecs_cut {a : α} {s more : String}
    (h : (ofCodecs c hparse).toString layout a = s ++ more) (hmore : more ≠ "") :
    (ofCodecs c hparse).fromStr s = none := by
  have hlist : (c layout).print a = s.toList ++ more.toList := by
    have h' := congrArg String.toList h
    simpa [ofCodecs] using h'
  rw [ofCodecs_fromStr hparse layout]
  exact (c layout).decode_of_cut hlist (by simpa using hmore)

theorem ofCodecs_rejectsCut : (ofCodecs c hparse).RejectsCut :=
  fun _ _ _ _ h _ hmore => ofCodecs_cut hparse h hmore

theorem ofCodecs_rejectsEmpty (a : α) (h : (c default).print a ≠ []) :
    (ofCodecs c hparse).RejectsEmpty := by
  have hwhole : (ofCodecs c hparse).toString default a =
      "" ++ (ofCodecs c hparse).toString default a := by simp
  have hne : (ofCodecs c hparse).toString default a ≠ "" := by simpa [ofCodecs] using h
  exact ofCodecs_cut hparse hwhole hne

omit [Inhabited Layout] in
theorem ofCodec_rejectsEmpty (d : TextCodec α) (a : α) (h : d.print a ≠ []) :
    (ofCodec d).RejectsEmpty := ofCodecs_rejectsEmpty _ a h

theorem ofCodecs_fromStr_append (layout : Layout) (a : α) (more : String) :
    (ofCodecs c hparse).fromStr ((ofCodecs c hparse).toString layout a ++ more) =
      if more.toList.all TextCodec.white then some a else none := by
  rw [ofCodecs_fromStr hparse layout]
  simp [ofCodecs, (c layout).decode_append]

theorem ofCodecs_rejectsTrailing : (ofCodecs c hparse).RejectsTrailing := by
  intro layout a more h
  rw [ofCodecs_fromStr_append]
  simp [h]

theorem ofCodecs_skipsWhite : (ofCodecs c hparse).SkipsWhite := by
  intro layout a more h
  rw [ofCodecs_fromStr_append]
  simp [h]

end Codecs

end SerdeJson

/-- `to_vec` and `from_slice`. Nothing is said of the bytes that `to_vec` does not make: a value
that is skipped need not even be text. -/
structure SerdeSlice (α : Type) where
  toVec : α → Files.Bytes
  fromSlice : Files.Bytes → Option α
  fromSlice_toVec : ∀ a, fromSlice (toVec a) = some a

namespace SerdeSlice
open Files

variable {α : Type}

attribute [simp] fromSlice_toVec

/-- The functions of a library that only reads text. -/
def ofJson (json : SerdeJson α) : SerdeSlice α where
  toVec a := utf8 (json.toString () a)
  fromSlice data := (ofUtf8 data).bind json.fromStr
  fromSlice_toVec a := by simp [json.fromStr_toString]

end SerdeSlice

namespace TextCodec

def readStringChar : List Char → Option (Char × List Char)
  | [] => none
  | c :: rest => if c = '\\' then rest.head?.map (·, rest.tail) else some (c, rest)

def stringChar : TextCodec Char where
  print c := if c = '"' ∨ c = '\\' then ['\\', c] else [c]
  parse := readStringChar
  parse_print c rest := by
    split
    · simp [readStringChar]
    · rename_i h
      have hslash : c ≠ '\\' := fun hc => h (Or.inr hc)
      simp [readStringChar, hslash]
  parse_extend := by
    intro s a rest more h
    cases s with
    | nil => simp [readStringChar] at h
    | cons c s =>
      simp only [readStringChar, List.cons_append] at h ⊢
      split at h
      · rename_i hc
        cases s with
        | nil => simp at h
        | cons d s =>
          simp only [List.head?_cons, List.tail_cons, Option.map_some, Option.some.injEq,
            Prod.mk.injEq] at h
          simp [hc, h]
      · rename_i hc
        simp only [Option.some.injEq, Prod.mk.injEq] at h
        rw [if_neg hc, h.1, h.2]

theorem stringChar_avoids : stringChar.Avoids '"' := by
  intro c
  by_cases h : c = '"' ∨ c = '\\'
  · exact ⟨'\\', [c], by simp [stringChar, h], by decide⟩
  · have hquote : c ≠ '"' := fun hc => h (Or.inl hc)
    exact ⟨c, [], by simp [stringChar, h], hquote⟩

def jsonString : TextCodec String :=
  (after ['"'] (stringChar.untilStop '"' stringChar_avoids)).convert String.ofList String.toList
    fun _ => String.ofList_toList

def quoted {α : Type} (c : TextCodec α) : TextCodec α := (after ['"'] c).before ['"']

end TextCodec
