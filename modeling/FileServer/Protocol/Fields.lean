import FileServer.Protocol.Responses
import FileServer.Transition.Returns
import Mathlib.Tactic.Common

/-!
# Fields of objects

When the ways to read a field throw nothing, by the type of the field, and which
values are serialised.
-/

namespace FileServer.Json

open FileServer.Protocol FileServer.Transition

/-- The types that a field is read as. -/
inductive Kind where
  | text
  /-- `int64_t` or `uint64_t`. -/
  | count
  /-- Another type of integers. -/
  | integer

namespace Value

def is : Kind → Value → Bool
  | .text, .string _ => true
  | .count, .number _ | .count, .float _ => true
  | .integer, .boolean _ | .integer, .number _ | .integer, .float _ => true
  | _, _ => false

/-- An object whose field is missing or of the type. -/
def Optional (j : Value) (key : String) (kind : Kind) : Prop :=
  j.isObject = true ∧ ∀ found, j.field? key = some found → found.is kind = true

def Required (j : Value) (key : String) (kind : Kind) : Prop :=
  ∃ found, j.field? key = some found ∧ found.is kind = true

def readAt {α : Type} (j : Value) (key : String) (default : α) (get : Value → Reads α) : α :=
  match j.value key default get with
  | .ok value => value
  | .error _ => default

def textAt (j : Value) (key : String) : Bytes := j.readAt key [] getString

def longLongAt (j : Value) (key : String) : Int := j.readAt key 0 getLongLong

/-- The number of a field as an `int64_t`. -/
def int64At (j : Value) (key : String) : Int := j.readAt key 0 getInt64

def uint64At (j : Value) (key : String) : Int := j.readAt key 0 getUInt64

def codeOf (j : Value) : Int := j.readAt "code" (-1) getInt

def orNull (j : Value) (key : String) : Value := (j.field? key).getD .null

end Value

structure Library.Documented (library : Library) : Prop where
  /-- A parsed text is UTF-8. -/
  parsed : ∀ body, (library.parse body).isText = true
  /-- `dump` throws for a string that is not. -/
  dumped : ∀ j, (∃ body, library.dump j = .ok body) ↔ j.isText = true

section Reading

variable {j : Value} {key : String}

def ReadsKind {α : Type} (get : Value → Reads α) (kind : Kind) : Prop :=
  ∀ found, (∃ value, get found = .ok value) ↔ found.is kind = true

theorem readsKind_getString : ReadsKind Value.getString .text := by
  rintro (_ | _ | _ | _ | _ | _ | _ | _) <;> simp [Value.getString, Value.is]

theorem readsKind_getInt64 : ReadsKind Value.getInt64 .count := by
  rintro (_ | _ | _ | _ | _ | _ | _ | _) <;> simp [Value.getInt64, Value.is]

theorem readsKind_getUInt64 : ReadsKind Value.getUInt64 .count := by
  rintro (_ | _ | _ | _ | _ | _ | _ | _) <;> simp [Value.getUInt64, Value.is]

theorem readsKind_getInteger {bits : Nat} : ReadsKind (Value.getInteger bits) .integer := by
  rintro (_ | _ | _ | _ | _ | _ | _ | _) <;> simp [Value.getInteger, Value.is]

theorem readsKind_getInt : ReadsKind Value.getInt .integer := readsKind_getInteger

theorem readsKind_getLongLong : ReadsKind Value.getLongLong .integer := readsKind_getInteger

theorem returns_value {α : Type} {default : α} {get : Value → Reads α} {kind : Kind}
    (kinds : ReadsKind get kind) {holds : α → Prop} :
    Returns (j.value key default get) holds ↔
      j.Optional key kind ∧ holds (j.readAt key default get) := by
  unfold Value.Optional Value.readAt Value.value
  by_cases object : j.isObject = true
  · simp only [object, if_true, true_and]
    cases found : j.field? key with
    | none => simp
    | some field =>
        simp only [Option.some.injEq, forall_eq', ← kinds field]
        cases get field with
        | error exception => simp
        | ok value => simp
  · simp [object]

theorem returns_longLong {holds : Int → Prop} :
    Returns (j.value key 0 Value.getLongLong) holds ↔
      j.Optional key .integer ∧ holds (j.longLongAt key) :=
  returns_value readsKind_getLongLong

theorem returns_code {holds : Int → Prop} :
    Returns (j.value "code" (-1) Value.getInt) holds ↔
      j.Optional "code" .integer ∧ holds j.codeOf :=
  returns_value readsKind_getInt

theorem returns_index_int64 {holds : Int → Prop} :
    Returns (j.index key >>= Value.getInt64) holds ↔
      j.Required key .count ∧ holds (j.int64At key) := by
  unfold Value.Required Value.int64At Value.readAt Value.value
  cases j with
  | object fields =>
      simp only [Value.index, Value.isObject, if_true]
      cases found : (Value.object fields).field? key with
      | none => simp [bind, Except.bind, Value.getInt64]
      | some field =>
          simp only [Option.getD_some, Option.some.injEq, exists_eq_left', bind, Except.bind,
            ← readsKind_getInt64 field]
          cases field.getInt64 with
          | error exception => simp
          | ok value => simp
  | null | boolean | number | float | string | array | discarded =>
      simp [Value.index, bind, Except.bind, Value.getInt64, Value.field?]

theorem returns_atKey {holds : Value → Prop} :
    Returns (j.atKey key) holds ↔ ∃ found, j.field? key = some found ∧ holds found := by
  cases j with
  | object fields =>
      simp only [Value.atKey, Value.isObject, if_true]
      cases found : (Value.object fields).field? key with
      | none => simp
      | some field => simp
  | null | boolean | number | float | string | array | discarded =>
      simp [Value.atKey, Value.isObject, Value.field?]

theorem returns_index {holds : Value → Prop} (object : j.isObject = true) :
    Returns (j.index key) holds ↔ holds (j.orNull key) := by
  cases j with
  | object fields => simp [Value.index, Value.orNull]
  | null | boolean | number | float | string | array | discarded => cases object

end Reading

section Texts

theorem isUtf8_append {first : Bytes} (second : Bytes) (valid : isUtf8 first = true) :
    isUtf8 (first ++ second) = isUtf8 second := by
  fun_induction isUtf8 first with
  | case1 => rfl
  | case2 a rest ascii inductionHypothesis =>
      rw [List.cons_append, isUtf8.eq_def]
      simp only [ascii, if_true]
      exact inductionHypothesis valid
  | case4 a wide b rest two inductionHypothesis =>
      simp only [Bool.and_eq_true] at valid
      obtain ⟨continued, rest⟩ := valid
      rw [List.cons_append, List.cons_append, isUtf8.eq_def]
      simp only [if_neg wide, if_pos two, continued, inductionHypothesis rest, Bool.true_and]
  | case6 a wide b notTwo c rest three inductionHypothesis =>
      simp only [Bool.and_eq_true] at valid
      obtain ⟨⟨⟨⟨first, overlong⟩, surrogate⟩, last⟩, rest⟩ := valid
      rw [List.cons_append, List.cons_append, List.cons_append, isUtf8.eq_def]
      simp only [if_neg wide, if_neg notTwo, if_pos three, first, overlong, surrogate, last,
        inductionHypothesis rest, Bool.true_and]
  | case8 a wide b notTwo c notThree d rest inductionHypothesis =>
      simp only [Bool.and_eq_true] at valid
      obtain ⟨⟨⟨⟨⟨⟨⟨low, high⟩, first⟩, overlong⟩, large⟩, second⟩, last⟩, rest⟩ := valid
      rw [List.cons_append, List.cons_append, List.cons_append, List.cons_append, isUtf8.eq_def]
      simp only [if_neg wide, if_neg notTwo, if_neg notThree, low, high, first, overlong, large,
        second, last, inductionHypothesis rest, Bool.true_and]
  | case3 | case5 | case7 => cases valid

theorem toNat_byte {n : Nat} (small : n < 256) : (UInt8.ofNat n).toNat = n := by
  rw [UInt8.toNat_ofNat']
  exact Nat.mod_eq_of_lt small

theorem isUtf8_char (c : Char) : isUtf8 (String.utf8EncodeChar c) = true := by
  have valid := c.valid
  simp only [UInt32.isValidChar, Nat.isValidChar] at valid
  unfold String.utf8EncodeChar
  generalize c.val.toNat = v at valid ⊢
  simp only
  split
  next one =>
    have ascii : UInt8.ofNat v < 0x80 := by
      rw [UInt8.lt_iff_toNat_lt, toNat_byte (by omega)]
      exact Nat.lt_succ_of_le one
    rw [isUtf8.eq_def]
    simp only [ascii, if_true]
    rfl
  split
  next two =>
    have first := @toNat_byte (v / 64 % 0x20 + 0xc0) (by omega)
    have last := @toNat_byte (v % 0x40 + 0x80) (by omega)
    generalize UInt8.ofNat (v / 64 % 0x20 + 0xc0) = a at first ⊢
    generalize UInt8.ofNat (v % 0x40 + 0x80) = b at last ⊢
    simp only [isUtf8, continues, UInt8.lt_iff_toNat_lt, UInt8.le_iff_toNat_le, first, last,
      UInt8.reduceToNat]
    rw [if_neg (by omega), if_pos (by omega), Bool.and_true, decide_eq_true_eq]
    omega
  split
  next three =>
    have first := @toNat_byte (v / 4096 % 0x10 + 0xe0) (by omega)
    have second := @toNat_byte (v / 64 % 0x40 + 0x80) (by omega)
    have last := @toNat_byte (v % 0x40 + 0x80) (by omega)
    generalize UInt8.ofNat (v / 4096 % 0x10 + 0xe0) = a at first ⊢
    generalize UInt8.ofNat (v / 64 % 0x40 + 0x80) = b at second ⊢
    generalize UInt8.ofNat (v % 0x40 + 0x80) = c at last ⊢
    simp only [isUtf8, continues, UInt8.lt_iff_toNat_lt, UInt8.le_iff_toNat_le, ne_eq,
      ← UInt8.toNat_inj, first, second, last, UInt8.reduceToNat]
    rw [if_neg (by omega), if_neg (by omega), if_pos (by omega)]
    simp only [Bool.and_true, Bool.and_eq_true, Bool.or_eq_true, decide_eq_true_eq]
    omega
  next four =>
    have first := @toNat_byte (v / 262144 % 0x08 + 0xf0) (by omega)
    have second := @toNat_byte (v / 4096 % 0x40 + 0x80) (by omega)
    have third := @toNat_byte (v / 64 % 0x40 + 0x80) (by omega)
    have last := @toNat_byte (v % 0x40 + 0x80) (by omega)
    generalize UInt8.ofNat (v / 262144 % 0x08 + 0xf0) = a at first ⊢
    generalize UInt8.ofNat (v / 4096 % 0x40 + 0x80) = b at second ⊢
    generalize UInt8.ofNat (v / 64 % 0x40 + 0x80) = c at third ⊢
    generalize UInt8.ofNat (v % 0x40 + 0x80) = d at last ⊢
    simp only [isUtf8, continues, UInt8.lt_iff_toNat_lt, UInt8.le_iff_toNat_le, ne_eq,
      ← UInt8.toNat_inj, first, second, third, last, UInt8.reduceToNat]
    rw [if_neg (by omega), if_neg (by omega), if_neg (by omega)]
    simp only [Bool.and_true, Bool.and_eq_true, Bool.or_eq_true, decide_eq_true_eq]
    omega

@[simp]
theorem isUtf8_text (s : String) : isUtf8 (text s) = true := by
  obtain ⟨characters, encoded⟩ := s.isValidUTF8
  have bytes : text s = characters.flatMap String.utf8EncodeChar := by
    show s.toByteArray.data.toList = _
    rw [encoded, List.utf8Encode]
    simp
  rw [bytes]
  clear bytes encoded
  induction characters with
  | nil => rfl
  | cons c rest inductionHypothesis =>
      rw [List.flatMap_cons, isUtf8_append _ (isUtf8_char c)]
      exact inductionHypothesis

theorem areText_iff {elements : List Value} :
    areText elements = true ↔ ∀ element ∈ elements, element.isText = true := by
  induction elements with
  | nil => simp [areText]
  | cons element rest inductionHypothesis => simp [areText, inductionHypothesis]

theorem field?_isText {j found : Value} {key : String} (texts : j.isText = true)
    (field : j.field? key = some found) : found.isText = true := by
  cases j with
  | object fields =>
      obtain ⟨named, listed, rfl⟩ := Option.map_eq_some_iff.mp field
      have member := List.mem_of_find?_eq_some listed
      clear field listed
      induction fields with
      | nil => cases member
      | cons first rest inductionHypothesis =>
          simp only [Value.isText, fieldsText, Bool.and_eq_true] at texts inductionHypothesis
          rcases List.mem_cons.mp member with rfl | later
          · exact texts.1
          · exact inductionHypothesis texts.2 later
  | null | boolean | number | float | string | array | discarded => cases field

theorem textAt_isUtf8 {j : Value} {key : String} (texts : j.isText = true) :
    isUtf8 (j.textAt key) = true := by
  unfold Value.textAt Value.readAt Value.value
  by_cases object : j.isObject = true
  · simp only [object, if_true]
    cases field : j.field? key with
    | none => rfl
    | some found =>
        cases found with
        | string value => exact field?_isText texts field
        | null | boolean | number | float | array | object | discarded => rfl
  · simp only [object]
    rfl

variable {library : Library} (documented : library.Documented)
include documented

theorem returns_setJson {request : Message} {json : Value} {binary : Bytes} :
    Returns (setJson library request json binary) (fun _ => True) ↔ json.isText = true := by
  rw [← documented.dumped]
  unfold setJson
  constructor
  · rintro ⟨response, made, _⟩
    split at made
    next body serialized => exact ⟨body, serialized⟩
    · cases made
  · rintro ⟨body, serialized⟩
    split
    · simp
    next exception refused =>
      rw [serialized] at refused
      cases refused

theorem getJson_isText (request : Message) : (request.getJson library).isText = true := by
  unfold Message.getJson
  split
  · rfl
  · exact documented.parsed _

theorem getCmd_isUtf8 (request : Message) : isUtf8 (request.getCmd library) = true := by
  unfold Message.getCmd
  split
  next cmd found => exact field?_isText (getJson_isText documented request) found
  · rfl

end Texts

end FileServer.Json
