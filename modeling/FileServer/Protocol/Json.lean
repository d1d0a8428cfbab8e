import FileServer.Protocol.Codec

/-!
# JSON values

The values of `nlohmann::json`, and its documented ways to read them with the
exceptions that they throw.  Parsing and serialising are parameters.
-/

namespace FileServer.Json

open FileServer.Protocol

/-- A value; `discarded` is what parsing without exceptions gives for a text that
is not JSON. -/
inductive Value where
  | null
  | boolean (value : Bool)
  | number (value : Int)
  /-- A floating-point number, by the integer it is converted to. -/
  | float (truncated : Int)
  | string (value : Bytes)
  | array (elements : List Value)
  | object (fields : List (String × Value))
  | discarded

/-- What C++ code throws: an exception of the library with its id, another
`std::exception`, or something else. -/
inductive Exception where
  | json (id : Nat)
  | std
  | other
  deriving DecidableEq

abbrev Reads (α : Type) := Except Exception α

/-- `parse(text, nullptr, false)` and `dump()`, and the `what()` of exceptions. -/
structure Library where
  parse : Bytes → Value
  dump : Value → Reads Bytes
  what : Exception → Bytes := fun _ => []

def text (s : String) : Bytes := s.toUTF8.data.toList

def continues (c : UInt8) : Bool := 0x80 ≤ c ∧ c ≤ 0xBF

def isUtf8 : Bytes → Bool
  | [] => true
  | a :: rest =>
      if a < 0x80 then isUtf8 rest
      else
        match rest with
        | [] => false
        | b :: rest =>
            if 0xC2 ≤ a ∧ a ≤ 0xDF then continues b && isUtf8 rest
            else
              match rest with
              | [] => false
              | c :: rest =>
                  if 0xE0 ≤ a ∧ a ≤ 0xEF then
                    continues b && (a ≠ 0xE0 || 0xA0 ≤ b) && (a ≠ 0xED || b ≤ 0x9F) &&
                      continues c && isUtf8 rest
                  else
                    match rest with
                    | [] => false
                    | d :: rest =>
                        0xF0 ≤ a && a ≤ 0xF4 && continues b && (a ≠ 0xF0 || 0x90 ≤ b) &&
                          (a ≠ 0xF4 || b ≤ 0x8F) && continues c && continues d && isUtf8 rest

mutual

def Value.isText : Value → Bool
  | .string value => isUtf8 value
  | .array elements => areText elements
  | .object fields => fieldsText fields
  | _ => true

def areText : List Value → Bool
  | [] => true
  | element :: rest => element.isText && areText rest

def fieldsText : List (String × Value) → Bool
  | [] => true
  | (_, value) :: rest => value.isText && fieldsText rest

end

namespace Value

def isEmpty : Value → Bool
  | .null | .array [] | .object [] => true
  | _ => false

def isObject : Value → Bool
  | .object _ => true
  | _ => false

def field? (key : String) : Value → Option Value
  | .object fields => (fields.find? fun field => field.1 = key).map (·.2)
  | _ => none

def contains (key : String) (j : Value) : Bool := (j.field? key).isSome

def value {α : Type} (j : Value) (key : String) (default : α) (get : Value → Reads α) : Reads α :=
  if j.isObject then
    match j.field? key with
    | some found => get found
    | none => .ok default
  else
    .error (.json 306)

def atKey (j : Value) (key : String) : Reads Value :=
  if j.isObject then
    match j.field? key with
    | some found => .ok found
    | none => .error (.json 403)
  else
    .error (.json 304)

/-- `j[key]` on a value that can be changed, where a missing field is null. -/
def index (j : Value) (key : String) : Reads Value :=
  match j with
  | .object _ => .ok ((j.field? key).getD .null)
  | .null => .ok .null
  | _ => .error (.json 305)

/-- `j[key]` on a constant, where a missing field is undefined behaviour. -/
def indexConst (j : Value) (key : String) : Reads Value :=
  match j with
  | .object _ =>
      match j.field? key with
      | some found => .ok found
      | none => .error .other
  | _ => .error (.json 305)

def getString : Value → Reads Bytes
  | .string value => .ok value
  | _ => .error (.json 302)

def getInt64 : Value → Reads Int
  | .number value | .float value => .ok (value.bmod (2 ^ 64))
  | _ => .error (.json 302)

def getUInt64 : Value → Reads Int
  | .number value | .float value => .ok (value % 2 ^ 64)
  | _ => .error (.json 302)

def getInteger (bits : Nat) : Value → Reads Int
  | .boolean value => .ok (if value then 1 else 0)
  | .number value | .float value => .ok (value.bmod (2 ^ bits))
  | _ => .error (.json 302)

def getInt : Value → Reads Int := getInteger 32

def getLongLong : Value → Reads Int := getInteger 64

end Value

section Sample

def decimal (n : Int) : Bytes := text (toString n)

def hexDigit (n : Nat) : UInt8 := .ofNat (if n < 10 then 0x30 + n else 0x57 + n)

def quoted (value : Bytes) : Bytes :=
  [0x22] ++ value.flatMap (fun c =>
    if c = 0x22 ∨ c = 0x5C then [0x5C, c]
    else if c < 0x20 then text "\\u00" ++ [hexDigit (c.toNat / 16), hexDigit (c.toNat % 16)]
    else [c]) ++ [0x22]

mutual

def Value.print : Value → Bytes
  | .null => text "null"
  | .boolean value => text (toString value)
  | .number value => decimal value
  | .float truncated => decimal truncated ++ text ".0"
  | .string value => quoted value
  | .array elements => text "[" ++ printElements elements ++ text "]"
  | .object fields => [0x7B] ++ printFields fields ++ [0x7D]
  | .discarded => text "<discarded>"

def printElements : List Value → Bytes
  | [] => []
  | [element] => element.print
  | element :: rest => element.print ++ text "," ++ printElements rest

def printFields : List (String × Value) → Bytes
  | [] => []
  | [(key, value)] => quoted (text key) ++ text ":" ++ value.print
  | (key, value) :: rest => quoted (text key) ++ text ":" ++ value.print ++ text "," ++ printFields rest

end

def sampleLibrary (texts : List Value) : Library where
  parse body := (texts.find? fun value => value.print = body).getD .discarded
  dump value := if value.isText then .ok value.print else .error (.json 316)

end Sample

end FileServer.Json

namespace FileServer.Protocol.Message

open FileServer.Json

def getJson (library : Library) (msg : Message) : Value :=
  if msg.jsonBody = [] then .object [] else library.parse msg.jsonBody

def getCmd (library : Library) (msg : Message) : Bytes :=
  match (msg.getJson library).field? "cmd" with
  | some (.string cmd) => cmd
  | _ => []

end FileServer.Protocol.Message
