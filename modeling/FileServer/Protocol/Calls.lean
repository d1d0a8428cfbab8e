import FileServer.Protocol.Wire

/-!
# Calls of the other implementation

What `call` and `Handler` of `wire.py` make of a message, and what of it can be
read from the first bytes of its frame.
-/

namespace FileServer.Protocol.Wire

open FileServer.Encoding FileServer.Transition

/-- A `dict` with text keys, in the order they were added. -/
structure Dict (V : Type) where
  fields : List (String × V)
  distinct : (fields.map Prod.fst).Nodup

namespace Dict

variable {V : Type}

def get? (dict : Dict V) (key : String) : Option V := dict.fields.lookup key

theorem keys_replace (fields : List (String × V)) (key : String) (value : V) :
    (fields.map fun field => if field.1 = key then (key, value) else field).map Prod.fst =
      fields.map Prod.fst := by
  rw [List.map_map]
  apply List.map_congr_left
  intro field _
  by_cases same : field.1 = key <;> simp [same]

/-- `dict(self, key=value)`. -/
def set (dict : Dict V) (key : String) (value : V) : Dict V :=
  if present : key ∈ dict.fields.map Prod.fst then
    ⟨dict.fields.map fun field => if field.1 = key then (key, value) else field, by
      rw [keys_replace]
      exact dict.distinct⟩
  else
    ⟨dict.fields ++ [(key, value)], by
      rw [List.map_append, List.map_singleton]
      exact (List.perm_append_singleton _ _).nodup_iff.mpr (List.nodup_cons.mpr ⟨present, dict.distinct⟩)⟩

theorem get?_set (dict : Dict V) (key : String) (value : V) :
    (dict.set key value).get? key = some value := by
  have replaced : ∀ fields : List (String × V), key ∈ fields.map Prod.fst →
      (fields.map fun field => if field.1 = key then (key, value) else field).lookup key =
        some value := by
    intro fields present
    induction fields with
    | nil => cases present
    | cons field rest inductionHypothesis =>
        by_cases same : field.1 = key
        · simp [same]
        · have later : key ∈ rest.map Prod.fst := by
            rcases List.mem_cons.mp present with here | later
            · exact absurd here.symm same
            · exact later
          rw [List.map_cons, if_neg same, List.lookup_cons, beq_eq_false_iff_ne.mpr (Ne.symm same)]
          exact inductionHypothesis later
  have appended : ∀ fields : List (String × V), key ∉ fields.map Prod.fst →
      (fields ++ [(key, value)]).lookup key = some value := by
    intro fields absent
    induction fields with
    | nil => simp
    | cons field rest inductionHypothesis =>
        simp only [List.map_cons, List.mem_cons, not_or] at absent
        rw [List.cons_append, List.lookup_cons, beq_eq_false_iff_ne.mpr absent.1]
        exact inductionHypothesis absent.2
  unfold set
  split
  next present => exact replaced dict.fields present
  next absent => exact appended dict.fields absent

end Dict

/-- The `json` module for dictionaries, with the texts among their values. -/
structure Values (V : Type) extends Json (Dict V) where
  text : String → V
  text? : V → Option String

/-- What is documented of the `json` module. -/
structure Values.Documented {V : Type} (values : Values V) : Prop where
  texts : ∀ s, values.text? (values.text s) = some s
  roundTrip : ∀ fields, values.loads (values.dumps fields) = some fields
  dict : ∀ fields, values.isDict fields = true

/-- What `call` raises: a failure at its own end, or the `Error` of a response. -/
inductive CallFailure (V : Type) where
  | here (failure : Failure)
  | remote (code message : V)

section Messages

variable {V : Type} (values : Values V)

abbrev Dispatched (V : Type) := Except Failure (Dict V × Bytes)

/-- The message of `Handler` for an exception; no other exception has a `code`. -/
def apology : Failure → Dict V
  | .error code message => ⟨[("code", values.text code), ("message", values.text message)], by simp⟩
  | .other => ⟨[("code", values.text "INTERNAL"), ("message", values.text "internal service error")],
      by simp⟩

/-- What `Handler` responds with. -/
def response : Dispatched V → Dict V × Bytes
  | .ok (result, data) => (result.set "code" (values.text "OK"), data)
  | .error failure => (apology values failure, [])

/-- What `call` makes of a response. -/
def conclude (result : Dict V) (binary : Bytes) : Except (CallFailure V) (Dict V × Bytes) :=
  if (result.get? "code").bind values.text? = some "OK" then .ok (result, binary)
  else .error (.remote ((result.get? "code").getD (values.text "REMOTE"))
    ((result.get? "message").getD (values.text "remote error")))

variable {values} (documented : values.Documented)
include documented

theorem conclude_result (result : Dict V) (data : Bytes) :
    conclude values (response values (.ok (result, data))).1 (response values (.ok (result, data))).2 =
      .ok (result.set "code" (values.text "OK"), data) := by
  simp only [conclude, response, Dict.get?_set, Option.bind_some, documented.texts, if_true]

/-- An `Error` comes back as it was raised. -/
theorem conclude_error {code : String} (message : String) (failed : code ≠ "OK") :
    conclude values (response values (.error (.error code message))).1
      (response values (.error (.error code message))).2 =
      .error (.remote (values.text code) (values.text message)) := by
  have read : (response values (.error (.error code message))).1.get? "code" =
      some (values.text code) := rfl
  have read' : (response values (.error (.error code message))).1.get? "message" =
      some (values.text message) := rfl
  simp only [conclude, read, read', Option.bind_some, documented.texts, Option.some.injEq, failed,
    if_false, Option.getD_some]

end Messages

section Prefixes

theorem recv_append {size : Nat} {sock left : Socket} {part : Bytes} (more : Socket)
    (received : recv size sock = (part, left)) (some : part ≠ []) :
    recv size (sock ++ more) = (part, left ++ more) := by
  induction sock with
  | nil =>
      cases received
      exact absurd rfl some
  | cons first rest inductionHypothesis =>
      cases first with
      | nil => exact inductionHypothesis received
      | cons byte bytes =>
          cases received
          rfl

theorem exactLoop_append {size : Nat} {out read : Bytes} {sock left : Socket} (more : Socket)
    (received : exactLoop size out sock = .ok (read, left)) :
    exactLoop size out (sock ++ more) = .ok (read, left ++ more) := by
  fun_induction exactLoop size out sock with
  | case1 out sock missing ended nothing => cases received
  | case2 out sock missing first part rest arrived inductionHypothesis =>
      rw [exactLoop, dif_pos missing, recv_append more arrived (List.cons_ne_nil _ _)]
      exact inductionHypothesis received
  | case3 out sock complete =>
      obtain ⟨rfl, rfl⟩ := Prod.mk.inj (Except.ok.inj received)
      rw [exactLoop, dif_neg complete]

variable {α : Type} {json : Json α}

theorem receive_append {sock left : Socket} {message : α × Bytes × Nat} (more : Socket)
    (received : receive json sock = .ok (message, left)) :
    receive json (sock ++ more) = .ok (message, left ++ more) := by
  simp only [receive, bind_eq_ok] at received ⊢
  obtain ⟨⟨raw, first⟩, header, received⟩ := received
  refine ⟨(raw, first ++ more), exactLoop_append more header, ?_⟩
  simp only at received ⊢
  split at received
  next magic version kind jl bl rid crc numbers =>
    simp only [bind_eq_ok] at received ⊢
    obtain ⟨_, valid, _, limited, ⟨body, second⟩, contents, _, checked, fields, parsed, _, dict,
      returned⟩ := received
    obtain ⟨rfl, rfl⟩ := Prod.mk.inj (Except.ok.inj returned)
    exact ⟨(), valid, (), limited, (body, second ++ more), exactLoop_append more contents, (),
      checked, fields, parsed, (), dict, rfl⟩
  · cases received

theorem receive_front {fields : α} {data frame : Bytes} (rid kind : UInt32)
    (kinds : kind = 1 ∨ kind = 2) (roundTrip : json.loads (json.dumps fields) = some fields)
    (dict : json.isDict fields = true)
    (sent : send json fields data rid.toNat kind.toNat = .ok frame) {sock left : Socket}
    (arrived : sock.flatten <+: frame) {message : α × Bytes × Nat}
    (received : receive json sock = .ok (message, left)) : message = (fields, data, rid.toNat) := by
  obtain ⟨missing, whole⟩ := arrived
  have limits : (json.dumps fields).length ≤ MAX_JSON ∧ data.length ≤ MAX_DATA := by
    simp only [send, bind_eq_ok] at sent
    obtain ⟨_, limits, _⟩ := sent
    exact require_eq_ok.mp limits
  rw [send_eq fields data kind rid limits.1 limits.2] at sent
  have sendable : (framed kind rid (json.dumps fields) data).Sendable :=
    ⟨rfl, lt_of_le_of_lt limits.1 (by decide), lt_of_le_of_lt limits.2 (by decide)⟩
  have complete : (sock ++ [missing]).flatten =
      Encoder.encode (framed kind rid (json.dumps fields) data) ++ [] := by
    rw [List.append_nil, List.flatten_append, List.flatten_singleton, whole]
    exact (Except.ok.inj sent).symm
  obtain ⟨last, decoded, _⟩ := receive_encode sendable rfl kinds limits.1 limits.2 roundTrip dict
    complete
  have extended := receive_append [missing] received
  exact (Prod.mk.inj (Except.ok.inj (extended.symm.trans decoded))).1

end Prefixes

end FileServer.Protocol.Wire
