import FileServer.Transition.Run
import Mathlib.Order.Bounds.Basic
import Mathlib.Order.MinMax

/-!
# A maximum raised by reads and stores

Clients raise a register by reading it and storing, later, the larger of what
they read and an amount of their own.  The register is the maximum of the
amounts as long as no store is overtaken by a larger one.
-/

namespace FileServer.Transition

inductive Operation (Client α : Type*) where
  | read (client : Client)
  | store (client : Client) (amount : α)

/-- The value, and what each client read last. -/
structure Register (Client α : Type*) where
  value : α
  seen : Client → Option α

namespace Register

variable {Client α : Type*} [DecidableEq Client] [LinearOrder α]

def step (register : Register Client α) : Operation Client α → Option (Register Client α)
  | .read client =>
      some { register with seen := Function.update register.seen client (some register.value) }
  | .store client amount =>
      (register.seen client).map fun seen => { register with value := max seen amount }

def system (initial : α) : System (Register Client α) (Operation Client α) where
  initial := ⟨initial, fun _ => none⟩
  step := step

end Register

variable {Client α : Type*}

def amounts (initial : α) (operations : List (Operation Client α)) : Set α :=
  {amount | amount = initial ∨ ∃ client, .store client amount ∈ operations}

variable {initial : α} {operations : List (Operation Client α)} {client : Client} {amount : α}

@[simp]
theorem amounts_read : amounts initial (.read client :: operations) =
    amounts initial operations := by
  simp [amounts]

theorem amounts_store : amounts initial (.store client amount :: operations) =
    insert amount (amounts initial operations) := by
  ext known
  simp only [amounts, List.mem_cons, Operation.store.injEq, Set.mem_insert_iff, Set.mem_ofPred_eq]
  constructor
  · rintro (first | ⟨other, ⟨_, own⟩ | older⟩)
    · exact .inr (.inl first)
    · exact .inl own
    · exact .inr (.inr ⟨other, older⟩)
  · rintro (own | first | ⟨other, older⟩)
    · exact .inr ⟨client, .inl ⟨rfl, own⟩⟩
    · exact .inl first
    · exact .inr ⟨other, .inr older⟩

theorem amounts_mono {newer : List (Operation Client α)} :
    amounts initial operations ⊆ amounts initial (newer ++ operations) := by
  rintro known (first | ⟨other, older⟩)
  · exact .inl first
  · exact .inr ⟨other, List.mem_append_right _ older⟩

theorem last_read_unique {between other earlier older : List (Operation Client α)}
    (same : between ++ .read client :: earlier = other ++ .read client :: older)
    (last : .read client ∉ between) (last' : .read client ∉ other) :
    between = other ∧ earlier = older := by
  induction between generalizing other with
  | nil =>
      cases other with
      | nil => exact ⟨rfl, (List.cons.inj same).2⟩
      | cons first rest =>
          have head := (List.cons.inj same).1
          simp [← head] at last'
  | cons first rest inductionHypothesis =>
      cases other with
      | nil =>
          have head := (List.cons.inj same).1
          simp [head] at last
      | cons first' rest' =>
          obtain ⟨rfl, tail⟩ := List.cons.inj same
          obtain ⟨rfl, rfl⟩ := inductionHypothesis tail
            (fun inside => last (List.mem_cons_of_mem _ inside))
            (fun inside => last' (List.mem_cons_of_mem _ inside))
          exact ⟨rfl, rfl⟩

variable [LinearOrder α]

/-- Since the client read the register, a larger amount has been stored than its
own and than every one before its read. -/
def Outrun (initial : α) (operations : List (Operation Client α)) (client : Client)
    (amount : α) : Prop :=
  ∃ between earlier other larger, operations = between ++ .read client :: earlier ∧
    .read client ∉ between ∧ .store other larger ∈ between ∧ amount < larger ∧
    ∀ known ∈ amounts initial earlier, known < larger

def Overtaken (initial : α) (operations : List (Operation Client α)) : Prop :=
  ∃ later client amount earlier, operations = later ++ .store client amount :: earlier ∧
    Outrun initial earlier client amount

@[simp]
theorem not_outrun_read : ¬Outrun initial (.read client :: operations) client amount := by
  rintro ⟨between, earlier, other, larger, split, last, stored, _⟩
  obtain ⟨rfl, _⟩ := last_read_unique (List.nil_append _ ▸ split) List.not_mem_nil last
  simp at stored

@[simp]
theorem overtaken_nil : ¬Overtaken initial ([] : List (Operation Client α)) := by
  rintro ⟨later, client, amount, earlier, split, _⟩
  simp at split

@[simp]
theorem overtaken_read :
    Overtaken initial (.read client :: operations) ↔ Overtaken initial operations := by
  constructor
  · rintro ⟨later, other, amount, earlier, split, outrun⟩
    cases later with
    | nil => simp at split
    | cons last rest =>
        exact ⟨rest, other, amount, earlier, (List.cons.inj split).2, outrun⟩
  · rintro ⟨later, other, amount, earlier, rfl, outrun⟩
    exact ⟨.read client :: later, other, amount, earlier, rfl, outrun⟩

@[simp]
theorem overtaken_store :
    Overtaken initial (.store client amount :: operations) ↔
      Outrun initial operations client amount ∨ Overtaken initial operations := by
  constructor
  · rintro ⟨later, other, stored, earlier, split, outrun⟩
    cases later with
    | nil =>
        cases split
        exact .inl outrun
    | cons last rest =>
        exact .inr ⟨rest, other, stored, earlier, (List.cons.inj split).2, outrun⟩
  · rintro (outrun | ⟨later, other, stored, earlier, rfl, outrun⟩)
    · exact ⟨[], client, amount, operations, rfl, outrun⟩
    · exact ⟨.store client amount :: later, other, stored, earlier, rfl, outrun⟩

/-- The value is the maximum now, and what a client saw was the maximum at its
last read. -/
structure Tracked (initial : α) (operations : List (Operation Client α))
    (register : Register Client α) : Prop where
  greatest : IsGreatest (amounts initial operations) register.value
  seen : ∀ client value, register.seen client = some value → ∃ between earlier,
    operations = between ++ .read client :: earlier ∧ .read client ∉ between ∧
      IsGreatest (amounts initial earlier) value

section Steps

variable {register : Register Client α}

theorem Tracked.fits_iff (tracked : Tracked initial operations register) {seen : α}
    (read : register.seen client = some seen) :
    register.value ≤ max seen amount ↔ ¬Outrun initial operations client amount := by
  obtain ⟨between, earlier, split, last, known⟩ := tracked.seen client seen read
  constructor
  · rintro fits ⟨between', earlier', other, larger, split', last', stored, above, beyond⟩
    obtain ⟨rfl, rfl⟩ := last_read_unique (split.symm.trans split') last last'
    have inside : larger ∈ amounts initial operations := by
      rw [split]
      exact .inr ⟨other, List.mem_append_left _ stored⟩
    have reached := (tracked.greatest.2 inside).trans fits
    rcases le_max_iff.mp reached with below | below
    · exact absurd (beyond seen known.1) (not_lt.mpr below)
    · exact absurd above (not_lt.mpr below)
  · intro kept
    by_contra lower
    obtain ⟨above, beyond⟩ := max_lt_iff.mp (not_le.mp lower)
    have value := tracked.greatest.1
    rw [split] at value
    rcases value with first | ⟨other, stored⟩
    · exact absurd (known.2 (.inl first)) (not_le.mpr above)
    rcases List.mem_append.mp stored with inside | older
    · exact kept ⟨between, earlier, other, register.value, split, last, inside, beyond,
        fun amount before => (known.2 before).trans_lt above⟩
    · have before : Operation.store other register.value ∈ earlier := by simpa using older
      exact absurd (known.2 (.inr ⟨other, before⟩)) (not_le.mpr above)

theorem Tracked.read [DecidableEq Client] (tracked : Tracked initial operations register)
    (client : Client) :
    Tracked initial (.read client :: operations)
      { register with seen := Function.update register.seen client (some register.value) } where
  greatest := by
    rw [amounts_read]
    exact tracked.greatest
  seen := by
    intro other value found
    by_cases same : other = client
    · subst same
      have current : register.value = value := by simpa using found
      subst current
      exact ⟨[], operations, rfl, List.not_mem_nil, tracked.greatest⟩
    · have older : register.seen other = some value := by simpa [same] using found
      obtain ⟨between, earlier, rfl, last, known⟩ := tracked.seen other value older
      refine ⟨.read client :: between, earlier, rfl, ?_, known⟩
      simp [same, last]

theorem Tracked.store (tracked : Tracked initial operations register) {seen : α}
    (read : register.seen client = some seen) (fits : register.value ≤ max seen amount) :
    Tracked initial (.store client amount :: operations)
      { register with value := max seen amount } where
  greatest := by
    obtain ⟨between, earlier, split, _, known⟩ := tracked.seen client seen read
    rw [amounts_store]
    refine ⟨?_, ?_⟩
    · rcases max_choice seen amount with same | same
      · rw [same, split]
        have before : seen ∈ amounts initial (between ++ [.read client] ++ earlier) :=
          amounts_mono known.1
        rw [List.append_assoc] at before
        exact Set.mem_insert_of_mem _ before
      · rw [same]
        exact Set.mem_insert _ _
    · rintro other (rfl | older)
      · exact le_max_right _ _
      · exact (tracked.greatest.2 older).trans fits
  seen := by
    intro other value found
    obtain ⟨between, earlier, rfl, last, known⟩ := tracked.seen other value found
    refine ⟨.store client amount :: between, earlier, rfl, ?_, known⟩
    simp [last]

end Steps

section Runs

variable [DecidableEq Client] {history : List (Event (Register Client α) (Operation Client α))}
  {register : Register Client α}

/-- Along a run the register never decreases exactly as long as no store is
overtaken, and it then is the maximum of the amounts. -/
theorem tracked_of_run (run : Run (Register.system initial) history register) :
    ((∀ event ∈ history, event.before.value ≤ event.after.value) ↔
        ¬Overtaken initial (history.map Event.action)) ∧
      (¬Overtaken initial (history.map Event.action) →
        Tracked initial (history.map Event.action) register) := by
  induction run with
  | start =>
      refine ⟨by simp, fun _ => ⟨⟨.inl rfl, ?_⟩, ?_⟩⟩
      · rintro known (rfl | ⟨other, stored⟩)
        · exact le_rfl
        · exact absurd stored List.not_mem_nil
      · intro client value found
        exact absurd found (by simp [Register.system])
  | @next older before action after earlier stepped inductionHypothesis =>
      obtain ⟨grows, tracked⟩ := inductionHypothesis
      rw [List.forall_mem_cons, grows]
      cases action with
      | read client =>
          cases stepped
          simp only [List.map_cons, overtaken_read, le_refl, true_and]
          exact fun kept => (tracked kept).read client
      | store client amount =>
          simp only [Register.system, Register.step, Option.map_eq_some_iff] at stepped
          obtain ⟨seen, read, rfl⟩ := stepped
          simp only [List.map_cons, overtaken_store, not_or]
          refine ⟨⟨?_, ?_⟩, ?_⟩
          · rintro ⟨fits, kept⟩
            exact ⟨((tracked kept).fits_iff read).mp fits, kept⟩
          · rintro ⟨ahead, kept⟩
            exact ⟨((tracked kept).fits_iff read).mpr ahead, kept⟩
          · rintro ⟨ahead, kept⟩
            exact (tracked kept).store read (((tracked kept).fits_iff read).mpr ahead)

end Runs

end FileServer.Transition
