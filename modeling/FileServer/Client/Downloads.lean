import FileServer.Encoding.Signed

/-!
# The download loop

`FileClient::DownloadFile` takes its progress from the length of what the server
sends.  It ends, and what it has written is the file, as long as no accepted
reply is empty.
-/

namespace FileServer.FileClient

open FileServer.Encoding

abbrev Bytes := List UInt8

def kChunkSize : Int64 := 4 * 1024 * 1024

/-- The response to a `download_chunk` request; the length of its binary data
came in 32 bits. -/
structure Reply where
  code : Int
  binaryData : Bytes
  fits : binaryData.length < 2 ^ 32

/-- The response to the `download` request, and whether the target could be
opened. -/
structure Start where
  code : Int
  filesize : Int64
  opened : Bool

/-- The server and the disk: the reply to each request, and how much of a write
reaches the file when it fails. -/
structure Environment where
  replies : Nat → Reply
  disk : Nat → Option Nat

/-- The local variables of `DownloadFile`, the file it writes, and the code it
has returned. -/
structure Transfer where
  offset : Int64
  out : Bytes
  failed : Bool
  result : Option Int

namespace Transfer

/-- Before the loop. -/
def initial (start : Start) : Transfer where
  offset := 0
  out := []
  failed := false
  result :=
    if start.code ≠ 0 then some start.code
    else if start.filesize = 0 ∨ !start.opened then some (-1)
    else none

/-- The offset and the size that the next request asks for. -/
def request (filesize : Int64) (transfer : Transfer) : Option (Int64 × Int64) :=
  if transfer.result = none ∧ transfer.offset < filesize then
    some (transfer.offset, min kChunkSize (filesize - transfer.offset))
  else none

/-- One turn of the loop, or its end; after a failed write the stream takes
nothing more. -/
def turn (filesize : Int64) (reply : Reply) (short : Option Nat) (transfer : Transfer) : Transfer :=
  if transfer.result.isSome then transfer
  else if transfer.offset < filesize then
    if reply.code ≠ 0 then { transfer with result := some reply.code }
    else { transfer with
      out := if transfer.failed then transfer.out
        else transfer.out ++ reply.binaryData.take (short.getD reply.binaryData.length)
      failed := transfer.failed || short.isSome
      offset := transfer.offset + .ofNat reply.binaryData.length }
  else
    let bad := transfer.failed ∨ short.isSome ∨ transfer.offset ≠ filesize
    { transfer with result := some (if bad then -1 else 0) }

end Transfer

variable (start : Start) (environment : Environment)

def after : Nat → Transfer
  | 0 => .initial start
  | n + 1 =>
      (after n).turn start.filesize (environment.replies n) (environment.disk n)

/-- Finitely many requests are sent, each accepted reply advances the offset,
and after success the file is exactly the bytes of the replies, each where it
was requested. -/
structure Downloads : Prop where
  finite : ∃ bound, ∀ n, bound ≤ n → (after start environment n).request start.filesize = none
  advances : ∀ n, ((after start environment n).request start.filesize).isSome →
    (environment.replies n).code = 0 →
    (after start environment n).offset < (after start environment (n + 1)).offset
  complete : ∀ n, (after start environment n).result = some 0 →
    ((after start environment n).out.length : Int) = start.filesize.toInt ∧
    ∀ k offset size, (after start environment k).request start.filesize = some (offset, size) →
      0 ≤ offset.toInt ∧ ∀ i < (environment.replies k).binaryData.length,
        (after start environment n).out[offset.toInt.toNat + i]? =
          (environment.replies k).binaryData[i]?

def received (n : Nat) : Bytes :=
  (List.range n).flatMap fun i => (environment.replies i).binaryData

/-- No reply that is accepted before the file is complete is empty, or longer
than an offset can count. -/
def Nonempty : Prop :=
  start.code = 0 → start.opened = true → ∀ n, (∀ i ≤ n, (environment.replies i).code = 0) →
    ((received environment n).length : Int) < start.filesize.toInt →
    (environment.replies n).binaryData ≠ [] ∧
      (received environment (n + 1)).length < 2 ^ 63

section Turns

variable {start environment} {n : Nat}

theorem received_succ (n : Nat) : received environment (n + 1) =
    received environment n ++ (environment.replies n).binaryData := by
  simp [received, List.range_succ]

theorem received_earlier {k : Nat} (earlier : k ≤ n) :
    received environment k <+: received environment n := by
  induction earlier with
  | refl => exact List.prefix_rfl
  | step _ inductionHypothesis =>
      rw [received_succ]
      exact inductionHypothesis.trans (List.prefix_append _ _)

theorem advances_iff {offset : Int64} {reply : Reply} (forward : 0 ≤ offset.toInt) :
    offset < offset + .ofNat reply.binaryData.length ↔
      reply.binaryData ≠ [] ∧ offset.toInt + reply.binaryData.length < 2 ^ 63 := by
  have small : (Int64.ofNat reply.binaryData.length).toInt = reply.binaryData.length :=
    Int64.toInt_ofNat_of_lt (Nat.lt_trans reply.fits (by decide))
  have fits := reply.fits
  have below := offset.toInt_lt
  have positive : reply.binaryData ≠ [] ↔ 0 < reply.binaryData.length := List.length_pos_iff.symm
  rw [Int64.lt_iff_toInt_lt, positive]
  by_cases within : offset.toInt + reply.binaryData.length < 2 ^ 63
  · rw [toInt_add (by omega) (by omega), small]
    omega
  · have wrapped : (offset + Int64.ofNat reply.binaryData.length).toInt =
        offset.toInt + reply.binaryData.length - 2 ^ 64 := by
      have shifted :=
        Int.add_mul_bmod_self_left (offset.toInt + reply.binaryData.length) (2 ^ 64) (-1)
      rw [Int64.toInt_add, small, ← shifted]
      exact Int.bmod_eq_of_le (by omega) (by omega)
    omega

/-- In the loop after accepted replies only, each with some bytes. -/
structure Live (start : Start) (environment : Environment) (n : Nat) : Prop where
  running : (after start environment n).result = none
  started : start.code = 0 ∧ start.opened = true
  accepted : ∀ i < n, (environment.replies i).code = 0
  advanced : (after start environment n).offset.toInt = (received environment n).length
  counted : n ≤ (received environment n).length
  written : (after start environment n).failed = false →
    (after start environment n).out = received environment n

theorem initial_running (running : (Transfer.initial start).result = none) :
    start.code = 0 ∧ start.opened = true := by
  simp only [Transfer.initial] at running
  split at running
  · contradiction
  · rename_i ok
    split at running
    · contradiction
    · rename_i possible
      rw [not_or, Bool.not_eq_true', Bool.not_eq_false] at possible
      exact ⟨not_not.mp ok, possible.2⟩

theorem live_zero (running : (after start environment 0).result = none) :
    Live start environment 0 where
  running := running
  started := initial_running running
  accepted := by simp
  advanced := by simp [after, Transfer.initial, received, Int64.toInt_zero]
  counted := Nat.zero_le _
  written _ := by simp [after, Transfer.initial, received]

/-- An accepted reply that advances the offset. -/
theorem Live.succ (live : Live start environment n)
    (unfinished : (after start environment n).offset < start.filesize)
    (ok : (environment.replies n).code = 0) (nonempty : (environment.replies n).binaryData ≠ [])
    (within : (received environment (n + 1)).length < 2 ^ 63) :
    Live start environment (n + 1) := by
  have small : (Int64.ofNat (environment.replies n).binaryData.length).toInt =
      (environment.replies n).binaryData.length :=
    Int64.toInt_ofNat_of_lt (Nat.lt_trans (environment.replies n).fits (by decide))
  have positive := List.length_pos_iff.mpr nonempty
  have counted := live.counted
  have advanced := live.advanced
  rw [received_succ, List.length_append] at within
  refine ⟨?_, live.started, ?_, ?_, ?_, ?_⟩
  · simp [after, Transfer.turn, live.running, unfinished, ok]
  · intro i earlier
    rcases Nat.lt_succ_iff_lt_or_eq.mp earlier with before | rfl
    · exact live.accepted i before
    · exact ok
  · simp only [after, Transfer.turn, live.running, Option.isSome_none, Bool.false_eq_true,
      if_false, if_pos unfinished, ok, ne_eq, not_true_eq_false, received_succ, List.length_append]
    rw [toInt_add (by omega) (by omega), small]
    omega
  · rw [received_succ, List.length_append]
    omega
  · simp only [after, Transfer.turn, live.running, Option.isSome_none, Bool.false_eq_true,
      if_false, if_pos unfinished, ok, ne_eq, not_true_eq_false, Bool.or_eq_false_iff]
    rintro ⟨kept, whole⟩
    rw [Option.isSome_eq_false_iff, Option.isNone_iff_eq_none] at whole
    rw [if_neg (by simp [kept]), whole, received_succ, live.written kept]
    simp

theorem turn_running {filesize : Int64} {reply : Reply} {short : Option Nat} {transfer : Transfer}
    (running : (transfer.turn filesize reply short).result = none) :
    transfer.result = none ∧ transfer.offset < filesize ∧ reply.code = 0 := by
  simp only [Transfer.turn] at running
  split at running
  · rename_i ended
    rw [running] at ended
    contradiction
  · rename_i live
    rw [Option.not_isSome_iff_eq_none] at live
    split at running
    · rename_i unfinished
      split at running
      · contradiction
      · rename_i ok
        exact ⟨live, unfinished, not_not.mp ok⟩
    · contradiction

theorem Live.progress (nonempty : Nonempty start environment) (live : Live start environment n)
    (unfinished : (after start environment n).offset < start.filesize)
    (ok : (environment.replies n).code = 0) :
    (environment.replies n).binaryData ≠ [] ∧
      (received environment (n + 1)).length < 2 ^ 63 := by
  refine nonempty live.started.1 live.started.2 n ?_ ?_
  · intro i before
    rcases Nat.lt_or_eq_of_le before with less | rfl
    · exact live.accepted i less
    · exact ok
  · rw [← live.advanced]
    exact Int64.lt_iff_toInt_lt.mp unfinished

theorem live_of_running (nonempty : Nonempty start environment)
    (running : (after start environment n).result = none) : Live start environment n := by
  induction n with
  | zero => exact live_zero running
  | succ n inductionHypothesis =>
      obtain ⟨earlier, unfinished, ok⟩ := turn_running running
      have live := inductionHypothesis earlier
      obtain ⟨some, within⟩ := live.progress nonempty unfinished ok
      exact live.succ unfinished ok some within

theorem turn_succeeded {filesize : Int64} {reply : Reply} {short : Option Nat} {transfer : Transfer}
    (succeeded : (transfer.turn filesize reply short).result = some 0) :
    (transfer.turn filesize reply short).out = transfer.out ∧
      (transfer.result = some 0 ∨
        transfer.result = none ∧ transfer.offset = filesize ∧ transfer.failed = false) := by
  simp only [Transfer.turn] at succeeded ⊢
  split at succeeded
  · rename_i ended
    rw [if_pos ended]
    exact ⟨rfl, .inl succeeded⟩
  · rename_i live
    rw [if_neg live]
    rw [Option.not_isSome_iff_eq_none] at live
    split at succeeded
    · split at succeeded
      · rename_i refused
        exact absurd (Option.some.inj succeeded) refused
      · rw [live] at succeeded
        contradiction
    · rename_i finished
      rw [if_neg finished]
      simp only [Option.some.injEq] at succeeded
      split at succeeded
      · contradiction
      · rename_i good
        rw [not_or, not_or, Bool.not_eq_true, not_not] at good
        exact ⟨rfl, .inr ⟨live, good.2.2, good.1⟩⟩

theorem succeeded (nonempty : Nonempty start environment)
    (succeeded : (after start environment n).result = some 0) :
    ∃ m, Live start environment m ∧ (after start environment m).offset = start.filesize ∧
      (after start environment n).out = received environment m := by
  induction n with
  | zero =>
      simp only [after, Transfer.initial] at succeeded
      split at succeeded
      · rename_i refused
        exact absurd (Option.some.inj succeeded) refused
      · split at succeeded
        · contradiction
        · contradiction
  | succ n inductionHypothesis =>
      obtain ⟨same, before | ⟨running, finished, kept⟩⟩ := turn_succeeded succeeded
      · obtain ⟨m, live, finished, out⟩ := inductionHypothesis before
        exact ⟨m, live, finished, same.trans out⟩
      · have live := live_of_running nonempty running
        exact ⟨n, live, finished, same.trans (live.written kept)⟩

theorem request_isSome {filesize : Int64} {transfer : Transfer} :
    (transfer.request filesize).isSome ↔ transfer.result = none ∧ transfer.offset < filesize := by
  unfold Transfer.request
  split <;> simp_all

theorem after_succ_offset (running : (after start environment n).result = none)
    (unfinished : (after start environment n).offset < start.filesize)
    (ok : (environment.replies n).code = 0) :
    (after start environment (n + 1)).offset = (after start environment n).offset +
      .ofNat (environment.replies n).binaryData.length := by
  simp [after, Transfer.turn, running, unfinished, ok]

/-- A request is for bytes that were received before the end. -/
theorem Live.before {m : Nat} (live : Live start environment n)
    (unfinished : (after start environment n).offset < start.filesize)
    (last : Live start environment m)
    (finished : (after start environment m).offset = start.filesize) :
    n < m := by
  by_contra late
  have shorter := (@received_earlier environment _ _ (Nat.le_of_not_lt late)).length_le
  have below := Int64.lt_iff_toInt_lt.mp unfinished
  rw [← finished, live.advanced, last.advanced] at below
  omega

theorem downloads_of_nonempty (nonempty : Nonempty start environment) :
    Downloads start environment where
  finite := by
    refine ⟨start.filesize.toInt.toNat, fun n late => ?_⟩
    rw [← Option.not_isSome_iff_eq_none, request_isSome]
    rintro ⟨running, unfinished⟩
    have live := live_of_running nonempty running
    have counted := live.counted
    have below := Int64.lt_iff_toInt_lt.mp unfinished
    rw [live.advanced] at below
    omega
  advances := by
    intro n requested ok
    obtain ⟨running, unfinished⟩ := request_isSome.mp requested
    have live := live_of_running nonempty running
    obtain ⟨some, within⟩ := live.progress nonempty unfinished ok
    have advanced := live.advanced
    rw [received_succ, List.length_append] at within
    rw [after_succ_offset running unfinished ok, advances_iff (by omega)]
    exact ⟨some, by omega⟩
  complete := by
    intro n success
    obtain ⟨m, last, finished, out⟩ := succeeded nonempty success
    have size : start.filesize.toInt = (received environment m).length := by
      rw [← finished, last.advanced]
    rw [out, size]
    refine ⟨rfl, ?_⟩
    intro k offset size requested
    have asked : ((after start environment k).request start.filesize).isSome := by
      rw [requested]
      rfl
    obtain ⟨running, unfinished⟩ := request_isSome.mp asked
    have live := live_of_running nonempty running
    have earlier := live.before unfinished last finished
    rw [Transfer.request, if_pos ⟨running, unfinished⟩] at requested
    cases requested
    rw [live.advanced]
    refine ⟨Int.natCast_nonneg _, ?_⟩
    intro i inside
    obtain ⟨rest, whole⟩ := @received_earlier environment _ _ earlier
    rw [← whole, received_succ, Int.toNat_natCast, List.append_assoc,
      List.getElem?_append_right (Nat.le_add_right _ _), Nat.add_sub_cancel_left,
      List.getElem?_append_left inside]

theorem Downloads.live (downloads : Downloads start environment)
    (started : start.code = 0 ∧ start.opened = true)
    (accepted : ∀ i ≤ n, (environment.replies i).code = 0)
    (remaining : ((received environment n).length : Int) < start.filesize.toInt) :
    Live start environment n ∧ (environment.replies n).binaryData ≠ [] ∧
      (received environment (n + 1)).length < 2 ^ 63 := by
  have progress : ∀ m ≤ n, Live start environment m →
      (after start environment m).offset < start.filesize ∧
        (environment.replies m).binaryData ≠ [] ∧
        (received environment (m + 1)).length < 2 ^ 63 := by
    intro m earlier live
    have shorter := (@received_earlier environment _ _ earlier).length_le
    have advanced := live.advanced
    have unfinished : (after start environment m).offset < start.filesize := by
      rw [Int64.lt_iff_toInt_lt]
      omega
    have larger := downloads.advances m (request_isSome.mpr ⟨live.running, unfinished⟩)
      (accepted m earlier)
    rw [after_succ_offset live.running unfinished (accepted m earlier),
      advances_iff (by omega)] at larger
    rw [received_succ, List.length_append]
    exact ⟨unfinished, larger.1, by omega⟩
  have live : ∀ m ≤ n, Live start environment m := by
    intro m
    induction m with
    | zero =>
        intro _
        have nonzero : start.filesize ≠ 0 := by
          intro empty
          rw [empty, Int64.toInt_zero] at remaining
          omega
        exact live_zero (by simp [after, Transfer.initial, started, nonzero])
    | succ m inductionHypothesis =>
        intro earlier
        have live := inductionHypothesis (Nat.le_of_succ_le earlier)
        obtain ⟨unfinished, some, within⟩ := progress m (Nat.le_of_succ_le earlier) live
        exact live.succ unfinished (accepted m (Nat.le_of_succ_le earlier)) some within
  exact ⟨live n (Nat.le_refl n), (progress n (Nat.le_refl n) (live n (Nat.le_refl n))).2⟩

end Turns

/-- The loop ends and downloads the file exactly when no reply accepted before
the end is empty, or leads beyond the largest offset. -/
theorem downloads_iff (start : Start) (environment : Environment) :
    Downloads start environment ↔ Nonempty start environment := by
  refine ⟨fun downloads ok opened n accepted remaining => ?_, downloads_of_nonempty⟩
  exact (downloads.live ⟨ok, opened⟩ accepted remaining).2

/-- A server that answers each request with success and no bytes. -/
def silent : Environment where
  replies _ := { code := 0, binaryData := [], fits := by decide }
  disk _ := none

theorem silent_running (n : Nat) :
    after { code := 0, filesize := 2, opened := true } silent n =
      { offset := 0, out := [], failed := false, result := none } := by
  induction n with
  | zero => rfl
  | succ n inductionHypothesis =>
      rw [after, inductionHypothesis]
      rfl

/-- Then the download of a file of two bytes never ends. -/
theorem silent_endless : ¬∀ (start : Start) (environment : Environment),
    Downloads start environment := by
  intro downloads
  obtain ⟨bound, ended⟩ := (downloads { code := 0, filesize := 2, opened := true } silent).finite
  have none := ended bound (Nat.le_refl bound)
  rw [silent_running] at none
  exact absurd none (by decide)

end FileServer.FileClient
