import Mathlib.Data.List.Induction
import Mathlib.Tactic.Common

/-!
# Scanning a stream

A scanner looks at the front of its input and waits for more, skips one
element, or takes an item.  Its decision is not changed by what arrives later,
so that a scan does not depend on how the input was cut.
-/

namespace FileServer.Sequence

universe u v

inductive Verdict (β : Type v) where
  | wait
  | skip
  | take (count : Nat) (item : β)
  deriving DecidableEq

/-- Decisions at the front of the input. -/
structure Scanner (α : Type u) (β : Type v) where
  verdict : List α → Verdict β
  stable : ∀ front rest, verdict front ≠ .wait → verdict (front ++ rest) = verdict front
  nil : verdict [] = .wait
  bounded : ∀ input count item, verdict input = .take count item → 0 < count ∧ count ≤ input.length

/-- A part of the input, with the item taken from it unless it was skipped. -/
structure Cut (α : Type u) (β : Type v) where
  raw : List α
  item : Option β
  deriving DecidableEq

namespace Scanner

variable {α : Type u} {β : Type v} (s : Scanner α β)

/-- The cuts made from the front of the input, and what is left of it. -/
inductive Scans : List α → List (Cut α β) → List α → Prop where
  | stop (input) : Scans input [] input
  | skip {first input cuts rest} : s.verdict (first :: input) = .skip → Scans input cuts rest →
      Scans (first :: input) (⟨[first], none⟩ :: cuts) rest
  | take {input count item cuts rest} : s.verdict input = .take count item →
      Scans (input.drop count) cuts rest →
      Scans input (⟨input.take count, some item⟩ :: cuts) rest

def items (cuts : List (Cut α β)) : List β := cuts.filterMap Cut.item

/-- Nothing is skipped. -/
def Clean (cuts : List (Cut α β)) : Prop := ∀ cut ∈ cuts, cut.item ≠ none

/-- An element is skipped at most at the end. -/
def Tidy (cuts : List (Cut α β)) : Prop := Clean cuts.dropLast

variable {s}

@[simp]
theorem items_append (first second : List (Cut α β)) :
    items (first ++ second) = items first ++ items second := by
  simp [items]

theorem items_flatten (all : List (List (Cut α β))) :
    items all.flatten = (all.map items).flatten := by
  induction all with
  | nil => rfl
  | cons cuts all inductionHypothesis => simp [inductionHypothesis]

@[simp]
theorem clean_nil : Clean ([] : List (Cut α β)) := by simp [Clean]

namespace Scans

variable {input rest rest' : List α} {cuts cuts' : List (Cut α β)}

theorem trans (first : s.Scans input cuts rest) (second : s.Scans rest cuts' rest') :
    s.Scans input (cuts ++ cuts') rest' := by
  induction first with
  | stop => exact second
  | skip skipped _ inductionHypothesis => exact .skip skipped (inductionHypothesis second)
  | take taken _ inductionHypothesis => exact .take taken (inductionHypothesis second)

theorem join (scans : s.Scans input cuts rest) : cuts.flatMap Cut.raw ++ rest = input := by
  induction scans with
  | stop => rfl
  | skip _ _ inductionHypothesis => simp [inductionHypothesis]
  | @take input count _ _ _ _ _ inductionHypothesis =>
      rw [List.flatMap_cons, List.append_assoc, inductionHypothesis, List.take_append_drop]

theorem append (scans : s.Scans input cuts rest) (later : List α) :
    s.Scans (input ++ later) cuts (rest ++ later) := by
  induction scans with
  | stop input => exact .stop _
  | skip skipped _ inductionHypothesis =>
      exact .skip ((s.stable _ later (by simp [skipped])).trans skipped) inductionHypothesis
  | @take input count item cuts rest taken _ inductionHypothesis =>
      have inRange := (s.bounded _ _ _ taken).2
      have same := (s.stable input later (by simp [taken])).trans taken
      rw [← List.drop_append_of_le_length inRange] at inductionHypothesis
      rw [← @List.take_append_of_le_length _ _ later _ inRange]
      exact .take same inductionHypothesis

theorem nil_of_wait (scans : s.Scans input cuts rest) (waits : s.verdict input = .wait) :
    cuts = [] ∧ rest = input := by
  cases scans with
  | stop => exact ⟨rfl, rfl⟩
  | skip skipped _ => simp [waits] at skipped
  | take taken _ => simp [waits] at taken

theorem eq_of_nil (scans : s.Scans input [] rest) : rest = input := scans.join

theorem resume (scans : s.Scans input cuts rest) (complete : s.Scans input cuts' rest')
    (waits : s.verdict rest' = .wait) :
    ∃ more, cuts' = cuts ++ more ∧ s.Scans rest more rest' := by
  induction scans generalizing cuts' with
  | stop input => exact ⟨cuts', rfl, complete⟩
  | skip skipped _ inductionHypothesis =>
      cases complete with
      | stop => simp [skipped] at waits
      | skip _ continued =>
          obtain ⟨more, rfl, later⟩ := inductionHypothesis continued
          exact ⟨more, rfl, later⟩
      | take taken _ => simp [skipped] at taken
  | take taken _ inductionHypothesis =>
      cases complete with
      | stop => simp [taken] at waits
      | skip skipped _ => simp [taken] at skipped
      | take taken' continued =>
          rw [taken, Verdict.take.injEq] at taken'
          obtain ⟨rfl, rfl⟩ := taken'
          obtain ⟨more, rfl, later⟩ := inductionHypothesis continued
          exact ⟨more, rfl, later⟩

theorem unique (scans : s.Scans input cuts rest) (complete : s.Scans input cuts' rest')
    (waits : s.verdict rest = .wait) (waits' : s.verdict rest' = .wait) :
    cuts' = cuts ∧ rest' = rest := by
  obtain ⟨more, rfl, later⟩ := scans.resume complete waits'
  obtain ⟨rfl, rfl⟩ := later.nil_of_wait waits
  exact ⟨List.append_nil _, rfl⟩

end Scans

section Feeding

variable (s)

def advance : Nat → List α → List (Cut α β) × List α
  | 0, input => ([], input)
  | fuel + 1, input =>
      match s.verdict input with
      | .wait => ([], input)
      | .skip => ([⟨input.take 1, none⟩], input.drop 1)
      | .take count item =>
          let (cuts, rest) := advance fuel (input.drop count)
          (⟨input.take count, some item⟩ :: cuts, rest)

def feed (buffer piece : List α) : List (Cut α β) × List α :=
  s.advance ((buffer ++ piece).length + 1) (buffer ++ piece)

def feeds (pieces : List (List α)) : List (List (Cut α β)) × List α :=
  pieces.foldl (fun (all, buffer) piece =>
    let (cuts, rest) := s.feed buffer piece
    (all ++ [cuts], rest)) ([], [])

def Skipped (cuts : List (Cut α β)) : Prop := ∃ cut ∈ cuts.getLast?, cut.item = none

/-- A scan that stops only to wait or after an element was skipped. -/
structure Fed (input : List α) (cuts : List (Cut α β)) (rest : List α) : Prop where
  scans : s.Scans input cuts rest
  tidy : Tidy cuts
  stops : s.verdict rest = .wait ∨ Skipped cuts

variable {s}

theorem fed_advance (fuel : Nat) (input : List α) (enough : input.length < fuel) :
    s.Fed input (s.advance fuel input).1 (s.advance fuel input).2 := by
  induction fuel generalizing input with
  | zero => omega
  | succ fuel inductionHypothesis =>
      cases looked : s.verdict input with
      | wait => simpa [advance, looked] using ⟨.stop input, by simp [Tidy], .inl looked⟩
      | skip =>
          cases input with
          | nil => simp [s.nil] at looked
          | cons first input =>
              simpa [advance, looked] using
                ⟨.skip looked (.stop input), by simp [Tidy], .inr ⟨_, rfl, rfl⟩⟩
      | take count item =>
          have bounds := s.bounded _ _ _ looked
          obtain ⟨scans, tidy, stops⟩ := inductionHypothesis (input.drop count) (by
            rw [List.length_drop]
            omega)
          simp only [advance, looked]
          generalize s.advance fuel (input.drop count) = result at scans tidy stops ⊢
          obtain ⟨cuts, rest⟩ := result
          refine ⟨.take looked scans, ?_, stops.imp_right ?_⟩
          · cases cuts with
            | nil => simp [Tidy]
            | cons cut cuts =>
                simp only [Tidy, List.dropLast_cons_cons] at tidy ⊢
                simpa [Clean] using tidy
          · rintro ⟨cut, last, skipped⟩
            refine ⟨cut, ?_, skipped⟩
            rw [Option.mem_def] at last ⊢
            rw [List.getLast?_cons, last, Option.getD_some]

theorem fed_feed (buffer piece : List α) :
    s.Fed (buffer ++ piece) (s.feed buffer piece).1 (s.feed buffer piece).2 :=
  fed_advance _ _ (Nat.lt_succ_self _)

theorem feeds_append (pieces : List (List α)) (piece : List α) :
    s.feeds (pieces ++ [piece]) =
      ((s.feeds pieces).1 ++ [(s.feed (s.feeds pieces).2 piece).1],
        (s.feed (s.feeds pieces).2 piece).2) := by
  simp [feeds]

theorem scans_feeds (pieces : List (List α)) :
    s.Scans pieces.flatten (s.feeds pieces).1.flatten (s.feeds pieces).2 := by
  induction pieces using List.reverseRecOn with
  | nil => exact .stop []
  | append_singleton pieces piece inductionHypothesis =>
      rw [feeds_append]
      simpa using (inductionHypothesis.append piece).trans (fed_feed _ piece).scans

theorem stops_feeds (pieces : List (List α)) :
    s.verdict (s.feeds pieces).2 = .wait ∨ Skipped (s.feeds pieces).1.flatten := by
  cases pieces using List.reverseRecOn with
  | nil => exact .inl s.nil
  | append_singleton pieces piece =>
      rw [feeds_append]
      refine (fed_feed _ piece).stops.imp_right ?_
      rintro ⟨cut, last, skipped⟩
      rw [Option.mem_def] at last
      refine ⟨cut, ?_, skipped⟩
      simp [List.getLast?_append, last]

/-- Where the scanner need not wait, an empty piece makes it go on. -/
theorem feed_nil_lt {buffer : List α} (ready : s.verdict buffer ≠ .wait) :
    (s.feed buffer []).2.length < buffer.length := by
  obtain ⟨scans, _, stops⟩ := s.fed_feed buffer []
  rw [List.append_nil] at scans
  generalize (s.feed buffer []).1 = cuts at scans stops
  generalize (s.feed buffer []).2 = rest at scans stops
  cases scans with
  | stop =>
      rcases stops with waits | ⟨cut, last, _⟩
      · exact absurd waits ready
      · cases last
  | skip _ scans =>
      have shorter := congrArg List.length scans.join
      simp only [List.length_append] at shorter
      simp only [List.length_cons]
      omega
  | take taken scans =>
      have bounds := s.bounded _ _ _ taken
      have shorter := congrArg List.length scans.join
      simp only [List.length_append, List.length_drop] at shorter
      omega

theorem feeds_idle (size : Nat) (pieces : List (List α)) (bound : (s.feeds pieces).2.length ≤ size) :
    ∃ count, s.verdict (s.feeds (pieces ++ List.replicate count [])).2 = .wait := by
  induction size generalizing pieces with
  | zero =>
      refine ⟨0, ?_⟩
      rw [List.replicate_zero, List.append_nil, List.eq_nil_of_length_eq_zero (Nat.le_zero.mp bound)]
      exact s.nil
  | succ size inductionHypothesis =>
      by_cases waits : s.verdict (s.feeds pieces).2 = .wait
      · exact ⟨0, by simpa using waits⟩
      · have shorter := feed_nil_lt waits
        obtain ⟨count, idle⟩ := inductionHypothesis (pieces ++ [[]]) (by
          rw [feeds_append]
          simp only
          omega)
        exact ⟨count + 1, by simpa [List.replicate_succ] using idle⟩

variable (s)

/-- The whole input is scanned without going on after a skipped element. -/
def Settled (input : List α) : Prop :=
  ∃ cuts rest, s.Scans input cuts rest ∧ Tidy cuts ∧ s.verdict rest = .wait

/-- Cut in this way, the input leaves these items and this rest. -/
def outcome (pieces : List (List α)) : List β × List α :=
  (items (s.feeds pieces).1.flatten, (s.feeds pieces).2)

variable {s} {input : List α}

theorem Settled.feeds (settled : s.Settled input) :
    ∃ cuts rest, s.verdict rest = .wait ∧ ∀ pieces : List (List α), pieces.flatten = input →
      (s.feeds pieces).1.flatten = cuts ∧ (s.feeds pieces).2 = rest := by
  obtain ⟨cuts, rest, scans, tidy, waits⟩ := settled
  refine ⟨cuts, rest, waits, ?_⟩
  rintro pieces rfl
  obtain ⟨more, rfl, later⟩ := (s.scans_feeds pieces).resume scans waits
  have finished : more = [] := by
    rcases s.stops_feeds pieces with waits | ⟨cut, last, skipped⟩
    · exact (later.nil_of_wait waits).1
    · by_contra further
      have early : cut ∈ ((s.feeds pieces).1.flatten ++ more).dropLast := by
        rw [List.dropLast_append_of_ne_nil further]
        exact List.mem_append_left _ (List.mem_of_mem_getLast? last)
      exact tidy cut early skipped
  subst finished
  exact ⟨(List.append_nil _).symm, later.eq_of_nil.symm⟩

theorem outcome_agree_iff :
    (∀ first second : List (List α), first.flatten = input → second.flatten = input →
      s.outcome first = s.outcome second) ↔ s.Settled input := by
  constructor
  · intro agree
    obtain ⟨count, waits⟩ := s.feeds_idle _ [input] (Nat.le_refl _)
    have same := agree [input] ([input] ++ List.replicate count []) (by simp) (by simp)
    rw [← (Prod.mk.inj same).2] at waits
    obtain ⟨scans, tidy, _⟩ := s.fed_feed [] input
    exact ⟨_, _, scans, tidy, waits⟩
  · intro settled first second whole whole'
    obtain ⟨cuts, rest, _, fixed⟩ := settled.feeds
    simp only [outcome, fixed first whole, fixed second whole']

/-- After any way of cutting an input an empty piece brings nothing just when
the input is settled. -/
theorem outcome_idle_iff :
    (∀ pieces : List (List α), pieces.flatten = input →
      s.outcome (pieces ++ [[]]) = s.outcome pieces) ↔ s.Settled input := by
  constructor
  · intro idle
    have same := (Prod.mk.inj (idle [input] (by simp))).2
    obtain ⟨scans, tidy, _⟩ := s.fed_feed [] input
    refine ⟨_, _, scans, tidy, ?_⟩
    by_contra ready
    have shorter := feed_nil_lt ready
    rw [feeds_append] at same
    have kept : (s.feed (s.feed [] input).2 []).2 = (s.feed [] input).2 := same
    rw [kept] at shorter
    exact Nat.lt_irrefl _ shorter
  · intro settled pieces whole
    obtain ⟨cuts, rest, _, fixed⟩ := settled.feeds
    simp only [outcome, fixed pieces whole, fixed (pieces ++ [[]]) (by simpa using whole)]

end Feeding

end Scanner

end FileServer.Sequence
