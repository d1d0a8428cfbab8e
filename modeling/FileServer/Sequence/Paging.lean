import Mathlib.Data.List.Sort
import Mathlib.Data.List.TakeDrop

/-!
# Reading a list page by page

A page holds the first values from a cursor on, and says where the next page
begins when there are more.  The list may change from one page to the next.
-/

namespace FileServer.Sequence

def page (limit : Nat) (values : List Nat) (cursor : Nat) : List Nat × Option Nat :=
  let rows := (values.filter (cursor ≤ ·)).take (limit + 1)
  (rows.take limit, if limit < rows.length then rows[limit - 1]?.map (· + 1) else none)

inductive Paging (limit : Nat) : List (List Nat) → Nat → List Nat → Prop where
  | last {values cursor listed} (read : page limit values cursor = (listed, none)) :
      Paging limit [values] cursor listed
  | next {values lists cursor listed following rest}
      (read : page limit values cursor = (listed, some following))
      (later : Paging limit lists following rest) :
      Paging limit (values :: lists) cursor (listed ++ rest)

variable {limit cursor : Nat} {values : List Nat}

theorem page_cases (positive : 0 < limit) :
    page limit values cursor = (values.filter (cursor ≤ ·), none) ∨
      ∃ front last back, values.filter (cursor ≤ ·) = front ++ [last] ++ back ∧
        front.length + 1 = limit ∧
        page limit values cursor = (front ++ [last], some (last + 1)) := by
  simp only [page]
  generalize values.filter (cursor ≤ ·) = rows
  rcases Nat.lt_or_ge limit rows.length with long | short
  · have bound : limit - 1 < rows.length := by omega
    have split : rows.take (limit - 1) ++ [rows[limit - 1]] = rows.take limit := by
      rw [List.take_concat_get', Nat.sub_add_cancel positive]
    refine .inr ⟨rows.take (limit - 1), rows[limit - 1], rows.drop limit, ?_, ?_, ?_⟩
    · rw [split, List.take_append_drop]
    · simp only [List.length_take]
      omega
    · have more : limit < (rows.take (limit + 1)).length := by
        simp only [List.length_take]
        omega
      have found : (rows.take (limit + 1))[limit - 1]? = some rows[limit - 1] := by
        rw [List.getElem?_take_of_lt (by omega), List.getElem?_eq_getElem bound]
      rw [List.take_take, if_pos more, Nat.min_eq_left (by omega), split, found, Option.map_some]
  · have whole : rows.take (limit + 1) = rows := List.take_of_length_le (by omega)
    rw [whole, List.take_of_length_le short, if_neg (Nat.not_lt.mpr short)]
    exact .inl rfl

theorem page_fst : (page limit values cursor).1 = (values.filter (cursor ≤ ·)).take limit := by
  rw [page, List.take_take, Nat.min_eq_left (Nat.le_succ limit)]

theorem page_snd_isSome (positive : 0 < limit) :
    (page limit values cursor).2.isSome =
      decide (limit < (values.filter (cursor ≤ ·)).length) := by
  simp only [page]
  generalize values.filter (cursor ≤ ·) = rows
  by_cases more : limit < rows.length
  · have longer : limit < (rows.take (limit + 1)).length := by
      simp only [List.length_take]
      omega
    rw [if_pos longer, List.getElem?_eq_getElem (by omega), decide_eq_true more]
    rfl
  · have shorter : ¬ limit < (rows.take (limit + 1)).length := by
      simp only [List.length_take]
      omega
    rw [if_neg shorter, decide_eq_false more]
    rfl

section Increasing

variable {front back : List Nat} {last : Nat} (increasing : values.Pairwise (· < ·))
  (split : values.filter (cursor ≤ ·) = front ++ [last] ++ back)
include increasing split

theorem filter_increasing : (front ++ [last] ++ back).Pairwise (· < ·) := by
  rw [← split]
  exact increasing.filter _

theorem filter_page {seq : Nat} (listed : seq ∈ front ++ [last]) :
    cursor ≤ seq ∧ seq ∈ values ∧ seq ≤ last := by
  obtain ⟨sorted, _, _⟩ := List.pairwise_append.mp (filter_increasing increasing split)
  have inRows : seq ∈ values.filter (cursor ≤ ·) := split ▸ List.mem_append_left _ listed
  obtain ⟨present, reached⟩ := List.mem_filter.mp inRows
  refine ⟨by simpa using reached, present, ?_⟩
  rcases List.mem_append.mp listed with inFront | isLast
  · exact Nat.le_of_lt ((List.pairwise_append.mp sorted).2.2 seq inFront last List.mem_cons_self)
  · exact Nat.le_of_eq (List.mem_singleton.mp isLast)

theorem filter_after : values.filter (last + 1 ≤ ·) = back := by
  obtain ⟨_, _, across⟩ := List.pairwise_append.mp (filter_increasing increasing split)
  have reached : cursor ≤ last := (filter_page increasing split (by simp)).1
  have within : values.filter (last + 1 ≤ ·) =
      (values.filter (cursor ≤ ·)).filter (last + 1 ≤ ·) := by
    rw [List.filter_filter]
    apply List.filter_congr
    intro value _
    rw [← Bool.decide_and, decide_eq_decide]
    omega
  rw [within, split, List.filter_append, List.filter_eq_nil_iff.mpr, List.nil_append,
    List.filter_eq_self]
  · intro value inBack
    exact decide_eq_true (across last (by simp) value inBack)
  · intro value listed
    have before := (filter_page increasing split listed).2.2
    simp only [decide_eq_true_eq]
    omega

theorem filter_advances : cursor + front.length ≤ last := by
  have sorted := (List.pairwise_append.mp (filter_increasing increasing split)).1
  have above : ∀ seq ∈ front ++ [last], cursor ≤ seq :=
    fun seq listed => (filter_page increasing split listed).1
  clear split increasing
  induction front generalizing cursor with
  | nil => exact above last (by simp)
  | cons first rest inductionHypothesis =>
      rw [List.cons_append, List.pairwise_cons] at sorted
      have moved : cursor + 1 + rest.length ≤ last :=
        inductionHypothesis sorted.2 fun seq listed =>
          Nat.lt_of_le_of_lt (above first List.mem_cons_self) (sorted.1 seq listed)
      rw [List.length_cons]
      omega

end Increasing

namespace Paging

variable {lists : List (List Nat)} {seqs : List Nat}

theorem increasing (paging : Paging limit lists cursor seqs) (positive : 0 < limit)
    (sorted : ∀ values ∈ lists, values.Pairwise (· < ·)) :
    seqs.Pairwise (· < ·) ∧ ∀ seq ∈ seqs, cursor ≤ seq ∧ ∃ values ∈ lists, seq ∈ values := by
  induction paging with
  | @last values cursor listed read =>
      rcases page_cases positive with ended | ⟨front, last, back, split, _, full⟩
      · obtain ⟨rfl, _⟩ := Prod.mk.inj (read.symm.trans ended)
        refine ⟨(sorted values List.mem_cons_self).filter _, fun seq listed => ?_⟩
        obtain ⟨present, reached⟩ := List.mem_filter.mp listed
        exact ⟨by simpa using reached, values, List.mem_cons_self, present⟩
      · cases (Prod.mk.inj (read.symm.trans full)).2
  | @next values lists cursor listed following rest read later inductionHypothesis =>
      rcases page_cases positive with ended | ⟨front, last, back, split, _, full⟩
      · cases (Prod.mk.inj (read.symm.trans ended)).2
      obtain ⟨rfl, same⟩ := Prod.mk.inj (read.symm.trans full)
      obtain rfl := Option.some.inj same
      obtain ⟨sortedLater, fromLater⟩ := inductionHypothesis fun values membership =>
        sorted values (List.mem_cons_of_mem _ membership)
      have sortedHere := sorted values List.mem_cons_self
      obtain ⟨sortedPage, _, _⟩ := List.pairwise_append.mp (filter_increasing sortedHere split)
      constructor
      · refine List.pairwise_append.mpr ⟨sortedPage, sortedLater, fun seq inPage other inRest => ?_⟩
        exact Nat.lt_of_le_of_lt (filter_page sortedHere split inPage).2.2 (fromLater other inRest).1
      · intro seq membership
        rcases List.mem_append.mp membership with inPage | inRest
        · obtain ⟨reached, present, _⟩ := filter_page sortedHere split inPage
          exact ⟨reached, values, List.mem_cons_self, present⟩
        · obtain ⟨beyond, other, inLists, present⟩ := fromLater seq inRest
          have reached : cursor ≤ last := (filter_page sortedHere split (by simp)).1
          exact ⟨by omega, other, List.mem_cons_of_mem _ inLists, present⟩

theorem complete (paging : Paging limit lists cursor seqs) (positive : 0 < limit)
    (sorted : ∀ values ∈ lists, values.Pairwise (· < ·)) {seq : Nat}
    (present : ∀ values ∈ lists, seq ∈ values) (reached : cursor ≤ seq) : seq ∈ seqs := by
  induction paging with
  | @last values cursor listed read =>
      have inRows : seq ∈ values.filter (cursor ≤ ·) :=
        List.mem_filter.mpr ⟨present values List.mem_cons_self, by simpa using reached⟩
      rcases page_cases positive with ended | ⟨front, last, back, split, _, full⟩
      · obtain ⟨rfl, _⟩ := Prod.mk.inj (read.symm.trans ended)
        exact inRows
      · cases (Prod.mk.inj (read.symm.trans full)).2
  | @next values lists cursor listed following rest read later inductionHypothesis =>
      have inRows : seq ∈ values.filter (cursor ≤ ·) :=
        List.mem_filter.mpr ⟨present values List.mem_cons_self, by simpa using reached⟩
      rcases page_cases positive with ended | ⟨front, last, back, split, _, full⟩
      · cases (Prod.mk.inj (read.symm.trans ended)).2
      obtain ⟨rfl, same⟩ := Prod.mk.inj (read.symm.trans full)
      obtain rfl := Option.some.inj same
      rw [split] at inRows
      rcases List.mem_append.mp inRows with inPage | inBack
      · exact List.mem_append_left _ inPage
      · rw [← filter_after (sorted values List.mem_cons_self) split] at inBack
        refine List.mem_append_right _ (inductionHypothesis ?_ ?_ ?_)
        · exact fun values membership => sorted values (List.mem_cons_of_mem _ membership)
        · exact fun values membership => present values (List.mem_cons_of_mem _ membership)
        · simpa using (List.mem_filter.mp inBack).2

theorem absent (paging : Paging limit lists cursor seqs) (positive : 0 < limit)
    (sorted : ∀ values ∈ lists, values.Pairwise (· < ·)) {seq : Nat} (reached : cursor ≤ seq)
    (skipped : seq ∉ seqs) : ∃ values ∈ lists, seq ∉ values := by
  by_contra everywhere
  refine skipped (paging.complete positive sorted (fun values membership => ?_) reached)
  by_contra missing
  exact everywhere ⟨values, membership, missing⟩

/-- The whole list is read when it does not change. -/
theorem exact (paging : Paging limit lists cursor seqs) (positive : 0 < limit)
    (increasing : values.Pairwise (· < ·)) (same : ∀ other ∈ lists, other = values) :
    seqs = values.filter (cursor ≤ ·) := by
  induction paging with
  | @last other cursor listed read =>
      obtain rfl := same other List.mem_cons_self
      rcases page_cases positive with ended | ⟨front, last, back, split, _, full⟩
      · exact (Prod.mk.inj (read.symm.trans ended)).1
      · cases (Prod.mk.inj (read.symm.trans full)).2
  | @next other lists cursor listed following rest read later inductionHypothesis =>
      obtain rfl := same other List.mem_cons_self
      rcases page_cases positive with ended | ⟨front, last, back, split, _, full⟩
      · cases (Prod.mk.inj (read.symm.trans ended)).2
      obtain ⟨rfl, follows⟩ := Prod.mk.inj (read.symm.trans full)
      obtain rfl := Option.some.inj follows
      have others := inductionHypothesis fun values membership =>
        same values (List.mem_cons_of_mem _ membership)
      rw [others, filter_after increasing split, split]

theorem exists_of_bounded (positive : 0 < limit) {bound : Nat} (lists : Nat → List Nat)
    (sorted : ∀ index, (lists index).Pairwise (· < ·))
    (bounded : ∀ index, ∀ value ∈ lists index, value < bound) (cursor : Nat) :
    ∃ count ≤ (bound - cursor) / limit, ∃ seqs,
      Paging limit ((List.range (count + 1)).map lists) cursor seqs := by
  induction distance : bound - cursor using Nat.strong_induction_on
    generalizing cursor lists with
  | _ _ inductionHypothesis =>
      subst distance
      have first : page limit (lists 0) cursor = _ ∨ _ := page_cases positive
      rcases first with ended | ⟨front, last, back, split, full, read⟩
      · exact ⟨0, Nat.zero_le _, _, .last ended⟩
      have advanced := filter_advances (sorted 0) split
      have within := bounded 0 last (filter_page (sorted 0) split (by simp)).2.1
      obtain ⟨count, few, seqs, later⟩ := inductionHypothesis (bound - (last + 1)) (by omega)
        (fun index => lists (index + 1)) (fun index => sorted (index + 1))
        (fun index => bounded (index + 1)) (last + 1) rfl
      refine ⟨count + 1, ?_, front ++ [last] ++ seqs, ?_⟩
      · calc count + 1 ≤ (bound - (last + 1)) / limit + 1 := Nat.add_le_add_right few 1
          _ = (bound - (last + 1) + limit) / limit := (Nat.add_div_right _ positive).symm
          _ ≤ (bound - cursor) / limit := Nat.div_le_div_right (by omega)
      · rw [List.range_succ_eq_map, List.map_cons, List.map_map]
        exact .next read later

end Paging

end FileServer.Sequence
