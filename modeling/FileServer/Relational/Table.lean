import Mathlib.Algebra.BigOperators.Group.List.Basic
import Mathlib.Algebra.Order.BigOperators.Group.Finset
import Mathlib.Algebra.Order.BigOperators.Group.List
import Mathlib.Algebra.Order.Ring.Int
import Mathlib.Data.List.Nodup
import Mathlib.Tactic.Common

/-!
# Keyed tables

A relational table is a list of rows in insertion order whose primary keys are
distinct.  Distinctness is a field, so a table with a duplicate key cannot be
built.  Every update is either a key-preserving rewriting of the rows or the
insertion of one row, and the lemmas describe each by its effect on `get?` and
on sums over the rows.
-/

namespace FileServer.Relational

universe u v w

/-- Rows in insertion order, identified by their primary keys. -/
@[ext]
structure Table (Key : Type u) (Row : Type v) where
  rows : List (Key × Row)
  keysNodup : (rows.map Prod.fst).Nodup

namespace Table

variable {Key : Type u} {Row : Type v}

def empty : Table Key Row := ⟨[], List.nodup_nil⟩

def mapRows (table : Table Key Row) (f : Key → Row → Row) : Table Key Row where
  rows := table.rows.map fun entry => (entry.1, f entry.1 entry.2)
  keysNodup := by
    simpa [List.map_map, Function.comp_def] using table.keysNodup

def sum {M : Type w} [AddCommMonoid M] (table : Table Key Row) (f : Key → Row → M) : M :=
  (table.rows.map fun entry => f entry.1 entry.2).sum

/-- `SELECT ... WHERE`, as a table. -/
def filter (table : Table Key Row) (keep : Key → Row → Bool) : Table Key Row where
  rows := table.rows.filter fun entry => keep entry.1 entry.2
  keysNodup := table.keysNodup.sublist (List.filter_sublist.map Prod.fst)

variable [DecidableEq Key]

def get? (table : Table Key Row) (key : Key) : Option Row :=
  table.rows.lookup key

/-- `UPDATE ... WHERE primary key = key`. -/
def modify (table : Table Key Row) (key : Key) (f : Row → Row) : Table Key Row :=
  table.mapRows fun other row => if other = key then f row else row

def insertNew (table : Table Key Row) (key : Key) (row : Row)
    (fresh : table.get? key = none) : Table Key Row where
  rows := table.rows ++ [(key, row)]
  keysNodup := by
    have absent : key ∉ table.rows.map Prod.fst := by
      intro membership
      obtain ⟨entry, inRows, rfl⟩ := List.mem_map.mp membership
      have := List.lookup_eq_none_iff.mp fresh entry inRows
      simp at this
    rw [List.map_append, List.nodup_append]
    refine ⟨table.keysNodup, by simp, ?_⟩
    intro first firstMem second secondMem same
    simp only [List.map_cons, List.map_nil, List.mem_singleton] at secondMem
    exact absent (secondMem ▸ same ▸ firstMem)

def insert? (table : Table Key Row) (key : Key) (row : Row) : Option (Table Key Row) :=
  if fresh : table.get? key = none then some (table.insertNew key row fresh) else none

/-- `INSERT ... ON DUPLICATE KEY UPDATE`. -/
def upsert (table : Table Key Row) (key : Key) (row : Row) (f : Row → Row) : Table Key Row :=
  if fresh : table.get? key = none then table.insertNew key row fresh
  else table.modify key f

/-- `DELETE ... WHERE primary key = key`. -/
def erase (table : Table Key Row) (key : Key) : Table Key Row where
  rows := table.rows.filter fun entry => entry.1 ≠ key
  keysNodup := table.keysNodup.sublist (List.filter_sublist.map Prod.fst)

section Lookup

variable (table : Table Key Row)

@[simp]
theorem get?_empty (key : Key) : (empty : Table Key Row).get? key = none := rfl

theorem lookup_map (rows : List (Key × Row)) (f : Key → Row → Row) (key : Key) :
    (rows.map fun entry => (entry.1, f entry.1 entry.2)).lookup key =
      (rows.lookup key).map (f key) := by
  induction rows with
  | nil => rfl
  | cons entry rest inductionHypothesis =>
      rcases entry with ⟨other, row⟩
      by_cases same : key = other
      · subst other
        simp
      · have different : (key == other) = false := by simpa using same
        simp only [List.map_cons, List.lookup_cons, different, inductionHypothesis]

@[simp]
theorem get?_mapRows (f : Key → Row → Row) (key : Key) :
    (table.mapRows f).get? key = (table.get? key).map (f key) :=
  lookup_map table.rows f key

theorem get?_modify (key other : Key) (f : Row → Row) :
    (table.modify key f).get? other =
      if other = key then (table.get? other).map f else table.get? other := by
  simp only [modify, get?_mapRows]
  split
  · rfl
  · simp

@[simp]
theorem get?_modify_self (key : Key) (f : Row → Row) :
    (table.modify key f).get? key = (table.get? key).map f := by
  simp [get?_modify]

theorem get?_modify_eq_none (key other : Key) (f : Row → Row) :
    (table.modify key f).get? other = none ↔ table.get? other = none := by
  rw [get?_modify]
  split <;> simp_all

theorem get?_modify_of_ne {key other : Key} (f : Row → Row) (different : other ≠ key) :
    (table.modify key f).get? other = table.get? other := by
  simp [get?_modify, different]

theorem lookup_append_singleton (rows : List (Key × Row)) (key other : Key) (row : Row)
    (fresh : rows.lookup key = none) :
    (rows ++ [(key, row)]).lookup other =
      if other = key then some row else rows.lookup other := by
  induction rows with
  | nil =>
      by_cases same : other = key
      · simp [same]
      · have different : (other == key) = false := by simpa using same
        simp [List.lookup_cons, different, same]
  | cons entry rest inductionHypothesis =>
      rcases entry with ⟨head, value⟩
      have headDiffers : (key == head) = false := by
        by_contra taken
        simp only [Bool.not_eq_false] at taken
        simp [List.lookup_cons, taken] at fresh
      have restFresh : rest.lookup key = none := by
        simpa [List.lookup_cons, headDiffers] using fresh
      by_cases same : other = head
      · subst other
        have different : head ≠ key := by
          rintro rfl
          simp at headDiffers
        simp [different]
      · have different : (other == head) = false := by simpa using same
        simp only [List.cons_append, List.lookup_cons, different]
        exact inductionHypothesis restFresh

@[simp]
theorem get?_insertNew (key other : Key) (row : Row) (fresh : table.get? key = none) :
    (table.insertNew key row fresh).get? other =
      if other = key then some row else table.get? other :=
  lookup_append_singleton table.rows key other row fresh

theorem insert?_eq_some {key : Key} {row : Row} {result : Table Key Row} :
    table.insert? key row = some result ↔
      ∃ fresh : table.get? key = none, table.insertNew key row fresh = result := by
  unfold insert?
  split
  · next fresh => simp [fresh]
  · next taken => simp [taken]

theorem upsert_of_absent {key : Key} {row : Row} {f : Row → Row}
    (absent : table.get? key = none) : table.upsert key row f = table.insertNew key row absent :=
  dif_pos absent

theorem get?_upsert (key other : Key) (row : Row) (f : Row → Row) :
    (table.upsert key row f).get? other =
      if other = key then some ((table.get? key).elim row f) else table.get? other := by
  unfold upsert
  split
  · next fresh => simp [fresh]
  · next taken =>
      obtain ⟨old, found⟩ := Option.ne_none_iff_exists'.mp taken
      rw [get?_modify]
      split
      · next same => simp [same, found]
      · rfl

theorem get?_erase (key other : Key) :
    (table.erase key).get? other = if other = key then none else table.get? other := by
  show (table.rows.filter fun entry => entry.1 ≠ key).lookup other =
    if other = key then none else table.rows.lookup other
  induction table.rows with
  | nil => simp
  | cons entry rest inductionHypothesis =>
      rcases entry with ⟨head, row⟩
      by_cases same : head = key
      · subst head
        by_cases here : other = key
        · subst other
          simpa using inductionHypothesis
        · have different : (other == key) = false := by simpa using here
          simpa [List.lookup_cons, different, here] using inductionHypothesis
      · by_cases here : other = head
        · subst other
          simp [same]
        · have different : (other == head) = false := by simpa using here
          simpa [List.lookup_cons, different, same] using inductionHypothesis

theorem mem_rows_iff {key : Key} {row : Row} :
    (key, row) ∈ table.rows ↔ table.get? key = some row := by
  have distinct := table.keysNodup
  unfold get?
  generalize table.rows = rows at distinct ⊢
  induction rows with
  | nil => simp
  | cons entry rest inductionHypothesis =>
      rcases entry with ⟨head, value⟩
      simp only [List.map_cons, List.nodup_cons] at distinct
      by_cases same : key = head
      · subst head
        have notLater : (key, row) ∉ rest := fun later =>
          distinct.1 (List.mem_map.mpr ⟨_, later, rfl⟩)
        simp [notLater, eq_comm]
      · have different : (key == head) = false := by simpa using same
        simp [List.lookup_cons, different, same, inductionHypothesis distinct.2]

theorem filter_key (key : Key) : (table.rows.filter fun entry => entry.1 = key) =
    ((table.get? key).map fun row => (key, row)).toList := by
  have distinct := table.keysNodup
  unfold get?
  generalize table.rows = rows at distinct ⊢
  induction rows with
  | nil => rfl
  | cons entry rest inductionHypothesis =>
      rcases entry with ⟨first, row⟩
      simp only [List.map_cons, List.nodup_cons] at distinct
      by_cases same : first = key
      · subst same
        have others : (rest.filter fun entry => entry.1 = first) = [] := by
          rw [List.filter_eq_nil_iff]
          intro entry membership matched
          exact distinct.1 (List.mem_map.mpr ⟨entry, membership, of_decide_eq_true matched⟩)
        simp [others]
      · rw [List.filter_cons_of_neg (by simpa using same), inductionHypothesis distinct.2,
          List.lookup_cons, beq_eq_false_iff_ne.mpr (Ne.symm same)]

omit [DecidableEq Key] in
theorem rows_nodup : table.rows.Nodup := table.keysNodup.of_map _

theorem get?_filter (keep : Key → Row → Bool) (key : Key) :
    (table.filter keep).get? key = (table.get? key).filter (keep key) := by
  apply Option.ext
  intro row
  rw [Option.filter_eq_some_iff, ← mem_rows_iff, ← mem_rows_iff, filter, List.mem_filter]

theorem mapRows_congr {f g : Key → Row → Row}
    (same : ∀ key row, table.get? key = some row → f key row = g key row) :
    table.mapRows f = table.mapRows g := by
  have rows : (table.rows.map fun entry => (entry.1, f entry.1 entry.2)) =
      table.rows.map fun entry => (entry.1, g entry.1 entry.2) := by
    apply List.map_congr_left
    rintro ⟨key, row⟩ membership
    rw [same key row (table.mem_rows_iff.mp membership)]
  simp only [mapRows, rows]

theorem modify_congr {key : Key} {f g : Row → Row}
    (same : ∀ row, table.get? key = some row → f row = g row) :
    table.modify key f = table.modify key g := by
  apply table.mapRows_congr
  intro other row stored
  split
  · next here => exact same row (here ▸ stored)
  · rfl

theorem modify_eq_self {key : Key} {f : Row → Row}
    (fixed : ∀ row, table.get? key = some row → f row = row) : table.modify key f = table := by
  rw [table.modify_congr fixed]
  simp [modify, mapRows]

end Lookup

section Sum

variable {M : Type w} [AddCommMonoid M] (table : Table Key Row)

omit [DecidableEq Key] in
@[simp]
theorem sum_empty (f : Key → Row → M) : (empty : Table Key Row).sum f = 0 := rfl

omit [DecidableEq Key] in
theorem sum_mapRows (g : Key → Row → Row) (f : Key → Row → M) :
    (table.mapRows g).sum f = table.sum fun key row => f key (g key row) := by
  simp [sum, mapRows, List.map_map, Function.comp_def]

theorem sum_congr {f g : Key → Row → M}
    (same : ∀ key row, table.get? key = some row → f key row = g key row) :
    table.sum f = table.sum g := by
  unfold sum
  congr 1
  apply List.map_congr_left
  rintro ⟨key, row⟩ membership
  exact same key row (table.mem_rows_iff.mp membership)

theorem sum_insertNew (key : Key) (row : Row) (fresh : table.get? key = none)
    (f : Key → Row → M) :
    (table.insertNew key row fresh).sum f = table.sum f + f key row := by
  simp [sum, insertNew]

theorem sum_eq_zero {f : Key → Row → M}
    (zero : ∀ key row, table.get? key = some row → f key row = 0) : table.sum f = 0 := by
  rw [table.sum_congr zero]
  simp [sum]

theorem sum_nonneg {f : Key → Row → ℤ}
    (nonneg : ∀ key row, table.get? key = some row → 0 ≤ f key row) : 0 ≤ table.sum f := by
  apply List.sum_nonneg
  intro value membership
  obtain ⟨⟨key, row⟩, inRows, rfl⟩ := List.mem_map.mp membership
  exact nonneg key row (table.mem_rows_iff.mp inRows)

omit [DecidableEq Key] in
theorem sum_add {f g : Key → Row → M} :
    table.sum (fun key row => f key row + g key row) = table.sum f + table.sum g := by
  simp [sum, List.sum_map_add]

theorem sum_modify_rows (rows : List (Key × Row)) (distinct : (rows.map Prod.fst).Nodup)
    (key : Key) (row : Row) (found : rows.lookup key = some row)
    (g : Row → Row) (f : Key → Row → ℤ) :
    (rows.map fun entry => f entry.1 (if entry.1 = key then g entry.2 else entry.2)).sum =
      (rows.map fun entry => f entry.1 entry.2).sum + (f key (g row) - f key row) := by
  induction rows with
  | nil => simp at found
  | cons entry rest inductionHypothesis =>
      rcases entry with ⟨head, value⟩
      simp only [List.map_cons, List.nodup_cons] at distinct
      by_cases same : head = key
      · subst head
        have valueEq : value = row := by simpa [List.lookup_cons] using found
        have untouched : (rest.map fun entry =>
            f entry.1 (if entry.1 = key then g entry.2 else entry.2)) =
            rest.map fun entry => f entry.1 entry.2 := by
          apply List.map_congr_left
          rintro ⟨other, otherRow⟩ membership
          have different : other ≠ key := by
            rintro rfl
            exact distinct.1 (List.mem_map.mpr ⟨_, membership, rfl⟩)
          simp [different]
        simp only [List.map_cons, List.sum_cons, if_true, untouched, valueEq]
        omega
      · have different : (key == head) = false := beq_eq_false_iff_ne.mpr (Ne.symm same)
        have restFound : rest.lookup key = some row := by
          simpa [List.lookup_cons, different] using found
        have tail := inductionHypothesis distinct.2 restFound
        simp only [List.map_cons, List.sum_cons, if_neg same, tail]
        omega

/-- Updating one row changes a sum by the difference of that row's terms. -/
theorem sum_modify {key : Key} {row : Row} (found : table.get? key = some row)
    (g : Row → Row) (f : Key → Row → ℤ) :
    (table.modify key g).sum f = table.sum f + (f key (g row) - f key row) := by
  rw [modify, sum_mapRows]
  exact sum_modify_rows table.rows table.keysNodup key row found g f

/-- Inserting or overwriting one row changes a sum by the difference of the
terms, an absent row counting as zero. -/
theorem sum_upsert (key : Key) (row : Row) (f : Key → Row → ℤ) :
    (table.upsert key row fun _ => row).sum f =
      table.sum f + (f key row - ((table.get? key).elim 0 (f key))) := by
  unfold upsert
  split
  · next fresh => simp [sum_insertNew, fresh]
  · next taken =>
      obtain ⟨old, found⟩ := Option.ne_none_iff_exists'.mp taken
      simp [table.sum_modify found, found]

theorem sum_eq_sum_keys {f : Key → Row → M} (keys : Finset Key)
    (covers : ∀ key row, table.get? key = some row → key ∈ keys) :
    table.sum f = ∑ key ∈ keys, (table.get? key).elim 0 (f key) := by
  have present : ∀ key ∈ keys, key ∉ (table.rows.map Prod.fst).toFinset →
      (table.get? key).elim 0 (f key) = 0 := by
    intro key _ outside
    cases stored : table.get? key with
    | none => rfl
    | some row =>
        refine absurd ?_ outside
        exact List.mem_toFinset.mpr (List.mem_map.mpr ⟨_, table.mem_rows_iff.mpr stored, rfl⟩)
  have inside : (table.rows.map Prod.fst).toFinset ⊆ keys := by
    intro key membership
    obtain ⟨⟨_, row⟩, inRows, rfl⟩ := List.mem_map.mp (List.mem_toFinset.mp membership)
    exact covers _ row (table.mem_rows_iff.mp inRows)
  rw [← Finset.sum_subset inside present, List.sum_toFinset _ table.keysNodup, List.map_map]
  unfold sum
  congr 1
  apply List.map_congr_left
  rintro ⟨key, row⟩ membership
  simp [table.mem_rows_iff.mp membership]

theorem sum_upsert_absent {key : Key} (row : Row) (g : Row → Row) (f : Key → Row → M)
    (absent : table.get? key = none) :
    (table.upsert key row g).sum f = table.sum f + f key row := by
  rw [table.upsert_of_absent absent]
  exact table.sum_insertNew key row absent f

theorem sum_erase (key : Key) (f : Key → Row → M) :
    (table.erase key).sum f + (table.get? key).elim 0 (f key) = table.sum f := by
  let keys := insert key (table.rows.map Prod.fst).toFinset
  have covers : ∀ other row, table.get? other = some row → other ∈ keys := fun other row stored =>
    Finset.mem_insert_of_mem (List.mem_toFinset.mpr
      (List.mem_map.mpr ⟨_, table.mem_rows_iff.mpr stored, rfl⟩))
  rw [table.sum_eq_sum_keys keys covers, (table.erase key).sum_eq_sum_keys (keys.erase key) ?_,
    ← Finset.sum_erase_add keys _ (Finset.mem_insert_self _ _)]
  · congr 1
    refine Finset.sum_congr rfl fun other membership => ?_
    rw [get?_erase, if_neg (Finset.ne_of_mem_erase membership)]
  · intro other row stored
    rw [get?_erase] at stored
    split at stored
    · cases stored
    · next different => exact Finset.mem_erase.mpr ⟨different, covers other row stored⟩

theorem sum_le_sum {other : Table Key Row} {f g : Key → Row → ℤ}
    (nonneg : ∀ key row, other.get? key = some row → 0 ≤ g key row)
    (covered : ∀ key row, table.get? key = some row →
      f key row ≤ (other.get? key).elim 0 (g key)) : table.sum f ≤ other.sum g := by
  let keys := (table.rows.map Prod.fst ++ other.rows.map Prod.fst).toFinset
  have listed : ∀ {source : Table Key Row} {key : Key} {row : Row},
      source.get? key = some row → key ∈ source.rows.map Prod.fst := fun stored =>
    List.mem_map.mpr ⟨_, (mem_rows_iff _).mpr stored, rfl⟩
  rw [table.sum_eq_sum_keys keys fun key row stored => by simp [keys, listed stored],
    other.sum_eq_sum_keys keys fun key row stored => by simp [keys, listed stored]]
  refine Finset.sum_le_sum fun key _ => ?_
  cases stored : table.get? key with
  | some row => exact covered key row stored
  | none =>
      cases stored' : other.get? key with
      | none => exact le_refl _
      | some row => exact nonneg key row stored'

theorem sum_add_single {key : Key} {f g : Key → Row → M} {extra : Row → M}
    (differs : ∀ other row, table.get? other = some row →
      f other row = g other row + if other = key then extra row else 0) :
    table.sum f = table.sum g + (table.get? key).elim 0 extra := by
  rw [table.sum_congr differs, sum_add]
  congr 1
  rw [table.sum_eq_sum_keys (insert key (table.rows.map Prod.fst).toFinset) fun other row stored =>
    Finset.mem_insert_of_mem (List.mem_toFinset.mpr
      (List.mem_map.mpr ⟨_, table.mem_rows_iff.mpr stored, rfl⟩)),
    Finset.sum_eq_single_of_mem key (Finset.mem_insert_self _ _) ?_]
  · simp
  · intro other _ different
    cases table.get? other <;> simp [different]

end Sum

end Table

end FileServer.Relational
