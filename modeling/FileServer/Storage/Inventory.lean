import FileServer.Sequence.Paging
import FileServer.Storage.Immutability

/-!
# The inventory of a node

`reconcile` reads the names of the chunk files page by page, each after the last
name of the page before, while files come and go.  Names are compared as texts;
the order of the texts is that of the identifiers they spell.
-/

namespace FileServer.Metadata

section Texts

theorem hexDigit_lt : ∀ m < 16, ∀ n < 16, hexDigit m < hexDigit n ↔ m < n := by
  decide

theorem hexDigit_eq : ∀ m < 16, ∀ n < 16, hexDigit m = hexDigit n ↔ m = n := by
  decide

theorem toList_hexText_succ (width n : Nat) :
    (hexText (width + 1) n).toList = hexDigit (n / 16 ^ width % 16) :: (hexText width n).toList := by
  simp [hexText, List.range_succ]

theorem length_hexText (width n : Nat) : (hexText width n).length = width := by
  simp [hexText]

theorem hexText_lt_mod (width m n : Nat) :
    hexText width m < hexText width n ↔ m % 16 ^ width < n % 16 ^ width := by
  rw [String.lt_iff]
  induction width with
  | zero => simp [hexText, Nat.mod_one]
  | succ width inductionHypothesis =>
      rw [toList_hexText_succ, toList_hexText_succ, List.cons_lt_cons_iff, inductionHypothesis,
        hexDigit_lt _ (Nat.mod_lt _ (by decide)) _ (Nat.mod_lt _ (by decide)),
        hexDigit_eq _ (Nat.mod_lt _ (by decide)) _ (Nat.mod_lt _ (by decide)),
        pow_succ, Nat.mod_mul, Nat.mod_mul]
      have low := Nat.mod_lt m (pow_pos (by decide : 0 < 16) width)
      have low' := Nat.mod_lt n (pow_pos (by decide : 0 < 16) width)
      generalize m / 16 ^ width % 16 = first
      generalize n / 16 ^ width % 16 = second
      rcases Nat.lt_trichotomy first second with less | rfl | more
      · have step := Nat.mul_le_mul_left (16 ^ width) less
        rw [Nat.mul_succ] at step
        simp only [less, true_or, true_iff]
        omega
      · simp
      · have step := Nat.mul_le_mul_left (16 ^ width) more
        rw [Nat.mul_succ] at step
        have different : first ≠ second := Nat.ne_of_gt more
        simp only [Nat.not_lt.mpr (Nat.le_of_lt more), different, false_and, or_self, false_iff]
        omega

theorem hexText_lt {width m n : Nat} (fits : m < 16 ^ width) (fits' : n < 16 ^ width) :
    hexText width m < hexText width n ↔ m < n := by
  rw [hexText_lt_mod, Nat.mod_eq_of_lt fits, Nat.mod_eq_of_lt fits']

end Texts

end FileServer.Metadata

namespace FileServer.Storage

open FileServer.Files FileServer.Metadata FileServer.Relational FileServer.Sequence
  FileServer.Transition

def Name.chunk? : Name → Option Ident
  | .chunk cid => some cid
  | _ => none

namespace Disk

def chunkIds (disk : Disk) : List Ident :=
  (disk.names.rows.filterMap fun entry => entry.1.chunk?).insertionSort (· ≤ ·)

variable {disk : Disk}

theorem chunk?_eq_some {name : Name} {cid : Ident} : name.chunk? = some cid ↔ name = .chunk cid := by
  cases name <;> simp [Name.chunk?]

theorem mem_chunkIds {cid : Ident} :
    cid ∈ disk.chunkIds ↔ (disk.names.get? (.chunk cid)).isSome = true := by
  rw [chunkIds, (List.perm_insertionSort _ _).mem_iff, List.mem_filterMap,
    Option.isSome_iff_exists]
  constructor
  · rintro ⟨⟨name, file⟩, listed, same⟩
    obtain rfl := chunk?_eq_some.mp same
    exact ⟨file, disk.names.mem_rows_iff.mp listed⟩
  · rintro ⟨file, found⟩
    exact ⟨_, disk.names.mem_rows_iff.mpr found, rfl⟩

theorem chunkIds_increasing : disk.chunkIds.Pairwise (· < ·) := by
  have distinct : (disk.names.rows.filterMap fun entry => entry.1.chunk?).Nodup := by
    have named := disk.names.keysNodup.filterMap (f := Name.chunk?) fun name name' cid first second => by
      rw [chunk?_eq_some.mp first, chunk?_eq_some.mp second]
    rwa [List.filterMap_map] at named
  have ordered := List.pairwise_insertionSort (· ≤ ·)
    (disk.names.rows.filterMap fun entry => entry.1.chunk?)
  have unequal := (List.perm_insertionSort (· ≤ ·) _).nodup_iff.mpr distinct
  exact (ordered.and unequal).imp fun both => Nat.lt_of_le_of_ne both.1 both.2

/-- A name that matches `ID` has 32 digits. -/
def Named (disk : Disk) : Prop :=
  ∀ cid, (disk.names.get? (.chunk cid)).isSome = true → cid < 16 ^ 32

end Disk

theorem insertionSort_filter (values : List Nat) (keep : Nat → Bool) :
    (values.filter keep).insertionSort (· ≤ ·) = (values.insertionSort (· ≤ ·)).filter keep := by
  apply List.Perm.eq_of_pairwise
  · exact fun first second _ _ below above => Nat.le_antisymm below above
  · exact List.pairwise_insertionSort _ _
  · exact (List.pairwise_insertionSort _ _).filter _
  · exact (List.perm_insertionSort _ _).trans ((List.perm_insertionSort _ _).filter keep).symm

namespace Store

variable (store : Store)

/-- The inventory loop of `reconcile`.  The page at an index is read from the
directory as it is by then; `none` is a loop that has not ended. -/
def scan (directory : Nat → Disk) : (fuel index : Nat) → (cursor : Value) → Option (List Ident)
  | 0, _, _ => none
  | fuel + 1, index, cursor => do
      let listed ← (store.inventory ⟨some store.secret, some cursor⟩ (directory index)).toOption
      if listed.2 then
        let last ← listed.1.getLast?
        let rest ← scan directory fuel (index + 1) (.ident last)
        return listed.1 ++ rest
      else
        return listed.1

/-- A cursor stands for the identifiers from a number on. -/
def Follows (cursor : Value) (first : Nat) : Prop :=
  (cursor = .text "" ∧ first = 0) ∨
    ∃ last < 16 ^ 32, cursor = .ident last ∧ first = last + 1

variable {store} {disk : Disk} {cursor : Value} {first : Nat}

theorem Follows.text (follows : Follows cursor first) :
    ∃ text, cursor.text? = some text ∧ text.length ≤ 32 ∧
      ∀ cid < 16 ^ 32, text < hexText 32 cid ↔ first ≤ cid := by
  rcases follows with ⟨rfl, rfl⟩ | ⟨last, fits, rfl, rfl⟩
  · refine ⟨"", rfl, by decide, fun cid _ => ?_⟩
    simp only [Nat.zero_le, iff_true]
    rw [String.lt_iff, toList_hexText_succ 31]
    exact List.nil_lt_cons _ _
  · exact ⟨hexText 32 last, rfl, Nat.le_of_eq (length_hexText 32 last), fun cid fits' =>
      hexText_lt fits fits'⟩

theorem chunkIds_filter {select : Name × Nat → Option Ident}
    (selects : ∀ entry ∈ disk.names.rows,
      select entry = entry.1.chunk?.filter fun cid => first ≤ cid) :
    (disk.names.rows.filterMap select).insertionSort (· ≤ ·) =
      disk.chunkIds.filter (first ≤ ·) := by
  rw [Disk.chunkIds, ← insertionSort_filter, List.filter_filterMap, List.filterMap_congr selects]

theorem inventory_page (named : disk.Named) (follows : Follows cursor first) :
    store.inventory ⟨some store.secret, some cursor⟩ disk =
      .ok ((page 256 disk.chunkIds first).1, (page 256 disk.chunkIds first).2.isSome) := by
  obtain ⟨text, spelled, short, after⟩ := follows.text
  simp only [inventory, Option.getD_some, spelled, found, require, if_pos short, if_true, bind,
    Except.bind, pure, Except.pure]
  rw [@chunkIds_filter disk first, page_fst, page_snd_isSome (by decide)]
  rintro ⟨name, file⟩ listed
  cases name with
  | identity => rfl
  | temporary serial => rfl
  | chunk cid =>
      have fits : cid < 16 ^ 32 := by
        apply named
        rw [disk.names.mem_rows_iff.mp listed]
        rfl
      show (if text < hexText 32 cid then some cid else none) =
        if decide (first ≤ cid) = true then some cid else none
      simp only [after cid fits, decide_eq_true_eq]

theorem scan_of_paging {directory : Nat → Disk} (named : ∀ index, (directory index).Named)
    {lists : List (List Nat)} {ids : List Ident} (paging : Paging 256 lists first ids)
    {index fuel : Nat} (enough : lists.length ≤ fuel)
    (read : lists = (List.range lists.length).map fun page => (directory (index + page)).chunkIds)
    (follows : Follows cursor first) : store.scan directory fuel index cursor = some ids := by
  induction paging generalizing index fuel cursor with
  | @last values first listed here =>
      obtain ⟨fuel, rfl⟩ := Nat.exists_eq_succ_of_ne_zero (Nat.ne_of_gt enough)
      obtain rfl : values = (directory index).chunkIds := List.singleton_inj.mp read
      rw [scan, inventory_page (named index) follows, here]
      rfl
  | @next values lists first listed following rest here later inductionHypothesis =>
      obtain ⟨fuel, rfl⟩ := Nat.exists_eq_succ_of_ne_zero (Nat.ne_of_gt (Nat.zero_lt_of_lt enough))
      rw [List.length_cons, List.range_succ_eq_map, List.map_cons, List.map_map] at read
      obtain ⟨current, others⟩ := List.cons.inj read
      obtain rfl : values = (directory index).chunkIds := current
      rcases page_cases (show 0 < 256 by decide) with ended | ⟨front, last, back, split, _, full⟩
      · cases (Prod.mk.inj (here.symm.trans ended)).2
      obtain ⟨rfl, same⟩ := Prod.mk.inj (here.symm.trans full)
      obtain rfl := Option.some.inj same
      have inPage : last ∈ front ++ [last] := List.mem_append_right _ List.mem_cons_self
      have present := (filter_page Disk.chunkIds_increasing split inPage).2.1
      have fits := named index last (Disk.mem_chunkIds.mp present)
      have continued : store.scan directory fuel (index + 1) (.ident last) = some rest := by
        refine inductionHypothesis (Nat.le_of_succ_le_succ enough) ?_ (.inr ⟨last, fits, rfl, rfl⟩)
        rw [others]
        simp only [List.length_map, List.length_range, Function.comp_def]
        apply List.map_congr_left
        intro page _
        rw [Nat.add_right_comm, Nat.add_assoc]
      rw [scan, inventory_page (named index) follows, here]
      simp only [Except.toOption, Option.isSome_some, if_true, List.getLast?_concat, Option.bind_eq_bind,
        Option.bind_some, continued]
      rfl

/-- Whatever becomes of the files between its pages, the inventory loop ends; it
receives the identifiers in increasing order, each once, those of all files that
are there whenever it reads, and only of files that are there at one time. -/
theorem inventory_complete (directory : Nat → Disk) (named : ∀ index, (directory index).Named) :
    ∃ pages ≤ 16 ^ 32 / 256 + 1, ∃ ids,
      (∀ fuel ≥ pages, store.scan directory fuel 0 (.text "") = some ids) ∧
      ids.Pairwise (· < ·) ∧
      (∀ cid, (∀ index < pages, ((directory index).names.get? (.chunk cid)).isSome = true) →
        cid ∈ ids) ∧
      ∀ cid ∈ ids, ∃ index < pages, ((directory index).names.get? (.chunk cid)).isSome = true := by
  have positive : 0 < 256 := by decide
  obtain ⟨count, few, ids, paging⟩ := Paging.exists_of_bounded positive
    (fun index => (directory index).chunkIds) (fun _ => Disk.chunkIds_increasing)
    (fun index cid listed => named index cid (Disk.mem_chunkIds.mp listed)) 0
  have sorted : ∀ values ∈ (List.range (count + 1)).map fun index => (directory index).chunkIds,
      values.Pairwise (· < ·) := by
    intro values membership
    obtain ⟨index, _, rfl⟩ := List.mem_map.mp membership
    exact Disk.chunkIds_increasing
  obtain ⟨increasing, sources⟩ := paging.increasing positive sorted
  refine ⟨count + 1, Nat.succ_le_succ few, ids, ?_, increasing, ?_, ?_⟩
  · intro fuel enough
    apply scan_of_paging named paging
    · simpa using enough
    · simp
    · exact .inl ⟨rfl, rfl⟩
  · intro cid throughout
    apply paging.complete positive sorted _ (Nat.zero_le cid)
    intro values membership
    obtain ⟨index, inRange, rfl⟩ := List.mem_map.mp membership
    exact Disk.mem_chunkIds.mpr (throughout index (List.mem_range.mp inRange))
  · intro cid listed
    obtain ⟨_, values, membership, present⟩ := sources cid listed
    obtain ⟨index, inRange, rfl⟩ := List.mem_map.mp membership
    exact ⟨index, List.mem_range.mp inRange, Disk.mem_chunkIds.mp present⟩

/-- The files of a node are named by the tickets it has been brought. -/
theorem named_of_run {history : List Step} {state : State}
    (run : Run store.server.system history state)
    (identified : ∀ entry ∈ state.taken, ∀ authorization,
      entry.2.authorization = some authorization → authorization.claims.chunk < 16 ^ 32) :
    state.world.Named := by
  intro cid present
  have valid := (Server.sound_of_run store.upholds run).valid
  obtain ⟨file, referred⟩ := Option.isSome_iff_exists.mp present
  obtain ⟨content, stored⟩ := valid.here.fixed _ file rfl referred
  obtain ⟨entry, membership, authorizes⟩ :=
    valid.here.justified cid content ⟨file, referred, stored⟩
  obtain ⟨authorization, brought, genuine⟩ := authorizes.ticket
  rw [← genuine.chunk]
  exact identified entry membership authorization brought

/-- A directory with the chunk files below a number. -/
def stocked : Nat → Disk
  | 0 => Volume.empty
  | count + 1 => (stocked count).create (.chunk count)

theorem stocked_named {count : Nat} {cid : Ident} :
    ((stocked count).names.get? (.chunk cid)).isSome = true ↔ cid < count := by
  induction count with
  | zero => simp [stocked, Volume.empty]
  | succ count inductionHypothesis =>
      simp only [stocked, Volume.create, Volume.change, Table.get?_upsert, Name.chunk.injEq]
      split
      · next same => simp [same]
      · next other => rw [inductionHypothesis, Nat.lt_succ_iff_lt_or_eq, or_iff_left other]

/-- After the first page the last of 258 files makes room for another. -/
def fleeting (index : Nat) : Disk :=
  if index = 0 then stocked 258 else ((stocked 258).unlink (.chunk 257)).create (.chunk 300)

theorem fleeting_first {cid : Ident} :
    ((fleeting 0).names.get? (.chunk cid)).isSome = true ↔ cid < 258 :=
  stocked_named

theorem fleeting_next {index : Nat} {cid : Ident} :
    ((fleeting (index + 1)).names.get? (.chunk cid)).isSome = true ↔ cid < 257 ∨ cid = 300 := by
  simp only [fleeting, Nat.add_one_ne_zero, if_false, Volume.create, Volume.unlink, Volume.change,
    Table.get?_upsert, Table.get?_erase, Name.chunk.injEq]
  split
  · next same => simp [same]
  · next other =>
    split
    · next same => simp [same]
    · next kept => rw [stocked_named, Nat.lt_succ_iff_lt_or_eq, or_iff_left kept, or_iff_left other]

theorem fleeting_named (index : Nat) : (fleeting index).Named := by
  intro cid present
  cases index with
  | zero => exact Nat.lt_of_lt_of_le (fleeting_first.mp present) (by decide)
  | succ index =>
      rcases fleeting_next.mp present with kept | rfl
      · exact Nat.lt_of_lt_of_le kept (by decide)
      · decide

theorem chunkIds_fleeting : (fleeting 0).chunkIds = List.range 258 := by
  refine List.Pairwise.eq_of_mem_iff Disk.chunkIds_increasing List.pairwise_lt_range fun cid => ?_
  rw [Disk.mem_chunkIds, fleeting_first, List.mem_range]

/-- One page does not suffice. -/
theorem scan_fleeting : letterStore.scan fleeting 1 0 (.text "") = none := by
  rw [scan, inventory_page (fleeting_named 0) (.inl ⟨rfl, rfl⟩), chunkIds_fleeting]
  have more : (page 256 (List.range 258) 0).2.isSome = true := by decide +kernel
  simp only [more, Except.toOption]
  cases (page 256 (List.range 258) 0).1.getLast? with
  | none => rfl
  | some last => rfl

theorem inventory_complete_fleeting : letterStore.scan fleeting 1 0 (.text "") = none ∧
    ∃ pages ids, (∀ fuel ≥ pages, letterStore.scan fleeting fuel 0 (.text "") = some ids) ∧
      256 ∈ ids := by
  obtain ⟨pages, _, ids, ends, _, complete, _⟩ :=
    @inventory_complete letterStore fleeting fleeting_named
  refine ⟨scan_fleeting, pages, ids, ends, complete 256 fun index _ => ?_⟩
  cases index with
  | zero => exact fleeting_first.mpr (by decide)
  | succ index => exact fleeting_next.mpr (by decide)

end Store

end FileServer.Storage
