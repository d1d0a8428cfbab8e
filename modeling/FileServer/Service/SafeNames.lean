import FileServer.Protocol.Fields
import FileServer.Service.Handlers
import Mathlib.Data.List.TakeWhile
import Mathlib.Tactic.IntervalCases

/-!
# Where paths lead

A stored path names one file in the directory of its user, whatever the name of
the upload was.  Sanitising keeps a harmless name when it is ASCII, and the
StorageService process takes a path unless the name has two dots in a row.
-/

namespace FileServer.Service

open FileServer.Transition

def getAbsolutePath (basePath filepath : Bytes) : Bytes :=
  if filepath = [] then []
  else if basePath.getLast? = some 0x2F ∨ filepath.head? = some 0x2F then basePath ++ filepath
  else basePath ++ 0x2F :: filepath

def userDir (basePath : Bytes) (userId : Int) : Bytes := basePath ++ 0x2F :: decimal userId

/-- The names along a path; repeated separators count once. -/
def components (path : Bytes) : List Bytes := (path.splitOn 0x2F).filter (· ≠ [])

theorem forall_of_all {p : UInt8 → Prop} [DecidablePred p] {bytes : Bytes}
    (checked : bytes.all (fun c => decide (p c)) = true) : ∀ c ∈ bytes, p c :=
  fun c member => of_decide_eq_true (List.all_eq_true.mp checked c member)

/-- Neither a control character nor one of `/ \ : * ? " < > |`. -/
def Printable (c : UInt8) : Prop :=
  0x20 ≤ c ∧ c ∉ ([0x2F, 0x5C, 0x3A, 0x2A, 0x3F, 0x22, 0x3C, 0x3E, 0x7C] : Bytes)

instance (c : UInt8) : Decidable (Printable c) := inferInstanceAs (Decidable (_ ∧ _))

/-- What `GenerateFilepath` puts before the name. -/
def timeStamp (tm : Tm) : Bytes :=
  padded 4 (tm.tmYear + 1900) ++ padded 2 (tm.tmMon + 1) ++ padded 2 tm.tmMday ++ [0x5F] ++
    padded 2 tm.tmHour ++ padded 2 tm.tmMin ++ padded 2 tm.tmSec ++ [0x5F]

section Components

theorem components_nil : components [] = [] := rfl

theorem components_append (first rest : Bytes) :
    components (first ++ 0x2F :: rest) = components first ++ components rest := by
  simp only [components, List.splitOn_append_cons_self, List.filter_append]

theorem components_single {name : Bytes} (something : name ≠ []) (one : 0x2F ∉ name) :
    components name = [name] := by
  simp [components, List.splitOn_eq_singleton one, something]

theorem components_getAbsolutePath (basePath : Bytes) {filepath : Bytes} (named : filepath ≠ []) :
    components (getAbsolutePath basePath filepath) =
      components basePath ++ components filepath := by
  rw [getAbsolutePath, if_neg named]
  by_cases ends : basePath.getLast? = some 0x2F
  · obtain ⟨front, rfl⟩ := List.getLast?_eq_some_iff.mp ends
    rw [if_pos (.inl ends), List.append_assoc, List.singleton_append, components_append,
      components_append, components_nil, List.append_nil]
  by_cases starts : filepath.head? = some 0x2F
  · obtain ⟨rest, rfl⟩ := List.head?_eq_some_iff.mp starts
    have bare : components (0x2F :: rest) = components rest := components_append [] rest
    rw [if_pos (.inr starts), components_append, bare]
  · rw [if_neg (not_or.mpr ⟨ends, starts⟩), components_append]

end Components

section Digits

def digits : Bytes := ascii ['0', '1', '2', '3', '4', '5', '6', '7', '8', '9']

theorem mem_digits {c : UInt8} (low : 48 ≤ c.toNat) (high : c.toNat ≤ 57) : c ∈ digits := by
  have same : c = .ofNat c.toNat := (UInt8.ofNat_toNat).symm
  rw [same]
  generalize c.toNat = n at low high
  interval_cases n <;> decide

theorem digit_range {n : Nat} {char : Char} (member : char ∈ Nat.toDigits 10 n) :
    48 ≤ char.toNat ∧ char.toNat ≤ 57 := by
  have digit := Nat.isDigit_of_mem_toDigits (by decide) (by decide) member
  simp only [Char.isDigit, Bool.and_eq_true, decide_eq_true_eq] at digit
  exact ⟨UInt32.le_iff_toNat_le.mp digit.1, UInt32.le_iff_toNat_le.mp digit.2⟩

theorem mem_ascii_toDigits {n : Nat} {c : UInt8} (member : c ∈ ascii (Nat.toDigits 10 n)) :
    c ∈ digits := by
  obtain ⟨char, inDigits, rfl⟩ := List.mem_map.mp member
  obtain ⟨low, high⟩ := digit_range inDigits
  have same : (UInt8.ofNat char.toNat).toNat = char.toNat := by
    rw [UInt8.toNat_ofNat']
    omega
  exact mem_digits (by rwa [same]) (by rwa [same])

theorem mem_padded {width n : Nat} {c : UInt8} (member : c ∈ padded width n) : c ∈ digits := by
  rw [padded, ascii, List.map_append, List.mem_append] at member
  rcases member with filled | digit
  · rw [List.map_replicate] at filled
    rw [List.eq_of_mem_replicate filled]
    decide
  · exact mem_ascii_toDigits digit

theorem mem_timeStamp {tm : Tm} {c : UInt8} (member : c ∈ timeStamp tm) : c ∈ 0x5F :: digits := by
  simp only [timeStamp, List.mem_append, List.mem_singleton] at member
  rw [List.mem_cons]
  rcases member with ((((((digit | digit) | digit) | mark) | digit) | digit) | digit) | mark
  all_goals first
    | exact .inl mark
    | exact .inr (mem_padded digit)

theorem mem_decimal {n : Int} {c : UInt8} (member : c ∈ decimal n) : c ∈ 0x2D :: digits := by
  rw [decimal, ascii, List.map_append, List.mem_append] at member
  rw [List.mem_cons]
  rcases member with sign | digit
  · split at sign
    · exact .inl (by simpa using sign)
    · cases sign
  · exact .inr (mem_ascii_toDigits digit)

theorem ascii_injective {first second : List Char} (narrow : ∀ char ∈ first, char.toNat < 256)
    (narrow' : ∀ char ∈ second, char.toNat < 256) (same : ascii first = ascii second) :
    first = second := by
  have back : ∀ text : List Char, (∀ char ∈ text, char.toNat < 256) →
      (ascii text).map (fun c => Char.ofNat c.toNat) = text := by
    intro text fits
    rw [ascii, List.map_map]
    refine (List.map_congr_left fun char member => ?_).trans (List.map_id text)
    have kept : (UInt8.ofNat char.toNat).toNat = char.toNat := by
      rw [UInt8.toNat_ofNat', Nat.mod_eq_of_lt (fits char member)]
    simp only [Function.comp_apply, kept, Char.ofNat_toNat, id_eq]
  rw [← back first narrow, same, back second narrow']

/-- The number of a user determines the user. -/
theorem decimal_injective {m n : Int} (same : decimal m = decimal n) : m = n := by
  have narrow : ∀ n : Int, ∀ char ∈ (if n < 0 then ['-'] else []) ++ Nat.toDigits 10 n.natAbs,
      char.toNat < 256 := by
    intro n char member
    rcases List.mem_append.mp member with sign | digit
    · split at sign
      · rw [List.mem_singleton.mp sign]
        decide
      · cases sign
    · exact Nat.lt_of_le_of_lt (digit_range digit).2 (by decide)
  have unsigned : ∀ {k l : Nat}, Nat.toDigits 10 k ≠ '-' :: Nat.toDigits 10 l := by
    intro k l signed
    have low : 48 ≤ Char.toNat '-' := (digit_range (signed ▸ List.mem_cons_self)).1
    exact absurd low (by decide)
  have numbers : ∀ {k l : Nat}, Nat.toDigits 10 k = Nat.toDigits 10 l → k = l := by
    intro k l same
    rw [← Nat.ofDigitChars_ten_toDigits (n := k), same, Nat.ofDigitChars_ten_toDigits]
  have text := ascii_injective (narrow m) (narrow n) same
  by_cases negative : m < 0
  · by_cases negative' : n < 0
    · rw [if_pos negative, if_pos negative'] at text
      have magnitude := numbers (List.cons.inj text).2
      omega
    · rw [if_pos negative, if_neg negative'] at text
      exact absurd text.symm unsigned
  · by_cases negative' : n < 0
    · rw [if_neg negative, if_pos negative'] at text
      exact absurd text unsigned
    · rw [if_neg negative, if_neg negative'] at text
      have magnitude := numbers text
      omega

end Digits

section Sanitized

theorem suffix_of_extension {filename suffix : Bytes} (found : extension filename = some suffix) :
    suffix ≠ [] ∧ ∀ c ∈ suffix, c ∈ filename := by
  unfold extension at found
  split at found
  next dotted =>
    rw [← Option.some.inj found]
    refine ⟨List.cons_ne_nil _ _, ?_⟩
    intro c member
    rcases List.mem_cons.mp member with rfl | later
    · exact dotted
    · exact List.mem_reverse.mp (List.takeWhile_sublist _ |>.mem (List.mem_reverse.mp later))
  · cases found

theorem truncate_spec {filename : Bytes} (named : filename ≠ []) :
    truncate filename ≠ [] ∧ (truncate filename).length ≤ 200 ∧
      ∀ c ∈ truncate filename, c ∈ filename := by
  have cut : 200 < filename.length → filename.take 200 ≠ [] ∧ (filename.take 200).length ≤ 200 ∧
      ∀ c ∈ filename.take 200, c ∈ filename := fun _ =>
    ⟨by simpa using named, List.length_take_le _ _, fun c => List.mem_of_mem_take⟩
  unfold truncate
  split
  next long =>
    cases found : extension filename with
    | none => exact cut long
    | some suffix =>
        obtain ⟨something, inside⟩ := suffix_of_extension found
        simp only
        split
        next short =>
          refine ⟨List.append_ne_nil_of_right_ne_nil _ something, ?_, ?_⟩
          · rw [List.length_append, List.length_take]
            omega
          · intro c member
            rcases List.mem_append.mp member with front | back
            · exact List.mem_of_mem_take front
            · exact inside c back
        · exact cut long
  next fits => exact ⟨named, Nat.le_of_not_lt fits, fun c => id⟩

theorem printable_of_not_dangerous {c : UInt8} (kept : dangerous c = false) :
    Printable c ∧ c < 0x80 := by
  simp only [dangerous, decide_eq_false_iff_not, not_or] at kept
  exact ⟨⟨UInt8.not_lt.mp kept.1, kept.2.2⟩, UInt8.not_le.mp kept.2.1⟩

theorem dangerous_eq_false_iff {c : UInt8} : dangerous c = false ↔ Printable c ∧ c < 0x80 := by
  refine ⟨printable_of_not_dangerous, ?_⟩
  rintro ⟨⟨control, plain⟩, ascii⟩
  simp only [dangerous, decide_eq_false_iff_not, not_or]
  exact ⟨UInt8.not_lt.mpr control, UInt8.not_le.mpr ascii, plain⟩

theorem sanitizeFilename_spec (filename : Bytes) :
    sanitizeFilename filename ≠ [] ∧ (sanitizeFilename filename).length ≤ 200 ∧
      ∀ c ∈ sanitizeFilename filename, Printable c ∧ c < 0x80 := by
  rw [sanitizeFilename]
  split
  · obtain ⟨something, short, inside⟩ :=
      truncate_spec (by decide : ascii ['u', 'n', 'n', 'a', 'm', 'e', 'd'] ≠ [])
    have plain : ∀ c ∈ ascii ['u', 'n', 'n', 'a', 'm', 'e', 'd'], Printable c ∧ c < 0x80 :=
      forall_of_all (by decide)
    exact ⟨something, short, fun c member => plain c (inside c member)⟩
  next left =>
    obtain ⟨something, short, inside⟩ := truncate_spec left
    refine ⟨something, short, fun c member => ?_⟩
    have kept := List.of_mem_filter (inside c member)
    exact dangerous_eq_false_iff.mp (by simpa using kept)

end Sanitized

section Paths

theorem generateFilepath_eq (userId : Int) (filename : Bytes) (tm : Tm) :
    generateFilepath userId filename tm =
      decimal userId ++ 0x2F :: (timeStamp tm ++ filename) := by
  simp [generateFilepath, timeStamp]

theorem plain_timeStamp {tm : Tm} {c : UInt8} (member : c ∈ timeStamp tm) :
    Printable c ∧ c ≠ 0x2E := by
  have all : ∀ c ∈ 0x5F :: digits, Printable c ∧ c ≠ 0x2E := forall_of_all (by decide)
  exact all c (mem_timeStamp member)

theorem plain_decimal {n : Int} {c : UInt8} (member : c ∈ decimal n) : Printable c ∧ c ≠ 0x2E := by
  have all : ∀ c ∈ 0x2D :: digits, Printable c ∧ c ≠ 0x2E := forall_of_all (by decide)
  exact all c (mem_decimal member)

theorem separator_not_printable : ¬Printable 0x2F := by decide

theorem decimal_ne_nil (n : Int) : decimal n ≠ [] := by
  have digits : Nat.toDigits 10 n.natAbs ≠ [] := Nat.toDigits_ne_nil
  simp [decimal, ascii, digits]

theorem separated_inj {α : Type} {separator : α} {first second rest rest' : List α}
    (bare : separator ∉ first) (bare' : separator ∉ second) :
    first ++ separator :: rest = second ++ separator :: rest' ↔ first = second ∧ rest = rest' := by
  induction first generalizing second with
  | nil =>
      cases second with
      | nil => simp
      | cons c second => simp_all [eq_comm]
  | cons c first inductionHypothesis =>
      cases second with
      | nil =>
          have other : c ≠ separator := fun same => bare (same ▸ List.mem_cons_self)
          simp [other]
      | cons c' second =>
          rw [List.mem_cons, not_or] at bare bare'
          simp only [List.cons_append, List.cons.injEq, inductionHypothesis bare.2 bare'.2, and_assoc]

theorem separator_not_mem_decimal (n : Int) : 0x2F ∉ decimal n := fun member =>
  separator_not_printable (plain_decimal member).1

/-- The number and the rest of a path determine each other's place. -/
theorem decimal_prefix_injective {m n : Int} {first second : Bytes}
    (same : decimal m ++ 0x2F :: first = decimal n ++ 0x2F :: second) : m = n :=
  decimal_injective
    ((separated_inj (separator_not_mem_decimal m) (separator_not_mem_decimal n)).mp same).1

theorem timeStamp_eq (tm : Tm) (name : Bytes) :
    timeStamp tm ++ name =
      (padded 4 (tm.tmYear + 1900) ++ padded 2 (tm.tmMon + 1) ++ padded 2 tm.tmMday) ++
        0x5F :: ((padded 2 tm.tmHour ++ padded 2 tm.tmMin ++ padded 2 tm.tmSec) ++ 0x5F :: name) := by
  simp [timeStamp]

theorem mark_not_mem_padded {width n : Nat} : 0x5F ∉ padded width n := fun member =>
  absurd (mem_padded member) (by decide)

theorem timeStamp_append_inj {tm tm' : Tm} {name name' : Bytes} :
    timeStamp tm ++ name = timeStamp tm' ++ name' ↔ timeStamp tm = timeStamp tm' ∧ name = name' := by
  constructor
  · intro same
    have stamps := timeStamp_eq tm []
    have stamps' := timeStamp_eq tm' []
    rw [timeStamp_eq, timeStamp_eq, separated_inj (by simp [mark_not_mem_padded])
      (by simp [mark_not_mem_padded]), separated_inj (by simp [mark_not_mem_padded])
      (by simp [mark_not_mem_padded])] at same
    obtain ⟨date, time, names⟩ := same
    rw [List.append_nil, date, time, ← stamps', List.append_nil] at stamps
    exact ⟨stamps, names⟩
  · rintro ⟨stamps, rfl⟩
    rw [stamps]

/-- A path is made of the user, the second and the name, and gives them back. -/
theorem generateFilepath_inj {userId userId' : Int} {filename filename' : Bytes} {tm tm' : Tm} :
    generateFilepath userId filename tm = generateFilepath userId' filename' tm' ↔
      userId = userId' ∧ timeStamp tm = timeStamp tm' ∧ filename = filename' := by
  rw [generateFilepath_eq, generateFilepath_eq, separated_inj (separator_not_mem_decimal _)
    (separator_not_mem_decimal _), timeStamp_append_inj]
  exact and_congr_left' ⟨decimal_injective, congrArg decimal⟩

/-- The ranges of the fields that `localtime` sets. -/
structure Tm.InRange (tm : Tm) : Prop where
  mon : tm.tmMon < 12
  mday : tm.tmMday ≤ 31
  hour : tm.tmHour < 24
  min : tm.tmMin < 60
  sec : tm.tmSec ≤ 60

theorem padded_injective {width m n : Nat} (same : padded width m = padded width n) : m = n := by
  have narrow : ∀ n : Nat, ∀ char ∈ List.replicate (width - (Nat.toDigits 10 n).length) '0' ++
      Nat.toDigits 10 n, char.toNat < 256 := by
    intro n char member
    rcases List.mem_append.mp member with filled | digit
    · rw [List.eq_of_mem_replicate filled]
      decide
    · exact Nat.lt_of_le_of_lt (digit_range digit).2 (by decide)
  have value : ∀ n : Nat, Nat.ofDigitChars 10 (List.replicate
      (width - (Nat.toDigits 10 n).length) '0' ++ Nat.toDigits 10 n) 0 = n := by
    intro n
    rw [Nat.ofDigitChars_append, Nat.ofDigitChars_replicate_zero, Nat.mul_zero,
      Nat.ofDigitChars_ten_toDigits]
  rw [← value m, ascii_injective (narrow m) (narrow n) same, value n]

theorem length_padded_two {n : Nat} (short : n < 100) : (padded 2 n).length = 2 := by
  have digits : (Nat.toDigits 10 n).length ≤ 2 :=
    (Nat.length_toDigits_le_iff (by decide) (by decide)).mpr short
  simp only [padded, ascii, List.length_map, List.length_append, List.length_replicate]
  omega

theorem timeStamp_injective {tm tm' : Tm} (range : tm.InRange) (range' : tm'.InRange)
    (same : timeStamp tm = timeStamp tm') : tm = tm' := by
  have two : ∀ {n m : Nat}, n < 100 → m < 100 → (padded 2 n).length = (padded 2 m).length :=
    fun short short' => (length_padded_two short).trans (length_padded_two short').symm
  obtain ⟨mon, mday, hour, min, sec⟩ := range
  obtain ⟨mon', mday', hour', min', sec'⟩ := range'
  rw [← List.append_nil (timeStamp tm), ← List.append_nil (timeStamp tm'), timeStamp_eq, timeStamp_eq,
    separated_inj (by simp [mark_not_mem_padded]) (by simp [mark_not_mem_padded]),
    separated_inj (by simp [mark_not_mem_padded]) (by simp [mark_not_mem_padded])] at same
  obtain ⟨date, time, _⟩ := same
  obtain ⟨yearMonth, days⟩ := List.append_inj' date (two (by omega) (by omega))
  obtain ⟨years, months⟩ := List.append_inj' yearMonth (two (by omega) (by omega))
  obtain ⟨hourMinute, seconds⟩ := List.append_inj' time (two (by omega) (by omega))
  obtain ⟨hours, minutes⟩ := List.append_inj' hourMinute (two (by omega) (by omega))
  have year := padded_injective years
  have month := padded_injective months
  have day := padded_injective days
  have hour := padded_injective hours
  have minute := padded_injective minutes
  have second := padded_injective seconds
  cases tm
  cases tm'
  simp_all

end Paths

section Confinement

/-- The path is that of a file right in the user's directory: a time stamp, and
a name of at most 200 bytes. -/
structure Confined (basePath : Bytes) (userId : Int) (filepath : Bytes) (tm : Tm) (name : Bytes) :
    Prop where
  path : filepath = decimal userId ++ 0x2F :: (timeStamp tm ++ name)
  named : name ≠ []
  short : name.length ≤ 200
  printable : ∀ c ∈ timeStamp tm ++ name, Printable c
  proper : timeStamp tm ++ name ≠ [0x2E] ∧ timeStamp tm ++ name ≠ [0x2E, 0x2E]
  child : components (getAbsolutePath basePath filepath) =
    components (userDir basePath userId) ++ [timeStamp tm ++ name]

theorem confined_generateFilepath (basePath : Bytes) (userId : Int) (filename : Bytes) (tm : Tm) :
    Confined basePath userId (generateFilepath userId (sanitizeFilename filename) tm) tm
      (sanitizeFilename filename) := by
  obtain ⟨named, short, inside⟩ := sanitizeFilename_spec filename
  have printable : ∀ c ∈ timeStamp tm ++ sanitizeFilename filename, Printable c := by
    intro c member
    rcases List.mem_append.mp member with stamp | name
    · exact (plain_timeStamp stamp).1
    · exact (inside c name).1
  have stamped : (0x5F : UInt8) ∈ timeStamp tm ++ sanitizeFilename filename := by
    simp [timeStamp]
  have one : 0x2F ∉ timeStamp tm ++ sanitizeFilename filename := fun member =>
    separator_not_printable (printable _ member)
  have bare : 0x2F ∉ decimal userId := fun member =>
    separator_not_printable (plain_decimal member).1
  have something : timeStamp tm ++ sanitizeFilename filename ≠ [] := List.ne_nil_of_mem stamped
  refine ⟨generateFilepath_eq _ _ _, named, short, printable, ⟨?_, ?_⟩, ?_⟩
  · intro dot
    rw [dot] at stamped
    exact absurd stamped (by decide)
  · intro dots
    rw [dots] at stamped
    exact absurd stamped (by decide)
  · rw [generateFilepath_eq, components_getAbsolutePath _ (by simp), components_append, userDir,
      components_append, components_single (decimal_ne_nil _) bare,
      components_single something one, List.append_assoc]

theorem calls_insert {userId : Int} {filename : Bytes} {filesize : Int64} {md5 : Bytes}
    {holds : Bytes → Prop}
    (every : ∀ tm, holds (generateFilepath userId (sanitizeFilename filename) tm)) :
    (FileService.uploadStart userId filename filesize md5).Calls fun call =>
      ∀ file, call = .insert file → holds file.filepath := by
  unfold FileService.uploadStart
  split
  · exact Program.calls_pure
  refine ⟨nofun, fun existing => ?_⟩
  cases existing with
  | some row => exact Program.calls_pure
  | none =>
      refine ⟨nofun, fun _ => ⟨nofun, fun tm => ⟨?_, fun id => ?_⟩⟩⟩
      · rintro file inserted
        cases inserted
        exact every tm
      · show (if (id : Int) ≤ 0 then _ else _ : Handler _).Calls _
        split <;> exact Program.calls_pure

/-- Every path that `UploadStart` stores is that of a file right in the
directory of its user, and no path of another user. -/
theorem paths_confined (basePath : Bytes) (userId : Int) (filename : Bytes) (filesize : Int64)
    (md5 : Bytes) :
    (FileService.uploadStart userId filename filesize md5).Calls fun call =>
      ∀ file, call = .insert file →
        (∃ tm name, Confined basePath userId file.filepath tm name) ∧
        ∀ other, other ≠ userId → ∀ filename' filesize' md5',
          (FileService.uploadStart other filename' filesize' md5').Calls fun call' =>
            ∀ file', call' = .insert file' → file'.filepath ≠ file.filepath := by
  apply @calls_insert _ _ _ _ fun filepath =>
    (∃ tm name, Confined basePath userId filepath tm name) ∧
      ∀ other, other ≠ userId → ∀ filename' filesize' md5',
        (FileService.uploadStart other filename' filesize' md5').Calls fun call' =>
          ∀ file', call' = .insert file' → file'.filepath ≠ filepath
  intro tm
  refine ⟨⟨tm, _, confined_generateFilepath basePath userId filename tm⟩, ?_⟩
  intro other different filename' filesize' md5'
  apply @calls_insert _ _ _ _ fun filepath =>
    filepath ≠ generateFilepath userId (sanitizeFilename filename) tm
  intro tm' same
  rw [generateFilepath_eq, generateFilepath_eq] at same
  exact different (decimal_prefix_injective same)

end Confinement

section Harmless

/-- A name that has nothing to remove: no separator, no control character, no
special one, no leading dot. -/
structure Harmless (name : Bytes) : Prop where
  named : name ≠ []
  short : name.length ≤ 200
  printable : ∀ c ∈ name, Printable c
  visible : name.head? ≠ some 0x2E

theorem basename_eq_self {name : Bytes} (printable : ∀ c ∈ name, Printable c) :
    basename name = name := by
  have whole : name.reverse.takeWhile (fun c => decide (c ≠ 0x2F ∧ c ≠ 0x5C)) = name.reverse := by
    rw [List.takeWhile_eq_self_iff]
    intro c member
    have plain := (printable c (List.mem_reverse.mp member)).2
    simp only [List.mem_cons, not_or] at plain
    exact decide_eq_true ⟨plain.1, plain.2.1⟩
  rw [basename, whole, List.reverse_reverse]

theorem dropDots_eq_self {name : Bytes} (visible : name.head? ≠ some 0x2E) :
    dropDots name = name := by
  cases name with
  | nil => rfl
  | cons c rest =>
      have shown : c ≠ 0x2E := by simpa using visible
      cases rest with
      | nil => rfl
      | cons next rest => simp [dropDots, shown]

theorem sanitizeFilename_harmless {name : Bytes} (harmless : Harmless name) :
    sanitizeFilename name =
      if name.filter (· < 0x80) = [] then ascii ['u', 'n', 'n', 'a', 'm', 'e', 'd']
      else name.filter (· < 0x80) := by
  have kept : name.filter (fun c => !dangerous c) = name.filter (· < 0x80) := by
    apply List.filter_congr
    intro c member
    have printable := harmless.printable c member
    cases removed : dangerous c with
    | false => simp [(dangerous_eq_false_iff.mp removed).2]
    | true =>
        have high : ¬c < 0x80 := fun low => by
          rw [dangerous_eq_false_iff.mpr ⟨printable, low⟩] at removed
          cases removed
        simp [high]
  have untouched : ∀ text : Bytes, text.length ≤ 200 → truncate text = text := by
    intro text fits
    rw [truncate, if_neg (Nat.not_lt.mpr fits)]
  have short : (name.filter (· < 0x80)).length ≤ 200 :=
    (List.length_filter_le _ _).trans harmless.short
  simp only [sanitizeFilename, basename_eq_self harmless.printable,
    dropDots_eq_self harmless.visible, kept]
  split
  · exact untouched _ (by decide)
  · exact untouched _ short

/-- A harmless name is kept, and its stored name is its own, exactly when no
byte of it is negative as a `char`. -/
theorem harmless_kept_iff {name : Bytes} (harmless : Harmless name) :
    (sanitizeFilename name = name ↔ ∀ c ∈ name, c < 0x80) ∧
      ((∀ c ∈ name, c < 0x80) → ∀ other, Harmless other → (∀ c ∈ other, c < 0x80) →
        other ≠ name → sanitizeFilename other ≠ sanitizeFilename name) := by
  have kept : ∀ {text : Bytes}, Harmless text → (∀ c ∈ text, c < 0x80) →
      sanitizeFilename text = text := by
    intro text harmless ascii
    have all : text.filter (· < 0x80) = text := List.filter_eq_self.mpr fun c member =>
      decide_eq_true (ascii c member)
    rw [sanitizeFilename_harmless harmless, all, if_neg harmless.named]
  refine ⟨⟨fun same c member => ?_, kept harmless⟩, fun ascii other harmless' ascii' different => ?_⟩
  · rw [← same] at member
    exact ((sanitizeFilename_spec name).2.2 c member).2
  · rwa [kept harmless ascii, kept harmless' ascii']

/-- The name of one letter with an accent is lost. -/
theorem accent_lost : ¬∀ name : Bytes, Json.isUtf8 name = true → Harmless name →
    sanitizeFilename name = name := by
  intro kept
  have accent : Harmless [0xC3, 0xA9] := ⟨by decide, by decide, forall_of_all (by decide), by decide⟩
  have same := kept [0xC3, 0xA9] (by decide) accent
  exact absurd same (by decide)

theorem harmless_kept_letters :
    sanitizeFilename [0x61, 0x62] = [0x61, 0x62] ∧
      sanitizeFilename [0x61, 0x62] ≠ sanitizeFilename [0x61] := by
  have letters : Harmless [0x61, 0x62] := ⟨by decide, by decide, forall_of_all (by decide), by decide⟩
  have letter : Harmless [0x61] := ⟨by decide, by decide, forall_of_all (by decide), by decide⟩
  have kept := harmless_kept_iff letters
  have kept' := harmless_kept_iff letter
  exact ⟨kept.1.mpr (forall_of_all (by decide)),
    kept'.2 (forall_of_all (by decide)) _ letters (forall_of_all (by decide)) (by decide)⟩

end Harmless

section Accepted

/-- The `WriteChunk` handler has no objection to the path: it goes on to the
disk with every chunk that is in order otherwise. -/
def PassesChecks (userId : Int) (filepath : Bytes) : Prop :=
  ∀ offset data, 0 ≤ offset → data ≠ [] →
    ∃ next, writeChunk filepath userId offset (.ofNat data.length) data =
      .call (.createUserDir userId) next

theorem passesChecks_iff {userId : Int} (positive : 0 < userId) {filepath : Bytes} :
    PassesChecks userId filepath ↔ (decimal userId ++ [0x2F]).isPrefixOf filepath ∧
      contains [0x2E, 0x2E] filepath = false ∧ 0x5C ∉ filepath := by
  constructor
  · intro passes
    obtain ⟨next, goes⟩ := passes 0 [0] (by decide) (by decide)
    unfold writeChunk at goes
    split at goes
    · cases goes
    next accepted =>
      simp only [not_or, Bool.not_eq_true] at accepted
      exact ⟨by simpa using accepted.2.2.2.2.1, accepted.2.2.2.2.2.1, accepted.2.2.2.2.2.2⟩
  · rintro ⟨inside, spaced, plain⟩ offset data sought something
    unfold writeChunk
    rw [if_neg]
    · exact ⟨_, rfl⟩
    · have below : ¬userId ≤ 0 := Int.not_le.mpr positive
      have started : ¬offset < 0 := Int64.not_lt.mpr sought
      simp [below, started, something, inside, spaced, plain]

theorem contains_append {first : Bytes} (dotless : 0x2E ∉ first) (rest : Bytes) :
    contains [0x2E, 0x2E] (first ++ rest) = contains [0x2E, 0x2E] rest := by
  induction first with
  | nil => rfl
  | cons c first inductionHypothesis =>
      have different : (0x2E : UInt8) ≠ c := fun same => dotless (same ▸ List.mem_cons_self)
      have absent : 0x2E ∉ first := fun member => dotless (List.mem_cons_of_mem _ member)
      simp [contains, List.isPrefixOf, different, inductionHypothesis absent]

theorem passesChecks_generateFilepath {userId : Int} (positive : 0 < userId) (filename : Bytes)
    (tm : Tm) : PassesChecks userId (generateFilepath userId (sanitizeFilename filename) tm) ↔
      contains [0x2E, 0x2E] (sanitizeFilename filename) = false := by
  have dotless : 0x2E ∉ decimal userId ++ 0x2F :: timeStamp tm := by
    intro member
    rcases List.mem_append.mp member with number | later
    · exact (plain_decimal number).2 rfl
    rcases List.mem_cons.mp later with separator | stamp
    · exact absurd separator (by decide)
    · exact (plain_timeStamp stamp).2 rfl
  have plain : 0x5C ∉ generateFilepath userId (sanitizeFilename filename) tm := by
    have backslash : ¬Printable 0x5C := by decide
    rw [generateFilepath_eq]
    intro member
    rcases List.mem_append.mp member with number | later
    · exact backslash (plain_decimal number).1
    rcases List.mem_cons.mp later with separator | name
    · exact absurd separator (by decide)
    rcases List.mem_append.mp name with stamp | name
    · exact backslash (plain_timeStamp stamp).1
    · exact backslash ((sanitizeFilename_spec filename).2.2 _ name).1
  have path : generateFilepath userId (sanitizeFilename filename) tm =
      (decimal userId ++ 0x2F :: timeStamp tm) ++ sanitizeFilename filename := by
    rw [generateFilepath_eq, List.append_assoc, List.cons_append]
  have inside : (decimal userId ++ [0x2F]).isPrefixOf
      (generateFilepath userId (sanitizeFilename filename) tm) := by
    rw [generateFilepath_eq, List.isPrefixOf_iff_prefix]
    exact ⟨timeStamp tm ++ sanitizeFilename filename, by simp⟩
  rw [passesChecks_iff positive, path, contains_append dotless, ← path]
  exact ⟨fun passes => passes.2.1, fun spaced => ⟨inside, spaced, plain⟩⟩

/-- A generated path passes the checks of `WriteChunk` exactly when the
sanitised name has no two dots in a row. -/
theorem generated_accepted_iff {userId : Int} (positive : 0 < userId) (filename : Bytes)
    (filesize : Int64) (md5 : Bytes) :
    (FileService.uploadStart userId filename filesize md5).Calls fun call =>
      ∀ file, call = .insert file →
        (PassesChecks userId file.filepath ↔
          contains [0x2E, 0x2E] (sanitizeFilename filename) = false) := by
  apply @calls_insert _ _ _ _ fun filepath => (PassesChecks userId filepath ↔
    contains [0x2E, 0x2E] (sanitizeFilename filename) = false)
  exact passesChecks_generateFilepath positive filename

theorem generated_accepted_letter :
    contains [0x2E, 0x2E] (sanitizeFilename [0x61]) = false ∧
      (FileService.uploadStart 1 [0x61] 1 []).Calls fun call =>
        ∀ file, call = .insert file → (PassesChecks 1 file.filepath ↔
          contains [0x2E, 0x2E] (sanitizeFilename [0x61]) = false) :=
  ⟨by decide, generated_accepted_iff (by decide) [0x61] 1 []⟩

/-- The upload of `a..b` starts, and none of its chunks is ever written. -/
theorem dots_refused : ¬∀ userId filename filesize md5, 0 < userId →
    (FileService.uploadStart userId filename filesize md5).Calls fun call =>
      ∀ file, call = .insert file → PassesChecks userId file.filepath := by
  intro accepted
  have calls := accepted 1 [0x61, 0x2E, 0x2E, 0x62] 1 [] (by decide)
  unfold FileService.uploadStart at calls
  rw [if_neg (by decide)] at calls
  have passes := ((((calls.2 none).2 true).2 default).1) _ rfl
  have spaced := (passesChecks_generateFilepath (by decide) _ _).mp passes
  exact absurd spaced (by decide)

end Accepted

end FileServer.Service
