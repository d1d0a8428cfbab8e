import Mathlib.Tactic.Common

/-!
# Writing into a list at an offset

What is written covers what was there; a gap before it is filled.  Writing
nothing changes nothing, also past the end.
-/

namespace FileServer.Sequence

universe u

variable {α : Type u}

/-- The list after `data` is written at the offset. -/
def overlay (fill : α) (content : List α) (offset : Nat) : List α → List α
  | [] => content
  | first :: data =>
      content.take offset ++ List.replicate (offset - content.length) fill ++ first :: data ++
        content.drop (offset + (data.length + 1))

section

variable (fill : α) (content : List α) (offset : Nat)

@[simp]
theorem overlay_nil : overlay fill content offset [] = content := rfl

theorem overlay_of_ne_nil {data : List α} (something : data ≠ []) :
    overlay fill content offset data =
      content.take offset ++ List.replicate (offset - content.length) fill ++ data ++
        content.drop (offset + data.length) := by
  cases data with
  | nil => exact absurd rfl something
  | cons first data => rfl

theorem length_front :
    (content.take offset ++ List.replicate (offset - content.length) fill).length = offset := by
  rw [List.length_append, List.length_take, List.length_replicate]
  omega

theorem length_overlay {data : List α} (something : data ≠ []) :
    (overlay fill content offset data).length = max content.length (offset + data.length) := by
  rw [overlay_of_ne_nil fill content offset something, List.length_append, List.length_append,
    length_front, List.length_drop]
  omega

theorem getElem?_overlay_of_mem {data : List α} {position : Nat} (after : offset ≤ position)
    (before : position < offset + data.length) :
    (overlay fill content offset data)[position]? = data[position - offset]? := by
  have something : data ≠ [] := by
    rintro rfl
    rw [List.length_nil] at before
    omega
  have inData : position - offset < data.length := by omega
  rw [overlay_of_ne_nil fill content offset something, List.append_assoc,
    List.getElem?_append_right (by rw [length_front]; exact after), length_front,
    List.getElem?_append_left inData]

/-- Where nothing is written, the old content stands. -/
theorem getElem?_overlay_of_not_mem {data : List α} {position : Nat}
    (present : position < content.length)
    (outside : position < offset ∨ offset + data.length ≤ position) :
    (overlay fill content offset data)[position]? = content[position]? := by
  by_cases something : data = []
  · rw [something, overlay_nil]
  rw [overlay_of_ne_nil fill content offset something]
  rcases outside with before | after
  · rw [List.append_assoc, List.append_assoc, List.getElem?_append_left (by
      rw [List.length_take]
      omega), List.getElem?_take_of_lt before]
  · have front : (content.take offset ++ List.replicate (offset - content.length) fill ++
        data).length = offset + data.length := by
      rw [List.length_append, length_front]
    rw [List.getElem?_append_right (by omega), front, List.getElem?_drop]
    congr 1
    omega

/-- What repeats the old content does not change it. -/
theorem getElem?_overlay_of_agrees {data : List α} {position : Nat}
    (present : position < content.length)
    (agrees : offset ≤ position → position < offset + data.length →
      data[position - offset]? = content[position]?) :
    (overlay fill content offset data)[position]? = content[position]? := by
  by_cases inside : offset ≤ position ∧ position < offset + data.length
  · rw [getElem?_overlay_of_mem fill content offset inside.1 inside.2, agrees inside.1 inside.2]
  · exact getElem?_overlay_of_not_mem fill content offset present (by omega)

/-- Without a gap everything is old or written. -/
theorem overlay_cases {data : List α} (joined : offset ≤ content.length) {position : Nat}
    (present : position < (overlay fill content offset data).length) :
    (offset ≤ position ∧ position < offset + data.length) ∨
      (position < content.length ∧ (position < offset ∨ offset + data.length ≤ position)) := by
  by_cases something : data = []
  · subst something
    rw [overlay_nil] at present
    rw [List.length_nil]
    omega
  · rw [length_overlay fill content offset something] at present
    omega

theorem length_le_overlay (data : List α) :
    content.length ≤ (overlay fill content offset data).length := by
  by_cases something : data = []
  · subst something
    exact Nat.le_refl _
  · rw [length_overlay fill content offset something]
    omega

theorem overlay_prefix {whole data : List α} (known : content <+: whole)
    (joined : offset ≤ content.length) (part : data <+: whole.drop offset) :
    overlay fill content offset data <+: whole := by
  rw [List.prefix_iff_getElem?]
  intro position below
  rw [← List.getElem?_eq_getElem]
  rcases overlay_cases fill content offset joined below with ⟨low, high⟩ | ⟨present, outside⟩
  · have inData : position - offset < data.length := by omega
    rw [getElem?_overlay_of_mem fill content offset low high, List.getElem?_eq_getElem inData,
      ← List.prefix_iff_getElem?.mp part _ inData, List.getElem?_drop]
    congr 1
    omega
  · rw [getElem?_overlay_of_not_mem fill content offset present outside,
      List.getElem?_eq_getElem present, List.prefix_iff_getElem?.mp known _ present]

theorem getElem?_overlay_of_gap {data : List α} (something : data ≠ []) {position : Nat}
    (past : content.length ≤ position) (before : position < offset) :
    (overlay fill content offset data)[position]? = some fill := by
  rw [overlay_of_ne_nil fill content offset something, List.append_assoc,
    List.getElem?_append_left (by rw [length_front]; exact before),
    List.getElem?_append_right (by rw [List.length_take]; omega), List.length_take,
    List.getElem?_replicate, if_pos (by omega)]

end

/-- The data stands in its range, everything else is as before, and a gap
before the range is filled. -/
structure WritesRange (fill : α) (before after data : List α) (offset : Nat) : Prop where
  inside : ∀ position < data.length, after[offset + position]? = data[position]?
  outside : ∀ position < before.length, position < offset ∨ offset + data.length ≤ position →
    after[position]? = before[position]?
  gap : data ≠ [] → ∀ position, before.length ≤ position → position < offset →
    after[position]? = some fill
  length : after.length =
    if data = [] then before.length else max before.length (offset + data.length)

theorem writesRange_overlay (fill : α) (content data : List α) (offset : Nat) :
    WritesRange fill content (overlay fill content offset data) data offset where
  inside position inData := by
    rw [getElem?_overlay_of_mem fill content offset (Nat.le_add_right _ _) (by omega),
      Nat.add_sub_cancel_left]
  outside position present := getElem?_overlay_of_not_mem fill content offset present
  gap something position := getElem?_overlay_of_gap fill content offset something
  length := by
    split
    next nothing => rw [nothing, overlay_nil]
    next something => exact length_overlay fill content offset something

theorem WritesRange.eq_overlay {fill : α} {before after data : List α} {offset : Nat}
    (writes : WritesRange fill before after data offset) :
    after = overlay fill before offset data := by
  have other := writesRange_overlay fill before data offset
  apply List.ext_getElem?
  intro position
  by_cases past : after.length ≤ position
  · rw [List.getElem?_eq_none past, List.getElem?_eq_none (by rw [other.length, ← writes.length]; exact past)]
  by_cases inData : offset ≤ position ∧ position < offset + data.length
  · obtain ⟨index, rfl⟩ := Nat.exists_eq_add_of_le inData.1
    rw [writes.inside index (by omega), other.inside index (by omega)]
  by_cases present : position < before.length
  · rw [writes.outside position present (by omega), other.outside position present (by omega)]
  · have long := writes.length
    split at long
    · omega
    next something =>
      rw [writes.gap something position (by omega) (by omega),
        other.gap something position (by omega) (by omega)]

/-- Data can be written in two parts. -/
theorem overlay_append (fill : α) (content front back : List α) (offset : Nat) :
    overlay fill (overlay fill content offset front) (offset + front.length) back =
      overlay fill content offset (front ++ back) := by
  have first := writesRange_overlay fill content front offset
  have second := writesRange_overlay fill (overlay fill content offset front) back
    (offset + front.length)
  have whole := length_le_overlay fill content offset front
  refine WritesRange.eq_overlay ⟨?_, ?_, ?_, ?_⟩
  · intro position inData
    rw [List.length_append] at inData
    by_cases early : position < front.length
    · have present : offset + position < (overlay fill content offset front).length := by
        rw [first.length, if_neg (by rintro rfl; simp at early)]
        omega
      rw [second.outside _ present (by omega), first.inside position early,
        List.getElem?_append_left early]
    · obtain ⟨index, rfl⟩ := Nat.exists_eq_add_of_le (Nat.le_of_not_lt early)
      rw [← Nat.add_assoc, second.inside index (by omega),
        List.getElem?_append_right (Nat.le_add_right _ _), Nat.add_sub_cancel_left]
  · intro position present outside
    rw [List.length_append] at outside
    rw [second.outside position (by omega) (by omega), first.outside position present (by omega)]
  · intro something position past before
    by_cases nothing : front = []
    · subst nothing
      exact second.gap (by simpa using something) position past (by simpa using before)
    · have present : position < (overlay fill content offset front).length := by
        rw [first.length, if_neg nothing]
        omega
      rw [second.outside position present (by omega), first.gap nothing position past before]
  · rw [second.length, first.length]
    by_cases nothing : front = []
    · subst nothing
      simp
    by_cases rest : back = []
    · subst rest
      simp
    · have left : front ++ back ≠ [] := by simp [nothing]
      rw [if_neg rest, if_neg nothing, if_neg left, List.length_append]
      omega

theorem overlay_nil_eq_iff (fill : α) (content data : List α) (offset : Nat) :
    WritesRange fill content (overlay fill [] offset data) data offset ↔
      ∀ position < content.length, (offset ≤ position ∧ position < offset + data.length) ∨
        (data ≠ [] ∧ position < offset ∧ content[position]? = some fill) := by
  have fresh := writesRange_overlay fill [] data offset
  constructor
  · intro writes position present
    by_cases inData : offset ≤ position ∧ position < offset + data.length
    · exact .inl inData
    have kept := writes.outside position present (by omega)
    have long := fresh.length
    rw [List.getElem?_eq_getElem present] at kept
    have reached := (List.getElem?_eq_some_iff.mp kept).1
    split at long
    · rw [long] at reached
      exact absurd reached (Nat.not_lt_zero _)
    next something =>
      rw [List.length_nil, Nat.zero_max] at long
      refine .inr ⟨something, by omega, ?_⟩
      rw [← fresh.gap something position (Nat.zero_le _) (by omega), kept,
        List.getElem?_eq_getElem present]
  · intro lossless
    refine ⟨fresh.inside, fun position present outside => ?_, fun something position _ =>
      fresh.gap something position (Nat.zero_le _), ?_⟩
    · rcases lossless position present with inData | ⟨something, before, filled⟩
      · omega
      · rw [filled, fresh.gap something position (Nat.zero_le _) before]
    · rw [fresh.length]
      split
      next nothing =>
        by_contra some'
        rcases lossless 0 (by rw [List.length_nil] at some'; omega) with inData | ⟨something, _⟩
        · rw [nothing, List.length_nil] at inData
          omega
        · exact something nothing
      next something =>
        rw [List.length_nil]
        rcases Nat.eq_zero_or_pos content.length with empty | positive
        · omega
        · rcases lossless (content.length - 1) (by omega) with inData | ⟨_, before, _⟩ <;> omega

end FileServer.Sequence
