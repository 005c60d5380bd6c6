import Mathlib.Data.List.Basic

/-!
# Segments of a list between separators

A path, a version or a key is a list that a separator cuts into segments. `List.splitOn` and
`List.intercalate` are inverse to each other on segments without the separator; the facts here say
which elements the segments have, and what splitting does to a list that a map has changed.
-/

set_option autoImplicit false

namespace GameLauncher.Foundation

open List

variable {α β : Type}

theorem mem_of_mem_intercalate {element : α} {between : List α} {segments : List (List α)}
    (h : element ∈ between.intercalate segments) :
    element ∈ between ∨ ∃ segment ∈ segments, element ∈ segment := by
  induction segments with
  | nil => exact absurd h (by simp)
  | cons first rest ih =>
    cases rest with
    | nil => exact .inr ⟨first, mem_cons_self, by simpa using h⟩
    | cons second others =>
      rw [intercalate_cons_cons, mem_append, mem_append] at h
      rcases h with (h | h) | h
      · exact .inr ⟨first, mem_cons_self, h⟩
      · exact .inl h
      · refine (ih h).imp id ?_
        rintro ⟨segment, hsegment, hmem⟩
        exact ⟨segment, mem_cons_of_mem _ hsegment, hmem⟩

theorem not_of_mem_splitOnP {isSeparator : α → Bool} {items segment : List α}
    (h : segment ∈ items.splitOnP isSeparator) : ∀ item ∈ segment, isSeparator item = false := by
  induction items generalizing segment with
  | nil =>
    rw [splitOnP_nil, mem_singleton] at h
    simp [h]
  | cons first rest ih =>
    rw [splitOnP_cons_eq_if_modifyHead] at h
    obtain ⟨head, tail, hsplit⟩ :=
      exists_cons_of_ne_nil (splitOnP_ne_nil isSeparator rest)
    rw [hsplit] at h ih
    by_cases hfirst : isSeparator first = true
    · rw [if_pos hfirst, mem_cons] at h
      rcases h with rfl | h
      · simp
      · exact ih h
    · rw [if_neg hfirst, modifyHead_cons, mem_cons] at h
      rcases h with rfl | h
      · rw [forall_mem_cons]
        exact ⟨Bool.eq_false_iff.mpr hfirst, ih mem_cons_self⟩
      · exact ih (mem_cons_of_mem _ h)

section Members

variable [DecidableEq α] {separator element : α} {items segment : List α}

theorem exists_mem_splitOn (h : element ∈ items) (hne : element ≠ separator) :
    ∃ segment ∈ items.splitOn separator, element ∈ segment := by
  have hjoin : [separator].intercalate (items.splitOn separator) = items :=
    intercalate_splitOn separator
  rw [← hjoin] at h
  refine (mem_of_mem_intercalate h).resolve_left fun hseparator ↦ hne ?_
  exact mem_singleton.mp hseparator

theorem separator_notMem_of_mem_splitOn (h : segment ∈ items.splitOn separator) :
    separator ∉ segment := by
  intro hmem
  rw [splitOn_eq_splitOnP] at h
  have hfalse := not_of_mem_splitOnP h separator hmem
  simp at hfalse

theorem mem_of_mem_splitOn (h : segment ∈ items.splitOn separator) (hmem : element ∈ segment) :
    element ∈ items := by
  induction items generalizing segment with
  | nil =>
    rw [splitOn_nil, mem_singleton] at h
    exact absurd hmem (by simp [h])
  | cons first rest ih =>
    rw [splitOn_cons_eq_if_modifyHead] at h
    obtain ⟨head, tail, hsplit⟩ := exists_cons_of_ne_nil (splitOn_ne_nil separator rest)
    rw [hsplit] at h ih
    by_cases hfirst : first = separator
    · rw [if_pos (by simpa using hfirst), mem_cons] at h
      rcases h with rfl | h
      · exact absurd hmem (by simp)
      · exact mem_cons_of_mem _ (ih h hmem)
    · rw [if_neg (by simpa using hfirst), modifyHead_cons, mem_cons] at h
      rcases h with rfl | h
      · rcases mem_cons.mp hmem with rfl | hmem
        · exact mem_cons_self
        · exact mem_cons_of_mem _ (ih mem_cons_self hmem)
      · exact mem_cons_of_mem _ (ih (mem_cons_of_mem _ h) hmem)

end Members

theorem splitOnP_map (f : α → β) (isSeparator : β → Bool) (items : List α) :
    (items.map f).splitOnP isSeparator =
      (items.splitOnP fun item ↦ isSeparator (f item)).map (List.map f) := by
  induction items with
  | nil => rfl
  | cons first rest ih =>
    rw [map_cons, splitOnP_cons_eq_if_modifyHead, splitOnP_cons_eq_if_modifyHead, ih]
    obtain ⟨head, tail, hsplit⟩ := exists_cons_of_ne_nil
      (splitOnP_ne_nil (fun item ↦ isSeparator (f item)) rest)
    rw [hsplit]
    by_cases hfirst : isSeparator (f first) = true
    · simp [hfirst]
    · simp [hfirst]

theorem splitOnP_congr {first second : α → Bool} {items : List α}
    (h : ∀ item ∈ items, first item = second item) :
    items.splitOnP first = items.splitOnP second := by
  induction items with
  | nil => rfl
  | cons item rest ih =>
    rw [splitOnP_cons_eq_if_modifyHead, splitOnP_cons_eq_if_modifyHead,
      h item mem_cons_self, ih fun other hother ↦ h other (mem_cons_of_mem _ hother)]

theorem splitOnP_intercalate_append {isSeparator : α → Bool} {separator : α}
    (hseparator : isSeparator separator = true) {segments : List (List α)} (hne : segments ≠ [])
    (hsegments : ∀ segment ∈ segments, ∀ item ∈ segment, isSeparator item = false)
    (rest : List α) :
    ([separator].intercalate segments ++ separator :: rest).splitOnP isSeparator =
      segments ++ rest.splitOnP isSeparator := by
  induction segments with
  | nil => exact absurd rfl hne
  | cons first others ih =>
    have hfirst := hsegments first mem_cons_self
    by_cases hothers : others = []
    · rw [hothers, intercalate_singleton,
        splitOnP_append_cons_of_forall_mem hfirst separator hseparator]
      rfl
    · obtain ⟨second, tail, rfl⟩ := exists_cons_of_ne_nil hothers
      rw [intercalate_cons_cons, append_assoc, append_assoc, singleton_append,
        splitOnP_append_cons_of_forall_mem hfirst separator hseparator,
        ih hothers fun segment hsegment ↦ hsegments segment (mem_cons_of_mem _ hsegment)]
      rfl

theorem suffix_intercalate_concat (between : List α) (segments : List (List α)) (last : List α) :
    last <:+ between.intercalate (segments ++ [last]) := by
  induction segments with
  | nil => simp
  | cons first others ih =>
    obtain ⟨second, tail, hothers⟩ := exists_cons_of_ne_nil
      (show others ++ [last] ≠ [] by simp)
    rw [cons_append, hothers, intercalate_cons_cons, ← hothers]
    exact ih.trans (suffix_append _ _)

theorem map_intercalate (f : α → β) (between : List α) (segments : List (List α)) :
    (between.intercalate segments).map f =
      (between.map f).intercalate (segments.map (List.map f)) := by
  induction segments with
  | nil => simp
  | cons first others ih =>
    cases others with
    | nil => simp
    | cons second tail =>
      rw [intercalate_cons_cons, map_append, map_append, ih, map_cons,
        map_cons, map_cons, intercalate_cons_cons]

end GameLauncher.Foundation
