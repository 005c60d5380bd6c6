import Mathlib.Data.List.Chain
import Mathlib.Data.List.Infix
import Mathlib.Data.List.Basic

/-!
# The first occurrence of a pattern

`List.dropInfix?` cuts a list at the first occurrence of a pattern. `dropInfix?_append` computes
the cut of a list that is put together from what stands before the pattern, the pattern and what
comes after it: no occurrence may begin earlier, and one that does ends within the pattern.

For a pattern of two elements, `pair_infix_append` finds the occurrences in a concatenation: in
one of the parts or across the joint.
-/

set_option autoImplicit false

namespace GameLauncher.Foundation

open List

variable {α : Type}

/-! ### Patterns -/

variable {pattern items : List α}

section Patterns

variable [DecidableEq α]

variable {before : List α}

theorem dropInfix?_append (after : List α) (hpattern : pattern ≠ [])
    (hfirst : ¬ pattern <:+: before ++ pattern.dropLast) :
    (before ++ pattern ++ after).dropInfix? pattern = some (before, after) := by
  rw [List.dropInfix?_eq_some_iff]
  refine ⟨⟨pattern, rfl, beq_self_eq_true pattern⟩, fun other found rest hsplit hfound ↦ ?_⟩
  rw [eq_of_beq hfound] at hsplit
  by_contra hshort
  have hlength := length_pos_iff.mpr hpattern
  have hwhole : before ++ pattern.dropLast <+: before ++ pattern ++ after :=
    ((prefix_append_right_inj before).mpr (List.dropLast_prefix pattern)).trans
      (prefix_append _ _)
  have hother : other ++ pattern <+: before ++ pattern ++ after :=
    hsplit ▸ prefix_append _ _
  have hinside : other ++ pattern <+: before ++ pattern.dropLast := by
    refine prefix_of_prefix_length_le hother hwhole ?_
    rw [length_append, length_append, length_dropLast]
    omega
  exact hfirst ((suffix_append other pattern).isInfix.trans hinside.isInfix)

theorem eq_append_of_dropInfix? {after : List α}
    (h : items.dropInfix? pattern = some (before, after)) : items = before ++ pattern ++ after := by
  obtain ⟨⟨found, hsplit, hfound⟩, -⟩ := List.dropInfix?_eq_some_iff.mp h
  rw [hsplit, eq_of_beq hfound]

theorem dropInfix?_eq_none_iff : items.dropInfix? pattern = none ↔ ¬ pattern <:+: items := by
  constructor
  · intro hnone hpart
    have hsome (items : List α) (hpart : pattern <:+: items) (passed : List α) :
        List.dropInfix?.go pattern items passed ≠ none := by
      induction items generalizing passed with
      | nil => simp [List.dropInfix?.go, infix_nil.mp hpart]
      | cons item rest ih =>
        rw [List.dropInfix?.go]
        cases hhead : (item :: rest).dropPrefix? pattern with
        | some after => simp
        | none =>
          rcases infix_cons_iff.mp hpart with ⟨after, hafter⟩ | hrest
          · rw [← hafter, List.dropPrefix?_append_of_beq after (beq_self_eq_true pattern)] at hhead
            cases hhead
          · exact ih hrest (item :: passed)
    exact hsome items hpart [] hnone
  · intro hpart
    cases hcut : items.dropInfix? pattern with
    | none => rfl
    | some parts =>
      exact absurd ⟨parts.1, parts.2, (eq_append_of_dropInfix? hcut).symm⟩ hpart

/-- Rust's `split_once` with a separator of one element. -/
def splitOnce (separator : α) (items : List α) : Option (List α × List α) :=
  items.dropInfix? [separator]

variable {separator : α}

theorem splitOnce_append (after : List α) (hbefore : separator ∉ before) :
    splitOnce separator (before ++ separator :: after) = some (before, after) := by
  have hfirst : ¬ [separator] <:+: before ++ [separator].dropLast := fun h ↦ by
    rw [dropLast_singleton, append_nil] at h
    exact hbefore (h.subset (mem_singleton.mpr rfl))
  have hcut := dropInfix?_append after (cons_ne_nil separator []) hfirst
  rwa [append_assoc] at hcut

theorem eq_append_of_splitOnce {after : List α}
    (h : splitOnce separator items = some (before, after)) :
    items = before ++ separator :: after := by
  rw [eq_append_of_dropInfix? h, append_assoc]
  rfl

/-- Rust's `splitn` with a separator of one element: at most so many pieces, the last one whole. -/
def splitn : ℕ → α → List α → List (List α)
  | 0, _, _ => []
  | 1, _, items => [items]
  | limit + 2, separator, items =>
    match items.dropInfix? [separator] with
    | none => [items]
    | some (before, after) => before :: splitn (limit + 1) separator after

theorem splitn_append (after : List α) (limit : ℕ) (hbefore : separator ∉ before) :
    splitn (limit + 2) separator (before ++ separator :: after) =
      before :: splitn (limit + 1) separator after := by
  have hcut : (before ++ separator :: after).dropInfix? [separator] = some (before, after) :=
    splitOnce_append after hbefore
  rw [splitn, hcut]

/-- The pieces of a list between the occurrences of a pattern, after so many elements that belong to
the occurrence before. -/
def splitInfixFrom (pattern : List α) : ℕ → List α → List (List α)
  | _, [] => [[]]
  | skipped + 1, _ :: rest => splitInfixFrom pattern skipped rest
  | 0, item :: rest =>
    if pattern.isPrefixOf (item :: rest) then
      [] :: splitInfixFrom pattern (pattern.length - 1) rest
    else (splitInfixFrom pattern 0 rest).modifyHead (item :: ·)

/-- Rust's `split` with a pattern that is not empty. -/
def splitInfix (pattern items : List α) : List (List α) := splitInfixFrom pattern 0 items

theorem splitInfixFrom_append (pattern first second : List α) :
    splitInfixFrom pattern first.length (first ++ second) = splitInfix pattern second := by
  induction first with
  | nil => rfl
  | cons item rest ih => exact ih

/-- The piece before the first occurrence, and the pieces of what comes after it. -/
theorem splitInfix_append (after : List α) (hpattern : pattern ≠ [])
    (hfirst : ¬ pattern <:+: before ++ pattern.dropLast) :
    splitInfix pattern (before ++ (pattern ++ after)) = before :: splitInfix pattern after := by
  induction before with
  | nil =>
    obtain ⟨head, tail, rfl⟩ := exists_cons_of_ne_nil hpattern
    have hinitial : (head :: tail).isPrefixOf (head :: (tail ++ after)) = true :=
      isPrefixOf_iff_prefix.mpr (prefix_append (head :: tail) after)
    rw [nil_append, cons_append, splitInfix, splitInfixFrom, if_pos hinitial]
    exact congrArg _ (splitInfixFrom_append _ tail after)
  | cons item rest ih =>
    have hinitial : ¬ pattern.isPrefixOf (item :: (rest ++ (pattern ++ after))) = true := fun h ↦ by
      have hwhole : item :: rest ++ pattern.dropLast <+: item :: rest ++ (pattern ++ after) :=
        (prefix_append_right_inj _).mpr ((List.dropLast_prefix pattern).trans
          (prefix_append _ _))
      refine hfirst (prefix_of_prefix_length_le (List.isPrefixOf_iff_prefix.mp h) hwhole
        ?_).isInfix
      rw [length_append, length_cons, length_dropLast]
      omega
    have hrest : ¬ pattern <:+: rest ++ pattern.dropLast := fun h ↦
      hfirst (h.trans (suffix_cons item _).isInfix)
    rw [cons_append, splitInfix, splitInfixFrom, if_neg hinitial]
    exact congrArg (List.modifyHead (item :: ·)) (ih hrest)

theorem splitInfix_of_not_infix (h : ¬ pattern <:+: items) :
    splitInfix pattern items = [items] := by
  induction items with
  | nil => rfl
  | cons item rest ih =>
    have hinitial : ¬ pattern.isPrefixOf (item :: rest) = true := fun hinitial ↦
      h (List.isPrefixOf_iff_prefix.mp hinitial).isInfix
    rw [splitInfix, splitInfixFrom, if_neg hinitial]
    exact congrArg (List.modifyHead (item :: ·))
      (ih fun hrest ↦ h (hrest.trans (suffix_cons item rest).isInfix))

end Patterns

/-- A pattern does not reach across an element that it does not hold. -/
theorem infix_append_cons {front back : List α} {barrier : α} (hbarrier : barrier ∉ pattern)
    (h : pattern <:+: front ++ barrier :: back) : pattern <:+: front ∨ pattern <:+: back := by
  obtain ⟨before, after, hsplit⟩ := h
  rw [append_assoc] at hsplit
  rcases append_eq_append_iff.mp hsplit with ⟨middle, hfront, hrest⟩ | ⟨middle, hbefore, hrest⟩
  · rcases append_eq_append_iff.mp hrest with ⟨tail, hmiddle, -⟩ | ⟨tail, hpattern, htail⟩
    · exact .inl ⟨before, tail, by rw [hfront, hmiddle, append_assoc]⟩
    · cases tail with
      | nil =>
        rw [append_nil] at hpattern
        exact .inl ⟨before, [], by rw [hfront, hpattern, append_nil]⟩
      | cons first tail =>
        rw [(List.cons.inj htail).1, hpattern] at hbarrier
        exact absurd (mem_append_right _ mem_cons_self) hbarrier
  · cases middle with
    | nil =>
      cases pattern with
      | nil => exact .inl nil_infix
      | cons first rest =>
        have hfirst : barrier = first := (List.cons.inj hrest).1
        rw [hfirst] at hbarrier
        exact absurd mem_cons_self hbarrier
    | cons first middle =>
      have hback : back = middle ++ (pattern ++ after) := (List.cons.inj hrest).2
      exact .inr ⟨middle, after, by rw [hback, append_assoc]⟩

/-! ### Patterns of two elements -/

variable {first second : α}

theorem pair_infix_iff :
    [first, second] <:+: items ↔
      ¬ items.IsChain fun left right ↦ ¬ (left = first ∧ right = second) := by
  rw [isChain_iff_forall_rel_of_append_cons_cons]
  constructor
  · rintro ⟨before, after, rfl⟩ hnever
    exact hnever (append_assoc before [first, second] after) ⟨rfl, rfl⟩
  · intro h
    push Not at h
    obtain ⟨left, right, before, after, hsplit, rfl, rfl⟩ := h
    exact ⟨before, after, by rw [hsplit]; simp⟩

theorem pair_infix_append {front back : List α} :
    [first, second] <:+: front ++ back ↔ [first, second] <:+: front ∨ [first, second] <:+: back ∨
        front.getLast? = some first ∧ back.head? = some second := by
  simp only [pair_infix_iff, isChain_append, Option.mem_def]
  constructor
  · intro h
    by_contra hnone
    rw [not_or, not_or, not_not, not_not] at hnone
    refine h ⟨hnone.1, hnone.2.1, fun left hleft right hright hpair ↦ ?_⟩
    rw [hpair.1] at hleft
    rw [hpair.2] at hright
    exact hnone.2.2 ⟨hleft, hright⟩
  · rintro (h | h | ⟨hfirst, hsecond⟩) ⟨hfront, hback, hjoint⟩
    · exact h hfront
    · exact h hback
    · exact hjoint first hfirst second hsecond ⟨rfl, rfl⟩

theorem not_pair_infix_of_notMem (h : first ∉ items) : ¬ [first, second] <:+: items :=
  fun hpart ↦ h (hpart.subset mem_cons_self)

theorem not_pair_infix_of_second_notMem (h : second ∉ items) : ¬ [first, second] <:+: items :=
  fun hpart ↦ h (hpart.subset (mem_cons_of_mem _ mem_cons_self))

/-! ### Occurrences that a filter makes -/

/-- A pattern occurs in what a filter and a cut leave of a list when a part of the list spells it
and ends ahead of the cut. -/
theorem infix_map_take_filter_iff {β : Type} (change : α → β) (kept : α → Bool) (limit : ℕ)
    {pattern : List β} :
    pattern <:+: ((items.filter kept).take limit).map change ↔
      ∃ before spread after, items = before ++ spread ++ after ∧
        (spread.filter kept).map change = pattern ∧
        (before.filter kept).length + pattern.length ≤ limit := by
  constructor
  · rintro ⟨front, back, heq⟩
    obtain ⟨first, last, htake, hfirst, -⟩ := map_eq_append_iff.mp heq.symm
    obtain ⟨early, middle, rfl, -, hmiddle⟩ := map_eq_append_iff.mp hfirst
    have hsplit : items.filter kept =
        early ++ middle ++ (last ++ (items.filter kept).drop limit) := by
      rw [← append_assoc, ← htake, take_append_drop]
    obtain ⟨front, after, rfl, hfront, -⟩ := filter_eq_append_iff.mp hsplit
    obtain ⟨before, spread, rfl, hbefore, hspread⟩ := filter_eq_append_iff.mp hfront
    refine ⟨before, spread, after, rfl, by rw [hspread, hmiddle], ?_⟩
    have hlength := congrArg List.length htake
    rw [length_take, length_append, length_append] at hlength
    rw [hbefore, ← hmiddle, length_map]
    omega
  · rintro ⟨before, spread, after, rfl, hspread, hlimit⟩
    have hfits : (before.filter kept ++ spread.filter kept).length ≤ limit := by
      rw [← hspread, length_map] at hlimit
      rw [length_append]
      exact hlimit
    rw [filter_append, filter_append, take_append, take_of_length_le hfits,
      map_append, map_append, hspread]
    exact ⟨_, _, rfl⟩

end GameLauncher.Foundation
