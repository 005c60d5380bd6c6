import GameLauncher.Provisioning.MailParsing

/-!
# Header fields of a mail

A field is a name and a value, which may be folded over several lines. `joinLines` writes lines with
carriage return and line feed between them. `parseHeaders` reads a block of fields back: it keeps
the last value of each name (`parseHeaders_fields`), and the first empty line ends the block
(`splitHeadersBody_block`).
-/

set_option autoImplicit false

namespace GameLauncher.Provisioning

open Foundation Fallible List

/-! ### Lines -/

variable {line : Text}

/-- A text without an end of line in it. -/
def IsLine (text : Text) : Prop := '\n' ∉ text ∧ '\r' ∉ text

/-- Lines with carriage return and line feed between them. -/
def joinLines (texts : List Text) : Text := "\r\n".toList.intercalate texts

theorem joinLines_cons_cons (first second : Text) (rest : List Text) :
    joinLines (first :: second :: rest) = first ++ '\r' :: '\n' :: joinLines (second :: rest) := by
  unfold joinLines
  rw [intercalate_cons_cons, append_assoc]
  rfl

theorem lines_of_line (hline : IsLine line) (hne : line ≠ []) : lines line = [line] := by
  have hkept : (!line.isEmpty) = true := by
    cases line with
    | nil => exact absurd rfl hne
    | cons c rest => rfl
  rw [lines, splitOn_eq_singleton hline.1]
  simp only [dropLast_singleton, map_nil, nil_append, List.getLast?_singleton,
    Option.filter_some, hkept, if_true, Option.toList_some]

theorem lines_append (hline : IsLine line) (text : Text) :
    lines (line ++ '\r' :: '\n' :: text) = line :: lines text := by
  have hnotMem : '\n' ∉ line ++ ['\r'] := by
    simp [hline.1]
  have hstrip : stripReturn (line ++ ['\r']) = line := by
    rw [stripReturn, if_pos (by simp), dropLast_concat]
  have hpieces := splitOn_append_cons_self_of_not_mem hnotMem text
  have hsplit : line ++ '\r' :: '\n' :: text = line ++ ['\r'] ++ '\n' :: text := by simp
  obtain ⟨head, tail, hrest⟩ := exists_cons_of_ne_nil (splitOn_ne_nil '\n' text)
  rw [lines, lines, hsplit, hpieces, hrest]
  simp only [dropLast_cons_cons, map_cons, hstrip, List.getLast?_cons_cons, cons_append]

theorem lines_joinLines {texts : List Text} (h : ∀ text ∈ texts, IsLine text ∧ text ≠ []) :
    lines (joinLines texts) = texts := by
  induction texts with
  | nil => rfl
  | cons first rest ih =>
    obtain ⟨hfirst, hrest⟩ := forall_mem_cons.mp h
    cases rest with
    | nil =>
      rw [joinLines, intercalate_singleton]
      exact lines_of_line hfirst.1 hfirst.2
    | cons second others =>
      rw [joinLines_cons_cons, lines_append hfirst.1, ih hrest]

/-! ### Fields -/

/-- A header field: its name, its value on the line of the name, and the lines of its value that are
folded. -/
structure HeaderField where
  name : Text
  value : Text
  folded : List Text

variable {field : HeaderField}

namespace HeaderField

/-- A field as mails have it: a visible name without a colon, and folded lines that begin with white
space. -/
structure Valid (field : HeaderField) : Prop where
  name_ne : field.name ≠ []
  name_visible : ∀ c ∈ field.name, 33 ≤ c.toNat ∧ c.toNat ≤ 126 ∧ c ≠ ':'
  value_line : IsLine field.value
  folded_lines : ∀ line ∈ field.folded,
    IsLine line ∧ (line.head? = some ' ' ∨ line.head? = some '\t')

def lines (field : HeaderField) : List Text :=
  (field.name ++ ": " ++ field.value) :: field.folded

/-- The value that is read: the lines, each without the white space around it, with a space between
them. -/
def unfolded (field : HeaderField) : Text :=
  field.folded.foldl (fun value line ↦ value ++ ' ' :: trim line) (trim field.value)

def key (field : HeaderField) : Text := toAsciiLowercase field.name

def insertInto (field : HeaderField) (values : HeaderMap) : HeaderMap :=
  Function.update values field.key (some (trim field.unfolded))

theorem Valid.name_not_space (h : field.Valid) {c : Char} (hc : c ∈ field.name) :
    isWhitespace c = false := by
  have hvisible := h.name_visible c hc
  rw [Bool.eq_false_iff]
  intro hspace
  simp only [isWhitespace, isWhiteSpace, Bool.or_eq_true, Bool.and_eq_true, beq_iff_eq,
    decide_eq_true_eq] at hspace
  omega

theorem Valid.isLine (h : field.Valid) (hline : line ∈ field.lines) : IsLine line ∧ line ≠ [] := by
  rcases mem_cons.mp hline with rfl | hline
  · have hname {c : Char} (hc : c ∈ field.name) : c ≠ '\n' ∧ c ≠ '\r' := by
      have hvisible := h.name_visible c hc
      refine ⟨?_, ?_⟩ <;> rintro rfl <;> exact absurd hvisible.1 (by decide)
    refine ⟨⟨?_, ?_⟩, ?_⟩
    · simp only [mem_append, not_or]
      exact ⟨⟨fun hc ↦ (hname hc).1 rfl, by decide⟩, h.value_line.1⟩
    · simp only [mem_append, not_or]
      exact ⟨⟨fun hc ↦ (hname hc).2 rfl, by decide⟩, h.value_line.2⟩
    · simp [h.name_ne]
  · obtain ⟨hfolded, hhead⟩ := h.folded_lines line hline
    refine ⟨hfolded, ?_⟩
    rintro rfl
    rcases hhead with hhead | hhead <;> cases hhead

theorem Valid.next_first (h : field.Valid) (scan : HeaderScan) :
    scan.next (field.name ++ ": " ++ field.value) =
      .ok ⟨scan.complete, some field.key, trim field.value⟩ := by
  obtain ⟨first, rest, hname⟩ := exists_cons_of_ne_nil h.name_ne
  have hfirst := h.name_visible first (by rw [hname]; exact mem_cons_self)
  have hstart : ¬ ((field.name ++ ": " ++ field.value).head? = some ' ' ∨
      (field.name ++ ": " ++ field.value).head? = some '\t') := by
    rw [hname]
    rintro (hspace | htab)
    · obtain rfl : first = ' ' := Option.some.inj hspace
      exact absurd hfirst.1 (by decide)
    · obtain rfl : first = '\t' := Option.some.inj htab
      exact absurd hfirst.1 (by decide)
  have hcolon : ':' ∉ field.name := fun hmem ↦ (h.name_visible ':' hmem).2.2 rfl
  have hsplit : splitOnce ':' (field.name ++ ": " ++ field.value) =
      some (field.name, ' ' :: field.value) := by
    rw [← splitOnce_append (' ' :: field.value) hcolon, append_assoc]
    rfl
  have htrim : trim field.name = field.name :=
    trim_of_ends (fun c hc ↦ h.name_not_space (mem_of_mem_head? hc))
      fun c hc ↦ h.name_not_space (mem_of_getLast? hc)
  have hkey : toAsciiLowercase field.name ≠ [] := by
    rw [toAsciiLowercase_eq_map, ne_eq, map_eq_nil_iff]
    exact h.name_ne
  rw [HeaderScan.next, if_neg hstart, hsplit, orThrow, ok_bind]
  dsimp only
  rw [htrim, throwIf, if_neg hkey, ok_bind, trim_space_cons]
  rfl

theorem Valid.next_lines (h : field.Valid) (scan : HeaderScan) :
    field.lines.foldlM HeaderScan.next scan =
      .ok ⟨scan.complete, some field.key, field.unfolded⟩ := by
  have hfolded (values : HeaderMap) (value : Text) (folded : List Text)
      (hstarts : ∀ line ∈ folded, line.head? = some ' ' ∨ line.head? = some '\t') :
      folded.foldlM HeaderScan.next ⟨values, some field.key, value⟩ = .ok ⟨values, some field.key,
          folded.foldl (fun value line ↦ value ++ ' ' :: trim line) value⟩ := by
    induction folded generalizing value with
    | nil => rfl
    | cons line rest ih =>
      obtain ⟨hline, hrest⟩ := forall_mem_cons.mp hstarts
      have hnext : HeaderScan.next ⟨values, some field.key, value⟩ line =
          .ok ⟨values, some field.key, value ++ ' ' :: trim line⟩ := by
        rw [HeaderScan.next, if_pos hline]
        rfl
      rw [foldlM_cons, hnext, ok_bind, ih _ hrest, foldl_cons]
  rw [lines, foldlM_cons, h.next_first, ok_bind,
    hfolded _ _ _ fun line hline ↦ (h.folded_lines line hline).2]
  rfl

end HeaderField

/-- The map of the fields of a block: later fields replace earlier ones. -/
def fieldMap (fields : List HeaderField) : HeaderMap :=
  fields.foldl (fun values field ↦ field.insertInto values) fun _ ↦ none

def blockText (fields : List HeaderField) : Text :=
  joinLines (fields.flatMap HeaderField.lines)

variable {fields : List HeaderField}

theorem isLine_of_mem_block (h : ∀ field ∈ fields, field.Valid)
    (hline : line ∈ fields.flatMap HeaderField.lines) : IsLine line ∧ line ≠ [] := by
  obtain ⟨field, hfield, hline⟩ := mem_flatMap.mp hline
  exact (h field hfield).isLine hline

theorem parseHeaders_fields (h : ∀ field ∈ fields, field.Valid) :
    parseHeaders (utf8 (blockText fields)) = .ok (fieldMap fields) := by
  have hscan (scan : HeaderScan) : ∃ last : HeaderScan,
      (fields.flatMap HeaderField.lines).foldlM HeaderScan.next scan = .ok last ∧
        last.complete = fields.foldl (fun values field ↦ field.insertInto values) scan.complete := by
    induction fields generalizing scan with
    | nil => exact ⟨scan, rfl, rfl⟩
    | cons field rest ih =>
      obtain ⟨hfield, hrest⟩ := forall_mem_cons.mp h
      obtain ⟨last, hlast, hcomplete⟩ := ih hrest ⟨scan.complete, some field.key, field.unfolded⟩
      refine ⟨last, ?_, hcomplete⟩
      rw [flatMap_cons, foldlM_append, hfield.next_lines, ok_bind, hlast]
  obtain ⟨last, hlast, hcomplete⟩ := hscan ⟨fun _ ↦ none, none, []⟩
  rw [parseHeaders, fromUtf8Lossy_utf8, blockText,
    lines_joinLines fun line hline ↦ isLine_of_mem_block h hline, hlast, ok_bind, hcomplete]
  rfl

theorem fieldMap_of_last {before after : List HeaderField}
    (h : ∀ other ∈ after, other.key ≠ field.key) :
    fieldMap (before ++ field :: after) field.key = some (trim field.unfolded) := by
  rw [fieldMap, foldl_append, foldl_cons]
  generalize before.foldl (fun values field ↦ field.insertInto values) (fun _ ↦ none) = values
  have hafter (values : HeaderMap) :
      after.foldl (fun values field ↦ field.insertInto values) values field.key =
        values field.key := by
    induction after generalizing values with
    | nil => rfl
    | cons other rest ih =>
      obtain ⟨hother, hrest⟩ := forall_mem_cons.mp h
      rw [foldl_cons, ih hrest, HeaderField.insertInto, Function.update_of_ne hother.symm]
  rw [hafter, HeaderField.insertInto, Function.update_self]

/-! ### The end of a block -/

theorem joinLines_bytes {texts : List Text} (h : ∀ text ∈ texts, IsLine text ∧ text ≠ []) :
    (∀ second : UInt8, second = 10 ∨ second = 13 → ¬ [10, second] <:+: utf8 (joinLines texts)) ∧
      (utf8 (joinLines texts)).getLast? ≠ some 10 ∧
      ∀ byte, (utf8 (joinLines texts)).head? = some byte → byte ≠ 10 ∧ byte ≠ 13 := by
  have hline {text : Text} (hline : IsLine text) : 10 ∉ utf8 text ∧ 13 ∉ utf8 text := by
    have hfeed : UInt8.ofNat '\n'.toNat ∉ utf8 text := notMem_utf8 (by decide) hline.1
    have hreturn : UInt8.ofNat '\r'.toNat ∉ utf8 text := notMem_utf8 (by decide) hline.2
    exact ⟨hfeed, hreturn⟩
  induction texts with
  | nil =>
    have hnil : utf8 (joinLines []) = [] := rfl
    rw [hnil]
    exact ⟨fun _ _ hpart ↦ absurd (List.infix_nil.mp hpart) (by simp), nofun, nofun⟩
  | cons first rest ih =>
    obtain ⟨hfirst, hrest⟩ := forall_mem_cons.mp h
    obtain ⟨hfeed, hreturn⟩ := hline hfirst.1
    cases rest with
    | nil =>
      rw [joinLines, intercalate_singleton]
      refine ⟨fun _ _ hpart ↦ not_pair_infix_of_notMem hfeed hpart,
        fun hlast ↦ hfeed (mem_of_getLast? hlast), fun byte hhead ↦ ⟨?_, ?_⟩⟩
      · rintro rfl
        exact hfeed (mem_of_mem_head? hhead)
      · rintro rfl
        exact hreturn (mem_of_mem_head? hhead)
    | cons second others =>
      obtain ⟨hpairs, hlast, hhead⟩ := ih hrest
      have hbytes : utf8 (joinLines (first :: second :: others)) =
          utf8 first ++ ([13, 10] ++ utf8 (joinLines (second :: others))) := by
        rw [joinLines_cons_cons, utf8_append]
        rfl
      have hne : utf8 (joinLines (second :: others)) ≠ [] := by
        intro hnil
        have hlines := congrArg lines (show joinLines (second :: others) = [] by
          cases htext : joinLines (second :: others) with
          | nil => rfl
          | cons c rest =>
            rw [htext, utf8_cons] at hnil
            exact absurd (append_eq_nil_iff.mp hnil).1 (utf8Char_ne_nil c))
        rw [lines_joinLines hrest] at hlines
        cases hlines
      rw [hbytes]
      refine ⟨fun byte hbyte ↦ ?_, ?_, fun byte hstart ↦ ?_⟩
      · rw [pair_infix_append, pair_infix_append]
        rintro (hpart | (hpart | hpart | hjoint) | hjoint)
        · exact not_pair_infix_of_notMem hfeed hpart
        · rcases hbyte with rfl | rfl <;> exact absurd hpart (by decide)
        · exact hpairs byte hbyte hpart
        · have hfound := hhead byte hjoint.2
          rcases hbyte with rfl | rfl
          · exact hfound.1 rfl
          · exact hfound.2 rfl
        · exact hfeed (mem_of_getLast? hjoint.1)
      · rw [List.getLast?_append_of_ne_nil _ (by simp), List.getLast?_append_of_ne_nil _ hne]
        exact hlast
      · obtain ⟨c, text, hsplit⟩ := exists_cons_of_ne_nil hfirst.2
        have hfirstNe : utf8 first ≠ [] := by
          rw [hsplit, utf8_cons]
          exact append_ne_nil_of_left_ne_nil (utf8Char_ne_nil c) _
        rw [List.head?_append_of_ne_nil _ hfirstNe] at hstart
        refine ⟨?_, ?_⟩ <;> rintro rfl
        · exact hfeed (mem_of_mem_head? hstart)
        · exact hreturn (mem_of_mem_head? hstart)

theorem splitHeadersBody_block (h : ∀ field ∈ fields, field.Valid) (body : Bytes) :
    splitHeadersBody (utf8 (blockText fields) ++ [13, 10, 13, 10] ++ body) =
      some (utf8 (blockText fields), body) := by
  obtain ⟨hpairs, hlast, -⟩ := joinLines_bytes fun line hline ↦ isLine_of_mem_block h hline
  have hfirst : ¬ [13, 10, 13, 10] <:+: utf8 (blockText fields) ++ [13, 10, 13] := by
    intro hpart
    have hshort : [13, 10, 13, 10] <:+: utf8 (blockText fields) ++ [13, 10] := by
      have hsplit : utf8 (blockText fields) ++ [13, 10, 13] =
          utf8 (blockText fields) ++ [13, 10] ++ [13] := by simp
      rw [hsplit, infix_concat_iff] at hpart
      refine hpart.resolve_left fun ⟨front, hfront⟩ ↦ ?_
      have hends := congrArg List.getLast? hfront
      simp at hends
    have hpair : [10, 13] <:+: utf8 (blockText fields) ++ [13, 10] :=
      List.IsInfix.trans ⟨[13], [10], rfl⟩ hshort
    rcases pair_infix_append.mp hpair with hpair | hpair | hjoint
    · exact hpairs 13 (.inr rfl) hpair
    · exact absurd hpair (by decide)
    · exact hlast hjoint.1
  rw [splitHeadersBody, dropInfix?_append body (cons_ne_nil _ _) hfirst]
  rfl

theorem splitHeadersBody_of_block (h : ∀ field ∈ fields, field.Valid) :
    splitHeadersBody (utf8 (blockText fields)) = none := by
  obtain ⟨hpairs, -, -⟩ := joinLines_bytes fun line hline ↦ isLine_of_mem_block h hline
  have hlong : (utf8 (blockText fields)).dropInfix? [13, 10, 13, 10] = none :=
    dropInfix?_eq_none_iff.mpr fun hpart ↦
      hpairs 13 (.inr rfl) (List.IsInfix.trans ⟨[13], [10], rfl⟩ hpart)
  have hshort : (utf8 (blockText fields)).dropInfix? [10, 10] = none :=
    dropInfix?_eq_none_iff.mpr fun hpart ↦ hpairs 10 (.inl rfl) hpart
  rw [splitHeadersBody, hlong, hshort]
  rfl

end GameLauncher.Provisioning
