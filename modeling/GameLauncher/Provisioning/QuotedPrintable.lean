import GameLauncher.Provisioning.EncodedWords

/-!
# The quoted-printable decoder

`decodeFrom` is the loop of `decode_quoted_printable` as the source writes it, by index, where an
access past the end panics. It does what `decodeQuotedPrintable` does on the bytes that are left
(`decodeFrom_eq`). `decode_quotedPrintable` says that it inverts every encoding, and on which bodies
it fails.
-/

set_option autoImplicit false

namespace GameLauncher.Provisioning

open Foundation Fallible List

/-! ### The loop -/

section

variable (body : Bytes)

/-- `body[index]`. -/
def byteAt (index : ℕ) : Fallible ProvisioningError UInt8 := orThrow body[index]? .panic

/-- The test for `=` before a carriage return and a line feed. -/
def isReturnBreak (index : ℕ) : Fallible ProvisioningError Bool :=
  if index + 2 < body.length then do
    let next ← byteAt body (index + 1)
    if next = 13 then do
      let third ← byteAt body (index + 2)
      return third == 10
    else return false
  else return false

/-- The test for `=` before a line feed. -/
def isFeedBreak (index : ℕ) : Fallible ProvisioningError Bool :=
  if index + 1 < body.length then do
    let next ← byteAt body (index + 1)
    return next == 10
  else return false

/-- What the loop does at `=`: the next index, and the output so far. -/
def decodeEscape (index : ℕ) (output : Bytes) : Fallible ProvisioningError (ℕ × Bytes) := do
  let returned ← isReturnBreak body index
  if returned then return (index + 3, output)
  else do
    let fed ← isFeedBreak body index
    if fed then return (index + 2, output)
    else do
      rejectIf (body.length ≤ index + 2) (.mail "truncated quoted-printable body")
      let next ← byteAt body (index + 1)
      let high ← (hexValue next).mapError .error
      let third ← byteAt body (index + 2)
      let low ← (hexValue third).mapError .error
      return (index + 3, output ++ [high <<< 4 ||| low])

/-- One round of the loop. -/
def decodeStep (index : ℕ) (output : Bytes) : Fallible ProvisioningError (ℕ × Bytes) := do
  let byte ← byteAt body index
  if byte = 61 then decodeEscape body index output
  else return (index + 1, output ++ [byte])

/-- The loop of `decode_quoted_printable`, with a bound on its rounds. -/
def decodeFrom : ℕ → ℕ → Bytes → Option (Fallible ProvisioningError Bytes)
  | 0, _, _ => none
  | fuel + 1, index, output =>
    if index < body.length then
      match decodeStep body index output with
      | .error failure => some (.error failure)
      | .ok next => decodeFrom fuel next.1 next.2
    else some (.ok output)

end

/-! ### The loop and the bytes that are left -/

/-- The outcome of the decoder on the bytes that are left, with what is before. -/
def continued (output rest : Bytes) : Fallible ProvisioningError Bytes :=
  ((decodeQuotedPrintable rest).map (output ++ ·)).mapError .error

variable {before rest output : Bytes}

theorem byteAt_append (offset : ℕ) :
    byteAt (before ++ rest) (before.length + offset) = orThrow rest[offset]? .panic := by
  rw [byteAt, getElem?_append_right (Nat.le_add_right _ _), Nat.add_sub_cancel_left]

theorem map_cons_bind (outcome : Except ProvisioningError Bytes) (byte : UInt8) :
    (outcome >>= fun others ↦ pure (byte :: others)).map (output ++ ·) =
      outcome.map (output ++ [byte] ++ ·) := by
  cases outcome with
  | error failure => rfl
  | ok others => exact congrArg Except.ok (append_cons output byte others)

theorem continued_cons {byte : UInt8} (hbyte : byte ≠ 61) :
    continued output (byte :: rest) = continued (output ++ [byte]) rest := by
  unfold continued
  rw [decodeQuotedPrintable_cons hbyte, map_cons_bind]

/-- A round goes on with the bytes that it leaves, or fails as the decoder does. -/
theorem decodeStep_spec (hrest : rest ≠ []) :
    (∃ failure, decodeStep (before ++ rest) before.length output = .error (.error failure) ∧
      continued output rest = .error (.error failure)) ∨
    ∃ used left added, used ≠ [] ∧ rest = used ++ left ∧
      decodeStep (before ++ rest) before.length output =
        .ok (before.length + used.length, added) ∧ continued output rest = continued added left := by
  have hbyteAt (offset : ℕ) : byteAt (before ++ rest) (before.length + offset) =
      orThrow rest[offset]? .panic := byteAt_append offset
  have hlength (offset : ℕ) : before.length + offset < (before ++ rest).length ↔
      offset < rest.length := by
    rw [length_append]
    omega
  cases rest with
  | nil => exact absurd rfl hrest
  | cons byte tail =>
  have hfirst : byteAt (before ++ byte :: tail) before.length = .ok byte := hbyteAt 0
  rw [decodeStep, hfirst, ok_bind]
  by_cases hbyte : byte = 61
  · subst hbyte
    rw [if_pos rfl]
    simp only [decodeEscape, isReturnBreak, isFeedBreak, hlength, hbyteAt, ← not_lt]
    match tail with
    | [] => exact .inl ⟨_, rfl, rfl⟩
    | [next] =>
      by_cases hnext : next = 10
      · subst hnext
        exact .inr ⟨[61, 10], [], output, cons_ne_nil _ _, rfl, rfl, rfl⟩
      · refine .inl ⟨.mail "truncated quoted-printable body", ?_, ?_⟩
        · simp [orThrow, rejectIf, throwIf, hnext, bind, Except.bind, pure, Except.pure]
        · simp [continued, decodeQuotedPrintable, hnext, Except.map, Except.mapError]
    | next :: third :: left =>
      unfold continued
      rw [decodeQuotedPrintable, if_pos rfl]
      by_cases hreturn : next = 13 ∧ third = 10
      · obtain ⟨rfl, rfl⟩ := hreturn
        exact .inr ⟨[61, 13, 10], left, output, cons_ne_nil _ _, rfl, rfl, rfl⟩
      rw [if_neg hreturn]
      by_cases hnext : next = 10
      · subst hnext
        exact .inr ⟨[61, 10], third :: left, output, cons_ne_nil _ _, rfl, rfl, rfl⟩
      rw [if_neg hnext]
      have hnoreturn : (if next = 13 then (pure (third == 10) : Fallible ProvisioningError Bool)
          else pure false) = pure false := by
        by_cases hsame : next = 13
        · rw [if_pos hsame, beq_eq_false_iff_ne.mpr fun h ↦ hreturn ⟨hsame, h⟩]
        · rw [if_neg hsame]
      have hinside : 2 < (61 :: next :: third :: left).length := by simp
      simp only [hinside, Nat.lt_of_succ_lt hinside, if_true, getElem?_cons_succ,
        getElem?_cons_zero, orThrow, ok_bind, hnoreturn, beq_eq_false_iff_ne.mpr hnext]
      cases hhigh : hexValue next with
      | error failure => exact .inl ⟨failure, rfl, rfl⟩
      | ok high =>
        cases hlow : hexValue third with
        | error failure => exact .inl ⟨failure, rfl, rfl⟩
        | ok low =>
          refine .inr ⟨[61, next, third], left, output ++ [high <<< 4 ||| low], cons_ne_nil _ _,
            rfl, rfl, ?_⟩
          exact congrArg _ (map_cons_bind _ _)
  · rw [if_neg hbyte]
    exact .inr ⟨[byte], tail, output ++ [byte], cons_ne_nil _ _, rfl, rfl, continued_cons hbyte⟩

/-- Enough rounds give what the decoder gives on the bytes that are left. -/
theorem decodeFrom_eq {fuel : ℕ} (hfuel : rest.length < fuel) :
    decodeFrom (before ++ rest) fuel before.length output = some (continued output rest) := by
  induction fuel generalizing before rest output with
  | zero => exact absurd hfuel (Nat.not_lt_zero _)
  | succ fuel ih =>
    rw [decodeFrom]
    by_cases hrest : rest = []
    · subst hrest
      rw [if_neg (by rw [append_nil]; exact lt_irrefl _)]
      simp [continued, decodeQuotedPrintable, Except.map, Except.mapError]
    · have hpos : 0 < rest.length := length_pos_iff.mpr hrest
      rw [if_pos (by rw [length_append]; omega)]
      obtain ⟨failure, hstep, hfails⟩ | ⟨used, left, added, hused, rfl, hstep, hgoes⟩ :=
        decodeStep_spec hrest
      · rw [hstep, hfails]
      · have hshorter : 0 < used.length := length_pos_iff.mpr hused
        rw [length_append] at hfuel
        rw [hstep, hgoes, ← append_assoc, ← length_append]
        exact ih (by omega)

/-! ### What is decoded -/

/-- A quoted-printable encoding of bytes: a byte that is not `=` as it is, any byte as an escape,
and soft line breaks, which stand for nothing. -/
inductive QuotedPrintable : Bytes → Bytes → Prop
  | nil : QuotedPrintable [] []
  | literal {byte : UInt8} {bytes body : Bytes} (hbyte : byte ≠ 61)
      (hrest : QuotedPrintable bytes body) : QuotedPrintable (byte :: bytes) (byte :: body)
  | escaped {byte : UInt8} {high low : Char} {bytes body : Bytes}
      (hhigh : IsDigitOf (byte.toNat / 16) high) (hlow : IsDigitOf (byte.toNat % 16) low)
      (hrest : QuotedPrintable bytes body) :
      QuotedPrintable (byte :: bytes)
        (61 :: UInt8.ofNat high.toNat :: UInt8.ofNat low.toNat :: body)
  | softReturn {bytes body : Bytes} (hrest : QuotedPrintable bytes body) :
      QuotedPrintable bytes (61 :: 13 :: 10 :: body)
  | softFeed {bytes body : Bytes} (hrest : QuotedPrintable bytes body) :
      QuotedPrintable bytes (61 :: 10 :: body)

theorem decodeQuotedPrintable_feed (rest : Bytes) :
    decodeQuotedPrintable (61 :: 10 :: rest) = decodeQuotedPrintable rest := by
  cases rest with
  | nil => rfl
  | cons third rest => rfl

theorem QuotedPrintable.decodes {bytes body : Bytes} (h : QuotedPrintable bytes body) :
    decodeQuotedPrintable body = .ok bytes := by
  induction h with
  | nil => rfl
  | literal hbyte _ ih => rw [decodeQuotedPrintable_cons hbyte, ih]; rfl
  | escaped hhigh hlow _ ih => rw [decodeQuotedPrintable_escape hhigh hlow, ih]; rfl
  | softReturn _ ih => exact ih
  | softFeed _ ih => rw [decodeQuotedPrintable_feed, ih]

/-! ### Where it fails -/

/-- A hexadecimal digit in either case. -/
def IsHexByte (byte : UInt8) : Prop :=
  48 ≤ byte ∧ byte ≤ 57 ∨ 97 ≤ byte ∧ byte ≤ 102 ∨ 65 ≤ byte ∧ byte ≤ 70

/-- What may follow `=`: a line break or two hexadecimal digits. -/
inductive MayFollow : Bytes → Prop
  | carriageReturn (rest : Bytes) : MayFollow (13 :: 10 :: rest)
  | lineFeed (rest : Bytes) : MayFollow (10 :: rest)
  | digits {high low : UInt8} (rest : Bytes) (hhigh : IsHexByte high) (hlow : IsHexByte low) :
      MayFollow (high :: low :: rest)

/-- Some `=` is followed neither by a line break nor by two hexadecimal digits. -/
def HasBadEscape (body : Bytes) : Prop :=
  ∃ before after, body = before ++ 61 :: after ∧ ¬ MayFollow after

theorem isHexByte_iff {byte : UInt8} : IsHexByte byte ↔ ∃ value, hexValue byte = .ok value := by
  unfold IsHexByte hexValue
  split_ifs <;> simp [*]

theorem hasBadEscape_cons_iff {byte : UInt8} (hbyte : byte ≠ 61) :
    HasBadEscape (byte :: rest) ↔ HasBadEscape rest := by
  constructor
  · rintro ⟨before, after, hsplit, hbad⟩
    cases before with
    | nil => exact absurd (List.cons.inj hsplit).1 hbyte
    | cons first before => exact ⟨before, after, (List.cons.inj hsplit).2, hbad⟩
  · rintro ⟨before, after, rfl, hbad⟩
    exact ⟨byte :: before, after, rfl, hbad⟩

theorem hasBadEscape_escape_iff (hrest : MayFollow rest) :
    HasBadEscape (61 :: rest) ↔ HasBadEscape rest := by
  constructor
  · rintro ⟨before, after, hsplit, hbad⟩
    cases before with
    | nil => exact absurd ((List.cons.inj hsplit).2 ▸ hrest) hbad
    | cons first before => exact ⟨before, after, (List.cons.inj hsplit).2, hbad⟩
  · rintro ⟨before, after, rfl, hbad⟩
    exact ⟨61 :: before, after, rfl, hbad⟩

theorem ne_of_isHexByte {byte : UInt8} (h : IsHexByte byte) : byte ≠ 61 ∧ byte ≠ 13 ∧ byte ≠ 10 := by
  refine ⟨?_, ?_, ?_⟩
  all_goals
    rintro rfl
    exact absurd h (by unfold IsHexByte; decide)

theorem decodeQuotedPrintable_digits {high low : UInt8} (hhigh : IsHexByte high)
    (hlow : IsHexByte low) : ∃ byte, decodeQuotedPrintable (61 :: high :: low :: rest) =
      (decodeQuotedPrintable rest >>= fun others ↦ pure (byte :: others)) := by
  obtain ⟨-, hreturn, hfeed⟩ := ne_of_isHexByte hhigh
  obtain ⟨first, hfirst⟩ := isHexByte_iff.mp hhigh
  obtain ⟨second, hsecond⟩ := isHexByte_iff.mp hlow
  refine ⟨first <<< 4 ||| second, ?_⟩
  rw [decodeQuotedPrintable, if_pos rfl, if_neg fun h ↦ hreturn h.1, if_neg hfeed, hfirst, hsecond]
  rfl

theorem fails_of_not_mayFollow (h : ¬ MayFollow rest) :
    ∃ failure, decodeQuotedPrintable (61 :: rest) = .error failure := by
  match rest with
  | [] => exact ⟨_, rfl⟩
  | [next] =>
    have hfeed : next ≠ 10 := by
      rintro rfl
      exact h (.lineFeed _)
    exact ⟨_, by rw [decodeQuotedPrintable, if_pos rfl, if_neg hfeed]⟩
  | next :: third :: left =>
    have hfeed : next ≠ 10 := by
      rintro rfl
      exact h (.lineFeed _)
    have hreturn : ¬ (next = 13 ∧ third = 10) := by
      rintro ⟨rfl, rfl⟩
      exact h (.carriageReturn _)
    rw [decodeQuotedPrintable, if_pos rfl, if_neg hreturn, if_neg hfeed]
    cases hhigh : hexValue next with
    | error failure => exact ⟨failure, rfl⟩
    | ok high =>
      cases hlow : hexValue third with
      | error failure => exact ⟨failure, rfl⟩
      | ok low => exact absurd (.digits _ (isHexByte_iff.mpr ⟨_, hhigh⟩)
          (isHexByte_iff.mpr ⟨_, hlow⟩)) h

theorem fails_cons_iff (outcome : Except ProvisioningError Bytes) (byte : UInt8) :
    (∃ failure, (outcome >>= fun others ↦ pure (byte :: others)) = .error failure) ↔
      ∃ failure, outcome = .error failure := by
  cases outcome with
  | error failure => exact Iff.rfl
  | ok others => exact iff_of_false (by rintro ⟨_, ⟨⟩⟩) (by rintro ⟨_, ⟨⟩⟩)

/-- The decoder fails exactly when some `=` is followed neither by a line break nor by two digits. -/
theorem decodeQuotedPrintable_fails_iff (body : Bytes) :
    (∃ failure, decodeQuotedPrintable body = .error failure) ↔ HasBadEscape body := by
  induction hlength : body.length using Nat.strong_induction_on generalizing body with
  | _ length ih =>
    subst hlength
    cases body with
    | nil => exact iff_of_false (by rintro ⟨_, ⟨⟩⟩) (by rintro ⟨_ | ⟨_, _⟩, _, ⟨⟩, _⟩)
    | cons byte rest =>
      by_cases hbyte : byte = 61
      · subst hbyte
        by_cases hrest : MayFollow rest
        · rw [hasBadEscape_escape_iff hrest]
          cases hrest with
          | carriageReturn rest =>
            rw [hasBadEscape_cons_iff (by decide), hasBadEscape_cons_iff (by decide)]
            exact ih _ (by simp only [length_cons]; omega) rest rfl
          | lineFeed rest =>
            rw [hasBadEscape_cons_iff (by decide), decodeQuotedPrintable_feed]
            exact ih _ (by simp only [length_cons]; omega) rest rfl
          | digits rest hhigh hlow =>
            obtain ⟨byte, hdecode⟩ := decodeQuotedPrintable_digits hhigh hlow
            rw [hasBadEscape_cons_iff (ne_of_isHexByte hhigh).1,
              hasBadEscape_cons_iff (ne_of_isHexByte hlow).1, hdecode, fails_cons_iff]
            exact ih _ (by simp only [length_cons]; omega) rest rfl
        · exact iff_of_true (fails_of_not_mayFollow hrest) ⟨[], rest, rfl, hrest⟩
      · rw [hasBadEscape_cons_iff hbyte, decodeQuotedPrintable_cons hbyte, fails_cons_iff]
        exact ih _ (by simp only [length_cons]; omega) rest rfl

/-- **The quoted-printable decoder inverts every encoding, and fails only on a bad escape.** Its loop
ends after at most one round for each byte, on every byte string and without an access past the end.
It returns the bytes from each of their encodings, and fails exactly when some `=` is followed
neither by a line break nor by two hexadecimal digits. -/
theorem decode_quotedPrintable :
    (∀ bytes body, QuotedPrintable bytes body → ∀ fuel, body.length < fuel →
      decodeFrom body fuel 0 [] = some (.ok bytes)) ∧
    ∀ body, ∃ outcome : Except ProvisioningError Bytes,
      (∀ fuel, body.length < fuel → decodeFrom body fuel 0 [] = some (outcome.mapError .error)) ∧
      ((∃ failure, outcome = .error failure) ↔ HasBadEscape body) := by
  have hloop (body : Bytes) (fuel : ℕ) (hfuel : body.length < fuel) :
      decodeFrom body fuel 0 [] = some ((decodeQuotedPrintable body).mapError .error) := by
    have heq : decodeFrom ([] ++ body) fuel ([] : Bytes).length [] = some (continued [] body) :=
      decodeFrom_eq hfuel
    rw [nil_append, length_nil] at heq
    rw [heq, continued]
    cases decodeQuotedPrintable body with
    | error failure => rfl
    | ok bytes => rfl
  refine ⟨fun bytes body h fuel hfuel ↦ ?_, fun body ↦ ⟨decodeQuotedPrintable body, hloop body,
    decodeQuotedPrintable_fails_iff body⟩⟩
  rw [hloop body fuel hfuel, h.decodes]
  rfl

end GameLauncher.Provisioning
