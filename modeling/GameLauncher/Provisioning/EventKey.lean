import GameLauncher.Foundation.PrefixCode

/-!
# The idempotency keys of provisioning events

The manager names every event of a job by a key, and the store applies the events of one key once.
A key is a label, for most labels with the number of the attempt and for a mail with its message id;
some labels stand alone, and so name one event for all attempts. The labels are prefix-free, so a
key is determined by its text (`EventKey.text_injective`). `validateKey` is the check of the database;
a key with an attempt passes it (`validateKey_numbered`).
-/

set_option autoImplicit false

namespace GameLauncher.Provisioning

open Foundation Fallible List

/-! ### Errors -/

inductive ProvisioningError
  | configuration (message : Text)
  | notFound
  | invalidTransition (source event : Text)
  | conflict (message : Text)
  | security (message : Text)
  | mail (message : Text)
  | provider (message : Text)
  | secret (message : Text)
  deriving DecidableEq, Repr

/-! ### Keys -/

variable {attempt : ℕ}

inductive EventLabel
  | jobStart
  | operatorRetry
  | operatorCancel
  | provisioningExpiry
  | operatorComplete
  | missingProvisioner
  | provisionerStartFailed
  | registrationStarted
  | waitingForEmail
  | waitingForProvider
  | providerReady
  | candidateReady
  | needsOperator
  | provisionerFailedRetryable
  | provisionerFailedPermanent
  | mailReceived
  | missingEmailProvisioner
  | provisionerEmailFailed
  | validationStarted
  | validationFailed
  | validationPassed
  | enrollmentStarted
  | enrollmentFailed
  | enrolled
  deriving DecidableEq, Repr

def EventLabel.all : List EventLabel :=
  [.jobStart, .operatorRetry, .operatorCancel, .provisioningExpiry, .operatorComplete,
    .missingProvisioner, .provisionerStartFailed, .registrationStarted, .waitingForEmail,
    .waitingForProvider, .providerReady, .candidateReady, .needsOperator,
    .provisionerFailedRetryable, .provisionerFailedPermanent, .mailReceived,
    .missingEmailProvisioner, .provisionerEmailFailed, .validationStarted, .validationFailed,
    .validationPassed, .enrollmentStarted, .enrollmentFailed, .enrolled]

theorem EventLabel.mem_all (label : EventLabel) : label ∈ all := by
  cases label <;> decide

def EventLabel.text : EventLabel → Text
  | .jobStart => "job-start"
  | .operatorRetry => "operator-retry-"
  | .operatorCancel => "operator-cancel"
  | .provisioningExpiry => "provisioning-expiry"
  | .operatorComplete => "operator-complete"
  | .missingProvisioner => "missing-provisioner"
  | .provisionerStartFailed => "provisioner-start-failed-"
  | .registrationStarted => "registration-started-"
  | .waitingForEmail => "waiting-for-email-"
  | .waitingForProvider => "waiting-for-provider-"
  | .providerReady => "provider-ready-"
  | .candidateReady => "candidate-ready-"
  | .needsOperator => "needs-operator"
  | .provisionerFailedRetryable => "provisioner-failed-retryable"
  | .provisionerFailedPermanent => "provisioner-failed-permanent"
  | .mailReceived => "mail-received-"
  | .missingEmailProvisioner => "missing-email-provisioner"
  | .provisionerEmailFailed => "provisioner-email-failed"
  | .validationStarted => "validation-started-"
  | .validationFailed => "validation-failed-"
  | .validationPassed => "validation-passed-"
  | .enrollmentStarted => "enrollment-started-"
  | .enrollmentFailed => "enrollment-failed-"
  | .enrolled => "enrolled-"

theorem prefixFree_label : PrefixFree EventLabel.text := by
  have hall : ∀ first ∈ EventLabel.all, ∀ second ∈ EventLabel.all,
      List.isPrefixOf first.text second.text = true → first = second := by decide
  intro first second h
  exact hall first first.mem_all second second.mem_all (List.isPrefixOf_iff_prefix.mpr h)

structure EventKey where
  label : EventLabel
  payload : Text
  deriving DecidableEq, Repr

namespace EventKey

/-- The key of an event that is named once for a job. -/
def plain (label : EventLabel) : EventKey := ⟨label, []⟩

def numbered (label : EventLabel) (attempt : ℕ) : EventKey := ⟨label, decimal attempt⟩

def ofMail (messageId : Text) : EventKey := ⟨.mailReceived, messageId⟩

/-- The text under which the store keeps the key. -/
def text (key : EventKey) : Text := key.label.text ++ key.payload

theorem text_injective : Function.Injective text := by
  intro first second h
  obtain ⟨hlabel, hpayload⟩ := append_inj_of_prefixFree prefixFree_label h
  cases first
  cases second
  simp only [mk.injEq]
  exact ⟨hlabel, hpayload⟩

theorem text_eq_text {first second : EventKey} : first.text = second.text ↔ first = second :=
  text_injective.eq_iff

variable {first second : EventLabel}

@[simp] theorem numbered_eq_numbered {other : ℕ} :
    numbered first attempt = numbered second other ↔ first = second ∧ attempt = other := by
  simp only [numbered, mk.injEq, decimal_injective.eq_iff]

@[simp] theorem plain_eq_plain : plain first = plain second ↔ first = second := by
  simp [plain]

@[simp] theorem numbered_ne_plain : numbered first attempt ≠ plain second := by
  intro h
  have hpayload : decimal attempt = [] := congrArg payload h
  exact Nat.toDigits_ne_nil hpayload

end EventKey

/-! ### The check of the database -/

/-- `char::is_control`. -/
def isControl (c : Char) : Bool := c.toNat < 0x20 || (0x7f ≤ c.toNat && c.toNat < 0xa0)

def validateKey (value : Text) (field : String) : Except ProvisioningError Unit :=
  throwIf (value = [] ∨ 512 < (utf8 value).length ∨ value.any isControl = true)
    (.security ("invalid " ++ field.toList))

theorem visible_label (label : EventLabel) :
    ∀ c ∈ label.text, IsAscii c ∧ isControl c = false := by
  have hall : ∀ label ∈ EventLabel.all,
      label.text.all (fun c ↦ decide (IsAscii c ∧ isControl c = false)) = true :=
    forall_mem_of_all (by decide)
  exact forall_mem_of_all (hall label label.mem_all)

theorem length_label (label : EventLabel) : label.text ≠ [] ∧ label.text.length ≤ 28 := by
  have hall : ∀ label ∈ EventLabel.all, label.text ≠ [] ∧ label.text.length ≤ 28 := by
    decide
  exact hall label label.mem_all

theorem visible_decimal {number : ℕ} {c : Char} (h : c ∈ decimal number) :
    IsAscii c ∧ isControl c = false := by
  have hdigit := isDigit_of_mem_decimal h
  unfold Char.isDigit at hdigit
  simp only [Bool.and_eq_true, decide_eq_true_eq, UInt32.le_iff_toNat_le] at hdigit
  have hlow : 48 ≤ c.toNat := hdigit.1
  have hhigh : c.toNat ≤ 57 := hdigit.2
  refine ⟨show c.toNat < 0x80 by omega, ?_⟩
  unfold isControl
  simp only [Bool.or_eq_false_iff, Bool.and_eq_false_iff, decide_eq_false_iff_not]
  omega

theorem validateKey_numbered {label : EventLabel} (h : attempt < 10 ^ 10) (field : String) :
    validateKey (EventKey.numbered label attempt).text field = .ok () := by
  have hvisible : ∀ c ∈ (EventKey.numbered label attempt).text,
      IsAscii c ∧ isControl c = false := by
    intro c hc
    rcases mem_append.mp hc with hlabel | hnumber
    · exact visible_label label c hlabel
    · exact visible_decimal hnumber
  obtain ⟨hne, hlength⟩ := length_label label
  have hdecimal := length_decimal_le (by decide : 0 < 10) h
  have hsize : (label.text ++ decimal attempt).length ≤ 38 := by
    rw [length_append]
    omega
  unfold validateKey
  rw [throwIf_eq_ok, not_or, not_or]
  refine ⟨fun hnil ↦ hne (append_eq_nil_iff.mp hnil).1, ?_, ?_⟩
  · rw [utf8_of_ascii fun c hc ↦ (hvisible c hc).1, length_map]
    exact not_lt.mpr (hsize.trans (by decide))
  · rw [any_eq_true]
    rintro ⟨c, hc, hcontrol⟩
    rw [(hvisible c hc).2] at hcontrol
    exact Bool.false_ne_true hcontrol

theorem validateKey_plain {label : EventLabel} (field : String) :
    validateKey (EventKey.plain label).text field = .ok () := by
  obtain ⟨hne, hlength⟩ := length_label label
  unfold validateKey
  rw [throwIf_eq_ok, not_or, not_or]
  have htext : (EventKey.plain label).text = label.text := append_nil _
  rw [htext]
  refine ⟨hne, ?_, ?_⟩
  · rw [utf8_of_ascii fun c hc ↦ (visible_label label c hc).1, length_map]
    omega
  · rw [any_eq_true]
    rintro ⟨c, hc, hcontrol⟩
    rw [(visible_label label c hc).2] at hcontrol
    exact Bool.false_ne_true hcontrol

end GameLauncher.Provisioning
