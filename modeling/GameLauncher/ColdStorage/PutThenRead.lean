import GameLauncher.ColdStorage.MegaPool

/-!
# What a put leaves for a read

`Leads` is a triple on the objects and the files of the pool's world, in which the reserved
temporary space is as it was before; its second parameter says that no call fails. A put replaces no
object that is already what it puts (`OnlyReplaces`), and when it succeeds an account holds the
object (`HeldBy`), which every later put keeps (`HeldBy.keep`). So what was put is read back, and
the temporary space is given back by every call (`put_then_read`).
-/

set_option autoImplicit false

namespace GameLauncher.ColdStorage

open Foundation Fallible Process List Function
open MegaColdStoragePool

/-- No call fails from now on. -/
def Quiet (env : Environment) (clock : ℕ) : Prop :=
  ∀ later, clock ≤ later → (env later).failure = none

/-- The reserved space, and whether calls fail. -/
def Settled (env : Environment) (quiet : Prop) (reserved : ℕ) (world : ColdWorld) : Prop :=
  world.tempReserved = reserved ∧ (quiet → Quiet env world.clock)

/-- A triple on the objects and the files. -/
def Leads {α : Type} (env : Environment) (quiet : Prop) (reserved : ℕ)
    (before : Objects → Files → Prop) (process : ColdTask α) (after : α → Objects → Files → Prop)
    (fails : Objects → Files → Prop) : Prop :=
  Ensures (fun world ↦ Settled env quiet reserved world ∧ before world.objects world.files) process
    (fun _ ↦ True)
    (fun value world ↦ Settled env quiet reserved world ∧ after value world.objects world.files)
    fun _ world ↦ Settled env quiet reserved world ∧ fails world.objects world.files

variable {world : ColdWorld} {kept : Files → Prop} {path : Text}

section Rules

variable {α β : Type} {env : Environment} {quiet : Prop} {reserved : ℕ}
  {before : Objects → Files → Prop} {fails : Objects → Files → Prop}

theorem Settled.tick (h : Settled env quiet reserved world) :
    Settled env quiet reserved { world with clock := world.clock + 1 } :=
  ⟨h.1, fun hquiet later hle ↦ h.2 hquiet later ((Nat.le_succ _).trans hle)⟩

theorem Settled.not_quiet {failure : StorageError} (h : Settled env quiet reserved world)
    (hfailure : (env world.clock).failure = some failure) : ¬ quiet := by
  intro hquiet
  rw [h.2 hquiet world.clock (le_refl _)] at hfailure
  cases hfailure

variable {after : α → Objects → Files → Prop}

theorem leads_pure {value : α}
    (h : ∀ objects files, before objects files → after value objects files) :
    Leads env quiet reserved before (pure value) after fails :=
  ensures_pure fun _ hworld ↦ ⟨hworld.1, h _ _ hworld.2⟩

theorem leads_bind {first : ColdTask α} {next : α → ColdTask β}
    {after : β → Objects → Files → Prop} (middle : α → Objects → Files → Prop)
    (hfirst : Leads env quiet reserved before first middle fails)
    (hnext : ∀ value, Leads env quiet reserved (middle value) (next value) after fails) :
    Leads env quiet reserved before (first >>= next) after fails :=
  ensures_bind _ hfirst hnext

variable {process : ColdTask α}

theorem Leads.mono {after' : α → Objects → Files → Prop} {before' fails' : Objects → Files → Prop}
    (h : Leads env quiet reserved before process after fails)
    (hbefore : ∀ objects files, before' objects files → before objects files)
    (hafter : ∀ value objects files, after value objects files → after' value objects files)
    (hfails : ∀ objects files, fails objects files → fails' objects files) :
    Leads env quiet reserved before' process after' fails' :=
  Ensures.mono h (fun _ hworld ↦ ⟨hworld.1, hbefore _ _ hworld.2⟩) (fun _ h ↦ h)
    (fun _ _ hworld ↦ ⟨hworld.1, hafter _ _ _ hworld.2⟩)
    fun _ _ hworld ↦ ⟨hworld.1, hfails _ _ hworld.2⟩

theorem leads_assume {fact : Prop} (h : fact → Leads env quiet reserved before process after fails)
    :
    Leads env quiet reserved (fun objects files ↦ fact ∧ before objects files) process after
      fails :=
  fun world hworld ↦ h hworld.2.1 world ⟨hworld.1, hworld.2.2⟩

theorem leads_of_objects {given : Objects → Prop}
    (h : ∀ objects, given objects → Leads env quiet reserved
      (fun found files ↦ found = objects ∧ kept files) process after fails) :
    Leads env quiet reserved (fun found files ↦ given found ∧ kept files) process after fails :=
  fun world hworld ↦ h world.objects hworld.2.1 world ⟨hworld.1, rfl, hworld.2.2⟩

theorem leads_lift {outcome : Except StorageError α}
    (hok : ∀ value objects files, outcome = .ok value → before objects files →
      after value objects files)
    (herror : ∀ failure objects files, outcome = .error failure → before objects files →
      fails objects files) : Leads env quiet reserved before (lift outcome) after fails :=
  ensures_query (fun _ value hworld hvalue ↦ ⟨hworld.1, hok value _ _ hvalue hworld.2⟩)
    fun _ failure hworld hfailure ↦ ⟨hworld.1, herror failure _ _ hfailure hworld.2⟩

theorem leads_attempt {afterFails : Objects → Files → Prop}
    (h : Leads env quiet reserved before process after afterFails) :
    Leads env quiet reserved before (attempt process)
      (fun result objects files ↦ (∀ value, result = .ok value → after value objects files) ∧
        ∀ failure, result = .error failure → afterFails objects files) fails := by
  refine Ensures.mono (ensures_attempt h) (fun _ h ↦ h) (fun _ h ↦ h) (fun result world hworld ↦ ?_)
    fun _ _ hworld ↦ hworld
  cases result with
  | ok value =>
    obtain ⟨hsettled, hafter⟩ := hworld.1 value rfl
    refine ⟨hsettled, fun other hother ↦ Except.ok.inj hother ▸ hafter, fun failure hfailure ↦ ?_⟩
    cases hfailure
  | error failure =>
    obtain ⟨hsettled, hafter⟩ := hworld.2 failure rfl
    refine ⟨hsettled, fun other hother ↦ ?_, fun other hother ↦ hafter⟩
    cases hother

theorem leads_ignored {after : Objects → Files → Prop}
    (h : Leads env quiet reserved before process (fun _ ↦ after) after) :
    Leads env quiet reserved before (attempt process) (fun _ ↦ after) fails := by
  refine Leads.mono (leads_attempt h) (fun _ _ h ↦ h) (fun result objects files hresult ↦ ?_)
    fun _ _ h ↦ h
  cases result with
  | ok value => exact hresult.1 value rfl
  | error failure => exact hresult.2 failure rfl

theorem leads_call {done : Turn → ColdWorld → Except StorageError α × ColdWorld}
    {undone : Turn → ColdWorld → ColdWorld}
    (hsettled : ∀ turn world, (done turn world).2.tempReserved = world.tempReserved ∧
      (done turn world).2.clock = world.clock)
    (hunsettled : ∀ turn world, (undone turn world).tempReserved = world.tempReserved ∧
      (undone turn world).clock = world.clock)
    (hok : ∀ turn world value, before world.objects world.files → (done turn world).1 = .ok value →
      after value (done turn world).2.objects (done turn world).2.files)
    (herror : ∀ turn world failure, before world.objects world.files →
      (done turn world).1 = .error failure →
      fails (done turn world).2.objects (done turn world).2.files)
    (hundone : ¬ quiet → ∀ turn world, before world.objects world.files →
      fails (undone turn world).objects (undone turn world).files) :
    Leads env quiet reserved before (call env done undone) after fails := by
  have hkeeps : ∀ {world other : ColdWorld}, Settled env quiet reserved world →
      other.tempReserved = world.tempReserved ∧ other.clock = world.clock + 1 →
      Settled env quiet reserved other := by
    intro world other h hsame
    refine ⟨hsame.1.trans h.1, fun hquiet ↦ ?_⟩
    rw [hsame.2]
    exact h.tick.2 hquiet
  rintro world ⟨hworld, hbefore⟩
  have hdone := hsettled (env world.clock) { world with clock := world.clock + 1 }
  have hfailed := hunsettled (env world.clock) { world with clock := world.clock + 1 }
  refine ⟨fun _ _ ↦ trivial, ?_⟩
  unfold call Process.step
  dsimp only
  cases hfailure : (env world.clock).failure with
  | some failure =>
    refine ⟨fun value hvalue ↦ ?_, fun other _ ↦ ⟨hkeeps hworld hfailed, ?_⟩⟩
    · cases hvalue
    · exact hundone (hworld.not_quiet hfailure) _ { world with clock := world.clock + 1 } hbefore
  | none =>
    exact ⟨fun value hvalue ↦ ⟨hkeeps hworld hdone,
        hok _ { world with clock := world.clock + 1 } value hbefore hvalue⟩,
      fun failure hfailure ↦ ⟨hkeeps hworld hdone,
        herror _ { world with clock := world.clock + 1 } failure hbefore hfailure⟩⟩

theorem leads_ask {answer : Turn → ColdWorld → Except StorageError α}
    (hok : ∀ turn world value, before world.objects world.files →
      answer turn world = .ok value → after value world.objects world.files)
    (herror : ∀ turn world failure, before world.objects world.files →
      answer turn world = .error failure → fails world.objects world.files)
    (hfails : ¬ quiet → ∀ objects files, before objects files → fails objects files) :
    Leads env quiet reserved before (ask env answer) after fails :=
  leads_call (fun _ _ ↦ ⟨rfl, rfl⟩) (fun _ _ ↦ ⟨rfl, rfl⟩) hok herror
    fun hquiet _ _ h ↦ hfails hquiet _ _ h

theorem leads_writesFile {value : ColdWorld → Except StorageError (Option Bytes)}
    {after : Objects → Files → Prop}
    (hok : ∀ world content, before world.objects world.files → value world = .ok content →
      after world.objects (Function.update world.files path content))
    (herror : ∀ world failure, before world.objects world.files → value world = .error failure →
      fails world.objects world.files)
    (hfails : ¬ quiet → ∀ objects files content, before objects files →
      fails objects (Function.update files path content)) :
    Leads env quiet reserved before (writesFile env path value) (fun _ ↦ after) fails := by
  refine leads_call (fun turn world ↦ ?_) (fun _ _ ↦ ⟨rfl, rfl⟩) (fun turn world _ h hvalue ↦ ?_)
    (fun turn world failure h hvalue ↦ ?_) fun hquiet turn world h ↦ hfails hquiet _ _ _ h
  · cases value world <;> exact ⟨rfl, rfl⟩
  · cases hcontent : value world with
    | ok content => exact hok world content h hcontent
    | error failure => simp only [hcontent] at hvalue; cases hvalue
  · cases hcontent : value world with
    | ok content => simp only [hcontent] at hvalue; cases hvalue
    | error failure => exact herror world failure h hcontent

theorem leads_writesObject {account : MegaAccount}
    {value : ColdWorld → Except StorageError (Option Bytes)} {after : Objects → Files → Prop}
    (hok : ∀ world content, before world.objects world.files → value world = .ok content →
      after (world.objects.put account.store path content) world.files)
    (herror : ∀ world failure, before world.objects world.files → value world = .error failure →
      fails world.objects world.files)
    (hfails : ¬ quiet → ∀ objects files content, before objects files →
      fails (objects.put account.store path content) files) :
    Leads env quiet reserved before (writesObject env account path value) (fun _ ↦ after)
      fails := by
  refine leads_call (fun turn world ↦ ?_) (fun _ _ ↦ ⟨rfl, rfl⟩) (fun turn world _ h hvalue ↦ ?_)
    (fun turn world failure h hvalue ↦ ?_) fun hquiet turn world h ↦ hfails hquiet _ _ _ h
  · cases value world <;> exact ⟨rfl, rfl⟩
  · cases hcontent : value world with
    | ok content => exact hok world content h hcontent
    | error failure => simp only [hcontent] at hvalue; cases hvalue
  · cases hcontent : value world with
    | ok content => simp only [hcontent] at hvalue; cases hvalue
    | error failure => exact herror world failure h hcontent

theorem leads_removeFile {after : Objects → Files → Prop}
    (h : ∀ objects files content, before objects files →
      after objects (Function.update files path content))
    (hsame : ∀ objects files, before objects files → after objects files) :
    Leads env quiet reserved before (removeFile env path) (fun _ ↦ after) fails := by
  have hremove : Leads env quiet reserved before (writesFile env path fun _ ↦ .ok none)
      (fun _ ↦ after) after :=
    leads_writesFile (fun _ content hbefore _ ↦ h _ _ content hbefore)
      (fun _ _ hbefore _ ↦ hsame _ _ hbefore) fun _ _ _ content hbefore ↦ h _ _ content hbefore
  exact leads_bind _ (leads_ignored hremove) fun _ ↦ leads_pure fun _ _ hafter ↦ hafter

theorem leads_reserveTemp {pool : MegaColdStoragePool} {encodedHash : Text} {suffix : String}
    {bytes : ℕ} {body : Text → ColdTask α}
    (hbody : ∀ sequence, Leads env quiet (reserved + bytes) before
      (body (temporaryPath pool.options.tempDir encodedHash sequence suffix)) after fails)
    (hfull : ¬ (quiet ∧ bytes ≤ pool.options.tempSpaceBytes - reserved) →
      ∀ objects files, before objects files → fails objects files) :
    Leads env quiet reserved before (pool.reserveTemp env encodedHash suffix bytes body) after
      fails := by
  have hrelease : ∀ {result : Objects → Files → Prop}, Ensures
      (fun world ↦ Settled env quiet (reserved + bytes) world ∧ result world.objects world.files)
      (releaseBytes bytes) (fun _ ↦ True)
      (fun _ world ↦ Settled env quiet reserved world ∧ result world.objects world.files)
      fun _ _ ↦ False := by
    intro result
    refine ensures_step (fun _ _ ↦ trivial) (fun world value h _ ↦ ?_) fun _ _ _ h ↦ by cases h
    refine ⟨⟨?_, h.1.2⟩, h.2⟩
    show world.tempReserved - bytes = reserved
    rw [h.1.1, Nat.add_sub_cancel]
  refine ensures_bind (fun _ world ↦ Settled env quiet (reserved + bytes) world ∧
    before world.objects world.files) (ensures_step (fun _ _ ↦ trivial) ?_ ?_) fun _ ↦
      ensures_tryFinally _ _ ?_ (fun _ ↦ hrelease) fun _ ↦ hrelease
  · rintro world value ⟨⟨hreserved, hquiet⟩, hbefore⟩ hvalue
    dsimp only at hvalue ⊢
    split_ifs with hless
    · rw [if_pos hless] at hvalue
      cases hvalue
    · exact ⟨⟨congrArg (· + bytes) hreserved, hquiet⟩, hbefore⟩
  · rintro world failure ⟨hsettled, hbefore⟩ hfailure
    dsimp only at hfailure ⊢
    split_ifs with hless
    · refine ⟨hsettled, hfull (fun hroom ↦ ?_) _ _ hbefore⟩
      rw [hsettled.1] at hless
      exact absurd hless (not_lt.mpr hroom.2)
    · rw [if_neg hless] at hfailure
      cases hfailure
  · refine leads_bind (fun _ ↦ before) (leads_ask (fun _ _ _ h _ ↦ h) (fun _ _ _ _ h ↦ by cases h)
      fun hquiet ↦ hfull fun h ↦ hquiet h.1) fun _ ↦ ?_
    refine ensures_bind (fun _ world ↦ Settled env quiet (reserved + bytes) world ∧
      before world.objects world.files) (ensures_step (fun _ _ ↦ trivial) ?_ ?_) hbody
    · exact fun world value h _ ↦ h
    · exact fun _ _ _ h ↦ by cases h

theorem leads_tryFinally_removeFile {body : ColdTask α}
    (hbody : Leads env quiet reserved before body after fails)
    (hafter : ∀ value objects files content, after value objects files →
      after value objects (Function.update files path content))
    (hfails : ∀ objects files content, fails objects files →
      fails objects (Function.update files path content)) :
    Leads env quiet reserved before (Process.tryFinally body (removeFile env path)) after
      fails := by
  have hremove : ∀ {result : Objects → Files → Prop},
      (∀ objects files content, result objects files →
        result objects (Function.update files path content)) →
      Ensures (fun world ↦ Settled env quiet reserved world ∧ result world.objects world.files)
        (removeFile env path) (fun _ ↦ True)
        (fun _ world ↦ Settled env quiet reserved world ∧ result world.objects world.files)
        fun _ _ ↦ False := by
    intro result hresult
    have hleads : Leads env quiet reserved result (removeFile env path) (fun _ ↦ result)
        fun _ _ ↦ False := leads_removeFile hresult fun _ _ h ↦ h
    exact Ensures.mono hleads (fun _ h ↦ h) (fun _ h ↦ h) (fun _ _ h ↦ h) fun _ _ h ↦ h.2
  exact ensures_tryFinally _ _ hbody (fun value ↦ hremove (hafter value)) fun _ ↦ hremove hfails

theorem leads_downloaded {account : MegaAccount} {temporary : Text}
    {view : Bytes → Except StorageError α} {objects : Objects}
    (hkept : ∀ files content, kept files → kept (Function.update files temporary content)) :
    Leads env quiet reserved (fun found files ↦ found = objects ∧ kept files)
      (downloaded env account path temporary view)
      (fun value found files ↦ (∃ bytes, objects account.store path = some bytes ∧
        view bytes = .ok value) ∧ found = objects ∧ kept files)
      fun found files ↦ (quiet → ∀ bytes, objects account.store path = some bytes →
        ∃ failure, view bytes = .error failure) ∧ found = objects ∧ kept files := by
  refine leads_tryFinally_removeFile ?_
    (fun _ _ _ content h ↦ ⟨h.1, h.2.1, hkept _ content h.2.2⟩)
    fun _ _ content h ↦ ⟨h.1, h.2.1, hkept _ content h.2.2⟩
  refine leads_bind (fun _ found files ↦ (∃ bytes, objects account.store path = some bytes ∧
    files temporary = some bytes) ∧ found = objects ∧ kept files) (leads_writesFile ?_ ?_ ?_)
    fun _ ↦ leads_bind (fun bytes found files ↦ objects account.store path = some bytes ∧
      found = objects ∧ kept files) (leads_ask ?_ ?_ ?_) fun bytes ↦ leads_lift ?_ ?_
  · rintro world content ⟨hobjects, hfiles⟩ hcontent
    obtain ⟨bytes, hbytes, hpure⟩ := bind_eq_ok.mp hcontent
    refine ⟨⟨bytes, ?_, ?_⟩, hobjects, hkept _ _ hfiles⟩
    · rw [← hobjects]
      exact orThrow_eq_ok.mp hbytes
    · rw [update_self]
      exact (pure_eq_ok.mp hpure).symm
  · rintro world failure ⟨hobjects, hfiles⟩ hfailure
    refine ⟨fun _ bytes hbytes ↦ ?_, hobjects, hfiles⟩
    rw [hobjects, hbytes] at hfailure
    cases hfailure
  · rintro hquiet found files content ⟨hobjects, hfiles⟩
    exact ⟨fun h ↦ absurd h hquiet, hobjects, hkept _ _ hfiles⟩
  · rintro _ world value ⟨⟨bytes, hbytes, hfile⟩, hsame⟩ hvalue
    rw [hfile] at hvalue
    obtain rfl : bytes = value := Except.ok.inj hvalue
    exact ⟨hbytes, hsame⟩
  · rintro _ world failure ⟨⟨bytes, hbytes, hfile⟩, hsame⟩ hfailure
    rw [hfile] at hfailure
    cases hfailure
  · rintro hquiet found files ⟨-, hsame⟩
    exact ⟨fun h ↦ absurd h hquiet, hsame⟩
  · rintro value found files hvalue ⟨hbytes, hsame⟩
    exact ⟨⟨bytes, hbytes, hvalue⟩, hsame⟩
  · rintro failure found files hfailure ⟨hbytes, hsame⟩
    refine ⟨fun _ other hother ↦ ⟨failure, ?_⟩, hsame⟩
    rw [hbytes, Option.some.injEq] at hother
    rw [← hother]
    exact hfailure

end Rules

/-! ### What an account holds -/

section Verification

variable {hash : Bytes → Digest} {env : Environment} {pool : MegaColdStoragePool} {quiet : Prop}
  {reserved : ℕ} {encodedHash : Text} {bytes : Bytes} {pack : Bool}

theorem verifyBytes_eq_ok {u : Unit} :
    verifyBytes hash encodedHash bytes pack = .ok u ↔ (hash bytes).hex = encodedHash := by
  have hcheck : verifyEncodedBytes hash encodedHash bytes = .ok u ↔
      (hash bytes).hex = encodedHash := by
    rw [verifyEncodedBytes, throwIf_eq_ok, not_not]
  unfold verifyBytes verifyPackBytes
  split_ifs
  · exact hcheck
  · exact hcheck

theorem temporaryPath_ne {tempDir other : Text} {sequence number : ℕ} :
    temporaryPath tempDir encodedHash sequence "verify" ≠
      temporaryPath tempDir other number "upload" := by
  intro h
  have hsuffix := append_inj_right' (append_cancel_right h) (by decide)
  exact absurd hsuffix (by decide)

/-- What `verify_existing` tells about the object: when it holds, there is one with the hash, and
when it does not, the object is not this one. -/
theorem leads_verifyExisting {account : MegaAccount} {objects : Objects}
    (hverify : pool.options.verifyExisting = true) (hhash : (hash bytes).hex = encodedHash)
    (hkept : ∀ sequence files content, kept files → kept (Function.update files
      (temporaryPath pool.options.tempDir encodedHash sequence "verify") content)) :
    Leads env quiet reserved (fun found files ↦ found = objects ∧ kept files)
      (pool.verifyExisting hash env account path encodedHash bytes.length pack)
      (fun value found files ↦ (value = true → ∃ content,
          objects account.store path = some content ∧ (hash content).hex = encodedHash) ∧
        (value = false → objects account.store path ≠ some bytes) ∧ found = objects ∧ kept files)
      fun found files ↦ found = objects ∧ kept files := by
  refine leads_bind (fun size found files ↦ size = (objects account.store path).map List.length ∧
    found = objects ∧ kept files) (leads_ask ?_ ?_ fun _ _ _ h ↦ h) fun size ↦ leads_assume ?_
  · rintro _ world value ⟨hobjects, hfiles⟩ hvalue
    rw [hobjects] at hvalue
    exact ⟨(Except.ok.inj hvalue).symm, hobjects, hfiles⟩
  · exact fun _ _ _ _ h ↦ by cases h
  · rintro rfl
    cases hfound : objects account.store path with
    | none =>
      refine leads_pure fun found files hsame ↦ ⟨fun h ↦ ?_, fun _ h ↦ ?_, hsame⟩
      · cases h
      · cases h
    | some content =>
      dsimp only [Option.map_some]
      split_ifs with hsize
      · refine leads_pure fun found files hsame ↦ ⟨fun h ↦ ?_, fun _ hcontent ↦ ?_, hsame⟩
        · rw [hverify] at h
          simp at h
        · have hlength := congrArg List.length (Option.some.inj hcontent)
          rcases hsize with hsize | hdisabled
          · exact hsize hlength
          · rw [hverify] at hdisabled
            cases hdisabled
      · refine leads_reserveTemp (fun sequence ↦ Leads.mono (leads_downloaded (hkept sequence))
          (fun _ _ h ↦ h) ?_ fun _ _ h ↦ h.2) fun _ _ _ h ↦ h
        rintro value found files ⟨⟨other, hother, hvalue⟩, hsame⟩
        rw [hfound, Option.some.injEq] at hother
        rw [← hother, Except.ok.injEq] at hvalue
        refine ⟨fun h ↦ ⟨content, rfl, ?_⟩, fun h hcontent ↦ ?_, hsame⟩
        · cases hcheck : verifyBytes hash encodedHash content pack with
          | ok value => exact verifyBytes_eq_ok.mp hcheck
          | error failure =>
            rw [hcheck, h] at hvalue
            cases hvalue
        · have hcheck : verifyBytes hash encodedHash bytes pack = .ok () :=
            verifyBytes_eq_ok.mpr hhash
          rw [Option.some.inj hcontent, hcheck, h] at hvalue
          cases hvalue

end Verification

/-! ### A put -/

variable {found : Objects}

section Put

variable {hash : Bytes → Digest} {env : Environment} {pool : MegaColdStoragePool} {quiet : Prop}
  {reserved : ℕ} {encodedHash temporary : Text} {bytes : Bytes} {pack : Bool}

/-- A put changes an object only at its own path in an account, and only when the object is another
one. -/
def OnlyReplaces (accounts : List MegaAccount) (encodedHash : Text) (bytes : Bytes) (pack : Bool)
    (objects found : Objects) : Prop :=
  ∀ store path, found store path = objects store path ∨ objects store path ≠ some bytes ∧
    ∃ account ∈ accounts, store = account.store ∧ path = remotePath account encodedHash pack

variable {accounts : List MegaAccount}

theorem OnlyReplaces.refl {objects : Objects} :
    OnlyReplaces accounts encodedHash bytes pack objects objects := fun _ _ ↦ .inl rfl

theorem OnlyReplaces.trans {objects later : Objects}
    (h : OnlyReplaces accounts encodedHash bytes pack objects found)
    (hlater : OnlyReplaces accounts encodedHash bytes pack found later) :
    OnlyReplaces accounts encodedHash bytes pack objects later := by
  intro store path
  rcases h store path with hsame | hchanged
  · rw [← hsame]
    exact hlater store path
  · exact .inr hchanged

theorem OnlyReplaces.put {objects : Objects} {account : MegaAccount} (hmem : account ∈ accounts)
    (h : OnlyReplaces accounts encodedHash bytes pack objects found)
    (hother : objects account.store (remotePath account encodedHash pack) ≠ some bytes)
    (content : Option Bytes) :
    OnlyReplaces accounts encodedHash bytes pack objects
      (found.put account.store (remotePath account encodedHash pack) content) := by
  intro store path
  by_cases hstore : store = account.store
  · by_cases hpath : path = remotePath account encodedHash pack
    · rw [hstore, hpath]
      exact .inr ⟨hother, account, hmem, rfl, rfl⟩
    · rw [Objects.put, hstore, update_self, update_of_ne hpath]
      exact h account.store path
  · rw [Objects.put, update_of_ne hstore]
    exact h store path

theorem Objects.put_self {objects : Objects} {store : ℕ} {content : Option Bytes} :
    objects.put store path content store path = content := by
  rw [Objects.put, update_self, update_self]

def HeldBy (hash : Bytes → Digest) (accounts : List MegaAccount) (encodedHash : Text) (pack : Bool)
    (objects : Objects) : Prop :=
  ∃ account ∈ accounts, ∃ content,
    objects account.store (remotePath account encodedHash pack) = some content ∧
      (hash content).hex = encodedHash

/-- A put that has replaced other objects at most, and has its bytes in the temporary file. -/
def Uploading (accounts : List MegaAccount) (encodedHash : Text) (bytes : Bytes) (pack : Bool)
    (temporary : Text) (objects found : Objects) (files : Files) : Prop :=
  OnlyReplaces accounts encodedHash bytes pack objects found ∧ files temporary = some bytes

/-- What the part of a put at one account leaves: a held object when it is done, and otherwise the
upload to try at the next account. -/
def PutLeaves (hash : Bytes → Digest) (accounts : List MegaAccount) (encodedHash : Text)
    (bytes : Bytes) (pack : Bool) (temporary : Text) (objects : Objects)
    (progress : Option PutProgress) (found : Objects) (files : Files) : Prop :=
  OnlyReplaces accounts encodedHash bytes pack objects found ∧
    (progress = none → HeldBy hash accounts encodedHash pack found) ∧
    (progress ≠ none → files temporary = some bytes)

section Account

variable {account : MegaAccount} {objects : Objects}

variable {progress : PutProgress}

theorem Uploading.putLeaves {files : Files}
    (h : Uploading accounts encodedHash bytes pack temporary objects found files) :
    PutLeaves hash accounts encodedHash bytes pack temporary objects (some progress) found files :=
  ⟨h.1, fun hnone ↦ absurd hnone (Option.some_ne_none _), fun _ ↦ h.2⟩

variable {fails : Objects → Files → Prop}

theorem leads_next :
    Leads env quiet reserved
      (Uploading pool.accounts encodedHash bytes pack temporary objects)
      (pure (some progress))
      (PutLeaves hash pool.accounts encodedHash bytes pack temporary objects) fails :=
  leads_pure fun _ _ h ↦ h.putLeaves

theorem leads_done {before : Objects → Files → Prop} (h : ∀ found files, before found files →
      OnlyReplaces pool.accounts encodedHash bytes pack objects found ∧
        HeldBy hash pool.accounts encodedHash pack found) :
    Leads env quiet reserved before
      (do
        removeFile env temporary
        pure none)
      (PutLeaves hash pool.accounts encodedHash bytes pack temporary objects) fails := by
  refine leads_bind (fun _ found _ ↦
    OnlyReplaces pool.accounts encodedHash bytes pack objects found ∧
      HeldBy hash pool.accounts encodedHash pack found)
    (leads_removeFile (fun _ _ _ hbefore ↦ h _ _ hbefore) fun _ _ hbefore ↦ h _ _ hbefore)
    fun _ ↦ ?_
  exact leads_pure fun _ _ hdone ↦ ⟨hdone.1, fun _ ↦ hdone.2, fun hnone ↦ absurd rfl hnone⟩

theorem leads_uploadAndCommit (hmem : account ∈ pool.accounts)
    (hother : objects account.store (remotePath account encodedHash pack) ≠ some bytes) :
    Leads env quiet reserved (Uploading pool.accounts encodedHash bytes pack temporary objects)
      (uploadAndCommit env account (remotePath account encodedHash pack) temporary bytes.length)
      (fun _ found files ↦ Uploading pool.accounts encodedHash bytes pack temporary objects found
        files ∧ found account.store (remotePath account encodedHash pack) = some bytes)
      (Uploading pool.accounts encodedHash bytes pack temporary objects) := by
  have hask {α : Type} {answer : Turn → ColdWorld → Except StorageError α} :
      Leads env quiet reserved
        (fun found files ↦ Uploading pool.accounts encodedHash bytes pack temporary objects found
          files ∧ found account.store (remotePath account encodedHash pack) = some bytes)
        (ask env answer)
        (fun _ found files ↦ Uploading pool.accounts encodedHash bytes pack temporary objects found
          files ∧ found account.store (remotePath account encodedHash pack) = some bytes)
        (Uploading pool.accounts encodedHash bytes pack temporary objects) :=
    leads_ask (fun _ _ _ h _ ↦ h) (fun _ _ _ h _ ↦ h.1) fun _ _ _ h ↦ h.1
  refine leads_bind _ (leads_writesObject ?_ ?_ ?_) fun _ ↦ leads_bind _ hask fun size ↦
    leads_bind _ (leads_lift (fun _ _ _ _ h ↦ h) fun _ _ _ _ h ↦ h.1) fun _ ↦ hask
  · rintro world content ⟨hreplaces, hfile⟩ hcontent
    obtain ⟨uploaded, huploaded, hpure⟩ := bind_eq_ok.mp hcontent
    rw [hfile] at huploaded
    obtain rfl : bytes = uploaded := Except.ok.inj huploaded
    obtain rfl : some bytes = content := pure_eq_ok.mp hpure
    exact ⟨⟨hreplaces.put hmem hother _, hfile⟩, Objects.put_self⟩
  · exact fun _ _ h _ ↦ h
  · exact fun _ _ _ content h ↦ ⟨h.1.put hmem hother content, h.2⟩

theorem leads_uploadReserved (hmem : account ∈ pool.accounts)
    (hhash : (hash bytes).hex = encodedHash)
    (hother : objects account.store (remotePath account encodedHash pack) ≠ some bytes) :
    Leads env quiet reserved (Uploading pool.accounts encodedHash bytes pack temporary objects)
      (uploadReserved env account (remotePath account encodedHash pack) temporary bytes.length
        progress)
      (PutLeaves hash pool.accounts encodedHash bytes pack temporary objects) fails := by
  refine leads_bind _ (leads_attempt (leads_uploadAndCommit hmem hother)) fun result ↦ ?_
  cases result with
  | ok value =>
    refine leads_done fun found files h ↦ ?_
    obtain ⟨huploading, hheld⟩ := h.1 value rfl
    exact ⟨huploading.1, account, hmem, bytes, hheld, hhash⟩
  | error failure =>
    have hrelease : Leads env quiet reserved
        (Uploading pool.accounts encodedHash bytes pack temporary objects)
        (ask env fun _ _ ↦ Except.ok ())
        (fun _ ↦ Uploading pool.accounts encodedHash bytes pack temporary objects)
        (Uploading pool.accounts encodedHash bytes pack temporary objects) :=
      leads_ask (fun _ _ _ h _ ↦ h) (fun _ _ _ h _ ↦ h) fun _ _ _ h ↦ h
    have hdelete : Leads env quiet reserved
        (Uploading pool.accounts encodedHash bytes pack temporary objects)
        (deleteObject env account (remotePath account encodedHash pack))
        (fun _ ↦ Uploading pool.accounts encodedHash bytes pack temporary objects)
        (Uploading pool.accounts encodedHash bytes pack temporary objects) :=
      leads_writesObject (fun _ content h _ ↦ ⟨h.1.put hmem hother content, h.2⟩)
        (fun _ _ h _ ↦ h) fun _ _ _ content h ↦ ⟨h.1.put hmem hother content, h.2⟩
    refine Leads.mono ?_ (fun _ _ h ↦ h.2 failure rfl) (fun _ _ _ h ↦ h) fun _ _ h ↦ h
    exact leads_bind _ (leads_ignored hrelease) fun _ ↦
      leads_bind _ (leads_ignored hdelete) fun _ ↦ leads_next

theorem leads_answer {α : Type} {answer : Turn → ColdWorld → Except StorageError α}
    {next : Except StorageError α → ColdTask (Option PutProgress)}
    (hnext : ∀ result, Leads env quiet reserved
      (Uploading pool.accounts encodedHash bytes pack temporary objects) (next result)
      (PutLeaves hash pool.accounts encodedHash bytes pack temporary objects) fails) :
    Leads env quiet reserved (Uploading pool.accounts encodedHash bytes pack temporary objects)
      (attempt (ask env answer) >>= next)
      (PutLeaves hash pool.accounts encodedHash bytes pack temporary objects) fails :=
  leads_bind _ (leads_ignored (leads_ask (fun _ _ _ h _ ↦ h) (fun _ _ _ h _ ↦ h) fun _ _ _ h ↦ h))
    hnext

theorem leads_reserveAndUpload (hmem : account ∈ pool.accounts)
    (hhash : (hash bytes).hex = encodedHash)
    (hother : objects account.store (remotePath account encodedHash pack) ≠ some bytes) :
    Leads env quiet reserved (Uploading pool.accounts encodedHash bytes pack temporary objects)
      (reserveAndUpload env account (remotePath account encodedHash pack) encodedHash temporary
        bytes.length progress)
      (PutLeaves hash pool.accounts encodedHash bytes pack temporary objects) fails := by
  refine leads_answer fun capacity ↦ ?_
  cases capacity with
  | error failure => exact leads_next
  | ok capacity =>
    refine leads_answer fun snapshot ↦ ?_
    cases snapshot with
    | error failure => exact leads_next
    | ok snapshot =>
      refine leads_answer fun reservation ↦ ?_
      cases reservation with
      | ok reservation => exact leads_uploadReserved hmem hhash hother
      | error failure => cases failure <;> exact leads_next

theorem leads_deleteExisting (hmem : account ∈ pool.accounts)
    (hother : objects account.store (remotePath account encodedHash pack) ≠ some bytes) :
    Leads env quiet reserved (Uploading pool.accounts encodedHash bytes pack temporary objects)
      (deleteExisting env account (remotePath account encodedHash pack))
      (fun _ ↦ Uploading pool.accounts encodedHash bytes pack temporary objects)
      (Uploading pool.accounts encodedHash bytes pack temporary objects) := by
  refine leads_bind _ (leads_ignored (leads_ask (fun _ _ _ h _ ↦ h) (fun _ _ _ h _ ↦ h)
    fun _ _ _ h ↦ h)) fun size ↦ ?_
  split
  · exact leads_writesObject (fun _ content h _ ↦ ⟨h.1.put hmem hother content, h.2⟩)
      (fun _ _ h _ ↦ h) fun _ _ _ content h ↦ ⟨h.1.put hmem hother content, h.2⟩
  · exact leads_pure fun _ _ h ↦ h

theorem leads_putAccount (hverify : pool.options.verifyExisting = true)
    (hhash : (hash bytes).hex = encodedHash) (hmem : account ∈ pool.accounts)
    (htemporary : ∀ sequence,
      temporaryPath pool.options.tempDir encodedHash sequence "verify" ≠ temporary) :
    Leads env quiet reserved
      (fun found files ↦ found = objects ∧ files temporary = some bytes)
      (pool.putAccount hash env encodedHash bytes pack temporary account progress)
      (PutLeaves hash pool.accounts encodedHash bytes pack temporary objects) fails := by
  have hkept : ∀ sequence (files : Files) content, files temporary = some bytes →
      Function.update files (temporaryPath pool.options.tempDir encodedHash sequence "verify")
        content temporary = some bytes := by
    intro sequence files content hfile
    rw [update_of_ne (htemporary sequence).symm]
    exact hfile
  refine leads_bind _ (leads_attempt (leads_verifyExisting hverify hhash hkept)) fun result ↦ ?_
  cases result with
  | error failure =>
    refine Leads.mono leads_next (fun found files h ↦ ?_) (fun _ _ _ h ↦ h) fun _ _ h ↦ h
    obtain ⟨rfl, hfile⟩ := h.2 failure rfl
    exact ⟨.refl, hfile⟩
  | ok existing =>
    cases existing with
    | true =>
      refine leads_done fun found files h ↦ ?_
      obtain ⟨hheld, -, rfl, -⟩ := h.1 true rfl
      obtain ⟨content, hcontent⟩ := hheld rfl
      exact ⟨.refl, account, hmem, content, hcontent⟩
    | false =>
      refine Leads.mono (leads_assume fun hother : objects account.store
        (remotePath account encodedHash pack) ≠ some bytes ↦
          leads_bind (fun _ ↦ Uploading pool.accounts encodedHash bytes pack temporary objects)
            (leads_ignored (leads_deleteExisting hmem hother)) fun deleted ↦ ?_)
              (fun found files h ↦ ?_) (fun _ _ _ h ↦ h) fun _ _ h ↦ h
      · cases deleted with
        | error failure => exact leads_next
        | ok value => exact leads_reserveAndUpload hmem hhash hother
      · obtain ⟨-, hother, rfl, hfile⟩ := h.1 false rfl
        exact ⟨hother rfl, .refl, hfile⟩

end Account

theorem leads_putAccounts {objects : Objects} (hverify : pool.options.verifyExisting = true)
    (hhash : (hash bytes).hex = encodedHash)
    (htemporary : ∀ sequence,
      temporaryPath pool.options.tempDir encodedHash sequence "verify" ≠ temporary)
    {rest : List MegaAccount} (hrest : rest ⊆ pool.accounts) (progress : PutProgress) :
    Leads env quiet reserved (Uploading pool.accounts encodedHash bytes pack temporary objects)
      (pool.putAccounts hash env encodedHash bytes pack temporary rest progress)
      (fun _ found _ ↦ OnlyReplaces pool.accounts encodedHash bytes pack objects found ∧
        HeldBy hash pool.accounts encodedHash pack found)
      fun found _ ↦ OnlyReplaces pool.accounts encodedHash bytes pack objects found := by
  induction rest generalizing progress with
  | nil =>
    refine leads_bind (fun _ found _ ↦
      OnlyReplaces pool.accounts encodedHash bytes pack objects found)
      (leads_removeFile (fun _ _ _ h ↦ h.1) fun _ _ h ↦ h.1) fun _ ↦ ?_
    exact leads_lift (fun _ _ _ h ↦ by cases h) fun _ _ _ _ h ↦ h
  | cons account rest ih =>
    have haccount : Leads env quiet reserved
        (Uploading pool.accounts encodedHash bytes pack temporary objects)
        (pool.putAccount hash env encodedHash bytes pack temporary account progress)
        (PutLeaves hash pool.accounts encodedHash bytes pack temporary objects)
        fun found _ ↦ OnlyReplaces pool.accounts encodedHash bytes pack objects found := by
      refine leads_of_objects fun found hfound ↦ ?_
      refine Leads.mono (leads_putAccount hverify hhash (hrest mem_cons_self) htemporary)
        (fun _ _ h ↦ h) (fun _ _ _ h ↦ ⟨hfound.trans h.1, h.2⟩) fun _ _ h ↦ h
    refine leads_bind _ haccount fun result ↦ ?_
    cases result with
    | none => exact leads_pure fun _ _ h ↦ ⟨h.1, h.2.1 rfl⟩
    | some progress =>
      exact Leads.mono (ih (subset_of_cons_subset hrest) progress)
        (fun _ _ h ↦ ⟨h.1, h.2.2 (Option.some_ne_none progress)⟩) (fun _ _ _ h ↦ h) fun _ _ h ↦ h

theorem leads_putInnerWithPaths {objects : Objects} (hverify : pool.options.verifyExisting = true)
    (hhash : (hash bytes).hex = encodedHash) :
    Leads env quiet reserved (fun found _ ↦ found = objects)
      (pool.putInnerWithPaths hash env encodedHash bytes pack)
      (fun _ found _ ↦ OnlyReplaces pool.accounts encodedHash bytes pack objects found ∧
        HeldBy hash pool.accounts encodedHash pack found)
      fun found _ ↦ OnlyReplaces pool.accounts encodedHash bytes pack objects found := by
  refine leads_reserveTemp (fun sequence ↦ ?_) fun _ _ _ h ↦ h ▸ .refl
  refine leads_bind _ (leads_writesFile (fun world content h hcontent ↦ ?_)
    (fun _ _ _ h ↦ by cases h) fun _ _ _ _ h ↦ h ▸ .refl) fun _ ↦
      leads_putAccounts hverify hhash (fun _ ↦ temporaryPath_ne) (List.Subset.refl _) _
  refine ⟨h ▸ .refl, ?_⟩
  rw [update_self]
  exact (Except.ok.inj hcontent).symm

end Put

/-! ### A read -/

section Read

variable {hash : Bytes → Digest} {env : Environment} {pool : MegaColdStoragePool} {quiet : Prop}
  {reserved : ℕ} {encodedHash : Text} {bytes : Bytes} {pack : Bool} {objects : Objects}

theorem readView_eq_ok {size : ℕ} {content value : Bytes} :
    (do
      throwIf (size ≠ content.length)
        (StorageError.provider "MEGA download size verification failed")
      verifyBytes hash encodedHash content pack
      pure content) = Except.ok value ↔
        size = content.length ∧ (hash content).hex = encodedHash ∧ content = value := by
  simp only [bind_eq_ok, throwIf_eq_ok, not_not, verifyBytes_eq_ok, pure_eq_ok, exists_const]

theorem leads_readAccount (bytes : Bytes) {account : MegaAccount} :
    Leads env quiet reserved (fun found _ ↦ found = objects)
      (pool.readAccount hash env encodedHash pack account)
      (fun value found _ ↦ (∀ other, value = some other → (hash other).hex = encodedHash) ∧
        (value = none → objects account.store (remotePath account encodedHash pack) ≠ some bytes) ∧
          found = objects)
      fun found _ ↦ ((hash bytes).hex = encodedHash → quiet →
        bytes.length ≤ pool.options.tempSpaceBytes - reserved →
        objects account.store (remotePath account encodedHash pack) ≠ some bytes) ∧
          found = objects := by
  refine leads_bind (fun size found _ ↦
    size = (objects account.store (remotePath account encodedHash pack)).map List.length ∧
      found = objects) (leads_ask ?_ (fun _ _ _ _ h ↦ by cases h) fun hquiet _ _ h ↦
        ⟨fun _ hquiet' ↦ absurd hquiet' hquiet, h⟩) fun size ↦ leads_assume ?_
  · rintro _ world value hobjects hvalue
    rw [hobjects] at hvalue
    exact ⟨(Except.ok.inj hvalue).symm, hobjects⟩
  · rintro rfl
    cases hfound : objects account.store (remotePath account encodedHash pack) with
    | none =>
      refine leads_pure fun found _ hsame ↦ ⟨fun _ h ↦ ?_, fun _ h ↦ ?_, hsame⟩
      · cases h
      · cases h
    | some content =>
      refine leads_bind (fun other found _ ↦ (hash other).hex = encodedHash ∧ found = objects)
        (leads_reserveTemp (fun sequence ↦ ?_) ?_) fun other ↦ leads_pure fun found _ h ↦ ?_
      · refine Leads.mono (leads_downloaded fun _ _ _ ↦ trivial) (fun _ _ h ↦ ⟨h, trivial⟩) ?_ ?_
        · rintro value found files ⟨⟨other, hother, hvalue⟩, hsame, -⟩
          obtain ⟨-, hother, rfl⟩ := readView_eq_ok.mp hvalue
          exact ⟨hother, hsame⟩
        · rintro found files ⟨hrefused, hsame, -⟩
          refine ⟨fun hhash hquiet _ hgood ↦ ?_, hsame⟩
          obtain rfl := Option.some.inj hgood
          obtain ⟨failure, hfailure⟩ := hrefused hquiet content hfound
          cases hfailure.symm.trans (readView_eq_ok.mpr ⟨rfl, hhash, rfl⟩)
      · intro hfull found files hsame
        refine ⟨fun _ hquiet hroom hgood ↦ hfull ⟨hquiet, ?_⟩, hsame⟩
        rw [Option.some.inj hgood]
        exact hroom
      · refine ⟨fun value hvalue ↦ ?_, fun hnone ↦ ?_, h.2⟩
        · rw [← Option.some.inj hvalue]
          exact h.1
        · cases hnone

theorem leads_readAccounts (bytes : Bytes) (accounts : List MegaAccount)
    (lastError : Option StorageError) :
    Leads env quiet reserved (fun found _ ↦ found = objects)
      (pool.readAccounts hash env encodedHash pack accounts lastError)
      (fun value found _ ↦ (hash value).hex = encodedHash ∧ found = objects)
      fun found _ ↦ ((hash bytes).hex = encodedHash → quiet →
        bytes.length ≤ pool.options.tempSpaceBytes - reserved →
        ∀ account ∈ accounts,
          objects account.store (remotePath account encodedHash pack) ≠ some bytes) ∧
        found = objects := by
  induction accounts generalizing lastError with
  | nil =>
    refine leads_lift (fun _ _ _ h ↦ by cases h) fun _ _ _ _ h ↦ ⟨fun _ _ _ account hmem ↦ ?_, h⟩
    cases hmem
  | cons account rest ih =>
    have hrest (hother : (hash bytes).hex = encodedHash → quiet →
        bytes.length ≤ pool.options.tempSpaceBytes - reserved →
        objects account.store (remotePath account encodedHash pack) ≠ some bytes)
        (lastError : Option StorageError) : Leads env quiet reserved (fun found _ ↦ found = objects)
          (pool.readAccounts hash env encodedHash pack rest lastError)
          (fun value found _ ↦ (hash value).hex = encodedHash ∧ found = objects)
          fun found _ ↦ ((hash bytes).hex = encodedHash → quiet →
        bytes.length ≤ pool.options.tempSpaceBytes - reserved → ∀ other ∈ account :: rest,
              objects other.store (remotePath other encodedHash pack) ≠ some bytes) ∧
            found = objects := by
      refine Leads.mono (ih lastError) (fun _ _ h ↦ h) (fun _ _ _ h ↦ h) fun _ _ h ↦ ⟨?_, h.2⟩
      intro hhash hquiet hroom
      exact forall_mem_cons.mpr ⟨hother hhash hquiet hroom, h.1 hhash hquiet hroom⟩
    refine leads_bind _ (leads_attempt (leads_readAccount bytes)) fun result ↦ ?_
    cases result with
    | error failure =>
      refine Leads.mono (leads_assume fun hother ↦ hrest hother (some failure))
        (fun _ _ h ↦ h.2 failure rfl) (fun _ _ _ h ↦ h) fun _ _ h ↦ h
    | ok value =>
      cases value with
      | none =>
        refine Leads.mono (leads_assume fun hother ↦ hrest hother lastError)
          (fun _ _ h ↦ ?_) (fun _ _ _ h ↦ h) fun _ _ h ↦ h
        exact ⟨fun _ _ _ ↦ (h.1 none rfl).2.1 rfl, (h.1 none rfl).2.2⟩
      | some value =>
        exact leads_pure fun _ _ h ↦
          ⟨(h.1 (some value) rfl).1 value rfl, (h.1 (some value) rfl).2.2⟩

end Read

/-! ### Paths -/

variable {encodedHash : Text}

theorem shard_inj {root otherRoot otherHash : Text} {folder extension : String}
    (hlength : encodedHash.length = otherHash.length)
    (h : shard root folder encodedHash extension = shard otherRoot folder otherHash extension) :
    encodedHash = otherHash := by
  have hname := append_inj_right' (append_cancel_right h)
    (congrArg (· + 1) hlength)
  exact (List.cons.inj hname).2

theorem shard_pack_ne_chunk {root otherRoot packHash : Text} :
    shard root "/packs/" packHash ".pack" ≠ shard otherRoot "/chunks/" encodedHash ".chunk" := by
  intro h
  have hends := congrArg (fun path ↦ path.reverse.take 2) h
  simp only [shard, reverse_append] at hends
  have hletters : ['k', 'c'] = ['k', 'n'] := hends
  exact absurd hletters (by decide)

theorem remotePath_inj {first second : MegaAccount} {otherHash : Text}
    {pack other : Bool}
    (hlength : encodedHash.length = otherHash.length)
    (h : remotePath first encodedHash pack = remotePath second otherHash other) :
    encodedHash = otherHash ∧ pack = other := by
  cases pack with
  | false =>
    cases other with
    | false => exact ⟨shard_inj hlength h, rfl⟩
    | true => exact absurd h.symm shard_pack_ne_chunk
  | true =>
    cases other with
    | false => exact absurd h shard_pack_ne_chunk
    | true => exact ⟨shard_inj hlength h, rfl⟩

/-! ### Puts and reads -/

structure PutRequest where
  encodedHash : Text
  bytes : Bytes
  pack : Bool
  deriving DecidableEq, Repr

section Runs

variable (hash : Bytes → Digest) (env : Environment) (pool : MegaColdStoragePool)

/-- `put_encoded` or `put_pack`. -/
def put (request : PutRequest) : ColdTask Unit :=
  if request.pack then pool.putPack hash env request.encodedHash request.bytes
  else pool.putEncoded hash env request.encodedHash request.bytes

/-- `read_encoded` or `read_pack`. -/
def readObject (encodedHash : Text) (pack : Bool) : ColdTask Bytes :=
  if pack then pool.readPack hash env encodedHash else pool.readEncoded hash env encodedHash

def afterPuts (requests : List PutRequest) (world : ColdWorld) : ColdWorld :=
  requests.foldl (fun world request ↦ (put hash env pool request world).final) world

variable {hash env pool} {quiet : Prop} {reserved : ℕ} {request : PutRequest}

theorem put_eq : put hash env pool request = (do
    lift (validateHash request.encodedHash)
    lift (verifyEncodedBytes hash request.encodedHash request.bytes)
    pool.putInnerWithPaths hash env request.encodedHash request.bytes request.pack) := by
  unfold put
  cases hpack : request.pack <;> rfl

theorem leads_put {objects : Objects} (hverify : pool.options.verifyExisting = true) :
    Leads env quiet reserved (fun found _ ↦ found = objects) (put hash env pool request)
      (fun _ found _ ↦ (hash request.bytes).hex = request.encodedHash ∧
        OnlyReplaces pool.accounts request.encodedHash request.bytes request.pack objects found ∧
          HeldBy hash pool.accounts request.encodedHash request.pack found)
      fun found _ ↦ found = objects ∨ (hash request.bytes).hex = request.encodedHash ∧
        OnlyReplaces pool.accounts request.encodedHash request.bytes request.pack objects
          found := by
  rw [put_eq]
  refine leads_bind (fun _ found _ ↦ found = objects) (leads_lift (fun _ _ _ _ h ↦ h)
    fun _ _ _ _ h ↦ .inl h) fun _ ↦ leads_bind (fun _ found _ ↦
      (hash request.bytes).hex = request.encodedHash ∧ found = objects)
      (leads_lift (fun _ _ _ hcheck h ↦ ⟨?_, h⟩) fun _ _ _ _ h ↦ .inl h) fun _ ↦
        leads_assume fun hhash ↦ ?_
  · rw [verifyEncodedBytes, throwIf_eq_ok, not_not] at hcheck
    exact hcheck
  · exact Leads.mono (leads_putInnerWithPaths hverify hhash) (fun _ _ h ↦ h)
      (fun _ _ _ h ↦ ⟨hhash, h⟩) fun _ _ h ↦ .inr ⟨hhash, h⟩

theorem HeldBy.keep {encodedHash : Text} {bytes : Bytes} {pack : Bool} {objects : Objects}
    (hunique : ∀ other, (hash other).hex = encodedHash → other = bytes)
    (hheld : HeldBy hash pool.accounts encodedHash pack objects)
    (hhash : (hash request.bytes).hex = request.encodedHash)
    (h : OnlyReplaces pool.accounts request.encodedHash request.bytes request.pack objects found) :
    HeldBy hash pool.accounts encodedHash pack found := by
  obtain ⟨account, hmem, content, hcontent, hcontentHash⟩ := hheld
  refine ⟨account, hmem, content, ?_, hcontentHash⟩
  rcases h account.store (remotePath account encodedHash pack) with
    hsame | ⟨hother, replacing, -, -, hpath⟩
  · rw [hsame]
    exact hcontent
  · have hlength : encodedHash.length = request.encodedHash.length := by
      rw [← hhash, ← hcontentHash, (Digest.isHash_hex _).1, (Digest.isHash_hex _).1]
    obtain ⟨hsame, -⟩ := remotePath_inj hlength hpath
    have hbytes : request.bytes = bytes := hunique _ (hhash.trans hsame.symm)
    have hgood : content = bytes := hunique content hcontentHash
    rw [hbytes, hcontent, hgood] at hother
    exact absurd rfl hother

theorem tempReserved_put (hverify : pool.options.verifyExisting = true) (world : ColdWorld) :
    (put hash env pool request world).final.tempReserved = world.tempReserved := by
  have hput : Leads env False world.tempReserved (fun found _ ↦ found = world.objects)
      (put hash env pool request) _ _ := leads_put hverify
  obtain ⟨-, hok, herror⟩ := hput world ⟨⟨rfl, False.elim⟩, rfl⟩
  cases hresult : (put hash env pool request world).result with
  | ok value => exact (hok value hresult).1.1
  | error failure => exact (herror failure hresult).1.1

theorem heldBy_afterPuts {encodedHash : Text} {bytes : Bytes} {pack : Bool}
    (hverify : pool.options.verifyExisting = true)
    (hunique : ∀ other, (hash other).hex = encodedHash → other = bytes) (requests : List PutRequest)
    (hheld : HeldBy hash pool.accounts encodedHash pack world.objects) :
    HeldBy hash pool.accounts encodedHash pack (afterPuts hash env pool requests world).objects ∧
      (afterPuts hash env pool requests world).tempReserved = world.tempReserved := by
  induction requests generalizing world with
  | nil => exact ⟨hheld, rfl⟩
  | cons request rest ih =>
    have hput : Leads env False world.tempReserved (fun found _ ↦ found = world.objects)
        (put hash env pool request) _ _ := leads_put hverify
    have hkept : HeldBy hash pool.accounts encodedHash pack
        (put hash env pool request world).final.objects := by
      obtain ⟨-, hok, herror⟩ := hput world ⟨⟨rfl, False.elim⟩, rfl⟩
      cases hresult : (put hash env pool request world).result with
      | ok value =>
        obtain ⟨-, hhash, hreplaces, -⟩ := hok value hresult
        exact hheld.keep hunique hhash hreplaces
      | error failure =>
        obtain ⟨-, hsame | ⟨hhash, hreplaces⟩⟩ := herror failure hresult
        · rw [hsame]
          exact hheld
        · exact hheld.keep hunique hhash hreplaces
    obtain ⟨hlater, hreserved⟩ := ih hkept
    exact ⟨hlater, hreserved.trans (tempReserved_put hverify world)⟩

theorem leads_readObject {encodedHash : Text} (bytes : Bytes) {pack : Bool} {objects : Objects} :
    Leads env quiet reserved (fun found _ ↦ found = objects)
      (readObject hash env pool encodedHash pack)
      (fun value found _ ↦ (hash value).hex = encodedHash ∧ found = objects)
      fun found _ ↦ ((hash bytes).hex = encodedHash → quiet →
        bytes.length ≤ pool.options.tempSpaceBytes - reserved → ∀ account ∈ pool.accounts,
          objects account.store (remotePath account encodedHash pack) ≠ some bytes) ∧
        found = objects := by
  have hread : readObject hash env pool encodedHash pack = (do
      lift (validateHash encodedHash)
      pool.readInner hash env encodedHash pack) := by
    cases pack <;> rfl
  have hvalid (hhash : (hash bytes).hex = encodedHash) : validateHash encodedHash = .ok () := by
    rw [validateHash, throwIf_eq_ok, not_not, utf8_hash_iff, ← hhash]
    exact Digest.isHash_hex _
  rw [hread]
  refine leads_bind (fun _ found _ ↦ found = objects) (leads_lift (fun _ _ _ _ h ↦ h)
    fun failure _ _ hfailure h ↦ ⟨fun hhash ↦ ?_, h⟩) fun _ ↦ leads_readAccounts bytes _ _
  rw [hvalid hhash] at hfailure
  cases hfailure

theorem room_of_put (h : (put hash env pool request world).result = .ok ()) :
    request.bytes.length ≤ pool.options.tempSpaceBytes - world.tempReserved := by
  rw [put_eq] at h
  obtain ⟨_, -, h⟩ := result_bind_eq_ok.mp h
  obtain ⟨_, -, h⟩ := result_bind_eq_ok.mp h
  obtain ⟨_, hreserve, -⟩ := result_bind_eq_ok.mp h
  have hreserve : (reserveBytes pool.options.tempSpaceBytes request.bytes.length world).result =
    .ok _ := hreserve
  by_contra hfull
  unfold reserveBytes Process.step at hreserve
  dsimp only at hreserve
  rw [if_pos (not_le.mp hfull)] at hreserve
  cases hreserve

/-! ### The result -/

/-- What a put promises to a later read. -/
def ReadsBack (hash : Bytes → Digest) (env : Environment) (pool : MegaColdStoragePool)
    (world : ColdWorld) (request : PutRequest) : Prop :=
  (∀ found, (readObject hash env pool request.encodedHash request.pack world).result = .ok found →
    found = request.bytes) ∧
  (Quiet env world.clock →
    (readObject hash env pool request.encodedHash request.pack world).result = .ok request.bytes)

theorem readsBack_of_heldBy (hhash : (hash request.bytes).hex = request.encodedHash)
    (hunique : ∀ other, (hash other).hex = request.encodedHash → other = request.bytes)
    (hheld : HeldBy hash pool.accounts request.encodedHash request.pack world.objects)
    (hroom : request.bytes.length ≤ pool.options.tempSpaceBytes - world.tempReserved) :
    ReadsBack hash env pool world request := by
  have hread : Leads env (Quiet env world.clock) world.tempReserved
      (fun found _ ↦ found = world.objects)
      (readObject hash env pool request.encodedHash request.pack) _ _ :=
    leads_readObject request.bytes
  obtain ⟨-, hok, herror⟩ := hread world ⟨⟨rfl, id⟩, rfl⟩
  have hvalue : ∀ found, (readObject hash env pool request.encodedHash request.pack world).result =
      .ok found → found = request.bytes :=
    fun found hfound ↦ hunique found (hok found hfound).2.1
  refine ⟨hvalue, fun hquiet ↦ ?_⟩
  cases hresult : (readObject hash env pool request.encodedHash request.pack world).result with
  | ok found => rw [hvalue found hresult]
  | error failure =>
    obtain ⟨account, hmem, content, hcontent, hcontentHash⟩ := hheld
    rw [hunique content hcontentHash] at hcontent
    exact absurd hcontent ((herror failure hresult).2.1 hhash hquiet hroom account hmem)

/-- Put, then read: in a history of puts with the verification of existing objects, an object whose
put has succeeded is read back, whatever else is put before and after; and each call leaves the
temporary space as it was. -/
theorem put_then_read (hverify : pool.options.verifyExisting = true) :
    (∀ (start : ColdWorld) (earlier later : List PutRequest) (request : PutRequest),
      (∀ other, (hash other).hex = request.encodedHash → other = request.bytes) →
      (put hash env pool request (afterPuts hash env pool earlier start)).result = .ok () →
      ReadsBack hash env pool (afterPuts hash env pool (earlier ++ request :: later) start)
        request) ∧
    (∀ (world : ColdWorld) (request : PutRequest),
      (put hash env pool request world).final.tempReserved = world.tempReserved) ∧
    ∀ (world : ColdWorld) (encodedHash : Text) (pack : Bool),
      (readObject hash env pool encodedHash pack world).final.tempReserved =
        world.tempReserved := by
  refine ⟨fun start earlier later request hunique hput ↦ ?_, fun world request ↦
    tempReserved_put hverify world, fun world encodedHash pack ↦ ?_⟩
  · have hleads : Leads env False (afterPuts hash env pool earlier start).tempReserved
        (fun found _ ↦ found = (afterPuts hash env pool earlier start).objects)
        (put hash env pool request) _ _ := leads_put hverify
    obtain ⟨-, hok, -⟩ := hleads (afterPuts hash env pool earlier start) ⟨⟨rfl, False.elim⟩, rfl⟩
    obtain ⟨⟨hreserved, -⟩, hhash, -, hheld⟩ := hok () hput
    have hlater : afterPuts hash env pool (earlier ++ request :: later) start =
        afterPuts hash env pool later
          (put hash env pool request (afterPuts hash env pool earlier start)).final := by
      unfold afterPuts
      rw [foldl_append, foldl_cons]
    obtain ⟨hkept, hsame⟩ := heldBy_afterPuts hverify hunique later hheld
    rw [hlater]
    refine readsBack_of_heldBy hhash hunique hkept ?_
    rw [hsame, hreserved]
    exact room_of_put hput
  · have hread : Leads env False world.tempReserved (fun found _ ↦ found = world.objects)
        (readObject hash env pool encodedHash pack) _ _ := leads_readObject []
    obtain ⟨-, hok, herror⟩ := hread world ⟨⟨rfl, False.elim⟩, rfl⟩
    cases hresult : (readObject hash env pool encodedHash pack world).result with
    | ok value => exact (hok value hresult).1.1
    | error failure => exact (herror failure hresult).1.1

end Runs

/-! ### An object of one account -/

section OneObject

/-- The frame of a chunk with the one byte `a`. -/
def frame : Bytes := [40, 181, 47, 253, 32, 1, 9, 0, 0, 97]

def frameDigest : Digest where
  bytes := [6, 73, 133, 244, 173, 142, 191, 38, 83, 137, 107, 160, 227, 126, 220, 117, 106, 111,
    198, 165, 127, 244, 36, 50, 47, 154, 62, 69, 53, 207, 202, 97]
  length_eq := rfl

/-- A hash function with the BLAKE3 digest of the frame. -/
def hashOfFrame (bytes : Bytes) : Digest :=
  if bytes = frame then frameDigest else .zero

/-- An account whose calls never fail. -/
def quietAccount : Environment := fun _ ↦
  { failure := none
    left := none
    capacity := ⟨1000, 0⟩
    refresh := fun accountId capacity ↦
      ⟨accountId, "mega", "mega", "mega", .cold, .active,
        capacity.capacityBytes, capacity.usedBytes, 0, 0, none⟩
    reserve := fun accountId encodedHash bytes ↦ ⟨"1", accountId, encodedHash, bytes, 0⟩ }

def oneAccount : MegaColdStoragePool where
  accounts := [⟨"first", "/launcher", 0⟩]
  options := ⟨true, "mega-temp", 100⟩

def emptyWorld : ColdWorld := ⟨fun _ _ ↦ none, fun _ ↦ none, 0, 0, 0⟩

theorem frame_reads_back :
    (readObject hashOfFrame quietAccount oneAccount frameDigest.hex false
      (afterPuts hashOfFrame quietAccount oneAccount [⟨frameDigest.hex, frame, false⟩]
        emptyWorld)).result.toOption = some frame := by
  have hput : (put hashOfFrame quietAccount oneAccount ⟨frameDigest.hex, frame, false⟩
      emptyWorld).result = .ok () := rfl
  have hunique : ∀ other, (hashOfFrame other).hex = frameDigest.hex → other = frame := by
    intro other hother
    by_contra hne
    rw [hashOfFrame, if_neg hne] at hother
    exact absurd hother (by decide)
  have hread := (@put_then_read hashOfFrame quietAccount oneAccount rfl).1 emptyWorld [] []
    ⟨frameDigest.hex, frame, false⟩ hunique hput
  have hback : (readObject hashOfFrame quietAccount oneAccount frameDigest.hex false _).result =
    .ok frame := hread.2 fun _ _ ↦ rfl
  exact congrArg Except.toOption hback

end OneObject

end GameLauncher.ColdStorage
