import GameLauncher.ColdStorage.PutThenRead

/-!
# The same put again

While no call fails, what a put does at an account is determined by the object that is there: it is
done when the object is accepted (`Accepted`), it goes on to the next account when there is no
temporary space left to check the object (`Blocked`), and otherwise it uploads (`Ended`). The check
needs the space a second time, while the put holds it for the upload. So a put that has succeeded
can be repeated exactly when the objects are not checked or two of its size fit
(`put_again_iff`).
-/

set_option autoImplicit false

namespace GameLauncher.ColdStorage

open Foundation Fallible Process List Function
open MegaColdStoragePool

/-! ### One account -/

section Accounts

variable (hash : Bytes → Digest) (pool : MegaColdStoragePool) (encodedHash : Text) (bytes : Bytes)
  (pack : Bool)

/-- The object of an account that a put leaves as it is. -/
def Accepted (objects : Objects) (account : MegaAccount) : Prop :=
  ∃ content, objects account.store (remotePath account encodedHash pack) = some content ∧
    content.length = bytes.length ∧
      (pool.options.verifyExisting = true → (hash content).hex = encodedHash)

/-- The object of an account is to be checked and the space that is left does not suffice. -/
def Blocked (reserved : ℕ) (objects : Objects) (account : MegaAccount) : Prop :=
  pool.options.verifyExisting = true ∧
    (∃ content, objects account.store (remotePath account encodedHash pack) = some content ∧
      content.length = bytes.length) ∧
    pool.options.tempSpaceBytes - reserved < bytes.length

/-- How a put ends at an account: with the object that is there, or with an upload. -/
def Ended (reserved : ℕ) (objects : Objects) (account : MegaAccount) (found : Objects) : Prop :=
  Accepted hash pool encodedHash bytes pack objects account ∧
      ¬ Blocked pool encodedHash bytes pack reserved objects account ∧ found = objects ∨
    ¬ Accepted hash pool encodedHash bytes pack objects account ∧
      found = objects.put account.store (remotePath account encodedHash pack) (some bytes)

end Accounts

variable {α : Type} {fails : Objects → Files → Prop}

section Quiet

variable {hash : Bytes → Digest} {env : Environment} {pool : MegaColdStoragePool} {reserved : ℕ}
  {encodedHash temporary : Text} {bytes : Bytes} {pack : Bool}

theorem Objects.put_put {objects : Objects} {store : ℕ} {path : Text}
    {first second : Option Bytes} :
    (objects.put store path first).put store path second = objects.put store path second := by
  unfold Objects.put
  rw [update_self, update_idem, update_idem]

theorem leads_reserveTemp_full {quiet : Prop} {suffix : String} {count : ℕ}
    {body : Text → ColdTask α} {before : Objects → Files → Prop}
    (hfull : pool.options.tempSpaceBytes - reserved < count) :
    Leads env quiet reserved before (pool.reserveTemp env encodedHash suffix count body)
      (fun _ _ _ ↦ False) before := by
  refine ensures_bind (fun _ _ ↦ False) (ensures_step (fun _ _ ↦ trivial) ?_ ?_)
    fun _ world h ↦ h.elim
  · intro world value h hvalue
    have hless : pool.options.tempSpaceBytes - world.tempReserved < count := by
      rw [h.1.1]
      exact hfull
    rw [if_pos hless] at hvalue
    cases hvalue
  · intro world failure h _
    have hless : pool.options.tempSpaceBytes - world.tempReserved < count := by
      rw [h.1.1]
      exact hfull
    rw [if_pos hless]
    exact h

theorem leads_answered {before : Objects → Files → Prop} {answer : Turn → ColdWorld → α} :
    Leads env True reserved before (attempt (ask env fun turn world ↦ .ok (answer turn world)))
      (fun result objects files ↦ (∃ value, result = .ok value) ∧ before objects files) fails := by
  have hask : Leads env True reserved before (ask env fun turn world ↦ .ok (answer turn world))
      (fun _ ↦ before) fun _ _ ↦ False :=
    leads_ask (fun _ _ _ h _ ↦ h) (fun _ _ _ _ h ↦ by cases h) fun h ↦ absurd trivial h
  refine Leads.mono (leads_attempt hask) (fun _ _ h ↦ h) (fun result objects files h ↦ ?_)
    fun _ _ h ↦ h
  cases result with
  | ok value => exact ⟨⟨value, rfl⟩, h.1 value rfl⟩
  | error failure => exact (h.2 failure rfl).elim

variable {account : MegaAccount} {objects : Objects}

theorem leads_verifyExisting_quiet {kept : Files → Prop}
    (hkept : ∀ sequence files content, kept files → kept (Function.update files
      (temporaryPath pool.options.tempDir encodedHash sequence "verify") content)) :
    Leads env True reserved (fun found files ↦ found = objects ∧ kept files)
      (pool.verifyExisting hash env account (remotePath account encodedHash pack) encodedHash
        bytes.length pack)
      (fun value found files ↦
        (value = true → Accepted hash pool encodedHash bytes pack objects account ∧
          ¬ Blocked pool encodedHash bytes pack reserved objects account) ∧
        (value = false → ¬ Accepted hash pool encodedHash bytes pack objects account) ∧
          found = objects ∧ kept files)
      fun found files ↦ Blocked pool encodedHash bytes pack reserved objects account ∧
        found = objects ∧ kept files := by
  refine leads_bind (fun size found files ↦
    size = (objects account.store (remotePath account encodedHash pack)).map List.length ∧
      found = objects ∧ kept files) (leads_ask ?_ (fun _ _ _ _ h ↦ by cases h)
        fun h ↦ absurd trivial h) fun size ↦ leads_assume ?_
  · rintro _ world value ⟨hobjects, hfiles⟩ hvalue
    rw [hobjects] at hvalue
    exact ⟨(Except.ok.inj hvalue).symm, hobjects, hfiles⟩
  rintro rfl
  cases hfound : objects account.store (remotePath account encodedHash pack) with
  | none =>
    refine leads_pure fun found files hsame ↦ ⟨fun h ↦ (by cases h), fun _ haccepted ↦ ?_, hsame⟩
    obtain ⟨content, hcontent, -⟩ := haccepted
    rw [hfound] at hcontent
    cases hcontent
  | some content =>
    have hcontent {other : Bytes}
        (h : objects account.store (remotePath account encodedHash pack) = some other) :
        other = content := by
      rw [hfound, Option.some.injEq] at h
      exact h.symm
    dsimp only [Option.map_some]
    by_cases hsize : content.length = bytes.length
    · cases hverify : pool.options.verifyExisting with
      | false =>
        rw [if_pos (.inr rfl)]
        refine leads_pure fun found files hsame ↦ ⟨fun _ ↦ ⟨⟨content, hfound, hsize, ?_⟩, ?_⟩,
          fun h ↦ ?_, hsame⟩
        · rw [hverify]
          rintro ⟨⟩
        · rintro ⟨hchecked, -⟩
          rw [hverify] at hchecked
          cases hchecked
        · simp [hsize] at h
      | true =>
        rw [if_neg (by simp [hsize])]
        by_cases hroom : pool.options.tempSpaceBytes - reserved < bytes.length
        · refine Leads.mono (leads_reserveTemp_full hroom) (fun _ _ h ↦ h) (fun _ _ _ h ↦ h.elim)
            fun found files h ↦ ⟨⟨hverify, ⟨content, hfound, hsize⟩, hroom⟩, h⟩
        · refine leads_reserveTemp (fun sequence ↦ Leads.mono (leads_downloaded (hkept sequence))
            (fun _ _ h ↦ h) ?_ ?_) fun h ↦ absurd ⟨trivial, not_lt.mp hroom⟩ h
          · rintro value found files ⟨⟨other, hother, hvalue⟩, hsame⟩
            rw [hcontent hother, Except.ok.injEq] at hvalue
            refine ⟨fun h ↦ ⟨⟨content, hfound, hsize, fun _ ↦ ?_⟩, fun h ↦ hroom h.2.2⟩,
              fun h haccepted ↦ ?_, hsame⟩
            · cases hcheck : verifyBytes hash encodedHash content pack with
              | ok value => exact verifyBytes_eq_ok.mp hcheck
              | error failure =>
                rw [hcheck, h] at hvalue
                cases hvalue
            · obtain ⟨other, hother, -, hhash⟩ := haccepted
              rw [hcontent hother] at hhash
              have hcheck : verifyBytes hash encodedHash content pack = .ok () :=
                verifyBytes_eq_ok.mpr (hhash hverify)
              rw [hcheck, h] at hvalue
              cases hvalue
          · rintro found files ⟨hfails, -⟩
            obtain ⟨failure, hfailure⟩ := hfails trivial content hfound
            cases hfailure
    · rw [if_pos (.inl hsize)]
      refine leads_pure fun found files hsame ↦ ⟨fun h ↦ ?_, fun _ haccepted ↦ ?_, hsame⟩
      · simp [hsize] at h
      · obtain ⟨other, hother, hlength, -⟩ := haccepted
        rw [hcontent hother] at hlength
        exact hsize hlength

/-- The objects before an upload: as they were, or without the one that was there. -/
def Cleared (encodedHash : Text) (pack : Bool) (temporary : Text) (bytes : Bytes)
    (account : MegaAccount) (objects found : Objects) (files : Files) : Prop :=
  (found = objects ∨ found = objects.put account.store (remotePath account encodedHash pack) none) ∧
  files temporary = some bytes

theorem leads_uploadAndCommit_quiet :
    Leads env True reserved (Cleared encodedHash pack temporary bytes account objects)
      (uploadAndCommit env account (remotePath account encodedHash pack) temporary bytes.length)
      (fun _ found _ ↦
        found = objects.put account.store (remotePath account encodedHash pack) (some bytes))
      fun _ _ ↦ False := by
  have hquiet {fact : Prop} (h : ¬ True) : fact := absurd trivial h
  refine leads_bind (fun _ found _ ↦
      found = objects.put account.store (remotePath account encodedHash pack) (some bytes))
    (leads_writesObject ?_ ?_ fun h ↦ hquiet h) fun _ ↦ leads_bind (fun size found _ ↦
      size = some bytes.length ∧
        found = objects.put account.store (remotePath account encodedHash pack) (some bytes))
      (leads_ask ?_ (fun _ _ _ _ h ↦ by cases h) fun h ↦ hquiet h) fun size ↦
        leads_assume fun hsize ↦ leads_bind _ (leads_lift (fun _ _ _ _ h ↦ h) ?_) fun _ ↦
          leads_ask (fun _ _ _ h _ ↦ h) (fun _ _ _ _ h ↦ by cases h) fun h ↦ hquiet h
  · rintro world content ⟨hobjects, hfile⟩ hcontent
    obtain ⟨uploaded, huploaded, hpure⟩ := bind_eq_ok.mp hcontent
    rw [hfile] at huploaded
    obtain rfl : bytes = uploaded := Except.ok.inj huploaded
    obtain rfl : some bytes = content := pure_eq_ok.mp hpure
    rcases hobjects with hobjects | hobjects
    · rw [hobjects]
    · rw [hobjects, Objects.put_put]
  · rintro world failure ⟨-, hfile⟩ hfailure
    rw [hfile] at hfailure
    cases hfailure
  · intro _ world value hobjects hvalue
    rw [hobjects, Objects.put_self] at hvalue
    exact ⟨(Except.ok.inj hvalue).symm, hobjects⟩
  · intro failure found files hfailure _
    rw [hsize] at hfailure
    exact (throwIf_eq_error.mp hfailure).1 rfl

theorem leads_reserveAndUpload_quiet {progress : PutProgress} :
    Leads env True reserved (Cleared encodedHash pack temporary bytes account objects)
      (reserveAndUpload env account (remotePath account encodedHash pack) encodedHash temporary
        bytes.length progress)
      (fun ended found _ ↦ ended = none ∧
        found = objects.put account.store (remotePath account encodedHash pack) (some bytes))
      fails := by
  refine leads_bind _ leads_answered fun capacity ↦ leads_assume ?_
  rintro ⟨capacity, rfl⟩
  refine leads_bind _ leads_answered fun snapshot ↦ leads_assume ?_
  rintro ⟨snapshot, rfl⟩
  refine leads_bind _ leads_answered fun reservation ↦ leads_assume ?_
  rintro ⟨reservation, rfl⟩
  refine leads_bind _ (leads_attempt leads_uploadAndCommit_quiet) fun result ↦ ?_
  cases result with
  | ok value =>
    refine leads_bind (fun _ found _ ↦
      found = objects.put account.store (remotePath account encodedHash pack) (some bytes))
      (leads_removeFile (fun _ _ _ h ↦ h.1 value rfl) fun _ _ h ↦ h.1 value rfl) fun _ ↦
        leads_pure fun _ _ h ↦ ⟨rfl, h⟩
  | error failure => exact fun _ h ↦ (h.2.2 failure rfl).elim

theorem leads_deleteExisting_quiet :
    Leads env True reserved (fun found files ↦ found = objects ∧ files temporary = some bytes)
      (deleteExisting env account (remotePath account encodedHash pack))
      (fun _ ↦ Cleared encodedHash pack temporary bytes account objects) fun _ _ ↦ False := by
  refine leads_bind _ leads_answered fun size ↦ leads_assume ?_
  rintro ⟨size, rfl⟩
  cases size with
  | none => exact leads_pure fun _ _ h ↦ ⟨.inl h.1, h.2⟩
  | some size =>
    refine leads_writesObject (fun world content h hcontent ↦ ?_) (fun _ _ _ h ↦ by cases h)
      fun h ↦ absurd trivial h
    rw [← Except.ok.inj hcontent, h.1]
    exact ⟨.inr rfl, h.2⟩

theorem leads_putAccount_quiet {progress : PutProgress} (htemporary : ∀ sequence,
      temporaryPath pool.options.tempDir encodedHash sequence "verify" ≠ temporary) :
    Leads env True reserved (fun found files ↦ found = objects ∧ files temporary = some bytes)
      (pool.putAccount hash env encodedHash bytes pack temporary account progress)
      (fun ended found files ↦
        (ended = none → Ended hash pool encodedHash bytes pack reserved objects account found) ∧
        (ended ≠ none → Blocked pool encodedHash bytes pack reserved objects account ∧
          found = objects ∧ files temporary = some bytes))
      fails := by
  have hkept : ∀ sequence (files : Files) content, files temporary = some bytes →
      Function.update files (temporaryPath pool.options.tempDir encodedHash sequence "verify")
        content temporary = some bytes := by
    intro sequence files content hfile
    rw [update_of_ne (htemporary sequence).symm]
    exact hfile
  refine leads_bind _ (leads_attempt (leads_verifyExisting_quiet hkept)) fun result ↦ ?_
  cases result with
  | error failure =>
    exact leads_pure fun found files h ↦ ⟨fun hnone ↦ (by cases hnone), fun _ ↦ h.2 failure rfl⟩
  | ok existing =>
    cases existing with
    | true =>
      refine leads_bind (fun _ found _ ↦
        Accepted hash pool encodedHash bytes pack objects account ∧
          ¬ Blocked pool encodedHash bytes pack reserved objects account ∧ found = objects)
        (leads_removeFile (fun found files _ h ↦ ?_) fun found files h ↦ ?_) fun _ ↦
          leads_pure fun _ _ h ↦ ⟨fun _ ↦ .inl h, fun hnone ↦ absurd rfl hnone⟩
      · obtain ⟨haccepted, -, hsame, -⟩ := h.1 true rfl
        exact ⟨(haccepted rfl).1, (haccepted rfl).2, hsame⟩
      · obtain ⟨haccepted, -, hsame, -⟩ := h.1 true rfl
        exact ⟨(haccepted rfl).1, (haccepted rfl).2, hsame⟩
    | false =>
      refine Leads.mono (leads_assume fun hother : ¬ Accepted hash pool encodedHash bytes pack
        objects account ↦ leads_bind (fun result found files ↦
          (∀ value, result = .ok value →
            Cleared encodedHash pack temporary bytes account objects found files) ∧
              ∀ failure, result = .error failure → False)
            (leads_attempt leads_deleteExisting_quiet) fun deleted ↦ ?_)
              (fun found files h ↦ ?_) (fun _ _ _ h ↦ h) fun _ _ h ↦ h
      · cases deleted with
        | error failure => exact fun _ h ↦ (h.2.2 failure rfl).elim
        | ok value =>
          refine Leads.mono leads_reserveAndUpload_quiet (fun _ _ h ↦ h.1 () rfl)
            (fun ended found files h ↦ ?_) fun _ _ h ↦ h
          exact ⟨fun _ ↦ .inr ⟨hother, h.2⟩, fun hnone ↦ absurd h.1 hnone⟩
      · obtain ⟨-, hother, hsame⟩ := h.1 false rfl
        exact ⟨hother rfl, hsame⟩

/-- The loop over the accounts, while no call fails: blocked accounts are passed, and the first
other one ends the put. -/
theorem leads_putAccounts_quiet
    (htemporary : ∀ sequence,
      temporaryPath pool.options.tempDir encodedHash sequence "verify" ≠ temporary)
    (accounts : List MegaAccount) (progress : PutProgress) :
    Leads env True reserved (fun found files ↦ found = objects ∧ files temporary = some bytes)
      (pool.putAccounts hash env encodedHash bytes pack temporary accounts progress)
      (fun _ found _ ↦ ∃ passed account others, accounts = passed ++ account :: others ∧
        (∀ other ∈ passed, Blocked pool encodedHash bytes pack reserved objects other) ∧
          Ended hash pool encodedHash bytes pack reserved objects account found)
      fun found _ ↦
        (∀ account ∈ accounts, Blocked pool encodedHash bytes pack reserved objects account) ∧
          found = objects := by
  induction accounts generalizing progress with
  | nil =>
    refine leads_bind (fun _ found _ ↦ found = objects)
      (leads_removeFile (fun _ _ _ h ↦ h.1) fun _ _ h ↦ h.1) fun _ ↦ ?_
    exact leads_lift (fun _ _ _ h ↦ by cases h) fun _ _ _ _ h ↦
      ⟨fun _ hmem ↦ absurd hmem not_mem_nil, h⟩
  | cons account rest ih =>
    refine leads_bind _ (leads_putAccount_quiet htemporary) fun ended ↦ ?_
    cases ended with
    | none =>
      refine leads_pure fun found files h ↦ ⟨[], account, rest, rfl, ?_, h.1 rfl⟩
      exact fun _ hmem ↦ absurd hmem not_mem_nil
    | some progress =>
      have hrest (hblocked : Blocked pool encodedHash bytes pack reserved objects account) :
          Leads env True reserved
            (fun found files ↦ found = objects ∧ files temporary = some bytes)
            (pool.putAccounts hash env encodedHash bytes pack temporary rest progress)
            (fun _ found _ ↦ ∃ passed other others, account :: rest = passed ++ other :: others ∧
              (∀ other ∈ passed, Blocked pool encodedHash bytes pack reserved objects other) ∧
                Ended hash pool encodedHash bytes pack reserved objects other found)
            fun found _ ↦ (∀ other ∈ account :: rest,
              Blocked pool encodedHash bytes pack reserved objects other) ∧ found = objects := by
        refine Leads.mono (ih progress) (fun _ _ h ↦ h) ?_ fun found files h ↦
          ⟨forall_mem_cons.mpr ⟨hblocked, h.1⟩, h.2⟩
        rintro value found files ⟨passed, other, others, hsplit, hpassed, hended⟩
        refine ⟨account :: passed, other, others, ?_, forall_mem_cons.mpr ⟨hblocked, hpassed⟩,
          hended⟩
        rw [hsplit, cons_append]
      refine Leads.mono (leads_assume hrest) (fun found files h ↦ ?_) (fun _ _ _ h ↦ h)
        fun _ _ h ↦ h
      exact h.2 (Option.some_ne_none progress)

end Quiet

/-! ### A put -/

variable {world : ColdWorld}

section Puts

variable {hash : Bytes → Digest} {env : Environment} {pool : MegaColdStoragePool} {reserved : ℕ}
  {request : PutRequest} {objects : Objects}

def Genuine (hash : Bytes → Digest) (request : PutRequest) : Prop :=
  validateHash request.encodedHash = .ok () ∧
    verifyEncodedBytes hash request.encodedHash request.bytes = .ok ()

/-- What the put of a request leaves while no call fails. -/
def PutEnds (hash : Bytes → Digest) (pool : MegaColdStoragePool) (reserved : ℕ)
    (request : PutRequest) (objects found : Objects) : Prop :=
  ∃ passed account others, pool.accounts = passed ++ account :: others ∧
    (∀ other ∈ passed, Blocked pool request.encodedHash request.bytes request.pack
      (reserved + request.bytes.length) objects other) ∧
    Ended hash pool request.encodedHash request.bytes request.pack
      (reserved + request.bytes.length) objects account found

theorem leads_put_quiet :
    Leads env True reserved (fun found _ ↦ found = objects) (put hash env pool request)
      (fun _ found _ ↦ Genuine hash request ∧ PutEnds hash pool reserved request objects found)
      fun found _ ↦ (Genuine hash request →
          request.bytes.length ≤ pool.options.tempSpaceBytes - reserved →
          ∀ account ∈ pool.accounts, Blocked pool request.encodedHash request.bytes request.pack
            (reserved + request.bytes.length) objects account) ∧ found = objects := by
  rw [put_eq]
  refine leads_bind (fun _ found _ ↦ validateHash request.encodedHash = .ok () ∧ found = objects)
    (leads_lift (fun _ _ _ hvalid h ↦ ⟨hvalid, h⟩) fun failure _ _ hfailure h ↦ ⟨?_, h⟩)
    fun _ ↦ leads_bind (fun _ found _ ↦ Genuine hash request ∧ found = objects)
      (leads_lift (fun _ _ _ hcheck h ↦ ⟨⟨h.1, hcheck⟩, h.2⟩)
        fun failure _ _ hfailure h ↦ ⟨?_, h.2⟩) fun _ ↦ leads_assume fun hgenuine ↦ ?_
  · rintro ⟨hvalid, -⟩
    rw [hvalid] at hfailure
    cases hfailure
  · rintro ⟨-, hcheck⟩
    rw [hcheck] at hfailure
    cases hfailure
  refine leads_reserveTemp (fun sequence ↦ leads_bind (fun _ found files ↦ found = objects ∧
    files (temporaryPath pool.options.tempDir request.encodedHash sequence "upload") =
      some request.bytes) (leads_writesFile ?_ (fun _ _ _ h ↦ by cases h)
        fun h ↦ absurd trivial h) fun _ ↦ Leads.mono
          (leads_putAccounts_quiet (fun _ ↦ temporaryPath_ne) pool.accounts _) (fun _ _ h ↦ h)
          (fun _ _ _ h ↦ ⟨hgenuine, h⟩) fun _ _ h ↦ ⟨fun _ _ ↦ h.1, h.2⟩) ?_
  · intro world content h hcontent
    rw [update_self]
    exact ⟨h, (Except.ok.inj hcontent).symm⟩
  · intro hfull found files h
    exact ⟨fun _ hroom ↦ absurd ⟨trivial, hroom⟩ hfull, h⟩

theorem Leads.run {process : ColdTask α} {after : α → Objects → Files → Prop}
    (h : Leads env True world.tempReserved (fun found _ ↦ found = world.objects) process after
      fails) (hquiet : Quiet env world.clock) :
    Quiet env (process world).final.clock ∧
      (process world).final.tempReserved = world.tempReserved ∧
      (∀ value, (process world).result = .ok value →
        after value (process world).final.objects (process world).final.files) ∧
      ∀ failure, (process world).result = .error failure →
        fails (process world).final.objects (process world).final.files := by
  obtain ⟨-, hok, herror⟩ := h world ⟨⟨rfl, fun _ ↦ hquiet⟩, rfl⟩
  have hsettled : Settled env True world.tempReserved (process world).final := by
    cases hresult : (process world).result with
    | ok value => exact (hok value hresult).1
    | error failure => exact (herror failure hresult).1
  exact ⟨hsettled.2 trivial, hsettled.1, fun value hvalue ↦ (hok value hvalue).2,
    fun failure hfailure ↦ (herror failure hfailure).2⟩

theorem Genuine.hash_eq (h : Genuine hash request) :
    (hash request.bytes).hex = request.encodedHash := by
  have hcheck := h.2
  rw [verifyEncodedBytes, throwIf_eq_ok, not_not] at hcheck
  exact hcheck

theorem PutEnds.ended_head {account : MegaAccount} {others : List MegaAccount} {found : Objects}
    (h : PutEnds hash pool reserved request objects found)
    (haccounts : pool.accounts = account :: others)
    (hfree : ¬ Blocked pool request.encodedHash request.bytes request.pack
      (reserved + request.bytes.length) objects account) :
    Ended hash pool request.encodedHash request.bytes request.pack
      (reserved + request.bytes.length) objects account found := by
  obtain ⟨passed, ending, rest, hsplit, hpassed, hended⟩ := h
  cases passed with
  | nil =>
    rw [haccounts, nil_append] at hsplit
    rw [(List.cons.inj hsplit).1]
    exact hended
  | cons first passed =>
    rw [haccounts, cons_append] at hsplit
    rw [(List.cons.inj hsplit).1] at hfree
    exact absurd (hpassed first mem_cons_self) hfree

end Puts

/-! ### Calls between two puts -/

section Calls

variable (hash : Bytes → Digest) (env : Environment) (pool : MegaColdStoragePool)

/-- The loop of `delete_encoded` and `delete_pack` over the accounts. -/
def deleteAccounts (encodedHash : Text) (pack : Bool) :
    List MegaAccount → Option StorageError → ColdTask Unit
  | [], none => pure ()
  | [], some failure => Process.fail failure
  | account :: rest, lastError => do
    match ← Process.attempt (objectSize env account (remotePath account encodedHash pack)) with
    | .ok (some _) => do
      match ← Process.attempt (deleteObject env account (remotePath account encodedHash pack)) with
      | .ok () => deleteAccounts encodedHash pack rest lastError
      | .error failure => deleteAccounts encodedHash pack rest (some failure)
    | .ok none => deleteAccounts encodedHash pack rest lastError
    | .error failure => deleteAccounts encodedHash pack rest (some failure)

/-- `delete_encoded` or `delete_pack`. -/
def deleteStored (encodedHash : Text) (pack : Bool) : ColdTask Unit := do
  lift (validateHash encodedHash)
  deleteAccounts env encodedHash pack pool.accounts none

inductive PoolCall
  | put (request : PutRequest)
  | read (encodedHash : Text) (pack : Bool)
  | delete (encodedHash : Text) (pack : Bool)

def afterCall (world : ColdWorld) : PoolCall → ColdWorld
  | .put request => (put hash env pool request world).final
  | .read encodedHash pack => (readObject hash env pool encodedHash pack world).final
  | .delete encodedHash pack => (deleteStored env pool encodedHash pack world).final

/-- The world after calls that are made one after the other. -/
def afterCalls (calls : List PoolCall) (world : ColdWorld) : ColdWorld :=
  calls.foldl (afterCall hash env pool) world

/-- A call that does not delete the object of a request or put other bytes under its name. -/
def Spares (request : PutRequest) : PoolCall → Prop
  | .put other => other.encodedHash = request.encodedHash → other.pack = request.pack →
    other.bytes = request.bytes
  | .read _ _ => True
  | .delete encodedHash pack => ¬ (encodedHash = request.encodedHash ∧ pack = request.pack)

variable {hash env pool} {reserved : ℕ} {request : PutRequest} {objects found : Objects}
  {account : MegaAccount}

/-- Objects that differ at most at the paths of one object in the accounts. -/
def DiffersAt (accounts : List MegaAccount) (encodedHash : Text) (pack : Bool)
    (objects found : Objects) : Prop :=
  ∀ store path, found store path = objects store path ∨
    ∃ account ∈ accounts, path = remotePath account encodedHash pack

variable {encodedHash : Text} {pack : Bool}

theorem leads_deleteAccounts {accounts : List MegaAccount} (hsubset : accounts ⊆ pool.accounts)
    (lastError : Option StorageError) :
    Leads env True reserved (fun found _ ↦ DiffersAt pool.accounts encodedHash pack objects found)
      (deleteAccounts env encodedHash pack accounts lastError)
      (fun _ found _ ↦ DiffersAt pool.accounts encodedHash pack objects found)
      fun found _ ↦ DiffersAt pool.accounts encodedHash pack objects found := by
  induction accounts generalizing lastError with
  | nil =>
    cases lastError with
    | none => exact leads_pure fun _ _ h ↦ h
    | some failure => exact leads_lift (fun _ _ _ _ h ↦ h) fun _ _ _ _ h ↦ h
  | cons account rest ih =>
    have hrest := ih (subset_of_cons_subset hsubset)
    have hdelete {world : ColdWorld} {content : Option Bytes}
        (h : DiffersAt pool.accounts encodedHash pack objects world.objects) :
        DiffersAt pool.accounts encodedHash pack objects
          (world.objects.put account.store (remotePath account encodedHash pack) content) := by
      intro store path
      by_cases hpath : path = remotePath account encodedHash pack
      · exact .inr ⟨account, hsubset mem_cons_self, hpath⟩
      · by_cases hstore : store = account.store
        · rw [Objects.put, hstore, update_self, update_of_ne hpath]
          exact h account.store path
        · rw [Objects.put, update_of_ne hstore]
          exact h store path
    refine leads_bind _ leads_answered fun size ↦ leads_assume ?_
    rintro ⟨size, rfl⟩
    cases size with
    | none => exact hrest lastError
    | some size =>
      have hremove : Leads env True reserved
          (fun found _ ↦ DiffersAt pool.accounts encodedHash pack objects found)
          (deleteObject env account (remotePath account encodedHash pack))
          (fun _ found _ ↦ DiffersAt pool.accounts encodedHash pack objects found)
          fun found _ ↦ DiffersAt pool.accounts encodedHash pack objects found :=
        leads_writesObject (fun _ _ h _ ↦ hdelete h) (fun _ _ _ h ↦ by cases h)
          fun h ↦ absurd trivial h
      refine leads_bind _ (leads_ignored hremove) fun deleted ↦ ?_
      cases deleted with
      | ok value => exact hrest lastError
      | error failure => exact hrest (some failure)

theorem leads_deleteStored :
    Leads env True reserved (fun found _ ↦ found = objects)
      (deleteStored env pool encodedHash pack)
      (fun _ found _ ↦ found = objects ∨ validateHash encodedHash = .ok () ∧
        DiffersAt pool.accounts encodedHash pack objects found)
      fun found _ ↦ found = objects ∨ validateHash encodedHash = .ok () ∧
        DiffersAt pool.accounts encodedHash pack objects found := by
  refine leads_bind (fun _ found _ ↦ validateHash encodedHash = .ok () ∧ found = objects)
    (leads_lift (fun _ _ _ hvalid h ↦ ⟨hvalid, h⟩) fun _ _ _ _ h ↦ .inl h) fun _ ↦
      leads_assume fun hvalid ↦ ?_
  refine Leads.mono (leads_deleteAccounts (List.Subset.refl _) none) (fun found _ h ↦ ?_)
    (fun _ _ _ h ↦ .inr ⟨hvalid, h⟩) fun _ _ h ↦ .inr ⟨hvalid, h⟩
  rw [h]
  exact fun _ _ ↦ .inl rfl

theorem length_of_validateHash (h : validateHash encodedHash = .ok ()) :
    encodedHash.length = 64 := by
  rw [validateHash, throwIf_eq_ok, not_not, utf8_hash_iff] at h
  exact h.1

theorem Objects.put_of_ne {store other : ℕ} {path second : Text} {content : Option Bytes}
    (h : ¬ (store = other ∧ path = second)) :
    objects.put other second content store path = objects store path := by
  unfold Objects.put
  by_cases hstore : store = other
  · rw [hstore, update_self, update_of_ne fun hpath ↦ h ⟨hstore, hpath⟩]
  · rw [update_of_ne hstore]

theorem Accepted.of_same {bytes : Bytes}
    (h : Accepted hash pool encodedHash bytes pack objects account)
    (hsame : found account.store (remotePath account encodedHash pack) =
      objects account.store (remotePath account encodedHash pack)) :
    Accepted hash pool encodedHash bytes pack found account := by
  obtain ⟨content, hcontent, haccepted⟩ := h
  exact ⟨content, hsame.trans hcontent, haccepted⟩

theorem Accepted.keep_put {other : PutRequest}
    (h : Accepted hash pool request.encodedHash request.bytes request.pack objects account)
    (hlength : request.encodedHash.length = 64) (hspares : Spares request (.put other))
    (hgenuine : Genuine hash other) (hends : PutEnds hash pool reserved other objects found) :
    Accepted hash pool request.encodedHash request.bytes request.pack found account := by
  obtain ⟨-, ending, -, -, -, ⟨-, -, hsame⟩ | ⟨hother, hput⟩⟩ := hends
  · rw [hsame]
    exact h
  · refine h.of_same ?_
    rw [hput]
    refine Objects.put_of_ne fun hplace ↦ hother ?_
    obtain ⟨hhash, hpack⟩ := remotePath_inj
      (hlength.trans (length_of_validateHash hgenuine.1).symm) hplace.2
    have hbytes := hspares hhash.symm hpack.symm
    obtain ⟨content, hcontent, hsize, hchecked⟩ := h
    refine ⟨content, ?_, hsize.trans (congrArg List.length hbytes.symm), fun hverify ↦ ?_⟩
    · rw [← hplace.1, ← hplace.2]
      exact hcontent
    · rw [← hhash]
      exact hchecked hverify

theorem settled_afterCall {call : PoolCall} (hquiet : Quiet env world.clock)
    (hlength : request.encodedHash.length = 64) (hspares : Spares request call) :
    Quiet env (afterCall hash env pool world call).clock ∧
      (afterCall hash env pool world call).tempReserved = world.tempReserved ∧
      (Accepted hash pool request.encodedHash request.bytes request.pack world.objects account →
        Accepted hash pool request.encodedHash request.bytes request.pack
          (afterCall hash env pool world call).objects account) := by
  cases call with
  | put other =>
    obtain ⟨hlater, hreserved, hok, herror⟩ := Leads.run leads_put_quiet hquiet
    refine ⟨hlater, hreserved, fun h ↦ ?_⟩
    cases hresult : (put hash env pool other world).result with
    | ok value =>
      obtain ⟨hgenuine, hends⟩ := hok value hresult
      exact h.keep_put hlength hspares hgenuine hends
    | error failure => exact h.of_same (by rw [afterCall, (herror failure hresult).2])
  | read encodedHash pack =>
    obtain ⟨hlater, hreserved, hok, herror⟩ := Leads.run (leads_readObject []) hquiet
    refine ⟨hlater, hreserved, fun h ↦ ?_⟩
    cases hresult : (readObject hash env pool encodedHash pack world).result with
    | ok value => exact h.of_same (by rw [afterCall, (hok value hresult).2])
    | error failure => exact h.of_same (by rw [afterCall, (herror failure hresult).2])
  | delete encodedHash pack =>
    obtain ⟨hlater, hreserved, hok, herror⟩ := Leads.run leads_deleteStored hquiet
    refine ⟨hlater, hreserved, fun h ↦ ?_⟩
    have hchanged : (deleteStored env pool encodedHash pack world).final.objects = world.objects ∨
        validateHash encodedHash = .ok () ∧ DiffersAt pool.accounts encodedHash pack world.objects
          (deleteStored env pool encodedHash pack world).final.objects := by
      cases hresult : (deleteStored env pool encodedHash pack world).result with
      | ok value => exact hok value hresult
      | error failure => exact herror failure hresult
    rcases hchanged with hsame | ⟨hvalid, hdiffers⟩
    · exact h.of_same (by rw [afterCall, hsame])
    · refine h.of_same ?_
      rcases hdiffers account.store (remotePath account request.encodedHash request.pack) with
        hsame | ⟨deleted, -, hpath⟩
      · exact hsame
      · obtain ⟨hhash, hpack⟩ :=
          remotePath_inj (hlength.trans (length_of_validateHash hvalid).symm) hpath
        exact absurd ⟨hhash.symm, hpack.symm⟩ hspares

theorem settled_afterCalls {calls : List PoolCall} (hquiet : Quiet env world.clock)
    (hlength : request.encodedHash.length = 64) (hspares : ∀ call ∈ calls, Spares request call) :
    Quiet env (afterCalls hash env pool calls world).clock ∧
      (afterCalls hash env pool calls world).tempReserved = world.tempReserved ∧
      (Accepted hash pool request.encodedHash request.bytes request.pack world.objects account →
        Accepted hash pool request.encodedHash request.bytes request.pack
          (afterCalls hash env pool calls world).objects account) := by
  induction calls generalizing world with
  | nil => exact ⟨hquiet, rfl, id⟩
  | cons call rest ih =>
    obtain ⟨hcall, hrest⟩ := forall_mem_cons.mp hspares
    obtain ⟨hlater, hreserved, haccepted⟩ := settled_afterCall hquiet hlength hcall
    obtain ⟨hend, hsame, hkept⟩ := ih hlater hrest
    exact ⟨hend, hsame.trans hreserved, fun h ↦ hkept (haccepted h)⟩

end Calls

/-! ### The result -/

section Result

variable {hash : Bytes → Digest} {env : Environment} {pool : MegaColdStoragePool}
  {request : PutRequest} {objects found : Objects} {account : MegaAccount}

theorem accepted_bytes (hgenuine : Genuine hash request)
    (h : objects account.store (remotePath account request.encodedHash request.pack) =
      some request.bytes) :
    Accepted hash pool request.encodedHash request.bytes request.pack objects account :=
  ⟨request.bytes, h, rfl, fun _ ↦ hgenuine.hash_eq⟩

theorem Ended.accepted {reserved : ℕ} (hgenuine : Genuine hash request)
    (h : Ended hash pool request.encodedHash request.bytes request.pack reserved objects account
      found) :
    Accepted hash pool request.encodedHash request.bytes request.pack found account := by
  rcases h with ⟨haccepted, -, hsame⟩ | ⟨-, hput⟩
  · rw [hsame]
    exact haccepted
  · refine accepted_bytes hgenuine ?_
    rw [hput]
    exact Objects.put_self

/-- Two objects of the size fit into the temporary space, or none has to be checked. -/
def Fits (pool : MegaColdStoragePool) (request : PutRequest) : Prop :=
  pool.options.verifyExisting = false ∨ 2 * request.bytes.length ≤ pool.options.tempSpaceBytes

theorem Fits.not_blocked (h : Fits pool request) :
    ¬ Blocked pool request.encodedHash request.bytes request.pack (0 + request.bytes.length)
      objects account := by
  rintro ⟨hverify, -, hfull⟩
  rcases h with hunverified | hfits
  · rw [hunverified] at hverify
    cases hverify
  · omega

theorem ne_of_ended (hgenuine : Genuine hash request) (hfits : ¬ Fits pool request)
    (h : Ended hash pool request.encodedHash request.bytes request.pack (0 + request.bytes.length)
      objects account found) : found ≠ objects := by
  rcases h with ⟨⟨content, hcontent, hsize, -⟩, hfree, -⟩ | ⟨hother, hput⟩
  · refine absurd ⟨?_, ⟨content, hcontent, hsize⟩, ?_⟩ hfree
    · by_contra hverify
      exact hfits (.inl (Bool.eq_false_iff.mpr hverify))
    · by_contra hroom
      exact hfits (.inr (by omega))
  · rintro rfl
    refine hother (accepted_bytes hgenuine ?_)
    rw [hput]
    exact Objects.put_self

/-- A put that has succeeded is repeated with success and without an upload, whatever the pool is
called for in between, exactly when the objects are not checked or two of its size fit into the
temporary space. -/
theorem put_again_iff {start : ColdWorld} (hquiet : Quiet env start.clock)
    (hfree : start.tempReserved = 0)
    (hput : (put hash env pool request start).result = .ok ()) {calls : List PoolCall}
    (hspares : ∀ call ∈ calls, Spares request call) :
    let later := afterCalls hash env pool calls (put hash env pool request start).final
    ((put hash env pool request later).result = .ok () ∧
      (put hash env pool request later).final.objects = later.objects) ↔ Fits pool request := by
  intro later
  obtain ⟨hnext, hreserved, hok, -⟩ := Leads.run leads_put_quiet hquiet
  obtain ⟨hgenuine, hends⟩ := hok () hput
  rw [hfree] at hends hreserved
  obtain ⟨account, others, haccounts⟩ : ∃ account others, pool.accounts = account :: others := by
    obtain ⟨passed, ending, rest, hsplit, -⟩ := hends
    exact exists_cons_of_ne_nil (by rw [hsplit]; simp)
  obtain ⟨hlater, hlaterReserved, hkept⟩ :=
    settled_afterCalls hnext (length_of_validateHash hgenuine.1) hspares
  obtain ⟨-, -, hagain, hfailed⟩ := Leads.run leads_put_quiet hlater
  rw [hlaterReserved, hreserved] at hagain hfailed
  constructor
  · rintro ⟨hresult, hsame⟩
    by_contra hfits
    obtain ⟨-, passed, ending, rest, -, -, hended⟩ := hagain () hresult
    exact ne_of_ended hgenuine hfits hended hsame
  · intro hfits
    have hstored := hkept ((hends.ended_head haccounts hfits.not_blocked).accepted hgenuine)
    cases hresult : (put hash env pool request later).result with
    | ok value =>
      obtain ⟨-, hended⟩ := hagain value hresult
      rcases hended.ended_head haccounts hfits.not_blocked with ⟨-, -, hsame⟩ | ⟨hother, -⟩
      · exact ⟨rfl, hsame⟩
      · exact absurd hstored hother
    | error failure =>
      have hroom := room_of_put hput
      rw [hfree] at hroom
      have hblocked := (hfailed failure hresult).1 hgenuine hroom account
        (by rw [haccounts]; exact mem_cons_self)
      exact absurd hblocked hfits.not_blocked

/-- Room for a hundred bytes: the frame is put twice. -/
theorem frame_put_again :
    (put hashOfFrame quietAccount oneAccount ⟨frameDigest.hex, frame, false⟩
      (afterCalls hashOfFrame quietAccount oneAccount []
        (put hashOfFrame quietAccount oneAccount ⟨frameDigest.hex, frame, false⟩
          emptyWorld).final)).result = .ok () := by
  have hfits : Fits oneAccount ⟨frameDigest.hex, frame, false⟩ := .inr (by decide)
  have hspares : ∀ call ∈ ([] : List PoolCall), Spares ⟨frameDigest.hex, frame, false⟩ call :=
    fun _ h ↦ absurd h not_mem_nil
  have hput : (put hashOfFrame quietAccount oneAccount ⟨frameDigest.hex, frame, false⟩
      emptyWorld).result = .ok () := rfl
  exact ((put_again_iff (fun _ _ ↦ rfl) rfl hput hspares).mpr hfits).1

/-- One account and temporary space for fifteen bytes. -/
def smallSpace : MegaColdStoragePool :=
  { oneAccount with options := ⟨true, "mega-temp", 15⟩ }

/-- The ten bytes of the frame fit into the temporary space once: they are put, and the same put
fails afterwards. -/
theorem frame_not_put_again :
    (put hashOfFrame quietAccount smallSpace ⟨frameDigest.hex, frame, false⟩
        emptyWorld).result = .ok () ∧
      frame.length ≤ smallSpace.options.tempSpaceBytes ∧
      (put hashOfFrame quietAccount smallSpace ⟨frameDigest.hex, frame, false⟩
        (put hashOfFrame quietAccount smallSpace ⟨frameDigest.hex, frame, false⟩
          emptyWorld).final).result = .error (.needsCapacity 10 5) :=
  ⟨rfl, by decide, rfl⟩

end Result

end GameLauncher.ColdStorage
