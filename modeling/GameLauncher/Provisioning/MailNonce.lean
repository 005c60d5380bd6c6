import GameLauncher.Foundation.Table
import GameLauncher.Provisioning.EmailIngest

/-!
# The nonces of mails

The ingest handler claims the nonce of a mail after it has verified the signature, and keeps it
until the signature expires, so that a copy of the request is recognised. `claims` lists what was
claimed in a sequence of deliveries.

The age of a signature is cut off to whole seconds, and so a mail is accepted during one second in
which its nonce is no longer kept. `mail_nonce_claimed_once` says that a delivery is claimed once
when no replay arrives after the nonce was dropped; where every nonce is signed with one timestamp,
this is exactly when.
-/

set_option autoImplicit false

namespace GameLauncher.Provisioning

open Foundation Fallible List Table

/-! ### The store -/

/-- A row of `provisioning_mail_nonces`, or an entry of the map in memory. -/
structure MailNonce where
  nonce : Text
  expiresAt : ℤ
  deriving DecidableEq, Repr

abbrev NonceTable : Type := Table MailNonce MailNonce.nonce

def keptNonces (table : NonceTable) (now : ℤ) : NonceTable :=
  table.deleteWhere fun row ↦ row.expiresAt ≤ now

/-- `claim_mail_nonce`: was the nonce not claimed before? -/
def StoreKind.claimMailNonce (kind : StoreKind) (table : NonceTable) (nonce : Text)
    (expiresAt now : ℤ) : Except ProvisioningError Bool × NonceTable :=
  match kind.checkText nonce "mail nonce" with
  | .error failure => (.error failure, table)
  | .ok () =>
    if ((keptNonces table now).find nonce).isSome = true then (.ok false, keptNonces table now)
    else (.ok true, (keptNonces table now).upsert ⟨nonce, expiresAt⟩)

/-! ### The handler -/

/-- The configuration of the handler. -/
structure MailGate where
  kind : StoreKind
  hashes : MailHashes
  secret : Bytes
  clockSkewSeconds : ℤ

/-- A request, with the times at which it is verified and at which its nonce is claimed. -/
structure Delivery where
  headers : List (Text × Text)
  body : Bytes
  verifiedAt : ℤ
  claimedAt : ℤ
  deriving DecidableEq, Repr

namespace MailGate

variable (gate : MailGate)

/-- The timestamp and the nonce of a request that the handler accepts. -/
def verified (delivery : Delivery) : Option (ℤ × Text) :=
  match ingestHeaders delivery.headers with
  | .error _ => none
  | .ok headers =>
    match verifyEmailIngest gate.hashes headers gate.secret delivery.body delivery.verifiedAt
        gate.clockSkewSeconds with
    | .error _ => none
    | .ok verification => some (verification.timestamp, verification.nonce)

def nonceExpiresAt (timestamp : ℤ) : ℤ :=
  timestamp * nanosecondsPerSecond + gate.clockSkewSeconds * nanosecondsPerSecond

/-- One request: the pair that it claims, and the store that it leaves. -/
def receive (table : NonceTable) (delivery : Delivery) : Option (ℤ × Text) × NonceTable :=
  match gate.verified delivery with
  | none => (none, table)
  | some pair =>
    match gate.kind.claimMailNonce table pair.2 (gate.nonceExpiresAt pair.1) delivery.claimedAt with
    | (.ok true, after) => (some pair, after)
    | (_, after) => (none, after)

/-- What a sequence of requests claims, in order. -/
def claims : NonceTable → List Delivery → List (ℤ × Text)
  | _, [] => []
  | table, delivery :: rest =>
    (gate.receive table delivery).1.toList ++ claims (gate.receive table delivery).2 rest

/-- The store after a sequence of requests. -/
def storeAfter : NonceTable → List Delivery → NonceTable
  | table, [] => table
  | table, delivery :: rest => storeAfter (gate.receive table delivery).2 rest

/-- The pair of a request whose nonce the store looks up. -/
def claimable (delivery : Delivery) : Option (ℤ × Text) :=
  (gate.verified delivery).filter fun pair ↦
    (gate.kind.checkText pair.2 "mail nonce").toOption.isSome

/-- No request between a delivery and its replay comes when the nonce is dropped, nor the replay
itself. -/
def Retained (deliveries : List Delivery) : Prop :=
  ∀ before first between last after, deliveries = before ++ first :: (between ++ last :: after) →
    ∀ pair, gate.claimable first = some pair → gate.claimable last = some pair →
    ∀ delivery ∈ between ++ [last], (gate.claimable delivery).isSome = true →
      delivery.claimedAt < gate.nonceExpiresAt pair.1

/-- Every nonce is signed with one timestamp. -/
def SignsOnce (deliveries : List Delivery) : Prop :=
  ∀ first ∈ deliveries, ∀ second ∈ deliveries, ∀ one two, gate.claimable first = some one →
    gate.claimable second = some two → one.2 = two.2 → one = two

end MailGate

/-! ### One request -/

variable {row : MailNonce} {deliveries : List Delivery}

section Steps

variable {gate : MailGate} {table : NonceTable} {delivery : Delivery} {pair : ℤ × Text}

theorem mem_keptNonces {now : ℤ} :
    row ∈ keptNonces table now ↔ row ∈ table ∧ now < row.expiresAt := by
  rw [keptNonces, mem_deleteWhere, decide_eq_false_iff_not, not_le]

/-- A request that is not looked up changes nothing. -/
theorem receive_of_none (h : gate.claimable delivery = none) :
    gate.receive table delivery = (none, table) := by
  unfold MailGate.receive
  unfold MailGate.claimable at h
  cases hverified : gate.verified delivery with
  | none => rfl
  | some pair =>
    rw [hverified, Option.filter_some] at h
    unfold StoreKind.claimMailNonce
    cases hcheck : gate.kind.checkText pair.2 "mail nonce" with
    | error failure => simp only [hcheck]
    | ok _ =>
      rw [hcheck] at h
      cases h

theorem receive_of_some (h : gate.claimable delivery = some pair) :
    gate.receive table delivery =
      if ((keptNonces table delivery.claimedAt).find pair.2).isSome = true then
        (none, keptNonces table delivery.claimedAt)
      else (some pair, (keptNonces table delivery.claimedAt).upsert
        ⟨pair.2, gate.nonceExpiresAt pair.1⟩) := by
  unfold MailGate.claimable at h
  obtain ⟨hverified, hvalid⟩ := Option.filter_eq_some_iff.mp h
  unfold MailGate.receive StoreKind.claimMailNonce
  cases hcheck : gate.kind.checkText pair.2 "mail nonce" with
  | error failure =>
    rw [hcheck] at hvalid
    cases hvalid
  | ok _ =>
    simp only [hverified, hcheck]
    split_ifs <;> rfl

theorem claimable_of_claims (h : pair ∈ gate.claims table deliveries) :
    ∃ delivery ∈ deliveries, gate.claimable delivery = some pair := by
  induction deliveries generalizing table with
  | nil => exact absurd h not_mem_nil
  | cons delivery rest ih =>
    rcases mem_append.mp h with hhead | hrest
    · refine ⟨delivery, mem_cons_self, ?_⟩
      cases hclaimable : gate.claimable delivery with
      | none =>
        rw [receive_of_none hclaimable] at hhead
        exact absurd hhead not_mem_nil
      | some other =>
        rw [receive_of_some hclaimable] at hhead
        split_ifs at hhead
        · exact absurd hhead not_mem_nil
        · rw [Option.toList_some, mem_singleton] at hhead
          rw [hhead]
    · obtain ⟨other, hother, hclaimable⟩ := ih hrest
      exact ⟨other, mem_cons_of_mem _ hother, hclaimable⟩

theorem mem_receive (hrow : row ∈ table)
    (htime : (gate.claimable delivery).isSome = true → delivery.claimedAt < row.expiresAt) :
    row ∈ (gate.receive table delivery).2 := by
  cases hclaimable : gate.claimable delivery with
  | none => rwa [receive_of_none hclaimable]
  | some other =>
    have hkept : row ∈ keptNonces table delivery.claimedAt :=
      mem_keptNonces.mpr ⟨hrow, htime (hclaimable ▸ rfl)⟩
    rw [receive_of_some hclaimable]
    split_ifs with hfound
    · exact hkept
    · refine mem_upsert.mpr (.inr ⟨hkept, fun hsame ↦ hfound ?_⟩)
      exact Option.isSome_iff_exists.mpr ⟨row, find_eq_some.mpr ⟨hkept, hsame⟩⟩

theorem receive_of_kept (hrow : row ∈ table) (hnonce : row.nonce = pair.2)
    (hclaimable : gate.claimable delivery = some pair) (htime : delivery.claimedAt < row.expiresAt)
    : (gate.receive table delivery).1 = none := by
  have hkept : row ∈ keptNonces table delivery.claimedAt := mem_keptNonces.mpr ⟨hrow, htime⟩
  rw [receive_of_some hclaimable, if_pos]
  exact Option.isSome_iff_exists.mpr ⟨row, find_eq_some.mpr ⟨hkept, hnonce⟩⟩

end Steps

/-! ### A nonce that is kept -/

section Replays

variable {gate : MailGate} {pair : ℤ × Text}

theorem notMem_claims_of_kept {table : NonceTable}
    (hrow : ⟨pair.2, gate.nonceExpiresAt pair.1⟩ ∈ table)
    (hkept : ∀ between last after, deliveries = between ++ last :: after →
      gate.claimable last = some pair → ∀ delivery ∈ between ++ [last],
      (gate.claimable delivery).isSome = true → delivery.claimedAt < gate.nonceExpiresAt pair.1) :
    pair ∉ gate.claims table deliveries := by
  induction deliveries generalizing table with
  | nil => exact not_mem_nil
  | cons delivery rest ih =>
    by_cases hreplay : ∃ last ∈ delivery :: rest, gate.claimable last = some pair
    · obtain ⟨last, hlast, hclaimable⟩ := hreplay
      obtain ⟨between, after, hsplit⟩ := append_of_mem hlast
      have hhead : (gate.claimable delivery).isSome = true →
          delivery.claimedAt < gate.nonceExpiresAt pair.1 := by
        refine hkept between last after hsplit hclaimable delivery ?_
        cases between with
        | nil => rw [(List.cons.inj hsplit).1]; exact mem_singleton_self _
        | cons first between =>
          rw [(List.cons.inj hsplit).1]
          exact mem_cons_self
      rw [MailGate.claims, mem_append, not_or]
      refine ⟨fun hclaim ↦ ?_, ih (mem_receive hrow hhead) fun between last after hrest ↦ ?_⟩
      · obtain ⟨other, hother, hpair⟩ := claimable_of_claims
          (show pair ∈ gate.claims table [delivery] from mem_append_left _ hclaim)
        rw [mem_singleton.mp hother] at hpair
        rw [receive_of_kept hrow rfl hpair (hhead (hpair ▸ rfl))] at hclaim
        exact not_mem_nil hclaim
      · intro hclaimable other hother
        refine hkept (delivery :: between) last after (by rw [hrest, cons_append])
          hclaimable other (mem_cons_of_mem _ hother)
    · exact fun hclaim ↦ hreplay (claimable_of_claims hclaim)

theorem MailGate.Retained.tail {delivery : Delivery} {rest : List Delivery}
    (h : gate.Retained (delivery :: rest)) : gate.Retained rest :=
  fun before first between last after hsplit ↦
    h (delivery :: before) first between last after (by rw [hsplit, cons_append])

theorem nodup_claims_of_retained {table : NonceTable} (h : gate.Retained deliveries) :
    (gate.claims table deliveries).Nodup := by
  induction deliveries generalizing table with
  | nil => exact nodup_nil
  | cons delivery rest ih =>
    rw [MailGate.claims, nodup_append']
    refine ⟨?_, ih h.tail, fun pair hhead hrest ↦ ?_⟩
    · cases (gate.receive table delivery).1 with
      | none => exact nodup_nil
      | some pair => exact nodup_singleton pair
    · obtain ⟨other, hother, hclaimable⟩ := claimable_of_claims
        (show pair ∈ gate.claims table [delivery] from mem_append_left _ hhead)
      rw [mem_singleton.mp hother] at hclaimable
      refine notMem_claims_of_kept ?_ (fun between last after hsplit hlast ↦
        h [] delivery between last after (by rw [hsplit, nil_append]) pair hclaimable hlast) hrest
      rw [receive_of_some hclaimable] at hhead ⊢
      split_ifs at hhead ⊢
      · exact absurd hhead not_mem_nil
      · exact mem_upsert.mpr (.inl rfl)

end Replays

/-! ### A nonce that was dropped -/

section Dropped

variable {gate : MailGate} {pair : ℤ × Text}

theorem claims_append (table : NonceTable) (first second : List Delivery) :
    gate.claims table (first ++ second) =
      gate.claims table first ++ gate.claims (gate.storeAfter table first) second := by
  induction first generalizing table with
  | nil => rfl
  | cons delivery rest ih =>
    rw [cons_append, MailGate.claims, ih, MailGate.claims, MailGate.storeAfter, append_assoc]

theorem mem_storeAfter {table : NonceTable} (h : row ∈ gate.storeAfter table deliveries) :
    row ∈ table ∨ ∃ one ∈ gate.claims table deliveries,
      row = ⟨one.2, gate.nonceExpiresAt one.1⟩ := by
  induction deliveries generalizing table with
  | nil => exact .inl h
  | cons delivery rest ih =>
    rcases ih h with hrow | ⟨one, hone, heq⟩
    · cases hclaimable : gate.claimable delivery with
      | none =>
        rw [receive_of_none hclaimable] at hrow
        exact .inl hrow
      | some other =>
        rw [receive_of_some hclaimable] at hrow
        split_ifs at hrow with hfound
        · exact .inl (mem_keptNonces.mp hrow).1
        · rcases mem_upsert.mp hrow with hnew | ⟨hold, -⟩
          · refine .inr ⟨other, mem_append_left _ ?_, hnew⟩
            rw [receive_of_some hclaimable, if_neg hfound]
            exact mem_singleton_self _
          · exact .inl (mem_keptNonces.mp hold).1
    · exact .inr ⟨one, mem_append_right _ hone, heq⟩

theorem mem_claims_of_absent {table : NonceTable} (habsent : ∀ row ∈ table, row.nonce ≠ pair.2)
    (honce : ∀ delivery ∈ deliveries, ∀ other, gate.claimable delivery = some other →
      other.2 = pair.2 → other = pair)
    (hlast : ∃ last ∈ deliveries, gate.claimable last = some pair) :
    pair ∈ gate.claims table deliveries := by
  induction deliveries generalizing table with
  | nil =>
    obtain ⟨last, hlast, -⟩ := hlast
    exact absurd hlast not_mem_nil
  | cons delivery rest ih =>
    by_cases hsame : gate.claimable delivery = some pair
    · refine mem_append_left _ ?_
      rw [receive_of_some hsame, if_neg]
      · exact mem_singleton_self _
      · rw [Option.not_isSome_iff_eq_none, find_eq_none]
        exact fun row hrow ↦ habsent row (mem_keptNonces.mp hrow).1
    · refine mem_append_right _ (ih ?_ ?_ ?_)
      · intro row hrow
        rcases mem_storeAfter (show row ∈ gate.storeAfter table [delivery] from hrow) with
          hold | ⟨one, hone, rfl⟩
        · exact habsent row hold
        · obtain ⟨other, hother, hclaimable⟩ := claimable_of_claims hone
          rw [mem_singleton.mp hother] at hclaimable
          intro hnonce
          exact hsame (honce delivery mem_cons_self one hclaimable hnonce ▸ hclaimable)
      · exact fun other hother ↦ honce other (mem_cons_of_mem _ hother)
      · obtain ⟨last, hlast, hclaimable⟩ := hlast
        rcases mem_cons.mp hlast with rfl | hrest
        · exact absurd hclaimable hsame
        · exact ⟨last, hrest, hclaimable⟩

theorem mem_claims_of_dropped {table : NonceTable} {between after : List Delivery}
    {last late : Delivery}
    (hrows : ∀ row ∈ table, row.nonce = pair.2 → row.expiresAt = gate.nonceExpiresAt pair.1)
    (honce : ∀ delivery ∈ between ++ last :: after, ∀ other,
      gate.claimable delivery = some other → other.2 = pair.2 → other = pair)
    (hlast : gate.claimable last = some pair) (hlate : late ∈ between ++ [last])
    (hlooked : (gate.claimable late).isSome = true)
    (htime : gate.nonceExpiresAt pair.1 ≤ late.claimedAt) :
    pair ∈ gate.claims table (between ++ last :: after) := by
  have hdropped {row : MailNonce} (hrow : row ∈ keptNonces table late.claimedAt) :
      row.nonce ≠ pair.2 := by
    intro hnonce
    obtain ⟨hmem, hexpires⟩ := mem_keptNonces.mp hrow
    rw [hrows row hmem hnonce] at hexpires
    exact absurd hexpires (not_lt.mpr htime)
  induction between generalizing table with
  | nil =>
    rw [nil_append, mem_singleton] at hlate
    subst hlate
    refine mem_append_left _ ?_
    rw [receive_of_some hlast, if_neg]
    · exact mem_singleton_self _
    · rw [Option.not_isSome_iff_eq_none, find_eq_none]
      exact fun row hrow ↦ hdropped hrow
  | cons delivery between ih =>
    by_cases hsame : gate.claimable delivery = some pair ∧
        (gate.receive table delivery).1 = some pair
    · refine mem_append_left _ ?_
      rw [hsame.2]
      exact mem_singleton_self _
    · have hnew {row : MailNonce} (hrow : row ∈ (gate.receive table delivery).2)
          (hnonce : row.nonce = pair.2) : row ∈ table := by
        rcases mem_storeAfter (show row ∈ gate.storeAfter table [delivery] from hrow) with
          hold | ⟨one, hone, rfl⟩
        · exact hold
        · obtain ⟨other, hother, hclaimable⟩ := claimable_of_claims hone
          rw [mem_singleton.mp hother] at hclaimable
          have hpair := honce delivery (mem_append_left _ mem_cons_self) one hclaimable
            hnonce
          subst hpair
          refine absurd ⟨hclaimable, ?_⟩ hsame
          simp only [MailGate.claims, append_nil, Option.mem_toList] at hone
          exact hone
      have hrest : ∀ other ∈ between ++ last :: after, ∀ one, gate.claimable other = some one →
          one.2 = pair.2 → one = pair :=
        fun other hother ↦ honce other (mem_cons_of_mem _ hother)
      rcases mem_cons.mp hlate with rfl | hlater
      · -- the nonce is gone, and the replay is still to come
        refine mem_append_right _ (mem_claims_of_absent ?_ hrest
          ⟨last, mem_append_right _ mem_cons_self, hlast⟩)
        intro row hrow hnonce
        obtain ⟨other, hother⟩ := Option.isSome_iff_exists.mp hlooked
        have hmem := hnew hrow hnonce
        rw [receive_of_some hother] at hrow
        split_ifs at hrow with hfound
        · exact hdropped hrow hnonce
        · rcases mem_upsert.mp hrow with rfl | ⟨hold, -⟩
          · have hpair := honce late (mem_append_left _ mem_cons_self) other hother hnonce
            subst hpair
            refine hsame ⟨hother, ?_⟩
            rw [receive_of_some hother, if_neg hfound]
          · exact hdropped hold hnonce
      · refine mem_append_right _ (ih (fun row hrow hnonce ↦ hrows row (hnew hrow hnonce)
          hnonce) hrest hlater fun hrow hnonce ↦ ?_)
        obtain ⟨hmem, hexpires⟩ := mem_keptNonces.mp hrow
        exact hdropped (mem_keptNonces.mpr ⟨hnew hmem hnonce, hexpires⟩) hnonce

theorem retained_of_nodup (hsigns : gate.SignsOnce deliveries)
    (h : (gate.claims .empty deliveries).Nodup) : gate.Retained deliveries := by
  intro before first between last after hsplit pair hfirst hlast late hlate hlooked
  by_contra htime
  rw [not_lt] at htime
  have hone {delivery : Delivery} (hmem : delivery ∈ deliveries) {other : ℤ × Text}
      (hother : gate.claimable delivery = some other) (hnonce : other.2 = pair.2) :
      other = pair :=
    hsigns delivery hmem first (hsplit ▸ mem_append_right _ mem_cons_self) other pair
      hother hfirst hnonce
  have hparts : deliveries = (before ++ [first]) ++ (between ++ last :: after) := by
    rw [hsplit, append_assoc, singleton_append]
  have hfront : pair ∈ gate.claims .empty (before ++ [first]) := by
    refine mem_claims_of_absent (fun row hrow ↦ absurd hrow not_mem_nil)
      (fun delivery hmem other hother ↦ hone (hparts ▸ mem_append_left _ hmem) hother)
      ⟨first, mem_append_right _ (mem_singleton_self _), hfirst⟩
  have hback : pair ∈ gate.claims (gate.storeAfter .empty (before ++ [first]))
      (between ++ last :: after) := by
    refine mem_claims_of_dropped ?_ (fun delivery hmem other hother ↦
      hone (hparts ▸ mem_append_right _ hmem) hother) hlast hlate hlooked htime
    intro row hrow hnonce
    rcases mem_storeAfter hrow with hnone | ⟨one, hclaimed, rfl⟩
    · exact absurd hnone not_mem_nil
    · obtain ⟨delivery, hmem, hclaimable⟩ := claimable_of_claims hclaimed
      rw [hone (hparts ▸ mem_append_left _ hmem) hclaimable hnonce]
  rw [hparts, claims_append, nodup_append'] at h
  exact h.2.2 hfront hback

end Dropped

/-- A pair of a timestamp and a nonce is claimed at most once when no replay arrives after its
nonce was dropped; and only then, where every nonce is signed with one timestamp. -/
theorem mail_nonce_claimed_once (gate : MailGate) :
    (∀ table deliveries, gate.Retained deliveries → (gate.claims table deliveries).Nodup) ∧
      ∀ deliveries, gate.SignsOnce deliveries →
        ((gate.claims .empty deliveries).Nodup ↔ gate.Retained deliveries) :=
  ⟨fun _ _ h ↦ nodup_claims_of_retained h,
    fun _ hsigns ↦ ⟨retained_of_nodup hsigns, nodup_claims_of_retained⟩⟩

/-- The sample mail, delivered at a time. -/
def sampleDelivery (time : ℤ) : Delivery where
  headers := EmailWorker.requestHeaders 1700000000 (toHex ((List.range 16).map UInt8.ofNat))
    (Base64.encode (sampleHashes.hmacSha256 [] []).bytes) (some "sender@example.test")
    "p@example.test"
  body := utf8 "raw message"
  verifiedAt := time
  claimedAt := time

/-- A gate that allows a skew of five minutes. -/
def sampleGate (kind : StoreKind) : MailGate where
  kind
  hashes := sampleHashes
  secret := utf8 "shared-secret"
  clockSkewSeconds := 300

/-- A mail that is delivered when it is signed, and again half a second after its nonce was dropped,
is claimed twice. -/
theorem sample_claimed_twice :
    ¬ ((sampleGate .database).claims .empty [sampleDelivery 1700000000000000000,
        sampleDelivery 1700000300500000000]).Nodup ∧
      ¬ ((sampleGate .inMemory).claims .empty [sampleDelivery 1700000000000000000,
        sampleDelivery 1700000300500000000]).Nodup := by
  constructor
  · decide
  · decide

/-- The same mail, again before its nonce is dropped. -/
theorem mail_nonce_claimed_once_sample :
    ((sampleGate .database).claims .empty [sampleDelivery 1700000000000000000,
      sampleDelivery 1700000299500000000]).Nodup := by
  refine (mail_nonce_claimed_once (sampleGate .database)).1 _ _ ?_
  intro before first between last after hsplit pair hfirst hlast delivery hmem _
  have hpair : pair = (1700000000, toHex ((List.range 16).map UInt8.ofNat)) := by
    have hmember : first ∈ [sampleDelivery 1700000000000000000,
        sampleDelivery 1700000299500000000] := by
      rw [hsplit]
      exact mem_append_right _ mem_cons_self
    simp only [mem_cons, not_mem_nil, or_false] at hmember
    rcases hmember with rfl | rfl
    · exact Option.some.inj (hfirst.symm.trans (by decide))
    · exact Option.some.inj (hfirst.symm.trans (by decide))
  have hmember : delivery ∈ [sampleDelivery 1700000000000000000,
      sampleDelivery 1700000299500000000] := by
    rw [hsplit]
    refine mem_append_right _ (mem_cons_of_mem _ ?_)
    rcases mem_append.mp hmem with hbetween | hlastMem
    · exact mem_append_left _ hbetween
    · rw [mem_singleton.mp hlastMem]
      exact mem_append_right _ mem_cons_self
  rw [hpair]
  simp only [mem_cons, not_mem_nil, or_false] at hmember
  rcases hmember with rfl | rfl
  · decide
  · decide

end GameLauncher.Provisioning
