import MetalBear.Library.KeyTable
import MetalBear.Library.Spending
import MetalBear.OAuth.WebauthnCbor

/-!
# Passkey ceremonies

The challenges and the passkeys of the OAuth store, and the requests that register a passkey or sign
in with one. A request makes its store calls one at a time, and any number of requests interleave
between them. Every sign-in rests on a challenge that was issued to the subject and consumed by this
request, and on a key that was registered for the subject in the same way.
-/

namespace MetalBear.OAuth.Passkeys

open KeyTable Machine Spending

/-! ## Tables -/

/-- A C string: its bytes before the NUL. -/
abbrev Text := List UInt8

/-- `metalbear_webauthn_ceremony`. -/
inductive Ceremony where
  | registration
  | authentication
  deriving DecidableEq, Repr

/-- `METALBEAR_WEBAUTHN_CHALLENGE_LIFETIME_SECONDS`. -/
def challengeLifetimeSeconds : Int := 120

/-- A row of `passkey_challenge`, its `challenge` apart. -/
structure ChallengeRow where
  ceremony : Ceremony
  subject : Text
  expiresAt : Int
  deriving DecidableEq

/-- A row of `passkey`, its `credential_id` apart. -/
structure PasskeyRow where
  subject : Text
  publicKey : P256Key
  signCount : Nat
  deriving DecidableEq

/-- What the calls read and write of the store. -/
structure PasskeyStore where
  challenge : KeyTable Text ChallengeRow
  passkey : KeyTable (List UInt8) PasskeyRow

/-! ## The calls of the store -/

/-- What becomes of `metalbear_oauth_passkey_challenge_create`; the time is taken twice. -/
structure CreateOutcome where
  issuedAt : Int
  /-- `random_value`. -/
  random : Except WfError Text
  now : Int
  pruned : Bool
  inserted : Bool

/-- What becomes of the calls that a request makes. -/
structure CallOutcome where
  now : Int
  selected : Bool
  deleted : Bool
  written : Bool
  /-- There is memory for the identifier of the credential. -/
  allocated : Bool

/-- `prune`, on the challenges. -/
def prune (s : PasskeyStore) (now : Int) : PasskeyStore :=
  { s with challenge := s.challenge.deleteWhere fun _ row => decide (row.expiresAt ≤ now) }

/-- `metalbear_oauth_passkey_challenge_create`. -/
def challengeCreate (s : PasskeyStore) (ceremony : Ceremony) (subject : Text) (o : CreateOutcome) :
    PasskeyStore × Except WfError Text :=
  if subject = [] then (s, .error .invalidArg)
  else
    match o.random with
    | .error e => (s, .error e)
    | .ok challenge =>
      let s := if o.pruned then prune s o.now else s
      if o.inserted then
        match s.challenge.insert challenge
          ⟨ceremony, subject, o.issuedAt + challengeLifetimeSeconds⟩ with
        | none => (s, .error .internal)
        | some table => ({ s with challenge := table }, .ok challenge)
      else (s, .error .internal)

/-- `snprintf` into a buffer of 256 bytes. -/
def cut (text : Text) : Text := text.take 255

/-- `metalbear_oauth_passkey_challenge_consume`, into a buffer of 256 bytes. The result of the
`DELETE` is not looked at. -/
def challengeConsume (s : PasskeyStore) (challenge : Text) (ceremony : Ceremony)
    (o : CallOutcome) : PasskeyStore × Except WfError Text :=
  if challenge = [] then (s, .error .notFound)
  else if o.selected then
    match s.challenge challenge with
    | none => (s, .error .notFound)
    | some row =>
      if row.ceremony = ceremony ∧ o.now < row.expiresAt then
        (if o.deleted then
          { s with challenge := s.challenge.deleteWhere fun key _ => decide (key = challenge) }
        else s, .ok (cut row.subject))
      else (s, .error .notFound)
  else (s, .error .notFound)

/-- How `metalbear_oauth_passkey_add` ends without adding. -/
inductive AddError where
  | invalidArg
  | duplicate
  | internal
  deriving DecidableEq, Repr

/-- `metalbear_oauth_passkey_add`, without the name. -/
def passkeyAdd (s : PasskeyStore) (subject : Text) (credentialId : List UInt8)
    (publicKey : P256Key) (o : CallOutcome) : PasskeyStore × Except AddError Unit :=
  if subject = [] ∨ credentialId = [] then (s, .error .invalidArg)
  else if o.written then
    match s.passkey.insert credentialId ⟨subject, publicKey, 0⟩ with
    | none => (s, .error .duplicate)
    | some table => ({ s with passkey := table }, .ok ())
  else (s, .error .internal)

/-- `metalbear_oauth_passkey_lookup`, into a buffer of 256 bytes. -/
def passkeyLookup (s : PasskeyStore) (credentialId : List UInt8) (selected : Bool) :
    Option PasskeyRow :=
  if credentialId = [] then none
  else if selected then
    (s.passkey credentialId).map fun row => { row with subject := cut row.subject }
  else none

/-- `metalbear_oauth_passkey_touch`, without the time of the last use. -/
def passkeyTouch (s : PasskeyStore) (credentialId : List UInt8) (signCount : Nat)
    (o : CallOutcome) : PasskeyStore :=
  let touched (row : PasskeyRow) : PasskeyRow := { row with signCount := signCount }
  if o.written then
    { s with passkey := s.passkey.updateWhere (fun key _ => decide (key = credentialId)) touched }
  else s

/-- `metalbear_oauth_passkey_remove`, of the decoded identifier. -/
def passkeyRemove (s : PasskeyStore) (subject : Text) (credentialId : List UInt8)
    (o : CallOutcome) : PasskeyStore :=
  if o.deleted then
    { s with passkey := s.passkey.deleteWhere fun key row =>
        decide (key = credentialId ∧ row.subject = subject) }
  else s

/-! ## The requests -/

/-- What the routes read of the client data; nothing where a member is not a string. -/
structure ClientData where
  type : Option Text
  origin : Option Text
  challenge : Option Text
  crossOrigin : Bool
  deriving DecidableEq

/-- What the routes rely on. -/
structure CeremonyLibrary where
  publicUrl : Option Text
  /-- `cJSON_ParseWithLength`, where the text is an object. -/
  clientData : List UInt8 → Option ClientData
  /-- `rp_id_from_public_url`, of the public URL. -/
  rpId : Option Text
  /-- `wf_crypto_sha256`. -/
  sha256 : List UInt8 → Option (List UInt8)
  /-- `wf_crypto_ecdsa_der_to_raw` and `wf_crypto_p256_verify_allow_malleable`. -/
  verifies : P256Key → List UInt8 → List UInt8 → Bool

/-- The hash that authenticator data for this server begin with. -/
def CeremonyLibrary.rpIdHash (lib : CeremonyLibrary) : Option (List UInt8) :=
  lib.rpId.bind lib.sha256

/-- The decoded body of a registration. -/
structure Registration where
  subject : Text
  clientData : List UInt8
  attestationObject : List UInt8
  deriving DecidableEq

/-- The decoded body of an authentication. -/
structure Assertion where
  credentialId : List UInt8
  clientData : List UInt8
  authenticatorData : List UInt8
  signature : List UInt8
  deriving DecidableEq

/-- `"webauthn.create"`. -/
def webauthnCreate : Text := "webauthn.create".toUTF8.toList

/-- `"webauthn.get"`. -/
def webauthnGet : Text := "webauthn.get".toUTF8.toList

/-- `METALBEAR_WEBAUTHN_FLAG_UP`. -/
def flagUp : UInt8 := 0x01

/-- The challenge that the client data name, where they are of this type, from this origin and not
from inside a frame. -/
def CeremonyLibrary.challengeOf (lib : CeremonyLibrary) (type : Text) (clientData : List UInt8) :
    Option Text :=
  (lib.clientData clientData).bind fun d =>
    if d.type = some type ∧ lib.publicUrl.isSome ∧ d.origin = lib.publicUrl ∧
      d.crossOrigin = false then d.challenge else none

/-- The credential that an attestation object holds, made for this server with a user present. -/
def CeremonyLibrary.attested (lib : CeremonyLibrary) (attestationObject : List UInt8)
    (allocated : Bool) : Option AttestedCredential :=
  match parseAttestationObject attestationObject with
  | .error _ => none
  | .ok (pos, len) =>
    match parseRegistrationAuthData ((attestationObject.drop pos).take len) allocated with
    | .error _ => none
    | .ok credential =>
      if some credential.rpIdHash = lib.rpIdHash ∧ credential.flags &&& flagUp ≠ 0 then
        some credential
      else none

/-- `metalbear_webauthn_parse_assertion_auth_data`, and what the route asks of the result: the
counter of authenticator data, made for this server with a user present. -/
def CeremonyLibrary.assertedCount (lib : CeremonyLibrary) (data : List UInt8) : Option Nat :=
  if data.length < 37 then none
  else if some (data.take 32) = lib.rpIdHash ∧ data.getD 32 0 &&& flagUp ≠ 0 then
    some ((data.getD 33 0).toNat * 2 ^ 24 + (data.getD 34 0).toNat * 2 ^ 16 +
      (data.getD 35 0).toNat * 2 ^ 8 + (data.getD 36 0).toNat)
  else none

/-- `counter_ok`. -/
def counterOk (new stored : Nat) : Prop := new = 0 ∧ stored = 0 ∨ new > stored

instance (new stored : Nat) : Decidable (counterOk new stored) :=
  inferInstanceAs (Decidable (new = 0 ∧ stored = 0 ∨ new > stored))

/-- Whether the signature over the authenticator data and the hash of the client data is one of the
key, and the counter goes on from the stored one. -/
def CeremonyLibrary.Verified (lib : CeremonyLibrary) (a : Assertion) (found : PasskeyRow)
    (signCount : Nat) : Prop :=
  lib.assertedCount a.authenticatorData = some signCount ∧
    (∃ hash ∈ lib.sha256 a.clientData,
      lib.verifies found.publicKey (a.authenticatorData ++ hash) a.signature = true) ∧
    counterOk signCount found.signCount

/-- An error response. -/
structure Refusal where
  status : Nat
  error : String
  message : String
  deriving DecidableEq, Repr

/-- A registration that did not verify. -/
def registrationRefusal : Refusal := ⟨401, "invalid_grant", "Registration ceremony did not verify"⟩

/-- An authentication that did not verify. -/
def authenticationRefusal : Refusal :=
  ⟨401, "invalid_grant", "Authentication ceremony did not verify"⟩

/-- How far a request has come. -/
inductive Progress where
  /-- A registration for which a device session stands, before it consumes its challenge, -/
  | registering (r : Registration)
  /-- and before it adds the passkey. -/
  | attested (r : Registration) (credential : AttestedCredential)
  /-- An authentication that has found the passkey, before it consumes its challenge, -/
  | lookedUp (a : Assertion) (found : PasskeyRow)
  /-- and before it stores the counter. -/
  | verified (a : Assertion) (found : PasskeyRow) (signCount : Nat)
  | ended (refusal : Option Refusal)
  deriving DecidableEq

/-- What happens, with the request that it happens in. -/
inductive PasskeyEvent where
  | issued (challenge : Text) (ceremony : Ceremony) (subject : Text) (now : Int)
  | allowed (i : Nat) (subject : Text)
  | consumed (i : Nat) (challenge : Text) (ceremony : Ceremony) (subject : Text) (now : Int)
      (deleted : Bool)
  | registered (i : Nat) (r : Registration) (credentialId : List UInt8) (publicKey : P256Key)
  | signedIn (i : Nat) (a : Assertion) (found : PasskeyRow) (signCount : Nat)
  deriving DecidableEq

/-- The store, and the requests so far. -/
structure Host where
  store : PasskeyStore
  request : Nat → Option Progress

/-- No row, and no request. -/
def Host.new : Host := ⟨⟨empty, empty⟩, fun _ => none⟩

/-- A request comes as far as told. -/
def Host.begin (h : Host) (i : Nat) (p : Progress) : Host :=
  { h with request := Function.update h.request i (some p) }

/-- What may happen next. -/
inductive Action where
  | create (ceremony : Ceremony) (subject : Text) (o : CreateOutcome)
  | prune (now : Int)
  | remove (subject : Text) (credentialId : List UInt8) (o : CallOutcome)
  /-- `passkey_register_verify`, up to `device_session_authorizes`. -/
  | register (i : Nat) (r : Registration) (authorized : Bool)
  /-- `passkey_authenticate_verify`, up to the lookup. -/
  | authenticate (i : Nat) (a : Assertion) (selected : Bool)
  /-- The next store call of a request, and what it does with the answer. -/
  | proceed (i : Nat) (o : CallOutcome)

/-- A request consumes the challenge that its client data name: the store, whether the challenge was
one for the subject, and the event. -/
def consumeFor (lib : CeremonyLibrary) (s : PasskeyStore) (i : Nat) (ceremony : Ceremony)
    (type : Text) (clientData : List UInt8) (subject : Text) (o : CallOutcome) :
    PasskeyStore × Bool × List PasskeyEvent :=
  match lib.challengeOf type clientData with
  | none => (s, false, [])
  | some challenge =>
    match challengeConsume s challenge ceremony o with
    | (s, .error _) => (s, false, [])
    | (s, .ok found) =>
      (s, decide (found = subject), [.consumed i challenge ceremony found o.now o.deleted])

/-- Where a registration goes on after its challenge: the attestation. -/
def checkRegistration (lib : CeremonyLibrary) (r : Registration) (allocated : Bool) : Progress :=
  if lib.rpId = none then
    .ended (some ⟨500, "internal_error", "Could not verify registration"⟩)
  else
    match lib.attested r.attestationObject allocated with
    | none => .ended (some registrationRefusal)
    | some credential => .attested r credential

/-- Where an authentication goes on after its challenge: the signature and the counter. -/
def checkAssertion (lib : CeremonyLibrary) (a : Assertion) (found : PasskeyRow) : Progress :=
  match lib.assertedCount a.authenticatorData with
  | none => .ended (some authenticationRefusal)
  | some signCount =>
    match lib.sha256 a.clientData with
    | none => .ended (some ⟨500, "internal_error", "Could not verify authentication"⟩)
    | some hash =>
      if lib.verifies found.publicKey (a.authenticatorData ++ hash) a.signature = true ∧
        counterOk signCount found.signCount then .verified a found signCount
      else .ended (some authenticationRefusal)

/-- How a request ends that could not add its passkey. -/
def addRefusal : AddError → Refusal
  | .duplicate => ⟨409, "invalid_request", "This passkey is already registered"⟩
  | _ => ⟨500, "internal_error", "Could not save the passkey"⟩

/-- `passkey_register_verify` and `passkey_authenticate_verify`, from one store call to the next. -/
def proceed (lib : CeremonyLibrary) (s : PasskeyStore) (i : Nat) (o : CallOutcome) :
    Progress → PasskeyStore × Progress × List PasskeyEvent
  | .registering r =>
    let c := consumeFor lib s i .registration webauthnCreate r.clientData r.subject o
    (c.1, if c.2.1 then checkRegistration lib r o.allocated else .ended (some registrationRefusal),
      c.2.2)
  | .attested r credential =>
    match passkeyAdd s r.subject credential.credentialId credential.publicKey o with
    | (s, .error e) => (s, .ended (some (addRefusal e)), [])
    | (s, .ok _) =>
      (s, .ended none, [.registered i r credential.credentialId credential.publicKey])
  | .lookedUp a found =>
    let c := consumeFor lib s i .authentication webauthnGet a.clientData found.subject o
    (c.1, if c.2.1 then checkAssertion lib a found else .ended (some authenticationRefusal), c.2.2)
  | .verified a found signCount =>
    (passkeyTouch s a.credentialId signCount o, .ended none, [.signedIn i a found signCount])
  | .ended refusal => (s, .ended refusal, [])

/-- A step, with its events. A request begins once. -/
def step (lib : CeremonyLibrary) (h : Host) : Action → Host × List PasskeyEvent
  | .create ceremony subject o =>
    let a := challengeCreate h.store ceremony subject o
    ({ h with store := a.1 }, match a.2 with
      | .error _ => []
      | .ok challenge => [.issued challenge ceremony subject o.issuedAt])
  | .prune now => ({ h with store := prune h.store now }, [])
  | .remove subject credentialId o =>
    ({ h with store := passkeyRemove h.store subject credentialId o }, [])
  | .register i r authorized =>
    if (h.request i).isSome then (h, [])
    else if r.subject = [] then
      (h.begin i (.ended (some ⟨400, "invalid_request", "did and response are required"⟩)), [])
    else if authorized then (h.begin i (.registering r), [.allowed i r.subject])
    else
      (h.begin i (.ended (some ⟨401, "invalid_grant", "No device session for this account"⟩)), [])
  | .authenticate i a selected =>
    if (h.request i).isSome then (h, [])
    else
      match passkeyLookup h.store a.credentialId selected with
      | none => (h.begin i (.ended (some ⟨401, "invalid_grant", "Unknown passkey"⟩)), [])
      | some found => (h.begin i (.lookedUp a found), [])
  | .proceed i o =>
    match h.request i with
    | none => (h, [])
    | some p =>
      let a := proceed lib h.store i o p
      (⟨a.1, Function.update h.request i (some a.2.1)⟩, a.2.2)

/-- The host after a run, and what happened in it. -/
def after (lib : CeremonyLibrary) (run : List Action) : Host × List PasskeyEvent :=
  exec (logged (step lib)) (.new, []) run

/-! ## What a call does -/

variable {lib : CeremonyLibrary} {s s' : PasskeyStore} {h : Host} {i : Nat} {o : CallOutcome}
  {ceremony : Ceremony} {subject challenge type clientData : Text} {credentialId : List UInt8}

/-- No challenge is new, and no passkey has another subject or key. -/
structure PasskeyStore.Within (s' s : PasskeyStore) : Prop where
  challenge : ∀ c row, s'.challenge c = some row → s.challenge c = some row
  passkey : ∀ id row', s'.passkey id = some row' → ∃ row, s.passkey id = some row ∧
    row.subject = row'.subject ∧ row.publicKey = row'.publicKey

theorem PasskeyStore.Within.refl (s : PasskeyStore) : s.Within s :=
  ⟨fun _ _ => id, fun _ row h => ⟨row, h, rfl, rfl⟩⟩

theorem within_deleteChallenge (p : Text → ChallengeRow → Bool) :
    PasskeyStore.Within { s with challenge := s.challenge.deleteWhere p } s :=
  ⟨fun _ _ h => (deleteWhere_eq_some.mp h).1, fun _ row h => ⟨row, h, rfl, rfl⟩⟩

theorem within_prune (s : PasskeyStore) (now : Int) : (prune s now).Within s :=
  within_deleteChallenge _

theorem within_remove (s : PasskeyStore) (subject : Text) (credentialId : List UInt8)
    (o : CallOutcome) : (passkeyRemove s subject credentialId o).Within s := by
  rw [passkeyRemove]
  split
  · refine ⟨fun _ _ => id, fun id row h => ?_⟩
    dsimp only at h
    exact ⟨row, (deleteWhere_eq_some.mp h).1, rfl, rfl⟩
  · exact .refl s

theorem within_touch (s : PasskeyStore) (credentialId : List UInt8) (signCount : Nat)
    (o : CallOutcome) : (passkeyTouch s credentialId signCount o).Within s := by
  rw [passkeyTouch]
  split
  · refine ⟨fun _ _ => id, fun id row' hrow' => ?_⟩
    dsimp only at hrow'
    obtain ⟨row, hrow, heq⟩ := updateWhere_eq_some.mp hrow'
    refine ⟨row, hrow, ?_⟩
    rw [← heq]
    split <;> exact ⟨rfl, rfl⟩
  · exact .refl s

/-- A challenge that is issued adds its row where there was none. -/
theorem challengeCreate_cases (s : PasskeyStore) (ceremony : Ceremony) (subject : Text)
    (o : CreateOutcome) :
    (∃ e, (challengeCreate s ceremony subject o).2 = .error e ∧
      (challengeCreate s ceremony subject o).1.Within s) ∨
    ∃ (challenge : Text) (m : PasskeyStore), m.Within s ∧ m.challenge challenge = none ∧
      challengeCreate s ceremony subject o = (⟨Function.update m.challenge challenge
        (some ⟨ceremony, subject, o.issuedAt + challengeLifetimeSeconds⟩), m.passkey⟩,
          .ok challenge) := by
  have hprune : ∀ pruned : Bool, (if pruned then prune s o.now else s).Within s := by
    intro pruned
    cases pruned with
    | false => exact .refl s
    | true => exact within_prune s o.now
  rw [challengeCreate]
  split
  · exact .inl ⟨_, rfl, .refl s⟩
  · split
    · exact .inl ⟨_, rfl, .refl s⟩
    · next challenge _ =>
      dsimp only
      split
      · generalize hm : (if o.pruned then prune s o.now else s) = m
        have hwithin : m.Within s := hm ▸ hprune o.pruned
        by_cases hnone : m.challenge challenge = none
        · rw [insert_of_none hnone]
          exact .inr ⟨challenge, m, hwithin, hnone, rfl⟩
        · rw [KeyTable.insert, if_neg hnone]
          exact .inl ⟨_, rfl, hwithin⟩
      · exact .inl ⟨_, rfl, hprune _⟩

/-- What a challenge that is consumed was: a live one of the ceremony. -/
structure Consumes (s s' : PasskeyStore) (challenge : Text) (ceremony : Ceremony) (subject : Text)
    (o : CallOutcome) : Prop where
  within : s'.Within s
  row : ∃ row, s.challenge challenge = some row ∧ row.ceremony = ceremony ∧
    o.now < row.expiresAt ∧ subject = cut row.subject
  gone : o.deleted = true → s'.challenge challenge = none
  selected : o.selected = true
  passkey : s'.passkey = s.passkey

theorem challengeConsume_cases (s : PasskeyStore) (challenge : Text) (ceremony : Ceremony)
    (o : CallOutcome) :
    (∃ e, challengeConsume s challenge ceremony o = (s, .error e)) ∨
    ∃ s' subject, challengeConsume s challenge ceremony o = (s', .ok subject) ∧
      Consumes s s' challenge ceremony subject o := by
  rw [challengeConsume]
  split
  · exact .inl ⟨_, rfl⟩
  · split
    · next hselected =>
      split
      · exact .inl ⟨_, rfl⟩
      · next row hrow =>
        split
        · next hlive =>
          refine .inr ⟨_, _, rfl, ?_, ⟨row, hrow, hlive.1, hlive.2, rfl⟩, fun hdeleted => ?_,
            hselected, by split <;> rfl⟩
          · split
            · exact within_deleteChallenge _
            · exact .refl s
          · rw [if_pos hdeleted]
            refine Option.eq_none_iff_forall_ne_some.mpr fun row' hrow' => ?_
            dsimp only at hrow'
            exact of_decide_eq_false (deleteWhere_eq_some.mp hrow').2 rfl
        · exact .inl ⟨_, rfl⟩
    · exact .inl ⟨_, rfl⟩

theorem consumeFor_cases (lib : CeremonyLibrary) (s : PasskeyStore) (i : Nat) (ceremony : Ceremony)
    (type : Text) (clientData : List UInt8) (subject : Text) (o : CallOutcome) :
    consumeFor lib s i ceremony type clientData subject o = (s, false, []) ∨
    ∃ challenge s' found, lib.challengeOf type clientData = some challenge ∧
      Consumes s s' challenge ceremony found o ∧
      consumeFor lib s i ceremony type clientData subject o =
        (s', decide (found = subject),
          [.consumed i challenge ceremony found o.now o.deleted]) := by
  rw [consumeFor]
  split
  · exact .inl rfl
  · next challenge hchallenge =>
    obtain ⟨e, heq⟩ | ⟨s', found, heq, hconsumes⟩ := challengeConsume_cases s challenge ceremony o
    · rw [heq]
      exact .inl rfl
    · rw [heq]
      exact .inr ⟨challenge, s', found, hchallenge, hconsumes, rfl⟩

/-- A passkey that is added has the counter zero, and an identifier that there was no row of. -/
theorem passkeyAdd_cases (s : PasskeyStore) (subject : Text) (credentialId : List UInt8)
    (publicKey : P256Key) (o : CallOutcome) :
    (∃ e, passkeyAdd s subject credentialId publicKey o = (s, .error e)) ∨
    subject ≠ [] ∧ s.passkey credentialId = none ∧
      passkeyAdd s subject credentialId publicKey o = (⟨s.challenge,
        Function.update s.passkey credentialId (some ⟨subject, publicKey, 0⟩)⟩, .ok ()) := by
  rw [passkeyAdd]
  split
  · exact .inl ⟨_, rfl⟩
  · next hgiven =>
    split
    · by_cases hnone : s.passkey credentialId = none
      · rw [insert_of_none hnone]
        exact .inr ⟨(not_or.mp hgiven).1, hnone, rfl⟩
      · rw [KeyTable.insert, if_neg hnone]
        exact .inl ⟨_, rfl⟩
    · exact .inl ⟨_, rfl⟩

/-! ## Challenges are consumed once -/

/-- The ledger of the challenges. A consumption whose `DELETE` is not carried out spends nothing:
its challenge can be consumed again. -/
def challengeLedger : Ledger PasskeyEvent Text where
  gives
    | .issued challenge _ _ _ => some challenge
    | _ => none
  spends
    | .consumed _ challenge _ _ _ true => some challenge
    | _ => none

/-- The challenges that there is a row of. -/
def Host.holds (h : Host) (challenge : Text) : Bool := (h.store.challenge challenge).isSome

theorem holds_within (hwithin : s'.Within s) (h : (s'.challenge challenge).isSome = true) :
    (s.challenge challenge).isSome = true := by
  obtain ⟨row, hrow⟩ := Option.isSome_iff_exists.mp h
  exact Option.isSome_iff_exists.mpr ⟨row, hwithin.challenge challenge row hrow⟩

theorem accounts_within (hwithin : s'.Within s) (request request' : Nat → Option Progress) :
    Accounts challengeLedger (Host.mk s request).holds [] (Host.mk s' request').holds :=
  accounts_nil fun _ => holds_within hwithin

/-- An event that does not spend. -/
theorem accounts_silent {e : PasskeyEvent} (hspends : challengeLedger.spends e = none)
    (hheld : ∀ c, (s'.challenge c).isSome = true → (s.challenge c).isSome = true)
    (request request' : Nat → Option Progress) :
    Accounts challengeLedger (Host.mk s request).holds [e] (Host.mk s' request').holds := by
  refine accounts_single (fun k hk => ?_) fun k hk => .inr ⟨hheld k hk, fun hk => ?_⟩
  · rw [hspends] at hk
    cases hk
  · rw [hspends] at hk
    cases hk

theorem Consumes.accounts (hconsumes : Consumes s s' challenge ceremony subject o) (i : Nat)
    (request request' : Nat → Option Progress) :
    Accounts challengeLedger (Host.mk s request).holds
      [.consumed i challenge ceremony subject o.now o.deleted] (Host.mk s' request').holds := by
  cases hdeleted : o.deleted with
  | false => exact accounts_silent rfl (fun _ => holds_within hconsumes.within) request request'
  | true =>
    obtain ⟨row, hrow, -⟩ := hconsumes.row
    refine accounts_single (fun k hk => ?_) fun k hk => ?_
    · obtain rfl : challenge = k := Option.some.inj hk
      exact Option.isSome_iff_exists.mpr ⟨row, hrow⟩
    · refine .inr ⟨holds_within hconsumes.within hk, fun heq => ?_⟩
      obtain rfl : challenge = k := Option.some.inj heq
      have hk : (s'.challenge challenge).isSome = true := hk
      rw [hconsumes.gone hdeleted] at hk
      cases hk

/-- The events of a request account for the challenge that it consumes. -/
theorem proceed_accounts (lib : CeremonyLibrary) (s : PasskeyStore) (i : Nat) (o : CallOutcome)
    (p : Progress) (request request' : Nat → Option Progress) :
    Accounts challengeLedger (Host.mk s request).holds (proceed lib s i o p).2.2
      (Host.mk (proceed lib s i o p).1 request').holds := by
  cases p with
  | registering r =>
    rw [proceed]
    obtain heq | ⟨challenge, s', found, -, hconsumes, heq⟩ := consumeFor_cases lib s i .registration
      webauthnCreate r.clientData r.subject o
    · rw [heq]
      exact accounts_within (.refl s) request request'
    · rw [heq]
      exact hconsumes.accounts i request request'
  | attested r credential =>
    rw [proceed]
    obtain ⟨e, heq⟩ | ⟨-, -, heq⟩ :=
      passkeyAdd_cases s r.subject credential.credentialId credential.publicKey o
    · rw [heq]
      exact accounts_within (.refl s) request request'
    · rw [heq]
      exact accounts_silent rfl (fun _ => id) request request'
  | lookedUp a found =>
    rw [proceed]
    obtain heq | ⟨challenge, s', found', -, hconsumes, heq⟩ := consumeFor_cases lib s i
      .authentication webauthnGet a.clientData found.subject o
    · rw [heq]
      exact accounts_within (.refl s) request request'
    · rw [heq]
      exact hconsumes.accounts i request request'
  | verified a found signCount =>
    exact accounts_silent rfl (fun _ => holds_within (within_touch s a.credentialId signCount o))
      request request'
  | ended refusal => exact accounts_within (.refl s) request request'

theorem step_accounts (lib : CeremonyLibrary) (h : Host) (a : Action) :
    Accounts challengeLedger h.holds (step lib h a).2 (step lib h a).1.holds := by
  obtain ⟨s, request⟩ := h
  cases a with
  | create ceremony subject o =>
    rw [step]
    obtain ⟨e, herror, hwithin⟩ | ⟨challenge, m, hwithin, hnone, heq⟩ :=
      challengeCreate_cases s ceremony subject o
    · dsimp only
      rw [herror]
      exact accounts_within hwithin request request
    · dsimp only
      rw [heq]
      refine accounts_single (fun k hk => by cases hk) fun k hk => ?_
      obtain ⟨row, hrow⟩ := Option.isSome_iff_exists.mp hk
      obtain ⟨rfl, -⟩ | ⟨-, hold⟩ := update_eq_some.mp hrow
      · exact .inl rfl
      · exact .inr ⟨holds_within hwithin (Option.isSome_iff_exists.mpr ⟨row, hold⟩),
          fun hk => by cases hk⟩
  | prune now => exact accounts_within (within_prune s now) request request
  | remove subject credentialId o =>
    exact accounts_within (within_remove s subject credentialId o) request request
  | register i r authorized =>
    rw [step]
    split
    · exact accounts_within (.refl s) request request
    · split
      · exact accounts_within (.refl s) request _
      · split
        · exact accounts_silent rfl (fun _ => id) request _
        · exact accounts_within (.refl s) request _
  | authenticate i a selected =>
    rw [step]
    split
    · exact accounts_within (.refl s) request request
    · split
      · exact accounts_within (.refl s) request _
      · exact accounts_within (.refl s) request _
  | proceed i o =>
    rw [step]
    split
    · exact accounts_within (.refl s) request request
    · next p _ => exact proceed_accounts lib s i o p request _

/-- In every run, a challenge is consumed, with its row deleted, at most as often as it was issued,
and once less while there is a row of it. -/
theorem challenges_consumed_once (lib : CeremonyLibrary) (run : List Action) (challenge : Text) :
    challengeLedger.spent (after lib run).2 challenge + ((after lib run).1.holds challenge).toNat ≤
      challengeLedger.given (after lib run).2 challenge :=
  accounts_exec (step lib) Host.holds (step_accounts lib) .new run challenge

/-! ## What a sign-in rests on -/

/-- The request consumed a challenge of the ceremony, which its client data name, for the
subject. -/
def HasConsumed (lib : CeremonyLibrary) (events : List PasskeyEvent) (i : Nat)
    (ceremony : Ceremony) (type : Text) (clientData : List UInt8) (subject : Text) : Prop :=
  ∃ challenge now deleted, lib.challengeOf type clientData = some challenge ∧
    .consumed i challenge ceremony subject now deleted ∈ events

/-- The passkey was registered for its subject, with its key. -/
def WasRegistered (events : List PasskeyEvent) (credentialId : List UInt8) (found : PasskeyRow) :
    Prop :=
  ∃ j r, .registered j r credentialId found.publicKey ∈ events ∧ r.subject = found.subject

/-- What an event has to rest on, given the events before it. -/
def PasskeyEvent.Backed (lib : CeremonyLibrary) (events : List PasskeyEvent) :
    PasskeyEvent → Prop
  | issued _ _ _ _ => True
  | allowed _ subject => subject ≠ []
  | consumed _ challenge ceremony subject now _ => ∃ full t,
    .issued challenge ceremony full t ∈ events ∧ subject = cut full ∧
      now < t + challengeLifetimeSeconds
  | registered i r credentialId publicKey => .allowed i r.subject ∈ events ∧
    HasConsumed lib events i .registration webauthnCreate r.clientData r.subject ∧
    ∃ allocated credential, lib.attested r.attestationObject allocated = some credential ∧
      credential.credentialId = credentialId ∧ credential.publicKey = publicKey
  | signedIn i a found signCount => WasRegistered events a.credentialId found ∧
    HasConsumed lib events i .authentication webauthnGet a.clientData found.subject ∧
    lib.Verified a found signCount

/-- Every event rests on those before it. -/
def Founded (lib : CeremonyLibrary) (events : List PasskeyEvent) : Prop :=
  ∀ before e later, events = before ++ e :: later → e.Backed lib before

/-- What the state of a request rests on. -/
def Progress.Backed (lib : CeremonyLibrary) (events : List PasskeyEvent) (i : Nat) :
    Progress → Prop
  | registering r => .allowed i r.subject ∈ events
  | attested r credential => .allowed i r.subject ∈ events ∧
    HasConsumed lib events i .registration webauthnCreate r.clientData r.subject ∧
    ∃ allocated, lib.attested r.attestationObject allocated = some credential
  | lookedUp a found => WasRegistered events a.credentialId found
  | verified a found signCount => WasRegistered events a.credentialId found ∧
    HasConsumed lib events i .authentication webauthnGet a.clientData found.subject ∧
    lib.Verified a found signCount
  | ended _ => True

variable {events : List PasskeyEvent} {e : PasskeyEvent} {p : Progress}

theorem HasConsumed.append (hconsumed : HasConsumed lib events i ceremony type clientData subject)
    (more : List PasskeyEvent) :
    HasConsumed lib (events ++ more) i ceremony type clientData subject := by
  obtain ⟨challenge, now, deleted, hchallenge, hmem⟩ := hconsumed
  exact ⟨challenge, now, deleted, hchallenge, List.mem_append_left _ hmem⟩

theorem WasRegistered.append {found : PasskeyRow}
    (hregistered : WasRegistered events credentialId found) (more : List PasskeyEvent) :
    WasRegistered (events ++ more) credentialId found := by
  obtain ⟨j, r, hmem, hsubject⟩ := hregistered
  exact ⟨j, r, List.mem_append_left _ hmem, hsubject⟩

theorem Progress.Backed.append (hp : p.Backed lib events i) (more : List PasskeyEvent) :
    p.Backed lib (events ++ more) i := by
  cases p with
  | registering r => exact List.mem_append_left more hp
  | attested r credential => exact ⟨List.mem_append_left more hp.1, hp.2.1.append more, hp.2.2⟩
  | lookedUp a found => exact WasRegistered.append hp more
  | verified a found signCount => exact ⟨hp.1.append more, hp.2.1.append more, hp.2.2⟩
  | ended refusal => exact trivial

/-- A subject that has been cut is cut again to itself. -/
theorem cut_cut (text : Text) : cut (cut text) = cut text := by
  rw [cut, cut, List.take_take, Nat.min_self]

/-- Every row rests on the events so far, and so does every request. -/
structure Rooted (lib : CeremonyLibrary) (h : Host) (events : List PasskeyEvent) : Prop where
  challenge : ∀ c row, h.store.challenge c = some row →
    ∃ t, .issued c row.ceremony row.subject t ∈ events ∧
      row.expiresAt = t + challengeLifetimeSeconds
  passkey : ∀ id row, h.store.passkey id = some row →
    WasRegistered events id row ∧ cut row.subject = row.subject
  request : ∀ i p, h.request i = some p → p.Backed lib events i
  backed : Founded lib events

theorem rooted_new (lib : CeremonyLibrary) : Rooted lib .new [] where
  challenge _ _ h := by cases h
  passkey _ _ h := by cases h
  request _ _ h := by cases h
  backed before e later h := by cases before <;> cases h

theorem Rooted.within (hr : Rooted lib h events) (hwithin : s'.Within h.store) :
    Rooted lib { h with store := s' } events where
  challenge c row hrow := hr.challenge c row (hwithin.challenge c row hrow)
  passkey id row hrow := by
    obtain ⟨row', hrow', hsubject, hkey⟩ := hwithin.passkey id row hrow
    obtain ⟨⟨j, r, hmem, heq⟩, hcut⟩ := hr.passkey id row' hrow'
    rw [hsubject] at heq hcut
    rw [hkey] at hmem
    exact ⟨⟨j, r, hmem, heq⟩, hcut⟩
  request := hr.request
  backed := hr.backed

theorem Rooted.begin (hr : Rooted lib h events) (hp : p.Backed lib events i) :
    Rooted lib (h.begin i p) events where
  challenge := hr.challenge
  passkey := hr.passkey
  request j q hq := by
    obtain ⟨rfl, rfl⟩ | ⟨-, hold⟩ := update_eq_some.mp hq
    · exact hp
    · exact hr.request j q hold
  backed := hr.backed

/-- An event that is backed may be written down. -/
theorem Rooted.concat (hr : Rooted lib h events) (he : e.Backed lib events) :
    Rooted lib h (events ++ [e]) where
  challenge c row hrow := by
    obtain ⟨t, hmem, heq⟩ := hr.challenge c row hrow
    exact ⟨t, List.mem_append_left _ hmem, heq⟩
  passkey id row hrow := ⟨(hr.passkey id row hrow).1.append [e], (hr.passkey id row hrow).2⟩
  request i p hp := (hr.request i p hp).append [e]
  backed before e' later heq := by
    obtain ⟨rfl, rfl⟩ | ⟨later, hevents⟩ := concat_eq_split heq
    · exact he
    · exact hr.backed before e' later hevents

theorem Rooted.consumed {found : Text} (hr : Rooted lib h events)
    (hconsumes : Consumes h.store s' challenge ceremony found o) (i : Nat) :
    Rooted lib { h with store := s' }
      (events ++ [.consumed i challenge ceremony found o.now o.deleted]) := by
  obtain ⟨row, hrow, rfl, hlive, hfound⟩ := hconsumes.row
  obtain ⟨t, hmem, hexpires⟩ := hr.challenge challenge row hrow
  exact (hr.within hconsumes.within).concat ⟨row.subject, t, hmem, hfound, hexpires ▸ hlive⟩

/-- What was consumed fits the buffer. -/
theorem HasConsumed.cut_eq (hconsumed : HasConsumed lib events i ceremony type clientData subject)
    (hfounded : Founded lib events) : cut subject = subject := by
  obtain ⟨challenge, now, deleted, -, hmem⟩ := hconsumed
  obtain ⟨before, later, heq⟩ := List.append_of_mem hmem
  obtain ⟨full, t, -, rfl, -⟩ := hfounded before _ later heq
  exact cut_cut full

theorem checkRegistration_backed {r : Registration} (hallowed : .allowed i r.subject ∈ events)
    (hconsumed : HasConsumed lib events i .registration webauthnCreate r.clientData r.subject)
    (allocated : Bool) : (checkRegistration lib r allocated).Backed lib events i := by
  rw [checkRegistration]
  split
  · exact trivial
  · split
    · exact trivial
    · next credential hattested => exact ⟨hallowed, hconsumed, allocated, hattested⟩

theorem checkAssertion_backed {a : Assertion} {found : PasskeyRow}
    (hregistered : WasRegistered events a.credentialId found)
    (hconsumed : HasConsumed lib events i .authentication webauthnGet a.clientData found.subject) :
    (checkAssertion lib a found).Backed lib events i := by
  rw [checkAssertion]
  split
  · exact trivial
  · next signCount hcount =>
    split
    · exact trivial
    · next hash hhash =>
      split
      · next hverified =>
        exact ⟨hregistered, hconsumed, hcount, ⟨hash, hhash, hverified.1⟩, hverified.2⟩
      · exact trivial

/-- The passkey that is looked up is the row, as far as the request sees it. -/
theorem Rooted.lookedUp {found : PasskeyRow} {selected : Bool} (hr : Rooted lib h events)
    (hfound : passkeyLookup h.store credentialId selected = some found) :
    WasRegistered events credentialId found := by
  rw [passkeyLookup] at hfound
  split at hfound
  · cases hfound
  · split at hfound
    · obtain ⟨row, hrow, rfl⟩ := Option.map_eq_some_iff.mp hfound
      obtain ⟨⟨j, r, hmem, hsubject⟩, hcut⟩ := hr.passkey credentialId row hrow
      exact ⟨j, r, hmem, hsubject.trans hcut.symm⟩
    · cases hfound

/-- The step lemma of a request. -/
theorem Rooted.proceed (hr : Rooted lib h events) (hp : h.request i = some p) (o : CallOutcome) :
    Rooted lib (({ h with store := (Passkeys.proceed lib h.store i o p).1 } : Host).begin i
        (Passkeys.proceed lib h.store i o p).2.1)
      (events ++ (Passkeys.proceed lib h.store i o p).2.2) := by
  have hbacked := hr.request i p hp
  cases p with
  | registering r =>
    rw [Passkeys.proceed]
    obtain heq | ⟨challenge, s', found, hchallenge, hconsumes, heq⟩ :=
      consumeFor_cases lib h.store i .registration webauthnCreate r.clientData r.subject o
    · rw [heq, List.append_nil]
      exact hr.begin trivial
    · rw [heq]
      refine (hr.consumed hconsumes i).begin ?_
      dsimp only
      split
      · next hfound =>
        obtain rfl := of_decide_eq_true hfound
        exact checkRegistration_backed (List.mem_append_left _ hbacked)
          ⟨challenge, o.now, o.deleted, hchallenge,
            List.mem_append_right _ List.mem_cons_self⟩ o.allocated
      · exact trivial
  | attested r credential =>
    rw [Passkeys.proceed]
    obtain ⟨e, heq⟩ | ⟨-, -, heq⟩ :=
      passkeyAdd_cases h.store r.subject credential.credentialId credential.publicKey o
    · rw [heq, List.append_nil]
      exact hr.begin trivial
    · obtain ⟨hallowed, hconsumed, allocated, hattested⟩ := hbacked
      rw [heq]
      have hnext := hr.concat (e := .registered i r credential.credentialId credential.publicKey)
        ⟨hallowed, hconsumed, allocated, credential, hattested, rfl, rfl⟩
      refine Rooted.begin ⟨hnext.challenge, fun id row hrow => ?_, hnext.request, hnext.backed⟩
        trivial
      obtain ⟨rfl, rfl⟩ | ⟨-, hold⟩ := update_eq_some.mp hrow
      · exact ⟨⟨i, r, List.mem_append_right _ List.mem_cons_self, rfl⟩,
          hconsumed.cut_eq hr.backed⟩
      · exact hnext.passkey id row hold
  | lookedUp a found =>
    rw [Passkeys.proceed]
    obtain heq | ⟨challenge, s', found', hchallenge, hconsumes, heq⟩ := consumeFor_cases lib h.store
      i .authentication webauthnGet a.clientData found.subject o
    · rw [heq, List.append_nil]
      exact hr.begin trivial
    · rw [heq]
      refine (hr.consumed hconsumes i).begin ?_
      dsimp only
      split
      · next hfound =>
        obtain rfl := of_decide_eq_true hfound
        exact checkAssertion_backed (WasRegistered.append hbacked _) ⟨challenge, o.now, o.deleted,
          hchallenge, List.mem_append_right _ List.mem_cons_self⟩
      · exact trivial
  | verified a found signCount =>
    exact ((hr.within (within_touch h.store a.credentialId signCount o)).concat
      (e := .signedIn i a found signCount) hbacked).begin trivial
  | ended refusal =>
    rw [Passkeys.proceed, List.append_nil]
    exact hr.begin trivial

/-- The step lemma. -/
theorem Rooted.step (hr : Rooted lib h events) (a : Action) :
    Rooted lib (Passkeys.step lib h a).1 (events ++ (Passkeys.step lib h a).2) := by
  cases a with
  | create ceremony subject o =>
    rw [Passkeys.step]
    obtain ⟨e, herror, hwithin⟩ | ⟨challenge, m, hwithin, hnone, heq⟩ :=
      challengeCreate_cases h.store ceremony subject o
    · dsimp only
      rw [herror, List.append_nil]
      exact hr.within hwithin
    · dsimp only
      rw [heq]
      have hnext := (hr.within hwithin).concat
        (e := .issued challenge ceremony subject o.issuedAt) trivial
      refine ⟨fun c row hrow => ?_, hnext.passkey, hnext.request, hnext.backed⟩
      obtain ⟨rfl, rfl⟩ | ⟨-, hold⟩ := update_eq_some.mp hrow
      · exact ⟨o.issuedAt, List.mem_append_right _ List.mem_cons_self, rfl⟩
      · exact hnext.challenge c row hold
  | prune now =>
    rw [Passkeys.step, List.append_nil]
    exact hr.within (within_prune h.store now)
  | remove subject credentialId o =>
    rw [Passkeys.step, List.append_nil]
    exact hr.within (within_remove h.store subject credentialId o)
  | register i r authorized =>
    rw [Passkeys.step]
    split
    · rwa [List.append_nil]
    · split
      · rw [List.append_nil]
        exact hr.begin trivial
      · next hsubject =>
        split
        · exact (hr.concat (e := .allowed i r.subject) hsubject).begin
            (List.mem_append_right _ List.mem_cons_self)
        · rw [List.append_nil]
          exact hr.begin trivial
  | authenticate i a selected =>
    rw [Passkeys.step]
    split
    · rwa [List.append_nil]
    · split
      · rw [List.append_nil]
        exact hr.begin trivial
      · next found hfound =>
        rw [List.append_nil]
        exact hr.begin (hr.lookedUp hfound)
  | proceed i o =>
    rw [Passkeys.step]
    split
    · rwa [List.append_nil]
    · next p hp => exact hr.proceed hp o

/-- In every run, however the requests interleave and whatever becomes of their statements: the
subject that is signed in has registered the passkey, under a device session and with a challenge of
its own; and the request has consumed a live challenge that was issued to the subject, and carries a
signature with the key of the passkey and a counter that goes on from the stored one. -/
theorem sign_ins_rest_on_ceremonies (lib : CeremonyLibrary) (run : List Action) :
    Founded lib (after lib run).2 := by
  have hrooted : Rooted lib (after lib run).1 (after lib run).2 :=
    exec_of_invariant (P := fun p : Host × List PasskeyEvent => Rooted lib p.1 p.2)
      (rooted_new lib) fun p a hp => hp.step a
  exact hrooted.backed

end MetalBear.OAuth.Passkeys
