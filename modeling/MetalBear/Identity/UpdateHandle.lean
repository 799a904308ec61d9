import MetalBear.Dns.Publishing
import MetalBear.Sync.ListRepos

/-!
# Renaming an account

`com.atproto.identity.updateHandle` on the places that carry a handle: the registry, the repository
store, the cached context, the event log, the zone of the handles and the PLC directory. Every
statement and every call outside the process is either carried out or refused, as the request finds
it; the PLC directory may besides carry out what it reports as failed.
-/

namespace MetalBear.Identity

open MetalBear.Dns
open MetalBear.Sync (XrpcError)

/-! ## The registry -/

/-- A row of `accounts`, as far as it is read here. -/
structure RegistryRow where
  did : Dns.Text
  handle : Dns.Text
  deriving DecidableEq, Repr

/-- `UPDATE accounts SET handle=? WHERE did=?` on one row. -/
def RegistryRow.rename (did handle : Dns.Text) (row : RegistryRow) : RegistryRow :=
  if row.did = did then { row with handle := handle } else row

@[simp]
theorem RegistryRow.rename_did (did handle : Dns.Text) (row : RegistryRow) :
    (row.rename did handle).did = row.did := by
  rw [rename]
  split <;> rfl

/-- The table `accounts`: `did` is its primary key, and `handle` is unique. -/
structure Registry where
  rows : List RegistryRow
  dids_nodup : (rows.map RegistryRow.did).Nodup
  handles_nodup : (rows.map RegistryRow.handle).Nodup

/-- `metalbear_account_registry_find_by_handle`. -/
def Registry.findByHandle (r : Registry) (handle : Dns.Text) : Option RegistryRow :=
  r.rows.find? fun row => decide (row.handle = handle)

/-- `metalbear_account_registry_update_handle`: the statement fails where a handle is taken. -/
def Registry.updateHandle (r : Registry) (did handle : Dns.Text) (carriedOut : Bool) :
    Option Registry :=
  let rows := r.rows.map (RegistryRow.rename did handle)
  if h : carriedOut = true ∧ (rows.map RegistryRow.handle).Nodup then
    some
      { rows := rows
        dids_nodup := by
          have hdids : RegistryRow.did ∘ RegistryRow.rename did handle = RegistryRow.did :=
            funext (RegistryRow.rename_did did handle)
          rw [List.map_map, hdids]
          exact r.dids_nodup
        handles_nodup := h.2 }
  else none

/-! ## The server -/

/-- What `updateHandle` reads of the server, with the predicates of the protocol library. -/
structure IdentityServer where
  /-- `wf_syntax_handle_is_valid`. -/
  handleIsValid : Dns.Text → Bool
  /-- `wf_did_method_of` is `WF_DID_METHOD_PLC`. -/
  didIsPlc : Dns.Text → Bool
  userDomain : Dns.Text
  handleDns : Option HandleDns

/-- An `#identity` event. -/
structure IdentityEvent where
  did : Dns.Text
  handle : Dns.Text
  deriving DecidableEq, Repr

/-- The places that carry the handle of an account. -/
structure IdentityState where
  registry : Registry
  /-- `meta.handle`. -/
  repoHandle : Dns.Text
  /-- `acct->handle`. -/
  cachedHandle : Dns.Text
  events : List IdentityEvent
  /-- The TXT records at each name. -/
  zone : Dns.Text → List TxtRecord
  /-- The handle in `alsoKnownAs`. -/
  plcHandle : Dns.Text
  /-- `METALBEAR_METRIC_DNS_FAILURES`. -/
  dnsFailures : Nat

/-- Names are compared without case. -/
def dnsName (handle : Dns.Text) : Dns.Text :=
  handle.map fun b => if 65 ≤ b ∧ b ≤ 90 then b + 32 else b

/-- The handle of the last `#identity` event of an account. -/
def IdentityState.lastIdentity (s : IdentityState) (did : Dns.Text) : Option Dns.Text :=
  (s.events.reverse.find? fun e => decide (e.did = did)).map IdentityEvent.handle

/-- The outcome of a PLC operation. -/
inductive PlcOutcome where
  | noKey
  | noClient
  /-- Not built, or not accepted. -/
  | refused
  /-- Accepted, with an answer that does not arrive. -/
  | lost
  | accepted
  deriving DecidableEq, Repr

/-- What a request for a rename finds, the calls of the DNS provider apart. -/
structure UpdateCalls where
  /-- The account of the access token is resolved. -/
  resolved : Bool
  /-- The seconds to wait, where a limit is exceeded. -/
  limited : Option Nat
  registryRead : Bool
  plc : PlcOutcome
  copied : Bool
  repoWritten : Bool
  registryWritten : Bool
  repoRestored : Bool
  appended : Bool
  deriving DecidableEq, Repr

/-! ## The checks -/

/-- The checks of the parameter. -/
def validateHandle (server : IdentityServer) (param : Option Dns.Text) :
    Except XrpcError Dns.Text :=
  match param with
  | none => .error ⟨400, "InvalidHandle", "A valid handle is required"⟩
  | some handle =>
    if handle = [] ∨ server.handleIsValid handle = false then
      .error ⟨400, "InvalidHandle", "A valid handle is required"⟩
    else if server.userDomain = [] ∨ handle.length ≤ server.userDomain.length ∨
        handle.drop (handle.length - server.userDomain.length) ≠ server.userDomain then
      .error ⟨400, "InvalidHandle", "Handle must be under the configured domain"⟩
    else .ok handle

/-- The checks of the request, up to the first change. -/
def checkHandle (server : IdentityServer) (did : Dns.Text) (s : IdentityState)
    (param : Option Dns.Text) (calls : UpdateCalls) : Except XrpcError Dns.Text :=
  match validateHandle server param with
  | .error e => .error e
  | .ok handle =>
    if calls.resolved = false then .error ⟨401, "InvalidToken", "Invalid access token"⟩
    else if let some retryAfter := calls.limited then
      .error ⟨429, "RateLimitExceeded",
        "Rate limit exceeded. Retry after " ++ toString retryAfter ++ " seconds."⟩
    else if calls.registryRead = true ∧
        ∃ row ∈ s.registry.findByHandle handle, row.did ≠ did then
      .error ⟨400, "InvalidHandle", "Handle is already in use"⟩
    else .ok handle

/-! ## The stores -/

/-- `metalbear_plc_update_handle`. -/
def plcUpdateHandle (server : IdentityServer) (did : Dns.Text) (s : IdentityState)
    (handle : Dns.Text) (outcome : PlcOutcome) : IdentityState × Except XrpcError Unit :=
  if server.didIsPlc did = false then (s, .ok ())
  else
    match outcome with
    | .noKey => (s, .error ⟨500, "InternalError", "Could not load PLC rotation key"⟩)
    | .noClient => (s, .error ⟨500, "InternalError", "Could not reach the PLC directory"⟩)
    | .refused => (s, .error ⟨500, "InternalError", "Could not update PLC document"⟩)
    | .lost =>
      ({ s with plcHandle := handle },
        .error ⟨500, "InternalError", "Could not update PLC document"⟩)
    | .accepted => ({ s with plcHandle := handle }, .ok ())

/-- `metalbear_repo_store_set_handle`. -/
def repoStoreSetHandle (server : IdentityServer) (s : IdentityState) (handle : Dns.Text)
    (carriedOut : Bool) : Option IdentityState :=
  if server.handleIsValid handle = true ∧ carriedOut = true then
    some { s with repoHandle := handle }
  else none

/-- What a DNS call leaves at a name, and whether it failed. -/
def IdentityState.setRecords (s : IdentityState) (name : Dns.Text) (written : Written) :
    IdentityState :=
  { s with
    zone := Function.update s.zone name written.1
    dnsFailures := s.dnsFailures + if written.2 = .ok () then 0 else 1 }

/-- `publish_handle_dns`. -/
def publishHandleDns (server : IdentityServer) (s : IdentityState) (handle did : Dns.Text)
    (calls : DnsCalls) : IdentityState :=
  match server.handleDns with
  | none => s
  | some dns =>
    s.setRecords (dnsName handle) (handleDnsPublish dns handle did (s.zone (dnsName handle)) calls)

/-- `retract_handle_dns`. -/
def retractHandleDns (server : IdentityServer) (s : IdentityState) (handle : Dns.Text)
    (calls : DnsCalls) : IdentityState :=
  match server.handleDns with
  | none => s
  | some dns =>
    s.setRecords (dnsName handle) (handleDnsRetract dns handle (s.zone (dnsName handle)) calls)

/-- `metalbear_sequencer_identity`. -/
def sequencerIdentity (s : IdentityState) (did handle : Dns.Text) (appended : Bool) :
    IdentityState :=
  if appended = true then { s with events := s.events ++ [⟨did, handle⟩] } else s

/-! ## The route -/

/-- The error of a store. -/
def notPersisted : XrpcError := ⟨500, "InternalError", "Could not persist handle"⟩

/-- What follows the last step that can fail. -/
def announceHandle (server : IdentityServer) (did : Dns.Text) (s : IdentityState)
    (handle : Dns.Text) (calls : UpdateCalls) (publish retract : DnsCalls) : IdentityState :=
  let published := publishHandleDns server s handle did publish
  let retracted := retractHandleDns server published s.cachedHandle retract
  { sequencerIdentity retracted did handle calls.appended with cachedHandle := handle }

/-- The local stores, the repository before the registry. -/
def persistHandle (server : IdentityServer) (did : Dns.Text) (s : IdentityState)
    (handle : Dns.Text) (calls : UpdateCalls) : IdentityState × Except XrpcError Unit :=
  if calls.copied = false then (s, .error notPersisted)
  else
    match repoStoreSetHandle server s handle calls.repoWritten with
    | none => (s, .error notPersisted)
    | some set =>
      match s.registry.updateHandle did handle calls.registryWritten with
      | none =>
        -- The outcome of the rollback is not looked at.
        ((repoStoreSetHandle server set s.cachedHandle calls.repoRestored).getD set,
          .error notPersisted)
      | some registry => ({ set with registry := registry }, .ok ())

/-- `update_handle`, for the account of a DID. -/
def updateHandle (server : IdentityServer) (did : Dns.Text) (s : IdentityState)
    (param : Option Dns.Text) (calls : UpdateCalls) (publish retract : DnsCalls) :
    IdentityState × Except XrpcError Unit :=
  match checkHandle server did s param calls with
  | .error e => (s, .error e)
  | .ok handle =>
    match plcUpdateHandle server did s handle calls.plc with
    | (updated, .error e) => (updated, .error e)
    | (updated, .ok ()) =>
      match persistHandle server did updated handle calls with
      | (persisted, .error e) => (persisted, .error e)
      | (persisted, .ok ()) =>
        (announceHandle server did persisted handle calls publish retract, .ok ())

end MetalBear.Identity
