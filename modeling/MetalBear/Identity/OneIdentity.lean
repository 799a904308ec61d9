import MetalBear.Identity.UpdateHandle

/-!
# One identity

What a rename leaves: on success every store carries the new handle, on an error every store is as
before. The changes are made one after the other, so each failure is looked at by itself.
-/

namespace MetalBear.Identity

open MetalBear.Dns
open MetalBear.Sync (XrpcError)

variable {server : IdentityServer} {s : IdentityState}

/-! ## The zone -/

/-- Whether the provider takes the value. -/
def Takes (dns : HandleDns) (did : Did) (records : List TxtRecord) : Prop :=
  dns.shown records = some (wanted did.text) ∨
    ∃ newId records', dns.provider.written newId (wanted did.text) records = some records'

/-- Whether the value is there, whole, after it was published. -/
def HasValue (dns : HandleDns) (did : Did) (records : List TxtRecord) : Prop :=
  if dns.shown records = some (wanted did.text) then ∃ r ∈ records, r.value = did.value
  else did.value.length ≤ 511 ∨ ∃ r ∈ dns.provider.remaining records, r.value = did.value

variable {dns : HandleDns} {did : Did} {handle : Dns.Text} {records records' : List TxtRecord}

theorem publish_ok_of_takes {name : Dns.Text} (hreaches : dns.Reaches handle name)
    (htakes : Takes dns did records) :
    ∃ newId records', handleDnsPublish dns handle did.text records ⟨true, true, newId⟩ =
      (records', .ok ()) := by
  by_cases hshown : dns.shown records = some (wanted did.text)
  · exact ⟨0, records, (hreaches.publish_eq_ok_iff did).mpr ⟨rfl, by rw [if_pos hshown]⟩⟩
  · obtain ⟨newId, records', hwritten⟩ := htakes.resolve_left hshown
    exact ⟨newId, records', (hreaches.publish_eq_ok_iff did).mpr
      ⟨rfl, by rw [if_neg hshown]; exact ⟨rfl, hwritten⟩⟩⟩

theorem takes_of_publish {calls : DnsCalls}
    (h : handleDnsPublish dns handle did.text records calls = (records', .ok ())) :
    (∃ name, dns.Reaches handle name) ∧ Takes dns did records := by
  obtain ⟨name, hreaches⟩ := HandleDns.reaches_of_publish h
  obtain ⟨-, hafter⟩ := (hreaches.publish_eq_ok_iff did).mp h
  refine ⟨⟨name, hreaches⟩, ?_⟩
  by_cases hshown : dns.shown records = some (wanted did.text)
  · exact .inl hshown
  · rw [if_neg hshown] at hafter
    exact .inr ⟨calls.newId, records', hafter.2⟩

/-- What a publication does to the records, in the two ways that they are read. -/
theorem published_records {calls : DnsCalls}
    (h : handleDnsPublish dns handle did.text records calls = (records', .ok ())) :
    dns.provider.remaining records' = dns.provider.remaining records ∧
      ((∃ r ∈ records', r.value = did.value) ↔ HasValue dns did records) := by
  obtain ⟨name, hreaches⟩ := HandleDns.reaches_of_publish h
  obtain ⟨-, hafter⟩ := (hreaches.publish_eq_ok_iff did).mp h
  rw [HasValue]
  by_cases hshown : dns.shown records = some (wanted did.text)
  · rw [if_pos hshown] at hafter ⊢
    subst hafter
    exact ⟨rfl, Iff.rfl⟩
  · rw [if_neg hshown] at hafter ⊢
    obtain ⟨⟨id, rfl⟩, -⟩ := eq_of_written hafter.2
    constructor
    · rw [Provider.remaining, Provider.remaining]
      split <;> simp
    · rw [← Did.wanted_eq_iff]
      simp [value_single]

/-- The TXT records after a rename. -/
def Moved (did : Did) (old new : Dns.Text) (zone : Dns.Text → List TxtRecord) : Prop :=
  (∃ r ∈ zone (dnsName new), r.value = did.value) ∧
    (dnsName old ≠ dnsName new → ∀ r ∈ zone (dnsName old), ¬ r.namesDid)

/-- Where the provider can carry both calls out, they move the record: a name that is published
and retracted needs a second record, and one that is left no second `did=` value. -/
def DnsMoves (dns : HandleDns) (did : Did) (old new : Dns.Text)
    (zone : Dns.Text → List TxtRecord) : Prop :=
  (∃ name, dns.Reaches new name) → (∃ name, dns.Reaches old name) →
    Takes dns did (zone (dnsName new)) →
    if dnsName old = dnsName new then
      ∃ r ∈ dns.provider.remaining (zone (dnsName new)), r.value = did.value
    else HasValue dns did (zone (dnsName new)) ∧
      ∀ r ∈ dns.provider.remaining (zone (dnsName old)), ¬ r.namesDid

/-- The two calls of a rename, both carried out. -/
structure MoveCalls (dns : HandleDns) (did : Did) (old new : Dns.Text)
    (zone : Dns.Text → List TxtRecord) (publish retract : DnsCalls)
    (published retracted : List TxtRecord) : Prop where
  publish_eq : handleDnsPublish dns new did.text (zone (dnsName new)) publish =
    (published, .ok ())
  retract_eq : handleDnsRetract dns old
    (Function.update zone (dnsName new) published (dnsName old)) retract = (retracted, .ok ())

/-- The zone after both calls. -/
def movedZone (old new : Dns.Text) (zone : Dns.Text → List TxtRecord)
    (published retracted : List TxtRecord) : Dns.Text → List TxtRecord :=
  Function.update (Function.update zone (dnsName new) published) (dnsName old) retracted

variable {old new : Dns.Text} {zone : Dns.Text → List TxtRecord} {publish retract : DnsCalls}
  {published retracted : List TxtRecord}

/-- What the retraction leaves is what it leaves of the zone before the rename. -/
theorem MoveCalls.retracted_eq (h : MoveCalls dns did old new zone publish retract published
    retracted) : retracted = dns.provider.remaining (zone (dnsName old)) := by
  obtain ⟨name, hreaches⟩ := HandleDns.reaches_of_retract h.retract_eq
  obtain ⟨-, -, hremaining⟩ := hreaches.retract_eq_ok_iff.mp h.retract_eq
  rw [← hremaining]
  by_cases hsame : dnsName old = dnsName new
  · rw [hsame, Function.update_self]
    exact (published_records h.publish_eq).1
  · rw [Function.update_of_ne hsame]

/-- What both calls leave, read off the zone before the rename. -/
theorem MoveCalls.moved_iff (h : MoveCalls dns did old new zone publish retract published
    retracted) : Moved did old new (movedZone old new zone published retracted) ↔
      if dnsName old = dnsName new then
        ∃ r ∈ dns.provider.remaining (zone (dnsName new)), r.value = did.value
      else HasValue dns did (zone (dnsName new)) ∧
        ∀ r ∈ dns.provider.remaining (zone (dnsName old)), ¬ r.namesDid := by
  rw [Moved, movedZone, Function.update_self, h.retracted_eq]
  split
  · next hsame =>
    rw [hsame, Function.update_self]
    simp
  · next hne =>
    rw [Function.update_of_ne (Ne.symm hne), Function.update_self]
    rw [(published_records h.publish_eq).2]
    simp [hne]

theorem dnsMoves_iff : DnsMoves dns did old new zone ↔ ∀ publish retract published retracted,
    MoveCalls dns did old new zone publish retract published retracted →
      Moved did old new (movedZone old new zone published retracted) := by
  constructor
  · intro h publish retract published retracted hcalls
    obtain ⟨hnew, htakes⟩ := takes_of_publish hcalls.publish_eq
    exact hcalls.moved_iff.mpr (h hnew (HandleDns.reaches_of_retract hcalls.retract_eq) htakes)
  · intro h hnew hold htakes
    obtain ⟨name, hname⟩ := hnew
    obtain ⟨oldName, holdName⟩ := hold
    obtain ⟨newId, published, hpublished⟩ := publish_ok_of_takes hname htakes
    have hcalls : MoveCalls dns did old new zone ⟨true, true, newId⟩ ⟨true, true, 0⟩ published _ :=
      ⟨hpublished, holdName.retract_eq_ok_iff.mpr ⟨rfl, fun _ => rfl, rfl⟩⟩
    exact hcalls.moved_iff.mp (h _ _ _ _ hcalls)

/-! ## The announcement -/

variable {calls : UpdateCalls}

theorem lastIdentity_sequencerIdentity (did handle : Dns.Text) (appended : Bool) :
    (sequencerIdentity s did handle appended).lastIdentity did =
      if appended = true then some handle else s.lastIdentity did := by
  rw [sequencerIdentity]
  split
  · simp [IdentityState.lastIdentity]
  · rfl

/-- The calls at the provider, where one is configured. -/
theorem announceHandle_zone (hdns : server.handleDns = some dns) (did : Did) (s : IdentityState)
    (new : Dns.Text) (calls : UpdateCalls) (publish retract : DnsCalls) :
    let s' := announceHandle server did.text s new calls publish retract
    let published := handleDnsPublish dns new did.text (s.zone (dnsName new)) publish
    let retracted := handleDnsRetract dns s.cachedHandle
      (Function.update s.zone (dnsName new) published.1 (dnsName s.cachedHandle)) retract
    s'.zone = movedZone s.cachedHandle new s.zone published.1 retracted.1 ∧
      s'.dnsFailures = s.dnsFailures + (if published.2 = .ok () then 0 else 1) +
        (if retracted.2 = .ok () then 0 else 1) := by
  intro s' published retracted
  have hset (t : IdentityState) : (sequencerIdentity t did.text new calls.appended).zone = t.zone ∧
      (sequencerIdentity t did.text new calls.appended).dnsFailures = t.dnsFailures := by
    rw [sequencerIdentity]
    split <;> exact ⟨rfl, rfl⟩
  simp only [s', announceHandle, (hset _).1, (hset _).2, retractHandleDns, publishHandleDns, hdns,
    IdentityState.setRecords]
  exact ⟨rfl, rfl⟩

/-- The counter stands still exactly where neither call fails. -/
theorem failures_eq_iff {a b : Prop} [Decidable a] [Decidable b] (n : Nat) :
    (n + (if a then 0 else 1) + (if b then 0 else 1) = n) ↔ a ∧ b := by
  by_cases ha : a <;> by_cases hb : b <;> simp [ha, hb, Nat.add_assoc]

/-- A rename moves the record whenever no call fails, where the zone before it lets it. -/
theorem announceHandle_moves_iff (hdns : server.handleDns = some dns) (did : Did)
    (s : IdentityState) (new : Dns.Text) (calls : UpdateCalls) :
    (∀ publish retract, let s' := announceHandle server did.text s new calls publish retract
      s'.dnsFailures = s.dnsFailures → Moved did s.cachedHandle new s'.zone) ↔
      DnsMoves dns did s.cachedHandle new s.zone := by
  rw [dnsMoves_iff]
  constructor
  · intro h publish retract published retracted hcalls
    have hzone := announceHandle_zone hdns did s new calls publish retract
    simp only [hcalls.publish_eq, hcalls.retract_eq] at hzone
    rw [← hzone.1]
    exact h publish retract (by simpa using hzone.2)
  · intro h publish retract s' hfailures
    obtain ⟨hzone, hcount⟩ := announceHandle_zone hdns did s new calls publish retract
    rw [hcount, failures_eq_iff] at hfailures
    rw [hzone]
    exact h publish retract _ _ ⟨Prod.ext rfl hfailures.1, Prod.ext rfl hfailures.2⟩

/-- The other stores after a rename. -/
theorem announceHandle_stores (server : IdentityServer) (did : Did) (s : IdentityState)
    (new : Dns.Text) (calls : UpdateCalls) (publish retract : DnsCalls) :
    let s' := announceHandle server did.text s new calls publish retract
    s'.registry = s.registry ∧ s'.repoHandle = s.repoHandle ∧ s'.cachedHandle = new ∧
      s'.lastIdentity did.text =
        if calls.appended = true then some new else s.lastIdentity did.text := by
  have hpublish (t : IdentityState) : (publishHandleDns server t new did.text publish).registry =
      t.registry ∧ (publishHandleDns server t new did.text publish).repoHandle = t.repoHandle ∧
      (publishHandleDns server t new did.text publish).cachedHandle = t.cachedHandle ∧
      (publishHandleDns server t new did.text publish).events = t.events := by
    rw [publishHandleDns]
    split <;> exact ⟨rfl, rfl, rfl, rfl⟩
  have hretract (t : IdentityState) (old : Dns.Text) :
      (retractHandleDns server t old retract).registry = t.registry ∧
      (retractHandleDns server t old retract).repoHandle = t.repoHandle ∧
      (retractHandleDns server t old retract).events = t.events := by
    rw [retractHandleDns]
    split <;> exact ⟨rfl, rfl, rfl⟩
  have happend (t : IdentityState) :
      (sequencerIdentity t did.text new calls.appended).registry = t.registry ∧
      (sequencerIdentity t did.text new calls.appended).repoHandle = t.repoHandle := by
    rw [sequencerIdentity]
    split <;> exact ⟨rfl, rfl⟩
  intro s'
  refine ⟨?_, ?_, rfl, ?_⟩
  · simp only [s', announceHandle, (happend _).1, (hretract _ _).1, (hpublish _).1]
  · simp only [s', announceHandle, (happend _).2, (hretract _ _).2.1, (hpublish _).2.1]
  · refine (lastIdentity_sequencerIdentity did.text new calls.appended).trans ?_
    simp only [IdentityState.lastIdentity, (hretract _ _).2.2, (hpublish _).2.2.2]

/-! ## The property -/

/-- An account of this server. -/
structure HostedAccount (s : IdentityState) where
  did : Did
  hosted : ∃ row ∈ s.registry.rows, row.did = did.text

/-- Every store carries the new handle. -/
structure OneIdentity (server : IdentityServer) (did : Did) (old new : Dns.Text) (failures : Nat)
    (s : IdentityState) : Prop where
  registry : ∃ row ∈ s.registry.rows, row.did = did.text ∧ row.handle = new
  repo : s.repoHandle = new
  cached : s.cachedHandle = new
  event : s.lastIdentity did.text = some new
  /-- Where there is a provider, and the counter of failed calls stands still. -/
  moved : server.handleDns ≠ none → s.dnsFailures = failures → Moved did old new s.zone

/-- Whatever the DNS calls do: success leaves one identity, and an error the old state. -/
def LeavesOneIdentity (server : IdentityServer) (s : IdentityState) (acct : HostedAccount s)
    (param : Option Dns.Text) (calls : UpdateCalls) : Prop :=
  ∀ publish retract,
    let r := updateHandle server acct.did.text s param calls publish retract
    (r.2 = .ok () → ∃ new, param = some new ∧
      OneIdentity server acct.did s.cachedHandle new s.dnsFailures r.1) ∧
    ∀ e, r.2 = .error e → r.1 = s

/-! ## The condition -/

/-- The PLC document names the handle already, or there is none. -/
def PlcKept (server : IdentityServer) (did : Did) (s : IdentityState) (new : Dns.Text) : Prop :=
  server.didIsPlc did.text = true → s.plcHandle = new

/-- The rollback puts the handle of the repository back. -/
def RepoRestored (server : IdentityServer) (s : IdentityState) (new : Dns.Text)
    (calls : UpdateCalls) : Prop :=
  if server.handleIsValid s.cachedHandle = true ∧ calls.repoRestored = true then
    s.repoHandle = s.cachedHandle
  else s.repoHandle = new

/-- No step is refused after one that is not undone. -/
structure RenameKept (server : IdentityServer) (s : IdentityState) (did : Did) (new : Dns.Text)
    (calls : UpdateCalls) : Prop where
  plc_lost : calls.plc = .lost → PlcKept server did s new
  /-- The PLC directory has the operation, and the repository store does not take the handle. -/
  repo_failed : calls.plc = .accepted → calls.copied = false ∨ calls.repoWritten = false →
    PlcKept server did s new
  /-- The registry does not take the handle. -/
  registry_failed : server.didIsPlc did.text = false ∨ calls.plc = .accepted →
    calls.copied = true → calls.repoWritten = true →
    s.registry.updateHandle did.text new calls.registryWritten = none →
    PlcKept server did s new ∧ RepoRestored server s new calls
  /-- All stores took it: the event is in the log, and the zone lets the record move. -/
  announced : server.didIsPlc did.text = false ∨ calls.plc = .accepted →
    calls.copied = true → calls.repoWritten = true →
    s.registry.updateHandle did.text new calls.registryWritten ≠ none →
    (calls.appended = true ∨ s.lastIdentity did.text = some new) ∧
      ∀ dns, server.handleDns = some dns → DnsMoves dns did s.cachedHandle new s.zone

/-- A request that is refused at once changes nothing. -/
def RequestKept (server : IdentityServer) (s : IdentityState) (acct : HostedAccount s)
    (param : Option Dns.Text) (calls : UpdateCalls) : Prop :=
  ∀ new, checkHandle server acct.did.text s param calls = .ok new →
    RenameKept server s acct.did new calls

/-! ## The steps -/

variable {param : Option Dns.Text} {e : XrpcError}

theorem validateHandle_eq_ok (h : validateHandle server param = .ok new) :
    param = some new ∧ server.handleIsValid new = true := by
  cases param with
  | none => cases h
  | some handle =>
    rw [validateHandle] at h
    split at h
    · cases h
    · next hvalid =>
      split at h
      · cases h
      · cases h
        exact ⟨rfl, Bool.eq_true_of_not_eq_false (not_or.mp hvalid).2⟩

theorem checkHandle_eq_ok {did : Dns.Text} (h : checkHandle server did s param calls = .ok new) :
    param = some new ∧ server.handleIsValid new = true := by
  rw [checkHandle] at h
  cases hvalidate : validateHandle server param with
  | error e => simp [hvalidate] at h
  | ok handle =>
    simp only [hvalidate] at h
    obtain rfl : handle = new := by
      split at h
      · cases h
      · cases hlimited : calls.limited with
        | some retryAfter => simp [hlimited] at h
        | none =>
          simp only [hlimited] at h
          split at h
          · cases h
          · exact Except.ok.inj h
    exact validateHandle_eq_ok hvalidate

/-- The state once the PLC directory has the operation. -/
def withPlc (server : IdentityServer) (did : Did) (s : IdentityState) (new : Dns.Text) :
    IdentityState :=
  if server.didIsPlc did.text = true then { s with plcHandle := new } else s

theorem withPlc_eq_iff : withPlc server did s new = s ↔ PlcKept server did s new := by
  rw [withPlc, PlcKept]
  by_cases hplc : server.didIsPlc did.text = true
  · rw [if_pos hplc]
    simp only [hplc, true_implies]
    constructor
    · intro h
      rw [← h]
    · rintro rfl
      rfl
  · simp [hplc]

theorem plcUpdateHandle_of_pass {outcome : PlcOutcome}
    (hpass : server.didIsPlc did.text = false ∨ outcome = .accepted) :
    plcUpdateHandle server did.text s new outcome = (withPlc server did s new, .ok ()) := by
  rw [withPlc]
  cases hplc : server.didIsPlc did.text with
  | false => simp [plcUpdateHandle, hplc]
  | true =>
    rw [hplc] at hpass
    obtain rfl := hpass.resolve_left (by simp)
    simp [plcUpdateHandle, hplc]

theorem plcUpdateHandle_of_not_pass (s : IdentityState) (new : Dns.Text) {outcome : PlcOutcome}
    (hpass : ¬ (server.didIsPlc did.text = false ∨ outcome = .accepted)) :
    ∃ e, plcUpdateHandle server did.text s new outcome =
      (if outcome = .lost then withPlc server did s new else s, .error e) := by
  obtain ⟨hplc, hnot⟩ := not_or.mp hpass
  rw [Bool.not_eq_false] at hplc
  cases outcome with
  | accepted => exact absurd rfl hnot
  | _ => simp [plcUpdateHandle, withPlc, hplc]

/-- The registry names the account by the new handle. -/
theorem HostedAccount.mem_renamed (acct : HostedAccount s) {carriedOut : Bool}
    {registry : Registry}
    (h : s.registry.updateHandle acct.did.text new carriedOut = some registry) :
    ∃ row ∈ registry.rows, row.did = acct.did.text ∧ row.handle = new := by
  obtain ⟨row, hrow, hdid⟩ := acct.hosted
  rw [Registry.updateHandle] at h
  obtain ⟨hok, heq⟩ := Option.dite_none_right_eq_some.mp h
  cases heq
  refine ⟨row.rename acct.did.text new, List.mem_map_of_mem hrow, ?_, ?_⟩
  · rw [RegistryRow.rename_did, hdid]
  · rw [RegistryRow.rename, if_pos hdid]

/-- A rename that ends in an error leaves one identity where it ends as it began. -/
theorem leavesOneIdentity_of_error {acct : HostedAccount s} {after : IdentityState}
    (h : ∀ publish retract, updateHandle server acct.did.text s param calls publish retract =
      (after, .error e)) :
    LeavesOneIdentity server s acct param calls ↔ after = s := by
  simp only [LeavesOneIdentity, h]
  constructor
  · intro hleaves
    exact (hleaves ⟨true, true, 0⟩ ⟨true, true, 0⟩).2 e rfl
  · intro hafter publish retract
    exact ⟨nofun, fun _ _ => hafter⟩

@[simp]
theorem withPlc_registry : (withPlc server did s new).registry = s.registry := by
  rw [withPlc]
  split <;> rfl

@[simp]
theorem withPlc_cachedHandle : (withPlc server did s new).cachedHandle = s.cachedHandle := by
  rw [withPlc]
  split <;> rfl

theorem withPlc_setRepo_eq_iff (handle : Dns.Text) :
    { withPlc server did s new with repoHandle := handle } = s ↔
      PlcKept server did s new ∧ s.repoHandle = handle := by
  rw [← withPlc_eq_iff]
  constructor
  · intro h
    have hrepo := congrArg IdentityState.repoHandle h
    refine ⟨?_, hrepo.symm⟩
    rw [withPlc] at h ⊢
    split
    · next hplc =>
      rw [if_pos hplc] at h
      obtain rfl : new = s.plcHandle := congrArg IdentityState.plcHandle h
      rfl
    · rfl
  · rintro ⟨h, rfl⟩
    rw [h]

/-- The rollback leaves the state as it was before the rename. -/
theorem restored_eq_iff :
    (repoStoreSetHandle server { withPlc server did s new with repoHandle := new }
      (withPlc server did s new).cachedHandle calls.repoRestored).getD
        { withPlc server did s new with repoHandle := new } = s ↔
      PlcKept server did s new ∧ RepoRestored server s new calls := by
  rw [RepoRestored, ← @withPlc_cachedHandle server s did new, repoStoreSetHandle]
  split
  · exact withPlc_setRepo_eq_iff _
  · exact withPlc_setRepo_eq_iff new

theorem updateHandle_of_persisted {t : IdentityState}
    (hcheck : checkHandle server did.text s param calls = .ok new)
    (hpass : server.didIsPlc did.text = false ∨ calls.plc = .accepted)
    (hpersist : persistHandle server did.text (withPlc server did s new) new calls = (t, .ok ())) :
    updateHandle server did.text s param calls publish retract =
      (announceHandle server did.text t new calls publish retract, .ok ()) := by
  simp only [updateHandle, hcheck, plcUpdateHandle_of_pass hpass, hpersist]

theorem updateHandle_of_not_persisted {t : IdentityState}
    (hcheck : checkHandle server did.text s param calls = .ok new)
    (hpass : server.didIsPlc did.text = false ∨ calls.plc = .accepted)
    (hpersist : persistHandle server did.text (withPlc server did s new) new calls =
      (t, .error e)) :
    updateHandle server did.text s param calls publish retract = (t, .error e) := by
  simp only [updateHandle, hcheck, plcUpdateHandle_of_pass hpass, hpersist]

/-- The repository store is not reached, or does not take the handle. -/
theorem persistHandle_of_refused {t : IdentityState}
    (h : ¬ (calls.copied = true ∧ calls.repoWritten = true)) :
    persistHandle server did.text t new calls = (t, .error notPersisted) := by
  rw [persistHandle]
  cases hcopied : calls.copied with
  | false => rfl
  | true => simp [repoStoreSetHandle, by simpa [hcopied] using h]

theorem repoStoreSetHandle_eq (hvalid : server.handleIsValid new = true) (t : IdentityState) :
    repoStoreSetHandle server t new true = some { t with repoHandle := new } :=
  if_pos ⟨hvalid, rfl⟩

/-- The registry does not take the handle, and the repository store is rolled back. -/
theorem persistHandle_of_taken {t : IdentityState} (hvalid : server.handleIsValid new = true)
    (hrepo : calls.copied = true ∧ calls.repoWritten = true)
    (hregistry : t.registry.updateHandle did.text new calls.registryWritten = none) :
    persistHandle server did.text t new calls =
      ((repoStoreSetHandle server { t with repoHandle := new } t.cachedHandle
        calls.repoRestored).getD { t with repoHandle := new }, .error notPersisted) := by
  simp only [persistHandle, hrepo.1, hrepo.2, repoStoreSetHandle_eq hvalid, hregistry,
    Bool.true_eq_false, if_false]

/-- Both stores take the handle. -/
theorem persistHandle_of_written {t : IdentityState} {registry : Registry}
    (hvalid : server.handleIsValid new = true)
    (hrepo : calls.copied = true ∧ calls.repoWritten = true)
    (hregistry : t.registry.updateHandle did.text new calls.registryWritten = some registry) :
    persistHandle server did.text t new calls =
      ({ t with repoHandle := new, registry := registry }, .ok ()) := by
  simp only [persistHandle, hrepo.1, hrepo.2, repoStoreSetHandle_eq hvalid, hregistry,
    Bool.true_eq_false, if_false]

/-- What the stores that took the handle leave to announce. -/
structure Persisted (did : Did) (new : Dns.Text) (s t : IdentityState) : Prop where
  registry : ∃ row ∈ t.registry.rows, row.did = did.text ∧ row.handle = new
  repo : t.repoHandle = new
  cached : t.cachedHandle = s.cachedHandle
  zone : t.zone = s.zone
  failures : t.dnsFailures = s.dnsFailures
  event : t.lastIdentity did.text = s.lastIdentity did.text

theorem HostedAccount.persisted (acct : HostedAccount s) {registry : Registry}
    (hregistry : s.registry.updateHandle acct.did.text new calls.registryWritten =
      some registry) :
    Persisted acct.did new s
      { withPlc server acct.did s new with repoHandle := new, registry := registry } where
  registry := acct.mem_renamed hregistry
  repo := rfl
  cached := withPlc_cachedHandle
  zone := by
    rw [withPlc]
    split <;> rfl
  failures := by
    rw [withPlc]
    split <;> rfl
  event := by
    rw [withPlc]
    split <;> rfl

/-- A rename that all stores took leaves one identity where it was announced. -/
theorem leavesOneIdentity_of_ok {acct : HostedAccount s} {t : IdentityState}
    (ht : Persisted acct.did new s t)
    (h : ∀ publish retract, updateHandle server acct.did.text s (some new) calls publish retract =
      (announceHandle server acct.did.text t new calls publish retract, .ok ())) :
    LeavesOneIdentity server s acct (some new) calls ↔
      (calls.appended = true ∨ s.lastIdentity acct.did.text = some new) ∧
        ∀ dns, server.handleDns = some dns →
          DnsMoves dns acct.did s.cachedHandle new s.zone := by
  have hstores := announceHandle_stores server acct.did t new calls
  have hevent (publish retract : DnsCalls) :
      (announceHandle server acct.did.text t new calls publish retract).lastIdentity
        acct.did.text = some new ↔
        calls.appended = true ∨ s.lastIdentity acct.did.text = some new := by
    rw [(hstores publish retract).2.2.2, ht.event]
    split <;> simp [*]
  have hmoves {dns : HandleDns} (hdns : server.handleDns = some dns) :=
    announceHandle_moves_iff hdns acct.did t new calls
  simp only [ht.cached, ht.zone, ht.failures] at hmoves
  simp only [LeavesOneIdentity, h, Option.some.injEq, exists_eq_left', true_implies]
  constructor
  · intro hleaves
    refine ⟨(hevent ⟨true, true, 0⟩ ⟨true, true, 0⟩).mp (hleaves _ _).1.event, fun dns hdns => ?_⟩
    apply (hmoves hdns).mp
    intro publish retract
    exact (hleaves publish retract).1.moved (by simp [hdns])
  · rintro ⟨happended, hdnsMoves⟩ publish retract
    refine ⟨?_, nofun⟩
    constructor
    · rw [(hstores publish retract).1]
      exact ht.registry
    · exact (hstores publish retract).2.1.trans ht.repo
    · exact (hstores publish retract).2.2.1
    · exact (hevent publish retract).mpr happended
    · intro hconfigured
      obtain ⟨dns, hdns⟩ := Option.ne_none_iff_exists'.mp hconfigured
      exact (hmoves hdns).mpr (hdnsMoves dns hdns) publish retract

theorem plcKept_of_not_plc (h : server.didIsPlc did.text = false) : PlcKept server did s new := by
  rw [PlcKept, h]
  nofun

/-- Where the PLC step is passed, no operation was lost. -/
theorem plc_lost_of_pass (hpass : server.didIsPlc did.text = false ∨ calls.plc = .accepted)
    (hlost : calls.plc = .lost) : PlcKept server did s new := by
  rcases hpass with hplc | haccepted
  · exact plcKept_of_not_plc hplc
  · rw [hlost] at haccepted
    cases haccepted

/-- The PLC step is not passed: the operation may be lost. -/
theorem renameKept_iff_of_not_pass
    (hpass : ¬ (server.didIsPlc did.text = false ∨ calls.plc = .accepted)) :
    RenameKept server s did new calls ↔ (calls.plc = .lost → PlcKept server did s new) := by
  obtain ⟨hplc, hnot⟩ := not_or.mp hpass
  constructor
  · exact RenameKept.plc_lost
  · intro h
    exact
      { plc_lost := h
        repo_failed := fun haccepted => absurd haccepted hnot
        registry_failed := fun hpassed => absurd hpassed hpass
        announced := fun hpassed => absurd hpassed hpass }

/-- The repository store does not take the handle. -/
theorem renameKept_iff_of_refused
    (hpass : server.didIsPlc did.text = false ∨ calls.plc = .accepted)
    (hrepo : ¬ (calls.copied = true ∧ calls.repoWritten = true)) :
    RenameKept server s did new calls ↔ PlcKept server did s new := by
  constructor
  · intro h
    rcases hpass with hplc | haccepted
    · exact plcKept_of_not_plc hplc
    · apply h.repo_failed haccepted
      simpa using not_and_or.mp hrepo
  · intro h
    exact
      { plc_lost := fun _ => h
        repo_failed := fun _ _ => h
        registry_failed := fun _ hcopied hwritten => absurd ⟨hcopied, hwritten⟩ hrepo
        announced := fun _ hcopied hwritten => absurd ⟨hcopied, hwritten⟩ hrepo }

/-- The registry does not take the handle. -/
theorem renameKept_iff_of_taken
    (hpass : server.didIsPlc did.text = false ∨ calls.plc = .accepted)
    (hrepo : calls.copied = true ∧ calls.repoWritten = true)
    (hregistry : s.registry.updateHandle did.text new calls.registryWritten = none) :
    RenameKept server s did new calls ↔
      PlcKept server did s new ∧ RepoRestored server s new calls := by
  constructor
  · intro h
    exact h.registry_failed hpass hrepo.1 hrepo.2 hregistry
  · intro h
    exact
      { plc_lost := fun _ => h.1
        repo_failed := fun _ _ => h.1
        registry_failed := fun _ _ _ _ => h
        announced := fun _ _ _ hsome => absurd hregistry hsome }

/-- All stores take the handle. -/
theorem renameKept_iff_of_persisted
    (hpass : server.didIsPlc did.text = false ∨ calls.plc = .accepted)
    (hrepo : calls.copied = true ∧ calls.repoWritten = true)
    (hregistry : s.registry.updateHandle did.text new calls.registryWritten ≠ none) :
    RenameKept server s did new calls ↔
      (calls.appended = true ∨ s.lastIdentity did.text = some new) ∧
        ∀ dns, server.handleDns = some dns → DnsMoves dns did s.cachedHandle new s.zone := by
  constructor
  · intro h
    exact h.announced hpass hrepo.1 hrepo.2 hregistry
  · intro h
    exact
      { plc_lost := plc_lost_of_pass hpass
        repo_failed := fun _ hfailed => by simp [hrepo] at hfailed
        registry_failed := fun _ _ _ hnone => absurd hnone hregistry
        announced := fun _ _ _ _ => h }

/-! ## The contract -/

/-- A rename leaves one identity, and a refused one the old state, exactly where no step fails
after a change that is not undone, and where the zone lets the record be moved. -/
theorem leavesOneIdentity_iff (server : IdentityServer) (s : IdentityState)
    (acct : HostedAccount s) (param : Option Dns.Text) (calls : UpdateCalls) :
    LeavesOneIdentity server s acct param calls ↔ RequestKept server s acct param calls := by
  cases hcheck : checkHandle server acct.did.text s param calls with
  | error e =>
    have herror (publish retract : DnsCalls) :
        updateHandle server acct.did.text s param calls publish retract = (s, .error e) := by
      simp only [updateHandle, hcheck]
    rw [leavesOneIdentity_of_error herror]
    simp [RequestKept, hcheck]
  | ok new =>
    obtain ⟨rfl, hvalid⟩ := checkHandle_eq_ok hcheck
    have hkept : RequestKept server s acct (some new) calls ↔
        RenameKept server s acct.did new calls := by
      simp [RequestKept, hcheck]
    rw [hkept]
    by_cases hpass : server.didIsPlc acct.did.text = false ∨ calls.plc = .accepted
    · by_cases hrepo : calls.copied = true ∧ calls.repoWritten = true
      · cases hregistry : s.registry.updateHandle acct.did.text new calls.registryWritten with
        | none =>
          rw [renameKept_iff_of_taken hpass hrepo hregistry, ← restored_eq_iff]
          apply leavesOneIdentity_of_error
          intro publish retract
          exact updateHandle_of_not_persisted hcheck hpass
            (persistHandle_of_taken hvalid hrepo (by simpa using hregistry))
        | some registry =>
          rw [renameKept_iff_of_persisted hpass hrepo (by simp [hregistry])]
          apply leavesOneIdentity_of_ok (acct.persisted hregistry)
          intro publish retract
          exact updateHandle_of_persisted hcheck hpass
            (persistHandle_of_written hvalid hrepo (by simpa using hregistry))
      · rw [renameKept_iff_of_refused hpass hrepo, ← withPlc_eq_iff]
        apply leavesOneIdentity_of_error
        intro publish retract
        exact updateHandle_of_not_persisted hcheck hpass (persistHandle_of_refused hrepo)
    · rw [renameKept_iff_of_not_pass hpass, ← withPlc_eq_iff]
      obtain ⟨e, hplc⟩ := plcUpdateHandle_of_not_pass s new hpass
      have herror (publish retract : DnsCalls) :
          updateHandle server acct.did.text s (some new) calls publish retract =
            (if calls.plc = .lost then withPlc server acct.did s new else s, .error e) := by
        simp only [updateHandle, hcheck, hplc]
      rw [leavesOneIdentity_of_error herror]
      split <;> simp [*]

/-- A server with the zone at Cloudflare. -/
def cloudflareServer : IdentityServer where
  handleIsValid := fun handle => handle ≠ []
  didIsPlc := fun did => "did:plc:".toUTF8.toList.isPrefixOf did
  userDomain := ".example.com".toUTF8.toList
  handleDns := some ⟨.cloudflare, [], false⟩

/-- An account that is `alice.example.com` everywhere, with its record. -/
def aliceState : IdentityState where
  registry := ⟨[⟨newDid.text, aliceHandle.text⟩], by simp, by simp⟩
  repoHandle := aliceHandle.text
  cachedHandle := aliceHandle.text
  events := [⟨newDid.text, aliceHandle.text⟩]
  zone := fun name => if name = aliceHandle.text then [.single 1 newDid.value] else []
  plcHandle := aliceHandle.text
  dnsFailures := 0

def aliceAccount : HostedAccount aliceState :=
  ⟨newDid, ⟨newDid.text, aliceHandle.text⟩, List.mem_singleton_self _, rfl⟩

/-- Everything is carried out. -/
def carriedOut : UpdateCalls where
  resolved := true
  limited := none
  registryRead := true
  plc := .accepted
  copied := true
  repoWritten := true
  registryWritten := true
  repoRestored := true
  appended := true

/-- A rename to the handle that the account has deletes its record. -/
theorem renaming_to_itself_deletes_the_record :
    let r := updateHandle cloudflareServer aliceAccount.did.text aliceState
      (some aliceHandle.text) carriedOut ⟨true, true, 0⟩ ⟨true, true, 0⟩
    (r.2.toOption = some () ∧ r.1.dnsFailures = 0 ∧ r.1.zone aliceHandle.text = []) ∧
      ¬ LeavesOneIdentity cloudflareServer aliceState aliceAccount (some aliceHandle.text)
        carriedOut := by
  intro r
  have hresult : r.2.toOption = some () ∧ r.1.dnsFailures = 0 ∧
      r.1.zone (dnsName aliceHandle.text) = [] ∧ dnsName aliceHandle.text = aliceHandle.text := by
    decide +kernel
  obtain ⟨hok, hfailures, hzone, hname⟩ := hresult
  refine ⟨⟨hok, hfailures, by rwa [hname] at hzone⟩, fun h => ?_⟩
  have hsuccess : r.2 = .ok () := by
    cases hr : r.2 with
    | error e =>
      rw [hr] at hok
      cases hok
    | ok _ => rfl
  obtain ⟨new, hnew, hidentity⟩ := (h ⟨true, true, 0⟩ ⟨true, true, 0⟩).1 hsuccess
  obtain ⟨⟨record, hrecord, -⟩, -⟩ := hidentity.moved nofun hfailures
  rw [← Option.some.inj hnew] at hrecord
  rw [hzone] at hrecord
  cases hrecord

end MetalBear.Identity
