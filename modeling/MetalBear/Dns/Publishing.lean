import MetalBear.Dns.HandleDns

/-!
# Records that are unambiguous

Publishing leaves one `did=` value and retracting none, if and only if the record that the lookup
shows stands for all of them: the providers that address single records touch no other.
-/

namespace MetalBear.Dns

open ByteText

/-! ## Handles and DIDs -/

/-- A handle inside the zone of the publisher. -/
structure ZoneHandle (dns : HandleDns) where
  text : Text
  ne_nil : text ≠ []
  length_le : text.length ≤ 253
  /-- deSEC names its zone by the domain. -/
  inside : dns.provider = .desec → ∃ sub, sub ≠ [] ∧ atprotoPrefix ++ text = sub ++ 46 :: dns.zoneId

/-- A letter, a digit or one of `.`, `_`, `:`, `%`, `-`. -/
def didChar (b : UInt8) : Bool :=
  (48 ≤ b && b ≤ 57) || (65 ≤ b && b ≤ 90) || (97 ≤ b && b ≤ 122) ||
    b == 46 || b == 95 || b == 58 || b == 37 || b == 45

/-- A DID, as far as its characters go. -/
structure Did where
  text : Text
  ne_nil : text ≠ []
  chars : ∀ b ∈ text, didChar b = true

variable {dns : HandleDns} {handle name : Text} {records : List TxtRecord}

theorem length_atprotoPrefix : atprotoPrefix.length = 9 := by
  decide +kernel

theorem length_didPrefix : didPrefix.length = 4 := by
  decide +kernel

theorem quote_not_mem_didPrefix : quote ∉ didPrefix := by
  decide +kernel

theorem ZoneHandle.recordName_eq (handle : ZoneHandle dns) :
    recordName handle.text = .ok (atprotoPrefix ++ handle.text) := by
  have hlength := handle.length_le
  rw [recordName, if_neg handle.ne_nil, if_neg]
  rw [List.length_append, length_atprotoPrefix]
  omega

theorem ZoneHandle.desecSubname_eq (handle : ZoneHandle dns) (hdesec : dns.provider = .desec) :
    ∃ sub, desecSubname dns (atprotoPrefix ++ handle.text) = .ok sub := by
  obtain ⟨sub, hsub, hname⟩ := handle.inside hdesec
  have hpos := List.length_pos_iff.mpr hsub
  have hlength := congrArg List.length hname
  rw [List.length_append, length_atprotoPrefix, List.length_append, List.length_cons] at hlength
  have hle := handle.length_le
  have hzone : (sub ++ 46 :: dns.zoneId).length - dns.zoneId.length = sub.length + 1 := by
    rw [List.length_append, List.length_cons]
    omega
  refine ⟨sub, ?_⟩
  rw [desecSubname, hname, hzone, if_neg, if_neg]
  · simp
  · simp
    omega
  · simp
    omega

/-- The name of a handle, where the publisher can address it: it fits the buffer, and lies inside
the zone that deSEC names. -/
structure HandleDns.Reaches (dns : HandleDns) (handle name : Text) : Prop where
  recordName_eq : recordName handle = .ok name
  inside : dns.provider = .desec → ∃ sub, desecSubname dns name = .ok sub

theorem ZoneHandle.reaches (handle : ZoneHandle dns) :
    dns.Reaches handle.text (atprotoPrefix ++ handle.text) :=
  ⟨handle.recordName_eq, handle.desecSubname_eq⟩

/-- What the lookup answers. -/
theorem HandleDns.Reaches.lookup_eq (h : dns.Reaches handle name)
    (records : List TxtRecord) (answered : Bool) :
    dns.lookup name records answered = lookupFirst dns.content records answered := by
  have hcontent : dns.content = fun r => dns.content r := rfl
  rw [HandleDns.lookup, hcontent]
  simp only [HandleDns.content]
  cases hprovider : dns.provider with
  | desec =>
    obtain ⟨sub, hsub⟩ := h.inside hprovider
    simp only [desecLookup, hsub]
  | _ => rfl

/-- Where the lookup answers, the publisher addresses the name. -/
theorem HandleDns.reaches_of_lookup {answered : Bool}
    {existing : Option DnsRecord} (hname : recordName handle = .ok name)
    (hlookup : dns.lookup name records answered = .ok existing) : dns.Reaches handle name := by
  refine ⟨hname, fun hdesec => ?_⟩
  rw [HandleDns.lookup, hdesec] at hlookup
  simp only [desecLookup] at hlookup
  cases hsub : desecSubname dns name with
  | error e => simp [hsub] at hlookup
  | ok sub => exact ⟨sub, rfl⟩

/-! ## Quoting -/

theorem getLast?_quoted (v : Text) : (quoted v).getLast? = some quote := by
  rw [quoted, ← List.cons_append, List.getLast?_concat]

theorem unquote_quoted (v : Text) : unquote (quoted v) = v := by
  rw [unquote, if_pos]
  · simp [quoted]
  · exact ⟨by simp [quoted], by simp [quoted], getLast?_quoted v⟩

theorem unquote_of_not_mem {v : Text} (h : quote ∉ v) : unquote v = v := by
  rw [unquote, if_neg]
  rintro ⟨-, hhead, -⟩
  exact h (List.mem_of_head? hhead)

theorem cString_quoted {v : Text} (h : 0 ∉ v) : cString (quoted v) = quoted v := by
  refine cString_eq_self ?_
  simp only [quoted, List.mem_cons, List.mem_append, List.not_mem_nil, or_false, not_or]
  exact ⟨by decide, h, by decide⟩

/-- The value is shown as it is by every provider that holds it as one string. -/
theorem unquote_content_single {v : Text} (h : quote ∉ v) (hzero : 0 ∉ v) (dns : HandleDns)
    (id : Nat) : unquote (cString (dns.content (.single id v))) = v := by
  have hvalue : (TxtRecord.single id v).value = v := by simp [TxtRecord.single, TxtRecord.value]
  have hbare : unquote (cString v) = v := by rw [cString_eq_self hzero, unquote_of_not_mem h]
  have hquoted : unquote (cString (quoted v)) = v := by rw [cString_quoted hzero, unquote_quoted]
  rw [HandleDns.content, hvalue]
  cases dns.provider with
  | cloudflare => exact hbare
  | digitalocean => cases dns.quotes <;> assumption
  | desec => exact hquoted
  | rfc2136 => exact hbare

theorem Did.quote_not_mem (did : Did) : quote ∉ did.text := fun h => by
  have := did.chars quote h
  revert this
  decide

theorem Did.quote_not_mem_wanted (did : Did) : quote ∉ wanted did.text := fun h => by
  rcases List.mem_append.mp (List.mem_of_mem_take h) with h | h
  · exact quote_not_mem_didPrefix h
  · exact did.quote_not_mem h

theorem Did.zero_not_mem_wanted (did : Did) : 0 ∉ wanted did.text := fun h => by
  rcases List.mem_append.mp (List.mem_of_mem_take h) with h | h
  · revert h
    decide +kernel
  · have := did.chars 0 h
    revert this
    decide

/-- A complete presentation is read back, a cut one is not. -/
theorem presented_take_quoted {v : Text} (h : quote ∉ v) : presented ((quoted v).take 511) =
    if v.length ≤ 509 then some v else none := by
  split
  · next hle =>
    have htake : (quoted v).take 511 = quoted v := by
      apply List.take_of_length_le
      simp [quoted]
      omega
    rw [htake, presented, if_pos] <;> simp [quoted, h]
  · next hgt =>
    have htake : (quoted v).take 511 = quote :: v.take 510 := by
      rw [quoted, List.take_succ_cons, List.take_append_of_le_length (by omega)]
    rw [htake, presented, if_neg]
    rintro ⟨heq, -⟩
    have hmem : quote ∈ v.take 510 := by
      have := congrArg List.tail heq
      rw [quoted, List.tail_cons, List.tail_cons] at this
      rw [this]
      simp
    exact h (List.mem_of_mem_take hmem)

/-! ## What a call leaves -/

/-- The providers whose writes address one record by its id. -/
def Provider.addressesRecords : Provider → Bool
  | .cloudflare | .digitalocean => true
  | .desec | .rfc2136 => false

/-- What the lookup shows of the name. -/
def HandleDns.shown (dns : HandleDns) (records : List TxtRecord) : Option Text :=
  records.head?.map fun r => unquote (cString (dns.content r))

/-- What publishing a value leaves, where the provider takes it. -/
def Provider.written (p : Provider) (newId : Nat) (v : Text) (records : List TxtRecord) :
    Option (List TxtRecord) :=
  match p with
  | .cloudflare | .digitalocean =>
    match records with
    | [] => some [.single newId v]
    | r :: rest => some (.single r.id v :: rest)
  | .desec => if v.length ≤ 509 then some [.single 0 v] else none
  | .rfc2136 => if v.length ≤ 255 then some [.single 0 v] else none

theorem writeCall_eq_ok_iff {after records' : List TxtRecord} {carriedOut : Bool} :
    writeCall records after carriedOut = (records', .ok ()) ↔
      carriedOut = true ∧ after = records' := by
  cases carriedOut with
  | false => simp [writeCall]
  | true => simp [writeCall]

theorem publishRecord_eq_ok_iff {shows : TxtRecord → Text} {v : Text} {calls : DnsCalls}
    {records' : List TxtRecord} :
    publishRecord records v (records.head?.map fun r => ⟨r.id, shows r⟩) calls =
        (records', .ok ()) ↔
    calls.write = true ∧ Provider.cloudflare.written calls.newId v records = some records' := by
  cases records with
  | nil => simp [publishRecord, writeCall_eq_ok_iff, Provider.written]
  | cons r rest => simp [publishRecord, writeCall_eq_ok_iff, Provider.written, updateFirst]

theorem HandleDns.Reaches.provider_publish_eq_ok_iff (h : dns.Reaches handle name) {v : Text}
    (hv : quote ∉ v) {shows : TxtRecord → Text} {calls : DnsCalls} {records' : List TxtRecord} :
    dns.publish name v (records.head?.map fun r => ⟨r.id, shows r⟩) records calls =
        (records', .ok ()) ↔
    calls.write = true ∧ dns.provider.written calls.newId v records = some records' := by
  rw [HandleDns.publish]
  cases hprovider : dns.provider with
  | cloudflare => exact publishRecord_eq_ok_iff
  | digitalocean => exact publishRecord_eq_ok_iff
  | desec =>
    obtain ⟨sub, hsub⟩ := h.inside hprovider
    simp only [desecPut, hsub, presented_take_quoted hv, Provider.written]
    by_cases hle : v.length ≤ 509
    · simp [hle, writeCall_eq_ok_iff]
    · simp [hle]
  | rfc2136 =>
    simp only [rfc2136UpdateTxt, Provider.written]
    by_cases hle : v.length ≤ 255
    · simp [hle, Nat.not_lt.mpr hle, writeCall_eq_ok_iff]
    · simp [hle, Nat.lt_of_not_le hle]

/-- All that a successful publishing can have done. -/
theorem HandleDns.Reaches.publish_eq_ok_iff (h : dns.Reaches handle name) (did : Did)
    {calls : DnsCalls} {records' : List TxtRecord} :
    handleDnsPublish dns handle did.text records calls = (records', .ok ()) ↔
      calls.lookup = true ∧
        if dns.shown records = some (wanted did.text) then records' = records
        else calls.write = true ∧
          dns.provider.written calls.newId (wanted did.text) records = some records' := by
  rw [handleDnsPublish, if_neg did.ne_nil]
  simp only [h.recordName_eq, h.lookup_eq, lookupFirst]
  cases hlookup : calls.lookup with
  | false => simp
  | true =>
    simp only [if_true, Option.map_map, true_and]
    by_cases hshown : dns.shown records = some (wanted did.text)
    · rw [if_pos hshown, if_pos (by exact hshown), Prod.mk.injEq]
      simp [eq_comm]
    · rw [if_neg hshown, if_neg (by exact hshown)]
      exact h.provider_publish_eq_ok_iff did.quote_not_mem_wanted

/-- What retracting leaves. -/
def Provider.remaining (p : Provider) (records : List TxtRecord) : List TxtRecord :=
  if p.addressesRecords then records.tail else []

/-- All that a successful retraction can have done. -/
theorem HandleDns.Reaches.retract_eq_ok_iff (h : dns.Reaches handle name) {calls : DnsCalls}
    {records' : List TxtRecord} :
    handleDnsRetract dns handle records calls = (records', .ok ()) ↔
      calls.lookup = true ∧ (records ≠ [] → calls.write = true) ∧
        dns.provider.remaining records = records' := by
  rw [handleDnsRetract]
  simp only [h.recordName_eq, h.lookup_eq, lookupFirst]
  cases hlookup : calls.lookup with
  | false => simp
  | true =>
    cases records with
    | nil => simp [Provider.remaining]
    | cons r rest =>
      simp only [if_true, List.head?_cons, Option.map_some, HandleDns.retract]
      cases hprovider : dns.provider with
      | desec =>
        obtain ⟨sub, hsub⟩ := h.inside hprovider
        simp [desecPut, hsub, writeCall_eq_ok_iff, Provider.remaining, Provider.addressesRecords]
      | rfc2136 =>
        simp [rfc2136UpdateTxt, writeCall_eq_ok_iff, Provider.remaining,
          Provider.addressesRecords]
      | cloudflare =>
        simp [cfRetract, retractRecord, writeCall_eq_ok_iff, Provider.remaining,
          Provider.addressesRecords]
      | digitalocean =>
        simp [doRetract, retractRecord, writeCall_eq_ok_iff, Provider.remaining,
          Provider.addressesRecords]

/-! ## One DID -/

/-- The value that names the DID. -/
def Did.value (did : Did) : Text := didPrefix ++ did.text

/-- Whether a record is a `did=` value. -/
def TxtRecord.namesDid (r : TxtRecord) : Prop := didPrefix <+: r.value

instance (r : TxtRecord) : Decidable r.namesDid := inferInstanceAs (Decidable (_ <+: _))

/-- The only `did=` value is the one of the DID. -/
structure Unambiguous (did : Did) (records : List TxtRecord) : Prop where
  present : ∃ r ∈ records, r.value = did.value
  only : ∀ r ∈ records, r.namesDid → r.value = did.value

/-- Publishing leaves the `did=` value alone, and is done then. -/
def Publishes (handle : ZoneHandle dns) (did : Did) (records : List TxtRecord) : Prop :=
  ∀ calls records', handleDnsPublish dns handle.text did.text records calls = (records', .ok ()) →
    Unambiguous did records' ∧
      ∀ again, (handleDnsPublish dns handle.text did.text records' again).1 = records'

/-- Retracting leaves no `did=` value. -/
def Retracts (handle : ZoneHandle dns) (records : List TxtRecord) : Prop :=
  ∀ calls records', handleDnsRetract dns handle.text records calls = (records', .ok ()) →
    ∀ r ∈ records', ¬ r.namesDid

/-- The record that is shown stands for the whole name, and the value fits its buffer. -/
def Publishable (dns : HandleDns) (did : Did) (records : List TxtRecord) : Prop :=
  if dns.shown records = some (wanted did.text) then Unambiguous did records
  else dns.provider.addressesRecords = true →
    did.value.length ≤ 511 ∧ ∀ r ∈ records.tail, r.namesDid → r.value = did.value

/-- No `did=` value stands behind the record that is shown. -/
def Retractable (p : Provider) (records : List TxtRecord) : Prop :=
  p.addressesRecords = true → ∀ r ∈ records.tail, ¬ r.namesDid

theorem value_single (id : Nat) (v : Text) : (TxtRecord.single id v).value = v := by
  simp [TxtRecord.single, TxtRecord.value]

/-- A value that was cut still is a `did=` value. -/
theorem Did.didPrefix_prefix_wanted (did : Did) : didPrefix <+: wanted did.text := by
  rw [wanted, List.prefix_take_iff]
  refine ⟨List.prefix_append _ _, ?_⟩
  rw [length_didPrefix]
  omega

theorem Did.wanted_eq_iff {did : Did} : wanted did.text = did.value ↔ did.value.length ≤ 511 :=
  List.take_eq_self_iff _

/-- A value that does not fill the buffer was not cut. -/
theorem Did.value_length_le (did : Did) (h : (wanted did.text).length < 511) :
    did.value.length ≤ 511 := by
  rw [wanted, List.length_take] at h
  change (didPrefix ++ did.text).length ≤ 511
  omega

theorem unambiguous_single_cons_iff {did : Did} {id : Nat} {v : Text} {rest : List TxtRecord}
    (hv : didPrefix <+: v) : Unambiguous did (.single id v :: rest) ↔
      v = did.value ∧ ∀ r ∈ rest, r.namesDid → r.value = did.value := by
  constructor
  · rintro ⟨-, honly⟩
    have hsingle := honly (.single id v) List.mem_cons_self
    rw [TxtRecord.namesDid, value_single] at hsingle
    exact ⟨hsingle hv, fun r hr => honly r (List.mem_cons_of_mem _ hr)⟩
  · rintro ⟨rfl, hrest⟩
    refine ⟨⟨_, List.mem_cons_self, value_single _ _⟩, fun r hr hnames => ?_⟩
    rcases List.mem_cons.mp hr with rfl | hr
    · exact value_single _ _
    · exact hrest r hr hnames

/-- The value comes first, and the records that the provider does not address are gone. -/
theorem eq_of_written {p : Provider} {newId : Nat} {v : Text} {records' : List TxtRecord}
    (hwritten : p.written newId v records = some records') :
    (∃ id, records' = .single id v :: p.remaining records) ∧
      (p.addressesRecords = false → v.length < 511) := by
  cases p with
  | cloudflare =>
    cases records <;> cases hwritten <;> exact ⟨⟨_, rfl⟩, nofun⟩
  | digitalocean =>
    cases records <;> cases hwritten <;> exact ⟨⟨_, rfl⟩, nofun⟩
  | desec =>
    obtain ⟨hle, heq⟩ := Option.ite_none_right_eq_some.mp hwritten
    cases heq
    exact ⟨⟨0, rfl⟩, fun _ => by omega⟩
  | rfc2136 =>
    obtain ⟨hle, heq⟩ := Option.ite_none_right_eq_some.mp hwritten
    cases heq
    exact ⟨⟨0, rfl⟩, fun _ => by omega⟩

/-- What a provider writes is unambiguous where the rest of the name is. -/
theorem unambiguous_written_iff {did : Did} {p : Provider} {newId : Nat}
    {records' : List TxtRecord} (hwritten : p.written newId (wanted did.text) records = some records') :
    Unambiguous did records' ↔ (p.addressesRecords = true →
      did.value.length ≤ 511 ∧ ∀ r ∈ records.tail, r.namesDid → r.value = did.value) := by
  obtain ⟨⟨id, rfl⟩, hlength⟩ := eq_of_written hwritten
  rw [unambiguous_single_cons_iff did.didPrefix_prefix_wanted, Did.wanted_eq_iff,
    Provider.remaining]
  cases haddresses : p.addressesRecords with
  | true => simp
  | false => simpa using did.value_length_le (hlength haddresses)

/-- What a provider writes is what the next lookup shows. -/
theorem shown_written {did : Did} {newId : Nat} {records' : List TxtRecord}
    (hwritten : dns.provider.written newId (wanted did.text) records = some records') :
    dns.shown records' = some (wanted did.text) := by
  obtain ⟨⟨id, rfl⟩, -⟩ := eq_of_written hwritten
  rw [HandleDns.shown, List.head?_cons, Option.map_some,
    unquote_content_single did.quote_not_mem_wanted did.zero_not_mem_wanted]

/-- Once the value is shown nothing is written any more. -/
theorem HandleDns.Reaches.publish_of_shown (h : dns.Reaches handle name) {did : Did}
    (hshown : dns.shown records = some (wanted did.text)) (calls : DnsCalls) :
    (handleDnsPublish dns handle did.text records calls).1 = records := by
  rw [handleDnsPublish, if_neg did.ne_nil]
  simp only [h.recordName_eq, h.lookup_eq, lookupFirst]
  cases calls.lookup with
  | false => rfl
  | true =>
    simp only [if_true, Option.map_map]
    rw [if_pos (by exact hshown)]

/-- A provider that addresses single records takes every value. -/
theorem Provider.exists_written {p : Provider} (haddresses : p.addressesRecords = true)
    (newId : Nat) (v : Text) (records : List TxtRecord) :
    ∃ records', p.written newId v records = some records' := by
  cases p with
  | cloudflare => cases records <;> exact ⟨_, rfl⟩
  | digitalocean => cases records <;> exact ⟨_, rfl⟩
  | desec => cases haddresses
  | rfc2136 => cases haddresses

/-- Only a name that the publisher addresses is published. -/
theorem HandleDns.reaches_of_publish {did : Text} {calls : DnsCalls} {records' : List TxtRecord}
    (h : handleDnsPublish dns handle did records calls = (records', .ok ())) :
    ∃ name, dns.Reaches handle name := by
  rw [handleDnsPublish] at h
  split at h
  · cases h
  · cases hname : recordName handle with
    | error e => simp [hname] at h
    | ok name =>
      simp only [hname] at h
      cases hlookup : dns.lookup name records calls.lookup with
      | error e => simp [hlookup] at h
      | ok existing => exact ⟨name, HandleDns.reaches_of_lookup hname hlookup⟩

/-- Only a name that the publisher addresses is retracted. -/
theorem HandleDns.reaches_of_retract {calls : DnsCalls} {records' : List TxtRecord}
    (h : handleDnsRetract dns handle records calls = (records', .ok ())) :
    ∃ name, dns.Reaches handle name := by
  rw [handleDnsRetract] at h
  cases hname : recordName handle with
  | error e => simp [hname] at h
  | ok name =>
    simp only [hname] at h
    cases hlookup : dns.lookup name records calls.lookup with
    | error e => simp [hlookup] at h
    | ok existing => exact ⟨name, HandleDns.reaches_of_lookup hname hlookup⟩

theorem publishes_iff (handle : ZoneHandle dns) (did : Did) (records : List TxtRecord) :
    Publishes handle did records ↔ Publishable dns did records := by
  rw [Publishable]
  split
  · next hshown =>
    constructor
    · intro h
      exact (h ⟨true, true, 0⟩ records
        ((handle.reaches.publish_eq_ok_iff did).mpr ⟨rfl, by rw [if_pos hshown]⟩)).1
    · intro h calls records' hok
      obtain ⟨-, hsame⟩ := (handle.reaches.publish_eq_ok_iff did).mp hok
      rw [if_pos hshown] at hsame
      subst hsame
      exact ⟨h, handle.reaches.publish_of_shown hshown⟩
  · next hshown =>
    constructor
    · intro h haddresses
      obtain ⟨records', hwritten⟩ := Provider.exists_written haddresses 0 (wanted did.text) records
      have hok : handleDnsPublish dns handle.text did.text records ⟨true, true, 0⟩ =
          (records', .ok ()) := by
        rw [handle.reaches.publish_eq_ok_iff, if_neg hshown]
        exact ⟨rfl, rfl, hwritten⟩
      exact (unambiguous_written_iff hwritten).mp (h _ _ hok).1 haddresses
    · intro h calls records' hok
      obtain ⟨-, hafter⟩ := (handle.reaches.publish_eq_ok_iff did).mp hok
      rw [if_neg hshown] at hafter
      exact ⟨(unambiguous_written_iff hafter.2).mpr h,
        handle.reaches.publish_of_shown (shown_written hafter.2)⟩

theorem retracts_iff (handle : ZoneHandle dns) (records : List TxtRecord) :
    Retracts handle records ↔ Retractable dns.provider records := by
  constructor
  · intro h haddresses
    have hok : handleDnsRetract dns handle.text records ⟨true, true, 0⟩ =
        (dns.provider.remaining records, .ok ()) :=
      handle.reaches.retract_eq_ok_iff.mpr ⟨rfl, fun _ => rfl, rfl⟩
    have hrest := h _ _ hok
    rwa [Provider.remaining, if_pos haddresses] at hrest
  · intro h calls records' hok
    obtain ⟨-, -, rfl⟩ := handle.reaches.retract_eq_ok_iff.mp hok
    rw [Provider.remaining]
    split
    · next haddresses => exact h haddresses
    · simp

/-! ## The contract -/

/-- Publishing leaves the one `did=` value and retracting leaves none, exactly where the first
record of the name stands for every `did=` value there. -/
theorem handleDns_unambiguous_iff (dns : HandleDns) (handle : ZoneHandle dns) (did : Did)
    (records : List TxtRecord) :
    (Publishes handle did records ↔ Publishable dns did records) ∧
      (Retracts handle records ↔ Retractable dns.provider records) :=
  ⟨publishes_iff handle did records, retracts_iff handle records⟩

/-- `alice.example.com`, published with Cloudflare. -/
def aliceHandle : ZoneHandle ⟨.cloudflare, [], false⟩ :=
  ⟨"alice.example.com".toUTF8.toList, by decide +kernel, by decide +kernel, nofun⟩

/-- `did:plc:new` -/
def newDid : Did :=
  ⟨"did:plc:new".toUTF8.toList, by decide +kernel, by decide +kernel⟩

/-- The first of two `did=` records is replaced, or deleted, and the second one stays. -/
theorem second_did_stays_published :
    let old : TxtRecord := .single 1 "did=did:plc:old".toUTF8.toList
    let older : TxtRecord := .single 2 "did=did:plc:older".toUTF8.toList
    handleDnsPublish ⟨.cloudflare, [], false⟩ aliceHandle.text newDid.text [old, older] ⟨true, true, 0⟩ =
        ([.single 1 newDid.value, older], .ok ()) ∧
      handleDnsRetract ⟨.cloudflare, [], false⟩ aliceHandle.text [old, older] ⟨true, true, 0⟩ =
        ([older], .ok ()) ∧
      ¬ Publishes aliceHandle newDid [old, older] ∧ ¬ Retracts aliceHandle [old, older] := by
  intro old older
  have hnames : older.namesDid ∧ older.value ≠ newDid.value := by decide +kernel
  have hpublish : handleDnsPublish ⟨.cloudflare, [], false⟩ aliceHandle.text newDid.text [old, older]
      ⟨true, true, 0⟩ = ([.single 1 newDid.value, older], .ok ()) := by
    decide +kernel
  have hretract : handleDnsRetract ⟨.cloudflare, [], false⟩ aliceHandle.text [old, older]
      ⟨true, true, 0⟩ = ([older], .ok ()) := by
    decide +kernel
  refine ⟨hpublish, hretract, fun h => ?_, fun h => ?_⟩
  · exact hnames.2 ((h _ _ hpublish).1.only older (by simp) hnames.1)
  · exact h _ _ hretract older (by simp) hnames.1

end MetalBear.Dns
