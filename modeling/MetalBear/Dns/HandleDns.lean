import MetalBear.Library.ByteText
import MetalBear.Library.FirstMatch
import MetalBear.Wolfram.Status

/-!
# The DNS records of handles

The publisher of the `_atproto` TXT records, with its four providers. What a provider holds at one
name is a list of TXT records, which it lists in one order; the providers differ in how they show
their content and in what a write replaces. Every call is either carried out or refused.
-/

namespace MetalBear.Dns

open ByteText

/-- A C string: its bytes before the NUL. -/
abbrev Text := List UInt8

/-- The providers of `providers`. -/
inductive Provider where
  | cloudflare
  | digitalocean
  | desec
  | rfc2136
  deriving DecidableEq, Repr

/-- A TXT record: the provider's id of it, and its strings, of which there is at least one. -/
structure TxtRecord where
  id : Nat
  first : Text
  more : List Text
  deriving DecidableEq, Repr

/-- The TXT value: the strings joined. -/
def TxtRecord.value (r : TxtRecord) : Text := r.first ++ r.more.flatten

/-- A record of one string. -/
def TxtRecord.single (id : Nat) (value : Text) : TxtRecord := ⟨id, value, []⟩

/-- `'"'`. -/
def quote : UInt8 := 34

/-- A value in the presentation format. -/
def quoted (v : Text) : Text := quote :: (v ++ [quote])

/-- `unquote`. -/
def unquote (value : Text) : Text :=
  if 2 ≤ value.length ∧ value.head? = some quote ∧ value.getLast? = some quote then
    (value.drop 1).dropLast
  else value

/-- `dns_record`, where one was found. -/
structure DnsRecord where
  id : Nat
  content : Text
  deriving DecidableEq, Repr

/-- `metalbear_handle_dns`, without the credentials and the TTL. -/
structure HandleDns where
  provider : Provider
  zoneId : Text
  /-- Whether DigitalOcean quotes what it hands out; the source leaves it open. -/
  quotes : Bool
  deriving DecidableEq, Repr

/-- The content of a record as the provider hands it out. -/
def HandleDns.content (dns : HandleDns) (r : TxtRecord) : Text :=
  match dns.provider with
  | .cloudflare => r.value
  | .digitalocean => if dns.quotes then quoted r.value else r.value
  | .desec => quoted r.value
  -- `metalbear_rfc2136_query_txt` reads the first string only.
  | .rfc2136 => r.first

/-- What becomes of the calls at the provider. -/
structure DnsCalls where
  /-- The call that looks the record up is carried out. -/
  lookup : Bool
  /-- The call that writes is carried out. -/
  write : Bool
  /-- The id that the provider gives to a new record. -/
  newId : Nat
  deriving DecidableEq, Repr

/-- `WF_ERR_NETWORK`. -/
def networkError : WfError := ⟨.network, by decide⟩

/-- The outcome of a call that writes: what the name holds then, and the status. -/
abbrev Written := List TxtRecord × Except WfError Unit

/-! ## Looking up -/

/-- The first record of the answer; its content is a C string. -/
def lookupFirst (content : TxtRecord → Text) (records : List TxtRecord) (answered : Bool) :
    Except WfError (Option DnsRecord) :=
  if answered then .ok (records.head?.map fun r => ⟨r.id, unquote (cString (content r))⟩)
  else .error networkError

/-- `cf_lookup`. -/
def cfLookup (records : List TxtRecord) (answered : Bool) : Except WfError (Option DnsRecord) :=
  lookupFirst TxtRecord.value records answered

/-- `do_lookup`. -/
def doLookup (dns : HandleDns) (records : List TxtRecord) (answered : Bool) :
    Except WfError (Option DnsRecord) :=
  lookupFirst (fun r => if dns.quotes then quoted r.value else r.value) records answered

/-- `desec_subname`: the name relative to the zone, if it is inside. -/
def desecSubname (dns : HandleDns) (name : Text) : Except WfError Text :=
  let nameLen := name.length
  let zoneLen := dns.zoneId.length
  if nameLen ≤ zoneLen + 1 ∨ name.drop (nameLen - zoneLen) ≠ dns.zoneId ∨
      (name.drop (nameLen - zoneLen - 1)).head? ≠ some 46 then .error .invalidArg
  else if 512 ≤ nameLen - zoneLen - 1 then .error .invalidArg
  else .ok (name.take (nameLen - zoneLen - 1))

/-- `desec_lookup`; there is no RRset where there is no record. -/
def desecLookup (dns : HandleDns) (name : Text) (records : List TxtRecord) (answered : Bool) :
    Except WfError (Option DnsRecord) :=
  match desecSubname dns name with
  | .error e => .error e
  | .ok _ => lookupFirst (fun r => quoted r.value) records answered

/-- `rfc2136_lookup`. -/
def rfc2136Lookup (records : List TxtRecord) (answered : Bool) :
    Except WfError (Option DnsRecord) :=
  lookupFirst TxtRecord.first records answered

/-- `provider->lookup`. -/
def HandleDns.lookup (dns : HandleDns) (name : Text) (records : List TxtRecord)
    (answered : Bool) : Except WfError (Option DnsRecord) :=
  match dns.provider with
  | .cloudflare => cfLookup records answered
  | .digitalocean => doLookup dns records answered
  | .desec => desecLookup dns name records answered
  | .rfc2136 => rfc2136Lookup records answered

/-! ## Writing -/

/-- A call that leaves these records if it is carried out. -/
def writeCall (records after : List TxtRecord) (carriedOut : Bool) : Written :=
  if carriedOut then (after, .ok ()) else (records, .error networkError)

/-- The record that was found is replaced by its id, or a new one is added. -/
def publishRecord (records : List TxtRecord) (content : Text) (existing : Option DnsRecord)
    (calls : DnsCalls) : Written :=
  match existing with
  | some e =>
    writeCall records
      (updateFirst (fun r => decide (r.id = e.id)) (fun r => .single r.id content) records)
      calls.write
  | none => writeCall records (records ++ [.single calls.newId content]) calls.write

/-- `cf_publish`. -/
def cfPublish (records : List TxtRecord) (content : Text) (existing : Option DnsRecord)
    (calls : DnsCalls) : Written :=
  publishRecord records content existing calls

/-- `do_publish`. -/
def doPublish (records : List TxtRecord) (content : Text) (existing : Option DnsRecord)
    (calls : DnsCalls) : Written :=
  publishRecord records content existing calls

/-- The value that a string in the presentation format stands for. -/
def presented (text : Text) : Option Text :=
  let inner := (text.drop 1).dropLast
  if text = quoted inner ∧ quote ∉ inner then some inner else none

/-- `desec_put`. What is not in the presentation format is refused. -/
def desecPut (dns : HandleDns) (name : Text) (content : Option Text) (records : List TxtRecord)
    (carriedOut : Bool) : Written :=
  match desecSubname dns name with
  | .error e => (records, .error e)
  | .ok _ =>
    match content with
    | none => writeCall records [] carriedOut
    | some c =>
      match presented ((quoted c).take 511) with
      | none => (records, .error networkError)
      | some value => writeCall records [.single 0 value] carriedOut

/-- `metalbear_rfc2136_update_txt`. -/
def rfc2136UpdateTxt (value : Option Text) (records : List TxtRecord) (carriedOut : Bool) :
    Written :=
  match value with
  | none => writeCall records [] carriedOut
  | some v =>
    if v.length > 255 then (records, .error .invalidArg)
    else writeCall records [.single 0 v] carriedOut

/-- `provider->publish`. -/
def HandleDns.publish (dns : HandleDns) (name content : Text) (existing : Option DnsRecord)
    (records : List TxtRecord) (calls : DnsCalls) : Written :=
  match dns.provider with
  | .cloudflare => cfPublish records content existing calls
  | .digitalocean => doPublish records content existing calls
  | .desec => desecPut dns name (some content) records calls.write
  | .rfc2136 => rfc2136UpdateTxt (some content) records calls.write

/-- The record that was found is deleted by its id. -/
def retractRecord (records : List TxtRecord) (existing : DnsRecord) (carriedOut : Bool) : Written :=
  writeCall records (records.eraseP fun r => decide (r.id = existing.id)) carriedOut

/-- `cf_retract`. -/
def cfRetract (records : List TxtRecord) (existing : DnsRecord) (carriedOut : Bool) : Written :=
  retractRecord records existing carriedOut

/-- `do_retract`. -/
def doRetract (records : List TxtRecord) (existing : DnsRecord) (carriedOut : Bool) : Written :=
  retractRecord records existing carriedOut

/-- `provider->retract`. -/
def HandleDns.retract (dns : HandleDns) (name : Text) (existing : DnsRecord)
    (records : List TxtRecord) (carriedOut : Bool) : Written :=
  match dns.provider with
  | .cloudflare => cfRetract records existing carriedOut
  | .digitalocean => doRetract records existing carriedOut
  | .desec => desecPut dns name none records carriedOut
  | .rfc2136 => rfc2136UpdateTxt none records carriedOut

/-! ## The publisher -/

/-- `_atproto.` -/
def atprotoPrefix : Text := "_atproto.".toUTF8.toList

/-- `did=` -/
def didPrefix : Text := "did=".toUTF8.toList

/-- `record_name`. -/
def recordName (handle : Text) : Except WfError Text :=
  if handle = [] then .error .invalidArg
  else if 512 ≤ (atprotoPrefix ++ handle).length then .error .invalidArg
  else .ok (atprotoPrefix ++ handle)

/-- `want`, in its 512 bytes. -/
def wanted (did : Text) : Text := (didPrefix ++ did).take 511

/-- `metalbear_handle_dns_publish`, on what the name holds. -/
def handleDnsPublish (dns : HandleDns) (handle did : Text) (records : List TxtRecord)
    (calls : DnsCalls) : Written :=
  if did = [] then (records, .error .invalidArg)
  else
    match recordName handle with
    | .error e => (records, .error e)
    | .ok name =>
      match dns.lookup name records calls.lookup with
      | .error e => (records, .error e)
      | .ok existing =>
        if existing.map DnsRecord.content = some (wanted did) then (records, .ok ())
        else dns.publish name (wanted did) existing records calls

/-- `metalbear_handle_dns_retract`, on what the name holds. -/
def handleDnsRetract (dns : HandleDns) (handle : Text) (records : List TxtRecord)
    (calls : DnsCalls) : Written :=
  match recordName handle with
  | .error e => (records, .error e)
  | .ok name =>
    match dns.lookup name records calls.lookup with
    | .error e => (records, .error e)
    | .ok none => (records, .ok ())
    | .ok (some existing) => dns.retract name existing records calls.write

end MetalBear.Dns
