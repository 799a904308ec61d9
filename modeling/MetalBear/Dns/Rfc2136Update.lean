import MetalBear.Dns.Rfc2136Query

/-!
# The messages of dynamic updates

`metalbear_rfc2136_update_txt` and `metalbear_rfc2136_query_txt` build a message in a fixed buffer
and sign it in place. What is sent is taken back as the message that was meant: the update replaces
the TXT records of one name and touches no other, and its signature verifies.
-/

namespace MetalBear.Dns

open ByteText Format DnsMessage

/-! ## The code -/

/-- `sizeof(m->data)`. -/
def msgSize : Nat := 4096

/-- `msg`: the bytes of the message so far. -/
structure Msg where
  data : List UInt8
  overflow : Bool
  length_le : data.length ≤ msgSize

namespace Msg

/-- `msg m = {0}`. -/
def empty : Msg := ⟨[], false, Nat.zero_le msgSize⟩

theorem length_append_le {data bytes : List UInt8} {overflow : Bool}
    (h : ¬ (overflow = true ∨ data.length + bytes.length > msgSize)) :
    (data ++ bytes).length ≤ msgSize := by
  rw [List.length_append]
  exact Nat.not_lt.mp fun hgt => h (Or.inr hgt)

/-- `put_bytes`. -/
def putBytes (m : Msg) (bytes : List UInt8) : Msg :=
  if h : m.overflow = true ∨ m.data.length + bytes.length > msgSize then
    ⟨m.data, true, m.length_le⟩
  else ⟨m.data ++ bytes, m.overflow, length_append_le h⟩

/-- `put_u8`. -/
def putU8 (m : Msg) (value : Nat) : Msg := m.putBytes [UInt8.ofNat value]

/-- `put_u16`. -/
def putU16 (m : Msg) (value : Nat) : Msg :=
  m.putBytes [UInt8.ofNat (value / 2 ^ 8), UInt8.ofNat value]

/-- `put_u32`. -/
def putU32 (m : Msg) (value : Nat) : Msg :=
  m.putBytes [UInt8.ofNat (value / 2 ^ 24), UInt8.ofNat (value / 2 ^ 16),
    UInt8.ofNat (value / 2 ^ 8), UInt8.ofNat value]

/-- The loop of `put_name` over the pieces between the dots. -/
def putLabels (m : Msg) : List Text → Msg
  | [] => m.putU8 0
  | label :: labels =>
    if label.length = 0 then m.putU8 0
    else if label.length > 63 then ⟨m.data, true, m.length_le⟩
    else ((m.putU8 label.length).putBytes label).putLabels labels

/-- `put_name`. -/
def putName (m : Msg) (name : Text) : Msg := m.putLabels (pieces 46 name)

/-- `put_name_canonical`: at most 255 bytes, in lower case. -/
def putNameCanonical (m : Msg) (name : Text) : Msg := m.putName ((name.take 255).map toLower)

end Msg

/-- `HMAC(EVP_sha256(), …)` of a key and a text, if it succeeds. -/
abbrev Hmac := List UInt8 → List UInt8 → Option (List UInt8)

/-- `algorithm`. -/
def hmacSha256 : Text := "hmac-sha256".toUTF8.toList

/-- `vars` of `tsig_sign`. -/
def tsigVars (keyName : Text) (now : Nat) : Msg :=
  let vars := Msg.empty.putNameCanonical keyName
  let vars := (vars.putU16 255).putU32 0
  let vars := vars.putNameCanonical hmacSha256
  let vars := (vars.putU16 (now / 2 ^ 32)).putU32 (now % 2 ^ 32)
  let vars := vars.putU16 300
  (vars.putU16 0).putU16 0

/-- Two bytes of the buffer are set. -/
def patch (data : List UInt8) (at_ value : Nat) : List UInt8 :=
  (data.set at_ (UInt8.ofNat (value / 2 ^ 8))).set (at_ + 1) (UInt8.ofNat value)

/-- `tsig_sign`: the message as it is sent, if it can be signed. -/
def tsigSign (hmac : Hmac) (m : Msg) (keyName : Text) (secret : List UInt8)
    (originalId now : Nat) : Option (List UInt8) :=
  let vars := tsigVars keyName now
  if vars.overflow = true ∨ m.overflow = true then none
  else
    (hmac secret (m.data ++ vars.data)).bind fun mac =>
      let m := ((m.putName keyName).putU16 250).putU16 255
      let m := m.putU32 0
      let rdlengthAt := m.data.length
      let m := m.putU16 0
      let rdataAt := m.data.length
      let m := m.putNameCanonical hmacSha256
      let m := (m.putU16 (now / 2 ^ 32)).putU32 (now % 2 ^ 32)
      let m := (m.putU16 300).putU16 mac.length
      let m := (m.putBytes mac).putU16 originalId
      let m := (m.putU16 0).putU16 0
      if m.overflow = true then none
      else
        let data := patch m.data rdlengthAt (m.data.length - rdataAt)
        let arcount := word16 (data.getD 10 0) (data.getD 11 0) + 1
        some (patch data 10 arcount)

/-- `metalbear_rfc2136_config`, without the address. -/
structure Rfc2136Config where
  zone : Text
  keyName : Text
  secret : List UInt8
  deriving DecidableEq, Repr

/-- The query that `metalbear_rfc2136_query_txt` builds. -/
def queryMsg (name : Text) (id : UInt16) : Msg :=
  let m := (Msg.empty.putU16 id.toNat).putU16 0x0100
  let m := (((m.putU16 1).putU16 0).putU16 0).putU16 0
  ((m.putName name).putU16 typeTxt).putU16 1

/-- `metalbear_rfc2136_query_txt`, up to the exchange: what is sent, or the error. -/
def queryRequest (hmac : Hmac) (config : Rfc2136Config) (name : Text) (id : UInt16) (now : Nat) :
    Except DnsError (List UInt8) :=
  let m := queryMsg name id
  if m.overflow = true then .error (.invalidArg, literal "name too long: " ++ name)
  else
    match tsigSign hmac m config.keyName config.secret id.toNat now with
    | none => .error (.internal, literal "could not sign the query")
    | some bytes => .ok bytes

/-- The update that `metalbear_rfc2136_update_txt` builds. -/
def updateMsg (config : Rfc2136Config) (name : Text) (value : Option Text) (ttl : Int32)
    (id : UInt16) : Msg :=
  let m := (Msg.empty.putU16 id.toNat).putU16 (5 * 2 ^ 11)
  let m := (((m.putU16 1).putU16 0).putU16 (if value.isSome then 2 else 1)).putU16 0
  let m := ((m.putName config.zone).putU16 6).putU16 1
  let m := ((m.putName name).putU16 typeTxt).putU16 255
  let m := (m.putU32 0).putU16 0
  match value with
  | none => m
  | some value =>
    let m := ((m.putName name).putU16 typeTxt).putU16 1
    let m := m.putU32 (if 0 < ttl then ttl.toNatClampNeg else 300)
    let m := (m.putU16 (value.length + 1)).putU8 value.length
    m.putBytes value

/-- `metalbear_rfc2136_update_txt`, up to the exchange: what is sent, or the error. -/
def updateRequest (hmac : Hmac) (config : Rfc2136Config) (name : Text) (value : Option Text)
    (ttl : Int32) (id : UInt16) (now : Nat) : Except DnsError (List UInt8) :=
  if ∃ v ∈ value, v.length > 255 then .error (.invalidArg, literal "record value too long")
  else
    let m := updateMsg config name value ttl id
    if m.overflow = true then .error (.invalidArg, literal "update message too large")
    else
      match tsigSign hmac m config.keyName config.secret id.toNat now with
      | none => .error (.internal, literal "could not sign the update")
      | some bytes => .ok bytes

/-- `metalbear_rfc2136_update_txt`, on the reply; nothing where it reads what was not received. -/
def updateReply (reply : List UInt8) : Option (Except DnsError Unit) :=
  if reply.length < 12 then
    some (.error (networkError, literal "truncated reply to the update"))
  else
    reply[3]?.map fun flags =>
      let rcode := (flags &&& 0x0f).toNat
      if rcode ≠ 0 then .error (networkError, literal "update refused: " ++ rcodeName rcode)
      else .ok ()

/-! ## What is written -/

/-- A message holds the bytes if the condition is met and there is room for them, and has overflowed
otherwise. -/
structure Msg.Writes (m : Msg) (P : Prop) (bytes : List UInt8) : Prop where
  overflow : m.overflow = false ↔ P ∧ bytes.length ≤ msgSize
  data : m.overflow = false → m.data = bytes

namespace Msg.Writes

variable {m : Msg} {P : Prop} {held : List UInt8}

theorem empty : Msg.empty.Writes True [] :=
  ⟨iff_of_true rfl ⟨trivial, Nat.zero_le msgSize⟩, fun _ => rfl⟩

/-- A message that has not overflowed holds what it holds. -/
theorem self (h : m.overflow = false) : m.Writes True m.data :=
  ⟨iff_of_true h ⟨trivial, m.length_le⟩, fun _ => rfl⟩

theorem overflowed {data : List UInt8} (hle : data.length ≤ msgSize)
    (h : ¬ (P ∧ held.length ≤ msgSize)) : (Msg.mk data true hle).Writes P held :=
  ⟨iff_of_false Bool.noConfusion h, fun hfalse => Bool.noConfusion hfalse⟩

theorem bytes (h : m.Writes P held) (more : List UInt8) :
    (m.putBytes more).Writes P (held ++ more) := by
  unfold putBytes
  split
  · next hfull =>
    refine overflowed m.length_le ?_
    rintro ⟨hP, hle⟩
    rw [List.length_append] at hle
    have hoverflow := h.overflow.mpr ⟨hP, by omega⟩
    rw [h.data hoverflow, hoverflow] at hfull
    obtain hfalse | hlong := hfull
    · cases hfalse
    · omega
  · next hroom =>
    obtain ⟨hoverflow, hlength⟩ := not_or.mp hroom
    have hoverflow : m.overflow = false := Bool.eq_false_iff.mpr hoverflow
    have hdata := h.data hoverflow
    refine ⟨iff_of_true hoverflow ⟨(h.overflow.mp hoverflow).1, ?_⟩,
      fun _ => congrArg (· ++ more) hdata⟩
    rw [List.length_append, ← hdata]
    exact Nat.not_lt.mp hlength

theorem u8 (h : m.Writes P held) (value : Nat) :
    (m.putU8 value).Writes P (held ++ [UInt8.ofNat value]) :=
  h.bytes _

theorem u16 (h : m.Writes P held) (value : Nat) :
    (m.putU16 value).Writes P (held ++ bytes16 value) :=
  h.bytes _

theorem ofNat_eq_of_mod {a b : Nat} (h : a % 256 = b % 256) : UInt8.ofNat a = UInt8.ofNat b := by
  rw [← UInt8.toNat_inj, UInt8.toNat_ofNat', UInt8.toNat_ofNat']
  exact h

/-- The four bytes are those of the number, as far as they reach. -/
theorem u32 (h : m.Writes P held) (value : Nat) :
    (m.putU32 value).Writes P (held ++ long.encode (value % 2 ^ 32)) := by
  have h3 : UInt8.ofNat (value % 2 ^ 32 / 2 ^ 16 / 256) = UInt8.ofNat (value / 2 ^ 24) :=
    ofNat_eq_of_mod (by omega)
  have h2 : UInt8.ofNat (value % 2 ^ 32 / 2 ^ 16) = UInt8.ofNat (value / 2 ^ 16) :=
    ofNat_eq_of_mod (by omega)
  have h1 : UInt8.ofNat (value % 2 ^ 32 % 2 ^ 16 / 256) = UInt8.ofNat (value / 2 ^ 8) :=
    ofNat_eq_of_mod (by omega)
  have h0 : UInt8.ofNat (value % 2 ^ 32 % 2 ^ 16) = UInt8.ofNat value :=
    ofNat_eq_of_mod (by omega)
  have hbytes : long.encode (value % 2 ^ 32) = [UInt8.ofNat (value / 2 ^ 24),
      UInt8.ofNat (value / 2 ^ 16), UInt8.ofNat (value / 2 ^ 8), UInt8.ofNat value] := by
    rw [← h3, ← h2, ← h1, ← h0]
    rfl
  rw [hbytes]
  exact h.bytes _

end Msg.Writes

/-- The labels that `put_name` writes: the pieces between the dots, up to an empty one. -/
def nameLabels (name : Text) : List (List UInt8) :=
  (pieces 46 name).takeWhile fun label => !label.isEmpty

/-- Every label has its length in six bits. -/
def LabelsFit (labels : List (List UInt8)) : Prop := ∀ label ∈ labels, label.length ≤ 63

namespace Msg.Writes

variable {m : Msg} {P : Prop} {held : List UInt8}

theorem of_iff {Q : Prop} (h : m.Writes P held) (hPQ : P ↔ Q) : m.Writes Q held :=
  ⟨h.overflow.trans (and_congr_left' hPQ), h.data⟩

theorem labels (h : m.Writes P held) (pieces : List Text) :
    (m.putLabels pieces).Writes
      (P ∧ LabelsFit (pieces.takeWhile fun label => !label.isEmpty))
      (held ++ (WireName.full (pieces.takeWhile fun label => !label.isEmpty)).encode) := by
  induction pieces generalizing m P held with
  | nil => exact (h.u8 0).of_iff (and_iff_left fun label hl => by cases hl).symm
  | cons label pieces ih =>
    unfold putLabels
    cases label with
    | nil => exact (h.u8 0).of_iff (and_iff_left fun label hl => by cases hl).symm
    | cons b label =>
      have hpos : (b :: label).length ≠ 0 := Nat.succ_ne_zero label.length
      rw [if_neg hpos, List.takeWhile_cons_of_pos rfl]
      split
      · next hlong =>
        refine overflowed m.length_le fun hfits => ?_
        exact absurd (hfits.1.2 _ List.mem_cons_self) (Nat.not_le.mpr hlong)
      · next hshort =>
        have hrest := ih ((h.u8 (b :: label).length).bytes (b :: label))
        rw [List.append_assoc, List.append_assoc] at hrest
        rw [WireName.full, WireName.encode_cons]
        refine hrest.of_iff (and_congr_right fun _ => ?_)
        exact ⟨fun hall => List.forall_mem_cons.mpr ⟨Nat.not_lt.mp hshort, hall⟩,
          fun hall => (List.forall_mem_cons.mp hall).2⟩

theorem name (h : m.Writes P held) (name : Text) :
    (m.putName name).Writes (P ∧ LabelsFit (nameLabels name))
      (held ++ (WireName.full (nameLabels name)).encode) :=
  h.labels _

end Msg.Writes

/-! ## Signing -/

theorem toLower_eq_dot_iff (b : UInt8) : toLower b = 46 ↔ b = 46 := by
  rw [toLower]
  split
  · next h =>
    have hle : 65 ≤ b.toNat ∧ b.toNat ≤ 90 := h
    have hsum : (b + 32).toNat = b.toNat + 32 := by
      rw [UInt8.toNat_add]
      exact Nat.mod_eq_of_lt (by change b.toNat + 32 < 256; omega)
    rw [← UInt8.toNat_inj, ← UInt8.toNat_inj, hsum]
    change b.toNat + 32 = 46 ↔ b.toNat = 46
    omega
  · rfl

theorem nameLabels_lower (name : Text) :
    nameLabels (name.map toLower) = (nameLabels name).map (List.map toLower) := by
  have hempty : (fun label : Text => !label.isEmpty) ∘ List.map toLower =
      fun label => !label.isEmpty := by
    funext label
    cases label <;> rfl
  rw [nameLabels, nameLabels, pieces_map toLower_eq_dot_iff, List.takeWhile_map, hempty]

theorem nameLabels_hmacSha256 : nameLabels hmacSha256 = [hmacSha256] := by
  decide +kernel

theorem length_hmacSha256 : hmacSha256.length = 11 := by
  decide +kernel

theorem hmacSha256_lower : hmacSha256.map toLower = hmacSha256 := by
  decide +kernel

theorem hmacSha256_canonical : (hmacSha256.take 255).map toLower = hmacSha256 := by
  rw [List.take_of_length_le (by rw [length_hmacSha256]; decide), hmacSha256_lower]

theorem lower_hmacSha256 : (WireName.full [hmacSha256]).lower = .full [hmacSha256] :=
  congrArg (fun label => WireName.full [label]) hmacSha256_lower

theorem Msg.Writes.algorithm {m : Msg} {P : Prop} {held : List UInt8} (h : m.Writes P held) :
    (m.putNameCanonical hmacSha256).Writes P (held ++ (WireName.full [hmacSha256]).encode) := by
  have hname := h.name ((hmacSha256.take 255).map toLower)
  rw [hmacSha256_canonical, nameLabels_hmacSha256] at hname
  rw [putNameCanonical, hmacSha256_canonical]
  refine hname.of_iff (and_iff_left fun label hl => ?_)
  obtain rfl := List.mem_singleton.mp hl
  rw [length_hmacSha256]
  decide

/-- The data of the signature. -/
def tsigOf (mac : List UInt8) (id now : Nat) : Tsig :=
  ⟨.full [hmacSha256], now / 2 ^ 32 % 2 ^ 16, now % 2 ^ 32, 300, mac, id, 0, []⟩

/-- The record of the signature. -/
def tsigRecord (keyName : Text) (t : Tsig) : Record :=
  ⟨.full (nameLabels keyName), 250, 255, 0, tsig.encode t⟩

theorem bytes16_mod (n : Nat) : bytes16 (n % 2 ^ 16) = bytes16 n := by
  have hhigh : UInt8.ofNat (n % 2 ^ 16 / 256) = UInt8.ofNat (n / 256) :=
    Msg.Writes.ofNat_eq_of_mod (by omega)
  have hlow : UInt8.ofNat (n % 2 ^ 16) = UInt8.ofNat n := Msg.Writes.ofNat_eq_of_mod (by omega)
  rw [bytes16, bytes16, hhigh, hlow]

/-- The variables of the digest, where the name of the key is not cut. -/
theorem tsigVars_data {keyName : Text} {now : Nat} (hkey : keyName.length ≤ 255)
    (hvars : (tsigVars keyName now).overflow = false) (mac : List UInt8) (id : Nat) :
    (tsigVars keyName now).data =
      tsigVariables (tsigRecord keyName (tsigOf mac id now)) (tsigOf mac id now) := by
  have hkeyName := Msg.Writes.empty.name ((keyName.take 255).map toLower)
  have halgorithm := ((hkeyName.u16 255).u32 0).algorithm
  have hwrites : (tsigVars keyName now).Writes _ _ :=
    ((((halgorithm.u16 (now / 2 ^ 32)).u32 (now % 2 ^ 32)).u16 300).u16 0).u16 0
  rw [hwrites.data hvars, List.take_of_length_le hkey, nameLabels_lower, Nat.mod_mod]
  simp only [List.append_assoc, List.nil_append]
  rw [tsigVariables, tsigOf, bytes16_mod, lower_hmacSha256, counted_encode, List.append_nil]
  rfl

theorem patch_append (front back : List UInt8) (a b : UInt8) (value : Nat) :
    patch (front ++ a :: b :: back) front.length value = front ++ (bytes16 value ++ back) := by
  rw [patch, List.set_append_right _ _ (Nat.le_refl _), Nat.sub_self, List.set_cons_zero,
    List.set_append_right _ _ (Nat.le_add_right _ 1), Nat.add_sub_cancel_left, List.set_cons_succ,
    List.set_cons_zero]
  rfl

theorem tsig_encode (mac : List UInt8) (id now : Nat) :
    tsig.encode (tsigOf mac id now) = (WireName.full [hmacSha256]).encode ++
      (bytes16 (now / 2 ^ 32) ++ (long.encode (now % 2 ^ 32) ++ (bytes16 300 ++
        (bytes16 mac.length ++ (mac ++ (bytes16 id ++ (bytes16 0 ++ bytes16 0))))))) := by
  have hunfold : tsig.encode (tsigOf mac id now) = (WireName.full [hmacSha256]).encode ++
      (bytes16 (now / 2 ^ 32 % 2 ^ 16) ++ (long.encode (now % 2 ^ 32) ++ (bytes16 300 ++
        (counted.encode mac ++ (bytes16 id ++ (bytes16 0 ++ counted.encode [])))))) := rfl
  rw [hunfold, bytes16_mod, counted_encode, counted_encode, List.append_nil, List.append_assoc]
  rfl

/-- The length of the data is set once the record is written. -/
theorem patch_record (front : List UInt8) (r : Record) :
    patch (front ++ (r.name.encode ++ (bytes16 r.type ++ (bytes16 r.rclass ++ (long.encode r.ttl ++
        (bytes16 0 ++ r.rdata))))))
      (front ++ r.name.encode ++ bytes16 r.type ++ bytes16 r.rclass ++ long.encode r.ttl).length
      ((front ++ (r.name.encode ++ (bytes16 r.type ++ (bytes16 r.rclass ++ (long.encode r.ttl ++
        (bytes16 0 ++ r.rdata)))))).length -
        (front ++ r.name.encode ++ bytes16 r.type ++ bytes16 r.rclass ++ long.encode r.ttl ++
          bytes16 0).length) = front ++ record.encode r := by
  have hpatch := patch_append
    (front ++ r.name.encode ++ bytes16 r.type ++ bytes16 r.rclass ++ long.encode r.ttl) r.rdata
    (UInt8.ofNat (0 / 256)) (UInt8.ofNat 0) r.rdata.length
  have hrecord : record.encode r = r.name.encode ++ (bytes16 r.type ++ (bytes16 r.rclass ++
      (long.encode r.ttl ++ (bytes16 r.rdata.length ++ r.rdata)))) := rfl
  have hlength : (front ++ (r.name.encode ++ (bytes16 r.type ++ (bytes16 r.rclass ++
      (long.encode r.ttl ++ (bytes16 0 ++ r.rdata)))))).length -
      (front ++ r.name.encode ++ bytes16 r.type ++ bytes16 r.rclass ++ long.encode r.ttl ++
        bytes16 0).length = r.rdata.length := by
    simp only [List.length_append]
    omega
  rw [hlength, hrecord]
  simp only [List.append_assoc] at hpatch ⊢
  exact hpatch

/-- What has been signed ends with the record of the signature, and counts one record more. -/
structure SignedAs (hmac : Hmac) (secret : List UInt8) (keyName : Text) (id now : Nat)
    (data bytes : List UInt8) (mac : List UInt8) : Prop where
  vars : (tsigVars keyName now).overflow = false
  digest : hmac secret (data ++ (tsigVars keyName now).data) = some mac
  labels : LabelsFit (nameLabels keyName)
  length_rdata : (tsig.encode (tsigOf mac id now)).length < 2 ^ 16
  bytes_eq : bytes = patch (data ++ record.encode (tsigRecord keyName (tsigOf mac id now))) 10
    (word16 (data.getD 10 0) (data.getD 11 0) + 1)

theorem tsigSign_sound {hmac : Hmac} {m : Msg} {keyName : Text} {secret bytes : List UInt8}
    {id now : Nat} (hm : m.overflow = false) (hlength : 12 ≤ m.data.length)
    (h : tsigSign hmac m keyName secret id now = some bytes) :
    ∃ mac, SignedAs hmac secret keyName id now m.data bytes mac := by
  rw [tsigSign] at h
  split at h
  · cases h
  · next hno =>
    have hvars : (tsigVars keyName now).overflow = false :=
      Bool.eq_false_iff.mpr (not_or.mp hno).1
    obtain ⟨mac, hmac, h⟩ := Option.bind_eq_some_iff.mp h
    have hhead := ((((Msg.Writes.self hm).name keyName).u16 250).u16 255).u32 0
    have hlen := hhead.u16 0
    have hbody := (((((((hlen.algorithm.u16 (now / 2 ^ 32)).u32 (now % 2 ^ 32)).u16 300).u16
      mac.length).bytes mac).u16 id).u16 0).u16 0
    dsimp only at h
    split at h
    · cases h
    · next hfull =>
      have hfull := Bool.eq_false_iff.mpr hfull
      have hdata := hbody.data hfull
      obtain ⟨⟨-, hlabels⟩, hle⟩ := hbody.overflow.mp hfull
      have hrdata := tsig_encode mac id now
      rw [Nat.mod_mod] at hdata hle
      simp only [List.append_assoc, ← hrdata] at hdata hle
      simp only [List.length_append] at hle
      have hheadData := hhead.data (hhead.overflow.mpr ⟨⟨trivial, hlabels⟩, by
        simp only [List.length_append]
        omega⟩)
      have hlenData := hlen.data (hlen.overflow.mpr ⟨⟨trivial, hlabels⟩, by
        simp only [List.length_append]
        omega⟩)
      have hbytes := Option.some.inj h
      rw [hdata, hheadData, hlenData] at hbytes
      have hsigned : ∀ signed, signed = m.data ++ record.encode (tsigRecord keyName
          (tsigOf mac id now)) →
            bytes = patch signed 10 (word16 (signed.getD 10 0) (signed.getD 11 0) + 1) := by
        rintro signed rfl
        rw [← patch_record]
        exact hbytes.symm
      have hsigned := hsigned _ rfl
      rw [List.getD_append _ _ _ _ (by omega), List.getD_append _ _ _ _ (by omega)] at hsigned
      have hcap : msgSize < 2 ^ 16 := by decide
      exact ⟨mac, hvars, hmac, hlabels, by omega, hsigned⟩

/-! ## Messages -/

theorem message_encode (m : Message) : message.encode m =
    bytes16 m.id ++ (bytes16 m.flags ++ (bytes16 m.questions.length ++ (bytes16 m.answers.length ++
      (bytes16 m.authority.length ++ bytes16 m.additional.length)))) ++
        (m.questions.flatMap question.encode ++ (m.answers.flatMap record.encode ++
          (m.authority.flatMap record.encode ++ m.additional.flatMap record.encode))) := rfl

/-- A message that has no additional records gets one, and counts it. -/
theorem patch_message {m : Message} (hnone : m.additional = []) (r : Record) :
    patch (message.encode m ++ record.encode r) 10
      (word16 ((message.encode m).getD 10 0) ((message.encode m).getD 11 0) + 1) =
        message.encode { m with additional := [r] } := by
  have hpatch := patch_append (bytes16 m.id ++ (bytes16 m.flags ++ (bytes16 m.questions.length ++
    (bytes16 m.answers.length ++ bytes16 m.authority.length))))
    (m.questions.flatMap question.encode ++ (m.answers.flatMap record.encode ++
      (m.authority.flatMap record.encode ++ record.encode r)))
    (UInt8.ofNat (m.additional.length / 256)) (UInt8.ofNat m.additional.length) 1
  have hcount : word16 ((message.encode m).getD 10 0) ((message.encode m).getD 11 0) + 1 = 1 := by
    have hbytes : (message.encode m).getD 10 0 = UInt8.ofNat (m.additional.length / 256) ∧
        (message.encode m).getD 11 0 = UInt8.ofNat m.additional.length := ⟨rfl, rfl⟩
    rw [hbytes.1, hbytes.2, hnone]
    rfl
  have hbefore : message.encode m = bytes16 m.id ++ (bytes16 m.flags ++
      (bytes16 m.questions.length ++ (bytes16 m.answers.length ++ bytes16 m.authority.length))) ++
        UInt8.ofNat (m.additional.length / 256) :: UInt8.ofNat m.additional.length ::
          (m.questions.flatMap question.encode ++ (m.answers.flatMap record.encode ++
            m.authority.flatMap record.encode)) := by
    have hnil : m.authority.flatMap record.encode = m.authority.flatMap record.encode ++
        m.additional.flatMap record.encode := by rw [hnone, List.flatMap_nil, List.append_nil]
    rw [hnil]
    rfl
  have hafter : message.encode { m with additional := [r] } = bytes16 m.id ++ (bytes16 m.flags ++
      (bytes16 m.questions.length ++ (bytes16 m.answers.length ++ bytes16 m.authority.length))) ++
        (bytes16 1 ++ (m.questions.flatMap question.encode ++
          (m.answers.flatMap record.encode ++ (m.authority.flatMap record.encode ++
            record.encode r)))) := by
    rw [message_encode, List.flatMap_singleton]
    rfl
  rw [hcount, hafter, ← hpatch, hbefore]
  simp only [List.append_assoc, List.cons_append]
  rfl

/-- A name as `put_name` writes it is valid where the labels fit. -/
theorem nameLabels_valid {name : Text} (h : LabelsFit (nameLabels name)) :
    (WireName.full (nameLabels name)).Valid := by
  refine ⟨fun label hl => ⟨?_, Nat.lt_succ_of_le (h label hl)⟩, fun _ hp => by cases hp⟩
  have hne := List.mem_takeWhile_imp (p := fun label : Text => !label.isEmpty) hl
  cases label with
  | nil => cases hne
  | cons => exact Nat.succ_pos _

/-- A signature has the format of signatures. -/
theorem tsigOf_valid {mac : List UInt8} {id now : Nat} (hmac : mac.length < 2 ^ 16)
    (hid : id < 2 ^ 16) : tsig.Valid (tsigOf mac id now) := by
  have hname : (WireName.full [hmacSha256]).Valid := by
    refine ⟨fun label hl => ?_, fun _ hp => by cases hp⟩
    obtain rfl := List.mem_singleton.mp hl
    rw [length_hmacSha256]
    decide
  have htimeHigh : now / 2 ^ 32 % 2 ^ 16 < 2 ^ 16 := Nat.mod_lt _ (by decide)
  have htimeLow : long.Valid (now % 2 ^ 32) := long_valid.mpr (Nat.mod_lt _ (by decide))
  have hfudge : 300 < 2 ^ 16 := by decide
  have hzero : 0 < 2 ^ 16 := by decide
  exact ⟨hname, htimeHigh, htimeLow, hfudge, counted_valid.mpr hmac, hid, hzero,
    counted_valid.mpr hzero⟩

/-- The record of a signature has the format of records. -/
theorem tsigRecord_valid {keyName : Text} {t : Tsig} (hlabels : LabelsFit (nameLabels keyName))
    (hlength : (tsig.encode t).length < 2 ^ 16) : record.Valid (tsigRecord keyName t) := by
  have htype : 250 < 2 ^ 16 := by decide
  have hclass : 255 < 2 ^ 16 := by decide
  have httl : 0 < 2 ^ 32 := by decide
  exact ⟨nameLabels_valid hlabels, htype, hclass, long_valid.mpr httl, counted_valid.mpr hlength⟩

/-- What is sent of a message is taken back as the message, with the record of its signature; and
the signature verifies, where the name of the key is not cut. -/
theorem tsigSign_message {hmac : Hmac} {m : Msg} (asked : Message) {keyName : Text}
    {secret bytes : List UInt8} {now : Nat} (hm : m.overflow = false)
    (hdata : m.data = message.encode asked) (hvalid : message.Valid asked)
    (hnone : asked.additional = [])
    (h : tsigSign hmac m keyName secret asked.id now = some bytes) :
    ∃ mac, message.take bytes = some ({ asked with
        additional := [tsigRecord keyName (tsigOf mac asked.id now)] }, []) ∧
      (keyName.length ≤ 255 → Signed (hmac secret) { asked with
        additional := [tsigRecord keyName (tsigOf mac asked.id now)] }) := by
  have hlength : 12 ≤ m.data.length := by
    rw [hdata, message_encode, List.length_append]
    exact Nat.le_add_right 12 _
  obtain ⟨mac, hsigned⟩ := tsigSign_sound hm hlength h
  obtain ⟨⟨hid, hflags, hqd, han, hns, -⟩, hquestions, hanswers, hauthority, -⟩ := hvalid
  have hmac : mac.length < 2 ^ 16 := by
    have hrdata := hsigned.length_rdata
    simp only [tsig_encode, List.length_append] at hrdata
    omega
  have hrecord : record.Valid (tsigRecord keyName (tsigOf mac asked.id now)) :=
    tsigRecord_valid hsigned.labels hsigned.length_rdata
  have hone : 1 < 2 ^ 16 := by decide
  have htake := message.take_encode (a := { asked with
    additional := [tsigRecord keyName (tsigOf mac asked.id now)] })
    ⟨⟨hid, hflags, hqd, han, hns, hone⟩, hquestions, hanswers, hauthority, rfl,
      List.forall_mem_singleton.mpr hrecord⟩ []
  have hbytes := hsigned.bytes_eq
  rw [hdata, patch_message hnone] at hbytes
  rw [List.append_nil, ← hbytes] at htake
  refine ⟨mac, htake, fun hkey => ⟨[], _, tsigOf mac asked.id now, rfl, rfl, rfl, rfl, ?_, ?_⟩⟩
  · have hvalid : tsig.Valid (tsigOf mac asked.id now) := tsigOf_valid hmac hid
    have hrdata := tsig.take_encode hvalid []
    rwa [List.append_nil] at hrdata
  · have hdigest := hsigned.digest
    rw [tsigVars_data hkey hsigned.vars mac asked.id, hdata] at hdigest
    have hwithout : asked = { asked with additional := [] } := by rw [← hnone]
    rw [hwithout] at hdigest
    exact hdigest

/-! ## The query -/

/-- The query for the TXT records of a name. -/
def queryOf (name : Text) (id : UInt16) : Message :=
  ⟨id.toNat, 0x0100, [⟨.full (nameLabels name), typeTxt, 1⟩], [], [], []⟩

theorem queryMsg_writes (name : Text) (id : UInt16) :
    (queryMsg name id).Writes (LabelsFit (nameLabels name)) (message.encode (queryOf name id)) := by
  have hheader := (((((Msg.Writes.empty.u16 id.toNat).u16 0x0100).u16 1).u16 0).u16 0).u16 0
  have hwrites : (queryMsg name id).Writes _ _ := ((hheader.name name).u16 typeTxt).u16 1
  have hencode : message.encode (queryOf name id) = [] ++ bytes16 id.toNat ++ bytes16 0x0100 ++
      bytes16 1 ++ bytes16 0 ++ bytes16 0 ++ bytes16 0 ++
        (WireName.full (nameLabels name)).encode ++ bytes16 typeTxt ++ bytes16 1 := by
    rw [message_encode]
    simp only [queryOf, List.flatMap_cons, List.flatMap_nil, List.append_nil, List.append_assoc,
      List.nil_append, List.length_singleton, List.length_nil]
    rfl
  rw [hencode]
  exact hwrites.of_iff (and_iff_right trivial)

theorem queryOf_valid {name : Text} {id : UInt16} (h : LabelsFit (nameLabels name)) :
    message.Valid (queryOf name id) := by
  have hsmall : 0x0100 < 2 ^ 16 ∧ 0 < 2 ^ 16 ∧ 1 < 2 ^ 16 ∧ typeTxt < 2 ^ 16 := by decide
  obtain ⟨hflags, hzero, hone, htype⟩ := hsmall
  exact ⟨⟨id.toNat_lt, hflags, hone, hzero, hzero, hzero⟩,
    ⟨rfl, List.forall_mem_singleton.mpr ⟨nameLabels_valid h, htype, hone⟩⟩,
    ⟨rfl, List.forall_mem_nil _⟩, ⟨rfl, List.forall_mem_nil _⟩, rfl, List.forall_mem_nil _⟩

/-- A result that is not an error. -/
theorem exists_of_isOk {α : Type} {x : Except DnsError α} (h : x.isOk = true) :
    ∃ a, x = .ok a := by
  cases x with
  | error e => cases h
  | ok a => exact ⟨a, rfl⟩

/-- A query that is sent has room for its labels, and is signed. -/
theorem queryRequest_eq_ok {hmac : Hmac} {config : Rfc2136Config} {name : Text} {id : UInt16}
    {now : Nat} {bytes : List UInt8} (h : queryRequest hmac config name id now = .ok bytes) :
    (queryMsg name id).overflow = false ∧ LabelsFit (nameLabels name) ∧
      tsigSign hmac (queryMsg name id) config.keyName config.secret id.toNat now = some bytes := by
  rw [queryRequest] at h
  split at h
  · cases h
  · next hno =>
    have hfull := Bool.eq_false_iff.mpr hno
    split at h
    · cases h
    · next hsign =>
      cases h
      exact ⟨hfull, ((queryMsg_writes name id).overflow.mp hfull).1, hsign⟩

/-- What is sent to look a name up asks for its TXT records, and is signed. -/
theorem query_sent {hmac : Hmac} {config : Rfc2136Config} {name : Text} {id : UInt16} {now : Nat}
    {bytes : List UInt8} (h : queryRequest hmac config name id now = .ok bytes) :
    ∃ m, message.take bytes = some (m, []) ∧ m.id = id.toNat ∧
      m.questions = [⟨.full (nameLabels name), typeTxt, 1⟩] ∧
      (config.keyName.length ≤ 255 → Signed (hmac config.secret) m) := by
  obtain ⟨hfull, hlabels, hsign⟩ := queryRequest_eq_ok h
  obtain ⟨mac, htake, hsigned⟩ := tsigSign_message (queryOf name id) hfull
    ((queryMsg_writes name id).data hfull) (queryOf_valid hlabels) rfl hsign
  exact ⟨_, htake, rfl, rfl, hsigned⟩

/-- What `HMAC` makes of the query for `a.c`, under the key of three bytes. -/
def queryDigest : Hmac := fun _ _ =>
  some [0, 180, 36, 143, 155, 236, 144, 121, 95, 126, 159, 135, 244, 3, 104, 31, 218, 87, 237, 139,
    70, 122, 254, 170, 117, 141, 5, 133, 65, 48, 3, 208]

/-- The query for `a.c`. -/
theorem query_sent_short : ∃ bytes m,
    queryRequest queryDigest ⟨[99], [107], [1, 2, 3]⟩ [97, 46, 99] 7 1700000000 = .ok bytes ∧
      message.take bytes = some (m, []) ∧
      m.questions = [⟨.full (nameLabels [97, 46, 99]), typeTxt, 1⟩] := by
  obtain ⟨bytes, hbytes⟩ := exists_of_isOk (x := queryRequest queryDigest
    ⟨[99], [107], [1, 2, 3]⟩ [97, 46, 99] 7 1700000000) (by decide +kernel)
  obtain ⟨m, htake, -, hquestions, -⟩ := query_sent hbytes
  exact ⟨bytes, m, hbytes, htake, hquestions⟩

/-! ## The update -/

/-- The lifetime of the record. -/
def lifetime (ttl : Int32) : Nat := if 0 < ttl then ttl.toNatClampNeg else 300

theorem lifetime_lt (ttl : Int32) : lifetime ttl < 2 ^ 32 := by
  have hlt := ttl.toNatClampNeg_lt
  rw [lifetime]
  split
  · omega
  · decide

/-- The entry that takes away the TXT records of a name. -/
def deletion (name : Text) : Record := ⟨.full (nameLabels name), typeTxt, 255, 0, []⟩

/-- The entry that adds a TXT record. -/
def addition (name : Text) (ttl : Int32) (value : Text) : Record :=
  ⟨.full (nameLabels name), typeTxt, 1, lifetime ttl, encodeLabel value⟩

/-- The update that leaves the value, if there is one, as the TXT record of a name. -/
def updateOf (config : Rfc2136Config) (name : Text) (value : Option Text) (ttl : Int32)
    (id : UInt16) : Message :=
  ⟨id.toNat, 5 * 2 ^ 11, [⟨.full (nameLabels config.zone), 6, 1⟩], [],
    deletion name :: (value.map (addition name ttl)).toList, []⟩

theorem question_encode (q : Question) :
    question.encode q = q.name.encode ++ (bytes16 q.type ++ bytes16 q.qclass) := rfl

theorem deletion_encode (name : Text) : record.encode (deletion name) =
    (WireName.full (nameLabels name)).encode ++ (bytes16 typeTxt ++ (bytes16 255 ++
      (long.encode (0 % 2 ^ 32) ++ bytes16 0))) := by
  rw [record_encode, deletion, List.append_nil]
  rfl

theorem addition_encode (name : Text) (ttl : Int32) (value : Text) :
    record.encode (addition name ttl value) = (WireName.full (nameLabels name)).encode ++
      (bytes16 typeTxt ++ (bytes16 1 ++ (long.encode (lifetime ttl % 2 ^ 32) ++
        (bytes16 (value.length + 1) ++ ([UInt8.ofNat value.length] ++ value))))) := by
  rw [Nat.mod_eq_of_lt (lifetime_lt ttl)]
  rfl

theorem updateMsg_writes (config : Rfc2136Config) (name : Text) (value : Option Text)
    (ttl : Int32) (id : UInt16) :
    (updateMsg config name value ttl id).Writes
      (LabelsFit (nameLabels config.zone) ∧ LabelsFit (nameLabels name))
      (message.encode (updateOf config name value ttl id)) := by
  have hheader := ((((Msg.Writes.empty.u16 id.toNat).u16 (5 * 2 ^ 11)).u16 1).u16 0).u16
    (if value.isSome then 2 else 1)
  have hzone := (((hheader.u16 0).name config.zone).u16 6).u16 1
  have hdeletion := ((((hzone.name name).u16 typeTxt).u16 255).u32 0).u16 0
  rw [message_encode]
  cases value with
  | none =>
    have hwrites : (updateMsg config name none ttl id).Writes _ _ := hdeletion
    simp only [updateOf, Option.map_none, Option.toList_none, List.flatMap_cons, List.flatMap_nil,
      List.append_nil, question_encode, deletion_encode]
    simp only [List.append_assoc, List.nil_append] at hwrites ⊢
    exact hwrites.of_iff ⟨fun h => ⟨h.1.2, h.2⟩, fun h => ⟨⟨trivial, h.1⟩, h.2⟩⟩
  | some value =>
    have haddition := (((hdeletion.name name).u16 typeTxt).u16 1).u32
      (if 0 < ttl then ttl.toNatClampNeg else 300)
    have hwrites : (updateMsg config name (some value) ttl id).Writes _ _ :=
      ((haddition.u16 (value.length + 1)).u8 value.length).bytes value
    simp only [updateOf, Option.map_some, Option.toList_some, List.flatMap_cons, List.flatMap_nil,
      List.append_nil, question_encode, deletion_encode, addition_encode]
    simp only [List.append_assoc, List.nil_append] at hwrites ⊢
    exact hwrites.of_iff ⟨fun h => ⟨h.1.1.2, h.2⟩, fun h => ⟨⟨⟨trivial, h.1⟩, h.2⟩, h.2⟩⟩

theorem addition_valid {name value : Text} {ttl : Int32} (hname : LabelsFit (nameLabels name))
    (hvalue : value.length ≤ 255) : record.Valid (addition name ttl value) := by
  have htype : typeTxt < 2 ^ 16 ∧ 1 < 2 ^ 16 := by decide
  have hlength : (encodeLabel value).length < 2 ^ 16 := by
    rw [encodeLabel, List.length_cons]
    omega
  exact ⟨nameLabels_valid hname, htype.1, htype.2, long_valid.mpr (lifetime_lt ttl),
    counted_valid.mpr hlength⟩

theorem deletion_valid {name : Text} (hname : LabelsFit (nameLabels name)) :
    record.Valid (deletion name) := by
  have htype : typeTxt < 2 ^ 16 ∧ 255 < 2 ^ 16 ∧ 0 < 2 ^ 32 ∧ 0 < 2 ^ 16 := by decide
  exact ⟨nameLabels_valid hname, htype.1, htype.2.1, long_valid.mpr htype.2.2.1,
    counted_valid.mpr htype.2.2.2⟩

theorem updateOf_valid {config : Rfc2136Config} {name : Text} {value : Option Text} {ttl : Int32}
    {id : UInt16} (hzone : LabelsFit (nameLabels config.zone)) (hname : LabelsFit (nameLabels name))
    (hvalue : ∀ v ∈ value, v.length ≤ 255) :
    message.Valid (updateOf config name value ttl id) := by
  have hsmall : 5 * 2 ^ 11 < 2 ^ 16 ∧ 0 < 2 ^ 16 ∧ 1 < 2 ^ 16 ∧ 6 < 2 ^ 16 ∧ 2 < 2 ^ 16 := by decide
  obtain ⟨hflags, hzero, hone, htype, htwo⟩ := hsmall
  have hquestions : (question.list 1).Valid [⟨.full (nameLabels config.zone), 6, 1⟩] :=
    ⟨rfl, List.forall_mem_singleton.mpr ⟨nameLabels_valid hzone, htype, hone⟩⟩
  cases value with
  | none =>
    exact ⟨⟨id.toNat_lt, hflags, hone, hzero, hone, hzero⟩, hquestions,
      ⟨rfl, List.forall_mem_nil _⟩,
      ⟨rfl, List.forall_mem_singleton.mpr (deletion_valid hname)⟩, rfl, List.forall_mem_nil _⟩
  | some value =>
    have haddition : record.Valid (addition name ttl value) :=
      addition_valid hname (hvalue value rfl)
    exact ⟨⟨id.toNat_lt, hflags, hone, hzero, htwo, hzero⟩, hquestions,
      ⟨rfl, List.forall_mem_nil _⟩,
      ⟨rfl, List.forall_mem_cons.mpr ⟨deletion_valid hname,
        List.forall_mem_singleton.mpr haddition⟩⟩, rfl, List.forall_mem_nil _⟩

variable {hmac : Hmac} {config : Rfc2136Config} {name : Text} {value : Option Text} {ttl : Int32}
  {id : UInt16} {now : Nat} {bytes : List UInt8}

/-- An update that is sent has room for its labels and its value, and is signed. -/
theorem updateRequest_eq_ok (h : updateRequest hmac config name value ttl id now = .ok bytes) :
    (updateMsg config name value ttl id).overflow = false ∧ LabelsFit (nameLabels config.zone) ∧
      LabelsFit (nameLabels name) ∧ (∀ v ∈ value, v.length ≤ 255) ∧
      tsigSign hmac (updateMsg config name value ttl id) config.keyName config.secret id.toNat now =
        some bytes := by
  rw [updateRequest] at h
  split at h
  · cases h
  · next hshort =>
    have hvalue : ∀ v ∈ value, v.length ≤ 255 :=
      fun v hv => Nat.not_lt.mp fun hlong => hshort ⟨v, hv, hlong⟩
    dsimp only at h
    split at h
    · cases h
    · next hno =>
      have hfull := Bool.eq_false_iff.mpr hno
      obtain ⟨⟨hzone, hname⟩, -⟩ := (updateMsg_writes config name value ttl id).overflow.mp hfull
      split at h
      · cases h
      · next hsign =>
        cases h
        exact ⟨hfull, hzone, hname, hvalue, hsign⟩

/-- What `HMAC` makes of the update of `a.c`, under the key of three bytes. -/
def updateDigest : Hmac := fun _ _ =>
  some [138, 185, 251, 163, 132, 197, 173, 133, 116, 197, 235, 244, 98, 133, 84, 209, 206, 184, 81,
    26, 127, 197, 146, 14, 247, 194, 40, 146, 137, 113, 215, 183]

/-- The update leaves the value as the only TXT record of the name, or none, and changes nothing
else in the zone. -/
theorem zone_updateOf (config : Rfc2136Config) (name : Text) (value : Option Text) (ttl : Int32)
    (id : UInt16) (zone : Zone) :
    (updateOf config name value ttl id).authority.foldl Zone.update zone = fun owner type =>
      if owner = (nameLabels name).map (List.map toLower) ∧ type = typeTxt then
        (value.map fun v => (lifetime ttl, encodeLabel v)).toList
      else zone owner type := by
  funext owner type
  have htype : typeTxt ≠ 255 := by decide
  have hdeletion := Zone.update_self_of_any zone (r := deletion name) rfl
  have hdeleted : ∀ owner type, zone.update (deletion name) owner type =
      if owner = (nameLabels name).map (List.map toLower) ∧ type = typeTxt then []
      else zone owner type := by
    intro owner type
    rw [Zone.update_of_type htype, hdeletion]
    rfl
  cases value with
  | none => exact hdeleted owner type
  | some value =>
    have hclass : 1 ≠ 255 ∧ 1 ≠ 254 := by decide
    have haddition := Zone.update_self_of_add (zone.update (deletion name))
      (r := addition name ttl value) hclass.1 hclass.2 hdeletion
    have hadded : (zone.update (deletion name)).update (addition name ttl value) owner type =
        if owner = (nameLabels name).map (List.map toLower) ∧ type = typeTxt then
          [(lifetime ttl, encodeLabel value)]
        else zone.update (deletion name) owner type := by
      rw [Zone.update_of_type htype, haddition]
      rfl
    refine hadded.trans ?_
    rw [hdeleted owner type]
    by_cases hkey : owner = (nameLabels name).map (List.map toLower) ∧ type = typeTxt
    · rw [if_pos hkey, if_pos hkey]
      rfl
    · rw [if_neg hkey, if_neg hkey, if_neg hkey]

/-! ## What was asked for -/

/-- The labels of a whole name. A dot at its end adds none, and a dot alone is the root. -/
def wholeLabels (name : Text) : List (List UInt8) := if name = [46] then [] else pieces 46 name

/-- The labels of a domain name: from 1 to 63 octets each, and at most 255 with their lengths. -/
def IsDomainName (labels : List (List UInt8)) : Prop :=
  (∀ label ∈ labels, 1 ≤ label.length ∧ label.length ≤ 63) ∧
    (WireName.full labels).encode.length ≤ 255

instance (labels : List (List UInt8)) : Decidable (IsDomainName labels) :=
  inferInstanceAs (Decidable (_ ∧ _))

/-- The query for the TXT records of a whole name. -/
def askedQuery (name : Text) (id : UInt16) : Message :=
  ⟨id.toNat, 0x0100, [⟨.full (wholeLabels name), typeTxt, 1⟩], [], [], []⟩

/-- The update of a whole name, with the lifetime that was asked for. -/
def askedUpdate (config : Rfc2136Config) (name : Text) (value : Option Text) (ttl : Int32)
    (id : UInt16) : Message :=
  ⟨id.toNat, 5 * 2 ^ 11, [⟨.full (wholeLabels config.zone), 6, 1⟩], [],
    ⟨.full (wholeLabels name), typeTxt, 255, 0, []⟩ ::
      (value.map fun v =>
        ⟨.full (wholeLabels name), typeTxt, 1, ttl.toNatClampNeg, encodeLabel v⟩).toList, []⟩

/-- The bytes say what was asked: they are read back completely, as this message and one signature
that verifies, under the whole name of the key. All names are domain names. -/
structure Says (hmac : Hmac) (config : Rfc2136Config) (asked : Message) (now : Nat)
    (bytes : List UInt8) : Prop where
  read : ∃ mac, let m : Message := { asked with
      additional := [⟨.full (wholeLabels config.keyName), 250, 255, 0,
        tsig.encode (tsigOf mac asked.id now)⟩] }
    message.take bytes = some (m, []) ∧ Signed (hmac config.secret) m
  keyName : IsDomainName (wholeLabels config.keyName)
  questions : ∀ q ∈ asked.questions, IsDomainName q.name.labels
  authority : ∀ r ∈ asked.authority, IsDomainName r.name.labels

/-- All of a domain name is written. -/
theorem nameLabels_whole {name : Text} (h : IsDomainName (wholeLabels name)) :
    nameLabels name = wholeLabels name := by
  rw [wholeLabels] at h ⊢
  by_cases hroot : name = [46]
  · rw [if_pos hroot, hroot]
    rfl
  · rw [if_neg hroot] at h ⊢
    refine List.takeWhile_eq_self_iff.mpr fun label hl => ?_
    have hpos := (h.1 label hl).1
    cases label with
    | nil => exact absurd hpos (by decide)
    | cons => rfl

/-- What is sent to write a name is an update that leaves the value as the only TXT record of the
labels before the first empty one, or none, and changes nothing else in the zone. For a domain name
these are all its labels, and a positive lifetime is the one of the record. -/
theorem update_replaces (h : updateRequest hmac config name value ttl id now = .ok bytes)
    (zone : Zone) :
    ∃ m, message.take bytes = some (m, []) ∧
      m.questions = [⟨.full (nameLabels config.zone), 6, 1⟩] ∧
      (m.authority.foldl Zone.update zone = fun owner type =>
        if owner = (nameLabels name).map (List.map toLower) ∧ type = typeTxt then
          (value.map fun v => (lifetime ttl, encodeLabel v)).toList
        else zone owner type) ∧
      (IsDomainName (wholeLabels name) → 0 < ttl →
        m.authority.foldl Zone.update zone = fun owner type =>
          if owner = (wholeLabels name).map (List.map toLower) ∧ type = typeTxt then
            (value.map fun v => (ttl.toNatClampNeg, encodeLabel v)).toList
          else zone owner type) := by
  obtain ⟨hfull, hzone, hname, hvalue, hsign⟩ := updateRequest_eq_ok h
  obtain ⟨mac, htake, -⟩ := tsigSign_message (updateOf config name value ttl id) hfull
    ((updateMsg_writes config name value ttl id).data hfull)
    (updateOf_valid hzone hname hvalue) rfl hsign
  have heffect := zone_updateOf config name value ttl id zone
  refine ⟨_, htake, rfl, heffect, fun hdomain hpos => heffect.trans ?_⟩
  rw [nameLabels_whole hdomain, lifetime, if_pos hpos]

/-- A zone with one record of `a.c` and one of `c`. -/
def twoRecords : Zone := fun owner type =>
  if (owner = [[97], [99]] ∨ owner = [[99]]) ∧ type = 16 then [(60, [1, 98])] else []

/-- What the update of `a.c` makes of this zone. -/
theorem update_replaces_short : ∃ bytes m,
    updateRequest updateDigest ⟨[99], [107], [1, 2, 3]⟩ [97, 46, 99] (some [100]) 300 7
      1700000000 = .ok bytes ∧
      message.take bytes = some (m, []) ∧
      m.authority.foldl Zone.update twoRecords [[97], [99]] 16 = [(300, [1, 100])] ∧
      m.authority.foldl Zone.update twoRecords [[99]] 16 = [(60, [1, 98])] := by
  obtain ⟨bytes, hbytes⟩ := exists_of_isOk (x := updateRequest updateDigest
    ⟨[99], [107], [1, 2, 3]⟩ [97, 46, 99] (some [100]) 300 7 1700000000) (by decide +kernel)
  obtain ⟨m, htake, -, -, hzone⟩ := update_replaces hbytes twoRecords
  refine ⟨bytes, m, hbytes, htake, ?_⟩
  rw [hzone (by decide) (by decide)]
  decide +kernel

theorem length_le_pieces (name : Text) :
    name.length ≤ ((pieces 46 name).flatMap encodeLabel).length := by
  induction name with
  | nil => exact Nat.zero_le _
  | cons c name ih =>
    rw [pieces]
    split
    · rw [List.flatMap_cons, List.length_append, List.length_cons]
      exact (Nat.succ_le_succ ih).trans (Nat.add_comm _ 1).le
    · split
      · next hnone =>
        rw [hnone] at ih
        exact (Nat.succ_le_succ ih).trans (by decide : 1 ≤ 2)
      · next first rest hsome =>
        rw [hsome, List.flatMap_cons, List.length_append, encodeLabel, List.length_cons] at ih
        rw [List.flatMap_cons, List.length_append, encodeLabel, List.length_cons, List.length_cons,
          List.length_cons]
        omega

/-- A domain name fits in the buffer of the canonical form. -/
theorem length_of_isDomainName {name : Text} (h : IsDomainName (wholeLabels name)) :
    name.length ≤ 255 := by
  rw [wholeLabels] at h
  by_cases hroot : name = [46]
  · rw [hroot]
    decide
  · rw [if_neg hroot] at h
    have hwire := h.2
    rw [WireName.encode, List.length_append] at hwire
    exact (length_le_pieces name).trans ((Nat.le_add_right _ _).trans hwire)

/-- What is signed and sent of a message says it, where the names are domain names. -/
theorem says_of_signed {m : Msg} {asked : Message} (hm : m.overflow = false)
    (hdata : m.data = message.encode asked) (hvalid : message.Valid asked)
    (hnone : asked.additional = [])
    (hsign : tsigSign hmac m config.keyName config.secret asked.id now = some bytes)
    (hkey : IsDomainName (wholeLabels config.keyName))
    (hquestions : ∀ q ∈ asked.questions, IsDomainName q.name.labels)
    (hauthority : ∀ r ∈ asked.authority, IsDomainName r.name.labels) :
    Says hmac config asked now bytes := by
  obtain ⟨mac, htake, hsigned⟩ := tsigSign_message asked hm hdata hvalid hnone hsign
  have hsigned := hsigned (length_of_isDomainName hkey)
  rw [tsigRecord, nameLabels_whole hkey] at htake hsigned
  exact ⟨⟨mac, htake, hsigned⟩, hkey, hquestions, hauthority⟩

theorem query_says_iff (h : queryRequest hmac config name id now = .ok bytes) :
    Says hmac config (askedQuery name id) now bytes ↔
      IsDomainName (wholeLabels name) ∧ IsDomainName (wholeLabels config.keyName) := by
  constructor
  · intro hstates
    exact ⟨hstates.questions _ List.mem_cons_self, hstates.keyName⟩
  · rintro ⟨hname, hkey⟩
    obtain ⟨hfull, hlabels, hsign⟩ := queryRequest_eq_ok h
    have hasked : queryOf name id = askedQuery name id := by
      rw [queryOf, nameLabels_whole hname, askedQuery]
    have hdata := (queryMsg_writes name id).data hfull
    have hvalid : message.Valid (queryOf name id) := queryOf_valid hlabels
    rw [hasked] at hdata hvalid
    exact says_of_signed hfull hdata hvalid rfl hsign hkey
      (List.forall_mem_singleton.mpr hname) (List.forall_mem_nil _)

theorem update_says_iff (h : updateRequest hmac config name value ttl id now = .ok bytes) :
    Says hmac config (askedUpdate config name value ttl id) now bytes ↔
      IsDomainName (wholeLabels config.zone) ∧ IsDomainName (wholeLabels name) ∧
        IsDomainName (wholeLabels config.keyName) ∧ (value.isSome → 0 < ttl) := by
  obtain ⟨hfull, hzone, hname, hvalue, hsign⟩ := updateRequest_eq_ok h
  have hdata := (updateMsg_writes config name value ttl id).data hfull
  have hvalid : message.Valid (updateOf config name value ttl id) :=
    updateOf_valid hzone hname hvalue
  constructor
  · intro hstates
    refine ⟨hstates.questions _ List.mem_cons_self, hstates.authority _ List.mem_cons_self,
      hstates.keyName, fun hsome => ?_⟩
    -- what is read back is what was written, and that has a lifetime
    obtain ⟨mac, htake, -⟩ := hstates.read
    obtain ⟨mac', htake', -⟩ := tsigSign_message (updateOf config name value ttl id) hfull hdata
      hvalid rfl hsign
    rw [htake'] at htake
    have hauthority := congrArg Message.authority (Prod.mk.inj (Option.some.inj htake)).1
    obtain ⟨v, rfl⟩ := Option.isSome_iff_exists.mp hsome
    have hadded := (List.cons.inj (List.cons.inj hauthority).2).1
    have hlifetime : lifetime ttl = ttl.toNatClampNeg := congrArg Record.ttl hadded
    by_contra hnot
    rw [lifetime, if_neg hnot] at hlifetime
    have hclamp : ttl.toNatClampNeg = 0 := Int.toNat_eq_zero.mpr
      (Int.not_lt.mp fun hlt => hnot (Int32.lt_iff_toInt_lt.mpr hlt))
    omega
  · rintro ⟨hzone, hname, hkey, hpos⟩
    have hasked : updateOf config name value ttl id = askedUpdate config name value ttl id := by
      cases value with
      | none =>
        rw [updateOf, nameLabels_whole hzone, deletion, nameLabels_whole hname, askedUpdate]
        rfl
      | some v =>
        rw [updateOf, nameLabels_whole hzone, deletion, nameLabels_whole hname, askedUpdate,
          Option.map_some, Option.map_some, addition, nameLabels_whole hname, lifetime,
          if_pos (hpos rfl)]
    rw [hasked] at hdata hvalid
    refine says_of_signed hfull hdata hvalid rfl hsign hkey (List.forall_mem_singleton.mpr hzone)
      fun r hr => ?_
    obtain rfl | hadded := List.mem_cons.mp hr
    · exact hname
    · obtain ⟨v, -, rfl⟩ := Option.map_eq_some_iff.mp (Option.mem_toList.mp hadded)
      exact hname

/-- Every query and every update that is sent says what was asked for if and only if the names are
domain names, and the lifetime of a value is positive. -/
theorem requests_say_iff (hmac : Hmac) (config : Rfc2136Config) (name : Text) (id : UInt16)
    (now : Nat) :
    (∀ bytes, queryRequest hmac config name id now = .ok bytes →
      (Says hmac config (askedQuery name id) now bytes ↔
        IsDomainName (wholeLabels name) ∧ IsDomainName (wholeLabels config.keyName))) ∧
    ∀ value ttl bytes, updateRequest hmac config name value ttl id now = .ok bytes →
      (Says hmac config (askedUpdate config name value ttl id) now bytes ↔
        IsDomainName (wholeLabels config.zone) ∧ IsDomainName (wholeLabels name) ∧
          IsDomainName (wholeLabels config.keyName) ∧ (value.isSome → 0 < ttl)) :=
  ⟨fun _ h => query_says_iff h, fun _ _ _ h => update_says_iff h⟩

/-- The query for `a.c` and its update say what was asked for. -/
theorem requests_say_short :
    (∃ bytes, queryRequest queryDigest ⟨[99], [107], [1, 2, 3]⟩ [97, 46, 99] 7 1700000000 =
        .ok bytes ∧
      Says queryDigest ⟨[99], [107], [1, 2, 3]⟩ (askedQuery [97, 46, 99] 7) 1700000000 bytes) ∧
    ∃ bytes, updateRequest updateDigest ⟨[99], [107], [1, 2, 3]⟩ [97, 46, 99] (some [100]) 300 7
        1700000000 = .ok bytes ∧
      Says updateDigest ⟨[99], [107], [1, 2, 3]⟩
        (askedUpdate ⟨[99], [107], [1, 2, 3]⟩ [97, 46, 99] (some [100]) 300 7) 1700000000
        bytes := by
  constructor
  · obtain ⟨bytes, hbytes⟩ := exists_of_isOk (x := queryRequest queryDigest
      ⟨[99], [107], [1, 2, 3]⟩ [97, 46, 99] 7 1700000000) (by decide +kernel)
    exact ⟨bytes, hbytes, ((requests_say_iff queryDigest ⟨[99], [107], [1, 2, 3]⟩ [97, 46, 99] 7
      1700000000).1 bytes hbytes).mpr (by decide)⟩
  · obtain ⟨bytes, hbytes⟩ := exists_of_isOk (x := updateRequest updateDigest
      ⟨[99], [107], [1, 2, 3]⟩ [97, 46, 99] (some [100]) 300 7 1700000000) (by decide +kernel)
    exact ⟨bytes, hbytes, ((requests_say_iff updateDigest ⟨[99], [107], [1, 2, 3]⟩ [97, 46, 99] 7
      1700000000).2 (some [100]) 300 bytes hbytes).mpr (by decide)⟩

/-- What `HMAC` makes of the update of `a..c`, under the key of three bytes. -/
def cutDigest : Hmac := fun _ _ =>
  some [97, 163, 249, 241, 73, 145, 44, 25, 74, 131, 29, 125, 17, 79, 107, 75, 172, 40, 163, 218,
    48, 184, 227, 204, 151, 173, 228, 175, 133, 17, 185, 80]

/-- The update of `a..c` is sent, and is one of `a`. -/
theorem update_of_cut_name :
    ∃ bytes, updateRequest cutDigest ⟨[99], [107], [1, 2, 3]⟩ [97, 46, 46, 99] (some [100]) 300 7
        1700000000 = .ok bytes ∧
      ¬ Says cutDigest ⟨[99], [107], [1, 2, 3]⟩
        (askedUpdate ⟨[99], [107], [1, 2, 3]⟩ [97, 46, 46, 99] (some [100]) 300 7) 1700000000
        bytes := by
  obtain ⟨bytes, hbytes⟩ := exists_of_isOk (x := updateRequest cutDigest
    ⟨[99], [107], [1, 2, 3]⟩ [97, 46, 46, 99] (some [100]) 300 7 1700000000) (by decide +kernel)
  exact ⟨bytes, hbytes, fun h => absurd (h.authority _ List.mem_cons_self) (by decide)⟩

end MetalBear.Dns
