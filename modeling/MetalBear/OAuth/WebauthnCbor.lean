import MetalBear.Library.CborGrammar
import MetalBear.Wolfram.Status

/-!
# Attested credentials

The reader of the binary objects that a client sends when it registers a passkey. Reading is
over a buffer and an offset into it; a read past the end of the buffer and an overflow of a
signed number have outcomes of their own.
-/

namespace MetalBear.OAuth

open CborGrammar

/-! ## Reading a buffer -/

/-- How reading ends without a result. -/
inductive Stop where
  | status (error : WfError)
  | outOfBounds
  | signedOverflow
  deriving DecidableEq, Repr

abbrev Reads (α : Type) := Except Stop α

def parseError {α : Type} : Reads α := .error (.status .parse)

def byteAt (data : List UInt8) (i : Nat) : Reads UInt8 :=
  match data[i]? with
  | some byte => .ok byte
  | none => .error .outOfBounds

/-- `memcpy` out of the buffer. -/
def bytesAt (data : List UInt8) (start count : Nat) : Reads (List UInt8) :=
  if start + count ≤ data.length then .ok ((data.drop start).take count) else .error .outOfBounds

/-- What `read_head` stores through its pointers. -/
structure Head where
  majorType : Nat
  argument : Nat
  pos : Nat
  deriving DecidableEq

/-- The argument behind the initial byte. -/
def readArgument (data : List UInt8) (majorType p width : Nat) : Reads Head :=
  if p + width > data.length then parseError
  else do
    let bytes ← bytesAt data p width
    .ok ⟨majorType, ofBytes bytes, p + width⟩

/-- `read_head`. -/
def readHead (data : List UInt8) (pos : Nat) : Reads Head :=
  if pos ≥ data.length then parseError
  else do
    let initial ← byteAt data pos
    let mt := initial.toNat / 32
    let info := initial.toNat % 32
    if info < 24 then .ok ⟨mt, info, pos + 1⟩
    else if info = 24 then readArgument data mt (pos + 1) 1
    else if info = 25 then readArgument data mt (pos + 1) 2
    else if info = 26 then readArgument data mt (pos + 1) 4
    else if info = 27 then readArgument data mt (pos + 1) 8
    else parseError

/-- A loop of so many turns. -/
def times {σ : Type} (turn : σ → Reads σ) : Nat → σ → Reads σ
  | 0, s => .ok s
  | n + 1, s => do times turn n (← turn s)

/-- `WEBAUTHN_CBOR_MAX_DEPTH`. -/
def cborMaxDepth : Nat := 32

/-- `skip_value`, where so many levels are left of the greatest depth. -/
def skipLevels (data : List UInt8) : Nat → Nat → Reads Nat
  | 0, _ => parseError
  | levels + 1, pos => do
    let head ← readHead data pos
    match head.majorType with
    | 0 | 1 | 7 => .ok head.pos
    | 2 | 3 =>
      if head.argument > data.length - head.pos then parseError else .ok (head.pos + head.argument)
    | 4 => times (skipLevels data levels) head.argument head.pos
    | 5 =>
      times (fun pos => do skipLevels data levels (← skipLevels data levels pos)) head.argument
        head.pos
    | 6 => skipLevels data levels head.pos
    | _ => parseError

/-- `skip_value`. -/
def skipValue (data : List UInt8) (pos depth : Nat) : Reads Nat :=
  skipLevels data (cborMaxDepth + 1 - depth) pos

/-! ## The public key -/

/-- `metalbear_webauthn_p256_key`. -/
structure P256Key where
  x : List UInt8
  y : List UInt8
  deriving DecidableEq

/-- The key before anything is stored in it. -/
def P256Key.zero : P256Key := ⟨List.replicate 32 0, List.replicate 32 0⟩

/-- The conversion of a number to `int64_t`, modulo 2⁶⁴. -/
def toInt64 (n : Nat) : Int := Int.bmod n (2 ^ 64)

/-- The label of an entry. The least number of `int64_t` has no negation. -/
def coseLabel (majorType argument : Nat) : Reads Int :=
  if majorType = 0 then .ok (toInt64 argument)
  else if toInt64 (1 + argument) = -2 ^ 63 then .error .signedOverflow
  else .ok (-toInt64 (1 + argument))

/-- The variables of the loop over the entries. -/
structure KeyScan where
  pos : Nat
  out : P256Key
  haveX : Bool
  haveY : Bool
  haveKty : Bool
  haveCrv : Bool
  deriving DecidableEq

def KeyScan.start (pos : Nat) (out : P256Key) : KeyScan := ⟨pos, out, false, false, false, false⟩

/-- A coordinate under a label: a byte string of 32 bytes. -/
def readCoordinate (data : List UInt8) (pos : Nat) : Reads (List UInt8 × Nat) := do
  let head ← readHead data pos
  if head.majorType ≠ 2 ∨ head.argument ≠ 32 then parseError
  else if 32 > data.length - head.pos then parseError
  else do
    let bytes ← bytesAt data head.pos 32
    .ok (bytes, head.pos + 32)

/-- A small number that has to be the given one. -/
def readExpected (data : List UInt8) (pos value : Nat) : Reads Nat := do
  let head ← readHead data pos
  if head.majorType ≠ 0 ∨ head.argument ≠ value then parseError else .ok head.pos

/-- The value of an entry with a label. -/
def readKeyValue (data : List UInt8) (s : KeyScan) (key : Int) (pos : Nat) : Reads KeyScan :=
  if key = -2 then do
    let (x, pos) ← readCoordinate data pos
    .ok { s with pos, out.x := x, haveX := true }
  else if key = -3 then do
    let (y, pos) ← readCoordinate data pos
    .ok { s with pos, out.y := y, haveY := true }
  else if key = 1 then do
    let pos ← readExpected data pos 2
    .ok { s with pos, haveKty := true }
  else if key = -1 then do
    let pos ← readExpected data pos 1
    .ok { s with pos, haveCrv := true }
  else do
    let pos ← skipValue data pos 0
    .ok { s with pos }

/-- The body of the loop. -/
def readKeyEntry (data : List UInt8) (s : KeyScan) : Reads KeyScan := do
  let head ← readHead data s.pos
  if head.majorType ≠ 0 ∧ head.majorType ≠ 1 then parseError
  else do
    let key ← coseLabel head.majorType head.argument
    readKeyValue data s key head.pos

/-- `parse_cose_p256_key`: the key and the offset behind it. -/
def parseCoseP256Key (data : List UInt8) (pos : Nat) (out : P256Key) : Reads (P256Key × Nat) := do
  let head ← readHead data pos
  if head.majorType ≠ 5 then parseError
  else do
    let s ← times (readKeyEntry data) head.argument (.start head.pos out)
    if !s.haveX || !s.haveY || !s.haveKty || !s.haveCrv then parseError else .ok (s.out, s.pos)

/-! ## The objects -/

/-- `metalbear_webauthn_attested_credential`. -/
structure AttestedCredential where
  rpIdHash : List UInt8
  flags : UInt8
  signCount : Nat
  credentialId : List UInt8
  publicKey : P256Key
  deriving DecidableEq

/-- `METALBEAR_WEBAUTHN_FLAG_AT`. -/
def flagAt : UInt8 := 0x40

/-- `metalbear_webauthn_parse_registration_auth_data`, with whether memory is had for the
identifier. -/
def parseRegistrationAuthData (data : List UInt8) (allocated : Bool) : Reads AttestedCredential :=
  if data.length < 37 then parseError
  else do
    let rpIdHash ← bytesAt data 0 32
    let flags ← byteAt data 32
    let signCount ← bytesAt data 33 4
    if flags &&& flagAt = 0 then parseError
    else if 37 + 16 + 2 > data.length then parseError
    else do
      let idLength := ofBytes (← bytesAt data 53 2)
      if idLength > data.length - 55 then parseError
      else if !allocated then .error (.status .alloc)
      else do
        let credentialId ← bytesAt data 55 idLength
        let (publicKey, _) ← parseCoseP256Key data (55 + idLength) .zero
        .ok ⟨rpIdHash, flags, ofBytes signCount, credentialId, publicKey⟩

def authDataName : List UInt8 := "authData".toUTF8.toList

/-- Whether the text of a key is `authData`; `memcmp` is called on eight bytes only. -/
def namesAuthData (data : List UInt8) (key : Head) : Reads Bool :=
  if key.argument = 8 then do
    let name ← bytesAt data key.pos 8
    .ok (name = authDataName)
  else .ok false

/-- The variables of the loop over the attestation object; `found` is where the authenticator
data begin, and their length. -/
structure AttestationScan where
  pos : Nat
  found : Option (Nat × Nat)
  deriving DecidableEq

/-- The body of the loop. -/
def readAttestationEntry (data : List UInt8) (s : AttestationScan) : Reads AttestationScan := do
  let key ← readHead data s.pos
  if key.majorType ≠ 3 then parseError
  else if key.argument > data.length - key.pos then parseError
  else do
    let isAuthData ← namesAuthData data key
    if isAuthData then do
      let value ← readHead data (key.pos + key.argument)
      if value.majorType ≠ 2 then parseError
      else if value.argument > data.length - value.pos then parseError
      else .ok ⟨value.pos + value.argument, some (value.pos, value.argument)⟩
    else do
      let pos ← skipValue data (key.pos + key.argument) 0
      .ok { s with pos }

/-- `metalbear_webauthn_parse_attestation_object`. -/
def parseAttestationObject (data : List UInt8) : Reads (Nat × Nat) := do
  let head ← readHead data 0
  if head.majorType ≠ 5 then parseError
  else do
    let s ← times (readAttestationEntry data) head.argument ⟨head.pos, none⟩
    match s.found with
    | some found => .ok found
    | none => parseError

/-! ## What bytes are read -/

/-- The bytes stand at an offset of the buffer and end before another. -/
def Spans (data : List UInt8) (pos : Nat) (bytes : List UInt8) (pos' : Nat) : Prop :=
  (∃ rest, data.drop pos = bytes ++ rest) ∧ pos' = pos + bytes.length

section Spans

variable {data bytes bytes' : List UInt8} {pos pos' : Nat}

@[simp] theorem spans_nil : Spans data pos [] pos' ↔ pos' = pos := by
  simp [Spans]

theorem spans_append :
    Spans data pos (bytes ++ bytes') pos' ↔
      ∃ mid, Spans data pos bytes mid ∧ Spans data mid bytes' pos' := by
  constructor
  · rintro ⟨⟨rest, hrest⟩, rfl⟩
    rw [List.append_assoc] at hrest
    refine ⟨pos + bytes.length, ⟨⟨bytes' ++ rest, hrest⟩, rfl⟩, ⟨rest, ?_⟩, ?_⟩
    · rw [← List.drop_drop, hrest, List.drop_left]
    · rw [List.length_append, Nat.add_assoc]
  · rintro ⟨mid, ⟨⟨rest, hrest⟩, rfl⟩, ⟨rest', hrest'⟩, rfl⟩
    rw [← List.drop_drop, hrest, List.drop_left] at hrest'
    subst hrest'
    exact ⟨⟨rest', by rw [hrest, List.append_assoc]⟩, by rw [List.length_append, Nat.add_assoc]⟩

/-- So many bytes are left where some text of that length stands. -/
theorem spans_of_le {n : Nat} (h : n ≤ data.length - pos) :
    Spans data pos ((data.drop pos).take n) (pos + n) := by
  refine ⟨⟨(data.drop pos).drop n, (List.take_append_drop n _).symm⟩, ?_⟩
  rw [List.length_take, List.length_drop, Nat.min_eq_left h]

theorem Spans.length_le (h : Spans data pos bytes pos') : bytes.length ≤ data.length - pos := by
  obtain ⟨⟨rest, hrest⟩, -⟩ := h
  have := congrArg List.length hrest
  rw [List.length_drop, List.length_append] at this
  omega

theorem Spans.take_eq (h : Spans data pos bytes pos') :
    (data.drop pos).take bytes.length = bytes := by
  obtain ⟨⟨rest, hrest⟩, -⟩ := h
  rw [hrest, List.take_left]

theorem Spans.pos_eq (h : Spans data pos bytes pos') : pos' = pos + bytes.length := h.2

/-- Two texts at one offset are compared with what follows them. -/
theorem Spans.exists_append_eq {pos'' : Nat} (h : Spans data pos bytes pos')
    (h' : Spans data pos bytes' pos'') : ∃ x y, bytes ++ x = bytes' ++ y := by
  obtain ⟨⟨x, hx⟩, -⟩ := h
  obtain ⟨⟨y, hy⟩, -⟩ := h'
  exact ⟨x, y, hx.symm.trans hy⟩

end Spans

/-! ## Heads and loops -/

/-- Reading has a defined outcome. -/
def Defined {α : Type} (r : Reads α) : Prop :=
  r ≠ .error .outOfBounds ∧ r ≠ .error .signedOverflow

section Outcomes

variable {α β : Type} {r : Reads α} {f : α → Reads β} {b : β} {e : Stop}

theorem ok_bind (a : α) (f : α → Reads β) : ((.ok a : Reads α) >>= f) = f a := rfl

theorem bind_eq_ok : (r >>= f) = .ok b ↔ ∃ a, r = .ok a ∧ f a = .ok b := by
  cases r with
  | error e => exact iff_of_false nofun nofun
  | ok a => exact ⟨fun h => ⟨a, rfl, h⟩, fun ⟨_, h, hf⟩ => Except.ok.inj h ▸ hf⟩

theorem bind_eq_error :
    (r >>= f) = .error e ↔ r = .error e ∨ ∃ a, r = .ok a ∧ f a = .error e := by
  cases r with
  | error e' =>
    constructor
    · intro h
      exact Or.inl (congrArg Except.error (Except.error.inj h))
    · rintro (h | ⟨a, h, -⟩)
      · exact congrArg Except.error (Except.error.inj h)
      · cases h
  | ok a =>
    constructor
    · intro h
      exact Or.inr ⟨a, rfl, h⟩
    · rintro (h | ⟨a, h, hf⟩)
      · cases h
      · exact Except.ok.inj h ▸ hf

theorem parseError_ne_ok {a : α} : (parseError : Reads α) ≠ .ok a := nofun

theorem defined_ok (a : α) : Defined (.ok a : Reads α) := ⟨nofun, nofun⟩

theorem defined_status (error : WfError) : Defined (.error (.status error) : Reads α) :=
  ⟨nofun, nofun⟩

theorem defined_parseError : Defined (parseError : Reads α) := defined_status _

theorem Defined.bind (hr : Defined r) (hf : ∀ a, r = .ok a → Defined (f a)) :
    Defined (r >>= f) := by
  constructor <;> intro h <;> obtain h | ⟨a, ha, h⟩ := bind_eq_error.mp h
  · exact hr.1 h
  · exact (hf a ha).1 h
  · exact hr.2 h
  · exact (hf a ha).2 h

theorem Defined.ite {c : Prop} [Decidable c] {r r' : Reads α} (h : c → Defined r)
    (h' : ¬ c → Defined r') : Defined (if c then r else r') := by
  split_ifs with hc
  · exact h hc
  · exact h' hc

theorem times_defined {σ : Type} {turn : σ → Reads σ} (h : ∀ s, Defined (turn s)) (n : Nat)
    (s : σ) : Defined (times turn n s) := by
  induction n generalizing s with
  | zero => exact defined_ok s
  | succ n ih => exact (h s).bind fun a _ => ih a

/-- A loop stops in the turn after some that went well. -/
theorem times_eq_error {σ : Type} {turn : σ → Reads σ} {n : Nat} {s : σ} :
    times turn n s = .error e ↔ ∃ k < n, ∃ s', times turn k s = .ok s' ∧ turn s' = .error e := by
  induction n generalizing s with
  | zero => exact iff_of_false nofun fun ⟨_, hk, _⟩ => Nat.not_lt_zero _ hk
  | succ n ih =>
    rw [times, bind_eq_error]
    constructor
    · rintro (h | ⟨s₁, h₁, h⟩)
      · exact ⟨0, n.succ_pos, s, rfl, h⟩
      · obtain ⟨k, hk, s', hs', h⟩ := ih.mp h
        exact ⟨k + 1, Nat.succ_lt_succ hk, s', bind_eq_ok.mpr ⟨s₁, h₁, hs'⟩, h⟩
    · rintro ⟨k, hk, s', hs', h⟩
      cases k with
      | zero =>
        cases hs'
        exact Or.inl h
      | succ k =>
        obtain ⟨s₁, h₁, hs'⟩ := bind_eq_ok.mp hs'
        exact Or.inr ⟨s₁, h₁, ih.mpr ⟨k, Nat.lt_of_succ_lt_succ hk, s', hs', h⟩⟩

theorem times_one {σ : Type} (turn : σ → Reads σ) (s : σ) : times turn 1 s = turn s := by
  change (turn s >>= fun s => times turn 0 s) = turn s
  cases turn s <;> rfl

/-- A loop of turns of two halves is one of twice as many halves. -/
theorem times_twice {σ : Type} (turn : σ → Reads σ) (n : Nat) (s : σ) :
    times (fun s => do turn (← turn s)) n s = times turn (2 * n) s := by
  induction n generalizing s with
  | zero => rfl
  | succ n ih =>
    change ((turn s >>= turn) >>= times _ n) = (turn s >>= fun s => turn s >>= times turn (2 * n))
    rw [funext ih]
    cases turn s <;> rfl

/-- Where each turn reads one piece, a loop reads so many of them. -/
theorem times_eq_ok {σ : Type} {turn : σ → Reads σ} {data : List UInt8} {pos : σ → Nat}
    {P : α → Prop} {bytes : α → List UInt8} {next : σ → α → σ}
    (h : ∀ s s', turn s = .ok s' ↔
      ∃ a, P a ∧ Spans data (pos s) (bytes a) (pos s') ∧ s' = next s a)
    (hnext : ∀ s a, pos (next s a) = pos s + (bytes a).length) {n : Nat} {s s' : σ} :
    times turn n s = .ok s' ↔
      ∃ as : List α, as.length = n ∧ (∀ a ∈ as, P a) ∧
        Spans data (pos s) (as.map bytes).flatten (pos s') ∧ s' = as.foldl next s := by
  induction n generalizing s with
  | zero =>
    constructor
    · intro hs
      cases hs
      exact ⟨[], rfl, by simp, by simp, rfl⟩
    · rintro ⟨as, hlength, -, -, rfl⟩
      obtain rfl := List.length_eq_zero_iff.mp hlength
      rfl
  | succ n ih =>
    rw [times, bind_eq_ok]
    constructor
    · rintro ⟨s₁, h₁, hs'⟩
      obtain ⟨a, ha, hspan, rfl⟩ := (h s s₁).mp h₁
      obtain ⟨as, hlength, has, hspans, rfl⟩ := ih.mp hs'
      refine ⟨a :: as, congrArg Nat.succ hlength, List.forall_mem_cons.mpr ⟨ha, has⟩, ?_, rfl⟩
      rw [List.map_cons, List.flatten_cons, spans_append]
      exact ⟨_, hspan, hspans⟩
    · rintro ⟨as, hlength, has, hspans, rfl⟩
      cases as with
      | nil => cases hlength
      | cons a as =>
        obtain ⟨ha, has⟩ := List.forall_mem_cons.mp has
        rw [List.map_cons, List.flatten_cons, spans_append] at hspans
        obtain ⟨mid, hspan, hspans⟩ := hspans
        obtain rfl : mid = pos (next s a) := hspan.pos_eq.trans (hnext s a).symm
        exact ⟨next s a, (h s _).mpr ⟨a, ha, hspan, rfl⟩,
          ih.mpr ⟨as, Nat.succ.inj hlength, has, hspans, rfl⟩⟩

end Outcomes

section Heads

variable {data bytes : List UInt8} {pos pos' count : Nat} {head : Head}

theorem bytesAt_of_le (h : pos + count ≤ data.length) :
    bytesAt data pos count = .ok ((data.drop pos).take count) :=
  if_pos h

theorem byteAt_eq_ok {byte : UInt8} :
    byteAt data pos = .ok byte ↔ Spans data pos [byte] (pos + 1) := by
  have hspan : Spans data pos [byte] (pos + 1) ↔ data[pos]? = some byte := by
    rw [Spans, List.length_singleton, and_iff_left rfl]
    constructor
    · rintro ⟨rest, hrest⟩
      rw [← List.head?_drop, hrest]
      rfl
    · intro h
      obtain ⟨hlt, rfl⟩ := List.getElem?_eq_some_iff.mp h
      exact ⟨_, List.drop_eq_getElem_cons hlt⟩
  rw [hspan]
  unfold byteAt
  split
  · next h => rw [h, Except.ok.injEq, Option.some.injEq]
  · next h => exact iff_of_false nofun (by rw [h]; nofun)

theorem byteAt_defined (h : pos < data.length) : Defined (byteAt data pos) := by
  rw [byteAt, List.getElem?_eq_getElem h]
  exact defined_ok _

theorem bytesAt_defined (h : pos + count ≤ data.length) : Defined (bytesAt data pos count) := by
  rw [bytesAt_of_le h]
  exact defined_ok _

theorem readArgument_defined (mt p width : Nat) : Defined (readArgument data mt p width) := by
  unfold readArgument
  split
  · exact defined_parseError
  · next h => exact (bytesAt_defined (Nat.le_of_not_lt h)).bind fun _ _ => defined_ok _

theorem readArgument_eq_ok {mt p width : Nat} (hp : p ≤ data.length) :
    readArgument data mt p width = .ok head ↔
      ∃ tail, tail.length = width ∧ Spans data p tail head.pos ∧ head.majorType = mt ∧
        head.argument = ofBytes tail := by
  unfold readArgument
  split
  · next h =>
    refine iff_of_false parseError_ne_ok ?_
    rintro ⟨tail, rfl, hspan, -⟩
    have := hspan.length_le
    omega
  · next h =>
    rw [bytesAt_of_le (Nat.le_of_not_lt h), bind_eq_ok]
    constructor
    · rintro ⟨tail, htail, hhead⟩
      obtain rfl := Except.ok.inj htail
      obtain rfl := Except.ok.inj hhead
      refine ⟨_, ?_, spans_of_le (by omega), rfl, rfl⟩
      rw [List.length_take, List.length_drop]
      omega
    · rintro ⟨tail, rfl, hspan, rfl, harg⟩
      refine ⟨tail, congrArg Except.ok hspan.take_eq, ?_⟩
      rw [← harg, ← hspan.pos_eq]

/-- The branches of `read_head` follow the width of the argument. -/
theorem readHead_eq (h : pos < data.length) :
    readHead data pos = (do
      let initial ← byteAt data pos
      match argumentWidth (initial.toNat % 32) with
      | none => parseError
      | some 0 => .ok ⟨initial.toNat / 32, initial.toNat % 32, pos + 1⟩
      | some width => readArgument data (initial.toNat / 32) (pos + 1) width) := by
  rw [readHead, if_neg (Nat.not_le_of_lt h)]
  congr 1
  funext initial
  dsimp only [argumentWidth]
  split_ifs <;> rfl

/-- `read_head` succeeds where a head stands. -/
theorem readHead_eq_ok :
    readHead data pos = .ok head ↔
      ∃ bytes, IsHead head.majorType head.argument bytes ∧ Spans data pos bytes head.pos := by
  by_cases hpos : pos < data.length
  · rw [readHead_eq hpos, bind_eq_ok]
    constructor
    · rintro ⟨initial, hinitial, h⟩
      have hspan := byteAt_eq_ok.mp hinitial
      split at h
      · cases h
      · next hwidth =>
        obtain rfl := Except.ok.inj h
        exact ⟨[initial], ⟨initial, [], rfl, rfl, hwidth, rfl⟩, hspan⟩
      · next width hne hwidth =>
        obtain ⟨tail, rfl, htail, hmajor, harg⟩ := (readArgument_eq_ok hpos).mp h
        have htail0 : tail ≠ [] := fun hnil => hne (List.length_eq_zero_iff.mpr hnil)
        refine ⟨initial :: tail, ⟨initial, tail, rfl, hmajor.symm, hwidth, ?_⟩,
          spans_append.mpr ⟨_, hspan, htail⟩⟩
        rw [if_neg htail0, harg]
    · rintro ⟨-, ⟨initial, tail, rfl, hmajor, hwidth, harg⟩, hspan⟩
      obtain ⟨mid, hinitial, htail⟩ : ∃ mid, Spans data pos [initial] mid ∧
        Spans data mid tail head.pos := spans_append.mp hspan
      obtain rfl := hinitial.pos_eq
      refine ⟨initial, byteAt_eq_ok.mpr hinitial, ?_⟩
      cases tail with
      | nil =>
        rw [hwidth]
        rw [if_pos rfl] at harg
        have hend : pos + 1 = head.pos := (spans_nil.mp htail).symm
        rw [hmajor, ← harg, hend]
        rfl
      | cons byte tail =>
        rw [hwidth]
        rw [if_neg (List.cons_ne_nil _ _)] at harg
        exact (readArgument_eq_ok hpos).mpr ⟨byte :: tail, rfl, htail, hmajor.symm, harg⟩
  · rw [readHead, if_pos (Nat.le_of_not_lt hpos)]
    refine iff_of_false parseError_ne_ok ?_
    rintro ⟨bytes, hhead, hspan⟩
    have := hspan.length_le
    have := List.length_pos_of_ne_nil hhead.ne_nil
    omega

theorem readHead_defined : Defined (readHead data pos) := by
  unfold readHead
  split
  · exact defined_parseError
  · next h =>
    refine (byteAt_defined (Nat.lt_of_not_le h)).bind fun initial _ => ?_
    dsimp only
    split_ifs
    · exact defined_ok _
    · exact readArgument_defined _ _ _
    · exact readArgument_defined _ _ _
    · exact readArgument_defined _ _ _
    · exact readArgument_defined _ _ _
    · exact defined_parseError

end Heads

/-! ## Skipping a value -/

section Skipping

variable {data : List UInt8} {pos pos' level levels : Nat}

/-- The branches of `skip_value` below its limit, with the array and the map as loops over the
items that they hold. -/
theorem skipLevels_succ :
    skipLevels data (levels + 1) pos = (do
      let head ← readHead data pos
      if head.majorType = 0 ∨ head.majorType = 1 ∨ head.majorType = 7 then .ok head.pos
      else if head.majorType = 2 ∨ head.majorType = 3 then
        if head.argument > data.length - head.pos then parseError
        else .ok (head.pos + head.argument)
      else
        match nested head.majorType head.argument with
        | some count => times (skipLevels data levels) count head.pos
        | none => parseError) := by
  rw [skipLevels]
  congr 1
  funext head
  obtain ⟨mt, arg, p⟩ := head
  match mt with
  | 0 | 1 | 2 | 3 | 4 | 7 => rfl
  | 5 => exact times_twice (skipLevels data levels) arg p
  | 6 => exact (times_one (skipLevels data levels) p).symm
  | n + 8 => rfl

theorem foldl_add_length (items : List (List UInt8)) (pos : Nat) :
    items.foldl (fun p item => p + item.length) pos = pos + items.flatten.length := by
  induction items generalizing pos with
  | nil => rfl
  | cons item items ih =>
    rw [List.foldl_cons, ih, List.flatten_cons, List.length_append, Nat.add_assoc]

theorem skipLevels_defined (levels pos : Nat) : Defined (skipLevels data levels pos) := by
  induction levels generalizing pos with
  | zero => exact defined_parseError
  | succ levels ih =>
    rw [skipLevels_succ]
    refine readHead_defined.bind fun head _ => ?_
    split_ifs
    · exact defined_ok _
    · exact defined_parseError
    · exact defined_ok _
    · split
      · exact times_defined ih _ _
      · exact defined_parseError

theorem skipValue_defined (pos depth : Nat) : Defined (skipValue data pos depth) :=
  skipLevels_defined _ _

/-- `skip_value` skips one item. -/
theorem skipLevels_eq_ok (h : levels + level = 33) :
    skipLevels data levels pos = .ok pos' ↔
      ∃ item, IsLoose 32 level item ∧ Spans data pos item pos' := by
  induction levels generalizing level pos pos' with
  | zero =>
    refine iff_of_false parseError_ne_ok ?_
    rintro ⟨item, hitem, -⟩
    have := hitem.level_le
    omega
  | succ levels ih =>
    have hlevel : level ≤ 32 := by omega
    have hloop {count pos pos' : Nat} :
        times (skipLevels data levels) count pos = .ok pos' ↔
          ∃ items : List (List UInt8), items.length = count ∧
            (∀ item ∈ items, IsLoose 32 (level + 1) item) ∧ Spans data pos items.flatten pos' := by
      have hturn (p p' : Nat) : skipLevels data levels p = .ok p' ↔
          ∃ item, IsLoose 32 (level + 1) item ∧ Spans data p item p' ∧ p' = p + item.length := by
        rw [@ih p p' (level + 1) (by omega)]
        exact exists_congr fun item => and_congr_right fun _ =>
          (and_iff_left_of_imp Spans.pos_eq).symm
      rw [times_eq_ok hturn fun _ _ => rfl]
      refine exists_congr fun items => ?_
      rw [List.map_id']
      refine and_congr_right fun _ => and_congr_right fun _ => and_iff_left_of_imp fun hspan => ?_
      exact hspan.pos_eq.trans (foldl_add_length items pos).symm
    rw [skipLevels_succ, bind_eq_ok]
    constructor
    · rintro ⟨head, hread, h⟩
      obtain ⟨bytes, hhead, hspan⟩ := readHead_eq_ok.mp hread
      split_ifs at h with hatom hstring hlong
      · obtain rfl := Except.ok.inj h
        exact ⟨bytes, .atom hlevel hatom hhead fun _ => trivial, hspan⟩
      · cases h
      · obtain rfl := Except.ok.inj h
        have hdata := spans_of_le (Nat.le_of_not_lt hlong)
        refine ⟨_, .string hlevel hstring ?_, spans_append.mpr ⟨_, hspan, hdata⟩⟩
        rw [List.length_take, List.length_drop, Nat.min_eq_left (Nat.le_of_not_lt hlong)]
        exact hhead
      · split at h
        · next count hcount =>
          obtain ⟨items, rfl, hitems, hspans⟩ := hloop.mp h
          exact ⟨_, .nest hlevel hhead hcount hitems, spans_append.mpr ⟨_, hspan, hspans⟩⟩
        · cases h
    · rintro ⟨item, hitem, hspan⟩
      cases hitem with
      | atom _ hmajor hhead =>
        exact ⟨⟨_, _, pos'⟩, readHead_eq_ok.mpr ⟨_, hhead, hspan⟩, if_pos hmajor⟩
      | string _ hmajor hhead =>
        obtain ⟨mid, hspan, hdata⟩ := spans_append.mp hspan
        refine ⟨⟨_, _, mid⟩, readHead_eq_ok.mpr ⟨_, hhead, hspan⟩, ?_⟩
        dsimp only
        rw [if_neg (by omega), if_pos hmajor, if_neg (Nat.not_lt_of_le hdata.length_le),
          hdata.pos_eq]
      | nest _ hhead hcount hitems =>
        obtain ⟨mid, hspan, hdata⟩ := spans_append.mp hspan
        have hmajor := nested_eq_some hcount
        refine ⟨⟨_, _, mid⟩, readHead_eq_ok.mpr ⟨_, hhead, hspan⟩, ?_⟩
        dsimp only
        rw [if_neg (by omega), if_neg (by omega), hcount]
        exact hloop.mpr ⟨_, rfl, hitems, hdata⟩

/-- `skip_value` succeeds where a loose item stands, and goes to its end. -/
theorem skipValue_eq_ok {depth : Nat} :
    skipValue data pos depth = .ok pos' ↔
      ∃ item, IsLoose 32 depth item ∧ Spans data pos item pos' := by
  by_cases h : depth ≤ 32
  · exact skipLevels_eq_ok (by simp only [cborMaxDepth]; omega)
  · have hlevels : cborMaxDepth + 1 - depth = 0 := by simp only [cborMaxDepth]; omega
    rw [skipValue, hlevels]
    exact iff_of_false parseError_ne_ok fun ⟨_, hitem, _⟩ => h hitem.level_le

end Skipping

/-! ## The entries of a key -/

/-- An entry of a map whose keys are integers. -/
structure KeyEntry where
  majorType : Nat
  argument : Nat
  head : List UInt8
  value : List UInt8

namespace KeyEntry

def bytes (e : KeyEntry) : List UInt8 := e.head ++ e.value

/-- The integer that the label denotes. -/
def label (e : KeyEntry) : Int := if e.majorType = 0 then e.argument else -(1 + e.argument)

/-- The 64-bit number that the label is folded into. -/
def folded (e : KeyEntry) : Int :=
  if e.majorType = 0 then toInt64 e.argument else -toInt64 (1 + e.argument)

/-- The label is the head of an integer. -/
structure IsLabelled (e : KeyEntry) : Prop where
  integer : e.majorType = 0 ∨ e.majorType = 1
  isHead : IsHead e.majorType e.argument e.head

/-- The entry is an integer and an item. -/
structure IsEntry (e : KeyEntry) : Prop extends e.IsLabelled where
  isItem : IsLoose 32 0 e.value

end KeyEntry

/-- The value is a byte string that is a coordinate. -/
def IsCoordinate (coordinate value : List UInt8) : Prop :=
  ∃ head, IsHead 2 32 head ∧ coordinate.length = 32 ∧ value = head ++ coordinate

/-- The value is what a key of the curve has under a label. -/
def FitsLabel (label : Int) (value : List UInt8) : Prop :=
  if label = -2 ∨ label = -3 then ∃ coordinate, IsCoordinate coordinate value
  else if label = 1 then IsHead 0 2 value
  else if label = -1 then IsHead 0 1 value
  else IsLoose 32 0 value

/-- The entry is read without a stop: its label is not the least number of 64 bits, and its
value is what the folded label asks for. -/
structure KeyEntry.Readable (e : KeyEntry) : Prop extends e.IsLabelled where
  label_ne : e.label ≠ -2 ^ 63
  fits : FitsLabel e.folded e.value

/-- A map of so many entries begins at an offset, and the first of them are these. -/
def StartsMap (data : List UInt8) (pos count : Nat) (entries : List KeyEntry) (pos' : Nat) :
    Prop :=
  ∃ head, IsHead 5 count head ∧
    Spans data pos (head ++ (entries.map KeyEntry.bytes).flatten) pos'

/-- What the loop keeps of the value under a folded label. -/
def KeyScan.store (s : KeyScan) (key : Int) (value : List UInt8) (pos : Nat) : KeyScan where
  pos
  out.x := if key = -2 then value.rtake 32 else s.out.x
  out.y := if key = -3 then value.rtake 32 else s.out.y
  haveX := s.haveX || key = -2
  haveY := s.haveY || key = -3
  haveKty := s.haveKty || key = 1
  haveCrv := s.haveCrv || key = -1

def KeyScan.take (s : KeyScan) (e : KeyEntry) : KeyScan :=
  s.store e.folded e.value (s.pos + e.bytes.length)

section Entries

variable {data coordinate value : List UInt8} {pos pos' : Nat} {s s' : KeyScan} {e : KeyEntry}

theorem IsCoordinate.rtake_eq (h : IsCoordinate coordinate value) :
    value.rtake 32 = coordinate := by
  obtain ⟨head, -, hlength, rfl⟩ := h
  rw [List.rtake, List.length_append, hlength, Nat.add_sub_cancel, List.drop_left]

theorem IsCoordinate.isLoose (h : IsCoordinate coordinate value) : IsLoose 32 0 value := by
  obtain ⟨head, hhead, hlength, rfl⟩ := h
  refine .string (by omega) (Or.inl rfl) ?_
  rw [hlength]
  exact hhead

theorem FitsLabel.isLoose {label : Int} (h : FitsLabel label value) : IsLoose 32 0 value := by
  unfold FitsLabel at h
  split_ifs at h
  · obtain ⟨coordinate, h⟩ := h
    exact h.isLoose
  · exact .atom (by omega) (Or.inl rfl) h fun _ => trivial
  · exact .atom (by omega) (Or.inl rfl) h fun _ => trivial
  · exact h

theorem KeyEntry.Readable.isEntry (h : e.Readable) : e.IsEntry :=
  ⟨h.toIsLabelled, h.fits.isLoose⟩

theorem readCoordinate_defined (pos : Nat) : Defined (readCoordinate data pos) := by
  refine readHead_defined.bind fun head _ => ?_
  split_ifs with hhead hlong
  · exact defined_parseError
  · exact defined_parseError
  · exact (bytesAt_defined (by omega)).bind fun _ _ => defined_ok _

theorem readCoordinate_eq_ok :
    readCoordinate data pos = .ok (coordinate, pos') ↔
      ∃ value, IsCoordinate coordinate value ∧ Spans data pos value pos' := by
  rw [readCoordinate, bind_eq_ok]
  constructor
  · rintro ⟨head, hread, h⟩
    obtain ⟨bytes, hhead, hspan⟩ := readHead_eq_ok.mp hread
    split_ifs at h with hne hlong
    · cases h
    · cases h
    · obtain ⟨hmajor, harg⟩ := not_or.mp hne
      rw [not_not] at hmajor harg
      rw [bytesAt_of_le (by omega)] at h
      obtain ⟨rfl, rfl⟩ := Prod.mk.inj (Except.ok.inj h)
      rw [hmajor, harg] at hhead
      refine ⟨_, ⟨bytes, hhead, ?_, rfl⟩,
        spans_append.mpr ⟨_, hspan, spans_of_le (Nat.le_of_not_lt hlong)⟩⟩
      rw [List.length_take, List.length_drop]
      omega
  · rintro ⟨-, ⟨bytes, hhead, hlength, rfl⟩, hspan⟩
    obtain ⟨mid, hspan, hdata⟩ := spans_append.mp hspan
    have hlong := hdata.length_le
    have htake := hdata.take_eq
    have hend := hdata.pos_eq
    rw [hlength] at htake hend hlong
    refine ⟨⟨2, 32, mid⟩, readHead_eq_ok.mpr ⟨bytes, hhead, hspan⟩, ?_⟩
    dsimp only
    rw [if_neg (by omega), if_neg (by omega), bytesAt_of_le (by omega), htake, ← hend]
    rfl

theorem readExpected_defined (pos value : Nat) : Defined (readExpected data pos value) := by
  refine readHead_defined.bind fun head _ => ?_
  split_ifs
  · exact defined_parseError
  · exact defined_ok _

theorem readExpected_eq_ok {number : Nat} :
    readExpected data pos number = .ok pos' ↔
      ∃ value, IsHead 0 number value ∧ Spans data pos value pos' := by
  rw [readExpected, bind_eq_ok]
  constructor
  · rintro ⟨head, hread, h⟩
    obtain ⟨bytes, hhead, hspan⟩ := readHead_eq_ok.mp hread
    split_ifs at h with hne
    · cases h
    · obtain ⟨hmajor, harg⟩ := not_or.mp hne
      rw [not_not] at hmajor harg
      obtain rfl := Except.ok.inj h
      rw [hmajor, harg] at hhead
      exact ⟨bytes, hhead, hspan⟩
  · rintro ⟨bytes, hhead, hspan⟩
    exact ⟨⟨0, number, pos'⟩, readHead_eq_ok.mpr ⟨bytes, hhead, hspan⟩,
      if_neg (not_or.mpr ⟨not_not.mpr rfl, not_not.mpr rfl⟩)⟩

/-- The label of an entry is folded, but for the one that overflows. -/
theorem KeyEntry.IsLabelled.coseLabel_eq (h : e.IsLabelled) :
    coseLabel e.majorType e.argument =
      if e.label = -2 ^ 63 then .error .signedOverflow else .ok e.folded := by
  have harg := h.isHead.arg_lt
  obtain hmajor | hmajor := h.integer
  · rw [coseLabel, if_pos hmajor, KeyEntry.label, if_pos hmajor, KeyEntry.folded, if_pos hmajor,
      if_neg (by omega)]
  · have hne : e.majorType ≠ 0 := by omega
    have hleast : toInt64 (1 + e.argument) = -2 ^ 63 ↔ -(1 + (e.argument : Int)) = -2 ^ 63 := by
      unfold toInt64 Int.bmod
      norm_num
      split_ifs <;> omega
    rw [coseLabel, if_neg hne, KeyEntry.label, if_neg hne, KeyEntry.folded, if_neg hne]
    exact if_congr hleast rfl rfl

theorem readKeyValue_defined (key : Int) (pos : Nat) : Defined (readKeyValue data s key pos) := by
  unfold readKeyValue
  split_ifs
  · exact (readCoordinate_defined pos).bind fun _ _ => defined_ok _
  · exact (readCoordinate_defined pos).bind fun _ _ => defined_ok _
  · exact (readExpected_defined pos 2).bind fun _ _ => defined_ok _
  · exact (readExpected_defined pos 1).bind fun _ _ => defined_ok _
  · exact (skipValue_defined pos 0).bind fun _ _ => defined_ok _

/-- What is stored of a coordinate that is read. -/
theorem readCoordinate_stored {f : List UInt8 → Nat → KeyScan} (hf : ∀ x p, (f x p).pos = p) :
    (do
      let (x, p) ← readCoordinate data pos
      .ok (f x p)) = .ok s' ↔
      ∃ value, (∃ x, IsCoordinate x value) ∧ Spans data pos value s'.pos ∧
        s' = f (value.rtake 32) s'.pos := by
  rw [bind_eq_ok]
  constructor
  · rintro ⟨⟨x, p⟩, hread, h⟩
    obtain ⟨value, hvalue, hspan⟩ := readCoordinate_eq_ok.mp hread
    obtain rfl := Except.ok.inj h
    rw [hf]
    exact ⟨value, ⟨x, hvalue⟩, hspan, by rw [hvalue.rtake_eq]⟩
  · rintro ⟨value, ⟨x, hvalue⟩, hspan, hs'⟩
    rw [hvalue.rtake_eq] at hs'
    exact ⟨(x, s'.pos), readCoordinate_eq_ok.mpr ⟨value, hvalue, hspan⟩, congrArg _ hs'.symm⟩

/-- What is stored of a value of which only the end is kept. -/
theorem read_stored {r : Reads Nat} {fits : List UInt8 → Prop} {f : Nat → KeyScan}
    (hr : ∀ p, r = .ok p ↔ ∃ value, fits value ∧ Spans data pos value p)
    (hf : ∀ p, (f p).pos = p) :
    (do
      let p ← r
      .ok (f p)) = .ok s' ↔
      ∃ value, fits value ∧ Spans data pos value s'.pos ∧ s' = f s'.pos := by
  rw [bind_eq_ok]
  constructor
  · rintro ⟨p, hread, h⟩
    obtain ⟨value, hvalue, hspan⟩ := (hr p).mp hread
    obtain rfl := Except.ok.inj h
    rw [hf]
    exact ⟨value, hvalue, hspan, rfl⟩
  · rintro ⟨value, hvalue, hspan, hs'⟩
    exact ⟨s'.pos, (hr _).mpr ⟨value, hvalue, hspan⟩, congrArg _ hs'.symm⟩

/-- The value of an entry is read where one that fits the label stands. -/
theorem readKeyValue_eq_ok {key : Int} :
    readKeyValue data s key pos = .ok s' ↔
      ∃ value, FitsLabel key value ∧ Spans data pos value s'.pos ∧
        s' = s.store key value s'.pos := by
  by_cases hx : key = -2
  · subst hx
    rw [readKeyValue, if_pos rfl,
      readCoordinate_stored (f := fun x p => { s with pos := p, out.x := x, haveX := true })
        fun _ _ => rfl]
    simp [FitsLabel, KeyScan.store]
  by_cases hy : key = -3
  · subst hy
    rw [readKeyValue, if_neg (by omega), if_pos rfl,
      readCoordinate_stored (f := fun y p => { s with pos := p, out.y := y, haveY := true })
        fun _ _ => rfl]
    simp [FitsLabel, KeyScan.store]
  by_cases hkty : key = 1
  · subst hkty
    rw [readKeyValue, if_neg (by omega), if_neg (by omega), if_pos rfl,
      read_stored (fun _ => readExpected_eq_ok) fun _ => rfl]
    simp [FitsLabel, KeyScan.store]
  by_cases hcrv : key = -1
  · subst hcrv
    rw [readKeyValue, if_neg (by omega), if_neg (by omega), if_neg (by omega), if_pos rfl,
      read_stored (fun _ => readExpected_eq_ok) fun _ => rfl]
    simp [FitsLabel, KeyScan.store]
  · rw [readKeyValue, if_neg hx, if_neg hy, if_neg hkty, if_neg hcrv,
      read_stored (fun _ => skipValue_eq_ok) fun _ => rfl]
    simp [FitsLabel, KeyScan.store, hx, hy, hkty, hcrv]

/-- An entry is read where a readable one stands. -/
theorem readKeyEntry_eq_ok :
    readKeyEntry data s = .ok s' ↔
      ∃ e : KeyEntry, e.Readable ∧ Spans data s.pos e.bytes s'.pos ∧ s' = s.take e := by
  rw [readKeyEntry, bind_eq_ok]
  constructor
  · rintro ⟨head, hread, h⟩
    obtain ⟨bytes, hhead, hspan⟩ := readHead_eq_ok.mp hread
    split_ifs at h with hne
    · cases h
    · obtain ⟨key, hkey, h⟩ := bind_eq_ok.mp h
      obtain ⟨value, hfits, hvalue, hs'⟩ := readKeyValue_eq_ok.mp h
      have hlabelled : KeyEntry.IsLabelled ⟨head.majorType, head.argument, bytes, value⟩ :=
        ⟨by dsimp only; omega, hhead⟩
      have hlabel := hlabelled.coseLabel_eq
      rw [hkey] at hlabel
      split_ifs at hlabel with hleast
      obtain rfl := Except.ok.inj hlabel
      have hspans := spans_append.mpr ⟨_, hspan, hvalue⟩
      refine ⟨_, ⟨hlabelled, hleast, hfits⟩, hspans, ?_⟩
      rw [KeyScan.take, KeyEntry.bytes, ← hspans.pos_eq]
      exact hs'
  · rintro ⟨e, he, hspan, hs'⟩
    have hend := hspan.pos_eq
    obtain ⟨mid, hhead, hvalue⟩ := spans_append.mp hspan
    refine ⟨⟨_, _, mid⟩, readHead_eq_ok.mpr ⟨_, he.isHead, hhead⟩, ?_⟩
    have hinteger : ¬ (e.majorType ≠ 0 ∧ e.majorType ≠ 1) := by
      have := he.integer
      omega
    dsimp only
    rw [if_neg hinteger, he.coseLabel_eq, if_neg he.label_ne]
    refine readKeyValue_eq_ok.mpr ⟨e.value, he.fits, hvalue, ?_⟩
    rw [hend]
    exact hs'

/-- The head of the label -2⁶³ stands at the offset. -/
def LeastLabelAt (data : List UInt8) (pos : Nat) : Prop :=
  ∃ bytes pos', IsHead 1 (2 ^ 63 - 1) bytes ∧ Spans data pos bytes pos'

theorem KeyEntry.IsLabelled.label_eq_least (h : e.IsLabelled) :
    e.label = -2 ^ 63 ↔ e.majorType = 1 ∧ e.argument = 2 ^ 63 - 1 := by
  unfold KeyEntry.label
  obtain hmajor | hmajor := h.integer <;> rw [hmajor]
  · omega
  · rw [if_neg one_ne_zero]
    omega

theorem readKeyEntry_eq_signedOverflow :
    readKeyEntry data s = .error .signedOverflow ↔ LeastLabelAt data s.pos := by
  rw [readKeyEntry, bind_eq_error, or_iff_right readHead_defined.2]
  constructor
  · rintro ⟨head, hread, h⟩
    obtain ⟨bytes, hhead, hspan⟩ := readHead_eq_ok.mp hread
    split_ifs at h with hne
    · cases h
    · have hlabelled : KeyEntry.IsLabelled ⟨head.majorType, head.argument, bytes, []⟩ :=
        ⟨by dsimp only; omega, hhead⟩
      obtain h | ⟨key, -, h⟩ := bind_eq_error.mp h
      · have hlabel := hlabelled.coseLabel_eq
        rw [h] at hlabel
        split_ifs at hlabel with hleast
        obtain ⟨hmajor, harg⟩ := hlabelled.label_eq_least.mp hleast
        dsimp only at hmajor harg
        rw [hmajor, harg] at hhead
        exact ⟨bytes, head.pos, hhead, hspan⟩
      · exact absurd h (readKeyValue_defined _ _).2
  · rintro ⟨bytes, mid, hhead, hspan⟩
    have hlabelled : KeyEntry.IsLabelled ⟨1, 2 ^ 63 - 1, bytes, []⟩ := ⟨Or.inr rfl, hhead⟩
    have hlabel := hlabelled.coseLabel_eq
    rw [if_pos (hlabelled.label_eq_least.mpr ⟨rfl, rfl⟩)] at hlabel
    refine ⟨⟨1, 2 ^ 63 - 1, mid⟩, readHead_eq_ok.mpr ⟨bytes, hhead, hspan⟩, ?_⟩
    exact bind_eq_error.mpr (Or.inl hlabel)

theorem coseLabel_ne_outOfBounds (majorType argument : Nat) :
    coseLabel majorType argument ≠ .error .outOfBounds := by
  unfold coseLabel
  split_ifs <;> nofun

theorem readKeyEntry_ne_outOfBounds : readKeyEntry data s ≠ .error .outOfBounds := by
  intro h
  obtain h | ⟨head, -, h⟩ := bind_eq_error.mp h
  · exact readHead_defined.1 h
  · split_ifs at h
    · cases h
    · obtain h | ⟨key, -, h⟩ := bind_eq_error.mp h
      · exact coseLabel_ne_outOfBounds _ _ h
      · exact (readKeyValue_defined key head.pos).1 h

end Entries

/-! ## The whole key -/

/-- The last entry that folds to a label. -/
def lastFolded (entries : List KeyEntry) (label : Int) : Option KeyEntry :=
  (entries.filter fun e => e.folded = label).getLast?

/-- The entries have what the loop asks for at its end, and leave the key. -/
structure LeaveKey (entries : List KeyEntry) (key : P256Key) : Prop where
  kty : ∃ e ∈ entries, e.folded = 1
  crv : ∃ e ∈ entries, e.folded = -1
  x : ∃ e, lastFolded entries (-2) = some e ∧ e.value.rtake 32 = key.x
  y : ∃ e, lastFolded entries (-3) = some e ∧ e.value.rtake 32 = key.y

section Keys

variable {data : List UInt8} {pos pos' : Nat} {out key : P256Key} {entries : List KeyEntry}

theorem lastFolded_concat (entries : List KeyEntry) (e : KeyEntry) (label : Int) :
    lastFolded (entries ++ [e]) label =
      if e.folded = label then some e else lastFolded entries label := by
  unfold lastFolded
  split_ifs with h <;> simp [h]

/-- What the loop has kept after the entries. -/
theorem foldl_take (s : KeyScan) (entries : List KeyEntry) :
    entries.foldl KeyScan.take s =
      { pos := s.pos + (entries.map KeyEntry.bytes).flatten.length
        out.x := ((lastFolded entries (-2)).map fun e => e.value.rtake 32).getD s.out.x
        out.y := ((lastFolded entries (-3)).map fun e => e.value.rtake 32).getD s.out.y
        haveX := s.haveX || entries.any fun e => e.folded = -2
        haveY := s.haveY || entries.any fun e => e.folded = -3
        haveKty := s.haveKty || entries.any fun e => e.folded = 1
        haveCrv := s.haveCrv || entries.any fun e => e.folded = -1 } := by
  induction entries using List.reverseRecOn with
  | nil => simp [lastFolded]
  | append_singleton entries e ih =>
    have hlast (label : Int) (d : List UInt8) :
        ((lastFolded (entries ++ [e]) label).map fun e => e.value.rtake 32).getD d =
          if e.folded = label then e.value.rtake 32
          else ((lastFolded entries label).map fun e => e.value.rtake 32).getD d := by
      rw [lastFolded_concat]
      split_ifs <;> rfl
    rw [List.foldl_append, ih, hlast, hlast]
    simp [KeyScan.take, KeyScan.store, Nat.add_assoc, Bool.or_assoc]

theorem any_folded (entries : List KeyEntry) (label : Int) :
    (entries.any fun e => e.folded = label) = (lastFolded entries label).isSome := by
  induction entries using List.reverseRecOn with
  | nil => rfl
  | append_singleton entries e ih =>
    rw [lastFolded_concat, List.any_append, ih]
    split_ifs with h <;> simp [h]

theorem lastFolded_mem {e : KeyEntry} {label : Int} (h : lastFolded entries label = some e) :
    e ∈ entries ∧ e.folded = label := by
  have := List.mem_of_getLast? h
  simpa using this

theorem exists_folded {label : Int} :
    (∃ e ∈ entries, e.folded = label) ↔ (lastFolded entries label).isSome := by
  rw [← any_folded, List.any_eq_true]
  simp

/-- The test behind the loop. -/
theorem keyTest_eq_ok {p : Nat} {s : KeyScan} (hs : s = entries.foldl KeyScan.take (.start p out)) :
    (if !s.haveX || !s.haveY || !s.haveKty || !s.haveCrv then parseError
      else .ok (s.out, s.pos) : Reads (P256Key × Nat)) = .ok (key, pos') ↔
      LeaveKey entries key ∧ pos' = s.pos := by
  rw [foldl_take] at hs
  simp only [KeyScan.start, Bool.false_or, any_folded] at hs
  subst hs
  constructor
  · intro h
    split_ifs at h with hmissing
    · cases h
    · obtain ⟨rfl, rfl⟩ := Prod.mk.inj (Except.ok.inj h)
      simp only [Bool.or_eq_true, Bool.not_eq_true', not_or, Bool.not_eq_false] at hmissing
      obtain ⟨⟨⟨hx, hy⟩, hkty⟩, hcrv⟩ := hmissing
      obtain ⟨ex, hx⟩ := Option.isSome_iff_exists.mp hx
      obtain ⟨ey, hy⟩ := Option.isSome_iff_exists.mp hy
      refine ⟨⟨exists_folded.mpr hkty, exists_folded.mpr hcrv, ⟨ex, hx, ?_⟩, ⟨ey, hy, ?_⟩⟩, rfl⟩
      · rw [hx]; rfl
      · rw [hy]; rfl
  · rintro ⟨⟨hkty, hcrv, ⟨ex, hx, hkx⟩, ⟨ey, hy, hky⟩⟩, rfl⟩
    rw [exists_folded] at hkty hcrv
    rw [hx, hy, hkty, hcrv, if_neg (by simp)]
    simp only [Option.map_some, Option.getD_some, hkx, hky]

/-- The loop over the entries, with the test behind it. -/
theorem keyLoop_eq_ok {count p : Nat} :
    (do
      let s ← times (readKeyEntry data) count (.start p out)
      if !s.haveX || !s.haveY || !s.haveKty || !s.haveCrv then parseError
      else .ok (s.out, s.pos)) = .ok (key, pos') ↔
      ∃ entries : List KeyEntry, entries.length = count ∧ (∀ e ∈ entries, e.Readable) ∧
        Spans data p (entries.map KeyEntry.bytes).flatten pos' ∧ LeaveKey entries key := by
  rw [bind_eq_ok]
  constructor
  · rintro ⟨s, hs, h⟩
    obtain ⟨entries, hlength, hentries, hspan, hs⟩ :=
      (times_eq_ok (fun _ _ => readKeyEntry_eq_ok) fun _ _ => rfl).mp hs
    obtain ⟨hkey, rfl⟩ := (keyTest_eq_ok hs).mp h
    exact ⟨entries, hlength, hentries, hspan, hkey⟩
  · rintro ⟨entries, hlength, hentries, hspan, hkey⟩
    have hend : pos' = (entries.foldl KeyScan.take (.start p out)).pos := by
      rw [foldl_take]
      exact hspan.pos_eq
    refine ⟨entries.foldl KeyScan.take (.start p out), ?_, (keyTest_eq_ok rfl).mpr ⟨hkey, hend⟩⟩
    refine (times_eq_ok (fun _ _ => readKeyEntry_eq_ok) fun _ _ => rfl).mpr
      ⟨entries, hlength, hentries, ?_, rfl⟩
    rw [← hend]
    exact hspan

/-- A key is accepted where readable entries have all that is asked for. -/
theorem parseCoseP256Key_eq_ok :
    parseCoseP256Key data pos out = .ok (key, pos') ↔
      ∃ entries : List KeyEntry, (∀ e ∈ entries, e.Readable) ∧
        StartsMap data pos entries.length entries pos' ∧ LeaveKey entries key := by
  rw [parseCoseP256Key, bind_eq_ok]
  constructor
  · rintro ⟨head, hread, h⟩
    obtain ⟨bytes, hhead, hspan⟩ := readHead_eq_ok.mp hread
    split_ifs at h with hne
    · cases h
    · obtain ⟨entries, hlength, hentries, hspans, hkey⟩ := keyLoop_eq_ok.mp h
      rw [not_not] at hne
      rw [hne, ← hlength] at hhead
      exact ⟨entries, hentries, ⟨bytes, hhead, spans_append.mpr ⟨_, hspan, hspans⟩⟩, hkey⟩
  · rintro ⟨entries, hentries, ⟨bytes, hhead, hspan⟩, hkey⟩
    obtain ⟨mid, hspan, hspans⟩ := spans_append.mp hspan
    refine ⟨⟨5, entries.length, mid⟩, readHead_eq_ok.mpr ⟨bytes, hhead, hspan⟩, ?_⟩
    exact keyLoop_eq_ok.mpr ⟨entries, rfl, hentries, hspans, hkey⟩

/-- Behind readable entries of a map at the offset, and before its end, stands the label
-2⁶³. -/
def ReachesLeastLabel (data : List UInt8) (pos : Nat) : Prop :=
  ∃ count mid, ∃ entries : List KeyEntry, (∀ e ∈ entries, e.Readable) ∧
    entries.length < count ∧ StartsMap data pos count entries mid ∧ LeastLabelAt data mid

theorem parseCoseP256Key_ne_outOfBounds :
    parseCoseP256Key data pos out ≠ .error .outOfBounds := by
  intro h
  obtain h | ⟨head, -, h⟩ := bind_eq_error.mp h
  · exact readHead_defined.1 h
  · split_ifs at h
    · cases h
    · obtain h | ⟨s, -, h⟩ := bind_eq_error.mp h
      · obtain ⟨k, -, s, -, h⟩ := times_eq_error.mp h
        exact readKeyEntry_ne_outOfBounds h
      · split_ifs at h
        cases h

/-- The one overflow is that of the label -2⁶³. -/
theorem parseCoseP256Key_eq_signedOverflow :
    parseCoseP256Key data pos out = .error .signedOverflow ↔ ReachesLeastLabel data pos := by
  rw [parseCoseP256Key, bind_eq_error, or_iff_right readHead_defined.2]
  constructor
  · rintro ⟨head, hread, h⟩
    obtain ⟨bytes, hhead, hspan⟩ := readHead_eq_ok.mp hread
    split_ifs at h with hne
    · cases h
    · obtain h | ⟨s, -, h⟩ := bind_eq_error.mp h
      · obtain ⟨k, hk, s, hs, h⟩ := times_eq_error.mp h
        obtain ⟨entries, rfl, hentries, hspans, -⟩ :=
          (times_eq_ok (fun _ _ => readKeyEntry_eq_ok) fun _ _ => rfl).mp hs
        rw [not_not] at hne
        rw [hne] at hhead
        exact ⟨head.argument, s.pos, entries, hentries, hk,
          ⟨bytes, hhead, spans_append.mpr ⟨_, hspan, hspans⟩⟩,
          readKeyEntry_eq_signedOverflow.mp h⟩
      · split_ifs at h
        cases h
  · rintro ⟨count, mid, entries, hentries, hlength, ⟨bytes, hhead, hspan⟩, hleast⟩
    obtain ⟨start, hspan, hspans⟩ := spans_append.mp hspan
    have hend : mid = (entries.foldl KeyScan.take (.start start out)).pos := by
      rw [foldl_take]
      exact hspans.pos_eq
    rw [hend] at hspans hleast
    refine ⟨⟨5, count, start⟩, readHead_eq_ok.mpr ⟨bytes, hhead, hspan⟩, ?_⟩
    refine bind_eq_error.mpr (Or.inl (times_eq_error.mpr ⟨entries.length, hlength, _, ?_,
      readKeyEntry_eq_signedOverflow.mpr hleast⟩))
    exact (times_eq_ok (fun _ _ => readKeyEntry_eq_ok) fun _ _ => rfl).mpr
      ⟨entries, rfl, hentries, hspans, rfl⟩

theorem parseCoseP256Key_defined_iff :
    Defined (parseCoseP256Key data pos out) ↔ ¬ ReachesLeastLabel data pos := by
  rw [Defined, and_iff_right parseCoseP256Key_ne_outOfBounds, ne_eq,
    parseCoseP256Key_eq_signedOverflow]

/-- Where the public key begins in authenticator data that have one. -/
def publicKeyPos (data : List UInt8) : Option Nat :=
  if data.length < 55 then none
  else if data[32]?.getD 0 &&& flagAt = 0 then none
  else if 55 + ofBytes ((data.drop 53).take 2) > data.length then none
  else some (55 + ofBytes ((data.drop 53).take 2))

/-- The tests before the key, taken together. -/
theorem parseRegistrationAuthData_eq (allocated : Bool) :
    parseRegistrationAuthData data allocated =
      match publicKeyPos data with
      | none => parseError
      | some keyPos =>
        if !allocated then .error (.status .alloc)
        else (do
          let (publicKey, _) ← parseCoseP256Key data keyPos .zero
          .ok ⟨data.take 32, data[32]?.getD 0, ofBytes ((data.drop 33).take 4),
            (data.drop 55).take (keyPos - 55), publicKey⟩) := by
  by_cases h37 : data.length < 37
  · rw [parseRegistrationAuthData, if_pos h37, publicKeyPos, if_pos (by omega)]
  rw [parseRegistrationAuthData, if_neg h37, bytesAt_of_le (by omega), bytesAt_of_le (by omega),
    byteAt, List.getElem?_eq_getElem (by omega), publicKeyPos, List.getElem?_eq_getElem (by omega)]
  simp only [Option.getD_some, ok_bind, List.drop_zero]
  by_cases h55 : data.length < 55
  · have hshort : 37 + 16 + 2 > data.length := h55
    rw [if_pos h55, if_pos hshort, ite_self]
  have hlong : ¬ 37 + 16 + 2 > data.length := h55
  rw [if_neg h55, if_neg hlong]
  by_cases hflag : data[32] &&& flagAt = 0
  · rw [if_pos hflag, if_pos hflag]
  rw [if_neg hflag, if_neg hflag, bytesAt_of_le (by omega), ok_bind]
  by_cases hid : 55 + ofBytes ((data.drop 53).take 2) > data.length
  · rw [if_pos hid, if_pos (by omega)]
  · rw [if_neg hid, if_neg (by omega), bytesAt_of_le (by omega)]
    simp only [ok_bind, Nat.add_sub_cancel_left]

/-- Reading the authenticator data is defined unless the key meets the overflow. -/
theorem parseRegistrationAuthData_defined_iff :
    (∀ allocated, Defined (parseRegistrationAuthData data allocated)) ↔
      ∀ keyPos, publicKeyPos data = some keyPos → ¬ ReachesLeastLabel data keyPos := by
  constructor
  · intro h keyPos hkeyPos hreach
    have hoverflow : parseCoseP256Key data keyPos .zero = .error .signedOverflow :=
      parseCoseP256Key_eq_signedOverflow.mpr hreach
    refine (h true).2 ?_
    rw [parseRegistrationAuthData_eq, hkeyPos]
    exact bind_eq_error.mpr (Or.inl hoverflow)
  · intro h allocated
    rw [parseRegistrationAuthData_eq]
    split
    · exact defined_parseError
    · next keyPos hkeyPos =>
      refine Defined.ite (fun _ => defined_status _) fun _ => ?_
      exact (parseCoseP256Key_defined_iff.mpr (h keyPos hkeyPos)).bind fun _ _ => defined_ok _

theorem readAttestationEntry_defined (s : AttestationScan) :
    Defined (readAttestationEntry data s) := by
  refine readHead_defined.bind fun key _ => ?_
  refine Defined.ite (fun _ => defined_parseError) fun _ => ?_
  refine Defined.ite (fun _ => defined_parseError) fun hlong => ?_
  refine Defined.bind (Defined.ite (fun _ => ?_) fun _ => defined_ok _) fun isAuthData _ => ?_
  · exact (bytesAt_defined (by omega)).bind fun _ _ => defined_ok _
  refine Defined.ite (fun _ => ?_) fun _ => ?_
  · refine readHead_defined.bind fun value _ => ?_
    refine Defined.ite (fun _ => defined_parseError) fun _ => ?_
    exact Defined.ite (fun _ => defined_parseError) fun _ => defined_ok _
  · exact (skipValue_defined _ _).bind fun _ _ => defined_ok _

theorem parseAttestationObject_defined : Defined (parseAttestationObject data) := by
  refine readHead_defined.bind fun head _ => ?_
  refine Defined.ite (fun _ => defined_parseError) fun _ => ?_
  refine (times_defined readAttestationEntry_defined _ _).bind fun s _ => ?_
  split
  · exact defined_ok _
  · exact defined_parseError

end Keys

/-! ## Labels that fall together -/

/-- The entry is the one of its label. -/
def OneUnder (entries : List KeyEntry) (label : Int) (e : KeyEntry) : Prop :=
  (entries.filter fun e => e.label = label) = [e]

/-- The entries are those of a key of the curve. -/
structure HoldsKey (entries : List KeyEntry) (key : P256Key) : Prop where
  kty : ∃ e, OneUnder entries 1 e ∧ IsHead 0 2 e.value
  crv : ∃ e, OneUnder entries (-1) e ∧ IsHead 0 1 e.value
  x : ∃ e, OneUnder entries (-2) e ∧ IsCoordinate key.x e.value
  y : ∃ e, OneUnder entries (-3) e ∧ IsCoordinate key.y e.value

/-- What reading the bytes at an offset, and the objects in the buffer, has to do. -/
structure ReadsCbor (data : List UInt8) (pos : Nat) : Prop where
  skip_defined : ∀ depth, Defined (skipValue data pos depth)
  skip_iff : ∀ depth pos', skipValue data pos depth = .ok pos' ↔
    ∃ item, IsWellFormed 32 depth item ∧ Spans data pos item pos'
  key_defined : ∀ out, Defined (parseCoseP256Key data pos out)
  key_accepted : ∀ out key pos', parseCoseP256Key data pos out = .ok (key, pos') →
    ∃ entries : List KeyEntry, (∀ e ∈ entries, e.IsEntry) ∧
      StartsMap data pos entries.length entries pos' ∧ HoldsKey entries key
  registration_defined : ∀ allocated, Defined (parseRegistrationAuthData data allocated)
  attestation_defined : Defined (parseAttestationObject data)

/-- The labels of a key of the curve. -/
def keyLabels : List Int := [1, -1, -2, -3]

/-- Where entries fold to a label, one of them has it, and the last has the same coordinate. -/
def FoldsApart (entries : List KeyEntry) (label : Int) : Prop :=
  ∃ e, OneUnder entries label e ∧ (label = -2 ∨ label = -3 →
    ∀ last, lastFolded entries label = some last → last.value.rtake 32 = e.value.rtake 32)

/-- Nothing in the buffer meets a defect of the reader. -/
structure PlainCbor (data : List UInt8) (pos : Nat) : Prop where
  simple : ∀ depth item pos', IsLoose 32 depth item → Spans data pos item pos' →
    IsWellFormed 32 depth item
  label : ¬ ReachesLeastLabel data pos
  folds : ∀ (entries : List KeyEntry) (pos' : Nat), (∀ e ∈ entries, e.Readable) →
    StartsMap data pos entries.length entries pos' →
    (∀ label ∈ keyLabels, ∃ e ∈ entries, e.folded = label) →
    ∀ label ∈ keyLabels, FoldsApart entries label
  credential : ∀ keyPos, publicKeyPos data = some keyPos → ¬ ReachesLeastLabel data keyPos

section Labels

variable {data : List UInt8} {pos pos' : Nat} {key : P256Key} {entries entries' : List KeyEntry}
  {e e' : KeyEntry}

/-- A label of a key folds to itself. -/
theorem KeyEntry.IsLabelled.folded_eq (h : e.IsLabelled) {label : Int} (hlabel : label ∈ keyLabels)
    (he : e.label = label) : e.folded = label := by
  have harg := h.isHead.arg_lt
  have hbound : -3 ≤ label ∧ label ≤ 1 := by
    simp only [keyLabels, List.mem_cons, List.not_mem_nil, or_false] at hlabel
    omega
  unfold KeyEntry.label at he
  unfold KeyEntry.folded toInt64 Int.bmod
  obtain hmajor | hmajor := h.integer
  · rw [if_pos hmajor] at he ⊢
    norm_num
    split_ifs <;> omega
  · rw [if_neg (by omega)] at he ⊢
    norm_num
    split_ifs <;> omega

theorem OneUnder.mem {label : Int} (h : OneUnder entries label e) :
    e ∈ entries ∧ e.label = label := by
  have : e ∈ entries.filter fun e => e.label = label := by rw [h]; exact List.mem_singleton_self e
  simpa using this

theorem KeyEntry.IsEntry.unique (h : e.IsEntry) (h' : e'.IsEntry) {x y : List UInt8}
    (heq : e.bytes ++ x = e'.bytes ++ y) : e = e' := by
  obtain ⟨mt, arg, head, value⟩ := e
  obtain ⟨mt', arg', head', value'⟩ := e'
  simp only [KeyEntry.bytes, List.append_assoc] at heq
  obtain ⟨rfl, rfl, rfl, hvalues⟩ := h.isHead.unique h'.isHead heq
  obtain rfl := h.isItem.unique h'.isItem hvalues
  rfl

/-- The entries of a map can be read in one way. -/
theorem entries_unique {p p' : Nat} (h : ∀ e ∈ entries, e.IsEntry)
    (h' : ∀ e ∈ entries', e.IsEntry)
    (hmap : StartsMap data pos entries.length entries p)
    (hmap' : StartsMap data pos entries'.length entries' p') : entries = entries' := by
  obtain ⟨head, hhead, hspan⟩ := hmap
  obtain ⟨head', hhead', hspan'⟩ := hmap'
  obtain ⟨x, y, heq⟩ := hspan.exists_append_eq hspan'
  rw [List.append_assoc, List.append_assoc] at heq
  obtain ⟨-, hlength, -, hrest⟩ := hhead.unique hhead' heq
  exact flatten_map_unique hlength (fun a ha b hb x y hab => (h a ha).unique (h' b hb) hab) hrest

theorem exists_leaveKey (h : ∀ label ∈ keyLabels, ∃ e ∈ entries, e.folded = label) :
    ∃ key, LeaveKey entries key := by
  obtain ⟨ex, hx⟩ := Option.isSome_iff_exists.mp (exists_folded.mp (h (-2) (by decide)))
  obtain ⟨ey, hy⟩ := Option.isSome_iff_exists.mp (exists_folded.mp (h (-3) (by decide)))
  exact ⟨⟨_, _⟩, h 1 (by decide), h (-1) (by decide), ⟨ex, hx, rfl⟩, ⟨ey, hy, rfl⟩⟩

theorem LeaveKey.exists_folded (h : LeaveKey entries key) :
    ∀ label ∈ keyLabels, ∃ e ∈ entries, e.folded = label := by
  obtain ⟨ex, hx, -⟩ := h.x
  obtain ⟨ey, hy, -⟩ := h.y
  intro label hlabel
  simp only [keyLabels, List.mem_cons, List.not_mem_nil, or_false] at hlabel
  obtain rfl | rfl | rfl | rfl := hlabel
  · exact h.kty
  · exact h.crv
  · exact ⟨ex, lastFolded_mem hx⟩
  · exact ⟨ey, lastFolded_mem hy⟩

/-- The value of the one entry of a label is what a key has under it. -/
theorem OneUnder.fits {label : Int} (h : OneUnder entries label e) (hlabel : label ∈ keyLabels)
    (hentries : ∀ e ∈ entries, e.Readable) : FitsLabel label e.value := by
  have hread := hentries e h.mem.1
  rw [← hread.folded_eq hlabel h.mem.2]
  exact hread.fits

/-- Entries that leave a key hold it as far as their labels fold apart. -/
theorem LeaveKey.holds_iff (h : LeaveKey entries key) (hentries : ∀ e ∈ entries, e.Readable) :
    HoldsKey entries key ↔ ∀ label ∈ keyLabels, FoldsApart entries label := by
  obtain ⟨ex, hx, hkx⟩ := h.x
  obtain ⟨ey, hy, hky⟩ := h.y
  constructor
  · rintro ⟨⟨kty, hkty, -⟩, ⟨crv, hcrv, -⟩, ⟨x, honex, hvaluex⟩, ⟨y, honey, hvaluey⟩⟩ label hlabel
    simp only [keyLabels, List.mem_cons, List.not_mem_nil, or_false] at hlabel
    obtain rfl | rfl | rfl | rfl := hlabel
    · exact ⟨kty, hkty, by omega⟩
    · exact ⟨crv, hcrv, by omega⟩
    · refine ⟨x, honex, fun _ last hlast => ?_⟩
      obtain rfl := Option.some.inj (hx.symm.trans hlast)
      rw [hkx, hvaluex.rtake_eq]
    · refine ⟨y, honey, fun _ last hlast => ?_⟩
      obtain rfl := Option.some.inj (hy.symm.trans hlast)
      rw [hky, hvaluey.rtake_eq]
  · intro hfolds
    obtain ⟨kty, hkty, -⟩ := hfolds 1 (by decide)
    obtain ⟨crv, hcrv, -⟩ := hfolds (-1) (by decide)
    obtain ⟨x, honex, hlastx⟩ := hfolds (-2) (by decide)
    obtain ⟨y, honey, hlasty⟩ := hfolds (-3) (by decide)
    obtain ⟨cx, hcx⟩ : ∃ c, IsCoordinate c x.value := honex.fits (by decide) hentries
    obtain ⟨cy, hcy⟩ : ∃ c, IsCoordinate c y.value := honey.fits (by decide) hentries
    have hfitx : key.x = cx := by rw [← hkx, hlastx (Or.inl rfl) ex hx, hcx.rtake_eq]
    have hfity : key.y = cy := by rw [← hky, hlasty (Or.inr rfl) ey hy, hcy.rtake_eq]
    exact ⟨⟨kty, hkty, hkty.fits (by decide) hentries⟩, ⟨crv, hcrv, hcrv.fits (by decide) hentries⟩,
      ⟨x, honex, hfitx ▸ hcx⟩, ⟨y, honey, hfity ▸ hcy⟩⟩

/-- Reading does what it has to exactly where no defect of it is met. -/
theorem readsCbor_iff (data : List UInt8) (pos : Nat) :
    ReadsCbor data pos ↔ PlainCbor data pos := by
  constructor
  · intro h
    refine ⟨fun depth item pos' hitem hspan => ?_,
      parseCoseP256Key_defined_iff.mp (h.key_defined .zero),
      fun entries pos' hentries hmap hfolded => ?_,
      parseRegistrationAuthData_defined_iff.mp h.registration_defined⟩
    · obtain ⟨item', hitem', hspan'⟩ :=
        (h.skip_iff depth pos').mp (skipValue_eq_ok.mpr ⟨item, hitem, hspan⟩)
      obtain ⟨x, y, heq⟩ := hspan.exists_append_eq hspan'
      rw [hitem.unique hitem' heq]
      exact hitem'
    · obtain ⟨key, hkey⟩ := exists_leaveKey hfolded
      obtain ⟨entries', hentries', hmap', hholds⟩ := h.key_accepted .zero key pos'
        (parseCoseP256Key_eq_ok.mpr ⟨entries, hentries, hmap, hkey⟩)
      obtain rfl := entries_unique (fun e he => (hentries e he).isEntry) hentries' hmap hmap'
      exact (hkey.holds_iff hentries).mp hholds
  · intro h
    refine ⟨skipValue_defined pos, fun depth pos' => skipValue_eq_ok.trans ?_,
      fun out => parseCoseP256Key_defined_iff.mpr h.label, fun out key pos' haccept => ?_,
      parseRegistrationAuthData_defined_iff.mpr h.credential, parseAttestationObject_defined⟩
    · refine exists_congr fun item => and_congr_left fun hspan => ?_
      exact ⟨fun hitem => h.simple depth item pos' hitem hspan,
        fun hitem => hitem.mono fun _ _ => trivial⟩
    · obtain ⟨entries, hentries, hmap, hkey⟩ := parseCoseP256Key_eq_ok.mp haccept
      exact ⟨entries, fun e he => (hentries e he).isEntry, hmap,
        (hkey.holds_iff hentries).mpr (h.folds entries pos' hentries hmap hkey.exists_folded)⟩

/-- The label -2⁶³, in a map of one entry, is negated in 64 bits. -/
theorem leastLabel_not_readsCbor :
    ¬ ReadsCbor [0xa1, 0x3b, 0x7f, 0xff, 0xff, 0xff, 0xff, 0xff, 0xff, 0xff, 0x00] 0 :=
  fun h => (h.key_defined .zero).2 (by decide +kernel)

/-- The label 2⁶⁴ - 2 is taken for -2. -/
example : parseCoseP256Key
    ([0xa4, 0x01, 0x02, 0x20, 0x01, 0x1b, 0xff, 0xff, 0xff, 0xff, 0xff, 0xff, 0xff, 0xfe, 0x58, 0x20]
      ++ List.replicate 32 7 ++ [0x22, 0x58, 0x20] ++ List.replicate 32 9) 0 .zero =
    .ok (⟨List.replicate 32 7, List.replicate 32 9⟩, 83) := by
  decide +kernel

end Labels

end MetalBear.OAuth
