import MetalBear.OAuth.RefreshChain

/-!
# Issuing session tokens

The texts that `create_jwt` signs, and that `verify_jwt` under the same key reads out of each what
`create_jwt` put in. The JSON printer of the library is a parameter, as its parser is.
-/

namespace MetalBear.OAuth

/-! ## Base64url -/

/-- `b64url_alphabet`. -/
def b64urlAlphabet : List Char :=
  ['A', 'B', 'C', 'D', 'E', 'F', 'G', 'H', 'I', 'J', 'K', 'L', 'M', 'N', 'O', 'P', 'Q', 'R', 'S',
    'T', 'U', 'V', 'W', 'X', 'Y', 'Z', 'a', 'b', 'c', 'd', 'e', 'f', 'g', 'h', 'i', 'j', 'k', 'l',
    'm', 'n', 'o', 'p', 'q', 'r', 's', 't', 'u', 'v', 'w', 'x', 'y', 'z', '0', '1', '2', '3', '4',
    '5', '6', '7', '8', '9', '-', '_']

/-- `b64url_alphabet[n & 63]`. -/
def b64urlChar (n : Nat) : Char := b64urlAlphabet.getD (n % 64) 'A'

/-- `base64url_encode`. -/
def base64urlEncode : List UInt8 → List Char
  | [] => []
  | [a] =>
    let n := a.toNat * 65536
    [b64urlChar (n / 262144), b64urlChar (n / 4096)]
  | [a, b] =>
    let n := a.toNat * 65536 + b.toNat * 256
    [b64urlChar (n / 262144), b64urlChar (n / 4096), b64urlChar (n / 64)]
  | a :: b :: c :: rest =>
    let n := a.toNat * 65536 + b.toNat * 256 + c.toNat
    b64urlChar (n / 262144) :: b64urlChar (n / 4096) :: b64urlChar (n / 64) :: b64urlChar n ::
      base64urlEncode rest

/-- A character of the alphabet has the value that it stands for. -/
theorem base64urlValue_char (n : Nat) : base64urlValue (b64urlChar n) = some (n % 64) := by
  have hall : ∀ m : Fin 64, base64urlValue (b64urlAlphabet.getD m 'A') = some m.val := by decide
  exact hall ⟨n % 64, Nat.mod_lt n (by decide)⟩

theorem b64urlChar_ne_dot (n : Nat) : b64urlChar n ≠ '.' := by
  intro h
  have hvalue := base64urlValue_char n
  rw [h] at hvalue
  cases hvalue

theorem dot_notMem_base64urlEncode (bytes : List UInt8) : '.' ∉ base64urlEncode bytes := by
  induction bytes using base64urlEncode.induct with
  | case1 => exact List.not_mem_nil
  | case2 a => simp [base64urlEncode, (b64urlChar_ne_dot _).symm]
  | case3 a b => simp [base64urlEncode, (b64urlChar_ne_dot _).symm]
  | case4 a b c rest ih => simp [base64urlEncode, (b64urlChar_ne_dot _).symm, ih]

theorem ofNat_eq_of_mod {a : UInt8} {n : Nat} (h : n % 256 = a.toNat) : UInt8.ofNat n = a := by
  apply UInt8.toNat.inj
  rw [UInt8.toNat_ofNat', h]

/-- What is encoded is decoded. -/
theorem base64urlDecode_encode (bytes : List UInt8) :
    base64urlDecode (base64urlEncode bytes) = some bytes := by
  induction bytes using base64urlEncode.induct with
  | case1 => rfl
  | case2 a =>
    have ha := a.toNat_lt
    simp only [base64urlEncode, base64urlDecode, base64urlValue_char, Option.bind_eq_bind,
      Option.bind_some]
    rw [if_neg (by omega), ofNat_eq_of_mod (a := a) (by omega)]
  | case3 a b =>
    have ha := a.toNat_lt
    have hb := b.toNat_lt
    simp only [base64urlEncode, base64urlDecode, base64urlValue_char, Option.bind_eq_bind,
      Option.bind_some]
    rw [if_neg (by omega), ofNat_eq_of_mod (a := a) (by omega), ofNat_eq_of_mod (a := b) (by omega)]
  | case4 a b c rest ih =>
    have ha := a.toNat_lt
    have hb := b.toNat_lt
    have hc := c.toNat_lt
    simp only [base64urlEncode, base64urlDecode, base64urlValue_char, Option.bind_eq_bind,
      Option.bind_some, ih]
    rw [ofNat_eq_of_mod (a := a) (by omega), ofNat_eq_of_mod (a := b) (by omega),
      ofNat_eq_of_mod (a := c) (by omega)]

/-! ## Signing -/

/-- `access_scope_name`. -/
def accessScopeName : AccessScope → String
  | .appPassword => "com.atproto.appPass"
  | .appPasswordPrivileged => "com.atproto.appPassPrivileged"
  | .takendown => "com.atproto.takendown"
  | .full => "com.atproto.access"

theorem parseAccessScope_name (scope : AccessScope) :
    parseAccessScope (accessScopeName scope) = some scope := by
  cases scope <;> decide

/-- What `create_jwt` puts in a token. -/
structure JwtClaims where
  kind : TokenKind
  accessScope : AccessScope
  jti : String
  iat : Double
  exp : Double
  deriving DecidableEq

/-- The `scope` of a token. -/
def JwtClaims.scopeName (c : JwtClaims) : String :=
  match c.kind with
  | .access => accessScopeName c.accessScope
  | .refresh => "com.atproto.refresh"

/-- The header of a token. -/
def JwtClaims.header (c : JwtClaims) : Json :=
  .object [("typ", .string (requiredType c.kind)), ("alg", .string "HS256")]

/-- The payload of a token. -/
def JwtClaims.payload (store : AuthStore) (c : JwtClaims) : Json :=
  .object ([("scope", .string c.scopeName), ("aud", .string store.serviceDid),
    ("sub", .string store.accountDid)] ++
    (if c.kind = .refresh then [("jti", .string c.jti)] else []) ++
    [("iat", .number c.iat), ("exp", .number c.exp)])

/-- `cJSON_PrintUnformatted`. -/
abbrev JsonPrinter := Json → List UInt8

/-- The header and the payload, printed and encoded. -/
def signingInput (print : JsonPrinter) (store : AuthStore) (c : JwtClaims) : List Char :=
  base64urlEncode (print c.header) ++ '.' :: base64urlEncode (print (c.payload store))

/-- `create_jwt`. -/
def createJwt (lib : TokenLibrary) (print : JsonPrinter) (store : AuthStore) (c : JwtClaims) :
    String :=
  String.ofList (signingInput print store c ++ '.' ::
    base64urlEncode (lib.hmacSha256 store.key (String.ofList (signingInput print store c))))

/-- The library reads back what it printed of a token, and the token is not too long for
`verify_jwt`. -/
structure JwtClaims.Legible (lib : TokenLibrary) (print : JsonPrinter) (store : AuthStore)
    (c : JwtClaims) : Prop where
  header : lib.parseJson (print c.header) = some c.header
  payload : lib.parseJson (print (c.payload store)) = some (c.payload store)
  size : (createJwt lib print store c).utf8ByteSize ≤ jwtMaxBytes

theorem cutAtDot_append {pre rest : List Char} (h : '.' ∉ pre) :
    cutAtDot (pre ++ '.' :: rest) = some (pre, rest) := by
  have hpre : ∀ x ∈ pre, decide (x ≠ '.') = true := by
    intro x hx
    exact decide_eq_true fun heq => h (heq ▸ hx)
  rw [cutAtDot, List.dropWhile_append_of_pos hpre, List.takeWhile_append_of_pos hpre]
  simp

variable {lib : TokenLibrary} {print : JsonPrinter} {store : AuthStore} {c : JwtClaims}
  {now : Int} {allowExpired : Bool}

theorem createJwt_ne_empty : createJwt lib print store c ≠ "" := by
  intro h
  have hlist := congrArg String.toList h
  rw [createJwt, String.toList_ofList] at hlist
  simp at hlist

/-- The claims pass the tests of `verify_jwt` while the clock lets them. -/
theorem checkClaims_payload (hiat : c.iat ≤ Double.finite (now + 60))
    (hexp : allowExpired = true ∨ Double.finite now < c.exp) :
    checkClaims store now c.kind allowExpired c.header (c.payload store) =
      some ⟨if c.kind = .refresh then some c.jti else none, c.exp,
        if c.kind = .refresh then .full else c.accessScope⟩ := by
  cases hkind : c.kind <;>
    simp [checkClaims, JwtClaims.header, JwtClaims.payload, JwtClaims.scopeName, hkind,
      Json.getString, Json.valueString, Json.valueDouble, tokenScope, parseAccessScope_name,
      requiredType, hiat, hexp]

theorem createJwt_fits (h : c.Legible lib print store) :
    ¬ (createJwt lib print store c = "" ∨
      jwtMaxBytes < (createJwt lib print store c).utf8ByteSize) := by
  rintro (hempty | hlong)
  · exact createJwt_ne_empty hempty
  · exact absurd h.size (by omega)

/-- A token is accepted under the key that signed it, for its lifetime. -/
theorem verifyJwt_createJwt (h : c.Legible lib print store)
    (hiat : c.iat ≤ Double.finite (now + 60))
    (hexp : allowExpired = true ∨ Double.finite now < c.exp) :
    verifyJwt lib store now (createJwt lib print store c) c.kind allowExpired =
      .ok ⟨if c.kind = .refresh then some c.jti else none, c.exp,
        if c.kind = .refresh then .full else c.accessScope⟩ := by
  rw [verifyJwt, if_neg (createJwt_fits h)]
  simp only [createJwt, String.toList_ofList, signingInput, List.append_assoc, List.cons_append,
    cutAtDot_append (dot_notMem_base64urlEncode _)]
  simp only [dot_notMem_base64urlEncode, base64urlDecode_encode, if_false, ne_eq, not_true_eq_false,
    Option.bind_some, h.header, h.payload, checkClaims_payload hiat hexp, Option.bind_eq_bind]

/-- What is read of a refresh token is what was put in it. -/
theorem refreshClaims_createJwt (h : c.Legible lib print store) (hkind : c.kind = .refresh) :
    refreshClaims lib store (createJwt lib print store c) = some ⟨c.jti, c.iat, c.exp⟩ := by
  have hclaims : checkRefreshClaims store c.header (c.payload store) =
      some ⟨c.jti, c.iat, c.exp⟩ := by
    simp [checkRefreshClaims, JwtClaims.header, JwtClaims.payload, JwtClaims.scopeName, hkind,
      Json.getString, Json.valueString, Json.valueDouble, requiredType]
  rw [refreshClaims, if_neg (createJwt_fits h)]
  simp only [createJwt, String.toList_ofList, signingInput, List.append_assoc, List.cons_append,
    cutAtDot_append (dot_notMem_base64urlEncode _)]
  simp only [dot_notMem_base64urlEncode, base64urlDecode_encode, if_false, ne_eq, not_true_eq_false,
    Option.bind_some, h.header, h.payload, hclaims, Option.bind_eq_bind]

end MetalBear.OAuth
