import MetalBear.Json.Value
import MetalBear.Wolfram.Status

/-!
# Session tokens

The session JWTs of an account: signed with HMAC-SHA256 under the account's own key, and
carrying the access scope that the session was opened with. A token is text of three
segments; the hash, the JSON parser and the protocol library's decoder are parameters.
-/

namespace MetalBear.OAuth

/-- `metalbear_access_scope`. -/
inductive AccessScope where
  | full
  | appPassword
  | appPasswordPrivileged
  | takendown
  deriving DecidableEq, Repr

/-- `token_kind`. -/
inductive TokenKind where
  | access
  | refresh
  deriving DecidableEq, Repr

/-- The library functions that tokens are made and read with. -/
structure TokenLibrary where
  /-- `HMAC(EVP_sha256(), key, input)`. -/
  hmacSha256 : List UInt8 → String → List UInt8
  /-- `cJSON_ParseWithLength`. -/
  parseJson : List UInt8 → Option Json
  /-- `wf_crypto_base64url_decode`. -/
  wfBase64urlDecode : String → Option (List UInt8)

/-- `metalbear_auth_store`, less its database. -/
structure AuthStore where
  key : List UInt8
  serviceDid : String
  accountDid : String
  deriving DecidableEq, Repr

/-! ## Base64url -/

/-- `base64url_value`. -/
def base64urlValue (value : Char) : Option Nat :=
  if 'A' ≤ value ∧ value ≤ 'Z' then some (value.toNat - 'A'.toNat)
  else if 'a' ≤ value ∧ value ≤ 'z' then some (value.toNat - 'a'.toNat + 26)
  else if '0' ≤ value ∧ value ≤ '9' then some (value.toNat - '0'.toNat + 52)
  else if value = '-' then some 62
  else if value = '_' then some 63
  else none

/-- `base64url_decode`: groups of four, and a tail whose unused bits are zero. -/
def base64urlDecode : List Char → Option (List UInt8)
  | [] => some []
  | [_] => none
  | [a, b] => do
    let a ← base64urlValue a
    let b ← base64urlValue b
    if b % 16 ≠ 0 then none else some [UInt8.ofNat ((a * 64 + b) / 16)]
  | [a, b, c] => do
    let a ← base64urlValue a
    let b ← base64urlValue b
    let c ← base64urlValue c
    let n := (a * 64 + b) * 64 + c
    if c % 4 ≠ 0 then none else some [UInt8.ofNat (n / 1024), UInt8.ofNat (n / 4)]
  | a :: b :: c :: d :: rest => do
    let a ← base64urlValue a
    let b ← base64urlValue b
    let c ← base64urlValue c
    let d ← base64urlValue d
    let n := ((a * 64 + b) * 64 + c) * 64 + d
    let tail ← base64urlDecode rest
    some (UInt8.ofNat (n / 65536) :: UInt8.ofNat (n / 256) :: UInt8.ofNat n :: tail)

/-! ## Reading tokens -/

/-- The text before and after the first dot, if there is one. -/
def cutAtDot (token : List Char) : Option (List Char × List Char) :=
  match token.dropWhile (· ≠ '.') with
  | [] => none
  | _ :: rest => some (token.takeWhile (· ≠ '.'), rest)

/-- `jwt_claim`: a claim of the payload, which nothing has verified. -/
def jwtClaim (lib : TokenLibrary) (token name : String) : Option String := do
  let (_, rest) ← cutAtDot token.toList
  let (segment, _) ← cutAtDot rest
  let raw ← lib.wfBase64urlDecode (String.ofList segment)
  let payload ← lib.parseJson raw
  let value ← payload.getString name
  if value = "" then none else some value

/-- `jwt_subject`. -/
def jwtSubject (lib : TokenLibrary) (token : String) : Option String := jwtClaim lib token "sub"

/-- `parse_access_scope`. -/
def parseAccessScope (value : String) : Option AccessScope :=
  if value = "com.atproto.access" then some .full
  else if value = "com.atproto.appPass" then some .appPassword
  else if value = "com.atproto.appPassPrivileged" then some .appPasswordPrivileged
  else if value = "com.atproto.takendown" then some .takendown
  else none

/-- The scope that a token of this kind may carry; a refresh token has none of its own. -/
def tokenScope (kind : TokenKind) (value : String) : Option AccessScope :=
  match kind with
  | .access => parseAccessScope value
  | .refresh => if value = "com.atproto.refresh" then some .full else none

/-- `required_type`. -/
def requiredType : TokenKind → String
  | .access => "at+jwt"
  | .refresh => "refresh+jwt"

/-- `JWT_MAX_BYTES`. -/
def jwtMaxBytes : Nat := 8192

/-- What `verify_jwt` hands out. -/
structure VerifiedJwt where
  jti : Option String
  exp : Double
  scope : AccessScope

/-- The tests of `verify_jwt` on the decoded header and payload. -/
def checkClaims (store : AuthStore) (now : Int) (kind : TokenKind) (allowExpired : Bool)
    (header payload : Json) : Option VerifiedJwt := do
  let alg ← header.getString "alg"
  let typ ← header.getString "typ"
  let scope ← payload.getString "scope"
  let scope ← tokenScope kind scope
  let aud ← payload.getString "aud"
  let sub ← payload.getString "sub"
  let iat ← (payload.getObjectItem "iat").bind Json.valueDouble
  let exp ← (payload.getObjectItem "exp").bind Json.valueDouble
  let jti := payload.getString "jti"
  if alg = "HS256" ∧ typ = requiredType kind ∧ aud = store.serviceDid ∧ sub = store.accountDid ∧
      iat ≤ Double.finite (now + 60) ∧ (allowExpired = true ∨ Double.finite now < exp) ∧
      (kind = .access ∨ jti.isSome = true) then
    some { jti := if kind = .refresh then jti else none, exp, scope }
  else none

/-- A character takes at most four bytes. -/
theorem utf8ByteSize_ofList_le (text : List Char) :
    (String.ofList text).utf8ByteSize ≤ 4 * text.length := by
  rw [String.utf8ByteSize_ofList]
  induction text with
  | nil => exact Nat.le_refl 0
  | cons c text ih =>
    have hc := c.utf8Size_le_four
    rw [String.utf8Len_cons, List.length_cons]
    omega

/-- A token of a few characters passes the length check of `verify_jwt`. -/
theorem jwt_fits {text : List Char} (hpos : 0 < text.length) (hshort : text.length ≤ 2048) :
    ¬ (String.ofList text = "" ∨ jwtMaxBytes < (String.ofList text).utf8ByteSize) := by
  have hsize := utf8ByteSize_ofList_le text
  rintro (hempty | hlong)
  · have hlist := congrArg String.toList hempty
    rw [String.toList_ofList] at hlist
    rw [hlist] at hpos
    exact Nat.lt_irrefl 0 hpos
  · unfold jwtMaxBytes at hlong
    omega

/-- `verify_jwt`. -/
def verifyJwt (lib : TokenLibrary) (store : AuthStore) (now : Int) (token : String)
    (kind : TokenKind) (allowExpired : Bool) : Except WfError VerifiedJwt :=
  if token = "" ∨ jwtMaxBytes < token.utf8ByteSize then .error .invalidArg
  else
    match cutAtDot token.toList with
    | none => .error .permission
    | some (header, rest) =>
      match cutAtDot rest with
      | none => .error .permission
      | some (payload, signature) =>
        let signingInput := String.ofList (header ++ '.' :: payload)
        if '.' ∈ signature then .error .permission
        else if base64urlDecode signature ≠ some (lib.hmacSha256 store.key signingInput) then
          .error .permission
        else
          let verified := do
            let header ← (base64urlDecode header).bind lib.parseJson
            let payload ← (base64urlDecode payload).bind lib.parseJson
            checkClaims store now kind allowExpired header payload
          match verified with
          | none => .error .permission
          | some v => .ok v

/-- `metalbear_auth_verify_access_scope`. -/
def authVerifyAccessScope (lib : TokenLibrary) (store : AuthStore) (now : Int) (token : String) :
    Except WfError AccessScope :=
  (verifyJwt lib store now token .access false).map VerifiedJwt.scope

end MetalBear.OAuth
