import MetalBear.Library.ByteText
import MetalBear.Library.KeyTable

/-!
# Several accounts in one browser

The cookie `mb_device` carries up to five tokens, each of a session for one account. Every handler
that reads it takes the tokens apart, keeps those the store knows, and a sign-in or a sign-out joins
what is left to a new cookie.
-/

namespace MetalBear.OAuth

open ByteText

/-- The token of a device session, or what a client presents as one. -/
abbrev DeviceToken := List UInt8

/-- The functions of the protocol library that the sessions rely on. -/
structure DeviceLibrary where
  /-- `wf_crypto_sha256`. -/
  sha256 : DeviceToken → List UInt8
  /-- `wf_crypto_base64url_encode`. -/
  base64urlEncode : List UInt8 → DeviceToken

/-- A letter of the base64url alphabet. -/
def isBase64url (b : UInt8) : Bool :=
  (65 ≤ b && b ≤ 90) || (97 ≤ b && b ≤ 122) || (48 ≤ b && b ≤ 57) || b == 45 || b == 95

/-- `random_value(32)` encodes 32 bytes. -/
abbrev RandomBytes := { raw : List UInt8 // raw.length = 32 }

/-- What is documented of the encoding: 32 bytes become 43 letters. -/
structure DeviceLibrary.Documented (lib : DeviceLibrary) : Prop where
  length : ∀ raw : RandomBytes, (lib.base64urlEncode raw).length = 43
  alphabet : ∀ raw, (lib.base64urlEncode raw).all isBase64url = true

/-- `char subject[256]`: a C string that fits the buffer. -/
abbrev DeviceSubject := { s : List UInt8 // s.length ≤ 255 ∧ 0 ∉ s }

/-- A row of `device_session`, its `token_hash` apart. -/
structure DeviceRow where
  subject : List UInt8
  expiresAt : Int

/-- The table `device_session`; its rows stand under the hashes of tokens that were handed out. -/
structure DeviceStore (lib : DeviceLibrary) where
  rows : KeyTable (List UInt8) DeviceRow
  issued : ∀ hash r, rows hash = some r →
    ∃ raw : RandomBytes, hash = lib.sha256 (lib.base64urlEncode raw)

/-- A presented token that the store knows, and whose session it is. -/
structure DeviceSessionEntry where
  token : DeviceToken
  subject : List UInt8
  deriving DecidableEq

/-- What the database answers in the course of a request, and the clock. -/
structure DeviceAnswers where
  now : Int
  /-- The `SELECT` of a token's row works. -/
  selects : DeviceToken → Bool
  /-- The `DELETE` of a token's row works. -/
  deletes : DeviceToken → Bool
  /-- The rows that have expired are deleted. -/
  prunes : Bool
  /-- `RAND_bytes`. -/
  random : Option RandomBytes
  /-- The `INSERT` works where no row has the hash. -/
  inserts : Bool

/-! ## The store -/

namespace DeviceStore

variable {lib : DeviceLibrary}

/-- `metalbear_oauth_device_session_verify`. -/
def verify (store : DeviceStore lib) (token : DeviceToken) (now : Int) : Option (List UInt8) :=
  if token = [] then none
  else
    match store.rows (lib.sha256 token) with
    | some r => if now < r.expiresAt then some ((cString r.subject).take 255) else none
    | none => none

/-- `metalbear_oauth_device_session_revoke`. -/
def revoke (store : DeviceStore lib) (token : DeviceToken) : DeviceStore lib where
  rows := store.rows.deleteWhere fun hash _ => hash = lib.sha256 token
  issued hash r h := store.issued hash r (KeyTable.deleteWhere_eq_some.mp h).1

/-- `prune`, as far as device sessions go. -/
def prune (store : DeviceStore lib) (now : Int) : DeviceStore lib where
  rows := store.rows.deleteWhere fun _ r => r.expiresAt ≤ now
  issued hash r h := store.issued hash r (KeyTable.deleteWhere_eq_some.mp h).1

/-- `METALBEAR_DEVICE_SESSION_LIFETIME_SECONDS`. -/
def lifetimeSeconds : Int := 30 * 24 * 60 * 60

/-- The row of a new session. -/
def withSession (store : DeviceStore lib) (raw : RandomBytes) (r : DeviceRow) :
    DeviceStore lib where
  rows := Function.update store.rows (lib.sha256 (lib.base64urlEncode raw)) (some r)
  issued hash q h := by
    rcases KeyTable.update_eq_some.mp h with ⟨rfl, -⟩ | ⟨-, hold⟩
    · exact ⟨raw, rfl⟩
    · exact store.issued hash q hold

/-- `metalbear_oauth_device_session_create`. -/
def create (store : DeviceStore lib) (subject : DeviceSubject) (a : DeviceAnswers) :
    Option DeviceToken × DeviceStore lib :=
  if subject.val = [] then (none, store)
  else
    match a.random with
    | none => (none, store)
    | some raw =>
      let pruned := if a.prunes then store.prune a.now else store
      -- the primary key refuses a second row with the hash
      if a.inserts && (pruned.rows (lib.sha256 (lib.base64urlEncode raw))).isNone then
        (some (lib.base64urlEncode raw),
          pruned.withSession raw ⟨subject.val, a.now + lifetimeSeconds⟩)
      else (none, pruned)

end DeviceStore

/-! ## The cookie -/

/-- `MB_DEVICE_COOKIE`. -/
def deviceCookie : List UInt8 := "mb_device".toUTF8.toList

/-- `MB_DEVICE_MAX_SESSIONS`. -/
def maxDeviceSessions : Nat := 5

/-- `MB_DEVICE_TOKEN_SEP`. -/
def tokenSep : UInt8 := 46

/-- The semicolon after a pair. -/
def pairEnd : UInt8 := 59

/-- The equals sign after a name. -/
def nameEnd : UInt8 := 61

/-- A space or a tab. -/
def isBlank (b : UInt8) : Bool := b = 32 ∨ b = 9

/-- The value of one pair of the header, if it has the name. -/
def cookieValue (name pair : List UInt8) : Option (List UInt8) :=
  let p := pair.dropWhile isBlank
  if nameEnd ∈ p ∧ p.takeWhile (· ≠ nameEnd) = name then
    some ((p.dropWhile (· ≠ nameEnd)).drop 1)
  else none

/-- `find_cookie`: the first pair with the name. -/
def findCookie (header : Option (List UInt8)) (name : List UInt8) : Option (List UInt8) :=
  header.bind fun text => (pieces pairEnd (cString text)).findSome? (cookieValue name)

/-- `split_device_tokens`. -/
def splitDeviceTokens (value : List UInt8) : List DeviceToken :=
  ((pieces tokenSep value).filter (· ≠ [])).take maxDeviceSessions

/-- `join_device_tokens`. -/
def joinDeviceTokens (tokens : List DeviceToken) : List UInt8 := [tokenSep].intercalate tokens

/-- The tokens that the server reads of a cookie header. -/
def presentedTokens (header : Option (List UInt8)) : List DeviceToken :=
  match findCookie header deviceCookie with
  | none => []
  | some value => splitDeviceTokens value

/-- The attributes of the cookie. -/
def cookieAttributes (maxAgeSeconds : Int) : List UInt8 :=
  ("; Path=/; HttpOnly; Secure; SameSite=Lax; Max-Age=" ++ toString maxAgeSeconds).toUTF8.toList

/-- The whole line. -/
def deviceCookieText (value : List UInt8) (maxAgeSeconds : Int) : List UInt8 :=
  deviceCookie ++ nameEnd :: (value ++ cookieAttributes maxAgeSeconds)

/-- `set_device_cookie`: the line in a buffer of 512 bytes. -/
def setDeviceCookie (value : List UInt8) (maxAgeSeconds : Int) : List UInt8 :=
  (deviceCookieText value maxAgeSeconds).take 511

/-- What the browser sends back for such a line. -/
def cookieHeader (line : List UInt8) : List UInt8 := line.takeWhile (· ≠ pairEnd)

/-! ## The handlers -/

section Handlers

variable {lib : DeviceLibrary} (store : DeviceStore lib) (header : Option (List UInt8))
  (a : DeviceAnswers)

/-- `read_device_sessions`. -/
def readDeviceSessions : List DeviceSessionEntry :=
  (presentedTokens header).filterMap fun token =>
    if a.selects token then (store.verify token a.now).map (⟨token, ·⟩) else none

/-- A session is revoked, if the database does it. -/
def revokeToken (store : DeviceStore lib) (token : DeviceToken) : DeviceStore lib :=
  if a.deletes token then store.revoke token else store

/-- The sessions of tokens are revoked, one after the other. -/
def revokeTokens (store : DeviceStore lib) (tokens : List DeviceToken) : DeviceStore lib :=
  tokens.foldl (revokeToken a) store

/-- The oldest tokens are revoked and taken out while there is no room for another. -/
def evictOldest (store : DeviceStore lib) : List DeviceToken → DeviceStore lib × List DeviceToken
  | [] => (store, [])
  | oldest :: keep =>
    if maxDeviceSessions ≤ (oldest :: keep).length then
      evictOldest (revokeToken a store oldest) keep
    else (store, oldest :: keep)

/-- A successful sign-in: the token that was made, and the line with the new cookie. -/
structure SignedIn where
  token : DeviceToken
  setCookie : List UInt8

/-- `finish_device_signin`. -/
def finishDeviceSignin (subject : DeviceSubject) : Option SignedIn × DeviceStore lib :=
  let existing := readDeviceSessions store header a
  let stale := existing.filter (·.subject = subject.val)
  let others := existing.filter (·.subject ≠ subject.val)
  let (evicted, keep) := evictOldest a (revokeTokens a store (stale.map (·.token)))
    (others.map (·.token))
  match evicted.create subject a with
  | (none, store) => (none, store)
  | (some token, store) =>
    (some ⟨token, setDeviceCookie (joinDeviceTokens (keep ++ [token]))
      DeviceStore.lifetimeSeconds⟩, store)

/-- `oauth_signout`: the line with the new cookie. An empty `did` is none. -/
def oauthSignout (did : Option (List UInt8)) : List UInt8 × DeviceStore lib :=
  let onlySubject := did.filter (· ≠ [])
  let sessions := readDeviceSessions store header a
  let gone := sessions.filter fun e => onlySubject.all (e.subject = ·)
  let keep := (sessions.filter fun e => !onlySubject.all (e.subject = ·)).map (·.token)
  let line := if keep = [] then setDeviceCookie [] 0
    else setDeviceCookie (joinDeviceTokens keep) DeviceStore.lifetimeSeconds
  (line, revokeTokens a store (gone.map (·.token)))

end Handlers

/-! ## Lines and what comes back of them -/

section Lines

variable {lib : DeviceLibrary}

/-- What a letter of a token is not. -/
theorem ne_of_isBase64url {b : UInt8} (h : isBase64url b = true) :
    b ≠ tokenSep ∧ b ≠ pairEnd ∧ b ≠ 0 := by
  refine ⟨?_, ?_, ?_⟩ <;> rintro rfl <;> revert h <;> decide

/-- The cookie is given for the lifetime of a session, or taken back. -/
def IsCookieAge (age : Int) : Prop := age = 0 ∨ age = DeviceStore.lifetimeSeconds

/-- The attributes begin with a semicolon and are short. -/
theorem cookieAttributes_eq {age : Int} (h : IsCookieAge age) :
    ∃ rest, cookieAttributes age = pairEnd :: rest ∧ rest.length ≤ 60 := by
  rcases h with rfl | rfl
  · exact ⟨(cookieAttributes 0).drop 1, by decide +kernel, by decide +kernel⟩
  · exact ⟨(cookieAttributes DeviceStore.lifetimeSeconds).drop 1, by decide +kernel,
      by decide +kernel⟩

theorem deviceCookie_length : deviceCookie.length = 9 := by decide +kernel

/-- No line for a value of at most five tokens is cut. -/
theorem setDeviceCookie_eq {value : List UInt8} {age : Int} (hage : IsCookieAge age)
    (hlength : value.length ≤ 219) : setDeviceCookie value age = deviceCookieText value age := by
  obtain ⟨rest, hrest, hshort⟩ := cookieAttributes_eq hage
  rw [setDeviceCookie, List.take_of_length_le]
  rw [deviceCookieText, hrest]
  simp only [List.length_append, List.length_cons, deviceCookie_length]
  omega

/-- The browser sends the name and the value back. -/
theorem cookieHeader_eq {value : List UInt8} {age : Int} (hage : IsCookieAge age)
    (hlength : value.length ≤ 219) (hvalue : pairEnd ∉ value) :
    cookieHeader (setDeviceCookie value age) = deviceCookie ++ nameEnd :: value := by
  obtain ⟨rest, hrest, -⟩ := cookieAttributes_eq hage
  have hname : pairEnd ∉ deviceCookie := by decide +kernel
  have hnot : pairEnd ∉ deviceCookie ++ nameEnd :: value := by
    simp only [List.mem_append, List.mem_cons, not_or]
    exact ⟨hname, by decide, hvalue⟩
  rw [setDeviceCookie_eq hage hlength, deviceCookieText, hrest, cookieHeader]
  have hsplit : deviceCookie ++ nameEnd :: (value ++ pairEnd :: rest) =
      (deviceCookie ++ nameEnd :: value) ++ pairEnd :: rest := by simp
  rw [hsplit, takeWhile_ne_of_append hnot]

/-- The server finds the value in such a header. -/
theorem findCookie_eq {value : List UInt8} (hvalue : pairEnd ∉ value) (hnul : 0 ∉ value) :
    findCookie (some (deviceCookie ++ nameEnd :: value)) deviceCookie = some value := by
  have hname : pairEnd ∉ deviceCookie ∧ 0 ∉ deviceCookie ∧ nameEnd ∉ deviceCookie := by
    decide +kernel
  have hblank : (deviceCookie ++ nameEnd :: value).dropWhile isBlank =
      deviceCookie ++ nameEnd :: value := by
    have hcons : deviceCookie = 109 :: deviceCookie.tail := by decide +kernel
    rw [hcons, List.cons_append, List.dropWhile_cons_of_neg (by decide)]
  have hnot : pairEnd ∉ deviceCookie ++ nameEnd :: value := by
    simp only [List.mem_append, List.mem_cons, not_or]
    exact ⟨hname.1, by decide, hvalue⟩
  have hzero : 0 ∉ deviceCookie ++ nameEnd :: value := by
    simp only [List.mem_append, List.mem_cons, not_or]
    exact ⟨hname.2.1, by decide, hnul⟩
  rw [findCookie, Option.bind_some, cString_eq_self hzero,
    pieces_single hnot (by simp), List.findSome?_singleton, cookieValue]
  simp only [hblank]
  rw [if_pos ⟨by simp, takeWhile_ne_of_append hname.2.2 value⟩, List.dropWhile_append_of_pos]
  · simp
  · intro c hc
    have hne : c ≠ nameEnd := fun heq => hname.2.2 (heq ▸ hc)
    simpa using hne

/-- The token was handed out by this server. -/
def IsIssued (lib : DeviceLibrary) (token : DeviceToken) : Prop :=
  ∃ raw : RandomBytes, token = lib.base64urlEncode raw

variable {tokens : List DeviceToken} {t : DeviceToken} {b : UInt8}

theorem IsIssued.length (hlib : lib.Documented) (h : IsIssued lib t) : t.length = 43 := by
  obtain ⟨raw, rfl⟩ := h
  exact hlib.length raw

theorem IsIssued.isBase64url (hlib : lib.Documented) (h : IsIssued lib t) (hb : b ∈ t) :
    isBase64url b = true := by
  obtain ⟨raw, rfl⟩ := h
  exact List.all_eq_true.mp (hlib.alphabet raw) b hb

/-- Five tokens and the points between them. -/
theorem length_joinDeviceTokens (h : ∀ t ∈ tokens, t.length = 43) :
    (joinDeviceTokens tokens).length ≤ 44 * tokens.length - 1 := by
  induction tokens with
  | nil => simp [joinDeviceTokens, List.intercalate]
  | cons t tokens ih =>
    have hrest := ih fun u hu => h u (List.mem_cons_of_mem t hu)
    have ht := h t List.mem_cons_self
    cases tokens with
    | nil => simp [joinDeviceTokens, List.intercalate, ht]
    | cons u tokens =>
      have hjoin : joinDeviceTokens (t :: u :: tokens) =
          t ++ tokenSep :: joinDeviceTokens (u :: tokens) := by
        simp [joinDeviceTokens, List.intercalate]
      rw [hjoin]
      simp only [List.length_append, List.length_cons] at hrest ⊢
      omega

/-- A joined value consists of points and letters of its tokens. -/
theorem mem_joinDeviceTokens (hb : b ∈ joinDeviceTokens tokens) :
    b = tokenSep ∨ ∃ t ∈ tokens, b ∈ t := by
  induction tokens with
  | nil => simp [joinDeviceTokens, List.intercalate] at hb
  | cons t tokens ih =>
    cases tokens with
    | nil =>
      right
      simpa [joinDeviceTokens, List.intercalate] using hb
    | cons u tokens =>
      have hjoin : joinDeviceTokens (t :: u :: tokens) =
          t ++ tokenSep :: joinDeviceTokens (u :: tokens) := by
        simp [joinDeviceTokens, List.intercalate]
      rw [hjoin, List.mem_append, List.mem_cons] at hb
      rcases hb with ht | rfl | hrest
      · exact Or.inr ⟨t, List.mem_cons_self, ht⟩
      · exact Or.inl rfl
      · exact (ih hrest).imp_right fun ⟨v, hv, hbv⟩ => ⟨v, List.mem_cons_of_mem t hv, hbv⟩

/-- A cookie of at most five tokens that were handed out is not cut, and the server finds these
tokens in what the browser sends back. -/
theorem presentedTokens_setDeviceCookie (hlib : lib.Documented) {age : Int}
    (hage : IsCookieAge age) (hissued : ∀ t ∈ tokens, IsIssued lib t)
    (hcount : tokens.length ≤ maxDeviceSessions) :
    setDeviceCookie (joinDeviceTokens tokens) age =
        deviceCookieText (joinDeviceTokens tokens) age ∧
      presentedTokens (some (cookieHeader (setDeviceCookie (joinDeviceTokens tokens) age))) =
        tokens := by
  have hlength : (joinDeviceTokens tokens).length ≤ 219 := by
    have hle := length_joinDeviceTokens fun t ht => (hissued t ht).length hlib
    unfold maxDeviceSessions at hcount
    omega
  have hletter : ∀ b ∈ joinDeviceTokens tokens, b = tokenSep ∨ isBase64url b = true :=
    fun b hb => (mem_joinDeviceTokens hb).imp_right fun ⟨t, ht, hbt⟩ =>
      (hissued t ht).isBase64url hlib hbt
  have hpair : pairEnd ∉ joinDeviceTokens tokens := by
    intro hb
    rcases hletter _ hb with h | h
    · cases h
    · exact (ne_of_isBase64url h).2.1 rfl
  have hnul : 0 ∉ joinDeviceTokens tokens := by
    intro hb
    rcases hletter _ hb with h | h
    · cases h
    · exact (ne_of_isBase64url h).2.2 rfl
  have htoken : ∀ t ∈ tokens, tokenSep ∉ t ∧ t ≠ [] := by
    intro t ht
    refine ⟨fun hb => (ne_of_isBase64url ((hissued t ht).isBase64url hlib hb)).1 rfl, ?_⟩
    rintro rfl
    cases (hissued [] ht).length hlib
  refine ⟨setDeviceCookie_eq hage hlength, ?_⟩
  rw [cookieHeader_eq hage hlength hpair, presentedTokens, findCookie_eq hpair hnul]
  simp only [splitDeviceTokens, joinDeviceTokens]
  rw [pieces_intercalate htoken, List.filter_eq_self.mpr, List.take_of_length_le hcount]
  intro t ht
  simpa using (htoken t ht).2

end Lines

/-! ## What the statements leave -/

section Statements

variable {lib : DeviceLibrary} {store : DeviceStore lib} {header : Option (List UInt8)}
  {a : DeviceAnswers} {token : DeviceToken} {now : Int} {hash : List UInt8} {row : DeviceRow}

namespace DeviceStore

theorem verify_eq_some {subject : List UInt8} : store.verify token now = some subject ↔
    token ≠ [] ∧ ∃ r, store.rows (lib.sha256 token) = some r ∧ now < r.expiresAt ∧
      (cString r.subject).take 255 = subject := by
  rw [verify]
  split_ifs with hnil
  · simp [hnil]
  · cases hrow : store.rows (lib.sha256 token) with
    | none => simp
    | some r =>
      by_cases hlive : now < r.expiresAt <;> simp [hlive, hnil]

/-- A token is verified by the row of its hash alone. -/
theorem verify_congr {store' : DeviceStore lib}
    (h : store'.rows (lib.sha256 token) = store.rows (lib.sha256 token)) :
    store'.verify token now = store.verify token now := by
  rw [verify, verify, h]

theorem verify_eq_none_of_rows (h : store.rows (lib.sha256 token) = none) :
    store.verify token now = none := by
  rw [verify, h]
  split_ifs <;> rfl

theorem revoke_rows : (store.revoke token).rows hash =
    if hash = lib.sha256 token then none else store.rows hash := by
  have hrows : (store.revoke token).rows hash =
      (store.rows hash).filter fun _ => !decide (hash = lib.sha256 token) := rfl
  rw [hrows]
  split_ifs with h
  · simp [h]
  · cases store.rows hash <;> simp [h]

theorem prune_rows : (store.prune now).rows hash = some row ↔
    store.rows hash = some row ∧ now < row.expiresAt := by
  have hrows : (store.prune now).rows hash =
      (store.rows hash).filter fun r => !decide (r.expiresAt ≤ now) := rfl
  simp [hrows, Option.filter_eq_some_iff]

/-- A session that is created is new, and the live ones stay. -/
theorem create_eq_some {subject : DeviceSubject} {store' : DeviceStore lib}
    (h : store.create subject a = (some token, store')) :
    IsIssued lib token ∧
      store'.rows (lib.sha256 token) = some ⟨subject.val, a.now + lifetimeSeconds⟩ ∧
      (∀ hash row, store.rows hash = some row → a.now < row.expiresAt →
        store'.rows hash = some row) ∧
      ∀ hash row, store'.rows hash = some row → hash = lib.sha256 token ∨
        store.rows hash = some row := by
  rw [create] at h
  by_cases hnil : subject.val = []
  · rw [if_pos hnil] at h
    cases h
  rw [if_neg hnil] at h
  cases hrandom : a.random with
  | none =>
    rw [hrandom] at h
    cases h
  | some raw =>
    rw [hrandom] at h
    simp only at h
    have hstay : ∀ hash row, store.rows hash = some row → a.now < row.expiresAt →
        (if a.prunes then store.prune a.now else store).rows hash = some row := by
      intro hash row hrow hlive
      split_ifs
      · exact prune_rows.mpr ⟨hrow, hlive⟩
      · exact hrow
    have hsub : ∀ hash row, (if a.prunes then store.prune a.now else store).rows hash = some row →
        store.rows hash = some row := by
      intro hash row hrow
      split_ifs at hrow
      · exact (prune_rows.mp hrow).1
      · exact hrow
    generalize (if a.prunes then store.prune a.now else store) = pruned at h hstay hsub
    by_cases hinserts :
        (a.inserts && (pruned.rows (lib.sha256 (lib.base64urlEncode raw))).isNone) = true
    swap
    · rw [if_neg hinserts] at h
      cases h
    rw [if_pos hinserts] at h
    cases h
    have hfree : pruned.rows (lib.sha256 (lib.base64urlEncode raw)) = none := by
      simpa using (Bool.and_eq_true_iff.mp hinserts).2
    refine ⟨⟨raw, rfl⟩, Function.update_self _ _ _, fun hash row hrow hlive => ?_,
      fun hash row hrow => ?_⟩
    · have hold := hstay hash row hrow hlive
      have hne : hash ≠ lib.sha256 (lib.base64urlEncode raw) := by
        rintro rfl
        rw [hfree] at hold
        cases hold
      exact (Function.update_of_ne hne _ _).trans hold
    · rcases KeyTable.update_eq_some.mp hrow with ⟨rfl, -⟩ | ⟨-, hold⟩
      · exact Or.inl rfl
      · exact Or.inr (hsub hash row hold)

end DeviceStore

/-- Revoking tokens removes the rows of those whose statement works. -/
theorem revokeTokens_rows (tokens : List DeviceToken) : (revokeTokens a store tokens).rows hash =
    if ∃ t ∈ tokens, a.deletes t = true ∧ hash = lib.sha256 t then none else store.rows hash := by
  induction tokens generalizing store with
  | nil => simp [revokeTokens]
  | cons t tokens ih =>
    rw [revokeTokens, List.foldl_cons, ← revokeTokens, ih, revokeToken]
    by_cases hdeletes : a.deletes t = true
    · rw [if_pos hdeletes, DeviceStore.revoke_rows]
      by_cases hhash : hash = lib.sha256 t
      · simp [hhash, hdeletes]
      · simp [hhash]
    · simp [hdeletes]

/-- The tokens evicted are the first ones, until four are left. -/
theorem evictOldest_eq (tokens : List DeviceToken) : evictOldest a store tokens =
    (revokeTokens a store (tokens.take (tokens.length + 1 - maxDeviceSessions)),
      tokens.drop (tokens.length + 1 - maxDeviceSessions)) := by
  induction tokens generalizing store with
  | nil => rfl
  | cons t tokens ih =>
    rw [evictOldest]
    split_ifs with hfull
    · have hcount : (t :: tokens).length + 1 - maxDeviceSessions =
          (tokens.length + 1 - maxDeviceSessions) + 1 := by
        rw [List.length_cons] at hfull ⊢
        omega
      rw [ih, hcount, List.take_succ_cons, List.drop_succ_cons]
      rfl
    · have hcount : (t :: tokens).length + 1 - maxDeviceSessions = 0 := by omega
      rw [hcount]
      rfl

theorem length_presentedTokens : (presentedTokens header).length ≤ maxDeviceSessions := by
  rw [presentedTokens]
  split
  · exact Nat.zero_le _
  · exact List.length_take_le _ _

/-- A session that was read is one of a presented token that the store verifies. -/
theorem mem_readDeviceSessions {e : DeviceSessionEntry} :
    e ∈ readDeviceSessions store header a ↔ e.token ∈ presentedTokens header ∧
      a.selects e.token = true ∧ store.verify e.token a.now = some e.subject := by
  rw [readDeviceSessions, List.mem_filterMap]
  constructor
  · rintro ⟨t, ht, he⟩
    split_ifs at he with hselects
    obtain ⟨subject, hsubject, rfl⟩ := Option.map_eq_some_iff.mp he
    exact ⟨ht, hselects, hsubject⟩
  · rintro ⟨ht, hselects, hverify⟩
    exact ⟨e.token, ht, by rw [if_pos hselects, hverify]; rfl⟩

theorem length_readDeviceSessions :
    (readDeviceSessions store header a).length ≤ maxDeviceSessions :=
  (List.length_filterMap_le _ _).trans length_presentedTokens

end Statements

/-! ## Every cookie -/

section Cookies

variable {lib : DeviceLibrary} {store : DeviceStore lib} {header : Option (List UInt8)}
  {a : DeviceAnswers}

/-- What the cookie of a header verifies to. -/
def verifiedSessions (store : DeviceStore lib) (header : List UInt8) (now : Int) :
    List DeviceSessionEntry :=
  (presentedTokens (some header)).filterMap fun t => (store.verify t now).map (⟨t, ·⟩)

/-- No presented token has the hash of one that was handed out without being it. -/
def HashesApart (lib : DeviceLibrary) (header : Option (List UInt8)) : Prop :=
  ∀ t ∈ presentedTokens header, ∀ raw : RandomBytes,
    lib.sha256 t = lib.sha256 (lib.base64urlEncode raw) → t = lib.base64urlEncode raw

/-- The sessions that were read, other than those of one account. -/
def otherSessions (store : DeviceStore lib) (header : Option (List UInt8)) (a : DeviceAnswers)
    (subject : List UInt8) : List DeviceSessionEntry :=
  (readDeviceSessions store header a).filter (·.subject ≠ subject)

/-- A session with a token that was not presented is as it was. -/
def SparesOthers (store store' : DeviceStore lib) (header : Option (List UInt8)) (now : Int) :
    Prop :=
  ∀ hash row, store.rows hash = some row → now < row.expiresAt →
    (∀ t ∈ presentedTokens header, hash ≠ lib.sha256 t) → store'.rows hash = some row

/-- What a sign-in leaves. -/
structure SignsIn (store : DeviceStore lib) (header : Option (List UInt8)) (a : DeviceAnswers)
    (subject : DeviceSubject) (signed : SignedIn) (store' : DeviceStore lib) : Prop where
  one : ∀ e, e ∈ verifiedSessions store' (cookieHeader signed.setCookie) a.now ∧
    e.subject = subject.val ↔ e = ⟨signed.token, subject.val⟩
  /-- The first of five sessions of other accounts is evicted. -/
  others : ∀ e ∈ otherSessions store header a subject.val,
    ((otherSessions store header a subject.val).length = maxDeviceSessions →
      ∀ oldest ∈ (otherSessions store header a subject.val).head?, e.token ≠ oldest.token) →
    e ∈ verifiedSessions store' (cookieHeader signed.setCookie) a.now
  spares : SparesOthers store store' header a.now
  uncut : ∃ value, signed.setCookie = deviceCookieText value DeviceStore.lifetimeSeconds

/-- What a sign-out of one account leaves. -/
structure SignsOut (store : DeviceStore lib) (header : Option (List UInt8)) (a : DeviceAnswers)
    (did line : List UInt8) (store' : DeviceStore lib) : Prop where
  others : verifiedSessions store' (cookieHeader line) a.now = otherSessions store header a did
  uncut : ∃ value age, line = deviceCookieText value age

/-- What a sign-out of all accounts leaves. -/
structure SignsOutAll (store : DeviceStore lib) (header : Option (List UInt8)) (a : DeviceAnswers)
    (line : List UInt8) (store' : DeviceStore lib) : Prop where
  gone : ∀ e ∈ readDeviceSessions store header a, a.deletes e.token = true →
    store'.verify e.token a.now = none
  cleared : verifiedSessions store' (cookieHeader line) a.now = []
  uncut : ∃ value age, line = deviceCookieText value age

/-- A verified token was handed out. -/
theorem isIssued_of_mem (hapart : HashesApart lib header) {e : DeviceSessionEntry}
    (he : e ∈ readDeviceSessions store header a) : IsIssued lib e.token := by
  obtain ⟨hpresented, -, hverify⟩ := mem_readDeviceSessions.mp he
  obtain ⟨-, r, hrow, -⟩ := DeviceStore.verify_eq_some.mp hverify
  obtain ⟨raw, hhash⟩ := store.issued _ _ hrow
  exact ⟨raw, hapart e.token hpresented raw hhash⟩

/-- Tokens with one hash belong to one account. -/
theorem subject_eq_of_hash {e e' : DeviceSessionEntry} (he : e ∈ readDeviceSessions store header a)
    (he' : e' ∈ readDeviceSessions store header a)
    (h : lib.sha256 e.token = lib.sha256 e'.token) : e.subject = e'.subject := by
  obtain ⟨-, r, hrow, -, hsubject⟩ :=
    DeviceStore.verify_eq_some.mp (mem_readDeviceSessions.mp he).2.2
  obtain ⟨-, r', hrow', -, hsubject'⟩ :=
    DeviceStore.verify_eq_some.mp (mem_readDeviceSessions.mp he').2.2
  rw [h, hrow', Option.some.injEq] at hrow
  rw [← hsubject, ← hsubject', hrow]

theorem mem_otherSessions {subject : List UInt8} {e : DeviceSessionEntry} :
    e ∈ otherSessions store header a subject ↔
      e ∈ readDeviceSessions store header a ∧ e.subject ≠ subject := by
  simp [otherSessions]

theorem length_otherSessions {subject : List UInt8} :
    (otherSessions store header a subject).length ≤ maxDeviceSessions :=
  (List.length_filter_le _ _).trans length_readDeviceSessions

/-- What comes back of a new cookie verifies token by token. -/
theorem mem_verifiedSessions (hlib : lib.Documented) {tokens : List DeviceToken} {age : Int}
    (hage : IsCookieAge age) (hissued : ∀ t ∈ tokens, IsIssued lib t)
    (hcount : tokens.length ≤ maxDeviceSessions) {now : Int} {e : DeviceSessionEntry} :
    e ∈ verifiedSessions store
        (cookieHeader (setDeviceCookie (joinDeviceTokens tokens) age)) now ↔
      e.token ∈ tokens ∧ store.verify e.token now = some e.subject := by
  rw [verifiedSessions, (presentedTokens_setDeviceCookie hlib hage hissued hcount).2,
    List.mem_filterMap]
  constructor
  · rintro ⟨t, ht, he⟩
    obtain ⟨subject, hsubject, rfl⟩ := Option.map_eq_some_iff.mp he
    exact ⟨ht, hsubject⟩
  · rintro ⟨ht, hverify⟩
    exact ⟨e.token, ht, by rw [hverify]; rfl⟩

/-- Revoking the sessions of one account leaves those of others. -/
theorem revokeTokens_rows_of_other {subject : List UInt8} {tokens : List DeviceToken}
    (htokens : ∀ t ∈ tokens, ∃ e ∈ readDeviceSessions store header a,
      e.token = t ∧ e.subject = subject) {e : DeviceSessionEntry}
    (he : e ∈ otherSessions store header a subject) :
    (revokeTokens a store tokens).rows (lib.sha256 e.token) =
      store.rows (lib.sha256 e.token) := by
  obtain ⟨hread, hne⟩ := mem_otherSessions.mp he
  rw [revokeTokens_rows, if_neg]
  rintro ⟨t, ht, -, hhash⟩
  obtain ⟨e', he', rfl, rfl⟩ := htokens t ht
  exact hne (subject_eq_of_hash hread he' hhash)

/-- The stale sessions of an account, by their tokens. -/
theorem mem_staleTokens {subject : List UInt8} :
    ∀ t ∈ ((readDeviceSessions store header a).filter (·.subject = subject)).map (·.token),
      ∃ e ∈ readDeviceSessions store header a, e.token = t ∧ e.subject = subject := by
  intro t ht
  obtain ⟨e, he, rfl⟩ := List.mem_map.mp ht
  obtain ⟨hread, hsubject⟩ := List.mem_filter.mp he
  exact ⟨e, hread, rfl, of_decide_eq_true hsubject⟩

/-- The tokens of the sessions that are evicted, the oldest first. -/
def evictedTokens (others : List DeviceSessionEntry) : List DeviceToken :=
  (others.map (·.token)).take (others.length + 1 - maxDeviceSessions)

/-- The tokens of the sessions that are kept. -/
def keptTokens (others : List DeviceSessionEntry) : List DeviceToken :=
  (others.map (·.token)).drop (others.length + 1 - maxDeviceSessions)

theorem evictedTokens_append (others : List DeviceSessionEntry) :
    evictedTokens others ++ keptTokens others = others.map (·.token) := List.take_append_drop _ _

/-- Of at most five sessions only the oldest of five is evicted. -/
theorem mem_evictedTokens {others : List DeviceSessionEntry}
    (hlength : others.length ≤ maxDeviceSessions) {t : DeviceToken}
    (ht : t ∈ evictedTokens others) : others.length = maxDeviceSessions ∧
      ∃ oldest ∈ others.head?, oldest.token = t := by
  unfold evictedTokens maxDeviceSessions at *
  cases others with
  | nil => simp at ht
  | cons oldest rest =>
    have hpos : (oldest :: rest).length + 1 - 5 ≠ 0 := by
      intro hzero
      rw [hzero, List.take_zero] at ht
      cases ht
    have hone : (oldest :: rest).length + 1 - 5 = 1 := by omega
    rw [hone, List.map_cons, List.take_succ_cons, List.take_zero, List.mem_singleton] at ht
    exact ⟨by omega, oldest, rfl, ht.symm⟩

theorem exists_of_mem_evictedTokens {others : List DeviceSessionEntry} {t : DeviceToken}
    (ht : t ∈ evictedTokens others) : ∃ e ∈ others, e.token = t :=
  List.mem_map.mp (List.mem_of_mem_take ht)

theorem exists_of_mem_keptTokens {others : List DeviceSessionEntry} {t : DeviceToken}
    (ht : t ∈ keptTokens others) : ∃ e ∈ others, e.token = t :=
  List.mem_map.mp (List.mem_of_mem_drop ht)

/-- All that a successful sign-in does. -/
structure SigninEffect (store : DeviceStore lib) (header : Option (List UInt8)) (a : DeviceAnswers)
    (subject : DeviceSubject) (signed : SignedIn) (store' : DeviceStore lib) : Prop where
  issued : IsIssued lib signed.token
  made : store'.rows (lib.sha256 signed.token) =
    some ⟨subject.val, a.now + DeviceStore.lifetimeSeconds⟩
  kept : ∀ hash row, store.rows hash = some row → a.now < row.expiresAt →
    (∀ e ∈ readDeviceSessions store header a, e.subject = subject.val →
      hash ≠ lib.sha256 e.token) →
    (∀ t ∈ evictedTokens (otherSessions store header a subject.val), hash ≠ lib.sha256 t) →
    store'.rows hash = some row
  old : ∀ hash row, store'.rows hash = some row →
    hash = lib.sha256 signed.token ∨ store.rows hash = some row
  cookie : signed.setCookie = setDeviceCookie (joinDeviceTokens
    (keptTokens (otherSessions store header a subject.val) ++ [signed.token]))
    DeviceStore.lifetimeSeconds

theorem signinEffect {subject : DeviceSubject} {signed : SignedIn} {store' : DeviceStore lib}
    (h : finishDeviceSignin store header a subject = (some signed, store')) :
    SigninEffect store header a subject signed store' := by
  simp only [finishDeviceSignin, evictOldest_eq] at h
  split at h
  · cases h
  next token made hcreate =>
  cases h
  obtain ⟨hissued, hmade, hstay, hback⟩ := DeviceStore.create_eq_some hcreate
  refine ⟨hissued, hmade, fun hash row hrow hlive hstale hevicted => ?_, fun hash row hrow => ?_,
    by rw [keptTokens, otherSessions]; simp only [List.length_map]⟩
  · refine hstay hash row ?_ hlive
    rw [revokeTokens_rows, if_neg, revokeTokens_rows, if_neg, hrow]
    · rintro ⟨t, ht, -, hhash⟩
      obtain ⟨e, he, rfl⟩ := List.mem_map.mp ht
      obtain ⟨hread, hsubject⟩ := List.mem_filter.mp he
      exact hstale e hread (of_decide_eq_true hsubject) hhash
    · rintro ⟨t, ht, -, hhash⟩
      refine hevicted t ?_ hhash
      rw [evictedTokens, otherSessions]
      simpa only [List.length_map] using ht
  · refine (hback hash row hrow).imp_right fun hrow => ?_
    rw [revokeTokens_rows] at hrow
    split_ifs at hrow
    rw [revokeTokens_rows] at hrow
    split_ifs at hrow
    exact hrow

namespace SigninEffect

variable {subject : DeviceSubject} {signed : SignedIn} {store' : DeviceStore lib}

/-- A session that is not evicted is verified as before. -/
theorem verify_other (heffect : SigninEffect store header a subject signed store')
    {e : DeviceSessionEntry} (he : e ∈ otherSessions store header a subject.val)
    (hevicted : ∀ t ∈ evictedTokens (otherSessions store header a subject.val),
      lib.sha256 e.token ≠ lib.sha256 t) : store'.verify e.token a.now = some e.subject := by
  obtain ⟨hread, hne⟩ := mem_otherSessions.mp he
  have hverify := (mem_readDeviceSessions.mp hread).2.2
  obtain ⟨-, r, hrow, hlive, -⟩ := DeviceStore.verify_eq_some.mp hverify
  rw [← hverify]
  apply DeviceStore.verify_congr
  rw [hrow]
  refine heffect.kept _ r hrow hlive (fun e' hread' hsubject hhash => ?_) hevicted
  exact hne ((subject_eq_of_hash hread hread' hhash).trans hsubject)

/-- The new session is verified. -/
theorem verify_new (hlib : lib.Documented)
    (heffect : SigninEffect store header a subject signed store') :
    store'.verify signed.token a.now = some subject.val := by
  refine DeviceStore.verify_eq_some.mpr ⟨?_, _, heffect.made, ?_, ?_⟩
  · intro hnil
    have hlength := heffect.issued.length hlib
    rw [hnil] at hlength
    cases hlength
  · simp only [DeviceStore.lifetimeSeconds]
    omega
  · rw [cString_eq_self subject.property.2, List.take_of_length_le subject.property.1]

/-- A presented token of another account is not verified for this one, unless it is the new one. -/
theorem token_eq_new (hapart : HashesApart lib header)
    (heffect : SigninEffect store header a subject signed store') {e e₀ : DeviceSessionEntry}
    (he₀ : e₀ ∈ otherSessions store header a subject.val) (htoken : e₀.token = e.token)
    (hverify : store'.verify e.token a.now = some e.subject) (hsubject : e.subject = subject.val) :
    e.token = signed.token := by
  obtain ⟨hread₀, hne⟩ := mem_otherSessions.mp he₀
  obtain ⟨hpresented, -, hverify₀⟩ := mem_readDeviceSessions.mp hread₀
  obtain ⟨-, r, hrow, -, hcut⟩ := DeviceStore.verify_eq_some.mp hverify
  rcases heffect.old _ r hrow with hhash | hrow
  · obtain ⟨raw, hraw⟩ := heffect.issued
    rw [htoken] at hpresented
    rw [hraw]
    exact hapart e.token hpresented raw (hraw ▸ hhash)
  · obtain ⟨-, r₀, hrow₀, -, hcut₀⟩ := DeviceStore.verify_eq_some.mp hverify₀
    rw [htoken, hrow, Option.some.injEq] at hrow₀
    refine absurd ?_ hne
    rw [← hcut₀, ← hrow₀, hcut, hsubject]

/-- The tokens of the new cookie were handed out, and there are at most five. -/
theorem cookieTokens (hapart : HashesApart lib header)
    (heffect : SigninEffect store header a subject signed store') :
    (∀ t ∈ keptTokens (otherSessions store header a subject.val) ++ [signed.token],
      IsIssued lib t) ∧
    (keptTokens (otherSessions store header a subject.val) ++ [signed.token]).length ≤
      maxDeviceSessions := by
  have hlength : (otherSessions store header a subject.val).length ≤ maxDeviceSessions :=
    length_otherSessions
  constructor
  · intro t ht
    rcases List.mem_append.mp ht with ht | ht
    · obtain ⟨e, he, rfl⟩ := exists_of_mem_keptTokens ht
      exact isIssued_of_mem hapart (mem_otherSessions.mp he).1
    · rw [List.mem_singleton.mp ht]
      exact heffect.issued
  · simp only [keptTokens, List.length_append, List.length_drop, List.length_map,
      List.length_singleton]
    unfold maxDeviceSessions at *
    omega

end SigninEffect

/-- After a sign-in the cookie verifies to one session of the account and to the other sessions that
were read, but for the oldest of five. -/
theorem signsIn (hlib : lib.Documented) (hapart : HashesApart lib header) {subject : DeviceSubject}
    {signed : SignedIn} {store' : DeviceStore lib}
    (h : finishDeviceSignin store header a subject = (some signed, store')) :
    SignsIn store header a subject signed store' := by
  have heffect := signinEffect h
  obtain ⟨hissued, hcount⟩ := heffect.cookieTokens hapart
  refine ⟨fun e => ?_, fun e he holdest => ?_, ?_, ?_⟩
  · rw [heffect.cookie, mem_verifiedSessions hlib (Or.inr rfl) hissued hcount]
    constructor
    · rintro ⟨⟨htoken, hverify⟩, hsubject⟩
      suffices heq : e.token = signed.token by rw [← heq, ← hsubject]
      rcases List.mem_append.mp htoken with hold | hlast
      · obtain ⟨e₀, he₀, hsame⟩ := exists_of_mem_keptTokens hold
        exact heffect.token_eq_new hapart he₀ hsame hverify hsubject
      · exact List.mem_singleton.mp hlast
    · rintro rfl
      exact ⟨⟨List.mem_append_right _ List.mem_cons_self, heffect.verify_new hlib⟩, rfl⟩
  · have hne : ∀ t ∈ evictedTokens (otherSessions store header a subject.val), e.token ≠ t := by
      intro t ht
      obtain ⟨hfull, oldest, hhead, rfl⟩ := mem_evictedTokens length_otherSessions ht
      exact holdest hfull oldest hhead
    rw [heffect.cookie, mem_verifiedSessions hlib (Or.inr rfl) hissued hcount]
    refine ⟨?_, heffect.verify_other he fun t ht hhash => hne t ht ?_⟩
    · have htoken := List.mem_map_of_mem (f := (·.token)) he
      rw [← evictedTokens_append] at htoken
      exact List.mem_append_left _
        ((List.mem_append.mp htoken).resolve_left fun ht => hne e.token ht rfl)
    · obtain ⟨e', he', rfl⟩ := exists_of_mem_evictedTokens ht
      obtain ⟨raw, hraw⟩ := isIssued_of_mem hapart (mem_otherSessions.mp he').1
      have hpresented := (mem_readDeviceSessions.mp (mem_otherSessions.mp he).1).1
      rw [hraw]
      exact hapart e.token hpresented raw (hraw ▸ hhash)
  · intro hash row hrow hlive hnot
    refine heffect.kept hash row hrow hlive (fun e he _ => ?_) fun t ht => ?_
    · exact hnot e.token (mem_readDeviceSessions.mp he).1
    · obtain ⟨e, he, rfl⟩ := exists_of_mem_evictedTokens ht
      exact hnot e.token (mem_readDeviceSessions.mp (mem_otherSessions.mp he).1).1
  · rw [heffect.cookie]
    exact ⟨_, (presentedTokens_setDeviceCookie hlib (Or.inr rfl) hissued hcount).1⟩

/-- A sign-out of one account gives the cookie back with the tokens of all others. -/
theorem oauthSignout_some {did : List UInt8} (hdid : did ≠ []) :
    (∃ age, IsCookieAge age ∧ (oauthSignout store header a (some did)).1 = setDeviceCookie
      (joinDeviceTokens ((otherSessions store header a did).map (·.token))) age) ∧
    (oauthSignout store header a (some did)).2 = revokeTokens a store
      (((readDeviceSessions store header a).filter (·.subject = did)).map (·.token)) := by
  have hfilter : (some did).filter (· ≠ []) = some did := by simp [hdid]
  have hkeep : ((readDeviceSessions store header a).filter fun e =>
      !(some did).all (e.subject = ·)) = otherSessions store header a did := by
    simp [otherSessions]
  simp only [oauthSignout, hfilter, hkeep]
  refine ⟨?_, by simp⟩
  split_ifs with hnil
  · refine ⟨0, Or.inl rfl, ?_⟩
    rw [hnil]
    rfl
  · exact ⟨_, Or.inr rfl, rfl⟩

/-- After a sign-out of one account the cookie verifies to every other session that was read. -/
theorem signsOut (hlib : lib.Documented) (hapart : HashesApart lib header) {did : List UInt8}
    (hdid : did ≠ []) : SignsOut store header a did (oauthSignout store header a (some did)).1
      (oauthSignout store header a (some did)).2 := by
  obtain ⟨⟨age, hage, hline⟩, hstore⟩ := @oauthSignout_some lib store header a did hdid
  have hissued : ∀ t ∈ (otherSessions store header a did).map (·.token), IsIssued lib t := by
    intro t ht
    obtain ⟨e, he, rfl⟩ := List.mem_map.mp ht
    exact isIssued_of_mem hapart (mem_otherSessions.mp he).1
  have hcount : ((otherSessions store header a did).map (·.token)).length ≤ maxDeviceSessions := by
    rw [List.length_map]
    exact length_otherSessions
  obtain ⟨huncut, hback⟩ := presentedTokens_setDeviceCookie hlib hage hissued hcount
  rw [hline, hstore]
  refine ⟨?_, _, age, huncut⟩
  rw [verifiedSessions, hback, List.filterMap_map]
  have hverify : ∀ e ∈ otherSessions store header a did,
      ((fun t => ((revokeTokens a store (((readDeviceSessions store header a).filter
        (·.subject = did)).map (·.token))).verify t a.now).map (DeviceSessionEntry.mk t)) ∘
        (·.token)) e = some e := by
    intro e he
    have hold := (mem_readDeviceSessions.mp (mem_otherSessions.mp he).1).2.2
    have hrows := revokeTokens_rows_of_other mem_staleTokens he
    simp only [Function.comp_apply, DeviceStore.verify_congr hrows, hold, Option.map_some]
  rw [List.filterMap_congr hverify, List.filterMap_some]

/-- After a sign-out of all accounts no session that was read is verified any more. -/
theorem signsOutAll (hlib : lib.Documented) {did : Option (List UInt8)}
    (hdid : did.filter (· ≠ []) = none) : SignsOutAll store header a
      (oauthSignout store header a did).1 (oauthSignout store header a did).2 := by
  have hgone : ((readDeviceSessions store header a).filter fun e =>
      (none : Option (List UInt8)).all (e.subject = ·)) = readDeviceSessions store header a := by
    simp
  have hline : (oauthSignout store header a did).1 = setDeviceCookie (joinDeviceTokens []) 0 := by
    have hkeep : ((readDeviceSessions store header a).filter fun e =>
        !(none : Option (List UInt8)).all (e.subject = ·)) = [] := by simp
    simp only [oauthSignout, hdid, hkeep, List.map_nil, if_true]
    rfl
  have hstore : (oauthSignout store header a did).2 = revokeTokens a store
      ((readDeviceSessions store header a).map (·.token)) := by
    simp only [oauthSignout, hdid, hgone]
  have hnone : ∀ t ∈ ([] : List DeviceToken), IsIssued lib t := by simp
  obtain ⟨huncut, hback⟩ :=
    presentedTokens_setDeviceCookie hlib (Or.inl rfl) hnone (Nat.zero_le _)
  rw [hline, hstore]
  refine ⟨fun e he hdeletes => ?_, ?_, _, 0, huncut⟩
  · apply DeviceStore.verify_eq_none_of_rows
    rw [revokeTokens_rows, if_pos]
    exact ⟨e.token, List.mem_map_of_mem he, hdeletes, rfl⟩
  · rw [verifiedSessions, hback]
    rfl

/-- The three handlers, for every cookie: what the new cookie verifies to, what is left alone and
what is revoked, and that the line is never cut. -/
theorem device_sessions_of_one_browser (hlib : lib.Documented) (hapart : HashesApart lib header) :
    (∀ (subject : DeviceSubject) (signed : SignedIn) (store' : DeviceStore lib),
      finishDeviceSignin store header a subject = (some signed, store') →
        SignsIn store header a subject signed store') ∧
    (∀ did, did ≠ [] → SignsOut store header a did (oauthSignout store header a (some did)).1
      (oauthSignout store header a (some did)).2) ∧
    ∀ did : Option (List UInt8), did.filter (· ≠ []) = none →
      SignsOutAll store header a (oauthSignout store header a did).1
        (oauthSignout store header a did).2 :=
  ⟨fun _ _ _ h => signsIn hlib hapart h, fun _ hdid => signsOut hlib hapart hdid,
    fun _ hdid => signsOutAll hlib hdid⟩

/-! ## One browser -/

/-- A letter of base64url. -/
def base64urlLetter (n : Nat) : UInt8 :=
  if n < 26 then UInt8.ofNat (65 + n)
  else if n < 52 then UInt8.ofNat (71 + n)
  else if n < 62 then UInt8.ofNat (n - 4)
  else if n = 62 then 45
  else 95

/-- Base64url without padding. -/
def encodeBase64url : List UInt8 → DeviceToken
  | x :: y :: z :: rest => base64urlLetter (x.toNat / 4) ::
      base64urlLetter (x.toNat % 4 * 16 + y.toNat / 16) ::
      base64urlLetter (y.toNat % 16 * 4 + z.toNat / 64) ::
      base64urlLetter (z.toNat % 64) :: encodeBase64url rest
  | [x, y] => [base64urlLetter (x.toNat / 4), base64urlLetter (x.toNat % 4 * 16 + y.toNat / 16),
      base64urlLetter (y.toNat % 16 * 4)]
  | [x] => [base64urlLetter (x.toNat / 4), base64urlLetter (x.toNat % 4 * 16)]
  | [] => []

theorem isBase64url_letter (n : Nat) : isBase64url (base64urlLetter n) = true := by
  by_cases h : n < 63
  · have hall : ∀ n < 63, isBase64url (base64urlLetter n) = true := by decide
    exact hall n h
  · have hlast : base64urlLetter n = 95 := by
      rw [base64urlLetter, if_neg (by omega), if_neg (by omega), if_neg (by omega),
        if_neg (by omega)]
    rw [hlast]
    decide

/-- A device without accounts hands out two tokens, and somebody presents a third. -/
def exampleDevice : DeviceLibrary where
  sha256 := fun token =>
    if token = encodeBase64url (List.replicate 32 0) then
      [15, 0, 115, 133, 182, 249, 212, 183, 238, 178, 116, 134, 5, 175, 225, 169, 132, 160, 163,
    191, 163, 240, 20, 208, 158, 42, 120, 76, 233, 229, 205, 26]
    else if token = encodeBase64url (1 :: List.replicate 31 0) then
      [30, 40, 97, 181, 83, 157, 183, 46, 22, 125, 173, 225, 130, 176, 210, 94, 11, 190, 193, 5,
    167, 36, 197, 98, 48, 68, 233, 244, 101, 41, 175, 9]
    else if token = [120] then
      [45, 113, 22, 66, 183, 38, 176, 68, 1, 98, 124, 169, 251, 172, 50, 245, 200, 83, 15, 177,
    144, 60, 196, 219, 2, 37, 135, 23, 146, 26, 72, 129]
    else token
  base64urlEncode := encodeBase64url

theorem exampleDevice_documented : exampleDevice.Documented where
  length := by
    have hlength : ∀ raw, (encodeBase64url raw).length = (4 * raw.length + 2) / 3 := by
      intro raw
      induction raw using encodeBase64url.induct with
      | case1 x y z rest ih =>
        simp only [encodeBase64url, List.length_cons, ih]
        omega
      | case2 | case3 | case4 => simp [encodeBase64url]
    intro raw
    exact (hlength raw).trans (by rw [raw.property])
  alphabet := by
    intro raw
    show (encodeBase64url raw).all isBase64url = true
    induction raw using encodeBase64url.induct with
    | case1 x y z rest ih => simp [encodeBase64url, isBase64url_letter, ih]
    | case2 | case3 | case4 => simp [encodeBase64url, isBase64url_letter]

/-- Only the first token has its hash among those that are handed out. -/
theorem hashesApart_first {raw : RandomBytes}
    (h : exampleDevice.sha256 (encodeBase64url (List.replicate 32 0)) =
      exampleDevice.sha256 (exampleDevice.base64urlEncode raw)) :
    encodeBase64url (List.replicate 32 0) = exampleDevice.base64urlEncode raw := by
  by_contra hfirst
  have hlength : (exampleDevice.base64urlEncode raw).length = 43 :=
    exampleDevice_documented.length raw
  have hsecond :
      exampleDevice.base64urlEncode raw ≠ encodeBase64url (1 :: List.replicate 31 0) := by
    intro heq
    rw [heq] at h
    revert h
    decide +kernel
  have hthird : exampleDevice.base64urlEncode raw ≠ [120] := by
    intro heq
    rw [heq] at hlength
    cases hlength
  have hself : exampleDevice.sha256 (exampleDevice.base64urlEncode raw) =
      exampleDevice.base64urlEncode raw := by
    simp only [exampleDevice] at hfirst hsecond hthird ⊢
    rw [if_neg (Ne.symm hfirst), if_neg hsecond, if_neg hthird]
  have hshort : (exampleDevice.sha256 (encodeBase64url (List.replicate 32 0))).length = 32 := by
    decide +kernel
  rw [h, hself] at hshort
  omega

/-- The account `did:web:a` has a session with the first token. -/
def exampleDeviceStore : DeviceStore exampleDevice where
  rows := fun hash => if hash = exampleDevice.sha256 (encodeBase64url (List.replicate 32 0)) then
    some ⟨"did:web:a".toUTF8.toList, 2000000000⟩ else none
  issued := by
    intro hash r h
    split_ifs at h with hhash
    exact ⟨⟨List.replicate 32 0, List.length_replicate⟩, hhash⟩

/-- The database works, and the next token is the second. -/
def exampleDeviceAnswers : DeviceAnswers where
  now := 1790000000
  selects := fun _ => true
  deletes := fun _ => true
  prunes := true
  random := some ⟨1 :: List.replicate 31 0, by decide⟩
  inserts := true

/-- The header with the first token. -/
def exampleDeviceHeader : List UInt8 :=
  "mb_device=AAAAAAAAAAAAAAAAAAAAAAAAAAAAAAAAAAAAAAAAAAA".toUTF8.toList

/-- Another account signs in, and the cookie carries both. -/
theorem device_sessions_of_one_browser_two : ∃ signed,
    (finishDeviceSignin exampleDeviceStore (some exampleDeviceHeader) exampleDeviceAnswers
      ⟨"did:web:b".toUTF8.toList, by decide +kernel⟩).1 = some signed ∧
    SignsIn exampleDeviceStore (some exampleDeviceHeader) exampleDeviceAnswers
      ⟨"did:web:b".toUTF8.toList, by decide +kernel⟩ signed
      (finishDeviceSignin exampleDeviceStore (some exampleDeviceHeader) exampleDeviceAnswers
        ⟨"did:web:b".toUTF8.toList, by decide +kernel⟩).2 := by
  have hsome : (finishDeviceSignin exampleDeviceStore (some exampleDeviceHeader)
      exampleDeviceAnswers ⟨"did:web:b".toUTF8.toList, by decide +kernel⟩).1.isSome = true := by
    decide +kernel
  obtain ⟨signed, hsigned⟩ := Option.isSome_iff_exists.mp hsome
  refine ⟨signed, hsigned, (device_sessions_of_one_browser exampleDevice_documented ?_).1 _ _ _
    (Prod.ext hsigned rfl)⟩
  have htokens : presentedTokens (some exampleDeviceHeader) =
      [encodeBase64url (List.replicate 32 0)] := by decide +kernel
  intro t ht raw hhash
  rw [htokens, List.mem_singleton] at ht
  subst ht
  exact hashesApart_first hhash

/-- Five tokens that are none come before the one that is: a sign-out of all accounts does not see
it, and its session stays. -/
theorem sixth_session_survives : ¬ ∀ t ∈ pieces tokenSep
    ("x.x.x.x.x.AAAAAAAAAAAAAAAAAAAAAAAAAAAAAAAAAAAAAAAAAAA".toUTF8.toList),
    (oauthSignout exampleDeviceStore
      (some "mb_device=x.x.x.x.x.AAAAAAAAAAAAAAAAAAAAAAAAAAAAAAAAAAAAAAAAAAA".toUTF8.toList)
      exampleDeviceAnswers none).2.verify t exampleDeviceAnswers.now = none := by
  decide +kernel

end Cookies

end MetalBear.OAuth
