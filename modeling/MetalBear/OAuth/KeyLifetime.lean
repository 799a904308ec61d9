import MetalBear.OAuth.Tokens

/-!
# The signing key in memory and on disk

The file of a session store and the stores that are opened on it. Opening loads the signing key
into memory, or makes one; every call signs and verifies with the key in memory.
`metalbear_auth_delete_all` deletes the key of the file and leaves the one in memory, so that what
a store accepts and what it accepts once it is reopened part there, and nowhere else.
-/

namespace MetalBear.OAuth

open KeyTable Machine

/-! ## Opening a store -/

/-- `JWT_KEY_BYTES`. -/
def jwtKeyBytes : Nat := 32

/-- The `key` of a store. -/
abbrev JwtKey := { key : List UInt8 // key.length = jwtKeyBytes }

/-- What SQLite and the random generator make of an opening. -/
structure OpenEnv where
  /-- The database is opened and its tables are there. -/
  opened : Bool
  prepared : Bool
  /-- The `SELECT` ends in a row or at the end. -/
  selected : Bool
  random : Option JwtKey
  inserted : Bool

/-- `load_or_create_key` on the row `jwt_key` of `auth_meta`: the row it leaves, and the key
unless it fails. -/
def loadOrCreateKey (metaKey : Option (List UInt8)) (env : OpenEnv) :
    Option (List UInt8) × Option JwtKey :=
  if env.prepared = false ∨ env.selected = false then (metaKey, none)
  else
    match metaKey with
    | some key => (metaKey, if h : key.length = jwtKeyBytes then some ⟨key, h⟩ else none)
    | none =>
      match env.random with
      | none => (none, none)
      | some key => if env.inserted = true then (some key.val, some key) else (none, none)

/-- `metalbear_auth_store_open`. -/
def authStoreOpen (metaKey : Option (List UInt8)) (env : OpenEnv) :
    Option (List UInt8) × Except WfError JwtKey :=
  if env.opened = false then (metaKey, .error .internal)
  else
    match loadOrCreateKey metaKey env with
    | (metaKey, some key) => (metaKey, .ok key)
    | (metaKey, none) => (metaKey, .error .internal)

/-- Which statements of a deletion SQLite carries out. -/
structure DeleteEnv where
  refreshDeleted : Bool
  metaDeleted : Bool

/-- `metalbear_auth_delete_all`: the second statement runs if the first one has. -/
def authDeleteAll (t : RefreshTable) (metaKey : Option (List UInt8)) (env : DeleteEnv) :
    RefreshTable × Option (List UInt8) × Except WfError Unit :=
  if env.refreshDeleted = false then (t, metaKey, .error .internal)
  else if env.metaDeleted = false then (empty, metaKey, .error .internal)
  else (empty, none, .ok ())

/-- A key of the file stays, and is the one that is loaded. -/
theorem authStoreOpen_of_some {key : JwtKey} {env : OpenEnv} {metaKey : Option (List UInt8)}
    {result : Except WfError JwtKey}
    (h : authStoreOpen (some key.val) env = (metaKey, result)) :
    metaKey = some key.val ∧ ∀ loaded, result = .ok loaded → loaded = key := by
  simp only [authStoreOpen, loadOrCreateKey, dif_pos key.property] at h
  split at h
  · cases h
    exact ⟨rfl, nofun⟩
  · split at h
    · rename_i hload
      split at hload <;> cases hload
      cases h
      exact ⟨rfl, fun loaded hloaded => (Except.ok.inj hloaded).symm⟩
    · rename_i hload
      cases h
      refine ⟨?_, nofun⟩
      split at hload <;> cases hload
      rfl

/-- The key that is loaded is the key of the file from then on. -/
theorem metaKey_of_authStoreOpen {metaKey metaKey' : Option (List UInt8)} {env : OpenEnv}
    {key : JwtKey} (h : authStoreOpen metaKey env = (metaKey', .ok key)) :
    metaKey' = some key.val := by
  unfold authStoreOpen at h
  split at h
  · cases h
  · split at h
    · rename_i hload
      cases h
      unfold loadOrCreateKey at hload
      split at hload
      · cases hload
      · split at hload
        · split at hload
          · cases hload
            rfl
          · cases hload
        · split at hload
          · cases hload
          · split at hload <;> cases hload
            rfl
    · cases h

/-- Where the file has no key, any key may be loaded. -/
theorem authStoreOpen_of_none (key : JwtKey) :
    authStoreOpen none ⟨true, true, true, some key, true⟩ = (some key.val, .ok key) := rfl

/-! ## Runs -/

/-- What the stores on a file are opened with. -/
structure KeySetting where
  lib : TokenLibrary
  print : JsonPrinter
  serviceDid : String
  accountDid : String

/-- The store that holds this key. -/
def KeySetting.store (w : KeySetting) (key : JwtKey) : AuthStore :=
  ⟨key.val, w.serviceDid, w.accountDid⟩

/-- The claims of the two tokens of a session. -/
def SessionTokens.jwts (tokens : SessionTokens) : List JwtClaims :=
  [⟨.access, tokens.accessScope, "", .finite tokens.accessIat, .finite tokens.accessExp⟩,
    ⟨.refresh, tokens.accessScope, tokens.refresh.jti, tokens.refresh.iat, tokens.refresh.exp⟩]

/-- A token that was issued, and the key that signed it. -/
structure IssuedJwt where
  key : JwtKey
  claims : JwtClaims

/-- The text of a token. -/
def KeySetting.text (w : KeySetting) (t : IssuedJwt) : String :=
  createJwt w.lib w.print (w.store t.key) t.claims

/-- The tokens of an answer. -/
def issuedBy (key : JwtKey) : Option (RefreshTable × Issued) → List IssuedJwt
  | some (_, .ok tokens) => tokens.jwts.map fun c => ⟨key, c⟩
  | _ => []

/-- A state of a run: the file, the keys of the stores that are open on it, and what was issued. -/
structure KeyRun where
  /-- The row `jwt_key` of `auth_meta`. -/
  metaKey : Option (List UInt8)
  /-- The table `refresh_token`, and what the calls on it have done. -/
  sessions : RefreshRun
  /-- The `key` of each store that is open. -/
  held : ℕ → Option JwtKey
  /-- The rows of `refresh_token` as they last were, since the last deletion. -/
  history : RefreshTable
  /-- The tokens that were issued since the last deletion. -/
  issued : List IssuedJwt
  /-- The tokens that were issued before a call of `metalbear_auth_delete_all`. -/
  ended : List IssuedJwt

/-- The steps of a run. -/
inductive KeyEvent where
  | openStore (i : ℕ) (env : OpenEnv)
  | closeStore (i : ℕ)
  | call (i : ℕ) (call : RefreshCall)
  | deleteAll (i : ℕ) (env : DeleteEnv)

/-- The state after a deletion. -/
def KeyRun.deleted (s : KeyRun) (env : DeleteEnv) : KeyRun :=
  match authDeleteAll s.sessions.table s.metaKey env with
  | (table, metaKey, result) =>
    { s with
      metaKey
      sessions := { s.sessions with table }
      history := if env.refreshDeleted = true then empty else s.history
      issued := if env.refreshDeleted = true then [] else s.issued
      ended := match result with
        | .ok _ => s.issued ++ s.ended
        | .error _ => s.ended }

/-- One step. Each store that is opened has a number of its own. -/
def KeyRun.step (w : KeySetting) (s : KeyRun) : KeyEvent → KeyRun
  | .openStore i env =>
    if (s.held i).isSome = true then s
    else
      match authStoreOpen s.metaKey env with
      | (metaKey, .ok key) => { s with metaKey, held := Function.update s.held i (some key) }
      | (metaKey, .error _) => { s with metaKey }
  | .closeStore i => { s with held := Function.update s.held i none }
  | .call i call =>
    match s.held i with
    | none => s
    | some key =>
      let sessions := s.sessions.step w.lib (w.store key) call
      { s with
        sessions
        history := fun k => (sessions.table k).or (s.history k)
        issued := issuedBy key (s.sessions.answer w.lib (w.store key) call) ++ s.issued }
  | .deleteAll i env => if (s.held i).isSome = true then s.deleted env else s

/-- The clock does not go back, ids are new, no token is forged, and the tokens that are issued can
be read. -/
def KeyRun.Allows (w : KeySetting) (s : KeyRun) : KeyEvent → Prop
  | .call i call => ∀ key, s.held i = some key → s.sessions.Allows w.lib (w.store key) call ∧
      ∀ t ∈ issuedBy key (s.sessions.answer w.lib (w.store key) call),
        t.claims.Legible w.lib w.print (w.store t.key)
  | _ => True

/-- No store is open, and nothing was issued yet. -/
structure KeyRun.OnDisk (w : KeySetting) (s : KeyRun) : Prop where
  closed : ∀ i, s.held i = none
  sound : ∀ key, s.sessions.Sound (w.store key)
  history : s.history = s.sessions.table
  issued : s.issued = []
  ended : s.ended = []

/-! ## What a store accepts -/

/-- Whether an open store accepts an access token. -/
def KeyRun.verifyAccess (w : KeySetting) (s : KeyRun) (i : ℕ) (now : Int) (token : String) :
    Option (Except WfError AccessScope) :=
  (s.held i).map fun key => authVerifyAccessScope w.lib (w.store key) now token

/-- What an open store answers to a refresh token. -/
def KeyRun.rotateRefresh (w : KeySetting) (s : KeyRun) (i : ℕ) (token : String)
    (envs : List RotateEnv) : Option (Option (RefreshTable × Issued)) :=
  (s.held i).map fun key =>
    OAuth.rotateRefresh w.lib (w.store key) s.sessions.table token envs

/-- The store is closed and opened again. -/
def KeyRun.reopened (w : KeySetting) (s : KeyRun) (i : ℕ) (env : OpenEnv) : KeyRun :=
  (s.step w (.closeStore i)).step w (.openStore i env)

/-- A refresh token with this row is in its lifetime: it is neither expired nor revoked, and if it
was rotated its grace is not over and its successor is not revoked. -/
def Lives (t : RefreshTable) (jti : String) (now : Int) : Prop :=
  ∃ row, t jti = some row ∧ row.refused now = false ∧
    ∀ next, row.nextJti = some next → ∃ succ, t next = some succ ∧ succ.revoked = false

/-- What the sessions mean does not depend on whether the store is in memory or on disk. -/
structure KeyRun.Coherent (w : KeySetting) (s : KeyRun) : Prop where
  /-- The key in memory is the key that reopening the store loads. -/
  key : ∀ i key, s.held i = some key → ∀ env metaKey loaded,
    authStoreOpen s.metaKey env = (metaKey, .ok loaded) → loaded = key
  /-- A reopened store answers as it did. -/
  reopened : ∀ i env, (s.held i).isSome = true → ((s.reopened w i env).held i).isSome = true →
    (∀ now token, (s.reopened w i env).verifyAccess w i now token = s.verifyAccess w i now token) ∧
    ∀ token envs, (s.reopened w i env).rotateRefresh w i token envs = s.rotateRefresh w i token envs
  /-- A token that was issued before a deletion is rejected. -/
  ended : ∀ t ∈ s.ended, ∀ i key, s.held i = some key → ∀ now verified,
    verifyJwt w.lib (w.store key) now (w.text t) t.claims.kind false ≠ .ok verified
  /-- An access token that was issued after it is accepted for its lifetime. -/
  access : ∀ t ∈ s.issued, t.claims.kind = .access → ∀ i key, s.held i = some key → ∀ now : Int,
    t.claims.iat ≤ Double.finite now → Double.finite now < t.claims.exp →
      authVerifyAccessScope w.lib (w.store key) now (w.text t) = .ok t.claims.accessScope
  /-- A refresh token that was issued after it is rotated for its lifetime. -/
  refresh : ∀ t ∈ s.issued, t.claims.kind = .refresh → ∀ i key, s.held i = some key →
    ∀ env more, s.sessions.clock ≤ env.verify → env.verify ≤ env.prune → env.prune ≤ env.check →
      env.jti ∉ s.sessions.used → Lives s.history t.claims.jti env.check →
      ∃ table tokens, OAuth.rotateRefresh w.lib (w.store key) s.sessions.table (w.text t)
        (env :: more) = some (table, .ok tokens)

/-- The step is not a deletion of the key while the store is open. -/
def KeyRun.KeepsKey (s : KeyRun) : KeyEvent → Prop
  | .deleteAll i env =>
    (s.held i).isSome = true → ¬ (env.refreshDeleted = true ∧ env.metaDeleted = true)
  | _ => True

/-! ## The invariant -/

/-- What holds while no step deletes the key of an open store: every key in memory, and every key
that signed a token, is the key of the file, and a row leaves the table only at the end of its
lifetime. -/
structure KeyRun.KeyKept (w : KeySetting) (s : KeyRun) : Prop where
  sound : ∀ key, s.sessions.Sound (w.store key)
  held : ∀ i key, s.held i = some key → s.metaKey = some key.val
  signed : ∀ t ∈ s.issued, s.metaKey = some t.key.val
  legible : ∀ t ∈ s.issued, t.claims.Legible w.lib w.print (w.store t.key)
  recorded : ∀ t ∈ s.issued, t.claims.kind = .refresh →
    ⟨t.claims.jti, t.claims.iat, t.claims.exp⟩ ∈ s.sessions.issued
  ended : s.ended = []
  history_of_table : ∀ k row, s.sessions.table k = some row → s.history k = some row
  table_of_history : ∀ k row, s.history k = some row → row.pruned s.sessions.clock = false →
    s.sessions.table k = some row

variable {w : KeySetting} {s s' : RefreshRun} {r : KeyRun}

/-- Soundness is about the account, not about the key. -/
theorem RefreshRun.Sound.of_did {store store' : AuthStore} (h : s.Sound store)
    (hdid : store'.accountDid = store.accountDid) : s.Sound store' :=
  { h with did := fun k row hrow => (h.did k row hrow).trans hdid.symm }

/-- Without a table there is nothing to be unsound. -/
theorem RefreshRun.Sound.emptied {store : AuthStore} (h : s.Sound store) :
    RefreshRun.Sound store { s with table := empty } where
  did _ _ hrow := by cases hrow
  used _ _ hrow := by cases hrow
  scope _ _ hrow := by cases hrow
  origin _ _ hrow := by cases hrow
  next_used _ _ _ hrow := by cases hrow
  grace _ _ _ hrow := by cases hrow
  issued c hc := by
    obtain ⟨hused, iat, exp, hsigned, hiat, -⟩ := h.issued c hc
    exact ⟨hused, iat, exp, hsigned, hiat, fun _ hrow => by cases hrow⟩

theorem KeyRun.OnDisk.keyKept (h : r.OnDisk w) : r.KeyKept w where
  sound := h.sound
  held i key hkey := by
    rw [h.closed i] at hkey
    cases hkey
  signed t ht := by
    rw [h.issued] at ht
    cases ht
  legible t ht := by
    rw [h.issued] at ht
    cases ht
  recorded t ht := by
    rw [h.issued] at ht
    cases ht
  ended := h.ended
  history_of_table k row hrow := by rw [h.history, hrow]
  table_of_history k row hrow _ := by rw [← h.history, hrow]

/-- A row that a call takes out of the table was prunable. -/
theorem pruned_of_gone {store : AuthStore} (h : Evolves store s s') {k : String}
    {row : RefreshRow} (hrow : s.table k = some row) (hgone : s'.table k = none) :
    row.pruned s'.clock = true := by
  cases hpruned : row.pruned s'.clock with
  | true => rfl
  | false =>
    have hkept := h.kept k row hrow hpruned
    rw [hgone] at hkept
    cases hkept

/-- The refresh token of an answer is recorded by the call. -/
theorem recorded_of_issuedBy {lib : TokenLibrary} {store : AuthStore} {call : RefreshCall}
    {key : JwtKey} {t : IssuedJwt} (ht : t ∈ issuedBy key (s.answer lib store call))
    (hkind : t.claims.kind = .refresh) :
    ⟨t.claims.jti, t.claims.iat, t.claims.exp⟩ ∈ (s.step lib store call).issued := by
  have hrecord : ∀ clock jti login, s.step lib store call =
      s.record clock jti login (s.answer lib store call) →
      ⟨t.claims.jti, t.claims.iat, t.claims.exp⟩ ∈ (s.step lib store call).issued := by
    intro clock jti login hstep
    rw [hstep]
    cases hanswer : s.answer lib store call with
    | none =>
      rw [hanswer] at ht
      cases ht
    | some answer =>
      obtain ⟨table, result⟩ := answer
      rw [hanswer] at ht
      cases result with
      | error e => cases ht
      | ok tokens =>
        simp only [issuedBy, SessionTokens.jwts, List.map_cons, List.map_nil, List.mem_cons,
          List.not_mem_nil, or_false] at ht
        rcases ht with rfl | rfl
        · cases hkind
        · exact List.mem_cons_self
  cases call with
  | create scope name env => exact hrecord _ _ _ rfl
  | rotate token env more => exact hrecord _ _ _ rfl
  | revoke token now => cases ht
  | revokeAppPassword name => cases ht
  | prune now => cases ht

theorem issued_of_step {lib : TokenLibrary} {store : AuthStore} {call : RefreshCall}
    {c : RefreshClaims} (h : c ∈ s.issued) : c ∈ (s.step lib store call).issued := by
  have hrecord : ∀ clock jti login answer, c ∈ (s.record clock jti login answer).issued := by
    intro clock jti login answer
    cases answer with
    | none => exact h
    | some answer =>
      obtain ⟨table, result⟩ := answer
      cases result with
      | error e => exact h
      | ok tokens => exact List.mem_cons_of_mem _ h
  cases call with
  | create scope name env => exact hrecord _ _ _ _
  | rotate token env more => exact hrecord _ _ _ _
  | revoke token now => exact h
  | revokeAppPassword name => exact h
  | prune now => exact h

theorem KeyRun.KeyKept.call (h : r.KeyKept w) {i : ℕ} {call : RefreshCall}
    (ha : r.Allows w (.call i call)) : (r.step w (.call i call)).KeyKept w := by
  rw [KeyRun.step]
  cases hheld : r.held i with
  | none => exact h
  | some key =>
    obtain ⟨hallows, hlegible⟩ := ha key hheld
    have hevolves := step_evolves (h.sound key) hallows
    have hkey : ∀ t ∈ issuedBy key (r.sessions.answer w.lib (w.store key) call), t.key = key := by
      intro t ht
      unfold issuedBy at ht
      split at ht
      · obtain ⟨c, -, rfl⟩ := List.mem_map.mp ht
        rfl
      · cases ht
    exact
      { sound := fun key' => (hevolves.sound (h.sound key)).of_did rfl
        held := h.held
        signed := fun t ht => by
          rcases List.mem_append.mp ht with ht | ht
          · rw [hkey t ht]
            exact h.held i key hheld
          · exact h.signed t ht
        legible := fun t ht => by
          rcases List.mem_append.mp ht with ht | ht
          · exact hlegible t ht
          · exact h.legible t ht
        recorded := fun t ht hkind => by
          rcases List.mem_append.mp ht with ht | ht
          · exact recorded_of_issuedBy ht hkind
          · exact issued_of_step (h.recorded t ht hkind)
        ended := h.ended
        history_of_table := fun k row hrow => congrArg (Option.or · (r.history k)) hrow
        table_of_history := fun k row hrow hpruned => by
          cases htable : (r.sessions.step w.lib (w.store key) call).table k with
          | some row' =>
            simp only [htable] at hrow
            exact hrow
          | none =>
            simp only [htable, Option.none_or] at hrow
            have hold := h.table_of_history k row hrow
              (RefreshRow.pruned_mono hevolves.clock_le hpruned)
            rw [pruned_of_gone hevolves hold htable] at hpruned
            cases hpruned }

theorem KeyRun.KeyKept.open (h : r.KeyKept w) {i : ℕ} {env : OpenEnv} :
    (r.step w (.openStore i env)).KeyKept w := by
  rw [KeyRun.step]
  split
  · exact h
  · cases hopen : authStoreOpen r.metaKey env with
    | mk metaKey result =>
      have hsame : ∀ key : JwtKey, r.metaKey = some key.val → metaKey = some key.val := by
        intro key hmeta
        rw [hmeta] at hopen
        exact (authStoreOpen_of_some hopen).1
      cases result with
      | error e =>
        exact
          { h with
            held := fun j key hkey => hsame key (h.held j key hkey)
            signed := fun t ht => hsame t.key (h.signed t ht) }
      | ok loaded =>
        refine
          { h with
            held := fun j key hkey => ?_
            signed := fun t ht => hsame t.key (h.signed t ht) }
        rcases update_eq_some.mp hkey with ⟨rfl, rfl⟩ | ⟨-, hkey⟩
        · exact metaKey_of_authStoreOpen hopen
        · exact hsame key (h.held j key hkey)

theorem KeyRun.KeyKept.close (h : r.KeyKept w) {i : ℕ} :
    (r.step w (.closeStore i)).KeyKept w := by
  refine { h with held := fun j key hkey => h.held j key ?_ }
  have hupdated : Function.update r.held i none j = some key := hkey
  by_cases hj : j = i
  · subst hj
    rw [Function.update_self] at hupdated
    cases hupdated
  · rwa [Function.update_of_ne hj] at hupdated

/-- A deletion that leaves the key ends the rows and the record of what was issued. -/
theorem KeyRun.KeyKept.deleteAll (h : r.KeyKept w) {i : ℕ} {env : DeleteEnv}
    (hkeeps : r.KeepsKey (.deleteAll i env)) : (r.step w (.deleteAll i env)).KeyKept w := by
  rw [KeyRun.step]
  split
  · rename_i hopen
    have hnot := hkeeps hopen
    cases hrefresh : env.refreshDeleted with
    | false =>
      simp only [KeyRun.deleted, authDeleteAll, hrefresh, if_true, Bool.false_eq_true, if_false]
      exact { h with }
    | true =>
      have hmeta : env.metaDeleted = false := by
        cases hmeta : env.metaDeleted with
        | false => rfl
        | true => exact absurd ⟨hrefresh, hmeta⟩ hnot
      simp only [KeyRun.deleted, authDeleteAll, hrefresh, hmeta, if_true, Bool.true_eq_false,
        if_false]
      exact
        { sound := fun key => (h.sound key).emptied
          held := h.held
          signed := fun t ht => by cases ht
          legible := fun t ht => by cases ht
          recorded := fun t ht => by cases ht
          ended := h.ended
          history_of_table := fun k row hrow => by cases hrow
          table_of_history := fun k row hrow => by cases hrow }
  · exact h

theorem KeyRun.KeyKept.step (h : r.KeyKept w) {ev : KeyEvent} (ha : r.Allows w ev)
    (hkeeps : r.KeepsKey ev) : (r.step w ev).KeyKept w := by
  cases ev with
  | openStore i env => exact h.open
  | closeStore i => exact h.close
  | call i call => exact h.call ha
  | deleteAll i env => exact h.deleteAll hkeeps

/-! ## What the invariant gives -/

/-- A token in its lifetime is rotated. -/
theorem rotateRefresh_of_lives {lib : TokenLibrary} {store : AuthStore} (hs : s.Sound store)
    {token : String} {c : RefreshClaims} {env : RotateEnv} {history : RefreshTable}
    (hclaims : refreshClaims lib store token = some c) (hissued : c ∈ s.issued)
    (hhistory : ∀ k row, s.table k = some row → history k = some row)
    (htable : ∀ k row, history k = some row → row.pruned s.clock = false → s.table k = some row)
    (hverify : s.clock ≤ env.verify) (hprune : env.verify ≤ env.prune)
    (hcheck : env.prune ≤ env.check) (hfresh : env.jti ∉ s.used)
    (hlives : Lives history c.jti env.check) (more : List RotateEnv) :
    ∃ table tokens, rotateRefresh lib store s.table token (env :: more) =
      some (table, .ok tokens) := by
  obtain ⟨row, hrow, hgranted, hsucc⟩ := hlives
  obtain ⟨hlive, hexp, hgrace⟩ := RefreshRow.not_refused hgranted
  have hnone : s.table env.jti = none := by
    cases hgone : s.table env.jti with
    | none => rfl
    | some row => exact absurd (hs.used _ _ hgone) hfresh
  have hunpruned : ∀ now, now ≤ env.check → row.pruned now = false := by
    intro now hnow
    simp only [RefreshRow.pruned, Bool.or_eq_false_iff, Bool.and_eq_false_iff,
      decide_eq_false_iff_not, not_le]
    refine ⟨by omega, ?_⟩
    cases hnext : row.nextJti.isSome with
    | false => exact .inl rfl
    | true =>
      right
      have hover := hgrace hnext
      cases hg : row.graceExpiresAt with
      | none => rfl
      | some grace =>
        rw [hg, Option.getD_some] at hover
        simp only [Option.any_some, decide_eq_false_iff_not, not_le]
        omega
  have hinTable := htable _ _ hrow (hunpruned _ (by omega))
  have hkept : pruneExpiredRefreshes s.table env.prune c.jti = some row :=
    pruneExpiredRefreshes_eq_some.mpr ⟨hinTable, hunpruned _ hcheck⟩
  obtain ⟨table, result, hrotate, hrotation⟩ :
      ∃ table result, rotateRefresh lib store s.table token (env :: more) = some (table, result) ∧
        Rotation lib store s.table token env table result :=
    rotateRefresh_rotation more hs.did hnone
  rw [hrotate]
  cases hrotation with
  | minted => exact ⟨_, _, rfl⟩
  | reused => exact ⟨_, _, rfl⟩
  | unverified e hlate =>
    obtain ⟨-, iat, exp, hsigned, hiat, hexpires⟩ := hs.issued c hissued
    refine absurd ?_ (hlate c hclaims)
    have := hexpires row hinTable
    rw [hsigned, RefreshClaims.timely_signed]
    exact ⟨by omega, .inr (by omega)⟩
  | refused c' hclaims' hunusable =>
    rw [hclaims] at hclaims'
    cases hclaims'
    rcases hunusable row hkept with hrefused | ⟨next, hnext, hrevoked⟩
    · rw [hgranted] at hrefused
      cases hrefused
    · -- The row of the successor outlives the grace, so it is still there to be returned.
      obtain ⟨grace, hg, -, -, hover | ⟨succ, hsuccRow, hsuccExp, hsuccGrace⟩⟩ :=
        hs.grace _ _ _ hinTable hnext
      · have := hgrace (by rw [hnext]; rfl)
        rw [hg, Option.getD_some] at this
        omega
      · have hbefore := hgrace (by rw [hnext]; rfl)
        rw [hg, Option.getD_some] at hbefore
        have hsuccKept : succ.pruned env.prune = false := by
          simp only [RefreshRow.pruned, Bool.or_eq_false_iff, Bool.and_eq_false_iff,
            decide_eq_false_iff_not, not_le]
          refine ⟨by omega, ?_⟩
          cases hsuccNext : succ.nextJti.isSome with
          | false => exact .inl rfl
          | true =>
            right
            cases hsg : succ.graceExpiresAt with
            | none => rfl
            | some g =>
              have := hsuccGrace hsuccNext g hsg
              simp only [Option.any_some, decide_eq_false_iff_not, not_le]
              omega
        have hrevokedRow := hrevoked succ (pruneExpiredRefreshes_eq_some.mpr ⟨hsuccRow, hsuccKept⟩)
        obtain ⟨succ', hsucc', hsuccLive⟩ := hsucc next hnext
        rw [hhistory _ _ hsuccRow] at hsucc'
        cases hsucc'
        rw [hrevokedRow] at hsuccLive
        cases hsuccLive

/-- A store that is reopened holds the key that it held. -/
theorem KeyRun.KeyKept.reopened (h : r.KeyKept w) {i : ℕ} {env : OpenEnv} {key : JwtKey}
    (hkey : r.held i = some key) (hopen : ((r.reopened w i env).held i).isSome = true) :
    (r.reopened w i env).held i = some key ∧
      (r.reopened w i env).sessions.table = r.sessions.table := by
  have hclosed : Function.update r.held i none i = none := Function.update_self ..
  simp only [KeyRun.reopened, KeyRun.step, hclosed, Option.isSome_none, Bool.false_eq_true,
    if_false] at hopen ⊢
  rw [h.held i key hkey] at hopen ⊢
  cases hstore : authStoreOpen (some key.val) env with
  | mk metaKey result =>
    rw [hstore] at hopen
    cases result with
    | error e =>
      simp only [hclosed, Option.isSome_none, Bool.false_eq_true] at hopen
    | ok loaded =>
      rw [(authStoreOpen_of_some hstore).2 loaded rfl]
      exact ⟨Function.update_self .., rfl⟩

theorem KeyRun.KeyKept.coherent (h : r.KeyKept w) : r.Coherent w where
  key i key hkey env metaKey loaded hopen := by
    rw [h.held i key hkey] at hopen
    exact (authStoreOpen_of_some hopen).2 loaded rfl
  reopened i env hheld hopen := by
    obtain ⟨key, hkey⟩ := Option.isSome_iff_exists.mp hheld
    obtain ⟨hsame, htable⟩ := h.reopened hkey hopen
    constructor
    · intro now token
      rw [KeyRun.verifyAccess, KeyRun.verifyAccess, hsame, hkey]
    · intro token envs
      rw [KeyRun.rotateRefresh, KeyRun.rotateRefresh, hsame, hkey, htable]
  ended t ht := by
    rw [h.ended] at ht
    cases ht
  access t ht hkind i key hkey now hiat hexp := by
    have hsame : t.key = key := Subtype.ext (Option.some.inj ((h.signed t ht).symm.trans
      (h.held i key hkey)))
    subst hsame
    have hlater : Double.finite (now : ℚ) ≤ Double.finite ((now : ℚ) + 60) := by
      rw [Double.finite_le_finite]
      linarith
    have htimely : false = true ∨ Double.finite (now : ℚ) < t.claims.exp := .inr hexp
    have hverify := verifyJwt_createJwt (h.legible t ht) (hiat.trans hlater) htimely
    rw [hkind] at hverify
    rw [authVerifyAccessScope, KeySetting.text, hverify]
    rfl
  refresh t ht hkind i key hkey env more hverify hprune hcheck hfresh hlives := by
    have hsame : t.key = key := Subtype.ext (Option.some.inj ((h.signed t ht).symm.trans
      (h.held i key hkey)))
    subst hsame
    exact rotateRefresh_of_lives (h.sound t.key) (refreshClaims_createJwt (h.legible t ht) hkind)
      (h.recorded t ht hkind) h.history_of_table h.table_of_history hverify hprune hcheck hfresh
      hlives more

/-- Whatever key is in memory, another one may be drawn. -/
theorem exists_ne_jwtKey (key : JwtKey) : ∃ other : JwtKey, other ≠ key := by
  by_cases h : key = ⟨List.replicate 32 0, rfl⟩
  · refine ⟨⟨List.replicate 32 1, rfl⟩, fun heq => ?_⟩
    rw [h] at heq
    cases congrArg (fun k : JwtKey => k.val.head?) heq
  · exact ⟨_, fun heq => h heq.symm⟩

/-- The deletion of the key while a store is open parts the two copies. -/
theorem KeyRun.keepsKey_of_coherent {ev : KeyEvent} (h : (r.step w ev).Coherent w) :
    r.KeepsKey ev := by
  cases ev with
  | openStore i env => trivial
  | closeStore i => trivial
  | call i call => trivial
  | deleteAll i env =>
    rintro hopen ⟨hrefresh, hmeta⟩
    obtain ⟨key, hkey⟩ := Option.isSome_iff_exists.mp hopen
    rw [KeyRun.step, if_pos hopen] at h
    obtain ⟨other, hne⟩ := exists_ne_jwtKey key
    have hgone : (r.deleted env).metaKey = none := by
      simp [KeyRun.deleted, authDeleteAll, hrefresh, hmeta]
    have hheld : (r.deleted env).held i = some key := hkey
    have hloaded := h.key i key hheld ⟨true, true, true, some other, true⟩ (some other.val) other
    rw [hgone] at hloaded
    exact hne (hloaded (authStoreOpen_of_none other))

/-- In every run the sessions mean the same in memory and on disk in every state, exactly when no
step deletes the key of the file while a store is open on it. -/
theorem sessions_coherent_iff (w : KeySetting) (s : KeyRun) (run : List KeyEvent)
    (h0 : s.OnDisk w) (h : Steps (KeyRun.step w) (KeyRun.Allows w) s run) :
    States (KeyRun.step w) (KeyRun.Coherent w) s run ↔
      Steps (KeyRun.step w) KeyRun.KeepsKey s run :=
  states_iff_steps_of_invariant (J := KeyRun.KeyKept w) h0.keyKept
    (fun _ _ hs ha hkeeps => hs.step ha hkeeps) (fun _ hs => hs.coherent)
    (fun _ _ _ _ hcoherent => KeyRun.keepsKey_of_coherent hcoherent) h

/-! ## A deletion under an open store -/

/-- A member as the printer prints it: no string here has a character to escape. -/
def printMember : String × Json → String
  | (name, .string value) => "\"" ++ name ++ "\":\"" ++ value ++ "\""
  | (name, .number value) => "\"" ++ name ++ "\":" ++ toString ((value.rat?.getD 0).num)
  | _ => ""

/-- The printer, on objects of strings and whole numbers. -/
def examplePrint : JsonPrinter
  | .object members =>
    ("\x7b" ++ ",".intercalate (members.map printMember) ++ "\x7d").toUTF8.toList
  | _ => []

/-- The access token of the session. -/
def exampleAccess : JwtClaims :=
  ⟨.access, .full, "", .finite (1700000000 : Int), .finite (1700007200 : Int)⟩

/-- Its refresh token. -/
def exampleRefresh : JwtClaims :=
  ⟨.refresh, .full, exampleJti 1, .finite (1700000000 : Int), .finite (1707776000 : Int)⟩

/-- HMAC under 32 zero bytes, on the two signing inputs, of which the first one is shorter. -/
def exampleHmac (input : String) : List UInt8 :=
  if input.utf8ByteSize < 200 then
    [90, 225, 87, 86, 66, 249, 237, 171, 216, 47, 170, 43, 121, 203, 251, 150, 45, 217, 207, 49,
      93, 16, 112, 178, 52, 189, 240, 25, 213, 242, 222, 198]
  else
    [130, 13, 147, 110, 125, 80, 97, 204, 146, 160, 237, 224, 249, 41, 26, 124, 246, 123, 238, 245,
      208, 92, 135, 74, 252, 209, 144, 95, 189, 188, 213, 20]

/-- The parser, on the headers and the payloads of the two tokens. -/
def exampleParse (bytes : List UInt8) : Option Json :=
  if bytes = examplePrint exampleAccess.header then some exampleAccess.header
  else if bytes = examplePrint exampleRefresh.header then some exampleRefresh.header
  else if bytes = examplePrint (exampleAccess.payload exampleStore) then
    some (exampleAccess.payload exampleStore)
  else if bytes = examplePrint (exampleRefresh.payload exampleStore) then
    some (exampleRefresh.payload exampleStore)
  else none

/-- The setting of the two tokens. -/
def exampleSetting : KeySetting where
  lib := { exampleLibrary with hmacSha256 := fun _ => exampleHmac, parseJson := exampleParse }
  print := examplePrint
  serviceDid := "did:web:pds.test"
  accountDid := "did:plc:alice"

/-- The key of 32 zero bytes. -/
def exampleKey : JwtKey := ⟨List.replicate 32 0, rfl⟩

/-- An empty file. -/
def exampleFile : KeyRun := ⟨none, .opened 1700000000, fun _ => none, empty, [], []⟩

/-- A store is opened and makes its key, and opens a session. -/
def sessionOpened : List KeyEvent :=
  [.openStore 0 ⟨true, true, true, some exampleKey, true⟩,
    .call 0 (.create .full none ⟨1700000000, 1700000000, exampleJti 1⟩)]

/-- Then `metalbear_auth_delete_all` succeeds. -/
def sessionDeleted : List KeyEvent := sessionOpened ++ [.deleteAll 0 ⟨true, true⟩]

/-- Or the store is closed and opened again, as number 1. -/
def sessionReopened : List KeyEvent :=
  sessionOpened ++ [.closeStore 0, .openStore 1 ⟨true, true, true, none, true⟩]

theorem exampleFile_onDisk : exampleFile.OnDisk exampleSetting where
  closed _ := rfl
  sound _ := sound_opened 1700000000
  history := rfl
  issued := rfl
  ended := rfl

theorem exampleAccess_legible :
    exampleAccess.Legible exampleSetting.lib exampleSetting.print exampleStore where
  header := if_pos rfl
  payload := by
    rw [show exampleSetting.lib.parseJson = exampleParse from rfl, exampleParse,
      if_neg (by decide +kernel), if_neg (by decide +kernel)]
    exact if_pos rfl
  size := by decide +kernel

theorem exampleRefresh_legible :
    exampleRefresh.Legible exampleSetting.lib exampleSetting.print exampleStore where
  header := by
    rw [show exampleSetting.lib.parseJson = exampleParse from rfl, exampleParse,
      if_neg (by decide +kernel)]
    exact if_pos rfl
  payload := by
    rw [show exampleSetting.lib.parseJson = exampleParse from rfl, exampleParse,
      if_neg (by decide +kernel), if_neg (by decide +kernel), if_neg (by decide +kernel)]
    exact if_pos rfl
  size := by decide +kernel

theorem sessionOpened_allowed : Steps (KeyRun.step exampleSetting)
    (KeyRun.Allows exampleSetting) exampleFile sessionOpened := by
  refine ⟨trivial, fun key hkey => ?_, trivial⟩
  have hzero : key = exampleKey := (Option.some.inj hkey).symm
  subst hzero
  refine ⟨⟨le_rfl, le_rfl, List.not_mem_nil⟩, fun t ht => ?_⟩
  have hissued : t ∈ [⟨exampleKey, exampleAccess⟩, ⟨exampleKey, exampleRefresh⟩] := ht
  rcases List.mem_pair.mp hissued with rfl | rfl
  · exact exampleAccess_legible
  · exact exampleRefresh_legible

theorem sessionDeleted_allowed : Steps (KeyRun.step exampleSetting)
    (KeyRun.Allows exampleSetting) exampleFile sessionDeleted :=
  steps_append.mpr ⟨sessionOpened_allowed, trivial, trivial⟩

/-- After a deletion that succeeded the open store still accepts the access token. -/
theorem deleted_session_is_accepted :
    (exampleFile.OnDisk exampleSetting ∧ Steps (KeyRun.step exampleSetting)
      (KeyRun.Allows exampleSetting) exampleFile sessionDeleted) ∧
    (∃ t ∈ (exec (KeyRun.step exampleSetting) exampleFile sessionDeleted).ended,
      (exec (KeyRun.step exampleSetting) exampleFile sessionDeleted).verifyAccess exampleSetting 0
        1700000010 (exampleSetting.text t) = some (.ok .full)) ∧
    ¬ States (KeyRun.step exampleSetting) (KeyRun.Coherent exampleSetting) exampleFile
      sessionDeleted := by
  have hverify : verifyJwt exampleSetting.lib exampleStore 1700000010
      (exampleSetting.text ⟨exampleKey, exampleAccess⟩) .access false =
        .ok ⟨none, exampleAccess.exp, .full⟩ :=
    verifyJwt_createJwt exampleAccess_legible (Double.finite_le_finite.mpr (by norm_num))
      (.inr (Double.finite_lt_finite.mpr (by norm_num)))
  refine ⟨⟨exampleFile_onDisk, sessionDeleted_allowed⟩, ⟨⟨exampleKey, exampleAccess⟩, ?_, ?_⟩,
    fun h => ?_⟩
  · exact List.mem_cons_self
  · exact congrArg (fun r => some (r.map VerifiedJwt.scope)) hverify
  · exact h.exec.ended ⟨exampleKey, exampleAccess⟩ List.mem_cons_self 0 exampleKey rfl 1700000010 _
      hverify

/-- Closed and opened again, the store answers as it did. -/
theorem reopened_session_coherent : States (KeyRun.step exampleSetting)
    (KeyRun.Coherent exampleSetting) exampleFile sessionReopened :=
  (sessions_coherent_iff exampleSetting exampleFile sessionReopened exampleFile_onDisk
    (steps_append.mpr ⟨sessionOpened_allowed, trivial, trivial, trivial⟩)).mpr
    ⟨trivial, trivial, trivial, trivial, trivial⟩

end MetalBear.OAuth
