import MetalBear.Account.Credentials
import MetalBear.Account.Email

/-!
# The stores of an account

The directory that an account keeps its stores in, as far as the creation of an account reaches
into it. Opening the stores creates what is not there yet and leaves what is.
-/

namespace MetalBear.Account

/-- The row of `meta` in `repo.sqlite3`. -/
structure RepoMeta where
  did : String
  handle : String
  /-- `key_type` and `key_bytes`. -/
  key : List UInt8
  deriving DecidableEq, Repr

/-- What a data directory holds. -/
structure AccountDir where
  repoMeta : Option RepoMeta
  head : Option String
  blobs : List String
  credentials : Option PasswordRow
  active : Bool
  emails : EmailStore
  deriving DecidableEq, Repr

/-- A directory that nothing was written to. -/
def AccountDir.empty : AccountDir := ⟨none, none, [], none, true, EmailStore.new⟩

/-- What an opening finds: what is carried out, and what is drawn at random. -/
structure OpenCalls where
  directoriesMade : Bool
  /-- `repo.sqlite3` up to the `SELECT` of `meta`. -/
  repoRead : Bool
  generatedKey : Option (List UInt8)
  metaInserted : Bool
  /-- What is left to do on `repo.sqlite3`. -/
  repoLoaded : Bool
  /-- The blob store and `auth.sqlite3`. -/
  authOpened : Bool
  /-- `account.sqlite3` up to the `SELECT` of `credentials`. -/
  accountRead : Bool
  /-- A fresh salt with the hash of the password under it. -/
  derived : Option PasswordRow
  credentialsInserted : Bool
  /-- The log, the keys and the video uploads. -/
  restOpened : Bool
  deriving DecidableEq, Repr

/-- `metalbear_repo_store_open_with_key`. -/
def repoStoreOpenWithKey (did handle : String) (signingKey : Option (List UInt8))
    (d : AccountDir) (calls : OpenCalls) : AccountDir × Bool :=
  if calls.repoRead then
    match d.repoMeta with
    | some stored =>
      -- The repository of another DID is refused.
      if did ≠ "" ∧ stored.did ≠ "" ∧ did ≠ stored.did then (d, false) else (d, calls.repoLoaded)
    | none =>
      if did = "" then (d, false)
      else
        match signingKey.or calls.generatedKey with
        | none => (d, false)
        | some key =>
          if calls.metaInserted then
            ({ d with repoMeta := some ⟨did, handle, key⟩ }, calls.repoLoaded)
          else (d, false)
  else (d, false)

/-- `metalbear_account_store_open`. -/
def accountStoreOpen (bootstrapPassword : String) (d : AccountDir) (calls : OpenCalls) :
    AccountDir × Bool :=
  if calls.accountRead then
    match d.credentials with
    | some _ => (d, true)
    | none =>
      if bootstrapPassword = "" then (d, false)
      else
        match calls.derived with
        | none => (d, false)
        | some row =>
          if calls.credentialsInserted then ({ d with credentials := some row }, true)
          else (d, false)
  else (d, false)

/-- `metalbear_account_context_open_shared`. -/
def accountContextOpenShared (did handle password : String) (signingKey : Option (List UInt8))
    (d : AccountDir) (calls : OpenCalls) : AccountDir × Bool :=
  if calls.directoriesMade then
    match repoStoreOpenWithKey did handle signingKey d calls with
    | (d, false) => (d, false)
    | (d, true) =>
      if calls.authOpened then
        match accountStoreOpen password d calls with
        | (d, false) => (d, false)
        | (d, true) => (d, calls.restOpened)
      else (d, false)
  else (d, false)

/-! ## What an opening leaves -/

/-- What an account keeps: its address, its password, its key, its head and its blobs. -/
structure AccountAssets where
  email : Option String
  password : Option PasswordRow
  signingKey : Option (List UInt8)
  head : Option String
  blobs : List String
  deriving DecidableEq, Repr

/-- What of it a directory holds. -/
def AccountDir.assets (d : AccountDir) : AccountAssets where
  email := d.emails.email
  password := d.credentials
  signingKey := d.repoMeta.map RepoMeta.key
  head := d.head
  blobs := d.blobs

/-- An opening gets to a directory without a repository and makes one. -/
structure MakesRepo (did : String) (signingKey : Option (List UInt8)) (d : AccountDir)
    (calls : OpenCalls) : Prop where
  directoriesMade : calls.directoriesMade = true
  repoRead : calls.repoRead = true
  missing : d.repoMeta = none
  did_ne : did ≠ ""
  key : (signingKey.or calls.generatedKey).isSome = true
  inserted : calls.metaInserted = true

/-- An opening gets to an account store without a password and gives it one. -/
structure SetsPassword (did handle password : String) (signingKey : Option (List UInt8))
    (d : AccountDir) (calls : OpenCalls) : Prop where
  directoriesMade : calls.directoriesMade = true
  repoOpened : (repoStoreOpenWithKey did handle signingKey d calls).2 = true
  authOpened : calls.authOpened = true
  accountRead : calls.accountRead = true
  missing : d.credentials = none
  password_ne : password ≠ ""
  derived : calls.derived.isSome = true
  inserted : calls.credentialsInserted = true

variable {did handle password : String} {signingKey : Option (List UInt8)} {d : AccountDir}
  {calls : OpenCalls}

variable (did handle signingKey d) in
/-- The opening of a repository makes one where there is none, and nothing else. -/
theorem repoStoreOpenWithKey_cases (hdirs : calls.directoriesMade = true) :
    (MakesRepo did signingKey d calls ∧ d.repoMeta = none ∧
      ∃ row, (repoStoreOpenWithKey did handle signingKey d calls).1 =
        { d with repoMeta := some row }) ∨
    (¬ MakesRepo did signingKey d calls ∧
      (repoStoreOpenWithKey did handle signingKey d calls).1 = d) := by
  rw [repoStoreOpenWithKey]
  by_cases hread : calls.repoRead = true
  swap
  · rw [if_neg hread]
    exact Or.inr ⟨fun h => hread h.repoRead, rfl⟩
  rw [if_pos hread]
  cases hmeta : d.repoMeta with
  | some stored =>
    refine Or.inr ⟨fun h => ?_, by dsimp only; split <;> rfl⟩
    rw [h.missing] at hmeta
    cases hmeta
  | none =>
    by_cases hdid : did = ""
    · rw [if_pos hdid]
      exact Or.inr ⟨fun h => h.did_ne hdid, rfl⟩
    simp only [if_neg hdid]
    cases hkey : signingKey.or calls.generatedKey with
    | none =>
      refine Or.inr ⟨fun h => ?_, rfl⟩
      have := h.key
      rw [hkey] at this
      cases this
    | some key =>
      by_cases hinsert : calls.metaInserted = true
      · simp only [if_pos hinsert]
        exact Or.inl ⟨⟨hdirs, hread, hmeta, hdid, by rw [hkey]; rfl, hinsert⟩, trivial, _, rfl⟩
      · simp only [if_neg hinsert]
        exact Or.inr ⟨fun h => hinsert h.inserted, trivial⟩

variable (password d calls) in
/-- The opening of an account store sets a password where there is none, and nothing else. -/
theorem accountStoreOpen_cases :
    (calls.accountRead = true ∧ d.credentials = none ∧ password ≠ "" ∧
      calls.derived.isSome = true ∧ calls.credentialsInserted = true ∧
      ∃ row, (accountStoreOpen password d calls).1 = { d with credentials := some row }) ∨
    (¬ (calls.accountRead = true ∧ d.credentials = none ∧ password ≠ "" ∧
      calls.derived.isSome = true ∧ calls.credentialsInserted = true) ∧
      (accountStoreOpen password d calls).1 = d) := by
  rw [accountStoreOpen]
  by_cases hread : calls.accountRead = true
  swap
  · rw [if_neg hread]
    exact Or.inr ⟨fun h => hread h.1, rfl⟩
  rw [if_pos hread]
  cases hcred : d.credentials with
  | some row => exact Or.inr ⟨by simp, rfl⟩
  | none =>
    by_cases hpass : password = ""
    · rw [if_pos hpass]
      exact Or.inr ⟨fun h => h.2.2.1 hpass, rfl⟩
    simp only [if_neg hpass]
    cases hderived : calls.derived with
    | none => exact Or.inr ⟨by simp, rfl⟩
    | some row =>
      by_cases hinsert : calls.credentialsInserted = true
      · simp only [if_pos hinsert]
        exact Or.inl ⟨hread, trivial, hpass, rfl, hinsert, row, rfl⟩
      · simp only [if_neg hinsert]
        exact Or.inr ⟨fun h => hinsert h.2.2.2.2, trivial⟩

variable (did handle password signingKey d calls) in
/-- An opening leaves the address, the head and the blobs, and what the account keeps as a whole
unless it makes a repository or sets a password. -/
theorem accountContextOpenShared_assets :
    (accountContextOpenShared did handle password signingKey d calls).1.emails = d.emails ∧
    ((accountContextOpenShared did handle password signingKey d calls).1.assets = d.assets ↔
      ¬ MakesRepo did signingKey d calls ∧
        ¬ SetsPassword did handle password signingKey d calls) := by
  rw [accountContextOpenShared]
  by_cases hdirs : calls.directoriesMade = true
  swap
  · rw [if_neg hdirs]
    exact ⟨rfl, by
      simpa using ⟨fun h => hdirs h.directoriesMade, fun h => hdirs h.directoriesMade⟩⟩
  rw [if_pos hdirs]
  have hrepo := repoStoreOpenWithKey_cases did handle signingKey d hdirs
  have hsets : SetsPassword did handle password signingKey d calls ↔
      (repoStoreOpenWithKey did handle signingKey d calls).2 = true ∧ calls.authOpened = true ∧
        calls.accountRead = true ∧ d.credentials = none ∧ password ≠ "" ∧
          calls.derived.isSome = true ∧ calls.credentialsInserted = true :=
    ⟨fun h => ⟨h.2, h.3, h.4, h.5, h.6, h.7, h.8⟩,
      fun ⟨h2, h3, h4, h5, h6, h7, h8⟩ => ⟨hdirs, h2, h3, h4, h5, h6, h7, h8⟩⟩
  rw [hsets]
  cases hopen : repoStoreOpenWithKey did handle signingKey d calls with
  | mk d' opened =>
    rw [hopen] at hrepo
    -- The repository as it was opened differs in its `meta` row at most.
    obtain ⟨hemails, hcred, hassets⟩ : d'.emails = d.emails ∧ d'.credentials = d.credentials ∧
        ∀ credentials, ({ d' with credentials := credentials }.assets = d.assets ↔
          ¬ MakesRepo did signingKey d calls ∧ credentials = d.credentials) := by
      rcases hrepo with ⟨hmakes, hnone, row, rfl⟩ | ⟨hmakes, rfl⟩
      · exact ⟨rfl, rfl, by simp [AccountDir.assets, hmakes, hnone]⟩
      · exact ⟨rfl, rfl, by simp [AccountDir.assets, hmakes]⟩
    have hsame : d'.assets = d.assets ↔ ¬ MakesRepo did signingKey d calls :=
      (hassets d'.credentials).trans (by simp [hcred])
    cases opened with
    | false => exact ⟨hemails, by simpa using hsame⟩
    | true =>
      by_cases hauth : calls.authOpened = true
      swap
      · simp only [if_neg hauth]
        exact ⟨hemails, by simpa [hauth] using hsame⟩
      simp only [hauth, true_and]
      have haccount := accountStoreOpen_cases password d' calls
      cases haopen : accountStoreOpen password d' calls with
      | mk d'' opened' =>
        rw [haopen, hcred] at haccount
        have hfinal : d''.emails = d.emails ∧ (d''.assets = d.assets ↔
            ¬ MakesRepo did signingKey d calls ∧ ¬ (calls.accountRead = true ∧
              d.credentials = none ∧ password ≠ "" ∧ calls.derived.isSome = true ∧
              calls.credentialsInserted = true)) := by
          rcases haccount with ⟨h1, h2, h3, h4, h5, row, hrow⟩ | ⟨hnot, hrow⟩
          · obtain rfl : d'' = { d' with credentials := some row } := hrow
            refine ⟨hemails, ?_⟩
            rw [hassets (some row), h2]
            simp [h1, h3, h4, h5]
          · obtain rfl : d'' = d' := hrow
            refine ⟨hemails, ?_⟩
            rw [hsame]
            simp only [hnot, not_false_eq_true, and_true]
        cases opened' <;> exact hfinal

end MetalBear.Account
