import MetalBear.Account.Handles

/-!
# The directories of accounts

An account has its directory under the name that its DID gives with underscores for colons. Two
names are the same where the DIDs differ in nothing else, and a name with a slash is not one name.
-/

namespace MetalBear.Account

open Machine

/-! ## Names -/

/-- The name that `metalbear_account_dir_for_did` puts under the root. -/
def dirName (did : String) : List Char := did.toList.map fun c => if c = ':' then '_' else c

/-- What it puts between the two. -/
def dirSeparator (root : String) : String := if root.toList.getLast? = some '/' then "" else "/"

theorem accountDirForDid_eq (root did : String) :
    accountDirForDid root did = root ++ dirSeparator root ++ String.ofList (dirName did) := rfl

/-- The path is a name directly under the root: not another directory's, and neither the root
itself nor what is above it. -/
def DirectlyUnder (root path : String) : Prop :=
  ∃ name : List Char, path = root ++ dirSeparator root ++ String.ofList name ∧ name ≠ [] ∧
    '/' ∉ name ∧ name ≠ ['.'] ∧ name ≠ ['.', '.']

/-- The DIDs are as long as each other and differ at most in colons for underscores. -/
def AlikeDids (did did' : String) : Prop :=
  List.Forall₂ (fun c c' => c = c' ∨ (c = ':' ∨ c = '_') ∧ (c' = ':' ∨ c' = '_'))
    did.toList did'.toList

/-- The DID has no slash, and is not a dot or two. -/
def PlainDid (did : String) : Prop := did ≠ "" ∧ '/' ∉ did.toList ∧ did ≠ "." ∧ did ≠ ".."

/-- `create_account` has made an account with this DID. -/
def AdmittedDid (server : CreateServer) (did : String) : Prop :=
  ∃ host params calls, (createAccount server host params calls).2 = .ok did

variable {root did did' : String}

theorem dirName_eq_iff : dirName did = dirName did' ↔ AlikeDids did did' := by
  have hpair : ∀ c c' : Char, ((if c = ':' then '_' else c) = if c' = ':' then '_' else c') ↔
      c = c' ∨ (c = ':' ∨ c = '_') ∧ (c' = ':' ∨ c' = '_') := by
    intro c c'
    by_cases hc : c = ':'
    · by_cases hc' : c' = ':'
      · simp [hc, hc']
      · rw [if_pos hc, if_neg hc']
        simp [hc, hc', Ne.symm hc', eq_comm]
    · by_cases hc' : c' = ':'
      · rw [if_neg hc, if_pos hc']
        simp [hc, hc']
      · rw [if_neg hc, if_neg hc']
        simp only [hc, hc', false_or]
        constructor
        · exact Or.inl
        · rintro (heq | ⟨rfl, rfl⟩)
          · exact heq
          · rfl
  rw [AlikeDids, dirName, dirName, ← List.forall₂_eq_eq_eq, List.forall₂_map_left_iff,
    List.forall₂_map_right_iff]
  simp only [hpair]

/-- Under one root, paths are told by their names. -/
theorem under_root_inj {name name' : List Char} :
    root ++ dirSeparator root ++ String.ofList name =
      root ++ dirSeparator root ++ String.ofList name' ↔ name = name' := by
  constructor
  · intro h
    have hlists := congrArg String.toList h
    simpa only [String.toList_append, List.append_cancel_left_eq, String.toList_ofList] using hlists
  · intro h
    rw [h]

theorem accountDirForDid_eq_iff :
    accountDirForDid root did = accountDirForDid root did' ↔ AlikeDids did did' := by
  rw [accountDirForDid_eq, accountDirForDid_eq, under_root_inj, dirName_eq_iff]

theorem mem_dirName_iff {c : Char} (hc : c ≠ '_') (hcolon : c ≠ ':') :
    c ∈ dirName did ↔ c ∈ did.toList := by
  rw [dirName, List.mem_map]
  constructor
  · rintro ⟨d, hd, rfl⟩
    by_cases h : d = ':'
    · simp [h] at hc
    · rwa [if_neg h]
  · intro h
    exact ⟨c, h, if_neg hcolon⟩

/-- A name of dots is only given by the DID that it is. -/
theorem dirName_eq_dots_iff {dots : List Char} (h : ∀ c ∈ dots, c = '.') :
    dirName did = dots ↔ did.toList = dots := by
  rw [dirName]
  generalize did.toList = chars
  induction chars generalizing dots with
  | nil => simp
  | cons c chars ih =>
    cases dots with
    | nil => simp
    | cons d dots =>
      rw [List.forall_mem_cons] at h
      rw [List.map_cons, List.cons.injEq, List.cons.injEq, ih h.2, h.1]
      by_cases hc : c = ':'
      · simp [hc]
      · rw [if_neg hc]

theorem directlyUnder_iff : DirectlyUnder root (accountDirForDid root did) ↔ PlainDid did := by
  have hslash : '/' ∈ dirName did ↔ '/' ∈ did.toList := mem_dirName_iff (by decide) (by decide)
  have hdots : ∀ text : String, (∀ c ∈ text.toList, c = '.') →
      (dirName did = text.toList ↔ did = text) := fun text htext => by
    rw [dirName_eq_dots_iff htext, String.toList_inj]
  have hempty := hdots "" (by simp)
  have hone := hdots "." (by simp)
  have htwo := hdots ".." (by simp)
  rw [DirectlyUnder, PlainDid]
  constructor
  · rintro ⟨name, hpath, hne, hname, hdot, hdotdot⟩
    rw [accountDirForDid_eq, under_root_inj] at hpath
    subst hpath
    exact ⟨fun h => hne (hempty.mpr h), fun h => hname (hslash.mpr h), fun h => hdot (hone.mpr h),
      fun h => hdotdot (htwo.mpr h)⟩
  · rintro ⟨hne, hname, hdot, hdotdot⟩
    exact ⟨dirName did, rfl, fun h => hne (hempty.mp h), fun h => hname (hslash.mp h),
      fun h => hdot (hone.mp h), fun h => hdotdot (htwo.mp h)⟩

/-! ## The registry -/

/-- Every account is in the directory of its DID. -/
def InOwnDirs (root : String) (t : AccountTable) : Prop :=
  ∀ row ∈ t.rows, row.dataDirectory = accountDirForDid root row.did

theorem path_of_chooseAccount {server : CreateServer} {accounts : AccountTable}
    {params : Option Json} {input : CreateInput} {calls : CreateCalls} {account : NewAccount}
    (h : chooseAccount server accounts params input calls = .ok account) :
    account.path = accountDirForDid server.dataDirectory account.did := by
  rw [chooseAccount] at h
  split at h
  · cases h
  · split at h
    · cases h
    · cases h
    · split at h
      · cases h
        rfl
      · cases h

theorem InOwnDirs.rename {t t' : AccountTable} {handle : String} {carriedOut : Bool}
    (h : InOwnDirs root t) (hupdate : t.updateHandle did handle carriedOut = .ok t') :
    InOwnDirs root t' := by
  obtain ⟨hrows, -⟩ := AccountTable.updateHandle_eq_ok hupdate
  intro row hrow
  rw [hrows] at hrow
  obtain ⟨old, hold, rfl⟩ := List.mem_map.mp hrow
  rw [AccountRow.rename_did, AccountRow.rename]
  split <;> exact h old hold

/-- No request leaves an account in another directory. -/
theorem HandleEvent.step_inOwnDirs (server : HandleServer) (host : CreateHost) (ev : HandleEvent)
    (h : InOwnDirs server.dataDirectory host.accounts) :
    InOwnDirs server.dataDirectory (ev.step server host).accounts := by
  cases ev with
  | create params calls =>
    rw [HandleEvent.step]
    rcases createAccount_cases server.toCreateServer host params calls with
      ⟨hsame, -⟩ | ⟨input, account, hreach, -, hsame | ⟨-, hadd⟩⟩
    · rw [hsame]
      exact h
    · rw [hsame]
      exact h
    · obtain ⟨-, -, -, hrows⟩ := AccountTable.addWithEmail_eq_ok hadd
      intro row hrow
      rw [hrows, List.mem_append, List.mem_singleton] at hrow
      rcases hrow with hrow | rfl
      · exact h row hrow
      · exact path_of_chooseAccount hreach.chosen
  | update did param calls =>
    rcases updateHandle_accounts server host.accounts did param calls with
      hsame | ⟨handle, -, hupdate⟩
    · rw [HandleEvent.step, hsame]
      exact h
    · exact h.rename hupdate
  | adminUpdate didParam handleParam calls =>
    rcases adminUpdateAccountHandle_accounts server host.accounts didParam handleParam calls with
      hsame | ⟨did, -, handle, -, hupdate⟩
    · rw [HandleEvent.step, hsame]
      exact h
    · exact h.rename hupdate
  | delete did => exact fun row hrow => h row (List.mem_of_mem_filter hrow)

/-- Two accounts have different directories, each directly under the root, if and only if their
DIDs are plain and not alike; and an account is in the directory of its DID throughout every run. -/
theorem account_dirs_apart_iff (server : HandleServer) :
    (∀ did did', AdmittedDid server.toCreateServer did → AdmittedDid server.toCreateServer did' →
      did ≠ did' →
      (accountDirForDid server.dataDirectory did ≠ accountDirForDid server.dataDirectory did' ∧
          DirectlyUnder server.dataDirectory (accountDirForDid server.dataDirectory did) ∧
          DirectlyUnder server.dataDirectory (accountDirForDid server.dataDirectory did') ↔
        ¬ AlikeDids did did' ∧ PlainDid did ∧ PlainDid did')) ∧
    ∀ invites dirs run, States (HandleEvent.step server)
      (fun host => InOwnDirs server.dataDirectory host.accounts)
      ⟨AccountTable.empty, invites, dirs⟩ run := by
  constructor
  · intro did did' _ _ _
    rw [ne_eq, accountDirForDid_eq_iff, directlyUnder_iff, directlyUnder_iff]
  · intro invites dirs run
    exact states_of_invariant (fun row hrow => absurd hrow List.not_mem_nil)
      fun host ev => HandleEvent.step_inOwnDirs server host ev

/-! ## One directory for two DIDs -/

/-- A sign-up that brings this DID, on a host without accounts. -/
def exampleBringing (did : String) : CreateHost × Except RouteError String :=
  createAccount exampleHandleServer.toCreateServer
    ⟨AccountTable.empty, ⟨[], []⟩, fun _ => AccountDir.empty⟩
    (some (.object [("email", .string "a@mail.test"), ("handle", .string "alice.pds.test"),
      ("password", .string "secret"), ("did", .string did)]))
    { exampleCalls with opening := { exampleCalls.opening with generatedKey := some [9] } }

/-- Both DIDs are admitted, and have one directory; and a DID with slashes leads out of the root. -/
theorem two_dids_in_one_directory :
    (AdmittedDid exampleHandleServer.toCreateServer "did:example:a:b" ∧
      AdmittedDid exampleHandleServer.toCreateServer "did:example:a_b" ∧
      accountDirForDid "/data" "did:example:a:b" = "/data/did_example_a_b" ∧
      accountDirForDid "/data" "did:example:a_b" = "/data/did_example_a_b") ∧
    AdmittedDid exampleHandleServer.toCreateServer "did:example:/../../etc" ∧
      accountDirForDid "/data" "did:example:/../../etc" = "/data/did_example_/../../etc" ∧
      ¬ DirectlyUnder "/data" (accountDirForDid "/data" "did:example:/../../etc") := by
  have hadmitted : ∀ did, (exampleBringing did).2 = .ok did →
      AdmittedDid exampleHandleServer.toCreateServer did := fun did h => ⟨_, _, _, h⟩
  have hslash : ¬ PlainDid "did:example:/../../etc" := fun h => h.2.1 (by decide +kernel)
  refine ⟨⟨hadmitted _ ?_, hadmitted _ ?_, ?_, ?_⟩, hadmitted _ ?_, ?_,
    fun h => hslash (directlyUnder_iff.mp h)⟩ <;> decide +kernel

end MetalBear.Account
