import MetalBear.Account.Create

/-!
# What a failed creation leaves

An account that is not created should leave no trace on the accounts that exist. This file follows
the writes of a creation: the invite that is spent before the checks are over, and the stores of a
registered account that a DID in the request may lead to.
-/

namespace MetalBear.Account

open MetalBear.Sync (XrpcError)

/-- The invite codes are as before, every account is still registered as before, and has kept what
it had. -/
structure Kept (before after : CreateHost) : Prop where
  invites : after.invites = before.invites
  rows : ∀ row ∈ before.accounts.rows, row ∈ after.accounts.rows
  assets : ∀ row ∈ before.accounts.rows,
    (after.dirs row.dataDirectory).assets = (before.dirs row.dataDirectory).assets

/-! ## The writes of a request -/

/-- The request gets as far as the invite, and the code that it brings is used. -/
def SpendsInvite (server : CreateServer) (host : CreateHost) (params : Option Json)
    (calls : CreateCalls) : Prop :=
  (∃ input, checkInput params = .ok input) ∧ server.inviteRequired = true ∧
    ∃ code, nonEmptyParam params "inviteCode" = some code ∧
      host.invites.usable code calls.consume = .ok () ∧
      (calls.consume.updated = true ∨ calls.consume.inserted = true)

/-- The request gets as far as the stores, for this account. -/
structure ReachesStores (server : CreateServer) (host : CreateHost) (params : Option Json)
    (calls : CreateCalls) (input : CreateInput) (account : NewAccount) : Prop where
  checked : checkInput params = .ok input
  invited : (takeInvite server host.invites params input.handle calls.consume).2 = .ok ()
  chosen : chooseAccount server host.accounts params input calls = .ok account

/-- The address of the request is written over another one. -/
structure SetsEmail (params : Option Json) (input : CreateInput) (account : NewAccount)
    (d : AccountDir) (calls : CreateCalls) : Prop where
  opened : (accountContextOpenShared account.did input.handle input.password account.key d
    calls.opening).2 = true
  deactivated : startsDeactivated params = true → calls.deactivated = true
  stored : calls.emailStored = true
  email_ne : d.emails.email ≠ some input.email

/-- The stores in a directory do not stay as they are. -/
def WritesAssets (params : Option Json) (input : CreateInput) (account : NewAccount)
    (d : AccountDir) (calls : CreateCalls) : Prop :=
  MakesRepo account.did account.key d calls.opening ∨
    SetsPassword account.did input.handle input.password account.key d calls.opening ∨
    SetsEmail params input account d calls

/-- The stores that the request writes are those of a registered account. -/
def Overwrites (server : CreateServer) (host : CreateHost) (params : Option Json)
    (calls : CreateCalls) : Prop :=
  ∃ input account, ReachesStores server host params calls input account ∧
    (∃ row ∈ host.accounts.rows, row.dataDirectory = account.path) ∧
    WritesAssets params input account (host.dirs account.path) calls

/-- Every check and every step of the request succeeds. -/
def Accepted (server : CreateServer) (host : CreateHost) (params : Option Json)
    (calls : CreateCalls) : Prop :=
  ∃ input account, ReachesStores server host params calls input account ∧
    (provision params input account (host.dirs account.path) calls).2 = .ok () ∧
    calls.registered = true ∧ account.did ∉ host.accounts.rows.map AccountRow.did ∧
    input.handle ∉ host.accounts.rows.map AccountRow.handle ∧
    calls.sessionCreated = true ∧ calls.answered = true

variable {server : CreateServer} {host : CreateHost} {params : Option Json} {calls : CreateCalls}
  {input : CreateInput} {account : NewAccount} {d : AccountDir}

/-- The address and the handle of a new account are those in the request. -/
theorem checkInput_eq_ok (h : checkInput params = .ok input) :
    nonEmptyParam params "email" = some input.email ∧
      nonEmptyParam params "handle" = some input.handle := by
  rw [checkInput] at h
  split at h
  · cases h
  · split at h <;> try cases h
    next email handle password hemail hhandle hpassword =>
      split at h <;> cases h
      exact ⟨hemail, hhandle⟩

variable (server host calls) in
/-- The invite codes change only where the code of the request is used. -/
theorem takeInvite_eq_iff (hinput : checkInput params = .ok input) :
    (takeInvite server host.invites params input.handle calls.consume).1 = host.invites ↔
      ¬ SpendsInvite server host params calls := by
  rw [takeInvite]
  by_cases hrequired : server.inviteRequired = true
  swap
  · simp [SpendsInvite, hrequired]
  rw [if_pos hrequired]
  cases hcode : nonEmptyParam params "inviteCode" with
  | none => simp [SpendsInvite, hcode]
  | some code =>
    have hconsume := Invites.consumeInviteCode_eq_iff host.invites code input.handle calls.consume
    have hspend : (host.invites.consumeInviteCode code input.handle calls.consume).1 =
        host.invites ↔ ¬ (host.invites.usable code calls.consume = .ok () ∧
          (calls.consume.updated = true ∨ calls.consume.inserted = true)) := by
      rw [hconsume]
      cases calls.consume.updated <;> cases calls.consume.inserted <;> simp
    have hgoal : ¬ SpendsInvite server host params calls ↔
        ¬ (host.invites.usable code calls.consume = .ok () ∧
          (calls.consume.updated = true ∨ calls.consume.inserted = true)) := by
      simp [SpendsInvite, hinput, hrequired, hcode]
    rw [hgoal, ← hspend]
    cases hr : host.invites.consumeInviteCode code input.handle calls.consume with
    | mk invites r => cases r <;> simp only [hr]

variable (params calls input account d) in
/-- Providing an account keeps what a directory holds unless it writes it. -/
theorem provision_assets_iff :
    (provision params input account d calls).1.assets = d.assets ↔
      ¬ WritesAssets params input account d calls := by
  obtain ⟨hemails, hassets⟩ := accountContextOpenShared_assets account.did
    input.handle input.password account.key d calls.opening
  have hwrites : ¬ WritesAssets params input account d calls ↔
      (accountContextOpenShared account.did input.handle input.password account.key d
        calls.opening).1.assets = d.assets ∧ ¬ SetsEmail params input account d calls := by
    rw [hassets, WritesAssets]
    tauto
  have hset : SetsEmail params input account d calls ↔
      (accountContextOpenShared account.did input.handle input.password account.key d
        calls.opening).2 = true ∧ (startsDeactivated params = true → calls.deactivated = true) ∧
        calls.emailStored = true ∧ d.emails.email ≠ some input.email :=
    ⟨fun h => ⟨h.1, h.2, h.3, h.4⟩, fun h => ⟨h.1, h.2.1, h.2.2.1, h.2.2.2⟩⟩
  rw [hwrites, hset, provision]
  cases hopen : accountContextOpenShared account.did input.handle input.password account.key d
    calls.opening with
  | mk d' opened =>
    rw [hopen] at hemails hassets
    cases opened with
    | false => simp
    | true =>
      by_cases hdeactivate : startsDeactivated params = true ∧ calls.deactivated = false
      · simp only [if_pos hdeactivate]
        simp [hdeactivate]
      · simp only [if_neg hdeactivate]
        have hdeactivated : startsDeactivated params = true → calls.deactivated = true := by
          simpa using hdeactivate
        cases hstored : calls.emailStored with
        | false => simp [EmailStore.storeEmail, AccountDir.assets]
        | true =>
          have hemail : d'.emails.email = d.emails.email := congrArg EmailStore.email hemails
          simp only [EmailStore.storeEmail, if_true, AccountDir.assets, AccountAssets.mk.injEq,
            hemail]
          have hnot : ¬ (True ∧ (startsDeactivated params = true → calls.deactivated = true) ∧
              True ∧ d.emails.email ≠ some input.email) ↔ d.emails.email = some input.email :=
            ⟨fun h => by_contra fun hne => h ⟨trivial, hdeactivated, trivial, hne⟩,
              fun h hset => hset.2.2.2 h⟩
          rw [hnot]
          constructor
          · rintro ⟨hset, hrest⟩
            exact ⟨⟨trivial, hrest⟩, hset.symm⟩
          · rintro ⟨⟨-, hrest⟩, hset⟩
            exact ⟨hset.symm, hrest⟩

/-! ## The whole request -/

variable (host) in
/-- What a request leaves is kept where the invites are as before and the directory that it wrote,
if it is one of a registered account. -/
theorem kept_iff (accounts : AccountTable) (invites : Invites) (path : String) (dir : AccountDir)
    (hrows : ∀ row ∈ host.accounts.rows, row ∈ accounts.rows) :
    Kept host ⟨accounts, invites, Function.update host.dirs path dir⟩ ↔
      invites = host.invites ∧ ((∃ row ∈ host.accounts.rows, row.dataDirectory = path) →
        dir.assets = (host.dirs path).assets) := by
  constructor
  · rintro ⟨hinvites, -, hassets⟩
    refine ⟨hinvites, ?_⟩
    rintro ⟨row, hrow, rfl⟩
    simpa using hassets row hrow
  · rintro ⟨hinvites, hdir⟩
    refine ⟨hinvites, hrows, fun row hrow => ?_⟩
    by_cases hpath : row.dataDirectory = path
    · subst hpath
      simpa using hdir ⟨row, hrow, rfl⟩
    · simp only [Function.update_of_ne hpath]

variable (host) in
/-- What a request leaves that wrote no store is kept where the invites are as before. -/
theorem kept_iff_invites {invites : Invites} :
    Kept host { host with invites := invites } ↔ invites = host.invites :=
  ⟨fun h => h.invites, fun h => ⟨h, fun _ hrow => hrow, fun _ _ => rfl⟩⟩

/-- A request reaches the stores for one account at most. -/
theorem ReachesStores.unique {input' : CreateInput} {account' : NewAccount}
    (h : ReachesStores server host params calls input account)
    (h' : ReachesStores server host params calls input' account') :
    input' = input ∧ account' = account := by
  have hinput := h.checked.symm.trans h'.checked
  injection hinput with hinput
  subst hinput
  have haccount := h.chosen.symm.trans h'.chosen
  injection haccount with haccount
  exact ⟨rfl, haccount.symm⟩

/-- A request that ends before the stores leaves accounts and directories as they are. One that
reaches them leaves what was provided, and adds the account where everything was carried out. -/
theorem createAccount_cases (server : CreateServer) (host : CreateHost) (params : Option Json)
    (calls : CreateCalls) :
    ((createAccount server host params calls).1.accounts = host.accounts ∧
      (createAccount server host params calls).1.dirs = host.dirs) ∨
    ∃ input account, ReachesStores server host params calls input account ∧
      (createAccount server host params calls).1.dirs = Function.update host.dirs account.path
        (provision params input account (host.dirs account.path) calls).1 ∧
      ((createAccount server host params calls).1.accounts = host.accounts ∨
        (provision params input account (host.dirs account.path) calls).2 = .ok () ∧
        host.accounts.addWithEmail ⟨account.did, input.handle, account.path, some input.email,
            !startsDeactivated params⟩ calls.registered =
          .ok (createAccount server host params calls).1.accounts) := by
  rw [createAccount]
  cases hinput : checkInput params with
  | error e => exact Or.inl ⟨rfl, rfl⟩
  | ok input =>
    dsimp only
    rcases hinvite : takeInvite server host.invites params input.handle calls.consume with
      ⟨invites, e | u⟩
    · exact Or.inl ⟨rfl, rfl⟩
    dsimp only
    cases hchosen : chooseAccount server host.accounts params input calls with
    | error e => exact Or.inl ⟨rfl, rfl⟩
    | ok account =>
      refine Or.inr ⟨input, account, ⟨hinput, by rw [hinvite], hchosen⟩, ?_⟩
      dsimp only
      rcases provision params input account (host.dirs account.path) calls with ⟨dir, e | u⟩
      · exact ⟨rfl, Or.inl rfl⟩
      dsimp only
      cases hadd : host.accounts.addWithEmail ⟨account.did, input.handle, account.path,
        some input.email, !startsDeactivated params⟩ calls.registered with
      | error e => exact ⟨rfl, Or.inl rfl⟩
      | ok accounts => exact ⟨rfl, Or.inr ⟨rfl, rfl⟩⟩

/-- A request that ends before the stores spends an invite or none; it does nothing else. -/
theorem createAccount_kept_iff_of_not_reaching
    (hnone : ∀ input account, ¬ ReachesStores server host params calls input account) :
    ((∃ e, (createAccount server host params calls).2 = .error e) →
        Kept host (createAccount server host params calls).1) ↔
      (Accepted server host params calls ∨
        ¬ SpendsInvite server host params calls ∧ ¬ Overwrites server host params calls) := by
  have haccepted : ¬ Accepted server host params calls :=
    fun ⟨input, account, h, _⟩ => hnone input account h
  have hover : ¬ Overwrites server host params calls :=
    fun ⟨input, account, h, _⟩ => hnone input account h
  simp only [haccepted, hover, not_false_eq_true, and_true, false_or]
  rw [createAccount]
  cases hinput : checkInput params with
  | error e =>
    exact iff_of_true (fun _ => ⟨rfl, fun _ h => h, fun _ _ => rfl⟩) (by simp [SpendsInvite, hinput])
  | ok input =>
    rw [← takeInvite_eq_iff server host calls hinput]
    dsimp only
    rcases hinvite : takeInvite server host.invites params input.handle calls.consume with
      ⟨invites, e | u⟩
    · rw [← kept_iff_invites host]
      exact ⟨fun h => h ⟨_, rfl⟩, fun h _ => h⟩
    dsimp only
    cases hchosen : chooseAccount server host.accounts params input calls with
    | error e =>
      rw [← kept_iff_invites host]
      exact ⟨fun h => h ⟨_, rfl⟩, fun h _ => h⟩
    | ok account => exact absurd ⟨hinput, by rw [hinvite], hchosen⟩ (hnone input account)

section Reaching

variable (hstores : ReachesStores server host params calls input account)

include hstores

theorem ReachesStores.overwrites_iff : Overwrites server host params calls ↔
    (∃ row ∈ host.accounts.rows, row.dataDirectory = account.path) ∧
      WritesAssets params input account (host.dirs account.path) calls := by
  constructor
  · rintro ⟨input', account', h, hrow, hwrites⟩
    obtain ⟨rfl, rfl⟩ := hstores.unique h
    exact ⟨hrow, hwrites⟩
  · rintro ⟨hrow, hwrites⟩
    exact ⟨input, account, hstores, hrow, hwrites⟩

theorem ReachesStores.accepted_iff : Accepted server host params calls ↔
    (provision params input account (host.dirs account.path) calls).2 = .ok () ∧
      calls.registered = true ∧ account.did ∉ host.accounts.rows.map AccountRow.did ∧
      input.handle ∉ host.accounts.rows.map AccountRow.handle ∧
      calls.sessionCreated = true ∧ calls.answered = true := by
  constructor
  · rintro ⟨input', account', h, hrest⟩
    obtain ⟨rfl, rfl⟩ := hstores.unique h
    exact hrest
  · exact fun h => ⟨input, account, hstores, h⟩

/-- What is left of a request that reaches the stores: they are written, and the account is added
where everything is carried out. -/
theorem ReachesStores.failed_kept_iff :
    ((∃ e, (createAccount server host params calls).2 = .error e) →
        Kept host (createAccount server host params calls).1) ↔
      (Accepted server host params calls ∨
        ¬ SpendsInvite server host params calls ∧ ¬ Overwrites server host params calls) := by
  have hspend := takeInvite_eq_iff server host calls hstores.checked
  have hassets := provision_assets_iff params calls input account (host.dirs account.path)
  have hinvited := hstores.invited
  rw [hstores.overwrites_iff, hstores.accepted_iff, ← hspend, not_and, ← hassets, createAccount,
    hstores.checked]
  dsimp only
  rcases hinvite : takeInvite server host.invites params input.handle calls.consume with
    ⟨invites, r⟩
  obtain rfl : r = .ok () := by simpa [hinvite] using hinvited
  dsimp only
  rw [hstores.chosen]
  dsimp only
  rcases hprovision : provision params input account (host.dirs account.path) calls with
    ⟨dir, e | u⟩
  · have hkept := kept_iff host host.accounts invites account.path dir fun _ h => h
    simp only [reduceCtorEq, false_and, false_or]
    rw [← hkept]
    exact ⟨fun h => h ⟨_, rfl⟩, fun h _ => h⟩
  dsimp only
  cases hadd : host.accounts.addWithEmail ⟨account.did, input.handle, account.path,
    some input.email, !startsDeactivated params⟩ calls.registered with
  | error e =>
    have hkept := kept_iff host host.accounts invites account.path dir fun _ h => h
    have hrefused : ¬ (calls.registered = true ∧
        account.did ∉ host.accounts.rows.map AccountRow.did ∧
        input.handle ∉ host.accounts.rows.map AccountRow.handle ∧
        calls.sessionCreated = true ∧ calls.answered = true) := by
      rintro ⟨hregistered, hdid, hhandle, -⟩
      obtain ⟨t, ht⟩ := AccountTable.exists_of_addWithEmail host.accounts ⟨account.did,
        input.handle, account.path, some input.email, !startsDeactivated params⟩ hregistered hdid
        hhandle
      rw [hadd] at ht
      cases ht
    simp only [true_and, hrefused, false_or]
    rw [← hkept]
    exact ⟨fun h => h ⟨_, rfl⟩, fun h _ => h⟩
  | ok accounts =>
    obtain ⟨hregistered, hdid, hhandle, hrows⟩ := AccountTable.addWithEmail_eq_ok hadd
    have hkept := kept_iff host accounts invites account.path dir fun row hrow => by
      rw [hrows]
      exact List.mem_append_left _ hrow
    simp only [true_and, hregistered, hdid, hhandle, not_false_eq_true]
    rw [← hkept]
    cases hsession : calls.sessionCreated <;> cases hanswered : calls.answered <;> simp

end Reaching

/-- A failed creation changes nothing that existed if and only if it spends no invite and writes no
store of a registered account. -/
theorem createAccount_kept_iff (server : CreateServer) (host : CreateHost) (params : Option Json)
    (calls : CreateCalls) :
    ((∃ e, (createAccount server host params calls).2 = .error e) →
        Kept host (createAccount server host params calls).1) ↔
      (Accepted server host params calls ∨
        ¬ SpendsInvite server host params calls ∧ ¬ Overwrites server host params calls) := by
  by_cases hreach : ∃ input account, ReachesStores server host params calls input account
  · obtain ⟨input, account, hstores⟩ := hreach
    exact hstores.failed_kept_iff
  · exact createAccount_kept_iff_of_not_reaching fun input account h => hreach ⟨input, account, h⟩

/-! ## A request that fails and changes an account -/

/-- A host with one account and an invite, where everything is carried out. -/
def exampleServer : CreateServer := ⟨"/data", ".pds.test", true, false, fun _ => true⟩

def exampleDir : AccountDir where
  repoMeta := some ⟨"did:example:alice", "alice.pds.test", [1]⟩
  head := some "bafyhead"
  blobs := []
  credentials := some ⟨[2], [3]⟩
  active := true
  emails := ⟨some "alice@mail.test", true, []⟩

def exampleHost : CreateHost where
  accounts := ⟨[⟨"did:example:alice", "alice.pds.test", "/data/did_example_alice",
    some "alice@mail.test", true⟩], by decide, by decide⟩
  invites := ⟨[⟨"welcome", 1, false⟩], []⟩
  dirs := fun path => if path = "/data/did_example_alice" then exampleDir else AccountDir.empty

def exampleCalls : CreateCalls where
  consume := ⟨true, true, true⟩
  handleRead := true
  emailRead := true
  ownsDid := false
  didRead := true
  didCopied := true
  minted := none
  generated := some ("did:key:zQ3", [4])
  pathBuilt := true
  opening := ⟨true, true, none, true, true, true, true, some ⟨[5], [6]⟩, true, true⟩
  deactivated := true
  emailStored := true
  registered := true
  sessionCreated := true
  answered := true

/-- Somebody else asks for the DID of the account. -/
def exampleParams : Option Json :=
  some (.object [("email", .string "mallory@mail.test"), ("handle", .string "mallory.pds.test"),
    ("password", .string "secret"), ("did", .string "did:example:alice"),
    ("inviteCode", .string "welcome")])

/-- The answer is an error, the account has another address, and the invite is used up. -/
theorem taken_did_loses_its_email :
    (createAccount exampleServer exampleHost exampleParams exampleCalls).2 =
        .error (.answer ⟨400, "HandleNotAvailable", "Handle is already taken"⟩) ∧
      (createAccount exampleServer exampleHost exampleParams exampleCalls).1.invites =
        ⟨[⟨"welcome", 0, false⟩], [⟨"welcome", "mallory.pds.test"⟩]⟩ ∧
      ¬ Kept exampleHost (createAccount exampleServer exampleHost exampleParams exampleCalls).1 := by
  refine ⟨rfl, by decide, fun h => ?_⟩
  have hassets := h.assets ⟨"did:example:alice", "alice.pds.test", "/data/did_example_alice",
    some "alice@mail.test", true⟩ (List.mem_singleton.mpr rfl)
  exact absurd (congrArg AccountAssets.email hassets) (by decide)

end MetalBear.Account
