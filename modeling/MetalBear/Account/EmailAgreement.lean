import MetalBear.Account.Confirmation
import MetalBear.Account.Handles

/-!
# One address in two stores

The address of an account stands in the registry, where a new account looks for it, and in the
account's own store, which every other route reads and writes. Only a creation writes both. This file
says when the two agree, and when an address belongs to one account.
-/

namespace MetalBear.Account

open Machine

/-! ## The requests -/

/-- What the administrator's request finds before the store of the account. -/
structure AdminCalls where
  found : Bool
  pathBuilt : Bool
  opened : Bool
  deriving DecidableEq, Repr

/-- `admin_update_account_email`: the account is named by its DID or its handle. -/
def adminUpdateEmailOf (host : CreateHost) (account email : Option String) (admin : AdminCalls)
    (calls : EmailCalls) : CreateHost × Except RouteError Unit :=
  match account.filter fun value => value ≠ "", email.filter fun value => value ≠ "" with
  | none, _ =>
    (host, .error (.answer ⟨400, "InvalidRequest", "account (DID or handle) is required"⟩))
  | _, none => (host, .error (.answer ⟨400, "InvalidRequest", "email is required"⟩))
  | some account, some email =>
    match ((host.accounts.findByDid account).or (host.accounts.findByHandle account)).filter
      fun _ => admin.found with
    | none =>
      (host, .error (.answer ⟨400, "InvalidRequest",
        snprintf 320 ("Account does not exist: " ++ account)⟩))
    | some row =>
      if admin.pathBuilt = false then
        (host, .error (.answer ⟨500, "InternalError", "Internal error"⟩))
      else if admin.opened then
        let reply := adminUpdateAccountEmail (host.dirs row.dataDirectory).emails email calls
        ({ host with
            dirs := Function.update host.dirs row.dataDirectory
              { host.dirs row.dataDirectory with emails := reply.store } }, reply.answer)
      else (host, .error (.answer ⟨500, "InternalError", "Could not open account store"⟩))

/-- The requests that change which address an account has. -/
inductive AddressEvent where
  | create (params : Option Json) (calls : CreateCalls)
  /-- For the account whose stores are in this directory. -/
  | update (directory : String) (params : Option Json) (calls : EmailCalls)
  | adminUpdate (account email : Option String) (admin : AdminCalls) (calls : EmailCalls)
  | delete (did : String)

/-- One request. -/
def AddressEvent.step (server : CreateServer) (host : CreateHost) : AddressEvent → CreateHost
  | .create params calls => (createAccount server host params calls).1
  | .update directory params calls =>
    { host with
      dirs := Function.update host.dirs directory
        { host.dirs directory with
          emails := (updateEmail (host.dirs directory).emails params calls).store } }
  | .adminUpdate account email admin calls => (adminUpdateEmailOf host account email admin calls).1
  | .delete did => { host with accounts := host.accounts.remove did }

/-- The registry and the stores name the same address for every account, and no two accounts have
the same one. -/
structure AddressesAgree (host : CreateHost) : Prop where
  agree : ∀ row ∈ host.accounts.rows, row.email = (host.dirs row.dataDirectory).emails.email
  unique : ∀ row ∈ host.accounts.rows, ∀ row' ∈ host.accounts.rows, row.email = row'.email →
    row.did = row'.did

/-! ## The condition -/

/-- The stores in the directory, if they are those of an account, have this address already. -/
def HasAddress (host : CreateHost) (directory email : String) : Prop :=
  (∃ row ∈ host.accounts.rows, row.dataDirectory = directory) →
    (host.dirs directory).emails.email = some email

/-- `update_email` gets as far as the write of this address, and it is carried out: the account is
known, and where its address is confirmed a row is taken for a token that is valid. -/
structure StoresUpdate (s : EmailStore) (params : Option Json) (calls : EmailCalls)
    (email : String) : Prop where
  resolved : calls.resolved = true
  named : nonEmptyParam params "email" = some email
  verified : calls.emailRead = true → s.emailConfirmed = true →
    ∃ token, nonEmptyParam params "token" = some token ∧ calls.verify.prepared = true ∧
      0 < s.changesAfter "update" token calls.verify
  stored : calls.emailStored = true

/-- `admin_update_account_email` gets as far as the stores of this row, and the write of this
address is carried out. -/
structure StoresAdminUpdate (host : CreateHost) (account param : Option String)
    (admin : AdminCalls) (calls : EmailCalls) (row : AccountRow) (email : String) : Prop where
  row : ∃ name, account = some name ∧
    (host.accounts.findByDid name).or (host.accounts.findByHandle name) = some row
  named : param = some email ∧ email ≠ ""
  found : admin.found = true
  pathBuilt : admin.pathBuilt = true
  opened : admin.opened = true
  stored : calls.emailStored = true

/-- The condition on a request: it writes no other address into the stores of an account that is
there, and a new account does not miss the lookup of its own. -/
def KeepsAddresses (server : CreateServer) (host : CreateHost) : AddressEvent → Prop
  | .create params calls =>
    ∀ input account, ReachesStores server host params calls input account →
      (calls.emailRead = true ∨ host.accounts.findByEmail input.email = none) ∧
      ((∃ row ∈ host.accounts.rows, row.dataDirectory = account.path) →
        ¬ SetsEmail params input account (host.dirs account.path) calls)
  | .update directory params calls =>
    ∀ email, StoresUpdate (host.dirs directory).emails params calls email →
      HasAddress host directory email
  | .adminUpdate account param admin calls =>
    ∀ row email, StoresAdminUpdate host account param admin calls row email →
      HasAddress host row.dataDirectory email
  | .delete _ => True

/-! ## What a request writes -/

variable {server : CreateServer} {host : CreateHost} {params : Option Json} {calls : CreateCalls}
  {input : CreateInput} {account : NewAccount} {d : AccountDir}

variable (params calls input account d) in
/-- Providing an account leaves the address in the stores, or sets it. -/
theorem provision_email :
    (¬ SetsEmail params input account d calls →
      (provision params input account d calls).1.emails.email = d.emails.email) ∧
    ((provision params input account d calls).2 = .ok () →
      (provision params input account d calls).1.emails.email = some input.email) := by
  have hemails := (accountContextOpenShared_assets account.did input.handle input.password
    account.key d calls.opening).1
  rw [provision]
  cases hopen : accountContextOpenShared account.did input.handle input.password account.key d
    calls.opening with
  | mk d' opened =>
    rw [hopen] at hemails
    have hemail : d'.emails.email = d.emails.email := congrArg EmailStore.email hemails
    cases opened with
    | false => exact ⟨fun _ => hemail, fun h => by cases h⟩
    | true =>
      dsimp only
      by_cases hdeactivate : startsDeactivated params = true ∧ calls.deactivated = false
      · rw [if_pos hdeactivate]
        exact ⟨fun _ => hemail, fun h => by cases h⟩
      rw [if_neg hdeactivate]
      cases hstored : calls.emailStored with
      | false => exact ⟨fun _ => hemail, fun h => by cases h⟩
      | true =>
        refine ⟨fun hset => ?_, fun _ => rfl⟩
        by_contra hne
        refine hset ⟨by rw [hopen], by simpa using hdeactivate, hstored, fun heq => hne ?_⟩
        rw [heq]
        rfl

/-- A new account has an address that the lookup did not find. -/
theorem findByEmail_of_chooseAccount
    (h : chooseAccount server host.accounts params input calls = .ok account)
    (hread : calls.emailRead = true) : host.accounts.findByEmail input.email = none := by
  rw [chooseAccount] at h
  cases havailable : checkAvailable server host.accounts input calls with
  | error e => simp [havailable] at h
  | ok u =>
    rw [checkAvailable] at havailable
    by_contra hfound
    have hsome : (host.accounts.findByEmail input.email).isSome = true :=
      Option.isSome_iff_ne_none.mpr hfound
    simp only [hread, hsome, and_self, if_true] at havailable
    split_ifs at havailable

/-- An update that is not stored leaves the address, and one that is stored sets it. -/
theorem updateEmail_email (s : EmailStore) (params : Option Json) (calls : EmailCalls) :
    (updateEmail s params calls).store.email = s.email ∨
      ∃ email, StoresUpdate s params calls email ∧
        (updateEmail s params calls).store.email = some email := by
  have hreplace : ∀ (s' : EmailStore) email spent, s'.email = s.email →
      (replaceEmail s' email calls spent).store.email = s.email ∨ calls.emailStored = true ∧
        (replaceEmail s' email calls spent).store.email = some email := by
    intro s' email spent hs'
    rw [replaceEmail, EmailStore.storeEmail]
    cases calls.emailStored
    · exact Or.inl hs'
    · exact Or.inr ⟨rfl, rfl⟩
  rw [updateEmail]
  by_cases hresolved : calls.resolved = false
  · rw [if_pos hresolved]
    exact Or.inl rfl
  rw [if_neg hresolved]
  have hknown : calls.resolved = true := Bool.eq_true_of_not_eq_false hresolved
  cases hemail : nonEmptyParam params "email" with
  | none => exact Or.inl rfl
  | some email =>
    dsimp only
    by_cases hconfirmed : calls.emailRead = true ∧ s.emailConfirmed = true
    · rw [if_pos hconfirmed]
      cases htoken : nonEmptyParam params "token" with
      | none => exact Or.inl rfl
      | some token =>
        dsimp only
        cases hverify : s.verifyEmailToken "update" token calls.verify with
        | mk s' r =>
          cases r with
          | error e => exact Or.inl (EmailStore.verifyEmailToken_eq_error hverify).2.1
          | ok u =>
            obtain ⟨hprepared, hchanges, hs'⟩ := EmailStore.verifyEmailToken_eq_ok hverify
            exact (hreplace s' email _ (by rw [hs'])).imp_right fun h => ⟨email,
              ⟨hknown, hemail, fun _ _ => ⟨token, htoken, hprepared, hchanges⟩, h.1⟩, h.2⟩
    · rw [if_neg hconfirmed]
      exact (hreplace s email none rfl).imp_right fun h => ⟨email,
        ⟨hknown, hemail, fun hread hconf => absurd ⟨hread, hconf⟩ hconfirmed, h.1⟩, h.2⟩

/-- So does an update by the administrator. -/
theorem adminUpdateAccountEmail_email (s : EmailStore) (email : String) (calls : EmailCalls) :
    (adminUpdateAccountEmail s email calls).store.email =
      if calls.emailStored then some email else s.email := by
  rw [adminUpdateAccountEmail, EmailStore.storeEmail]
  cases calls.emailStored <;> cases calls.tokensDeleted <;> rfl

/-- The directory of an account may be written as long as its address stays. -/
theorem AddressesAgree.setDir (h : AddressesAgree host) (directory : String) {d : AccountDir}
    (hd : (∃ row ∈ host.accounts.rows, row.dataDirectory = directory) →
      d.emails.email = (host.dirs directory).emails.email) :
    AddressesAgree { host with dirs := Function.update host.dirs directory d } := by
  refine ⟨fun row hrow => ?_, h.unique⟩
  by_cases hdirectory : row.dataDirectory = directory
  · subst hdirectory
    dsimp only
    rw [Function.update_self, hd ⟨row, hrow, rfl⟩]
    exact h.agree row hrow
  · dsimp only
    rw [Function.update_of_ne hdirectory]
    exact h.agree row hrow

/-! ## One request -/

/-- A creation keeps the addresses. -/
theorem AddressesAgree.create (h : AddressesAgree host)
    (hk : KeepsAddresses server host (.create params calls)) :
    AddressesAgree (createAccount server host params calls).1 := by
  rcases createAccount_cases server host params calls with
    ⟨hsame, hdirs⟩ | ⟨input, account, hreach, hdirs, haccounts⟩
  · exact ⟨by rw [hsame, hdirs]; exact h.agree, by rw [hsame]; exact h.unique⟩
  obtain ⟨hemail, hstored⟩ := provision_email params calls input account (host.dirs account.path)
  have hold := h.setDir account.path fun hrow => hemail ((hk _ _ hreach).2 hrow)
  rcases haccounts with hsame | ⟨hok, hadd⟩
  · refine ⟨?_, by rw [hsame]; exact h.unique⟩
    rw [hsame, hdirs]
    exact hold.agree
  -- The new row stands beside the old ones, with an address that none of them has.
  obtain ⟨hparam, -⟩ := checkInput_eq_ok hreach.checked
  have hne : input.email ≠ "" := by
    rw [nonEmptyParam, Option.filter_eq_some_iff] at hparam
    simpa using hparam.2
  have hnone : host.accounts.findByEmail input.email = none :=
    (hk _ _ hreach).1.elim (findByEmail_of_chooseAccount hreach.chosen) id
  have hfree : ∀ row ∈ host.accounts.rows, row.email ≠ some input.email := by
    simpa [AccountTable.findByEmail, hne, List.find?_eq_none] using hnone
  obtain ⟨-, -, -, hrows⟩ := AccountTable.addWithEmail_eq_ok hadd
  have hmem : ∀ row ∈ (createAccount server host params calls).1.accounts.rows,
      row ∈ host.accounts.rows ∨
        row.email = some input.email ∧ row.dataDirectory = account.path ∧
          row.did = account.did := by
    intro row hrow
    rw [hrows] at hrow
    rcases List.mem_append.mp hrow with hrow | hrow
    · exact Or.inl hrow
    · obtain rfl := List.mem_singleton.mp hrow
      exact Or.inr ⟨by simp [Option.filter, hne], rfl, rfl⟩
  refine ⟨fun row hrow => ?_, fun row hrow row' hrow' heq => ?_⟩
  · rw [hdirs]
    rcases hmem row hrow with hrow | ⟨hrow, hpath, -⟩
    · exact hold.agree row hrow
    · rw [hpath, Function.update_self, hstored hok, hrow]
  · rcases hmem row hrow with hrow | ⟨hemail, -, hdid⟩ <;>
      rcases hmem row' hrow' with hrow' | ⟨hemail', -, hdid'⟩
    · exact h.unique row hrow row' hrow' heq
    · exact absurd (heq.trans hemail') (hfree row hrow)
    · exact absurd (heq.symm.trans hemail) (hfree row' hrow')
    · rw [hdid, hdid']

/-- An administrator's update keeps the addresses. -/
theorem AddressesAgree.adminUpdate (h : AddressesAgree host) {account email : Option String}
    {admin : AdminCalls} {calls : EmailCalls}
    (hk : KeepsAddresses server host (.adminUpdate account email admin calls)) :
    AddressesAgree (adminUpdateEmailOf host account email admin calls).1 := by
  rw [adminUpdateEmailOf]
  cases haccount : account.filter fun value => value ≠ "" with
  | none => exact h
  | some name =>
    cases hemail : email.filter fun value => value ≠ "" with
    | none => exact h
    | some address =>
      dsimp only
      cases hfound : ((host.accounts.findByDid name).or (host.accounts.findByHandle name)).filter
        fun _ => admin.found with
      | none => exact h
      | some row =>
        obtain ⟨hname, -⟩ := Option.filter_eq_some_iff.mp haccount
        obtain ⟨haddress, hne⟩ := Option.filter_eq_some_iff.mp hemail
        obtain ⟨hrow, hadmin⟩ := Option.filter_eq_some_iff.mp hfound
        dsimp only
        split_ifs with hpath hopened
        · exact h
        · refine h.setDir _ fun hregistered => ?_
          dsimp only
          rw [adminUpdateAccountEmail_email]
          split_ifs with hstored
          · exact (hk row address ⟨⟨name, hname, hrow⟩, ⟨haddress, by simpa using hne⟩, hadmin,
              Bool.eq_true_of_not_eq_false hpath, hopened, hstored⟩ hregistered).symm
          · rfl
        · exact h

/-- Every request that meets the condition keeps the addresses. -/
theorem AddressesAgree.step (h : AddressesAgree host) {ev : AddressEvent}
    (hev : KeepsAddresses server host ev) : AddressesAgree (ev.step server host) := by
  cases ev with
  | create params calls => exact h.create hev
  | update directory params calls =>
    refine h.setDir _ fun hrow => ?_
    rcases updateEmail_email (host.dirs directory).emails params calls with
      hsame | ⟨email, hstores, hset⟩
    · exact hsame
    · exact hset.trans (hev email hstores hrow).symm
  | adminUpdate account email admin calls => exact h.adminUpdate hev
  | delete did =>
    exact ⟨fun row hrow => h.agree row (List.mem_of_mem_filter hrow), fun row hrow row' hrow' =>
      h.unique row (List.mem_of_mem_filter hrow) row' (List.mem_of_mem_filter hrow')⟩

/-! ## Every run -/

/-- While no account that is there gets another address and every lookup of a new address is carried
out, the registry and the stores agree, and an address belongs to one account. -/
theorem addresses_agree (server : CreateServer) (invites : Invites) (dirs : String → AccountDir)
    (run : List AddressEvent)
    (h : Steps (AddressEvent.step server) (KeepsAddresses server)
      ⟨AccountTable.empty, invites, dirs⟩ run) :
    States (AddressEvent.step server) AddressesAgree ⟨AccountTable.empty, invites, dirs⟩ run :=
  states_of_steps ⟨by simp [AccountTable.empty], by simp [AccountTable.empty]⟩
    (fun _ _ ha hev => ha.step hev) h

/-! ## An address that changes in one store -/

/-- A sign-up on the example host that is given this DID. -/
def exampleAddressSignup (did handle email : String) : AddressEvent :=
  .create
    (some (.object [("email", .string email), ("handle", .string handle),
      ("password", .string "secret")]))
    { exampleCalls with generated := some (did, [4]) }

/-- An account with its address in the stores. -/
def exampleAddressRun : List AddressEvent :=
  [exampleAddressSignup "did:key:zA" "alice.pds.test" "a@mail.test"]

/-- An update of the address of the account in this directory. -/
def exampleAddressUpdate (directory email : String) : AddressEvent :=
  .update directory (exampleEmailParams email "") (exampleEmailCalls 0)

/-- A sign-up meets the condition where no account has the directory of its DID. -/
theorem keepsAddresses_signup {host : CreateHost} {did handle email : String}
    (hfree : ∀ row ∈ host.accounts.rows, row.dataDirectory ≠ accountDirForDid "/data" did) :
    KeepsAddresses exampleHandleServer.toCreateServer host
      (exampleAddressSignup did handle email) := by
  intro input account hreach
  refine ⟨Or.inl rfl, fun ⟨row, hrow, hpath⟩ => absurd ?_ (hfree row hrow)⟩
  have hchosen := hreach.chosen
  rw [chooseAccount] at hchosen
  split at hchosen
  · cases hchosen
  · have hdid : chooseDid exampleHandleServer.toCreateServer host.accounts
        (some (.object [("email", .string email), ("handle", .string handle),
          ("password", .string "secret")])) { exampleCalls with generated := some (did, [4]) } =
        .ok (some did, some [4]) := rfl
    rw [hdid] at hchosen
    dsimp only at hchosen
    split_ifs at hchosen
    cases hchosen
    exact hpath

/-- Two accounts, and a third sign-up that is refused for the address of the first; then that
address is set once more. -/
def exampleAddresses : List AddressEvent :=
  exampleAddressRun ++
    [exampleAddressSignup "did:key:zB" "robin.pds.test" "b@mail.test",
      exampleAddressSignup "did:key:zC" "carol.pds.test" "a@mail.test",
      exampleAddressUpdate "/data/did_key_zA" "a@mail.test"]

theorem two_addresses_agree :
    States (AddressEvent.step exampleHandleServer.toCreateServer) AddressesAgree
        ⟨AccountTable.empty, ⟨[], []⟩, fun _ => AccountDir.empty⟩ exampleAddresses ∧
      ((exec (AddressEvent.step exampleHandleServer.toCreateServer)
        ⟨AccountTable.empty, ⟨[], []⟩, fun _ => AccountDir.empty⟩
        exampleAddresses).accounts.rows.map AccountRow.email) =
          [some "a@mail.test", some "b@mail.test"] := by
  refine ⟨addresses_agree exampleHandleServer.toCreateServer ⟨[], []⟩ (fun _ => AccountDir.empty) _
    ⟨keepsAddresses_signup (by decide +kernel), keepsAddresses_signup (by decide +kernel),
      keepsAddresses_signup (by decide +kernel), fun email hstores _ => ?_, trivial⟩,
    by decide +kernel⟩
  obtain rfl : "a@mail.test" = email := Option.some.inj hstores.named
  decide +kernel

/-- Another address is set, and the registry keeps the old one. -/
theorem registry_keeps_old_address :
    ¬ States (AddressEvent.step exampleHandleServer.toCreateServer) AddressesAgree
      ⟨AccountTable.empty, ⟨[], []⟩, fun _ => AccountDir.empty⟩
      (exampleAddressRun ++ [exampleAddressUpdate "/data/did_key_zA" "b@mail.test"]) := by
  intro h
  exact absurd h.exec.agree (by decide)

end MetalBear.Account
