import MetalBear.Account.FailedCreation
import MetalBear.Library.Machine

/-!
# One account for a handle

The three ways in which a handle reaches the registry, each with its own checks. The registry keeps
handles apart byte by byte; names are the same when they differ in the case of a letter. This file
says when the handles of the host stay apart as names.
-/

namespace MetalBear.Account

open Machine
open MetalBear.Sync (XrpcError)

/-! ## Renaming -/

/-- What the two renames read of the server besides. -/
structure HandleServer extends CreateServer where
  /-- `wf_syntax_handle_is_valid`. -/
  handleIsValid : String → Bool

/-- What a request for a rename finds. -/
structure RenameCalls where
  /-- The account of the access token is resolved. -/
  resolved : Bool
  /-- The seconds to wait, where a limit is exceeded. -/
  limited : Option Nat
  registryRead : Bool
  /-- `metalbear_plc_update_handle`, with its answer where it fails. -/
  plc : Except XrpcError Unit
  /-- Both copies, and `metalbear_repo_store_set_handle`. -/
  repoWritten : Bool
  registryWritten : Bool

/-- The handle is another account's. -/
def AccountTable.handleInUse (t : AccountTable) (did handle : String) (read : Bool) : Bool :=
  read && (t.findByHandle handle).any fun row => row.did ≠ did

/-- `update_handle`, on the registry. -/
def updateHandle (server : HandleServer) (t : AccountTable) (did : String) (param : Option String)
    (calls : RenameCalls) : AccountTable × Except XrpcError Unit :=
  match param.filter fun handle => handle ≠ "" ∧ server.handleIsValid handle = true with
  | none => (t, .error ⟨400, "InvalidHandle", "A valid handle is required"⟩)
  | some handle =>
    if server.outsideDomain handle then
      (t, .error ⟨400, "InvalidHandle", "Handle must be under the configured domain"⟩)
    else if calls.resolved = false then (t, .error ⟨401, "InvalidToken", "Invalid access token"⟩)
    else if let some retryAfter := calls.limited then
      (t, .error ⟨429, "RateLimitExceeded",
        "Rate limit exceeded. Retry after " ++ toString retryAfter ++ " seconds."⟩)
    else if t.handleInUse did handle calls.registryRead then
      (t, .error ⟨400, "InvalidHandle", "Handle is already in use"⟩)
    else
      match calls.plc with
      | .error e => (t, .error e)
      | .ok () =>
        if calls.repoWritten = false then
          (t, .error ⟨500, "InternalError", "Could not persist handle"⟩)
        else
          match t.updateHandle did handle calls.registryWritten with
          | .error _ => (t, .error ⟨500, "InternalError", "Could not persist handle"⟩)
          | .ok t => (t, .ok ())

/-- `admin_update_account_handle`, on the registry. -/
def adminUpdateAccountHandle (server : HandleServer) (t : AccountTable)
    (didParam handleParam : Option String) (calls : RenameCalls) :
    AccountTable × Except XrpcError Unit :=
  match didParam.filter fun did => did ≠ "", handleParam.filter fun handle => handle ≠ "" with
  | none, _ => (t, .error ⟨400, "InvalidRequest", "did is required"⟩)
  | _, none => (t, .error ⟨400, "InvalidRequest", "handle is required"⟩)
  | some did, some handle =>
    if server.handleIsValid handle = false then
      (t, .error ⟨400, "InvalidRequest", "invalid handle"⟩)
    else if t.handleInUse did handle calls.registryRead then
      (t, .error ⟨400, "HandleNotAvailable", "Handle is already taken"⟩)
    else
      match calls.plc with
      | .error e => (t, .error e)
      | .ok () =>
        match t.updateHandle did handle calls.registryWritten with
        | .error _ => (t, .error ⟨500, "InternalError", "Could not update handle"⟩)
        | .ok t => (t, .ok ())

/-! ## Names -/

/-- A handle as a name: letters are compared without case. -/
def foldCase (handle : String) : List Char := handle.toList.map Char.toLower

/-- A name belongs to one account at most. -/
def NamesApart (t : AccountTable) : Prop :=
  ∀ row ∈ t.rows, ∀ row' ∈ t.rows, foldCase row.handle = foldCase row'.handle → row.did = row'.did

/-- No account but this one has the handle in another spelling. -/
def NoOtherSpelling (t : AccountTable) (did : Option String) (handle : String) : Prop :=
  ∀ row ∈ t.rows, some row.did ≠ did → foldCase row.handle = foldCase handle → row.handle = handle

/-- A new account keeps names apart. -/
theorem NamesApart.add {t t' : AccountTable} {row : AccountRow} {carriedOut : Bool}
    (h : NamesApart t) (hadd : t.addWithEmail row carriedOut = .ok t')
    (hspelling : NoOtherSpelling t none row.handle) : NamesApart t' := by
  obtain ⟨-, -, hhandle, hrows⟩ := AccountTable.addWithEmail_eq_ok hadd
  -- An old account with the name would have the very handle, which is free.
  have hfree : ∀ old ∈ t.rows, foldCase old.handle ≠ foldCase row.handle := by
    intro old hold hfold
    have hsame := hspelling old hold (by simp) hfold
    exact hhandle (hsame ▸ List.mem_map_of_mem hold)
  intro r hr r' hr' hfold
  rw [hrows, List.mem_append, List.mem_singleton] at hr hr'
  rcases hr with hr | rfl <;> rcases hr' with hr' | rfl
  · exact h r hr r' hr' hfold
  · exact absurd hfold (hfree r hr)
  · exact absurd hfold.symm (hfree r' hr')
  · rfl

/-- A renamed account keeps names apart. -/
theorem NamesApart.rename {t t' : AccountTable} {did handle : String} {carriedOut : Bool}
    (h : NamesApart t) (hupdate : t.updateHandle did handle carriedOut = .ok t')
    (hspelling : NoOtherSpelling t (some did) handle) : NamesApart t' := by
  obtain ⟨hrows, hnodup⟩ := AccountTable.updateHandle_eq_ok hupdate
  -- Another account with the name would have the very handle, which stays unique.
  have hfree : ∀ own ∈ t.rows, own.did = did → ∀ other ∈ t.rows, other.did ≠ did →
      foldCase other.handle ≠ foldCase handle := by
    intro own hown hdid other hother hne hfold
    have hsame := hspelling other hother (by simpa using hne) hfold
    have hrenamed := List.inj_on_of_nodup_map hnodup
      (List.mem_map_of_mem (f := AccountRow.rename did handle) hown)
      (List.mem_map_of_mem (f := AccountRow.rename did handle) hother)
      (by simp [AccountRow.rename, hdid, hne, hsame])
    have := congrArg AccountRow.did hrenamed
    rw [AccountRow.rename_did, AccountRow.rename_did, hdid] at this
    exact hne this.symm
  intro r hr r' hr' hfold
  rw [hrows] at hr hr'
  obtain ⟨old, hold, rfl⟩ := List.mem_map.mp hr
  obtain ⟨old', hold', rfl⟩ := List.mem_map.mp hr'
  rw [AccountRow.rename_did, AccountRow.rename_did]
  by_cases hdid : old.did = did <;> by_cases hdid' : old'.did = did <;>
    simp only [AccountRow.rename, hdid, hdid', if_true, if_false] at hfold
  · rw [hdid, hdid']
  · exact absurd hfold.symm (hfree old hold hdid old' hold' hdid')
  · exact absurd hfold (hfree old' hold' hdid' old hold hdid)
  · exact h old hold old' hold' hfold

/-- Fewer accounts are as far apart. -/
theorem NamesApart.remove {t : AccountTable} (h : NamesApart t) (did : String) :
    NamesApart (t.remove did) := fun row hrow row' hrow' =>
  h row (List.mem_of_mem_filter hrow) row' (List.mem_of_mem_filter hrow')

/-! ## Every run -/

/-- The requests that change which handles the host serves. -/
inductive HandleEvent where
  | create (params : Option Json) (calls : CreateCalls)
  | update (did : String) (param : Option String) (calls : RenameCalls)
  | adminUpdate (did handle : Option String) (calls : RenameCalls)
  | delete (did : String)

/-- One request. -/
def HandleEvent.step (server : HandleServer) (host : CreateHost) : HandleEvent → CreateHost
  | .create params calls => (createAccount server.toCreateServer host params calls).1
  | .update did param calls =>
    { host with accounts := (updateHandle server host.accounts did param calls).1 }
  | .adminUpdate did handle calls =>
    { host with accounts := (adminUpdateAccountHandle server host.accounts did handle calls).1 }
  | .delete did => { host with accounts := host.accounts.remove did }

/-- The condition on a request: no other account has the handle that it asks for in another
spelling. -/
def AsksNoOtherSpelling (host : CreateHost) : HandleEvent → Prop
  | .create params _ =>
    ∀ handle ∈ nonEmptyParam params "handle", NoOtherSpelling host.accounts none handle
  | .update did param _ => ∀ handle ∈ param, NoOtherSpelling host.accounts (some did) handle
  | .adminUpdate did param _ => ∀ handle ∈ param, NoOtherSpelling host.accounts did handle
  | .delete _ => True

/-- A creation adds the account that was asked for, or none. -/
theorem createAccount_accounts (server : CreateServer) (host : CreateHost) (params : Option Json)
    (calls : CreateCalls) :
    (createAccount server host params calls).1.accounts = host.accounts ∨
      ∃ row carriedOut, nonEmptyParam params "handle" = some row.handle ∧
        host.accounts.addWithEmail row carriedOut =
          .ok (createAccount server host params calls).1.accounts := by
  rcases createAccount_cases server host params calls with
    ⟨hsame, -⟩ | ⟨input, account, hreach, -, hsame | ⟨-, hadd⟩⟩
  · exact Or.inl hsame
  · exact Or.inl hsame
  · exact Or.inr ⟨_, _, (checkInput_eq_ok hreach.checked).2, hadd⟩

/-- A rename by its owner renames the account as asked, or not at all. -/
theorem updateHandle_accounts (server : HandleServer) (t : AccountTable) (did : String)
    (param : Option String) (calls : RenameCalls) :
    (updateHandle server t did param calls).1 = t ∨ ∃ handle ∈ param,
      t.updateHandle did handle calls.registryWritten =
        .ok (updateHandle server t did param calls).1 := by
  rw [updateHandle]
  cases hparam : param.filter fun handle => handle ≠ "" ∧ server.handleIsValid handle = true with
  | none => exact Or.inl rfl
  | some handle =>
    have hmem : handle ∈ param := (Option.mem_filter_iff.mp hparam).1
    dsimp only
    cases calls.limited with
    | some retryAfter => split_ifs <;> exact Or.inl rfl
    | none =>
      cases calls.plc with
      | error e => split_ifs <;> exact Or.inl rfl
      | ok u =>
        cases hupdate : t.updateHandle did handle calls.registryWritten with
        | error e => split_ifs <;> exact Or.inl rfl
        | ok t' =>
          split_ifs
          case neg => exact Or.inr ⟨handle, hmem, hupdate⟩
          all_goals exact Or.inl rfl

/-- So does a rename by an administrator. -/
theorem adminUpdateAccountHandle_accounts (server : HandleServer) (t : AccountTable)
    (didParam handleParam : Option String) (calls : RenameCalls) :
    (adminUpdateAccountHandle server t didParam handleParam calls).1 = t ∨
      ∃ did ∈ didParam, ∃ handle ∈ handleParam,
        t.updateHandle did handle calls.registryWritten =
          .ok (adminUpdateAccountHandle server t didParam handleParam calls).1 := by
  rw [adminUpdateAccountHandle]
  cases hdid : didParam.filter fun did => did ≠ "" with
  | none => exact Or.inl rfl
  | some did =>
    cases hhandle : handleParam.filter fun handle => handle ≠ "" with
    | none => exact Or.inl rfl
    | some handle =>
      dsimp only
      cases calls.plc with
      | error e => split_ifs <;> exact Or.inl rfl
      | ok u =>
        cases hupdate : t.updateHandle did handle calls.registryWritten with
        | error e => split_ifs <;> exact Or.inl rfl
        | ok t' =>
          split_ifs
          case neg =>
            exact Or.inr ⟨did, (Option.mem_filter_iff.mp hdid).1, handle,
              (Option.mem_filter_iff.mp hhandle).1, hupdate⟩
          all_goals exact Or.inl rfl

/-- Every request that meets the condition keeps names apart. -/
theorem HandleEvent.step_namesApart (server : HandleServer) (host : CreateHost) (ev : HandleEvent)
    (h : NamesApart host.accounts) (hev : AsksNoOtherSpelling host ev) :
    NamesApart (ev.step server host).accounts := by
  cases ev with
  | create params calls =>
    rcases createAccount_accounts server.toCreateServer host params calls with
      hsame | ⟨row, carriedOut, hhandle, hadd⟩
    · rw [HandleEvent.step, hsame]
      exact h
    · exact h.add hadd (hev _ hhandle)
  | update did param calls =>
    rcases updateHandle_accounts server host.accounts did param calls with
      hsame | ⟨handle, hmem, hupdate⟩
    · rw [HandleEvent.step, hsame]
      exact h
    · exact h.rename hupdate (hev handle hmem)
  | adminUpdate didParam handleParam calls =>
    rcases adminUpdateAccountHandle_accounts server host.accounts didParam handleParam calls with
      hsame | ⟨did, hdid, handle, hmem, hupdate⟩
    · rw [HandleEvent.step, hsame]
      exact h
    · obtain rfl := Option.mem_def.mp hdid
      exact h.rename hupdate (hev handle hmem)
  | delete did => exact h.remove did

/-- In every run in which no request asks for a handle that another account has in another
spelling, a name belongs to one account at most. -/
theorem handles_namesApart (server : HandleServer) (invites : Invites) (dirs : String → AccountDir)
    (run : List HandleEvent)
    (h : Steps (HandleEvent.step server) AsksNoOtherSpelling ⟨AccountTable.empty, invites, dirs⟩
      run) :
    States (HandleEvent.step server) (fun host => NamesApart host.accounts)
      ⟨AccountTable.empty, invites, dirs⟩ run :=
  states_of_steps (by simp [NamesApart, AccountTable.empty])
    (fun host ev => HandleEvent.step_namesApart server host ev) h

/-! ## Two spellings of one name -/

instance instDecidableNamesApart (t : AccountTable) : Decidable (NamesApart t) :=
  inferInstanceAs (Decidable (∀ row ∈ t.rows, ∀ row' ∈ t.rows,
    foldCase row.handle = foldCase row'.handle → row.did = row'.did))

instance instDecidableNoOtherSpelling (t : AccountTable) (did : Option String) (handle : String) :
    Decidable (NoOtherSpelling t did handle) :=
  inferInstanceAs (Decidable (∀ row ∈ t.rows, some row.did ≠ did →
    foldCase row.handle = foldCase handle → row.handle = handle))

/-- Letters, digits and inner hyphens. -/
def validLabel (label : List Char) : Bool :=
  label ≠ [] && label.length ≤ 63 && label.all (fun c => c.isAlphanum || c == '-') &&
    label.head? ≠ some '-' && label.getLast? ≠ some '-'

/-- The handle syntax: at least two labels, the last of which starts with a letter. -/
def validHandle (handle : String) : Bool :=
  let labels := handle.toList.splitOn '.'
  handle.utf8ByteSize ≤ 253 && 2 ≤ labels.length && labels.all validLabel &&
    (labels.getLast?.bind List.head?).any Char.isAlpha

def exampleHandleServer : HandleServer where
  dataDirectory := "/data"
  userDomain := ".pds.test"
  inviteRequired := false
  plcConfigured := false
  handleValidates := validHandle
  handleIsValid := validHandle

/-- A sign-up that is given this DID. -/
def exampleSignup (did handle email : String) : HandleEvent :=
  .create
    (some (.object [("email", .string email), ("handle", .string handle),
      ("password", .string "secret")]))
    { exampleCalls with generated := some (did, [4]) }

/-- Two accounts with two names. -/
theorem two_names_apart :
    States (HandleEvent.step exampleHandleServer) (fun host => NamesApart host.accounts)
      ⟨AccountTable.empty, ⟨[], []⟩, fun _ => AccountDir.empty⟩
      [exampleSignup "did:key:zA" "alice.pds.test" "a@mail.test",
        exampleSignup "did:key:zB" "robin.pds.test" "b@mail.test"] := by
  refine handles_namesApart exampleHandleServer ⟨[], []⟩ (fun _ => AccountDir.empty) _
    ⟨fun handle _ row hrow => absurd hrow (List.not_mem_nil), fun handle hhandle => ?_, trivial⟩
  obtain rfl : "robin.pds.test" = handle := Option.some.inj hhandle
  decide

/-- Both spellings of one name are given away. -/
theorem one_name_twice : ¬ States (HandleEvent.step exampleHandleServer)
    (fun host => NamesApart host.accounts)
    ⟨AccountTable.empty, ⟨[], []⟩, fun _ => AccountDir.empty⟩
    [exampleSignup "did:key:zA" "alice.pds.test" "a@mail.test",
      exampleSignup "did:key:zB" "Alice.pds.test" "b@mail.test"] := by
  intro h
  exact absurd h.exec (by decide)

end MetalBear.Account
