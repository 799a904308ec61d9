import MetalBear.Account.Create
import MetalBear.Account.InviteCodes
import MetalBear.Library.Machine

/-!
# Invite codes over time

Requests that create codes, use them up, disable them, and rename or remove the accounts that used
them, in any order. A request to create an account takes two steps, and others may come between: it
consumes its code first, before it is known whether there will be an account, and records the use
under the handle it asks for.
-/

namespace MetalBear.Account

open Machine

/-! ## The host -/

/-- A `create_account` that is past the invite; without a code where the host asks for none. -/
structure Signup where
  handle : String
  code : Option String
  deriving DecidableEq, Repr

/-- A consumption that succeeded: the row that it read, and the use. -/
structure Redemption where
  row : InviteCodeRow
  use : InviteCodeUse
  deriving DecidableEq, Repr

/-- The registry and the requests under way, with what has happened so far. -/
structure InviteHost where
  invites : InviteTables
  accounts : AccountTable
  signups : List Signup
  /-- The codes of the creations that succeeded, with the uses asked for. -/
  returned : List (String × Int)
  /-- The uses that a code was inserted with. -/
  granted : String → Option Int
  redeemed : List Redemption
  /-- The code that the account of a DID was created with. -/
  createdWith : String → Option String

namespace InviteHost

/-- A new host. -/
def initial : InviteHost where
  invites := .empty
  accounts := .empty
  signups := []
  returned := []
  granted := fun _ => none
  redeemed := []
  createdWith := fun _ => none

/-- What may happen next. -/
inductive Action where
  | createInviteCodes (forAccount : String) (codes : List (String × StampedCall)) (useCount : Int)
  /-- `create_account`, up to the invite. -/
  | startAccount (handle : String) (code : Option String) (calls : ConsumeCalls) (now : Nat)
  /-- A request under way gets to the registry. -/
  | registerAccount (n : Nat) (did dataDirectory : String) (email : Option String) (active : Bool)
      (carriedOut : Bool)
  /-- A request under way ends before that. -/
  | endAccount (n : Nat)
  | disableInviteCodes (codes accounts : List (String × Bool))
  | updateHandle (did handle : String) (carriedOut : Bool)
  | removeAccount (did : String) (carriedOut : Bool)

/-- A creation of codes. -/
def createInviteCodes (host : InviteHost) (forAccount : String)
    (codes : List (String × StampedCall)) (useCount : Int) : InviteHost :=
  match host.invites.createInviteCodes forAccount codes useCount with
  | (invites, result) =>
    { host with
      invites := invites
      returned := host.returned ++
        (if result = .ok () then codes.map fun code => (code.1, useCount) else [])
      granted := fun code =>
        if host.invites.findCode code = none ∧ (invites.findCode code).isSome then some useCount
        else host.granted code }

/-- A request to create an account consumes its code; where it may not, it ends. -/
def startAccount (host : InviteHost) (handle : String) (code : Option String) (calls : ConsumeCalls)
    (now : Nat) : InviteHost :=
  match code with
  | none => { host with signups := host.signups ++ [⟨handle, none⟩] }
  | some code =>
    match host.invites.consumeInviteCode code handle calls now with
    | (invites, .error _) => { host with invites := invites }
    | (invites, .ok ()) =>
      { host with
        invites := invites
        signups := host.signups ++ [⟨handle, some code⟩]
        redeemed := host.redeemed ++ (host.invites.findCode code).toList.map fun row =>
          ⟨row, ⟨⟨code, handle⟩, now⟩⟩ }

/-- A request under way adds its account to the registry. -/
def registerAccount (host : InviteHost) (n : Nat) (did dataDirectory : String)
    (email : Option String) (active carriedOut : Bool) : InviteHost :=
  match host.signups[n]? with
  | none => host
  | some signup =>
    match host.accounts.addWithEmail ⟨did, signup.handle, dataDirectory, email, active⟩
      carriedOut with
    | .error _ => { host with signups := host.signups.eraseIdx n }
    | .ok accounts =>
      { host with
        accounts := accounts
        signups := host.signups.eraseIdx n
        createdWith := Function.update host.createdWith did signup.code }

/-- The registry renames an account. -/
def updateHandle (host : InviteHost) (did handle : String) (carriedOut : Bool) : InviteHost :=
  match host.accounts.updateHandle did handle carriedOut with
  | .error _ => host
  | .ok accounts => { host with accounts := accounts }

/-- The registry removes an account. -/
def removeAccount (host : InviteHost) (did : String) (carriedOut : Bool) : InviteHost :=
  if carriedOut then
    { host with
      accounts := host.accounts.remove did
      createdWith := Function.update host.createdWith did none }
  else host

/-- One step. -/
def step (host : InviteHost) : Action → InviteHost
  | .createInviteCodes forAccount codes useCount =>
    host.createInviteCodes forAccount codes useCount
  | .startAccount handle code calls now => host.startAccount handle code calls now
  | .registerAccount n did dataDirectory email active carriedOut =>
    host.registerAccount n did dataDirectory email active carriedOut
  | .endAccount n => { host with signups := host.signups.eraseIdx n }
  | .disableInviteCodes codes accounts =>
    { host with invites := (host.invites.disableInviteCodes codes accounts).1 }
  | .updateHandle did handle carriedOut => host.updateHandle did handle carriedOut
  | .removeAccount did carriedOut => host.removeAccount did carriedOut

/-! ## What is to hold -/

/-- The number of recorded uses of a code. -/
def recorded (host : InviteHost) (code : String) : Nat :=
  host.invites.uses.countP fun u => u.code = code

/-- Invite codes are conserved, recorded and found. -/
structure Conserved (host : InviteHost) : Prop where
  /-- Every code that was returned exists, with the uses granted. -/
  returned : ∀ p ∈ host.returned, host.granted p.1 = some p.2 ∧
    (host.invites.findCode p.1).isSome
  /-- What remains and what is recorded add up to what was granted. -/
  adds_up : ∀ row ∈ host.invites.codes,
    host.granted row.code = some (row.usesRemaining + host.recorded row.code)
  nonneg : ∀ row ∈ host.invites.codes, 0 ≤ row.usesRemaining
  /-- What was consumed was neither disabled nor exhausted. -/
  usable : ∀ r ∈ host.redeemed, r.row.code = r.use.code ∧ r.row.disabled = false ∧
    0 < r.row.usesRemaining
  /-- The recorded uses are the successful consumptions, each once. -/
  recorded_eq : host.invites.uses = host.redeemed.map Redemption.use
  /-- Every account that was created with a code is found to be. -/
  found : ∀ account ∈ host.accounts.rows, ∀ code, host.createdWith account.did = some code →
    host.invites.Finds account.did account.handle code

/-- What the steps have to keep to:
* a consumption that goes through has both its writes carried out, and where its handle is the name
  of an account created with another code, a use is recorded under a name of that account before;
* an account that is created with a code is registered while the first use recorded under its
  handle or its DID is one of that code;
* an account that was created with a code is renamed to such a handle only. -/
def Allowed (host : InviteHost) : Action → Prop
  | .startAccount handle (some code) calls now =>
    (∃ row, host.invites.usable code calls.selected = .ok row) →
      calls.updated = true ∧ calls.inserted = true ∧
      ∀ account ∈ host.accounts.rows, ∀ own, host.createdWith account.did = some own →
        (handle = account.did ∨ handle = account.handle) → code ≠ own →
        ∃ u ∈ host.invites.uses, (u.usedBy = account.did ∨ u.usedBy = account.handle) ∧
          u.usedAt < now
  | .registerAccount n did dataDirectory email active carriedOut =>
    ∀ signup code accounts, host.signups[n]? = some signup → signup.code = some code →
      host.accounts.addWithEmail ⟨did, signup.handle, dataDirectory, email, active⟩ carriedOut =
        .ok accounts → host.invites.FirstUsedWith did signup.handle code
  | .updateHandle did handle carriedOut =>
    ∀ account ∈ host.accounts.rows, ∀ code accounts, account.did = did →
      host.createdWith did = some code →
      host.accounts.updateHandle did handle carriedOut = .ok accounts →
      host.invites.FirstUsedWith did handle code
  | _ => True

/-- What no step breaks. -/
structure Tracked (host : InviteHost) : Prop where
  returned : ∀ p ∈ host.returned, host.granted p.1 = some p.2 ∧
    (host.invites.findCode p.1).isSome
  nonneg : ∀ row ∈ host.invites.codes, 0 ≤ row.usesRemaining
  usable : ∀ r ∈ host.redeemed, r.row.code = r.use.code ∧ r.row.disabled = false ∧
    0 < r.row.usesRemaining
  known : ∀ u ∈ host.invites.uses, (host.invites.findCode u.code).isSome

variable {host : InviteHost}

/-! ## What no step breaks -/

theorem tracked_initial : initial.Tracked := by
  constructor <;> simp [initial, InviteTables.empty]

theorem conserved_initial : initial.Conserved := by
  constructor <;> simp [initial, InviteTables.empty, AccountTable.empty]

/-- Where the keys and the uses stay, so does what is known of them. -/
theorem Tracked.congr (hJ : host.Tracked) {host' : InviteHost}
    (hcodes : host'.invites = host.invites) (hreturned : host'.returned = host.returned)
    (hgranted : host'.granted = host.granted) (hredeemed : host'.redeemed = host.redeemed) :
    host'.Tracked := by
  refine ⟨?_, ?_, ?_, ?_⟩
  · rw [hreturned, hgranted, hcodes]
    exact hJ.returned
  · rw [hcodes]
    exact hJ.nonneg
  · rw [hredeemed]
    exact hJ.usable
  · rw [hcodes]
    exact hJ.known

/-! ## Creating codes -/

/-- A row that a creation adds has a key that is new, and no recorded use. -/
theorem findCode_of_mem_new {t t' : InviteTables} {rows : List InviteCodeRow} {row : InviteCodeRow}
    (hcodes : t'.codes = t.codes ++ rows) (hrow : row ∈ rows) :
    t.findCode row.code = none ∧ t'.findCode row.code = some row := by
  have hnodup := t'.codes_nodup
  rw [hcodes, List.map_append, List.nodup_append] at hnodup
  constructor
  · refine List.find?_eq_none.mpr fun other hother => ?_
    have := hnodup.2.2 other.code (List.mem_map_of_mem hother) row.code (List.mem_map_of_mem hrow)
    simpa using this
  · refine InviteTables.findCode_eq_some.mpr ⟨?_, rfl⟩
    rw [hcodes]
    exact List.mem_append_right _ hrow

/-- A row that is there before stays the row of its key. -/
theorem findCode_of_mem_old {t t' : InviteTables} {rows : List InviteCodeRow} {code : String}
    (hcodes : t'.codes = t.codes ++ rows) (h : (t.findCode code).isSome) :
    (t'.findCode code).isSome := by
  obtain ⟨row, hrow, hcode⟩ := InviteTables.findCode_isSome.mp h
  refine InviteTables.findCode_isSome.mpr ⟨row, ?_, hcode⟩
  rw [hcodes]
  exact List.mem_append_left _ hrow

/-- What a creation of codes does: it adds rows with keys that are new. -/
structure Creates (host host' : InviteHost) (useCount : Int) (rows : List InviteCodeRow) :
    Prop where
  codes : host'.invites.codes = host.invites.codes ++ rows
  uses : host'.invites.uses = host.invites.uses
  fresh : ∀ row ∈ rows, row.usesRemaining = useCount ∧ 0 ≤ useCount ∧
    host.invites.findCode row.code = none ∧ (host'.invites.findCode row.code).isSome ∧
    host'.granted row.code = some useCount
  granted : ∀ code, (host.invites.findCode code).isSome → host'.granted code = host.granted code
  returned : ∀ p ∈ host'.returned, p ∈ host.returned ∨
    p.2 = useCount ∧ ∃ row ∈ rows, row.code = p.1

theorem exists_creates (host : InviteHost) (forAccount : String)
    (codes : List (String × StampedCall)) (useCount : Int) :
    ∃ rows, host.Creates (host.createInviteCodes forAccount codes useCount) useCount rows := by
  obtain ⟨rows, hcodes, huses, hfresh, hall⟩ :=
    @InviteTables.createInviteCodes_eq host.invites forAccount useCount codes
  rw [createInviteCodes]
  generalize host.invites.createInviteCodes forAccount codes useCount = made at hcodes huses hall ⊢
  obtain ⟨invites, result⟩ := made
  refine ⟨rows, hcodes, huses, fun row hrow => ?_, fun code hcode => ?_, fun p hp => ?_⟩
  · obtain ⟨hnew, hthere⟩ := findCode_of_mem_new hcodes hrow
    have hthere : (invites.findCode row.code).isSome := Option.isSome_iff_exists.mpr ⟨row, hthere⟩
    exact ⟨(hfresh row hrow).1, (hfresh row hrow).2, hnew, hthere, if_pos ⟨hnew, hthere⟩⟩
  · refine if_neg fun h => ?_
    rw [h.1] at hcode
    cases hcode
  · dsimp only at hp
    cases List.mem_append.mp hp with
    | inl hold => exact .inl hold
    | inr hnew =>
      right
      split at hnew
      · next hok =>
        obtain ⟨asked, hasked, rfl⟩ := List.mem_map.mp hnew
        have hmem : asked.1 ∈ rows.map fun row => row.code := by
          rw [hall hok]
          exact List.mem_map_of_mem hasked
        exact ⟨rfl, List.mem_map.mp hmem⟩
      · cases hnew

theorem Tracked.createInviteCodes (hJ : host.Tracked) (forAccount : String)
    (codes : List (String × StampedCall)) (useCount : Int) :
    (host.createInviteCodes forAccount codes useCount).Tracked := by
  obtain ⟨rows, h⟩ := exists_creates host forAccount codes useCount
  refine ⟨fun p hp => ?_, fun row hrow => ?_, hJ.usable, fun u hu => ?_⟩
  · obtain hold | ⟨hcount, row, hrow, hcode⟩ := h.returned p hp
    · obtain ⟨hgranted, hthere⟩ := hJ.returned p hold
      exact ⟨(h.granted p.1 hthere).trans hgranted, findCode_of_mem_old h.codes hthere⟩
    · obtain ⟨-, -, -, hthere, hgranted⟩ := h.fresh row hrow
      rw [hcode] at hthere hgranted
      rw [hcount]
      exact ⟨hgranted, hthere⟩
  · rw [h.codes] at hrow
    cases List.mem_append.mp hrow with
    | inl hold => exact hJ.nonneg row hold
    | inr hnew =>
      obtain ⟨hcount, hpos, -⟩ := h.fresh row hnew
      rw [hcount]
      exact hpos
  · rw [h.uses] at hu
    exact findCode_of_mem_old h.codes (hJ.known u hu)

/-! ## Consuming a code -/

theorem use_usesRemaining {row : InviteCodeRow} (hpos : 0 < row.usesRemaining) :
    (row.use row.code).usesRemaining = row.usesRemaining - 1 := by
  rw [InviteCodeRow.use, InviteCode.use, if_pos ⟨rfl, hpos⟩]

theorem use_of_ne {row : InviteCodeRow} {code : String} (hne : row.code ≠ code) :
    row.use code = row := by
  rw [InviteCodeRow.use, InviteCode.use, if_neg fun h => hne h.1]

theorem use_nonneg {row : InviteCodeRow} (code : String) (hnonneg : 0 ≤ row.usesRemaining) :
    0 ≤ (row.use code).usesRemaining := by
  rw [InviteCodeRow.use, InviteCode.use]
  split
  · next h =>
    have := h.2
    dsimp only
    omega
  · exact hnonneg

theorem startAccount_of_error {handle code : String} {calls : ConsumeCalls} {now : Nat}
    {e : WfError} (husable : host.invites.usable code calls.selected = .error e) :
    host.startAccount handle (some code) calls now = host := by
  simp only [startAccount, InviteTables.consumeInviteCode_of_error husable]

/-- A request goes on as soon as its code is usable. -/
theorem startAccount_of_ok {handle code : String} {calls : ConsumeCalls} {now : Nat}
    {row : InviteCodeRow} (husable : host.invites.usable code calls.selected = .ok row) :
    host.startAccount handle (some code) calls now =
      { host with
        invites := (host.invites.consumeInviteCode code handle calls now).1
        signups := host.signups ++ [⟨handle, some code⟩]
        redeemed := host.redeemed ++ [⟨row, ⟨⟨code, handle⟩, now⟩⟩] } := by
  have hresult : (host.invites.consumeInviteCode code handle calls now).2 = .ok () :=
    (InviteTables.consumeInviteCode_of_ok husable).1
  have hfind := (InviteTables.usable_eq_ok.mp husable).2.1
  simp only [startAccount]
  generalize host.invites.consumeInviteCode code handle calls now = consumed at hresult ⊢
  obtain ⟨invites, result⟩ := consumed
  obtain rfl : result = .ok () := hresult
  simp only [hfind, Option.toList_some, List.map_cons, List.map_nil]

/-- What a consumption that goes through leaves of the tables. -/
theorem consumed_tables {t : InviteTables} {handle code : String} {calls : ConsumeCalls}
    {now : Nat} {row : InviteCodeRow} (husable : t.usable code calls.selected = .ok row) :
    (t.consumeInviteCode code handle calls now).1.codes =
        (if calls.updated then t.codes.map (InviteCodeRow.use code) else t.codes) ∧
      (t.consumeInviteCode code handle calls now).1.uses =
        (if calls.inserted then t.uses ++ [⟨⟨code, handle⟩, now⟩] else t.uses) :=
  (InviteTables.consumeInviteCode_of_ok husable).2

/-- The first step of a request is the one that an account is created with: it leaves the same
tables, on the columns that both have, and goes on where that one goes on. -/
theorem startAccount_takeInvite {server : CreateServer} {params : Option Json} {handle : String}
    {code : Option String} {calls : ConsumeCalls} {now : Nat}
    (hcode : code = if server.inviteRequired then nonEmptyParam params "inviteCode" else none)
    (hbrings : server.inviteRequired = true → code ≠ none) :
    (host.startAccount handle code calls now).invites.brief =
        (takeInvite server host.invites.brief params handle calls).1 ∧
      (host.startAccount handle code calls now).signups =
        if (takeInvite server host.invites.brief params handle calls).2.isOk then
          host.signups ++ [⟨handle, code⟩] else host.signups := by
  by_cases hrequired : server.inviteRequired = true
  · rw [if_pos hrequired] at hcode
    cases code with
    | none => exact absurd rfl (hbrings hrequired)
    | some code =>
      have hconsume := @InviteTables.brief_consumeInviteCode host.invites code handle calls now
      simp only [takeInvite, if_pos hrequired, ← hcode, ← hconsume]
      cases husable : host.invites.usable code calls.selected with
      | error e =>
        rw [startAccount_of_error husable, InviteTables.consumeInviteCode_of_error husable]
        exact ⟨rfl, rfl⟩
      | ok row =>
        have hok : (host.invites.consumeInviteCode code handle calls now).2 = .ok () :=
          (InviteTables.consumeInviteCode_of_ok husable).1
        rw [startAccount_of_ok husable, hok]
        exact ⟨rfl, rfl⟩
  · rw [if_neg hrequired] at hcode
    subst hcode
    simp only [takeInvite, if_neg hrequired]
    exact ⟨rfl, rfl⟩

theorem Tracked.startAccount (hJ : host.Tracked) (handle : String) (code : Option String)
    (calls : ConsumeCalls) (now : Nat) : (host.startAccount handle code calls now).Tracked := by
  cases code with
  | none => exact hJ.congr rfl rfl rfl rfl
  | some code =>
    cases husable : host.invites.usable code calls.selected with
    | error e =>
      rw [startAccount_of_error husable]
      exact hJ
    | ok row =>
      obtain ⟨-, hfind, hdisabled, hpos⟩ := InviteTables.usable_eq_ok.mp husable
      obtain ⟨hcodes, huses⟩ := @consumed_tables host.invites handle code calls now row husable
      have hkept :=
        @InviteTables.findCode_consumeInviteCode_isSome host.invites code handle calls now
      rw [startAccount_of_ok husable]
      refine ⟨fun p hp => ?_, fun row' hrow' => ?_, fun r hr => ?_, fun u hu => ?_⟩
      · obtain ⟨hgranted, hthere⟩ := hJ.returned p hp
        exact ⟨hgranted, (hkept p.1).trans hthere⟩
      · dsimp only at hrow'
        rw [hcodes] at hrow'
        split at hrow'
        · obtain ⟨old, hold, rfl⟩ := List.mem_map.mp hrow'
          exact use_nonneg code (hJ.nonneg old hold)
        · exact hJ.nonneg row' hrow'
      · cases List.mem_append.mp hr with
        | inl hold => exact hJ.usable r hold
        | inr hnew =>
          obtain rfl := List.mem_singleton.mp hnew
          exact ⟨(InviteTables.findCode_eq_some.mp hfind).2, hdisabled, hpos⟩
      · dsimp only at hu ⊢
        rw [huses] at hu
        rw [hkept]
        split at hu
        · cases List.mem_append.mp hu with
          | inl hold => exact hJ.known u hold
          | inr hnew =>
            obtain rfl := List.mem_singleton.mp hnew
            exact Option.isSome_iff_exists.mpr ⟨row, hfind⟩
        · exact hJ.known u hu

/-! ## Disabling codes -/

theorem Tracked.disableInviteCodes (hJ : host.Tracked) (codes accounts : List (String × Bool)) :
    Tracked { host with invites := (host.invites.disableInviteCodes codes accounts).1 } := by
  obtain ⟨f, hf, hcodes, huses⟩ := @InviteTables.disableInviteCodes_eq host.invites codes accounts
  have hkept : ∀ code, ((host.invites.disableInviteCodes codes accounts).1.findCode code).isSome =
      (host.invites.findCode code).isSome := by
    intro code
    rw [Bool.eq_iff_iff, InviteTables.findCode_isSome, InviteTables.findCode_isSome, hcodes]
    simp [hf]
  refine ⟨fun p hp => ?_, fun row hrow => ?_, hJ.usable, fun u hu => ?_⟩
  · obtain ⟨hgranted, hthere⟩ := hJ.returned p hp
    exact ⟨hgranted, (hkept p.1).trans hthere⟩
  · dsimp only at hrow
    rw [hcodes] at hrow
    obtain ⟨old, hold, rfl⟩ := List.mem_map.mp hrow
    rw [(hf old).2]
    exact hJ.nonneg old hold
  · dsimp only at hu ⊢
    rw [huses] at hu
    rw [hkept]
    exact hJ.known u hu

theorem Tracked.step (hJ : host.Tracked) (action : Action) : (host.step action).Tracked := by
  cases action with
  | createInviteCodes forAccount codes useCount =>
    exact hJ.createInviteCodes forAccount codes useCount
  | startAccount handle code calls now => exact hJ.startAccount handle code calls now
  | registerAccount n did dataDirectory email active carriedOut =>
    rw [InviteHost.step, registerAccount]
    split
    · exact hJ
    · split <;> exact hJ.congr rfl rfl rfl rfl
  | endAccount n => exact hJ.congr rfl rfl rfl rfl
  | disableInviteCodes codes accounts => exact hJ.disableInviteCodes codes accounts
  | updateHandle did handle carriedOut =>
    rw [InviteHost.step, updateHandle]
    split
    · exact hJ
    · exact hJ.congr rfl rfl rfl rfl
  | removeAccount did carriedOut =>
    rw [InviteHost.step, removeAccount]
    split
    · exact hJ.congr rfl rfl rfl rfl
    · exact hJ

/-! ## What the allowed steps keep -/

/-- Where the codes and the uses stay, only the accounts are left to look at. -/
theorem Conserved.congr (hP : host.Conserved) {host' : InviteHost}
    (hinvites : host'.invites = host.invites) (hreturned : host'.returned = host.returned)
    (hgranted : host'.granted = host.granted) (hredeemed : host'.redeemed = host.redeemed)
    (hfound : ∀ account ∈ host'.accounts.rows, ∀ code,
      host'.createdWith account.did = some code →
      host.invites.Finds account.did account.handle code) : host'.Conserved := by
  refine ⟨?_, ?_, ?_, ?_, ?_, ?_⟩
  · rw [hreturned, hgranted, hinvites]
    exact hP.returned
  · rw [hinvites, hgranted]
    intro row hrow
    rw [hP.adds_up row hrow, recorded, recorded, hinvites]
  · rw [hinvites]
    exact hP.nonneg
  · rw [hredeemed]
    exact hP.usable
  · rw [hinvites, hredeemed]
    exact hP.recorded_eq
  · rw [hinvites]
    exact hfound

/-- The uses decide what is found. -/
theorem Conserved.found_of_uses (hP : host.Conserved) (hJ : host.Tracked) {host' : InviteHost}
    (hJ' : host'.Tracked) (huses : host'.invites.uses = host.invites.uses) {account : AccountRow}
    (haccount : account ∈ host.accounts.rows) {code : String}
    (hcode : host.createdWith account.did = some code) :
    host'.invites.Finds account.did account.handle code := by
  have hfirst := (InviteTables.finds_iff hJ.known).mp (hP.found account haccount code hcode)
  refine (InviteTables.finds_iff hJ'.known).mpr ?_
  rw [InviteTables.FirstUsedWith, huses]
  exact hfirst

theorem Conserved.createInviteCodes (hP : host.Conserved) (hJ : host.Tracked)
    (forAccount : String) (codes : List (String × StampedCall)) (useCount : Int) :
    (host.createInviteCodes forAccount codes useCount).Conserved := by
  have hJ' := hJ.createInviteCodes forAccount codes useCount
  obtain ⟨rows, h⟩ := exists_creates host forAccount codes useCount
  refine ⟨hJ'.returned, fun row hrow => ?_, hJ'.nonneg, hJ'.usable, h.uses.trans hP.recorded_eq,
    fun account haccount code hcode => hP.found_of_uses hJ hJ' h.uses haccount hcode⟩
  rw [h.codes] at hrow
  rw [recorded, h.uses]
  cases List.mem_append.mp hrow with
  | inl hold =>
    rw [h.granted row.code (InviteTables.findCode_isSome.mpr ⟨row, hold, rfl⟩)]
    exact hP.adds_up row hold
  | inr hnew =>
    obtain ⟨hcount, -, hnone, -, hgranted⟩ := h.fresh row hnew
    -- a use of the code would have needed a row of it
    have hzero : (host.invites.uses.countP fun u => u.code = row.code) = 0 := by
      refine List.countP_eq_zero.mpr fun u hu hcode => ?_
      have hknown := hJ.known u hu
      rw [of_decide_eq_true hcode, hnone] at hknown
      cases hknown
    rw [hgranted, hcount, hzero, Nat.cast_zero, add_zero]

/-- A use that comes after one under a name of the account leaves the first uses as they are. -/
theorem firstUsedWith_append {t t' : InviteTables} {did handle own : String}
    {new : InviteCodeUse} (huses : t'.uses = t.uses ++ [new])
    (hfirst : t.FirstUsedWith did handle own)
    (hlater : (new.usedBy = did ∨ new.usedBy = handle) → new.code ≠ own →
      ∃ u ∈ t.uses, (u.usedBy = did ∨ u.usedBy = handle) ∧ u.usedAt < new.usedAt) :
    t'.FirstUsedWith did handle own := by
  obtain ⟨u, hu, hby, hcode, hothers⟩ := hfirst
  rw [InviteTables.FirstUsedWith, huses]
  by_cases hnew : (new.usedBy = did ∨ new.usedBy = handle) ∧ new.code ≠ own
  · obtain ⟨v, hv, hvby, hlt⟩ := hlater hnew.1 hnew.2
    by_cases hearlier : v.code = own ∧ v.usedAt < u.usedAt
    · refine ⟨v, List.mem_append_left _ hv, hvby, hearlier.1, fun w hw hwby hwcode => ?_⟩
      cases List.mem_append.mp hw with
      | inl hold => exact hearlier.2.trans (hothers w hold hwby hwcode)
      | inr hlast =>
        obtain rfl := List.mem_singleton.mp hlast
        exact hlt
    · have hle : u.usedAt ≤ v.usedAt := by
        by_cases hvcode : v.code = own
        · exact Nat.not_lt.mp fun hlt => hearlier ⟨hvcode, hlt⟩
        · exact (hothers v hv hvby hvcode).le
      refine ⟨u, List.mem_append_left _ hu, hby, hcode, fun w hw hwby hwcode => ?_⟩
      cases List.mem_append.mp hw with
      | inl hold => exact hothers w hold hwby hwcode
      | inr hlast =>
        obtain rfl := List.mem_singleton.mp hlast
        exact hle.trans_lt hlt
  · refine ⟨u, List.mem_append_left _ hu, hby, hcode, fun w hw hwby hwcode => ?_⟩
    cases List.mem_append.mp hw with
    | inl hold => exact hothers w hold hwby hwcode
    | inr hlast =>
      obtain rfl := List.mem_singleton.mp hlast
      exact absurd ⟨hwby, hwcode⟩ hnew

theorem Conserved.startAccount (hP : host.Conserved) (hJ : host.Tracked) {handle : String}
    {code : Option String} {calls : ConsumeCalls} {now : Nat}
    (hallowed : host.Allowed (.startAccount handle code calls now)) :
    (host.startAccount handle code calls now).Conserved := by
  cases code with
  | none => exact hP.congr rfl rfl rfl rfl hP.found
  | some code =>
    have hJ' := hJ.startAccount handle (some code) calls now
    cases husable : host.invites.usable code calls.selected with
    | error e =>
      rw [startAccount_of_error husable]
      exact hP
    | ok row =>
      obtain ⟨hupdated, hinserted, hnames⟩ := hallowed ⟨row, husable⟩
      obtain ⟨-, hfind, -, hpos⟩ := InviteTables.usable_eq_ok.mp husable
      obtain ⟨hcodes, huses⟩ := @consumed_tables host.invites handle code calls now row husable
      rw [if_pos hupdated] at hcodes
      rw [if_pos hinserted] at huses
      rw [startAccount_of_ok husable] at hJ' ⊢
      refine ⟨hJ'.returned, fun row' hrow' => ?_, hJ'.nonneg, hJ'.usable, ?_,
        fun account haccount own hown => ?_⟩
      · dsimp only at hrow' ⊢
        rw [hcodes] at hrow'
        obtain ⟨old, hold, rfl⟩ := List.mem_map.mp hrow'
        have hadds := hP.adds_up old hold
        rw [recorded] at hadds ⊢
        dsimp only
        rw [huses, List.countP_append, List.countP_singleton, InviteCodeRow.use_code, hadds]
        by_cases hcode : old.code = code
        · obtain ⟨hrow, hrowcode⟩ := InviteTables.findCode_eq_some.mp hfind
          obtain rfl : old = row := List.inj_on_of_nodup_map host.invites.codes_nodup hold hrow
            (hcode.trans hrowcode.symm)
          subst hcode
          rw [use_usesRemaining hpos, if_pos (decide_eq_true rfl)]
          push_cast
          congr 1
          omega
        · have hne : decide (code = old.code) ≠ true := fun h => hcode (of_decide_eq_true h).symm
          rw [use_of_ne hcode, if_neg hne, Nat.add_zero]
      · dsimp only
        rw [huses, List.map_append, hP.recorded_eq]
        rfl
      · refine (InviteTables.finds_iff hJ'.known).mpr (firstUsedWith_append huses
          ((InviteTables.finds_iff hJ.known).mp (hP.found account haccount own hown)) ?_)
        exact fun hby hne => hnames account haccount own hown hby hne

theorem Conserved.registerAccount (hP : host.Conserved) (hJ : host.Tracked) {n : Nat}
    {did dataDirectory : String} {email : Option String} {active carriedOut : Bool}
    (hallowed : host.Allowed (.registerAccount n did dataDirectory email active carriedOut)) :
    (host.registerAccount n did dataDirectory email active carriedOut).Conserved := by
  rw [InviteHost.registerAccount]
  split
  · exact hP
  · next signup hsignup =>
    split
    · exact hP.congr rfl rfl rfl rfl hP.found
    · next accounts hadd =>
      obtain ⟨-, hdid, -, hrows⟩ := AccountTable.addWithEmail_eq_ok hadd
      refine hP.congr rfl rfl rfl rfl fun account haccount code hcode => ?_
      dsimp only at haccount hcode
      rw [hrows] at haccount
      cases List.mem_append.mp haccount with
      | inl hold =>
        have hne : account.did ≠ did := fun heq => hdid (List.mem_map.mpr ⟨account, hold, heq⟩)
        rw [Function.update_of_ne hne] at hcode
        exact hP.found account hold code hcode
      | inr hnew =>
        obtain rfl := List.mem_singleton.mp hnew
        rw [Function.update_self] at hcode
        exact (InviteTables.finds_iff hJ.known).mpr
          (hallowed signup code accounts hsignup hcode hadd)

theorem Conserved.updateHandle (hP : host.Conserved) (hJ : host.Tracked) {did handle : String}
    {carriedOut : Bool} (hallowed : host.Allowed (.updateHandle did handle carriedOut)) :
    (host.updateHandle did handle carriedOut).Conserved := by
  rw [InviteHost.updateHandle]
  split
  · exact hP
  · next accounts hupdate =>
    obtain ⟨hrows, -⟩ := AccountTable.updateHandle_eq_ok hupdate
    refine hP.congr rfl rfl rfl rfl fun account haccount code hcode => ?_
    dsimp only at haccount hcode
    rw [hrows] at haccount
    obtain ⟨old, hold, rfl⟩ := List.mem_map.mp haccount
    rw [AccountRow.rename_did] at hcode ⊢
    by_cases hdid : old.did = did
    · subst hdid
      rw [AccountRow.rename, if_pos rfl]
      exact (InviteTables.finds_iff hJ.known).mpr
        (hallowed old hold code accounts rfl hcode hupdate)
    · rw [AccountRow.rename, if_neg hdid]
      exact hP.found old hold code hcode

theorem Conserved.removeAccount (hP : host.Conserved) (did : String) (carriedOut : Bool) :
    (host.removeAccount did carriedOut).Conserved := by
  rw [InviteHost.removeAccount]
  split
  · refine hP.congr rfl rfl rfl rfl fun account haccount code hcode => ?_
    obtain ⟨hold, hne⟩ := List.mem_filter.mp haccount
    dsimp only at hcode
    rw [Function.update_of_ne (of_decide_eq_true hne)] at hcode
    exact hP.found account hold code hcode
  · exact hP

theorem Conserved.disableInviteCodes (hP : host.Conserved) (hJ : host.Tracked)
    (codes accounts : List (String × Bool)) :
    Conserved { host with invites := (host.invites.disableInviteCodes codes accounts).1 } := by
  have hJ' := hJ.disableInviteCodes codes accounts
  obtain ⟨f, hf, hcodes, huses⟩ := @InviteTables.disableInviteCodes_eq host.invites codes accounts
  refine ⟨hJ'.returned, fun row hrow => ?_, hJ'.nonneg, hJ'.usable, huses.trans hP.recorded_eq,
    fun account haccount code hcode => hP.found_of_uses hJ hJ' huses haccount hcode⟩
  dsimp only at hrow ⊢
  rw [hcodes] at hrow
  obtain ⟨old, hold, rfl⟩ := List.mem_map.mp hrow
  have hadds := hP.adds_up old hold
  rw [recorded] at hadds ⊢
  rw [(hf old).1, (hf old).2, hadds]
  dsimp only
  rw [huses]

theorem Conserved.step (hP : host.Conserved) (hJ : host.Tracked) {action : Action}
    (hallowed : host.Allowed action) : (host.step action).Conserved := by
  cases action with
  | createInviteCodes forAccount codes useCount =>
    exact hP.createInviteCodes hJ forAccount codes useCount
  | startAccount handle code calls now => exact hP.startAccount hJ hallowed
  | registerAccount n did dataDirectory email active carriedOut =>
    exact hP.registerAccount hJ hallowed
  | endAccount n => exact hP.congr rfl rfl rfl rfl hP.found
  | disableInviteCodes codes accounts => exact hP.disableInviteCodes hJ codes accounts
  | updateHandle did handle carriedOut => exact hP.updateHandle hJ hallowed
  | removeAccount did carriedOut => exact hP.removeAccount did carriedOut

/-! ## What the other steps lose -/

/-- A consumption that loses one of its writes, or that puts its code first among the uses of
another account, is seen in the state that it leaves. -/
theorem Conserved.startAccount_allowed (hP : host.Conserved) (hJ : host.Tracked) {handle : String}
    {code : Option String} {calls : ConsumeCalls} {now : Nat}
    (hP' : (host.startAccount handle code calls now).Conserved) :
    host.Allowed (.startAccount handle code calls now) := by
  cases code with
  | none => trivial
  | some code =>
    rintro ⟨row, husable⟩
    have hJ' := hJ.startAccount handle (some code) calls now
    obtain ⟨-, hfind, -, -⟩ := InviteTables.usable_eq_ok.mp husable
    obtain ⟨hrow, hrowcode⟩ := InviteTables.findCode_eq_some.mp hfind
    obtain ⟨hcodes, huses⟩ := @consumed_tables host.invites handle code calls now row husable
    rw [startAccount_of_ok husable] at hP' hJ'
    have hrecorded := hP'.recorded_eq
    dsimp only at hrecorded
    rw [List.map_append, ← hP.recorded_eq] at hrecorded
    have hinserted : calls.inserted = true := by
      by_contra hnot
      rw [huses, if_neg hnot] at hrecorded
      have := congrArg List.length hrecorded
      simp at this
    rw [if_pos hinserted] at huses
    have hupdated : calls.updated = true := by
      by_contra hnot
      rw [if_neg hnot] at hcodes
      -- the row is as before, and there is one use more
      have hadds := hP'.adds_up row (hcodes ▸ hrow)
      rw [recorded] at hadds
      dsimp only at hadds
      rw [huses, List.countP_append, List.countP_singleton, if_pos (decide_eq_true hrowcode.symm),
        hP.adds_up row hrow, recorded] at hadds
      injection hadds with hadds
      push_cast at hadds
      omega
    refine ⟨hupdated, hinserted, fun account haccount own hown hby hne => ?_⟩
    obtain ⟨u, hu, huby, hucode, hothers⟩ :=
      (InviteTables.finds_iff hJ'.known).mp (hP'.found account haccount own hown)
    dsimp only at hu hothers
    rw [huses] at hu hothers
    have hlt := hothers ⟨⟨code, handle⟩, now⟩ (List.mem_append_right _ List.mem_cons_self) hby hne
    cases List.mem_append.mp hu with
    | inl hold => exact ⟨u, hold, huby, hlt⟩
    | inr hlast =>
      obtain rfl := List.mem_singleton.mp hlast
      exact absurd hucode hne

theorem Conserved.registerAccount_allowed (hJ : host.Tracked) {n : Nat}
    {did dataDirectory : String} {email : Option String} {active carriedOut : Bool}
    (hP' : (host.registerAccount n did dataDirectory email active carriedOut).Conserved) :
    host.Allowed (.registerAccount n did dataDirectory email active carriedOut) := by
  intro signup code accounts hsignup hcode hadd
  obtain ⟨-, -, -, hrows⟩ := AccountTable.addWithEmail_eq_ok hadd
  simp only [InviteHost.registerAccount, hsignup, hadd] at hP'
  have hfound := hP'.found
  dsimp only at hfound
  rw [hrows] at hfound
  refine (InviteTables.finds_iff hJ.known).mp
    (hfound _ (List.mem_append_right _ List.mem_cons_self) code ?_)
  dsimp only
  rw [Function.update_self, hcode]

theorem Conserved.updateHandle_allowed (hJ : host.Tracked) {did handle : String}
    {carriedOut : Bool} (hP' : (host.updateHandle did handle carriedOut).Conserved) :
    host.Allowed (.updateHandle did handle carriedOut) := by
  intro account haccount code accounts hdid hcode hupdate
  obtain ⟨hrows, -⟩ := AccountTable.updateHandle_eq_ok hupdate
  simp only [InviteHost.updateHandle, hupdate] at hP'
  have hfound := hP'.found
  dsimp only at hfound
  rw [hrows] at hfound
  have hfinds := hfound _ (List.mem_map_of_mem haccount) code
  rw [AccountRow.rename_did, AccountRow.rename, if_pos hdid, hdid] at hfinds
  exact (InviteTables.finds_iff hJ.known).mp (hfinds hcode)

/-- A step keeps what is to hold if and only if it is allowed. -/
theorem Conserved.step_iff (hP : host.Conserved) (hJ : host.Tracked) (action : Action) :
    (host.step action).Conserved ↔ host.Allowed action := by
  refine ⟨fun hP' => ?_, hP.step hJ⟩
  cases action with
  | createInviteCodes forAccount codes useCount => trivial
  | startAccount handle code calls now => exact hP.startAccount_allowed hJ hP'
  | registerAccount n did dataDirectory email active carriedOut =>
    exact Conserved.registerAccount_allowed hJ hP'
  | endAccount n => trivial
  | disableInviteCodes codes accounts => trivial
  | updateHandle did handle carriedOut => exact Conserved.updateHandle_allowed hJ hP'
  | removeAccount did carriedOut => trivial

/-- Through a run, invite codes are conserved, recorded and found if and only if every step is
allowed. -/
theorem invites_conserved_iff (run : List Action) :
    States step Conserved initial run ↔ Steps step Allowed initial run :=
  states_iff_steps tracked_initial conserved_initial (fun _ action hJ => hJ.step action)
    fun _ action hJ hP => hP.step_iff hJ action

/-- A consumption whose `INSERT` fails: it goes through, and no use is recorded. -/
def unrecordedRun : List Action :=
  [.createInviteCodes "admin" [("code", ⟨true, 0⟩)] 1,
    .startAccount "alice.test" (some "code") ⟨true, true, false⟩ 1]

/-- An account is created with a code and renamed: its code is no longer found. -/
def renamedRun : List Action :=
  [.createInviteCodes "admin" [("code", ⟨true, 0⟩)] 1,
    .startAccount "alice.test" (some "code") ⟨true, true, true⟩ 1,
    .registerAccount 0 "did:plc:alice" "/data" none true true,
    .updateHandle "did:plc:alice" "bob.test" true]

theorem invites_not_conserved : ¬ States step Conserved initial unrecordedRun ∧
    ¬ States step Conserved initial renamedRun := by
  constructor
  · intro h
    have hrecorded := h.exec.recorded_eq
    revert hrecorded
    decide
  · intro h
    obtain ⟨row, hrow, -⟩ := h.exec.found ⟨"did:plc:alice", "bob.test", "/data", none, true⟩
      (by decide) "code" (by decide) 0
    have hnone : (exec step initial renamedRun).invites.getInviteCodeForAccount
        (some "did:plc:alice") (some "bob.test") ⟨true, true, 0⟩ = .error .notFound := by rfl
    rw [hnone] at hrow
    cases hrow

end InviteHost

end MetalBear.Account
