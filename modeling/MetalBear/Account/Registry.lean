import Mathlib.Data.List.Nodup
import MetalBear.Wolfram.Status

/-!
# The account registry

The table that names the accounts of the host, and the invite codes beside it. Every statement is
carried out or fails, as the caller finds it.
-/

namespace MetalBear.Account

/-! ## Accounts -/

/-- A row of `accounts`. The column `password_hash` is empty in every row. -/
structure AccountRow where
  did : String
  handle : String
  dataDirectory : String
  /-- NULL where no address was given. -/
  email : Option String
  active : Bool
  deriving DecidableEq, Repr

/-- `SET handle=? WHERE did=?`. -/
def AccountRow.rename (did handle : String) (row : AccountRow) : AccountRow :=
  if row.did = did then { row with handle := handle } else row

@[simp] theorem AccountRow.rename_did (did handle : String) (row : AccountRow) :
    (row.rename did handle).did = row.did := by
  rw [rename]
  split <;> rfl

/-- The table `accounts`: `did` is its primary key, and `handle` is unique. -/
structure AccountTable where
  rows : List AccountRow
  dids_nodup : (rows.map AccountRow.did).Nodup
  handles_nodup : (rows.map AccountRow.handle).Nodup

namespace AccountTable

/-- A new registry. -/
def empty : AccountTable := ⟨[], List.nodup_nil, List.nodup_nil⟩

/-- `metalbear_account_registry_find_by_did`. -/
def findByDid (t : AccountTable) (did : String) : Option AccountRow :=
  t.rows.find? fun row => row.did = did

/-- `metalbear_account_registry_find_by_handle`. -/
def findByHandle (t : AccountTable) (handle : String) : Option AccountRow :=
  t.rows.find? fun row => row.handle = handle

/-- `metalbear_account_registry_find_by_email`. -/
def findByEmail (t : AccountTable) (email : String) : Option AccountRow :=
  if email = "" then none else t.rows.find? fun row => row.email = some email

/-- `metalbear_account_registry_add_with_email`. -/
def addWithEmail (t : AccountTable) (row : AccountRow) (carriedOut : Bool) :
    Except WfError AccountTable :=
  if carriedOut then
    if h : row.did ∉ t.rows.map AccountRow.did ∧ row.handle ∉ t.rows.map AccountRow.handle then
      .ok
        { rows := t.rows ++ [{ row with email := row.email.filter fun email => email ≠ "" }]
          dids_nodup := by
            rw [List.map_append, List.nodup_append_comm]
            exact List.nodup_cons.mpr ⟨h.1, t.dids_nodup⟩
          handles_nodup := by
            rw [List.map_append, List.nodup_append_comm]
            exact List.nodup_cons.mpr ⟨h.2, t.handles_nodup⟩ }
    else .error .conflict
  else .error .internal

/-- `metalbear_account_registry_update_handle`. -/
def updateHandle (t : AccountTable) (did handle : String) (carriedOut : Bool) :
    Except WfError AccountTable :=
  if h : carriedOut ∧ ((t.rows.map (AccountRow.rename did handle)).map AccountRow.handle).Nodup then
    .ok
      { rows := t.rows.map (AccountRow.rename did handle)
        dids_nodup := by
          have hdids : AccountRow.did ∘ AccountRow.rename did handle = AccountRow.did :=
            funext (AccountRow.rename_did did handle)
          rw [List.map_map, hdids]
          exact t.dids_nodup
        handles_nodup := h.2 }
  else .error .internal

/-- `metalbear_account_registry_remove`. -/
def remove (t : AccountTable) (did : String) : AccountTable where
  rows := t.rows.filter fun row => row.did ≠ did
  dids_nodup := t.dids_nodup.sublist (List.filter_sublist.map _)
  handles_nodup := t.handles_nodup.sublist (List.filter_sublist.map _)

variable {t t' : AccountTable} {row : AccountRow} {did handle : String} {carriedOut : Bool}

/-- The statement is carried out where neither key is taken. -/
theorem addWithEmail_eq_ok (h : t.addWithEmail row carriedOut = .ok t') :
    carriedOut = true ∧ row.did ∉ t.rows.map AccountRow.did ∧
      row.handle ∉ t.rows.map AccountRow.handle ∧
      t'.rows = t.rows ++ [{ row with email := row.email.filter fun email => email ≠ "" }] := by
  rw [addWithEmail] at h
  split at h
  · next hcarried =>
    split at h
    · next hnew =>
      injection h with h
      subst h
      exact ⟨hcarried, hnew.1, hnew.2, rfl⟩
    · cases h
  · cases h

/-- A rename that is carried out leaves the handles distinct. -/
theorem updateHandle_eq_ok (h : t.updateHandle did handle carriedOut = .ok t') :
    t'.rows = t.rows.map (AccountRow.rename did handle) ∧
      ((t.rows.map (AccountRow.rename did handle)).map AccountRow.handle).Nodup := by
  rw [updateHandle] at h
  split at h
  · next hnodup =>
    injection h with h
    subst h
    exact ⟨rfl, hnodup.2⟩
  · cases h

variable (t row) in
/-- Where both keys are free and the statement is carried out, the row is there. -/
theorem exists_of_addWithEmail (hcarried : carriedOut = true)
    (hdid : row.did ∉ t.rows.map AccountRow.did)
    (hhandle : row.handle ∉ t.rows.map AccountRow.handle) :
    ∃ t', t.addWithEmail row carriedOut = .ok t' := by
  rw [addWithEmail, if_pos hcarried, dif_pos ⟨hdid, hhandle⟩]
  exact ⟨_, rfl⟩

end AccountTable

/-! ## Invite codes -/

/-- A row of `invite_code`. -/
structure InviteCode where
  code : String
  usesRemaining : Int
  disabled : Bool
  deriving DecidableEq, Repr

/-- A row of `invite_code_use`. -/
structure InviteUse where
  code : String
  usedBy : String
  deriving DecidableEq, Repr

/-- Both tables. -/
structure Invites where
  codes : List InviteCode
  uses : List InviteUse
  deriving DecidableEq, Repr

/-- `SET uses_remaining = uses_remaining - 1 WHERE code=? AND uses_remaining > 0`. -/
def InviteCode.use (code : String) (row : InviteCode) : InviteCode :=
  if row.code = code ∧ 0 < row.usesRemaining then
    { row with usesRemaining := row.usesRemaining - 1 }
  else row

/-- The statements of a consumption that are carried out. -/
structure ConsumeCalls where
  selected : Bool
  updated : Bool
  inserted : Bool
  deriving DecidableEq, Repr

/-- The `SELECT` of a consumption: whether the code may be used. -/
def Invites.usable (t : Invites) (code : String) (calls : ConsumeCalls) : Except WfError Unit :=
  if calls.selected then
    match t.codes.find? fun row => row.code = code with
    | none => .error .notFound
    | some row =>
      if row.disabled then .error .conflict
      else if 0 < row.usesRemaining then .ok ()
      else .error .notFound
  else .error .notFound

/-- `metalbear_account_registry_consume_invite_code`. What becomes of the two writes is not
looked at. -/
def Invites.consumeInviteCode (t : Invites) (code usedBy : String) (calls : ConsumeCalls) :
    Invites × Except WfError Unit :=
  match t.usable code calls with
  | .error e => (t, .error e)
  | .ok () =>
    ({ codes := if calls.updated then t.codes.map (InviteCode.use code) else t.codes
       uses := if calls.inserted then t.uses ++ [⟨code, usedBy⟩] else t.uses }, .ok ())

variable {t : Invites} {code usedBy : String} {calls : ConsumeCalls}

/-- A code that may be used has a use to lose. -/
theorem Invites.map_use_ne (h : t.usable code calls = .ok ()) :
    t.codes.map (InviteCode.use code) ≠ t.codes := by
  rw [Invites.usable] at h
  split at h
  swap
  · cases h
  cases hfind : t.codes.find? fun row => row.code = code with
  | none => simp [hfind] at h
  | some row =>
    have hpos : 0 < row.usesRemaining := by
      by_contra hpos
      rw [hfind] at h
      simp only [if_neg hpos] at h
      split at h <;> cases h
    have hmem := List.mem_of_find?_eq_some hfind
    have hcode : row.code = code := by simpa using List.find?_some hfind
    intro hsame
    obtain ⟨i, hi, rfl⟩ := List.getElem_of_mem hmem
    have hrow := congrArg (fun l => l[i]?.map InviteCode.usesRemaining) hsame
    simp [List.getElem?_eq_getElem hi, InviteCode.use, hcode, hpos] at hrow

variable (t code usedBy calls) in
/-- A consumption leaves the tables as they are only where it is refused or writes nothing. -/
theorem Invites.consumeInviteCode_eq_iff : (t.consumeInviteCode code usedBy calls).1 = t ↔
    (t.usable code calls = .ok () → calls.updated = false ∧ calls.inserted = false) := by
  rw [Invites.consumeInviteCode]
  cases husable : t.usable code calls with
  | error e => simp
  | ok u =>
    have hne := Invites.map_use_ne husable
    cases t with
    | mk codes uses => cases hu : calls.updated <;> cases hi : calls.inserted <;> simp_all

end MetalBear.Account
