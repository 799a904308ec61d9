import MetalBear.Wolfram.Status

/-!
# The tables of two-factor login

`totp_secret` holds at most one row and `totp_backup` the keyed hashes of the codes that are left.
Each statement gives the tables after it and the number of rows that `sqlite3_changes` reports.
-/

namespace MetalBear.TwoFactor

/-- The row of `totp_secret`. -/
structure TotpRow where
  secret : List UInt8
  active : Bool
  lastStep : Int
  deriving DecidableEq, Repr

/-- A row of `totp_backup`. -/
abbrev CodeHash := List UInt8

/-- Hashes are compared byte by byte. -/
local instance instLawfulBEqCodeHash : LawfulBEq (List UInt8) := List.instLawfulBEq

/-- The two tables. -/
structure TotpTables where
  secret : Option TotpRow
  backups : List CodeHash
  deriving DecidableEq, Repr

namespace TotpTables

/-- `INSERT INTO totp_secret ... ON CONFLICT(id) DO UPDATE ... WHERE totp_secret.active=0`. -/
def putPending (t : TotpTables) (sealedSecret : List UInt8) : TotpTables × Nat :=
  if t.secret.any TotpRow.active then (t, 0)
  else ({ t with secret := some ⟨sealedSecret, false, -1⟩ }, 1)

/-- `UPDATE totp_secret SET active=1,last_step=? WHERE id=1 AND active=0`. -/
def activate (t : TotpTables) (step : Int) : TotpTables × Nat :=
  match t.secret with
  | none => (t, 0)
  | some row =>
    if row.active = true then (t, 0)
    else ({ t with secret := some { row with active := true, lastStep := step } }, 1)

/-- `UPDATE totp_secret SET last_step=? WHERE id=1 AND active=1 AND last_step<?`. -/
def useStep (t : TotpTables) (step : Int) : TotpTables × Nat :=
  match t.secret with
  | none => (t, 0)
  | some row =>
    if row.active = true ∧ row.lastStep < step then
      ({ t with secret := some { row with lastStep := step } }, 1)
    else (t, 0)

/-- `DELETE FROM totp_secret`. -/
def deleteSecret (t : TotpTables) : TotpTables × Nat :=
  ({ t with secret := none }, if t.secret.isSome then 1 else 0)

/-- `DELETE FROM totp_backup`. -/
def clearBackups (t : TotpTables) : TotpTables × Nat :=
  ({ t with backups := [] }, t.backups.length)

/-- `INSERT INTO totp_backup(code_hash) VALUES(?)`, which the primary key may refuse. -/
def insertBackup (t : TotpTables) (hash : CodeHash) : Option (TotpTables × Nat) :=
  if hash ∈ t.backups then none else some ({ t with backups := t.backups ++ [hash] }, 1)

/-- `DELETE FROM totp_backup WHERE code_hash=?`. -/
def consumeBackup (t : TotpTables) (hash : CodeHash) : TotpTables × Nat :=
  ({ t with backups := t.backups.filter fun h => h ≠ hash }, t.backups.count hash)

end TotpTables

end MetalBear.TwoFactor
