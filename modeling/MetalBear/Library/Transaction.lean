import Mathlib

/-!
# Databases with transactions

A database is what survives a crash or a close, together with the working copy of a
transaction that is open on it. A statement goes to the working copy when there is one and
takes effect at once otherwise. A commit that is asked for may happen, may be undone, or
may leave the transaction open.
-/

namespace Transaction

universe u

variable {τ : Type u}

/-- The durable contents and, while a transaction is open, its working copy. -/
structure Db (τ : Type u) where
  durable : τ
  pending : Option τ

/-- What becomes of a transaction that is asked to commit. -/
inductive CommitOutcome where
  | committed
  | rolledBack
  | leftOpen
  deriving DecidableEq, Repr

namespace Db

/-- What the connection reads. -/
def view (db : Db τ) : τ := db.pending.getD db.durable

/-- A transaction can be opened only when none is open. -/
def canBegin (db : Db τ) : Bool := db.pending.isNone

/-- Open a transaction. -/
def start (db : Db τ) : Db τ := { db with pending := some db.durable }

/-- A statement that changes the contents. -/
def write (db : Db τ) (f : τ → τ) : Db τ :=
  match db.pending with
  | some t => { db with pending := some (f t) }
  | none => { db with durable := f db.durable }

/-- Ask for a commit. -/
def commit (db : Db τ) (outcome : CommitOutcome) : Db τ :=
  match outcome, db.pending with
  | .committed, some t => ⟨t, none⟩
  | .rolledBack, some _ => ⟨db.durable, none⟩
  | _, _ => db

/-- Drop the working copy. -/
def rollback (db : Db τ) : Db τ := { db with pending := none }

/-- The database of a store that has just been opened. -/
def fresh (t : τ) : Db τ := ⟨t, none⟩

/-- Close the connection, which drops the working copy, and open another. -/
def reopen (db : Db τ) : Db τ := fresh db.durable

section Rules

variable {db : Db τ} {f g : τ → τ} {t : τ}

@[simp] theorem view_fresh : (fresh t).view = t := rfl

@[simp] theorem durable_fresh : (fresh t).durable = t := rfl

@[simp] theorem canBegin_fresh : (fresh t).canBegin = true := rfl

@[simp] theorem durable_start : db.start.durable = db.durable := rfl

@[simp] theorem pending_start (db : Db τ) : db.start.pending = some db.durable := rfl

@[simp] theorem durable_rollback : db.rollback.durable = db.durable := rfl

@[simp] theorem view_rollback : db.rollback.view = db.durable := rfl

@[simp] theorem canBegin_rollback : db.rollback.canBegin = true := rfl

@[simp] theorem durable_reopen : db.reopen.durable = db.durable := rfl

/-- Outside a transaction the connection reads the durable contents. -/
theorem view_of_canBegin (h : db.canBegin = true) : db.view = db.durable := by
  cases hp : db.pending <;> simp_all [canBegin, view]

@[simp] theorem view_write : (db.write f).view = f db.view := by
  cases hp : db.pending <;> simp [write, view, hp]

@[simp] theorem canBegin_write : (db.write f).canBegin = db.canBegin := by
  cases hp : db.pending <;> simp [write, canBegin, hp]

/-- Inside a transaction a statement does not touch the durable contents. -/
theorem durable_write_of_pending (h : db.pending = some t) :
    (db.write f).durable = db.durable ∧ (db.write f).pending = some (f t) := by
  simp [write, h]

/-- What every statement leaves alone stays as it was, durably too. -/
theorem durable_write_of_keeps {β : Type u} (db : Db τ) {p : τ → β} (h : ∀ t, p (f t) = p t) :
    p (db.write f).durable = p db.durable := by
  cases hp : db.pending <;> simp [write, hp, h]

/-- A commit that happens makes the working copy durable. -/
theorem commit_committed (h : db.pending = some t) : db.commit .committed = fresh t := by
  simp [commit, h, fresh]

/-- A commit that does not happen leaves the durable contents as they were. -/
theorem durable_commit_of_ne {outcome : CommitOutcome} (h : outcome ≠ .committed) :
    (db.commit outcome).durable = db.durable := by
  cases outcome <;> cases hp : db.pending <;> simp_all [commit]

end Rules

end Db

end Transaction
