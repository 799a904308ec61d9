import MetalBear.Library.Machine
import MetalBear.Wolfram.Status

/-!
# The rotation key of the host

The store of the one key that signs PLC operations. Its getter generates a key when it finds
none, and takes every failure to read the key for that. The key last handed out is followed
through every run to see whether it remains the one that is stored.
-/

namespace MetalBear.Keys

open Machine

/-- `WF_KEY_TYPE_SECP256K1` or another. -/
inductive KeyType where
  | secp256k1
  | p256
  deriving DecidableEq, Repr

/-- `wf_signing_key`. -/
structure SigningKey where
  type : KeyType
  bytes : List UInt8
  length : bytes.length = 32
  deriving DecidableEq, Repr

/-- `metalbear_key_rotation`: the blob of the row of `signing_keys`, if there is one. -/
structure KeyRotation where
  row : Option (List UInt8)
  deriving DecidableEq, Repr

/-! ## Operations -/

/-- What becomes of the SELECT of the key. -/
structure SelectOutcome where
  prepares : Bool
  /-- A step gives the row, if there is one. -/
  steps : Bool
  /-- `sqlite3_column_blob` has memory for the blob. -/
  loads : Bool

/-- What becomes of the INSERT of a key. -/
structure InsertOutcome where
  prepares : Bool
  steps : Bool

/-- The INSERT is carried out. -/
def InsertOutcome.performed (o : InsertOutcome) : Bool :=
  o.prepares && o.steps

/-- `INSERT OR REPLACE INTO signing_keys`. -/
def KeyRotation.insert (s : KeyRotation) (key : SigningKey) (o : InsertOutcome) : KeyRotation :=
  if o.performed then { s with row := some key.bytes } else s

/-- The key in the table, if its blob is one of 32 bytes. -/
def KeyRotation.key (s : KeyRotation) : Option SigningKey :=
  match s.row with
  | none => none
  | some bytes => if h : bytes.length = 32 then some ⟨.secp256k1, bytes, h⟩ else none

/-- The key that the SELECT gives. -/
def KeyRotation.select (s : KeyRotation) (o : SelectOutcome) : Option SigningKey :=
  if o.prepares && o.steps && o.loads then s.key else none

/-- `metalbear_key_rotation_current_key`. What `wf_signing_key_generate` gives is a
parameter. -/
def currentKey (s : KeyRotation) (select : SelectOutcome) (generated : Option SigningKey)
    (insert : InsertOutcome) : KeyRotation × Option SigningKey :=
  match s.select select with
  | some key => (s, some key)
  | none =>
    match generated with
    | none => (s, none)
    | some key => (s.insert key insert, some key)

/-- `metalbear_key_rotation_import`: the status is `WF_OK` or not. -/
def importKey (s : KeyRotation) (key : SigningKey) (insert : InsertOutcome) :
    KeyRotation × Bool :=
  if key.type ≠ .secp256k1 then (s, false)
  else (s.insert key insert, insert.performed)

/-- `metalbear_key_rotation_rotate`. The last argument is the outcome of
`wf_signing_key_public_didkey`, if the did:key is asked for. -/
def rotateKey (s : KeyRotation) (generated : Option SigningKey) (insert : InsertOutcome)
    (didkey : Option Bool) : KeyRotation × Bool :=
  match generated with
  | none => (s, false)
  | some key => (s.insert key insert, didkey.getD true)

/-! ## Runs -/

/-- The calls of the store. -/
inductive KeyCall where
  | currentKey (select : SelectOutcome) (generated : Option SigningKey) (insert : InsertOutcome)
  | importKey (key : SigningKey) (insert : InsertOutcome)
  | rotateKey (generated : Option SigningKey) (insert : InsertOutcome) (didkey : Option Bool)
  | reopen

/-- The store and the key that was last handed out as the current one, since an import or a
rotation last succeeded. -/
structure KeyHistory where
  store : KeyRotation
  answer : Option SigningKey
  deriving DecidableEq, Repr

/-- A call. Every statement is a transaction of its own, so closing and opening the store
changes nothing. -/
def KeyHistory.step (s : KeyHistory) : KeyCall → KeyHistory
  | .currentKey select generated insert =>
    let r := Keys.currentKey s.store select generated insert
    ⟨r.1, r.2.or s.answer⟩
  | .importKey key insert =>
    let r := Keys.importKey s.store key insert
    ⟨r.1, if r.2 then none else s.answer⟩
  | .rotateKey generated insert didkey =>
    let r := Keys.rotateKey s.store generated insert didkey
    ⟨r.1, if r.2 then none else s.answer⟩
  | .reopen => s

/-- The key that a call hands out as the current one. -/
def KeyHistory.handsOut (s : KeyHistory) : KeyCall → Option SigningKey
  | .currentKey select generated insert => (Keys.currentKey s.store select generated insert).2
  | _ => none

/-- The key that was last handed out is the one that is stored. -/
def KeyHistory.Stored (s : KeyHistory) : Prop :=
  ∀ key, s.answer = some key → s.store.row = some key.bytes

/-- The call replaces a key in the table only if it is one of those that are to. -/
def KeyHistory.keepsKey (s : KeyHistory) : KeyCall → Prop
  | .currentKey select generated insert =>
    ∀ key, s.store.key = some key →
      (s.step (.currentKey select generated insert)).store.row = some key.bytes
  | _ => True

/-- The call leaves the key last handed out in the table; if it hands one out, it is that key
again; and a getter replaces no key. -/
def StableStep (s : KeyHistory) (call : KeyCall) : Prop :=
  (s.step call).Stored ∧
    (∀ key last, s.handsOut call = some key → s.answer = some last → key.bytes = last.bytes) ∧
    s.keepsKey call

/-- A key just generated may be handed out: it gets into the table, and there is no other there
or handed out before. -/
structure Adoptable (s : KeyHistory) (key : SigningKey) (insert : InsertOutcome) : Prop where
  inserted : insert.performed = true ∨ s.store.row = some key.bytes
  same_answer : ∀ last, s.answer = some last → key.bytes = last.bytes
  same_key : ∀ old, s.store.key = some old → key.bytes = old.bytes

/-- A call that is careful: a getter that reads no key generates one that may be handed out, and
a rotation that reports a failure has not replaced the key that was handed out. -/
def Careful (s : KeyHistory) : KeyCall → Prop
  | .currentKey select generated insert =>
    s.store.select select = none → ∀ key, generated = some key → Adoptable s key insert
  | .importKey _ _ => True
  | .rotateKey generated insert didkey =>
    didkey = some false → insert.performed = true →
      ∀ key last, generated = some key → s.answer = some last → key.bytes = last.bytes
  | .reopen => True

/-! ## The calls one by one -/

@[simp]
theorem KeyRotation.insert_performed {s : KeyRotation} {key : SigningKey} {o : InsertOutcome}
    (h : o.performed = true) : s.insert key o = { s with row := some key.bytes } :=
  if_pos h

@[simp]
theorem KeyRotation.insert_failed {s : KeyRotation} {key : SigningKey} {o : InsertOutcome}
    (h : o.performed = false) : s.insert key o = s := by
  rw [KeyRotation.insert, h]
  rfl

theorem KeyRotation.insert_row_eq_iff {s : KeyRotation} {key : SigningKey} {o : InsertOutcome} :
    (s.insert key o).row = some key.bytes ↔ o.performed = true ∨ s.row = some key.bytes := by
  cases h : o.performed <;> simp [h]

theorem KeyRotation.key_eq_some {s : KeyRotation} {key : SigningKey} (h : s.key = some key) :
    s.row = some key.bytes := by
  rw [KeyRotation.key] at h
  cases hrow : s.row with
  | none => simp [hrow] at h
  | some bytes =>
    simp only [hrow, Option.dite_none_right_eq_some] at h
    obtain ⟨hlength, hkey⟩ := h
    rw [← Option.some.inj hkey]

theorem KeyRotation.select_eq_some {s : KeyRotation} {o : SelectOutcome} {key : SigningKey}
    (h : s.select o = some key) : s.row = some key.bytes := by
  rw [KeyRotation.select] at h
  split at h
  · exact KeyRotation.key_eq_some h
  · cases h

theorem currentKey_careful_iff {s : KeyHistory} (hs : s.Stored) (select : SelectOutcome)
    (generated : Option SigningKey) (insert : InsertOutcome) :
    StableStep s (.currentKey select generated insert) ↔
      Careful s (.currentKey select generated insert) := by
  simp only [StableStep, Careful, KeyHistory.step, KeyHistory.handsOut, KeyHistory.keepsKey,
    currentKey, KeyHistory.Stored]
  cases hselect : s.store.select select with
  | some key =>
    have hrow := KeyRotation.select_eq_some hselect
    refine iff_of_true ⟨?_, ?_, ?_⟩ nofun
    · rintro _ ⟨⟩
      exact hrow
    · rintro _ last ⟨⟩ hlast
      exact Option.some.inj (hrow.symm.trans (hs last hlast))
    · exact fun _ hkey => KeyRotation.key_eq_some hkey
  | none =>
    cases generated with
    | none =>
      exact iff_of_true ⟨hs, nofun, fun _ hkey => KeyRotation.key_eq_some hkey⟩ nofun
    | some key =>
      constructor
      · rintro ⟨hstored, hsame, hkeeps⟩ - _ ⟨⟩
        have hrow := hstored key rfl
        refine ⟨KeyRotation.insert_row_eq_iff.mp hrow, fun last => hsame key last rfl, ?_⟩
        exact fun old hold => Option.some.inj (hrow.symm.trans (hkeeps old hold))
      · intro hcareful
        obtain ⟨hinserted, hanswer, hkey⟩ := hcareful rfl key rfl
        have hrow := KeyRotation.insert_row_eq_iff.mpr hinserted
        refine ⟨?_, ?_, ?_⟩
        · rintro _ ⟨⟩
          exact hrow
        · rintro _ last ⟨⟩ hlast
          exact hanswer last hlast
        · intro old hold
          rw [← hkey old hold]
          exact hrow

theorem importKey_stable {s : KeyHistory} (hs : s.Stored) (key : SigningKey)
    (insert : InsertOutcome) : StableStep s (.importKey key insert) := by
  refine ⟨?_, nofun, trivial⟩
  intro last hlast
  simp only [KeyHistory.step, importKey] at hlast ⊢
  split at hlast
  · next htype =>
    rw [if_pos htype]
    exact hs last hlast
  · next htype =>
    rw [if_neg htype]
    cases hperformed : insert.performed with
    | true => simp [hperformed] at hlast
    | false =>
      simp only [hperformed, Bool.false_eq_true, if_false] at hlast
      rw [KeyRotation.insert_failed hperformed]
      exact hs last hlast

theorem rotateKey_careful_iff {s : KeyHistory} (hs : s.Stored) (generated : Option SigningKey)
    (insert : InsertOutcome) (didkey : Option Bool) :
    StableStep s (.rotateKey generated insert didkey) ↔
      Careful s (.rotateKey generated insert didkey) := by
  cases generated with
  | none => exact iff_of_true ⟨hs, nofun, trivial⟩ nofun
  | some key =>
    have hanswer : (s.step (.rotateKey (some key) insert didkey)).answer =
        if didkey.getD true then none else s.answer := rfl
    have hstore : (s.step (.rotateKey (some key) insert didkey)).store =
        s.store.insert key insert := rfl
    by_cases hfails : didkey = some false
    · subst hfails
      simp only [Option.getD_some, Bool.false_eq_true, if_false] at hanswer
      constructor
      · rintro ⟨hstored, -⟩ - hperformed _ last ⟨⟩ hlast
        have hrow := hstored last (hanswer.trans hlast)
        rw [hstore, KeyRotation.insert_performed hperformed] at hrow
        exact Option.some.inj hrow
      · intro hcareful
        refine ⟨fun last hlast => ?_, nofun, trivial⟩
        rw [hanswer] at hlast
        rw [hstore]
        cases hperformed : insert.performed with
        | true =>
          rw [KeyRotation.insert_performed hperformed]
          exact congrArg some (hcareful rfl hperformed key last rfl hlast)
        | false =>
          rw [KeyRotation.insert_failed hperformed]
          exact hs last hlast
    · refine iff_of_true ⟨fun last hlast => ?_, nofun, trivial⟩ fun h => absurd h hfails
      have hok : didkey.getD true = true := by
        rcases didkey with _ | _ | _
        · rfl
        · exact absurd rfl hfails
        · rfl
      rw [hanswer, hok] at hlast
      cases hlast

theorem stableStep_iff {s : KeyHistory} (hs : s.Stored) (call : KeyCall) :
    StableStep s call ↔ Careful s call := by
  cases call with
  | currentKey select generated insert => exact currentKey_careful_iff hs select generated insert
  | importKey key insert => exact iff_of_true (importKey_stable hs key insert) trivial
  | rotateKey generated insert didkey => exact rotateKey_careful_iff hs generated insert didkey
  | reopen => exact iff_of_true ⟨hs, nofun, trivial⟩ trivial

/-! ## The main result -/

/-- In a run from any table, every key that is handed out is and remains the stored one, until
an import or a rotation succeeds, and no getter replaces a key, if and only if every call is
careful. -/
theorem rotationKey_stable_iff (row : Option (List UInt8)) (run : List KeyCall) :
    Steps KeyHistory.step StableStep ⟨⟨row⟩, none⟩ run ↔
      Steps KeyHistory.step Careful ⟨⟨row⟩, none⟩ run := by
  apply steps_iff_steps (J := KeyHistory.Stored)
  · exact nofun
  · exact fun s call hs => stableStep_iff hs call
  · exact fun s call hs hstable => hstable.1

/-! ## A key that is lost -/

section LostKey

/-- Two keys that the generator gives. -/
def firstKey : SigningKey := ⟨.secp256k1, List.replicate 32 1, by decide⟩

def secondKey : SigningKey := ⟨.secp256k1, List.replicate 32 2, by decide⟩

/-- The key is generated and stored; then its SELECT fails once. -/
def unreadRun : List KeyCall :=
  [.currentKey ⟨true, true, true⟩ (some firstKey) ⟨true, true⟩,
    .currentKey ⟨true, false, true⟩ (some secondKey) ⟨true, true⟩]

/-- One failing SELECT replaces the key that was handed out. -/
theorem unread_key_is_replaced :
    (exec KeyHistory.step ⟨⟨none⟩, none⟩ unreadRun).store.row = some secondKey.bytes ∧
      ¬ Steps KeyHistory.step StableStep ⟨⟨none⟩, none⟩ unreadRun := by
  refine ⟨by decide, ?_⟩
  rintro ⟨-, ⟨-, hsame, -⟩, -⟩
  exact absurd (hsame secondKey firstKey rfl rfl) (by decide)

end LostKey

end MetalBear.Keys
