import MetalBear.Account.Registry

/-!
# Invite codes

The two invite tables of the registry with all their columns. A call takes the mutex of the
registry, so no other call comes between its statements; but it opens no transaction, and a
consumption does not look at what becomes of its writes.
-/

namespace MetalBear.Account

/-! ## The tables -/

/-- All columns of `invite_code`. -/
structure InviteCodeRow extends InviteCode where
  forAccount : String
  /-- No statement writes it. -/
  createdBy : Option String
  /-- In milliseconds, as `strftime('%Y-%m-%dT%H:%M:%fZ','now')` prints it. -/
  createdAt : Nat
  deriving DecidableEq, Repr

/-- All columns of `invite_code_use`. -/
structure InviteCodeUse extends InviteUse where
  usedAt : Nat
  deriving DecidableEq, Repr

/-- Both tables: `code` is the primary key of the first. -/
structure InviteTables where
  codes : List InviteCodeRow
  uses : List InviteCodeUse
  codes_nodup : (codes.map fun row => row.code).Nodup

namespace InviteTables

/-- A new registry. -/
def empty : InviteTables := ⟨[], [], List.nodup_nil⟩

/-- The columns that a consumption reads. -/
def brief (t : InviteTables) : Invites :=
  ⟨t.codes.map InviteCodeRow.toInviteCode, t.uses.map InviteCodeUse.toInviteUse⟩

/-- `WHERE code=?`. -/
def findCode (t : InviteTables) (code : String) : Option InviteCodeRow :=
  t.codes.find? fun row => row.code = code

/-- `UPDATE invite_code SET`, which leaves the keys alone. -/
def updateCodes (t : InviteTables) (f : InviteCodeRow → InviteCodeRow)
    (hf : ∀ row, (f row).code = row.code) : InviteTables where
  codes := t.codes.map f
  uses := t.uses
  codes_nodup := by
    have hcodes : (fun row : InviteCodeRow => row.code) ∘ f = fun row => row.code := funext hf
    rw [List.map_map, hcodes]
    exact t.codes_nodup

end InviteTables

/-! ## Creation -/

/-- What becomes of an `INSERT`, and the time it is stamped with. -/
structure StampedCall where
  carriedOut : Bool
  now : Nat
  deriving DecidableEq, Repr

/-- `INSERT INTO invite_code`. -/
def InviteTables.insertCode (t : InviteTables) (row : InviteCodeRow) (carriedOut : Bool) :
    Except WfError InviteTables :=
  if h : carriedOut ∧ row.code ∉ t.codes.map fun row => row.code then
    .ok
      { codes := t.codes ++ [row]
        uses := t.uses
        codes_nodup := by
          rw [List.map_append, List.nodup_append_comm]
          exact List.nodup_cons.mpr ⟨h.2, t.codes_nodup⟩ }
  else .error .internal

/-- The loop over the codes, which ends at the first that is not inserted. -/
def InviteTables.insertCodes (forAccount : String) (useCount : Int) :
    List (String × StampedCall) → InviteTables → InviteTables × Except WfError Unit
  | [], t => (t, .ok ())
  | (code, call) :: rest, t =>
    match t.insertCode ⟨⟨code, useCount, false⟩, forAccount, none, call.now⟩ call.carriedOut with
    | .error e => (t, .error e)
    | .ok t => insertCodes forAccount useCount rest t

/-- `metalbear_account_registry_create_invite_codes`. -/
def InviteTables.createInviteCodes (t : InviteTables) (forAccount : String)
    (codes : List (String × StampedCall)) (useCount : Int) : InviteTables × Except WfError Unit :=
  if codes = [] ∨ useCount < 1 then (t, .error .invalidArg)
  else t.insertCodes forAccount useCount codes

/-! ## Consumption -/

/-- `SET uses_remaining = uses_remaining - 1 WHERE code=? AND uses_remaining > 0`. -/
def InviteCodeRow.use (code : String) (row : InviteCodeRow) : InviteCodeRow :=
  { row with toInviteCode := row.toInviteCode.use code }

@[simp] theorem InviteCode.use_code (code : String) (row : InviteCode) :
    (row.use code).code = row.code := by
  rw [InviteCode.use]
  split <;> rfl

@[simp] theorem InviteCodeRow.use_code (code : String) (row : InviteCodeRow) :
    (row.use code).code = row.code := row.toInviteCode.use_code code

/-- The `SELECT` of a consumption: the row, where the code may be used. -/
def InviteTables.usable (t : InviteTables) (code : String) (selected : Bool) :
    Except WfError InviteCodeRow :=
  if selected then
    match t.findCode code with
    | none => .error .notFound
    | some row =>
      if row.disabled then .error .conflict
      else if 0 < row.usesRemaining then .ok row
      else .error .notFound
  else .error .notFound

/-- `metalbear_account_registry_consume_invite_code`. -/
def InviteTables.consumeInviteCode (t : InviteTables) (code usedBy : String) (calls : ConsumeCalls)
    (now : Nat) : InviteTables × Except WfError Unit :=
  match t.usable code calls.selected with
  | .error e => (t, .error e)
  | .ok _ =>
    let t := if calls.updated then t.updateCodes (InviteCodeRow.use code)
      (InviteCodeRow.use_code code) else t
    ({ t with uses := if calls.inserted then t.uses ++ [⟨⟨code, usedBy⟩, now⟩] else t.uses }, .ok ())

/-! ## Disabling -/

/-- `SET disabled=1`. -/
def InviteCodeRow.disable (p : InviteCodeRow → Bool) (row : InviteCodeRow) : InviteCodeRow :=
  if p row then { row with disabled := true } else row

@[simp] theorem InviteCodeRow.disable_code (p : InviteCodeRow → Bool) (row : InviteCodeRow) :
    (row.disable p).code = row.code := by
  rw [InviteCodeRow.disable]
  split <;> rfl

@[simp] theorem InviteCodeRow.disable_usesRemaining (p : InviteCodeRow → Bool)
    (row : InviteCodeRow) : (row.disable p).usesRemaining = row.usesRemaining := by
  rw [InviteCodeRow.disable]
  split <;> rfl

/-- One of the two loops, over the values of a column: the tables, and the number of rows that are
touched. A value with `false` is one whose statement fails. -/
def InviteTables.disableEach (column : InviteCodeRow → String) :
    List (String × Bool) → InviteTables × Nat → InviteTables × Nat
  | [], s => s
  | (value, carriedOut) :: rest, (t, touched) =>
    if value = "" ∨ carriedOut = false then disableEach column rest (t, touched)
    else
      let p := fun row => decide (column row = value)
      disableEach column rest
        (t.updateCodes (InviteCodeRow.disable p) (InviteCodeRow.disable_code p),
          touched + t.codes.countP p)

/-- `metalbear_account_registry_disable_invite_codes`. -/
def InviteTables.disableInviteCodes (t : InviteTables) (codes accounts : List (String × Bool)) :
    InviteTables × Except WfError Unit :=
  if codes = [] ∧ accounts = [] then (t, .error .invalidArg)
  else
    match InviteTables.disableEach InviteCodeRow.forAccount accounts
      (InviteTables.disableEach (fun row => row.code) codes (t, 0)) with
    | (t, touched) => (t, if 0 < touched then .ok () else .error .notFound)

/-! ## The code of an account -/

/-- What becomes of the lookup. Of rows with the same `used_at`, which one comes first is up to the
database. -/
structure LookupCalls where
  selected : Bool
  allocated : Bool
  tie : Nat
  deriving DecidableEq, Repr

/-- `invite_code_use icu JOIN invite_code ic ... WHERE icu.used_by=? OR icu.used_by=?`. -/
def InviteTables.usesOf (t : InviteTables) (did handle : String) : List InviteCodeUse :=
  t.uses.filter fun u => (u.usedBy = did ∨ u.usedBy = handle) ∧ (t.findCode u.code).isSome

/-- The rows that `ORDER BY icu.used_at ASC` may put first. -/
def earliest (uses : List InviteCodeUse) : List InviteCodeUse :=
  uses.filter fun u => uses.all fun v => u.usedAt ≤ v.usedAt

/-- `metalbear_account_registry_get_invite_code_for_account`. -/
def InviteTables.getInviteCodeForAccount (t : InviteTables) (did handle : Option String)
    (calls : LookupCalls) : Except WfError InviteCodeRow :=
  if did = none ∧ handle = none then .error .invalidArg
  else if calls.selected = false then .error .notFound
  else
    let first := earliest (t.usesOf (did.getD "") (handle.getD ""))
    match first[calls.tie % first.length]? with
    | none => .error .notFound
    | some u =>
      match t.findCode u.code with
      | none => .error .notFound
      | some row => if calls.allocated then .ok row else .error .alloc

/-! ## What the calls do -/

namespace InviteTables

variable {t t' : InviteTables} {code usedBy did handle forAccount : String} {row : InviteCodeRow}
  {calls : ConsumeCalls} {now : Nat} {useCount : Int}

@[simp] theorem updateCodes_codes (f : InviteCodeRow → InviteCodeRow)
    (hf : ∀ row, (f row).code = row.code) : (t.updateCodes f hf).codes = t.codes.map f := rfl

@[simp] theorem updateCodes_uses (f : InviteCodeRow → InviteCodeRow)
    (hf : ∀ row, (f row).code = row.code) : (t.updateCodes f hf).uses = t.uses := rfl

theorem findCode_eq_some : t.findCode code = some row ↔ row ∈ t.codes ∧ row.code = code := by
  rw [findCode]
  constructor
  · intro h
    exact ⟨List.mem_of_find?_eq_some h, by simpa using List.find?_some h⟩
  · rintro ⟨hmem, rfl⟩
    cases hfind : t.codes.find? fun other => other.code = row.code with
    | none => simpa using List.find?_eq_none.mp hfind row hmem
    | some other =>
      have hcode : other.code = row.code := by simpa using List.find?_some hfind
      rw [List.inj_on_of_nodup_map t.codes_nodup (List.mem_of_find?_eq_some hfind) hmem hcode]

theorem findCode_isSome : (t.findCode code).isSome ↔ ∃ row ∈ t.codes, row.code = code := by
  rw [Option.isSome_iff_exists]
  simp only [findCode_eq_some]

theorem insertCode_eq_ok {carriedOut : Bool} (h : t.insertCode row carriedOut = .ok t') :
    carriedOut = true ∧ t.findCode row.code = none ∧ t'.codes = t.codes ++ [row] ∧
      t'.uses = t.uses := by
  rw [insertCode] at h
  split at h
  · next hnew =>
    injection h with h
    subst h
    refine ⟨hnew.1, List.find?_eq_none.mpr fun other hother => ?_, rfl, rfl⟩
    have hne : row.code ∉ t.codes.map fun row => row.code := hnew.2
    simp only [List.mem_map, not_exists, not_and] at hne
    simpa using hne other hother
  · cases h

/-- The code may be used: it is there, it is not disabled, and it has a use left. -/
theorem usable_eq_ok {selected : Bool} : t.usable code selected = .ok row ↔
    selected = true ∧ t.findCode code = some row ∧ row.disabled = false ∧
      0 < row.usesRemaining := by
  rw [usable]
  constructor
  · intro h
    split at h
    · next hselected =>
      split at h
      · cases h
      · next found hfind =>
        split at h
        · cases h
        · next hdisabled =>
          split at h
          · next hpos =>
            injection h with h
            subst h
            exact ⟨hselected, hfind, by simpa using hdisabled, hpos⟩
          · cases h
    · cases h
  · rintro ⟨rfl, hfind, hdisabled, hpos⟩
    simp [hfind, hdisabled, hpos]

/-- A consumption that is refused changes nothing. -/
theorem consumeInviteCode_of_error {e : WfError} (h : t.usable code calls.selected = .error e) :
    t.consumeInviteCode code usedBy calls now = (t, .error e) := by
  rw [consumeInviteCode, h]

/-- A consumption succeeds as soon as the code may be used. -/
theorem consumeInviteCode_of_ok (h : t.usable code calls.selected = .ok row) :
    (t.consumeInviteCode code usedBy calls now).2 = .ok () ∧
      (t.consumeInviteCode code usedBy calls now).1.codes =
        (if calls.updated then t.codes.map (InviteCodeRow.use code) else t.codes) ∧
      (t.consumeInviteCode code usedBy calls now).1.uses =
        (if calls.inserted then t.uses ++ [⟨⟨code, usedBy⟩, now⟩] else t.uses) := by
  rw [consumeInviteCode, h]
  refine ⟨rfl, ?_, ?_⟩
  · dsimp only
    split <;> rfl
  · cases calls.updated <;> rfl

/-- The keys outlast a consumption. -/
theorem findCode_consumeInviteCode_isSome (other : String) :
    (((t.consumeInviteCode code usedBy calls now).1).findCode other).isSome =
      (t.findCode other).isSome := by
  cases husable : t.usable code calls.selected with
  | error e => rw [consumeInviteCode_of_error husable]
  | ok row =>
    have hcodes : (t.consumeInviteCode code usedBy calls now).1.codes = _ :=
      (consumeInviteCode_of_ok husable).2.1
    rw [Bool.eq_iff_iff, findCode_isSome, findCode_isSome, hcodes]
    split <;> simp

/-- The loop of a creation adds rows at the end, and all of them where it succeeds. -/
theorem insertCodes_eq (codes : List (String × StampedCall)) (t : InviteTables) :
    ∃ rows : List InviteCodeRow, (t.insertCodes forAccount useCount codes).1.codes = t.codes ++ rows ∧
      (t.insertCodes forAccount useCount codes).1.uses = t.uses ∧
      (∀ row ∈ rows, row.usesRemaining = useCount ∧ row.disabled = false) ∧
      ((t.insertCodes forAccount useCount codes).2 = .ok () →
        rows.map (fun row => row.code) = codes.map Prod.fst) := by
  induction codes generalizing t with
  | nil => exact ⟨[], by simp [insertCodes]⟩
  | cons head rest ih =>
    obtain ⟨code, call⟩ := head
    rw [insertCodes]
    cases hinsert : t.insertCode ⟨⟨code, useCount, false⟩, forAccount, none, call.now⟩
      call.carriedOut with
    | error e => exact ⟨[], by simp, rfl, by simp, by simp⟩
    | ok next =>
      obtain ⟨-, -, hcodes, huses⟩ := insertCode_eq_ok hinsert
      obtain ⟨rows, hrows, hsame, hfresh, hall⟩ := ih next
      refine ⟨⟨⟨code, useCount, false⟩, forAccount, none, call.now⟩ :: rows, ?_, ?_, ?_, ?_⟩
      · simp [hrows, hcodes]
      · rw [hsame, huses]
      · simpa using hfresh
      · intro hok
        rw [List.map_cons, List.map_cons, hall hok]

/-- A creation adds rows at the end, with what was asked for, and all of them where it succeeds. -/
theorem createInviteCodes_eq (codes : List (String × StampedCall)) :
    ∃ rows : List InviteCodeRow,
      (t.createInviteCodes forAccount codes useCount).1.codes = t.codes ++ rows ∧
      (t.createInviteCodes forAccount codes useCount).1.uses = t.uses ∧
      (∀ row ∈ rows, row.usesRemaining = useCount ∧ 0 ≤ useCount) ∧
      ((t.createInviteCodes forAccount codes useCount).2 = .ok () →
        rows.map (fun row => row.code) = codes.map Prod.fst) := by
  rw [createInviteCodes]
  split
  · exact ⟨[], by simp, rfl, by simp, by simp⟩
  · next hargs =>
    have hpos : 0 ≤ useCount := by
      have := (not_or.mp hargs).2
      omega
    obtain ⟨rows, hrows, huses, hfresh, hall⟩ :=
      insertCodes_eq codes t
    exact ⟨rows, hrows, huses, fun row hrow => ⟨(hfresh row hrow).1, hpos⟩, hall⟩

/-- Disabling changes `disabled` alone. -/
theorem disableEach_eq (column : InviteCodeRow → String) (values : List (String × Bool))
    (s : InviteTables × Nat) :
    ∃ f : InviteCodeRow → InviteCodeRow, (∀ row, (f row).code = row.code ∧
        (f row).usesRemaining = row.usesRemaining) ∧
      (disableEach column values s).1.codes = s.1.codes.map f ∧
      (disableEach column values s).1.uses = s.1.uses := by
  induction values generalizing s with
  | nil => exact ⟨id, by simp [disableEach]⟩
  | cons head rest ih =>
    obtain ⟨value, carriedOut⟩ := head
    obtain ⟨t, touched⟩ := s
    rw [disableEach]
    split
    · exact ih (t, touched)
    · obtain ⟨f, hf, hcodes, huses⟩ := ih (t.updateCodes (InviteCodeRow.disable fun row =>
        decide (column row = value)) (InviteCodeRow.disable_code _),
        touched + t.codes.countP fun row => decide (column row = value))
      refine ⟨f ∘ InviteCodeRow.disable fun row => decide (column row = value), ?_, ?_, ?_⟩
      · intro row
        simp only [Function.comp_apply, hf]
        simp
      · rw [hcodes, updateCodes_codes, List.map_map]
      · rw [huses, updateCodes_uses]

theorem disableInviteCodes_eq (codes accounts : List (String × Bool)) :
    ∃ f : InviteCodeRow → InviteCodeRow, (∀ row, (f row).code = row.code ∧
        (f row).usesRemaining = row.usesRemaining) ∧
      (t.disableInviteCodes codes accounts).1.codes = t.codes.map f ∧
      (t.disableInviteCodes codes accounts).1.uses = t.uses := by
  rw [disableInviteCodes]
  split
  · exact ⟨id, by simp⟩
  · obtain ⟨f, hf, hcodes, huses⟩ := disableEach_eq (fun row => row.code) codes (t, 0)
    obtain ⟨g, hg, hcodes', huses'⟩ := disableEach_eq InviteCodeRow.forAccount accounts
      (disableEach (fun row => row.code) codes (t, 0))
    refine ⟨g ∘ f, fun row => ?_, ?_, ?_⟩
    · simp [hf, hg]
    · rw [hcodes', hcodes, List.map_map]
    · rw [huses', huses]

/-! ## What the lookup finds -/

/-- A use of the code is recorded under the DID or the handle before every use of another code that
is. -/
def FirstUsedWith (t : InviteTables) (did handle code : String) : Prop :=
  ∃ u ∈ t.uses, (u.usedBy = did ∨ u.usedBy = handle) ∧ u.code = code ∧
    ∀ v ∈ t.uses, (v.usedBy = did ∨ v.usedBy = handle) → v.code ≠ code → u.usedAt < v.usedAt

theorem mem_earliest {uses : List InviteCodeUse} {u : InviteCodeUse} :
    u ∈ earliest uses ↔ u ∈ uses ∧ ∀ v ∈ uses, u.usedAt ≤ v.usedAt := by
  simp [earliest]

/-- Where there is a use there is an earliest one. -/
theorem exists_mem_earliest {uses : List InviteCodeUse} {u : InviteCodeUse} (hu : u ∈ uses) :
    ∃ v ∈ earliest uses, v.usedAt ≤ u.usedAt := by
  cases hmin : uses.argmin InviteCodeUse.usedAt with
  | none =>
    rw [List.argmin_eq_none] at hmin
    subst hmin
    cases hu
  | some v =>
    have hle : ∀ w ∈ uses, v.usedAt ≤ w.usedAt := fun w hw => List.le_of_mem_argmin hw hmin
    exact ⟨v, mem_earliest.mpr ⟨List.argmin_mem hmin, hle⟩, hle u hu⟩

theorem mem_usesOf (hcodes : ∀ u ∈ t.uses, (t.findCode u.code).isSome) {u : InviteCodeUse} :
    u ∈ t.usesOf did handle ↔ u ∈ t.uses ∧ (u.usedBy = did ∨ u.usedBy = handle) := by
  rw [usesOf, List.mem_filter, decide_eq_true_iff]
  constructor
  · rintro ⟨hu, hby, -⟩
    exact ⟨hu, hby⟩
  · rintro ⟨hu, hby⟩
    exact ⟨hu, hby, hcodes u hu⟩

/-- The first uses are all of one code. -/
theorem firstUsedWith_iff (hcodes : ∀ u ∈ t.uses, (t.findCode u.code).isSome) :
    t.FirstUsedWith did handle code ↔ earliest (t.usesOf did handle) ≠ [] ∧
      ∀ u ∈ earliest (t.usesOf did handle), u.code = code := by
  constructor
  · rintro ⟨u, hu, hby, hcode, hothers⟩
    have hmem : u ∈ t.usesOf did handle := (mem_usesOf hcodes).mpr ⟨hu, hby⟩
    obtain ⟨first, hfirst, -⟩ := exists_mem_earliest hmem
    refine ⟨List.ne_nil_of_mem hfirst, fun v hv => ?_⟩
    obtain ⟨hv, hmin⟩ := mem_earliest.mp hv
    obtain ⟨hv, hvby⟩ := (mem_usesOf hcodes).mp hv
    by_contra hne
    have := hothers v hv hvby hne
    have := hmin u hmem
    omega
  · rintro ⟨hne, hall⟩
    obtain ⟨u, hu⟩ := List.exists_mem_of_ne_nil _ hne
    obtain ⟨huses, hmin⟩ := mem_earliest.mp hu
    obtain ⟨hmem, hby⟩ := (mem_usesOf hcodes).mp huses
    refine ⟨u, hmem, hby, hall u hu, fun v hv hvby hvcode => ?_⟩
    have hle := hmin v ((mem_usesOf hcodes).mpr ⟨hv, hvby⟩)
    by_contra hlt
    -- otherwise it would be among the first uses itself
    refine hvcode (hall v (mem_earliest.mpr ⟨(mem_usesOf hcodes).mpr ⟨hv, hvby⟩, fun w hw => ?_⟩))
    have := hmin w hw
    omega

/-- A lookup that is carried out finds the code, whatever the database puts first. -/
def Finds (t : InviteTables) (did handle code : String) : Prop :=
  ∀ tie, ∃ row, t.getInviteCodeForAccount (some did) (some handle) ⟨true, true, tie⟩ = .ok row ∧
    row.code = code

theorem finds_iff (hcodes : ∀ u ∈ t.uses, (t.findCode u.code).isSome) :
    t.Finds did handle code ↔ t.FirstUsedWith did handle code := by
  rw [firstUsedWith_iff hcodes]
  have hget : ∀ tie, t.getInviteCodeForAccount (some did) (some handle) ⟨true, true, tie⟩ =
      match (earliest (t.usesOf did handle))[tie % (earliest (t.usesOf did handle)).length]? with
      | none => .error .notFound
      | some u =>
        match t.findCode u.code with
        | none => .error .notFound
        | some row => .ok row := by
    intro tie
    simp [getInviteCodeForAccount]
  have hrow : ∀ u ∈ earliest (t.usesOf did handle), ∃ row, t.findCode u.code = some row ∧
      row.code = u.code := by
    intro u hu
    obtain ⟨hmem, -⟩ := (mem_usesOf hcodes).mp (mem_earliest.mp hu).1
    obtain ⟨row, hfind⟩ := Option.isSome_iff_exists.mp (hcodes u hmem)
    exact ⟨row, hfind, (findCode_eq_some.mp hfind).2⟩
  constructor
  · intro h
    refine ⟨fun hnil => ?_, fun u hu => ?_⟩
    · obtain ⟨row, hok, -⟩ := h 0
      rw [hget, hnil] at hok
      cases hok
    · obtain ⟨i, hi, hui⟩ := List.getElem_of_mem hu
      obtain ⟨row, hok, hcode⟩ := h i
      obtain ⟨found, hfound, hsame⟩ := hrow u hu
      rw [hget, Nat.mod_eq_of_lt hi, List.getElem?_eq_getElem hi, hui] at hok
      dsimp only at hok
      rw [hfound] at hok
      injection hok with hok
      rw [← hsame, hok, hcode]
  · rintro ⟨hne, hall⟩ tie
    have hi := Nat.mod_lt tie (List.length_pos_of_ne_nil hne)
    have hmem := List.getElem_mem hi
    obtain ⟨row, hfind, hcode⟩ := hrow _ hmem
    refine ⟨row, ?_, hcode.trans (hall _ hmem)⟩
    rw [hget, List.getElem?_eq_getElem hi]
    dsimp only
    rw [hfind]

/-! ## The columns that a consumption reads -/

theorem brief_findCode :
    t.brief.codes.find? (fun row => row.code = code) = (t.findCode code).map
      InviteCodeRow.toInviteCode := by
  rw [brief, findCode, List.find?_map]
  rfl

/-- On these columns, a consumption is the one that an account is created with. -/
theorem brief_consumeInviteCode :
    ((t.consumeInviteCode code usedBy calls now).1.brief,
      (t.consumeInviteCode code usedBy calls now).2) =
      t.brief.consumeInviteCode code usedBy calls := by
  have husable : t.brief.usable code calls =
      (t.usable code calls.selected).map fun _ => () := by
    rw [Invites.usable, brief_findCode, usable]
    cases calls.selected with
    | false => rfl
    | true =>
      cases t.findCode code with
      | none => rfl
      | some row =>
        simp only [if_true, Option.map_some]
        split
        · rfl
        · split <;> rfl
  rw [Invites.consumeInviteCode, husable]
  cases hok : t.usable code calls.selected with
  | error e => rw [consumeInviteCode_of_error hok]; rfl
  | ok row =>
    obtain ⟨hres, hcodes, huses⟩ : (t.consumeInviteCode code usedBy calls now).2 = _ ∧
        (t.consumeInviteCode code usedBy calls now).1.codes = _ ∧
        (t.consumeInviteCode code usedBy calls now).1.uses = _ := consumeInviteCode_of_ok hok
    rw [hres, brief, hcodes, huses]
    cases calls.updated <;> cases calls.inserted <;>
      simp [brief, Except.map, InviteCodeRow.use, Function.comp_def]

end InviteTables

end MetalBear.Account
