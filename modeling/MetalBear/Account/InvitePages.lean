import MetalBear.Labels.QueryLabels
import MetalBear.Library.PrintedMarks
import MetalBear.Sync.Enumeration

/-!
# Listing the invite codes

The query of the administrator that gives all invite codes, the latest or the most used first. A
cursor is printed from the sort key of the last row of a page and parsed when it comes back, with
buffers of its own. The tables are those of the registry, with their texts as bytes: the order of
the database and the buffers count bytes.
-/

namespace MetalBear.Account

open ByteOrder Paging Sync
open Labels (charsOf cursorText)

/-! ## The tables -/

/-- The unit separator, between the two halves of a cursor. -/
def unitSeparator : UInt8 := 0x1f

local instance instLawfulBEqByte : LawfulBEq UInt8 := instLawfulBEq

/-- `strftime('%Y-%m-%dT%H:%M:%fZ','now')`, which stamps every row. -/
structure Stamp where
  text : Text
  length_text : text.length = 24
  not_separator : unitSeparator ∉ text

/-- A row of `invite_code`, and the `metalbear_invite_code_entry` that is read from it. -/
structure InviteCodeEntry where
  code : Text
  forAccount : Text
  usesRemaining : Int
  disabled : Bool
  createdBy : Option Text
  createdAt : Stamp

/-- A row of `invite_code_use`. -/
structure InviteUseRow where
  code : Text
  usedBy : Text
  usedAt : Text
  deriving DecidableEq

/-- Both tables; `code` is the primary key of the first. -/
structure InviteTexts where
  codes : List InviteCodeEntry
  uses : List InviteUseRow
  codes_nodup : (codes.map InviteCodeEntry.code).Nodup

namespace InviteTexts

variable (t : InviteTexts)

/-- `metalbear_account_registry_get_invite_code_uses`. -/
def getInviteCodeUses (code : Text) : List InviteUseRow :=
  (t.uses.filter fun u => u.code = code).mergeSort fun a b => decide (a.usedAt ≤ b.usedAt)

/-- `COUNT(icu.code)` of the group of a code. -/
def countUses (row : InviteCodeEntry) : Int := t.uses.countP fun u => u.code = row.code

end InviteTexts

/-! ## The two list queries -/

section Select

variable {P : Type} [LinearOrder P] (primary : InviteCodeEntry → P)

/-- What a row is sorted by. Both orders are `DESC`. -/
def sortKey (row : InviteCodeEntry) : (P ×ₗ Text)ᵒᵈ := .toDual (toLex (primary row, row.code))

/-- `WHERE primary<? OR (primary=? AND code<?)`. -/
def isAfter (after : P × Text) (row : InviteCodeEntry) : Bool :=
  decide (primary row < after.1 ∨ primary row = after.1 ∧ row.code < after.2)

/-- `ORDER BY primary DESC, code DESC LIMIT ?`, with or without a condition. -/
def selectCodes (rows : List InviteCodeEntry) (after : Option (P × Text)) (limit : Nat) :
    List InviteCodeEntry :=
  ((rows.filter fun row => after.all fun after => isAfter primary after row).mergeSort
    fun a b => decide (sortKey primary a ≤ sortKey primary b)).take limit

end Select

namespace InviteTexts

variable (t : InviteTexts)

/-- `metalbear_account_registry_list_invite_codes`. -/
def listInviteCodes (afterCreatedAt afterCode : Text) (limit : Nat) : List InviteCodeEntry :=
  selectCodes (fun row => row.createdAt.text) t.codes
    (if afterCreatedAt ≠ [] ∧ afterCode ≠ [] then some (afterCreatedAt, afterCode) else none) limit

/-- `metalbear_account_registry_list_invite_codes_by_usage`. -/
def listInviteCodesByUsage (afterUses : Int) (afterCode : Text) (limit : Nat) :
    List InviteCodeEntry :=
  selectCodes t.countUses t.codes (if afterCode ≠ [] then some (afterUses, afterCode) else none)
    limit

end InviteTexts

/-! ## The parameters -/

/-- The two values of `sort`. -/
inductive InviteSort where
  | recent
  | usage
  deriving DecidableEq

def recentText : Text := "recent".toUTF8.toList
def usageText : Text := "usage".toUTF8.toList

/-- The parameter `sort`; one that is no string is none. -/
def readSort (param : Option Text) : Except XrpcError InviteSort :=
  let sort := if param.getD [] ≠ [] then param.getD [] else recentText
  if sort = recentText then .ok .recent
  else if sort = usageText then .ok .usage
  else .error ⟨400, "InvalidRequest", "sort must be either recent or usage"⟩

/-- `INT_MAX`. -/
def intMax : Int := 2 ^ 31 - 1

/-- `after_created_at`, `after_uses` and `after_code`. -/
structure InviteCursor where
  afterCreatedAt : Text
  afterUses : Int
  afterCode : Text
  deriving DecidableEq

/-- The parameter `cursor`, which is not empty. -/
def parseCursor (sort : InviteSort) (text : Text) : Option InviteCursor :=
  if unitSeparator ∈ text then
    let primary := text.takeWhile (· ≠ unitSeparator)
    let code := text.drop (primary.length + 1)
    if 40 ≤ primary.length ∨ 256 ≤ code.length then none
    else
      match sort with
      | .usage =>
        let parsed := CString.strtoll (charsOf primary)
        if primary = [] ∨ parsed.rest ≠ [] ∨ parsed.value < 0 ∨ intMax < parsed.value then none
        else some ⟨[], parsed.value, code⟩
      | .recent => some ⟨primary, 0, code⟩
  else none

/-- The parameter `cursor`; one that is no string is none. -/
def readCursor (sort : InviteSort) (param : Option Text) : Except XrpcError InviteCursor :=
  if param.getD [] = [] then .ok ⟨[], 0, []⟩
  else
    match parseCursor sort (param.getD []) with
    | none => .error ⟨400, "InvalidRequest", "malformed cursor"⟩
    | some cursor => .ok cursor

/-! ## The route -/

/-- What `build_invite_code_json` builds. -/
structure InviteCodeJson where
  code : Text
  forAccount : Text
  createdBy : Text
  disabled : Bool
  createdAt : Text
  available : Int
  uses : List (Text × Text)
  deriving DecidableEq

/-- Whether the queries of a request are carried out. -/
structure InviteQueries where
  listed : Bool
  counted : Bool
  usesRead : Text → Bool

/-- All queries are carried out. -/
def InviteQueries.allWell : InviteQueries := ⟨true, true, fun _ => true⟩

/-- `build_invite_code_json`, with the account of the row as `fallback_did`. -/
def buildInviteCodeJson (t : InviteTexts) (calls : InviteQueries) (row : InviteCodeEntry) :
    InviteCodeJson :=
  let uses := if calls.usesRead row.code then t.getInviteCodeUses row.code else []
  { code := row.code
    forAccount := row.forAccount
    createdBy := row.createdBy.getD row.forAccount
    disabled := row.disabled
    createdAt := row.createdAt.text
    available := row.usesRemaining + uses.length
    uses := uses.map fun u => (u.usedBy, u.usedAt) }

/-- What fits `next_cursor[296]`. -/
def nextCursor (primary code : Text) : Text := (primary ++ unitSeparator :: code).take 295

/-- The cursor of a page that ends on the row. -/
def cursorOf (t : InviteTexts) (calls : InviteQueries) (sort : InviteSort)
    (row : InviteCodeEntry) : Text :=
  match sort with
  | .usage =>
    let count := if calls.counted then (t.getInviteCodeUses row.code).length else 0
    nextCursor (cursorText count) row.code
  | .recent => nextCursor row.createdAt.text row.code

/-- The rows of a request, of which one more than the limit is asked for. -/
def listedEntries (t : InviteTexts) (calls : InviteQueries) (sort : InviteSort) (limit : Nat)
    (cursor : InviteCursor) : List InviteCodeEntry :=
  if calls.listed then
    match sort with
    | .usage => t.listInviteCodesByUsage cursor.afterUses cursor.afterCode (limit + 1)
    | .recent => t.listInviteCodes cursor.afterCreatedAt cursor.afterCode (limit + 1)
  else []

/-- The response: one entry more than the limit means that there is a next page. -/
def codesPage (t : InviteTexts) (calls : InviteQueries) (sort : InviteSort) (limit : Nat)
    (cursor : InviteCursor) : Answer InviteCodeJson Text :=
  let entries := listedEntries t calls sort limit cursor
  { rows := (entries.take limit).map (buildInviteCodeJson t calls)
    next :=
      if limit < entries.length then (entries.take limit).getLast?.map (cursorOf t calls sort)
      else none }

/-- `admin_get_invite_codes`, where memory is had. -/
def adminGetInviteCodes (t : InviteTexts) (calls : InviteQueries) (sortParam : Option Text)
    (limitParam : LimitParam) (cursorParam : Option Text) :
    Except XrpcError (Answer InviteCodeJson Text) :=
  let limit := (queryParamInt limitParam 100 1 500).toNat
  match readSort sortParam with
  | .error e => .error e
  | .ok sort =>
    match readCursor sort cursorParam with
    | .error e => .error e
    | .ok cursor => .ok (codesPage t calls sort limit cursor)

/-- The route as a client asks it that follows the cursor. -/
def askCodes (t : InviteTexts) (sortParam : Option Text) (limitParam : LimitParam)
    (cursor : Option Text) : Option (Answer InviteCodeJson Text) :=
  (adminGetInviteCodes t .allWell sortParam limitParam cursor).toOption

/-! ## What is asked of it -/

/-- The order of the sort: the larger key first, and of two with one key the larger code. -/
def ListedBefore (sort : InviteSort) (a b : InviteCodeJson) : Prop :=
  match sort with
  | .recent => b.createdAt < a.createdAt ∨ b.createdAt = a.createdAt ∧ b.code < a.code
  | .usage => b.uses.length < a.uses.length ∨ b.uses.length = a.uses.length ∧ b.code < a.code

/-- Every code once, in the order of the sort. -/
structure ListsCodes (t : InviteTexts) (sort : InviteSort) (given : List InviteCodeJson) :
    Prop where
  every : given.Perm (t.codes.map (buildInviteCodeJson t .allWell))
  inOrder : given.Pairwise (ListedBefore sort)

/-- Following the cursor from the first page comes to an end and gives every code, and no cursor
that was given is refused. -/
structure PagesComplete (t : InviteTexts) (sortParam : Option Text) (sort : InviteSort)
    (limitParam : LimitParam) : Prop where
  accepted : ∀ cursor, Asked (askCodes t sortParam limitParam) cursor →
    ∃ answer, askCodes t sortParam limitParam cursor = some answer
  complete : ∃ turns given,
    follow (askCodes t sortParam limitParam) turns none = some given ∧ ListsCodes t sort given

/-- All codes, in the order of the sort. -/
def InviteTexts.inOrder (t : InviteTexts) (sort : InviteSort) : List InviteCodeEntry :=
  match sort with
  | .recent => selectCodes (fun row => row.createdAt.text) t.codes none t.codes.length
  | .usage => selectCodes t.countUses t.codes none t.codes.length

/-- The cursor of the row can be read back. -/
structure Citable (t : InviteTexts) (sort : InviteSort) (row : InviteCodeEntry) : Prop where
  nonempty : row.code ≠ []
  fits : row.code.length < 256
  few : sort = .usage → t.countUses row ≤ intMax

/-! ## Cursors -/

section Cursors

variable {primary code : Text} {sort : InviteSort}

/-- A cursor with a short first half is cut in the code, if at all. -/
theorem nextCursor_eq (h : primary.length < 40) :
    nextCursor primary code =
      primary ++ unitSeparator :: code.take (294 - primary.length) := by
  obtain ⟨n, hn⟩ : ∃ n, 295 - primary.length = n + 1 := ⟨294 - primary.length, by omega⟩
  have hn' : n = 294 - primary.length := by omega
  rw [nextCursor, List.take_append, List.take_of_length_le (by omega), hn, List.take_succ_cons,
    hn']

/-- What is read of a cursor with a short first half. -/
theorem parseCursor_nextCursor (hsep : unitSeparator ∉ primary) (h : primary.length < 40) :
    parseCursor sort (nextCursor primary code) =
      if 256 ≤ (code.take (294 - primary.length)).length then none
      else
        match sort with
        | .usage =>
          let parsed := CString.strtoll (charsOf primary)
          if primary = [] ∨ parsed.rest ≠ [] ∨ parsed.value < 0 ∨ intMax < parsed.value then none
          else some ⟨[], parsed.value, code.take (294 - primary.length)⟩
        | .recent => some ⟨primary, 0, code.take (294 - primary.length)⟩ := by
  have hcode : (primary ++ unitSeparator :: code.take (294 - primary.length)).drop
      (primary.length + 1) = code.take (294 - primary.length) := by
    rw [List.drop_append, List.drop_eq_nil_of_le (by omega), List.nil_append,
      Nat.add_sub_cancel_left]
    rfl
  have hlong : ¬ 40 ≤ primary.length := by omega
  rw [nextCursor_eq h, parseCursor, if_pos (by simp)]
  dsimp only
  rw [ByteText.takeWhile_ne_of_append hsep, hcode]
  simp only [hlong, false_or]

/-- A long first half is refused. -/
theorem parseCursor_long (hsep : unitSeparator ∉ primary) (h : 40 ≤ primary.length) :
    parseCursor sort (nextCursor primary code) = none := by
  have hpos : ∀ b ∈ primary.take 295, (b ≠ unitSeparator : Bool) = true := by
    intro b hb
    simpa using fun heq : b = unitSeparator => hsep (heq ▸ List.mem_of_mem_take hb)
  have hlength : 40 ≤ ((nextCursor primary code).takeWhile (· ≠ unitSeparator)).length := by
    rw [nextCursor, List.take_append, List.takeWhile_append_of_pos hpos, List.length_append,
      List.length_take]
    omega
  rw [parseCursor]
  dsimp only
  rw [if_pos (Or.inl hlength), ite_self]

/-- A long code is refused. -/
theorem parseCursor_longCode (hsep : unitSeparator ∉ primary) (h : primary.length < 39)
    (hcode : 256 ≤ code.length) : parseCursor sort (nextCursor primary code) = none := by
  rw [parseCursor_nextCursor hsep (by omega), if_pos]
  rw [List.length_take]
  omega

end Cursors

/-! ## Pages -/

section Pages

variable {P : Type} [LinearOrder P] {primary : InviteCodeEntry → P} {rows : List InviteCodeEntry}

theorem sortKey_lt_sortKey {a b : InviteCodeEntry} :
    sortKey primary a < sortKey primary b ↔
      primary b < primary a ∨ primary b = primary a ∧ b.code < a.code := by
  rw [sortKey, sortKey, OrderDual.toDual_lt_toDual, Prod.Lex.toLex_lt_toLex]

/-- The mark of a cursor. -/
def markOf (after : P × Text) : (P ×ₗ Text)ᵒᵈ := .toDual (toLex after)

theorem isAfter_eq (after : P × Text) (row : InviteCodeEntry) :
    isAfter primary after row = decide (markOf after < sortKey primary row) := by
  rw [isAfter, markOf, sortKey, decide_eq_decide, OrderDual.toDual_lt_toDual,
    Prod.Lex.toLex_lt_toLex]

/-- The rows in the order of a query. -/
def sortedCodes (primary : InviteCodeEntry → P) (rows : List InviteCodeEntry) :
    List InviteCodeEntry :=
  rows.mergeSort fun a b => decide (sortKey primary a ≤ sortKey primary b)

omit [LinearOrder P] in
theorem nodup_sortKey (h : (rows.map InviteCodeEntry.code).Nodup) :
    (rows.map (sortKey primary)).Nodup := by
  have hcode : InviteCodeEntry.code = (fun k : (P ×ₗ Text)ᵒᵈ => (ofLex k.ofDual).2) ∘
    sortKey primary := rfl
  rw [hcode, ← List.map_map] at h
  exact h.of_map _

theorem ordered_sortedCodes (h : (rows.map InviteCodeEntry.code).Nodup) :
    Ordered (sortKey primary) (sortedCodes primary rows) :=
  ordered_mergeSort (nodup_sortKey h)

/-- A query gives the first of the rows after its cursor. -/
theorem selectCodes_eq (h : (rows.map InviteCodeEntry.code).Nodup) (after : Option (P × Text))
    (limit : Nat) :
    selectCodes primary rows after limit =
      (rowsAfter (sortKey primary) (sortedCodes primary rows) (after.map markOf)).take limit := by
  have hfilter : (fun row => after.all fun after => isAfter primary after row) =
      fun row => (after.map markOf).all fun m => decide (m < sortKey primary row) := by
    funext row
    cases after with
    | none => rfl
    | some after => exact isAfter_eq after row
  rw [sortedCodes, rowsAfter_mergeSort (nodup_sortKey h), selectCodes, hfilter, rowsAfter]

theorem selectCodes_all (h : (rows.map InviteCodeEntry.code).Nodup) :
    selectCodes primary rows none rows.length = sortedCodes primary rows := by
  rw [selectCodes_eq h, Option.map_none, rowsAfter]
  simp only [Option.all_none, List.filter_true]
  rw [List.take_of_length_le (by rw [sortedCodes, List.length_mergeSort])]

/-- What is answered from the entries of a query is a page of the sorted rows. -/
theorem codesPage_eq {t : InviteTexts} {sort : InviteSort} {limit : Nat} {cursor : InviteCursor}
    {text : (P ×ₗ Text)ᵒᵈ → Text} (after : Option (P × Text))
    (htext : ∀ row, text (sortKey primary row) = cursorOf t .allWell sort row)
    (hentries : listedEntries t .allWell sort limit cursor =
      selectCodes primary t.codes after (limit + 1)) :
    codesPage t .allWell sort limit cursor =
      (pageAfter (sortKey primary) limit (sortedCodes primary t.codes) (after.map markOf)).print
        (buildInviteCodeJson t .allWell) text := by
  rw [selectCodes_eq t.codes_nodup] at hentries
  have htake : (listedEntries t .allWell sort limit cursor).take limit =
      (rowsAfter (sortKey primary) (sortedCodes primary t.codes) (after.map markOf)).take
        limit := by
    rw [hentries, List.take_take, Nat.min_eq_left limit.le_succ]
  have hlength : limit < (listedEntries t .allWell sort limit cursor).length ↔
      limit < (rowsAfter (sortKey primary) (sortedCodes primary t.codes)
        (after.map markOf)).length := by
    rw [hentries, List.length_take]
    omega
  have hcursor : text ∘ sortKey primary = cursorOf t .allWell sort := funext htext
  rw [codesPage, pageAfter, Answer.print, htake, ← hcursor]
  dsimp only
  rw [apply_ite (Option.map text), Option.map_none, Option.map_map]
  simp only [hlength]

end Pages

/-! ## The route -/

section Route

variable {t : InviteTexts} {sort : InviteSort} {sortParam : Option Text} {limitParam : LimitParam}
  {cursorParam : Option Text} {cursor : InviteCursor} {primary code : Text}
  {row : InviteCodeEntry}

theorem askCodes_of_ok (hsort : readSort sortParam = .ok sort)
    (hcursor : readCursor sort cursorParam = .ok cursor) :
    askCodes t sortParam limitParam cursorParam =
      some (codesPage t .allWell sort (queryParamInt limitParam 100 1 500).toNat cursor) := by
  rw [askCodes, adminGetInviteCodes, hsort]
  dsimp only
  rw [hcursor]
  rfl

theorem readCursor_next :
    readCursor sort (some (nextCursor primary code)) =
      match parseCursor sort (nextCursor primary code) with
      | none => .error ⟨400, "InvalidRequest", "malformed cursor"⟩
      | some cursor => .ok cursor := by
  have hne : nextCursor primary code ≠ [] := by
    rw [nextCursor, ne_eq, List.take_eq_nil_iff]
    simp
  rw [readCursor, Option.getD_some, if_neg hne]

theorem askCodes_of_malformed (hsort : readSort sortParam = .ok sort)
    (hparse : parseCursor sort (nextCursor primary code) = none) :
    askCodes t sortParam limitParam (some (nextCursor primary code)) = none := by
  rw [askCodes, adminGetInviteCodes, hsort]
  dsimp only
  rw [readCursor_next, hparse]
  rfl

theorem askCodes_of_parsed (hsort : readSort sortParam = .ok sort)
    (hparse : parseCursor sort (nextCursor primary code) = some cursor) :
    askCodes t sortParam limitParam (some (nextCursor primary code)) =
      some (codesPage t .allWell sort (queryParamInt limitParam 100 1 500).toNat cursor) := by
  refine askCodes_of_ok hsort ?_
  rw [readCursor_next, hparse]

theorem askCodes_first (hsort : readSort sortParam = .ok sort) :
    askCodes t sortParam limitParam none =
      some (codesPage t .allWell sort (queryParamInt limitParam 100 1 500).toNat ⟨[], 0, []⟩) :=
  askCodes_of_ok hsort (if_pos rfl)

/-- The two counts of the uses agree. -/
theorem length_getInviteCodeUses (row : InviteCodeEntry) :
    ((t.getInviteCodeUses row.code).length : Int) = t.countUses row := by
  rw [InviteTexts.getInviteCodeUses, List.length_mergeSort, ← List.countP_eq_length_filter,
    InviteTexts.countUses]

theorem listedEntries_recent (limit : Nat) :
    listedEntries t .allWell .recent limit cursor =
      selectCodes (fun row => row.createdAt.text) t.codes
        (if cursor.afterCreatedAt ≠ [] ∧ cursor.afterCode ≠ [] then
          some (cursor.afterCreatedAt, cursor.afterCode) else none) (limit + 1) := if_pos rfl

theorem listedEntries_usage (limit : Nat) :
    listedEntries t .allWell .usage limit cursor =
      selectCodes t.countUses t.codes
        (if cursor.afterCode ≠ [] then some (cursor.afterUses, cursor.afterCode) else none)
        (limit + 1) := if_pos rfl

/-- An entry list decides the page. -/
theorem codesPage_congr {limit : Nat} {cursor' : InviteCursor}
    (h : listedEntries t .allWell sort limit cursor = listedEntries t .allWell sort limit cursor') :
    codesPage t .allWell sort limit cursor = codesPage t .allWell sort limit cursor' := by
  rw [codesPage, codesPage, h]

/-- The cursor of a mark of the latest codes. -/
def recentCursor (k : (Text ×ₗ Text)ᵒᵈ) : Text := nextCursor (ofLex k.ofDual).1 (ofLex k.ofDual).2

/-- The cursor of a mark of the most used codes. -/
def usageCursor (k : (Int ×ₗ Text)ᵒᵈ) : Text :=
  nextCursor (cursorText (ofLex k.ofDual).1) (ofLex k.ofDual).2

theorem recentCursor_sortKey (t : InviteTexts) (row : InviteCodeEntry) :
    recentCursor (sortKey (fun row => row.createdAt.text) row) =
      cursorOf t .allWell .recent row := rfl

theorem usageCursor_sortKey (t : InviteTexts) (row : InviteCodeEntry) :
    usageCursor (sortKey t.countUses row) = cursorOf t .allWell .usage row := by
  have hcount : cursorOf t .allWell .usage row =
      nextCursor (cursorText (t.getInviteCodeUses row.code).length) row.code := rfl
  rw [hcount, length_getInviteCodeUses]
  rfl

/-- The marks of the latest codes. -/
theorem printsMarks_recent (hsort : readSort sortParam = .ok .recent) :
    PrintsMarks (sortKey fun row => row.createdAt.text)
      (queryParamInt limitParam 100 1 500).toNat
      (sortedCodes (fun row => row.createdAt.text) t.codes) (buildInviteCodeJson t .allWell)
      recentCursor (Citable t .recent) (askCodes t sortParam limitParam) where
  first := by
    rw [askCodes_first hsort, codesPage_eq none (recentCursor_sortKey t)]
    · rfl
    · rw [listedEntries_recent, if_neg (by simp)]
  good row _ hgood := by
    have hlength := row.createdAt.length_text
    have hfits := hgood.fits
    have hparse : parseCursor .recent (nextCursor row.createdAt.text row.code) =
        some ⟨row.createdAt.text, 0, row.code⟩ := by
      rw [parseCursor_nextCursor row.createdAt.not_separator (by omega),
        List.take_of_length_le (by omega), if_neg (by omega)]
    have hcreated : row.createdAt.text ≠ [] := List.ne_nil_of_length_pos (by omega)
    refine (askCodes_of_parsed hsort hparse).trans ?_
    rw [codesPage_eq (some (row.createdAt.text, row.code)) (recentCursor_sortKey t)]
    · rfl
    · rw [listedEntries_recent, if_pos ⟨hcreated, hgood.nonempty⟩]
  bad row _ hbad := by
    have hlength := row.createdAt.length_text
    by_cases hempty : row.code = []
    · right
      have hparse : parseCursor .recent (nextCursor row.createdAt.text row.code) =
          some ⟨row.createdAt.text, 0, []⟩ := by
        rw [hempty, parseCursor_nextCursor row.createdAt.not_separator (by omega), List.take_nil,
          if_neg (by simp)]
      refine (askCodes_of_parsed hsort hparse).trans ?_
      rw [askCodes_first hsort, codesPage_congr]
      rw [listedEntries_recent, listedEntries_recent, if_neg (by simp), if_neg (by simp)]
    · left
      have hlong : 256 ≤ row.code.length := by
        by_contra hshort
        exact hbad ⟨hempty, by omega, nofun⟩
      have hparse : parseCursor .recent (nextCursor row.createdAt.text row.code) = none :=
        parseCursor_longCode row.createdAt.not_separator (by omega) hlong
      exact askCodes_of_malformed hsort hparse

/-- The text of a count is made of digits, and is read as what was counted. -/
theorem countText_cases (n : Nat) : unitSeparator ∉ cursorText n ∧ cursorText n ≠ [] ∧
    CString.strtoll (charsOf (cursorText n)) =
      if (2 ^ 63 - 1 : Int) < n then ⟨2 ^ 63 - 1, [], true⟩ else ⟨n, [], false⟩ := by
  obtain ⟨hchars, hdigits⟩ := @Labels.cursorText_digits n (by omega)
  rw [Int.toNat_natCast] at hchars
  have hd : ∀ c ∈ Nat.toDigits 10 n, c.isDigit = true := fun c hc =>
    Nat.isDigit_of_mem_toDigits (by decide) (by decide) hc
  have hvalue : Nat.ofDigitChars 10 (Nat.toDigits 10 n) 0 = n :=
    Nat.ofDigitChars_toDigits (by decide) (by decide)
  refine ⟨fun hmem => ?_, fun hnil => ?_, ?_⟩
  · have hsep := hdigits _ hmem
    revert hsep
    decide
  · rw [hnil] at hchars
    exact Nat.toDigits_ne_nil hchars.symm
  · rw [hchars, CString.strtoll_natural Nat.toDigits_ne_nil hd, hvalue]

/-- The cursor of a code that is used too often is refused. -/
theorem parseCursor_many {n : Nat} (h : intMax < n) :
    parseCursor .usage (nextCursor (cursorText n) code) = none := by
  obtain ⟨hsep, -, hparsed⟩ := countText_cases n
  by_cases hlong : 40 ≤ (cursorText n).length
  · exact parseCursor_long hsep hlong
  · have hvalue : intMax < (CString.strtoll (charsOf (cursorText n))).value := by
      rw [hparsed]
      split
      · decide
      · exact h
    rw [parseCursor_nextCursor hsep (by omega)]
    dsimp only
    rw [if_pos (Or.inr (Or.inr (Or.inr hvalue))), ite_self]

/-- A count that fits is short. -/
theorem length_cursorText {n : Nat} (h : n ≤ intMax) : (cursorText n).length ≤ 10 := by
  have hchars := (@Labels.cursorText_digits n (by omega)).1
  have hlength := congrArg List.length hchars
  rw [charsOf, List.length_map, Int.toNat_natCast] at hlength
  have hsmall : n < 10 ^ 10 := by
    unfold intMax at h
    omega
  rw [hlength]
  exact (Nat.length_toDigits_le_iff (by decide) (by decide)).mpr hsmall

/-- A count that fits is read back. -/
theorem parseCursor_few {n : Nat} (h : n ≤ intMax) (hcode : code.length < 256) :
    parseCursor .usage (nextCursor (cursorText n) code) = some ⟨[], n, code⟩ := by
  obtain ⟨hsep, hne, hparsed⟩ := countText_cases n
  have hshort := length_cursorText h
  have hlong : ¬ (2 ^ 63 - 1 : Int) < n := by
    unfold intMax at h
    omega
  rw [if_neg hlong] at hparsed
  have hread : ¬ (cursorText n = [] ∨ (CString.strtoll (charsOf (cursorText n))).rest ≠ [] ∨
      (CString.strtoll (charsOf (cursorText n))).value < 0 ∨
      intMax < (CString.strtoll (charsOf (cursorText n))).value) := by
    rw [hparsed]
    rintro (hnil | hrest | hneg | hmany)
    · exact hne hnil
    · exact hrest rfl
    · dsimp only at hneg
      omega
    · exact absurd hmany (not_lt.mpr h)
  rw [parseCursor_nextCursor hsep (by omega), List.take_of_length_le (by omega),
    if_neg (by omega)]
  dsimp only
  rw [if_neg hread, hparsed]

/-- The marks of the most used codes. -/
theorem printsMarks_usage (hsort : readSort sortParam = .ok .usage) :
    PrintsMarks (sortKey t.countUses) (queryParamInt limitParam 100 1 500).toNat
      (sortedCodes t.countUses t.codes) (buildInviteCodeJson t .allWell) usageCursor
      (Citable t .usage) (askCodes t sortParam limitParam) where
  first := by
    rw [askCodes_first hsort, codesPage_eq none (usageCursor_sortKey t)]
    · rfl
    · rw [listedEntries_usage, if_neg (by simp)]
  good row _ hgood := by
    have hparse : parseCursor .usage (nextCursor (cursorText (t.countUses row)) row.code) =
        some ⟨[], t.countUses row, row.code⟩ := parseCursor_few (hgood.few rfl) hgood.fits
    refine (askCodes_of_parsed hsort hparse).trans ?_
    rw [codesPage_eq (some (t.countUses row, row.code)) (usageCursor_sortKey t)]
    · rfl
    · rw [listedEntries_usage, if_pos hgood.nonempty]
  bad row _ hbad := by
    by_cases hmany : intMax < t.countUses row
    · exact Or.inl (askCodes_of_malformed hsort (parseCursor_many hmany))
    by_cases hempty : row.code = []
    · right
      have hparse : parseCursor .usage (nextCursor (cursorText (t.countUses row)) row.code) =
          some ⟨[], t.countUses row, []⟩ := by
        rw [hempty]
        exact parseCursor_few (not_lt.mp hmany) (by simp)
      refine (askCodes_of_parsed hsort hparse).trans ?_
      rw [askCodes_first hsort, codesPage_congr]
      rw [listedEntries_usage, listedEntries_usage, if_neg (by simp), if_neg (by simp)]
    · left
      have hlong : 256 ≤ row.code.length := by
        by_contra hshort
        exact hbad ⟨hempty, by omega, fun _ => not_lt.mp hmany⟩
      have hshort : (cursorText (t.countUses row)).length ≤ 10 := length_cursorText (not_lt.mp hmany)
      have hsep : unitSeparator ∉ cursorText (t.countUses row) := (countText_cases _).1
      have hparse : parseCursor .usage (nextCursor (cursorText (t.countUses row)) row.code) = none :=
        parseCursor_longCode hsep (by omega) hlong
      exact askCodes_of_malformed hsort hparse

/-! ## Every code once -/

/-- The rows of the order, as they are sorted by. -/
theorem inOrder_recent : t.inOrder .recent = sortedCodes (fun row => row.createdAt.text) t.codes :=
  selectCodes_all t.codes_nodup

theorem inOrder_usage : t.inOrder .usage = sortedCodes t.countUses t.codes :=
  selectCodes_all t.codes_nodup

theorem length_uses (row : InviteCodeEntry) :
    ((buildInviteCodeJson t .allWell row).uses.length : Int) = t.countUses row := by
  rw [← length_getInviteCodeUses]
  exact congrArg Nat.cast (List.length_map _)

/-- The rows of the order are listed as they should be. -/
theorem listsCodes_inOrder (t : InviteTexts) (sort : InviteSort) :
    ListsCodes t sort ((t.inOrder sort).map (buildInviteCodeJson t .allWell)) := by
  cases sort with
  | recent =>
    rw [inOrder_recent]
    refine ⟨(List.mergeSort_perm _ _).map _, List.pairwise_map.mpr ?_⟩
    refine (ordered_sortedCodes t.codes_nodup).imp fun {a b} hab => ?_
    exact sortKey_lt_sortKey.mp hab
  | usage =>
    rw [inOrder_usage]
    refine ⟨(List.mergeSort_perm _ _).map _, List.pairwise_map.mpr ?_⟩
    refine (ordered_sortedCodes t.codes_nodup).imp fun {a b} hab => ?_
    have hab := sortKey_lt_sortKey.mp hab
    rw [← length_uses, ← length_uses, Int.ofNat_lt, Int.natCast_inj] at hab
    exact hab

/-- What the two directions rest on: the marks of the order are printed. -/
theorem exists_printsMarks (hsort : readSort sortParam = .ok sort) :
    ∃ (κ : Type) (_ : LinearOrder κ) (key : InviteCodeEntry → κ) (text : κ → Text),
      Ordered key (t.inOrder sort) ∧ PrintsMarks key (queryParamInt limitParam 100 1 500).toNat
        (t.inOrder sort) (buildInviteCodeJson t .allWell) text (Citable t sort)
        (askCodes t sortParam limitParam) := by
  cases sort with
  | recent =>
    rw [inOrder_recent]
    exact ⟨_, _, _, _, ordered_sortedCodes t.codes_nodup, printsMarks_recent hsort⟩
  | usage =>
    rw [inOrder_usage]
    exact ⟨_, _, _, _, ordered_sortedCodes t.codes_nodup, printsMarks_usage hsort⟩

/-- Following the cursor gives every code once, in the order of the sort and to the end, if and
only if the codes on which a page ends, but for the last page, can be read back. -/
theorem adminGetInviteCodes_pages (t : InviteTexts) (sortParam : Option Text) (sort : InviteSort)
    (limitParam : LimitParam) (hsort : readSort sortParam = .ok sort) :
    PagesComplete t sortParam sort limitParam ↔
      EndsGood (queryParamInt limitParam 100 1 500).toNat (t.inOrder sort) (Citable t sort) := by
  obtain ⟨κ, _, key, text, hordered, hprints⟩ := exists_printsMarks (t := t) hsort
  have hlimit : 0 < (queryParamInt limitParam 100 1 500).toNat := by
    have hmem : 1 ≤ queryParamInt limitParam 100 1 500 ∧ queryParamInt limitParam 100 1 500 ≤ 500 :=
      queryParamInt_mem limitParam (by decide) (by decide)
    omega
  constructor
  · rintro ⟨-, turns, given, hend, -⟩
    exact hprints.endsGood_of_follow hordered hlimit hend
  · intro hgood
    obtain ⟨turns, hend⟩ := hprints.follow_eq hordered hlimit hgood
    exact ⟨fun cursor hasked => hprints.asked_answered hordered hlimit hgood hasked,
      turns, _, hend, listsCodes_inOrder t sort⟩

/-- Codes of ordinary length can be read back, all of them. -/
theorem endsGood_of_short (limit : Nat) (hcodes : ∀ row ∈ t.codes, Citable t sort row) :
    EndsGood limit (t.inOrder sort) (Citable t sort) := by
  intro k _ _ row hrow
  have hmem : row ∈ t.inOrder sort := List.mem_of_getElem? hrow
  apply hcodes
  cases sort with
  | recent =>
    rw [inOrder_recent] at hmem
    exact List.mem_mergeSort.mp hmem
  | usage =>
    rw [inOrder_usage] at hmem
    exact List.mem_mergeSort.mp hmem

end Route

/-! ## Two tables -/

/-- A creation time. -/
def exampleStamp : Stamp where
  text := "2026-08-07T00:53:26.000Z".toUTF8.toList
  length_text := by decide +kernel
  not_separator := by decide +kernel

/-- A row of the code. -/
def exampleEntry (code : Text) : InviteCodeEntry :=
  ⟨code, "admin".toUTF8.toList, 1, false, none, exampleStamp⟩

/-- Two codes of one time, the second with a use. -/
def shortCodes : InviteTexts where
  codes := [exampleEntry [98], exampleEntry [97]]
  uses := [⟨[97], "did:web:a".toUTF8.toList, exampleStamp.text⟩]
  codes_nodup := by decide

theorem pages_shortCodes :
    readSort (some usageText) = .ok .usage ∧
      PagesComplete shortCodes (some usageText) .usage (.number 1) := by
  have hsort : readSort (some usageText) = .ok .usage := by decide +kernel
  refine ⟨hsort, (adminGetInviteCodes_pages shortCodes _ _ _ hsort).mpr ?_⟩
  refine endsGood_of_short _ fun row hrow => ?_
  have hrow : row = exampleEntry [98] ∨ row = exampleEntry [97] := by
    simpa [shortCodes] using hrow
  rcases hrow with rfl | rfl
  all_goals exact ⟨by decide, by decide, fun _ => by decide⟩

/-- The first code has 256 bytes. -/
def longCodes : InviteTexts where
  codes := [exampleEntry (List.replicate 256 98), exampleEntry [97]]
  uses := []
  codes_nodup := by decide +kernel

/-- The cursor of the first page is refused. -/
theorem pages_longCodes :
    readSort none = .ok .recent ∧ ¬ PagesComplete longCodes none .recent (.number 1) := by
  have hsort : readSort none = .ok .recent := by decide +kernel
  refine ⟨hsort, ?_⟩
  rintro ⟨-, turns, given, hend, -⟩
  have hsorted : sortedCodes (fun row => row.createdAt.text) longCodes.codes = longCodes.codes := by
    have hlt : sortKey (fun row => row.createdAt.text) (exampleEntry (List.replicate 256 98)) <
        sortKey (fun row => row.createdAt.text) (exampleEntry [97]) := by
      rw [sortKey_lt_sortKey]
      exact Or.inr ⟨rfl, by decide +kernel⟩
    exact List.mergeSort_of_pairwise (List.pairwise_pair.mpr (decide_eq_true hlt.le))
  have hlimit : 0 < (queryParamInt (.number 1) 100 1 500).toNat := by decide
  have hgood := (printsMarks_recent hsort).endsGood_of_follow
    (ordered_sortedCodes longCodes.codes_nodup) hlimit hend
  rw [hsorted] at hgood
  have hfits := (hgood 1 (by decide) (by decide) _ rfl).fits
  revert hfits
  decide +kernel

end MetalBear.Account
