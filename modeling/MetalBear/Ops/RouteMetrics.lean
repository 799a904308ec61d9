import MetalBear.Library.Machine

/-!
# Requests for each route

The table behind `GET /metrics`: a row for each name, and what arrives when there is no room is
counted together. A row is found by the whole name and keeps the first 127 bytes of it, so the
counts are those of the names only while rows are given to names that fit.
-/

namespace MetalBear.Ops

open Machine

/-! ## The code -/

/-- A C string: its bytes before the NUL. -/
abbrev RouteName := List UInt8

/-- `METALBEAR_METRICS_MAX_ROUTES`. -/
def metricsMaxRoutes : Nat := 4096

/-- `route_row`; no count comes near what a `uint64_t` holds. -/
structure RouteRow where
  name : RouteName
  requests : Nat
  errors : Nat
  deriving DecidableEq

/-- The table, with what was counted without a row. -/
structure RouteTable where
  rows : List RouteRow
  capacity : Nat
  overflowRequests : Nat
  overflowErrors : Nat
  deriving DecidableEq

def RouteTable.empty : RouteTable := ⟨[], 0, 0, 0⟩

/-- The arguments of `metalbear_metrics_record_request`, and whether its `realloc` succeeds. -/
structure RequestCall where
  nsid : Option RouteName
  path : Option RouteName
  status : Nat
  reallocs : Bool
  deriving DecidableEq

/-- The name that is counted. -/
def RequestCall.name (call : RequestCall) : RouteName :=
  match call.nsid.filter (· ≠ []) with
  | some nsid => nsid
  | none => (call.path.filter (· ≠ [])).getD "unknown".toUTF8.toList

def RequestCall.isError (call : RequestCall) : Bool := 400 ≤ call.status

/-- One more error. -/
def errorCount (isError : Bool) : Nat := if isError then 1 else 0

/-- One more request in a row. -/
def RouteRow.count (row : RouteRow) (isError : Bool) : RouteRow :=
  { row with requests := row.requests + 1, errors := row.errors + errorCount isError }

/-- The search for a row, and one more request in it. -/
def countFirst (name : RouteName) (isError : Bool) : List RouteRow → Option (List RouteRow)
  | [] => none
  | row :: rows =>
    if row.name = name then some (row.count isError :: rows)
    else (countFirst name isError rows).map (row :: ·)

/-- `grow_routes_locked`: the new capacity, unless it is the old one. -/
def growRoutes (capacity : Nat) (reallocs : Bool) : Option Nat :=
  let newCap := min (if capacity = 0 then 16 else capacity * 2) metricsMaxRoutes
  if newCap ≤ capacity then none else if reallocs then some newCap else none

/-- What `snprintf` leaves in `name`. -/
def rowName (name : RouteName) : RouteName := name.take 127

/-- Whether there is room for one more row: the capacity then. -/
def RouteTable.room (t : RouteTable) (reallocs : Bool) : Option Nat :=
  if t.rows.length = metricsMaxRoutes then none
  else if t.rows.length = t.capacity then growRoutes t.capacity reallocs
  else some t.capacity

/-- `metalbear_metrics_record_request`. -/
def recordRequest (t : RouteTable) (call : RequestCall) : RouteTable :=
  match countFirst call.name call.isError t.rows with
  | some rows => { t with rows := rows }
  | none =>
    match t.room call.reallocs with
    | none =>
      { t with
        overflowRequests := t.overflowRequests + 1
        overflowErrors := t.overflowErrors + errorCount call.isError }
    | some capacity =>
      { t with
        rows := t.rows ++ [⟨rowName call.name, 1, errorCount call.isError⟩]
        capacity := capacity }

/-- The name of what was counted without a row. -/
def otherName : RouteName := "other".toUTF8.toList

/-- `metalbear_metrics_visit_routes`: the rows that are visited, from a copy or under the lock. -/
def visitRoutes (t : RouteTable) : List RouteRow :=
  t.rows ++
    if t.overflowRequests ≠ 0 then [⟨otherName, t.overflowRequests, t.overflowErrors⟩] else []

/-! ## Counting -/

variable {name : RouteName} {isError : Bool} {rows : List RouteRow} {t : RouteTable}
  {call : RequestCall}

theorem countFirst_eq_none : countFirst name isError rows = none ↔
    name ∉ rows.map RouteRow.name := by
  induction rows with
  | nil => simp [countFirst]
  | cons row rows ih =>
    rw [countFirst, List.map_cons, List.mem_cons, not_or]
    by_cases h : row.name = name
    · simp [h]
    · rw [if_neg h, Option.map_eq_none_iff, ih]
      exact ⟨fun hrest => ⟨Ne.symm h, hrest⟩, fun hboth => hboth.2⟩

/-- The row of the name counts one more. -/
def countRow (name : RouteName) (isError : Bool) (row : RouteRow) : RouteRow :=
  if row.name = name then row.count isError else row

@[simp] theorem countRow_name (row : RouteRow) : (countRow name isError row).name = row.name := by
  rw [countRow]
  split <;> rfl

theorem map_countRow_of_notMem (h : name ∉ rows.map RouteRow.name) :
    rows.map (countRow name isError) = rows := by
  refine (List.map_congr_left fun row hrow => ?_).trans (List.map_id rows)
  have hne : row.name ≠ name := fun heq => h (heq ▸ List.mem_map_of_mem hrow)
  rw [countRow, if_neg hne]
  rfl

/-- Where no two rows have one name, it is the row of the name that is found. -/
theorem countFirst_eq_some (hnodup : (rows.map RouteRow.name).Nodup)
    (hmem : name ∈ rows.map RouteRow.name) :
    countFirst name isError rows = some (rows.map (countRow name isError)) := by
  induction rows with
  | nil => cases hmem
  | cons row rows ih =>
    rw [List.map_cons, List.nodup_cons] at hnodup
    rw [countFirst, List.map_cons, countRow]
    by_cases h : row.name = name
    · rw [if_pos h, if_pos h, map_countRow_of_notMem (h ▸ hnodup.1)]
    · rw [if_neg h, if_neg h]
      rw [List.map_cons, List.mem_cons] at hmem
      rw [ih hnodup.2 (hmem.resolve_left (Ne.symm h)), Option.map_some]

/-- A number of the rows grows by what the row of the name grows by. -/
theorem sum_countRow {f : RouteRow → Nat} {n : Nat}
    (hf : ∀ row : RouteRow, f (row.count isError) = f row + n)
    (hnodup : (rows.map RouteRow.name).Nodup) (hmem : name ∈ rows.map RouteRow.name) :
    ((rows.map (countRow name isError)).map f).sum = (rows.map f).sum + n := by
  induction rows with
  | nil => cases hmem
  | cons row rows ih =>
    rw [List.map_cons, List.nodup_cons] at hnodup
    rw [List.map_cons, List.map_cons, List.map_cons, List.sum_cons, List.sum_cons, countRow]
    by_cases h : row.name = name
    · rw [if_pos h, hf, map_countRow_of_notMem (h ▸ hnodup.1)]
      omega
    · rw [if_neg h]
      rw [List.map_cons, List.mem_cons] at hmem
      rw [ih hnodup.2 (hmem.resolve_left (Ne.symm h))]
      omega

/-! ## Runs -/

/-- The table, and the calls so far. -/
structure Recorded where
  table : RouteTable
  calls : List RequestCall

def Recorded.start : Recorded := ⟨RouteTable.empty, []⟩

def Recorded.step (s : Recorded) (call : RequestCall) : Recorded :=
  ⟨recordRequest s.table call, s.calls ++ [call]⟩

/-- How many calls have the name. -/
def requestsOf (calls : List RequestCall) (name : RouteName) : Nat :=
  calls.countP fun call => call.name = name

/-- How many of them are errors. -/
def errorsOf (calls : List RequestCall) (name : RouteName) : Nat :=
  calls.countP fun call => call.name = name ∧ call.isError = true

/-- What is visited is exact: no name twice, in each row the calls with its name, in all rows
together all calls, no more rows than the cap and one, and no two for one route. -/
structure ExactCounts (s : Recorded) : Prop where
  names_nodup : ((visitRoutes s.table).map RouteRow.name).Nodup
  requests_eq : ∀ row ∈ s.table.rows, row.requests = requestsOf s.calls row.name
  errors_eq : ∀ row ∈ s.table.rows, row.errors = errorsOf s.calls row.name
  requests_sum : ((visitRoutes s.table).map RouteRow.requests).sum = s.calls.length
  errors_sum : ((visitRoutes s.table).map RouteRow.errors).sum =
    s.calls.countP fun call => call.isError
  length_le : (visitRoutes s.table).length ≤ metricsMaxRoutes + 1
  one_slot : ∀ call ∈ s.calls,
    s.table.rows.countP (fun row => row.name = rowName call.name) ≤ 1

/-- The condition on a call for a name without a row: a row is given only to a name that fits, that
was not counted without a row before, and that is not the one of what is counted so; and nothing is
counted so while a row has that name. -/
def CountsApart (s : Recorded) (call : RequestCall) : Prop :=
  call.name ∉ s.table.rows.map RouteRow.name →
    match s.table.room call.reallocs with
    | some _ => call.name.length ≤ 127 ∧ (∀ earlier ∈ s.calls, earlier.name ≠ call.name) ∧
        (call.name = otherName → s.table.overflowRequests = 0)
    | none => otherName ∉ s.table.rows.map RouteRow.name

/-- What holds between calls that meet it. -/
structure Recorded.Good (s : Recorded) : Prop where
  names_nodup : (s.table.rows.map RouteRow.name).Nodup
  other_free : s.table.overflowRequests ≠ 0 → otherName ∉ s.table.rows.map RouteRow.name
  requests_eq : ∀ row ∈ s.table.rows, row.requests = requestsOf s.calls row.name
  errors_eq : ∀ row ∈ s.table.rows, row.errors = errorsOf s.calls row.name
  requests_sum : (s.table.rows.map RouteRow.requests).sum + s.table.overflowRequests =
    s.calls.length
  errors_sum : (s.table.rows.map RouteRow.errors).sum + s.table.overflowErrors =
    s.calls.countP fun call => call.isError
  overflow_le : s.table.overflowErrors ≤ s.table.overflowRequests
  length_le : s.table.rows.length ≤ metricsMaxRoutes

variable {s : Recorded} {calls : List RequestCall}

theorem requestsOf_concat : requestsOf (calls ++ [call]) name =
    requestsOf calls name + if call.name = name then 1 else 0 := by
  rw [requestsOf, List.countP_append, List.countP_singleton, requestsOf]
  simp

theorem errorsOf_concat : errorsOf (calls ++ [call]) name =
    errorsOf calls name + if call.name = name then errorCount call.isError else 0 := by
  rw [errorsOf, List.countP_append, List.countP_singleton, errorsOf, errorCount]
  by_cases h : call.name = name <;> simp [h]

theorem countP_isError_concat : (calls ++ [call]).countP (fun call => call.isError) =
    calls.countP (fun call => call.isError) + errorCount call.isError := by
  rw [List.countP_append, List.countP_singleton, errorCount]

theorem good_start : Recorded.start.Good where
  names_nodup := List.nodup_nil
  other_free h := absurd rfl h
  requests_eq := nofun
  errors_eq := nofun
  requests_sum := rfl
  errors_sum := rfl
  overflow_le := Nat.le_refl 0
  length_le := Nat.zero_le _

/-- A name that has a row is counted in it. -/
theorem Recorded.Good.step_mem (h : s.Good) (hmem : call.name ∈ s.table.rows.map RouteRow.name) :
    (s.step call).Good := by
  have htable : (s.step call).table =
      { s.table with rows := s.table.rows.map (countRow call.name call.isError) } := by
    rw [Recorded.step, recordRequest, countFirst_eq_some h.names_nodup hmem]
  have hnames : (s.table.rows.map (countRow call.name call.isError)).map RouteRow.name =
      s.table.rows.map RouteRow.name := by
    rw [List.map_map]
    exact List.map_congr_left fun row _ => countRow_name row
  have hcalls : (s.step call).calls = s.calls ++ [call] := rfl
  have hrow : ∀ row' ∈ (s.step call).table.rows, ∃ row ∈ s.table.rows,
      countRow call.name call.isError row = row' := by
    intro row' hrow'
    rw [htable] at hrow'
    exact List.mem_map.mp hrow'
  refine ⟨?_, ?_, ?_, ?_, ?_, ?_, ?_, ?_⟩
  · rw [htable, hnames]
    exact h.names_nodup
  · rw [htable, hnames]
    exact h.other_free
  · intro row' hrow'
    obtain ⟨row, hmemRow, rfl⟩ := hrow row' hrow'
    rw [hcalls, requestsOf_concat, countRow_name, ← h.requests_eq row hmemRow, countRow]
    by_cases hname : row.name = call.name
    · rw [if_pos hname, if_pos hname.symm, RouteRow.count]
    · rw [if_neg hname, if_neg (Ne.symm hname), Nat.add_zero]
  · intro row' hrow'
    obtain ⟨row, hmemRow, rfl⟩ := hrow row' hrow'
    rw [hcalls, errorsOf_concat, countRow_name, ← h.errors_eq row hmemRow, countRow]
    by_cases hname : row.name = call.name
    · rw [if_pos hname, if_pos hname.symm, RouteRow.count]
    · rw [if_neg hname, if_neg (Ne.symm hname), Nat.add_zero]
  · have hsum := h.requests_sum
    rw [htable, hcalls, sum_countRow (n := 1) (fun row => rfl) h.names_nodup hmem,
      List.length_append, List.length_singleton]
    dsimp only
    omega
  · have hsum := h.errors_sum
    rw [htable, hcalls, countP_isError_concat,
      sum_countRow (n := errorCount call.isError) (fun row => rfl) h.names_nodup hmem]
    dsimp only
    omega
  · rw [htable]
    exact h.overflow_le
  · rw [htable, List.length_map]
    exact h.length_le

/-- What arrives without room is counted with the rest. -/
theorem Recorded.Good.step_overflow (h : s.Good)
    (hmem : call.name ∉ s.table.rows.map RouteRow.name) (hroom : s.table.room call.reallocs = none)
    (hother : otherName ∉ s.table.rows.map RouteRow.name) : (s.step call).Good := by
  have htable : (s.step call).table =
      { s.table with
        overflowRequests := s.table.overflowRequests + 1
        overflowErrors := s.table.overflowErrors + errorCount call.isError } := by
    rw [Recorded.step, recordRequest, countFirst_eq_none.mpr hmem, hroom]
  have hcalls : (s.step call).calls = s.calls ++ [call] := rfl
  have hne : ∀ row ∈ s.table.rows, call.name ≠ row.name := fun row hrow heq =>
    hmem (heq ▸ List.mem_map_of_mem hrow)
  refine ⟨?_, ?_, ?_, ?_, ?_, ?_, ?_, ?_⟩
  · rw [htable]
    exact h.names_nodup
  · rw [htable]
    exact fun _ => hother
  · intro row hrow
    rw [htable] at hrow
    rw [hcalls, requestsOf_concat, if_neg (hne row hrow), h.requests_eq row hrow, Nat.add_zero]
  · intro row hrow
    rw [htable] at hrow
    rw [hcalls, errorsOf_concat, if_neg (hne row hrow), h.errors_eq row hrow, Nat.add_zero]
  · have hsum := h.requests_sum
    rw [htable, hcalls, List.length_append, List.length_singleton]
    dsimp only
    omega
  · have hsum := h.errors_sum
    rw [htable, hcalls, countP_isError_concat]
    dsimp only
    omega
  · have hle := h.overflow_le
    rw [htable, errorCount]
    dsimp only
    split <;> omega
  · rw [htable]
    exact h.length_le

/-- A name that fits is given a row. -/
theorem Recorded.Good.step_row (h : s.Good) (hmem : call.name ∉ s.table.rows.map RouteRow.name)
    {capacity : Nat} (hroom : s.table.room call.reallocs = some capacity)
    (hfits : call.name.length ≤ 127) (hnew : ∀ earlier ∈ s.calls, earlier.name ≠ call.name)
    (hother : call.name = otherName → s.table.overflowRequests = 0) : (s.step call).Good := by
  have hname : rowName call.name = call.name := List.take_of_length_le hfits
  have htable : (s.step call).table =
      { s.table with
        rows := s.table.rows ++ [⟨call.name, 1, errorCount call.isError⟩]
        capacity := capacity } := by
    rw [Recorded.step, recordRequest, countFirst_eq_none.mpr hmem, hroom]
    simp only [hname]
  have hcalls : (s.step call).calls = s.calls ++ [call] := rfl
  have hne : ∀ row ∈ s.table.rows, call.name ≠ row.name := fun row hrow heq =>
    hmem (heq ▸ List.mem_map_of_mem hrow)
  have hlength : s.table.rows.length ≠ metricsMaxRoutes := by
    intro hfull
    rw [RouteTable.room, if_pos hfull] at hroom
    cases hroom
  have hrequests : requestsOf s.calls call.name = 0 :=
    List.countP_eq_zero.mpr fun earlier hearlier => by simpa using hnew earlier hearlier
  have herrors : errorsOf s.calls call.name = 0 :=
    List.countP_eq_zero.mpr fun earlier hearlier => by simp [hnew earlier hearlier]
  refine ⟨?_, ?_, ?_, ?_, ?_, ?_, ?_, ?_⟩
  · rw [htable, List.map_append, List.map_singleton, ← List.concat_eq_append]
    exact h.names_nodup.concat hmem
  · rw [htable]
    dsimp only
    intro hoverflow hin
    rw [List.map_append, List.mem_append, List.map_singleton, List.mem_singleton] at hin
    rcases hin with hin | heq
    · exact h.other_free hoverflow hin
    · exact hoverflow (hother heq.symm)
  · intro row hrow
    rw [htable, List.mem_append, List.mem_singleton] at hrow
    rw [hcalls, requestsOf_concat]
    rcases hrow with hrow | rfl
    · rw [if_neg (hne row hrow), h.requests_eq row hrow, Nat.add_zero]
    · rw [if_pos rfl, hrequests]
  · intro row hrow
    rw [htable, List.mem_append, List.mem_singleton] at hrow
    rw [hcalls, errorsOf_concat]
    rcases hrow with hrow | rfl
    · rw [if_neg (hne row hrow), h.errors_eq row hrow, Nat.add_zero]
    · rw [if_pos rfl, herrors, Nat.zero_add]
  · have hsum := h.requests_sum
    rw [htable, hcalls, List.length_append, List.length_singleton]
    simp only [List.map_append, List.sum_append, List.map_singleton, List.sum_singleton]
    omega
  · have hsum := h.errors_sum
    rw [htable, hcalls, countP_isError_concat]
    simp only [List.map_append, List.sum_append, List.map_singleton, List.sum_singleton]
    omega
  · have hle := h.overflow_le
    rw [htable]
    exact hle
  · have hle := h.length_le
    rw [htable, List.length_append, List.length_singleton]
    omega

theorem Recorded.Good.step (h : s.Good) (hcall : CountsApart s call) : (s.step call).Good := by
  by_cases hmem : call.name ∈ s.table.rows.map RouteRow.name
  · exact h.step_mem hmem
  · have hcall := hcall hmem
    cases hroom : s.table.room call.reallocs with
    | none =>
      rw [hroom] at hcall
      exact h.step_overflow hmem hroom hcall
    | some capacity =>
      rw [hroom] at hcall
      exact h.step_row hmem hroom hcall.1 hcall.2.1 hcall.2.2

theorem Recorded.Good.exactCounts (h : s.Good) : ExactCounts s := by
  have hrequests := h.requests_sum
  have herrors := h.errors_sum
  have hoverflow := h.overflow_le
  have hlength := h.length_le
  refine ⟨?_, h.requests_eq, h.errors_eq, ?_, ?_, ?_, fun call _ => ?_⟩
  · rw [visitRoutes, List.map_append]
    split
    · next hne =>
      rw [List.map_singleton, ← List.concat_eq_append]
      exact h.names_nodup.concat (h.other_free hne)
    · rw [List.map_nil, List.append_nil]
      exact h.names_nodup
  · rw [visitRoutes, List.map_append, List.sum_append]
    split
    · rw [List.map_singleton, List.sum_singleton]
      exact hrequests
    · rw [List.map_nil, List.sum_nil]
      omega
  · rw [visitRoutes, List.map_append, List.sum_append]
    split
    · rw [List.map_singleton, List.sum_singleton]
      exact herrors
    · rw [List.map_nil, List.sum_nil]
      omega
  · rw [visitRoutes, List.length_append]
    split
    · rw [List.length_singleton]
      omega
    · rw [List.length_nil]
      omega
  · have hcount := List.nodup_iff_count_le_one.mp h.names_nodup (rowName call.name)
    rw [List.count, List.countP_map] at hcount
    refine le_trans (le_of_eq (List.countP_congr fun row _ => ?_)) hcount
    simp

/-- In every run in which rows are given to names that fit, and to none after it was counted
without one, what is visited is exact after every call. -/
theorem routeCounts_exact (run : List RequestCall)
    (h : Steps Recorded.step CountsApart Recorded.start run) :
    States Recorded.step ExactCounts Recorded.start run :=
  (states_of_steps good_start (fun _ _ hgood hcall => hgood.step hcall) h).imp
    fun _ hgood => hgood.exactCounts

/-- A call for a name of 128 bytes. -/
def longCall : RequestCall := ⟨some (List.replicate 128 97), none, 200, true⟩

/-- The second call for a long name does not find the row of the first: two rows have the name that
fits. -/
theorem long_name_has_two_rows : ¬ States Recorded.step ExactCounts Recorded.start
    [longCall, longCall] := by
  intro h
  have hexact : ExactCounts ((Recorded.start.step longCall).step longCall) := h.2.2
  have hrows : ((visitRoutes ((Recorded.start.step longCall).step longCall).table).map
      RouteRow.name) = [List.replicate 127 97, List.replicate 127 97] := by decide +kernel
  have hnodup := hexact.names_nodup
  rw [hrows] at hnodup
  simp at hnodup

theorem routeCounts_exact_two : States Recorded.step ExactCounts Recorded.start
    [⟨some [97], none, 200, true⟩, ⟨some [97], none, 500, true⟩] :=
  routeCounts_exact _
    ⟨fun _ => ⟨by decide, nofun, fun _ => rfl⟩, fun h => absurd (by decide +kernel) h, trivial⟩

end MetalBear.Ops
