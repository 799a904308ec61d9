import MetalBear.Appview.ReadAfterWrite
import MetalBear.Library.Machine
import MetalBear.Server.Takedown
import MetalBear.Sync.ListRepos

/-!
# Preferences

The preferences of an account are one JSON text, which every put replaces. A session without full
access is shown the list without the personal details and may not put them, so that what such a
session puts takes the place of what it was not shown.
-/

namespace MetalBear.Account

open Appview (JsonText modifyItem modifyMember)
open Machine OAuth Server
open Sync (XrpcError)

/-! ## The code -/

/-- A request of `getPreferences` or `putPreferences`; no body is an empty one. -/
structure PrefsRequest where
  principalKind : PrincipalKind
  authHeader : Option String
  /-- The string parameter `did`. -/
  did : Option String
  body : List UInt8

/-- What the outside decides: the time, whether the account of the request is found, and whether
the row is selected, copied and written. -/
structure PrefsOutcomes where
  now : Int
  opens : Bool
  selects : Bool
  copies : Bool
  writes : Bool

/-- `PERSONAL_DETAILS_PREF_TYPE`. -/
def personalDetailsPrefType : String := "app.bsky.actor.defs.personalDetailsPref"

/-- `DECLARED_AGE_PREF_TYPE`. -/
def declaredAgePrefType : String := "app.bsky.actor.defs.declaredAgePref"

/-- `request_has_access_full`. -/
def requestHasAccessFull (lib : TokenLibrary) (store : AuthStore) (now : Int)
    (request : PrefsRequest) : Bool :=
  request.principalKind = .service ||
    (bearerToken request.authHeader).any fun provided =>
      (authVerifyAccessScope lib store now provided).toOption = some .full

/-- `pref_is_type`. -/
def prefIsType (type : String) (pref : Json) : Bool := pref.getString "$type" = some type

/-- The loop that detaches the items of a type from an array. -/
def dropPrefs (type : String) : Json → Json
  | .array items => .array (items.filter fun item => !prefIsType type item)
  | j => j

/-- The object with the preferences of a type detached. -/
def withoutPrefs (type : String) (root : Json) : Json :=
  modifyItem "preferences" (dropPrefs type) root

/-- No preferences. -/
def emptyPreferences : Json := .object [("preferences", .array [])]

/-- The text that stands for no row. -/
def emptyPreferencesText : String := "\x7b\"preferences\":[]\x7d"

/-- `metalbear_account_store_prefs_get`. -/
def prefsGet (row : Option String) (o : PrefsOutcomes) : Option String :=
  if o.copies then some (if o.selects then row.getD emptyPreferencesText else emptyPreferencesText)
  else none

/-- What is read of a text of the store, if there is one. -/
def readPreferences (text : JsonText) (json : Option String) : Json :=
  (json.bind text.parse).getD emptyPreferences

/-- `get_actor_preferences`. -/
def getActorPreferences (lib : TokenLibrary) (text : JsonText) (store : AuthStore)
    (row : Option String) (request : PrefsRequest) (o : PrefsOutcomes) : Except XrpcError Json :=
  if request.principalKind = .service ∧ ¬ startsWith "did:" (request.did.getD "") then
    .error ⟨400, "InvalidRequest", "Invalid or missing did parameter"⟩
  else if o.opens = false then
    .error (if request.principalKind = .service then ⟨400, "NotFound", "Repo not found"⟩
      else ⟨401, "InvalidToken", "Invalid access token"⟩)
  else
    let root := readPreferences text (prefsGet row o)
    .ok (if requestHasAccessFull lib store o.now request then root
      else withoutPrefs personalDetailsPrefType root)

/-- `put_actor_preferences`: the text that `metalbear_account_store_prefs_put` stores. -/
def putActorPreferences (lib : TokenLibrary) (text : JsonText) (store : AuthStore)
    (request : PrefsRequest) (o : PrefsOutcomes) : Except XrpcError String :=
  if o.opens = false then .error ⟨401, "InvalidToken", "Invalid access token"⟩
  else if request.body = [] then .error ⟨400, "InvalidRequest", "empty body"⟩
  else
    match lib.parseJson request.body with
    | none => .error ⟨400, "InvalidRequest", "invalid JSON"⟩
    | some parsed =>
      match (parsed.getObjectItem "preferences").bind Json.items? with
      | none => .error ⟨400, "InvalidRequest", "preferences must be an array"⟩
      | some prefs =>
        if requestHasAccessFull lib store o.now request = false ∧
            prefs.any (prefIsType personalDetailsPrefType) then
          .error ⟨400, "InvalidRequest",
            "Do not have authorization to set preferences: " ++ personalDetailsPrefType⟩
        else
          match text.print (withoutPrefs declaredAgePrefType parsed) with
          | none => .error ⟨500, "InternalError", "allocation failed"⟩
          | some body =>
            if o.writes then .ok body
            else .error ⟨500, "InternalError", "failed to store preferences"⟩

/-! ## Runs -/

/-- The row of an account, with what was put: the personal details that were last written with full
access, and the object that was last put. -/
structure Preferences where
  row : Option String
  details : List Json
  lastPut : Option Json

/-- A call for the account. -/
inductive PrefsCall where
  | get (request : PrefsRequest) (o : PrefsOutcomes)
  | put (request : PrefsRequest) (o : PrefsOutcomes)

/-- The lists of an object: the arrays among its members of that name, of which there should be
one. -/
def prefLists : Json → List (List Json)
  | .object members => (members.filter fun m => m.1 == "preferences").filterMap fun m => m.2.items?
  | _ => []

/-- The preferences of a type. -/
def prefsOfType (type : String) (root : Json) : List Json :=
  (prefLists root).flatten.filter (prefIsType type)

/-- What is stored. -/
def Preferences.stored (text : JsonText) (s : Preferences) : Json :=
  readPreferences text (some (s.row.getD emptyPreferencesText))

def Preferences.start : Preferences := ⟨none, [], none⟩

def Preferences.step (lib : TokenLibrary) (text : JsonText) (store : AuthStore) (s : Preferences) :
    PrefsCall → Preferences
  | .get _ _ => s
  | .put request o =>
    match putActorPreferences lib text store request o with
    | .error _ => s
    | .ok data =>
      { row := some data
        details :=
          if requestHasAccessFull lib store o.now request then
            ((lib.parseJson request.body).map (prefsOfType personalDetailsPrefType)).getD []
          else s.details
        lastPut := lib.parseJson request.body }

/-- A call tells the truth and keeps what it must. A session without full access is shown no
personal details and changes none; one with full access is shown those that were last written with
full access, in exactly the object that was last put but for the declared age, of which none is
stored. -/
def PrefsLens (lib : TokenLibrary) (text : JsonText) (store : AuthStore) (s : Preferences) :
    PrefsCall → Prop
  | .get request o =>
    ∀ root, getActorPreferences lib text store s.row request o = .ok root →
      if requestHasAccessFull lib store o.now request then
        prefsOfType personalDetailsPrefType root = s.details ∧
          ∀ put, s.lastPut = some put → root = withoutPrefs declaredAgePrefType put
      else prefsOfType personalDetailsPrefType root = []
  | .put request o =>
    let after := s.step lib text store (.put request o)
    prefsOfType declaredAgePrefType (after.stored text) = [] ∧
      (requestHasAccessFull lib store o.now request = false →
        prefsOfType personalDetailsPrefType (after.stored text) =
          prefsOfType personalDetailsPrefType (s.stored text))

/-- The condition on a call: with full access, the row is read; and a list that is not refused for
its personal details is put with full access or where no personal details are stored, stands in an
object that has no second list with personal details or a declared age, and has only numbers that
are read back as they were. -/
def PutsApart (lib : TokenLibrary) (text : JsonText) (store : AuthStore) (number : Double → Json)
    (s : Preferences) : PrefsCall → Prop
  | .get request o =>
    requestHasAccessFull lib store o.now request = true → o.selects = true ∧ o.copies = true
  | .put request o =>
    o.opens = true → o.writes = true → ∀ parsed prefs, lib.parseJson request.body = some parsed →
      parsed.getObjectItem "preferences" = some (.array prefs) →
      (requestHasAccessFull lib store o.now request = false ∧
        prefs.any (prefIsType personalDetailsPrefType) = true) ∨
      (requestHasAccessFull lib store o.now request = true ∨
        prefsOfType personalDetailsPrefType (s.stored text) = []) ∧
      (∀ list ∈ (prefLists parsed).tail, ∀ pref ∈ list,
        prefIsType personalDetailsPrefType pref = false ∧
          prefIsType declaredAgePrefType pref = false) ∧
      parsed.reread number = parsed

/-- What is relied on of the texts: the text of no preferences is read, and so is what was parsed,
had items taken out and was printed, when its numbers are read back as they were. -/
structure ReadsBodies (lib : TokenLibrary) (text : JsonText) (number : Double → Json) : Prop where
  empty : text.parse emptyPreferencesText = some emptyPreferences
  reads : ∀ body parsed type s, lib.parseJson body = some parsed →
    parsed.reread number = parsed → text.print (withoutPrefs type parsed) = some s →
    text.parse s = some (withoutPrefs type parsed)

/-! ## Lists and their types -/

variable {lib : TokenLibrary} {text : JsonText} {store : AuthStore} {number : Double → Json}
  {type other : String} {root : Json} {prefs : List Json} {s : Preferences}
  {request : PrefsRequest} {o : PrefsOutcomes}

theorem prefLists_members {members : List (String × Json)}
    (h : (Json.object members).getObjectItem "preferences" = some (.array prefs)) :
    prefLists (.object members) = prefs :: (prefLists (.object members)).tail ∧
      prefLists (withoutPrefs type (.object members)) =
        prefs.filter (fun pref => !prefIsType type pref) ::
          (prefLists (.object members)).tail := by
  induction members with
  | nil => cases h
  | cons m members ih =>
    rw [Json.getObjectItem_object, List.find?_cons] at h
    cases hname : m.1 == "preferences" with
    | true =>
      rw [hname] at h
      have hitem : m.2 = .array prefs := Option.some.inj h
      simp [prefLists, withoutPrefs, modifyItem, modifyMember, hname, hitem, dropPrefs, Json.items?]
    | false =>
      rw [hname] at h
      simpa [prefLists, withoutPrefs, modifyItem, modifyMember, hname] using ih h

/-- The first list is the one that is looked up, and the one that items are detached from. -/
theorem prefLists_of_item (h : root.getObjectItem "preferences" = some (.array prefs)) :
    prefLists root = prefs :: (prefLists root).tail ∧
      prefLists (withoutPrefs type root) =
        prefs.filter (fun pref => !prefIsType type pref) :: (prefLists root).tail := by
  cases root with
  | object members => exact prefLists_members h
  | _ => cases h

/-- No list after the first has a preference of the type. -/
def OnlyFirst (type : String) (root : Json) : Prop :=
  ∀ list ∈ (prefLists root).tail, ∀ pref ∈ list, prefIsType type pref = false

theorem OnlyFirst.prefsOfType_eq_nil (hfirst : OnlyFirst type root)
    (h : root.getObjectItem "preferences" = some (.array prefs)) :
    prefsOfType type (withoutPrefs type root) = [] := by
  rw [prefsOfType, (prefLists_of_item h).2, List.filter_eq_nil_iff]
  intro pref hpref
  rw [List.flatten_cons, List.mem_append, List.mem_filter, List.mem_flatten] at hpref
  rcases hpref with ⟨-, hkept⟩ | ⟨list, hlist, hpref⟩
  · simpa using hkept
  · simp [hfirst list hlist pref hpref]

/-- No preference is of two types. -/
theorem prefIsType_unique {pref : Json} (hne : type ≠ other) (h : prefIsType type pref = true) :
    prefIsType other pref = false := by
  simp only [prefIsType, decide_eq_true_eq, decide_eq_false_iff_not] at h ⊢
  rw [h, Option.some.injEq]
  exact hne

/-- What is detached is of no other type. -/
theorem prefsOfType_withoutPrefs (hne : type ≠ other)
    (h : root.getObjectItem "preferences" = some (.array prefs)) :
    prefsOfType type (withoutPrefs other root) = prefsOfType type root := by
  have hkept : (prefs.filter fun pref => !prefIsType other pref).filter (prefIsType type) =
      prefs.filter (prefIsType type) := by
    rw [List.filter_filter]
    refine List.filter_congr fun pref _ => ?_
    cases htype : prefIsType type pref with
    | true => rw [prefIsType_unique hne htype, Bool.not_false, Bool.and_true]
    | false => rw [Bool.false_and]
  rw [prefsOfType, prefsOfType, (@prefLists_of_item other _ _ h).2, List.flatten_cons,
    List.filter_append, hkept, ← List.filter_append, ← List.flatten_cons,
    ← (@prefLists_of_item other _ _ h).1]

theorem withoutPrefs_item (h : root.getObjectItem "preferences" = some (.array prefs)) :
    (withoutPrefs type root).getObjectItem "preferences" =
      some (.array (prefs.filter fun pref => !prefIsType type pref)) := by
  cases root with
  | object members =>
    induction members with
    | nil => cases h
    | cons m members ih =>
      rw [Json.getObjectItem_object, List.find?_cons] at h
      cases hname : m.1 == "preferences" with
      | true =>
        rw [hname] at h
        have hitem : m.2 = .array prefs := Option.some.inj h
        simp [withoutPrefs, modifyItem, modifyMember, hname, hitem, dropPrefs]
      | false =>
        rw [hname] at h
        simpa [withoutPrefs, modifyItem, modifyMember, hname] using ih h
  | _ => cases h

/-! ## What a call does -/

theorem items?_eq_some {j : Json} (h : j.items? = some prefs) : j = .array prefs := by
  cases j with
  | array items => rw [Option.some.inj h]
  | _ => cases h

/-- What is stored was parsed, has a list, and may be put by the session. -/
theorem putActorPreferences_ok {data : String}
    (h : putActorPreferences lib text store request o = .ok data) :
    o.opens = true ∧ o.writes = true ∧ ∃ parsed prefs, lib.parseJson request.body = some parsed ∧
      parsed.getObjectItem "preferences" = some (.array prefs) ∧
      ¬ (requestHasAccessFull lib store o.now request = false ∧
        prefs.any (prefIsType personalDetailsPrefType) = true) ∧
      text.print (withoutPrefs declaredAgePrefType parsed) = some data := by
  rw [putActorPreferences] at h
  split at h
  · cases h
  · next hopens =>
    split at h
    · cases h
    · split at h
      · cases h
      · next parsed hparsed =>
        split at h
        · cases h
        · next prefs hprefs =>
          obtain ⟨item, hitem, hitems⟩ := Option.bind_eq_some_iff.mp hprefs
          split at h
          · cases h
          · next hmay =>
            split at h
            · cases h
            · next body hprint =>
              split at h
              · next hwrites =>
                cases h
                exact ⟨by simpa using hopens, hwrites, parsed, prefs, hparsed,
                  hitem.trans (congrArg some (items?_eq_some hitems)), hmay, hprint⟩
              · cases h

theorem putActorPreferences_eq_ok {data : String} {parsed : Json} (hopens : o.opens = true)
    (hwrites : o.writes = true) (hbody : request.body ≠ [])
    (hparsed : lib.parseJson request.body = some parsed)
    (hprefs : parsed.getObjectItem "preferences" = some (.array prefs))
    (hmay : ¬ (requestHasAccessFull lib store o.now request = false ∧
      prefs.any (prefIsType personalDetailsPrefType) = true))
    (hprint : text.print (withoutPrefs declaredAgePrefType parsed) = some data) :
    putActorPreferences lib text store request o = .ok data := by
  rw [putActorPreferences, if_neg (by simp [hopens]), if_neg hbody, hparsed]
  simp only [hprefs, Option.bind_some, Json.items?]
  rw [if_neg hmay, hprint]
  exact if_pos hwrites

/-- What a session is shown. -/
theorem getActorPreferences_ok {row : Option String}
    (h : getActorPreferences lib text store row request o = .ok root) :
    root = if requestHasAccessFull lib store o.now request then
        readPreferences text (prefsGet row o)
      else withoutPrefs personalDetailsPrefType (readPreferences text (prefsGet row o)) := by
  rw [getActorPreferences] at h
  split at h
  · cases h
  · split at h
    · cases h
    · exact (Except.ok.inj h).symm

/-- What is read is what is stored or nothing. -/
theorem readPreferences_get (hlib : ReadsBodies lib text number) :
    readPreferences text (prefsGet s.row o) = s.stored text ∨
      readPreferences text (prefsGet s.row o) = emptyPreferences := by
  rw [prefsGet, Preferences.stored]
  split
  · split
    · exact Or.inl rfl
    · exact Or.inr (by rw [readPreferences, Option.bind_some, hlib.empty, Option.getD_some])
  · exact Or.inr rfl

/-! ## What holds between calls -/

/-- What is stored has a list, the personal details that were last written with full access and no
declared age; and it is what was last put. -/
structure Preferences.Good (text : JsonText) (s : Preferences) : Prop where
  list : ∃ prefs, (s.stored text).getObjectItem "preferences" = some (.array prefs)
  details : prefsOfType personalDetailsPrefType (s.stored text) = s.details
  age : prefsOfType declaredAgePrefType (s.stored text) = []
  first : OnlyFirst personalDetailsPrefType (s.stored text)
  lastPut : ∀ put, s.lastPut = some put → s.stored text = withoutPrefs declaredAgePrefType put

theorem Preferences.good_start (hlib : ReadsBodies lib text number) :
    Preferences.start.Good text := by
  have hstored : Preferences.start.stored text = emptyPreferences := by
    rw [Preferences.stored, Preferences.start, Option.getD_none, readPreferences,
      Option.bind_some, hlib.empty, Option.getD_some]
  refine ⟨?_, ?_, ?_, ?_, nofun⟩
  · rw [hstored]
    exact ⟨[], rfl⟩
  · rw [hstored]
    rfl
  · rw [hstored]
    rfl
  · rw [hstored]
    exact nofun

theorem personalDetails_ne_declaredAge : personalDetailsPrefType ≠ declaredAgePrefType := by
  decide

/-- A put that gets through stores what was parsed, less the declared age. -/
theorem stored_put (hlib : ReadsBodies lib text number) {data : String} {parsed : Json}
    (hparsed : lib.parseJson request.body = some parsed) (hnumbers : parsed.reread number = parsed)
    (hprint : text.print (withoutPrefs declaredAgePrefType parsed) = some data)
    (hput : putActorPreferences lib text store request o = .ok data) :
    (s.step lib text store (.put request o)).stored text =
      withoutPrefs declaredAgePrefType parsed := by
  rw [Preferences.step, hput, Preferences.stored, Option.getD_some, readPreferences,
    Option.bind_some, hlib.reads _ _ _ _ hparsed hnumbers hprint, Option.getD_some]

/-- A session without full access puts no personal details where none are stored. -/
theorem prefsOfType_eq_nil_of_not_any (h : root.getObjectItem "preferences" = some (.array prefs))
    (hnone : prefs.any (prefIsType type) = false) (hfirst : OnlyFirst type root) :
    prefsOfType type root = [] := by
  rw [prefsOfType, (@prefLists_of_item type _ _ h).1, List.filter_eq_nil_iff]
  intro pref hpref
  rw [List.flatten_cons, List.mem_append, List.mem_flatten] at hpref
  rcases hpref with hpref | ⟨list, hlist, hpref⟩
  · exact List.any_eq_false.mp hnone pref hpref
  · simp [hfirst list hlist pref hpref]

theorem OnlyFirst.withoutPrefs (hfirst : OnlyFirst type root)
    (h : root.getObjectItem "preferences" = some (.array prefs)) :
    OnlyFirst type (withoutPrefs other root) := by
  intro list hlist
  rw [(prefLists_of_item h).2, List.tail_cons] at hlist
  exact hfirst list hlist

theorem Preferences.Good.step (hlib : ReadsBodies lib text number) (h : s.Good text)
    {call : PrefsCall} (hcall : PutsApart lib text store number s call) :
    (s.step lib text store call).Good text := by
  cases call with
  | get request o => exact h
  | put request o =>
    cases hput : putActorPreferences lib text store request o with
    | error e =>
      rw [Preferences.step, hput]
      exact h
    | ok data =>
      obtain ⟨hopens, hwrites, parsed, prefs, hparsed, hprefs, hmay, hprint⟩ :=
        putActorPreferences_ok hput
      obtain ⟨hsession, hlater, hnumbers⟩ :=
        (hcall hopens hwrites parsed prefs hparsed hprefs).resolve_left hmay
      have hstored := stored_put (s := s) hlib hparsed hnumbers hprint hput
      have hpersonal : OnlyFirst personalDetailsPrefType parsed := fun list hlist pref hpref =>
        (hlater list hlist pref hpref).1
      have hage : OnlyFirst declaredAgePrefType parsed := fun list hlist pref hpref =>
        (hlater list hlist pref hpref).2
      refine ⟨?_, ?_, ?_, ?_, ?_⟩
      · rw [hstored]
        exact ⟨_, withoutPrefs_item hprefs⟩
      · rw [hstored, prefsOfType_withoutPrefs personalDetails_ne_declaredAge hprefs,
          Preferences.step, hput]
        cases hfull : requestHasAccessFull lib store o.now request with
        | true => simp [hparsed]
        | false =>
          rw [hfull] at hsession hmay
          have hnone : prefsOfType personalDetailsPrefType (s.stored text) = [] :=
            hsession.resolve_left Bool.false_ne_true
          have hany : prefs.any (prefIsType personalDetailsPrefType) = false := by
            simpa using hmay
          rw [prefsOfType_eq_nil_of_not_any hprefs hany hpersonal]
          simp [← h.details, hnone]
      · rw [hstored]
        exact hage.prefsOfType_eq_nil hprefs
      · rw [hstored]
        exact hpersonal.withoutPrefs hprefs
      · intro put hlast
        rw [Preferences.step, hput] at hlast
        obtain rfl : parsed = put := Option.some.inj (hparsed.symm.trans hlast)
        exact hstored

/-- Between calls that meet the condition, every call tells the truth. -/
theorem Preferences.Good.lens (hlib : ReadsBodies lib text number) (h : s.Good text)
    {call : PrefsCall} (hcall : PutsApart lib text store number s call) :
    PrefsLens lib text store s call := by
  cases call with
  | get request o =>
    intro root hroot
    have hshown := getActorPreferences_ok hroot
    cases hfull : requestHasAccessFull lib store o.now request with
    | true =>
      rw [hfull, if_pos rfl] at hshown
      obtain ⟨hselects, hcopies⟩ := hcall hfull
      have hstored : root = s.stored text := by
        rw [hshown, prefsGet, if_pos hcopies, if_pos hselects, Preferences.stored]
      rw [if_pos rfl, hstored]
      exact ⟨h.details, h.lastPut⟩
    | false =>
      rw [hfull, if_neg Bool.false_ne_true] at hshown
      rw [if_neg Bool.false_ne_true, hshown]
      rcases readPreferences_get (s := s) (o := o) hlib with hread | hread
      · obtain ⟨prefs, hprefs⟩ := h.list
        rw [hread]
        exact h.first.prefsOfType_eq_nil hprefs
      · rw [hread]
        rfl
  | put request o =>
    have hafter := h.step hlib hcall
    refine ⟨hafter.age, fun hfull => ?_⟩
    rw [hafter.details, h.details, Preferences.step]
    cases hput : putActorPreferences lib text store request o with
    | error e => rfl
    | ok data => simp [hfull]

/-- In every run of calls that meet the condition, every call tells the truth and keeps what it
must. -/
theorem preferences_lens (hlib : ReadsBodies lib text number) (run : List PrefsCall)
    (h : Steps (Preferences.step lib text store) (PutsApart lib text store number)
      Preferences.start run) :
    Steps (Preferences.step lib text store) (PrefsLens lib text store) Preferences.start run :=
  Steps.imp (Preferences.good_start hlib) (fun _ _ hgood hcall => hgood.lens hlib hcall)
    (fun _ _ hgood hcall => hgood.step hlib hcall) h

section Example

def fullHeader : String := "\x7b\"alg\":\"HS256\",\"typ\":\"at+jwt\"\x7d"

def fullPayload : String :=
  "\x7b\"scope\":\"com.atproto.access\",\"aud\":\"did:web:pds.test\"," ++
    "\"sub\":\"did:plc:alice\",\"iat\":1700000000,\"exp\":1700007200\x7d"

/-- The access token of a session with full access. -/
def fullToken : String :=
  "eyJhbGciOiJIUzI1NiIsInR5cCI6ImF0K2p3dCJ9.eyJzY29wZSI6ImNvbS5hdHByb3RvLmFjY2VzcyIs" ++
    "ImF1ZCI6ImRpZDp3ZWI6cGRzLnRlc3QiLCJzdWIiOiJkaWQ6cGxjOmFsaWNlIiwiaWF0IjoxNzAwMDAw" ++
    "MDAwLCJleHAiOjE3MDAwMDcyMDB9.BK99ozSt1CXkXa0P0fguYAd4pH2dyXs4PIOzQfwzf8I"

/-- One preference, the personal details. -/
def detailsPreferences : Json :=
  .object [("preferences", .array [.object [("$type", .string personalDetailsPrefType)]])]

def detailsText : String :=
  "\x7b\"preferences\":[\x7b\"$type\":\"app.bsky.actor.defs.personalDetailsPref\"\x7d]\x7d"

/-- The library on the one token and the two bodies. -/
def prefsLibrary : TokenLibrary where
  hmacSha256 _ _ := [
    4, 175, 125, 163, 52, 173, 212, 37, 228, 93, 173, 15, 209, 248, 46, 96, 7, 120, 164, 125, 157,
    201, 123, 56, 60, 131, 179, 65, 252, 51, 127, 194]
  parseJson bytes :=
    if bytes = fullHeader.toUTF8.toList then
      some (.object [("alg", .string "HS256"), ("typ", .string "at+jwt")])
    else if bytes = fullPayload.toUTF8.toList then
      some (.object [("scope", .string "com.atproto.access"), ("aud", .string "did:web:pds.test"),
        ("sub", .string "did:plc:alice"), ("iat", .number (.finite 1700000000)),
        ("exp", .number (.finite 1700007200))])
    else if bytes = emptyPreferencesText.toUTF8.toList then some emptyPreferences
    else if bytes = detailsText.toUTF8.toList then some detailsPreferences
    else none
  wfBase64urlDecode _ := none

/-- The two texts. -/
def prefsText : JsonText where
  parse s :=
    if s = emptyPreferencesText then some emptyPreferences
    else if s = detailsText then some detailsPreferences
    else none
  print
    | .object [("preferences", .array [])] => some emptyPreferencesText
    | .object [("preferences", .array [.object [("$type", .string type)]])] =>
      if type = personalDetailsPrefType then some detailsText else none
    | _ => none

def prefsStore : AuthStore :=
  ⟨"secret".toUTF8.toList, "did:web:pds.test", "did:plc:alice"⟩

theorem prefsText_readsBodies : ReadsBodies prefsLibrary prefsText .number where
  empty := by
    simp only [prefsText, if_true]
  reads body parsed type s _ _ hprint := by
    simp only [prefsText] at hprint ⊢
    split at hprint
    · next heq =>
      rw [← Option.some.inj hprint, heq, if_pos rfl, emptyPreferences]
    · next heq =>
      split at hprint
      · next htype =>
        rw [← Option.some.inj hprint, heq, htype, if_neg (by decide +kernel), if_pos rfl,
          detailsPreferences]
      · cases hprint
    · cases hprint

/-- A session with full access, and one without: it has no bearer token. -/
def fullRequest (body : String) : PrefsRequest :=
  ⟨.user, some ("Bearer " ++ fullToken), none, body.toUTF8.toList⟩

def restrictedRequest (body : String) : PrefsRequest :=
  ⟨.user, some "DPoP token", none, body.toUTF8.toList⟩

def prefsOutcomes : PrefsOutcomes := ⟨1700000100, true, true, true, true⟩

theorem restrictedRequest_access (body : String) : requestHasAccessFull prefsLibrary prefsStore
    1700000100 (restrictedRequest body) = false := by
  have hbearer : bearerToken (some "DPoP token") = none := by decide +kernel
  rw [requestHasAccessFull, restrictedRequest, hbearer]
  rfl

set_option maxRecDepth 4000 in
theorem fullToken_verified :
    authVerifyAccessScope prefsLibrary prefsStore 1700000100 fullToken = .ok .full := by
  -- The text is long: its characters are read off line by line.
  have htext : fullToken.toList = _ :=
    String.toList_append.trans (congrArg₂ (· ++ ·) (String.toList_append.trans
      (congrArg₂ (· ++ ·) String.toList_ofList String.toList_ofList)) String.toList_ofList)
  have hsize : ¬ (fullToken = "" ∨ jwtMaxBytes < fullToken.utf8ByteSize) := by
    rw [← @String.ofList_toList fullToken, htext]
    exact jwt_fits (by decide +kernel) (by decide +kernel)
  rw [authVerifyAccessScope, verifyJwt, if_neg hsize, htext]
  decide +kernel

theorem fullRequest_access (body : String) : requestHasAccessFull prefsLibrary prefsStore
    1700000100 (fullRequest body) = true := by
  rw [requestHasAccessFull, fullRequest, bearerToken_bearer, Option.any_some, fullToken_verified]
  rfl

/-- A body that the session with full access puts. -/
theorem putsApart_full {body : String} {s : Preferences} {parsed : Json}
    (hparsed : prefsLibrary.parseJson body.toUTF8.toList = some parsed)
    (hone : (prefLists parsed).tail = []) :
    PutsApart prefsLibrary prefsText prefsStore .number s
      (.put (fullRequest body) prefsOutcomes) := by
  intro _ _ parsed' prefs hparsed' _
  obtain rfl : parsed = parsed' := Option.some.inj (hparsed.symm.trans hparsed')
  refine Or.inr ⟨Or.inl (fullRequest_access body), ?_, Json.reread_number parsed⟩
  rw [hone]
  exact nofun

/-- The two bodies are read back, and the first one is printed again. -/
theorem prefsTexts_read :
    prefsLibrary.parseJson detailsText.toUTF8.toList = some detailsPreferences ∧
      prefsText.print (withoutPrefs declaredAgePrefType detailsPreferences) = some detailsText ∧
      prefsLibrary.parseJson emptyPreferencesText.toUTF8.toList = some emptyPreferences := by
  refine ⟨?_, by decide +kernel, ?_⟩
  · simp only [prefsLibrary]
    rw [if_neg (by decide +kernel), if_neg (by decide +kernel), if_neg (by decide +kernel),
      if_true]
  · simp only [prefsLibrary]
    rw [if_neg (by decide +kernel), if_neg (by decide +kernel), if_true]

theorem detailsText_parsed :
    prefsLibrary.parseJson detailsText.toUTF8.toList = some detailsPreferences :=
  prefsTexts_read.1

theorem detailsText_printed :
    prefsText.print (withoutPrefs declaredAgePrefType detailsPreferences) = some detailsText :=
  prefsTexts_read.2.1

theorem emptyText_parsed :
    prefsLibrary.parseJson emptyPreferencesText.toUTF8.toList = some emptyPreferences :=
  prefsTexts_read.2.2

/-- A session without full access puts a body where nothing is stored. -/
theorem putsApart_restricted : PutsApart prefsLibrary prefsText prefsStore .number Preferences.start
    (.put (restrictedRequest emptyPreferencesText) prefsOutcomes) := by
  intro _ _ parsed prefs hparsed _
  obtain rfl : emptyPreferences = parsed := Option.some.inj (emptyText_parsed.symm.trans hparsed)
  refine Or.inr ⟨Or.inr ?_, nofun, Json.reread_number _⟩
  exact (Preferences.good_start prefsText_readsBodies).details

/-- It is refused where it would put personal details. -/
theorem putsApart_refused {s : Preferences} :
    PutsApart prefsLibrary prefsText prefsStore .number s
      (.put (restrictedRequest detailsText) prefsOutcomes) := by
  intro _ _ parsed prefs hparsed hprefs
  obtain rfl : detailsPreferences = parsed :=
    Option.some.inj (detailsText_parsed.symm.trans hparsed)
  refine Or.inl ⟨restrictedRequest_access detailsText, ?_⟩
  have hlist : detailsPreferences.getObjectItem "preferences" =
      some (.array [.object [("$type", .string personalDetailsPrefType)]]) := rfl
  rw [hlist] at hprefs
  cases hprefs
  decide

/-- Puts and gets of both sessions, in turns. -/
theorem preferences_lens_six : Steps (Preferences.step prefsLibrary prefsText prefsStore)
    (PrefsLens prefsLibrary prefsText prefsStore) Preferences.start
    [.put (restrictedRequest emptyPreferencesText) prefsOutcomes,
      .put (restrictedRequest detailsText) prefsOutcomes,
      .put (fullRequest detailsText) prefsOutcomes, .get (fullRequest "") prefsOutcomes,
      .get (restrictedRequest "") prefsOutcomes,
      .put (fullRequest emptyPreferencesText) prefsOutcomes] :=
  preferences_lens prefsText_readsBodies _
    ⟨putsApart_restricted, putsApart_refused, putsApart_full detailsText_parsed rfl,
      fun _ => ⟨rfl, rfl⟩, fun _ => ⟨rfl, rfl⟩, putsApart_full emptyText_parsed rfl, trivial⟩

/-- What a session without full access puts is stored as it is: the personal details are gone. -/
theorem restricted_put_loses_details :
    ¬ Steps (Preferences.step prefsLibrary prefsText prefsStore)
      (PrefsLens prefsLibrary prefsText prefsStore) Preferences.start
      [.put (fullRequest detailsText) prefsOutcomes,
        .put (restrictedRequest emptyPreferencesText) prefsOutcomes] := by
  intro h
  have hfirst : putActorPreferences prefsLibrary prefsText prefsStore (fullRequest detailsText)
      prefsOutcomes = .ok detailsText :=
    putActorPreferences_eq_ok rfl rfl (by decide +kernel) detailsText_parsed rfl
      (fun hrestricted => Bool.false_ne_true
        (hrestricted.1.symm.trans (fullRequest_access detailsText))) detailsText_printed
  have hsecond : putActorPreferences prefsLibrary prefsText prefsStore
      (restrictedRequest emptyPreferencesText) prefsOutcomes = .ok emptyPreferencesText :=
    putActorPreferences_eq_ok rfl rfl (by decide +kernel) emptyText_parsed rfl
      (fun hforbidden => Bool.false_ne_true hforbidden.2) rfl
  have hkept := h.2.1.2 (restrictedRequest_access emptyPreferencesText)
  rw [stored_put prefsText_readsBodies emptyText_parsed (Json.reread_number _) rfl hsecond,
    stored_put prefsText_readsBodies detailsText_parsed (Json.reread_number _) detailsText_printed
      hfirst] at hkept
  have hlength := congrArg List.length hkept
  revert hlength
  decide +kernel

end Example

end MetalBear.Account
