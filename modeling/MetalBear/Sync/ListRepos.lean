import MetalBear.Library.WhileLoop
import MetalBear.Library.Paging
import MetalBear.Library.CString

/-!
# Listing the repositories

The two queries that list the accounts of the host, a page at a time. A page is filled from
batches of the registry, and whether the registry is exhausted is decided for each batch. A client
follows the cursor from page to page.
-/

namespace MetalBear.Sync

open ByteOrder WhileLoop Paging

/-- A C string: its bytes before the NUL. -/
abbrev Text := List UInt8

/-- Texts are compared byte by byte. -/
scoped instance instLawfulBEqText : LawfulBEq (List UInt8) := List.instLawfulBEq

/-! ## The host -/

/-- The primary keys of `accounts`, in the order of the `BINARY` collation. -/
structure AccountRegistry where
  dids : List Text
  sorted : dids.Pairwise (· < ·)
  nonempty : ∀ did ∈ dids, did ≠ []

/-- `metalbear_account_registry_list_after`: `WHERE did > ? ORDER BY did LIMIT ?`. -/
def AccountRegistry.listAfter (r : AccountRegistry) (after : Text) (limit : Nat) : List Text :=
  (r.dids.filter fun did => decide (after < did)).take limit

/-- What `metalbear_repo_store_get_head` answers. -/
structure RepoHead where
  rev : Text
  cid : Text
  deriving DecidableEq

/-- What the listings read of a `metalbear_account_context`. -/
structure AccountContext where
  did : Text
  head : Option RepoHead
  /-- The keys that `walk_mst_collections` comes across. -/
  keys : List Text
  /-- `metalbear_account_is_active`. -/
  isActive : Bool

/-- The registry, the accounts that can be opened, and the takedowns. -/
structure SyncServer where
  registry : AccountRegistry
  contextForDid : Text → Option AccountContext
  contextForDid_did : ∀ did acct, contextForDid did = some acct → acct.did = did
  accountTakedownRef : Text → Option Text

/-- `account_status_string`: `active` and `status`. -/
def SyncServer.accountStatusString (s : SyncServer) (acct : AccountContext) :
    Bool × Option String :=
  let takenDown := (s.accountTakedownRef acct.did).isSome
  let active := !takenDown && acct.isActive
  (active, if takenDown then some "takendown" else if active then none else some "deactivated")

/-- `'/'`. -/
def slash : UInt8 := 47

/-- The collection that a key of the tree belongs to. -/
def collectionOf (key : Text) : Option Text :=
  if slash ∈ key then some (key.takeWhile (· ≠ slash)) else none

/-- One key of `walk_mst_collections`. -/
def addCollection (cols : List Text) (key : Text) : List Text :=
  match collectionOf key with
  | none => cols
  | some collection => if collection ∈ cols then cols else cols ++ [collection]

/-- `collections` of `metalbear_repo_store_describe`. -/
def AccountContext.collections (acct : AccountContext) : List Text :=
  acct.keys.foldl addCollection []

/-! ## A page -/

/-- What is kept of `last_did` in its 256 bytes. -/
def lastDidOf (did : Text) : Text := did.take 255

/-- The variables of the loop; `emitted` is the number of items. -/
structure PageState (ρ : Type) where
  lastDid : Text
  exhausted : Bool
  repos : List ρ

/-- The response body. -/
structure Page (ρ : Type) where
  repos : List ρ
  cursor : Option Text

section Pages

variable {ρ : Type} (registry : AccountRegistry) (item : Text → Option ρ) (limit : Nat)

/-- The loop over the entries of a batch. An entry that gives no item is skipped. -/
def readEntries : List Text → PageState ρ → PageState ρ
  | [], s => s
  | did :: entries, s =>
    if s.repos.length < limit then
      readEntries entries
        { s with lastDid := lastDidOf did, repos := s.repos ++ (item did).toList }
    else s

/-- One turn of the loop over the batches. -/
def readBatch (s : PageState ρ) : PageState ρ :=
  let entries := registry.listAfter s.lastDid limit
  readEntries item limit entries
    { s with exhausted := s.exhausted || decide (entries.length < limit) }

/-- The test of the loop over the batches. -/
def wantsBatch (s : PageState ρ) : Bool := decide (s.repos.length < limit) && !s.exhausted

/-- The response, when the loop has come to its end. -/
def PageState.page (s : PageState ρ) : Page ρ where
  repos := s.repos
  cursor := if s.exhausted = false ∧ s.lastDid ≠ [] then some s.lastDid else none

/-- A page from a cursor on, in at most the given number of turns. -/
def listPage (turns : Nat) (cursor : Text) : Option (Page ρ) :=
  (whileLoop (wantsBatch limit) (readBatch registry item limit) turns
    ⟨lastDidOf cursor, false, []⟩).map PageState.page

end Pages

/-- A client that follows the cursor until there is none, and what it has got by then. -/
def followCursor {ρ : Type} (page : Nat → Text → Option (Page ρ)) : Nat → Text → Option (List ρ)
  | 0, _ => none
  | turns + 1, cursor =>
    match page turns cursor with
    | none => none
    | some p =>
      match p.cursor with
      | none => some p.repos
      | some next => (followCursor page turns next).map (p.repos ++ ·)

/-! ## The two queries -/

/-- The `limit` member of the parameters; a number is the one that its double is cut to. -/
inductive LimitParam where
  | absent
  | number (value : Int)
  | string (s : String)
  | other
  deriving DecidableEq, Repr

/-- The end of `query_param_int`. -/
def clampLimit (value min max : Int) : Int :=
  let atLeast := if value < min then min else value
  if atLeast > max then max else atLeast

/-- `query_param_int`. -/
def queryParamInt (p : LimitParam) (fallback min max : Int) : Int :=
  match p with
  | .absent | .other => clampLimit fallback min max
  | .number value => clampLimit value min max
  | .string s =>
    if CString.chars s = [] then clampLimit fallback min max
    else
      let parsed := CString.strtoll (CString.chars s)
      if parsed.rest ≠ [] then fallback else clampLimit parsed.value min max

/-- An item of `listRepos`. -/
structure RepoItem where
  did : Text
  head : Text
  rev : Text
  active : Bool
  status : Option String
  deriving DecidableEq

/-- The item of an account, if it has a repository. -/
def SyncServer.repoItem (s : SyncServer) (did : Text) : Option RepoItem :=
  match s.contextForDid did with
  | none => none
  | some acct =>
    match acct.head with
    | none => none
    | some head =>
      let (active, status) := s.accountStatusString acct
      some ⟨acct.did, head.cid, head.rev, active, status⟩

/-- The item of an account, if its repository has the collection. -/
def SyncServer.collectionItem (s : SyncServer) (collection did : Text) : Option Text :=
  match s.contextForDid did with
  | none => none
  | some acct => if collection ∈ acct.collections then some acct.did else none

/-- `list_repos`. A cursor that is no string is the empty one. -/
def listRepos (s : SyncServer) (limit : LimitParam) (turns : Nat) (cursor : Text) :
    Option (Page RepoItem) :=
  listPage s.registry s.repoItem (queryParamInt limit 500 1 1000).toNat turns cursor

/-- A string that is not empty. -/
structure RequiredString where
  text : Text
  nonempty : text ≠ []

/-- The status, the name and the message of an error. -/
structure XrpcError where
  status : Nat
  name : String
  message : String
  deriving DecidableEq, Repr

/-- `require_string`. -/
def requireString (item : Option Text) (name : String) : Except XrpcError RequiredString :=
  match item with
  | none => .error ⟨400, "InvalidRequest", name ++ " is required"⟩
  | some text =>
    if h : text ≠ [] then .ok ⟨text, h⟩
    else .error ⟨400, "InvalidRequest", name ++ " is required"⟩

/-- `list_repos_by_collection`. -/
def listReposByCollection (s : SyncServer) (collection : Option Text) (limit : LimitParam)
    (turns : Nat) (cursor : Text) : Except XrpcError (Option (Page Text)) :=
  (requireString collection "collection").map fun coll =>
    listPage s.registry (s.collectionItem coll.text) (queryParamInt limit 500 1 2000).toNat turns
      cursor

@[simp]
theorem requireString_text (coll : RequiredString) (name : String) :
    requireString (some coll.text) name = .ok coll :=
  dif_pos coll.nonempty

end MetalBear.Sync
