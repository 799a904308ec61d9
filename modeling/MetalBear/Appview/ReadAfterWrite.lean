import MetalBear.Json.Value
import MetalBear.Library.Splicing
import MetalBear.Repo.Store

/-!
# Read-after-write

An AppView says up to which revision it has indexed a repository. Before its answer goes on to the
requester, the posts and the profile that the requester has written since are put into it.
-/

namespace MetalBear.Appview

open Repo (RecordRow)
open Splicing

/-! ## The records of the store -/

/-- A row of `records`, with the time of its writing. -/
structure StampedRow extends RecordRow where
  indexedAt : Option String
  deriving DecidableEq, Repr

/-- The `records` table with its primary key, in the order in which the database reads it. -/
structure StampedTable where
  rows : List StampedRow
  nodup : (rows.map fun r => (r.collection, r.rkey)).Nodup

/-- A repository, as far as it is asked for its latest records. -/
structure RecentStore where
  did : String
  records : StampedTable

/-- The texts that `cJSON` reads and prints. -/
structure JsonText where
  /-- `cJSON_Parse`. -/
  parse : String → Option Json
  /-- `cJSON_PrintUnformatted`. -/
  print : Json → Option String

/-- `make_uri`. -/
def makeUri (did collection rkey : String) : String :=
  "at://" ++ did ++ "/" ++ collection ++ "/" ++ rkey

/-- `repo_rev IS NOT NULL AND repo_rev <= ?`. -/
def notAfter (rev : String) (r : StampedRow) : Bool := r.repoRev.any (· ≤ rev)

/-- `repo_rev IS NOT NULL AND repo_rev > ?`. -/
def isAfter (rev : String) (r : StampedRow) : Bool := r.repoRev.any (rev < ·)

/-- `ORDER BY repo_rev ASC`. -/
def revBefore (a b : StampedRow) : Prop := a.repoRev.getD "" ≤ b.repoRev.getD ""

instance : DecidableRel revBefore := fun a b =>
  inferInstanceAs (Decidable (a.repoRev.getD "" ≤ b.repoRev.getD ""))

/-- A limit out of range is ten. -/
def clampLimit (limit : Int) : Nat := if limit ≤ 0 ∨ 100 < limit then 10 else limit.toNat

/-- The rows after the revision, the oldest first, as many as the limit allows; none where nothing
is as old as the revision. -/
def StampedTable.since (t : StampedTable) (rev : String) (limit : Int) : List StampedRow :=
  if t.rows.any (notAfter rev) then
    ((t.rows.filter (isAfter rev)).insertionSort revBefore).take (clampLimit limit)
  else []

/-- The entry of a row. -/
def entryOf (text : JsonText) (did : String) (r : StampedRow) : Json :=
  .object ([("uri", .string (makeUri did r.collection r.rkey)), ("cid", .string r.cid),
    ("collection", .string r.collection), ("indexedAt", .string (r.indexedAt.getD ""))] ++
    (text.parse r.value).toList.map ("value", ·))

/-- `records_since_rev_locked`: the text of its answer. -/
def recordsSinceRev (text : JsonText) (s : RecentStore) (rev : String) (limit : Int) :
    Option String :=
  if rev = "" then none
  else text.print (.object [("records",
    .array ((s.records.since rev limit).map (entryOf text s.did)))])

/-! ## Posts -/

/-- `app.bsky.feed.post`. -/
def postCollection : String := "app.bsky.feed.post"

/-- What is read of an entry that is a post. -/
structure LocalPost where
  uri : String
  cid : String
  indexedAt : String
  value : Json

/-- The checks of `insert_local_posts` on an entry. -/
def localPost (entry : Json) : Option LocalPost := do
  let collection ← entry.getString "collection"
  if collection = postCollection then
    let uri ← entry.getString "uri"
    let indexedAt ← entry.getString "indexedAt"
    let value ← entry.getObjectItem "value"
    some ⟨uri, (entry.getString "cid").getD "", indexedAt, value⟩
  else none

/-- `local_post_view`, in the object that a feed lists. -/
def wrapPost (author : Option Json) (post : LocalPost) : Json :=
  .object [("post", .object ([("uri", .string post.uri), ("cid", .string post.cid)] ++
    author.toList.map ("author", ·) ++ [("record", post.value),
    ("replyCount", .number (.finite 0)), ("repostCount", .number (.finite 0)),
    ("likeCount", .number (.finite 0)), ("quoteCount", .number (.finite 0)),
    ("indexedAt", .string post.indexedAt)]))]

/-- `post.indexedAt` of a feed item. -/
def itemTime (item : Json) : Option String :=
  (item.getObjectItem "post").bind (·.getString "indexedAt")

/-- `post.uri` of a feed item. -/
def itemUri (item : Json) : Option String := (item.getObjectItem "post").bind (·.getString "uri")

mutual

/-- `find_author_view`. -/
def findAuthorView (did : String) : Json → Option Json
  | .array items => findAuthorItems did items
  | .object members =>
    let self := Json.object members
    if self.getString "did" = some did ∧ (self.getString "handle").isSome then some self
    else findAuthorMembers did members
  | _ => none

def findAuthorItems (did : String) : List Json → Option Json
  | [] => none
  | j :: rest => (findAuthorView did j).or (findAuthorItems did rest)

def findAuthorMembers (did : String) : List (String × Json) → Option Json
  | [] => none
  | (_, j) :: rest => (findAuthorView did j).or (findAuthorMembers did rest)

end

/-- The timestamp of the last item of the page. -/
def lastTime (feed : List Json) : Option String := feed.getLast?.bind itemTime

/-- One turn of the loop of `insert_local_posts`. -/
def insertPost (last : Option String) (author : Option Json) (feed : List Json)
    (post : LocalPost) : List Json :=
  if last.any (post.indexedAt ≤ ·) then feed
  else if feed.any (itemUri · = some post.uri) then feed
  else splice itemTime post.indexedAt (wrapPost author post) feed

/-- `insert_local_posts`. -/
def insertLocalPosts (feed records : List Json) (author : Option Json) : List Json :=
  (records.filterMap localPost).foldl (insertPost (lastTime feed) author) feed

/-! ## Profiles -/

/-- One field of `overlay_local_profile`. -/
def overlayField (record : Json) (view : Json) (field : String) : Json :=
  match view with
  | .object members =>
    .object (members.eraseP (·.1 == field) ++
      (record.getString field).toList.map fun s => (field, .string s))
  | _ => view

/-- `overlay_local_profile`. -/
def overlayLocalProfile (view record : Json) : Json :=
  if view.isObject ∧ record.isObject then
    ["displayName", "description"].foldl (overlayField record) view
  else view

/-- The value of the last profile record; it may have none. -/
def profileRecord (records : List Json) : Option Json :=
  (records.filter fun e => e.getString "collection" = some "app.bsky.actor.profile").getLast?.bind
    (·.getObjectItem "value")

/-- An item is changed in the member of that name, where it stands. -/
def modifyMember (name : String) (f : Json → Json) : List (String × Json) → List (String × Json)
  | [] => []
  | m :: rest => if m.1 == name then (m.1, f m.2) :: rest else m :: modifyMember name f rest

def modifyItem (name : String) (f : Json → Json) : Json → Json
  | .object members => .object (modifyMember name f members)
  | j => j

/-- `cJSON_ArrayForEach`. -/
def children : Json → List Json
  | .array items => items
  | .object members => members.map Prod.snd
  | _ => []

/-- Every child is changed in its place. -/
def modifyChildren (f : Json → Json) : Json → Json
  | .array items => .array (items.map f)
  | .object members => .object (members.map fun m => (m.1, f m.2))
  | j => j

/-- The view is the requester's own. -/
def isOwnView (did : String) (view : Json) : Bool := view.getString "did" = some did

/-- The requester's own view gets the record's fields. -/
def ownView (did : String) (record view : Json) : Json :=
  if isOwnView did view then overlayLocalProfile view record else view

/-! ## The answer -/

/-- The methods whose answer is a feed. -/
def feedMethods : List String :=
  ["app.bsky.feed.getTimeline", "app.bsky.feed.getAuthorFeed", "app.bsky.feed.getActorLikes"]

def profileMethod : String := "app.bsky.actor.getProfile"

def profilesMethod : String := "app.bsky.actor.getProfiles"

/-- The changed tree of a feed, or of the profiles; nothing where nothing changes. -/
def mungeRoot (requesterDid nsid : String) (records : List Json) (root : Json) : Option Json :=
  if nsid ∈ feedMethods then
    match root.getObjectItem "feed" with
    | some (.array feed) =>
      let feed' := insertLocalPosts feed records (findAuthorView requesterDid root)
      if feed'.length = feed.length then none
      else some (modifyItem "feed" (fun _ => .array feed') root)
    | _ => none
  else
    match profileRecord records with
    | none => none
    | some record =>
      if nsid = profileMethod then
        if isOwnView requesterDid root then some (overlayLocalProfile root record) else none
      else if ((root.getObjectItem "profiles").any fun p =>
          (children p).any (isOwnView requesterDid)) then
        some (modifyItem "profiles" (modifyChildren (ownView requesterDid record)) root)
      else none

/-- `read_after_write_munge`: the new body, and whether the header of a lag goes with it. The
account is there if the requester has one with a repository. -/
def readAfterWriteMunge (text : JsonText) (account : Option RecentStore)
    (requesterDid nsid repoRev body : String) : Option String × Bool :=
  if nsid ∉ feedMethods ∧ nsid ≠ profileMethod ∧ nsid ≠ profilesMethod then (none, false)
  else
    match account with
    | none => (none, false)
    | some repo =>
      match (recordsSinceRev text repo repoRev 10).bind text.parse with
      | none => (none, false)
      | some answer =>
        match answer.getObjectItem "records" with
        | some (.array (first :: rest)) =>
          match text.parse body with
          | none => (none, false)
          | some root =>
            match mungeRoot requesterDid nsid (first :: rest) root with
            | none => (none, false)
            | some changed => (text.print changed, true)
        | _ => (none, false)

/-! ## What is relied on -/

/-- A text that was printed and can be read reads back as it was, its numbers perhaps apart. -/
structure JsonText.ReadsBack (text : JsonText) (number : Double → Json) : Prop where
  plain : ∀ d, (number d).isObject = false ∧ (number d).valueString = none
  reads : ∀ j s j', text.print j = some s → text.parse s = some j' → j' = j.reread number

/-- The post of a row, as it comes out of the store's answer. -/
def rowPost (text : JsonText) (number : Double → Json) (did : String) (r : StampedRow) :
    Option LocalPost :=
  if r.collection = postCollection then
    (text.parse r.value).map fun value =>
      ⟨makeUri did r.collection r.rkey, r.cid, r.indexedAt.getD "", value.reread number⟩
  else none

/-- The post is newer than the last item of the page, if that has a time, and not on the page. -/
def isNews (feed : List Json) (post : LocalPost) : Bool :=
  !(lastTime feed).any (post.indexedAt ≤ ·) && !feed.any (itemUri · = some post.uri)

/-- The page with the news: all that was there in its order, and every new post once, where a page
that is newest first stays so. -/
structure SplicesNews (feed : List Json) (author : Option Json) (posts : List LocalPost)
    (feed' : List Json) : Prop where
  upstream : feed.Sublist feed'
  exactly : feed'.Perm (feed ++ (posts.filter (isNews feed)).map (wrapPost author))
  once : (posts.map (·.uri)).Nodup
  sorted : NewestFirst itemTime feed → NewestFirst itemTime feed'

/-- What an item has besides the two fields that a profile record sets. -/
def otherMembers : Json → List (String × Json)
  | .object members => members.filter fun m => m.1 ≠ "displayName" ∧ m.1 ≠ "description"
  | _ => []

/-- What comes of an answer of the AppView. -/
structure AddsOwnNews (text : JsonText) (number : Double → Json) (repo : RecentStore)
    (requesterDid nsid repoRev body : String) (out : Option String) : Prop where
  /-- A feed that can be read, with the records: its page gets the news. -/
  feed : nsid ∈ feedMethods →
    ∀ answer root feed, (recordsSinceRev text repo repoRev 10).bind text.parse = some answer →
      text.parse body = some root → root.getObjectItem "feed" = some (.array feed) →
      ∃ feed', SplicesNews feed (findAuthorView requesterDid root)
        ((repo.records.since repoRev 10).filterMap (rowPost text number repo.did)) feed' ∧
        (out = none ∧ feed' = feed ∨
          out = text.print (modifyItem "feed" (fun _ => .array feed') root))
  /-- Where the records or the body cannot be read, or there is no feed in it, it stays. -/
  unread : (recordsSinceRev text repo repoRev 10).bind text.parse = none ∨
    text.parse body = none ∨ nsid ∈ feedMethods ∧ (∀ root, text.parse body = some root →
      ∀ feed, root.getObjectItem "feed" ≠ some (.array feed)) → out = none
  profile : nsid = profileMethod → ∀ s, out = some s → ∃ root view, text.parse body = some root ∧
    isOwnView requesterDid root = true ∧ text.print view = some s ∧
    otherMembers view = otherMembers root
  /-- Of the profiles the requester's own views alone change, in their two fields. -/
  profiles : nsid = profilesMethod → ∀ s, out = some s → ∃ root f,
    text.parse body = some root ∧ (∀ view, isOwnView requesterDid view = false → f view = view) ∧
    (∀ view, otherMembers (f view) = otherMembers view) ∧
    text.print (modifyItem "profiles" (modifyChildren f) root) = some s

/-! ## Feeds -/

section Feeds

variable {text : JsonText} {number : Double → Json} {author : Option Json} {last : Option String}
  {feed : List Json} {posts : List LocalPost} {post : LocalPost}

@[simp] theorem itemTime_wrapPost : itemTime (wrapPost author post) = some post.indexedAt := by
  cases author <;> rfl

@[simp] theorem itemUri_wrapPost : itemUri (wrapPost author post) = some post.uri := by
  cases author <;> rfl

/-- The test of one turn of the loop. -/
def belongs (last : Option String) (feed : List Json) (post : LocalPost) : Bool :=
  !last.any (post.indexedAt ≤ ·) && !feed.any (itemUri · = some post.uri)

theorem insertPost_eq : insertPost last author feed post =
    if belongs last feed post then splice itemTime post.indexedAt (wrapPost author post) feed
    else feed := by
  rw [insertPost, belongs]
  cases last.any (post.indexedAt ≤ ·) <;> cases feed.any (itemUri · = some post.uri) <;> simp

/-- A post that is spliced in makes no difference to a post with another URI. -/
theorem belongs_splice {other : LocalPost} (hne : post.uri ≠ other.uri) :
    belongs last (splice itemTime post.indexedAt (wrapPost author post) feed) other =
      belongs last feed other := by
  have hany : (splice itemTime post.indexedAt (wrapPost author post) feed).any
      (itemUri · = some other.uri) = feed.any (itemUri · = some other.uri) := by
    rw [splice_perm.any_eq, List.any_append]
    simp [hne]
  rw [belongs, belongs, hany]

/-- The loop over the posts: the page stays in its order, exactly the posts that belong to it come
in, and a page that is newest first stays so. -/
theorem foldl_insertPost (hnodup : (posts.map (·.uri)).Nodup) :
    feed.Sublist (posts.foldl (insertPost last author) feed) ∧
      (posts.foldl (insertPost last author) feed).Perm
        (feed ++ (posts.filter (belongs last feed)).map (wrapPost author)) ∧
      (NewestFirst itemTime feed →
        NewestFirst itemTime (posts.foldl (insertPost last author) feed)) := by
  induction posts generalizing feed with
  | nil => exact ⟨List.Sublist.refl _, by simp, id⟩
  | cons post posts ih =>
    rw [List.map_cons, List.nodup_cons] at hnodup
    obtain ⟨hnew, hrest⟩ := hnodup
    rw [List.foldl_cons, insertPost_eq]
    by_cases hbelongs : belongs last feed post = true
    · rw [if_pos hbelongs, List.filter_cons_of_pos hbelongs, List.map_cons]
      obtain ⟨hsub, hperm, hsorted⟩ :=
        @ih (splice itemTime post.indexedAt (wrapPost author post) feed) hrest
      have hsame : posts.filter
          (belongs last (splice itemTime post.indexedAt (wrapPost author post) feed)) =
          posts.filter (belongs last feed) := by
        refine List.filter_congr fun other hother => belongs_splice fun heq => hnew ?_
        rw [heq]
        exact List.mem_map_of_mem hother
      refine ⟨sublist_splice.trans hsub, ?_, fun h => hsorted (h.splice itemTime_wrapPost)⟩
      rw [hsame] at hperm
      refine hperm.trans ((splice_perm.append_right _).trans ?_)
      rw [List.append_assoc]
      rfl
    · rw [if_neg hbelongs, List.filter_cons_of_neg hbelongs]
      exact ih hrest

/-- Records with different keys have different posts. -/
theorem makeUri_inj {did collection rkey rkey' : String}
    (h : makeUri did collection rkey = makeUri did collection rkey') : rkey = rkey' := by
  have hlist := congrArg String.toList h
  simp only [makeUri, String.toList_append, List.append_assoc, List.append_cancel_left_eq] at hlist
  exact String.toList_injective hlist

theorem rowPost_eq_some {did : String} {r : StampedRow} (h : rowPost text number did r = some post) :
    r.collection = postCollection ∧ post.uri = makeUri did postCollection r.rkey := by
  rw [rowPost] at h
  split_ifs at h with hcollection
  obtain ⟨value, -, rfl⟩ := Option.map_eq_some_iff.mp h
  exact ⟨hcollection, by rw [hcollection]⟩

/-- The rows after a revision are rows of the table, each at most once. -/
theorem since_subperm (t : StampedTable) (rev : String) (limit : Int) :
    (t.since rev limit).Subperm t.rows := by
  rw [StampedTable.since]
  split_ifs
  · refine (List.take_sublist _ _).subperm.trans ?_
    refine (List.perm_insertionSort revBefore _).subperm.trans ?_
    exact List.filter_sublist.subperm
  · exact List.nil_subperm

/-- The posts of the latest records have different URIs. -/
theorem nodup_uris {did : String} (t : StampedTable) (rev : String) (limit : Int) :
    (((t.since rev limit).filterMap (rowPost text number did)).map (·.uri)).Nodup := by
  have hrows : ((t.since rev limit).map fun r => (r.collection, r.rkey)).Nodup := by
    obtain ⟨rows, hperm, hsub⟩ := since_subperm t rev limit
    exact (hperm.map _).nodup_iff.mp (t.nodup.sublist (hsub.map _))
  generalize t.since rev limit = rows at hrows
  induction rows with
  | nil => exact List.nodup_nil
  | cons r rows ih =>
    rw [List.map_cons, List.nodup_cons] at hrows
    cases hpost : rowPost text number did r with
    | none =>
      rw [List.filterMap_cons_none hpost]
      exact ih hrows.2
    | some post =>
      rw [List.filterMap_cons_some hpost, List.map_cons, List.nodup_cons]
      refine ⟨fun hmem => hrows.1 ?_, ih hrows.2⟩
      obtain ⟨other, hother, huri⟩ := List.mem_map.mp hmem
      obtain ⟨r', hr', hpost'⟩ := List.mem_filterMap.mp hother
      obtain ⟨hcollection, huri₁⟩ := rowPost_eq_some hpost
      obtain ⟨hcollection', huri₂⟩ := rowPost_eq_some hpost'
      rw [huri₁, huri₂] at huri
      refine List.mem_map.mpr ⟨r', hr', ?_⟩
      rw [hcollection, hcollection', makeUri_inj huri]

/-- What the loop reads of an entry that came out of the store's answer. -/
theorem localPost_entryOf (hlaw : text.ReadsBack number) (did : String) (r : StampedRow) :
    localPost ((entryOf text did r).reread number) = rowPost text number did r := by
  have hflat := fun d => (hlaw.plain d).1
  have huri : (entryOf text did r).getString "uri" = some (makeUri did r.collection r.rkey) := rfl
  have hcid : (entryOf text did r).getString "cid" = some r.cid := rfl
  have hcollection : (entryOf text did r).getString "collection" = some r.collection := rfl
  have hat : (entryOf text did r).getString "indexedAt" = some (r.indexedAt.getD "") := rfl
  have hvalue : (entryOf text did r).getObjectItem "value" = text.parse r.value := by
    cases hparse : text.parse r.value <;> simp [entryOf, hparse]
  simp only [localPost, rowPost, Json.getString_reread hlaw.plain, Json.getObjectItem_reread hflat,
    huri, hcid, hcollection, hat, hvalue]
  cases text.parse r.value <;> simp

end Feeds

/-! ## Answers -/

section Answers

variable {text : JsonText} {number : Double → Json} {repo : RecentStore} {account : Option RecentStore}
  {requesterDid nsid repoRev body : String}

/-- The entries that the server reads of the store's answer. -/
theorem records_of_answer (hlaw : text.ReadsBack number) {limit : Int} {answer : Json}
    (h : (recordsSinceRev text repo repoRev limit).bind text.parse = some answer) :
    answer.getObjectItem "records" = some (.array ((repo.records.since repoRev limit).map fun r =>
      (entryOf text repo.did r).reread number)) := by
  obtain ⟨printed, hprinted, hread⟩ := Option.bind_eq_some_iff.mp h
  rw [recordsSinceRev] at hprinted
  split_ifs at hprinted
  rw [hlaw.reads _ _ _ hprinted hread, Json.getObjectItem_reread fun d => (hlaw.plain d).1]
  simp [Json.reread, Json.rereadItems_eq_map]

/-- The posts among these entries. -/
theorem filterMap_localPost (hlaw : text.ReadsBack number) (did : String) (rows : List StampedRow) :
    (rows.map fun r => (entryOf text did r).reread number).filterMap localPost =
      rows.filterMap (rowPost text number did) := by
  rw [List.filterMap_map]
  exact List.filterMap_congr fun r _ => localPost_entryOf hlaw did r

/-- A field of the profile changes nothing else. -/
theorem otherMembers_overlayField {field : String}
    (hfield : field = "displayName" ∨ field = "description") (record view : Json) :
    otherMembers (overlayField record view field) = otherMembers view := by
  cases view with
  | object members =>
    have hadded : ((record.getString field).toList.map fun s => (field, Json.string s)).filter
        (fun m => m.1 ≠ "displayName" ∧ m.1 ≠ "description") = [] := by
      rw [List.filter_eq_nil_iff]
      intro m hm
      obtain ⟨s, -, rfl⟩ := List.mem_map.mp hm
      rcases hfield with rfl | rfl <;> simp
    have herased : (members.eraseP (·.1 == field)).filter
        (fun m => m.1 ≠ "displayName" ∧ m.1 ≠ "description") =
        members.filter fun m => m.1 ≠ "displayName" ∧ m.1 ≠ "description" := by
      induction members with
      | nil => rfl
      | cons m members ih =>
        rw [List.eraseP_cons]
        cases hm : m.1 == field with
        | true =>
          have hdrop : ¬ (m.1 ≠ "displayName" ∧ m.1 ≠ "description") := by
            rw [beq_iff_eq] at hm
            rcases hfield with h | h <;> simp [hm, h]
          rw [cond_true, List.filter_cons_of_neg (by simpa using hdrop)]
        | false =>
          rw [cond_false, List.filter_cons, List.filter_cons, ih]
    simp only [overlayField, otherMembers, List.filter_append, herased, hadded, List.append_nil]
  | _ => rfl

/-- The overlay of a profile changes nothing but its two fields. -/
theorem otherMembers_overlay (view record : Json) :
    otherMembers (overlayLocalProfile view record) = otherMembers view := by
  rw [overlayLocalProfile]
  split_ifs
  · simp only [List.foldl_cons, List.foldl_nil, otherMembers_overlayField, true_or, or_true]
  · rfl

/-- A body that is sent instead of the upstream's is the print of a changed tree. -/
theorem munge_eq_some {s : String}
    (h : (readAfterWriteMunge text account requesterDid nsid repoRev body).1 = some s) :
    ∃ root records changed, text.parse body = some root ∧
      mungeRoot requesterDid nsid records root = some changed ∧ text.print changed = some s := by
  unfold readAfterWriteMunge at h
  split_ifs at h
  split at h
  · cases h
  split at h
  · cases h
  split at h
  · split at h
    · cases h
    · next root hroot =>
      split at h
      · cases h
      · next changed hchanged => exact ⟨root, _, changed, hroot, hchanged, h⟩
  · cases h

/-- Of a feed that is changed, the body and the records could be read, and the feed is there. -/
theorem mungeRoot_eq_none {records : List Json} {root : Json} (hmethod : nsid ∈ feedMethods)
    (hnone : ∀ feed, root.getObjectItem "feed" ≠ some (.array feed)) :
    mungeRoot requesterDid nsid records root = none := by
  rw [mungeRoot, if_pos hmethod]
  split
  · next feed hfeed => exact absurd hfeed (hnone feed)
  · rfl

/-- A body is only replaced where the records and the body can be read. -/
theorem readable_of_munge {s : String}
    (h : (readAfterWriteMunge text (some repo) requesterDid nsid repoRev body).1 = some s) :
    (recordsSinceRev text repo repoRev 10).bind text.parse ≠ none := by
  unfold readAfterWriteMunge at h
  split_ifs at h
  dsimp only at h
  split at h
  · cases h
  · next answer hanswer =>
    rw [hanswer]
    exact Option.some_ne_none answer

/-- The own view alone is changed. -/
theorem ownView_of_not_own {did : String} {record view : Json} (h : isOwnView did view = false) :
    ownView did record view = view := by
  rw [ownView, h]
  rfl

theorem otherMembers_ownView (did : String) (record view : Json) :
    otherMembers (ownView did record view) = otherMembers view := by
  rw [ownView]
  split_ifs
  · exact otherMembers_overlay view record
  · rfl

/-- The page of a feed gets the news. -/
theorem feed_adds_news (hlaw : text.ReadsBack number) (hmethod : nsid ∈ feedMethods)
    {answer root : Json} {feed : List Json}
    (hanswer : (recordsSinceRev text repo repoRev 10).bind text.parse = some answer)
    (hroot : text.parse body = some root) (hfeed : root.getObjectItem "feed" = some (.array feed)) :
    ∃ feed', SplicesNews feed (findAuthorView requesterDid root)
      ((repo.records.since repoRev 10).filterMap (rowPost text number repo.did)) feed' ∧
      ((readAfterWriteMunge text (some repo) requesterDid nsid repoRev body).1 = none ∧
          feed' = feed ∨
        (readAfterWriteMunge text (some repo) requesterDid nsid repoRev body).1 =
          text.print (modifyItem "feed" (fun _ => .array feed') root)) := by
  have hrecords := records_of_answer hlaw hanswer
  obtain ⟨hsub, hperm, hsorted⟩ := @foldl_insertPost (findAuthorView requesterDid root)
    (lastTime feed) feed _ (nodup_uris repo.records repoRev 10)
  refine ⟨_, ⟨hsub, hperm, nodup_uris _ _ _, hsorted⟩, ?_⟩
  rw [readAfterWriteMunge, if_neg fun h => h.1 hmethod]
  simp only [hanswer, hrecords]
  have hinsert : insertLocalPosts feed ((repo.records.since repoRev 10).map fun r =>
      (entryOf text repo.did r).reread number) (findAuthorView requesterDid root) =
      ((repo.records.since repoRev 10).filterMap (rowPost text number repo.did)).foldl
        (insertPost (lastTime feed) (findAuthorView requesterDid root)) feed := by
    rw [insertLocalPosts, filterMap_localPost hlaw]
  cases hrows : repo.records.since repoRev 10 with
  | nil => exact Or.inl ⟨rfl, rfl⟩
  | cons r rows =>
    rw [hrows] at hinsert hsub
    simp only [List.map_cons] at hinsert ⊢
    simp only [hroot, mungeRoot, if_pos hmethod, hfeed, hinsert]
    split_ifs with hlength
    · exact Or.inl ⟨rfl, (hsub.eq_of_length hlength.symm).symm⟩
    · exact Or.inr rfl

/-- The news comes into a feed, and nothing but the requester's own views of profiles changes. -/
theorem read_after_write (hlaw : text.ReadsBack number) :
    AddsOwnNews text number repo requesterDid nsid repoRev body
      (readAfterWriteMunge text (some repo) requesterDid nsid repoRev body).1 := by
  refine ⟨fun hmethod answer root feed hanswer hroot hfeed =>
    feed_adds_news hlaw hmethod hanswer hroot hfeed, fun hunread => ?_, fun hnsid s hs => ?_,
    fun hnsid s hs => ?_⟩
  · rw [Option.eq_none_iff_forall_ne_some]
    intro s hs
    obtain ⟨root, records, changed, hroot, hmunge, -⟩ := munge_eq_some hs
    rcases hunread with hnone | hnone | ⟨hmethod, hnone⟩
    · exact readable_of_munge hs hnone
    · rw [hroot] at hnone
      cases hnone
    · rw [mungeRoot_eq_none hmethod (hnone root hroot)] at hmunge
      cases hmunge
  · obtain ⟨root, records, changed, hroot, hmunge, hprint⟩ := munge_eq_some hs
    subst hnsid
    rw [mungeRoot, if_neg (by decide)] at hmunge
    split at hmunge
    · cases hmunge
    · rw [if_pos rfl] at hmunge
      split_ifs at hmunge with hown
      cases hmunge
      exact ⟨root, _, hroot, hown, hprint, otherMembers_overlay _ _⟩
  · obtain ⟨root, records, changed, hroot, hmunge, hprint⟩ := munge_eq_some hs
    subst hnsid
    rw [mungeRoot, if_neg (by decide)] at hmunge
    split at hmunge
    · cases hmunge
    · next record hrecord =>
      rw [if_neg (by decide)] at hmunge
      split_ifs at hmunge
      cases hmunge
      exact ⟨root, ownView requesterDid record, hroot, fun _ => ownView_of_not_own,
        otherMembers_ownView requesterDid record, hprint⟩

end Answers

/-! ## One post -/

/-- The post that an account has just written. -/
def newPost : StampedRow :=
  ⟨⟨postCollection, "2", "cid2", "\x7b\x7d", some "c"⟩, some "2026-01-02T00:00:00.000Z"⟩

/-- One that it wrote before. -/
def oldPost : StampedRow :=
  ⟨⟨postCollection, "1", "cid1", "\x7b\x7d", some "a"⟩, some "2026-01-01T00:00:00.000Z"⟩

/-- The store's answer with the new post. -/
def newsText : String :=
  "\x7b\"records\":[\x7b\"uri\":\"at://did:web:a/app.bsky.feed.post/2\",\"cid\":\"cid2\"," ++
  "\"collection\":\"app.bsky.feed.post\",\"indexedAt\":\"2026-01-02T00:00:00.000Z\"," ++
  "\"value\":\x7b\x7d\x7d]\x7d"

/-- The store's answer without a record. -/
def noNewsText : String := "\x7b\"records\":[]\x7d"

/-- An empty page. -/
def emptyPage : String := "\x7b\"feed\":[]\x7d"

/-- The page with the new post. -/
def newsPage : String :=
  "\x7b\"feed\":[\x7b\"post\":\x7b\"uri\":\"at://did:web:a/app.bsky.feed.post/2\"," ++
  "\"cid\":\"cid2\",\"record\":\x7b\x7d,\"replyCount\":0,\"repostCount\":0,\"likeCount\":0," ++
  "\"quoteCount\":0,\"indexedAt\":\"2026-01-02T00:00:00.000Z\"\x7d\x7d]\x7d"

/-- The texts of this example. -/
def newsJson : JsonText where
  parse s :=
    if s = newsText then
      some (.object [("records", .array [.object [
        ("uri", .string "at://did:web:a/app.bsky.feed.post/2"), ("cid", .string "cid2"),
        ("collection", .string postCollection),
        ("indexedAt", .string "2026-01-02T00:00:00.000Z"), ("value", .object [])]])])
    else if s = noNewsText then some (.object [("records", .array [])])
    else if s = emptyPage then some (.object [("feed", .array [])])
    else if s = "\x7b\x7d" then some (.object [])
    else none
  print
    | .object [("records", .array [])] => some noNewsText
    | .object [("records", .array [.object [("uri", .string uri), ("cid", .string cid),
        ("collection", .string collection), ("indexedAt", .string indexedAt),
        ("value", .object [])]])] =>
      if uri = "at://did:web:a/app.bsky.feed.post/2" ∧ cid = "cid2" ∧
          collection = postCollection ∧ indexedAt = "2026-01-02T00:00:00.000Z" then some newsText
      else none
    | .object [("feed", .array [_])] => some newsPage
    | _ => none

theorem newsJson_readsBack : newsJson.ReadsBack .number where
  plain _ := ⟨rfl, rfl⟩
  reads := by
    intro j s j' hprint hparse
    rw [Json.reread_number]
    simp only [newsJson] at hprint
    split at hprint
    · cases hprint
      have hparsed : newsJson.parse noNewsText = some (.object [("records", .array [])]) := rfl
      exact Option.some.inj (hparse.symm.trans hparsed)
    · next uri cid collection indexedAt =>
      split_ifs at hprint with hfields
      cases hprint
      obtain ⟨rfl, rfl, rfl, rfl⟩ := hfields
      simp only [newsJson, if_true, Option.some.injEq] at hparse
      exact hparse.symm
    · cases hprint
      have hparsed : newsJson.parse newsPage = none := by decide +kernel
      rw [hparsed] at hparse
      cases hparse
    · cases hprint

/-- The account with both posts. -/
def twoPosts : RecentStore := ⟨"did:web:a", ⟨[oldPost, newPost], by decide⟩⟩

/-- The account with the new post alone. -/
def onePost : RecentStore := ⟨"did:web:a", ⟨[newPost], by decide⟩⟩

/-- The new post comes into an empty timeline. -/
theorem read_after_write_two :
    (readAfterWriteMunge newsJson (some twoPosts) "did:web:a" "app.bsky.feed.getTimeline" "b"
      emptyPage).1 = some newsPage ∧
    AddsOwnNews newsJson .number twoPosts "did:web:a" "app.bsky.feed.getTimeline" "b" emptyPage
      (readAfterWriteMunge newsJson (some twoPosts) "did:web:a" "app.bsky.feed.getTimeline" "b"
        emptyPage).1 :=
  ⟨by decide +kernel, read_after_write newsJson_readsBack⟩

/-- Every record after the revision that is news for a page is put into it. -/
def ShowsAllNews (text : JsonText) (number : Double → Json) (repo : RecentStore)
    (requesterDid nsid repoRev body : String) : Prop :=
  ∀ root feed, text.parse body = some root → root.getObjectItem "feed" = some (.array feed) →
    ∀ r ∈ repo.records.rows, isAfter repoRev r = true →
      ∀ post, rowPost text number repo.did r = some post → isNews feed post = true →
        (readAfterWriteMunge text (some repo) requesterDid nsid repoRev body).1 ≠ none

/-- Where no record is as old as the revision, the new post stays out. -/
theorem first_post_is_left_out :
    ¬ ShowsAllNews newsJson .number onePost "did:web:a" "app.bsky.feed.getTimeline" "b"
      emptyPage := by
  intro hall
  refine hall _ [] rfl rfl newPost (by decide) (by decide) _ rfl (by decide) ?_
  decide +kernel

end MetalBear.Appview
