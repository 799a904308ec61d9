import MetalBear.Json.Value
import MetalBear.Library.RefCount

/-!
# The blob store

The blobs of one account and the records that each of them is associated with. A blob that
its last record lets go of is deleted. Payloads, types and first-seen revs are left out, and
so is the order in which a blob lists its records.
-/

namespace MetalBear.Repo

open RefCount

/-- `blob_cid_is_valid`. -/
def blobCidIsValid (cid : String) : Bool :=
  cid != "" && cid.toList.all fun c =>
    ('a' ≤ c ∧ c ≤ 'z') ∨ ('A' ≤ c ∧ c ≤ 'Z') ∨ ('0' ≤ c ∧ c ≤ '9')

/-- `metalbear_blob_node`. -/
structure BlobNode where
  cid : String
  refs : Finset String
  valid : blobCidIsValid cid = true

/-- `metalbear_blob_store`: one node a CID. -/
structure BlobStore where
  nodes : List BlobNode
  nodup : (nodes.map BlobNode.cid).Nodup

namespace BlobStore

/-- The store of a new account. -/
def empty : BlobStore := ⟨[], List.nodup_nil⟩

/-- `blob_node_find`. -/
def find (s : BlobStore) (cid : String) : Option BlobNode := s.nodes.find? (·.cid == cid)

/-- The blob is in the store. -/
def Stores (s : BlobStore) (cid : String) : Prop := cid ∈ s.nodes.map BlobNode.cid

instance (s : BlobStore) (cid : String) : Decidable (s.Stores cid) :=
  inferInstanceAs (Decidable (cid ∈ s.nodes.map BlobNode.cid))

/-- `metalbear_blob_store_put`. A blob that is stored already keeps its associations. -/
def put (s : BlobStore) (cid : String) (writes : Bool) : BlobStore :=
  if h : blobCidIsValid cid = true ∧ writes = true ∧ ¬ s.Stores cid then
    ⟨⟨cid, ∅, h.1⟩ :: s.nodes, List.nodup_cons.mpr ⟨h.2.2, s.nodup⟩⟩
  else s

/-- The node of that CID with other associations. -/
def setRefs (s : BlobStore) (cid : String) (f : Finset String → Finset String) : BlobStore where
  nodes := s.nodes.map fun n => if n.cid = cid then { n with refs := f n.refs } else n
  nodup := by
    have hcids : (s.nodes.map fun n => if n.cid = cid then { n with refs := f n.refs }
        else n).map BlobNode.cid = s.nodes.map BlobNode.cid := by
      rw [List.map_map]
      apply List.map_congr_left
      intro n _
      simp only [Function.comp_apply]
      split <;> rfl
    rw [hcids]
    exact s.nodup

/-- `blob_store_delete_locked`, where the files of the blob can be moved away. -/
def delete (s : BlobStore) (cid : String) : BlobStore where
  nodes := s.nodes.filter (·.cid ≠ cid)
  nodup := s.nodup.sublist (List.filter_sublist.map _)

/-- `metalbear_blob_store_associate`. -/
def associate (s : BlobStore) (cid uri : String) : BlobStore :=
  if blobCidIsValid cid = false ∨ uri = "" then s else s.setRefs cid (insert uri)

/-- `metalbear_blob_store_dissociate`. -/
def dissociate (s : BlobStore) (cid uri : String) (removes : Bool) : BlobStore :=
  if blobCidIsValid cid = false ∨ uri = "" then s
  else
    match s.find cid with
    | none => s
    | some n =>
      if uri ∈ n.refs ∧ n.refs.erase uri = ∅ ∧ removes = true then s.delete cid
      else s.setRefs cid (·.erase uri)

end BlobStore

/-! ## References of a record -/

/-- The CID that an object names as a blob, if it does: `{"$type": "blob", …}` ends the walk
with or without one. -/
def blobObjectRef (j : Json) : Option (Option String) :=
  match j.getString "$type" with
  | some type =>
    if type = "blob" then
      some ((j.getObjectItem "ref").bind fun ref => ref.getString "$link")
    else none
  | none =>
    match j.getString "cid", j.getString "mimeType" with
    | some cid, some _ => some (some cid)
    | _, _ => none

mutual

/-- `metalbear_blob_walk_refs`: the CIDs in the order of the walk. -/
def blobWalkRefs : Json → List String
  | .object members =>
    match blobObjectRef (.object members) with
    | some ref => ref.toList
    | none => blobWalkMembers members
  | .array items => blobWalkItems items
  | _ => []

def blobWalkItems : List Json → List String
  | [] => []
  | j :: rest => blobWalkRefs j ++ blobWalkItems rest

def blobWalkMembers : List (String × Json) → List String
  | [] => []
  | (_, j) :: rest => blobWalkRefs j ++ blobWalkMembers rest

end

/-! ## The store as a table of references -/

namespace BlobStore

/-- The associations of every blob. -/
def table (s : BlobStore) : Table String String := fun cid => (s.find cid).map BlobNode.refs

theorem stores_iff {s : BlobStore} {cid : String} : s.Stores cid ↔ (s.table cid).isSome = true := by
  simp only [Stores, table, find, Option.isSome_map, List.find?_isSome, List.mem_map, beq_iff_eq]

theorem cid_of_find {s : BlobStore} {cid : String} {n : BlobNode} (h : s.find cid = some n) :
    n.cid = cid := by
  simpa using List.find?_some h

theorem find_setRefs (s : BlobStore) (cid : String) (f : Finset String → Finset String)
    (c : String) :
    (s.setRefs cid f).find c =
      (s.find c).map fun n => if n.cid = cid then { n with refs := f n.refs } else n := by
  have hkey : ((fun n : BlobNode => n.cid == c) ∘ fun n : BlobNode =>
      if n.cid = cid then { n with refs := f n.refs } else n) = fun n => n.cid == c := by
    funext n
    simp only [Function.comp_apply]
    split <;> rfl
  simp only [find, setRefs, List.find?_map, hkey]

theorem table_setRefs (s : BlobStore) (cid : String) (f : Finset String → Finset String) :
    (s.setRefs cid f).table = Function.update s.table cid ((s.table cid).map f) := by
  funext c
  rw [table, find_setRefs]
  by_cases hc : c = cid
  · subst hc
    rw [Function.update_self, table, Option.map_map, Option.map_map]
    cases hfind : s.find c with
    | none => rfl
    | some n => simp [cid_of_find hfind]
  · rw [Function.update_of_ne hc, table, Option.map_map]
    cases hfind : s.find c with
    | none => rfl
    | some n =>
      have hne : n.cid ≠ cid := fun h => hc ((cid_of_find hfind).symm.trans h)
      simp [hne]

theorem table_delete (s : BlobStore) (cid : String) :
    (s.delete cid).table = Function.update s.table cid none := by
  funext c
  by_cases hc : c = cid
  · subst hc
    rw [Function.update_self, table, find, delete, Option.map_eq_none_iff, List.find?_eq_none]
    intro n hn
    simpa using (List.mem_filter.mp hn).2
  · rw [Function.update_of_ne hc, table, table, find, find, delete, List.find?_filter]
    congr 2
    funext n
    by_cases hn : n.cid = c
    · simp [hn, hc]
    · simp [hn]

/-- Nothing is stored under a CID that is not valid. -/
theorem table_of_invalid {s : BlobStore} {cid : String} (h : blobCidIsValid cid = false) :
    s.table cid = none := by
  rw [table, Option.map_eq_none_iff]
  cases hfind : s.find cid with
  | none => rfl
  | some n =>
    have hvalid := n.valid
    rw [cid_of_find hfind, h] at hvalid
    cases hvalid

/-- An association is a link. -/
theorem table_associate {s : BlobStore} {cid uri : String} (huri : uri ≠ "") :
    (s.associate cid uri).table = link s.table (cid, uri) := by
  rw [associate, link]
  cases hvalid : blobCidIsValid cid with
  | false =>
    rw [if_pos (Or.inl rfl), table_of_invalid hvalid, Option.map_none,
      ← table_of_invalid hvalid, Function.update_eq_self]
  | true => rw [if_neg (by simp [huri]), table_setRefs]

/-- A dissociation is an unlink. -/
theorem table_dissociate {s : BlobStore} {cid uri : String} {removes : String → Bool}
    (huri : uri ≠ "") :
    (s.dissociate cid uri (removes cid)).table = unlink removes s.table (cid, uri) := by
  rw [dissociate, unlink]
  cases hvalid : blobCidIsValid cid with
  | false =>
    rw [if_pos (Or.inl rfl), table_of_invalid hvalid, Option.bind_none,
      ← table_of_invalid hvalid, Function.update_eq_self]
  | true =>
    rw [if_neg (by simp [huri])]
    cases hfind : s.find cid with
    | none =>
      have hnone : s.table cid = none := by rw [table, hfind]; rfl
      rw [hnone, Option.bind_none, ← hnone, Function.update_eq_self]
    | some n =>
      have hsome : s.table cid = some n.refs := by rw [table, hfind]; rfl
      rw [hsome, Option.bind_some, drop]
      dsimp only
      split
      · rw [table_delete]
      · rw [table_setRefs, hsome, Option.map_some]

end BlobStore

end MetalBear.Repo
