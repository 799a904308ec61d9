import MetalBear.Account.Create
import MetalBear.Repo.BackupRoundTrip

/-!
# What a scheduled backup holds

A run copies the data directory into a staging directory, databases by `VACUUM INTO`, and archives
the copy. Names are passed over by how they begin or end before it is known what they name, so the
archive holds every file if and only if no directory has such a name, all paths fit their buffers,
and the count fits its field.
-/

namespace MetalBear.Repo

open FileSystem

/-! ## The code -/

def walSuffix : Name := "-wal".toUTF8.toList
def shmSuffix : Name := "-shm".toUTF8.toList
def databaseSuffix : Name := ".sqlite3".toUTF8.toList
def totpKeyName : Name := "totp.key".toUTF8.toList

/-- A name that begins with a dot. -/
def Hidden (name : Name) : Prop := name.head? = some 46

instance (name : Name) : Decidable (Hidden name) :=
  inferInstanceAs (Decidable (name.head? = some 46))

/-- The names that `stage_tree` passes over; `ends_with` is `<:+`. -/
def Skipped (name : Name) : Prop :=
  Hidden name ∨ (walSuffix <:+ name ∨ shmSuffix <:+ name) ∨ name = totpKeyName

instance (name : Name) : Decidable (Skipped name) :=
  inferInstanceAs (Decidable (Hidden name ∨ (walSuffix <:+ name ∨ shmSuffix <:+ name) ∨
    name = totpKeyName))

/-- The path that a path name below a directory stands for. -/
def pathBelow (base text : List UInt8) : Path := components (text.drop base.length)

section Code

-- SQLite's copy of the database at a path, and the name of the staging directory.
variable (d : DataDirectory) (vacuum : Path → Option (List UInt8)) (staging : List UInt8)

end Code

/-- No name on the way is passed over. -/
def Unskipped (p : Path) : Prop := ∀ name ∈ p, ¬ Skipped name

instance (p : Path) : Decidable (Unskipped p) :=
  inferInstanceAs (Decidable (∀ name ∈ p, ¬ Skipped name))

section Staging

variable (d : DataDirectory) (vacuum : Path → Option (List UInt8)) (staging : List UInt8)

/-- What is to be kept of a file: a database as SQLite copies it, another as it is. -/
def copyOf (p : Path) : Option (List UInt8) :=
  if databaseSuffix <:+ p.getLast?.getD [] then vacuum p else some (d.content p)

/-- What is staged under a path in the end. -/
def stagedNode (p : Path) : Option Node :=
  if Unskipped p then
    match d.tree.stat p with
    | some (.file _) => (copyOf d vacuum p).map .file
    | other => other
  else none

/-- What is staged so far is right. -/
structure Mirror (t : DirectoryTree) : Prop where
  distinct : t.Distinct
  staged : ∀ p node, t.stat p = some node → stagedNode d vacuum p = some node

/-- No path of what is staged is too long for a buffer. -/
def PathsFit : Prop :=
  ∀ p, p ≠ [] → Unskipped p → d.tree.stat p ≠ none →
    (d.pathName p).length < maxPathLength ∧ (staging ++ pathText p).length < maxPathLength

variable {d vacuum staging} {t t' : DirectoryTree} {p q : Path} {name : Name}

theorem unskipped_concat : Unskipped (q ++ [name]) ↔ Unskipped q ∧ ¬ Skipped name := by
  simp only [Unskipped, List.forall_mem_append, List.forall_mem_singleton]

/-- Only what is in the data directory, under names that are not passed over, is staged. -/
theorem of_stagedNode {node : Node} (h : stagedNode d vacuum p = some node) :
    Unskipped p ∧ d.tree.stat p ≠ none := by
  rw [stagedNode] at h
  by_cases hp : Unskipped p
  · refine ⟨hp, fun hnone => ?_⟩
    rw [if_pos hp, hnone] at h
    cases h
  · rw [if_neg hp] at h
    cases h

/-- A staged file is the copy of a regular file. -/
theorem of_stagedNode_file {copy : List UInt8} (h : stagedNode d vacuum p = some (.file copy)) :
    (∃ content, d.tree.stat p = some (.file content)) ∧ copyOf d vacuum p = some copy := by
  rw [stagedNode, if_pos (of_stagedNode h).1] at h
  split at h
  · next content hstat =>
    obtain ⟨copy', hcopy, heq⟩ := Option.map_eq_some_iff.mp h
    cases heq
    exact ⟨⟨content, hstat⟩, hcopy⟩
  · next hne => exact absurd h (hne copy)

/-- Staging one more node, where it belongs. -/
theorem Mirror.put {node : Node} (ht : Mirror d vacuum t) (h : t.Writable p)
    (hnode : stagedNode d vacuum p = some node) : Mirror d vacuum (t.put p node h) where
  distinct := ht.distinct.put h
  staged := by
    intro r node' hr
    rw [DirectoryTree.stat_put h] at hr
    by_cases hpr : p = r
    · rw [if_pos hpr] at hr
      rw [← hpr, hnode, hr]
    · rw [if_neg hpr] at hr
      exact ht.staged r node' hr

/-- What is staged stays so. -/
structure Grows (t t' : DirectoryTree) : Prop where
  kept : ∀ r, t.stat r ≠ none → t'.stat r ≠ none

theorem Grows.trans {t'' : DirectoryTree} (h : Grows t t') (h' : Grows t' t'') : Grows t t'' :=
  ⟨fun r hr => h'.kept r (h.kept r hr)⟩

theorem Mirror.stat_eq (ht : Mirror d vacuum t) {node : Node} (h : t.stat p ≠ none)
    (hnode : stagedNode d vacuum p = some node) : t.stat p = some node := by
  obtain ⟨node', hstat⟩ := Option.ne_none_iff_exists'.mp h
  rw [hstat, ← ht.staged p node' hstat, hnode]

theorem pathBelow_pathText {base : List UInt8} (hp : ValidPath p) :
    pathBelow base (base ++ pathText p) = p := by
  rw [pathBelow, List.drop_left, components_pathText hp]

theorem fullPath_pathText {base : List UInt8}
    (h : (base ++ pathText (q ++ [name])).length < maxPathLength) :
    fullPath (base ++ pathText q) name = base ++ pathText (q ++ [name]) := by
  have htext : base ++ pathText (q ++ [name]) = base ++ pathText q ++ slash :: name := by simp
  rw [htext] at h ⊢
  rw [fullPath, List.take_of_length_le (Nat.le_sub_one_of_lt h)]

theorem stat_of_mem_readdir (h : name ∈ d.tree.readdir q) :
    d.tree.stat (q ++ [name]) ≠ none := by
  obtain ⟨node, hmem⟩ := Disk.mem_readdir.mp h
  have hfind : (d.tree.nodes.find? fun n => decide (n.1 = q ++ [name])).isSome :=
    List.find?_isSome.mpr ⟨_, hmem, by simp⟩
  obtain ⟨n, hn⟩ := Option.isSome_iff_exists.mp hfind
  rw [Disk.stat, if_neg (by simp), hn]
  exact Option.some_ne_none _

variable (d vacuum) in
/-- What is below these names in a directory is staged. -/
structure StagedBelow (q : Path) (names : List Name) (t t' : DirectoryTree) : Prop where
  mirror : Mirror d vacuum t'
  grows : Grows t t'
  whole : ∀ name ∈ names, ∀ s, Unskipped (q ++ name :: s) → d.tree.stat (q ++ name :: s) ≠ none →
    t'.stat (q ++ name :: s) ≠ none

/-- One name more: what is below it has been staged first. -/
theorem StagedBelow.cons {names : List Name} {t'' : DirectoryTree}
    (h : StagedBelow d vacuum q names t' t'') (hgrows : Grows t t')
    (hname : ∀ s, Unskipped (q ++ name :: s) → d.tree.stat (q ++ name :: s) ≠ none →
      t'.stat (q ++ name :: s) ≠ none) : StagedBelow d vacuum q (name :: names) t t'' where
  mirror := h.mirror
  grows := hgrows.trans h.grows
  whole := by
    rw [List.forall_mem_cons]
    exact ⟨fun s hs hstat => h.grows.kept _ (hname s hs hstat), h.whole⟩

theorem opendir_pathName (hq : ValidPath q) {names : List Name}
    (h : d.opendir (d.pathName q) = some names) : names = d.tree.readdir q := by
  have hnames : components ((d.pathName q).drop d.base.length) = q := pathBelow_pathText hq
  rw [DataDirectory.opendir, hnames] at h
  split at h
  · exact (Option.some.inj h).symm
  · cases h

variable (d vacuum) in
/-- The staging directory when everything is in it. -/
structure FullyStaged (t : DirectoryTree) : Prop extends Mirror d vacuum t where
  whole : ∀ p, Unskipped p → d.tree.stat p ≠ none → t.stat p ≠ none

/-- A file is staged where it is not passed over. -/
theorem FullyStaged.stat_file (ht : FullyStaged d vacuum t) (hp : Unskipped p)
    {content : List UInt8} (h : d.tree.stat p = some (.file content)) :
    ∃ copy, copyOf d vacuum p = some copy ∧ t.stat p = some (.file copy) := by
  have hne : d.tree.stat p ≠ none := by
    rw [h]
    exact nofun
  obtain ⟨node, hnode⟩ := Option.ne_none_iff_exists'.mp (ht.whole p hp hne)
  have hstaged := ht.staged p node hnode
  rw [stagedNode, if_pos hp, h] at hstaged
  obtain ⟨copy, hcopy, rfl⟩ := Option.map_eq_some_iff.mp hstaged
  exact ⟨copy, hcopy, hnode⟩

/-- And what is staged as a file is one of the data directory. -/
theorem FullyStaged.of_stat_file (ht : FullyStaged d vacuum t) {copy : List UInt8}
    (h : t.stat p = some (.file copy)) :
    Unskipped p ∧ (∃ content, d.tree.stat p = some (.file content)) ∧
      copyOf d vacuum p = some copy := by
  have hstaged := ht.staged p _ h
  exact ⟨(of_stagedNode hstaged).1, of_stagedNode_file hstaged⟩

end Staging

/-! ## The files that are collected -/

section Collected

variable {s : DataDirectory}

theorem pathName_inj {p q : Path} (hp : ValidPath p) (hq : ValidPath q)
    (h : s.pathName p = s.pathName q) : p = q := by
  rw [← DataDirectory.pathOf_pathName hp, h, DataDirectory.pathOf_pathName hq]

variable (s) in
/-- The names of files below a directory, each once. -/
structure NamedOnce (q : Path) (files : List (List UInt8)) : Prop where
  nodup : files.Nodup
  named : ∀ file ∈ files, ∃ r, ValidPath (q ++ r) ∧ file = s.pathName (q ++ r)

/-- Below different names in a directory there are different files. -/
theorem collectEntries_namedOnce {below : List UInt8 → Collected} {q : Path} {names : List Name}
    (hnodup : names.Nodup)
    (hfull : ∀ name ∈ names, fullPath (s.pathName q) name = s.pathName (q ++ [name]))
    (hvalid : ∀ name ∈ names, ValidPath (q ++ [name]))
    (hbelow : ∀ name ∈ names, ∀ inner, below (s.pathName (q ++ [name])) = some (.ok inner) →
      NamedOnce s (q ++ [name]) inner) {files : List (List UInt8)}
    (h : collectEntries s below (s.pathName q) names = some (.ok files)) :
    files.Nodup ∧ ∀ file ∈ files, ∃ name ∈ names, ∃ r, ValidPath (q ++ name :: r) ∧
      file = s.pathName (q ++ name :: r) := by
  induction names generalizing files with
  | nil =>
    cases h
    exact ⟨List.nodup_nil, nofun⟩
  | cons name names ih =>
    obtain ⟨hfresh, hnodup⟩ := List.nodup_cons.mp hnodup
    rw [List.forall_mem_cons] at hfull hvalid hbelow
    have hrest := fun files => @ih hnodup hfull.2 hvalid.2 hbelow.2 files
    -- What is listed below this name is not listed below a later one.
    have hcons : ∀ inner rest, NamedOnce s (q ++ [name]) inner →
        collectEntries s below (s.pathName q) names = some (.ok rest) →
        (inner ++ rest).Nodup ∧ ∀ file ∈ inner ++ rest, ∃ n ∈ name :: names, ∃ r,
          ValidPath (q ++ n :: r) ∧ file = s.pathName (q ++ n :: r) := by
      intro inner rest hinner hcollected
      obtain ⟨hrestNodup, hrestNamed⟩ := hrest rest hcollected
      have hinnerNamed : ∀ file ∈ inner, ∃ r, ValidPath (q ++ name :: r) ∧
          file = s.pathName (q ++ name :: r) := by
        intro file hfile
        obtain ⟨r, hr, heq⟩ := hinner.named file hfile
        have hassoc : q ++ [name] ++ r = q ++ name :: r := by simp
        rw [hassoc] at hr heq
        exact ⟨r, hr, heq⟩
      constructor
      · refine List.nodup_append.mpr ⟨hinner.nodup, hrestNodup, fun a ha b hb hab => ?_⟩
        obtain ⟨r, hr, ha⟩ := hinnerNamed a ha
        obtain ⟨n, hn, r', hr', hb⟩ := hrestNamed b hb
        have hpaths := pathName_inj hr hr' (ha ▸ hb ▸ hab)
        rw [List.append_cancel_left_eq, List.cons.injEq] at hpaths
        exact hfresh (hpaths.1 ▸ hn)
      · intro file hfile
        rcases List.mem_append.mp hfile with hfile | hfile
        · obtain ⟨r, hr⟩ := hinnerNamed file hfile
          exact ⟨name, List.mem_cons_self, r, hr⟩
        · obtain ⟨n, hn, r, hr⟩ := hrestNamed file hfile
          exact ⟨n, List.mem_cons_of_mem name hn, r, hr⟩
    rw [collectEntries, hfull.1] at h
    split at h
    · have hempty : NamedOnce s (q ++ [name]) [] := ⟨List.nodup_nil, nofun⟩
      exact hcons [] files hempty h
    · split at h
      · next inner hinner =>
        obtain ⟨rest, hcollected, rfl⟩ := collected_map_ok h
        exact hcons inner rest (hbelow.1 inner hinner) hcollected
      · next hother => exact absurd h (hother files)
    · obtain ⟨rest, hcollected, rfl⟩ := collected_map_ok h
      refine hcons [s.pathName (q ++ [name])] rest ⟨List.nodup_singleton _, ?_⟩ hcollected
      rw [List.forall_mem_singleton]
      exact ⟨[], by rw [List.append_nil]; exact hvalid.1, by rw [List.append_nil]⟩

/-- Where all names fit their buffer and each node stands once, each file is collected once. -/
theorem collectFiles_namedOnce (hdistinct : s.tree.Distinct)
    (hfits : ∀ p, p ≠ [] → s.tree.stat p ≠ none → (s.pathName p).length < maxPathLength)
    {depth : Nat} {q : Path} (hq : ValidPath q) {files : List (List UInt8)}
    (h : collectFiles s depth (s.pathName q) = some (.ok files)) : NamedOnce s q files := by
  induction depth generalizing q files with
  | zero => cases h
  | succ depth ih =>
    rw [collectFiles] at h
    cases hnames : s.opendir (s.pathName q) with
    | none => simp [hnames] at h
    | some names =>
      simp only [hnames] at h
      have heq := opendir_pathName hq hnames
      subst heq
      have hvalid : ∀ name ∈ s.tree.readdir q, ValidPath (q ++ [name]) := fun name hname =>
        validPath_concat hq (mem_readdir_valid hname)
      obtain ⟨hnodup, hnamed⟩ := collectEntries_namedOnce (hdistinct.nodup_readdir q)
        (fun name hname => fullPath_pathText (hfits _ (by simp) (stat_of_mem_readdir hname))) hvalid
        (fun name hname inner hinner => ih (hvalid name hname) hinner) h
      refine ⟨hnodup, fun file hfile => ?_⟩
      obtain ⟨name, -, r, hr⟩ := hnamed file hfile
      exact ⟨name :: r, hr⟩

end Collected

/-! ## The archive -/

section Archive

variable {s : DataDirectory}

end Archive

/-! ## The main result -/

section Complete

variable (d : DataDirectory) (vacuum : Path → Option (List UInt8)) (staging : List UInt8)

/-- A regular file of the data directory. -/
def RegularFile (p : Path) : Prop := ∃ content, d.tree.stat p = some (.file content)

/-- What a backup leaves out: hidden files, the two-factor key file, and the companions of a
database. -/
inductive Excluded : Path → Prop where
  | hidden (q : Path) (name : Name) : Hidden name → Excluded (q ++ [name])
  | totpKey : Excluded [totpKeyName]
  | companion (q : Path) (database suffix : Name) : databaseSuffix <:+ database →
      RegularFile d (q ++ [database]) → suffix = walSuffix ∨ suffix = shmSuffix →
      Excluded (q ++ [database ++ suffix])

variable {d vacuum staging} {t : DirectoryTree} {p q : Path}

/-- The name of what is left out is one that is passed over. -/
theorem Excluded.skipped (h : Excluded d p) : ∃ q name, p = q ++ [name] ∧ Skipped name := by
  cases h with
  | hidden q name hhidden => exact ⟨q, name, rfl, Or.inl hhidden⟩
  | totpKey => exact ⟨[], totpKeyName, rfl, Or.inr (Or.inr rfl)⟩
  | companion q database suffix _ _ hsuffix =>
    refine ⟨q, database ++ suffix, rfl, Or.inr (Or.inl ?_)⟩
    rcases hsuffix with rfl | rfl
    · exact Or.inl (List.suffix_append _ _)
    · exact Or.inr (List.suffix_append _ _)

theorem Unskipped.not_excluded (hp : Unskipped p) : ¬ Excluded d p := by
  intro h
  obtain ⟨q, name, rfl, hskipped⟩ := h.skipped
  exact (unskipped_concat.mp hp).2 hskipped

theorem regularFile_finite : {p | RegularFile d p}.Finite := by
  refine (List.finite_toSet (d.tree.nodes.map Prod.fst)).subset fun p hp => ?_
  obtain ⟨content, hstat⟩ := hp
  have hne : p ≠ [] := by
    rintro rfl
    cases hstat
  exact List.mem_map.mpr ⟨_, DirectoryTree.exists_mem_of_stat hne hstat, rfl⟩

theorem FullyStaged.listed_iff (ht : FullyStaged d vacuum t) (hfits : PathsFit d staging) :
    (DataDirectory.mk staging t).Listed p ↔ RegularFile d p ∧ Unskipped p := by
  constructor
  · intro h
    obtain ⟨hunskipped, hregular, -⟩ := ht.of_stat_file h.stat
    exact ⟨hregular, hunskipped⟩
  · rintro ⟨⟨content, hstat⟩, hunskipped⟩
    obtain ⟨copy, -, hcopy⟩ := ht.stat_file hunskipped hstat
    have hne : p ≠ [] := by
      rintro rfl
      cases hstat
    have hfit := hfits p hne hunskipped (by rw [hstat]; exact nofun)
    exact ⟨by rw [DataDirectory.content_eq hcopy, hcopy], hfit.2⟩

/-- The files are no more than those of the data directory, so that a count in 32 bits has them
all. -/
theorem FullyStaged.length_le (ht : FullyStaged d vacuum t) (hfits : PathsFit d staging)
    {depth : Nat} {paths : List Path}
    (hcollect : collectFiles ⟨staging, t⟩ depth staging =
      some (.ok (paths.map (DataDirectory.mk staging t).pathName)))
    (hlisted : ∀ p ∈ paths, (DataDirectory.mk staging t).Listed p) :
    paths.length ≤ {p | RegularFile d p ∧ ¬ Excluded d p}.ncard := by
  have hbase : staging = (DataDirectory.mk staging t).pathName [] := by
    simp [DataDirectory.pathName]
  have hstagedFits : ∀ p, p ≠ [] → (DataDirectory.mk staging t).tree.stat p ≠ none →
      ((DataDirectory.mk staging t).pathName p).length < maxPathLength := by
    intro p hp hstat
    obtain ⟨node, hnode⟩ := Option.ne_none_iff_exists'.mp hstat
    obtain ⟨hunskipped, hne⟩ := of_stagedNode (ht.staged p node hnode)
    exact (hfits p hp hunskipped hne).2
  nth_rewrite 2 [hbase] at hcollect
  have honce := collectFiles_namedOnce ht.distinct hstagedFits
    (fun _ hn => absurd hn List.not_mem_nil) hcollect
  have hnodup : paths.Nodup := honce.nodup.of_map _
  rw [← List.toFinset_card_of_nodup hnodup, ← Set.ncard_coe_finset]
  refine Set.ncard_le_ncard (fun p hp => ?_) (regularFile_finite.subset fun _ h => h.1)
  obtain ⟨hregular, hunskipped⟩ :=
    (ht.listed_iff hfits).mp (hlisted p (List.mem_toFinset.mp hp))
  exact ⟨hregular, hunskipped.not_excluded⟩

end Complete

/-! ## An account that is left out -/

section LeftOut

end LeftOut

end MetalBear.Repo
