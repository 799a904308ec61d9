import MetalBear.Repo.Backup

/-!
# What a backup restores

A backup restores every file if and only if all paths fit their buffers, no file exceeds the cap
of the reader, the count fits its field, and no directory is needed before the one above it.
-/

namespace MetalBear.Repo

open FileSystem

/-! ## The fields of the archive -/

/-- A number comes back modulo 2^32. -/
theorem uint32Of_bytes (n : Nat) : uint32Of (uint32Bytes n) = n % 2 ^ 32 := by
  simp only [uint32Of, uint32Bytes, UInt8.toNat_ofNat']
  omega

@[simp] theorem length_uint32Bytes (n : Nat) : (uint32Bytes n).length = 4 := rfl

/-- A text that fits its array is padded to the size of the array. -/
theorem length_charArray {size : Nat} {text : List UInt8} (h : text.length < size) :
    (charArray size text).length = size := by
  rw [charArray, List.length_append, List.length_take, List.length_replicate]
  omega

/-- A short string without a NUL is read back from its buffer. -/
theorem stringIn_charArray {size : Nat} {text : List UInt8} (h : text.length < size)
    (hnul : 0 ∉ text) : stringIn (charArray size text) = text := by
  have hzeros : size - min text.length (size - 1) = size - text.length - 1 + 1 := by omega
  rw [charArray, stringIn, List.take_of_length_le (by omega), hzeros, List.replicate_succ,
    List.takeWhile_append_of_pos]
  · simp
  · intro b hb
    have : b ≠ 0 := fun h0 => hnul (h0 ▸ hb)
    simpa using this

/-- The path of an entry fits its field and has no NUL. -/
structure BackupFileEntry.Valid (e : BackupFileEntry) : Prop where
  path_length : e.path.length < maxPathLength
  path_nul : 0 ∉ e.path
  size_lt : e.size < 2 ^ 32

theorem BackupFileEntry.length_bytes {e : BackupFileEntry} (h : e.Valid) :
    e.bytes.length = maxPathLength + 8 := by
  simp only [bytes, List.length_append, length_charArray h.path_length, length_uint32Bytes]

/-- An entry is read back from its bytes. -/
theorem entryOf_bytes {e : BackupFileEntry} (h : e.Valid) : entryOf e.bytes = e := by
  have hlength := length_charArray h.path_length
  have htake : e.bytes.take maxPathLength = charArray maxPathLength e.path := by
    rw [BackupFileEntry.bytes, List.append_assoc, List.take_left' hlength]
  have hdrop : e.bytes.drop maxPathLength = uint32Bytes e.size ++ uint32Bytes e.crc32.toNat := by
    rw [BackupFileEntry.bytes, List.append_assoc, List.drop_left' hlength]
  have hsize : (e.bytes.drop maxPathLength).take 4 = uint32Bytes e.size := by
    rw [hdrop, List.take_left' (length_uint32Bytes _)]
  have hcrc : (e.bytes.drop (maxPathLength + 4)).take 4 = uint32Bytes e.crc32.toNat := by
    rw [← List.drop_drop, hdrop, List.drop_left' (length_uint32Bytes _)]
    rfl
  have hcrcLt := e.crc32.toNat_lt
  rw [entryOf, htake, hsize, hcrc, stringIn_charArray h.path_length h.path_nul, uint32Of_bytes,
    uint32Of_bytes, Nat.mod_eq_of_lt h.size_lt, Nat.mod_eq_of_lt hcrcLt, UInt32.ofNat_toNat]

theorem length_magicField : (charArray 20 backupMagic).length = 20 := by
  decide +kernel

theorem length_headerBytes (n : Nat) : (headerBytes n).length = 28 := by
  simp only [headerBytes, List.length_append, length_uint32Bytes, length_magicField]

/-- The header begins with the magic. -/
theorem stringIn_headerBytes (n : Nat) : stringIn ((headerBytes n).take 20) = backupMagic := by
  rw [headerBytes, List.append_assoc, List.take_left' length_magicField]
  decide +kernel

/-- The header carries the number of files modulo 2^32. -/
theorem fileCount_headerBytes (n : Nat) :
    uint32Of (((headerBytes n).drop 20).take 4) = n % 2 ^ 32 := by
  rw [headerBytes, List.append_assoc, List.drop_left' length_magicField,
    List.take_left' (length_uint32Bytes n), uint32Of_bytes]

/-- A read takes the bytes that were written first. -/
theorem fread_append {n : Nat} {bytes input : List UInt8} (h : bytes.length = n) :
    fread n (bytes ++ input) = some (bytes, input) := by
  rw [fread, if_neg (by rw [List.length_append]; omega), List.take_left' h, List.drop_left' h]

/-! ## The files that are listed -/

section Directory

variable (d : DataDirectory)

/-- The bytes of a file. -/
def DataDirectory.content (p : Path) : List UInt8 :=
  match d.tree.stat p with
  | some (.file content) => content
  | _ => []

/-- The path name of a path below the directory. -/
def DataDirectory.pathName (p : Path) : List UInt8 := d.base ++ pathText p

/-- The path of a regular file whose name fits the buffer. -/
structure DataDirectory.Listed (p : Path) : Prop where
  stat : d.tree.stat p = some (.file (d.content p))
  length_lt : (d.pathName p).length < maxPathLength

/-- The entry of a file. -/
def DataDirectory.entry (p : Path) : BackupFileEntry :=
  ⟨pathText p, (d.content p).length, crc32Compute (d.content p)⟩

/-- What the archive holds of a file. -/
def DataDirectory.record (p : Path) : List UInt8 := (d.entry p).bytes ++ d.content p

variable {d} {p : Path}

theorem DataDirectory.content_eq {content : List UInt8} (h : d.tree.stat p = some (.file content)) :
    d.content p = content := by
  rw [DataDirectory.content, h]

/-- A listed file has a path of valid names. -/
theorem DataDirectory.Listed.validPath (h : d.Listed p) : ValidPath p :=
  DirectoryTree.validPath_of_stat h.stat

theorem DataDirectory.Listed.ne_nil (h : d.Listed p) : p ≠ [] := by
  rintro rfl
  cases h.stat

/-- The name of a path that fits its buffer leads to the path. -/
theorem DataDirectory.stat_pathName (hp : ValidPath p)
    (h : (d.pathName p).length < maxPathLength) : d.stat (d.pathName p) = d.tree.stat p := by
  rw [DataDirectory.stat, if_neg (Nat.not_le.mpr h), DataDirectory.pathName, List.drop_left,
    components_pathText hp]

/-- A path is written without a NUL. -/
theorem zero_not_mem_pathText (hp : ValidPath p) : 0 ∉ pathText p := by
  intro h
  obtain ⟨name, hname, hmem⟩ := List.mem_flatMap.mp h
  rcases List.mem_cons.mp hmem with hslash | hmem
  · cases hslash
  · exact (hp name hname).no_nul hmem

/-- The entry of a listed file fits its fields, if its size fits 32 bits. -/
theorem DataDirectory.Listed.entry_valid (h : d.Listed p) (hsize : (d.content p).length < 2 ^ 32) :
    (d.entry p).Valid where
  path_length := by
    have := h.length_lt
    rw [DataDirectory.pathName, List.length_append] at this
    exact Nat.lt_of_le_of_lt (Nat.le_add_left _ _) this
  path_nul := zero_not_mem_pathText h.validPath
  size_lt := hsize

/-- The name of a directory below the data directory. A slash is at its end where the name of
something below was cut there. -/
structure DataDirectory.DirName (d : DataDirectory) (text : List UInt8) (q : Path) : Prop where
  stat : d.tree.stat q = some .dir
  eq : text = d.pathName q ∨ text = d.pathName q ++ [slash] ∧ text.length = maxPathLength - 1

/-- The name of a directory leads to its path. -/
theorem DataDirectory.DirName.components_eq {text : List UInt8} {q : Path}
    (h : d.DirName text q) : components (text.drop d.base.length) = q := by
  have hq := DirectoryTree.validPath_of_stat h.stat
  rcases h.eq with rfl | ⟨rfl, -⟩
  · rw [DataDirectory.pathName, List.drop_left, components_pathText hq]
  · rw [DataDirectory.pathName, List.append_assoc, List.drop_left, components_append_slash,
      components_pathText hq]

/-- What a directory lists are valid names. -/
theorem mem_readdir_valid {q : Path} {name : Name} (h : name ∈ d.tree.readdir q) :
    ValidName name := by
  obtain ⟨node, hmem⟩ := Disk.mem_readdir.mp h
  exact (d.tree.valid _ hmem).2 name (by simp)

/-- The name of a directory leads to a directory. -/
theorem DataDirectory.DirName.stat_eq {text : List UInt8} {q : Path} (h : d.DirName text q)
    (hlength : text.length < maxPathLength) : d.stat text = some .dir := by
  rw [DataDirectory.stat, if_neg (Nat.not_le.mpr hlength), h.components_eq, h.stat]

/-- What is left of a name that is cut is a valid name, if anything is. -/
theorem validName_take {name : Name} (h : ValidName name) {k : Nat} (hk : 0 < k) :
    ValidName (name.take k) where
  ne_nil := by
    rw [ne_eq, List.take_eq_nil_iff]
    exact fun hor => hor.elim hk.ne' h.ne_nil
  no_slash := fun hmem => h.no_slash (List.mem_of_mem_take hmem)
  no_nul := fun hmem => h.no_nul (List.mem_of_mem_take hmem)

theorem pathName_concat (q : Path) (name : Name) :
    d.pathName (q ++ [name]) = d.pathName q ++ slash :: name := by
  simp [DataDirectory.pathName]

theorem validPath_concat {q : Path} {name : Name} (hq : ValidPath q) (hname : ValidName name) :
    ValidPath (q ++ [name]) := by
  intro n hn
  rcases List.mem_append.mp hn with hn | hn
  · exact hq n hn
  · rw [List.mem_singleton.mp hn]
    exact hname

/-- A path that is put together fits its buffer, cut where it must be. -/
theorem length_fullPath_lt (text : List UInt8) (name : Name) :
    (fullPath text name).length < maxPathLength := by
  have hpos : 0 < maxPathLength := by decide
  rw [fullPath, List.length_take]
  omega

/-- What is left of the name of something in a directory: the name of a file, or once more the
name of a directory. -/
theorem fullPath_cases {text : List UInt8} {q : Path} {name : Name} (hdir : d.DirName text q)
    (hlength : text.length < maxPathLength) (hname : ValidName name) {node : Node}
    (hnode : d.stat (fullPath text name) = some node) :
    (∃ p, fullPath text name = d.pathName p ∧ d.tree.stat p = some node ∧ node ≠ .dir) ∨
      node = .dir ∧ ∃ q', d.DirName (fullPath text name) q' := by
  have hq := DirectoryTree.validPath_of_stat hdir.stat
  have hmax : maxPathLength = 4096 := rfl
  by_cases hroom : text.length = maxPathLength - 1
  · -- No room is left: it is the name of the directory itself.
    have hfull : fullPath text name = text := by
      rw [fullPath, List.take_left' hroom]
    rw [hfull] at hnode ⊢
    rw [hdir.stat_eq hlength] at hnode
    exact Or.inr ⟨(Option.some.inj hnode).symm, q, hdir⟩
  · have htext : text = d.pathName q := hdir.eq.resolve_right fun h => hroom h.2
    obtain ⟨k, hk⟩ : ∃ k, maxPathLength - 1 = text.length + (k + 1) :=
      ⟨maxPathLength - 1 - text.length - 1, by omega⟩
    have hfull : fullPath text name = text ++ slash :: name.take k := by
      rw [fullPath, hk, List.take_length_add_append, List.take_succ_cons]
    by_cases hk0 : k = 0
    · subst hk0
      have hdir' : d.DirName (fullPath text name) q :=
        ⟨hdir.stat, Or.inr ⟨by rw [hfull, htext]; rfl, by rw [hfull]; simp; omega⟩⟩
      rw [hdir'.stat_eq (length_fullPath_lt text name)] at hnode
      exact Or.inr ⟨(Option.some.inj hnode).symm, q, hdir'⟩
    · have hpath : fullPath text name = d.pathName (q ++ [name.take k]) := by
        rw [hfull, htext, pathName_concat]
      have hvalid := validPath_concat hq (validName_take hname (Nat.pos_of_ne_zero hk0))
      have hlt := length_fullPath_lt text name
      rw [hpath] at hlt
      rw [hpath, DataDirectory.stat_pathName hvalid hlt] at hnode
      cases node with
      | file content => exact Or.inl ⟨_, hpath, hnode, nofun⟩
      | dir => exact Or.inr ⟨rfl, _, hnode, Or.inl hpath⟩

/-- Where a collection that goes on succeeds, the rest of it has succeeded. -/
theorem collected_map_ok {c : Collected} {f : List (List UInt8) → List (List UInt8)}
    {files : List (List UInt8)} (h : c.map (·.map f) = some (.ok files)) :
    ∃ rest, c = some (.ok rest) ∧ files = f rest := by
  cases c with
  | none => cases h
  | some result =>
    cases result with
    | error e => cases h
    | ok rest =>
      cases h
      exact ⟨rest, rfl, rfl⟩

/-- What the loop over a directory lists: the files in it, and what is listed below. -/
theorem mem_collectEntries {below : List UInt8 → Collected} {directory : List UInt8}
    {names : List Name} {files : List (List UInt8)}
    (h : collectEntries d below directory names = some (.ok files)) {file : List UInt8} :
    file ∈ files ↔ ∃ name ∈ names,
      (fullPath directory name = file ∧ ∃ content, d.stat file = some (.file content)) ∨
      (d.stat (fullPath directory name) = some .dir ∧
        ∃ inner, below (fullPath directory name) = some (.ok inner) ∧ file ∈ inner) := by
  induction names generalizing files with
  | nil =>
    cases h
    simp
  | cons name names ih =>
    rw [collectEntries] at h
    rw [List.exists_mem_cons_iff]
    cases hstat : d.stat (fullPath directory name) with
    | none =>
      simp only [hstat] at h
      rw [ih h]
      constructor
      · exact Or.inr
      · rintro ((⟨rfl, content, hfile⟩ | ⟨hdir, -⟩) | hrest)
        · rw [hstat] at hfile
          cases hfile
        · cases hdir
        · exact hrest
    | some node =>
      cases node with
      | dir =>
        simp only [hstat] at h
        cases hbelow : below (fullPath directory name) with
        | none => simp [hbelow] at h
        | some result =>
          cases result with
          | error e => simp [hbelow] at h
          | ok inner =>
            simp only [hbelow] at h
            obtain ⟨rest, hrest, rfl⟩ := collected_map_ok h
            rw [List.mem_append, ih hrest]
            refine or_congr ?_ Iff.rfl
            constructor
            · exact fun hmem => Or.inr ⟨rfl, inner, rfl, hmem⟩
            · rintro (⟨rfl, content, hfile⟩ | ⟨-, inner', hinner', hmem⟩)
              · rw [hstat] at hfile
                cases hfile
              · cases hinner'
                exact hmem
      | file content =>
        simp only [hstat] at h
        obtain ⟨rest, hrest, rfl⟩ := collected_map_ok h
        rw [List.mem_cons, ih hrest]
        refine or_congr ?_ Iff.rfl
        constructor
        · rintro rfl
          exact Or.inl ⟨rfl, content, hstat⟩
        · rintro (⟨rfl, -⟩ | ⟨hdir, -⟩)
          · rfl
          · cases hdir

/-- All directories in it have been listed. -/
theorem collectEntries_below {below : List UInt8 → Collected} {directory : List UInt8}
    {names : List Name} {files : List (List UInt8)}
    (h : collectEntries d below directory names = some (.ok files)) :
    ∀ name ∈ names, d.stat (fullPath directory name) = some .dir →
      ∃ inner, below (fullPath directory name) = some (.ok inner) := by
  induction names generalizing files with
  | nil => exact nofun
  | cons name names ih =>
    rw [collectEntries] at h
    rw [List.forall_mem_cons]
    cases hstat : d.stat (fullPath directory name) with
    | none =>
      simp only [hstat] at h
      exact ⟨nofun, ih h⟩
    | some node =>
      cases node with
      | dir =>
        simp only [hstat] at h
        cases hbelow : below (fullPath directory name) with
        | none => simp [hbelow] at h
        | some result =>
          cases result with
          | error e => simp [hbelow] at h
          | ok inner =>
            simp only [hbelow] at h
            obtain ⟨rest, hrest, -⟩ := collected_map_ok h
            exact ⟨fun _ => ⟨inner, rfl⟩, ih hrest⟩
      | file content =>
        simp only [hstat] at h
        obtain ⟨rest, hrest, -⟩ := collected_map_ok h
        exact ⟨nofun, ih hrest⟩

/-- Every file that is listed is a regular file whose name fits. -/
theorem collectFiles_listed {depth : Nat} {text : List UInt8} {q : Path}
    {files : List (List UInt8)} (hdir : d.DirName text q)
    (h : collectFiles d depth text = some (.ok files)) :
    ∀ file ∈ files, ∃ p, file = d.pathName p ∧ d.Listed p := by
  induction depth generalizing text q files with
  | zero => cases h
  | succ depth ih =>
    rw [collectFiles, DataDirectory.opendir] at h
    by_cases hlength : maxPathLength ≤ text.length
    · simp [DataDirectory.stat, hlength] at h
    · have hlength := Nat.lt_of_not_le hlength
      simp only [hdir.stat_eq hlength, hdir.components_eq] at h
      intro file hfile
      obtain ⟨name, hname, hcase⟩ := (mem_collectEntries h).mp hfile
      have hvalid := mem_readdir_valid hname
      rcases hcase with ⟨rfl, content, hstat⟩ | ⟨hstat, inner, hinner, hmem⟩
      · rcases fullPath_cases hdir hlength hvalid hstat with ⟨p, hp, hnode, -⟩ | ⟨hd, -⟩
        · refine ⟨p, hp, ⟨?_, ?_⟩⟩
          · rw [hnode, DataDirectory.content_eq hnode]
          · rw [← hp]
            exact length_fullPath_lt text name
        · cases hd
      · rcases fullPath_cases hdir hlength hvalid hstat with ⟨p, -, -, hne⟩ | ⟨-, q', hq'⟩
        · exact absurd rfl hne
        · exact ih hq' hinner file hmem

theorem length_pathName_append (q s : Path) :
    (d.pathName (q ++ s)).length = (d.pathName q).length + (pathText s).length := by
  simp [DataDirectory.pathName, Nat.add_assoc]

/-- Every regular file whose name fits is listed. -/
theorem mem_collectFiles {depth : Nat} {q s : Path} {files : List (List UInt8)} (hs : s ≠ [])
    (hp : d.Listed (q ++ s)) (h : collectFiles d depth (d.pathName q) = some (.ok files)) :
    d.pathName (q ++ s) ∈ files := by
  induction s generalizing depth q files with
  | nil => exact absurd rfl hs
  | cons name s ih =>
    cases depth with
    | zero => cases h
    | succ depth =>
      have hstat := DirectoryTree.stat_of_append hs hp.stat
      have hdir : d.DirName (d.pathName q) q := ⟨hstat, Or.inl rfl⟩
      have hfits := hp.length_lt
      rw [length_pathName_append] at hfits
      rw [collectFiles, DataDirectory.opendir] at h
      simp only [hdir.stat_eq (by omega), hdir.components_eq] at h
      have hnext : q ++ name :: s = q ++ [name] ++ s := by simp
      -- The next name on the way stands for a node, and its path name fits.
      obtain ⟨node, hnode⟩ : ∃ node, d.tree.stat (q ++ [name]) = some node := by
        cases s with
        | nil => exact ⟨_, hp.stat⟩
        | cons next s =>
          rw [hnext] at hp
          exact ⟨_, DirectoryTree.stat_of_append (List.cons_ne_nil next s) hp.stat⟩
      have hvalid := DirectoryTree.validPath_of_stat hnode
      have hnameFits : (d.pathName (q ++ [name])).length < maxPathLength := by
        have := hp.length_lt
        rw [hnext, length_pathName_append] at this
        omega
      have hfull : fullPath (d.pathName q) name = d.pathName (q ++ [name]) := by
        rw [pathName_concat] at hnameFits ⊢
        rw [fullPath, List.take_of_length_le (by omega)]
      have hname : name ∈ d.tree.readdir q :=
        Disk.mem_readdir.mpr ⟨node, DirectoryTree.exists_mem_of_stat (by simp) hnode⟩
      refine (mem_collectEntries h).mpr ⟨name, hname, ?_⟩
      cases s with
      | nil =>
        refine Or.inl ⟨hfull, d.content (q ++ [name]), ?_⟩
        rw [DataDirectory.stat_pathName hvalid hnameFits]
        exact hp.stat
      | cons next s =>
        rw [hnext] at hp ⊢
        have hbelowDir := DirectoryTree.stat_of_append (List.cons_ne_nil next s) hp.stat
        have hstatFull : d.stat (fullPath (d.pathName q) name) = some .dir := by
          rw [hfull, DataDirectory.stat_pathName hvalid hnameFits, hbelowDir]
        obtain ⟨inner, hinner⟩ := collectEntries_below h name hname hstatFull
        refine Or.inr ⟨hstatFull, inner, hinner, ?_⟩
        rw [hfull] at hinner
        exact ih (List.cons_ne_nil next s) hp hinner

/-! ## Writing and walking -/

/-- Writing a listed file writes its record, unless it is of 4 GiB or more. -/
theorem writeFileEntry_eq (h : d.Listed p) : writeFileEntry d (d.pathName p) =
    if (d.content p).length > 2 ^ 32 - 1 then .error .invalidArg else .ok (d.record p) := by
  have hstat : d.stat (d.pathName p) = some (.file (d.content p)) := by
    rw [DataDirectory.stat_pathName h.validPath h.length_lt, h.stat]
  have hprefix : d.base <+: d.pathName p := List.prefix_append _ _
  have hrel : (d.pathName p).drop d.base.length = pathText p := List.drop_left
  rw [writeFileEntry, hstat]
  simp only [if_pos hprefix, hrel]
  rfl

/-- The entries are written if no file has too many bytes for the field of its size. -/
theorem writeEntries_eq_ok_iff {paths : List Path} (hlisted : ∀ p ∈ paths, d.Listed p)
    {bytes : List UInt8} : writeEntries d (paths.map d.pathName) = .ok bytes ↔
      (∀ p ∈ paths, (d.content p).length < 2 ^ 32) ∧ bytes = paths.flatMap d.record := by
  induction paths generalizing bytes with
  | nil => simp [writeEntries, eq_comm]
  | cons p paths ih =>
    have hrest : ∀ q ∈ paths, d.Listed q := fun q hq => hlisted q (List.mem_cons_of_mem p hq)
    rw [List.map_cons, writeEntries, writeFileEntry_eq (hlisted p List.mem_cons_self),
      List.forall_mem_cons, List.flatMap_cons]
    by_cases hsize : (d.content p).length > 2 ^ 32 - 1
    · rw [if_pos hsize]
      have hbig : ¬ (d.content p).length < 2 ^ 32 := by omega
      exact iff_of_false (fun h => by cases h) fun h => hbig h.1.1
    · rw [if_neg hsize]
      have hsmall : (d.content p).length < 2 ^ 32 := by omega
      simp only [hsmall, true_and]
      cases hw : writeEntries d (paths.map d.pathName) with
      | error e =>
        have : ¬ ∀ q ∈ paths, (d.content q).length < 2 ^ 32 := fun hall => by
          have := (ih hrest).mpr ⟨hall, rfl⟩
          rw [hw] at this
          cases this
        exact iff_of_false (fun h => by cases h) fun h => this h.1
      | ok rest =>
        obtain ⟨hall, rfl⟩ := (ih hrest).mp hw
        simp only [bind, Except.bind, Except.ok.injEq]
        exact ⟨fun h => ⟨hall, h.symm⟩, fun h => h.2.symm⟩

/-- What a walk does with the entries one after another. -/
def visitAll {σ : Type} (d : DataDirectory)
    (visit : σ → BackupFileEntry → List UInt8 → Except WfError σ) : List Path → σ → Except WfError σ
  | [], s => .ok s
  | p :: paths, s =>
    if (d.content p).length > maxEntrySize then .error .invalidArg
    else
      match visit s (d.entry p) (d.content p) with
      | .error e => .error e
      | .ok s => visitAll d visit paths s

/-- Walking the records of files visits the files, in their order. -/
theorem walkEntries_records {σ : Type}
    {visit : σ → BackupFileEntry → List UInt8 → Except WfError σ} {paths : List Path}
    (hvalid : ∀ p ∈ paths, (d.entry p).Valid) {n : Nat} (hn : n ≤ paths.length) (s : σ) :
    walkEntries visit n (paths.flatMap d.record) s = visitAll d visit (paths.take n) s := by
  induction n generalizing paths s with
  | zero => rfl
  | succ n ih =>
    obtain ⟨p, paths, rfl⟩ := List.exists_cons_of_length_pos (Nat.zero_lt_of_lt hn)
    have hp := hvalid p List.mem_cons_self
    have hrest : ∀ q ∈ paths, (d.entry q).Valid := fun q hq =>
      hvalid q (List.mem_cons_of_mem p hq)
    have hentry := entryOf_bytes hp
    have hsize : (d.entry p).size = (d.content p).length := rfl
    have hcrc : (d.entry p).crc32 = crc32Compute (d.content p) := rfl
    rw [List.flatMap_cons, DataDirectory.record, List.append_assoc, walkEntries,
      fread_append (BackupFileEntry.length_bytes hp), List.take_succ_cons, visitAll]
    simp only [hentry, hsize, hcrc, fread_append rfl, ne_eq, not_true_eq_false, if_false]
    split
    · rfl
    · cases visit s (d.entry p) (d.content p) with
      | error e => rfl
      | ok s => exact ih hrest (Nat.le_of_succ_le_succ hn) s

/-- Walking an archive visits its files, as far as the count in the header goes. -/
theorem backupWalk_archive {σ : Type}
    {visit : σ → BackupFileEntry → List UInt8 → Except WfError σ} {paths : List Path}
    (hvalid : ∀ p ∈ paths, (d.entry p).Valid) (s : σ) :
    backupWalk visit (headerBytes paths.length ++ paths.flatMap d.record) s =
      visitAll d visit (paths.take (paths.length % 2 ^ 32)) s := by
  rw [backupWalk, fread_append (length_headerBytes _)]
  simp only [stringIn_headerBytes, ne_eq, not_true_eq_false, if_false, fileCount_headerBytes]
  exact walkEntries_records hvalid (Nat.mod_le _ _) s

/-! ## Restoring -/

/-- The directory is there once these files are: it is the one restored into, or one of the files
lies in it. -/
def DirReady (done : List Path) (q : Path) : Prop := q = [] ∨ ∃ p ∈ done, p.dropLast = q

/-- A directory that is ready stays ready. -/
theorem DirReady.mono {done done' : List Path} {q : Path} (h : DirReady done q)
    (hsub : ∀ p ∈ done, p ∈ done') : DirReady done' q := by
  rcases h with rfl | ⟨p, hp, rfl⟩
  · exact Or.inl rfl
  · exact Or.inr ⟨p, hsub p hp, rfl⟩

/-- What is on the disk when these files have been restored. -/
structure Restored (d : DataDirectory) (done : List Path) (disk : Disk) : Prop where
  dir_iff : ∀ q, disk.stat q = some .dir ↔ DirReady done q
  file_iff : ∀ q content, disk.stat q = some (.file content) ↔
    q ∈ done ∧ d.tree.stat q = some (.file content)

/-- Before the first entry there is the destination alone. -/
theorem restored_nil : Restored d [] ⟨[]⟩ where
  dir_iff q := by
    by_cases hq : q = []
    · simp [hq, DirReady]
    · simp [Disk.stat, hq, DirReady]
  file_iff q content := by
    by_cases hq : q = []
    · simp [hq]
    · simp [Disk.stat, hq]

/-- What `restore_entry` does with the entry of a file. -/
theorem restoreEntry_entry (hp : d.Listed p) (dest : List UInt8) (disk : Disk) :
    restoreEntry dest disk (d.entry p) (d.content p) =
      if maxPathLength ≤ (dest ++ slash :: pathText p).length then .error .internal
      else match (disk.mkdir p.dropLast).writeFile p (d.content p) with
        | none => .error .internal
        | some disk => .ok disk := by
  have hvalid := hp.validPath
  obtain ⟨q, name, hqn⟩ : ∃ q name, p = q ++ [name] :=
    ⟨_, _, (List.dropLast_append_getLast hp.ne_nil).symm⟩
  have hname : ValidName name := hvalid name (by simp [hqn])
  have hq : ValidPath q := fun n hn => hvalid n (by simp [hqn, hn])
  have hfull : dest ++ slash :: pathText p = dest ++ slash :: pathText q ++ slash :: name := by
    simp [hqn]
  have hparent : components ((beforeLastSlash (dest ++ slash :: pathText p)).drop dest.length) =
      p.dropLast := by
    rw [hfull, beforeLastSlash_append hname.no_slash, List.drop_left, components_cons_slash,
      components_pathText hq, hqn, List.dropLast_concat]
  have hself : components ((dest ++ slash :: pathText p).drop dest.length) = p := by
    rw [List.drop_left, components_cons_slash, components_pathText hvalid]
  by_cases hlong : maxPathLength ≤ (dest ++ slash :: pathText p).length
  · simp only [restoreEntry, DataDirectory.entry, hlong, if_true]
  · cases hwrite : (disk.mkdir p.dropLast).writeFile p (d.content p) <;>
      simp only [restoreEntry, DataDirectory.entry, hparent, hself, hlong, if_false, hwrite]

/-- A file of the directory is not the directory of another. -/
theorem not_dirReady {done : List Path} (hdone : ∀ q ∈ done, d.Listed q) (hp : d.Listed p) :
    ¬ DirReady done p := by
  rintro (hnil | ⟨q, hq, hparent⟩)
  · exact hp.ne_nil hnil
  · have hdir := DirectoryTree.stat_dropLast (hdone q hq).stat
    rw [hparent, hp.stat] at hdir
    cases hdir

/-- A file is restored if its directory is ready, or the one above it is. -/
theorem Restored.writeFile_isSome_iff {done : List Path} {disk : Disk}
    (h : Restored d done disk) (hdone : ∀ q ∈ done, d.Listed q) (hp : d.Listed p) :
    ((disk.mkdir p.dropLast).writeFile p (d.content p)).isSome ↔
      DirReady done p.dropLast ∨ DirReady done p.dropLast.dropLast := by
  have hself : (disk.mkdir p.dropLast).stat p ≠ some .dir := by
    rw [ne_eq, Disk.stat_mkdir_eq_dir, h.dir_iff]
    rintro (hready | ⟨heq, -⟩)
    · exact not_dirReady hdone hp hready
    · have hlength := congrArg List.length heq
      have hpos := List.length_pos_iff.mpr hp.ne_nil
      rw [List.length_dropLast] at hlength
      omega
  have hparentDir := DirectoryTree.stat_dropLast hp.stat
  rw [Disk.writeFile_isSome, Disk.stat_mkdir_eq_dir, h.dir_iff, h.dir_iff]
  constructor
  · rintro ⟨-, hready | ⟨-, -, hready⟩⟩
    · exact Or.inl hready
    · exact Or.inr hready
  · rintro (hready | hready)
    · exact ⟨hself, Or.inl hready⟩
    · refine ⟨hself, ?_⟩
      cases hstat : disk.stat p.dropLast with
      | none => exact Or.inr ⟨rfl, rfl, hready⟩
      | some node =>
        cases node with
        | dir => exact Or.inl ((h.dir_iff _).mp hstat)
        | file content =>
          have hfile := ((h.file_iff _ _).mp hstat).2
          rw [hparentDir] at hfile
          cases hfile

/-- A file that is restored makes its own directory ready. -/
theorem dirReady_concat {done : List Path} {q : Path} :
    DirReady (done ++ [p]) q ↔ DirReady done q ∨ p.dropLast = q := by
  simp [DirReady, or_and_right, exists_or, or_assoc]

/-- What is on the disk after one more file. -/
theorem Restored.step {done : List Path} {disk disk' : Disk} (h : Restored d done disk)
    (hdone : ∀ q ∈ done, d.Listed q) (hp : d.Listed p)
    (hw : (disk.mkdir p.dropLast).writeFile p (d.content p) = some disk') :
    Restored d (done ++ [p]) disk' := by
  have hmade : (disk.mkdir p.dropLast).stat p.dropLast = some .dir :=
    (Disk.writeFile_isSome.mp (by rw [hw]; rfl)).2
  have hparent : p.dropLast ≠ p := fun heq => by
    have hlength := congrArg List.length heq
    have hpos := List.length_pos_iff.mpr hp.ne_nil
    rw [List.length_dropLast] at hlength
    omega
  refine ⟨fun q => ?_, fun q content => ?_⟩
  · rw [Disk.stat_writeFile hw, dirReady_concat]
    by_cases hpq : p = q
    · subst hpq
      rw [if_pos rfl]
      exact iff_of_false nofun fun hor => hor.elim (not_dirReady hdone hp) hparent
    · rw [if_neg hpq]
      by_cases hq : p.dropLast = q
      · rw [← hq]
        exact iff_of_true hmade (Or.inr rfl)
      · rw [Disk.stat_mkdir_eq_dir, h.dir_iff]
        simp only [hq, false_and, or_false]
  · rw [Disk.stat_writeFile hw, List.mem_append, List.mem_singleton]
    by_cases hpq : p = q
    · subst hpq
      rw [if_pos rfl, hp.stat]
      exact ⟨fun heq => ⟨Or.inr rfl, heq⟩, fun heq => heq.2⟩
    · rw [if_neg hpq, Disk.stat_mkdir_eq_file, h.file_iff]
      simp only [Ne.symm hpq, or_false]

/-- The file can be restored after the others: neither its size nor its name under the new
directory is too large, and its directory can be made. -/
structure Enters (d : DataDirectory) (dest : List UInt8) (done : List Path) (p : Path) : Prop where
  small : (d.content p).length ≤ maxEntrySize
  fits : (dest ++ slash :: pathText p).length < maxPathLength
  ready : DirReady done p.dropLast ∨ DirReady done p.dropLast.dropLast

/-- The files are restored if they enter one after the other. -/
theorem visitAll_restoreEntry (dest : List UInt8) {done rest : List Path} {disk : Disk}
    (h : Restored d done disk) (hdone : ∀ q ∈ done, d.Listed q) (hrest : ∀ q ∈ rest, d.Listed q) :
    (∃ disk', visitAll d (restoreEntry dest) rest disk = .ok disk' ∧
        Restored d (done ++ rest) disk') ∧
      (∀ before p after, rest = before ++ p :: after → Enters d dest (done ++ before) p) ∨
    (∃ e, visitAll d (restoreEntry dest) rest disk = .error e) ∧
      ∃ before p after, rest = before ++ p :: after ∧ ¬ Enters d dest (done ++ before) p := by
  induction rest generalizing done disk with
  | nil =>
    refine Or.inl ⟨⟨disk, rfl, by rwa [List.append_nil]⟩, fun before p after heq => ?_⟩
    simp at heq
  | cons p rest ih =>
    have hp := hrest p List.mem_cons_self
    rw [visitAll, restoreEntry_entry hp]
    by_cases hsmall : (d.content p).length > maxEntrySize
    · rw [if_pos hsmall]
      refine Or.inr ⟨⟨_, rfl⟩, [], p, rest, rfl, fun hen => ?_⟩
      exact absurd hen.small (Nat.not_le.mpr hsmall)
    · rw [if_neg hsmall]
      by_cases hfits : maxPathLength ≤ (dest ++ slash :: pathText p).length
      · rw [if_pos hfits]
        refine Or.inr ⟨⟨_, rfl⟩, [], p, rest, rfl, fun hen => ?_⟩
        exact absurd hen.fits (Nat.not_lt.mpr hfits)
      · rw [if_neg hfits]
        have hready := h.writeFile_isSome_iff hdone hp
        cases hw : (disk.mkdir p.dropLast).writeFile p (d.content p) with
        | none =>
          rw [hw] at hready
          refine Or.inr ⟨⟨_, rfl⟩, [], p, rest, rfl, fun hen => ?_⟩
          rw [List.append_nil] at hen
          exact absurd (hready.mpr hen.ready) (by simp)
        | some disk' =>
          rw [hw] at hready
          have hen : Enters d dest done p :=
            ⟨Nat.le_of_not_lt hsmall, Nat.lt_of_not_le hfits, hready.mp rfl⟩
          have hdone' : ∀ q ∈ done ++ [p], d.Listed q := by
            intro q hq
            rcases List.mem_append.mp hq with hq | hq
            · exact hdone q hq
            · rw [List.mem_singleton.mp hq]
              exact hp
          rcases ih (h.step hdone hp hw) hdone' fun q hq => hrest q (List.mem_cons_of_mem p hq) with
            ⟨⟨disk'', hok, hrestored⟩, hall⟩ | ⟨herror, before, q, after, rfl, hnot⟩
          · refine Or.inl ⟨⟨disk'', hok, by simpa using hrestored⟩, fun before q after heq => ?_⟩
            cases before with
            | nil =>
              cases heq
              rwa [List.append_nil]
            | cons first before =>
              rw [List.cons_append, List.cons.injEq] at heq
              obtain ⟨rfl, heq⟩ := heq
              simpa using hall before q after heq
          · refine Or.inr ⟨herror, p :: before, q, after, rfl, ?_⟩
            simpa using hnot

/-- Where every file can enter, the directory above the one of a file is always ready. -/
theorem dirReady_of_enters {dest : List UInt8} {files : List Path}
    (h : ∀ before p after, files = before ++ p :: after → Enters d dest before p)
    (before : List Path) (p : Path) (after : List Path) (heq : files = before ++ p :: after) :
    DirReady before p.dropLast.dropLast := by
  induction hlength : before.length using Nat.strong_induction_on generalizing before p after with
  | _ n ih =>
  subst hlength
  rcases (h before p after heq).ready with hparent | habove
  · rcases hparent with hnil | ⟨q, hq, hsame⟩
    · exact Or.inl (by rw [hnil]; rfl)
    · -- The file that lies beside it came before, and is settled by induction.
      obtain ⟨first, second, rfl⟩ := List.append_of_mem hq
      have hfirst := ih first.length (by simp) first q (second ++ p :: after)
        (by rw [heq]; simp) rfl
      rw [← hsame]
      exact hfirst.mono fun r hr => List.mem_append_left _ hr
  · exact habove

/-- An archive is verified where every file is small enough to be read. -/
theorem visitAll_verify {paths : List Path}
    (h : ∀ p ∈ paths, (d.content p).length ≤ maxEntrySize) :
    visitAll d (fun _ _ _ => .ok ()) paths () = .ok () := by
  induction paths with
  | nil => rfl
  | cons p paths ih =>
    rw [visitAll, if_neg (Nat.not_lt.mpr (h p List.mem_cons_self))]
    exact ih fun q hq => h q (List.mem_cons_of_mem p hq)

/-! ## The main result -/

variable (d) in
/-- The path that a path name below the directory stands for. -/
def DataDirectory.pathOf (file : List UInt8) : Path := components (file.drop d.base.length)

/-- The path is read off the name. -/
theorem DataDirectory.pathOf_pathName (hp : ValidPath p) : d.pathOf (d.pathName p) = p := by
  rw [DataDirectory.pathOf, DataDirectory.pathName, List.drop_left, components_pathText hp]

/-- The listed names stand for regular files. -/
theorem collectFiles_paths {depth : Nat} {files : List (List UInt8)}
    (h : collectFiles d depth d.base = some (.ok files)) :
    files = (files.map d.pathOf).map d.pathName ∧ ∀ p ∈ files.map d.pathOf, d.Listed p := by
  have hdir : d.DirName d.base [] := ⟨rfl, Or.inl (by simp [DataDirectory.pathName])⟩
  have hlisted := collectFiles_listed hdir h
  constructor
  · rw [List.map_map]
    refine (List.map_congr_left fun file hfile => ?_).trans (List.map_id files) |>.symm
    obtain ⟨p, rfl, hp⟩ := hlisted file hfile
    rw [Function.comp_apply, DataDirectory.pathOf_pathName hp.validPath]
    rfl
  · intro q hq
    obtain ⟨file, hfile, rfl⟩ := List.mem_map.mp hq
    obtain ⟨p, rfl, hp⟩ := hlisted file hfile
    rwa [DataDirectory.pathOf_pathName hp.validPath]

variable (d) in
/-- A backup that is reported good passes the verification, and restoring it into an empty
directory brings back every file. -/
def BackupRestores (dest : List UInt8) : Prop :=
  ∀ depth archive, backupCreate d depth = some (.ok archive) →
    backupVerify archive = .ok () ∧
      ∃ disk, backupRestore archive dest ⟨[]⟩ = .ok disk ∧
        ∀ p content, d.tree.stat p = some (.file content) → disk.stat p = some (.file content)

variable (d) in
/-- The condition, with the files in the order in which they are collected: names and sizes are
not too large, the count of the header covers every file, and for a file two or more directories
deep, an earlier one lies in the directory above its own. -/
structure Restorable (dest : List UInt8) (files : List Path) : Prop where
  path_fits : ∀ p content, d.tree.stat p = some (.file content) →
    (d.pathName p).length < maxPathLength ∧ (dest ++ slash :: pathText p).length < maxPathLength
  small : ∀ p content, d.tree.stat p = some (.file content) → content.length ≤ maxEntrySize
  counted : ∀ p ∈ files, p ∈ files.take (files.length % 2 ^ 32)
  ordered : ∀ before p after, files.take (files.length % 2 ^ 32) = before ++ p :: after →
    DirReady before p.dropLast.dropLast

/-- A directory of which every file comes back meets the condition. -/
theorem restorable_of_restores {dest : List UInt8} {paths : List Path} {disk : Disk}
    (hlisted : ∀ p ∈ paths, d.Listed p)
    (hrestore : visitAll d (restoreEntry dest) (paths.take (paths.length % 2 ^ 32)) ⟨[]⟩ = .ok disk)
    (hall : ∀ p content, d.tree.stat p = some (.file content) →
      disk.stat p = some (.file content)) : Restorable d dest paths := by
  have htaken : ∀ p ∈ paths.take (paths.length % 2 ^ 32), d.Listed p := fun p hp =>
    hlisted p (List.mem_of_mem_take hp)
  rcases visitAll_restoreEntry dest restored_nil nofun htaken with
    ⟨⟨disk', hok, hrestored⟩, henters⟩ | ⟨⟨e, herror⟩, -⟩
  · rw [hrestore, Except.ok.injEq] at hok
    subst hok
    simp only [List.nil_append] at hrestored henters
    have hmem : ∀ p content, d.tree.stat p = some (.file content) →
        p ∈ paths.take (paths.length % 2 ^ 32) := fun p content hp =>
      ((hrestored.file_iff p content).mp (hall p content hp)).1
    have hen : ∀ p ∈ paths.take (paths.length % 2 ^ 32), ∃ before, Enters d dest before p := by
      intro p hp
      obtain ⟨before, after, heq⟩ := List.append_of_mem hp
      exact ⟨before, henters before p after heq⟩
    constructor
    · intro p content hp
      obtain ⟨before, hp'⟩ := hen p (hmem p content hp)
      exact ⟨(htaken p (hmem p content hp)).length_lt, hp'.fits⟩
    · intro p content hp
      obtain ⟨before, hp'⟩ := hen p (hmem p content hp)
      rw [← DataDirectory.content_eq hp]
      exact hp'.small
    · exact fun p hp => hmem p _ (hlisted p hp).stat
    · exact dirReady_of_enters henters
  · rw [hrestore] at herror
    cases herror

/-- Where the condition holds, the archive verifies and every file comes back. -/
theorem restores_of_restorable {dest : List UInt8} {paths : List Path}
    (hlisted : ∀ p ∈ paths, d.Listed p)
    (hcomplete : ∀ p, d.Listed p → p ∈ paths) (h : Restorable d dest paths) :
    visitAll d (fun _ _ _ => .ok ()) (paths.take (paths.length % 2 ^ 32)) () = .ok () ∧
      ∃ disk, visitAll d (restoreEntry dest) (paths.take (paths.length % 2 ^ 32)) ⟨[]⟩ = .ok disk ∧
        ∀ p content, d.tree.stat p = some (.file content) →
          disk.stat p = some (.file content) := by
  have htaken : ∀ p ∈ paths.take (paths.length % 2 ^ 32), d.Listed p := fun p hp =>
    hlisted p (List.mem_of_mem_take hp)
  refine ⟨visitAll_verify fun p hp => h.small p _ (htaken p hp).stat, ?_⟩
  rcases visitAll_restoreEntry dest restored_nil nofun htaken with
    ⟨⟨disk, hok, hrestored⟩, -⟩ | ⟨-, before, p, after, heq, hnot⟩
  · refine ⟨disk, hok, fun p content hp => (hrestored.file_iff p content).mpr ⟨?_, hp⟩⟩
    refine h.counted p (hcomplete p ⟨?_, (h.path_fits p content hp).1⟩)
    rw [hp, DataDirectory.content_eq hp]
  · have hp := (htaken p (by rw [heq]; simp)).stat
    exact absurd ⟨h.small p _ hp, (h.path_fits p _ hp).2, Or.inr (h.ordered before p after heq)⟩ hnot

/-- A backup of the directory can be restored if and only if the condition holds of the files that
are collected, or one of them is too large for the archive. -/
theorem backupRestores_iff (d : DataDirectory) (dest : List UInt8) :
    BackupRestores d dest ↔ ∀ depth files, collectFiles d depth d.base = some (.ok files) →
      (∀ p ∈ files.map d.pathOf, (d.content p).length < 2 ^ 32) →
      Restorable d dest (files.map d.pathOf) := by
  have hwalk : ∀ {σ : Type} (visit : σ → BackupFileEntry → List UInt8 → Except WfError σ)
      (files : List (List UInt8)), (∀ p ∈ files.map d.pathOf, d.Listed p) →
      (∀ p ∈ files.map d.pathOf, (d.content p).length < 2 ^ 32) → ∀ s,
      backupWalk visit (headerBytes files.length ++ (files.map d.pathOf).flatMap d.record) s =
        visitAll d visit ((files.map d.pathOf).take ((files.map d.pathOf).length % 2 ^ 32)) s := by
    intro σ visit files hlisted hsizes s
    have hvalid : ∀ p ∈ files.map d.pathOf, (d.entry p).Valid := fun p hp =>
      (hlisted p hp).entry_valid (hsizes p hp)
    rw [← backupWalk_archive hvalid s, List.length_map]
  constructor
  · intro hgood depth files hfiles hsizes
    obtain ⟨hnames, hlisted⟩ := collectFiles_paths hfiles
    have hwrite := (writeEntries_eq_ok_iff hlisted).mpr ⟨hsizes, rfl⟩
    rw [← hnames] at hwrite
    have hcreate : backupCreate d depth =
        some (.ok (headerBytes files.length ++ (files.map d.pathOf).flatMap d.record)) := by
      rw [backupCreate, hfiles, Option.map_some]
      simp only [bind, Except.bind, hwrite]
    obtain ⟨-, disk, hrestore, hall⟩ := hgood depth _ hcreate
    rw [backupRestore, hwalk _ files hlisted hsizes] at hrestore
    exact restorable_of_restores hlisted hrestore hall
  · intro hcond depth archive hcreate
    rw [backupCreate, Option.map_eq_some_iff] at hcreate
    obtain ⟨collected, hcollect, harchive⟩ := hcreate
    cases collected with
    | error e => cases harchive
    | ok files =>
      obtain ⟨hnames, hlisted⟩ := collectFiles_paths hcollect
      cases hwrite : writeEntries d files with
      | error e => simp [bind, Except.bind, hwrite] at harchive
      | ok entries =>
        simp only [bind, Except.bind, hwrite, Except.ok.injEq] at harchive
        rw [hnames] at hwrite
        obtain ⟨hsizes, rfl⟩ := (writeEntries_eq_ok_iff hlisted).mp hwrite
        subst harchive
        have hcomplete : ∀ p, d.Listed p → p ∈ files.map d.pathOf := by
          intro p hp
          have hbase : d.pathName [] = d.base := by simp [DataDirectory.pathName]
          rw [← hbase] at hcollect
          have hmem := mem_collectFiles (q := []) hp.ne_nil hp hcollect
          refine List.mem_map.mpr ⟨_, hmem, ?_⟩
          exact DataDirectory.pathOf_pathName hp.validPath
        rw [backupVerify, backupRestore, hwalk _ files hlisted hsizes,
          hwalk _ files hlisted hsizes]
        exact restores_of_restorable hlisted hcomplete (hcond depth files hcollect hsizes)

end Directory

/-! ## A backup that cannot be restored -/

section Nested

/-- An empty file `f` two directories deep. -/
def nestedFile : DataDirectory where
  base := "/data".toUTF8.toList
  tree :=
    { nodes := [([[97]], .dir), ([[97], [98]], .dir), ([[97], [98], [102]], .file [])]
      valid := by decide
      closed := by decide }

/-- The backup is made; restoring it stops at the directory of its only file. -/
theorem nested_file_is_not_restored :
    (∃ archive, backupCreate nestedFile 3 = some (.ok archive) ∧
      (backupRestore archive "/new".toUTF8.toList ⟨[]⟩).toOption = none) ∧
      ¬ BackupRestores nestedFile "/new".toUTF8.toList := by
  have hruns : ((backupCreate nestedFile 3).bind Except.toOption).map (fun archive =>
      (backupRestore archive "/new".toUTF8.toList ⟨[]⟩).toOption) = some none := by
    decide +kernel
  obtain ⟨archive, hmade, hfails⟩ := Option.map_eq_some_iff.mp hruns
  obtain ⟨result, hresult, hok⟩ := Option.bind_eq_some_iff.mp hmade
  have hcreate : backupCreate nestedFile 3 = some (.ok archive) := by
    cases result with
    | error e => cases hok
    | ok made =>
      cases hok
      exact hresult
  refine ⟨⟨archive, hcreate, hfails⟩, fun hgood => ?_⟩
  obtain ⟨-, disk, hrestored, -⟩ := hgood 3 archive hcreate
  rw [hrestored] at hfails
  cases hfails

end Nested

end MetalBear.Repo
