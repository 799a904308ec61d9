import Mathlib

/-!
# Directory trees and path names

A directory tree as the list of its nodes, each under the names that lead to it; the order of the
list is the order in which directories are read. A path name is a text with slashes, and it is
resolved by the names between them.
-/

namespace FileSystem

abbrev Name := List UInt8

/-- The names that lead to a node. -/
abbrev Path := List Name

inductive Node where
  | dir
  | file (content : List UInt8)
  deriving DecidableEq

/-! ## Path names -/

/-- The slash. -/
def slash : UInt8 := 47

/-- The names of a text: what stands between its slashes, the one under way being `current`. -/
def namesFrom (current : Name) : List UInt8 → Path
  | [] => if current = [] then [] else [current]
  | b :: text =>
    if b = slash then
      if current = [] then namesFrom [] text else current :: namesFrom [] text
    else namesFrom (current ++ [b]) text

/-- The names of a text. -/
def components (text : List UInt8) : Path := namesFrom [] text

/-- The text in which every name follows a slash. -/
def pathText (p : Path) : List UInt8 := p.flatMap (slash :: ·)

/-- A name that a directory can list. -/
structure ValidName (name : Name) : Prop where
  ne_nil : name ≠ []
  no_slash : slash ∉ name
  no_nul : 0 ∉ name

instance (name : Name) : Decidable (ValidName name) :=
  decidable_of_iff (name ≠ [] ∧ slash ∉ name ∧ 0 ∉ name)
    ⟨fun h => ⟨h.1, h.2.1, h.2.2⟩, fun h => ⟨h.ne_nil, h.no_slash, h.no_nul⟩⟩

/-- A path of such names. -/
def ValidPath (p : Path) : Prop := ∀ name ∈ p, ValidName name

instance (p : Path) : Decidable (ValidPath p) :=
  inferInstanceAs (Decidable (∀ name ∈ p, ValidName name))

@[simp] theorem pathText_nil : pathText [] = [] := rfl

@[simp] theorem pathText_cons (name : Name) (p : Path) :
    pathText (name :: p) = slash :: (name ++ pathText p) := rfl

@[simp] theorem pathText_append (p q : Path) : pathText (p ++ q) = pathText p ++ pathText q :=
  List.flatMap_append

/-- A slash ends the name under way. -/
theorem namesFrom_slash {current : Name} (hne : current ≠ []) (text : List UInt8) :
    namesFrom current (slash :: text) = current :: namesFrom [] text :=
  (if_pos rfl).trans (if_neg hne)

theorem namesFrom_nil_slash (text : List UInt8) :
    namesFrom [] (slash :: text) = namesFrom [] text := (if_pos rfl).trans (if_pos rfl)

/-- Any other byte is added to it. -/
theorem namesFrom_of_ne {b : UInt8} (hb : b ≠ slash) (current : Name) (text : List UInt8) :
    namesFrom current (b :: text) = namesFrom (current ++ [b]) text := if_neg hb

theorem namesFrom_append {name : Name} (hname : slash ∉ name) (current : Name)
    (text : List UInt8) : namesFrom current (name ++ text) = namesFrom (current ++ name) text := by
  induction name generalizing current with
  | nil => rw [List.nil_append, List.append_nil]
  | cons b name ih =>
    have hb : b ≠ slash := fun h => hname (h ▸ List.mem_cons_self)
    have hrest : slash ∉ name := fun h => hname (List.mem_cons_of_mem b h)
    rw [List.cons_append, namesFrom_of_ne hb, ih hrest, List.append_assoc, List.singleton_append]

theorem namesFrom_pathText {p : Path} (hp : ValidPath p) {current : Name} (hne : current ≠ []) :
    namesFrom current (pathText p) = current :: namesFrom [] (pathText p) := by
  cases p with
  | nil => exact if_neg hne
  | cons name p => rw [pathText_cons, namesFrom_slash hne, namesFrom_nil_slash]

/-- The names of a path can be read back from its text. -/
theorem components_pathText {p : Path} (hp : ValidPath p) : components (pathText p) = p := by
  induction p with
  | nil => rfl
  | cons name p ih =>
    have hname := hp name List.mem_cons_self
    have hrest : ValidPath p := fun n hn => hp n (List.mem_cons_of_mem name hn)
    rw [components, pathText_cons, namesFrom_nil_slash, namesFrom_append hname.no_slash,
      List.nil_append, namesFrom_pathText hrest hname.ne_nil]
    exact congrArg (name :: ·) (ih hrest)

/-- A slash before a text makes no difference. -/
theorem components_cons_slash (text : List UInt8) :
    components (slash :: text) = components text := namesFrom_nil_slash text

theorem namesFrom_append_slash (current : Name) (text : List UInt8) :
    namesFrom current (text ++ [slash]) = namesFrom current text := by
  induction text generalizing current with
  | nil =>
    by_cases h : current = []
    · subst h
      exact namesFrom_nil_slash []
    · exact (namesFrom_slash h []).trans (if_neg h).symm
  | cons b text ih =>
    by_cases hb : b = slash
    · subst hb
      by_cases h : current = []
      · subst h
        rw [List.cons_append, namesFrom_nil_slash, namesFrom_nil_slash, ih]
      · rw [List.cons_append, namesFrom_slash h, namesFrom_slash h, ih]
    · rw [List.cons_append, namesFrom_of_ne hb, namesFrom_of_ne hb, ih]

/-- Nor does one after it. -/
theorem components_append_slash (text : List UInt8) :
    components (text ++ [slash]) = components text :=
  namesFrom_append_slash [] text

/-- What stands before the last slash: `strrchr` and a NUL in its place. -/
def beforeLastSlash (text : List UInt8) : List UInt8 :=
  ((text.reverse.dropWhile (· ≠ slash)).drop 1).reverse

theorem beforeLastSlash_append {name : Name} (hname : slash ∉ name) (text : List UInt8) :
    beforeLastSlash (text ++ slash :: name) = text := by
  have hdrop : (name.reverse ++ slash :: text.reverse).dropWhile (· ≠ slash) =
      slash :: text.reverse := by
    rw [List.dropWhile_append_of_pos]
    · simp
    · intro b hb
      have : b ≠ slash := fun h => hname (by simpa [h] using hb)
      simpa using this
  have hreverse : (text ++ slash :: name).reverse = name.reverse ++ slash :: text.reverse := by
    simp
  rw [beforeLastSlash, hreverse, hdrop, List.drop_one, List.tail_cons, List.reverse_reverse]

/-! ## Disks -/

/-- The nodes below a directory; where two have the same path, the first counts. -/
structure Disk where
  nodes : List (Path × Node)
  deriving DecidableEq

namespace Disk

/-- `stat`. -/
def stat (d : Disk) (p : Path) : Option Node :=
  if p = [] then some .dir else (d.nodes.find? fun n => decide (n.1 = p)).map Prod.snd

/-- `readdir`, all of it. -/
def readdir (d : Disk) (p : Path) : List Name :=
  d.nodes.filterMap fun n => if n.1.dropLast = p then n.1.getLast? else none

/-- `mkdir`; it fails where there is something, or no directory above. -/
def mkdir (d : Disk) (p : Path) : Disk :=
  if d.stat p = none ∧ d.stat p.dropLast = some .dir then ⟨(p, .dir) :: d.nodes⟩ else d

/-- `fopen` for writing, `fwrite` and `fclose`. -/
def writeFile (d : Disk) (p : Path) (content : List UInt8) : Option Disk :=
  if d.stat p ≠ some .dir ∧ d.stat p.dropLast = some .dir then
    some ⟨(p, .file content) :: d.nodes⟩
  else none

variable {d : Disk} {p q : Path}

@[simp] theorem stat_nil : d.stat [] = some .dir := rfl

theorem stat_cons (hp : p ≠ []) (node : Node) :
    (Disk.mk ((p, node) :: d.nodes)).stat q = if p = q then some node else d.stat q := by
  by_cases hq : q = []
  · subst hq
    rw [if_neg hp]
    rfl
  · rw [stat, if_neg hq, List.find?_cons]
    by_cases hpq : p = q
    · simp [hpq]
    · simp [hpq, stat, hq]

theorem stat_mkdir : (d.mkdir p).stat q =
    if d.stat p = none ∧ d.stat p.dropLast = some .dir ∧ p = q then some .dir else d.stat q := by
  rw [mkdir]
  split
  · next h =>
    have hp : p ≠ [] := fun hp => by simp [hp] at h
    rw [stat_cons hp]
    simp only [h.1, h.2, true_and]
  · next h =>
    rw [if_neg fun h' => h ⟨h'.1, h'.2.1⟩]

theorem stat_mkdir_eq_dir : (d.mkdir p).stat q = some .dir ↔
    d.stat q = some .dir ∨ p = q ∧ d.stat p = none ∧ d.stat p.dropLast = some .dir := by
  rw [stat_mkdir]
  split
  · next h =>
    obtain ⟨hnone, habove, rfl⟩ := h
    simp [hnone, habove]
  · next h => exact ⟨Or.inl, fun hor => hor.resolve_right fun h' => h ⟨h'.2.1, h'.2.2, h'.1⟩⟩

theorem stat_mkdir_eq_file {content : List UInt8} :
    (d.mkdir p).stat q = some (.file content) ↔ d.stat q = some (.file content) := by
  rw [stat_mkdir]
  split
  · next h =>
    obtain ⟨hnone, -, rfl⟩ := h
    simp [hnone]
  · exact Iff.rfl

theorem writeFile_isSome {content : List UInt8} : (d.writeFile p content).isSome ↔
    d.stat p ≠ some .dir ∧ d.stat p.dropLast = some .dir := by
  rw [writeFile]
  split
  · next h => exact iff_of_true rfl h
  · next h => exact iff_of_false nofun h

theorem stat_writeFile {d' : Disk} {content : List UInt8} (h : d.writeFile p content = some d') :
    d'.stat q = if p = q then some (.file content) else d.stat q := by
  rw [writeFile] at h
  split at h
  · next hw =>
    have hp : p ≠ [] := fun hp => by simp [hp] at hw
    cases h
    exact stat_cons hp _
  · cases h

theorem mem_readdir {name : Name} :
    name ∈ d.readdir p ↔ ∃ node, (p ++ [name], node) ∈ d.nodes := by
  rw [readdir, List.mem_filterMap]
  constructor
  · rintro ⟨⟨path, node⟩, hmem, hname⟩
    simp only [Option.ite_none_right_eq_some] at hname
    obtain ⟨hparent, hlast⟩ := hname
    refine ⟨node, ?_⟩
    rw [← hparent, List.dropLast_append_getLast? name hlast]
    exact hmem
  · rintro ⟨node, hmem⟩
    exact ⟨_, hmem, by simp⟩

end Disk

/-- A directory tree: every node is in a directory, under a name of its own. -/
structure DirectoryTree extends Disk where
  valid : ∀ n ∈ nodes, n.1 ≠ [] ∧ ValidPath n.1
  closed : ∀ n ∈ nodes, toDisk.stat n.1.dropLast = some .dir

namespace DirectoryTree

variable {t : DirectoryTree} {p : Path}

theorem exists_mem_of_stat {node : Node} (hp : p ≠ []) (h : t.stat p = some node) :
    (p, node) ∈ t.nodes := by
  rw [Disk.stat, if_neg hp, Option.map_eq_some_iff] at h
  obtain ⟨⟨path, node'⟩, hfind, rfl⟩ := h
  have hpath : path = p := by simpa using List.find?_some hfind
  rw [← hpath]
  exact List.mem_of_find?_eq_some hfind

theorem validPath_of_stat {node : Node} (h : t.stat p = some node) : ValidPath p := by
  by_cases hp : p = []
  · subst hp
    exact fun _ hn => absurd hn List.not_mem_nil
  · exact (t.valid _ (exists_mem_of_stat hp h)).2

/-- What is above a node is a directory. -/
theorem stat_dropLast {node : Node} (h : t.stat p = some node) :
    t.stat p.dropLast = some .dir := by
  by_cases hp : p = []
  · subst hp
    rfl
  · exact t.closed _ (exists_mem_of_stat hp h)

/-- So is everything on the way to it. -/
theorem stat_of_append {q : Path} {node : Node} (hq : q ≠ []) (h : t.stat (p ++ q) = some node) :
    t.stat p = some .dir := by
  induction q using List.reverseRecOn generalizing node with
  | nil => exact absurd rfl hq
  | append_singleton q name ih =>
    have hdir := stat_dropLast h
    rw [← List.append_assoc, List.dropLast_concat] at hdir
    cases q with
    | nil => simpa using hdir
    | cons first q => exact ih (List.cons_ne_nil first q) hdir

/-! ## Writing into a tree -/

/-- Each node stands in the list once. -/
def Distinct (t : DirectoryTree) : Prop := (t.nodes.map Prod.fst).Nodup

/-- A node where there was none, or a file. -/
structure Writable (t : DirectoryTree) (p : Path) : Prop where
  ne_nil : p ≠ []
  valid : ValidPath p
  above : t.stat p.dropLast = some .dir
  free : t.stat p ≠ some .dir

instance (t : DirectoryTree) (p : Path) : Decidable (t.Writable p) :=
  decidable_of_iff (p ≠ [] ∧ ValidPath p ∧ t.stat p.dropLast = some .dir ∧ t.stat p ≠ some .dir)
    ⟨fun h => ⟨h.1, h.2.1, h.2.2.1, h.2.2.2⟩, fun h => ⟨h.ne_nil, h.valid, h.above, h.free⟩⟩

theorem dropLast_ne (hp : p ≠ []) : p.dropLast ≠ p := by
  intro h
  have hlength := congrArg List.length h
  have hpos := List.length_pos_iff.mpr hp
  rw [List.length_dropLast] at hlength
  omega

/-- The nodes, with this one in the place of what was there. -/
def replaced (t : DirectoryTree) (p : Path) (node : Node) : Disk :=
  ⟨(p, node) :: t.nodes.filter (·.1 ≠ p)⟩

theorem stat_replaced (hp : p ≠ []) {node : Node} {q : Path} :
    (t.replaced p node).stat q = if p = q then some node else t.stat q := by
  rw [replaced]
  refine (Disk.stat_cons (d := ⟨t.nodes.filter (·.1 ≠ p)⟩) hp node).trans ?_
  by_cases hpq : p = q
  · rw [if_pos hpq, if_pos hpq]
  · rw [if_neg hpq, if_neg hpq, Disk.stat, Disk.stat, List.find?_filter]
    refine congrArg (fun test => if q = [] then some Node.dir
      else (t.nodes.find? test).map Prod.snd) ?_
    ext n
    by_cases hn : n.1 = q
    · simp [hn, Ne.symm hpq]
    · simp [hn]

/-- The tree with this node in the place of what was there. -/
def put (t : DirectoryTree) (p : Path) (node : Node) (h : t.Writable p) : DirectoryTree where
  toDisk := t.replaced p node
  valid := by
    rw [replaced, List.forall_mem_cons]
    exact ⟨⟨h.ne_nil, h.valid⟩, fun n hn => t.valid n (List.mem_of_mem_filter hn)⟩
  closed := by
    intro n hn
    rw [stat_replaced h.ne_nil]
    rcases List.mem_cons.mp hn with rfl | hn
    · rw [if_neg (dropLast_ne h.ne_nil).symm]
      exact h.above
    · have hdir := t.closed n (List.mem_of_mem_filter hn)
      have hne : p ≠ n.1.dropLast := fun heq => h.free (by rw [heq, hdir])
      rw [if_neg hne]
      exact hdir

theorem stat_put {node : Node} (h : t.Writable p) {q : Path} :
    (t.put p node h).stat q = if p = q then some node else t.stat q :=
  stat_replaced h.ne_nil

theorem Distinct.put {node : Node} (ht : t.Distinct) (h : t.Writable p) :
    (t.put p node h).Distinct := by
  change (p :: (t.nodes.filter (·.1 ≠ p)).map Prod.fst).Nodup
  rw [List.nodup_cons]
  constructor
  · intro hmem
    obtain ⟨n, hn, hnp⟩ := List.mem_map.mp hmem
    simpa [hnp] using (List.mem_filter.mp hn).2
  · exact ht.sublist (List.filter_sublist.map _)

/-- `mkdir`, where `EEXIST` is no failure. -/
def mkdir (t : DirectoryTree) (p : Path) : Option DirectoryTree :=
  if t.stat p ≠ none then some t
  else if h : t.Writable p then some (t.put p .dir h) else none

/-- `fopen` for writing, `fwrite` and `fclose`. -/
def writeFile (t : DirectoryTree) (p : Path) (content : List UInt8) : Option DirectoryTree :=
  if h : t.Writable p then some (t.put p (.file content) h) else none

/-- What a directory holds is listed once. -/
theorem Distinct.nodup_readdir (h : t.Distinct) (q : Path) : (t.readdir q).Nodup := by
  have hmap : t.readdir q = (t.nodes.map Prod.fst).filterMap fun p =>
      if p.dropLast = q then p.getLast? else none := by
    rw [Disk.readdir, List.filterMap_map]
    rfl
  rw [hmap]
  refine List.Nodup.filterMap (fun p p' name hname hname' => ?_) h
  simp only [Option.mem_def, Option.ite_none_right_eq_some] at hname hname'
  obtain ⟨hparent, hlast⟩ := hname
  obtain ⟨hparent', hlast'⟩ := hname'
  rw [← List.dropLast_append_getLast? name hlast, ← List.dropLast_append_getLast? name hlast',
    hparent, hparent']

end DirectoryTree

end FileSystem
