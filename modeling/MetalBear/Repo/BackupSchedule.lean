import MetalBear.Library.CString
import MetalBear.Library.Calendar
import MetalBear.Library.Machine
import MetalBear.Library.Retention
import MetalBear.Wolfram.Status

/-!
# Scheduled backups and their retention

A run writes a new archive under a name made from the clock, and then removes the first names in
order beyond the number of archives to keep. The names are compared as strings, so the archives kept
are the newest only while the names come in the order of the runs.
-/

namespace MetalBear.Repo

open ByteOrder Calendar Machine Retention

/-- A file name, without the directory. -/
abbrev FileName := List UInt8

/-- Names are compared byte by byte. -/
local instance instLawfulBEqFileName : LawfulBEq (List UInt8) := List.instLawfulBEq

/-- The bytes of an ASCII text. -/
def ascii (text : List Char) : FileName := text.map fun c => UInt8.ofNat c.toNat

/-- `SCHEDULE_PREFIX`. -/
def schedulePrefix : List Char := "metalbear-".toList

/-- `SCHEDULE_SUFFIX`. -/
def scheduleSuffix : List Char := ".bak".toList

/-- What stands in the backup directory, hidden files apart, in the order `readdir` gives it. -/
structure BackupDirectory where
  entries : List FileName
  nodup : entries.Nodup

namespace BackupDirectory

variable {d : BackupDirectory} {name other : FileName}

/-- `unlink`. -/
def without (d : BackupDirectory) (name : FileName) : BackupDirectory :=
  ⟨d.entries.filter (· ≠ name), d.nodup.filter _⟩

/-- A file is created, or written again. -/
def withFile (d : BackupDirectory) (name : FileName) : BackupDirectory where
  entries := (d.without name).entries ++ [name]
  nodup := by
    rw [List.nodup_append]
    refine ⟨(d.without name).nodup, List.nodup_singleton _, fun a ha b hb hab => ?_⟩
    have hne := (List.mem_filter.mp ha).2
    rw [List.mem_singleton] at hb
    simp [hab, hb] at hne

theorem without_entries : (d.without name).entries = d.entries.filter (· ≠ name) := rfl

theorem withFile_entries : (d.withFile name).entries = (d.without name).entries ++ [name] := rfl

@[simp] theorem mem_without :
    other ∈ (d.without name).entries ↔ other ∈ d.entries ∧ other ≠ name := by
  simp [without]

@[simp] theorem mem_withFile :
    other ∈ (d.withFile name).entries ↔ other ∈ d.entries ∨ other = name := by
  by_cases h : other = name <;> simp [withFile, h]

theorem without_entries_of_notMem (h : name ∉ d.entries) :
    (d.without name).entries = d.entries := by
  rw [without, List.filter_eq_self]
  intro a ha
  have hne : a ≠ name := fun heq => h (heq.subst (motive := (· ∈ d.entries)) ha)
  simpa using hne

end BackupDirectory

/-! ## The code -/

/-- `struct timespec`. -/
structure Timespec where
  sec : Int
  nsec : Nat
  valid : nsec < 1000000000

/-- What the system answers in the course of one run. -/
structure RunAnswers where
  /-- `realpath` of the data directory. -/
  realData : Option FileName
  /-- The backup directory is there, or could be made. -/
  mkdirs : Bool
  /-- `realpath` of the backup directory. -/
  realBackup : Option FileName
  /-- `clock_gettime`. -/
  clock : Option Timespec
  /-- The copy in the staging directory, the archive made of it and its verification. -/
  staged : Except WfError Unit
  /-- `rename` of the verified archive. -/
  renames : Bool
  /-- There is memory for the path that is reported. -/
  strdups : Bool
  /-- `opendir` of the backup directory when it is pruned. -/
  opens : Bool
  /-- As many names as there is memory for. -/
  listed : Nat
  /-- `unlink` in the backup directory. -/
  unlinks : FileName → Bool

/-- The name starts and ends like that of an archive. -/
def isArchiveName (name : FileName) : Bool :=
  ascii schedulePrefix <+: name && ascii scheduleSuffix <:+ name

section Code

-- `room` is what a path of `PATH_MAX` bytes leaves for a name after the directory and its slash.
variable (room : Nat)

/-- `%Y%m%dT%H%M%S`. -/
def stampOf (tm : Tm) : List Char :=
  padded 1 tm.year ++ (padded 2 tm.mon ++ (padded 2 tm.mday ++ 'T' :: (padded 2 tm.hour ++
    (padded 2 tm.min ++ padded 2 tm.sec))))

/-- The text of an archive's name. -/
def archiveText (stamp : List Char) (ms : Nat) : List Char :=
  schedulePrefix ++ (stamp ++ '-' :: (padded 3 ms ++ scheduleSuffix))

/-- `archive_name`: the first of a thousand names that no entry has. A path cut at its slash is
that of the directory, which is there. -/
def archiveName (d : BackupDirectory) (clock : Option Timespec) : Option FileName := do
  let ts ← clock
  let tm ← gmtimeR ts.sec
  let ms := ts.nsec / 1000000
  let names := (List.range 1000).map fun bump =>
    (ascii (archiveText (stampOf tm) ((ms + bump) % 1000))).take room
  names.find? fun name => name ≠ [] ∧ name ∉ d.entries

/-- The name of the file that is written first. -/
def tmpName (name : FileName) : FileName := (name ++ ascii ".tmp".toList).take room

/-- `unlink` of one surplus name, whose path may be cut. -/
def pruneOne (answers : RunAnswers) (d : BackupDirectory) (name : FileName) : BackupDirectory :=
  if answers.unlinks (name.take room) then d.without (name.take room) else d

/-- `prune`. -/
def prune (retain : Int) (answers : RunAnswers) (d : BackupDirectory) : BackupDirectory :=
  if retain < 1 then d
  else if answers.opens then
    let names := (d.entries.filter isArchiveName).take answers.listed
    (surplus retain.toNat names).foldl (pruneOne room answers) d
  else d

/-- The backup directory is the data directory or stands in it. -/
def insideData (realData realBackup : FileName) : Bool :=
  realData <+: realBackup &&
    (realBackup.drop realData.length).head?.all (· = UInt8.ofNat '/'.toNat)

/-- The checks with which a run starts. -/
def checkDirectories (answers : RunAnswers) : Except WfError Unit :=
  match answers.realData with
  | none => .error .notFound
  | some realData =>
    if !answers.mkdirs then .error .internal
    else
      match answers.realBackup with
      | none => .error .internal
      | some realBackup =>
        if insideData realData realBackup then .error .invalidArg else .ok ()

/-- `metalbear_backup_run`: what it returns, with the name of the new archive, and what stands in
the backup directory after it. -/
def backupRun (retain : Int) (answers : RunAnswers) (d : BackupDirectory) :
    Except WfError FileName × BackupDirectory :=
  match checkDirectories answers with
  | .error e => (.error e, d)
  | .ok () =>
    match archiveName room d answers.clock with
    | none => (.error .internal, d)
    | some name =>
      match answers.staged with
      | .error e => (.error e, d.without (tmpName room name))
      | .ok () =>
        if answers.renames then
          let renamed := (d.without (tmpName room name)).withFile name
          if answers.strdups then (.ok name, prune room retain answers renamed)
          else (.error .alloc, renamed)
        else (.error .internal, d.without (tmpName room name))

end Code

/-! ## Names and the clock -/

/-- ASCII texts compare as their bytes do. -/
theorem ascii_lt_ascii {a b : List Char} (ha : ∀ c ∈ a, c.toNat < 256)
    (hb : ∀ c ∈ b, c.toNat < 256) (h : a < b) : ascii a < ascii b := by
  induction a generalizing b with
  | nil =>
    cases b with
    | nil => exact absurd h (List.lt_irrefl _)
    | cons c b => exact List.nil_lt_cons _ _
  | cons c a ih =>
    cases b with
    | nil => exact absurd h (List.not_lt_nil _)
    | cons c' b =>
      have hc := ha c (by simp)
      have hc' := hb c' (by simp)
      rw [List.cons_lt_cons_iff] at h
      rw [ascii, ascii, List.map_cons, List.map_cons, List.cons_lt_cons_iff]
      rcases h with hlt | ⟨rfl, hlt⟩
      · left
        have hnat : c.toNat < c'.toNat := hlt
        rw [UInt8.lt_iff_toNat_lt, UInt8.toNat_ofNat', UInt8.toNat_ofNat']
        omega
      · exact Or.inr ⟨rfl, ih (fun x hx => ha x (List.mem_cons_of_mem _ hx))
          (fun x hx => hb x (List.mem_cons_of_mem _ hx)) hlt⟩

/-- Numbers are written in ASCII, -/
theorem padded_ascii (w : Nat) (n : Int) : ∀ c ∈ padded w n, c.toNat < 256 := by
  have hdigits : ∀ (m k : Nat), ∀ c ∈ (Nat.toDigits 10 m).leftpad k '0', c.toNat < 256 := by
    intro m k c hc
    rw [List.leftpad, List.mem_append] at hc
    rcases hc with hpad | hdigit
    · rw [(List.mem_replicate.mp hpad).2]
      decide
    · have hd := Nat.isDigit_of_mem_toDigits (by decide) (by decide) hdigit
      simp only [Char.isDigit, Bool.and_eq_true, decide_eq_true_eq] at hd
      have hle : c.toNat ≤ 57 := hd.2
      omega
  intro c hc
  rw [padded] at hc
  split_ifs at hc
  · rcases List.mem_cons.mp hc with rfl | hc
    · decide
    · exact hdigits _ _ c hc
  · exact hdigits _ _ c hc

/-- and so are the names of archives. -/
theorem archiveText_ascii (tm : Tm) (ms : Nat) :
    ∀ c ∈ archiveText (stampOf tm) ms, c.toNat < 256 := by
  have hpre : schedulePrefix.all (fun c => c.toNat < 256) = true := by decide
  have hsuf : scheduleSuffix.all (fun c => c.toNat < 256) = true := by decide
  intro c hc
  simp only [archiveText, stampOf, List.mem_append, List.mem_cons] at hc
  rcases hc with h | (h | h | h | rfl | h | h | h) | rfl | h | h
  · exact of_decide_eq_true (List.all_eq_true.mp hpre c h)
  · exact padded_ascii _ _ c h
  · exact padded_ascii _ _ c h
  · exact padded_ascii _ _ c h
  · decide
  · exact padded_ascii _ _ c h
  · exact padded_ascii _ _ c h
  · exact padded_ascii _ _ c h
  · decide
  · exact padded_ascii _ _ c h
  · exact of_decide_eq_true (List.all_eq_true.mp hsuf c h)

/-- A year of four digits fills its place without padding. -/
theorem padded_year {y : Int} (h : 1000 ≤ y) : padded 1 y = padded 4 y := by
  have hlong : ¬ (Nat.toDigits 10 y.toNat).length ≤ 3 := by
    rw [Nat.length_toDigits_le_iff (by decide) (by decide)]
    omega
  rw [padded_of_nonneg (by omega), padded_of_nonneg (by omega), List.leftpad, List.leftpad,
    Nat.sub_eq_zero_of_le (by omega), Nat.sub_eq_zero_of_le (by omega)]

/-- While years have four digits, archives of later times have later names. -/
theorem archiveText_lt {t u : Int} {m n : Nat}
    (ht : 1000 ≤ (fields t).year ∧ (fields t).year < 10 ^ 4)
    (hu : 1000 ≤ (fields u).year ∧ (fields u).year < 10 ^ 4) (hm : m < 1000) (hn : n < 1000)
    (h : t < u ∨ t = u ∧ m < n) :
    ascii (archiveText (stampOf (fields t)) m) < ascii (archiveText (stampOf (fields u)) n) := by
  apply ascii_lt_ascii (archiveText_ascii _ _) (archiveText_ascii _ _)
  have hcons (c : Char) {s t : List Char} : c :: s < c :: t ↔ s < t := by simp
  have hkey : key (fields t) m < key (fields u) n := by
    rcases h with hlt | ⟨rfl, hlt⟩
    · exact key_lt hlt m n
    · simpa [key, List.cons_lt_cons_iff] using hlt
  have hft := fits_fields (t := t) (by omega)
  have hfu := fits_fields (t := u) (by omega)
  refine (append_lt_append_iff rfl).mpr (Or.inr ⟨rfl, ?_⟩)
  simp only [stampOf, padded_year ht.1, padded_year hu.1, List.append_assoc, List.cons_append]
  refine Iff.mpr ?_ hkey
  refine padded_append_lt_iff (by decide) hft.year hfu.year ?_
  refine padded_append_lt_iff (by decide) hft.mon hfu.mon ?_
  refine padded_append_lt_iff (by decide) hft.mday hfu.mday ((hcons _).trans ?_)
  refine padded_append_lt_iff (by decide) hft.hour hfu.hour ?_
  refine padded_append_lt_iff (by decide) hft.min hfu.min ?_
  refine padded_append_lt_iff (by decide) hft.sec hfu.sec ((hcons _).trans ?_)
  exact padded_append_lt_iff (by decide) (by omega) (by omega) (by simp)
/-! ## Sequences of runs -/

/-- The backup directory, with a record of the archives that runs reported. -/
structure BackupHistory where
  dir : BackupDirectory
  /-- The archives of all successful runs, in order. -/
  archives : List FileName
  /-- As many of the newest archives as every run since then was asked to keep. -/
  owed : Nat

/-- What happens to a backup directory. -/
inductive BackupEvent where
  | run (retain : Int) (positive : 1 ≤ retain) (answers : RunAnswers)
  /-- Other programs change their files. -/
  | others (dir : BackupDirectory)

variable (room : Nat)

/-- One event. -/
def BackupHistory.step (s : BackupHistory) : BackupEvent → BackupHistory
  | .run retain _ answers =>
    match backupRun room retain answers s.dir with
    | (.ok name, dir) =>
      { dir := dir, archives := s.archives ++ [name], owed := min retain.toNat (s.owed + 1) }
    | (.error _, dir) => { s with dir := dir }
  | .others dir => { s with dir := dir }

/-- The archives that are left are those of the most recent successful runs. -/
structure KeepsNewest (retain : Nat) (archives : List FileName) (dir : BackupDirectory) : Prop where
  newest : ∀ k ∈ archives.rtake retain, k ∈ dir.entries
  only : ∀ k ∈ archives, k ∈ dir.entries → k ∈ archives.rtake retain
  count : (dir.entries.filter (· ∈ archives)).length = min retain archives.length

/-- Nothing the system answers stops the run. -/
def RunAnswers.Completes (answers : RunAnswers) : Prop :=
  checkDirectories answers = .ok () ∧ answers.staged = .ok () ∧ answers.renames = true ∧
    answers.strdups = true

/-- The names that `prune` finds when the new archive is in place. -/
def archiveNames (s : BackupHistory) (name : FileName) : List FileName :=
  s.dir.entries.filter isArchiveName ++ [name]

/-- The archive can be seen for one, earlier runs have left what is to be kept, and where names
are removed, as many sort before every archive to be kept, and they can be removed. -/
structure InOrder (retain : Nat) (s : BackupHistory) (answers : RunAnswers) (name : FileName) :
    Prop where
  uncut : isArchiveName name
  left : retain ≤ s.owed + 1 ∨ s.owed = s.archives.length
  seen : retain < (archiveNames s name).length →
    answers.opens = true ∧ (archiveNames s name).length ≤ answers.listed ∧
      ∀ n ∈ archiveNames s name, n.length ≤ room
  removable : retain < (archiveNames s name).length → ∀ k ∈ s.archives, answers.unlinks k = true
  order : ∀ k ∈ (s.archives ++ [name]).rtake retain,
    (archiveNames s name).length - retain ≤ rank (archiveNames s name) k

/-- A run that is not stopped finds the names in order, and nobody else removes an archive that is
to be kept. -/
def Ordered (s : BackupHistory) : BackupEvent → Prop
  | .run retain _ answers =>
    answers.Completes → ∀ name, archiveName room s.dir answers.clock = some name →
      InOrder room retain.toNat s answers name
  | .others dir => ∀ k ∈ s.archives.rtake s.owed, k ∈ dir.entries

instance (retain : Nat) (s : BackupHistory) (answers : RunAnswers) (name : FileName) :
    Decidable (InOrder room retain s answers name) :=
  decidable_of_iff
    (isArchiveName name ∧ (retain ≤ s.owed + 1 ∨ s.owed = s.archives.length) ∧
      (retain < (archiveNames s name).length →
        answers.opens = true ∧ (archiveNames s name).length ≤ answers.listed ∧
          ∀ n ∈ archiveNames s name, n.length ≤ room) ∧
      (retain < (archiveNames s name).length → ∀ k ∈ s.archives, answers.unlinks k = true) ∧
      ∀ k ∈ (s.archives ++ [name]).rtake retain,
        (archiveNames s name).length - retain ≤ rank (archiveNames s name) k)
    ⟨fun ⟨h₁, h₂, h₃, h₄, h₅⟩ => ⟨h₁, h₂, h₃, h₄, h₅⟩, fun ⟨h₁, h₂, h₃, h₄, h₅⟩ =>
      ⟨h₁, h₂, h₃, h₄, h₅⟩⟩

/-- What holds of a backup directory between events. -/
structure BackupHistory.Inv (s : BackupHistory) : Prop where
  kept : ∀ k ∈ s.archives.rtake s.owed, k ∈ s.dir.entries
  nodup : (s.archives.rtake s.owed).Nodup
  named : ∀ k ∈ s.archives, isArchiveName k
  owed_le : s.owed ≤ s.archives.length

/-! ## What a run does -/

variable {room} {retain : Int} {answers : RunAnswers} {d d' : BackupDirectory} {name : FileName}

/-- A new archive has a name that no entry has. -/
theorem archiveName_eq_some {clock : Option Timespec} (h : archiveName room d clock = some name) :
    name ∉ d.entries ∧ name.length ≤ room := by
  cases clock with
  | none => cases h
  | some ts =>
    simp only [archiveName, Option.bind_eq_bind, Option.bind_some] at h
    obtain ⟨tm, -, hfind⟩ := Option.bind_eq_some_iff.mp h
    have hfree := List.find?_some hfind
    obtain ⟨bump, -, rfl⟩ := List.mem_map.mp (List.mem_of_find?_eq_some hfind)
    refine ⟨?_, List.length_take_le _ _⟩
    simp only [ne_eq, decide_eq_true_eq] at hfree
    exact hfree.2

/-- No part of `.tmp` ends as an archive's name does. -/
theorem isArchiveName_append_tmp {n : Nat} (hn : n ≤ 4) (hpos : 0 < n) (name : FileName) :
    isArchiveName (name ++ (ascii ".tmp".toList).take n) = false := by
  have hlast : ∀ t : FileName, ascii scheduleSuffix <:+ t → t.getLast? = some 107 := by
    rintro _ ⟨front, rfl⟩
    rw [List.getLast?_append]
    rfl
  rw [isArchiveName, Bool.and_eq_false_iff]
  refine Or.inr (Bool.eq_false_iff.mpr fun hsuffix => ?_)
  have h107 := hlast _ (of_decide_eq_true hsuffix)
  have hlast? : ∃ c : UInt8, ((ascii ".tmp".toList).take n).getLast? = some c ∧ c ≠ 107 := by
    interval_cases n <;> simp [ascii]
  obtain ⟨c, hc, hne⟩ := hlast?
  rw [List.getLast?_append, hc, Option.some_or, Option.some.injEq] at h107
  exact hne h107

/-- The file that is written first does not look like an archive, unless its path is cut to that
of the archive. -/
theorem tmpName_eq (hlength : name.length ≤ room) :
    tmpName room name = name ∨ isArchiveName (tmpName room name) = false := by
  rw [tmpName, List.take_append, List.take_of_length_le hlength]
  rcases hlength.eq_or_lt with heq | hlt
  · left
    rw [heq, Nat.sub_self, List.take_zero, List.append_nil]
  · right
    by_cases hfour : room - name.length ≤ 4
    · exact isArchiveName_append_tmp hfour (by omega) name
    · have htake : (ascii ".tmp".toList).take (room - name.length) =
          (ascii ".tmp".toList).take 4 := by
        have hlen : (ascii ".tmp".toList).length = 4 := by decide
        rw [List.take_of_length_le (by omega), List.take_of_length_le hlen.le]
      rw [htake]
      exact isArchiveName_append_tmp le_rfl (by omega) name

/-- No archive has the name of the file that is written first. -/
theorem ne_tmpName {clock : Option Timespec} (h : archiveName room d clock = some name)
    {k : FileName} (hk : k ∈ d.entries) (hnamed : isArchiveName k) : k ≠ tmpName room name := by
  obtain ⟨hfree, hlength⟩ := archiveName_eq_some h
  rintro rfl
  rcases tmpName_eq hlength with heq | hnot
  · exact hfree (heq ▸ hk)
  · rw [hnot] at hnamed
    cases hnamed

/-- A run that succeeds has renamed its archive and pruned. -/
theorem backupRun_ok (h : backupRun room retain answers d = (.ok name, d')) :
    answers.Completes ∧ archiveName room d answers.clock = some name ∧
      d' = prune room retain answers ((d.without (tmpName room name)).withFile name) := by
  unfold backupRun at h
  cases hchecks : checkDirectories answers with
  | error e =>
    rw [hchecks] at h
    cases h
  | ok u =>
    rw [hchecks] at h
    cases hname : archiveName room d answers.clock with
    | none =>
      rw [hname] at h
      cases h
    | some found =>
      rw [hname] at h
      cases hstaged : answers.staged with
      | error e =>
        rw [hstaged] at h
        cases h
      | ok v =>
        rw [hstaged] at h
        simp only at h
        split_ifs at h with hrenames hstrdups
        · cases h
          exact ⟨⟨hchecks, hstaged, hrenames, hstrdups⟩, rfl, rfl⟩
        all_goals cases h

/-- A run that fails removes at most the file it wrote first. -/
theorem mem_of_backupRun_error {e : WfError} (h : backupRun room retain answers d = (.error e, d'))
    {k : FileName} (hk : k ∈ d.entries) (hnamed : isArchiveName k) : k ∈ d'.entries := by
  unfold backupRun at h
  cases hchecks : checkDirectories answers with
  | error e =>
    rw [hchecks] at h
    cases h
    exact hk
  | ok u =>
    rw [hchecks] at h
    cases hname : archiveName room d answers.clock with
    | none =>
      rw [hname] at h
      cases h
      exact hk
    | some found =>
      rw [hname] at h
      have hstays : k ∈ (d.without (tmpName room found)).entries :=
        BackupDirectory.mem_without.mpr ⟨hk, ne_tmpName hname hk hnamed⟩
      cases hstaged : answers.staged with
      | error e =>
        rw [hstaged] at h
        cases h
        exact hstays
      | ok v =>
        rw [hstaged] at h
        simp only at h
        split_ifs at h <;> cases h
        · exact BackupDirectory.mem_withFile.mpr (Or.inl hstays)
        · exact hstays

/-- When the archive is in place, the names that look like archives are the earlier ones and its
own. -/
theorem filter_renamed {s : BackupHistory} {clock : Option Timespec}
    (h : archiveName room s.dir clock = some name) (hnamed : isArchiveName name) :
    ((s.dir.without (tmpName room name)).withFile name).entries.filter isArchiveName =
      archiveNames s name := by
  obtain ⟨hfree, -⟩ := archiveName_eq_some h
  have hnot : name ∉ (s.dir.without (tmpName room name)).entries := by
    rw [BackupDirectory.mem_without]
    exact fun hmem => hfree hmem.1
  rw [BackupDirectory.withFile_entries, BackupDirectory.without_entries_of_notMem hnot,
    archiveNames, List.filter_append, List.filter_singleton, hnamed, cond_true,
    BackupDirectory.without_entries, List.filter_filter]
  congr 1
  refine List.filter_congr fun k hk => ?_
  by_cases hk' : isArchiveName k
  · simpa [hk'] using ne_tmpName h hk hk'
  · simp [hk']

/-- What pruning leaves. -/
theorem mem_foldl_pruneOne (names : List FileName) {k : FileName} :
    k ∈ (names.foldl (pruneOne room answers) d).entries ↔
      k ∈ d.entries ∧ ∀ n ∈ names, answers.unlinks (n.take room) = true → k ≠ n.take room := by
  induction names generalizing d with
  | nil => simp
  | cons n names ih =>
    rw [List.foldl_cons, ih, pruneOne, List.forall_mem_cons, ← and_assoc]
    apply and_congr_left'
    split_ifs with hunlinks
    · rw [BackupDirectory.mem_without]
      simp [hunlinks]
    · simp [hunlinks]

/-- Where the names that look like archives can all be seen, pruning removes the surplus ones that
can be removed. -/
theorem mem_prune (hpositive : 1 ≤ retain)
    (hseen : retain.toNat < (d.entries.filter isArchiveName).length → answers.opens = true ∧
      (d.entries.filter isArchiveName).length ≤ answers.listed ∧
      ∀ n ∈ d.entries.filter isArchiveName, n.length ≤ room) {k : FileName} :
    k ∈ (prune room retain answers d).entries ↔ k ∈ d.entries ∧
      (k ∈ surplus retain.toNat (d.entries.filter isArchiveName) → answers.unlinks k = false) := by
  rw [prune, if_neg (by omega)]
  rcases Nat.lt_or_ge retain.toNat (d.entries.filter isArchiveName).length with hlt | hle
  · obtain ⟨hopens, hlisted, hroom⟩ := hseen hlt
    rw [if_pos hopens, List.take_of_length_le hlisted, mem_foldl_pruneOne]
    apply and_congr_right'
    constructor
    · intro h hk
      have hcut := List.take_of_length_le (hroom k (mem_of_mem_surplus hk))
      have hnot := h k hk
      rw [hcut] at hnot
      simpa using hnot
    · rintro h n hn hunlinks rfl
      rw [List.take_of_length_le (hroom n (mem_of_mem_surplus hn))] at h hunlinks
      rw [h hn] at hunlinks
      cases hunlinks
  · have htake : ((d.entries.filter isArchiveName).take answers.listed).length ≤ retain.toNat := by
      rw [List.length_take]
      omega
    simp only [surplus_eq_nil hle, surplus_eq_nil htake, List.foldl_nil, ite_self,
      List.not_mem_nil, false_implies, and_true]

/-! ## What is kept -/

section Kept

variable {s : BackupHistory} {retain : Nat}

/-- The newest archives are among the names that are found when the new one is in place. -/
theorem BackupHistory.Inv.mem_archiveNames (hinv : s.Inv) (hpositive : 1 ≤ retain)
    (hord : InOrder room retain s answers name) {k : FileName}
    (hk : k ∈ (s.archives ++ [name]).rtake retain) : k ∈ archiveNames s name := by
  obtain ⟨earlier, rfl⟩ : ∃ earlier, retain = earlier + 1 := ⟨retain - 1, by omega⟩
  rw [List.rtake_concat_succ] at hk
  rw [archiveNames]
  refine List.mem_append.mpr ((List.mem_append.mp hk).imp_left fun hk => ?_)
  have hsuffix : s.archives.rtake earlier <:+ s.archives.rtake s.owed :=
    rtake_suffix_of_le_or (hord.left.imp_left (by omega))
  exact List.mem_filter.mpr ⟨hinv.kept k (hsuffix.subset hk),
    hinv.named k ((List.drop_suffix _ _).subset hk)⟩

/-- The newest archives are different files. -/
theorem BackupHistory.Inv.nodup_newest (hinv : s.Inv) (hpositive : 1 ≤ retain)
    (hord : InOrder room retain s answers name) (hfree : name ∉ s.dir.entries) :
    ((s.archives ++ [name]).rtake retain).Nodup := by
  obtain ⟨earlier, rfl⟩ : ∃ earlier, retain = earlier + 1 := ⟨retain - 1, by omega⟩
  have hsuffix : s.archives.rtake earlier <:+ s.archives.rtake s.owed :=
    rtake_suffix_of_le_or (hord.left.imp_left (by omega))
  rw [List.rtake_concat_succ, List.nodup_append]
  refine ⟨hinv.nodup.sublist hsuffix.sublist, List.nodup_singleton _, ?_⟩
  rintro k hk _ hname rfl
  rw [List.mem_singleton] at hname
  exact hfree (hname ▸ hinv.kept k (hsuffix.subset hk))

theorem nodup_archiveNames (hfree : name ∉ s.dir.entries) : (archiveNames s name).Nodup := by
  rw [archiveNames, List.nodup_append]
  refine ⟨s.dir.nodup.filter _, List.nodup_singleton _, ?_⟩
  rintro k hk _ hname rfl
  rw [List.mem_singleton] at hname
  exact hfree (hname ▸ (List.mem_filter.mp hk).1)

/-- When the names are in order, removing the surplus ones leaves exactly the newest archives. -/
theorem BackupHistory.Inv.keepsNewest (hinv : s.Inv) (hpositive : 1 ≤ retain)
    (hord : InOrder room retain s answers name) (hfree : name ∉ s.dir.entries)
    (hmem : ∀ k, k ∈ d.entries ↔ (k ∈ s.dir.entries ∧ k ≠ tmpName room name ∨ k = name) ∧
      (k ∈ surplus retain (archiveNames s name) → answers.unlinks k = false))
    (htmp : ∀ k ∈ s.dir.entries, isArchiveName k → k ≠ tmpName room name) :
    KeepsNewest retain (s.archives ++ [name]) d := by
  have hnames := nodup_archiveNames (s := s) hfree
  have hkept := hinv.nodup_newest hpositive hord hfree
  have hfound : ∀ k ∈ (s.archives ++ [name]).rtake retain, k ∈ archiveNames s name :=
    fun k hk => hinv.mem_archiveNames hpositive hord hk
  have hstay : ∀ k ∈ (s.archives ++ [name]).rtake retain,
      k ∉ surplus retain (archiveNames s name) := by
    intro k hk hgoes
    have hlt := (mem_surplus_iff hnames (hfound k hk)).mp hgoes
    have hle := hord.order k hk
    omega
  have hnewest : ∀ k ∈ (s.archives ++ [name]).rtake retain, k ∈ d.entries := by
    intro k hk
    rw [hmem]
    refine ⟨?_, fun hgoes => absurd hgoes (hstay k hk)⟩
    rcases List.mem_append.mp (hfound k hk) with hold | hnew
    · obtain ⟨hentry, hnamed⟩ := List.mem_filter.mp hold
      exact Or.inl ⟨hentry, htmp k hentry hnamed⟩
    · exact Or.inr (List.mem_singleton.mp hnew)
  have honly : ∀ k ∈ s.archives ++ [name], k ∈ d.entries →
      k ∈ (s.archives ++ [name]).rtake retain := by
    intro k hk hentry
    by_contra hnot
    rcases Nat.lt_or_ge (s.archives ++ [name]).length retain with hlt | hge
    · rw [rtake_of_length_le hlt.le] at hnot
      exact hnot hk
    · have hlength : ((s.archives ++ [name]).rtake retain).length = retain := by
        rw [length_rtake]
        omega
      have hlast : name ∈ (s.archives ++ [name]).rtake retain := by
        obtain ⟨earlier, rfl⟩ : ∃ earlier, retain = earlier + 1 := ⟨retain - 1, by omega⟩
        rw [List.rtake_concat_succ]
        simp
      have hne : k ≠ name := fun heq => hnot (heq ▸ hlast)
      have hold : k ∈ s.archives := by simpa [hne] using hk
      have hseen : k ∈ archiveNames s name := by
        have hthere := ((hmem k).mp hentry).1.resolve_right hne
        exact List.mem_append_left _ (List.mem_filter.mpr ⟨hthere.1, hinv.named k hold⟩)
      have hgoes := mem_surplus_of_kept hnames hkept hlength hfound hstay hseen hnot
      have hbeyond : retain < (archiveNames s name).length := by
        have hpos := List.length_pos_of_mem hgoes
        rw [length_surplus] at hpos
        omega
      have hleft := ((hmem k).mp hentry).2 hgoes
      rw [hord.removable hbeyond k hold] at hleft
      cases hleft
  refine ⟨hnewest, honly, ?_⟩
  have hperm : (d.entries.filter (· ∈ s.archives ++ [name])).Perm
      ((s.archives ++ [name]).rtake retain) := by
    rw [List.perm_ext_iff_of_nodup (d.nodup.filter _) hkept]
    intro k
    rw [List.mem_filter, decide_eq_true_iff]
    constructor
    · rintro ⟨hentry, hk⟩
      exact honly k hk hentry
    · intro hk
      exact ⟨hnewest k hk, (List.drop_suffix _ _).subset hk⟩
  rw [hperm.length_eq, length_rtake]

end Kept

/-! ## Runs in order -/

section Runs

variable {s : BackupHistory} {e : BackupEvent}

/-- A successful run in order keeps the newest archives. -/
theorem BackupHistory.Inv.of_ok (hinv : s.Inv) (hpositive : 1 ≤ retain)
    (hord : Ordered room s (.run retain hpositive answers))
    (hrun : backupRun room retain answers s.dir = (.ok name, d)) :
    InOrder room retain.toNat s answers name ∧ name ∉ s.dir.entries ∧
      KeepsNewest retain.toNat (s.archives ++ [name]) d := by
  obtain ⟨hcompletes, hname, rfl⟩ := backupRun_ok hrun
  have hin := hord hcompletes name hname
  have hfilter := filter_renamed hname hin.uncut
  have hfree := (archiveName_eq_some hname).1
  refine ⟨hin, hfree, hinv.keepsNewest (by omega) hin hfree ?_ fun k => ne_tmpName hname⟩
  intro k
  rw [mem_prune hpositive (by rw [hfilter]; exact hin.seen), hfilter,
    BackupDirectory.mem_withFile, BackupDirectory.mem_without]

/-- Events in order keep the invariant. -/
theorem BackupHistory.Inv.step (hinv : s.Inv) (hord : Ordered room s e) :
    (s.step room e).Inv := by
  cases e with
  | others dir => exact ⟨hord, hinv.nodup, hinv.named, hinv.owed_le⟩
  | run retain hpositive answers =>
    rw [BackupHistory.step]
    rcases hrun : backupRun room retain answers s.dir with ⟨err | name, dir⟩
    · have hstays : ∀ k ∈ s.archives.rtake s.owed, k ∈ dir.entries := by
        intro k hk
        have hold := (List.drop_suffix _ _).subset hk
        exact mem_of_backupRun_error hrun (hinv.kept k hk) (hinv.named k hold)
      exact ⟨hstays, hinv.nodup, hinv.named, hinv.owed_le⟩
    · obtain ⟨hin, hfree, hkeeps⟩ := hinv.of_ok hpositive hord hrun
      have hfewer : (s.archives ++ [name]).rtake (min retain.toNat (s.owed + 1)) <:+
          (s.archives ++ [name]).rtake retain.toNat := rtake_suffix_rtake (by omega)
      have hnodup := hinv.nodup_newest (by omega) hin hfree
      refine ⟨fun k hk => hkeeps.newest k (hfewer.subset hk),
        hnodup.sublist hfewer.sublist, ?_, ?_⟩
      · intro k hk
        rcases List.mem_append.mp hk with hold | hnew
        · exact hinv.named k hold
        · rw [List.mem_singleton.mp hnew]
          exact hin.uncut
      · have howed := hinv.owed_le
        simp only [List.length_append, List.length_singleton]
        omega

end Runs

end MetalBear.Repo
