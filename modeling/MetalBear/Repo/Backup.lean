import MetalBear.Library.FileSystem
import MetalBear.Wolfram.Status

/-!
# Backups

The archive of a data directory: a header with the number of entries, and for every regular file
an entry with its path, its size and its checksum, followed by its bytes. Restoring and verifying
walk the same archive.
-/

namespace MetalBear.Repo

open FileSystem

/-- `MAX_PATH_LENGTH`; `PATH_MAX` of the system is the same. -/
def maxPathLength : Nat := 4096

/-- The data directory under the name it is given by, with all that is below it. -/
structure DataDirectory where
  base : List UInt8
  tree : DirectoryTree

/-! ## The archive -/

/-- `crc32_update`, one bit of a byte. -/
def crc32Bit (crc : UInt32) : UInt32 := (crc >>> 1) ^^^ (0xEDB88320 &&& (0 - (crc &&& 1)))

/-- `crc32_update`. -/
def crc32Update (running : UInt32) (data : List UInt8) : UInt32 :=
  ~~~ data.foldl (fun crc b => crc32Bit^[8] (crc ^^^ b.toUInt32)) (~~~ running)

/-- `crc32_compute`. -/
def crc32Compute (data : List UInt8) : UInt32 := crc32Update 0 data

/-- A `uint32_t` in the archive. -/
def uint32Bytes (n : Nat) : List UInt8 :=
  [UInt8.ofNat n, UInt8.ofNat (n / 256), UInt8.ofNat (n / 65536), UInt8.ofNat (n / 16777216)]

/-- The number that four bytes stand for. -/
def uint32Of : List UInt8 → Nat
  | [a, b, c, d] => a.toNat + 256 * b.toNat + 65536 * c.toNat + 16777216 * d.toNat
  | _ => 0

/-- `strncpy` into a buffer of the given size that was cleared, its last byte kept. -/
def charArray (size : Nat) (text : List UInt8) : List UInt8 :=
  text.take (size - 1) ++ List.replicate (size - min text.length (size - 1)) 0

/-- The string in such a buffer. -/
def stringIn (buffer : List UInt8) : List UInt8 := buffer.takeWhile (· ≠ 0)

/-- `BACKUP_MAGIC`. -/
def backupMagic : List UInt8 := "METALBEAR_BACKUP_V1".toUTF8.toList

/-- `backup_header`; `total_size` stays zero. -/
def headerBytes (fileCount : Nat) : List UInt8 :=
  charArray 20 backupMagic ++ uint32Bytes fileCount ++ uint32Bytes 0

/-- `backup_file_entry`. -/
structure BackupFileEntry where
  path : List UInt8
  size : Nat
  crc32 : UInt32

def BackupFileEntry.bytes (e : BackupFileEntry) : List UInt8 :=
  charArray maxPathLength e.path ++ uint32Bytes e.size ++ uint32Bytes e.crc32.toNat

/-! ## Writing it -/

/-- `stat` of a path name below the data directory. -/
def DataDirectory.stat (d : DataDirectory) (path : List UInt8) : Option Node :=
  if maxPathLength ≤ path.length then none
  else d.tree.stat (components (path.drop d.base.length))

/-- `opendir` and `readdir`, all of it. -/
def DataDirectory.opendir (d : DataDirectory) (path : List UInt8) : Option (List Name) :=
  match d.stat path with
  | some .dir => some (d.tree.readdir (components (path.drop d.base.length)))
  | _ => none

/-- What `collect_files` comes to: it may not return. -/
abbrev Collected := Option (Except WfError (List (List UInt8)))

/-- `full_path`: what `snprintf` leaves in its buffer. -/
def fullPath (directory : List UInt8) (name : Name) : List UInt8 :=
  (directory ++ slash :: name).take (maxPathLength - 1)

/-- The loop of `collect_files` over a directory, with what it does in a directory below. -/
def collectEntries (d : DataDirectory) (below : List UInt8 → Collected) (directory : List UInt8) :
    List Name → Collected
  | [] => some (.ok [])
  | name :: names =>
    match d.stat (fullPath directory name) with
    | none => collectEntries d below directory names
    | some .dir =>
      match below (fullPath directory name) with
      | some (.ok files) => (collectEntries d below directory names).map (·.map (files ++ ·))
      | other => other
    | some (.file _) =>
      (collectEntries d below directory names).map (·.map (fullPath directory name :: ·))

/-- `collect_files`, for directories nested to at most the given depth. -/
def collectFiles (d : DataDirectory) : Nat → List UInt8 → Collected
  | 0, _ => none
  | depth + 1, directory =>
    match d.opendir directory with
    | none => some (.error .notFound)
    | some names => collectEntries d (collectFiles d depth) directory names

/-- `write_file_entry`. -/
def writeFileEntry (d : DataDirectory) (path : List UInt8) : Except WfError (List UInt8) :=
  match d.stat path with
  | none => .error .notFound
  | some .dir => .error .internal
  | some (.file content) =>
    if content.length > 2 ^ 32 - 1 then .error .invalidArg
    else
      let rel := if d.base <+: path then path.drop d.base.length else path
      let entry : BackupFileEntry := ⟨rel, content.length, crc32Compute content⟩
      .ok (entry.bytes ++ content)

/-- The loop of `metalbear_backup_create`. -/
def writeEntries (d : DataDirectory) : List (List UInt8) → Except WfError (List UInt8)
  | [] => .ok []
  | path :: paths => do
    let entry ← writeFileEntry d path
    let rest ← writeEntries d paths
    .ok (entry ++ rest)

/-- `metalbear_backup_create`: the archive, if it returns. -/
def backupCreate (d : DataDirectory) (depth : Nat) : Option (Except WfError (List UInt8)) :=
  (collectFiles d depth d.base).map fun collected => do
    let files ← collected
    let entries ← writeEntries d files
    .ok (headerBytes files.length ++ entries)

/-! ## Reading it -/

/-- `fread` of so many bytes, and what is left. -/
def fread (n : Nat) (input : List UInt8) : Option (List UInt8 × List UInt8) :=
  if input.length < n then none else some (input.take n, input.drop n)

/-- `malloc` is asked for no more than this. -/
def maxEntrySize : Nat := 100 * 1024 * 1024

/-- The `backup_file_entry` in its bytes. -/
def entryOf (bytes : List UInt8) : BackupFileEntry where
  path := stringIn (bytes.take maxPathLength)
  size := uint32Of ((bytes.drop maxPathLength).take 4)
  crc32 := UInt32.ofNat (uint32Of ((bytes.drop (maxPathLength + 4)).take 4))

/-- The loop of `backup_walk`. -/
def walkEntries {σ : Type} (visit : σ → BackupFileEntry → List UInt8 → Except WfError σ) :
    Nat → List UInt8 → σ → Except WfError σ
  | 0, _, s => .ok s
  | n + 1, input, s =>
    match fread (maxPathLength + 8) input with
    | none => .error .internal
    | some (bytes, input) =>
      let entry := entryOf bytes
      if entry.size > maxEntrySize then .error .invalidArg
      else
        match fread entry.size input with
        | none => .error .internal
        | some (data, input) =>
          if crc32Compute data ≠ entry.crc32 then .error .invalidArg
          else
            match visit s entry data with
            | .error e => .error e
            | .ok s => walkEntries visit n input s

/-- `backup_walk`. -/
def backupWalk {σ : Type} (visit : σ → BackupFileEntry → List UInt8 → Except WfError σ)
    (archive : List UInt8) (s : σ) : Except WfError σ :=
  match fread 28 archive with
  | none => .error .invalidArg
  | some (header, input) =>
    if stringIn (header.take 20) ≠ backupMagic then .error .invalidArg
    else walkEntries visit (uint32Of ((header.drop 20).take 4)) input s

/-- `restore_entry`, into the directory of the given name. -/
def restoreEntry (dest : List UInt8) (disk : Disk) (entry : BackupFileEntry)
    (data : List UInt8) : Except WfError Disk :=
  let full := dest ++ slash :: entry.path
  if maxPathLength ≤ full.length then .error .internal
  else
    let made := disk.mkdir (components ((beforeLastSlash full).drop dest.length))
    match made.writeFile (components (full.drop dest.length)) data with
    | none => .error .internal
    | some disk => .ok disk

/-- `metalbear_backup_restore`, from what is in the directory. -/
def backupRestore (archive dest : List UInt8) (disk : Disk) : Except WfError Disk :=
  backupWalk (restoreEntry dest) archive disk

/-- `metalbear_backup_verify`. -/
def backupVerify (archive : List UInt8) : Except WfError Unit :=
  backupWalk (fun _ _ _ => .ok ()) archive ()

end MetalBear.Repo
