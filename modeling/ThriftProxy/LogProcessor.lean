import ThriftProxy.Lib.Text
import ThriftProxy.Lib.Decimal
import Mathlib.Data.List.Infix
import Mathlib.Logic.Function.Basic

/-!
# The log processor

`log_processor.cpp` over `file_lister.cpp`, and what `Control::Init` makes of the
configured limits. The names of log files carry dates; files are archived and removed
by their age in days. Local time and `tar` belong to the system, and so do the
directory listings, the clock readings and the failures of system calls.
-/

namespace ThriftProxy

open Machine

/-! ## The system -/

/-- The name of a file, in bytes. -/
abbrev FileName := List UInt8

/-- `d_type`. -/
inductive FileType
  /-- `DT_REG`. -/
  | regular
  /-- `DT_UNKNOWN`. -/
  | unknown
  /-- Any other type. -/
  | other
  deriving DecidableEq

/-- A directory entry. -/
structure Dirent where
  /-- `d_name`. -/
  name : FileName
  /-- `d_type`. -/
  type : FileType
  deriving DecidableEq

/-- `struct tm`. -/
structure Tm where
  /-- `tm_year`. -/
  year : ℤ
  /-- `tm_mon`. -/
  mon : ℤ
  /-- `tm_mday`. -/
  mday : ℤ
  /-- `tm_hour`. -/
  hour : ℤ
  /-- `tm_min`. -/
  min : ℤ
  /-- `tm_sec`. -/
  sec : ℤ
  /-- `tm_isdst`. -/
  isdst : ℤ

/-- The local time of a system. -/
structure LocalTime where
  /-- `mktime`. -/
  mktime : Tm → ℤ
  /-- `localtime_r`. -/
  localtime : ℤ → Tm

/-- The files of a directory, by name. -/
abbrev Directory (γ : Type) := FileName → Option γ

/-- What files hold. Text can be written to them, and archives tell what has been
packed into them. -/
structure Packing (γ : Type) where
  /-- A text. -/
  text : List UInt8 → γ
  /-- An archive of named files. -/
  pack : List (FileName × γ) → γ
  /-- The files in an archive. -/
  unpack : γ → Option (List (FileName × γ))
  /-- Nothing is lost in an archive. -/
  unpack_pack : ∀ files, unpack (pack files) = some files

/-! ## The processor -/

/-- `m_tar_files`: dates in ascending order, each with its set of file names, as a list
without repetitions. -/
abbrev TarFiles := List (ℤ × List FileName)

/-- `LogProcessor`. -/
structure LogProcessor where
  /-- `m_workpath`. -/
  workpath : FileName
  /-- `m_archive_days`. -/
  archiveDays : ℤ
  /-- `m_remove_days`. -/
  removeDays : ℤ
  /-- `m_tar_files`. -/
  tarFiles : TarFiles

/-- The processor that `Control::Init` makes of the working directory and the configured
values, for the directory `/log` in it. -/
def controlInit (homedir : FileName) (logArchiveDays logRemoveDays : ℤ) : LogProcessor :=
  let logArchiveDays := max 1 (min logArchiveDays 28)
  let logRemoveDays := max logArchiveDays (min logRemoveDays 168)
  { workpath := homedir ++ [47, 108, 111, 103], archiveDays := logArchiveDays
    removeDays := logRemoveDays, tarFiles := [] }

/-! ## Dates -/

/-- The leftmost match of eight digits. -/
def dateMatch : FileName → Option (List UInt8)
  | [] => none
  | b :: rest =>
    let found := (b :: rest).take 8
    if found.length = 8 ∧ found.all Text.isDigit then some found else dateMatch rest

/-- `GetFileDate`: what it stores into `result`, if the name has a match. -/
def getFileDate (filename : FileName) : Option ℤ := (dateMatch filename).map Text.atoi

/-- The dates that are worked with. -/
def DateInRange (date : ℤ) : Prop := ¬ (date < 20000000 ∨ date > 30000000)

instance (date : ℤ) : Decidable (DateInRange date) := by
  unfold DateInRange
  infer_instance

/-- `GetTimestampByDate`. -/
def getTimestampByDate (zone : LocalTime) (date : ℤ) : ℤ :=
  let dateTm : Tm :=
    { year := date.tdiv 10000 - 1900, mon := (date.tdiv 100).tmod 100 - 1, mday := date.tmod 100,
      hour := 0, min := 0, sec := 0, isdst := 0 }
  zone.mktime dateTm % 2 ^ 32

/-- `GetDayDistance`. -/
def getDayDistance (zone : LocalTime) (fromTime toTime : ℤ) : ℤ :=
  let tmFrom := { zone.localtime fromTime with hour := 0, min := 0, sec := 0 }
  wrapInt ((toTime - zone.mktime tmFrom).tdiv 86400)

/-- The days from a date in a file name to a clock reading. -/
def daysSince (zone : LocalTime) (date now : ℤ) : ℤ :=
  getDayDistance zone (getTimestampByDate zone date) now

/-! ## Removing files -/

namespace LogProcessor

variable (zone : LocalTime) (lp : LogProcessor) (now : ℤ)

/-- The path of a file. -/
def path (name : FileName) : FileName := lp.workpath ++ 47 :: name

/-- Whether `DoRemove` unlinks a file for its date. -/
def Due (date : ℤ) : Prop := DateInRange date ∧ daysSince zone date now > lp.removeDays

instance (date : ℤ) : Decidable (lp.Due zone now date) := by
  unfold Due
  infer_instance

/-- The loop of `DoRemove`, with the value of `date` that the entries before have left:
the names of the files unlinked. All listed files can be looked up and unlinked. -/
def doRemoveLoop : ℤ → List Dirent → List FileName
  | _, [] => []
  | date, entry :: rest =>
    if entry.type = .regular then
      let date := (getFileDate (lp.path entry.name)).getD date
      if DateInRange date then
        if daysSince zone date now > lp.removeDays then entry.name :: doRemoveLoop date rest
        else doRemoveLoop date rest
      else doRemoveLoop date rest
    else doRemoveLoop date rest

/-- `DoRemove` over the entries in the order of `readdir`. There are none if the
directory cannot be opened. -/
def doRemove (workdir : Option (List Dirent)) : List FileName :=
  match workdir with
  | none => []
  | some entries => lp.doRemoveLoop zone now 0 entries

/-! ## Archiving files -/

/-- The ending of archives. -/
def tarGz : FileName := [46, 116, 97, 114, 46, 103, 122]

/-- `m_tar_files[date].insert(filename)`. -/
def insertTarFile (date : ℤ) (filename : FileName) : TarFiles → TarFiles
  | [] => [(date, [filename])]
  | (d, names) :: rest =>
    if date < d then (date, [filename]) :: (d, names) :: rest
    else if date = d then
      (d, if filename ∈ names then names else names ++ [filename]) :: rest
    else (d, names) :: insertTarFile date filename rest

/-- One round of the loop of `SortFilesToMap`. -/
def sortFile (tarFiles : TarFiles) (filename : FileName) : TarFiles :=
  if tarGz <:+: filename then tarFiles
  else
    let date := (getFileDate filename).getD 0
    if DateInRange date then
      if daysSince zone date now > lp.archiveDays ∧ daysSince zone date now < lp.removeDays + 1
      then insertTarFile date filename tarFiles
      else tarFiles
    else tarFiles

/-- The files that `FileLister::Next` returns. -/
def listFiles (entries : List Dirent) : List FileName :=
  (entries.filter fun entry => entry.type = .regular ∨ entry.type = .unknown).map Dirent.name

/-- `SortFilesToMap`. -/
def sortFilesToMap (workdir : Option (List Dirent)) : LogProcessor :=
  if lp.workpath = [] then lp
  else
    match workdir with
    | none => lp
    | some entries =>
      { lp with tarFiles := (listFiles entries).foldl (lp.sortFile zone now) lp.tarFiles }

end LogProcessor

/-- The name of the archive of a date. -/
def archiveName (date : ℤ) : FileName := Decimal.printInt date ++ LogProcessor.tarGz

/-- The name of the list that `tar` is given. -/
def tmpFile : FileName := [46, 116, 109, 112]

/-- The program `/bin/tar` and the list that it reads. -/
structure Tar (γ : Type) where
  /-- A text that has been written to a file. -/
  text : List UInt8 → γ
  /-- `tar czf archive --files-from=.tmp --exclude=*.tar.gz --remove-files`, when the list
  has these lines. -/
  command : FileName → List FileName → Directory γ → Directory γ

section

variable {γ : Type}

/-- What `tar` is taken to do where archives are looked into: it writes the archive afresh
from the listed files that there are, and then deletes these. -/
def tarCommand (packing : Packing γ) (archive : FileName) (listed : List FileName)
    (dir : Directory γ) : Directory γ :=
  let taken := listed.filter fun name => ¬ LogProcessor.tarGz <:+ name ∧ (dir name).isSome
  let files := taken.filterMap fun name => (dir name).map fun contents => (name, contents)
  Function.update (fun name => if name ∈ taken then none else dir name) archive
    (some (packing.pack files))

/-- The `tar` that loses nothing. -/
def Packing.tar (packing : Packing γ) : Tar γ :=
  { text := packing.text, command := tarCommand packing }

variable (tar : Tar γ)

/-- The text that lists the files of a day. -/
def dayFiles (names : List FileName) : List UInt8 := names.flatMap fun name => name ++ [10]

/-- The loop of `TarMapFiles`, which ends after a number of rounds. Writing the list
of a date may fail. -/
def tarMapLoop (writes : ℤ → Bool) :
    ℕ → TarFiles → Directory γ → TarFiles × Directory γ
  | _, [], dir => ([], dir)
  | 0, tarFiles, dir => (tarFiles, dir)
  | rounds + 1, (date, names) :: rest, dir =>
    if dayFiles names = [] ∨ writes date = false then
      let (tarFiles, dir) := tarMapLoop writes rounds rest dir
      ((date, names) :: tarFiles, dir)
    else
      let dir := Function.update dir tmpFile (some (tar.text (dayFiles names)))
      tarMapLoop writes rounds rest
        (tar.command (archiveName date) (Text.pieces 10 (dayFiles names)) dir)

/-- `MAX_SORT_DAY`. -/
def maxSortDay : ℕ := 60

/-- `TarMapFiles`. -/
def tarMapFiles (writes : ℤ → Bool) (tarFiles : TarFiles) (dir : Directory γ) :
    TarFiles × Directory γ :=
  let (tarFiles, dir) := tarMapLoop tar writes maxSortDay tarFiles dir
  (tarFiles, Function.update dir tmpFile none)

/-- What the system does during a run of `Process`. -/
structure ProcessRun where
  /-- The clock reading of `DoRemove`. -/
  removeTime : ℤ
  /-- The directory as `DoRemove` reads it. -/
  removeDir : Option (List Dirent)
  /-- The clock reading of `SortFilesToMap`. -/
  sortTime : ℤ
  /-- The directory as `SortFilesToMap` reads it. -/
  sortDir : Option (List Dirent)
  /-- Whether `OpenAndWrite` succeeds for a date. -/
  writes : ℤ → Bool

/-- `unlink` for some files. -/
def unlinkFiles (names : List FileName) (dir : Directory γ) : Directory γ :=
  fun name => if name ∈ names then none else dir name

/-- `Process`: `DoRemove`, then `DoArchive`. -/
def LogProcessor.process (zone : LocalTime) (run : ProcessRun) (lp : LogProcessor)
    (dir : Directory γ) : LogProcessor × Directory γ :=
  let dir := unlinkFiles (lp.doRemove zone run.removeTime run.removeDir) dir
  let lp := lp.sortFilesToMap zone run.sortTime run.sortDir
  let (tarFiles, dir) := tarMapFiles tar run.writes lp.tarFiles dir
  ({ lp with tarFiles := tarFiles }, dir)

end

end ThriftProxy
