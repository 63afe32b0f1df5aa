import ThriftProxy.Archives

/-!
# Runs of the log processor

Log files appear between runs of `Process`. Nothing is lost as long as the contents of
every log file whose date is young enough are available, and this is so throughout
exactly when every run keeps those files.
-/

namespace ThriftProxy

open Transition

section

variable {γ : Type} (packing : Packing γ)

/-- A log processor at work, with the log files that have appeared. -/
structure LogState where
  /-- The processor. -/
  processor : LogProcessor
  /-- The directory `m_workpath`. -/
  dir : Directory γ
  /-- The log files that have appeared so far. -/
  logged : List (LogFile packing)
  /-- The last clock reading. -/
  now : ℤ

/-- What happens in the directory. -/
inductive LogOp
  /-- A log file appears under a name that is not in use. -/
  | appear (file : LogFile packing)
  /-- `Process` runs. -/
  | process (run : ProcessRun)

variable {packing}

namespace LogState

/-- The state behind an operation. -/
def next (zone : LocalTime) (s : LogState packing) : LogOp packing → Option (LogState packing)
  | .appear file =>
    if (s.dir file.name).isSome then none
    else
      some { s with
        dir := Function.update s.dir file.name (some file.contents), logged := file :: s.logged }
  | .process run =>
    let (processor, dir) := s.processor.process packing.tar zone run s.dir
    some { s with processor := processor, dir := dir, now := run.sortTime }

/-- An operation leads from one state to another. -/
def Step (zone : LocalTime) (s : LogState packing) (op : LogOp packing) (s' : LogState packing) :
    Prop := s.next zone op = some s'

/-- A processor that has just been made, with no log files yet. -/
def start (lp : LogProcessor) (dir : Directory γ) : LogState packing :=
  { processor := { lp with tarFiles := [] }, dir := dir, logged := [], now := 0 }

/-- Every log file whose date is at most `m_remove_days` old is available, however the
age of dates in days is counted. -/
def NothingLost (age : ℤ → ℤ → ℤ) (s : LogState packing) : Prop :=
  ∀ file ∈ s.logged, ∀ date, getFileDate file.name = some date →
    age date s.now ≤ s.processor.removeDays → Available s.dir file date

/-- An operation keeps the log files whose dates will be at most `m_remove_days` old. -/
def KeepsLogs (age : ℤ → ℤ → ℤ) (zone : LocalTime) (s : LogState packing) : LogOp packing → Prop
  | .appear _ => True
  | .process run =>
    ∀ file ∈ s.logged, ∀ date, getFileDate file.name = some date →
      age date run.sortTime ≤ s.processor.removeDays → run.Keeps zone s.processor s.dir file date

variable {zone : LocalTime} {age : ℤ → ℤ → ℤ} {s s' : LogState packing} {op : LogOp packing}

/-- What an operation can do. -/
theorem step_cases (h : Step zone s op s') :
    (∃ file, op = .appear file ∧ s.dir file.name = none ∧
      s' = { s with dir := Function.update s.dir file.name (some file.contents)
                    logged := file :: s.logged }) ∨
    (∃ run, op = .process run ∧
      s' = { s with processor := (s.processor.process packing.tar zone run s.dir).1
                    dir := (s.processor.process packing.tar zone run s.dir).2
                    now := run.sortTime }) := by
  cases op with
  | appear file =>
    rw [Step, next] at h
    split at h
    · cases h
    · rename_i hfree
      exact .inl ⟨file, rfl, by simpa using hfree, (Option.some.inj h).symm⟩
  | process run => exact .inr ⟨run, rfl, (Option.some.inj h).symm⟩

/-- A log file can appear under a free name. -/
theorem step_appear {file : LogFile packing} (hfree : s.dir file.name = none) :
    Step zone s (.appear file)
      { s with dir := Function.update s.dir file.name (some file.contents)
               logged := file :: s.logged } := by
  rw [Step, next, hfree]
  rfl

/-- `Process` can run at any time. -/
theorem step_process {run : ProcessRun} {lp : LogProcessor} {dir : Directory γ}
    (h : s.processor.process packing.tar zone run s.dir = (lp, dir)) :
    Step zone s (.process run) { s with processor := lp, dir := dir, now := run.sortTime } := by
  rw [Step, next, h]

/-- Every operation keeps the order of the dates that wait. -/
theorem ordered_step (hs : s.processor.tarFiles.Ordered) (h : Step zone s op s') :
    s'.processor.tarFiles.Ordered := by
  obtain ⟨file, rfl, -, rfl⟩ | ⟨run, rfl, rfl⟩ := step_cases h
  · exact hs
  · exact (hs.sortFilesToMap zone run.sortTime run.sortDir).sublist (tarMapLoop_sublist _ _ _ _)

/-- `Process` keeps the limits. -/
theorem removeDays_process (lp : LogProcessor) (zone : LocalTime) (run : ProcessRun)
    (dir : Directory γ) : (lp.process packing.tar zone run dir).1.removeDays = lp.removeDays := by
  change (lp.sortFilesToMap zone run.sortTime run.sortDir).removeDays = lp.removeDays
  unfold LogProcessor.sortFilesToMap
  split
  · rfl
  · cases run.sortDir with
    | none => rfl
    | some entries => rfl

/-- The contents of log files stay available when another one appears. -/
theorem Available.appear {dir : Directory γ} {file other : LogFile packing} {date : ℤ}
    (h : Available dir file date) (hfree : dir other.name = none) :
    Available (Function.update dir other.name (some other.contents)) file date := by
  have hkept : ∀ name, (dir name).isSome →
      Function.update dir other.name (some other.contents) name = dir name := by
    intro name hsome
    apply Function.update_of_ne
    rintro rfl
    rw [hfree] at hsome
    cases hsome
  rcases h with hfile | ⟨files, hfiles, hmem⟩
  · exact .inl ((hkept file.name (by rw [hfile]; rfl)).trans hfile)
  · obtain ⟨archive, harchive, hunpack⟩ := Option.bind_eq_some_iff.mp hfiles
    refine .inr ⟨files, ?_, hmem⟩
    rw [hkept (archiveName date) (by rw [harchive]; rfl), hfiles]

/-- After an operation nothing is lost exactly if it keeps the log files. -/
theorem nothingLost_step (hs : s.processor.tarFiles.Ordered) (hlost : s.NothingLost age)
    (h : Step zone s op s') : s'.NothingLost age ↔ s.KeepsLogs age zone op := by
  obtain ⟨other, rfl, hfree, rfl⟩ | ⟨run, rfl, rfl⟩ := step_cases h
  · refine iff_of_true ?_ trivial
    intro file hmem date hdate hage
    rcases List.mem_cons.mp hmem with rfl | hmem
    · exact .inl (Function.update_self _ _ _)
    · exact Available.appear (hlost file hmem date hdate hage) hfree
  · simp only [NothingLost, KeepsLogs, removeDays_process]
    refine forall₂_congr fun file _ => forall₂_congr fun date hdate => imp_congr_right fun _ => ?_
    have hname : file.name ≠ tmpFile := by
      intro heq
      have htmp : getFileDate tmpFile = none := by decide
      rw [heq, htmp] at hdate
      cases hdate
    exact available_process_iff hs hname

/-- **Nothing is lost.** Whenever log files appear and `Process` runs, the contents of all
log files whose dates are at most `m_remove_days` old stay available, as the files or in
the archives of their dates, if and only if every run keeps them. -/
theorem nothingLost_iff (zone : LocalTime) (age : ℤ → ℤ → ℤ) (lp : LogProcessor)
    (dir : Directory γ) (ops : List (LogOp packing)) :
    Throughout (Step zone) (NothingLost age) (start lp dir) ops ↔
      Along (Step zone) (KeepsLogs age zone) (start lp dir) ops := by
  refine throughout_iff_along (I := fun s => s.processor.tarFiles.Ordered)
    (fun s op s' hs h => ordered_step hs h) ?_ TarFiles.ordered_nil ?_
  · intro s op s' hs hlost h
    exact nothingLost_step hs hlost h
  · intro file hmem
    cases hmem

end LogState

end

/-! ## An archive that is written twice -/

/-- Texts and archives. -/
inductive Blob
  /-- A text. -/
  | text (bytes : List UInt8)
  /-- An archive. -/
  | archive (files : List (FileName × Blob))

/-- Archives that keep the files as they are. -/
def blobs : Packing Blob where
  text := .text
  pack := .archive
  unpack
    | .text _ => none
    | .archive files => some files
  unpack_pack _ := rfl

/-- The name `y20240101`. -/
def lateName : FileName := [121, 50, 48, 50, 52, 48, 49, 48, 49]

/-- The log file `x20240101`. -/
def newYearLog : LogFile blobs := { name := newYearName, contents := .text [120], plain := rfl }

/-- The log file `y20240101`. -/
def lateLog : LogFile blobs := { name := lateName, contents := .text [121], plain := rfl }

/-- A run at a time, over the directory with some regular files. -/
def runAt (time : ℤ) (names : List FileName) : ProcessRun :=
  let entries := names.map fun name => ⟨name, .regular⟩
  { removeTime := time, removeDir := some entries, sortTime := time, sortDir := some entries
    writes := fun _ => true }

/-- The age of the first day of 2024 on later days of January. -/
theorem daysSince_newYear2024 (now : ℤ) (hfirst : 1704067200 ≤ now) (hlast : now < 1706745600) :
    daysSince (fixedOffset 0) 20240101 now = now / 86400 - 19723 := by
  have hstamped : stampedDay 0 newYear2024.dayNumber = 19723 := by decide
  have hlow : (-90000 : ℤ) < 0 := by decide
  have hhigh : (0 : ℤ) < 90000 := by decide
  have hyear : 0 ≤ newYear2024.year := by decide
  have hnow : 0 ≤ now := by omega
  obtain ⟨hdays, -⟩ := daysSince_dateCode hlow hhigh hyear hnow
  have hcode : dateCode newYear2024 = 20240101 := by decide
  have hlocal : localDay 0 now = now / 86400 := by rw [localDay, add_zero]
  rw [hcode, hstamped, hlocal] at hdays
  rw [hdays (by omega), Machine.wrapInt_eq_self (by omega) (by omega)]

/-- A directory in which a file of 1 January 2024 has been archived. -/
def archivedIn (dir : Directory Blob) (filename : FileName) : Directory Blob :=
  Function.update (tarDay blobs.tar dir (20240101, [filename])) tmpFile none

/-- A run that finds one file of 1 January 2024 to be archived, and nothing to be removed,
writes the archive of that day. -/
theorem process_runAt {now : ℤ} {names : List FileName} {filename : FileName}
    (hdated : ∀ name ∈ names, getFileDate (logProcessor.path name) = some 20240101)
    (hsort : names.foldl (logProcessor.sortFile (fixedOffset 0) now) [] = [(20240101, [filename])])
    (hyoung : daysSince (fixedOffset 0) 20240101 now ≤ 28) (dir : Directory Blob) :
    logProcessor.process blobs.tar (fixedOffset 0) (runAt now names) dir =
      (logProcessor, archivedIn dir filename) := by
  have hremove : logProcessor.doRemove (fixedOffset 0) now
      (some (names.map fun name => ⟨name, .regular⟩)) = [] := by
    rw [List.eq_nil_iff_forall_not_mem, LogProcessor.doRemove]
    intro name hname
    obtain ⟨front, entry, back, heq, rfl, htype, -, hdue⟩ :=
      LogProcessor.mem_doRemoveLoop_iff.mp hname
    have hmem : entry ∈ names.map fun name => (⟨name, .regular⟩ : Dirent) :=
      List.mem_iff_append.mpr ⟨front, back, heq⟩
    obtain ⟨name, hlisted, rfl⟩ := List.mem_map.mp hmem
    rw [LogProcessor.dateLeft_of_path htype (hdated name hlisted)] at hdue
    exact absurd hdue (not_lt.mpr hyoung)
  have hlisted : LogProcessor.listFiles (names.map fun name => ⟨name, .regular⟩) = names := by
    simp [LogProcessor.listFiles, List.filter_map, Function.comp_def]
  have hfiles : dayFiles [filename] ≠ [] := by simp [dayFiles]
  have hpath : logProcessor.workpath ≠ [] := by decide
  have htar : logProcessor.tarFiles = [] := rfl
  simp only [LogProcessor.process, runAt, hremove, if_false, LogProcessor.sortFilesToMap, hpath,
    hlisted, htar, hsort, tarMapFiles, maxSortDay, tarMapLoop, hfiles, Bool.true_eq_false, or_self]
  rfl

/-- A file that waits is picked up behind archives. -/
theorem sortFile_newYear2024 {now : ℤ} {filename : FileName}
    (hdate : getFileDate filename = some 20240101) (hplain : ¬ LogProcessor.tarGz <:+: filename)
    (hold : 8 ≤ daysSince (fixedOffset 0) 20240101 now)
    (hyoung : daysSince (fixedOffset 0) 20240101 now ≤ 28) :
    logProcessor.sortFile (fixedOffset 0) now [] filename = [(20240101, [filename])] := by
  have hrange : DateInRange 20240101 := by decide
  have hselected : daysSince (fixedOffset 0) 20240101 now > logProcessor.archiveDays ∧
      daysSince (fixedOffset 0) 20240101 now < logProcessor.removeDays + 1 :=
    ⟨hold, Int.lt_add_one_of_le hyoung⟩
  simp only [LogProcessor.sortFile, hdate, hplain, if_false, Option.getD_some, hrange, if_true,
    hselected, and_self, LogProcessor.insertTarFile]

/-- The listed files have moved into the archive. -/
theorem archivedIn_apply (dir : Directory Blob) {filename name : FileName} (htmp : name ≠ tmpFile)
    (hplain : ¬ LogProcessor.tarGz <:+ name) :
    archivedIn dir filename name = if name ∈ dayLines [filename] then none else dir name := by
  have harchive : name ≠ archiveName 20240101 := by
    rintro rfl
    exact hplain (tarGz_suffix_archiveName _)
  rw [archivedIn, Function.update_of_ne htmp, tarDay_apply htmp, if_neg harchive]
  simp only [hplain, not_false_eq_true, true_and]

/-- What is in the archive has been listed. -/
theorem inArchive_archivedIn {dir : Directory Blob} {filename : FileName} {file : LogFile blobs}
    (htmp : file.name ≠ tmpFile) (h : InArchive (archivedIn dir filename) file 20240101) :
    file.name ∈ dayLines [filename] := by
  obtain ⟨files, hfiles, hmem⟩ := h
  rw [archivedIn, Function.update_of_ne (archiveName_ne_tmpFile _),
    tarDay_apply (archiveName_ne_tmpFile _), if_pos rfl, Option.bind_some,
    blobs.unpack_pack] at hfiles
  rw [← Option.some.inj hfiles] at hmem
  exact ((mem_packed htmp).mp hmem).2.1

/-- The directory behind the archiving of the first log file. -/
def firstArchived : Directory Blob :=
  archivedIn (Function.update (fun _ => none) newYearName (some (.text [120]))) newYearName

/-- There is nothing but the archive. -/
theorem firstArchived_eq_none {name : FileName} (htmp : name ≠ tmpFile)
    (hplain : ¬ LogProcessor.tarGz <:+ name) : firstArchived name = none := by
  rw [firstArchived, archivedIn_apply _ htmp hplain]
  split
  · rfl
  · rename_i hline
    refine Function.update_of_ne ?_ _ _
    rintro rfl
    exact hline (by decide)

/-- On 10 January 2024 the first log file is archived. -/
theorem process_newYear (dir : Directory Blob) :
    logProcessor.process blobs.tar (fixedOffset 0) (runAt 1704844800 [newYearName]) dir =
      (logProcessor, archivedIn dir newYearName) := by
  have hage := daysSince_newYear2024 1704844800 (by decide) (by decide)
  norm_num at hage
  have hdate : getFileDate newYearName = some 20240101 := by decide
  have hplain : ¬ LogProcessor.tarGz <:+: newYearName := by decide
  refine process_runAt ?_ ?_ ?_ dir
  · decide
  · rw [List.foldl_cons, List.foldl_nil]
    refine sortFile_newYear2024 hdate hplain ?_ ?_
    · rw [hage]
      decide
    · rw [hage]
      decide
  · rw [hage]
    decide

/-- A day later the late one is. -/
theorem process_late (dir : Directory Blob) :
    logProcessor.process blobs.tar (fixedOffset 0)
        (runAt 1704931200 [archiveName 20240101, lateName]) dir =
      (logProcessor, archivedIn dir lateName) := by
  have hage := daysSince_newYear2024 1704931200 (by decide) (by decide)
  norm_num at hage
  have hdate : getFileDate lateName = some 20240101 := by decide
  have hplain : ¬ LogProcessor.tarGz <:+: lateName := by decide
  have hskipped : logProcessor.sortFile (fixedOffset 0) 1704931200 [] (archiveName 20240101) =
      [] := by
    rw [LogProcessor.sortFile, if_pos (tarGz_suffix_archiveName _).isInfix]
  refine process_runAt ?_ ?_ ?_ dir
  · decide
  · rw [List.foldl_cons, List.foldl_cons, List.foldl_nil, hskipped]
    refine sortFile_newYear2024 hdate hplain ?_ ?_
    · rw [hage]
      decide
    · rw [hage]
      decide
  · rw [hage]
    decide

/-- A second archive of a day replaces the first, and the log file in it is lost. -/
theorem rewritten_archive_lost :
    ¬ Throughout (LogState.Step (fixedOffset 0)) (LogState.NothingLost (daysSince (fixedOffset 0)))
      (LogState.start logProcessor fun _ => none)
      [.appear newYearLog, .process (runAt 1704844800 [newYearName]), .appear lateLog,
        .process (runAt 1704931200 [archiveName 20240101, lateName])] := by
  intro h
  have htmp : newYearName ≠ tmpFile := by decide
  have hplain : ¬ LogProcessor.tarGz <:+ newYearName := by decide
  have hdate : getFileDate newYearName = some 20240101 := by decide
  have hage := daysSince_newYear2024 1704931200 (by decide) (by decide)
  norm_num at hage
  have hfree : firstArchived lateName = none := firstArchived_eq_none (by decide) (by decide)
  have hrun : Run (LogState.Step (fixedOffset 0)) (LogState.start logProcessor fun _ => none)
      [.appear newYearLog, .process (runAt 1704844800 [newYearName]), .appear lateLog,
        .process (runAt 1704931200 [archiveName 20240101, lateName])]
      { processor := logProcessor
        dir := archivedIn (Function.update firstArchived lateName (some (.text [121]))) lateName
        logged := [lateLog, newYearLog], now := 1704931200 } :=
    Run.cons (LogState.step_appear rfl) (Run.cons (LogState.step_process (process_newYear _))
      (Run.cons (LogState.step_appear hfree) (Run.cons (LogState.step_process (process_late _))
        (Run.nil _))))
  have hmem : newYearLog ∈ [lateLog, newYearLog] := List.mem_cons_of_mem _ List.mem_cons_self
  have hlost : Available
      (archivedIn (Function.update firstArchived lateName (some (.text [121]))) lateName)
      newYearLog 20240101 :=
    h _ _ List.prefix_rfl hrun newYearLog hmem 20240101 hdate (by rw [hage]; decide)
  rcases hlost with hfile | harchive
  · have hother : newYearName ≠ lateName := by decide
    have hline : newYearName ∉ dayLines [lateName] := by decide
    have hnone : archivedIn (Function.update firstArchived lateName (some (.text [121]))) lateName
        newYearName = none := by
      rw [archivedIn_apply _ htmp hplain, if_neg hline, Function.update_of_ne hother,
        firstArchived_eq_none htmp hplain]
    exact absurd (hnone.symm.trans hfile) nofun
  · exact absurd (inArchive_archivedIn htmp harchive) (by decide)

end ThriftProxy
