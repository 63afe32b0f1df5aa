import Mathlib.Data.Nat.Digits.Lemmas
import ThriftProxy.Config
import ThriftProxy.LogRuns

/-!
# The nights of the control process

The last worker process serves nobody: once a night it tidies the log directory, in
which the other processes write between its calls. After a night on which nothing gets in
its way, no log file is left that is old enough for an archive, and no file at all that is
too old to be kept.
-/

namespace ThriftProxy

open Transition

/-! ## The process -/

/-- `Control::Init`, in a working directory. -/
def initControl (cm : Option ConfigManager) (pwd : FileName) : LogProcessor :=
  controlInit pwd (configGetIntval (keyOf "log_archive_days") 7 cm)
    (configGetIntval (keyOf "log_remove_days") 28 cm)

section

variable {γ : Type} (tar : Tar γ)

/-- `TidyLogPath`, which works in one second of the day. -/
def tidyLogPath (zone : LocalTime) (now : ℤ) (run : ProcessRun) (lp : LogProcessor)
    (dir : Directory γ) : LogProcessor × Directory γ :=
  if now.tmod 86400 = 68400 then lp.process tar zone run dir else (lp, dir)

/-- The control process and the directory that it shares. -/
structure ControlState (γ : Type) where
  /-- `m_log_processor`. -/
  processor : LogProcessor
  /-- The directory `m_workpath`. -/
  dir : Directory γ

/-- What happens around the control process. -/
inductive ControlOp (γ : Type)
  /-- Other processes write and remove files, whichever they like, between two calls. -/
  | others (dir : Directory γ)
  /-- `TimeEvent` at a clock reading, with what a run of `Process` would meet. -/
  | timeEvent (now : ℤ) (run : ProcessRun)

namespace ControlState

/-- The state behind an operation. -/
def next (zone : LocalTime) (s : ControlState γ) : ControlOp γ → ControlState γ
  | .others dir => { s with dir := dir }
  | .timeEvent now run =>
    let (processor, dir) := tidyLogPath tar zone now run s.processor s.dir
    { processor := processor, dir := dir }

/-- An operation leads from one state to another. -/
def Step (zone : LocalTime) (s : ControlState γ) (op : ControlOp γ) (s' : ControlState γ) : Prop :=
  s' = s.next tar zone op

end ControlState

/-! ## Nights -/

/-- `tar` takes what the list of a date holds: of the listed files only archives are left,
and no file is new but the archive of the date. -/
structure Tar.Takes (date : ℤ) (listed : List FileName) : Prop where
  /-- `--remove-files`, with `--exclude=*.tar.gz`. -/
  removes : ∀ dir, ∀ name ∈ listed, ¬ LogProcessor.tarGz <:+ name →
    tar.command (archiveName date) listed dir name = none
  /-- Nothing else appears. -/
  creates : ∀ dir name, name ≠ archiveName date → dir name = none →
    tar.command (archiveName date) listed dir name = none

/-- Nothing gets in the way of a run of `Process`: it sees every file, it can write its
lists, `tar` takes what they hold, no midnight passes and there are not too many dates. -/
structure ProcessRun.Unhindered (run : ProcessRun) (zone : LocalTime) (lp : LogProcessor)
    (dir : Directory γ) : Prop where
  /-- `DoRemove` lists every file. -/
  removeDir : ∃ listing : LogProcessor.Listing, run.removeDir = some listing.entries ∧
    ∀ name, dir name ≠ none → ⟨name, .regular⟩ ∈ listing.entries
  /-- `SortFilesToMap` lists every file that is left. -/
  sortDir : ∃ entries, run.sortDir = some entries ∧
    ∀ name, run.remaining zone lp dir name ≠ none → ⟨name, .regular⟩ ∈ entries
  writes : ∀ date, run.writes date = true
  takes : ∀ day ∈ run.days zone lp, tar.Takes day.1 (dayLines day.2)
  sameDay : ∀ date, daysSince zone date run.sortTime = daysSince zone date run.removeTime
  few : {date | ∃ name, run.Waits zone lp date name}.ncard ≤ maxSortDay

/-- An operation meets no obstacle. -/
def ControlState.Unhindered (zone : LocalTime) (s : ControlState γ) : ControlOp γ → Prop
  | .others _ => True
  | .timeEvent now run => now.tmod 86400 = 68400 → run.Unhindered tar zone s.processor s.dir

/-- A directory that has been tidied. -/
structure Tidy (zone : LocalTime) (lp : LogProcessor) (now : ℤ) (dir : Directory γ) : Prop where
  /-- No file is too old to be kept. -/
  kept : ∀ name date, dir name ≠ none → getFileDate name = some date → DateInRange date →
    daysSince zone date now ≤ lp.removeDays
  /-- No log file is old enough for an archive. -/
  archived : ∀ name date, dir name ≠ none → getFileDate name = some date → DateInRange date →
    ¬ LogProcessor.tarGz <:+: name → (10 : UInt8) ∉ name → daysSince zone date now ≤ lp.archiveDays

/-! ## One night -/

/-- A list of eight digits is a date. -/
theorem getFileDate_digits {digits rest : FileName} (hlength : digits.length = 8)
    (hdigits : ∀ b ∈ digits, Text.isDigit b = true) :
    getFileDate (digits ++ rest) = some (Text.atoi digits) := by
  cases digits with
  | nil => cases hlength
  | cons b digits =>
    have htake : (b :: (digits ++ rest)).take 8 = b :: digits := by
      rw [← List.cons_append, ← hlength, List.take_left]
    have hall : (b :: digits).all Text.isDigit = true := List.all_eq_true.mpr hdigits
    rw [List.cons_append, getFileDate, dateMatch_cons, htake, if_pos ⟨hlength, hall⟩]
    rfl

/-- The archive of a date is dated itself. -/
theorem getFileDate_archiveName {date : ℤ} (h : DateInRange date) :
    getFileDate (archiveName date) = some date := by
  obtain ⟨hlow, hhigh⟩ := not_or.mp h
  obtain ⟨n, rfl⟩ := Int.eq_ofNat_of_zero_le (show 0 ≤ date by omega)
  have hprint : Decimal.printInt (n : ℤ) = Decimal.printNat n := by
    simp [Decimal.printInt]
  have hlength : (Decimal.printNat n).length = 8 := by
    have hlog : Nat.log 10 n = 7 := (Nat.log_eq_iff (.inl (by decide))).mpr ⟨by omega, by omega⟩
    rw [Decimal.printNat, if_neg (by omega), List.length_map, List.length_reverse,
      Nat.length_digits 10 n (by decide) (by omega), hlog]
  have hdigits : ∀ b ∈ Decimal.printNat n, Text.isDigit b = true := by
    intro b hb
    simpa [Text.isDigit] using Decimal.digit_of_mem_printNat hb
  rw [archiveName, hprint, getFileDate_digits hlength hdigits, Text.atoi_printNat (by omega)]

/-- A name without a line end is a line of the list that it is written to. -/
theorem pieces_concat {name : FileName} (h : (10 : UInt8) ∉ name) :
    Text.pieces 10 (name ++ [10]) = [name] := by
  have hfrom : ∀ front : FileName,
      Text.piecesFrom 10 front (name ++ [10]) = [front ++ name] := by
    induction name with
    | nil => simp [Text.piecesFrom]
    | cons b name ih =>
      intro front
      obtain ⟨hb, hname⟩ := not_or.mp (mt List.mem_cons.mpr h)
      rw [List.cons_append, Text.piecesFrom, if_neg (Ne.symm hb), ih hname]
      simp
  exact hfrom []

variable {tar} {zone : LocalTime} {lp : LogProcessor} {run : ProcessRun} {dir : Directory γ}

/-- The loop of `TarMapFiles` leaves nothing behind when it can work on every day. -/
theorem tarMapLoop_eq_nil {writes : ℤ → Bool} {rounds : ℕ} {tarFiles : TarFiles}
    (hrounds : tarFiles.length ≤ rounds) (hworkable : ∀ day ∈ tarFiles, Workable writes day = true)
    (dir : Directory γ) : (tarMapLoop tar writes rounds tarFiles dir).1 = [] := by
  induction tarFiles generalizing rounds dir with
  | nil => cases rounds <;> rfl
  | cons day rest ih =>
    obtain ⟨date, names⟩ := day
    obtain ⟨hday, hrest⟩ := List.forall_mem_cons.mp hworkable
    cases rounds with
    | zero => simp at hrounds
    | succ rounds =>
      have hdone : ¬ (dayFiles names = [] ∨ writes date = false) := by
        simpa [Workable, not_or] using hday
      rw [tarMapLoop, if_neg hdone]
      exact ih (by simpa using hrounds) hrest _

/-- Every date that waits is archived when nothing gets in the way. -/
theorem ProcessRun.Unhindered.waiting (h : run.Unhindered tar zone lp dir)
    (hordered : lp.tarFiles.Ordered) :
    (lp.sortFilesToMap zone run.sortTime run.sortDir).tarFiles.length ≤ maxSortDay ∧
    ∀ day ∈ (lp.sortFilesToMap zone run.sortTime run.sortDir).tarFiles,
      Workable run.writes day = true := by
  have hsorted := hordered.sortFilesToMap zone run.sortTime run.sortDir
  constructor
  · have hdates : {date | ∃ name, run.Waits zone lp date name} =
        ↑((lp.sortFilesToMap zone run.sortTime run.sortDir).tarFiles.map Prod.fst).toFinset := by
      ext date
      simp only [Set.mem_ofPred_eq, List.coe_toFinset, ← pending_iff_waits, hsorted.mem_dates_iff]
    have hfew := h.few
    rw [hdates, Set.ncard_coe_finset,
      List.toFinset_card_of_nodup (hsorted.ascending.imp ne_of_lt), List.length_map] at hfew
    exact hfew
  · intro day hday
    have hne := hsorted.nonempty day hday
    simp [Workable, h.writes, dayFiles_eq_nil, hne]

/-- A `tar` that takes what its lists hold leaves a file only if it was there and is not
listed. -/
theorem left_of_foldl_tarDay {days : TarFiles}
    (htar : ∀ day ∈ days, tar.Takes day.1 (dayLines day.2)) {name : FileName}
    (htmp : name ≠ tmpFile) (harchive : ∀ day ∈ days, name ≠ archiveName day.1)
    (h : days.foldl (tarDay tar) dir name ≠ none) :
    dir name ≠ none ∧ ∀ day ∈ days, name ∈ dayLines day.2 → LogProcessor.tarGz <:+ name := by
  induction days generalizing dir with
  | nil => exact ⟨h, by simp⟩
  | cons day days ih =>
    obtain ⟨hday, hdays⟩ := List.forall_mem_cons.mp htar
    obtain ⟨hname, hnames⟩ := List.forall_mem_cons.mp harchive
    obtain ⟨hleft, hlisted⟩ := ih hdays hnames h
    constructor
    · intro hnone
      refine hleft (hday.creates _ name hname ?_)
      rw [Function.update_of_ne htmp, hnone]
    · refine List.forall_mem_cons.mpr ⟨?_, hlisted⟩
      intro hline
      by_contra hgz
      exact hleft (hday.removes _ name hline hgz)

/-- What is in the directory after a run: an archive that the run wrote, or a file that
was there before and was neither unlinked nor taken. -/
theorem ProcessRun.Unhindered.left_cases (hrun : run.Unhindered tar zone lp dir)
    (hordered : lp.tarFiles.Ordered) {name : FileName}
    (h : (lp.process tar zone run dir).2 name ≠ none) :
    (∃ date, run.Archives zone lp date ∧ name = archiveName date) ∨
    (run.remaining zone lp dir name ≠ none ∧ ∀ date, ¬ run.Takes zone lp date name) := by
  rw [process_dir] at h
  have htmp : name ≠ tmpFile := by
    rintro rfl
    simp at h
  rw [Function.update_of_ne htmp] at h
  by_cases harchive : ∃ date, run.Archives zone lp date ∧ name = archiveName date
  · exact .inl harchive
  · right
    have hnot : ∀ date, run.Archives zone lp date → name ≠ archiveName date := fun date hd heq =>
      harchive ⟨date, hd, heq⟩
    obtain ⟨hleft, hlisted⟩ := left_of_foldl_tarDay hrun.takes htmp
      (archiveName_ne_of_not_archives hordered hnot) h
    refine ⟨hleft, fun date htakes => ?_⟩
    obtain ⟨hgz, day, hday, -, hline⟩ := (takes_iff hordered).mp htakes
    exact hgz (hlisted day hday hline)

/-- A file that `DoRemove` has seen and left is young enough to be kept. -/
theorem ProcessRun.Unhindered.young (h : run.Unhindered tar zone lp dir)
    (hpath : getFileDate lp.workpath = none) {name : FileName} {date : ℤ}
    (hleft : run.remaining zone lp dir name ≠ none) (hdate : getFileDate name = some date)
    (hrange : DateInRange date) : daysSince zone date run.sortTime ≤ lp.removeDays := by
  obtain ⟨listing, hlisting, hall⟩ := h.removeDir
  obtain ⟨contents, hcontents⟩ := Option.ne_none_iff_exists'.mp hleft
  obtain ⟨hdir, hnot⟩ := remaining_eq_some_iff.mp hcontents
  have hmem := hall name (by simp [hdir])
  have hown : getFileDate (lp.path name) = some date := by
    rw [getFileDate_path, hpath, hdate]
    rfl
  rw [← mem_doRemove_iff, hlisting,
    LogProcessor.mem_doRemove_of_date zone run.removeTime listing hmem hown] at hnot
  rw [h.sameDay]
  by_contra hold
  exact hnot ⟨rfl, hrange, by omega⟩

/-- A log file that is old enough is taken for its archive. -/
theorem ProcessRun.Unhindered.takes_old (h : run.Unhindered tar zone lp dir)
    (hne : lp.workpath ≠ []) (hordered : lp.tarFiles.Ordered) {name : FileName} {date : ℤ}
    (hleft : run.remaining zone lp dir name ≠ none) (hdate : getFileDate name = some date)
    (hrange : DateInRange date) (hyoung : daysSince zone date run.sortTime ≤ lp.removeDays)
    (hgz : ¬ LogProcessor.tarGz <:+: name) (hline : (10 : UInt8) ∉ name)
    (hold : lp.archiveDays < daysSince zone date run.sortTime) :
    run.Takes zone lp date name := by
  obtain ⟨entries, hentries, hall⟩ := h.sortDir
  have hlisted : name ∈ LogProcessor.listFiles entries :=
    List.mem_map.mpr ⟨_, List.mem_filter.mpr ⟨hall name hleft, by simp⟩, rfl⟩
  have hwaits : run.Waits zone lp date name :=
    .inr ⟨hne, entries, hentries, hlisted, hgz, hdate, hrange, hold, by omega⟩
  have hpending := pending_iff_waits.mpr hwaits
  obtain ⟨hlength, hworkable⟩ := h.waiting hordered
  obtain ⟨names, hday, hname⟩ := hpending
  refine (takes_iff hordered).mpr ⟨fun hsuffix => hgz hsuffix.isInfix, (date, names), ?_, rfl, ?_⟩
  · rw [ProcessRun.days, List.take_of_length_le hlength]
    exact List.mem_filter.mpr ⟨hday, hworkable _ hday⟩
  · rw [mem_dayLines]
    exact ⟨name, hname, by simp [pieces_concat hline]⟩

/-- A night on which nothing gets in the way leaves a tidy directory and nothing to be
done on the next. -/
theorem tidy_process (hpath : getFileDate lp.workpath = none) (hne : lp.workpath ≠ [])
    (hnone : lp.tarFiles = []) (h : run.Unhindered tar zone lp dir) :
    (lp.process tar zone run dir).1 = lp ∧
      Tidy zone lp run.sortTime (lp.process tar zone run dir).2 := by
  have hordered : lp.tarFiles.Ordered := hnone ▸ TarFiles.ordered_nil
  obtain ⟨hlength, hworkable⟩ := h.waiting hordered
  refine ⟨?_, ?_, ?_⟩
  · have hempty : (tarMapLoop tar run.writes maxSortDay _ (run.remaining zone lp dir)).1 = [] :=
      tarMapLoop_eq_nil hlength hworkable _
    obtain ⟨entries, hentries, -⟩ := h.sortDir
    have hsorted : ∀ tarFiles, { lp.sortFilesToMap zone run.sortTime run.sortDir with
        tarFiles := tarFiles } = { lp with tarFiles := tarFiles } := by
      intro tarFiles
      simp [LogProcessor.sortFilesToMap, hne, hentries]
    calc (lp.process tar zone run dir).1
        = { lp.sortFilesToMap zone run.sortTime run.sortDir with tarFiles := [] } := by
          rw [← hempty]
          rfl
      _ = lp := by rw [hsorted, ← hnone]
  · intro name date hleft hdate hrange
    obtain ⟨d, harchives, rfl⟩ | ⟨hremains, -⟩ := h.left_cases hordered hleft
    · obtain ⟨⟨other, hwaits⟩, -, -⟩ := harchives
      rcases hwaits with hpending | ⟨-, entries, -, -, hselects⟩
      · simp [hnone] at hpending
      · obtain ⟨-, -, hd, -, hlt⟩ := hselects
        rw [getFileDate_archiveName hd] at hdate
        obtain rfl := Option.some.inj hdate
        omega
    · exact h.young hpath hremains hdate hrange
  · intro name date hleft hdate hrange hgz hline
    obtain ⟨d, -, rfl⟩ | ⟨hremains, hnot⟩ := h.left_cases hordered hleft
    · exact absurd (tarGz_suffix_archiveName d).isInfix hgz
    · by_contra hold
      exact hnot date (h.takes_old hne hordered hremains hdate hrange
        (h.young hpath hremains hdate hrange) hgz hline (by omega))

/-! ## All nights -/

/-- The directory of the log files has no date of its own if the working directory has none. -/
theorem getFileDate_workpath (cm : Option ConfigManager) {pwd : FileName}
    (hpwd : getFileDate pwd = none) : getFileDate (initControl cm pwd).workpath = none := by
  have hslash : Text.isDigit 47 = false := by decide
  have hlog : dateMatch [108, 111, 103] = none := by decide
  have hmatch : dateMatch pwd = none := by simpa [getFileDate] using hpwd
  rw [getFileDate, initControl, controlInit, dateMatch_append_cons hslash, hmatch, hlog]
  rfl

/-- The control process when `Init` has returned. -/
def ControlState.start (lp : LogProcessor) (dir : Directory γ) : ControlState γ :=
  { processor := lp, dir := dir }

/-- An operation that meets no obstacle leaves the processor as it was. -/
theorem ControlState.processor_step {s s' : ControlState γ} {op : ControlOp γ}
    (hpath : getFileDate lp.workpath = none) (hne : lp.workpath ≠ []) (hnone : lp.tarFiles = [])
    (hs : s.processor = lp)
    (h : Guarded (ControlState.Unhindered tar zone) (ControlState.Step tar zone) s op s') :
    s'.processor = lp := by
  obtain ⟨hunhindered, hstep⟩ := h
  cases op with
  | others dir => rw [hstep, ControlState.next, hs]
  | timeEvent now run =>
    rw [hstep, ControlState.next, tidyLogPath]
    by_cases hnight : now.tmod 86400 = 68400
    · rw [if_pos hnight, hs]
      exact (tidy_process hpath hne hnone (hs ▸ hunhindered hnight)).1
    · rw [if_neg hnight, hs]

end

/-- **The log directory stays small.** In a working directory whose path has no date, and
whatever the other processes write and remove between the calls of `TimeEvent`: after each
night on which nothing gets in the way of `Process`, if nothing has been in its way before,
the directory is tidy by the limits of the configuration. -/
theorem nightly_retention {γ : Type} {tar : Tar γ} (zone : LocalTime)
    (cm : Option ConfigManager) {pwd : FileName} (hpwd : getFileDate pwd = none)
    {dir : Directory γ} {ops : List (ControlOp γ)} {now : ℤ} {run : ProcessRun}
    {s : ControlState γ} (hnight : now.tmod 86400 = 68400)
    (hrun : Run (Guarded (ControlState.Unhindered tar zone) (ControlState.Step tar zone))
      (.start (initControl cm pwd) dir) (ops ++ [.timeEvent now run]) s) :
    Tidy zone (initControl cm pwd) run.sortTime s.dir := by
  have hpath := getFileDate_workpath cm hpwd
  have hne : (initControl cm pwd).workpath ≠ [] :=
    List.append_ne_nil_of_right_ne_nil _ (List.cons_ne_nil _ _)
  obtain ⟨s', hbefore, hlast⟩ := hrun.split
  have hprocessor : s'.processor = initControl cm pwd :=
    hbefore.invariant (I := fun s => s.processor = initControl cm pwd)
      (fun _ _ _ hs h => ControlState.processor_step hpath hne rfl hs h) rfl
  obtain ⟨s'', ⟨hunhindered, hstep⟩, hnil⟩ := run_cons_iff.mp hlast
  obtain rfl := run_nil_iff.mp hnil
  rw [hstep, ControlState.next, tidyLogPath, if_pos hnight, hprocessor]
  exact (tidy_process hpath hne rfl (hprocessor ▸ hunhindered hnight)).2

/-- The `tar` that loses nothing takes what its lists hold. -/
theorem takes_tarCommand {γ : Type} (packing : Packing γ) (date : ℤ) (listed : List FileName) :
    packing.tar.Takes date listed where
  removes := by
    intro dir name hlisted hgz
    have hne : name ≠ archiveName date := by
      rintro rfl
      exact hgz (tarGz_suffix_archiveName date)
    simp only [Packing.tar, tarCommand, Function.update_of_ne hne]
    cases hdir : dir name with
    | none => simp
    | some contents => simp [hlisted, hgz, hdir]
  creates := by
    intro dir name hne hnone
    simp [Packing.tar, tarCommand, Function.update_of_ne hne, hnone]

/-- The listing of a directory with one log file of 1 January 2024. -/
def newYearListing : LogProcessor.Listing :=
  { entries := [⟨newYearName, .regular⟩], nodup := by decide }

/-- Nothing gets in the way of a run that finds this log file on the evening of 10 January. -/
theorem unhindered_newYear :
    (runAt 1704913200 [newYearName]).Unhindered blobs.tar (fixedOffset 0) (initControl none [])
    (Function.update (fun _ => none) newYearName (some (Blob.text [120]))) where
  removeDir := ⟨newYearListing, rfl, by simp [newYearListing, Function.update_apply]⟩
  sortDir := by
    refine ⟨_, rfl, ?_⟩
    intro name hname
    obtain ⟨contents, hcontents⟩ := Option.ne_none_iff_exists'.mp hname
    have hthere := (remaining_eq_some_iff.mp hcontents).1
    obtain ⟨rfl, -⟩ : name = newYearName ∧ Blob.text [120] = contents := by
      simpa [Function.update_apply] using hthere
    exact List.mem_singleton_self _
  writes _ := rfl
  takes _ _ := takes_tarCommand blobs _ _
  sameDay _ := rfl
  few := by
    have hdates : {date | ∃ name, (runAt 1704913200 [newYearName]).Waits (fixedOffset 0)
        (initControl none []) date name} ⊆ {20240101} := by
      rintro date ⟨name, ⟨names, hmem, -⟩ | ⟨-, entries, hentries, hlisted, -, hdate, -⟩⟩
      · cases hmem
      · obtain rfl := Option.some.inj hentries
        obtain rfl : name = newYearName := by simpa [LogProcessor.listFiles] using hlisted
        have hnewYear : getFileDate newYearName = some 20240101 := by decide
        exact (Option.some.inj (hnewYear.symm.trans hdate)).symm
    have hcard := Set.ncard_le_ncard hdates (Set.finite_singleton _)
    rw [Set.ncard_singleton] at hcard
    exact hcard.trans (by decide)

/-- The log file of 1 January 2024 appears, and the directory is tidy on the evening of
10 January. -/
theorem nightly_retention_newYear : ∃ s : ControlState Blob,
    Run (Guarded (ControlState.Unhindered blobs.tar (fixedOffset 0))
        (ControlState.Step blobs.tar (fixedOffset 0)))
      (.start (initControl none []) fun _ => none)
      ([.others (Function.update (fun _ => none) newYearName (some (Blob.text [120])))] ++
        [.timeEvent 1704913200 (runAt 1704913200 [newYearName])]) s ∧
      Tidy (fixedOffset 0) (initControl none []) 1704913200 s.dir := by
  have hpwd : getFileDate [] = none := by decide
  have hnight : Int.tmod 1704913200 86400 = 68400 := by decide
  have hrun : Run (Guarded (ControlState.Unhindered blobs.tar (fixedOffset 0))
      (ControlState.Step blobs.tar (fixedOffset 0)))
      (.start (initControl none []) fun _ => none)
      ([.others (Function.update (fun _ => none) newYearName (some (Blob.text [120])))] ++
        [.timeEvent 1704913200 (runAt 1704913200 [newYearName])]) _ :=
    Run.cons ⟨trivial, rfl⟩ (Run.cons ⟨fun _ => unhindered_newYear, rfl⟩ (Run.nil _))
  exact ⟨_, hrun, nightly_retention (fixedOffset 0) none hpwd hnight hrun⟩

end ThriftProxy
