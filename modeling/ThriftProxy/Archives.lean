import ThriftProxy.Retention
import ThriftProxy.Lib.Transition
import Mathlib.Data.Set.Card

/-!
# Archived log files

What a run of `Process` does to the files of a directory, and over runs of the log
processor, whether the contents of log files stay available. An archive is written
afresh whenever `TarMapFiles` works on its date, so what an earlier archive of the date
holds is lost. The files are otherwise kept unless a name with line breaks lists a file
for the archive of another date, or the path of a young file has an old date.
-/

namespace ThriftProxy

/-! ## Waiting dates -/

/-- In an ascending list a value is among the first few when few values are less. -/
theorem mem_take_iff_countP {dates : List ℤ} (hascending : dates.Pairwise (· < ·)) {n : ℕ}
    {date : ℤ} :
    date ∈ dates.take n ↔ date ∈ dates ∧ dates.countP (· < date) < n := by
  induction dates generalizing n with
  | nil => simp
  | cons d dates ih =>
    obtain ⟨hfirst, hrest⟩ := List.pairwise_cons.mp hascending
    cases n with
    | zero => simp
    | succ n =>
      rw [List.take_succ_cons, List.mem_cons, List.mem_cons, ih hrest, List.countP_cons]
      constructor
      · rintro (rfl | ⟨hmem, hcount⟩)
        · have hnone : dates.countP (· < date) = 0 := by
            rw [List.countP_eq_zero]
            intro d hd
            simpa using (hfirst d hd).le
          simp [hnone]
        · have hd := hfirst date hmem
          simp only [hd, decide_true, if_true]
          exact ⟨.inr hmem, by omega⟩
      · rintro ⟨rfl | hmem, hcount⟩
        · exact .inl rfl
        · have hd := hfirst date hmem
          simp only [hd, decide_true, if_true] at hcount
          exact .inr ⟨hmem, by omega⟩

/-- The dates ascend, and each has files. -/
structure TarFiles.Ordered (tarFiles : TarFiles) : Prop where
  /-- The dates ascend. -/
  ascending : (tarFiles.map Prod.fst).Pairwise (· < ·)
  /-- Each date has files. -/
  nonempty : ∀ day ∈ tarFiles, day.2 ≠ []

section

variable {tarFiles : TarFiles} {date : ℤ} {name : FileName}

/-- An empty map is in order. -/
theorem TarFiles.ordered_nil : TarFiles.Ordered [] :=
  ⟨List.Pairwise.nil, fun _ h => by cases h⟩

/-- Leaving out dates keeps the order. -/
theorem TarFiles.Ordered.sublist {others : TarFiles} (h : tarFiles.Ordered)
    (hsub : others.Sublist tarFiles) : others.Ordered :=
  ⟨h.ascending.sublist (hsub.map _), fun day hday => h.nonempty day (hsub.subset hday)⟩

/-- The dates behind an inserted one. -/
theorem mem_dates_insertTarFile {d : ℤ} :
    d ∈ (LogProcessor.insertTarFile date name tarFiles).map Prod.fst ↔
      d = date ∨ d ∈ tarFiles.map Prod.fst := by
  induction tarFiles with
  | nil => simp [LogProcessor.insertTarFile]
  | cons day rest ih =>
    obtain ⟨first, names⟩ := day
    rw [LogProcessor.insertTarFile]
    split
    · simp
    · split
      · rename_i heq
        simp [heq]
      · rw [List.map_cons, List.mem_cons, ih, List.map_cons, List.mem_cons]
        exact or_left_comm

/-- Inserting a file keeps the order. -/
theorem TarFiles.Ordered.insertTarFile (h : tarFiles.Ordered) (date : ℤ) (name : FileName) :
    TarFiles.Ordered (LogProcessor.insertTarFile date name tarFiles) := by
  induction tarFiles with
  | nil => exact ⟨List.pairwise_singleton _ _, by simp [LogProcessor.insertTarFile]⟩
  | cons day rest ih =>
    obtain ⟨d, names⟩ := day
    have hrest : TarFiles.Ordered rest := h.sublist (List.sublist_cons_self _ _)
    have hbehind : ∀ d' ∈ rest.map Prod.fst, d < d' := (List.pairwise_cons.mp h.ascending).1
    rw [LogProcessor.insertTarFile]
    split
    · rename_i hlt
      constructor
      · refine List.pairwise_cons.mpr ⟨?_, h.ascending⟩
        intro d' hd'
        rcases List.mem_cons.mp hd' with rfl | hd'
        · exact hlt
        · exact hlt.trans (hbehind d' hd')
      · intro day hday
        rcases List.mem_cons.mp hday with rfl | hday
        · exact List.cons_ne_nil _ _
        · exact h.nonempty day hday
    · split
      · refine ⟨h.ascending, ?_⟩
        intro day hday
        rcases List.mem_cons.mp hday with rfl | hday
        · have hnames : names ≠ [] := h.nonempty (d, names) List.mem_cons_self
          split
          · exact hnames
          · exact List.append_ne_nil_of_left_ne_nil hnames _
        · exact hrest.nonempty day hday
      · have hinsert := ih hrest
        constructor
        · refine List.pairwise_cons.mpr ⟨?_, hinsert.ascending⟩
          intro d' hd'
          rcases mem_dates_insertTarFile.mp hd' with rfl | hd'
          · omega
          · exact hbehind d' hd'
        · intro day hday
          rcases List.mem_cons.mp hday with rfl | hday
          · exact h.nonempty _ List.mem_cons_self
          · exact hinsert.nonempty day hday

/-- A date waits when it has files. -/
theorem TarFiles.Ordered.mem_dates_iff (h : tarFiles.Ordered) :
    date ∈ tarFiles.map Prod.fst ↔ ∃ name, Pending tarFiles date name := by
  rw [List.mem_map]
  constructor
  · rintro ⟨⟨d, names⟩, hmem, rfl⟩
    obtain ⟨name, hname⟩ := List.exists_mem_of_ne_nil names (h.nonempty _ hmem)
    exact ⟨name, names, hmem, hname⟩
  · rintro ⟨name, names, hmem, -⟩
    exact ⟨(date, names), hmem, rfl⟩

/-- A date is among the first few when few waiting dates are earlier. -/
theorem TarFiles.Ordered.mem_take_iff (h : tarFiles.Ordered) (n : ℕ) (date : ℤ) :
    date ∈ (tarFiles.take n).map Prod.fst ↔
      (∃ name, Pending tarFiles date name) ∧
        {d | d < date ∧ ∃ name, Pending tarFiles d name}.ncard < n := by
  have hset : {d | d < date ∧ ∃ name, Pending tarFiles d name} =
      ((((tarFiles.map Prod.fst).filter (· < date)).toFinset : Finset ℤ) : Set ℤ) := by
    ext d
    simp only [Set.mem_ofPred_eq, ← h.mem_dates_iff, List.coe_toFinset, List.mem_filter,
      decide_eq_true_eq, and_comm]
  have hnodup : ((tarFiles.map Prod.fst).filter (· < date)).Nodup :=
    (h.ascending.imp ne_of_lt).filter _
  rw [List.map_take, mem_take_iff_countP h.ascending, h.mem_dates_iff, hset, Set.ncard_coe_finset,
    List.toFinset_card_of_nodup hnodup, List.countP_eq_length_filter]

end

/-! ## A run over a directory -/

/-- The lines that list the files of a day. -/
def dayLines (names : List FileName) : List FileName := Text.pieces 10 (dayFiles names)

/-- A line of a day is a line of one of its names. -/
theorem mem_dayLines {names : List FileName} {name : FileName} :
    name ∈ dayLines names ↔ ∃ filename ∈ names, name ∈ Text.pieces 10 (filename ++ [10]) := by
  rw [dayLines, dayFiles, Text.pieces_flatMap, List.mem_flatMap]

/-- A day has a list exactly when it has files. -/
theorem dayFiles_eq_nil {names : List FileName} : dayFiles names = [] ↔ names = [] := by
  rw [dayFiles, List.flatMap_eq_nil_iff]
  constructor
  · intro h
    rw [List.eq_nil_iff_forall_not_mem]
    intro name hname
    exact List.append_ne_nil_of_right_ne_nil _ (List.cons_ne_nil _ _) (h name hname)
  · rintro rfl
    simp

/-- The archives of different dates have different names. -/
theorem archiveName_inj {date date' : ℤ} : archiveName date = archiveName date' ↔ date = date' := by
  constructor
  · intro h
    have hprint := List.append_cancel_right h
    rw [← Decimal.parseInt_printInt date, hprint, Decimal.parseInt_printInt]
  · rintro rfl
    rfl

/-- An archive has the ending of archives. -/
theorem tarGz_suffix_archiveName (date : ℤ) : LogProcessor.tarGz <:+ archiveName date :=
  List.suffix_append _ _

/-- The list of files is no archive. -/
theorem archiveName_ne_tmpFile (date : ℤ) : archiveName date ≠ tmpFile := by
  intro h
  have hsuffix := tarGz_suffix_archiveName date
  rw [h] at hsuffix
  exact absurd hsuffix (by decide)

section

variable {γ : Type} (tar : Tar γ)

/-- The archiving of a day. -/
def tarDay (dir : Directory γ) (day : ℤ × List FileName) : Directory γ :=
  tar.command (archiveName day.1) (dayLines day.2)
    (Function.update dir tmpFile (some (tar.text (dayFiles day.2))))

/-- `TarMapFiles` works on a day if it has files and its list can be written. -/
def Workable (writes : ℤ → Bool) (day : ℤ × List FileName) : Bool :=
  decide (dayFiles day.2 ≠ []) && writes day.1

variable {tar}

/-- The loop of `TarMapFiles` archives the days that it can work on one after the other. -/
theorem tarMapLoop_dir (writes : ℤ → Bool) (rounds : ℕ) (tarFiles : TarFiles)
    (dir : Directory γ) :
    (tarMapLoop tar writes rounds tarFiles dir).2 =
      ((tarFiles.take rounds).filter (Workable writes)).foldl (tarDay tar) dir := by
  induction tarFiles generalizing rounds dir with
  | nil => cases rounds <;> simp [tarMapLoop]
  | cons day rest ih =>
    obtain ⟨date, names⟩ := day
    cases rounds with
    | zero => rfl
    | succ rounds =>
      rw [tarMapLoop, List.take_succ_cons]
      split
      · rename_i hskipped
        have hnot : ¬ Workable writes (date, names) = true := by
          simpa [Workable, or_iff_not_imp_left] using hskipped
        rw [List.filter_cons_of_neg hnot]
        exact ih rounds dir
      · rename_i hdone
        have hworkable : Workable writes (date, names) = true := by
          simpa [Workable, not_or] using hdone
        rw [List.filter_cons_of_pos hworkable, List.foldl_cons]
        exact ih rounds _

/-- The loop of `TarMapFiles` leaves some of the days. -/
theorem tarMapLoop_sublist (writes : ℤ → Bool) (rounds : ℕ) (tarFiles : TarFiles)
    (dir : Directory γ) :
    (tarMapLoop tar writes rounds tarFiles dir).1.Sublist tarFiles := by
  induction tarFiles generalizing rounds dir with
  | nil => cases rounds <;> exact List.Sublist.refl _
  | cons day rest ih =>
    obtain ⟨date, names⟩ := day
    cases rounds with
    | zero => exact List.Sublist.refl _
    | succ rounds =>
      rw [tarMapLoop]
      split
      · exact (ih rounds dir).cons_cons _
      · exact (ih rounds _).cons _

variable (packing : Packing γ)

/-- The files that the archiving of a day packs. -/
def packed (dir : Directory γ) (day : ℤ × List FileName) : List (FileName × γ) :=
  let dir := Function.update dir tmpFile (some (packing.text (dayFiles day.2)))
  ((dayLines day.2).filter fun name =>
      ¬ LogProcessor.tarGz <:+ name ∧ (dir name).isSome).filterMap fun name =>
    (dir name).map fun contents => (name, contents)

variable {packing}

/-- A file is packed with its contents if it is listed. -/
theorem mem_packed {dir : Directory γ} {day : ℤ × List FileName} {name : FileName} {contents : γ}
    (hname : name ≠ tmpFile) :
    (name, contents) ∈ packed packing dir day ↔
      ¬ LogProcessor.tarGz <:+ name ∧ name ∈ dayLines day.2 ∧ dir name = some contents := by
  have hupdate : Function.update dir tmpFile (some (packing.text (dayFiles day.2))) name =
      dir name := Function.update_of_ne hname _ _
  simp only [packed, List.mem_filterMap, List.mem_filter, Option.map_eq_some_iff,
    decide_eq_true_eq, Prod.mk.injEq]
  constructor
  · rintro ⟨_, ⟨hlisted, hgz, -⟩, _, hdir, rfl, rfl⟩
    rw [hupdate] at hdir
    exact ⟨hgz, hlisted, hdir⟩
  · rintro ⟨hgz, hlisted, hdir⟩
    rw [← hupdate] at hdir
    exact ⟨name, ⟨hlisted, hgz, by rw [hdir]; rfl⟩, contents, hdir, rfl, rfl⟩

/-- What the archiving of a day does to a file. -/
theorem tarDay_apply {dir : Directory γ} {day : ℤ × List FileName} {name : FileName}
    (hname : name ≠ tmpFile) :
    tarDay packing.tar dir day name =
      if name = archiveName day.1 then some (packing.pack (packed packing dir day))
      else if ¬ LogProcessor.tarGz <:+ name ∧ name ∈ dayLines day.2 then none
      else dir name := by
  have hupdate : Function.update dir tmpFile (some (packing.text (dayFiles day.2))) name =
      dir name := Function.update_of_ne hname _ _
  simp only [tarDay, Packing.tar, tarCommand]
  by_cases harchive : name = archiveName day.1
  · subst harchive
    rw [Function.update_self, if_pos rfl]
    rfl
  · rw [Function.update_of_ne harchive, if_neg harchive, hupdate]
    cases hdir : dir name with
    | none => simp
    | some contents => simp [hupdate, hdir, and_comm]

/-- What archiving does to a file that is none of the archives. -/
theorem foldl_tarDay_of_ne {days : TarFiles} {dir : Directory γ} {name : FileName}
    (hname : name ≠ tmpFile) (harchive : ∀ day ∈ days, name ≠ archiveName day.1) :
    days.foldl (tarDay packing.tar) dir name =
      if ¬ LogProcessor.tarGz <:+ name ∧ ∃ day ∈ days, name ∈ dayLines day.2 then none
      else dir name := by
  induction days generalizing dir with
  | nil => simp
  | cons day days ih =>
    obtain ⟨hday, hdays⟩ := List.forall_mem_cons.mp harchive
    rw [List.foldl_cons, ih hdays, tarDay_apply hname, if_neg hday]
    by_cases hgz : LogProcessor.tarGz <:+ name
    · simp only [hgz, not_true, false_and, if_false]
    · by_cases hlisted : name ∈ dayLines day.2
      · simp only [hgz, hlisted, not_false_eq_true, true_and, List.exists_mem_cons_iff, true_or,
          if_true, ite_self]
      · simp only [hgz, hlisted, not_false_eq_true, true_and, List.exists_mem_cons_iff, false_or,
          if_false]

/-- The archive of a day is the one that is written in its turn. -/
theorem foldl_tarDay_archive {front back : TarFiles} {day : ℤ × List FileName}
    {dir : Directory γ} (hback : ∀ other ∈ back, day.1 ≠ other.1) :
    (front ++ day :: back).foldl (tarDay packing.tar) dir (archiveName day.1) =
      some (packing.pack (packed packing (front.foldl (tarDay packing.tar) dir) day)) := by
  have hother : ∀ other ∈ back, archiveName day.1 ≠ archiveName other.1 := by
    intro other hmem heq
    exact hback other hmem (archiveName_inj.mp heq)
  rw [List.foldl_append, List.foldl_cons,
    foldl_tarDay_of_ne (archiveName_ne_tmpFile _) hother,
    if_neg fun h => h.1 (tarGz_suffix_archiveName _), tarDay_apply (archiveName_ne_tmpFile _),
    if_pos rfl]

end

/-! ## What a run keeps -/

/-- A log file, whose contents are no archive. -/
structure LogFile {γ : Type} (packing : Packing γ) where
  /-- Its name. -/
  name : FileName
  /-- Its contents. -/
  contents : γ
  /-- It is no archive. -/
  plain : packing.unpack contents = none

section

variable {γ : Type} {packing : Packing γ}

/-- The contents of a log file are in the archive of a date. -/
def InArchive (dir : Directory γ) (file : LogFile packing) (date : ℤ) : Prop :=
  ∃ files, (dir (archiveName date)).bind packing.unpack = some files ∧
    (file.name, file.contents) ∈ files

/-- The contents of a log file are available, as the file itself or in the archive of
its date. -/
def Available (dir : Directory γ) (file : LogFile packing) (date : ℤ) : Prop :=
  dir file.name = some file.contents ∨ InArchive dir file date

end

namespace ProcessRun

variable (run : ProcessRun) (zone : LocalTime) (lp : LogProcessor)

/-- A file waits under a date, from earlier runs or because it is picked now. -/
def Waits (date : ℤ) (name : FileName) : Prop :=
  Pending lp.tarFiles date name ∨
    lp.workpath ≠ [] ∧ ∃ entries ∈ run.sortDir, name ∈ LogProcessor.listFiles entries ∧
      lp.Selects zone run.sortTime name date

/-- The archive of a date is written: files wait, few earlier dates have waiting files,
and the list can be written. -/
def Archives (date : ℤ) : Prop :=
  (∃ name, run.Waits zone lp date name) ∧
    {d | d < date ∧ ∃ name, run.Waits zone lp d name}.ncard < maxSortDay ∧
    run.writes date = true

/-- A file is taken for the archive of a date: a waiting name lists it. -/
def Takes (date : ℤ) (name : FileName) : Prop :=
  run.Archives zone lp date ∧ ¬ LogProcessor.tarGz <:+ name ∧
    ∃ filename, run.Waits zone lp date filename ∧ name ∈ Text.pieces 10 (filename ++ [10])

/-- `DoRemove` unlinks a regular file: the date in its path, or else the last date that
the entries in front have left, is due. -/
def Unlinks (name : FileName) : Prop :=
  ∃ entries ∈ run.removeDir, ∃ front entry back, entries = front ++ entry :: back ∧
    entry.name = name ∧ entry.type = .regular ∧
    lp.Due zone run.removeTime (lp.dateLeft 0 (front ++ [entry]))

/-- A run keeps the contents of a log file. They are in the archive of its date, which is
neither removed nor written again; or the file is there, is not removed, is not replaced by
an archive, and the first archive that takes it, if any, is that of its date. -/
def Keeps {γ : Type} {packing : Packing γ} (dir : Directory γ) (file : LogFile packing)
    (date : ℤ) : Prop :=
  (InArchive dir file date ∧ ¬ run.Unlinks zone lp (archiveName date) ∧
    ¬ run.Archives zone lp date) ∨
  (dir file.name = some file.contents ∧ ¬ run.Unlinks zone lp file.name ∧
    (∀ d, run.Archives zone lp d → file.name ≠ archiveName d) ∧
    ∀ d, run.Takes zone lp d file.name → run.Takes zone lp date file.name ∧ date ≤ d)

/-- The days that the run archives. -/
def days : TarFiles :=
  ((lp.sortFilesToMap zone run.sortTime run.sortDir).tarFiles.take maxSortDay).filter
    (Workable run.writes)

/-- The directory behind `DoRemove`. -/
def remaining {γ : Type} (dir : Directory γ) : Directory γ :=
  unlinkFiles (lp.doRemove zone run.removeTime run.removeDir) dir

end ProcessRun

section

variable {γ : Type} {packing : Packing γ} {zone : LocalTime} {lp : LogProcessor} {run : ProcessRun}
  {date : ℤ} {name : FileName}

/-- What `DoRemove` unlinks. -/
theorem mem_doRemove_iff :
    name ∈ lp.doRemove zone run.removeTime run.removeDir ↔ run.Unlinks zone lp name := by
  unfold ProcessRun.Unlinks
  cases run.removeDir with
  | none => simp [LogProcessor.doRemove]
  | some entries => simp [LogProcessor.doRemove, LogProcessor.mem_doRemoveLoop_iff]

/-- A file that remains has been there and is not unlinked. -/
theorem remaining_eq_some_iff {dir : Directory γ} {contents : γ} :
    run.remaining zone lp dir name = some contents ↔
      dir name = some contents ∧ ¬ run.Unlinks zone lp name := by
  rw [ProcessRun.remaining, unlinkFiles, ← mem_doRemove_iff]
  split
  · rename_i hmem
    simp [hmem]
  · rename_i hmem
    simp [hmem]

/-- What waits after `SortFilesToMap`. -/
theorem pending_iff_waits :
    Pending (lp.sortFilesToMap zone run.sortTime run.sortDir).tarFiles date name ↔
      run.Waits zone lp date name := by
  unfold ProcessRun.Waits
  by_cases hpath : lp.workpath = []
  · simp [LogProcessor.sortFilesToMap, hpath]
  · cases run.sortDir with
    | none => simp [LogProcessor.sortFilesToMap]
    | some entries => simp [LogProcessor.pending_sortFilesToMap hpath, hpath]

/-- One round of `SortFilesToMap` keeps the order. -/
theorem TarFiles.Ordered.sortFile {tarFiles : TarFiles} (h : tarFiles.Ordered) (now : ℤ)
    (filename : FileName) : TarFiles.Ordered (lp.sortFile zone now tarFiles filename) := by
  rw [LogProcessor.sortFile]
  split
  · exact h
  · simp only
    split
    · split
      · exact h.insertTarFile _ _
      · exact h
    · exact h

/-- `SortFilesToMap` keeps the order. -/
theorem TarFiles.Ordered.sortFilesToMap (h : lp.tarFiles.Ordered) (zone : LocalTime) (now : ℤ)
    (workdir : Option (List Dirent)) :
    (lp.sortFilesToMap zone now workdir).tarFiles.Ordered := by
  unfold LogProcessor.sortFilesToMap
  split
  · exact h
  · cases workdir with
    | none => exact h
    | some entries =>
      exact List.foldlRecOn _ _ h fun tarFiles htar filename _ => htar.sortFile now filename

/-- A date has one set of files. -/
theorem TarFiles.Ordered.mem_of_pending {tarFiles : TarFiles} (h : tarFiles.Ordered)
    {names : List FileName} (hday : (date, names) ∈ tarFiles)
    (hpending : Pending tarFiles date name) :
    name ∈ names := by
  obtain ⟨names', hmem, hname⟩ := hpending
  have hnodup : (tarFiles.map Prod.fst).Nodup := h.ascending.imp ne_of_lt
  have heq := List.inj_on_of_nodup_map hnodup hmem hday rfl
  cases heq
  exact hname

/-- The days that are archived. -/
theorem mem_dates_days (h : lp.tarFiles.Ordered) :
    date ∈ (run.days zone lp).map Prod.fst ↔ run.Archives zone lp date := by
  have hsorted := h.sortFilesToMap zone run.sortTime run.sortDir
  have htake := hsorted.mem_take_iff maxSortDay date
  simp only [pending_iff_waits] at htake
  rw [ProcessRun.Archives, ← and_assoc, ← htake, ProcessRun.days, List.mem_map, List.mem_map]
  constructor
  · rintro ⟨day, hday, rfl⟩
    obtain ⟨hmem, hworkable⟩ := List.mem_filter.mp hday
    rw [Workable, Bool.and_eq_true] at hworkable
    exact ⟨⟨day, hmem, rfl⟩, hworkable.2⟩
  · rintro ⟨⟨day, hmem, rfl⟩, hwrites⟩
    refine ⟨day, List.mem_filter.mpr ⟨hmem, ?_⟩, rfl⟩
    have hfiles := hsorted.nonempty day (List.mem_of_mem_take hmem)
    simp [Workable, dayFiles_eq_nil, hfiles, hwrites]

/-- The files that are taken for an archive. -/
theorem takes_iff (h : lp.tarFiles.Ordered) :
    run.Takes zone lp date name ↔
      ¬ LogProcessor.tarGz <:+ name ∧ ∃ day ∈ run.days zone lp, day.1 = date ∧
        name ∈ dayLines day.2 := by
  have hsorted := h.sortFilesToMap zone run.sortTime run.sortDir
  have hwaiting : ∀ day ∈ run.days zone lp,
      day ∈ (lp.sortFilesToMap zone run.sortTime run.sortDir).tarFiles :=
    fun day hday => List.mem_of_mem_take (List.mem_filter.mp hday).1
  rw [ProcessRun.Takes, ← mem_dates_days h, List.mem_map]
  constructor
  · rintro ⟨⟨⟨_, names⟩, hday, rfl⟩, hgz, filename, hwaits, hline⟩
    refine ⟨hgz, (_, names), hday, rfl, mem_dayLines.mpr ⟨filename, ?_, hline⟩⟩
    exact hsorted.mem_of_pending (hwaiting _ hday) (pending_iff_waits.mpr hwaits)
  · rintro ⟨hgz, day, hday, rfl, hline⟩
    obtain ⟨filename, hfile, hline⟩ := mem_dayLines.mp hline
    exact ⟨⟨day, hday, rfl⟩, hgz, filename,
      pending_iff_waits.mp ⟨day.2, hwaiting day hday, hfile⟩, hline⟩

/-- The directory that a run leaves. -/
theorem process_dir (tar : Tar γ) (dir : Directory γ) :
    (lp.process tar zone run dir).2 =
      Function.update ((run.days zone lp).foldl (tarDay tar) (run.remaining zone lp dir))
        tmpFile none := by
  rw [ProcessRun.days, ← tarMapLoop_dir]
  rfl

/-- The days in front of an archived day are earlier, and those behind are later. -/
theorem days_split (h : lp.tarFiles.Ordered) {day : ℤ × List FileName}
    (hday : day ∈ run.days zone lp) :
    ∃ front back, run.days zone lp = front ++ day :: back ∧ (∀ other ∈ front, other.1 < day.1) ∧
      ∀ other ∈ back, day.1 < other.1 := by
  obtain ⟨front, back, heq⟩ := List.append_of_mem hday
  have hsorted := h.sortFilesToMap zone run.sortTime run.sortDir
  have hordered : TarFiles.Ordered (run.days zone lp) :=
    hsorted.sublist (List.filter_sublist.trans (List.take_sublist _ _))
  have hascending := List.pairwise_map.mp hordered.ascending
  rw [heq, List.pairwise_append] at hascending
  obtain ⟨-, hback, hfront⟩ := hascending
  exact ⟨front, back, heq, fun other hother => hfront other hother day List.mem_cons_self,
    (List.pairwise_cons.mp hback).1⟩

/-- Another day has another archive. -/
theorem archiveName_ne_of_not_archives (h : lp.tarFiles.Ordered)
    (hne : ∀ d, run.Archives zone lp d → name ≠ archiveName d) :
    ∀ day ∈ run.days zone lp, name ≠ archiveName day.1 :=
  fun day hday => hne day.1 ((mem_dates_days h).mp (List.mem_map_of_mem hday))

/-- A log file stays itself if nothing removes, replaces or takes it. -/
theorem file_stays_iff (h : lp.tarFiles.Ordered) {dir : Directory γ} {file : LogFile packing}
    (hname : file.name ≠ tmpFile) :
    (run.days zone lp).foldl (tarDay packing.tar) (run.remaining zone lp dir) file.name =
        some file.contents ↔
      (dir file.name = some file.contents ∧ ¬ run.Unlinks zone lp file.name) ∧
        (∀ d, run.Archives zone lp d → file.name ≠ archiveName d) ∧
        ∀ d, ¬ run.Takes zone lp d file.name := by
  by_cases harchive : ∃ d, run.Archives zone lp d ∧ file.name = archiveName d
  · -- The archive in its place is no log file.
    obtain ⟨d, hd, heq⟩ := harchive
    obtain ⟨day, hday, rfl⟩ := List.mem_map.mp ((mem_dates_days h).mpr hd)
    obtain ⟨front, back, hsplit, -, hback⟩ := days_split h hday
    constructor
    · intro hstays
      rw [hsplit, heq, foldl_tarDay_archive fun other hother => (hback other hother).ne] at hstays
      have hplain := file.plain
      rw [← Option.some.inj hstays, packing.unpack_pack] at hplain
      cases hplain
    · rintro ⟨-, hnot, -⟩
      exact absurd heq (hnot day.1 hd)
  · have hne : ∀ d, run.Archives zone lp d → file.name ≠ archiveName d := by
      intro d hd heq
      exact harchive ⟨d, hd, heq⟩
    have htakes : (¬ LogProcessor.tarGz <:+ file.name ∧
        ∃ day ∈ run.days zone lp, file.name ∈ dayLines day.2) ↔
          ∃ d, run.Takes zone lp d file.name := by
      simp only [takes_iff h]
      constructor
      · rintro ⟨hgz, day, hday, hline⟩
        exact ⟨day.1, hgz, day, hday, rfl, hline⟩
      · rintro ⟨_, hgz, day, hday, -, hline⟩
        exact ⟨hgz, day, hday, hline⟩
    rw [foldl_tarDay_of_ne hname (archiveName_ne_of_not_archives h hne), ← remaining_eq_some_iff]
    split
    · rename_i htaken
      obtain ⟨d, hd⟩ := htakes.mp htaken
      constructor
      · intro hnone
        cases hnone
      · rintro ⟨-, -, hnot⟩
        exact absurd hd (hnot d)
    · rename_i hnot
      constructor
      · intro hstays
        exact ⟨hstays, hne, fun d hd => hnot (htakes.mpr ⟨d, hd⟩)⟩
      · rintro ⟨hstays, -, -⟩
        exact hstays

/-- A file is taken for a day of the run if it is listed there. -/
theorem takes_day_iff (h : lp.tarFiles.Ordered) {day : ℤ × List FileName}
    (hday : day ∈ run.days zone lp) :
    run.Takes zone lp day.1 name ↔ ¬ LogProcessor.tarGz <:+ name ∧ name ∈ dayLines day.2 := by
  obtain ⟨front, back, hsplit, hfront, hback⟩ := days_split h hday
  rw [takes_iff h]
  constructor
  · rintro ⟨hgz, other, hother, hdate, hline⟩
    rw [hsplit, List.mem_append, List.mem_cons] at hother
    rcases hother with hother | rfl | hother
    · exact absurd hdate (hfront other hother).ne
    · exact ⟨hgz, hline⟩
    · exact absurd hdate (hback other hother).ne'
  · rintro ⟨hgz, hline⟩
    exact ⟨hgz, day, hday, rfl, hline⟩

/-- No earlier day takes a file that is not listed in front. -/
theorem takes_least_iff (h : lp.tarFiles.Ordered) {front back : TarFiles}
    {day : ℤ × List FileName} (hsplit : run.days zone lp = front ++ day :: back)
    (hfront : ∀ other ∈ front, other.1 < day.1) (hback : ∀ other ∈ back, day.1 < other.1)
    (hgz : ¬ LogProcessor.tarGz <:+ name) :
    (∀ d, run.Takes zone lp d name → day.1 ≤ d) ↔
      ¬ ∃ other ∈ front, name ∈ dayLines other.2 := by
  constructor
  · rintro hleast ⟨other, hother, hline⟩
    have hmem : other ∈ run.days zone lp := by
      rw [hsplit]
      exact List.mem_append_left _ hother
    have hle := hleast other.1 ((takes_day_iff h hmem).mpr ⟨hgz, hline⟩)
    exact absurd (hfront other hother) (not_lt.mpr hle)
  · intro hnone d hd
    obtain ⟨-, other, hother, rfl, hline⟩ := (takes_iff h).mp hd
    rw [hsplit, List.mem_append, List.mem_cons] at hother
    rcases hother with hother | rfl | hother
    · exact absurd ⟨other, hother, hline⟩ hnone
    · exact le_rfl
    · exact (hback other hother).le

/-- An archive that is not written keeps what it holds if it remains. -/
theorem inArchive_of_not_archives (h : lp.tarFiles.Ordered) {dir : Directory γ}
    {file : LogFile packing} (hnot : ¬ run.Archives zone lp date) :
    InArchive ((run.days zone lp).foldl (tarDay packing.tar) (run.remaining zone lp dir))
        file date ↔
      InArchive dir file date ∧ ¬ run.Unlinks zone lp (archiveName date) := by
  have hother : ∀ d, run.Archives zone lp d → archiveName date ≠ archiveName d := by
    intro d hd heq
    exact hnot (archiveName_inj.mp heq ▸ hd)
  rw [InArchive, InArchive, foldl_tarDay_of_ne (archiveName_ne_tmpFile _)
    (archiveName_ne_of_not_archives h hother), if_neg fun h => h.1 (tarGz_suffix_archiveName _)]
  simp only [Option.bind_eq_some_iff, remaining_eq_some_iff]
  constructor
  · rintro ⟨files, ⟨archive, ⟨hdir, hunlinks⟩, hunpack⟩, hmem⟩
    exact ⟨⟨files, ⟨archive, hdir, hunpack⟩, hmem⟩, hunlinks⟩
  · rintro ⟨⟨files, ⟨archive, hdir, hunpack⟩, hmem⟩, hunlinks⟩
    exact ⟨files, ⟨archive, ⟨hdir, hunlinks⟩, hunpack⟩, hmem⟩

/-- An archive that is written holds the files that it is the first to take. -/
theorem inArchive_of_archives (h : lp.tarFiles.Ordered) {dir : Directory γ}
    {file : LogFile packing} (hname : file.name ≠ tmpFile)
    (harchives : run.Archives zone lp date) :
    InArchive ((run.days zone lp).foldl (tarDay packing.tar) (run.remaining zone lp dir))
        file date ↔
      (dir file.name = some file.contents ∧ ¬ run.Unlinks zone lp file.name) ∧
        run.Takes zone lp date file.name ∧ ∀ d, run.Takes zone lp d file.name → date ≤ d := by
  obtain ⟨day, hday, rfl⟩ := List.mem_map.mp ((mem_dates_days h).mpr harchives)
  obtain ⟨front, back, hsplit, hfront, hback⟩ := days_split h hday
  have hin : InArchive ((run.days zone lp).foldl (tarDay packing.tar) (run.remaining zone lp dir))
      file day.1 ↔ (file.name, file.contents) ∈ packed packing
        (front.foldl (tarDay packing.tar) (run.remaining zone lp dir)) day := by
    rw [InArchive, hsplit, foldl_tarDay_archive fun other hother => (hback other hother).ne,
      Option.bind_some, packing.unpack_pack]
    constructor
    · rintro ⟨files, hfiles, hmem⟩
      rwa [Option.some.inj hfiles]
    · intro hmem
      exact ⟨_, rfl, hmem⟩
  rw [hin, mem_packed hname, takes_day_iff h hday]
  by_cases hgz : LogProcessor.tarGz <:+ file.name
  · simp [hgz]
  · have hne : ∀ other ∈ front, file.name ≠ archiveName other.1 := by
      intro other _ heq
      exact hgz (heq ▸ tarGz_suffix_archiveName other.1)
    rw [foldl_tarDay_of_ne hname hne, takes_least_iff h hsplit hfront hback hgz,
      ← remaining_eq_some_iff]
    by_cases htaken : ∃ other ∈ front, file.name ∈ dayLines other.2
    · simp only [htaken, hgz, not_true, not_false_eq_true, and_true, if_true, and_false,
        reduceCtorEq]
    · simp only [htaken, hgz, not_false_eq_true, true_and, and_true, if_false]
      exact and_comm

/-- The contents of a dated log file are available after a run if the run keeps them. -/
theorem available_process_iff (h : lp.tarFiles.Ordered) {dir : Directory γ}
    {file : LogFile packing} (hname : file.name ≠ tmpFile) :
    Available (lp.process packing.tar zone run dir).2 file date ↔
      run.Keeps zone lp dir file date := by
  have harchive : InArchive (lp.process packing.tar zone run dir).2 file date ↔ InArchive
      ((run.days zone lp).foldl (tarDay packing.tar) (run.remaining zone lp dir)) file date := by
    rw [InArchive, InArchive, process_dir, Function.update_of_ne (archiveName_ne_tmpFile _)]
  have hnotArchive : run.Takes zone lp date file.name →
      ∀ d, run.Archives zone lp d → file.name ≠ archiveName d := by
    rintro ⟨-, hgz, -⟩ d _ heq
    exact hgz (heq ▸ tarGz_suffix_archiveName d)
  rw [Available, harchive, process_dir, Function.update_of_ne hname, file_stays_iff h hname,
    ProcessRun.Keeps]
  by_cases harchives : run.Archives zone lp date
  · rw [inArchive_of_archives h hname harchives]
    constructor
    · rintro (⟨⟨hdir, hunlinks⟩, hne, hnone⟩ | ⟨⟨hdir, hunlinks⟩, htakes, hleast⟩)
      · exact .inr ⟨hdir, hunlinks, hne, fun d hd => absurd hd (hnone d)⟩
      · exact .inr ⟨hdir, hunlinks, hnotArchive htakes, fun d hd => ⟨htakes, hleast d hd⟩⟩
    · rintro (⟨-, -, hnot⟩ | ⟨hdir, hunlinks, hne, hfirst⟩)
      · exact absurd harchives hnot
      · by_cases htakes : run.Takes zone lp date file.name
        · exact .inr ⟨⟨hdir, hunlinks⟩, htakes, fun d hd => (hfirst d hd).2⟩
        · exact .inl ⟨⟨hdir, hunlinks⟩, hne, fun d hd => htakes (hfirst d hd).1⟩
  · rw [inArchive_of_not_archives h harchives]
    constructor
    · rintro (⟨⟨hdir, hunlinks⟩, hne, hnone⟩ | ⟨hin, hunlinks⟩)
      · exact .inr ⟨hdir, hunlinks, hne, fun d hd => absurd hd (hnone d)⟩
      · exact .inl ⟨hin, hunlinks, harchives⟩
    · rintro (⟨hin, hunlinks, -⟩ | ⟨hdir, hunlinks, hne, hfirst⟩)
      · exact .inr ⟨hin, hunlinks⟩
      · exact .inl ⟨⟨hdir, hunlinks⟩, hne, fun d hd => harchives (hfirst d hd).1.1⟩

end

end ThriftProxy
