import ThriftProxy.LogRemoval

/-!
# Kept, archived and removed files

A dated file is to be kept, archived or removed by the number of days since its date.
`SortFilesToMap` and `DoRemove` agree on this for the limits that `Control::Init` sets,
unless the time stamp of the date does not fit into 32 bits or the number of days
does not fit into an `int`.
-/

namespace ThriftProxy

open Machine Calendar

/-! ## Files that wait to be archived -/

/-- A file waits to be archived under a date. -/
def Pending (tarFiles : TarFiles) (date : ℤ) (name : FileName) : Prop :=
  ∃ names, (date, names) ∈ tarFiles ∧ name ∈ names

section

variable {tarFiles : TarFiles} {date : ℤ} {name : FileName}

/-- Nothing waits in an empty map. -/
@[simp] theorem not_pending_nil : ¬ Pending [] date name := by
  rintro ⟨_, hmem, _⟩
  cases hmem

/-- A file waits under the first date or under one of the others. -/
@[simp] theorem pending_cons {d : ℤ} {names : List FileName} :
    Pending ((d, names) :: tarFiles) date name ↔
      (date = d ∧ name ∈ names) ∨ Pending tarFiles date name := by
  simp only [Pending, List.mem_cons, Prod.mk.injEq]
  constructor
  · rintro ⟨names', ⟨rfl, rfl⟩ | hmem, hname⟩
    · exact .inl ⟨rfl, hname⟩
    · exact .inr ⟨names', hmem, hname⟩
  · rintro (⟨rfl, hname⟩ | ⟨names', hmem, hname⟩)
    · exact ⟨names, .inl ⟨rfl, rfl⟩, hname⟩
    · exact ⟨names', .inr hmem, hname⟩

/-- Inserting a file lets it wait, and changes nothing for the others. -/
theorem pending_insertTarFile {date' : ℤ} {filename : FileName} :
    Pending (LogProcessor.insertTarFile date' filename tarFiles) date name ↔
      Pending tarFiles date name ∨ (date = date' ∧ name = filename) := by
  induction tarFiles with
  | nil => simp [LogProcessor.insertTarFile]
  | cons day rest ih =>
    obtain ⟨d, names⟩ := day
    rw [LogProcessor.insertTarFile]
    split
    · rw [pending_cons, List.mem_singleton, or_comm]
    · split
      · rename_i heq
        subst heq
        rw [pending_cons, pending_cons]
        split
        · rename_i hmem
          constructor
          · exact Or.inl
          · rintro (h | ⟨rfl, rfl⟩)
            · exact h
            · exact .inl ⟨rfl, hmem⟩
        · rw [List.mem_append, List.mem_singleton, and_or_left, or_right_comm]
      · rw [pending_cons, ih, pending_cons, or_assoc]

end

namespace LogProcessor

/-- `SortFilesToMap` picks a file for a date. -/
def Selects (zone : LocalTime) (lp : LogProcessor) (now : ℤ) (name : FileName) (date : ℤ) : Prop :=
  ¬ tarGz <:+: name ∧ getFileDate name = some date ∧ DateInRange date ∧
    daysSince zone date now > lp.archiveDays ∧ daysSince zone date now < lp.removeDays + 1

variable {zone : LocalTime} {lp : LogProcessor} {now : ℤ} {tarFiles : TarFiles} {date : ℤ}
  {name : FileName}

/-- One round lets the file wait if it is picked. -/
theorem pending_sortFile {filename : FileName} :
    Pending (lp.sortFile zone now tarFiles filename) date name ↔
      Pending tarFiles date name ∨ (name = filename ∧ lp.Selects zone now filename date) := by
  rw [sortFile]
  split
  · rename_i harchive
    simp [Selects, harchive]
  · rename_i harchive
    cases hdate : getFileDate filename with
    | none =>
      have hzero : ¬ DateInRange 0 := by decide
      simp [Selects, hdate, hzero]
    | some d =>
      by_cases hrange : DateInRange d
      · by_cases hage : daysSince zone d now > lp.archiveDays ∧
          daysSince zone d now < lp.removeDays + 1
        · simp only [Option.getD_some, hrange, hage, and_self, if_true, pending_insertTarFile,
            Selects, harchive, hdate, Option.some.injEq, not_false_eq_true, true_and]
          refine or_congr_right ⟨?_, ?_⟩
          · rintro ⟨rfl, rfl⟩
            exact ⟨rfl, rfl, hrange, hage⟩
          · rintro ⟨rfl, rfl, -⟩
            exact ⟨rfl, rfl⟩
        · simp only [Option.getD_some, hrange, hage, if_true, if_false, Selects, hdate,
            Option.some.injEq]
          refine (or_iff_left ?_).symm
          rintro ⟨-, -, rfl, -, hselected⟩
          exact hage hselected
      · simp only [Option.getD_some, hrange, if_false, Selects, hdate, Option.some.injEq]
        refine (or_iff_left ?_).symm
        rintro ⟨-, -, rfl, hother, -⟩
        exact hrange hother

/-- The loop of `SortFilesToMap` adds the files that are picked. -/
theorem pending_foldl_sortFile {files : List FileName} :
    Pending (files.foldl (lp.sortFile zone now) tarFiles) date name ↔
      Pending tarFiles date name ∨ (name ∈ files ∧ lp.Selects zone now name date) := by
  induction files generalizing tarFiles with
  | nil => simp
  | cons filename files ih =>
    rw [List.foldl_cons, ih, pending_sortFile, or_assoc, List.mem_cons]
    refine or_congr_right ⟨?_, ?_⟩
    · rintro (⟨rfl, h⟩ | ⟨hmem, h⟩)
      · exact ⟨.inl rfl, h⟩
      · exact ⟨.inr hmem, h⟩
    · rintro ⟨rfl | hmem, h⟩
      · exact .inl ⟨rfl, h⟩
      · exact .inr ⟨hmem, h⟩

/-- What waits after `SortFilesToMap`. -/
theorem pending_sortFilesToMap (hpath : lp.workpath ≠ []) {entries : List Dirent} :
    Pending (lp.sortFilesToMap zone now (some entries)).tarFiles date name ↔
      Pending lp.tarFiles date name ∨
        (name ∈ listFiles entries ∧ lp.Selects zone now name date) := by
  rw [sortFilesToMap, if_neg hpath]
  exact pending_foldl_sortFile

end LogProcessor

/-! ## Ages -/

/-- The days from a date to a clock reading. -/
def age (offset : ℤ) (d : Date) (now : ℤ) : ℤ := localDay offset now - d.dayNumber

/-- The file of an entry is kept, selected for its archive or removed, as its age says. -/
def ClassifiedByAge (zone : LocalTime) (lp : LogProcessor) (now : ℤ)
    (listing : LogProcessor.Listing) (entry : Dirent) (date age : ℤ) : Prop :=
  let removed := entry.name ∈ lp.doRemove zone now (some listing.entries)
  let selected :=
    Pending (lp.sortFilesToMap zone now (some listing.entries)).tarFiles date entry.name
  (age ≤ lp.archiveDays → ¬ removed ∧ ¬ selected) ∧
    (lp.archiveDays < age → age ≤ lp.removeDays → selected ∧ ¬ removed) ∧
    (lp.removeDays < age → removed ∧ ¬ selected)

/-- The midnight that starts the date fits into 32 bits, or the file is to be removed in
any case, or the clock has hardly passed the day that the cut time stamp falls on. If
the days since that day do not fit into an `int`, what is left of them must still be
more than the limit. -/
def AgeFound (offset : ℤ) (lp : LogProcessor) (d : Date) (now : ℤ) : Prop :=
  let found := localDay offset now - stampedDay offset d.dayNumber
  if found < 2 ^ 31 then
    d.dayNumber * 86400 - offset < 2 ^ 32 ∨ lp.removeDays < age offset d now ∨
      found ≤ lp.archiveDays
  else lp.removeDays < wrapInt found

/-- A file with a date of its own is classified by the age that is found for it. -/
theorem classifiedByAge_iff_daysSince (zone : LocalTime) {lp : LogProcessor} (now : ℤ)
    {listing : LogProcessor.Listing} {entry : Dirent} {date : ℤ} (hpath : lp.workpath ≠ [])
    (hmem : entry ∈ listing.entries) (htype : entry.type = .regular)
    (hname : getFileDate entry.name = some date)
    (hdate : getFileDate (lp.path entry.name) = some date)
    (harchive : ¬ LogProcessor.tarGz <:+: entry.name) (hrange : DateInRange date)
    (hnew : ¬ Pending lp.tarFiles date entry.name) (age : ℤ) :
    ClassifiedByAge zone lp now listing entry date age ↔
      (age ≤ lp.archiveDays →
        ¬ lp.removeDays < daysSince zone date now ∧
        ¬ (lp.archiveDays < daysSince zone date now ∧
          daysSince zone date now < lp.removeDays + 1)) ∧
      (lp.archiveDays < age → age ≤ lp.removeDays →
        (lp.archiveDays < daysSince zone date now ∧
          daysSince zone date now < lp.removeDays + 1) ∧
        ¬ lp.removeDays < daysSince zone date now) ∧
      (lp.removeDays < age →
        lp.removeDays < daysSince zone date now ∧
        ¬ (lp.archiveDays < daysSince zone date now ∧
          daysSince zone date now < lp.removeDays + 1)) := by
  have hremoved := LogProcessor.mem_doRemove_of_date zone now listing hmem hdate
  have hlisted : entry.name ∈ LogProcessor.listFiles listing.entries := by
    rw [LogProcessor.listFiles, List.mem_map]
    exact ⟨entry, List.mem_filter.mpr ⟨hmem, by simp [htype]⟩, rfl⟩
  have hselected : Pending (lp.sortFilesToMap zone now (some listing.entries)).tarFiles date
      entry.name ↔ lp.archiveDays < daysSince zone date now ∧
        daysSince zone date now < lp.removeDays + 1 := by
    rw [LogProcessor.pending_sortFilesToMap hpath]
    simp only [hnew, false_or, hlisted, true_and, LogProcessor.Selects, harchive,
      not_false_eq_true, hname, hrange, gt_iff_lt]
  have hdue : lp.Due zone now date ↔ lp.removeDays < daysSince zone date now := by
    simp only [LogProcessor.Due, hrange, true_and, gt_iff_lt]
  rw [htype, hdue] at hremoved
  simp only [true_and] at hremoved
  unfold ClassifiedByAge
  simp only [hremoved, hselected]

/-- The limits that `Control::Init` sets. -/
theorem controlInit_limits (homedir : FileName) (logArchiveDays logRemoveDays : ℤ) :
    1 ≤ (controlInit homedir logArchiveDays logRemoveDays).archiveDays ∧
    (controlInit homedir logArchiveDays logRemoveDays).archiveDays ≤
      (controlInit homedir logArchiveDays logRemoveDays).removeDays ∧
    (controlInit homedir logArchiveDays logRemoveDays).removeDays ≤ 168 := by
  simp only [controlInit]
  omega

/-- **Retention.** With the limits of `Control::Init`, a file dated from 2000 to 2999 that
does not wait from an earlier scan is kept, archived or removed by its age in calendar days
if and only if its age is found. -/
theorem classifiedByAge_iff {offset : ℤ} (hlow : -90000 < offset) (hhigh : offset < 90000)
    (homedir : FileName) (logArchiveDays logRemoveDays : ℤ) (tarFiles : TarFiles) {d : Date}
    (hfirst : 2000 ≤ d.year) (hlast : d.year ≤ 2999) {now : ℤ} (hnow : 0 ≤ now)
    (listing : LogProcessor.Listing) {entry : Dirent}
    (hmem : entry ∈ listing.entries) (htype : entry.type = .regular)
    (hname : getFileDate entry.name = some (dateCode d))
    (hdate : getFileDate
      ((controlInit homedir logArchiveDays logRemoveDays).path entry.name) = some (dateCode d))
    (harchive : ¬ LogProcessor.tarGz <:+: entry.name)
    (hnew : ¬ Pending tarFiles (dateCode d) entry.name) :
    let lp := { controlInit homedir logArchiveDays logRemoveDays with tarFiles := tarFiles }
    ClassifiedByAge (fixedOffset offset) lp now listing entry (dateCode d) (age offset d now) ↔
      AgeFound offset lp d now := by
  intro lp
  have hlimits : 1 ≤ lp.archiveDays ∧ lp.archiveDays ≤ lp.removeDays ∧ lp.removeDays ≤ 168 :=
    controlInit_limits homedir logArchiveDays logRemoveDays
  have hworkpath : lp.workpath ≠ [] := List.append_ne_nil_of_right_ne_nil _ (List.cons_ne_nil _ _)
  have hclass := classifiedByAge_iff_daysSince (fixedOffset offset) now hworkpath hmem htype hname
    hdate harchive (dateInRange_dateCode hfirst hlast) hnew (age offset d now)
  have hyear : 0 ≤ d.year := by omega
  have hdays := daysSince_dateCode hlow hhigh hyear hnow
  have hday := dayNumber_bounds hfirst hlast
  have hstamped := stampedDay_bounds hlow hhigh d.dayNumber
  have hfits : d.dayNumber * 86400 - offset < 2 ^ 32 →
      stampedDay offset d.dayNumber = d.dayNumber := stampedDay_of_fits (by omega)
  have hlarge : 2 ^ 32 ≤ d.dayNumber * 86400 - offset →
      stampedDay offset d.dayNumber + 49711 ≤ d.dayNumber := stampedDay_of_not_fits
  have hwrap : localDay offset now - stampedDay offset d.dayNumber < 2 ^ 31 →
      stampedDay offset d.dayNumber ≤ localDay offset now →
      wrapInt (localDay offset now - stampedDay offset d.dayNumber) =
        localDay offset now - stampedDay offset d.dayNumber :=
    fun hlt hle => wrapInt_eq_self (by omega) hlt
  rw [hclass, AgeFound, age]
  generalize daysSince (fixedOffset offset) (dateCode d) now = found at hdays
  generalize wrapInt (localDay offset now - stampedDay offset d.dayNumber) = rest at hdays hwrap ⊢
  by_cases hint : localDay offset now - stampedDay offset d.dayNumber < 2 ^ 31
  · rw [if_pos hint]
    by_cases hstamp : d.dayNumber * 86400 - offset < 2 ^ 32
    · have heq := hfits hstamp
      omega
    · have hle := hlarge (by omega)
      omega
  · rw [if_neg hint]
    by_cases hstamp : d.dayNumber * 86400 - offset < 2 ^ 32
    · have heq := hfits hstamp
      omega
    · omega

/-- A directory with one regular file. -/
def loneListing (name : FileName) : LogProcessor.Listing :=
  { entries := [⟨name, .regular⟩], nodup := List.nodup_singleton _ }

/-- 8 February 2106. -/
def stampEnd : Date :=
  { year := 2106, month := 2, day := 8, month_pos := by decide, month_le := by decide
    day_pos := by decide, day_le := by decide }

/-- The name `x21060208`. -/
def stampEndName : FileName := [120, 50, 49, 48, 54, 48, 50, 48, 56]

/-- The name `x20240101`. -/
def newYearName : FileName := [120, 50, 48, 50, 52, 48, 49, 48, 49]

/-- On the day after the 32 bits of time stamps have run out, the log of that day is
removed. -/
theorem stampEnd_misclassified :
    ¬ ClassifiedByAge (fixedOffset 0) (controlInit [] 7 28) 4295073600 (loneListing stampEndName)
      ⟨stampEndName, .regular⟩ 21060208 (age 0 stampEnd 4295073600) := by
  have hlow : (-90000 : ℤ) < 0 := by decide
  have hhigh : (0 : ℤ) < 90000 := by decide
  have hyear : 0 ≤ stampEnd.year := by decide
  have hnow : (0 : ℤ) ≤ 4295073600 := by decide
  have hcode : dateCode stampEnd = 21060208 := by decide
  have hfound : wrapInt (localDay 0 4295073600 - stampedDay 0 stampEnd.dayNumber) = 49711 := by
    decide
  obtain ⟨hdays, -⟩ := daysSince_dateCode hlow hhigh hyear hnow
  rw [hcode, hfound] at hdays
  rw [classifiedByAge_iff_daysSince (fixedOffset 0) 4295073600 (by decide) List.mem_cons_self rfl
    (by decide) (by decide) (by decide) (by decide) not_pending_nil, hdays (by decide)]
  rintro ⟨hkept, -⟩
  exact absurd (hkept (by decide)).1 (by decide)

/-- On 10 January 2024 the log of the first day of the year is selected for its archive. -/
theorem newYear2024_classified :
    ClassifiedByAge (fixedOffset 0) { controlInit [] 7 28 with tarFiles := [] } 1704844800
      (loneListing newYearName) ⟨newYearName, .regular⟩ (dateCode newYear2024)
      (age 0 newYear2024 1704844800) := by
  have hlow : (-90000 : ℤ) < 0 := by decide
  have hhigh : (0 : ℤ) < 90000 := by decide
  have hfirst : 2000 ≤ newYear2024.year := by decide
  have hlast : newYear2024.year ≤ 2999 := by decide
  have hnow : (0 : ℤ) ≤ 1704844800 := by decide
  refine (classifiedByAge_iff hlow hhigh [] 7 28 [] hfirst hlast hnow (loneListing newYearName)
    List.mem_cons_self rfl (by decide) (by decide) (by decide) not_pending_nil).mpr ?_
  have hint : localDay 0 1704844800 - stampedDay 0 newYear2024.dayNumber < 2 ^ 31 := by decide
  have hfits : newYear2024.dayNumber * 86400 - 0 < 2 ^ 32 := by decide
  rw [AgeFound, if_pos hint]
  exact .inl hfits

end ThriftProxy
