import ThriftProxy.LogDates
import Mathlib.Data.List.Induction
import Mathlib.Data.List.Nodup

/-!
# The files that are removed

`DoRemove` looks for the date of a file in its path, and an entry without one is
judged by the date that the entries before it have left. So the files removed are
those with an old date in their names exactly when the work path has no date of its
own that says otherwise, and no file without a date follows a removed one.
-/

namespace ThriftProxy

/-! ## Matches -/

/-- The search for a date at the first byte, and behind it. -/
theorem dateMatch_cons (b : UInt8) (rest : FileName) :
    dateMatch (b :: rest) =
      if ((b :: rest).take 8).length = 8 ∧ ((b :: rest).take 8).all Text.isDigit then
        some ((b :: rest).take 8)
      else dateMatch rest := rfl

/-- A text that has been searched from a byte that is no digit on. -/
theorem dateMatch_append_cons {front back : FileName} {b : UInt8} (hb : Text.isDigit b = false) :
    dateMatch (front ++ b :: back) = (dateMatch front).or (dateMatch back) := by
  induction front with
  | nil =>
    have hnone : ¬ (((b :: back).take 8).length = 8 ∧ ((b :: back).take 8).all Text.isDigit) := by
      simp [hb]
    rw [List.nil_append, dateMatch_cons, if_neg hnone]
    rfl
  | cons a front ih =>
    rw [List.cons_append, dateMatch_cons, dateMatch_cons, ih]
    by_cases hlong : 8 ≤ (a :: front).length
    · -- The first eight bytes are those of the front.
      have htake : (a :: (front ++ b :: back)).take 8 = (a :: front).take 8 := by
        rw [← List.cons_append, List.take_append_of_le_length hlong]
      rw [htake]
      split
      · rfl
      · rfl
    · -- The byte that is no digit is among the first eight.
      have hfront : ((a :: front).take 8).length ≠ 8 := by
        rw [List.length_take]
        omega
      have hmem : b ∈ (a :: (front ++ b :: back)).take 8 := by
        rw [← List.cons_append, List.take_append, List.mem_append]
        refine .inr ?_
        obtain ⟨n, hn⟩ : ∃ n, 8 - (a :: front).length = n + 1 := ⟨7 - (a :: front).length, by omega⟩
        rw [hn, List.take_succ_cons]
        exact List.mem_cons_self
      have hall : ¬ ((a :: (front ++ b :: back)).take 8).all Text.isDigit := by
        rw [List.all_eq_true]
        intro hdigits
        exact absurd (hdigits b hmem) (by simp [hb])
      rw [if_neg fun h => hall h.2, if_neg fun h => hfront h.1]

/-- The date of a path is that of the directory, or else that of the file name. -/
theorem getFileDate_path (lp : LogProcessor) (name : FileName) :
    getFileDate (lp.path name) = (getFileDate lp.workpath).or (getFileDate name) := by
  rw [getFileDate, LogProcessor.path, dateMatch_append_cons (by decide), getFileDate, getFileDate]
  cases dateMatch lp.workpath with
  | none => rfl
  | some found => rfl

namespace LogProcessor

variable (zone : LocalTime) (lp : LogProcessor) (now : ℤ)

/-- A directory listing, which names no file twice. -/
structure Listing where
  /-- The entries in the order of `readdir`. -/
  entries : List Dirent
  /-- No name occurs twice. -/
  nodup : (entries.map Dirent.name).Nodup

/-- A regular file whose own name has a date that is due. -/
def DueByName (entry : Dirent) : Prop :=
  entry.type = .regular ∧ ∃ date, getFileDate entry.name = some date ∧ lp.Due zone now date

/-- `DoRemove` unlinks the files that are due by their own names. -/
def RemovesByName (listing : Listing) : Prop :=
  ∀ name, name ∈ lp.doRemove zone now (some listing.entries) ↔
    ∃ entry ∈ listing.entries, entry.name = name ∧ lp.DueByName zone now entry

/-- The last date in the names of regular files. -/
def lastDate (entries : List Dirent) : Option ℤ :=
  (entries.reverse.filter fun entry => entry.type = .regular).findSome? fun entry =>
    getFileDate entry.name

/-- If the work path has a date, the files due by their own names are all regular files
or none, as that date is due or not. Otherwise the last dated file in front of a file
without a date is not due. -/
def DatesOwn (listing : Listing) : Prop :=
  match getFileDate lp.workpath with
  | some date =>
    ∀ entry ∈ listing.entries, entry.type = .regular →
      (lp.DueByName zone now entry ↔ lp.Due zone now date)
  | none =>
    ∀ front entry back, listing.entries = front ++ entry :: back → entry.type = .regular →
      getFileDate entry.name = none → ∀ date ∈ lastDate front, ¬ lp.Due zone now date

/-! ## The loop -/

variable {zone lp now} {entries : List Dirent} {date : ℤ}

/-- The date that entries leave. -/
def dateLeft (lp : LogProcessor) (date : ℤ) (entries : List Dirent) : ℤ :=
  (entries.filter fun entry => entry.type = .regular).foldl
    (fun date entry => (getFileDate (lp.path entry.name)).getD date) date

/-- A further entry leaves the date found in its path, or the date left before it. -/
theorem dateLeft_concat (lp : LogProcessor) (date : ℤ) (entries : List Dirent) (entry : Dirent) :
    lp.dateLeft date (entries ++ [entry]) =
      if entry.type = .regular then
        (getFileDate (lp.path entry.name)).getD (lp.dateLeft date entries)
      else lp.dateLeft date entries := by
  unfold dateLeft
  rw [List.filter_append, List.foldl_append]
  by_cases htype : entry.type = .regular
  · simp [htype]
  · simp [htype]

/-- The loop unlinks a file when the date that its entry leaves is due. -/
theorem mem_doRemoveLoop_cons {name : FileName} {entry : Dirent} :
    name ∈ lp.doRemoveLoop zone now date (entry :: entries) ↔
      (entry.name = name ∧ entry.type = .regular ∧ lp.Due zone now (lp.dateLeft date [entry])) ∨
        name ∈ lp.doRemoveLoop zone now (lp.dateLeft date [entry]) entries := by
  have hleft := dateLeft_concat lp date [] entry
  rw [List.nil_append] at hleft
  rw [doRemoveLoop, hleft, Due]
  by_cases htype : entry.type = .regular
  · simp only [htype, if_true, true_and, dateLeft, List.filter_nil, List.foldl_nil]
    by_cases hrange : DateInRange ((getFileDate (lp.path entry.name)).getD date)
    · by_cases hold : daysSince zone ((getFileDate (lp.path entry.name)).getD date) now >
        lp.removeDays
      · simp [hrange, hold, eq_comm]
      · simp [hrange, hold]
    · simp [hrange]
  · simp [htype, dateLeft]

/-- The loop unlinks the regular files for which the date found, or left by the entries
in front, is due. -/
theorem mem_doRemoveLoop_iff {name : FileName} :
    name ∈ lp.doRemoveLoop zone now date entries ↔
      ∃ front entry back, entries = front ++ entry :: back ∧ entry.name = name ∧
        entry.type = .regular ∧ lp.Due zone now (lp.dateLeft date (front ++ [entry])) := by
  induction entries generalizing date with
  | nil => simp [doRemoveLoop]
  | cons first rest ih =>
    have hcons : ∀ others, lp.dateLeft date (first :: others) =
        lp.dateLeft (lp.dateLeft date [first]) others := by
      intro others
      unfold dateLeft
      rw [← List.singleton_append, List.filter_append, List.foldl_append]
    rw [mem_doRemoveLoop_cons, ih]
    constructor
    · rintro (⟨hname, htype, hdue⟩ | ⟨front, entry, back, rfl, hname, htype, hdue⟩)
      · exact ⟨[], first, rest, rfl, hname, htype, hdue⟩
      · exact ⟨first :: front, entry, back, rfl, hname, htype, by rwa [List.cons_append, hcons]⟩
    · rintro ⟨front, entry, back, heq, hname, htype, hdue⟩
      cases front with
      | nil =>
        obtain ⟨rfl, rfl⟩ := List.cons.inj heq
        exact .inl ⟨hname, htype, hdue⟩
      | cons other front =>
        obtain ⟨rfl, rfl⟩ := List.cons.inj heq
        rw [List.cons_append, hcons] at hdue
        exact .inr ⟨front, entry, back, rfl, hname, htype, hdue⟩

/-- A file whose path has a date is unlinked when this date is due. -/
theorem dateLeft_of_path {front : List Dirent} {entry : Dirent} {d : ℤ}
    (htype : entry.type = .regular) (hdate : getFileDate (lp.path entry.name) = some d) :
    lp.dateLeft date (front ++ [entry]) = d := by
  rw [dateLeft_concat, if_pos htype, hdate, Option.getD_some]

/-- Without a date in the work path, entries leave the last date in their names. -/
theorem dateLeft_eq_lastDate (hpath : getFileDate lp.workpath = none) :
    lp.dateLeft date entries = (lastDate entries).getD date := by
  induction entries using List.reverseRecOn with
  | nil => rfl
  | append_singleton entries entry ih =>
    rw [dateLeft_concat, ih, lastDate, lastDate, List.reverse_append, getFileDate_path, hpath,
      Option.none_or]
    by_cases htype : entry.type = .regular
    · simp only [htype, if_true, List.reverse_cons, List.reverse_nil, List.nil_append,
        List.singleton_append, List.filter_cons, decide_true, List.findSome?_cons]
      cases getFileDate entry.name with
      | none => rfl
      | some d => rfl
    · simp [htype]

/-- A listing names a file once. -/
theorem Listing.eq_of_name (listing : Listing) {entry entry' : Dirent}
    (h : entry ∈ listing.entries) (h' : entry' ∈ listing.entries)
    (hname : entry.name = entry'.name) : entry = entry' :=
  List.inj_on_of_nodup_map listing.nodup h h' hname

/-- A listed file whose path has a date is unlinked if it is a regular file and the
date is due. -/
theorem mem_doRemove_of_date (zone : LocalTime) (now : ℤ) (listing : Listing) {entry : Dirent}
    {d : ℤ} (hmem : entry ∈ listing.entries) (hdate : getFileDate (lp.path entry.name) = some d) :
    entry.name ∈ lp.doRemove zone now (some listing.entries) ↔
      entry.type = .regular ∧ lp.Due zone now d := by
  rw [doRemove, mem_doRemoveLoop_iff]
  constructor
  · rintro ⟨front, other, back, heq, hname, htype, hdue⟩
    have hother : other ∈ listing.entries := List.mem_iff_append.mpr ⟨front, back, heq⟩
    obtain rfl := listing.eq_of_name hother hmem hname
    rw [dateLeft_of_path htype hdate] at hdue
    exact ⟨htype, hdue⟩
  · rintro ⟨htype, hdue⟩
    obtain ⟨front, back, heq⟩ := List.append_of_mem hmem
    exact ⟨front, entry, back, heq, rfl, htype, by rwa [dateLeft_of_path htype hdate]⟩

/-- What the loop unlinks when the work path has a date. -/
theorem mem_doRemove_of_path (listing : Listing) {d : ℤ} (hpath : getFileDate lp.workpath = some d)
    {name : FileName} :
    name ∈ lp.doRemove zone now (some listing.entries) ↔
      ∃ entry ∈ listing.entries, entry.name = name ∧ entry.type = .regular ∧
        lp.Due zone now d := by
  have hdate : ∀ entry : Dirent, getFileDate (lp.path entry.name) = some d := by
    intro entry
    rw [getFileDate_path, hpath, Option.some_or]
  rw [doRemove, mem_doRemoveLoop_iff]
  constructor
  · rintro ⟨front, entry, back, heq, hname, htype, hdue⟩
    rw [dateLeft_of_path htype (hdate entry)] at hdue
    exact ⟨entry, List.mem_iff_append.mpr ⟨front, back, heq⟩, hname, htype, hdue⟩
  · rintro ⟨entry, hmem, hname, htype, hdue⟩
    obtain ⟨front, back, heq⟩ := List.append_of_mem hmem
    refine ⟨front, entry, back, heq, hname, htype, ?_⟩
    rwa [dateLeft_of_path htype (hdate entry)]

/-- With a date in the work path the removal is right exactly when all files are due
together. -/
theorem removesByName_of_path (listing : Listing) {d : ℤ}
    (hpath : getFileDate lp.workpath = some d) :
    lp.RemovesByName zone now listing ↔
      ∀ entry ∈ listing.entries, entry.type = .regular →
        (lp.DueByName zone now entry ↔ lp.Due zone now d) := by
  constructor
  · intro h entry hmem htype
    have hname := (mem_doRemove_of_path listing hpath).symm.trans (h entry.name)
    constructor
    · intro hdue
      obtain ⟨_, _, _, _, hd⟩ := hname.mpr ⟨entry, hmem, rfl, hdue⟩
      exact hd
    · intro hd
      obtain ⟨other, hother, heq, hdue⟩ := hname.mp ⟨entry, hmem, rfl, htype, hd⟩
      rwa [listing.eq_of_name hother hmem heq] at hdue
  · intro h name
    rw [mem_doRemove_of_path listing hpath]
    refine exists_congr fun entry => and_congr_right fun hmem => and_congr_right fun _ => ?_
    constructor
    · rintro ⟨htype, hd⟩
      exact (h entry hmem htype).mpr hd
    · intro hdue
      exact ⟨hdue.1, (h entry hmem hdue.1).mp hdue⟩

/-- No file is due for the date that the loop starts with. -/
theorem not_due_zero : ¬ lp.Due zone now 0 := by
  rintro ⟨hrange, -⟩
  exact absurd hrange (by decide)

/-- Without a date in the work path the removal is right exactly when no undated file
follows one that is due. -/
theorem removesByName_of_no_path (listing : Listing) (hpath : getFileDate lp.workpath = none) :
    lp.RemovesByName zone now listing ↔
      ∀ front entry back, listing.entries = front ++ entry :: back → entry.type = .regular →
        getFileDate entry.name = none → ∀ date ∈ lastDate front, ¬ lp.Due zone now date := by
  have hleft : ∀ front entry, entry.type = .regular →
      lp.dateLeft 0 (front ++ [entry]) =
        (getFileDate entry.name).getD ((lastDate front).getD 0) := by
    intro front entry htype
    rw [dateLeft_concat, if_pos htype, getFileDate_path, hpath, Option.none_or,
      dateLeft_eq_lastDate hpath]
  constructor
  · intro h front entry back heq htype hown date hdate hdue
    have hmem : entry ∈ listing.entries := List.mem_iff_append.mpr ⟨front, back, heq⟩
    have hunlinked : entry.name ∈ lp.doRemove zone now (some listing.entries) := by
      rw [doRemove, mem_doRemoveLoop_iff]
      refine ⟨front, entry, back, heq, rfl, htype, ?_⟩
      rwa [hleft front entry htype, hown, hdate]
    obtain ⟨other, hother, hname, -, d, hd, -⟩ := (h entry.name).mp hunlinked
    rw [listing.eq_of_name hother hmem hname, hown] at hd
    cases hd
  · intro h name
    rw [doRemove, mem_doRemoveLoop_iff]
    constructor
    · rintro ⟨front, entry, back, heq, hname, htype, hdue⟩
      rw [hleft front entry htype] at hdue
      have hmem : entry ∈ listing.entries := List.mem_iff_append.mpr ⟨front, back, heq⟩
      cases hown : getFileDate entry.name with
      | some d =>
        rw [hown, Option.getD_some] at hdue
        exact ⟨entry, hmem, hname, htype, d, hown, hdue⟩
      | none =>
        rw [hown, Option.getD_none] at hdue
        cases hlast : lastDate front with
        | none =>
          rw [hlast] at hdue
          exact absurd hdue not_due_zero
        | some d =>
          rw [hlast] at hdue
          exact absurd hdue (h front entry back heq htype hown d hlast)
    · rintro ⟨entry, hmem, hname, htype, d, hown, hdue⟩
      obtain ⟨front, back, heq⟩ := List.append_of_mem hmem
      refine ⟨front, entry, back, heq, hname, htype, ?_⟩
      rwa [hleft front entry htype, hown]

/-- **Removal by the own date.** `DoRemove` unlinks exactly the regular files whose own
names have a date that is due if and only if neither the work path nor the entries in
front lend a file another date. -/
theorem removesByName_iff (zone : LocalTime) (lp : LogProcessor) (now : ℤ) (listing : Listing) :
    lp.RemovesByName zone now listing ↔ lp.DatesOwn zone now listing := by
  unfold DatesOwn
  cases hpath : getFileDate lp.workpath with
  | some d => exact removesByName_of_path listing hpath
  | none => exact removesByName_of_no_path listing hpath

end LogProcessor

/-! ## A file without a date -/

open Calendar

/-- 1 January 2024. -/
def newYear2024 : Date := Date.newYear 2024

/-- A processor for the directory `/log` that keeps files for 28 days. -/
def logProcessor : LogProcessor :=
  { workpath := [47, 108, 111, 103], archiveDays := 7, removeDays := 28, tarFiles := [] }

/-- The files `x20240101` and `core`, in this order. -/
def coreListing : LogProcessor.Listing :=
  { entries := [⟨[120, 50, 48, 50, 52, 48, 49, 48, 49], .regular⟩, ⟨[99, 111, 114, 101], .regular⟩]
    nodup := by decide }

/-- On 1 March 2024 the first day of the year is due. -/
theorem newYear2024_due : logProcessor.Due (fixedOffset 0) 1709251200 20240101 := by
  have hstamped : stampedDay 0 newYear2024.dayNumber = 19723 := by decide
  have hlocal : localDay 0 1709251200 = 19783 := by decide
  have hlow : (-90000 : ℤ) < 0 := by decide
  have hhigh : (0 : ℤ) < 90000 := by decide
  have hyear : 0 ≤ newYear2024.year := by decide
  have hnow : (0 : ℤ) ≤ 1709251200 := by decide
  obtain ⟨hdays, -⟩ := daysSince_dateCode hlow hhigh hyear hnow
  rw [hstamped, hlocal] at hdays
  have hcode : dateCode newYear2024 = 20240101 := by decide
  rw [hcode] at hdays
  refine ⟨by decide, ?_⟩
  rw [hdays (by decide)]
  decide

/-- A file without a date is removed when `readdir` returns it after an old log file. -/
theorem coreListing_removed :
    ¬ logProcessor.RemovesByName (fixedOffset 0) 1709251200 coreListing := by
  intro h
  have hpath : getFileDate logProcessor.workpath = none := by decide
  have hnot := (LogProcessor.removesByName_of_no_path coreListing hpath).mp h
    [⟨[120, 50, 48, 50, 52, 48, 49, 48, 49], .regular⟩] ⟨[99, 111, 114, 101], .regular⟩ [] rfl rfl
    (by decide) 20240101 (by decide)
  exact hnot newYear2024_due

end ThriftProxy
