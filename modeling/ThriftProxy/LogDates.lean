import ThriftProxy.LogProcessor
import ThriftProxy.Lib.Calendar

/-!
# The age of log files

Local time at a fixed offset from UTC, and the age in days that the log processor
finds for a date. Time stamps of dates are cut to 32 bits, so a date may be read as an
earlier one.
-/

namespace ThriftProxy

open Machine Calendar

/-- Local time that is `offset` seconds ahead of UTC all the year, from 1600 on. -/
def fixedOffset (offset : ℤ) : LocalTime where
  mktime tm :=
    let year := tm.year + 1900 + tm.mon / 12
    let month := (tm.mon % 12).toNat + 1
    (daysBeforeYear year + daysBeforeMonth year month + (tm.mday - 1)) * 86400 +
      tm.hour * 3600 + tm.min * 60 + tm.sec - offset
  localtime t :=
    let date := ofDayNumber ((t + offset) / 86400)
    let seconds := (t + offset) % 86400
    { year := date.year - 1900, mon := date.month - 1, mday := date.day
      hour := seconds / 3600, min := seconds % 3600 / 60, sec := seconds % 60, isdst := 0 }

/-- The number that the name of a file spells for a date. -/
def dateCode (d : Date) : ℤ := d.year * 10000 + d.month * 100 + d.day

/-- The day of a clock reading. -/
def localDay (offset t : ℤ) : ℤ := (t + offset) / 86400

/-- The day that the 32 bits of a time stamp fall on, for the midnight that starts a day. -/
def stampedDay (offset day : ℤ) : ℤ := localDay offset ((day * 86400 - offset) % 2 ^ 32)

section

variable {offset : ℤ}

/-- The time stamp of the midnight that starts a date. -/
theorem mktime_midnight (offset : ℤ) (d : Date) (isdst : ℤ) :
    (fixedOffset offset).mktime
      { year := d.year - 1900, mon := d.month - 1, mday := d.day, hour := 0, min := 0, sec := 0
        isdst := isdst } = d.dayNumber * 86400 - offset := by
  have hpos := d.month_pos
  have hle := d.month_le
  have hyear : d.year - 1900 + 1900 + ((d.month : ℤ) - 1) / 12 = d.year := by omega
  have hmonth : (((d.month : ℤ) - 1) % 12).toNat + 1 = d.month := by omega
  simp only [fixedOffset, hyear, hmonth, Date.dayNumber]
  ring

/-- The time stamp of a date in a file name. -/
theorem getTimestampByDate_dateCode (offset : ℤ) {d : Date} (hyear : 0 ≤ d.year) :
    getTimestampByDate (fixedOffset offset) (dateCode d) =
      (d.dayNumber * 86400 - offset) % 2 ^ 32 := by
  have hmonth := d.month_le
  have hday := d.day_le.trans (monthLength_bounds d.year d.month).2
  have hcode : 0 ≤ dateCode d := by
    unfold dateCode
    omega
  have hcode' : 0 ≤ dateCode d / 100 := by omega
  have hy : dateCode d / 10000 = d.year := by
    unfold dateCode
    omega
  have hm : dateCode d / 100 % 100 = d.month := by
    unfold dateCode
    omega
  have hd : dateCode d % 100 = d.day := by
    unfold dateCode
    omega
  rw [getTimestampByDate]
  simp only [Int.tdiv_eq_ediv_of_nonneg hcode, Int.tmod_eq_emod_of_nonneg hcode,
    Int.tmod_eq_emod_of_nonneg hcode', hy, hm, hd, mktime_midnight]

/-- The distance to the midnight that starts the day of a time stamp. -/
theorem getDayDistance_fixedOffset {fromTime : ℤ}
    (hfrom : startNumber ≤ localDay offset fromTime) (toTime : ℤ) :
    getDayDistance (fixedOffset offset) fromTime toTime =
      wrapInt ((toTime + offset - localDay offset fromTime * 86400).tdiv 86400) := by
  have hmidnight := mktime_midnight offset (ofDayNumber (localDay offset fromTime)) 0
  rw [dayNumber_ofDayNumber hfrom] at hmidnight
  rw [getDayDistance]
  have hlocal : ({ (fixedOffset offset).localtime fromTime with hour := 0, min := 0, sec := 0 } :
      Tm) =
      { year := (ofDayNumber (localDay offset fromTime)).year - 1900
        mon := (ofDayNumber (localDay offset fromTime)).month - 1
        mday := (ofDayNumber (localDay offset fromTime)).day
        hour := 0, min := 0, sec := 0, isdst := 0 } := rfl
  simp only [hlocal, hmidnight]
  congr 2
  ring

/-- Whole days from a day to a clock reading, cut towards zero. -/
theorem tdiv_day (x day : ℤ) :
    (x - day * 86400).tdiv 86400 =
      if day ≤ x / 86400 then x / 86400 - day else -((day * 86400 - x) / 86400) := by
  split
  · have hnonneg : 0 ≤ x - day * 86400 := by omega
    rw [Int.tdiv_eq_ediv_of_nonneg hnonneg]
    omega
  · have hneg : x - day * 86400 = -(day * 86400 - x) := by ring
    have hnonneg : 0 ≤ day * 86400 - x := by omega
    rw [hneg, Int.neg_tdiv, Int.tdiv_eq_ediv_of_nonneg hnonneg]

/-- Time stamps of 32 bits fall on days that `localtime_r` knows. -/
theorem stampedDay_bounds (hlow : -90000 < offset) (hhigh : offset < 90000) (day : ℤ) :
    -2 ≤ stampedDay offset day ∧ stampedDay offset day ≤ 49711 := by
  have hpos : 0 ≤ (day * 86400 - offset) % 2 ^ 32 := Int.emod_nonneg _ (by decide)
  have hlt : (day * 86400 - offset) % 2 ^ 32 < 2 ^ 32 := Int.emod_lt_of_pos _ (by decide)
  unfold stampedDay localDay
  omega

/-- The age that is found for a date: the days since its stamped day as an `int`, or
nothing positive while that day has not come. -/
theorem daysSince_dateCode (hlow : -90000 < offset) (hhigh : offset < 90000) {d : Date}
    (hyear : 0 ≤ d.year) {now : ℤ} (hnow : 0 ≤ now) :
    (stampedDay offset d.dayNumber ≤ localDay offset now →
      daysSince (fixedOffset offset) (dateCode d) now =
        wrapInt (localDay offset now - stampedDay offset d.dayNumber)) ∧
    (localDay offset now < stampedDay offset d.dayNumber →
      daysSince (fixedOffset offset) (dateCode d) now ≤ 0) := by
  have hbounds := stampedDay_bounds hlow hhigh d.dayNumber
  have hknown : startNumber ≤ localDay offset ((d.dayNumber * 86400 - offset) % 2 ^ 32) := by
    change startNumber ≤ stampedDay offset d.dayNumber
    unfold startNumber
    omega
  have hdays : daysSince (fixedOffset offset) (dateCode d) now =
      wrapInt ((now + offset - stampedDay offset d.dayNumber * 86400).tdiv 86400) := by
    rw [daysSince, getTimestampByDate_dateCode offset hyear, getDayDistance_fixedOffset hknown]
    rfl
  rw [hdays, tdiv_day]
  constructor
  · intro hle
    rw [localDay] at hle
    rw [if_pos hle, localDay]
  · intro hlt
    rw [localDay] at hlt
    rw [if_neg (by omega), wrapInt_eq_self (by omega) (by omega)]
    omega

/-- A midnight that 32 bits can tell is stamped on its day. -/
theorem stampedDay_of_fits {day : ℤ} (hpos : 0 ≤ day * 86400 - offset)
    (hfits : day * 86400 - offset < 2 ^ 32) : stampedDay offset day = day := by
  rw [stampedDay, Int.emod_eq_of_lt hpos hfits, localDay]
  omega

/-- A midnight that 32 bits cannot tell is stamped more than a century too early. -/
theorem stampedDay_of_not_fits {day : ℤ} (hlarge : 2 ^ 32 ≤ day * 86400 - offset) :
    stampedDay offset day + 49711 ≤ day := by
  rw [stampedDay, localDay]
  omega

end

/-- The numbers of the days of the years 2000 to 2999. -/
theorem dayNumber_bounds {d : Date} (hfirst : 2000 ≤ d.year) (hlast : d.year ≤ 2999) :
    10957 ≤ d.dayNumber ∧ d.dayNumber < 400000 := by
  have hmonths := daysBeforeMonth_le d.year d.month
  have hmonth := d.month_le
  have hpos := d.day_pos
  have hday := d.day_le.trans (monthLength_bounds d.year d.month).2
  unfold Date.dayNumber daysBeforeYear
  omega

/-- Dates from 2000 to 2999 are worked with. -/
theorem dateInRange_dateCode {d : Date} (hfirst : 2000 ≤ d.year) (hlast : d.year ≤ 2999) :
    DateInRange (dateCode d) := by
  have hmonth := d.month_le
  have hday := d.day_le.trans (monthLength_bounds d.year d.month).2
  unfold DateInRange dateCode
  omega

end ThriftProxy
