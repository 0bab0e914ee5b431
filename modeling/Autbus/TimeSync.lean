import Autbus.Calendar
import Mathlib.Tactic.IntervalCases

/-! The wall clock of the time synchronisation (`phb1.c`): a date as milliseconds. -/
namespace Autbus
namespace TimeSync

open Calendar

/-- `time_utc_t`: the time of day, and the place in the bus frames where it was noted. -/
structure TimeUtc where
  hour : UInt8
  minute : UInt8
  second : UInt8
  day : UInt8
  month : UInt8
  year : UInt16
  frame : UInt64
  symbol : UInt8
  smpol : UInt16
  deriving DecidableEq

/-- The days that the `switch` over `tim.month-1` adds; `temp` is the length of February. -/
def monthOffset (temp : UInt64) : ℤ → UInt64
  | 0 => 0
  | 1 => 31
  | 2 => 31+temp
  | 3 => 62+temp
  | 4 => 92+temp
  | 5 => 123+temp
  | 6 => 153+temp
  | 7 => 184+temp
  | 8 => 215+temp
  | 9 => 245+temp
  | 10 => 276+temp
  | 11 => 306+temp
  | _ => 0

/-- `time_to_ms`. -/
def timeToMs (tim : TimeUtc) : UInt64 :=
  let temp : UInt64 := if tim.year.toNat%4 = 0 then 29 else 28
  let y : ℤ := tim.year.toNat-1970
  let leaps : UInt64 := if y.tmod 4 = 3 then UInt64.ofInt (y.tdiv 4)+1 else UInt64.ofInt y/4
  let tepDayMs := monthOffset temp (tim.month.toNat-1)+(UInt64.ofInt (y*365)+leaps)
  let tepDayMs := (tepDayMs+tim.day.toUInt64-1)*86400000
  tepDayMs+UInt64.ofNat (tim.hour.toNat*3600000)+UInt64.ofNat (tim.minute.toNat*60000)+
    UInt64.ofNat (tim.second.toNat*1000)

/-- The fields show this moment. -/
structure Shows (tim : TimeUtc) (d : Moment) : Prop where
  year : tim.year.toNat = d.year
  month : tim.month.toNat = d.month
  day : tim.day.toNat = d.day
  hour : tim.hour.toNat = d.hour
  minute : tim.minute.toNat = d.minute
  second : tim.second.toNat = d.second

/-- The years that the clock is made for: in them every fourth one is a leap year. -/
def Era (d : Moment) : Prop := 1970 ≤ d.year ∧ d.year ≤ 2099

/-! ### Years -/

theorem leap_iff {y : ℕ} (h : 1970 ≤ y) (h' : y ≤ 2099) : Leap y ↔ y%4 = 0 := by
  unfold Leap
  omega

/-- The days before a year, with one more for every leap year passed. -/
theorem sum_yearDays {k : ℕ} (hk : k ≤ 130) : ∑ y ∈ Finset.Ico 1970 (1970+k),yearDays y = 365*k+(k+1)/4 := by
  induction k with
  | zero => rfl
  | succ k ih =>
    have hyear : yearDays (1970+k) = if (1970+k)%4 = 0 then 366 else 365 := by
      rw [yearDays_eq]
      simp only [leap_iff (y := 1970+k) (by omega) (by omega)]
    rw [← Nat.add_assoc,Finset.sum_Ico_succ_top (by omega),ih (by omega),hyear]
    split <;> omega

/-- Each month is behind the days of the one before. -/
theorem monthOffset_succ {y m : ℕ} (hm : 1 ≤ m) (hm' : m < 12) : monthOffset (UInt64.ofNat (monthDays y 2)) m =
    monthOffset (UInt64.ofNat (monthDays y 2)) ((m : ℤ)-1)+UInt64.ofNat (monthDays y m) := by
  have hfeb : monthDays y 2 = 29 ∨ monthDays y 2 = 28 := by
    unfold monthDays
    exact ite_eq_or_eq (Leap y) 29 28
  rcases hfeb with hfeb | hfeb
  · interval_cases m <;> simp only [hfeb] <;> rfl
  · interval_cases m <;> simp only [hfeb] <;> rfl

theorem monthOffset_eq {y m : ℕ} (hm : 1 ≤ m) (hm' : m ≤ 12) :
    monthOffset (UInt64.ofNat (monthDays y 2)) ((m : ℤ)-1) = UInt64.ofNat (∑ i ∈ Finset.Ico 1 m,monthDays y i) := by
  induction m,hm using Nat.le_induction with
  | base => rfl
  | succ m hm ih =>
    rw [Nat.cast_succ,Int.add_sub_cancel,monthOffset_succ hm hm',ih (by omega),Finset.sum_Ico_succ_top hm,
      UInt64.ofNat_add]

theorem ofInt_natCast (n : ℕ) : UInt64.ofInt n = UInt64.ofNat n := by
  unfold UInt64.ofInt
  rw [show (n : ℤ)%2^64 = ((n%2^64 : ℕ) : ℤ) by norm_cast,Int.toNat_natCast,UInt64.ofNat_mod_size]

/-- The leap years among the first `k`: the year after one is where the quotient is behind. -/
theorem leaps_eq {k : ℕ} (hk : k < 2^64) :
    (if (k : ℤ).tmod 4 = 3 then UInt64.ofInt ((k : ℤ).tdiv 4)+1 else UInt64.ofInt k/4) = UInt64.ofNat ((k+1)/4) := by
  have hmod : (k : ℤ).tmod 4 = ((k%4 : ℕ) : ℤ) := rfl
  have hdiv : (k : ℤ).tdiv 4 = ((k/4 : ℕ) : ℤ) := rfl
  rw [hmod,hdiv,ofInt_natCast,ofInt_natCast]
  by_cases h : k%4 = 3
  · rw [if_pos (by omega),show (k+1)/4 = k/4+1 by omega,UInt64.ofNat_add]
    rfl
  · rw [if_neg (by omega),show (k+1)/4 = k/4 by omega,UInt64.ofNat_div hk (by omega)]
    rfl

variable {tim tim' : TimeUtc} {d d' : Moment}

/-- The days that are counted before the month's. -/
theorem days_eq (he : Era d) : d.days 1970 =
    ∑ m ∈ Finset.Ico 1 d.month,monthDays d.year m + (365*(d.year-1970)+(d.year-1970+1)/4) + d.day-1 := by
  obtain ⟨hlow,hhigh⟩ := he
  have hpos := d.day_pos
  have hyears := sum_yearDays (show d.year-1970 ≤ 130 by omega)
  rw [Nat.add_sub_cancel' hlow] at hyears
  unfold Moment.days Moment.dayOfYear
  omega

theorem timeToMs_eq (he : Era d) (h : Shows tim d) : timeToMs tim = UInt64.ofNat (1000*d.seconds 1970) := by
  obtain ⟨hlow,hhigh⟩ := he
  have hyear : (d.year : ℤ)-1970 = ((d.year-1970 : ℕ) : ℤ) := by omega
  have hfeb : (if d.year%4 = 0 then 29 else 28) = UInt64.ofNat (monthDays d.year 2) := by
    simp only [monthDays,leap_iff hlow hhigh]
    split <;> rfl
  have hdays : UInt64.ofNat (∑ m ∈ Finset.Ico 1 d.month,monthDays d.year m)+
      (UInt64.ofInt (((d.year-1970 : ℕ) : ℤ)*365)+UInt64.ofNat ((d.year-1970+1)/4))+tim.day.toUInt64-1 =
        UInt64.ofNat (d.days 1970) := by
    have hpos := d.day_pos
    rw [days_eq ⟨hlow,hhigh⟩,UInt64.ofNat_sub (by omega),UInt64.ofNat_add,UInt64.ofNat_add,UInt64.ofNat_add,
      ← UInt64.ofNat_uInt8ToNat,h.day,Nat.mul_comm 365,← ofInt_natCast ((d.year-1970)*365)]
    norm_cast
  have hms : 1000*d.seconds 1970 = d.days 1970*86400000+d.hour*3600000+d.minute*60000+d.second*1000 := by
    unfold Moment.seconds Moment.secondOfDay
    omega
  unfold timeToMs
  dsimp only
  rw [h.year,h.month,h.hour,h.minute,h.second,hyear,hfeb,monthOffset_eq d.month_pos d.month_le,
    leaps_eq (by omega),hdays,hms,UInt64.ofNat_add,UInt64.ofNat_add,UInt64.ofNat_add,UInt64.ofNat_mul (d.days 1970)]
  rfl

theorem seconds_lt (he : Era d) : d.seconds 1970 < 2^33 := by
  obtain ⟨hlow,hhigh⟩ := he
  have hyears := sum_yearDays (show d.year-1970 ≤ 130 by omega)
  rw [Nat.add_sub_cancel' hlow] at hyears
  have hday := dayOfYear_lt d
  have hsecond := secondOfDay_lt d
  have hyear : yearDays d.year ≤ 366 := by
    rw [yearDays_eq]
    split <;> omega
  unfold Moment.seconds Moment.days
  omega

/-- The milliseconds of a date are those of the calendar, and grow with it. -/
theorem timeToMs_gregorian (he : Era d) (h : Shows tim d) : (timeToMs tim).toNat = 1000*d.seconds 1970 ∧
    ∀ tim' d',Era d' → Shows tim' d' → (timeToMs tim < timeToMs tim' ↔ d < d') := by
  have hms : ∀ {tim d},Era d → Shows tim d → (timeToMs tim).toNat = 1000*d.seconds 1970 := by
    intro tim d he h
    have hlt := seconds_lt he
    rw [timeToMs_eq he h]
    exact UInt64.toNat_ofNat_of_lt' (show _ < 2^64 by omega)
  refine ⟨hms he h,fun tim' d' he' h' => ?_⟩
  rw [UInt64.lt_iff_toNat_lt,hms he h,hms he' h',← (seconds_strictMonoOn 1970).lt_iff_lt he.1 he'.1]
  omega

/-- The last day of a February with 29 days, at noon. -/
def leapDay : Moment := ⟨2000,2,29,12,0,0,by decide,by decide,by decide,by decide,by decide,by decide,by decide⟩

/-- The registers of that day. -/
def leapDayUtc : TimeUtc := ⟨12,0,0,29,2,2000,0,0,0⟩

theorem leapDay_ms : (timeToMs leapDayUtc).toNat = 1000*leapDay.seconds 1970 ∧
    ∀ tim' d',Era d' → Shows tim' d' → (timeToMs leapDayUtc < timeToMs tim' ↔ leapDay < d') :=
  timeToMs_gregorian ⟨by decide,by decide⟩ ⟨rfl,rfl,rfl,rfl,rfl,rfl⟩

end TimeSync
end Autbus
