import Mathlib.Algebra.BigOperators.Intervals
import Mathlib.Data.Prod.Lex
import Mathlib.Tactic.IntervalCases

/-! The Gregorian calendar: its moments in their order, and the seconds from the start of a year to them. -/
namespace Autbus
namespace Calendar

/-- The leap years. -/
def Leap (y : ℕ) : Prop := y%4 = 0 ∧ (y%100 ≠ 0 ∨ y%400 = 0)

instance : DecidablePred Leap := fun y => inferInstanceAs (Decidable (y%4 = 0 ∧ (y%100 ≠ 0 ∨ y%400 = 0)))

/-- The days of a month. -/
def monthDays (y : ℕ) : ℕ → ℕ
  | 1 | 3 | 5 | 7 | 8 | 10 | 12 => 31
  | 4 | 6 | 9 | 11 => 30
  | 2 => if Leap y then 29 else 28
  | _ => 0

/-- The days of a year. -/
def yearDays (y : ℕ) : ℕ := ∑ m ∈ Finset.Ico 1 13,monthDays y m

/-- A second of some day. -/
@[ext]
structure Moment where
  year : ℕ
  month : ℕ
  day : ℕ
  hour : ℕ
  minute : ℕ
  second : ℕ
  month_pos : 1 ≤ month
  month_le : month ≤ 12
  day_pos : 1 ≤ day
  day_le : day ≤ monthDays year month
  hour_lt : hour < 24
  minute_lt : minute < 60
  second_lt : second < 60

namespace Moment

/-- What orders the moments: the year first, the second last. -/
def key (d : Moment) : ℕ ×ₗ ℕ ×ₗ ℕ ×ₗ ℕ ×ₗ ℕ ×ₗ ℕ :=
  toLex (d.year,toLex (d.month,toLex (d.day,toLex (d.hour,toLex (d.minute,d.second)))))

theorem key_injective : Function.Injective key := by
  intro d d' h
  simp only [key,EmbeddingLike.apply_eq_iff_eq,Prod.mk.injEq] at h
  obtain ⟨hyear,hmonth,hday,hhour,hminute,hsecond⟩ := h
  exact Moment.ext hyear hmonth hday hhour hminute hsecond

instance : LinearOrder Moment := LinearOrder.lift' key key_injective

theorem lt_iff (d d' : Moment) : d < d' ↔ d.key < d'.key := Iff.rfl

/-- The days of the year before this one. -/
def dayOfYear (d : Moment) : ℕ := ∑ m ∈ Finset.Ico 1 d.month,monthDays d.year m + (d.day-1)

/-- The days before this one from the start of the year `e` on. -/
def days (e : ℕ) (d : Moment) : ℕ := ∑ y ∈ Finset.Ico e d.year,yearDays y + d.dayOfYear

/-- The seconds of the day before this one. -/
def secondOfDay (d : Moment) : ℕ := d.hour*3600+(d.minute*60+d.second)

/-- The seconds from the start of the year `e` on. -/
def seconds (e : ℕ) (d : Moment) : ℕ := d.days e*86400+d.secondOfDay

end Moment

/-! ### The order of the seconds -/

/-- Places in rows that lie one behind the other: the row counts first. -/
theorem add_lt_of_lex (start width : ℕ → ℕ) {a b i j : ℕ} (hrow : ∀ n,a ≤ n → start n + width n ≤ start (n+1))
    (hi : i < width a) (h : a < b ∨ a = b ∧ i < j) : start a + i < start b + j := by
  rcases h with hab | ⟨rfl,hij⟩
  · have hlater : ∀ n,a+1 ≤ n → start (a+1) ≤ start n := by
      intro n hn
      induction n,hn using Nat.le_induction with
      | base => exact le_refl _
      | succ n hn ih =>
        have hnext := hrow n (by omega)
        omega
    have hend := hrow a (le_refl a)
    have hstart := hlater b hab
    omega
  · exact Nat.add_lt_add_left hij (start a)

theorem yearDays_eq (y : ℕ) : yearDays y = if Leap y then 366 else 365 := by
  by_cases hy : Leap y <;> simp [yearDays,Finset.sum_Ico_succ_top,monthDays,hy]

variable {d d' : Moment}

theorem dayOfYear_lt (d : Moment) : d.dayOfYear < yearDays d.year := by
  have hpos := d.day_pos
  have hle := d.day_le
  have hlt : d.month < 13 := Nat.lt_succ_of_le d.month_le
  have hrest := Finset.sum_Ico_consecutive (monthDays d.year) d.month_pos hlt.le
  have hmonth := Finset.sum_eq_sum_Ico_succ_bot hlt (monthDays d.year)
  unfold Moment.dayOfYear yearDays
  omega

theorem secondOfDay_lt (d : Moment) : d.secondOfDay < 86400 := by
  have hhour := d.hour_lt
  have hminute := d.minute_lt
  have hsecond := d.second_lt
  unfold Moment.secondOfDay
  omega

theorem dayOfYear_lt_of_lex (hyear : d.year = d'.year) (h : d.month < d'.month ∨ d.month = d'.month ∧ d.day < d'.day) :
    d.dayOfYear < d'.dayOfYear := by
  have hpos := d.day_pos
  have hle := d.day_le
  unfold Moment.dayOfYear
  rw [← hyear]
  refine add_lt_of_lex (fun m => ∑ i ∈ Finset.Ico 1 m,monthDays d.year i) (monthDays d.year) ?_ ?_ ?_
  · intro m hm
    exact (Finset.sum_Ico_succ_top (d.month_pos.trans hm) _).ge
  · omega
  · omega

theorem days_lt_of_lex {e : ℕ} (he : e ≤ d.year) (h : d.year < d'.year ∨ d.year = d'.year ∧
    (d.month < d'.month ∨ d.month = d'.month ∧ d.day < d'.day)) : d.days e < d'.days e := by
  refine add_lt_of_lex (fun y => ∑ i ∈ Finset.Ico e y,yearDays i) yearDays ?_ (dayOfYear_lt d) ?_
  · intro y hy
    exact (Finset.sum_Ico_succ_top (he.trans hy) _).ge
  · exact h.imp_right fun ⟨hyear,hlex⟩ => ⟨hyear,dayOfYear_lt_of_lex hyear hlex⟩

theorem secondOfDay_lt_of_lex (h : d.hour < d'.hour ∨ d.hour = d'.hour ∧
    (d.minute < d'.minute ∨ d.minute = d'.minute ∧ d.second < d'.second)) : d.secondOfDay < d'.secondOfDay := by
  have hminute := d.minute_lt
  have hsecond := d.second_lt
  unfold Moment.secondOfDay
  omega

/-- Later moments have more seconds before them. -/
theorem seconds_strictMonoOn (e : ℕ) : StrictMonoOn (Moment.seconds e) {d | e ≤ d.year} := by
  intro d hd d' _ h
  rw [Moment.lt_iff,Moment.key,Moment.key] at h
  simp only [Prod.Lex.toLex_lt_toLex] at h
  refine add_lt_of_lex (fun n => n*86400) (fun _ => 86400) ?_ (secondOfDay_lt d) ?_
  · intro n _
    exact (Nat.succ_mul n 86400).ge
  · rcases h with hyear | ⟨hyear,hmonth | ⟨hmonth,hday | ⟨hday,hclock⟩⟩⟩
    · exact .inl (days_lt_of_lex hd (.inl hyear))
    · exact .inl (days_lt_of_lex hd (.inr ⟨hyear,.inl hmonth⟩))
    · exact .inl (days_lt_of_lex hd (.inr ⟨hyear,.inr ⟨hmonth,hday⟩⟩))
    · refine .inr ⟨?_,secondOfDay_lt_of_lex hclock⟩
      unfold Moment.days Moment.dayOfYear
      rw [hyear,hmonth,hday]

end Calendar
end Autbus
