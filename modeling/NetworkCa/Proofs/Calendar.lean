import NetworkCa.Calendar

namespace NetworkCa

namespace Date

theorem isLeap_iff (year : Int) :
    isLeap year = true ↔ year % 4 = 0 ∧ (year % 100 ≠ 0 ∨ year % 400 = 0) := by
  simp [isLeap]

theorem isValid_iff (d : Date) :
    d.isValid = true ↔ (1 ≤ d.month ∧ d.month ≤ 12) ∧ 1 ≤ d.day ∧
      d.day ≤ daysInMonth d.year d.month := by
  simp [isValid, and_assoc]

theorem daysInMonth_le (year : Int) (month : Nat) : daysInMonth year month ≤ 31 := by
  unfold daysInMonth
  split
  · split <;> decide
  all_goals decide

/-- A day of an era of 400 years by its century, its leap cycle, its year in that, and its day of
    the year. Years start in March, so that a leap day is the last day of a whole cycle. -/
structure EraDay where
  century : Int
  cycle : Int
  year : Int
  day : Int
  century_bounds : 0 ≤ century ∧ century ≤ 3
  cycle_bounds : 0 ≤ cycle ∧ cycle ≤ 24
  year_bounds : 0 ≤ year ∧ year ≤ 3
  day_bounds : 0 ≤ day ∧ day ≤ 365
  leap : day = 365 → year = 3 ∧ (cycle ≤ 23 ∨ century = 3)

namespace EraDay

def number (e : EraDay) : Int := 36524 * e.century + 1461 * e.cycle + 365 * e.year + e.day

def yearOfEra (e : EraDay) : Int := 100 * e.century + 4 * e.cycle + e.year

theorem exists_number {d : Int} (h : 0 ≤ d) (h' : d < Date.cycle) : ∃ e : EraDay, e.number = d := by
  rw [Date.cycle] at h'
  -- The last day of an era and that of a cycle would start a fifth century and a fifth year.
  by_cases last : d = 146096
  · exact ⟨⟨3, 24, 3, 365, by omega, by omega, by omega, by omega, by omega⟩, last.symm⟩
  by_cases ends : d % 36524 % 1461 = 1460
  · refine ⟨⟨d / 36524, d % 36524 / 1461, 3, 365, by omega, by omega, by omega, by omega,
      by omega⟩, ?_⟩
    simp only [number]
    omega
  · refine ⟨⟨d / 36524, d % 36524 / 1461, d % 36524 % 1461 / 365, d % 36524 % 1461 % 365, by omega,
      by omega, by omega, by omega, by omega⟩, ?_⟩
    simp only [number]
    omega

theorem yearOfEra_eq (e : EraDay) :
    (e.number - e.number / 1460 + e.number / 36524 - e.number / 146096) / 365 = e.yearOfEra := by
  obtain ⟨q, f, g, r, hq, hf, hg, hr, leap⟩ := e
  simp only [number, yearOfEra]
  generalize sum : 36524 * q + 1461 * f + 365 * g + r = d
  -- Less its leap days, a number of days is that of whole years and less than one year more. Each
  -- quotient counts leap days, up to one that is due only later in its cycle.
  have short : d = 146096 ∨ 1461 * f + 365 * g + r < 36524 := by omega
  have centuries : d / 36524 - d / 146096 = q := by
    rcases short with rfl | short
    · omega
    · have era : d / 146096 = 0 := by omega
      have century : d / 36524 = q := by omega
      omega
  have cycles : (d / 1460 = 25 * q + f ∧ 24 * q + f + 365 * g + r < 1460) ∨
      (d / 1460 = 25 * q + f + 1 ∧ 1460 ≤ 24 * q + f + 365 * g + r) := by omega
  omega

theorem day_eq (e : EraDay) :
    e.number - (365 * e.yearOfEra + e.yearOfEra / 4 - e.yearOfEra / 100) = e.day := by
  obtain ⟨q, f, g, r, hq, hf, hg, hr, leap⟩ := e
  simp only [number, yearOfEra]
  omega

theorem yearOfEra_bounds (e : EraDay) : 0 ≤ e.yearOfEra ∧ e.yearOfEra < 400 := by
  obtain ⟨q, f, g, r, hq, hf, hg, hr, leap⟩ := e
  simp only [yearOfEra]
  omega

theorem isLeap_of_last (e : EraDay) (era : Int) (last : e.day = 365) :
    isLeap (e.yearOfEra + era * 400 + 1) = true := by
  have ⟨year, cycles⟩ := e.leap last
  have centuries := e.century_bounds
  have cycle := e.cycle_bounds
  rw [isLeap_iff, yearOfEra, year]
  constructor
  · omega
  · rcases cycles with short | long <;> omega

end EraDay

def march (year : Int) : Int := 365 * year + year / 4 - year / 100 + year / 400 - epoch

theorem march_era (year era : Int) : march (year + era * 400) = march year + era * cycle := by
  have fourth : (year + era * 400) / 4 = year / 4 + era * 100 := by omega
  have hundredth : (year + era * 400) / 100 = year / 100 + era * 4 := by omega
  have whole : (year + era * 400) / 400 = year / 400 + era := by omega
  simp only [march, cycle, fourth, hundredth, whole]
  omega

def monthStart (month : Int) : Int := (153 * month + 2) / 5

def ofMonth (year month day : Int) : Date :=
  { year := if month < 10 then year else year + 1
    month := (if month < 10 then month + 3 else month - 9).toNat
    day := (day + 1).toNat }

structure MarchDay where
  year : Int
  month : Int
  day : Int
  months : 0 ≤ month ∧ month ≤ 11
  first : 0 ≤ day
  last : monthStart month + day < monthStart (month + 1)
  february : month = 11 → day < 28 ∨ day = 28 ∧ isLeap (year + 1) = true

namespace MarchDay

def number (m : MarchDay) : Int := march m.year + monthStart m.month + m.day

def date (m : MarchDay) : Date := ofMonth m.year m.month m.day

theorem unixDay_date (m : MarchDay) : m.date.unixDay = m.number := by
  obtain ⟨year, month, day, months, first, last, february⟩ := m
  have era := march_era (year % 400) (year / 400)
  have short : year % 400 / 400 = 0 := by omega
  rw [Int.emod_add_ediv_mul, march.eq_def (year % 400), short, cycle] at era
  by_cases early : month < 10
  · have late : ¬ (month + 3).toNat ≤ 2 := by omega
    have same : ((month + 3).toNat : Int) - 3 = month := by omega
    simp only [unixDay, date, ofMonth, number, monthStart, cycle, if_pos early, if_neg late,
      gt_iff_lt, Nat.lt_of_not_le late, ↓reduceIte, same]
    omega
  · have late : (month - 9).toNat ≤ 2 := by omega
    have same : ((month - 9).toNat : Int) + 9 = month := by omega
    simp only [unixDay, date, ofMonth, number, monthStart, cycle, if_neg early, if_pos late,
      gt_iff_lt, Nat.not_lt.mpr late, ↓reduceIte, Int.add_sub_cancel, same]
    omega

theorem isValid_date (m : MarchDay) : m.date.isValid = true := by
  obtain ⟨year, month, day, months, first, last, february⟩ := m
  rw [isValid_iff]
  by_cases winter : month = 11
  · subst winter
    rcases february rfl with short | ⟨rfl, leap⟩
    · simp [date, ofMonth, daysInMonth]
      split <;> omega
    · simp [date, ofMonth, daysInMonth, leap]
  · have others : month = 0 ∨ month = 1 ∨ month = 2 ∨ month = 3 ∨ month = 4 ∨ month = 5 ∨
        month = 6 ∨ month = 7 ∨ month = 8 ∨ month = 9 ∨ month = 10 := by omega
    rcases others with rfl | rfl | rfl | rfl | rfl | rfl | rfl | rfl | rfl | rfl | rfl <;>
      simp [monthStart] at last <;> simp [date, ofMonth, daysInMonth] <;> omega

end MarchDay

theorem ofUnixDay_eq {n : Int} {e : EraDay} (number : e.number = (n + epoch) % cycle) :
    ofUnixDay n = ofMonth (e.yearOfEra + (n + epoch) / cycle * 400) ((5 * e.day + 2) / 153)
      (e.day - monthStart ((5 * e.day + 2) / 153)) := by
  have year := e.yearOfEra_eq
  have day := e.day_eq
  rw [number] at year day
  simp only [ofUnixDay, ofMonth, monthStart, year, day]

theorem exists_marchDay (n : Int) : ∃ m : MarchDay, m.number = n ∧ ofUnixDay n = m.date := by
  obtain ⟨e, number⟩ := EraDay.exists_number (Int.emod_nonneg (n + epoch) (by decide))
    (Int.emod_lt_of_pos (n + epoch) (by decide))
  have bounds := e.day_bounds
  let m : MarchDay :=
    { year := e.yearOfEra + (n + epoch) / cycle * 400
      month := (5 * e.day + 2) / 153
      day := e.day - monthStart ((5 * e.day + 2) / 153)
      months := by omega
      first := by
        simp only [monthStart]
        omega
      last := by
        simp only [monthStart]
        omega
      february := by
        intro february
        rw [february, monthStart]
        rcases Int.lt_or_eq_of_le bounds.2 with short | last
        · left
          omega
        · right
          exact ⟨by omega, e.isLeap_of_last _ last⟩ }
  refine ⟨m, ?_, ofUnixDay_eq number⟩
  have day := e.day_eq
  have year := e.yearOfEra_bounds
  have short : e.yearOfEra / 400 = 0 := by omega
  have whole := Int.emod_add_ediv_mul (n + epoch) cycle
  simp only [m, MarchDay.number]
  rw [march_era, march, short]
  omega

theorem unixDay_ofUnixDay (n : Int) : (ofUnixDay n).unixDay = n := by
  obtain ⟨m, number, same⟩ := exists_marchDay n
  rw [same, m.unixDay_date, number]

theorem isValid_ofUnixDay (n : Int) : (ofUnixDay n).isValid = true := by
  obtain ⟨m, number, same⟩ := exists_marchDay n
  rw [same]
  exact m.isValid_date

def newYear (year : Int) : Int := march (year - 1) + 306

theorem newYear_le {y y' : Int} (h : y ≤ y') : newYear y ≤ newYear y' := by
  simp only [newYear, march]
  omega

theorem newYear_year (n : Int) :
    newYear (ofUnixDay n).year ≤ n ∧ n < newYear ((ofUnixDay n).year + 1) := by
  obtain ⟨m, number, same⟩ := exists_marchDay n
  have months := m.months
  have first := m.first
  have last := m.last
  rw [same, ← number]
  simp only [MarchDay.date, ofMonth, MarchDay.number, newYear]
  by_cases early : m.month < 10
  · simp only [if_pos early, march, monthStart] at *
    omega
  · simp only [if_neg early, march, monthStart] at *
    omega

theorem le_year_iff {y n : Int} : y ≤ (ofUnixDay n).year ↔ newYear y ≤ n := by
  have ⟨started, before⟩ := newYear_year n
  constructor
  · intro h
    exact Int.le_trans (newYear_le h) started
  · intro h
    rcases Int.lt_or_le (ofUnixDay n).year y with early | late
    · have next := newYear_le (Int.add_one_le_of_lt early)
      omega
    · exact late

structure Writable (d : Date) : Prop where
  valid : d.isValid = true
  fourDigits : 0 ≤ d.year ∧ d.year ≤ 9999

end Date

end NetworkCa
