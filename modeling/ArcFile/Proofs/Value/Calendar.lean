import ArcFile.Value.Timestamp
/-!
The Gregorian calendar as a clock that is put forward second by second: minutes, hours, days, months and years each
begin anew when they are full, the months after as many days as the rule of leap years says. `clock_eq_iff` shows that
the instant of a date is the number of seconds after which the clock shows it, and `elapsed_le_of_lt` that the order of
dates is the order of their instants, but for the second 60 of a minute.
-/
namespace ArcFile.Timestamp

variable {s t : Timestamp} {year month : Nat}

/-! ## The calendar -/

/-- Every fourth year is a leap year, but of the centuries only every fourth. -/
def IsLeapYear (year : Nat) : Prop := 4 ∣ year ∧ (100 ∣ year → 400 ∣ year)

instance (year : Nat) : Decidable (IsLeapYear year) := inferInstanceAs (Decidable (_ ∧ (_ → _)))

/-- The days of the months of a year. -/
def monthLengths (year : Nat) : List Nat :=
  [31, if IsLeapYear year then 29 else 28, 31, 30, 31, 30, 31, 31, 30, 31, 30, 31]

/-- The days of a month. Months are numbered from 1 on. -/
def monthLength (year month : Nat) : Nat := (monthLengths year).getD (month - 1) 0

/-- There is such a date and such a time of day. Every minute may have a second 60. -/
structure Occurs (t : Timestamp) : Prop where
  month : 1 ≤ t.month ∧ t.month ≤ 12
  day : 1 ≤ t.day ∧ t.day ≤ monthLength t.year t.month
  hour : t.hour ≤ 23
  minute : t.minute ≤ 59
  second : t.second ≤ 60

/-- The clock one second later. -/
def tick (t : Timestamp) : Timestamp :=
  if t.second < 59 then ⟨t.year, t.month, t.day, t.hour, t.minute, t.second + 1⟩
  else if t.minute < 59 then ⟨t.year, t.month, t.day, t.hour, t.minute + 1, 0⟩
  else if t.hour < 23 then ⟨t.year, t.month, t.day, t.hour + 1, 0, 0⟩
  else if t.day < monthLength t.year t.month then ⟨t.year, t.month, t.day + 1, 0, 0, 0⟩
  else if t.month < 12 then ⟨t.year, t.month + 1, 1, 0, 0, 0⟩
  else ⟨t.year + 1, 1, 1, 0, 0, 0⟩

/-- What the clock shows so many seconds after the start of 1970. -/
def clock : Nat → Timestamp
  | 0 => ⟨1970, 1, 1, 0, 0, 0⟩
  | seconds + 1 => tick (clock seconds)

/-- What the clock shows at this time: second 60 is counted as second 59. -/
def counted (t : Timestamp) : Timestamp := { t with second := min t.second 59 }

/-! ## Days -/

theorem isLeap_iff : isLeap year = true ↔ IsLeapYear year := by
  simp only [isLeap, IsLeapYear, Bool.and_eq_true, Bool.or_eq_true, beq_iff_eq, bne_iff_ne]
  omega

theorem daysInMonth_eq (isMonth : 1 ≤ month ∧ month ≤ 12) : daysInMonth year month = monthLength year month := by
  obtain ⟨least, most⟩ := isMonth
  match month, least, most with
  | 1, _, _ | 3, _, _ | 4, _, _ | 5, _, _ | 6, _, _ | 7, _, _ | 8, _, _ | 9, _, _ | 10, _, _ | 11, _, _ | 12, _, _ => rfl
  | 2, _, _ =>
    by_cases leap : IsLeapYear year <;> simp [daysInMonth, monthLength, monthLengths, isLeap_iff, leap]

theorem monthLength_pos (isMonth : 1 ≤ month ∧ month ≤ 12) : 1 ≤ monthLength year month := by
  rw [← daysInMonth_eq isMonth]
  unfold daysInMonth
  split
  · split <;> decide
  all_goals decide

theorem valid_iff : t.valid = true ↔ t.Occurs := by
  simp only [valid, Bool.and_eq_true, decide_eq_true_eq]
  constructor
  · rintro ⟨⟨⟨⟨⟨⟨first, last⟩, least⟩, most⟩, hour⟩, minute⟩, second⟩
    rw [daysInMonth_eq ⟨first, last⟩] at most
    exact ⟨⟨first, last⟩, ⟨least, most⟩, hour, minute, second⟩
  · intro occurs
    obtain ⟨⟨first, last⟩, ⟨least, most⟩, hour, minute, second⟩ := occurs
    rw [← daysInMonth_eq ⟨first, last⟩] at most
    exact ⟨⟨⟨⟨⟨⟨first, last⟩, least⟩, most⟩, hour⟩, minute⟩, second⟩

/-- A month begins when the one before is over. -/
theorem daysBeforeMonth_succ (isMonth : 1 ≤ month ∧ month ≤ 12) :
    daysBeforeMonth year (month + 1) = daysBeforeMonth year month + monthLength year month := by
  have some : month ≠ 0 := Nat.ne_of_gt isMonth.1
  rw [daysBeforeMonth, if_neg some, daysInMonth_eq isMonth]

/-- And so does a year. -/
theorem daysBeforeYear_succ (year : Nat) : daysBeforeYear (year + 1) = daysBeforeYear year + daysBeforeMonth year 13 := by
  have months : daysBeforeMonth year 13 = if IsLeapYear year then 366 else 365 := by
    by_cases leap : IsLeapYear year <;> simp [daysBeforeMonth, daysInMonth, isLeap_iff, leap]
  -- each of the three counts goes up in the years that it counts
  have fourths : (year + 1 + 3) / 4 = (year + 3) / 4 + if 4 ∣ year then 1 else 0 := by split <;> omega
  have centuries : (year + 1 + 99) / 100 = (year + 99) / 100 + if 100 ∣ year then 1 else 0 := by split <;> omega
  have eras : (year + 1 + 399) / 400 = (year + 399) / 400 + if 400 ∣ year then 1 else 0 := by split <;> omega
  have fewer : (year + 99) / 100 ≤ (year + 3) / 4 := by omega
  have century : 100 ∣ year → 4 ∣ year := Nat.dvd_trans (by decide)
  have era : 400 ∣ year → 100 ∣ year := Nat.dvd_trans (by decide)
  rw [months]
  unfold daysBeforeYear leapsBefore IsLeapYear
  rw [fourths, centuries, eras]
  generalize (year + 3) / 4 = a, (year + 99) / 100 = b, (year + 399) / 400 = c at fewer
  by_cases inFourth : 4 ∣ year
  · by_cases inCentury : 100 ∣ year
    · by_cases inEra : 400 ∣ year <;> simp [inFourth, inCentury, inEra] <;> omega
    · have notEra : ¬ 400 ∣ year := mt era inCentury
      simp [inFourth, inCentury, notEra]
      omega
  · have notCentury : ¬ 100 ∣ year := mt century inFourth
    have notEra : ¬ 400 ∣ year := mt era notCentury
    simp [inFourth, notCentury, notEra]
    omega

theorem daysBeforeMonth_le {month' : Nat} (before : month ≤ month') :
    daysBeforeMonth year month ≤ daysBeforeMonth year month' := by
  induction before with
  | refl => exact Nat.le_refl _
  | @step last _ ih =>
    apply Nat.le_trans ih
    rw [daysBeforeMonth]
    split
    · next zero =>
      rw [zero]
      exact Nat.le_refl _
    · exact Nat.le_add_right _ _

theorem daysBeforeYear_le {year' : Nat} (before : year ≤ year') : daysBeforeYear year ≤ daysBeforeYear year' := by
  induction before with
  | refl => exact Nat.le_refl _
  | step _ ih =>
    rw [daysBeforeYear_succ]
    omega

/-- A day lies within its month, and so in front of the next one. -/
theorem lt_daysBeforeMonth (occurs : t.Occurs) :
    daysBeforeMonth t.year t.month + (t.day - 1) < daysBeforeMonth t.year (t.month + 1) := by
  obtain ⟨least, most⟩ := occurs.day
  rw [daysBeforeMonth_succ occurs.month]
  omega

/-- A day lies within its year. -/
theorem dayNumber_lt_year (occurs : t.Occurs) : t.dayNumber < daysBeforeYear (t.year + 1) := by
  have within := lt_daysBeforeMonth occurs
  have last : daysBeforeMonth t.year (t.month + 1) ≤ daysBeforeMonth t.year 13 :=
    daysBeforeMonth_le (Nat.succ_le_succ occurs.month.2)
  rw [daysBeforeYear_succ, dayNumber]
  omega

/-! ## Seconds -/

/-- Seconds from the start of the day. -/
def secondOfDay (t : Timestamp) : Nat := t.hour * 3600 + t.minute * 60 + min t.second 59

/-- Seconds from the start of year 0. -/
def elapsed (t : Timestamp) : Nat := t.dayNumber * 86400 + t.secondOfDay

theorem instant_eq (t : Timestamp) : t.instant = (t.elapsed : Int) - (daysBeforeYear 1970 * 86400 : Nat) := by
  unfold instant elapsed secondOfDay
  omega

theorem secondOfDay_lt (occurs : t.Occurs) : t.secondOfDay < 86400 := by
  have := occurs.hour
  have := occurs.minute
  unfold secondOfDay
  omega

/-- The clock shows only dates that there are, and no second 60. -/
theorem occurs_tick (occurs : t.Occurs) : (tick t).Occurs ∧ (tick t).second ≤ 59 := by
  obtain ⟨⟨first, last⟩, ⟨least, most⟩, hour, minute, second⟩ := occurs
  have someDay {year month : Nat} (isMonth : 1 ≤ month ∧ month ≤ 12) : 1 ≤ 1 ∧ 1 ≤ monthLength year month :=
    ⟨Nat.le_refl 1, monthLength_pos isMonth⟩
  unfold tick
  split
  · next room => exact ⟨⟨⟨first, last⟩, ⟨least, most⟩, hour, minute, Nat.le_succ_of_le room⟩, room⟩
  · split
    · next room => exact ⟨⟨⟨first, last⟩, ⟨least, most⟩, hour, room, Nat.zero_le _⟩, Nat.zero_le _⟩
    · split
      · next room => exact ⟨⟨⟨first, last⟩, ⟨least, most⟩, room, Nat.zero_le _, Nat.zero_le _⟩, Nat.zero_le _⟩
      · split
        · next room =>
          exact ⟨⟨⟨first, last⟩, ⟨Nat.le_add_left 1 _, room⟩, Nat.zero_le _, Nat.zero_le _, Nat.zero_le _⟩, Nat.zero_le _⟩
        · split
          · next room =>
            have later : 1 ≤ t.month + 1 ∧ t.month + 1 ≤ 12 := ⟨Nat.le_add_left 1 _, room⟩
            exact ⟨⟨later, someDay later, Nat.zero_le _, Nat.zero_le _, Nat.zero_le _⟩, Nat.zero_le _⟩
          · have january : 1 ≤ 1 ∧ 1 ≤ 12 := by decide
            exact ⟨⟨january, someDay january, Nat.zero_le _, Nat.zero_le _, Nat.zero_le _⟩, Nat.zero_le _⟩

/-- A tick is one second. -/
theorem elapsed_tick (occurs : t.Occurs) (shown : t.second ≤ 59) : (tick t).elapsed = t.elapsed + 1 := by
  have next : daysBeforeMonth t.year (t.month + 1) = daysBeforeMonth t.year t.month + monthLength t.year t.month :=
    daysBeforeMonth_succ occurs.month
  obtain ⟨least, most⟩ := occurs.day
  have := occurs.hour
  have := occurs.minute
  unfold tick
  repeat' split
  · simp only [elapsed, secondOfDay, dayNumber]
    omega
  · simp only [elapsed, secondOfDay, dayNumber]
    omega
  · simp only [elapsed, secondOfDay, dayNumber]
    omega
  · simp only [elapsed, secondOfDay, dayNumber]
    omega
  · simp only [elapsed, secondOfDay, dayNumber, next]
    omega
  · have december : t.month = 12 := by have := occurs.month; omega
    have january : daysBeforeMonth (t.year + 1) 1 = 0 := rfl
    have yearOver : daysBeforeMonth t.year 13 = daysBeforeMonth t.year t.month + monthLength t.year t.month := by
      rw [← next, december]
    simp only [elapsed, secondOfDay, dayNumber, daysBeforeYear_succ, january, yearOver]
    omega

/-! ## Earlier and later -/

/-- Year, month, day, hour, minute and second, in this order. -/
def fields (t : Timestamp) : List Nat := [t.year, t.month, t.day, t.hour, t.minute, t.second]

theorem fields_lt_iff : s.fields < t.fields ↔ s.year < t.year ∨ s.year = t.year ∧ (s.month < t.month ∨
    s.month = t.month ∧ (s.day < t.day ∨ s.day = t.day ∧ (s.hour < t.hour ∨ s.hour = t.hour ∧
      (s.minute < t.minute ∨ s.minute = t.minute ∧ s.second < t.second)))) := by
  simp [fields, List.cons_lt_cons_iff]

/-- Later days have greater numbers. -/
theorem dayNumber_lt (occurs : s.Occurs) (before : s.year < t.year ∨ s.year = t.year ∧ (s.month < t.month ∨
    s.month = t.month ∧ s.day < t.day)) : s.dayNumber < t.dayNumber := by
  rcases before with year | ⟨year, month | ⟨month, day⟩⟩
  · calc
      s.dayNumber < daysBeforeYear (s.year + 1) := dayNumber_lt_year occurs
      _ ≤ daysBeforeYear t.year := daysBeforeYear_le year
      _ ≤ t.dayNumber := by
        unfold dayNumber
        omega
  · have within := lt_daysBeforeMonth occurs
    have later : daysBeforeMonth s.year (s.month + 1) ≤ daysBeforeMonth s.year t.month := daysBeforeMonth_le month
    unfold dayNumber
    rw [← year]
    omega
  · have := occurs.day
    unfold dayNumber
    rw [← year, ← month]
    omega

/-- Later dates have no smaller number of seconds, and the same only if it is that of the seconds 59 and 60 of a
minute. -/
theorem elapsed_le_of_lt (occurs : s.Occurs) (occurs' : t.Occurs) (before : s.fields < t.fields) :
    s.elapsed ≤ t.elapsed ∧ (s.elapsed = t.elapsed → s.second = 59 ∧ t = { s with second := 60 }) := by
  have := secondOfDay_lt occurs
  rw [fields_lt_iff] at before
  by_cases day : s.year < t.year ∨ s.year = t.year ∧ (s.month < t.month ∨ s.month = t.month ∧ s.day < t.day)
  · have := dayNumber_lt occurs day
    unfold elapsed
    omega
  · obtain ⟨year, month, day⟩ : s.year = t.year ∧ s.month = t.month ∧ s.day = t.day := by omega
    have same : s.dayNumber = t.dayNumber := by unfold dayNumber; rw [year, month, day]
    have hour := occurs.hour
    have minute := occurs.minute
    have second := occurs.second
    have second' := occurs'.second
    unfold elapsed secondOfDay
    rw [same]
    refine ⟨by omega, ?_⟩
    intro equal
    obtain ⟨hour, minute, last, leap⟩ : s.hour = t.hour ∧ s.minute = t.minute ∧ s.second = 59 ∧ t.second = 60 := by
      omega
    refine ⟨last, ?_⟩
    rw [year, month, day, hour, minute, ← leap]

/-- Where no second 60 is shown, the number of seconds tells the date. -/
theorem eq_of_elapsed (occurs : s.Occurs) (occurs' : t.Occurs) (shown : s.second ≤ 59) (shown' : t.second ≤ 59)
    (same : s.elapsed = t.elapsed) : s = t := by
  have noLeap {s t : Timestamp} (shown : t.second ≤ 59) (is : t = { s with second := 60 }) : False := by
    have second : t.second = 60 := is ▸ rfl
    omega
  have notBefore : ¬ s.fields < t.fields := fun before =>
    noLeap shown' ((elapsed_le_of_lt occurs occurs' before).2 same).2
  have notAfter : ¬ t.fields < s.fields := fun after =>
    noLeap shown ((elapsed_le_of_lt occurs' occurs after).2 same.symm).2
  rw [fields_lt_iff] at notBefore notAfter
  obtain ⟨year, month, day, hour, minute, second⟩ := s
  obtain ⟨year', month', day', hour', minute', second'⟩ := t
  simp only [mk.injEq] at notBefore notAfter ⊢
  omega

/-! ## The clock -/

theorem clock_stands (seconds : Nat) : (clock seconds).Occurs ∧ (clock seconds).second ≤ 59 ∧
    (clock seconds).elapsed = daysBeforeYear 1970 * 86400 + seconds := by
  induction seconds with
  | zero => exact ⟨⟨by decide, by decide, by decide, by decide, by decide⟩, by decide, rfl⟩
  | succ seconds ih =>
    obtain ⟨occurs, shown, passed⟩ := ih
    obtain ⟨occurs', shown'⟩ := occurs_tick occurs
    refine ⟨occurs', shown', ?_⟩
    rw [clock, elapsed_tick occurs shown, passed, Nat.add_assoc]

theorem occurs_counted (occurs : t.Occurs) : t.counted.Occurs ∧ t.counted.second ≤ 59 := by
  have most : min t.second 59 ≤ 59 := Nat.min_le_right _ _
  exact ⟨⟨occurs.month, occurs.day, occurs.hour, occurs.minute, Nat.le_succ_of_le most⟩, most⟩

theorem elapsed_counted (t : Timestamp) : t.counted.elapsed = t.elapsed := by
  have twice : min (min t.second 59) 59 = min t.second 59 := by omega
  simp only [elapsed, secondOfDay, counted, twice]
  rfl

/-- An instant is the number of seconds after which the clock shows it. -/
theorem clock_eq_iff (occurs : t.Occurs) (seconds : Nat) : clock seconds = t.counted ↔ t.instant = seconds := by
  obtain ⟨shows, shown, passed⟩ := clock_stands seconds
  have same := elapsed_counted t
  rw [instant_eq]
  constructor
  · intro is
    rw [is] at passed
    omega
  · intro is
    obtain ⟨occurs', shown'⟩ := occurs_counted occurs
    apply eq_of_elapsed shows occurs' shown shown'
    omega

end ArcFile.Timestamp
