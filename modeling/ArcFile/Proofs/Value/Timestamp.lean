import ArcFile.Proofs.Text.Numeral
import ArcFile.Proofs.Value.Calendar
/-!
Archive dates as they are written. The fourteen digits of a date spell its six parts, so that the order of the texts is
the order of the dates.
-/
namespace ArcFile.Timestamp

open Text
open Text.Decimal (padded)

variable {t t' : Timestamp} {text text' : String}

/-- The text is fourteen digits, `yyyyMMddHHmmss`, that spell this date and time of day. -/
structure IsWritten (t : Timestamp) (text : String) : Prop where
  fourteen : text.toList.length = 14
  digits : ∀ c ∈ text.toList, c.isDigit = true
  spelled : text = padded 4 t.year ++ padded 2 t.month ++ padded 2 t.day ++ padded 2 t.hour ++ padded 2 t.minute ++
    padded 2 t.second

theorem part_of_isDigit {run : List Char} (some : run ≠ []) (digits : ∀ c ∈ run, c.isDigit = true) :
    part run = Nat.ofDigitChars 10 run 0 := by
  rw [part, Decimal.readNat?_of_isDigit some digits]
  rfl

/-- The six parts of a text. -/
theorem IsWritten.toList (written : t.IsWritten text) : text.toList =
    (padded 4 t.year).toList ++ ((padded 2 t.month).toList ++ ((padded 2 t.day).toList ++
      ((padded 2 t.hour).toList ++ ((padded 2 t.minute).toList ++ (padded 2 t.second).toList)))) := by
  rw [written.spelled]
  simp only [String.toList_append, List.append_assoc]

/-- In fourteen digits each part has its own width. -/
theorem IsWritten.widths (written : t.IsWritten text) :
    (padded 4 t.year).toList.length = 4 ∧ (padded 2 t.month).toList.length = 2 ∧ (padded 2 t.day).toList.length = 2 ∧
      (padded 2 t.hour).toList.length = 2 ∧ (padded 2 t.minute).toList.length = 2 ∧
        (padded 2 t.second).toList.length = 2 := by
  have fourteen := written.fourteen
  simp only [written.toList, List.length_append] at fourteen
  have := Decimal.le_length_padded 4 t.year
  have least := Decimal.le_length_padded 2
  have := least t.month
  have := least t.day
  have := least t.hour
  have := least t.minute
  have := least t.second
  omega

/-- What is read from a text is what is written in it. -/
theorem ofDigits_of_isWritten (written : t.IsWritten text) : ofDigits text.toList = t := by
  obtain ⟨year, month, day, hour, minute, second⟩ := written.widths
  have read {width n : Nat} (is : (padded width n).toList.length = width) (pos : 0 < width) :
      part (padded width n).toList = n := by
    have some : (padded width n).toList ≠ [] := by
      intro none
      rw [none] at is
      exact absurd is (Nat.ne_of_lt pos)
    rw [part_of_isDigit some (Decimal.isDigit_padded width n), Decimal.ofDigitChars_padded]
  have behind {n width : Nat} (m : Nat) {front rest : List Char} (cut : text.toList.drop n = front ++ rest)
      (is : front.length = width) (sum : n + width = m) : text.toList.drop m = rest := by
    rw [← sum, ← List.drop_drop, cut, List.drop_left' is]
  have months := behind 4 (n := 0) written.toList year rfl
  have days := behind 6 months month rfl
  have hours := behind 8 days day rfl
  have minutes := behind 10 hours hour rfl
  have seconds := behind 12 minutes minute rfl
  unfold ofDigits
  rw [months, days, hours, minutes, seconds, written.toList, List.take_left' year, List.take_left' month,
    List.take_left' day, List.take_left' hour, List.take_left' minute, List.take_of_length_le (Nat.le_of_eq second)]
  simp only [read year, read month, read day, read hour, read minute, read second, Nat.zero_lt_succ]

/-- Fourteen digits are a text of what is read from them. -/
theorem isWritten_ofDigits (fourteen : text.toList.length = 14) (digits : ∀ c ∈ text.toList, c.isDigit = true) :
    (ofDigits text.toList).IsWritten text := by
  refine ⟨fourteen, digits, ?_⟩
  have spelled {run : List Char} {width : Nat} (within : ∀ c ∈ run, c ∈ text.toList) (is : run.length = width)
      (pos : 0 < width) : (padded width (part run)).toList = run := by
    have some : run ≠ [] := List.length_pos_iff.1 (is ▸ pos)
    have all : ∀ c ∈ run, c.isDigit = true := fun c among => digits c (within c among)
    rw [part_of_isDigit some all, ← is, Decimal.padded_ofDigitChars some all]
  have cut (n width m : Nat) (sum : n + width = m) (fits : m ≤ 14) (pos : 0 < width) :
      (padded width (part ((text.toList.drop n).take width))).toList ++ text.toList.drop m = text.toList.drop n := by
    have among : ∀ c ∈ (text.toList.drop n).take width, c ∈ text.toList := fun c later =>
      List.mem_of_mem_drop (List.mem_of_mem_take later)
    have length : ((text.toList.drop n).take width).length = width := by
      rw [List.length_take, List.length_drop, fourteen]
      omega
    rw [spelled among length pos, ← sum, ← List.drop_drop, List.take_append_drop]
  have spent : text.toList.drop 14 = [] := List.drop_of_length_le (Nat.le_of_eq fourteen)
  have seconds := cut 12 2 14 rfl (by decide) (by decide)
  rw [spent, List.append_nil] at seconds
  apply String.toList_injective
  simp only [ofDigits, String.toList_append, List.append_assoc, seconds, cut 10 2 12, cut 8 2 10, cut 6 2 8, cut 4 2 6,
    Nat.reduceAdd, Nat.reduceLeDiff, Nat.zero_lt_succ]
  exact (cut 0 4 4 rfl (by decide) (by decide)).symm

theorem parse?_eq_some_iff : parse? text = some t ↔ t.IsWritten text ∧ t.Occurs ∧ 0 < t.instant := by
  simp only [parse?, Option.ite_none_right_eq_some, Option.some.injEq, List.all_eq_true, valid_iff]
  constructor
  · rintro ⟨⟨fourteen, digits, occurs, later⟩, rfl⟩
    exact ⟨isWritten_ofDigits fourteen digits, occurs, later⟩
  · rintro ⟨written, occurs, later⟩
    rw [ofDigits_of_isWritten written]
    exact ⟨⟨written.fourteen, written.digits, occurs, later⟩, rfl⟩

/-- The number that all digits of a date spell. -/
theorem IsWritten.number (written : t.IsWritten text) : Nat.ofDigitChars 10 text.toList 0 =
    ((((t.year * 100 + t.month) * 100 + t.day) * 100 + t.hour) * 100 + t.minute) * 100 + t.second := by
  obtain ⟨-, month, day, hour, minute, second⟩ := written.widths
  have goesOn {n value : Nat} (is : (padded 2 n).toList.length = 2) :
      Nat.ofDigitChars 10 (padded 2 n).toList value = value * 100 + n := by
    rw [Nat.ofDigitChars_eq_ofDigitChars_zero, Decimal.ofDigitChars_padded, is, Nat.mul_comm]
  simp only [written.toList, Nat.ofDigitChars_append, Decimal.ofDigitChars_padded, goesOn month, goesOn day, goesOn hour,
    goesOn minute, goesOn second]

/-- Later texts are texts of later dates. -/
theorem fields_lt_of_lt (written : t.IsWritten text) (written' : t'.IsWritten text') (before : text < text') :
    t.fields < t'.fields := by
  have less := Decimal.ofDigitChars_lt_of_lt written.digits written'.digits
    (written.fourteen.trans written'.fourteen.symm) (String.lt_iff.1 before)
  have small {n : Nat} (is : (padded 2 n).toList.length = 2) : n < 100 := by
    have := Decimal.ofDigitChars_lt (Decimal.isDigit_padded 2 n)
    rwa [Decimal.ofDigitChars_padded, is] at this
  obtain ⟨-, month, day, hour, minute, second⟩ := written.widths
  obtain ⟨-, month', day', hour', minute', second'⟩ := written'.widths
  have := small month
  have := small day
  have := small hour
  have := small minute
  have := small second
  have := small month'
  have := small day'
  have := small hour'
  have := small minute'
  have := small second'
  rw [written.number, written'.number] at less
  rw [fields_lt_iff]
  omega

/-- A text is read as a date just if it is the fourteen digits of a date and a time of day that there are and that the
clock shows some seconds after the start of 1970; its instant is that number of seconds. Of two such texts the later one
has no earlier instant, and the same only if they are the seconds 59 and 60 of a minute. -/
theorem parse?_calendar (text text' : String) (t t' : Timestamp) :
    (parse? text = some t ↔ t.IsWritten text ∧ t.Occurs ∧ ∃ seconds, 0 < seconds ∧ clock seconds = t.counted) ∧
      (parse? text = some t → ∃ seconds : Nat, t.instant = seconds ∧ clock seconds = t.counted) ∧
      (parse? text = some t → parse? text' = some t' → text < text' → t.instant ≤ t'.instant ∧
        (t.instant = t'.instant → t.second = 59 ∧ t' = { t with second := 60 })) := by
  refine ⟨?_, ?_, ?_⟩
  · rw [parse?_eq_some_iff]
    constructor
    · rintro ⟨written, occurs, later⟩
      obtain ⟨seconds, is⟩ := Int.eq_ofNat_of_zero_le (Int.le_of_lt later)
      refine ⟨written, occurs, seconds, by omega, (clock_eq_iff occurs seconds).2 is⟩
    · rintro ⟨written, occurs, seconds, pos, shown⟩
      refine ⟨written, occurs, ?_⟩
      rw [(clock_eq_iff occurs seconds).1 shown]
      omega
  · intro read
    obtain ⟨-, occurs, later⟩ := parse?_eq_some_iff.1 read
    obtain ⟨seconds, is⟩ := Int.eq_ofNat_of_zero_le (Int.le_of_lt later)
    exact ⟨seconds, is, (clock_eq_iff occurs seconds).2 is⟩
  · intro read read' before
    obtain ⟨written, occurs, -⟩ := parse?_eq_some_iff.1 read
    obtain ⟨written', occurs', -⟩ := parse?_eq_some_iff.1 read'
    obtain ⟨order, equal⟩ := elapsed_le_of_lt occurs occurs' (fields_lt_of_lt written written' before)
    rw [instant_eq, instant_eq]
    refine ⟨by omega, ?_⟩
    intro same
    exact equal (by omega)

/-- The last two seconds of 2016, of which the later is a leap second. -/
theorem parse?_calendar_leapSecond :
    let t : Timestamp := ⟨2016, 12, 31, 23, 59, 59⟩
    let t' : Timestamp := { t with second := 60 }
    parse? "20161231235959" = some t ∧ parse? "20161231235960" = some t' ∧ "20161231235959" < "20161231235960" ∧
      (∃ seconds : Nat, t'.instant = seconds ∧ clock seconds = t) ∧ t.instant ≤ t'.instant := by
  intro t t'
  have read : parse? "20161231235959" = some t := by decide +kernel
  have read' : parse? "20161231235960" = some t' := by decide +kernel
  have before : "20161231235959" < "20161231235960" := by decide +kernel
  obtain ⟨-, shown, -⟩ := parse?_calendar "20161231235960" "20161231235960" t' t'
  obtain ⟨-, -, order⟩ := parse?_calendar "20161231235959" "20161231235960" t t'
  exact ⟨read, read', before, shown read', (order read read' before).1⟩

end ArcFile.Timestamp
