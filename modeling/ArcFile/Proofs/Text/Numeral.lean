import ArcFile.Proofs.Text.Encoding
import Mathlib.Algebra.GroupWithZero.Nat
/-!
Decimal digits and the numbers that they spell. A number is spelled by its own digits, with any zeros in front of them,
and by nothing else; digits of one width are in the order of their numbers.
-/
namespace ArcFile.Text.Decimal

variable {c : Char} {run : List Char}

theorem bounds_of_isDigit (digit : c.isDigit = true) : 48 ≤ c.toNat ∧ c.toNat ≤ 57 := by
  simp only [Char.isDigit, Bool.and_eq_true, decide_eq_true_eq] at digit
  exact ⟨UInt32.le_iff_toNat_le.1 digit.1, UInt32.le_iff_toNat_le.1 digit.2⟩

theorem value_lt_of_isDigit (digit : c.isDigit = true) : c.toNat - '0'.toNat < 10 := by
  obtain ⟨-, most⟩ := bounds_of_isDigit digit
  have zero : '0'.toNat = 48 := rfl
  omega

theorem digitChar_of_isDigit (digit : c.isDigit = true) : Nat.digitChar (c.toNat - '0'.toNat) = c := by
  obtain ⟨least, -⟩ := bounds_of_isDigit digit
  apply Char.toNat_inj.1
  rw [Nat.toNat_digitChar_of_lt_ten (value_lt_of_isDigit digit)]
  exact Nat.add_sub_cancel' least

theorem digitIn?_lt {base d : Nat} (digit : digitIn? base c = some d) : d < base := by
  obtain ⟨-, small⟩ := Option.filter_eq_some_iff.1 digit
  exact of_decide_eq_true small

/-- The digits below ten are the decimal ones in every base. -/
theorem isDigit_of_digitIn? (digit : (digitIn? 10 c).isSome = true) : c.isDigit = true := by
  obtain ⟨d, found⟩ := Option.isSome_iff_exists.1 digit
  have small := digitIn?_lt found
  obtain ⟨read, -⟩ := Option.filter_eq_some_iff.1 found
  have least {lo : Char} (le : lo ≤ c) : lo.toNat ≤ c.toNat := UInt32.le_iff_toNat_le.1 le
  unfold digit? at read
  split at read
  · next within =>
    simp only [Char.isDigit, Bool.and_eq_true, decide_eq_true_eq]
    exact within
  · split at read
    · next within =>
      have : 97 ≤ c.toNat := least within.1
      have := Option.some.inj read
      omega
    · split at read
      · next within =>
        have : 65 ≤ c.toNat := least within.1
        have := Option.some.inj read
        omega
      · cases read

theorem isSome_digitIn?_of_isDigit {base : Nat} (wide : 10 ≤ base) (digit : c.isDigit = true) :
    (digitIn? base c).isSome = true := by
  have decimal := digitIn?_of_isDigit digit
  have small := digitIn?_lt decimal
  obtain ⟨read, -⟩ := Option.filter_eq_some_iff.1 decimal
  rw [digitIn?, read, Option.filter_some, if_pos (decide_eq_true (by omega))]
  rfl

/-- A number has no more digits than it is spelled with. -/
theorem lt_of_continue? {base value n : Nat} (read : continue? base value run = some n) :
    n < (value + 1) * base ^ run.length := by
  induction run generalizing value with
  | nil =>
    cases read
    simp
  | cons c rest ih =>
    obtain ⟨d, digit, later⟩ := Option.bind_eq_some_iff.1 read
    have small := digitIn?_lt digit
    calc
      n < (value * base + d + 1) * base ^ rest.length := ih later
      _ ≤ ((value + 1) * base) * base ^ rest.length := by
        apply Nat.mul_le_mul_right
        rw [Nat.succ_mul]
        omega
      _ = (value + 1) * base ^ (c :: rest).length := by
        rw [List.length_cons, Nat.pow_succ', Nat.mul_assoc]

theorem readNat?_of_isDigit (some : run ≠ []) (digits : ∀ c ∈ run, c.isDigit = true) :
    readNat? 10 run = .some (Nat.ofDigitChars 10 run 0) := by
  have nonempty : ¬ run.isEmpty = true := by simpa using some
  rw [readNat?, if_neg nonempty, continue?_digits digits]

/-- Digits behind those of a number go on with it. -/
theorem toDigits_ofDigitChars_pos (digits : ∀ c ∈ run, c.isDigit = true) {n : Nat} (pos : 0 < n) :
    Nat.toDigits 10 (Nat.ofDigitChars 10 run n) = Nat.toDigits 10 n ++ run := by
  induction run generalizing n with
  | nil => simp
  | cons c rest ih =>
    have digit := digits c List.mem_cons_self
    have later : ∀ d ∈ rest, d.isDigit = true := fun d among => digits d (List.mem_cons_of_mem c among)
    have small := value_lt_of_isDigit digit
    rw [Nat.ofDigitChars_cons, ih later (by omega), ← Nat.toDigits_append_toDigits (by decide) pos small,
      Nat.toDigits_of_lt_base small, digitChar_of_isDigit digit, List.append_assoc, List.singleton_append]

/-- A number without zeros in front is spelled by its digits alone. -/
theorem toDigits_ofDigitChars (digits : ∀ d ∈ c :: run, d.isDigit = true) (leading : c = '0' → run = []) :
    Nat.toDigits 10 (Nat.ofDigitChars 10 (c :: run) 0) = c :: run := by
  have digit := digits c List.mem_cons_self
  have later : ∀ d ∈ run, d.isDigit = true := fun d among => digits d (List.mem_cons_of_mem c among)
  have first : Nat.toDigits 10 (c.toNat - '0'.toNat) = [c] := by
    rw [Nat.toDigits_of_lt_base (value_lt_of_isDigit digit), digitChar_of_isDigit digit]
  rw [Nat.ofDigitChars_cons, Nat.mul_zero, Nat.zero_add]
  by_cases zero : c = '0'
  · rw [leading zero, Nat.ofDigitChars_nil, first]
  · have pos : 0 < c.toNat - '0'.toNat := by
      apply Nat.pos_of_ne_zero
      intro is
      apply zero
      rw [← digitChar_of_isDigit digit, is]
      rfl
    rw [toDigits_ofDigitChars_pos later pos, first, List.singleton_append]

/-- Only zero begins with a zero. -/
theorem eq_zero_of_head? {n : Nat} (zero : (Nat.toDigits 10 n).head? = some '0') : n = 0 := by
  induction n using Nat.strongRecOn with
  | ind n ih =>
    by_cases small : n < 10
    · rw [Nat.toDigits_of_lt_base small, List.head?_cons, Option.some_inj] at zero
      have only : ∀ m < 10, Nat.digitChar m = '0' → m = 0 := by decide
      exact only n small zero
    · have some : Nat.toDigits 10 (n / 10) ≠ [] := Nat.toDigits_ne_nil
      obtain ⟨first, more, found⟩ := List.exists_cons_of_ne_nil some
      rw [Nat.toDigits_of_base_le (by decide) (by omega), found, List.cons_append, List.head?_cons] at zero
      have := ih (n / 10) (by omega) (by rw [found, List.head?_cons, zero])
      omega

/-! ## Numbers of a given width -/

theorem ofDigitChars_lt (digits : ∀ c ∈ run, c.isDigit = true) : Nat.ofDigitChars 10 run 0 < 10 ^ run.length := by
  have read := lt_of_continue? (continue?_digits digits 0)
  rwa [Nat.zero_add, Nat.one_mul] at read

theorem toList_padded (width n : Nat) : (padded width n).toList =
    List.replicate (width - (Nat.toDigits 10 n).length) '0' ++ Nat.toDigits 10 n := String.toList_ofList

theorem isDigit_padded (width n : Nat) : ∀ c ∈ (padded width n).toList, c.isDigit = true := by
  intro c among
  rw [toList_padded] at among
  rcases List.mem_append.1 among with zero | digit
  · rw [List.eq_of_mem_replicate zero]
    rfl
  · exact isDigit_of_mem_toDigits digit

theorem le_length_padded (width n : Nat) : width ≤ (padded width n).toList.length := by
  rw [toList_padded, List.length_append, List.length_replicate]
  omega

theorem ofDigitChars_padded (width n : Nat) : Nat.ofDigitChars 10 (padded width n).toList 0 = n := by
  rw [toList_padded, Nat.ofDigitChars_append, Nat.ofDigitChars_replicate_zero, Nat.mul_zero,
    Nat.ofDigitChars_toDigits (by decide) (by decide)]

/-- Digits are those of their number, with zeros in front up to their width. -/
theorem padded_ofDigitChars (some : run ≠ []) (digits : ∀ c ∈ run, c.isDigit = true) :
    (padded run.length (Nat.ofDigitChars 10 run 0)).toList = run := by
  induction run with
  | nil => exact absurd rfl some
  | cons c rest ih =>
    have later : ∀ d ∈ rest, d.isDigit = true := fun d among => digits d (List.mem_cons_of_mem c among)
    rw [toList_padded]
    by_cases leading : c = '0' ∧ rest ≠ []
    · obtain ⟨rfl, more⟩ := leading
      have same : Nat.ofDigitChars 10 ('0' :: rest) 0 = Nat.ofDigitChars 10 rest 0 := Nat.ofDigitChars_cons
      have short : (Nat.toDigits 10 (Nat.ofDigitChars 10 rest 0)).length ≤ rest.length :=
        (Nat.length_toDigits_le_iff (by decide) (List.length_pos_iff.2 more)).2 (ofDigitChars_lt later)
      have := ih more later
      rw [toList_padded] at this
      rw [same, List.length_cons, Nat.succ_sub short, List.replicate_succ, List.cons_append, this]
    · rw [toDigits_ofDigitChars digits fun zero => by simpa [zero] using leading, Nat.sub_self]
      rfl

/-- Digits of one width are in the order of their numbers. -/
theorem ofDigitChars_lt_of_lt {run' : List Char} (digits : ∀ c ∈ run, c.isDigit = true)
    (digits' : ∀ c ∈ run', c.isDigit = true) (width : run.length = run'.length) (before : run < run') :
    Nat.ofDigitChars 10 run 0 < Nat.ofDigitChars 10 run' 0 := by
  induction run generalizing run' with
  | nil =>
    obtain rfl : run' = [] := List.length_eq_zero_iff.1 width.symm
    exact absurd before (List.not_lt_nil [])
  | cons c rest ih =>
    cases run' with
    | nil => cases width
    | cons c' rest' =>
      have later : ∀ d ∈ rest, d.isDigit = true := fun d among => digits d (List.mem_cons_of_mem c among)
      have later' : ∀ d ∈ rest', d.isDigit = true := fun d among => digits' d (List.mem_cons_of_mem c' among)
      have same : rest.length = rest'.length := Nat.succ.inj width
      rw [Nat.ofDigitChars_cons, Nat.ofDigitChars_cons, Nat.ofDigitChars_eq_ofDigitChars_zero,
        Nat.ofDigitChars_eq_ofDigitChars_zero (l := rest'), ← same, Nat.mul_zero, Nat.zero_add, Nat.zero_add]
      rcases List.cons_lt_cons_iff.1 before with first | ⟨rfl, first⟩
      · obtain ⟨least, -⟩ := bounds_of_isDigit (digits c List.mem_cons_self)
        have less : c.toNat < c'.toNat := UInt32.lt_iff_toNat_lt.1 first
        have zero : '0'.toNat = 48 := rfl
        calc
          _ < 10 ^ rest.length * (c.toNat - '0'.toNat) + 10 ^ rest.length :=
            Nat.add_lt_add_left (ofDigitChars_lt later) _
          _ = 10 ^ rest.length * (c.toNat - '0'.toNat + 1) := (Nat.mul_succ _ _).symm
          _ ≤ 10 ^ rest.length * (c'.toNat - '0'.toNat) := Nat.mul_le_mul_left _ (by omega)
          _ ≤ _ := Nat.le_add_right _ _
      · exact Nat.add_lt_add_left (ih later later' same first) _

end ArcFile.Text.Decimal
