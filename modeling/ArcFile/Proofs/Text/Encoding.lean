import ArcFile.Proofs.Text.Ascii
/-!
Texts that are written and read again. The UTF-8 of a text is read as that text, whatever is in it, and the decimal
digits of a number are read as that number.
-/
namespace ArcFile

namespace Utf8

variable {lo hi : UInt8} {others : Nat → Bytes → Option Char × Bytes}

/-- A byte that continues a character, with these six bits. -/
def continuation (n : Nat) : UInt8 := UInt8.ofNat (n % 64 + 128)

theorem toNat_continuation (n : Nat) : (continuation n).toNat = n % 64 + 128 := by
  rw [continuation, UInt8.toNat_ofNat']
  omega

theorem isContinuation_continuation (n : Nat) : isContinuation (continuation n) = true := by
  simp only [isContinuation, Bool.and_eq_true, decide_eq_true_eq, UInt8.le_iff_toNat_le, toNat_continuation,
    UInt8.reduceToNat]
  omega

theorem low_continuation (n : Nat) : low (continuation n) = n % 64 := by
  rw [low, toNat_continuation]
  omega

theorem lastOne_continuation (value n : Nat) (data : Bytes) :
    lastOne value (continuation n :: data) = (some (Char.ofNat (value * 64 + n % 64)), data) := by
  rw [lastOne, if_pos (isContinuation_continuation n), low_continuation]

theorem lastTwo_continuation (value m n : Nat) (data : Bytes) : lastTwo value (continuation m :: continuation n :: data) =
    (some (Char.ofNat ((value * 64 + m % 64) * 64 + n % 64)), data) := by
  simp only [lastTwo, isContinuation_continuation, low_continuation, Bool.not_true, Bool.false_eq_true, ↓reduceIte]

theorem second_continuation {n : Nat} (least : lo.toNat ≤ n % 64 + 128) (most : n % 64 + 128 ≤ hi.toNat) (value : Nat)
    (data : Bytes) : second lo hi value others (continuation n :: data) = others (value * 64 + n % 64) data := by
  have within : (lo ≤ continuation n && continuation n ≤ hi) = true := by
    simp only [Bool.and_eq_true, decide_eq_true_eq, UInt8.le_iff_toNat_le, toNat_continuation]
    exact ⟨least, most⟩
  rw [second, if_pos within, low_continuation]

/-- The first byte of a character tells how many there are, and which of them can come second. -/
theorem next_two {b : UInt8} (least : 0xC2 ≤ b.toNat) (most : b.toNat ≤ 0xDF) (data : Bytes) :
    next b data = lastOne (b.toNat % 32) data := by
  have large : ¬ b.toNat < 128 := by omega
  simp [next, UInt8.lt_iff_toNat_lt, UInt8.le_iff_toNat_le, large, least, most]

theorem next_three {b : UInt8} (least : 0xE0 ≤ b.toNat) (most : b.toNat ≤ 0xEF) (data : Bytes) :
    next b data = second (if b.toNat = 0xE0 then 0xA0 else 0x80) (if b.toNat = 0xED then 0x9F else 0xBF) (b.toNat % 16)
      lastOne data := by
  have large : ¬ b.toNat < 128 := by omega
  have notTwo : ¬ b.toNat ≤ 223 := by omega
  by_cases lowest : b.toNat = 0xE0
  · obtain rfl : b = 0xE0 := UInt8.toNat_inj.1 lowest
    rfl
  · by_cases surrogate : b.toNat = 0xED
    · obtain rfl : b = 0xED := UInt8.toNat_inj.1 surrogate
      rfl
    · have above : 225 ≤ b.toNat := by omega
      simp [next, UInt8.lt_iff_toNat_lt, UInt8.le_iff_toNat_le, ← UInt8.toNat_inj, large, notTwo, lowest, surrogate,
        above, most]

theorem next_four {b : UInt8} (least : 0xF0 ≤ b.toNat) (most : b.toNat ≤ 0xF4) (data : Bytes) :
    next b data = second (if b.toNat = 0xF0 then 0x90 else 0x80) (if b.toNat = 0xF4 then 0x8F else 0xBF) (b.toNat % 8)
      lastTwo data := by
  have large : ¬ b.toNat < 128 := by omega
  have notTwo : ¬ b.toNat ≤ 223 := by omega
  have notThree : ¬ b.toNat ≤ 239 := by omega
  by_cases lowest : b.toNat = 0xF0
  · obtain rfl : b = 0xF0 := UInt8.toNat_inj.1 lowest
    rfl
  · by_cases highest : b.toNat = 0xF4
    · obtain rfl : b = 0xF4 := UInt8.toNat_inj.1 highest
      rfl
    · have above : 241 ≤ b.toNat := by omega
      have below : b.toNat ≤ 243 := by omega
      have notLow : ¬ b.toNat = 224 := by omega
      have notSurrogate : ¬ b.toNat = 237 := by omega
      simp [next, UInt8.lt_iff_toNat_lt, UInt8.le_iff_toNat_le, ← UInt8.toNat_inj, large, notTwo, notThree, notLow,
        notSurrogate, lowest, highest, above, below]

/-- The bytes of a character are read as that character. -/
theorem next_utf8EncodeChar (c : Char) (data : Bytes) :
    ∃ b more, String.utf8EncodeChar c = b :: more ∧ next b (more ++ data) = (some c, data) := by
  have valid : c.val.toNat < 0xD800 ∨ 0xDFFF < c.val.toNat ∧ c.val.toNat < 0x110000 := c.valid
  have self {n : Nat} (is : n = c.val.toNat) : some (Char.ofNat n) = some c := by
    rw [is]
    exact congrArg some (Char.ofNat_toNat c)
  have whole {n : Nat} (small : n < 256) : (UInt8.ofNat n).toNat = n := by
    rw [UInt8.toNat_ofNat']
    omega
  unfold String.utf8EncodeChar
  generalize c.val.toNat = v at valid self
  by_cases one : v ≤ 127
  · rw [if_pos one]
    refine ⟨_, _, rfl, ?_⟩
    have ascii : UInt8.ofNat v < 0x80 := by
      rw [UInt8.lt_iff_toNat_lt, whole (by omega)]
      exact Nat.lt_succ_of_le one
    rw [next, if_pos ascii, whole (by omega), self rfl, List.nil_append]
  · rw [if_neg one]
    by_cases two : v ≤ 2047
    · rw [if_pos two]
      refine ⟨_, _, rfl, ?_⟩
      have lead := whole (by omega : v / 64 % 32 + 192 < 256)
      rw [next_two (by omega) (by omega), lead]
      refine (lastOne_continuation _ v data).trans ?_
      rw [self (by omega)]
    · rw [if_neg two]
      by_cases three : v ≤ 65535
      · rw [if_pos three]
        refine ⟨_, _, rfl, ?_⟩
        have lead := whole (by omega : v / 4096 % 16 + 224 < 256)
        rw [next_three (by omega) (by omega), lead]
        refine (second_continuation (n := v / 64) ?_ ?_ _ _).trans ?_
        · split <;> simp only [UInt8.reduceToNat] <;> omega
        · split <;> simp only [UInt8.reduceToNat] <;> omega
        · refine (lastOne_continuation _ v data).trans ?_
          rw [self (by omega)]
      · rw [if_neg three]
        refine ⟨_, _, rfl, ?_⟩
        have lead := whole (by omega : v / 262144 % 8 + 240 < 256)
        rw [next_four (by omega) (by omega), lead]
        refine (second_continuation (n := v / 4096) ?_ ?_ _ _).trans ?_
        · split <;> simp only [UInt8.reduceToNat] <;> omega
        · split <;> simp only [UInt8.reduceToNat] <;> omega
        · refine (lastTwo_continuation _ (v / 64) v data).trans ?_
          rw [self (by omega)]

theorem scan_ofString (text : String) : scan (Bytes.ofString text) = text.toList.map some := by
  unfold Bytes.ofString
  induction text.toList with
  | nil => exact scan_nil
  | cons c rest ih =>
    obtain ⟨b, more, bytes, read⟩ := next_utf8EncodeChar c (rest.flatMap String.utf8EncodeChar)
    rw [List.flatMap_cons, bytes, List.cons_append, scan, read, List.map_cons]
    exact congrArg _ ih

/-- The UTF-8 of a text is sound, and spells the text. -/
theorem decode?_ofString (text : String) : decode? (Bytes.ofString text) = some text := by
  have all (chars : List Char) : (chars.map some).mapM id = some chars := by
    induction chars with
    | nil => rfl
    | cons c rest ih => rw [List.map_cons, List.mapM_cons, ih]; rfl
  rw [decode?, scan_ofString, all, Option.map_some, String.ofList_toList]

theorem decodeLossy_ofString (text : String) : decodeLossy (Bytes.ofString text) = text := by
  have same : (fun c : Option Char => c.getD '\uFFFD') ∘ some = id := rfl
  rw [decodeLossy, scan_ofString, List.map_map, same, List.map_id, String.ofList_toList]

end Utf8

/-- In UTF-8 a carriage return only stands for itself. -/
theorem Bytes.dropReturn_ofString {text : String} (last : text.toList.getLast? ≠ some '\r') :
    dropReturn (ofString text) = ofString text := by
  apply if_neg
  intro isReturn
  obtain ⟨front, cut⟩ := List.getLast?_eq_some_iff.1 isReturn
  have chars := Utf8.toList_of_decode? (Utf8.decode?_ofString text)
  rw [cut, Utf8.chars_append_ascii (by decide) front [], Utf8.chars_nil] at chars
  apply last
  rw [chars, List.getLast?_concat]
  rfl

namespace Text.Decimal

variable {lo hi : Int} {n : Nat}

theorem digitIn?_of_isDigit {c : Char} (digit : c.isDigit = true) : digitIn? 10 c = some (c.toNat - '0'.toNat) := by
  simp only [Char.isDigit, Bool.and_eq_true, decide_eq_true_eq] at digit
  have within : '0' ≤ c ∧ c ≤ '9' := digit
  have most : c.toNat ≤ 57 := UInt32.le_iff_toNat_le.1 digit.2
  have read : digit? c = some (c.toNat - 48) := by rw [digit?, if_pos within]
  have small : decide (c.toNat - 48 < 10) = true := by
    rw [decide_eq_true_eq]
    omega
  rw [digitIn?, read, Option.filter_some, if_pos small]
  rfl

theorem continue?_digits {text : List Char} (digits : ∀ c ∈ text, c.isDigit = true) (value : Nat) :
    continue? 10 value text = some (Nat.ofDigitChars 10 text value) := by
  induction text generalizing value with
  | nil => rfl
  | cons c rest ih =>
    have later : ∀ c ∈ rest, c.isDigit = true := fun d among => digits d (List.mem_cons_of_mem c among)
    rw [continue?, digitIn?_of_isDigit (digits c List.mem_cons_self), Option.bind_some, ih later, Nat.ofDigitChars_cons,
      Nat.mul_comm]

theorem isDigit_of_mem_toDigits {c : Char} (among : c ∈ Nat.toDigits 10 n) : c.isDigit = true :=
  Nat.isDigit_of_mem_toDigits (by decide) (by decide) among

theorem readNat?_toDigits (n : Nat) : readNat? 10 (Nat.toDigits 10 n) = some n := by
  have some : ¬ (Nat.toDigits 10 n).isEmpty = true := by simp [Nat.toDigits_ne_nil]
  rw [readNat?, if_neg some, continue?_digits fun _ => isDigit_of_mem_toDigits,
    Nat.ofDigitChars_toDigits (by decide) (by decide)]

/-- A numeral without a sign is not negative. -/
theorem signed?_toDigits (n : Nat) : signed? (Nat.toDigits 10 n) = some (n : Int) := by
  have unsigned {sign : Char} {digits : List Char} (other : sign.isDigit = false)
      (is : Nat.toDigits 10 n = sign :: digits) : False := by
    have digit := isDigit_of_mem_toDigits (is ▸ List.mem_cons_self : sign ∈ Nat.toDigits 10 n)
    rw [other] at digit
    cases digit
  unfold signed?
  split
  · next is => exact (unsigned (by decide) is).elim
  · next is => exact (unsigned (by decide) is).elim
  · rw [readNat?_toDigits]
    rfl

/-- The digits of a number are read as that number, if it is in range. -/
theorem readInt?_toString (least : lo ≤ n) (most : (n : Int) ≤ hi) :
    readInt? lo hi (toString n).toList = some (n : Int) := by
  have within : (decide (lo ≤ (n : Int)) && decide ((n : Int) ≤ hi)) = true := by simp [least, most]
  rw [Nat.toString_eq_ofList_toDigits, String.toList_ofList, readInt?, signed?_toDigits, Option.filter_some,
    if_pos within]

end Text.Decimal
end ArcFile
