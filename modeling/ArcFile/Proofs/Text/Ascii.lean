import ArcFile.Text.Decimal
import ArcFile.Text.Pieces
import ArcFile.Text.Utf8
/-!
ASCII in text. No character of more than one byte has an ASCII byte in it, so every such byte is a character of its
own whatever stands around it, and a line ends as its text does.
-/
namespace ArcFile

namespace Utf8

variable {a : UInt8}

theorem isContinuation_of_ascii (ascii : a < 0x80) : isContinuation a = false := by
  have small : ¬ (0x80 : UInt8) ≤ a := UInt8.not_le.2 ascii
  simp [isContinuation, small]

/-- What reads the rest of a character stops in front of an ASCII byte. -/
def Stops (a : UInt8) (others : Bytes → Option Char × Bytes) : Prop :=
  ∀ data rest, others (data ++ a :: rest) = ((others data).1, (others data).2 ++ a :: rest)

theorem stops_lastOne (ascii : a < 0x80) (value : Nat) : Stops a (lastOne value) := by
  intro data rest
  cases data with
  | nil => simp [lastOne, isContinuation_of_ascii ascii]
  | cons c more =>
    simp only [List.cons_append, lastOne]
    split <;> rfl

theorem stops_lastTwo (ascii : a < 0x80) (value : Nat) : Stops a (lastTwo value) := by
  intro data rest
  have other := isContinuation_of_ascii ascii
  match data with
  | [] => cases rest <;> simp [lastTwo, other]
  | [c] => by_cases continues : isContinuation c <;> simp [lastTwo, other, continues]
  | c :: d :: more =>
    simp only [List.cons_append, lastTwo]
    split
    · rfl
    · split <;> rfl

theorem stops_second {lo hi : UInt8} {value : Nat} {others : Nat → Bytes → Option Char × Bytes}
    (ascii : a < 0x80) (low : 0x80 ≤ lo) (stops : ∀ value, Stops a (others value)) :
    Stops a (second lo hi value others) := by
  intro data rest
  have outside : ¬ lo ≤ a := UInt8.not_le.2 (UInt8.lt_of_lt_of_le ascii low)
  cases data with
  | nil => simp [second, outside]
  | cons c more =>
    simp only [List.cons_append, second]
    split
    · exact stops _ more rest
    · rfl

theorem stops_next (ascii : a < 0x80) (b : UInt8) : Stops a (next b) := by
  have one := stops_lastOne ascii
  have two := stops_lastTwo ascii
  intro data rest
  unfold next
  split
  · rfl
  · split
    · exact one _ data rest
    · split
      · exact stops_second ascii (by decide) one data rest
      · split
        · exact stops_second ascii (by decide) one data rest
        · split
          · exact stops_second ascii (by decide) one data rest
          · split
            · exact stops_second ascii (by decide) two data rest
            · split
              · exact stops_second ascii (by decide) two data rest
              · split
                · exact stops_second ascii (by decide) two data rest
                · rfl

theorem scan_nil : scan [] = [] := by
  unfold scan
  rfl

theorem scan_ascii (ascii : a < 0x80) (rest : Bytes) : scan (a :: rest) = some (Char.ofNat a.toNat) :: scan rest := by
  rw [scan]
  simp only [next, ascii, ↓reduceIte]

/-- An ASCII byte is a character, and what stands in front of it is read as if it stood alone. -/
theorem scan_append_ascii (ascii : a < 0x80) (data rest : Bytes) :
    scan (data ++ a :: rest) = scan data ++ some (Char.ofNat a.toNat) :: scan rest := by
  induction len : data.length using Nat.strongRecOn generalizing data with
  | ind len ih =>
    cases data with
    | nil => rw [scan_nil, List.nil_append, scan_ascii ascii, List.nil_append]
    | cons b more =>
      have shorter := length_next b more
      rw [List.length_cons] at len
      rw [List.cons_append, scan, stops_next ascii b more rest, ih _ (by omega) (next b more).2 rfl,
        scan.eq_2 b more, List.cons_append]

/-- Characters are read from the front. -/
theorem suffix_lastTwo (value : Nat) (data : Bytes) : (lastTwo value data).2 <:+ data := by
  unfold lastTwo
  repeat' split
  all_goals simp [List.suffix_cons_iff]

theorem suffix_lastOne (value : Nat) (data : Bytes) : (lastOne value data).2 <:+ data := by
  unfold lastOne
  repeat' split
  all_goals simp

theorem suffix_second {lo hi : UInt8} {value : Nat} {others : Nat → Bytes → Option Char × Bytes}
    (suffix : ∀ v d, (others v d).2 <:+ d) (data : Bytes) : (second lo hi value others data).2 <:+ data := by
  unfold second
  split
  · split
    · exact (suffix _ _).trans (List.suffix_cons _ _)
    · exact List.suffix_refl _
  · exact List.suffix_refl _

theorem suffix_next (b : UInt8) (rest : Bytes) : (next b rest).2 <:+ rest := by
  unfold next
  repeat' split
  all_goals first
    | exact List.suffix_refl _
    | exact suffix_lastOne _ _
    | exact suffix_second suffix_lastOne _
    | exact suffix_second suffix_lastTwo _

theorem toNat_ofNat (n : Nat) : (Char.ofNat n).toNat = n ∨ (Char.ofNat n).toNat = 0 := by
  unfold Char.ofNat
  by_cases valid : n.isValidChar
  · rw [dif_pos valid]
    exact .inl rfl
  · rw [dif_neg valid]
    exact .inr rfl

/-- In ISO-8859-1 every byte is a character. -/
def latin (b : UInt8) : Char := Char.ofNat b.toNat

theorem toNat_latin (b : UInt8) : (latin b).toNat = b.toNat := by
  have valid : b.toNat.isValidChar := .inl (Nat.lt_trans b.toNat_lt (by decide))
  unfold latin Char.ofNat
  rw [dif_pos valid]
  rfl

theorem toList_latin1 (data : Bytes) : data.latin1.toList = data.map latin := String.toList_ofList

/-- A byte whose character does not come from anything else: no character of more than one byte has so small a
number, and none that is no character has its number. -/
def IsOwn (a : UInt8) : Prop := 0 < a.toNat ∧ a.toNat < 64

instance (a : UInt8) : Decidable (IsOwn a) := inferInstanceAs (Decidable (_ ∧ _))

theorem ofNat_ne_latin (own : IsOwn a) {n : Nat} (big : 64 ≤ n) : Char.ofNat n ≠ latin a := by
  intro same
  have is : (Char.ofNat n).toNat = a.toNat := by rw [same, toNat_latin]
  obtain ⟨pos, small⟩ := own
  rcases toNat_ofNat n with is | zero <;> omega

theorem lastOne_ne_latin (own : IsOwn a) {value : Nat} (pos : 0 < value) (data : Bytes) :
    (lastOne value data).1 ≠ some (latin a) := by
  unfold lastOne
  split
  · split
    · intro same
      exact ofNat_ne_latin own (by omega) (Option.some.inj same)
    · simp
  · simp

theorem lastTwo_ne_latin (own : IsOwn a) {value : Nat} (pos : 0 < value) (data : Bytes) :
    (lastTwo value data).1 ≠ some (latin a) := by
  unfold lastTwo
  split
  · split
    · simp
    · split
      · simp
      · intro same
        exact ofNat_ne_latin own (by omega) (Option.some.inj same)
  · split <;> simp
  · simp

theorem second_ne_latin {lo hi : UInt8} {value : Nat} {others : Nat → Bytes → Option Char × Bytes}
    (others_ne : ∀ value, 0 < value → ∀ data, (others value data).1 ≠ some (latin a))
    (pos : ∀ c, lo ≤ c → c ≤ hi → 0 < value * 64 + low c) (data : Bytes) :
    (second lo hi value others data).1 ≠ some (latin a) := by
  unfold second
  split
  · next c rest =>
    split
    · next within =>
      obtain ⟨least, most⟩ := Bool.and_eq_true_iff.1 within
      exact others_ne _ (pos c (of_decide_eq_true least) (of_decide_eq_true most)) rest
    · simp
  · simp

/-- A small character is read from its own byte alone. -/
theorem next_ne_latin (own : IsOwn a) {b : UInt8} (other : b ≠ a) (rest : Bytes) : (next b rest).1 ≠ some (latin a) := by
  have low_pos {lo hi c : UInt8} (least : lo ≤ c) (most : c ≤ hi) (above : 128 < lo.toNat) (below : hi.toNat < 192) :
      0 < 0 * 64 + low c := by
    have := UInt8.le_iff_toNat_le.1 least
    have := UInt8.le_iff_toNat_le.1 most
    unfold low
    omega
  have one (value : Nat) (pos : 0 < value) := lastOne_ne_latin own pos
  have two (value : Nat) (pos : 0 < value) := lastTwo_ne_latin own pos
  unfold next
  split
  · intro same
    have is : (latin b).toNat = (latin a).toNat := congrArg Char.toNat (Option.some.inj same)
    rw [toNat_latin, toNat_latin] at is
    exact other (UInt8.toNat_inj.1 is)
  · split
    · next two' =>
      simp only [Bool.and_eq_true, decide_eq_true_eq, UInt8.le_iff_toNat_le, UInt8.reduceToNat] at two'
      exact one _ (by omega) rest
    · split
      · apply second_ne_latin one
        intro c least most
        exact low_pos least most (by decide) (by decide)
      · split
        · apply second_ne_latin one
          intro c _ _
          omega
        · split
          · next three =>
            simp only [Bool.and_eq_true, decide_eq_true_eq, UInt8.le_iff_toNat_le, UInt8.reduceToNat] at three
            apply second_ne_latin one
            intro c _ _
            omega
          · split
            · apply second_ne_latin two
              intro c least most
              exact low_pos least most (by decide) (by decide)
            · split
              · apply second_ne_latin two
                intro c _ _
                omega
              · split
                · next four =>
                  simp only [Bool.and_eq_true, decide_eq_true_eq, UInt8.le_iff_toNat_le, UInt8.reduceToNat] at four
                  apply second_ne_latin two
                  intro c _ _
                  omega
                · simp

/-- The characters that some bytes spell, with U+FFFD for every unsound part. -/
def chars (data : Bytes) : List Char := (scan data).map fun c => c.getD '\uFFFD'

theorem chars_append_ascii (ascii : a < 0x80) (data rest : Bytes) :
    chars (data ++ a :: rest) = chars data ++ Char.ofNat a.toNat :: chars rest := by
  simp only [chars, scan_append_ascii ascii, List.map_append, List.map_cons, Option.getD_some]

theorem chars_nil : chars [] = [] := by
  rw [chars, scan_nil, List.map_nil]

/-- Small characters come from their own bytes alone. -/
theorem latin_not_mem_chars (own : IsOwn a) {data : Bytes} (none : a ∉ data) : latin a ∉ chars data := by
  have unsound : latin a ≠ '\uFFFD' := by
    intro same
    have is : (latin a).toNat = 0xFFFD := congrArg Char.toNat same
    rw [toNat_latin] at is
    have := own.2
    omega
  induction len : data.length using Nat.strongRecOn generalizing data with
  | ind len ih =>
    cases data with
    | nil =>
      rw [chars_nil]
      exact List.not_mem_nil
    | cons b rest =>
      have other : b ≠ a := by
        rintro rfl
        exact none List.mem_cons_self
      have noMore : a ∉ (next b rest).2 := by
        intro among
        exact none (List.mem_cons_of_mem b ((suffix_next b rest).subset among))
      have later := ih _ (by have := length_next b rest; rw [List.length_cons] at len; omega) noMore rfl
      rw [chars, scan, List.map_cons, List.mem_cons]
      rintro (same | among)
      · have read := next_ne_latin own other rest
        cases found : (next b rest).1 with
        | none =>
          rw [found] at same
          exact unsound same
        | some c =>
          rw [found] at same read
          exact read (congrArg some same.symm)
      · exact later among

/-- There are as many spaces in the text as there are in the bytes. -/
theorem count_space_chars (data : Bytes) : (chars data).count ' ' = data.count 0x20 := by
  have noSpace {data : Bytes} (none : 0x20 ∉ data) : ' ' ∉ chars data := latin_not_mem_chars (by decide) none
  induction len : data.length using Nat.strongRecOn generalizing data with
  | ind len ih =>
    by_cases spaced : 0x20 ∈ data
    · obtain ⟨before, after, rfl, none⟩ := List.eq_append_cons_of_mem spaced
      have later := ih after.length (by simp at len; omega) after rfl
      have space : Char.ofNat (0x20 : UInt8).toNat = ' ' := rfl
      rw [chars_append_ascii (by decide), List.count_append, List.count_append, space, List.count_cons_self,
        List.count_cons_self, List.count_eq_zero.2 (noSpace none), List.count_eq_zero.2 none, later]
    · rw [List.count_eq_zero.2 (noSpace spaced), List.count_eq_zero.2 spaced]

theorem latin_inj {b c : UInt8} (same : latin b = latin c) : b = c := by
  rw [← UInt8.toNat_inj, ← toNat_latin, ← toNat_latin, same]

theorem count_latin (a : UInt8) (data : Bytes) : (data.map latin).count (latin a) = data.count a := by
  induction data with
  | nil => rfl
  | cons b rest ih =>
    rw [List.map_cons]
    by_cases same : b = a
    · rw [same, List.count_cons_self, List.count_cons_self, ih]
    · have other : latin b ≠ latin a := by
        intro is
        exact same (latin_inj is)
      rw [List.count_cons_of_ne same, List.count_cons_of_ne other, ih]

/-- In ASCII every byte is the character of the same number. -/
theorem chars_of_ascii {data : Bytes} (ascii : ∀ b ∈ data, b < 0x80) :
    chars data = data.map latin := by
  induction data with
  | nil => exact chars_nil
  | cons b rest ih =>
    have later : ∀ c ∈ rest, c < 0x80 := by
      intro c among
      exact ascii c (List.mem_cons_of_mem b among)
    rw [chars, scan_ascii (ascii b List.mem_cons_self), List.map_cons, List.map_cons, ← ih later]
    rfl

/-- Sound bytes are read without any loss. -/
theorem toList_of_decode? {data : Bytes} {text : String} (h : decode? data = some text) :
    text.toList = chars data := by
  obtain ⟨sound, all, rfl⟩ := Option.map_eq_some_iff.1 h
  rw [String.toList_ofList, chars]
  clear h
  generalize scan data = found at all
  induction found generalizing sound with
  | nil =>
    cases all
    rfl
  | cons c more ih =>
    rw [List.mapM_cons] at all
    obtain ⟨first, rfl, rest⟩ := Option.bind_eq_some_iff.1 all
    obtain ⟨others, later, same⟩ := Option.bind_eq_some_iff.1 rest
    cases same
    rw [ih others later]
    rfl

end Utf8

namespace Text

variable {sep : Char} {text before after : List Char}

theorem pieces_of_not_mem (none : sep ∉ text) : pieces sep text = [text] := by
  induction text with
  | nil => rfl
  | cons c rest ih =>
    have other : c ≠ sep := by
      rintro rfl
      exact none List.mem_cons_self
    have noMore : sep ∉ rest := by
      intro later
      exact none (List.mem_cons_of_mem c later)
    unfold pieces
    rw [if_neg other, ih noMore]

theorem pieces_append (before after : List Char) :
    pieces sep (before ++ sep :: after) = pieces sep before ++ pieces sep after := by
  induction before with
  | nil => simp [pieces]
  | cons c rest ih =>
    rw [List.cons_append, pieces, ih]
    conv => rhs; rw [pieces]
    cases found : pieces sep rest with
    | nil => exact absurd found (pieces_ne_nil sep rest)
    | cons piece more => split <;> rfl

theorem length_pieces (sep : Char) (text : List Char) : (pieces sep text).length = text.count sep + 1 := by
  induction text with
  | nil => rfl
  | cons c rest ih =>
    unfold pieces
    by_cases same : c = sep
    · rw [if_pos same, List.length_cons, ih, same, List.count_cons_self]
    · rw [if_neg same, List.count_cons_of_ne same, ← ih]
      cases found : pieces sep rest with
      | nil => exact absurd found (pieces_ne_nil sep rest)
      | cons piece more => rfl

/-- A run of characters of one class ends where one of another class stands. -/
theorem span_append {rest : List Char} {p : Char → Bool} (all : ∀ c ∈ text, p c = true) (ends : ∀ c, rest.head? = some c → p c = false) :
    (text ++ rest).takeWhile p = text ∧ (text ++ rest).dropWhile p = rest := by
  rw [List.takeWhile_append_of_pos all, List.dropWhile_append_of_pos all]
  cases rest with
  | nil => exact ⟨List.append_nil text, rfl⟩
  | cons c rest =>
    have other : ¬p c = true := by
      rw [ends c rfl]
      exact Bool.false_ne_true
    rw [List.takeWhile_cons_of_neg other, List.append_nil, List.dropWhile_cons_of_neg other]
    exact ⟨rfl, rfl⟩

/-- What stands behind the last separator. -/
theorem exists_last_cut {α : Type} {sep : α} {text : List α} (some : sep ∈ text) :
    ∃ before after, text = before ++ sep :: after ∧ sep ∉ after := by
  obtain ⟨front, back, same, none⟩ := List.eq_append_cons_of_mem (List.mem_reverse.2 some)
  refine ⟨back.reverse, front.reverse, ?_, by rwa [List.mem_reverse]⟩
  rw [← List.reverse_reverse text, same]
  simp

end Text

namespace Text.Decimal

/-- A digit or a sign. -/
def isNumeral (c : Char) : Bool := c = '-' || c = '+' || (digitIn? 10 c).isSome

theorem lt_of_isNumeral {c : Char} (h : isNumeral c = true) : c.toNat < 128 := by
  simp only [isNumeral, Bool.or_eq_true, decide_eq_true_eq, or_assoc] at h
  rcases h with rfl | rfl | digit
  · decide
  · decide
  · obtain ⟨d, found⟩ := Option.isSome_iff_exists.1 digit
    obtain ⟨read, -⟩ := Option.filter_eq_some_iff.1 found
    unfold digit? at read
    have most {hi : Char} (le : c ≤ hi) (small : hi.toNat < 128) : c.toNat < 128 :=
      Nat.lt_of_le_of_lt (UInt32.le_iff_toNat_le.1 le) small
    split at read
    · next within => exact most within.2 (by decide)
    · split at read
      · next within => exact most within.2 (by decide)
      · split at read
        · next within => exact most within.2 (by decide)
        · cases read

theorem isSome_of_continue? {base value n : Nat} {text : List Char} (h : continue? base value text = some n) :
    ∀ c ∈ text, (digitIn? base c).isSome := by
  induction text generalizing value with
  | nil => simp
  | cons c rest ih =>
    obtain ⟨d, digit, later⟩ := Option.bind_eq_some_iff.1 h
    intro c' among
    rcases List.mem_cons.1 among with rfl | among
    · rw [digit]
      rfl
    · exact ih later c' among

theorem isNumeral_of_readNat? {n : Nat} {text : List Char} (h : readNat? 10 text = some n) :
    text ≠ [] ∧ ∀ c ∈ text, isNumeral c = true := by
  unfold readNat? at h
  split at h
  · cases h
  · next some =>
    refine ⟨by simpa using some, ?_⟩
    intro c among
    simp [isNumeral, isSome_of_continue? h c among]

theorem isNumeral_of_readInt? {lo hi n : Int} {text : List Char} (h : readInt? lo hi text = some n) :
    text ≠ [] ∧ ∀ c ∈ text, isNumeral c = true := by
  obtain ⟨found, -⟩ := Option.filter_eq_some_iff.1 h
  unfold signed? at found
  split at found
  all_goals obtain ⟨_, read, -⟩ := Option.map_eq_some_iff.1 found
  all_goals obtain ⟨m, digits, -⟩ := Option.bind_eq_some_iff.1 read
  all_goals obtain ⟨some, all⟩ := isNumeral_of_readNat? digits
  · exact ⟨by simp, by simpa using ⟨by decide, all⟩⟩
  · exact ⟨by simp, by simpa using ⟨by decide, all⟩⟩
  · exact ⟨some, all⟩

end Text.Decimal
end ArcFile
