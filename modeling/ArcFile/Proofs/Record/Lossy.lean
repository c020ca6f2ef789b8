import ArcFile.Proofs.Record.Fields
/-!
Header lines that are not UTF-8. Such a line is made out as ISO-8859-1 by who reads it, and with U+FFFD for what is
unsound by who writes it. The two texts are not the same, but they have as many fields, and the same length in the last
of them.
-/
namespace ArcFile

namespace Utf8

variable {a : UInt8} {data : Bytes}

theorem latin_ne_unsound (own : IsOwn a) : latin a ≠ '\uFFFD' := by
  intro same
  have is : (latin a).toNat = 0xFFFD := congrArg Char.toNat same
  rw [toNat_latin] at is
  have := own.2
  omega

theorem chars_cons (b : UInt8) (rest : Bytes) :
    chars (b :: rest) = (next b rest).1.getD '\uFFFD' :: chars (next b rest).2 := by
  rw [chars, scan, List.map_cons]
  rfl

theorem chars_ne_nil (some : data ≠ []) : chars data ≠ [] := by
  obtain ⟨b, rest, rfl⟩ := List.exists_cons_of_ne_nil some
  rw [chars_cons]
  exact List.cons_ne_nil _ _

/-- If a text ends in a small character, the bytes end in its own byte. -/
theorem getLast?_of_chars (own : IsOwn a) (last : (chars data).getLast? = some (latin a)) :
    data.getLast? = some a := by
  have ascii : a < 0x80 := UInt8.lt_iff_toNat_lt.2 (Nat.lt_trans own.2 (by decide))
  by_cases among : a ∈ data
  · obtain ⟨before, after, rfl, noMore⟩ := Text.exists_last_cut among
    by_cases nothing : after = []
    · rw [nothing, List.getLast?_concat]
    · -- something follows, in which the character cannot be
      rw [chars_append_ascii ascii, List.getLast?_append, List.getLast?_cons_of_ne_nil (chars_ne_nil nothing)] at last
      obtain ⟨c, ends⟩ := Option.ne_none_iff_exists'.1 (mt List.getLast?_eq_none_iff.1 (chars_ne_nil nothing))
      rw [ends, Option.some_or] at last
      obtain rfl := Option.some.inj last
      exact absurd (List.mem_of_getLast? ends) (latin_not_mem_chars own noMore)
  · exact absurd (List.mem_of_getLast? last) (latin_not_mem_chars own among)

/-- A text of small characters is made of their own bytes. -/
theorem ascii_of_chars (small : ∀ c ∈ chars data, ∃ a, IsOwn a ∧ c = latin a) : ∀ b ∈ data, b < 0x80 := by
  induction len : data.length using Nat.strongRecOn generalizing data with
  | ind len ih =>
    cases data with
    | nil => exact List.forall_mem_nil _
    | cons b rest =>
      rw [chars_cons] at small
      obtain ⟨⟨a, own, is⟩, later⟩ := List.forall_mem_cons.1 small
      have same : b = a := by
        apply Decidable.byContradiction
        intro other
        cases found : (next b rest).1 with
        | none =>
          rw [found] at is
          exact latin_ne_unsound own is.symm
        | some c =>
          rw [found] at is
          exact next_ne_latin own other rest (found.trans (congrArg some is))
      have ascii : b < 0x80 := by
        rw [same, UInt8.lt_iff_toNat_lt]
        exact Nat.lt_trans own.2 (by decide)
      have behind : (next b rest).2 = rest := by simp only [next, ascii, ↓reduceIte]
      rw [behind] at later
      rw [List.forall_mem_cons]
      exact ⟨ascii, ih rest.length (by rw [← len, List.length_cons]; omega) later rfl⟩

end Utf8

namespace Text.Decimal

theorem bounds_of_isNumeral {c : Char} (h : isNumeral c = true) : 0 < c.toNat ∧ c.toNat < 64 := by
  simp only [isNumeral, Bool.or_eq_true, decide_eq_true_eq, or_assoc] at h
  rcases h with rfl | rfl | digit
  · decide
  · decide
  · obtain ⟨d, found⟩ := Option.isSome_iff_exists.1 digit
    obtain ⟨read, small⟩ := Option.filter_eq_some_iff.1 found
    have below : d < 10 := of_decide_eq_true small
    have value {lo hi : Char} (within : lo ≤ c ∧ c ≤ hi) : lo.toNat ≤ c.toNat ∧ c.toNat ≤ hi.toNat :=
      ⟨UInt32.le_iff_toNat_le.1 within.1, UInt32.le_iff_toNat_le.1 within.2⟩
    unfold digit? at read
    split at read
    · next within =>
      have := value within
      exact ⟨Nat.lt_of_lt_of_le (by decide) this.1, Nat.lt_of_le_of_lt this.2 (by decide)⟩
    · -- the other digits are too great
      split at read
      · next within =>
        have least : 97 ≤ c.toNat := (value within).1
        have := Option.some.inj read
        omega
      · split at read
        · next within =>
          have least : 65 ≤ c.toNat := (value within).1
          have := Option.some.inj read
          omega
        · cases read

/-- Numerals are small characters. -/
theorem exists_own_of_isNumeral {c : Char} (h : isNumeral c = true) :
    ∃ a, Utf8.IsOwn a ∧ c = Utf8.latin a := by
  obtain ⟨pos, small⟩ := bounds_of_isNumeral h
  have same : (UInt8.ofNat c.toNat).toNat = c.toNat := UInt8.toNat_ofNat_of_lt' (Nat.lt_trans small (by decide))
  refine ⟨UInt8.ofNat c.toNat, by rwa [Utf8.IsOwn, same, and_iff_right pos], ?_⟩
  rw [← Char.toNat_inj, Utf8.toNat_latin, same]

end Text.Decimal

namespace RecordHeader

open Text

variable {data : Bytes}

/-- The length that a line gives, if it is a header line and gives one. -/
def lengthIn (line : String) : Option Int := (parse? line).bind (·.1.length.value)

theorem toList_lossy (data : Bytes) : (Utf8.decodeLossy data).toList = Utf8.chars data := String.toList_ofList

theorem count_space_textOf (data : Bytes) : (textOf data).toList.count ' ' = data.count 0x20 := by
  rw [textOf]
  cases decoded : Utf8.decode? data with
  | some text => rw [Option.getD_some, Utf8.toList_of_decode? decoded, Utf8.count_space_chars]
  | none =>
    rw [Option.getD_none, Utf8.toList_latin1]
    exact Utf8.count_latin 0x20 data

theorem length_parts (line : String) : (parts line).length = line.toList.count ' ' + 1 := by
  rw [parts, List.length_map, length_pieces]

/-- There are as many fields in a line as its bytes have spaces, however its text is made out. -/
theorem length_parts_textOf (data : Bytes) : (parts (textOf data)).length = data.count 0x20 + 1 := by
  rw [length_parts, count_space_textOf]

theorem length_parts_lossy (data : Bytes) : (parts (Utf8.decodeLossy data)).length = data.count 0x20 + 1 := by
  rw [length_parts, toList_lossy, Utf8.count_space_chars]

theorem lengthOf_chars (data : Bytes) : lengthOf (Utf8.chars data) = lengthOf (data.map Utf8.latin) := by
  by_cases ascii : ∀ b ∈ data, b < 0x80
  · rw [Utf8.chars_of_ascii ascii]
  · -- a length is ASCII, so that neither text is one
    have lossy : lengthOf (Utf8.chars data) = none := by
      cases found : lengthOf (Utf8.chars data) with
      | none => rfl
      | some n =>
        obtain ⟨-, numeral⟩ := isNumeral_of_lengthOf found
        exact absurd (Utf8.ascii_of_chars fun c among => Decimal.exists_own_of_isNumeral (numeral c among)) ascii
    have latin : lengthOf (data.map Utf8.latin) = none := by
      cases found : lengthOf (data.map Utf8.latin) with
      | none => rfl
      | some n =>
        obtain ⟨-, numeral⟩ := isNumeral_of_lengthOf found
        refine absurd ?_ ascii
        intro b among
        have := Decimal.lt_of_isNumeral (numeral _ (List.mem_map_of_mem among))
        rwa [Utf8.toNat_latin] at this
    rw [lossy, latin]

/-- The length is what stands behind the last space of a line of five or ten fields. -/
theorem lengthIn_eq {line : String} {before after : List Char} (cut : line.toList = before ++ ' ' :: after)
    (none : ' ' ∉ after) :
    lengthIn line = if (parts line).length = 5 ∨ (parts line).length = 10 then lengthOf after else .none := by
  rw [lengthIn]
  cases parsed : parse? line with
  | none =>
    have other := mt isSome_parse?.2 (by rw [parsed]; simp)
    rw [if_neg other]
    rfl
  | some found =>
    have isLine := isSome_parse?.1 (by rw [parsed]; rfl)
    rw [if_pos isLine]
    exact value_of_parse? cut none parsed

theorem lengthIn_none {line : String} (spaces : line.toList.count ' ' = 0) : lengthIn line = none := by
  cases parsed : parse? line with
  | none => rw [lengthIn, parsed]; rfl
  | some found => exact absurd (space_mem_of_parse? parsed) (List.count_eq_zero.1 spaces)

/-- A line that is not UTF-8 says the same of its length, however its text is made out. -/
theorem lengthIn_lossy (data : Bytes) : lengthIn (Utf8.decodeLossy data) = lengthIn (textOf data) := by
  cases decoded : Utf8.decode? data with
  | some text =>
    have same : Utf8.decodeLossy data = text := by
      rw [← String.toList_inj, toList_lossy, Utf8.toList_of_decode? decoded]
    rw [same, textOf, decoded, Option.getD_some]
  | none =>
    have is : textOf data = data.latin1 := by rw [textOf, decoded, Option.getD_none]
    by_cases spaced : 0x20 ∈ data
    · have many : (parts (Utf8.decodeLossy data)).length = (parts data.latin1).length := by
        rw [← is, length_parts_lossy, length_parts_textOf]
      obtain ⟨before, after, rfl, noMore⟩ := exists_last_cut spaced
      have lossy : (Utf8.decodeLossy (before ++ 0x20 :: after)).toList =
          Utf8.chars before ++ ' ' :: Utf8.chars after := by
        rw [toList_lossy, Utf8.chars_append_ascii (by decide)]
        rfl
      have latin : (Bytes.latin1 (before ++ 0x20 :: after)).toList =
          before.map Utf8.latin ++ ' ' :: after.map Utf8.latin := by
        rw [Utf8.toList_latin1, List.map_append]
        rfl
      have none : ' ' ∉ after.map Utf8.latin := by
        rw [← List.count_eq_zero, show ' ' = Utf8.latin 0x20 from rfl, Utf8.count_latin, List.count_eq_zero]
        exact noMore
      have none' : ' ' ∉ Utf8.chars after := Utf8.latin_not_mem_chars (a := 0x20) (by decide) noMore
      rw [is, lengthIn_eq lossy none', lengthIn_eq latin none, many, lengthOf_chars]
    · have zero : data.count 0x20 = 0 := List.count_eq_zero.2 spaced
      rw [lengthIn_none (by rw [toList_lossy, Utf8.count_space_chars, zero]),
        lengthIn_none (by rw [count_space_textOf, zero])]

theorem length_lossy {header : RecordHeader} {errors : List Finding} {n : Int}
    (h : parse? (textOf data) = some (header, errors)) (value : header.length.value = some n) :
    ∃ found errors, parse? (Utf8.decodeLossy data) = some (found, errors) ∧ found.length.value = some n := by
  have same : lengthIn (Utf8.decodeLossy data) = some n := by
    rw [lengthIn_lossy, lengthIn, h]
    exact value
  obtain ⟨⟨found, errors⟩, parsed, is⟩ := Option.bind_eq_some_iff.1 same
  exact ⟨found, errors, parsed, is⟩

end RecordHeader
end ArcFile
