import ArcFile.Proofs.Text.Encoding
import ArcFile.Supply.Cursor
/-!
Texts that stay within one line. A line that is read holds no line feed, and no way of reading bytes as text makes a line
break of anything else; nor does writing a text make a line feed of anything else. So no text that is taken from
a line, or put together from such, can end the line it is written in.
-/
namespace ArcFile

namespace Text

/-- There is no line break in the text. -/
def IsLine (text : String) : Prop := '\n' ∉ text.toList

instance (text : String) : Decidable (IsLine text) := inferInstanceAs (Decidable (¬ _))

variable {text more : String} {data : Bytes}

theorem isLine_append (h : IsLine text) (h' : IsLine more) : IsLine (text ++ more) := by
  unfold IsLine at *
  rw [String.toList_append, List.mem_append]
  exact not_or.2 ⟨h, h'⟩

theorem isLine_ofList {chars : List Char} (none : '\n' ∉ chars) : IsLine (String.ofList chars) := by
  unfold IsLine
  rwa [String.toList_ofList]

theorem isLine_intercalate {parts : List String} (h : IsLine text) (all : ∀ part ∈ parts, IsLine part) :
    IsLine (text.intercalate parts) := by
  induction parts with
  | nil => exact List.not_mem_nil
  | cons part parts ih =>
    have first := all part List.mem_cons_self
    have rest := ih fun other among => all other (List.mem_cons_of_mem _ among)
    cases parts with
    | nil => simpa using first
    | cons other parts =>
      rw [String.intercalate_cons_cons]
      exact isLine_append (isLine_append first h) rest

theorem isLine_nat (n : Nat) : IsLine (toString n) := by
  apply isLine_ofList
  intro among
  exact absurd (Nat.isDigit_of_mem_toDigits (by decide) (by decide) among) (by decide)

theorem isLine_int (n : Int) : IsLine (toString n) := by
  cases n with
  | ofNat n => exact isLine_nat n
  | negSucc n => exact isLine_append (by decide) (isLine_nat (n + 1))

/-- What stands between separators stands in the text. -/
theorem mem_of_mem_pieces {sep c : Char} {text piece : List Char} (among : piece ∈ pieces sep text) (mem : c ∈ piece) :
    c ∈ text := by
  induction text generalizing piece with
  | nil =>
    obtain rfl := List.mem_singleton.1 among
    exact mem
  | cons d rest ih =>
    unfold pieces at among
    split at among
    · rcases List.mem_cons.1 among with rfl | later
      · cases mem
      · exact List.mem_cons_of_mem _ (ih later mem)
    · split at among
      · obtain rfl := List.mem_singleton.1 among
        exact List.mem_cons.2 (.inl (List.mem_singleton.1 mem))
      · next other parts found =>
        rcases List.mem_cons.1 among with rfl | later
        · rcases List.mem_cons.1 mem with rfl | mem
          · exact List.mem_cons_self
          · exact List.mem_cons_of_mem _ (ih (found ▸ List.mem_cons_self) mem)
        · exact List.mem_cons_of_mem _ (ih (found ▸ List.mem_cons_of_mem _ later) mem)

section Bytes

variable (none : Bytes.lineFeed ∉ data)

include none

theorem isLine_decodeLossy : IsLine (Utf8.decodeLossy data) :=
  isLine_ofList (Utf8.latin_not_mem_chars (by decide) none)

theorem isLine_decode? (decoded : Utf8.decode? data = some text) : IsLine text := by
  unfold IsLine
  rw [Utf8.toList_of_decode? decoded]
  exact Utf8.latin_not_mem_chars (by decide) none

theorem isLine_latin1 : IsLine data.latin1 := by
  apply isLine_ofList
  intro among
  obtain ⟨b, mem, same⟩ := List.mem_map.1 among
  have same : Utf8.latin b = Utf8.latin Bytes.lineFeed := same
  exact none (Utf8.latin_inj same ▸ mem)

end Bytes

end Text

namespace Bytes

theorem ofString_append (text more : String) : ofString (text ++ more) = ofString text ++ ofString more := by
  simp only [ofString, String.toList_append, List.flatMap_append]

/-- In UTF-8 a line feed only stands for a line break. -/
theorem lineFeed_not_mem_ofString {text : String} (h : Text.IsLine text) : lineFeed ∉ ofString text := by
  intro among
  obtain ⟨front, back, cut⟩ := List.append_of_mem among
  have chars := Utf8.toList_of_decode? (Utf8.decode?_ofString text)
  rw [cut, Utf8.chars_append_ascii (by decide)] at chars
  apply h
  rw [chars, List.mem_append]
  exact .inr List.mem_cons_self

theorem mem_of_mem_dropReturn {b : UInt8} {line : Bytes} (among : b ∈ dropReturn line) : b ∈ line := by
  unfold dropReturn at among
  split at among
  · exact List.dropLast_subset _ among
  · exact among

end Bytes

namespace Cursor

variable {σ : Type} [Supply σ] {c c' : Cursor σ}

theorem lineFeed_not_mem_takeLine {taken : Option Bytes} {line : Bytes} (none : Bytes.lineFeed ∉ taken.getD [])
    (found : takeLine taken c = .ok (some line) c') : Bytes.lineFeed ∉ line := by
  have upTo (data : Bytes) : Bytes.lineFeed ∉ data.takeWhile (· ≠ Bytes.lineFeed) := by
    intro among
    have all := List.all_eq_true.1 (List.all_takeWhile (p := fun b => decide (b ≠ Bytes.lineFeed)) (l := data)) _ among
    exact of_decide_eq_true all rfl
  fun_induction takeLine taken c with
  | case1 => cases found
  | case2 =>
    cases found
    exact none
  | case3 taken c b more _ _ _ taken' =>
    obtain ⟨is, -⟩ := EStateM.Result.ok.inj found
    obtain rfl := Option.some.inj is
    rw [List.mem_append, List.mem_reverse]
    exact not_or.2 ⟨upTo _, none⟩
  | case4 taken c b more _ _ _ taken' _ _ ih =>
    refine ih ?_ found
    change _ ∉ _ ++ _
    rw [List.mem_append, List.mem_reverse]
    exact not_or.2 ⟨upTo _, none⟩

/-- A line holds no line feed. -/
theorem lineFeed_not_mem_readLine {line : Bytes} (found : readLine c = .ok (some line) c') : Bytes.lineFeed ∉ line := by
  unfold readLine at found
  split at found
  · next taken c'' read =>
    obtain ⟨is, -⟩ := EStateM.Result.ok.inj found
    obtain ⟨line', rfl, rfl⟩ := Option.map_eq_some_iff.1 is
    have unbroken : Bytes.lineFeed ∉ line' := lineFeed_not_mem_takeLine List.not_mem_nil read
    intro among
    exact unbroken (List.mem_reverse.1 (Bytes.mem_of_mem_dropReturn among))
  · cases found

end Cursor
end ArcFile
