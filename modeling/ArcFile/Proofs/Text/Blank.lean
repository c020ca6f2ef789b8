import ArcFile.Proofs.Text.Ascii
import ArcFile.Text.Blank
import Mathlib.Data.List.DropRight
/-!
Texts without the blanks at their ends. Two such texts are joined by one space, and an empty one leaves the other as it
is. Joining is associative, so that texts can be put together in any order. What is done with texts is also done with
the bytes that they have in ISO-8859-1.
-/
namespace ArcFile

namespace Text

variable {text more blanks : List Char}

/-- Two texts with a space between them, if there is something on both sides. -/
def joined (text more : List Char) : List Char :=
  if more = [] then text else if text = [] then more else text ++ ' ' :: more

/-- What is written behind a text to go on with another. -/
def spaced (more : List Char) : List Char := if more = [] then [] else ' ' :: more

@[simp]
theorem joined_nil (text : List Char) : joined text [] = text := rfl

@[simp]
theorem nil_joined (more : List Char) : joined [] more = more := by
  unfold joined
  split
  · next none => exact none.symm
  · rfl

theorem joined_assoc (text more last : List Char) : joined (joined text more) last = joined text (joined more last) := by
  by_cases noText : text = []
  · simp [noText]
  · by_cases noMore : more = []
    · simp [noMore]
    · by_cases noLast : last = []
      · simp [noLast]
      · simp [joined, noText, noMore, noLast]

theorem rdropWhile_append (p : Char → Bool) (text more : List Char) : (text ++ more).rdropWhile p =
    if more.rdropWhile p = [] then text.rdropWhile p else text ++ more.rdropWhile p := by
  unfold List.rdropWhile
  rw [List.reverse_append, List.dropWhile_append]
  by_cases none : more.reverse.dropWhile p = []
  · simp [none]
  · simp [none]

theorem trim_eq (text : List Char) : trim text = (text.dropWhile isBlank).rdropWhile isBlank := rfl

/-- Blanks at the end make no difference. -/
theorem trim_append_blanks (text : List Char) (blank : ∀ c ∈ blanks, isBlank c = true) :
    trim (text ++ blanks) = trim text := by
  rw [trim_eq, trim_eq, List.dropWhile_append]
  by_cases none : text.dropWhile isBlank = []
  · simp [none, List.dropWhile_eq_nil_iff.2 blank]
  · have gone : blanks.rdropWhile isBlank = [] := List.rdropWhile_eq_nil_iff.2 blank
    simp [none, rdropWhile_append, gone]

theorem dropWhile_of_start {p : Char → Bool} (whole : text.dropWhile p = text) (start : more <+: text) :
    more.dropWhile p = more := by
  rw [List.dropWhile_eq_self_iff] at whole ⊢
  obtain ⟨rest, rfl⟩ := start
  intro some
  have first := whole (by rw [List.length_append]; omega)
  rwa [List.getElem_append_left some] at first

theorem rdropWhile_of_stop {p : Char → Bool} (whole : text.rdropWhile p = text) (stop : more <:+ text) :
    more.rdropWhile p = more := by
  have reversed : text.reverse.dropWhile p = text.reverse := List.reverse_eq_iff.1 whole
  exact List.reverse_eq_iff.2 (dropWhile_of_start reversed (List.reverse_prefix.2 stop))

/-- The text neither begins nor ends with a blank. -/
structure IsTrimmed (text : List Char) : Prop where
  start : text.dropWhile isBlank = text
  stop : text.rdropWhile isBlank = text

theorem isTrimmed_trim (text : List Char) : IsTrimmed (trim text) where
  start := dropWhile_of_start (List.dropWhile_idempotent isBlank text) (List.rdropWhile_prefix isBlank _)
  stop := List.rdropWhile_idempotent isBlank (text.dropWhile isBlank)

theorem rdropWhile_spaced (trimmed : IsTrimmed more) : (spaced more).rdropWhile isBlank = spaced more := by
  by_cases none : more = []
  · simp [spaced, none]
  · have cut : ' ' :: more = [' '] ++ more := rfl
    rw [spaced, if_neg none, cut, rdropWhile_append, trimmed.stop, if_neg none]

/-- What goes on with a text that does not end with a blank does not end with one either. -/
theorem rdropWhile_append_spaced (stop : text.rdropWhile isBlank = text) (trimmed : IsTrimmed more) :
    (text ++ spaced more).rdropWhile isBlank = text ++ spaced more := by
  rw [rdropWhile_append, rdropWhile_spaced trimmed]
  split
  · next none => rw [none, List.append_nil, stop]
  · rfl

theorem trim_append_spaced (stop : text.rdropWhile isBlank = text) (trimmed : IsTrimmed more) :
    trim (text ++ spaced more) = joined (trim text) more := by
  have kept : trim text = text.dropWhile isBlank := rdropWhile_of_stop stop (List.dropWhile_suffix isBlank)
  by_cases noMore : more = []
  · simp [spaced, noMore]
  · rw [kept, trim_eq, List.dropWhile_append]
    by_cases blank : text.dropWhile isBlank = []
    · have space : (' ' :: more).dropWhile isBlank = more := by
        rw [List.dropWhile_cons_of_pos (by decide), trimmed.start]
      simp [spaced, noMore, blank, space, trimmed.stop]
    · have stays := rdropWhile_append_spaced (kept ▸ (isTrimmed_trim text).stop) trimmed
      rw [spaced, if_neg noMore] at stays ⊢
      simpa [joined, noMore, blank] using stays

end Text

namespace Bytes

/-- The byte is a blank in ISO-8859-1. -/
def isBlank (b : UInt8) : Bool := Text.isBlank (Utf8.latin b)

/-- The line without the blanks at its end. -/
def trimEnd (line : Bytes) : Bytes := line.rdropWhile isBlank

/-- The line without the blanks at both ends. -/
def trim (line : Bytes) : Bytes := trimEnd (line.dropWhile isBlank)

/-- The text with a space before it, if there is any. -/
def spaced (text : Bytes) : Bytes := if text = [] then [] else 0x20 :: text

theorem map_trimEnd (line : Bytes) : (trimEnd line).map Utf8.latin = (line.map Utf8.latin).rdropWhile Text.isBlank := by
  unfold trimEnd List.rdropWhile
  rw [← List.map_reverse, List.dropWhile_map, List.map_reverse]
  rfl

theorem map_trim (line : Bytes) : (trim line).map Utf8.latin = Text.trim (line.map Utf8.latin) := by
  rw [trim, map_trimEnd, Text.trim_eq, List.dropWhile_map]
  rfl

theorem map_spaced (text : Bytes) : (spaced text).map Utf8.latin = Text.spaced (text.map Utf8.latin) := by
  by_cases none : text = []
  · simp [spaced, Text.spaced, none]
  · have space : Utf8.latin 0x20 = ' ' := rfl
    simp [spaced, Text.spaced, none, space]

theorem mem_trimEnd {b : UInt8} {line : Bytes} (among : b ∈ line) (solid : isBlank b = false) : b ∈ trimEnd line := by
  have cut : trimEnd line ++ line.rtakeWhile isBlank = line := List.rdropWhile_append_rtakeWhile
  rw [← cut] at among
  rcases List.mem_append.1 among with kept | gone
  · exact kept
  · have blank := List.mem_rtakeWhile_imp gone
    rw [solid] at blank
    cases blank

/-- A line and the lines that go on with it, put on one line. -/
def oneLine (first : Bytes) (folds : List Bytes) : Bytes := trimEnd first ++ folds.flatMap fun fold => spaced (trim fold)

theorem mem_of_mem_oneLine {b : UInt8} {first : Bytes} {folds : List Bytes} (among : b ∈ oneLine first folds) :
    b ∈ first ∨ b = 0x20 ∨ ∃ fold ∈ folds, b ∈ fold := by
  rcases List.mem_append.1 among with early | late
  · exact .inl ((List.rdropWhile_prefix isBlank first).subset early)
  · obtain ⟨fold, isFold, within⟩ := List.mem_flatMap.1 late
    unfold spaced at within
    split at within
    · cases within
    · rcases List.mem_cons.1 within with space | text
      · exact .inr (.inl space)
      · have kept := (List.rdropWhile_prefix isBlank (fold.dropWhile isBlank)).subset text
        exact .inr (.inr ⟨fold, isFold, (List.dropWhile_suffix isBlank).subset kept⟩)

theorem map_oneLine (first : Bytes) (folds : List Bytes) : (oneLine first folds).map Utf8.latin =
    (first.map Utf8.latin).rdropWhile Text.isBlank ++
      (folds.map (List.map Utf8.latin)).flatMap fun fold => Text.spaced (Text.trim fold) := by
  rw [oneLine, List.map_append, map_trimEnd, List.map_flatMap, List.flatMap_map]
  simp only [map_spaced, map_trim]

end Bytes

end ArcFile
