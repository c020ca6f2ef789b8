import ArcFile.Proofs.Record.Line
import ArcFile.Proofs.Supply.Tape
import Mathlib.Data.List.TakeWhile
/-!
The lines of a supply. In whatever pieces a supply gives its bytes, and whatever of them has been pushed back, a line is
cut off what remains in the same way. A carriage return before its line feed belongs to the terminator. So does one at
the very end, where no line feed follows it and the line should be given as it is.
-/
namespace ArcFile

namespace Bytes

variable {body content after after' : Bytes} {line line' : Option Bytes}

/-- `Lined content line after` says that `line` is cut off the front of `content`, and `after` remains. -/
inductive Lined : Bytes → Option Bytes → Bytes → Prop
  | nothing : Lined [] none []
  | feed {body after : Bytes} (noFeed : lineFeed ∉ body) (noReturn : body.getLast? ≠ some carriageReturn) :
      Lined (body ++ lineFeed :: after) (some body) after
  | returnFeed {body after : Bytes} (noFeed : lineFeed ∉ body) :
      Lined (body ++ carriageReturn :: lineFeed :: after) (some body) after
  /-- The last line needs no terminator. -/
  | last {body : Bytes} (there : body ≠ []) (noFeed : lineFeed ∉ body)
      (noReturn : body.getLast? ≠ some carriageReturn) : Lined body (some body) []
  /-- A carriage return is cut off without a line feed. -/
  | lastReturn {body : Bytes} (noFeed : lineFeed ∉ body) : Lined (body ++ [carriageReturn]) (some body) []

theorem not_mem_return (noFeed : lineFeed ∉ body) : lineFeed ∉ body ++ [carriageReturn] := by
  simp only [List.mem_append, List.mem_singleton]
  exact not_or.2 ⟨noFeed, by decide⟩

theorem takeWhile_whole (noFeed : lineFeed ∉ body) : body.takeWhile (· ≠ lineFeed) = body :=
  List.takeWhile_eq_self_iff.2 fun _ among => decide_eq_true fun same => noFeed (same ▸ among)

theorem firstLine_whole (noFeed : lineFeed ∉ body) : firstLine body = dropReturn body := by
  rw [firstLine, takeWhile_whole noFeed]

theorem lineSize_whole (noFeed : lineFeed ∉ body) : lineSize body = body.length := by
  simp only [lineSize, takeWhile_whole noFeed, Nat.lt_irrefl, ↓reduceIte]

/-- What a line feed ends is cut off with it. -/
theorem lined_append (after : Bytes) (noFeed : lineFeed ∉ body) :
    Lined (body ++ lineFeed :: after) (some (dropReturn body)) after := by
  by_cases last : body.getLast? = some carriageReturn
  · obtain ⟨front, rfl⟩ := List.getLast?_eq_some_iff.1 last
    rw [dropReturn_append, List.append_assoc]
    exact .returnFeed fun among => noFeed (List.mem_append_left _ among)
  · rw [dropReturn_of_getLast? last]
    exact .feed noFeed last

/-- The last line is all that remains. -/
theorem lined_whole (there : body ≠ []) (noFeed : lineFeed ∉ body) : Lined body (some (dropReturn body)) [] := by
  by_cases last : body.getLast? = some carriageReturn
  · obtain ⟨front, rfl⟩ := List.getLast?_eq_some_iff.1 last
    rw [dropReturn_append]
    exact .lastReturn fun among => noFeed (List.mem_append_left _ among)
  · rw [dropReturn_of_getLast? last]
    exact .last there noFeed last

theorem lined_firstLine (content : Bytes) (there : content ≠ []) :
    Lined content (some (firstLine content)) (content.drop (lineSize content)) := by
  by_cases hasFeed : lineFeed ∈ content
  · obtain ⟨body, after, rfl, noFeed⟩ := List.eq_append_cons_of_mem hasFeed
    rw [firstLine_append after noFeed, drop_lineSize_append after noFeed]
    exact lined_append after noFeed
  · rw [firstLine_whole hasFeed, lineSize_whole hasFeed, List.drop_length]
    exact lined_whole there hasFeed

/-- A line is cut off in one way only. -/
theorem Lined.eq (h : Lined content line after) :
    line = (if content = [] then none else some (firstLine content)) ∧ after = content.drop (lineSize content) := by
  cases h with
  | nothing => exact ⟨rfl, rfl⟩
  | feed noFeed noReturn =>
    simp [firstLine_append _ noFeed, dropReturn_of_getLast? noReturn, drop_lineSize_append _ noFeed]
  | @returnFeed body _ noFeed =>
    have noFeed := not_mem_return noFeed
    have cut : body ++ carriageReturn :: lineFeed :: after = body ++ [carriageReturn] ++ lineFeed :: after := by simp
    rw [cut]
    simp [- List.append_assoc, firstLine_append _ noFeed, dropReturn_append, drop_lineSize_append _ noFeed]
  | last there noFeed noReturn =>
    simp [there, firstLine_whole noFeed, lineSize_whole noFeed, dropReturn_of_getLast? noReturn]
  | lastReturn noFeed =>
    have noFeed := not_mem_return noFeed
    simp [firstLine_whole noFeed, lineSize_whole noFeed, dropReturn_append]

theorem Lined.unique (h : Lined content line after) (h' : Lined content line' after') : line = line' ∧ after = after' :=
  ⟨h.eq.1.trans h'.eq.1.symm, h.eq.2.trans h'.eq.2.symm⟩

end Bytes

namespace Cursor

variable {σ : Type} [Supply σ] {c : Cursor σ} {rest : Bytes}

/-- Over a supply that does not fault, a line is what is cut off the front of all that remains, and it is all of that
which is handed out. If nothing remains, nothing has changed. -/
theorem readLine_lined (pos : 0 < c.capacity) (yields : Supply.Yields c.supply rest) :
    ∃ line c' rest', readLine c = .ok line c' ∧ Supply.Yields c'.supply rest' ∧
      Bytes.Lined (c.tape rest).rest line (c'.tape rest').rest ∧
      c'.consumed + (c'.tape rest').rest.length = c.consumed + (c.tape rest).rest.length ∧
      (line = none → c'.tape rest' = c.tape rest) := by
  obtain ⟨holds, steady, supply⟩ := yields
  have h : c.Holds holds (c.tape rest).rest := ⟨pos, rest, supply, rfl⟩
  by_cases ended : (c.tape rest).rest = []
  · obtain ⟨c', found, held, moved, -⟩ := readLine_nil steady (ended ▸ h)
    have held : c'.Holds holds ((c.tape rest).rest.drop 0) := by rwa [ended]
    obtain ⟨-, -, rest', supply', same⟩ := shows_forward held moved
    have same : c'.tape rest' = c.tape rest := same
    refine ⟨none, c', rest', found, ⟨holds, steady, supply'⟩, ?_, ?_, fun _ => same⟩
    · rw [same, ended]
      exact .nothing
    · have count : c'.consumed = c.consumed := congrArg Tape.consumed same
      rw [same, count]
  · obtain ⟨c', found, held, moved⟩ := readLine_holds steady ended h
    obtain ⟨-, -, rest', supply', same⟩ := shows_forward held moved
    have after : (c'.tape rest').rest = (c.tape rest).rest.drop (Bytes.lineSize (c.tape rest).rest) := by
      rw [same]
      rfl
    have count : c'.consumed = c.consumed + Bytes.lineSize (c.tape rest).rest := congrArg Tape.consumed same
    refine ⟨_, c', rest', found, ⟨holds, steady, supply'⟩, ?_, ?_, fun none => by cases none⟩
    · rw [after]
      exact Bytes.lined_firstLine _ ended
    · have most := Bytes.lineSize_le (c.tape rest).rest
      rw [after, count, List.length_drop]
      omega

/-- Pieces of two bytes, so that the two bytes of a terminator come in different ones. -/
theorem readLine_lined_pieces :
    let c := create (⟨Bytes.ofString "abc\r\nd", some 2, none, .inputFailed⟩ : Input) 3 4
    0 < c.capacity ∧ Supply.Yields c.supply c.supply.data ∧
      ∃ line c' rest', readLine c = .ok line c' ∧ Supply.Yields c'.supply rest' ∧
        Bytes.Lined (c.tape c.supply.data).rest line (c'.tape rest').rest ∧
        c'.consumed + (c'.tape rest').rest.length = c.consumed + (c.tape c.supply.data).rest.length ∧
        (line = none → c'.tape rest' = c.tape c.supply.data) := by
  intro c
  have pos : 0 < c.capacity := by decide
  have yields : Supply.Yields c.supply c.supply.data :=
    ⟨Input.Holds, Input.steady_holds, rfl, rfl, by decide⟩
  exact ⟨pos, yields, readLine_lined pos yields⟩

/-- A last line that has no line feed loses a carriage return. -/
theorem exists_readLine_shortened :
    ∃ c : Cursor Input, 0 < c.capacity ∧ Supply.Yields c.supply c.supply.data ∧
      (c.tape c.supply.data).rest = Bytes.ofString "ab\r" ∧
      (readLine c).value.toOption = some (some (Bytes.ofString "ab")) ∧ (readLine c).state.consumed = 3 :=
  ⟨create (.ofBytes (Bytes.ofString "ab\r")) 8 8, by decide,
    ⟨Input.Holds, Input.steady_holds, rfl, rfl, by decide⟩, rfl, by decide +kernel, by decide +kernel⟩

end Cursor
end ArcFile
