import ArcFile.Proofs.Supply.Steady
import ArcFile.Supply.Cursor
/-!
What a cursor over a steady supply still gives: the bytes pushed back, those read ahead, and then those of
the supply. Every operation on the cursor is described by what it does to these bytes and to the
count of bytes handed out, so that read-ahead and pushback do not show.
-/
namespace ArcFile

namespace Bytes

/-- The bytes up to the first line feed, or all there are, less a carriage return at their end. -/
def firstLine (data : Bytes) : Bytes := dropReturn (data.takeWhile (· ≠ lineFeed))

/-- The number of bytes through the first line feed, or of all there are. -/
def lineSize (data : Bytes) : Nat :=
  let line := data.takeWhile (· ≠ lineFeed)
  if line.length < data.length then line.length + 1 else line.length

theorem lineSize_le (data : Bytes) : lineSize data ≤ data.length := by
  have begins : data.takeWhile (· ≠ lineFeed) <+: data := List.takeWhile_prefix _
  have := begins.length_le
  simp only [lineSize]
  split <;> omega

theorem lineSize_pos {data : Bytes} (some : data ≠ []) : 0 < lineSize data := by
  have : 0 < data.length := List.length_pos_iff.2 some
  simp only [lineSize]
  split <;> omega

/-- Behind the first line there is less. -/
theorem length_drop_lineSize_lt {data : Bytes} (some : data ≠ []) :
    (data.drop (lineSize data)).length < data.length := by
  have := lineSize_pos some
  have := List.length_pos_iff.2 some
  rw [List.length_drop]
  omega

/-- If there is a line feed in the first piece, the line ends there. -/
theorem lineSize_of_lt {piece : Bytes} (rest : Bytes)
    (shorter : (piece.takeWhile (· ≠ lineFeed)).length < piece.length) :
    (piece ++ rest).takeWhile (· ≠ lineFeed) = piece.takeWhile (· ≠ lineFeed) ∧
      lineSize (piece ++ rest) = (piece.takeWhile (· ≠ lineFeed)).length + 1 := by
  have same : (piece ++ rest).takeWhile (· ≠ lineFeed) = piece.takeWhile (· ≠ lineFeed) := by
    rw [List.takeWhile_append, if_neg (by omega)]
  refine ⟨same, ?_⟩
  simp only [lineSize, same, List.length_append]
  rw [if_pos (by omega)]

/-- If there is none, it goes on with what follows. -/
theorem lineSize_of_not_lt {piece : Bytes} (rest : Bytes)
    (whole : ¬ (piece.takeWhile (· ≠ lineFeed)).length < piece.length) :
    piece.takeWhile (· ≠ lineFeed) = piece ∧
      (piece ++ rest).takeWhile (· ≠ lineFeed) = piece ++ rest.takeWhile (· ≠ lineFeed) ∧
      lineSize (piece ++ rest) = piece.length + lineSize rest := by
  have sub : piece.takeWhile (· ≠ lineFeed) <+: piece := List.takeWhile_prefix _
  have all : piece.takeWhile (· ≠ lineFeed) = piece := sub.eq_of_length (by have := sub.length_le; omega)
  have goes : (piece ++ rest).takeWhile (· ≠ lineFeed) = piece ++ rest.takeWhile (· ≠ lineFeed) := by
    rw [List.takeWhile_append, if_pos (by rw [all])]
  refine ⟨all, goes, ?_⟩
  simp only [lineSize, goes, List.length_append]
  split <;> split <;> omega

end Bytes

namespace Cursor

variable {σ : Type}

/-- The bytes that have been read ahead or pushed back and come next. -/
def atHand (c : Cursor σ) : Bytes := if c.pushback.bytes.isEmpty then c.buffer else c.pushback.bytes

/-- The cursor still gives `data`. -/
structure Holds (holds : σ → Bytes → Prop) (c : Cursor σ) (data : Bytes) : Prop where
  capacity : 0 < c.capacity
  supply : ∃ rest, holds c.supply rest ∧ data = c.pushback.bytes ++ c.buffer ++ rest

/-- `c'` is `n` bytes further than `c`. -/
structure Moved (n : Nat) (c c' : Cursor σ) : Prop where
  consumed : c'.consumed = c.consumed + n
  capacity : c'.capacity = c.capacity
  size : c'.pushbackSize = c.pushbackSize

/-- `c'` is `n` bytes further than `c`, and nothing has been pushed back in between. -/
structure Forward (n : Nat) (c c' : Cursor σ) : Prop extends Moved n c c' where
  counter : c'.counter = c.counter + n
  held : c'.pushback.bytes.length = c.pushback.bytes.length - n

theorem Moved.refl (c : Cursor σ) : Moved 0 c c := ⟨rfl, rfl, rfl⟩

theorem Moved.trans {n m : Nat} {c c' c'' : Cursor σ} (h : Moved n c c') (h' : Moved m c' c'') :
    Moved (n + m) c c'' :=
  ⟨by rw [h'.consumed, h.consumed, Nat.add_assoc], h'.capacity.trans h.capacity, h'.size.trans h.size⟩

theorem Forward.refl (c : Cursor σ) : Forward 0 c c := ⟨.refl c, rfl, rfl⟩

theorem Forward.trans {n m : Nat} {c c' c'' : Cursor σ} (h : Forward n c c') (h' : Forward m c' c'') :
    Forward (n + m) c c'' :=
  ⟨h.toMoved.trans h'.toMoved, by rw [h'.counter, h.counter, Nat.add_assoc], by
    have := h.held
    have := h'.held
    omega⟩

/-- What has been read from a cursor can be pushed back if it is not larger than the pushback. -/
theorem Forward.room {n : Nat} {c c' : Cursor σ} (h : Forward n c c') (fits : n ≤ c.pushbackSize) :
    n + c'.pushback.bytes.length ≤ c'.pushback.size := by
  have := h.held
  have := h.size
  have := c.pushback.fits
  unfold pushbackSize at *
  omega

variable {holds : σ → Bytes → Prop} {c : Cursor σ} {data : Bytes}

theorem holds_create {supply : σ} {capacity pushback : Nat} (pos : 0 < capacity)
    (held : holds supply data) : (create supply capacity pushback).Holds holds data :=
  ⟨pos, data, held, rfl⟩

theorem Holds.atHand_append (h : c.Holds holds data) : ∃ rest, data = c.atHand ++ rest := by
  obtain ⟨rest, -, rfl⟩ := h.supply
  unfold atHand
  split
  · next none =>
    rw [List.isEmpty_iff.1 none]
    exact ⟨rest, rfl⟩
  · exact ⟨c.buffer ++ rest, List.append_assoc _ _ _⟩

theorem advance_holds {n : Nat} (h : c.Holds holds data) (most : n ≤ c.atHand.length) :
    (c.advance n).Holds holds (data.drop n) ∧ Forward n c (c.advance n) := by
  obtain ⟨rest, held, rfl⟩ := h.supply
  unfold atHand at most
  unfold advance
  split at most
  · next none =>
    rw [if_pos none]
    have none := List.isEmpty_iff.1 none
    refine ⟨⟨h.capacity, rest, held, ?_⟩, ⟨rfl, rfl, rfl⟩, rfl, by simp [none]⟩
    simp [none, List.drop_append_of_le_length most]
  · next some =>
    rw [if_neg some]
    refine ⟨⟨h.capacity, rest, held, ?_⟩, ⟨rfl, rfl, rfl⟩, rfl, by simp [Pushback.drop]⟩
    simp [Pushback.drop, List.drop_append_of_le_length most]

/-- What is left at hand is what follows. -/
theorem atHand_advance {n : Nat} (fewer : n < c.atHand.length) : (c.advance n).atHand = c.atHand.drop n := by
  by_cases none : c.pushback.bytes.isEmpty
  · simp only [atHand, advance, if_pos none]
  · simp only [atHand, if_neg none] at fewer
    have some : ¬ (c.pushback.drop n).bytes.isEmpty := by
      simp only [Pushback.drop, List.isEmpty_iff, List.drop_eq_nil_iff]
      omega
    simp only [atHand, advance, if_neg none, if_neg some]
    rfl

/-- What was read from `c` up to `c'` comes again if it is pushed back. -/
theorem unread_holds {c' : Cursor σ} (taken : Bytes) {rest : Bytes} (h : c'.Holds holds rest)
    (moved : Forward taken.length c c') (fits : taken.length ≤ c.pushbackSize) :
    ∃ c'', unread taken c' = .ok () c'' ∧ c''.Holds holds (taken ++ rest) ∧ Moved 0 c c'' := by
  obtain ⟨more, held, rfl⟩ := h.supply
  have room := moved.room fits
  have pushed : unread taken c' = .ok () { c' with
      pushback := ⟨c'.pushback.size, taken ++ c'.pushback.bytes, by simpa using room⟩
      consumed := c'.consumed - taken.length
      counter := c'.counter - taken.length } := by
    simp only [unread, Pushback.push?, dif_pos room]
  refine ⟨_, pushed, ⟨h.capacity, more, held, by simp⟩, ⟨?_, moved.capacity, moved.size⟩⟩
  simp [moved.consumed]

variable [Supply σ] (steady : Supply.Steady holds)

include steady

theorem fill_holds (h : c.Holds holds data) :
    ∃ c', fill c = .ok c'.atHand c' ∧ c'.Holds holds data ∧ Forward 0 c c' ∧
      (c'.atHand = [] → data = [] ∧ Supply.Spent holds c'.supply) := by
  unfold fill
  split
  · next held =>
    simp only [Bool.not_eq_true', List.isEmpty_eq_false_iff] at held
    have same : c.atHand = c.pushback.bytes := by simp [atHand, held]
    refine ⟨c, by rw [same], h, .refl c, ?_⟩
    intro none
    exact absurd (same ▸ none) held
  · next none =>
    simp only [Bool.not_eq_true', Bool.not_eq_false, List.isEmpty_iff] at none
    have same : c.atHand = c.buffer := by simp [atHand, none]
    split
    · next ahead =>
      simp only [Bool.not_eq_true', List.isEmpty_eq_false_iff] at ahead
      refine ⟨c, by rw [same], h, .refl c, ?_⟩
      intro dry
      exact absurd (same ▸ dry) ahead
    · next dry =>
      simp only [Bool.not_eq_true', Bool.not_eq_false, List.isEmpty_iff] at dry
      rw [if_neg (Nat.pos_iff_ne_zero.1 h.capacity)]
      obtain ⟨all, held, rfl⟩ := h.supply
      obtain ⟨got, rest, s', found, rfl, only, after⟩ := steady.read c.capacity held
      rw [found]
      refine ⟨{ c with buffer := got, supply := s' }, by simp [atHand, none],
        ⟨h.capacity, rest, after, by simp [none, dry]⟩, ⟨⟨rfl, rfl, rfl⟩, rfl, rfl⟩, ?_⟩
      intro empty
      have empty : got = [] := by simpa [atHand, none] using empty
      have ended := (only empty).resolve_left (Nat.pos_iff_ne_zero.1 h.capacity)
      subst empty ended
      exact ⟨by simp [none, dry], c.supply, c.capacity, Nat.pos_iff_ne_zero.1 h.capacity, held, found⟩

theorem read_holds (n : Nat) (h : c.Holds holds data) :
    ∃ got rest c', read n c = .ok got c' ∧ data = got ++ rest ∧ (got = [] → n = 0 ∨ rest = []) ∧
      c'.Holds holds rest ∧ Forward got.length c c' := by
  unfold read
  split
  · next direct =>
    obtain ⟨none, dry, large⟩ := direct
    have none := List.isEmpty_iff.1 none
    have dry := List.isEmpty_iff.1 dry
    obtain ⟨all, held, rfl⟩ := h.supply
    obtain ⟨got, rest, s', found, rfl, only, after⟩ := steady.read n held
    rw [found]
    exact ⟨got, rest, _, rfl, by simp [none, dry], only, ⟨h.capacity, rest, after, by simp [none, dry]⟩,
      ⟨rfl, rfl, rfl⟩, rfl, by simp [none]⟩
  · obtain ⟨c', found, held, moved, empty⟩ := fill_holds steady h
    rw [found]
    obtain ⟨after, further⟩ := advance_holds held (n := (c'.atHand.take n).length)
      (by rw [List.length_take]; omega)
    obtain ⟨rest, rfl⟩ := held.atHand_append
    refine ⟨c'.atHand.take n, c'.atHand.drop n ++ rest, _, rfl, ?_, ?_, ?_, by simpa using moved.trans further⟩
    · rw [← List.append_assoc, List.take_append_drop]
    · intro nothing
      rcases List.take_eq_nil_iff.1 nothing with zero | none
      · exact .inl zero
      · have ended := (empty none).1
        simp only [none, List.nil_append] at ended
        simp [none, ended]
    · have : (c'.atHand ++ rest).drop (c'.atHand.take n).length = c'.atHand.drop n ++ rest := by
        rw [List.length_take, List.drop_append_of_le_length (Nat.min_le_right _ _)]
        congr 1
        rcases Nat.le_total n c'.atHand.length with le | le
        · rw [Nat.min_eq_left le]
        · rw [Nat.min_eq_right le, List.drop_length, List.drop_eq_nil_of_le le]
      rwa [this] at after

theorem steady_holds : Supply.Steady (Holds holds) where
  read n h := by
    obtain ⟨got, rest, c', found, cut, only, after, -⟩ := read_holds steady n h
    exact ⟨got, rest, c', found, cut, only, after⟩

/-- No cursor gives more than it has left. -/
theorem length_le_left (h : c.Holds holds data) : data.length ≤ c.left :=
  (steady_holds steady).length_le_bound h

theorem readByte_nil (h : c.Holds holds []) :
    ∃ c', readByte c = .ok none c' ∧ c'.Holds holds [] ∧ Forward 0 c c' ∧
      Supply.Spent holds c'.supply := by
  obtain ⟨c', found, held, moved, empty⟩ := fill_holds steady h
  obtain ⟨rest, none⟩ := held.atHand_append
  have none : c'.atHand = [] := (List.append_eq_nil_iff.1 none.symm).1
  rw [none] at found
  exact ⟨c', by simp only [readByte, found], held, moved, (empty none).2⟩

theorem readByte_cons {b : UInt8} (h : c.Holds holds (b :: data)) :
    ∃ c', readByte c = .ok (some b) c' ∧ c'.Holds holds data ∧ Forward 1 c c' := by
  obtain ⟨c', found, held, moved, empty⟩ := fill_holds steady h
  obtain ⟨rest, cut⟩ := held.atHand_append
  cases hand : c'.atHand with
  | nil => exact absurd (empty hand).1 (List.cons_ne_nil _ _)
  | cons b' more =>
    simp only [hand, List.cons_append, List.cons.injEq] at cut
    obtain ⟨rfl, -⟩ := cut
    rw [hand] at found
    obtain ⟨after, further⟩ := advance_holds held (n := 1) (by simp [hand])
    exact ⟨c'.advance 1, by simp only [readByte, found], after, moved.trans further⟩

omit steady in
/-- With bytes at hand, the line ends among them or goes on behind them. -/
theorem takeLine_cons (taken : Option Bytes) {b : UInt8} {more : Bytes} {c' : Cursor σ}
    (found : fill c = .ok (b :: more) c') : takeLine taken c =
      if ((b :: more).takeWhile (· ≠ Bytes.lineFeed)).length < (b :: more).length then
        .ok (some (((b :: more).takeWhile (· ≠ Bytes.lineFeed)).reverse ++ taken.getD []))
          (c'.advance (((b :: more).takeWhile (· ≠ Bytes.lineFeed)).length + 1))
      else takeLine (some (((b :: more).takeWhile (· ≠ Bytes.lineFeed)).reverse ++ taken.getD []))
        (c'.advance (b :: more).length) := by
  rw [takeLine]
  split
  · next other => simp [found] at other
  · next other => simp [found] at other
  · next other =>
    simp only [found, EStateM.Result.ok.injEq, List.cons.injEq] at other
    obtain ⟨⟨rfl, rfl⟩, rfl⟩ := other
    rfl

theorem takeLine_holds (taken : Option Bytes) (h : c.Holds holds data) :
    ∃ c', takeLine taken c = .ok (if data = [] then taken
        else some ((data.takeWhile (· ≠ Bytes.lineFeed)).reverse ++ taken.getD [])) c' ∧
      c'.Holds holds (data.drop (Bytes.lineSize data)) ∧ Forward (Bytes.lineSize data) c c' ∧
      (data = [] → Supply.Spent holds c'.supply) := by
  induction len : data.length using Nat.strongRecOn generalizing c data taken with
  | ind len ih =>
    obtain ⟨c', found, held, moved, empty⟩ := fill_holds steady h
    obtain ⟨rest, rfl⟩ := held.atHand_append
    cases hand : c'.atHand with
    | nil =>
      obtain ⟨none, spent⟩ := empty hand
      simp only [hand, List.nil_append] at none found held ⊢
      subst none
      refine ⟨c', ?_, held, moved, ?_⟩
      · unfold takeLine
        split <;> simp_all
      · intro _
        exact spent
    | cons b more =>
      simp only [hand] at found held len ⊢
      by_cases shorter : ((b :: more).takeWhile (· ≠ Bytes.lineFeed)).length < (b :: more).length
      · obtain ⟨same, size⟩ := Bytes.lineSize_of_lt rest shorter
        obtain ⟨after, further⟩ := advance_holds held
          (n := ((b :: more).takeWhile (· ≠ Bytes.lineFeed)).length + 1) (by rw [hand]; exact shorter)
        rw [same, size]
        refine ⟨_, ?_, after, by simpa using moved.trans further, by simp⟩
        rw [takeLine_cons taken found, if_pos shorter, if_neg (by simp)]
      · obtain ⟨all, goes, size⟩ := Bytes.lineSize_of_not_lt rest shorter
        obtain ⟨after, further⟩ := advance_holds held (n := (b :: more).length)
          (Nat.le_of_eq (by rw [hand]))
        rw [List.drop_left] at after
        obtain ⟨c'', line, ended, onward, -⟩ := ih rest.length (by simp at len; omega)
          (some ((b :: more).reverse ++ taken.getD [])) after rfl
        rw [goes, size, ← List.drop_drop, List.drop_left]
        refine ⟨c'', ?_, ended, by simpa using (moved.trans further).trans onward, by simp⟩
        rw [takeLine_cons taken found, if_neg shorter, all, line]
        by_cases none : rest = []
        · simp [none]
        · simp [none]

theorem readLine_nil (h : c.Holds holds []) :
    ∃ c', readLine c = .ok none c' ∧ c'.Holds holds [] ∧ Forward 0 c c' ∧
      Supply.Spent holds c'.supply := by
  obtain ⟨c', found, held, moved, spent⟩ := takeLine_holds steady none h
  exact ⟨c', by simp [readLine, found], held, moved, spent rfl⟩

theorem readLine_holds (nonempty : data ≠ []) (h : c.Holds holds data) :
    ∃ c', readLine c = .ok (some (Bytes.firstLine data)) c' ∧
      c'.Holds holds (data.drop (Bytes.lineSize data)) ∧ Forward (Bytes.lineSize data) c c' := by
  obtain ⟨c', found, held, moved, -⟩ := takeLine_holds steady none h
  exact ⟨c', by simp [readLine, found, nonempty, Bytes.firstLine], held, moved⟩

theorem readUpTo_holds (n : Nat) (taken : Bytes) (h : c.Holds holds data) :
    ∃ c', readUpTo n taken c = .ok (taken.reverse ++ data.take n) c' ∧ c'.Holds holds (data.drop n) ∧
      Forward (data.take n).length c c' := by
  induction n using Nat.strongRecOn generalizing c data taken with
  | ind n ih =>
    unfold readUpTo
    by_cases zero : n = 0
    · subst zero
      exact ⟨c, by simp, h, .refl c⟩
    · rw [if_neg zero]
      obtain ⟨got, rest, c', found, rfl, only, held, moved⟩ := read_holds steady n h
      have most := (read_ok found).1
      cases got with
      | nil =>
        obtain rfl : rest = [] := (only rfl).resolve_left zero
        refine ⟨c', ?_, by simpa using held, by simpa using moved⟩
        split <;> simp_all
      | cons b more =>
        simp only [List.length_cons] at most
        obtain ⟨c'', all, after, further⟩ := ih (n - (b :: more).length) (by simp; omega)
          ((b :: more).reverse ++ taken) held
        have cut : (b :: more ++ rest).take n = b :: more ++ rest.take (n - (b :: more).length) := by
          rw [List.take_append, List.take_of_length_le (l := b :: more) (by simpa using most)]
        refine ⟨c'', ?_, ?_, ?_⟩
        · split
          · next other => simp [found] at other
          · next other => simp [found] at other
          · next other =>
            simp only [found, EStateM.Result.ok.injEq, List.cons.injEq] at other
            obtain ⟨⟨rfl, rfl⟩, rfl⟩ := other
            rw [all, cut]
            simp
        · have none : (b :: more).drop n = [] := List.drop_eq_nil_of_le (by simpa using most)
          rwa [List.drop_append, none]
        · rw [cut, List.length_append]
          exact moved.trans further

/-- Looking at what comes next leaves it where it is. -/
theorem peek_holds {n : Nat} (fits : n ≤ c.pushbackSize) (h : c.Holds holds data) :
    ∃ c', peek n c = .ok (data.take n) c' ∧ c'.Holds holds data ∧ Moved 0 c c' := by
  obtain ⟨c', found, held, moved⟩ := readUpTo_holds steady n [] h
  have short : (data.take n).length ≤ n := List.length_take_le n data
  obtain ⟨c'', pushed, back, still⟩ := unread_holds _ held moved (Nat.le_trans short fits)
  rw [List.take_append_drop] at back
  refine ⟨c'', ?_, back, still⟩
  simp only [List.reverse_nil, List.nil_append] at found
  by_cases fewer : (data.take n).length < n
  · simp only [peek, readFully, found, fewer, ↓reduceIte, pushed, Nat.ne_of_lt fewer]
  · have whole : (data.take n).length = n := by omega
    simp only [peek, readFully, found, if_neg fewer, pushed, if_pos whole]

theorem skipFrom_holds (skipped n : Nat) (h : c.Holds holds data) :
    ∃ c', skipFrom skipped n c = .ok (skipped + (data.take n).length) c' ∧
      c'.Holds holds (data.drop n) ∧ Forward (data.take n).length c c' ∧
      (data.length < n → Supply.Spent holds c'.supply) := by
  induction len : data.length using Nat.strongRecOn generalizing c data skipped n with
  | ind len ih =>
    unfold skipFrom
    by_cases zero : n = 0
    · subst zero
      exact ⟨c, by simp, h, .refl c, by omega⟩
    · rw [dif_neg zero]
      obtain ⟨c', found, held, moved, empty⟩ := fill_holds steady h
      obtain ⟨rest, rfl⟩ := held.atHand_append
      cases hand : c'.atHand with
      | nil =>
        obtain ⟨none, spent⟩ := empty hand
        simp only [hand, List.nil_append] at none found held ⊢
        subst none
        refine ⟨c', ?_, by simpa using held, by simpa using moved, ?_⟩
        · split <;> simp_all
        · intro _
          exact spent
      | cons b more =>
        simp only [hand] at found held len ⊢
        obtain ⟨after, further⟩ := advance_holds held (n := min n (b :: more).length)
          (by rw [hand]; exact Nat.min_le_right _ _)
        have pos : 0 < min n (b :: more).length := by simp; omega
        obtain ⟨c'', all, ended, onward, spent⟩ := ih
          ((b :: more ++ rest).drop (min n (b :: more).length)).length
          (by rw [List.length_drop, len]; simp at len; omega)
          (skipped + min n (b :: more).length) (n - min n (b :: more).length) after rfl
        have sum : min n (b :: more).length +
            (((b :: more ++ rest).drop (min n (b :: more).length)).take
              (n - min n (b :: more).length)).length = ((b :: more ++ rest).take n).length := by
          simp
          omega
        refine ⟨c'', ?_, ?_, ?_, ?_⟩
        · split
          · next other => simp [found] at other
          · next other => simp [found] at other
          · next other =>
            simp only [found, EStateM.Result.ok.injEq, List.cons.injEq] at other
            obtain ⟨⟨rfl, rfl⟩, rfl⟩ := other
            rw [all, ← sum, Nat.add_assoc]
        · rw [List.drop_drop] at ended
          rwa [Nat.add_sub_cancel' (Nat.min_le_left _ _)] at ended
        · rw [← sum]
          simpa only [Nat.zero_add] using (moved.trans further).trans onward
        · intro past
          apply spent
          rw [List.length_drop, len]
          have := Nat.min_le_right n (b :: more).length
          have := Nat.min_le_left n (b :: more).length
          simp only [List.length_append] at len
          omega

theorem skipAll_holds (h : c.Holds holds data) :
    ∃ c', skipAll c = .ok data.length c' ∧ c'.Holds holds [] ∧ Forward data.length c c' ∧
      Supply.Spent holds c'.supply := by
  have most := length_le_left steady h
  obtain ⟨c', found, held, moved, spent⟩ := skipFrom_holds steady 0 (c.left + 1) h
  rw [List.take_of_length_le (by omega)] at found moved
  rw [List.drop_eq_nil_of_le (by omega)] at held
  exact ⟨c', by simpa [skipAll] using found, held, moved, spent (by omega)⟩

omit steady [Supply σ] in
/-- The cursor has come from `start`, which held `all`, and still gives `rest` of it. -/
def Past (holds : σ → Bytes → Prop) (start : Cursor σ) (all : Bytes) (c : Cursor σ) (rest : Bytes) :
    Prop :=
  ∃ taken, all = taken ++ rest ∧ c.Holds holds rest ∧ Moved taken.length start c

omit steady [Supply σ] in
theorem past_refl (h : c.Holds holds data) : Past holds c data c data := ⟨[], rfl, h, .refl c⟩

theorem steady_past (start : Cursor σ) (all : Bytes) : Supply.Steady (Past holds start all) where
  read := by
    rintro c rest n ⟨taken, rfl, held, moved⟩
    obtain ⟨got, rest, c', found, rfl, only, after, further⟩ := read_holds steady n held
    refine ⟨got, rest, c', found, rfl, only, taken ++ got, by simp, after, ?_⟩
    simpa using moved.trans further.toMoved

end Cursor
end ArcFile
