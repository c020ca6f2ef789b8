import ArcFile.Proofs.Supply.View
/-!
A cursor is a tape. Whatever is asked of it, in any order, it does to the bytes that it still gives what the
same call does to a plain list of bytes: the spread of these bytes over pushback, read-ahead and supply
does not show, and neither do the sizes of the pieces in which the supply gives them.

* `Tape.Step` says what each call may do to a tape. It leaves open only how much one `read` or `fill` gives;
* `call_steps` shows that a cursor over a steady supply takes such a step, and `calls_run` that any number of
  calls is a run of them.
-/
namespace ArcFile

namespace Outcome

variable {σ α β : Type}

/-- What an action gave, apart from the state it left. -/
def value : Outcome σ α → Except Fault α
  | .ok a _ => .ok a
  | .error fault _ => .error fault

def map (f : α → β) : Outcome σ α → Outcome σ β
  | .ok a s => .ok (f a) s
  | .error fault s => .error fault s

end Outcome

namespace Cursor

/-- What can be asked of a cursor. -/
inductive Call
  | read (n : Nat)
  | readByte
  /-- Shows the bytes at hand, and hands out up to `n` of them. -/
  | fill (n : Nat)
  | readLine
  | skip (n : Nat)
  | readFully (n : Nat)
  | peek (n : Nat)
  | unread (data : Bytes)
  deriving Repr, DecidableEq

/-- What a cursor gives for a call. -/
inductive Reply
  | bytes (data : Bytes)
  | byte (b : Option UInt8)
  | line (line : Option Bytes)
  | count (n : Nat)
  | done
  deriving Repr, DecidableEq

variable {σ : Type}

/-- A look ahead may be as far as there is room to push it back, and nothing is pushed back that has not
been handed out. -/
def Call.Allowed (c : Cursor σ) : Call → Prop
  | .readFully n | .peek n => n ≤ c.pushbackSize
  | .unread data => data.length ≤ c.consumed
  | _ => True

instance (c : Cursor σ) : (next : Call) → Decidable (next.Allowed c)
  | .readFully n | .peek n => inferInstanceAs (Decidable (n ≤ c.pushbackSize))
  | .unread data => inferInstanceAs (Decidable (data.length ≤ c.consumed))
  | .read _ | .readByte | .fill _ | .readLine | .skip _ => .isTrue trivial

variable [Supply σ]

def call : Call → Cursor σ → Outcome (Cursor σ) Reply
  | .read n, c => (read n c).map .bytes
  | .readByte, c => (readByte c).map .byte
  | .fill n, c =>
    match fill c with
    | .ok shown c => .ok (.bytes shown) (c.advance (min n shown.length))
    | .error fault c => .error fault c
  | .readLine, c => (readLine c).map .line
  | .skip n, c => (skip n c).map .count
  | .readFully n, c => (readFully n c).map .bytes
  | .peek n, c => (peek n c).map .bytes
  | .unread data, c => (unread data c).map fun _ => .done

/-- One call after the other, whatever becomes of each. -/
def calls : List Call → Cursor σ → List (Except Fault Reply) × Cursor σ
  | [], c => ([], c)
  | next :: more, c =>
    let (replies, last) := calls more (call next c).state
    ((call next c).value :: replies, last)

/-- Every call of a run is allowed where it is made. -/
def Allowed : List Call → Cursor σ → Prop
  | [], _ => True
  | next :: more, c => next.Allowed c ∧ Allowed more (call next c).state

instance decidableAllowed : (asked : List Call) → (c : Cursor σ) → Decidable (Allowed asked c)
  | [], _ => .isTrue trivial
  | next :: more, c =>
    have := decidableAllowed more (call next c).state
    inferInstanceAs (Decidable (next.Allowed c ∧ Allowed more (call next c).state))

end Cursor

/-- Bytes that are handed out from the front. Of those that are left, the first `held` are counted as
pushed back. -/
structure Tape where
  rest : Bytes
  consumed : Nat
  counter : Nat
  held : Nat
  deriving Repr, DecidableEq

namespace Tape

/-- `n` bytes further. Those that had been pushed back go first. -/
def forward (n : Nat) (t : Tape) : Tape := ⟨t.rest.drop n, t.consumed + n, t.counter + n, t.held - n⟩

def back (data : Bytes) (t : Tape) : Tape :=
  ⟨data ++ t.rest, t.consumed - data.length, t.counter - data.length, t.held + data.length⟩

/-- A look at the next `n` bytes hands out none, but what was looked at has been pushed back. -/
def looked (n : Nat) (t : Tape) : Tape := { t with held := max t.held (min n t.rest.length) }

/-- What is handed out and pushed back again is only looked at. -/
theorem back_forward (n : Nat) (t : Tape) :
    (t.forward (t.rest.take n).length).back (t.rest.take n) = t.looked n := by
  have cut : t.rest.take n ++ t.rest.drop (t.rest.take n).length = t.rest := by
    rw [List.length_take, List.take_eq_take_min, List.take_append_drop]
  have held : t.held - (t.rest.take n).length + (t.rest.take n).length =
      max t.held (min n t.rest.length) := by
    rw [List.length_take]
    omega
  simp only [forward, back, looked, cut, held, Nat.add_sub_cancel]

open Cursor in
/-- What a call may give on a tape of whose bytes `size` may be pushed back at a time, and the tape that it
leaves. -/
inductive Step (size : Nat) : Call → Tape → Except Fault Reply → Tape → Prop
  | read {n m : Nat} {t : Tape} (most : m ≤ n) (there : m ≤ t.rest.length)
      (only : m = 0 → n = 0 ∨ t.rest = []) :
      Step size (.read n) t (.ok (.bytes (t.rest.take m))) (t.forward m)
  | readByte {b : UInt8} {more : Bytes} {t : Tape} (there : t.rest = b :: more) :
      Step size .readByte t (.ok (.byte (some b))) (t.forward 1)
  | noByte {t : Tape} (ended : t.rest = []) : Step size .readByte t (.ok (.byte none)) t
  | fill {n m : Nat} {t : Tape} (there : m ≤ t.rest.length) (only : m = 0 → t.rest = []) :
      Step size (.fill n) t (.ok (.bytes (t.rest.take m))) (t.forward (min n m))
  | readLine {t : Tape} (there : t.rest ≠ []) :
      Step size .readLine t (.ok (.line (some (Bytes.firstLine t.rest)))) (t.forward (Bytes.lineSize t.rest))
  | noLine {t : Tape} (ended : t.rest = []) : Step size .readLine t (.ok (.line none)) t
  | skip {n : Nat} {t : Tape} :
      Step size (.skip n) t (.ok (.count (min n t.rest.length))) (t.forward (min n t.rest.length))
  | readFully {n : Nat} {t : Tape} (there : n ≤ t.rest.length) :
      Step size (.readFully n) t (.ok (.bytes (t.rest.take n))) (t.forward n)
  | tooFew {n : Nat} {t : Tape} (fewer : t.rest.length < n) :
      Step size (.readFully n) t (.ok (.bytes t.rest)) (t.looked n)
  | peek {n : Nat} {t : Tape} : Step size (.peek n) t (.ok (.bytes (t.rest.take n))) (t.looked n)
  | unread {data : Bytes} {t : Tape} (fits : data.length + t.held ≤ size) :
      Step size (.unread data) t (.ok .done) (t.back data)
  | tooMuch {data : Bytes} {t : Tape} (more : size < data.length + t.held) :
      Step size (.unread data) t (.error (.pushbackFull data.length t.held size)) t

open Cursor in
inductive Run (size : Nat) : List Call → Tape → List (Except Fault Reply) → Tape → Prop
  | nil {t : Tape} : Run size [] t [] t
  | cons {call : Call} {calls : List Call} {t t' t'' : Tape} {reply : Except Fault Reply}
      {replies : List (Except Fault Reply)} (first : Step size call t reply t')
      (more : Run size calls t' replies t'') : Run size (call :: calls) t (reply :: replies) t''

end Tape

namespace Cursor

variable {σ : Type}

/-- The cursor as a tape, with `rest` to come from its supply. -/
def tape (rest : Bytes) (c : Cursor σ) : Tape :=
  ⟨c.pushback.bytes ++ c.buffer ++ rest, c.consumed, c.counter, c.pushback.bytes.length⟩

/-- `c'` is what `c` has become, and `t` describes it. -/
structure Shows (holds : σ → Bytes → Prop) (c' c : Cursor σ) (t : Tape) : Prop where
  capacity : c'.capacity = c.capacity
  size : c'.pushbackSize = c.pushbackSize
  supply : ∃ rest, holds c'.supply rest ∧ c'.tape rest = t

variable {holds : σ → Bytes → Prop} {c c' : Cursor σ} {rest : Bytes}

theorem shows_forward {n : Nat} (held : c'.Holds holds ((c.tape rest).rest.drop n))
    (moved : Forward n c c') : c'.Shows holds c ((c.tape rest).forward n) := by
  obtain ⟨rest', supply, cut⟩ := held.supply
  refine ⟨moved.capacity, moved.size, rest', supply, ?_⟩
  simp only [tape, Tape.forward, Tape.mk.injEq]
  exact ⟨cut.symm, moved.consumed, moved.counter, moved.held⟩

/-- There is room for what fits beside the bytes that are held. -/
theorem unread_shows (data : Bytes) {t : Tape} (shows : c'.Shows holds c t)
    (fits : data.length + t.held ≤ c.pushbackSize) :
    ∃ c'', unread data c' = .ok () c'' ∧ c''.Shows holds c (t.back data) := by
  obtain ⟨rest, supply, rfl⟩ := shows.supply
  have room : data.length + c'.pushback.bytes.length ≤ c'.pushback.size := by
    have size : c'.pushback.size = c.pushbackSize := shows.size
    rw [size]
    exact fits
  have pushed : unread data c' = .ok () { c' with
      pushback := ⟨c'.pushback.size, data ++ c'.pushback.bytes, by simpa using room⟩
      consumed := c'.consumed - data.length
      counter := c'.counter - data.length } := by
    simp only [unread, Pushback.push?, dif_pos room]
  refine ⟨_, pushed, shows.capacity, shows.size, rest, supply, ?_⟩
  simp [tape, Tape.back, Nat.add_comm]

theorem unread_refused {data : Bytes} (full : ¬ data.length + c.pushback.bytes.length ≤ c.pushback.size) :
    unread data c = .error (.pushbackFull data.length c.pushback.bytes.length c.pushback.size) c := by
  simp only [unread, Pushback.push?, dif_neg full]

section Steady

variable [Supply σ] (steady : Supply.Steady holds)

include steady

/-- What is read ahead is pushed back, so that it is as if it had only been looked at. -/
theorem readUpTo_unread {n : Nat} (fits : n ≤ c.pushbackSize) (h : c.Holds holds (c.tape rest).rest) :
    ∃ c' c'', readUpTo n [] c = .ok ((c.tape rest).rest.take n) c' ∧
      c'.Shows holds c ((c.tape rest).forward ((c.tape rest).rest.take n).length) ∧
      unread ((c.tape rest).rest.take n) c' = .ok () c'' ∧
      c''.Shows holds c ((c.tape rest).looked n) := by
  obtain ⟨c', found, held, moved⟩ := readUpTo_holds steady n [] h
  have cut : (c.tape rest).rest.drop n = (c.tape rest).rest.drop ((c.tape rest).rest.take n).length := by
    rw [List.length_take]
    exact (List.drop_eq_drop_min ..)
  have shows := shows_forward (cut ▸ held) moved
  have room : ((c.tape rest).rest.take n).length +
      ((c.tape rest).forward ((c.tape rest).rest.take n).length).held ≤ c.pushbackSize := by
    have := c.pushback.fits
    have : (c.tape rest).held ≤ c.pushbackSize := c.pushback.fits
    have := List.length_take_le n (c.tape rest).rest
    simp only [Tape.forward]
    omega
  obtain ⟨c'', pushed, back⟩ := unread_shows _ shows room
  rw [Tape.back_forward] at back
  exact ⟨c', c'', by simpa using found, shows, pushed, back⟩

omit steady in
/-- The call has taken a step of the tape. -/
def Steps (holds : σ → Bytes → Prop) (c : Cursor σ) (rest : Bytes) (next : Call)
    (outcome : Outcome (Cursor σ) Reply) : Prop :=
  ∃ t, Tape.Step c.pushbackSize next (c.tape rest) outcome.value t ∧ outcome.state.Shows holds c t

omit steady in
theorem steps_of_call {next : Call} {reply : Reply} {t : Tape} (called : call next c = .ok reply c')
    (step : Tape.Step c.pushbackSize next (c.tape rest) (.ok reply) t) (shows : c'.Shows holds c t) :
    Steps holds c rest next (call next c) := by
  rw [called]
  exact ⟨t, step, shows⟩

theorem read_steps (n : Nat) (h : c.Holds holds (c.tape rest).rest) :
    Steps holds c rest (.read n) (call (.read n) c) := by
  obtain ⟨got, more, c', found, cut, only, held, moved⟩ := read_holds steady n h
  have called : call (.read n) c = .ok (.bytes got) c' := by simp only [call, found, Outcome.map]
  have most := (read_ok found).1
  have piece : got = (c.tape rest).rest.take got.length := by rw [cut, List.take_left]
  have there : got.length ≤ (c.tape rest).rest.length := by simp [cut]
  have empty (none : got.length = 0) : n = 0 ∨ (c.tape rest).rest = [] := by
    have none := List.length_eq_zero_iff.1 none
    rw [cut, none]
    exact only none
  have step : Tape.Step c.pushbackSize (.read n) (c.tape rest) _ _ := .read most there empty
  rw [← piece] at step
  exact steps_of_call called step (shows_forward (by rwa [cut, List.drop_left]) moved)

theorem readByte_steps (h : c.Holds holds (c.tape rest).rest) : Steps holds c rest .readByte (call .readByte c) := by
  cases all : (c.tape rest).rest with
  | nil =>
    obtain ⟨c', found, held, moved, -⟩ := readByte_nil steady (all ▸ h)
    have called : call .readByte c = .ok (.byte none) c' := by simp only [call, found, Outcome.map]
    exact steps_of_call called (.noByte all) (shows_forward (n := 0) (by rwa [all]) moved)
  | cons b more =>
    obtain ⟨c', found, held, moved⟩ := readByte_cons steady (all ▸ h)
    have called : call .readByte c = .ok (.byte (some b)) c' := by simp only [call, found, Outcome.map]
    exact steps_of_call called (.readByte all) (shows_forward (n := 1) (by rwa [all]) moved)

theorem fill_steps (n : Nat) (h : c.Holds holds (c.tape rest).rest) :
    Steps holds c rest (.fill n) (call (.fill n) c) := by
  obtain ⟨c', found, held, moved, empty⟩ := fill_holds steady h
  have called : call (.fill n) c =
      .ok (.bytes c'.atHand) (c'.advance (min n c'.atHand.length)) := by simp only [call, found]
  obtain ⟨more, cut⟩ := held.atHand_append
  have piece : c'.atHand = (c.tape rest).rest.take c'.atHand.length := by rw [cut, List.take_left]
  have there : c'.atHand.length ≤ (c.tape rest).rest.length := by simp [cut]
  have only (none : c'.atHand.length = 0) : (c.tape rest).rest = [] :=
    (empty (List.length_eq_zero_iff.1 none)).1
  have step : Tape.Step c.pushbackSize (.fill n) (c.tape rest) _ _ := .fill there only
  rw [← piece] at step
  obtain ⟨after, further⟩ := advance_holds held (Nat.min_le_right n c'.atHand.length)
  have along := moved.trans further
  rw [Nat.zero_add] at along
  exact steps_of_call called step (shows_forward after along)

theorem readLine_steps (h : c.Holds holds (c.tape rest).rest) : Steps holds c rest .readLine (call .readLine c) := by
  by_cases ended : (c.tape rest).rest = []
  · obtain ⟨c', found, held, moved, -⟩ := readLine_nil steady (ended ▸ h)
    have called : call .readLine c = .ok (.line none) c' := by simp only [call, found, Outcome.map]
    exact steps_of_call called (.noLine ended) (shows_forward (n := 0) (by rwa [ended]) moved)
  · obtain ⟨c', found, held, moved⟩ := readLine_holds steady ended h
    have called : call .readLine c = .ok (.line (some (Bytes.firstLine (c.tape rest).rest))) c' := by
      simp only [call, found, Outcome.map]
    exact steps_of_call called (.readLine ended) (shows_forward held moved)

theorem skip_steps (n : Nat) (h : c.Holds holds (c.tape rest).rest) :
    Steps holds c rest (.skip n) (call (.skip n) c) := by
  obtain ⟨c', found, held, moved, -⟩ := skipFrom_holds steady 0 n h
  rw [List.drop_eq_drop_min] at held
  rw [List.length_take] at found moved
  have called : call (.skip n) c = .ok (.count (min n (c.tape rest).rest.length)) c' := by
    simp only [call, skip, found, Outcome.map, Nat.zero_add]
  exact steps_of_call called .skip (shows_forward held moved)

/-- If too few bytes are there, those that are have been pushed back. -/
theorem readFully_steps {n : Nat} (fits : n ≤ c.pushbackSize) (h : c.Holds holds (c.tape rest).rest) :
    Steps holds c rest (.readFully n) (call (.readFully n) c) := by
  obtain ⟨c', c'', found, shows, pushed, looked⟩ := readUpTo_unread steady fits h
  rw [List.length_take] at shows
  by_cases fewer : (c.tape rest).rest.length < n
  · rw [List.take_of_length_le (Nat.le_of_lt fewer)] at found pushed
    have called : call (.readFully n) c = .ok (.bytes (c.tape rest).rest) c'' := by
      simp only [call, readFully, found, if_pos fewer, pushed, Outcome.map]
    exact steps_of_call called (.tooFew fewer) looked
  · have there := Nat.le_of_not_lt fewer
    have called : call (.readFully n) c = .ok (.bytes ((c.tape rest).rest.take n)) c' := by
      simp only [call, readFully, found, List.length_take, Nat.min_eq_left there, Nat.lt_irrefl,
        ↓reduceIte, Outcome.map]
    rw [Nat.min_eq_left there] at shows
    exact steps_of_call called (.readFully there) shows

/-- All bytes that were looked at have been pushed back, by `readFully` if there were too few. -/
theorem peek_steps {n : Nat} (fits : n ≤ c.pushbackSize) (h : c.Holds holds (c.tape rest).rest) :
    Steps holds c rest (.peek n) (call (.peek n) c) := by
  obtain ⟨c', c'', found, shows, pushed, looked⟩ := readUpTo_unread steady fits h
  have called : call (.peek n) c = .ok (.bytes ((c.tape rest).rest.take n)) c'' := by
    by_cases fewer : ((c.tape rest).rest.take n).length < n
    · simp only [call, peek, readFully, found, if_pos fewer, pushed, Nat.ne_of_lt fewer, ↓reduceIte,
        Outcome.map]
    · have whole : ((c.tape rest).rest.take n).length = n := by
        have := List.length_take_le n (c.tape rest).rest
        omega
      simp only [call, peek, readFully, found, if_neg fewer, if_pos whole, pushed, Outcome.map]
  exact steps_of_call called .peek looked

omit steady in
theorem unread_steps (data : Bytes) (supply : holds c.supply rest) :
    Steps holds c rest (.unread data) (call (.unread data) c) := by
  have shows : c.Shows holds c (c.tape rest) := ⟨rfl, rfl, rest, supply, rfl⟩
  by_cases fits : data.length + (c.tape rest).held ≤ c.pushbackSize
  · obtain ⟨c', pushed, back⟩ := unread_shows data shows fits
    have called : call (.unread data) c = .ok .done c' := by simp only [call, pushed, Outcome.map]
    exact steps_of_call called (.unread fits) back
  · have called : call (.unread data) c =
        .error (.pushbackFull data.length (c.tape rest).held c.pushbackSize) c := by
      simp only [call, unread_refused fits, Outcome.map]
      rfl
    rw [called]
    exact ⟨_, .tooMuch (Nat.lt_of_not_le fits), shows⟩

/-- On a supply that does not fault, every call takes the step of a tape. -/
theorem call_steps (next : Call) (pos : 0 < c.capacity) (supply : holds c.supply rest)
    (allowed : next.Allowed c) : Steps holds c rest next (call next c) := by
  have h : c.Holds holds (c.tape rest).rest := ⟨pos, rest, supply, rfl⟩
  cases next with
  | read n => exact read_steps steady n h
  | readByte => exact readByte_steps steady h
  | fill n => exact fill_steps steady n h
  | readLine => exact readLine_steps steady h
  | skip n => exact skip_steps steady n h
  | readFully n => exact readFully_steps steady allowed h
  | peek n => exact peek_steps steady allowed h
  | unread data => exact unread_steps data supply

/-- Any number of calls is a run of the tape. -/
theorem calls_run (asked : List Call) (pos : 0 < c.capacity) (supply : holds c.supply rest)
    (allowed : Allowed asked c) :
    ∃ rest', Tape.Run c.pushbackSize asked (c.tape rest) (calls asked c).1 ((calls asked c).2.tape rest') ∧
      holds (calls asked c).2.supply rest' := by
  induction asked generalizing c rest with
  | nil => exact ⟨rest, .nil, supply⟩
  | cons next more ih =>
    obtain ⟨t, step, shows⟩ := call_steps steady next pos supply allowed.1
    obtain ⟨between, supply', rfl⟩ := shows.supply
    obtain ⟨rest', run, last⟩ := ih (shows.capacity ▸ pos) supply' allowed.2
    rw [shows.size] at run
    exact ⟨rest', .cons step run, last⟩

end Steady

/-- Whatever may be asked of a cursor whose supply does not fault, in any order, is answered as a tape
answers it, and leaves what it leaves on the tape: the bytes pushed back, then those read ahead, then those
of the supply. -/
theorem runs_as_tape [Supply σ] (asked : List Call) (pos : 0 < c.capacity) (supply : Supply.Yields c.supply rest)
    (allowed : Allowed asked c) :
    ∃ rest', Tape.Run c.pushbackSize asked (c.tape rest) (calls asked c).1 ((calls asked c).2.tape rest') ∧
      Supply.Yields (calls asked c).2.supply rest' := by
  obtain ⟨holds, steady, supply⟩ := supply
  obtain ⟨rest', run, last⟩ := calls_run steady asked pos supply allowed
  exact ⟨rest', run, holds, steady, last⟩

/-- Pieces of two bytes, and calls of every kind: three bytes are looked at, two of them read, one pushed
back, and four more refused. -/
theorem runs_as_tape_mixed :
    let c := create (⟨Bytes.ofString "ab\ncdef", some 2, none, .inputFailed⟩ : Input) 3 4
    let asked : List Call := [.readLine, .peek 3, .read 2, .unread [0x64], .unread [1, 2, 3, 4],
      .readFully 4, .fill 1, .skip 5, .readByte]
    0 < c.capacity ∧ Supply.Yields c.supply c.supply.data ∧ Allowed asked c ∧
      ∃ rest', Tape.Run c.pushbackSize asked (c.tape c.supply.data) (calls asked c).1
        ((calls asked c).2.tape rest') ∧ Supply.Yields (calls asked c).2.supply rest' := by
  intro c asked
  have pos : 0 < c.capacity := by decide
  have yields : Supply.Yields c.supply c.supply.data :=
    ⟨Input.Holds, Input.steady_holds, rfl, rfl, by decide⟩
  have allowed : Allowed asked c := by decide +kernel
  exact ⟨pos, yields, allowed, runs_as_tape asked pos yields allowed⟩

end Cursor
end ArcFile
