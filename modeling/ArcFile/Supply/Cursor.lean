import ArcFile.Supply.Basic
/-!
Cursors. A cursor reads ahead from a supply, counts the bytes that it has handed out, and takes a limited
number of them back. Bytes pushed back come again before any others.

Every operation is an action: it gives a value or a fault, and leaves a cursor in either case.
-/
namespace ArcFile

/-- Bytes that were pushed back, of which there may be at most `size`. -/
structure Pushback where
  size : Nat
  bytes : Bytes
  fits : bytes.length ≤ size
  deriving Repr

namespace Pushback

def empty (size : Nat) : Pushback := ⟨size, [], Nat.zero_le _⟩

/-- Puts bytes in front of those that are there, if there is room. -/
def push? (p : Pushback) (data : Bytes) : Option Pushback :=
  if h : data.length + p.bytes.length ≤ p.size then some ⟨p.size, data ++ p.bytes, by simpa using h⟩
  else none

def drop (p : Pushback) (n : Nat) : Pushback :=
  ⟨p.size, p.bytes.drop n, Nat.le_trans (by simp) p.fits⟩

end Pushback

structure Cursor (σ : Type) where
  supply : σ
  /-- The most bytes that are read ahead at a time. -/
  capacity : Nat
  /-- Bytes read ahead and not yet handed out. -/
  buffer : Bytes
  pushback : Pushback
  /-- The number of bytes handed out, less those pushed back. -/
  consumed : Nat
  /-- Counts like `consumed`, from where it was set. -/
  counter : Nat
  deriving Repr

namespace Cursor

variable {σ : Type}

/-- The read-ahead of a cursor unless something else is asked for. -/
def defaultCapacity : Nat := 8192

def create (supply : σ) (capacity pushback : Nat) : Cursor σ :=
  ⟨supply, capacity, [], .empty pushback, 0, 0⟩

def pushbackSize (c : Cursor σ) : Nat := c.pushback.size

def setCounter (n : Nat) (c : Cursor σ) : Cursor σ := { c with counter := n }

/-- Hands out `n` of the bytes that `fill` gave. -/
def advance (n : Nat) (c : Cursor σ) : Cursor σ :=
  if c.pushback.bytes.isEmpty then
    { c with buffer := c.buffer.drop n, consumed := c.consumed + n, counter := c.counter + n }
  else
    { c with pushback := c.pushback.drop n, consumed := c.consumed + n, counter := c.counter + n }

/-- Pushes bytes back, to be handed out again before all others. -/
def unread (data : Bytes) (c : Cursor σ) : Outcome (Cursor σ) Unit :=
  match c.pushback.push? data with
  | some pushback => .ok () { c with
      pushback
      consumed := c.consumed - data.length
      counter := c.counter - data.length }
  | none => .error (.pushbackFull data.length c.pushback.bytes.length c.pushback.size) c

variable [Supply σ]

/-- The bytes at hand, without handing them out: those pushed back if there are any, else those read
ahead, else as many as one read of the supply gives. -/
def fill (c : Cursor σ) : Outcome (Cursor σ) Bytes :=
  if !c.pushback.bytes.isEmpty then .ok c.pushback.bytes c
  else if !c.buffer.isEmpty then .ok c.buffer c
  else if c.capacity = 0 then .ok [] c
  else match Supply.read c.capacity c.supply with
    | .ok data supply => .ok data { c with buffer := data, supply }
    | .error fault supply => .error fault { c with supply }

/-- Hands out up to `n` bytes. With nothing at hand, a read of at least the capacity goes to the supply
directly. -/
def read (n : Nat) (c : Cursor σ) : Outcome (Cursor σ) Bytes :=
  if c.pushback.bytes.isEmpty ∧ c.buffer.isEmpty ∧ c.capacity ≤ n then
    match Supply.read n c.supply with
    | .ok data supply => .ok data { c with
        supply, consumed := c.consumed + data.length, counter := c.counter + data.length }
    | .error fault supply => .error fault { c with supply }
  else
    match fill c with
    | .ok data c => .ok (data.take n) (c.advance (data.take n).length)
    | .error fault c => .error fault c

/-- A bound on the bytes that are still to be handed out. -/
def left (c : Cursor σ) : Nat :=
  c.pushback.bytes.length + c.buffer.length + Supply.bound c.supply

theorem fill_ok {c c' : Cursor σ} {data : Bytes} (h : fill c = .ok data c') :
    data.length ≤ c'.left ∧ c'.left ≤ c.left ∧
      ∀ n ≤ data.length, (c'.advance n).left + n = c'.left := by
  unfold fill at h
  split at h
  · next held =>
    cases h
    refine ⟨by simp [left]; omega, Nat.le_refl _, fun n most => ?_⟩
    simp only [Bool.not_eq_true', List.isEmpty_eq_false_iff] at held
    simp [advance, held, left, Pushback.drop]
    omega
  · next none =>
    simp only [Bool.not_eq_true', Bool.not_eq_false, List.isEmpty_iff] at none
    split at h
    · cases h
      refine ⟨by simp [left]; omega, Nat.le_refl _, fun n most => ?_⟩
      simp [advance, none, left]
      omega
    · next dry =>
      simp only [Bool.not_eq_true', Bool.not_eq_false, List.isEmpty_iff] at dry
      split at h
      · cases h
        refine ⟨by simp, Nat.le_refl _, fun n most => ?_⟩
        simp only [List.length_nil, Nat.le_zero_eq] at most
        simp [most, advance, none, left]
      · split at h
        · next found =>
          cases h
          have := Supply.read_ok found
          refine ⟨by simp [left]; omega, by simp [left, none, dry]; omega, fun n most => ?_⟩
          simp [advance, none, left]
          omega
        · cases h

theorem fill_error {c c' : Cursor σ} {fault : Fault} (h : fill c = .error fault c') :
    c'.left ≤ c.left := by
  unfold fill at h
  repeat' split at h
  all_goals try cases h
  next found =>
    have := Supply.read_error found
    simp [left]
    omega

theorem read_ok {n : Nat} {c c' : Cursor σ} {data : Bytes} (h : read n c = .ok data c') :
    data.length ≤ n ∧ data.length + c'.left ≤ c.left := by
  unfold read at h
  split at h
  · split at h
    · next found =>
      cases h
      have := Supply.read_ok found
      simp [left]
      omega
    · cases h
  · split at h
    · next all c'' found =>
      cases h
      obtain ⟨_, less, gone⟩ := fill_ok found
      have := gone (all.take n).length (by rw [List.length_take]; omega)
      exact ⟨by rw [List.length_take]; omega, by omega⟩
    · cases h

theorem read_error {n : Nat} {c c' : Cursor σ} {fault : Fault} (h : read n c = .error fault c') :
    c'.left ≤ c.left := by
  unfold read at h
  split at h
  · split at h
    · cases h
    · next found =>
      cases h
      have := Supply.read_error found
      simp [left]
      omega
  · split at h
    · cases h
    · next found =>
      cases h
      exact fill_error found

instance : Supply (Cursor σ) where
  read := read
  bound := left
  read_ok := read_ok
  read_error := read_error

/-- One byte, unless the supply has ended. -/
def readByte (c : Cursor σ) : Outcome (Cursor σ) (Option UInt8) :=
  match fill c with
  | .ok [] c => .ok none c
  | .ok (b :: _) c => .ok (some b) (c.advance 1)
  | .error fault c => .error fault c

theorem left_of_readByte {c c' : Cursor σ} {b : UInt8} (h : readByte c = .ok (some b) c') :
    c'.left < c.left := by
  unfold readByte at h
  repeat' split at h
  all_goals cases h
  next more c'' found =>
    obtain ⟨some, less, gone⟩ := fill_ok found
    have := gone 1 (by simp)
    simp only [List.length_cons] at some
    omega

theorem left_readByte (c : Cursor σ) : (readByte c).state.left ≤ c.left := by
  unfold readByte
  split
  · next found => exact (fill_ok found).2.1
  · next found =>
    obtain ⟨_, less, gone⟩ := fill_ok found
    have := gone 1 (by simp)
    simp only [Outcome.state]
    omega
  · next found => exact fill_error found

theorem readByte_error {c c' : Cursor σ} {fault : Fault} (h : readByte c = .error fault c') :
    c'.left ≤ c.left := by
  have := left_readByte c
  rw [h] at this
  exact this

/-- Hands out bytes through the first line feed, or all there are. What was handed out so far is
`taken`, backwards; it is `none` as long as there is nothing. The line feed is left out. -/
def takeLine (taken : Option Bytes) (c : Cursor σ) : Outcome (Cursor σ) (Option Bytes) :=
  match found : fill c with
  | .error fault c' => .error fault c'
  | .ok [] c' => .ok taken c'
  | .ok (b :: more) c' =>
    let line := (b :: more).takeWhile (· ≠ Bytes.lineFeed)
    let taken' := some (line.reverse ++ taken.getD [])
    if line.length < (b :: more).length then .ok taken' (c'.advance (line.length + 1))
    else
      have : (c'.advance (b :: more).length).left < c.left := by
        obtain ⟨_, less, gone⟩ := fill_ok found
        have := gone (b :: more).length (Nat.le_refl _)
        simp only [List.length_cons] at *
        omega
      takeLine taken' (c'.advance (b :: more).length)
termination_by c.left

theorem left_takeLine (taken : Option Bytes) (c : Cursor σ) :
    (takeLine taken c).state.left ≤ c.left := by
  fun_induction takeLine taken c with
  | case1 _ _ _ _ found => exact fill_error found
  | case2 _ _ _ found => exact (fill_ok found).2.1
  | case3 taken c b more c' found line taken' shorter =>
    obtain ⟨_, less, gone⟩ := fill_ok found
    have := gone (line.length + 1) shorter
    simp only [Outcome.state]
    omega
  | case4 taken c b more c' found line taken' longer smaller ih => omega

/-- One line without its terminator, a line feed that may follow a carriage return. The last line needs
no line feed. There is no line if the supply has ended. -/
def readLine (c : Cursor σ) : Outcome (Cursor σ) (Option Bytes) :=
  match takeLine none c with
  | .ok taken c => .ok (taken.map fun line => Bytes.dropReturn line.reverse) c
  | .error fault c => .error fault c

theorem left_of_readLine {c c' : Cursor σ} {line : Bytes} (h : readLine c = .ok (some line) c') :
    c'.left < c.left := by
  unfold readLine at h
  split at h
  · next taken c'' found =>
    cases taken with
    | none => cases h
    | some line =>
      cases h
      unfold takeLine at found
      split at found
      · cases found
      · cases found
      · next b more c1 filled =>
        obtain ⟨_, less, gone⟩ := fill_ok filled
        dsimp only at found
        split at found
        · next shorter =>
          cases found
          have := gone (((b :: more).takeWhile (· ≠ Bytes.lineFeed)).length + 1) shorter
          omega
        · have := gone (b :: more).length (Nat.le_refl _)
          have rest := left_takeLine (some (((b :: more).takeWhile (· ≠ Bytes.lineFeed)).reverse ++
            (none : Option Bytes).getD [])) (c1.advance (b :: more).length)
          rw [found] at rest
          simp only [Outcome.state, List.length_cons] at *
          omega
  · cases h

theorem left_readLine (c : Cursor σ) : (readLine c).state.left ≤ c.left := by
  have := left_takeLine none c
  unfold readLine
  split <;> simp_all [Outcome.state]

/-- Reads until `n` more bytes have come or the supply has ended. Gives all bytes, with those in
`taken` in front, which are backwards. -/
def readUpTo (n : Nat) (taken : Bytes) (c : Cursor σ) : Outcome (Cursor σ) Bytes :=
  if n = 0 then .ok taken.reverse c
  else
    match found : read n c with
    | .error fault c' => .error fault c'
    | .ok [] c' => .ok taken.reverse c'
    | .ok (b :: more) c' =>
      have : n - (b :: more).length < n := by
        have := read_ok found
        simp only [List.length_cons] at *
        omega
      readUpTo (n - (b :: more).length) ((b :: more).reverse ++ taken) c'
termination_by n

theorem left_readUpTo (n : Nat) (taken : Bytes) (c : Cursor σ) :
    (readUpTo n taken c).state.left ≤ c.left := by
  fun_induction readUpTo n taken c with
  | case1 => exact Nat.le_refl _
  | case2 _ _ _ _ _ _ found => exact read_error found
  | case3 _ _ _ _ _ found => exact Nat.le_trans (Nat.le_add_left _ _) (read_ok found).2
  | case4 n taken c _ b more c' found _ ih =>
    have := (read_ok found).2
    omega

theorem readUpTo_ok {n : Nat} {taken data : Bytes} {c c' : Cursor σ}
    (h : readUpTo n taken c = .ok data c') :
    data.length ≤ n + taken.length ∧ data.length + c'.left ≤ taken.length + c.left := by
  fun_induction readUpTo n taken c with
  | case1 =>
    cases h
    simp
  | case2 => cases h
  | case3 _ _ _ _ _ found =>
    cases h
    have := read_ok found
    simp at *
    omega
  | case4 n taken c _ b more c' found _ ih =>
    have := read_ok found
    have := ih h
    simp at *
    omega

/-- Bytes that were pushed back are always there to be read. -/
theorem readUpTo_of_pushback {n : Nat} (taken : Bytes) {c : Cursor σ} (some : 0 < n)
    (held : c.pushback.bytes ≠ []) :
    ∃ data, 0 < data.length ∧ read n c = .ok data (c.advance data.length) ∧
      readUpTo n taken c = readUpTo (n - data.length) (data.reverse ++ taken) (c.advance data.length) := by
  have filled : fill c = .ok c.pushback.bytes c := by simp [fill, held]
  have reads : read n c = .ok (c.pushback.bytes.take n) (c.advance (c.pushback.bytes.take n).length) := by
    simp [read, held, filled]
  have there : 0 < (c.pushback.bytes.take n).length := by
    have := List.length_pos_iff.mpr held
    rw [List.length_take]
    omega
  refine ⟨c.pushback.bytes.take n, there, reads, ?_⟩
  conv => lhs; unfold readUpTo
  rw [if_neg (Nat.pos_iff_ne_zero.1 some)]
  split
  · next found => cases reads.symm.trans found
  · next found =>
    rw [(EStateM.Result.ok.inj (reads.symm.trans found)).1] at there
    cases there
  · next found =>
    obtain ⟨is, rfl⟩ := EStateM.Result.ok.inj (reads.symm.trans found)
    simp only [is]

theorem left_readUpTo_of_pushback {n : Nat} {taken : Bytes} {c : Cursor σ} (some : 0 < n)
    (held : c.pushback.bytes ≠ []) : (readUpTo n taken c).state.left < c.left := by
  obtain ⟨data, there, reads, more⟩ := readUpTo_of_pushback taken some held
  have gone := (read_ok reads).2
  have := left_readUpTo (n - data.length) (data.reverse ++ taken) (c.advance data.length)
  rw [more]
  omega

/-- Pushing back cannot make more of what there was. -/
theorem left_unread (data : Bytes) (c : Cursor σ) :
    (unread data c).state.left ≤ c.left + data.length := by
  unfold unread
  split
  · next found =>
    simp only [Pushback.push?] at found
    split at found
    · cases found
      simp [Outcome.state, left]
      omega
    · cases found
  · simp [Outcome.state]

/-- Reads `n` bytes. If there are fewer they are pushed back, and are given nevertheless. -/
def readFully (n : Nat) (c : Cursor σ) : Outcome (Cursor σ) Bytes :=
  match readUpTo n [] c with
  | .error fault c => .error fault c
  | .ok data c =>
    if data.length < n then
      match unread data c with
      | .ok () c => .ok data c
      | .error fault c => .error fault c
    else .ok data c

/-- The next `n` bytes, or all if there are fewer, which are then pushed back. -/
def peek (n : Nat) (c : Cursor σ) : Outcome (Cursor σ) Bytes :=
  match readFully n c with
  | .error fault c => .error fault c
  | .ok data c =>
    if data.length = n then
      match unread data c with
      | .ok () c => .ok data c
      | .error fault c => .error fault c
    else .ok data c

theorem left_readFully (n : Nat) (c : Cursor σ) : (readFully n c).state.left ≤ c.left := by
  have := left_readUpTo n [] c
  unfold readFully
  split
  · simp_all [Outcome.state]
  · next data c' found =>
    have := readUpTo_ok found
    split
    · have := left_unread data c'
      split <;> simp_all [Outcome.state] <;> omega
    · simp_all [Outcome.state]

theorem readFully_ok {n : Nat} {c c' : Cursor σ} {data : Bytes} (h : readFully n c = .ok data c')
    (whole : data.length = n) : data.length + c'.left ≤ c.left := by
  unfold readFully at h
  split at h
  · cases h
  · next found =>
    have := readUpTo_ok found
    split at h
    · split at h
      · cases h
        omega
      · cases h
    · cases h
      simp at *
      omega

theorem left_peek (n : Nat) (c : Cursor σ) : (peek n c).state.left ≤ c.left := by
  have := left_readFully n c
  unfold peek
  split
  · simp_all [Outcome.state]
  · next data c' found =>
    split
    · next whole =>
      have := readFully_ok found whole
      have := left_unread data c'
      split <;> simp_all [Outcome.state] <;> omega
    · simp_all [Outcome.state]

/-- What was looked at is pushed back. -/
theorem pushback_of_peek {n : Nat} {c c' : Cursor σ} {data : Bytes} (h : peek n c = .ok data c')
    (whole : data.length = n) : n ≤ c'.pushback.bytes.length := by
  unfold peek at h
  split at h
  · cases h
  · split at h
    · split at h
      · next pushed =>
        cases h
        unfold unread at pushed
        split at pushed
        · next found =>
          cases pushed
          simp only [Pushback.push?] at found
          split at found
          · cases found
            simp
            omega
          · cases found
        · cases pushed
      · cases h
    · cases h
      contradiction

/-- Hands out up to `n` bytes for nothing, and gives their number added to `skipped`. -/
def skipFrom (skipped n : Nat) (c : Cursor σ) : Outcome (Cursor σ) Nat :=
  if zero : n = 0 then .ok skipped c
  else
    match found : fill c with
    | .error fault c' => .error fault c'
    | .ok [] c' => .ok skipped c'
    | .ok (b :: more) c' =>
      have : (c'.advance (min n (b :: more).length)).left < c.left := by
        obtain ⟨_, less, gone⟩ := fill_ok found
        have := gone (min n (b :: more).length) (Nat.min_le_right _ _)
        simp only [List.length_cons] at *
        omega
      skipFrom (skipped + min n (b :: more).length) (n - min n (b :: more).length)
        (c'.advance (min n (b :: more).length))
termination_by c.left

theorem left_skipFrom (skipped n : Nat) (c : Cursor σ) : (skipFrom skipped n c).state.left ≤ c.left := by
  fun_induction skipFrom skipped n c with
  | case1 => exact Nat.le_refl _
  | case2 _ _ _ _ _ _ found => exact fill_error found
  | case3 _ _ _ _ _ found => exact (fill_ok found).2.1
  | case4 _ _ _ _ _ _ _ _ smaller ih => exact Nat.le_trans ih (Nat.le_of_lt smaller)

/-- Skips up to `n` bytes and gives their number. -/
def skip (n : Nat) (c : Cursor σ) : Outcome (Cursor σ) Nat := skipFrom 0 n c

/-- Skips all that is left, up to the end of the supply, and gives the number of bytes. -/
def skipAll (c : Cursor σ) : Outcome (Cursor σ) Nat := skipFrom 0 (c.left + 1) c

end Cursor
end ArcFile
