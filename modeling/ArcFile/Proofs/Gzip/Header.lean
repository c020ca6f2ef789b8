import ArcFile.Gzip.Member
import ArcFile.Proofs.Supply.View
/-!
Headers of gzip members as byte strings (RFC 1952). `Member.IsHeader` says which bytes make a header, and reading
one over a steady supply takes just these bytes.
-/
namespace ArcFile.Gzip.Member

open Cursor

/-- A name or a comment, with the zero byte at its end. -/
def IsText (part : Bytes) : Prop := ∃ text, 0 ∉ text ∧ text.length ≤ longestText ∧ part = text ++ [0]

/-- Extra data behind its length. -/
def IsExtra (part : Bytes) : Prop :=
  ∃ size more, size.length = 2 ∧ more.length = size.littleEndian ∧ part = size ++ more

/-- A part that is there only if its flag is set. -/
def Optional (there : Bool) (is : Bytes → Prop) (part : Bytes) : Prop := if there then is part else part = []

/-- The part of a header that is always there. -/
structure IsStart (start : Bytes) : Prop where
  size : start.length = 10
  magic : start.startsWith (magic ++ [deflate])
  known : (Flags.ofByte (start.getD 3 0)).reserved = false

/-- The header of a member. -/
def IsHeader (header : Bytes) : Prop :=
  ∃ start extra name comment checksum,
    let flags := Flags.ofByte (start.getD 3 0)
    IsStart start ∧ Optional flags.extra IsExtra extra ∧ Optional flags.name IsText name ∧
      Optional flags.comment IsText comment ∧
      Optional flags.checksum (fun part => part.length = 2 ∧
        part.littleEndian = headerChecksum (start ++ (extra ++ name ++ comment))) checksum ∧
      header = start ++ (extra ++ name ++ comment) ++ checksum

variable {σ : Type} {α β : Type}

/-- Over every supply that holds `used` and something behind it, the reader takes `used` and gives
`value`. -/
def Takes (holds : σ → Bytes → Prop) (reader : EStateM Fault (Cursor σ) α) (used : Bytes) (value : α) :
    Prop :=
  ∀ (c : Cursor σ) (rest : Bytes), c.Holds holds (used ++ rest) →
    ∃ c', reader c = .ok value c' ∧ c'.Holds holds rest ∧ Moved used.length c c'

variable {holds : σ → Bytes → Prop}

theorem takes_pure (value : α) : Takes holds (pure value) [] value :=
  fun c _ held => ⟨c, rfl, held, .refl c⟩

theorem Takes.bind {first : EStateM Fault (Cursor σ) α} {next : α → EStateM Fault (Cursor σ) β}
    {used more : Bytes} {a : α} {b : β} (h : Takes holds first used a) (h' : Takes holds (next a) more b) :
    Takes holds (first >>= next) (used ++ more) b := by
  intro c rest held
  rw [List.append_assoc] at held
  obtain ⟨mid, one, held, moved⟩ := h c _ held
  obtain ⟨last, two, held, further⟩ := h' mid _ held
  refine ⟨last, ?_, held, by simpa using moved.trans further⟩
  simp only [Bind.bind, EStateM.bind, one, two]

theorem Takes.last {first : EStateM Fault (Cursor σ) α} {next : α → EStateM Fault (Cursor σ) β}
    {used : Bytes} {a : α} {b : β} (h : Takes holds first used a) (same : next a = pure b) :
    Takes holds (first >>= next) used b := by
  have both : Takes holds (first >>= next) (used ++ []) b := h.bind (same ▸ takes_pure b)
  rwa [List.append_nil] at both

variable [Supply σ] (steady : Supply.Steady holds)

include steady

theorem takes_take {used : Bytes} {n : Nat} (size : used.length = n) : Takes holds (take n) used used := by
  subst size
  intro c rest held
  obtain ⟨c', found, after, moved⟩ := readUpTo_holds steady used.length [] held
  rw [List.take_left] at found moved
  rw [List.drop_left] at after
  refine ⟨c', ?_, after, moved.toMoved⟩
  have found : readUpTo used.length [] c = .ok used c' := by simpa using found
  simp only [take, Bind.bind, EStateM.bind, found, Nat.lt_irrefl, ↓reduceIte]
  rfl

theorem takes_text {part : Bytes} (is : IsText part) : Takes holds (takeText longestText) part part := by
  obtain ⟨text, zero, size, rfl⟩ := is
  generalize longestText = room at size
  induction text generalizing room with
  | nil => cases room <;> exact (takes_take steady rfl).last (if_pos rfl)
  | cons b text ih =>
    simp only [List.mem_cons, not_or] at zero
    cases room with
    | zero => simp at size
    | succ room =>
      have other : [b] ≠ [0] := by simpa using Ne.symm zero.1
      have more := ih zero.2 room (by simpa using size)
      have one : Takes holds (take 1) [b] [b] := takes_take steady rfl
      refine one.bind (?_ : Takes holds _ (text ++ [0]) _)
      rw [if_neg other]
      exact more.last rfl

theorem takes_extra {part : Bytes} (is : IsExtra part) : Takes holds takeExtra part part := by
  obtain ⟨size, more, two, length, rfl⟩ := is
  exact (takes_take steady two).bind ((takes_take steady length).last rfl)

omit steady [Supply σ] in
theorem takes_optional {there : Bool} {is : Bytes → Prop} {part : Bytes}
    {reader : EStateM Fault (Cursor σ) Bytes} (takes : is part → Takes holds reader part part)
    (h : Optional there is part) : Takes holds (optional there reader) part part := by
  cases there with
  | false =>
    obtain rfl : part = [] := by simpa [Optional] using h
    exact takes_pure []
  | true => exact takes (by simpa [Optional] using h)

theorem takes_start {start : Bytes} (is : IsStart start) : Takes holds takeStart start start := by
  refine (takes_take steady is.size).last (if_pos ⟨is.magic, ?_⟩)
  rw [is.known]
  rfl

/-- Reading a header takes just the header. -/
theorem takes_header {header : Bytes} (is : IsHeader header) : Takes holds takeHeader header header := by
  obtain ⟨start, extra, name, comment, checksum, isStart, isExtra, isName, isComment, isChecksum, rfl⟩ := is
  have parts : Takes holds (takeParts (Flags.ofByte (start.getD 3 0))) (extra ++ name ++ comment)
      (extra ++ name ++ comment) := by
    rw [List.append_assoc extra]
    exact (takes_optional (takes_extra steady) isExtra).bind
      ((takes_optional (takes_text steady) isName).bind
        ((takes_optional (takes_text steady) isComment).last (by rw [List.append_assoc])))
  have sum : Takes holds (optional (Flags.ofByte (start.getD 3 0)).checksum
      (takeChecksum (start ++ (extra ++ name ++ comment)))) checksum checksum :=
    takes_optional (fun ⟨two, right⟩ => (takes_take steady two).last (if_pos right)) isChecksum
  rw [List.append_assoc start]
  exact (takes_start steady isStart).bind (parts.bind (sum.last (by rw [List.append_assoc])))

theorem takes_trailer (content : Bytes) :
    Takes holds (takeTrailer content) (trailer content) (trailer content) := by
  refine (takes_take steady ?_).last (if_pos rfl)
  simp [trailer, Bytes.length_toLittleEndian]

omit steady [Supply σ] in
/-- If the reader gives a value over a supply that holds some data, it has taken the front of the data, and `is`
says of both what they are. -/
def Finds (holds : σ → Bytes → Prop) (reader : EStateM Fault (Cursor σ) α) (is : Bytes → α → Prop) : Prop :=
  ∀ (c : Cursor σ) (data : Bytes) (value : α) (c' : Cursor σ), c.Holds holds data → reader c = .ok value c' →
    ∃ used rest, data = used ++ rest ∧ is used value ∧ c'.Holds holds rest ∧ Moved used.length c c'

section Finds

variable {is : Bytes → α → Prop} {goal : Bytes → β → Prop}

omit steady [Supply σ]

theorem finds_pure {value : α} (h : is [] value) : Finds holds (pure value) is := by
  intro c data found c' held same
  cases same
  exact ⟨[], data, rfl, h, held, .refl c⟩

theorem finds_throw (fault : Fault) : Finds holds (throw fault) is := by
  intro c data found c' held same
  cases same

theorem Finds.bind {first : EStateM Fault (Cursor σ) α} {next : α → EStateM Fault (Cursor σ) β}
    (h : Finds holds first is)
    (h' : ∀ used value, is used value → Finds holds (next value) fun more => goal (used ++ more)) :
    Finds holds (first >>= next) goal := by
  intro c data found c' held both
  simp only [Bind.bind, EStateM.bind] at both
  split at both
  · next value mid one =>
    obtain ⟨used, rest, rfl, isValue, held, moved⟩ := h c _ value mid held one
    obtain ⟨more, rest, rfl, isFound, held, further⟩ := h' used value isValue mid _ found c' held both
    exact ⟨used ++ more, rest, by rw [List.append_assoc], isFound, held, by simpa using moved.trans further⟩
  · cases both

theorem finds_ite {p : Prop} [Decidable p] {reader other : EStateM Fault (Cursor σ) α}
    (h : p → Finds holds reader is) (h' : ¬ p → Finds holds other is) :
    Finds holds (if p then reader else other) is := by
  split
  · next yes => exact h yes
  · next no => exact h' no

theorem finds_optional {there : Bool} {is : Bytes → Prop} {reader : EStateM Fault (Cursor σ) Bytes}
    (h : Finds holds reader fun used part => part = used ∧ is used) :
    Finds holds (optional there reader) fun used part => part = used ∧ Optional there is used := by
  cases there with
  | false => exact finds_pure ⟨rfl, rfl⟩
  | true => exact h

end Finds

theorem finds_take (n : Nat) : Finds holds (take n) fun used part => part = used ∧ used.length = n := by
  intro c data part c' held found
  obtain ⟨c'', read, after, moved⟩ := readUpTo_holds steady n [] held
  have read : readUpTo n [] c = .ok (data.take n) c'' := by simpa using read
  simp only [take, Bind.bind, EStateM.bind, read] at found
  split at found
  · cases found
  · next long =>
    cases found
    have := List.length_take_le n data
    exact ⟨data.take n, data.drop n, (List.take_append_drop n data).symm, ⟨rfl, by omega⟩, after, moved.toMoved⟩

theorem finds_text (room : Nat) : Finds holds (takeText room) fun used part => part = used ∧
    ∃ text, 0 ∉ text ∧ text.length ≤ room ∧ used = text ++ [0] := by
  induction room with
  | zero =>
    apply (finds_take steady 1).bind
    rintro _ used ⟨rfl, -⟩
    apply finds_ite
    · rintro rfl
      exact finds_pure ⟨rfl, [], by simp⟩
    · intro _
      exact finds_throw _
  | succ room ih =>
    apply (finds_take steady 1).bind
    rintro _ used ⟨rfl, one⟩
    apply finds_ite
    · rintro rfl
      exact finds_pure ⟨rfl, [], by simp⟩
    · intro other
      obtain ⟨b, rfl⟩ := List.length_eq_one_iff.1 one
      apply ih.bind
      rintro _ more ⟨rfl, text, zero, size, rfl⟩
      refine finds_pure ⟨by simp, b :: text, ?_, Nat.succ_le_succ size, by simp⟩
      rw [List.mem_cons, not_or]
      refine ⟨?_, zero⟩
      rintro rfl
      exact other rfl

theorem finds_extra : Finds holds takeExtra fun used part => part = used ∧ IsExtra used := by
  apply (finds_take steady 2).bind
  rintro _ size ⟨rfl, two⟩
  apply (finds_take steady _).bind
  rintro _ more ⟨rfl, length⟩
  exact finds_pure ⟨by simp, size, more, two, length, by simp⟩

theorem finds_start : Finds holds takeStart fun used start => start = used ∧ IsStart used := by
  apply (finds_take steady 10).bind
  rintro _ start ⟨rfl, size⟩
  apply finds_ite
  · rintro ⟨magic, known⟩
    exact finds_pure ⟨by simp, by simpa using size, by simpa using magic, by simpa using known⟩
  · intro _
    exact finds_throw _

/-- What is read as a header is one. -/
theorem finds_header : Finds holds takeHeader fun used _ => IsHeader used := by
  apply (finds_start steady).bind
  rintro _ start ⟨rfl, isStart⟩
  have parts : Finds holds (takeParts (Flags.ofByte (start.getD 3 0))) fun used all => all = used ∧
      ∃ extra name comment, Optional (Flags.ofByte (start.getD 3 0)).extra IsExtra extra ∧
        Optional (Flags.ofByte (start.getD 3 0)).name IsText name ∧
        Optional (Flags.ofByte (start.getD 3 0)).comment IsText comment ∧ used = extra ++ name ++ comment := by
    have text : Finds holds (takeText longestText) fun used part => part = used ∧ IsText used :=
      finds_text steady longestText
    apply (finds_optional (finds_extra steady)).bind
    rintro _ extra ⟨rfl, isExtra⟩
    apply (finds_optional text).bind
    rintro _ name ⟨rfl, isName⟩
    apply (finds_optional text).bind
    rintro _ comment ⟨rfl, isComment⟩
    exact finds_pure ⟨by simp, extra, name, comment, isExtra, isName, isComment, by simp⟩
  apply parts.bind
  rintro _ _ ⟨rfl, extra, name, comment, isExtra, isName, isComment, rfl⟩
  have checksum : Finds holds (takeChecksum (start ++ (extra ++ name ++ comment))) fun used part => part = used ∧
      (used.length = 2 ∧ used.littleEndian = headerChecksum (start ++ (extra ++ name ++ comment))) := by
    apply (finds_take steady 2).bind
    rintro _ used ⟨rfl, two⟩
    apply finds_ite
    · intro right
      exact finds_pure ⟨by simp, by simpa using two, by simpa using right⟩
    · intro _
      exact finds_throw _
  apply (finds_optional checksum).bind
  rintro _ sum ⟨rfl, isSum⟩
  exact finds_pure ⟨start, extra, name, comment, sum, isStart, isExtra, isName, isComment, isSum, by simp⟩

theorem finds_trailer (content : Bytes) : Finds holds (takeTrailer content) fun used _ => used = trailer content := by
  apply (finds_take steady 8).bind
  rintro _ used ⟨rfl, -⟩
  apply finds_ite
  · rintro rfl
    exact finds_pure (by simp)
  · intro _
    exact finds_throw _

end ArcFile.Gzip.Member
