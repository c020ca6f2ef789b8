import ArcFile.Proofs.Archive.Frame
import Mathlib.Algebra.GroupWithZero.Nat
/-!
The frames of a file. `Frame.plain` and `Frame.packed` give them from the bytes of plain data and from the gzip
members of packed data alone.
-/
namespace ArcFile

namespace Frame

/-- The bytes of input from the header line up to what is left when the record has been closed. -/
def extent (isMember : Bool) (f : Frame) : Nat :=
  f.header.size + (f.behind.length - (f.left isMember).length)

/-- A record in plain data extends to the end of its content and the line ends behind it, which only count if
no content is missing. -/
theorem extent_plain (f : Frame) : f.extent false = f.header.size + (f.region.length +
    if f.missing = 0 then (f.after.takeWhile Bytes.isLineEnd).length else 0) := by
  have split := congrArg List.length (List.takeWhile_append_dropWhile (p := Bytes.isLineEnd) (l := f.after))
  rw [List.length_append] at split
  have parts := f.after_length
  have lineEnds : (if f.missing = 0 then (f.after.takeWhile Bytes.isLineEnd).length else 0) =
      (f.after.takeWhile Bytes.isLineEnd).length := by
    by_cases whole : f.missing = 0
    · rw [if_pos whole]
    · rw [if_neg whole, after_of_missing whole]
      rfl
  rw [lineEnds, extent]
  change _ + (_ - (f.after.dropWhile Bytes.isLineEnd).length) = _
  omega

/-- The records of plain data, which begins `pos` bytes behind offset `base` of its file; and what is wrong
behind the last of them. -/
def plain (base pos : Nat) (data : Bytes) : List Frame × Findings :=
  match found : RecordHeader.first pos data with
  | (none, findings, _) => ([], findings)
  | (some header, findings, behind) =>
    let f : Frame := ⟨{ header with start := base + header.start }, findings, behind⟩
    have : f.rest.length < data.length := by
      obtain ⟨_, stands⟩ := RecordHeader.first_stands found
      exact Nat.lt_of_le_of_lt (f.left_suffix false).length_le stands.length_lt
    let (more, last) := plain base (pos + (data.length - f.rest.length)) f.rest
    (f :: more, last)
termination_by data.length

/-- A record in plain data ends where what is left of the data begins. -/
theorem extent_of_stands {pos before : Nat} {data : Bytes} {header : RecordHeader} {f : Frame}
    (stands : RecordHeader.Stands pos data header f.behind before) (size : f.header.size = header.size) :
    before + f.extent false = data.length - f.rest.length ∧ f.rest.length < data.length := by
  have within := stands.lt
  have behind := congrArg List.length stands.behind
  have fewer : f.rest.length ≤ f.behind.length := (f.left_suffix false).length_le
  have extent : f.extent false = f.header.size + (f.behind.length - f.rest.length) := rfl
  rw [List.length_drop] at behind
  omega

/-- A header line that is found opens a frame. -/
theorem exists_of_found (base : Nat) (header : RecordHeader) (findings : Findings) (behind : Bytes) :
    ∃ f : Frame, f.header = { header with start := base + header.start } ∧ findings = f.found ∧ behind = f.behind :=
  ⟨⟨_, findings, behind⟩, rfl, rfl, rfl⟩

theorem plain_none {base pos : Nat} {data behind : Bytes} {findings : Findings}
    (first : RecordHeader.first pos data = (none, findings, behind)) : plain base pos data = ([], findings) := by
  unfold plain
  split
  · next other =>
    rw [first] at other
    cases other
    rfl
  · next other =>
    rw [first] at other
    cases other

theorem plain_some {base pos : Nat} {data : Bytes} {f : Frame} {header : RecordHeader}
    (first : RecordHeader.first pos data = (some header, f.found, f.behind))
    (is : f.header = { header with start := base + header.start }) :
    plain base pos data = (f :: (plain base (pos + (data.length - f.rest.length)) f.rest).1,
      (plain base (pos + (data.length - f.rest.length)) f.rest).2) := by
  conv => lhs; unfold plain
  split
  · next other =>
    rw [first] at other
    cases other
  · next other =>
    rw [first] at other
    cases other
    simp only [← is]

/-- Data without a record is passed over to its end. -/
theorem first_of_plain_nil {base pos : Nat} {data : Bytes} {last : Findings}
    (nothing : plain base pos data = ([], last)) : RecordHeader.first pos data = (none, last, []) := by
  rcases first : RecordHeader.first pos data with ⟨none | header, findings, behind⟩
  · rw [plain_none first] at nothing
    cases nothing
    rw [RecordHeader.behind_of_first_none first]
  · obtain ⟨f, is, rfl, rfl⟩ := exists_of_found base header findings behind
    rw [plain_some first is] at nothing
    cases nothing

/-- The records in gzip members with these bytes and contents, the first of which begins `pos` bytes behind
offset `base`. What is found in members without a record counts for the next one. -/
def packed (base pos : Nat) (found : Findings) : List (Bytes × Bytes) → List Frame × Findings
  | [] => ([], found)
  | (member, content) :: members =>
    match RecordHeader.first 0 content with
    | (none, findings, _) => packed base (pos + member.length) (found ++ findings) members
    | (some header, findings, behind) =>
      let (more, last) := packed base (pos + member.length) .none members
      (⟨{ header with start := base + pos }, found ++ findings, behind⟩ :: more, last)

/-- The number of bytes of the members. -/
def membersSize (members : List (Bytes × Bytes)) : Nat := (members.map (·.1.length)).sum

theorem membersSize_cons (m : Bytes × Bytes) (members : List (Bytes × Bytes)) :
    membersSize (m :: members) = m.1.length + membersSize members := by
  simp [membersSize]

/-- The frames of members are those of the first ones and then those of the others. -/
theorem packed_append (base pos : Nat) (found : Findings) (members more : List (Bytes × Bytes)) :
    packed base pos found (members ++ more) =
      ((packed base pos found members).1 ++
          (packed base (pos + membersSize members) (packed base pos found members).2 more).1,
        (packed base (pos + membersSize members) (packed base pos found members).2 more).2) := by
  induction members generalizing pos found with
  | nil => rfl
  | cons m members ih =>
    obtain ⟨member, content⟩ := m
    rw [List.cons_append, packed, packed, membersSize_cons, ← Nat.add_assoc]
    rcases RecordHeader.first 0 content with ⟨none | header, findings, behind⟩
    · dsimp only
      rw [ih]
    · dsimp only
      rw [ih]
      rfl

/-- There is one frame for each member with a header line. -/
theorem length_packed (base pos : Nat) (found : Findings) (members : List (Bytes × Bytes)) :
    (packed base pos found members).1.length = members.countP (RecordHeader.isIn ·.2) := by
  induction members generalizing pos found with
  | nil => rfl
  | cons m members ih =>
    obtain ⟨member, content⟩ := m
    have isSome := RecordHeader.isSome_first 0 content
    rw [packed]
    rcases first : RecordHeader.first 0 content with ⟨none | header, findings, behind⟩
    · rw [first] at isSome
      rw [List.countP_cons_of_neg (by simp [← isSome])]
      exact ih _ _
    · rw [first] at isSome
      rw [List.countP_cons_of_pos (by simp [← isSome])]
      exact congrArg (· + 1) (ih _ _)

/-- The frame of a member with a header line comes behind those of the members before. -/
theorem getElem?_packed (base pos : Nat) (found : Findings) (before after : List (Bytes × Bytes)) (member : Bytes)
    {content behind : Bytes} {header : RecordHeader} {findings : Findings}
    (first : RecordHeader.first 0 content = (some header, findings, behind)) :
    (packed base pos found (before ++ (member, content) :: after)).1[before.countP (RecordHeader.isIn ·.2)]? =
      some ⟨{ header with start := base + (pos + membersSize before) }, (packed base pos found before).2 ++ findings,
        behind⟩ := by
  rw [packed_append, ← length_packed base pos found before, List.getElem?_append_right (Nat.le_refl _), Nat.sub_self,
    packed, first]
  rfl

/-- For each of these members, the first of which begins at `offset`, `endOf` tells from the offset where it begins
that where it ends. -/
def Located (endOf : Nat → Nat) : (offset : Nat) → List (Bytes × Bytes) → Prop
  | _, [] => True
  | offset, m :: members => endOf offset = offset + m.1.length ∧ Located endOf (offset + m.1.length) members

/-- Only the offsets of the members matter. -/
theorem Located.congr {endOf endOf' : Nat → Nat} {offset : Nat} {members : List (Bytes × Bytes)}
    (h : Located endOf offset members) (same : ∀ n, offset ≤ n → endOf' n = endOf n) :
    Located endOf' offset members := by
  induction members generalizing offset with
  | nil => trivial
  | cons m members ih =>
    obtain ⟨here, more⟩ := h
    refine ⟨by rw [same offset (Nat.le_refl _), here], ih more ?_⟩
    intro n le
    exact same n (by omega)

theorem exists_located (offset : Nat) {members : List (Bytes × Bytes)} (nonempty : ∀ m ∈ members, m.1 ≠ []) :
    ∃ endOf, Located endOf offset members := by
  induction members generalizing offset with
  | nil => exact ⟨id, trivial⟩
  | cons m members ih =>
    have pos : 0 < m.1.length := List.length_pos_iff.2 (nonempty m List.mem_cons_self)
    obtain ⟨endOf, located⟩ := ih (offset + m.1.length) fun m' some => nonempty m' (List.mem_cons_of_mem _ some)
    refine ⟨fun n => if n = offset then offset + m.1.length else endOf n, if_pos rfl, located.congr ?_⟩
    intro n le
    exact if_neg (by omega)

theorem Located.of_append {endOf : Nat → Nat} {offset : Nat} {before members : List (Bytes × Bytes)}
    (h : Located endOf offset (before ++ members)) : Located endOf (offset + membersSize before) members := by
  induction before generalizing offset with
  | nil => exact h
  | cons m before ih =>
    rw [membersSize_cons, ← Nat.add_assoc]
    exact ih h.2

/-- The record stands in one of the members, which begin at `pos`, and behind its member, at `pos'`, are
`members'`. -/
structure Within (base pos : Nat) (members : List (Bytes × Bytes)) (pos' : Nat) (members' : List (Bytes × Bytes))
    (f : Frame) : Prop where
  fewer : members'.length < members.length
  size : pos' + membersSize members' = pos + membersSize members
  located : ∀ endOf, Located endOf (base + pos) members →
    endOf f.header.start = base + pos' ∧ Located endOf (base + pos') members'

theorem Within.first {base pos : Nat} {members : List (Bytes × Bytes)} {m : Bytes × Bytes} {f : Frame}
    (start : f.header.start = base + pos) : f.Within base pos (m :: members) (pos + m.1.length) members where
  fewer := Nat.lt_succ_self _
  size := by rw [membersSize_cons, Nat.add_assoc]
  located := by
    rintro endOf ⟨here, more⟩
    rw [start, here, Nat.add_assoc] at *
    exact ⟨rfl, more⟩

theorem Within.cons {base pos pos' : Nat} {members members' : List (Bytes × Bytes)} {m : Bytes × Bytes} {f : Frame}
    (h : f.Within base (pos + m.1.length) members pos' members') : f.Within base pos (m :: members) pos' members' where
  fewer := Nat.lt_succ_of_lt h.fewer
  size := by rw [h.size, membersSize_cons, Nat.add_assoc]
  located := by
    rintro endOf ⟨-, more⟩
    rw [Nat.add_assoc] at more
    exact h.located endOf more

end Frame
end ArcFile
