import ArcFile.Proofs.Archive.Reading
/-!
Records in the hands of a reader. The reader may read, look ahead and take some of what it saw, close the
record and go on calling, in any order. Over a steady source none of it faults, the bytes handed out are
always the first of the content, and the record ends as `Entry.closed` has it.
-/
namespace ArcFile.Entry

variable {τ : Type}

/-- What a reader may do with an open record. -/
inductive Call where
  | read (n : Nat)
  /-- Shows what is at hand. -/
  | fill
  /-- Takes `n` of the bytes that were shown last, or all if there are fewer. -/
  | consume (n : Nat)
  | close
  deriving DecidableEq, Repr

structure Hand (τ : Type) where
  entry : Entry τ
  /-- All that has been handed out. -/
  out : Bytes
  /-- What has been shown and can be taken. -/
  shown : Bytes

namespace Hand

def start (entry : Entry τ) : Hand τ := ⟨entry, [], []⟩

variable [Supply τ]

def call (hand : Hand τ) : Call → Outcome (Hand τ) Unit
  | .read n =>
    match hand.entry.read n with
    | .ok data entry => .ok () ⟨entry, hand.out ++ data, []⟩
    | .error fault entry => .error fault ⟨entry, hand.out, []⟩
  | .fill =>
    match hand.entry.fill with
    | .ok data entry => .ok () ⟨entry, hand.out, data⟩
    | .error fault entry => .error fault ⟨entry, hand.out, []⟩
  | .consume n =>
    .ok () ⟨hand.entry.advance (hand.shown.take n).length, hand.out ++ hand.shown.take n,
      hand.shown.drop n⟩
  | .close =>
    match hand.entry.close with
    | .ok () entry => .ok () ⟨entry, hand.out, []⟩
    | .error fault entry => .error fault ⟨entry, hand.out, []⟩

/-- Makes one call after the other, up to the first fault. -/
def calls : List Call → Hand τ → Outcome (Hand τ) Unit
  | [], hand => .ok () hand
  | call :: more, hand =>
    match hand.call call with
    | .ok () hand => calls more hand
    | .error fault hand => .error fault hand

end Hand

/-- The record has been closed, and has left its source behind it. -/
def Done (holds : τ → Bytes → Prop) [Supply τ] (source : Cursor τ) (options : Options) (f : Frame)
    (opened entry : Entry τ) : Prop :=
  ∃ source', entry = opened.closed options f source' ∧
    Cursor.Past holds source f.behind source' (f.left opened.isMember) ∧
    (opened.isMember → Supply.Spent holds source'.supply)

/-- How far a reader of the record may have come. -/
inductive Hand.Stands [Supply τ] (holds : τ → Bytes → Prop) (source : Cursor τ) (options : Options)
    (f : Frame) (opened : Entry τ) (hand : Hand τ) : Prop where
  | reading {rest : Bytes} (reads : Reads holds source options f opened hand.entry rest)
    (cut : f.content options = hand.out ++ rest)
    (shown : hand.shown = [] ∨ hand.shown = hand.entry.atHand)
  | closed (done : Done holds source options f opened hand.entry)
    (cut : hand.out <+: f.content options) (shown : hand.shown = [])

variable [Supply τ] {holds : τ → Bytes → Prop} (steady : Supply.Steady holds) {source : Cursor τ}
  {options : Options} {f : Frame} {opened entry : Entry τ} {hand : Hand τ}

theorem Hand.Stands.prefix_out (h : hand.Stands holds source options f opened) :
    hand.out <+: f.content options := by
  cases h with
  | reading reads cut shown => exact ⟨_, cut.symm⟩
  | closed done cut shown => exact cut

theorem Done.read (n : Nat) (h : Done holds source options f opened entry) :
    entry.read n = .ok [] entry := by
  obtain ⟨source', rfl, -, -⟩ := h
  rfl

theorem Done.fill (h : Done holds source options f opened entry) : entry.fill = .ok [] entry := by
  obtain ⟨source', rfl, -, -⟩ := h
  rfl

theorem Done.advance (n : Nat) (h : Done holds source options f opened entry) :
    entry.advance n = entry := by
  obtain ⟨source', rfl, -, -⟩ := h
  rfl

theorem Done.close (h : Done holds source options f opened entry) : entry.close = .ok () entry := by
  obtain ⟨source', rfl, -, -⟩ := h
  rfl

include steady

theorem Hand.close_stands (room : 0 < source.pushbackSize) (is : opened.options = options)
    (h : hand.Stands holds source options f opened) :
    ∃ entry, hand.entry.close = .ok () entry ∧ Done holds source options f opened entry := by
  cases h with
  | reading reads cut shown =>
    obtain ⟨source', closed, past, spent⟩ := close_reads steady room is reads
    exact ⟨_, closed, source', rfl, past, spent⟩
  | closed done cut shown => exact ⟨hand.entry, done.close, done⟩

/-- No call faults, and each leaves the record in a state that the reader may have come to. -/
theorem Hand.call_stands (room : 0 < source.pushbackSize) (is : opened.options = options) (call : Call)
    (h : hand.Stands holds source options f opened) :
    ∃ hand', hand.call call = .ok () hand' ∧ hand'.Stands holds source options f opened := by
  cases call with
  | read n =>
    cases h with
    | reading reads cut shown =>
      obtain ⟨got, rest', entry, found, rfl, -, after⟩ := (steady_reads steady).read n reads
      have found : hand.entry.read n = .ok got entry := found
      refine ⟨⟨entry, hand.out ++ got, []⟩, by simp only [Hand.call, found], .reading after ?_ (.inl rfl)⟩
      rw [cut, List.append_assoc]
    | closed done cut shown =>
      have found : hand.entry.read n = .ok [] hand.entry := done.read n
      exact ⟨⟨hand.entry, hand.out ++ [], []⟩, by simp only [Hand.call, found],
        .closed done (by rwa [List.append_nil]) rfl⟩
  | fill =>
    cases h with
    | reading reads cut shown =>
      obtain ⟨entry, found, after⟩ := fill_reads steady reads
      exact ⟨⟨entry, hand.out, entry.atHand⟩, by simp only [Hand.call, found],
        .reading after cut (.inr rfl)⟩
    | closed done cut shown =>
      have found : hand.entry.fill = .ok [] hand.entry := done.fill
      exact ⟨⟨hand.entry, hand.out, []⟩, by simp only [Hand.call, found], .closed done cut rfl⟩
  | consume n =>
    refine ⟨_, rfl, ?_⟩
    cases h with
    | reading reads cut shown =>
      have seen : hand.shown <+: hand.entry.atHand := by
        rcases shown with none | all
        · rw [none]
          exact List.nil_prefix
        · exact all ▸ List.prefix_refl _
      have first : hand.shown.take n <+: hand.shown := List.take_prefix _ _
      have part := first.trans seen
      obtain ⟨more, rfl⟩ := part.trans reads.prefix_atHand
      refine .reading (advance_reads reads part.length_le) ?_ ?_
      · rw [cut, List.drop_left, List.append_assoc]
      · rcases shown with none | all
        · exact .inl (by rw [none, List.drop_nil])
        · rw [all]
          rcases Nat.lt_or_ge n hand.entry.atHand.length with fewer | most
          · right
            rw [List.length_take, Nat.min_eq_left (Nat.le_of_lt fewer), atHand_advance fewer]
          · exact .inl (List.drop_eq_nil_of_le most)
    | closed done cut shown =>
      rw [shown, List.take_nil, List.drop_nil, List.append_nil]
      refine .closed ?_ cut rfl
      rw [done.advance]
      exact done
  | close =>
    obtain ⟨entry, closed, done⟩ := Hand.close_stands steady room is h
    exact ⟨⟨entry, hand.out, []⟩, by simp only [Hand.call, closed], .closed done h.prefix_out rfl⟩

theorem Hand.calls_stand (room : 0 < source.pushbackSize) (is : opened.options = options)
    (calls : List Call) (h : hand.Stands holds source options f opened) :
    ∃ hand', Hand.calls calls hand = .ok () hand' ∧ hand'.Stands holds source options f opened := by
  induction calls generalizing hand with
  | nil => exact ⟨hand, rfl, h⟩
  | cons call more ih =>
    obtain ⟨next, called, stands⟩ := Hand.call_stands steady room is call h
    obtain ⟨last, all, ended⟩ := ih stands
    exact ⟨last, by simp only [Hand.calls, called, all], ended⟩

end ArcFile.Entry
