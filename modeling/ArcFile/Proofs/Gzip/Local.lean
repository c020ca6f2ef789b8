import ArcFile.Gzip.Block
/-!
Bit readers look no further than they must. What a reader makes of some bits does not change when more bytes
arrive, so deflate data means the same in whatever pieces it comes.
-/
namespace ArcFile.Gzip.BitReader

variable {α β : Type}

/-- The reader makes the same of the bits whatever bytes follow them. If they are too few, it cannot do
without some of what follows. -/
structure Local (reader : BitReader α) : Prop where
  suffix : ∀ {bits rest : Bits} {value : α} {le : rest.length ≤ bits.length},
    reader bits = .done value rest le → rest <:+ bits
  done : ∀ {bits more rest : Bits} {value : α} {le : rest.length ≤ bits.length}, more.length % 8 = 0 →
    reader bits = .done value rest le → ∃ le', reader (bits ++ more) = .done value (rest ++ more) le'
  corrupt : ∀ {bits more : Bits}, more.length % 8 = 0 → reader bits = .corrupt →
    reader (bits ++ more) = .corrupt
  short : ∀ {bits more rest : Bits} {value : α} {le : rest.length ≤ (bits ++ more).length},
    more.length % 8 = 0 → reader bits = .short → reader (bits ++ more) = .done value rest le →
    rest.length < more.length

section Bind

variable {first : BitReader α} {next : α → BitReader β} {bits mid rest : Bits} {a : α} {b : β}

theorem bind_done {le : mid.length ≤ bits.length} (h : first bits = .done a mid le)
    {le' : rest.length ≤ mid.length} (h' : next a mid = .done b rest le') :
    (first >>= next) bits = .done b rest (Nat.le_trans le' le) := by
  simp only [bind, h, h']

theorem bind_corrupt (h : first bits = .corrupt) : (first >>= next) bits = .corrupt := by
  simp only [bind, h]

theorem bind_done_corrupt {le : mid.length ≤ bits.length} (h : first bits = .done a mid le)
    (h' : next a mid = .corrupt) : (first >>= next) bits = .corrupt := by
  simp only [bind, h, h']

theorem bind_eq_done {le : rest.length ≤ bits.length} (h : (first >>= next) bits = .done b rest le) :
    ∃ a mid le le', first bits = .done a mid le ∧ next a mid = .done b rest le' := by
  simp only [bind] at h
  split at h
  · next a mid le found =>
    split at h
    · next less found' =>
      cases h
      exact ⟨a, mid, le, less, found, found'⟩
    · cases h
    · cases h
  · cases h
  · cases h

theorem bind_eq_short (h : (first >>= next) bits = .short) :
    first bits = .short ∨ ∃ a mid le, first bits = .done a mid le ∧ next a mid = .short := by
  simp only [bind] at h
  split at h
  · next a mid le found =>
    split at h
    · cases h
    · next found' => exact .inr ⟨a, mid, le, found, found'⟩
    · cases h
  · next found => exact .inl found
  · cases h

theorem bind_eq_corrupt (h : (first >>= next) bits = .corrupt) :
    first bits = .corrupt ∨ ∃ a mid le, first bits = .done a mid le ∧ next a mid = .corrupt := by
  simp only [bind] at h
  split at h
  · next a mid le found =>
    split at h
    · cases h
    · cases h
    · next found' => exact .inr ⟨a, mid, le, found, found'⟩
  · cases h
  · next found => exact .inl found

end Bind

theorem local_pure (value : α) : Local (pure value) where
  suffix h := by
    cases h
    exact List.suffix_refl _
  done _ h := by
    cases h
    exact ⟨Nat.le_refl _, rfl⟩
  corrupt _ h := by cases h
  short _ h := by cases h

theorem local_fail : Local (fail : BitReader α) where
  suffix h := by cases h
  done _ h := by cases h
  corrupt _ _ := rfl
  short _ h := by cases h

theorem local_bit : Local bit where
  suffix {bits _ _ _} h := by
    cases bits with
    | nil => cases h
    | cons b rest =>
      cases h
      exact List.suffix_cons _ _
  done {bits more _ _ _} _ h := by
    cases bits with
    | nil => cases h
    | cons b rest =>
      cases h
      exact ⟨_, rfl⟩
  corrupt {bits more} _ h := by cases bits <;> cases h
  short {bits more _ _ _} _ h h' := by
    cases bits with
    | nil =>
      cases more with
      | nil => cases h'
      | cons b rest =>
        cases h'
        exact Nat.lt_succ_self _
    | cons b rest => cases h

theorem Local.bind {first : BitReader α} {next : α → BitReader β} (h : first.Local)
    (h' : ∀ a, (next a).Local) : (first >>= next).Local where
  suffix found := by
    obtain ⟨a, mid, _, _, one, two⟩ := bind_eq_done found
    exact ((h' a).suffix two).trans (h.suffix one)
  done whole found := by
    obtain ⟨a, mid, _, _, one, two⟩ := bind_eq_done found
    obtain ⟨_, one⟩ := h.done whole one
    obtain ⟨_, two⟩ := (h' a).done whole two
    exact ⟨_, bind_done one two⟩
  corrupt whole found := by
    rcases bind_eq_corrupt found with one | ⟨a, mid, _, one, two⟩
    · exact bind_corrupt (h.corrupt whole one)
    · obtain ⟨_, one⟩ := h.done whole one
      exact bind_done_corrupt one ((h' a).corrupt whole two)
  short whole found later := by
    obtain ⟨a, mid, _, less, one, two⟩ := bind_eq_done later
    rcases bind_eq_short found with first | ⟨a', mid', _, first, second⟩
    · exact Nat.lt_of_le_of_lt less (h.short whole first one)
    · obtain ⟨_, same⟩ := h.done whole first
      rw [same] at one
      cases one
      exact (h' _).short whole second two

theorem local_number (width : Nat) : (number width).Local := by
  induction width with
  | zero => exact local_pure _
  | succ width ih =>
    apply local_bit.bind
    intro b
    apply ih.bind
    intro n
    exact local_pure _

theorem local_times {reader : BitReader α} (h : reader.Local) (count : Nat) : (times count reader).Local := by
  induction count with
  | zero => exact local_pure _
  | succ count ih =>
    apply h.bind
    intro value
    apply ih.bind
    intro more
    exact local_pure _

theorem local_ite (p : Prop) [Decidable p] {reader other : BitReader α} (h : reader.Local)
    (h' : other.Local) : (if p then reader else other).Local := by
  split
  · exact h
  · exact h'

end BitReader

theorem CodeTree.local_read (tree : CodeTree) : tree.read.Local := by
  induction tree with
  | nothing => exact BitReader.local_fail
  | symbol value => exact BitReader.local_pure value
  | fork zero one ih ih' =>
    apply BitReader.local_bit.bind
    intro b
    exact BitReader.local_ite _ ih' ih

theorem Code.local_read (code : Code) : code.read.Local := by
  apply BitReader.local_bit.bind
  intro b
  exact BitReader.local_ite _ code.one.local_read code.zero.local_read

namespace Token

theorem local_readCopy (codes : Codes) (least extra : Nat) (le : least + (1 <<< extra) ≤ 259) :
    (readCopy codes least extra le).Local := by
  apply (BitReader.local_number extra).bind
  intro more
  apply codes.distance.local_read.bind
  intro symbol
  split
  · exact BitReader.local_fail
  · apply (BitReader.local_number _).bind
    intro further
    exact BitReader.local_pure _

theorem local_read (codes : Codes) : (read codes).Local := by
  apply codes.literal.local_read.bind
  intro symbol
  refine BitReader.local_ite _ (BitReader.local_pure _) (BitReader.local_ite _ (BitReader.local_pure _) ?_)
  split
  · exact BitReader.local_fail
  · exact local_readCopy codes _ _ _

end Token

namespace BlockHeader

theorem local_readLengths (code : Code) (need : Nat) (known : List Nat) :
    (readLengths code need known).Local := by
  induction need using Nat.strongRecOn generalizing known with
  | ind need ih =>
    unfold readLengths
    split
    · exact BitReader.local_pure _
    · apply code.local_read.bind
      intro symbol
      refine BitReader.local_ite _ (ih _ (by omega) _) (BitReader.local_ite _ ?_ (BitReader.local_ite _ ?_ ?_))
      -- the length before is repeated
      · split
        · exact BitReader.local_fail
        · apply (BitReader.local_number 2).bind
          intro n
          exact BitReader.local_ite _ BitReader.local_fail (ih _ (by omega) _)
      -- some zeros
      · apply (BitReader.local_number 3).bind
        intro n
        exact BitReader.local_ite _ BitReader.local_fail (ih _ (by omega) _)
      -- many zeros
      · apply (BitReader.local_number 7).bind
        intro n
        exact BitReader.local_ite _ BitReader.local_fail (ih _ (by omega) _)

theorem local_requireCode (lenient : Bool) (lengths : List Nat) : (requireCode lenient lengths).Local := by
  unfold requireCode
  split
  · exact BitReader.local_pure _
  · exact BitReader.local_fail

theorem local_readCodes : readCodes.Local := by
  apply (BitReader.local_number 5).bind
  intro literals
  apply (BitReader.local_number 5).bind
  intro distances
  apply (BitReader.local_number 4).bind
  intro given
  apply BitReader.local_ite _ BitReader.local_fail
  apply (BitReader.local_times (BitReader.local_number 3) _).bind
  intro lengths
  apply (local_requireCode _ _).bind
  intro code
  apply (local_readLengths _ _ _).bind
  intro all
  apply (local_requireCode _ _).bind
  intro distance
  apply (local_requireCode _ _).bind
  intro literal
  exact BitReader.local_pure _

/-- Where the next byte begins does not depend on the bytes that follow. -/
theorem local_align : align.Local where
  suffix h := by
    cases h
    exact List.drop_suffix _ _
  done {bits more _ _ _} whole h := by
    cases h
    have same : (bits ++ more).length % 8 = bits.length % 8 := by
      rw [List.length_append]
      omega
    refine ⟨by simp, ?_⟩
    unfold align
    congr 1
    rw [same, List.drop_append_of_le_length (Nat.mod_le _ _)]
  corrupt _ h := by cases h
  short _ h := by cases h

theorem local_readSize : readSize.Local := by
  apply local_align.bind
  intro aligned
  apply (BitReader.local_number 16).bind
  intro size
  apply (BitReader.local_number 16).bind
  intro flipped
  exact BitReader.local_ite _ (BitReader.local_pure _) BitReader.local_fail

theorem local_read : read.Local := by
  apply BitReader.local_bit.bind
  intro last
  apply BitReader.local_bit.bind
  intro low
  apply BitReader.local_bit.bind
  intro high
  cases low <;> cases high
  · apply local_readSize.bind
    intro size
    exact BitReader.local_pure _
  · apply local_readCodes.bind
    intro codes
    exact BitReader.local_pure _
  · exact BitReader.local_pure _
  · exact BitReader.local_fail

end BlockHeader
end ArcFile.Gzip
