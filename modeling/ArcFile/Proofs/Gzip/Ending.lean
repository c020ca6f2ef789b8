import ArcFile.Proofs.Gzip.Unpacking
import ArcFile.Proofs.Supply.Endless
/-!
Only gzip members come to an end. Over any other data, an unpacker may give some content, but then it faults; it never
tells that the content has ended. So what has been read to its end was a member.
-/
namespace ArcFile.Gzip

namespace Inflater

/-- From the start of the deflate data `all`, the decoder has come to where `data` is still to come. Of what it has
decoded, `pending` bytes have not been delivered. -/
structure Comes (all : Bytes) (s : Inflater) (pending : Nat) (data : Bytes) : Prop where
  steps : Steps (start.feed all) (s.feed data)
  frugal : s.Frugal
  owes : pending ≤ s.window.size

variable {all before chunk data more : Bytes} {s : Inflater} {n pending : Nat}

theorem comes_start (all : Bytes) : start.Comes all 0 all := ⟨.refl _, .inl (Nat.zero_lt_succ _), Nat.zero_le _⟩

/-- At its end, the decoder has decoded what was before. -/
theorem Comes.inflates (h : s.Comes (before ++ data) pending data) (finished : s.phase = .finished) :
    Inflates before s.window.toList := by
  have steps := h.steps
  rw [← feed_feed] at steps
  refine ⟨s, steps.strip, finished, rfl, ?_⟩
  rcases h.frugal with few | short
  · exact Nat.div_eq_of_lt few
  · rw [step_of_finished finished] at short
    cases short

theorem process_comes (pos : 0 < n) (h : s.Comes all pending (chunk ++ more)) {p : Portion}
    (processed : s.process n pending chunk = .ok p) :
    p.unused ≤ chunk.length ∧ p.inflater.Comes all p.pending (chunk.drop (chunk.length - p.unused) ++ more) ∧
      (p.data = [] → p.inflater.phase = .finished ∨ p.unused < chunk.length) := by
  obtain ⟨most, steps, frugal, owes, empty⟩ := process_steps pos h.frugal h.owes processed
  refine ⟨most, ⟨h.steps.trans ?_, frugal, owes⟩, fun nothing => (empty nothing).2⟩
  rw [← feed_feed, ← feed_feed]
  exact steps.feed more

end Inflater

namespace Unpacker

variable {σ : Type} [Supply σ] {holds : σ → Bytes → Prop} (steady : Supply.Steady holds) {start stream : Cursor σ}
  {all data : Bytes} {n pending : Nat} {s : Inflater}

/-- The unpacker began behind the header of a member at `start`, which held `all`, and has not come to an end. -/
inductive Comes (holds : σ → Bytes → Prop) (start : Cursor σ) (all : Bytes) : Unpacker σ → Prop where
  | failed (stream : Cursor σ) (fault : Fault) : Comes holds start all ⟨stream, .failed fault⟩
  | content {stream : Cursor σ} {s : Inflater} {pending : Nat} {data : Bytes} (comes : s.Comes all pending data)
    (past : Cursor.Past holds start all stream data) : Comes holds start all ⟨stream, .content s pending⟩

include steady

/-- What is used of a chunk has been taken from the stream. -/
theorem chunk_comes (pos : 0 < n) (h : s.Comes all pending data) (past : Cursor.Past holds start all stream data)
    {chunk : Bytes} {filled : Cursor σ} {p : Inflater.Portion} (found : Cursor.fill stream = .ok chunk filled)
    (processed : s.process n pending chunk = .ok p) :
    ∃ data', p.inflater.Comes all p.pending data' ∧
      Cursor.Past holds start all (filled.advance (chunk.length - p.unused)) data' ∧
      (p.data = [] → p.inflater.phase = .finished ∨ p.unused < chunk.length) := by
  obtain ⟨stream', more, found', rfl, -, advanced⟩ := fill_past steady past
  obtain ⟨rfl, rfl⟩ := EStateM.Result.ok.inj (found.symm.trans found')
  obtain ⟨-, comes, empty⟩ := Inflater.process_comes pos h processed
  have past' := advanced (filled.atHand.length - p.unused) (Nat.sub_le _ _)
  rw [List.drop_append_of_le_length (Nat.sub_le _ _)] at past'
  exact ⟨_, comes, past', empty⟩

theorem pump_comes (pos : 0 < n) (h : s.Comes all pending data) (past : Cursor.Past holds start all stream data)
    {got : Bytes} {s' : Inflater} {pending' : Nat} {stream' : Cursor σ}
    (pumped : pump n pending s stream = .ok (got, s', pending') stream') :
    ∃ data', s'.Comes all pending' data' ∧ Cursor.Past holds start all stream' data' ∧
      (got = [] → s'.phase = .finished) := by
  fun_induction pump n pending s stream generalizing data with
  | case1 => cases pumped
  | case2 => cases pumped
  | case3 pending s stream chunk filled found p processed goes _ ih =>
    obtain ⟨data', comes, past', -⟩ := chunk_comes steady pos h past found processed
    exact ih comes past' pumped
  | case4 pending s stream chunk filled found p processed stays =>
    obtain ⟨data', comes, past', empty⟩ := chunk_comes steady pos h past found processed
    cases pumped
    refine ⟨data', comes, past', ?_⟩
    intro nothing
    rcases empty nothing with finished | fewer
    · exact finished
    · cases phase : p.inflater.phase with
      | finished => rfl
      | _ => exact absurd ⟨by simp [nothing], by simp [phase, Phase.isFinished], fewer⟩ stays

/-- If the deflate data of no member begins there, the unpacker never comes to an end. -/
theorem endless_comes
    (none : ∀ data content after, all = data ++ (Member.trailer content ++ after) → ¬ Inflates data content) :
    Supply.Endless (Comes holds start all) := by
  have read {n : Nat} {u u' : Unpacker σ} {got : Bytes} (h : Comes holds start all u) (found : read n u = .ok got u') :
      Comes holds start all u' ∧ (got = [] → n = 0) := by
    cases h with
    | failed stream fault => cases found
    | content comes past =>
      simp only [Unpacker.read] at found
      by_cases zero : n = 0
      · rw [if_pos zero] at found
        cases found
        exact ⟨.content comes past, fun _ => zero⟩
      · rw [if_neg zero] at found
        split at found
        · cases found
        · next s' pending' stream' pumped =>
          obtain ⟨data', comes', past', finished⟩ := pump_comes steady (Nat.pos_of_ne_zero zero) comes past pumped
          split at found
          · next trailed =>
            obtain ⟨before, rfl, held, -⟩ := past'
            obtain ⟨trailer, after, rfl, rfl, -⟩ := Member.finds_trailer steady _ _ _ _ _ held trailed
            exact absurd (comes'.inflates (finished rfl)) (none _ _ _ rfl)
          · cases found
        · next b more s' pending' stream' pumped =>
          obtain ⟨data', comes', past', -⟩ := pump_comes steady (Nat.pos_of_ne_zero zero) comes past pumped
          cases found
          refine ⟨.content comes' past', ?_⟩
          intro nothing
          cases nothing
  refine ⟨⟨?_⟩, ?_⟩
  · intro n u u' got h found
    exact (read h found).1
  · intro n u u' h found
    exact (read h found).2 rfl

/-- Over data that does not begin with a member, an unpacker never comes to an end. -/
theorem create_endless (other : ∀ member content after, data = member ++ after → ¬ Decodes member content)
    (held : stream.Holds holds data) : ∃ P, Supply.Endless P ∧ P (create stream) := by
  unfold create
  split
  · next header stream' found =>
    obtain ⟨header, rest, rfl, isHeader, behind, -⟩ := Member.finds_header steady _ _ _ _ held found
    refine ⟨Comes holds stream' rest, endless_comes steady ?_,
      .content (Inflater.comes_start rest) (Cursor.past_refl behind)⟩
    rintro data content after rfl inflates
    exact other (header ++ data ++ Member.trailer content) content after (by simp)
      ⟨header, data, isHeader, inflates, rfl⟩
  · next fault stream' found =>
    refine ⟨Comes holds stream' [], endless_comes steady ?_, .failed stream' fault⟩
    intro data content after whole
    have size := congrArg List.length whole
    simp only [Member.trailer, List.length_append, Bytes.length_toLittleEndian, List.length_nil] at size
    omega

end Unpacker
end ArcFile.Gzip
