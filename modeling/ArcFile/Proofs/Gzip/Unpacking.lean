import ArcFile.Proofs.Gzip.Header
import ArcFile.Proofs.Gzip.Inflating
/-!
The content of a gzip member. `Decodes` says of bytes alone that they are a member with some content. An unpacker
over a steady supply then gives just this content, whatever the sizes of the chunks and of the reads,
and leaves its stream behind the member.
-/
namespace ArcFile.Gzip

namespace Inflater

/-- With this data still to come, the decoder gets to its end with `content` decoded in all, and has no use
for the last `spare` bytes. -/
def Ends (content : Bytes) (spare : Nat) (s : Inflater) (data : Bytes) : Prop :=
  ∃ t, Steps (s.feed data) t ∧ t.phase = .finished ∧ t.window.toList = content ∧ t.bits.length / 8 = spare

/-- No whole byte has been taken in that could have been left. -/
def Frugal (s : Inflater) : Prop := s.bits.length < 8 ∨ s.step = .stop .short

variable {content data chunk more rest : Bytes} {spare n pending : Nat} {s t : Inflater}

theorem Ends.append (h : s.Ends content spare data) (more : Bytes) :
    s.Ends content (spare + more.length) (data ++ more) := by
  obtain ⟨t, steps, finished, window, left⟩ := h
  refine ⟨t.feed more, feed_feed s data more ▸ steps.feed more, finished, window, ?_⟩
  simp only [feed, List.length_append, Bits.length_ofBytes]
  omega

/-- What the decoder can do without some data at the end, it does on its way. -/
theorem Ends.onward {left : Bytes} (h : s.Ends content spare (chunk ++ more))
    (steps : Steps (s.feed chunk) (t.feed left)) : t.Ends content spare (left ++ more) := by
  obtain ⟨u, all, finished, window, size⟩ := h
  rw [← feed_feed] at all
  refine ⟨u, ?_, finished, window, size⟩
  rw [← feed_feed]
  exact (steps.feed more).onward all (step_of_finished finished)

theorem Ends.prefix_window (h : s.Ends content spare data) : s.window.toList <+: content := by
  obtain ⟨u, all, -, rfl, -⟩ := h
  exact all.suffix.2

/-- At the end all is decoded, and if the decoder is frugal only what is to spare is left. -/
theorem Ends.finished (h : s.Ends content spare data) (finished : s.phase = .finished)
    (frugal : s.Frugal) : s.window.toList = content ∧ data.length = spare := by
  obtain ⟨u, all, -, window, left⟩ := h
  obtain rfl := all.of_stop (step_of_finished (s := s.feed data) finished)
  have few : s.bits.length < 8 := by
    rcases frugal with few | short
    · exact few
    · rw [step_of_finished finished] at short
      cases short
  refine ⟨window, ?_⟩
  simp only [feed, List.length_append, Bits.length_ofBytes] at left
  omega

/-- On its way to the end, the decoder stops only for more data. -/
theorem Ends.of_stop {why : Stop} (h : s.Ends content spare data) (stop : s.step = .stop why) :
    why = .finished ∨ why = .short ∧ data ≠ [] := by
  obtain ⟨u, all, finished, -, -⟩ := h
  by_cases short : why = .short
  · right
    refine ⟨short, ?_⟩
    intro none
    rw [none, feed_nil] at all
    rw [all.of_stop stop] at finished
    rw [short, step_of_finished finished] at stop
    cases stop
  · obtain rfl := all.of_stop (step_stop_feed data short stop)
    rw [step_of_finished (s := s) finished] at stop
    cases stop
    exact .inl rfl

/-- Giving back the end of a chunk is as if it had not been taken in. -/
theorem feed_giveBack (le : n ≤ chunk.length) (enough : 8 * n ≤ t.bits.length)
    (suffix : t.bits <:+ (s.feed chunk).bits) : (t.giveBack n).feed (chunk.drop (chunk.length - n)) = t := by
  have last : t.bits.drop (t.bits.length - 8 * n) = Bits.ofBytes (chunk.drop (chunk.length - n)) := by
    have one : t.bits.drop (t.bits.length - 8 * n) <:+ (s.feed chunk).bits :=
      (List.drop_suffix _ _).trans suffix
    have two : Bits.ofBytes (chunk.drop (chunk.length - n)) <:+ (s.feed chunk).bits := by
      refine ⟨s.bits ++ Bits.ofBytes (chunk.take (chunk.length - n)), ?_⟩
      rw [List.append_assoc, ← Bits.ofBytes_append, List.take_append_drop]
      rfl
    have size : (t.bits.drop (t.bits.length - 8 * n)).length =
        (Bits.ofBytes (chunk.drop (chunk.length - n))).length := by
      rw [Bits.length_ofBytes, List.length_drop, List.length_drop]
      omega
    exact (List.suffix_of_suffix_length_le one two (Nat.le_of_eq size)).eq_of_length size
  simp only [feed, giveBack, ← last, List.take_append_drop]

/-- After the whole bytes of its bits have been given back, a decoder is frugal. -/
theorem frugal_giveBack (t : Inflater) : (t.giveBack (t.bits.length / 8)).Frugal := by
  refine .inl ?_
  simp only [giveBack, List.length_take]
  omega

/-- After a chunk, all whole bytes that are left are of this chunk, if the decoder was frugal before. -/
theorem Frugal.left_le (frugal : s.Frugal) (steps : Steps (s.feed chunk) t)
    (moved : t.phase = .finished ∨ s.window.size < t.window.size) : t.bits.length / 8 ≤ chunk.length := by
  rcases frugal with few | short
  · have := steps.suffix.1.length_le
    simp only [feed, List.length_append, Bits.length_ofBytes] at this
    omega
  · cases steps with
    | refl =>
      rcases moved with finished | grown
      · rw [step_of_finished (s := s) finished] at short
        cases short
      · exact absurd grown (Nat.lt_irrefl _)
    | step next more =>
      have := step_short short next
      have := more.suffix.1.length_le
      omega

/-- What is delivered comes next in the content. -/
theorem deliver_append (within : s.window.toList <+: content) (owes : pending ≤ s.window.size) :
    content.drop (s.window.size - pending) =
      s.deliver n pending ++ content.drop (s.window.size - (pending - min n pending)) := by
  obtain ⟨later, rfl⟩ := within
  have size : s.window.toList.length = s.window.size := Array.length_toList
  have delivered : s.deliver n pending =
      (s.window.toList.drop (s.window.size - pending)).take (min n pending) := by
    simp only [deliver, Array.toList_extract, List.extract_eq_take_drop, Nat.add_sub_cancel_left]
  have split : s.window.size - (pending - min n pending) = s.window.size - pending + min n pending := by
    omega
  rw [delivered, split, ← List.drop_drop, List.drop_append_of_le_length (by omega),
    List.drop_append_of_le_length (by rw [List.length_drop]; omega), ← List.append_assoc,
    List.take_append_drop]

theorem deliver_eq_nil (pos : 0 < n) (owes : pending ≤ s.window.size) (none : s.deliver n pending = []) :
    pending = 0 := by
  have size : (s.deliver n pending).length = min n pending := by
    simp only [deliver, Array.length_toList, Array.size_extract]
    omega
  rw [none, List.length_nil] at size
  omega

/-- The decoder has all of `content` to give in the end. It has delivered all but `rest`, of which it holds
`pending` bytes decoded, and `data` is still to come. -/
structure Gives (content : Bytes) (spare : Nat) (s : Inflater) (pending : Nat) (data rest : Bytes) :
    Prop where
  ends : s.Ends content spare data
  frugal : s.Frugal
  owes : pending ≤ s.window.size
  rest : rest = content.drop (s.window.size - pending)

theorem gives_start (h : start.Ends content spare data) : start.Gives content spare 0 data content :=
  ⟨h, .inl (Nat.zero_lt_succ _), Nat.zero_le _, rfl⟩

theorem Gives.finished (h : s.Gives content spare 0 data rest) (finished : s.phase = .finished) :
    s.window.toList = content ∧ rest = [] ∧ data.length = spare := by
  obtain ⟨window, left⟩ := h.ends.finished finished h.frugal
  have size : s.window.toList.length = s.window.size := Array.length_toList
  refine ⟨window, ?_, left⟩
  rw [h.rest, ← window, Nat.sub_zero, ← size, List.drop_length]

/-- A chunk is used as far as it is needed. Nothing is delivered only at the end, or to go on with the next chunk. -/
theorem process_steps (pos : 0 < n) (frugal : s.Frugal) (owes : pending ≤ s.window.size) {p : Portion}
    (h : s.process n pending chunk = .ok p) :
    p.unused ≤ chunk.length ∧ Steps (s.feed chunk) (p.inflater.feed (chunk.drop (chunk.length - p.unused))) ∧
      p.inflater.Frugal ∧ p.pending ≤ p.inflater.window.size ∧
      (p.data = [] → p.pending = 0 ∧ (p.inflater.phase = .finished ∨ p.unused < chunk.length)) := by
  unfold process at h
  by_cases owed : pending = 0
  · rw [if_neg (by simp [owed])] at h
    obtain ⟨steps, full, other⟩ := decodeBlocks_steps n (s.feed chunk)
    generalize (s.feed chunk).decodeBlocks n = after at *
    obtain ⟨t, why⟩ := after
    dsimp only at h steps full other
    have none := deliver_eq_nil (s := t) pos (Nat.sub_le t.window.size s.window.size)
    have whole : t.feed (chunk.drop chunk.length) = t := by rw [List.drop_length, feed_nil]
    cases why with
    | corrupt => cases h
    | short =>
      have frugal : t.Frugal := .inr (other (by decide))
      rw [if_neg (by decide)] at h
      by_cases empty : chunk.isEmpty
      · rw [if_pos ⟨empty, rfl⟩] at h
        split at h
        · cases h
        · next some =>
          cases h
          refine ⟨Nat.zero_le _, whole.symm ▸ steps, frugal, Nat.zero_le _, ?_⟩
          intro nothing
          exact absurd (none nothing) some
      · rw [if_neg (fun both => empty both.1), if_pos rfl] at h
        cases h
        have kept : t.giveBack 0 = t := by simp [giveBack]
        rw [kept]
        refine ⟨Nat.zero_le _, whole.symm ▸ steps, frugal, by simp only; omega, ?_⟩
        intro nothing
        have := none nothing
        exact ⟨by simp only; omega, .inr (List.length_pos_iff.2 (by simpa using empty))⟩
    | full | finished =>
      have moved : t.phase = .finished ∨ s.window.size < t.window.size := by
        first
        | exact .inr (full rfl)
        | exact .inl (finished_of_step (other (by decide)))
      have left := frugal.left_le steps moved
      rw [if_neg (by decide), if_neg (by simp), if_neg (by decide), Nat.min_eq_right left] at h
      cases h
      refine ⟨left, ?_, frugal_giveBack t, by simp only [giveBack]; omega, ?_⟩
      · rwa [feed_giveBack left (by omega) steps.suffix.1]
      · intro nothing
        have := none nothing
        refine ⟨by simp only; omega, .inl ?_⟩
        rcases moved with finished | grown
        · exact finished
        · omega
  · rw [if_pos owed] at h
    cases h
    refine ⟨Nat.le_refl _, ?_, frugal, Nat.le_trans (Nat.sub_le _ _) owes, ?_⟩
    · rw [Nat.sub_self, List.drop_zero]
      exact .refl _
    · intro nothing
      exact absurd (deliver_eq_nil pos owes nothing) owed

/-- What is delivered of a chunk comes next in the content. -/
theorem process_gives (pos : 0 < n) (h : s.Gives content spare pending (chunk ++ more) rest)
    (ended : chunk = [] → more = []) :
    ∃ p rest', s.process n pending chunk = .ok p ∧ p.unused ≤ chunk.length ∧ rest = p.data ++ rest' ∧
      p.inflater.Gives content spare p.pending (chunk.drop (chunk.length - p.unused) ++ more) rest' ∧
      (p.data = [] → p.pending = 0 ∧ (p.inflater.phase = .finished ∨ p.unused < chunk.length)) := by
  have next : ∃ p, s.process n pending chunk = .ok p ∧
      rest = p.data ++ content.drop (p.inflater.window.size - p.pending) := by
    unfold process
    by_cases owed : pending = 0
    · subst owed
      rw [if_neg (by simp)]
      obtain ⟨steps, full, other⟩ := decodeBlocks_steps n (s.feed chunk)
      generalize (s.feed chunk).decodeBlocks n = after at *
      obtain ⟨t, why⟩ := after
      dsimp only at steps full other ⊢
      have onward : t.Ends content spare more := h.ends.onward (by rwa [feed_nil])
      have grows : s.window.size ≤ t.window.size := by
        have := steps.suffix.2.length_le
        rwa [Array.length_toList, Array.length_toList] at this
      -- what has been decoded of the chunk is all that is pending then
      have next : rest = t.deliver n (t.window.size - s.window.size) ++ content.drop
          (t.window.size - (t.window.size - s.window.size - min n (t.window.size - s.window.size))) := by
        rw [h.rest, ← deliver_append onward.prefix_window (Nat.sub_le _ _), Nat.sub_sub_self grows, Nat.sub_zero]
      have stops (notFull : why ≠ .full) := onward.of_stop (other notFull)
      have sound : why ≠ .corrupt := by
        rintro rfl
        rcases stops (by decide) with wrong | ⟨wrong, -⟩ <;> cases wrong
      have goes : ¬ (chunk.isEmpty ∧ why = .short) := by
        rintro ⟨empty, rfl⟩
        rcases stops (by decide) with wrong | ⟨-, wrong⟩
        · cases wrong
        · exact wrong (ended (List.isEmpty_iff.1 empty))
      rw [if_neg sound, if_neg goes]
      exact ⟨_, rfl, next⟩
    · rw [if_pos owed]
      exact ⟨_, rfl, h.rest.trans (deliver_append h.ends.prefix_window h.owes)⟩
  obtain ⟨p, processed, next⟩ := next
  obtain ⟨most, steps, frugal, owes, empty⟩ := process_steps pos h.frugal h.owes processed
  exact ⟨p, _, processed, most, next, ⟨h.ends.onward steps, frugal, owes, rfl⟩, empty⟩

end Inflater

/-- Deflate data that gives `content` and does not go on behind its last block. -/
def Inflates (data content : Bytes) : Prop := Inflater.start.Ends content 0 data

/-- A gzip member with `content`: a header, deflate data, and the checksum and length of the content. -/
def Decodes (member content : Bytes) : Prop :=
  ∃ header data, Member.IsHeader header ∧ Inflates data content ∧
    member = header ++ data ++ Member.trailer content

/-- A member begins as all members do. -/
theorem Decodes.take_magic {member content : Bytes} (h : Decodes member content) (rest : Bytes) :
    (member ++ rest).take magic.length = magic := by
  obtain ⟨header, data, ⟨start, extra, name, comment, checksum, isStart, -, -, -, -, rfl⟩, -, rfl⟩ := h
  obtain ⟨more, rfl⟩ := List.isPrefixOf_iff_prefix.1 isStart.magic
  simp only [List.append_assoc, List.take_left]

theorem Decodes.ne_nil {member content : Bytes} (h : Decodes member content) : member ≠ [] := by
  rintro rfl
  have := h.take_magic []
  cases this

/-- Deflate data does not begin as a member does: it would be a block of a kind that there is not. -/
theorem Inflates.not_magic {data content : Bytes} (h : Inflates data content) (rest : Bytes) :
    data ≠ [] ∧ ¬ magic <+: data ++ rest := by
  obtain ⟨t, steps, finished, -⟩ := h
  -- the decoder stands where it began, so it must not stop there
  have stands {why : Stop} (stop : (Inflater.start.feed data).step = .stop why) : False := by
    rw [steps.of_stop stop] at finished
    cases finished
  cases data with
  | nil =>
    have short : (Inflater.start.feed []).step = .stop .short := rfl
    exact (stands short).elim
  | cons b more =>
    refine ⟨List.cons_ne_nil b more, fun isMagic => ?_⟩
    obtain rfl : b = 0x1f := (List.cons_prefix_cons.1 isMagic).1.symm
    have corrupt : (Inflater.start.feed (0x1f :: more)).step = .stop .corrupt := rfl
    exact stands corrupt

namespace Unpacker

variable {σ : Type} [Supply σ]

/-- The unpacker began behind the header of a member at `start`, which held `all` from there on, and still
gives `rest` of the content; `after` is behind the member. -/
inductive Reads (holds : σ → Bytes → Prop) (start : Cursor σ) (all content after : Bytes) :
    Unpacker σ → Bytes → Prop where
  | content {stream : Cursor σ} {s : Inflater} {pending : Nat} {data rest : Bytes}
    (gives : s.Gives content (Member.trailer content ++ after).length pending data rest)
    (past : Cursor.Past holds start all stream data) :
    Reads holds start all content after ⟨stream, .content s pending⟩ rest
  | ended {stream : Cursor σ} (past : Cursor.Past holds start all stream after) :
    Reads holds start all content after ⟨stream, .ended⟩ []

variable {holds : σ → Bytes → Prop} (steady : Supply.Steady holds) {start stream : Cursor σ}
  {all content after data rest : Bytes} {spare n pending : Nat} {s : Inflater}

include steady

theorem fill_past (past : Cursor.Past holds start all stream data) :
    ∃ stream' more, Cursor.fill stream = .ok stream'.atHand stream' ∧ data = stream'.atHand ++ more ∧
      (stream'.atHand = [] → more = []) ∧
      ∀ n ≤ stream'.atHand.length, Cursor.Past holds start all (stream'.advance n) (data.drop n) := by
  obtain ⟨taken, rfl, held, moved⟩ := past
  obtain ⟨stream', found, held', still, empty⟩ := Cursor.fill_holds steady held
  obtain ⟨more, cut⟩ := held'.atHand_append
  refine ⟨stream', more, found, cut, ?_, ?_⟩
  · intro none
    have := (empty none).1
    rw [cut, none] at this
    exact this
  · intro n most
    obtain ⟨after, further⟩ := Cursor.advance_holds held' most
    refine ⟨taken ++ data.take n, by simp, after, ?_⟩
    have size : (taken ++ data.take n).length = taken.length + 0 + n := by
      rw [List.length_append, List.length_take, cut, List.length_append]
      omega
    exact size ▸ (moved.trans still.toMoved).trans further.toMoved

theorem pump_gives (pos : 0 < n) (h : s.Gives content spare pending data rest)
    (past : Cursor.Past holds start all stream data) :
    ∃ got rest' s' pending' stream' data', pump n pending s stream = .ok (got, s', pending') stream' ∧
      rest = got ++ rest' ∧ s'.Gives content spare pending' data' rest' ∧
      Cursor.Past holds start all stream' data' ∧
      (got = [] → pending' = 0 ∧ s'.phase = .finished) := by
  induction len : data.length using Nat.strongRecOn generalizing s pending data rest stream with
  | ind len ih =>
    obtain ⟨filled, more, found, rfl, ended, advanced⟩ := fill_past steady past
    obtain ⟨p, rest', processed, most, rfl, gives, empty⟩ := Inflater.process_gives pos h ended
    have past' := advanced (filled.atHand.length - p.unused) (Nat.sub_le _ _)
    rw [List.drop_append_of_le_length (Nat.sub_le _ _)] at past'
    unfold pump
    split
    · next other => simp [found] at other
    · next chunk stream' other =>
      simp only [found, EStateM.Result.ok.injEq] at other
      obtain ⟨rfl, rfl⟩ := other
      rw [processed]
      dsimp only
      by_cases goes : p.data.isEmpty ∧ ¬ p.inflater.phase.isFinished ∧ p.unused < filled.atHand.length
      · rw [dif_pos goes]
        have none := List.isEmpty_iff.1 goes.1
        obtain ⟨got, rest, s', pending', stream', data', pumped, rfl, last⟩ := ih _
          (by simp only [List.length_append, List.length_drop] at len ⊢; omega) gives past' rfl
        exact ⟨got, rest, s', pending', stream', data', pumped, by rw [none, List.nil_append], last⟩
      · rw [dif_neg goes]
        refine ⟨p.data, rest', p.inflater, p.pending, _, _, rfl, rfl, gives, past', ?_⟩
        intro none
        obtain ⟨zero, finished | fewer⟩ := empty none
        · exact ⟨zero, finished⟩
        · refine ⟨zero, ?_⟩
          cases phase : p.inflater.phase with
          | finished => rfl
          | _ => exact absurd ⟨by simp [none], by simp [phase, Phase.isFinished], fewer⟩ goes

/-- What is left of the data behind the last block is the trailer and what follows it. -/
theorem trailer_past (suffix : Member.trailer content ++ after <:+ all)
    (size : data.length = (Member.trailer content ++ after).length)
    (past : Cursor.Past holds start all stream data) :
    ∃ stream', Member.takeTrailer content stream = .ok (Member.trailer content) stream' ∧
      Cursor.Past holds start all stream' after := by
  obtain ⟨taken, rfl, held, moved⟩ := past
  obtain rfl : data = Member.trailer content ++ after :=
    (List.suffix_of_suffix_length_le (List.suffix_append _ _) suffix (Nat.le_of_eq size)).eq_of_length size
  obtain ⟨stream', found, behind, further⟩ := Member.takes_trailer steady content stream after held
  refine ⟨stream', found, taken ++ Member.trailer content, by rw [List.append_assoc], behind, ?_⟩
  rw [List.length_append]
  exact moved.trans further

theorem read_reads {u : Unpacker σ} (suffix : Member.trailer content ++ after <:+ all) (n : Nat)
    (h : Reads holds start all content after u rest) :
    ∃ got rest' u', read n u = .ok got u' ∧ rest = got ++ rest' ∧
      (got = [] → n = 0 ∨ rest' = [] ∧ Cursor.Past holds start all u'.stream after) ∧
      Reads holds start all content after u' rest' := by
  cases h with
  | ended past =>
    refine ⟨[], [], _, rfl, rfl, ?_, .ended past⟩
    intro _
    exact .inr ⟨rfl, past⟩
  | content gives past =>
    simp only [read]
    by_cases zero : n = 0
    · rw [if_pos zero]
      refine ⟨[], rest, _, rfl, rfl, ?_, .content gives past⟩
      intro _
      exact .inl zero
    · rw [if_neg zero]
      obtain ⟨got, rest', s', pending', stream', data', pumped, rfl, later, past', empty⟩ :=
        pump_gives steady (Nat.pos_of_ne_zero zero) gives past
      rw [pumped]
      cases got with
      | nil =>
        obtain ⟨rfl, finished⟩ := empty rfl
        obtain ⟨rfl, rfl, size⟩ := later.finished finished
        obtain ⟨stream'', trailed, behind⟩ := trailer_past steady suffix size past'
        simp only [trailed]
        refine ⟨[], [], _, rfl, rfl, ?_, .ended behind⟩
        intro _
        exact .inr ⟨rfl, behind⟩
      | cons b more =>
        refine ⟨b :: more, rest', _, rfl, rfl, ?_, .content later past'⟩
        intro none
        exact absurd none (List.cons_ne_nil _ _)

theorem steady_reads (suffix : Member.trailer content ++ after <:+ all) :
    Supply.Steady (Reads holds start all content after) where
  read := by
    intro u rest n h
    obtain ⟨got, rest', u', found, cut, only, after⟩ := read_reads steady suffix n h
    refine ⟨got, rest', u', found, cut, ?_, after⟩
    intro none
    exact (only none).imp_right (·.1)

/-- An unpacker that has been read to its end has left its stream behind the member. -/
theorem reads_spent {u : Unpacker σ} (suffix : Member.trailer content ++ after <:+ all)
    (h : Supply.Spent (Reads holds start all content after) u) :
    Cursor.Past holds start all u.stream after := by
  obtain ⟨u', n, some, reads, found⟩ := h
  obtain ⟨got, rest', u'', found', -, only, -⟩ := read_reads steady suffix n reads
  have found : read n u' = .ok [] u := found
  rw [found] at found'
  cases found'
  exact ((only rfl).resolve_left some).2

/-- An unpacker for a member gives its content. -/
theorem create_reads {member : Bytes} (decodes : Decodes member content)
    (h : stream.Holds holds (member ++ after)) :
    Reads holds stream (member ++ after) content after (create stream) content ∧
      Member.trailer content ++ after <:+ member ++ after := by
  obtain ⟨header, data, isHeader, inflates, rfl⟩ := decodes
  rw [List.append_assoc, List.append_assoc] at h ⊢
  obtain ⟨stream', found, held, moved⟩ := Member.takes_header steady isHeader stream _ h
  refine ⟨?_, (List.suffix_append _ _).trans (List.suffix_append _ _)⟩
  simp only [create, found]
  refine .content (Inflater.gives_start ?_) ⟨header, rfl, held, moved⟩
  have := inflates.append (Member.trailer content ++ after)
  rwa [Nat.zero_add] at this

end Unpacker
end ArcFile.Gzip
