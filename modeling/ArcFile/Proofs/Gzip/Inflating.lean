import ArcFile.Gzip.Unpacker
import ArcFile.Proofs.Gzip.Local
/-!
Decoding step by step. A step that can be made can be made with more data, too, and leads to the same place; so
where the decoder gets to does not depend on how the data is cut into chunks.
-/
namespace ArcFile.Gzip

namespace Bits

theorem ofBytes_append (a b : Bytes) : ofBytes (a ++ b) = ofBytes a ++ ofBytes b := List.flatMap_append

end Bits

namespace Inflater

variable {s s' t : Inflater} {data : Bytes}

theorem feed_nil (s : Inflater) : s.feed [] = s := by
  simp [feed, Bits.ofBytes]

theorem feed_feed (s : Inflater) (a b : Bytes) : (s.feed a).feed b = s.feed (a ++ b) := by
  simp [feed, Bits.ofBytes_append]

section Advance

variable {α : Type} {reader : BitReader α} {next : α → Bits → Inflater}

theorem whole_bytes (data : Bytes) : (Bits.ofBytes data).length % 8 = 0 := by
  rw [Bits.length_ofBytes]
  omega

theorem advance_eq_next (near : reader.Local) (data : Bytes) (h : s.advance reader next = .next s') :
    ∃ value rest, rest <:+ s.bits ∧ s' = next value rest ∧
      (s.feed data).advance reader next = .next (next value (rest ++ Bits.ofBytes data)) := by
  unfold advance at h ⊢
  split at h
  · cases h
  · cases h
  · next value rest _ found =>
    cases h
    obtain ⟨_, more⟩ := near.done (whole_bytes data) found
    refine ⟨value, rest, near.suffix found, rfl, ?_⟩
    simp only [feed, more]

theorem advance_eq_corrupt (near : reader.Local) (data : Bytes)
    (h : s.advance reader next = .stop .corrupt) : (s.feed data).advance reader next = .stop .corrupt := by
  unfold advance at h ⊢
  split at h
  · cases h
  · next found => simp only [feed, near.corrupt (whole_bytes data) found]
  · cases h

theorem advance_eq_short (near : reader.Local) (h : s.advance reader next = .stop .short)
    (later : (s.feed data).advance reader next = .next s') :
    ∃ value rest, s' = next value rest ∧ rest.length < 8 * data.length := by
  unfold advance at h later
  split at h
  · next found =>
    split at later
    · cases later
    · cases later
    · next value rest _ found' =>
      cases later
      have := near.short (whole_bytes data) found found'
      rw [Bits.length_ofBytes] at this
      exact ⟨value, rest, rfl, this⟩
  · cases h
  · cases h

theorem advance_stop {why : Stop} (h : s.advance reader next = .stop why) : why = .short ∨ why = .corrupt := by
  unfold advance at h
  split at h <;> cases h
  · exact .inl rfl
  · exact .inr rfl

end Advance

/-- What a step does: nothing at the end, or it reads an item and goes on from there, or it does not look at
the data at all. -/
inductive Course (s : Inflater) : Prop where
  | finished (ended : s.phase = .finished)
  | reads {α : Type} (reader : BitReader α) (next : α → Bits → Inflater) (near : reader.Local)
    (step : ∀ data, (s.feed data).step = (s.feed data).advance reader next)
    (feed : ∀ value rest data, (next value rest).feed data = next value (rest ++ Bits.ofBytes data))
    (bits : ∀ value rest, (next value rest).bits = rest)
    (window : ∀ value rest, s.window.toList <+: (next value rest).window.toList)
  | writes (s' : Inflater) (step : ∀ data, (s.feed data).step = .next (s'.feed data))
    (bits : s'.bits = s.bits) (window : s.window.toList <+: s'.window.toList)

theorem prefix_push (window : Array UInt8) (b : UInt8) : window.toList <+: (window.push b).toList :=
  ⟨[b], by simp⟩

theorem course (s : Inflater) : s.Course := by
  obtain ⟨last, phase, bits, window⟩ := s
  cases phase with
  | start =>
    exact .reads BlockHeader.read (fun header bits => ⟨header.last, .afterHeader header.kind, bits, window⟩)
      BlockHeader.local_read (fun _ => rfl) (fun _ _ _ => rfl) (fun _ _ => rfl)
      fun _ _ => List.prefix_refl _
  | stored left =>
    cases left with
    | zero =>
      exact .writes ⟨last, .afterBlock last, bits, window⟩ (fun _ => rfl) rfl (List.prefix_refl _)
    | succ left =>
      exact .reads (BitReader.number 8)
        (fun b bits => ⟨last, .stored left, bits, window.push (UInt8.ofNat b)⟩)
        (BitReader.local_number 8) (fun _ => rfl) (fun _ _ _ => rfl) (fun _ _ => rfl)
        fun _ _ => prefix_push _ _
  | coded codes debt =>
    cases debt with
    | nothing =>
      exact .reads (Token.read codes) (fun token bits => ⟨last, .afterToken codes last token, bits, window⟩)
        (Token.local_read codes) (fun _ => rfl) (fun _ _ _ => rfl) (fun _ _ => rfl)
        fun _ _ => List.prefix_refl _
    | byte b =>
      exact .writes ⟨last, .coded codes .nothing, bits, window.push b⟩ (fun _ => rfl) rfl
        (prefix_push _ _)
    | copy length distance =>
      cases length with
      | zero =>
        exact .writes ⟨last, .coded codes .nothing, bits, window⟩ (fun _ => rfl) rfl
          (List.prefix_refl _)
      | succ length =>
        exact .writes ⟨last, .coded codes (.copy length distance), bits,
          window.push (back window distance)⟩ (fun _ => rfl) rfl (prefix_push _ _)
  | finished => exact .finished rfl

theorem step_of_finished (ended : s.phase = .finished) : s.step = .stop .finished := by
  simp only [step, ended]

theorem step_feed (data : Bytes) (h : s.step = .next s') : (s.feed data).step = .next (s'.feed data) := by
  cases s.course with
  | finished ended =>
    rw [step_of_finished ended] at h
    cases h
  | reads reader next near step feed bits window =>
    have here := step []
    rw [feed_nil, h] at here
    obtain ⟨value, rest, -, rfl, more⟩ := advance_eq_next near data here.symm
    rw [step, more, feed]
  | writes s'' step bits window =>
    have here := step []
    rw [feed_nil, feed_nil, h] at here
    cases here
    exact step data

theorem step_suffix (h : s.step = .next s') : s'.bits <:+ s.bits ∧ s.window.toList <+: s'.window.toList := by
  cases s.course with
  | finished ended =>
    rw [step_of_finished ended] at h
    cases h
  | reads reader next near step feed bits window =>
    have here := step []
    rw [feed_nil, h] at here
    obtain ⟨value, rest, suffix, rfl, -⟩ := advance_eq_next near [] here.symm
    exact ⟨(bits value rest).symm ▸ suffix, window value rest⟩
  | writes s'' step bits window =>
    have here := step []
    rw [feed_nil, feed_nil, h] at here
    cases here
    exact ⟨bits ▸ List.suffix_refl _, window⟩

/-- Where the decoder must stop for another reason than a lack of data, more data does not help. -/
theorem step_stop_feed {why : Stop} (data : Bytes) (enough : why ≠ .short) (h : s.step = .stop why) :
    (s.feed data).step = .stop why := by
  cases s.course with
  | finished ended =>
    rw [step_of_finished ended] at h
    rw [← h]
    exact step_of_finished ended
  | reads reader next near step feed bits window =>
    have here := step []
    rw [feed_nil, h] at here
    obtain rfl := (advance_stop here.symm).resolve_left enough
    rw [step, advance_eq_corrupt near data here.symm]
  | writes s'' step bits window =>
    have here := step []
    rw [feed_nil, h] at here
    cases here

/-- An item that the bits were too few for ends in the data behind them. -/
theorem step_short (h : s.step = .stop .short) (later : (s.feed data).step = .next s') :
    s'.bits.length < 8 * data.length := by
  cases s.course with
  | finished ended =>
    rw [step_of_finished ended] at h
    cases h
  | reads reader next near step feed bits window =>
    have here := step []
    rw [feed_nil, h] at here
    rw [step] at later
    obtain ⟨value, rest, rfl, fewer⟩ := advance_eq_short near here.symm later
    rwa [bits]
  | writes s'' step bits window =>
    have here := step []
    rw [feed_nil, h] at here
    cases here

theorem finished_of_step (h : s.step = .stop .finished) : s.phase = .finished := by
  cases s.course with
  | finished ended => exact ended
  | reads reader next near step feed bits window =>
    have here := step []
    rw [feed_nil, h] at here
    rcases advance_stop here.symm with wrong | wrong <;> cases wrong
  | writes s'' step bits window =>
    have here := step []
    rw [feed_nil, h] at here
    cases here

theorem step_ne_full : s.step ≠ .stop .full := by
  intro h
  cases s.course with
  | finished ended =>
    rw [step_of_finished ended] at h
    cases h
  | reads reader next near step feed bits window =>
    have here := step []
    rw [feed_nil, h] at here
    rcases advance_stop here.symm with wrong | wrong <;> cases wrong
  | writes s'' step bits window =>
    have here := step []
    rw [feed_nil, h] at here
    cases here

/-- The decoder can go from one state to the other. -/
inductive Steps : Inflater → Inflater → Prop where
  | refl (s : Inflater) : Steps s s
  | step {s s' t : Inflater} (next : s.step = .next s') (more : Steps s' t) : Steps s t

theorem Steps.trans (h : Steps s s') (h' : Steps s' t) : Steps s t := by
  induction h with
  | refl => exact h'
  | step next _ ih => exact .step next (ih h')

theorem Steps.feed (data : Bytes) (h : Steps s t) : Steps (s.feed data) (t.feed data) := by
  induction h with
  | refl => exact .refl _
  | step next _ ih => exact .step (step_feed data next) ih

theorem Steps.suffix (h : Steps s t) : t.bits <:+ s.bits ∧ s.window.toList <+: t.window.toList := by
  induction h with
  | refl => exact ⟨List.suffix_refl _, List.prefix_refl _⟩
  | step next _ ih =>
    obtain ⟨bits, window⟩ := step_suffix next
    exact ⟨ih.1.trans bits, window.trans ih.2⟩

/-- Where the decoder stops, nothing follows. -/
theorem Steps.of_stop {why : Stop} (h : Steps s t) (stop : s.step = .stop why) : t = s := by
  cases h with
  | refl => rfl
  | step next =>
    rw [stop] at next
    cases next

/-- There is only one way, so a state on the way leads to its end. -/
theorem Steps.onward {why : Stop} {u : Inflater} (h : Steps s t) (h' : Steps s u)
    (stop : u.step = .stop why) : Steps t u := by
  induction h with
  | refl => exact h'
  | step next _ ih =>
    cases h' with
    | refl =>
      rw [stop] at next
      cases next
    | step next' more =>
      rw [next] at next'
      cases next'
      exact ih more

theorem feed_injective {data : Bytes} (h : s.feed data = t.feed data) : s = t := by
  obtain ⟨last, phase, bits, window⟩ := s
  obtain ⟨last', phase', bits', window'⟩ := t
  simp only [feed, mk.injEq, List.append_cancel_right_eq] at h
  simpa only [mk.injEq] using h

/-- Data that is still there at the end of the way did not matter on it. -/
theorem Steps.strip {data : Bytes} (h : Steps (s.feed data) (t.feed data)) : Steps s t := by
  generalize start : s.feed data = u at h
  generalize last : t.feed data = v at h
  induction h generalizing s with
  | refl =>
    rw [feed_injective (start.trans last.symm)]
    exact .refl t
  | step next more ih =>
    subst start last
    cases here : s.step with
    | next s' =>
      obtain rfl := Step.next.inj ((step_feed data here).symm.trans next)
      exact .step here (ih rfl rfl)
    | stop why =>
      by_cases short : why = .short
      · subst short
        have fewer := step_short here next
        have := more.suffix.1.length_le
        simp only [Inflater.feed, List.length_append, Bits.length_ofBytes] at this
        omega
      · rw [step_stop_feed data short here] at next
        cases next

/-- Decoding goes on until the decoder must stop or the room is used up. -/
theorem decode_steps (room : Nat) (s : Inflater) :
    Steps s (s.decode room).1 ∧
      ((s.decode room).2 = .full → (s.decode room).1.window.size = s.window.size + room) ∧
      ((s.decode room).2 ≠ .full → (s.decode room).1.step = .stop (s.decode room).2) := by
  fun_induction decode room s with
  | case1 room s full =>
    refine ⟨.refl s, ?_, ?_⟩
    · intro _
      simp [full.2]
    · intro other
      exact absurd rfl other
  | case2 room s _ why found =>
    refine ⟨.refl s, ?_, ?_⟩
    · intro full
      obtain rfl : why = .full := full
      exact absurd found step_ne_full
    · intro _
      exact found
  | case3 room s more s' found _ ih =>
    obtain ⟨steps, full, other⟩ := ih
    refine ⟨.step found steps, ?_, other⟩
    intro h
    have := size_of_step found
    rw [full h, this]
    cases writes : s.phase.writes with
    | false => simp
    | true =>
      have : room ≠ 0 := by
        intro zero
        exact more ⟨writes, zero⟩
      simp only [Bool.toNat_true]
      omega

theorem room_pos (s : Inflater) : 0 < s.room := by
  unfold room windowSize
  omega

theorem decodeBlocks_steps (n : Nat) (s : Inflater) :
    Steps s (s.decodeBlocks n).1 ∧
      ((s.decodeBlocks n).2 = .full → s.window.size < (s.decodeBlocks n).1.window.size) ∧
      ((s.decodeBlocks n).2 ≠ .full → (s.decodeBlocks n).1.step = .stop (s.decodeBlocks n).2) := by
  induction n using Nat.strongRecOn generalizing s with
  | ind n ih =>
    obtain ⟨steps, full, other⟩ := decode_steps s.room s
    have pos := s.room_pos
    unfold decodeBlocks
    dsimp only
    split
    · next more =>
      obtain ⟨steps', full', other'⟩ := ih (n - ((s.decode s.room).1.window.size - s.window.size)) (by omega)
        (s.decode s.room).1
      refine ⟨steps.trans steps', ?_, other'⟩
      intro h
      have := full' h
      omega
    · refine ⟨steps, ?_, other⟩
      intro h
      have := full h
      omega

end Inflater
end ArcFile.Gzip
