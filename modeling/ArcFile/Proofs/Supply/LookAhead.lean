import ArcFile.Proofs.Supply.Accounting
import ArcFile.Proofs.Supply.Onward
/-!
Looking ahead over a supply that may fail. A look ahead reads piece by piece and pushes back what it has read, and it
may fail before it comes to that: the supply faults, or there is more than the pushback can take. What has been read
up to there is gone then, and is counted as handed out.
-/
namespace ArcFile

namespace Outcome

variable {σ α β : Type} {f : α → β} {outcome : Outcome σ α} {b : β} {fault : Fault}

/-- The fault of an action that has failed. -/
def fault? : Outcome σ α → Option Fault
  | .ok _ _ => none
  | .error fault _ => some fault

theorem value_map_ok : (outcome.map f).value = .ok b ↔ ∃ a, outcome.value = .ok a ∧ f a = b := by
  cases outcome <;> simp [map, value]

theorem value_map_error : (outcome.map f).value = .error fault ↔ outcome.value = .error fault := by
  cases outcome <;> simp [map, value]

end Outcome

theorem Tape.forward_forward (n m : Nat) (t : Tape) : (t.forward n).forward m = t.forward (n + m) := by
  simp only [forward, List.drop_drop, Nat.add_assoc, Nat.sub_sub]

namespace Cursor

variable {σ : Type} {holds : σ → Bytes → Prop} {c c' c'' : Cursor σ} {rest : Bytes} {n : Nat}

/-- All that has been pushed back or read ahead. -/
def ahead (c : Cursor σ) : Bytes := c.pushback.bytes ++ c.buffer

theorem ahead_eq_nil : c.ahead = [] ↔ c.pushback.bytes = [] ∧ c.buffer = [] := List.append_eq_nil_iff

theorem atHand_eq_nil : c.atHand = [] ↔ c.ahead = [] := by
  unfold atHand
  split
  · next none => simp [ahead, List.isEmpty_iff.1 none]
  · next some =>
    rw [List.isEmpty_iff] at some
    simp [ahead, some]

/-- What is handed out was ahead, and the rest of that still is. -/
theorem ahead_advance (n : Nat) (c : Cursor σ) : c.atHand.take n ++ (c.advance n).ahead = c.ahead := by
  unfold atHand advance
  split
  · next none => simp [ahead, List.isEmpty_iff.1 none]
  · next some => simp [ahead, Pushback.drop, ← List.append_assoc]

theorem atHand_prefix (c : Cursor σ) : c.atHand <+: c.ahead := by
  have cut := ahead_advance c.atHand.length c
  rw [List.take_length] at cut
  exact ⟨_, cut⟩

theorem shows_refl (supply : holds c.supply rest) : c.Shows holds c (c.tape rest) := ⟨rfl, rfl, rest, supply, rfl⟩

theorem Shows.trans {t t' : Tape} (first : c'.Shows holds c t) (further : c''.Shows holds c' t') :
    c''.Shows holds c t' :=
  ⟨further.capacity.trans first.capacity, further.size.trans first.size, further.supply⟩

/-- Of what is at hand, the first bytes can be handed out. -/
theorem advance_shows (supply : holds c.supply rest) (most : n ≤ c.atHand.length) :
    (c.advance n).Shows holds c ((c.tape rest).forward n) := by
  unfold atHand at most
  unfold advance
  split at most
  · next none =>
    rw [if_pos none]
    have none := List.isEmpty_iff.1 none
    refine ⟨rfl, rfl, rest, supply, ?_⟩
    simp [tape, Tape.forward, none, List.drop_append_of_le_length most]
  · next some =>
    rw [if_neg some]
    refine ⟨rfl, rfl, rest, supply, ?_⟩
    simp [tape, Tape.forward, Pushback.drop, List.drop_append_of_le_length most]

section Honest

variable [Supply σ] (honest : Supply.Honest holds) {data got taken : Bytes} {fault : Fault}

include honest

/-- Bytes are only read ahead if none are at hand. -/
theorem fill_ok_shows (supply : holds c.supply rest) (found : fill c = .ok data c') :
    data = c'.atHand ∧ c'.Shows holds c (c.tape rest) ∧ (c.atHand ≠ [] → c' = c) ∧
      (data = [] → c.capacity = 0 ∨ (c.tape rest).rest = []) := by
  unfold fill at found
  split at found
  · next some =>
    cases found
    simp only [Bool.not_eq_true', List.isEmpty_eq_false_iff] at some
    exact ⟨by simp [atHand, some], shows_refl supply, fun _ => rfl, fun none => absurd none some⟩
  · next none =>
    simp only [Bool.not_eq_true', Bool.not_eq_false, List.isEmpty_iff] at none
    split at found
    · next some =>
      cases found
      simp only [Bool.not_eq_true', List.isEmpty_eq_false_iff] at some
      exact ⟨by simp [atHand, none], shows_refl supply, fun _ => rfl, fun nothing => absurd nothing some⟩
    · next dry =>
      simp only [Bool.not_eq_true', Bool.not_eq_false, List.isEmpty_iff] at dry
      split at found
      · next zero =>
        cases found
        exact ⟨by simp [atHand, none, dry], shows_refl supply, fun _ => rfl, fun _ => .inl zero⟩
      · split at found
        · next got s' given =>
          cases found
          obtain ⟨rest', rfl, only, after⟩ := honest.ok supply given
          refine ⟨by simp [atHand, none], ⟨rfl, rfl, rest', after, by simp [tape, none, dry]⟩, ?_, ?_⟩
          · intro some
            exact absurd (atHand_eq_nil.2 (ahead_eq_nil.2 ⟨none, dry⟩)) some
          · rintro rfl
            rcases only rfl with zero | ended
            · exact .inl zero
            · exact .inr (by simp [tape, none, dry, ended])
        · cases found

/-- It is the supply that fails, and it is only asked if nothing is at hand. -/
theorem fill_error_shows (supply : holds c.supply rest) (found : fill c = .error fault c') :
    c.ahead = [] ∧ c'.ahead = [] ∧ c'.Shows holds c (c.tape rest) ∧
      Supply.read c.capacity c.supply = .error fault c'.supply := by
  unfold fill at found
  split at found
  · cases found
  · next none =>
    simp only [Bool.not_eq_true', Bool.not_eq_false, List.isEmpty_iff] at none
    split at found
    · cases found
    · next dry =>
      simp only [Bool.not_eq_true', Bool.not_eq_false, List.isEmpty_iff] at dry
      split at found
      · cases found
      · split at found
        · cases found
        · next s' given =>
          cases found
          exact ⟨ahead_eq_nil.2 ⟨none, dry⟩, ahead_eq_nil.2 ⟨none, dry⟩,
            ⟨rfl, rfl, rest, honest.error supply given, rfl⟩, given⟩

/-- What is read comes from the front, and first what was ahead. -/
theorem read_ok_shows (supply : holds c.supply rest) (found : read n c = .ok got c') :
    got.length ≤ n ∧ got <+: (c.tape rest).rest ∧ c'.Shows holds c ((c.tape rest).forward got.length) ∧
      c.ahead <+: got ++ c'.ahead ∧ (got = [] → n = 0 ∨ (c.tape rest).rest = []) := by
  have most := (read_ok found).1
  unfold read at found
  split at found
  · next direct =>
    obtain ⟨none, dry, -⟩ := direct
    have none := List.isEmpty_iff.1 none
    have dry := List.isEmpty_iff.1 dry
    split at found
    · next s' given =>
      cases found
      obtain ⟨rest', rfl, only, after⟩ := honest.ok supply given
      refine ⟨most, ⟨rest', by simp [tape, none, dry]⟩, ⟨rfl, rfl, rest', after, ?_⟩, ?_, ?_⟩
      · simp [tape, Tape.forward, none, dry]
      · rw [ahead_eq_nil.2 ⟨none, dry⟩]
        exact List.nil_prefix
      · intro nothing
        exact (only nothing).imp_right fun ended => by simp [tape, none, dry, nothing, ended]
    · cases found
  · next buffered =>
    split at found
    · next all c1 filled =>
      cases found
      obtain ⟨rfl, shows, same, only⟩ := fill_ok_shows honest supply filled
      have size : (c1.atHand.take n).length = min n c1.atHand.length := List.length_take
      have fits : (c1.atHand.take n).length ≤ c1.atHand.length := by omega
      refine ⟨most, ?_, ?_, ?_, ?_⟩
      · obtain ⟨between, -, is⟩ := shows.supply
        have front : c1.ahead <+: (c.tape rest).rest := is ▸ List.prefix_append _ _
        exact (List.take_prefix n c1.atHand).trans (c1.atHand_prefix.trans front)
      · obtain ⟨between, supply', is⟩ := shows.supply
        rw [← is]
        exact shows.trans (advance_shows supply' fits)
      · by_cases nothing : c.atHand = []
        · rw [atHand_eq_nil.1 nothing]
          exact List.nil_prefix
        · obtain rfl := same nothing
          have cut := ahead_advance (min n c1.atHand.length) c1
          rw [← List.take_eq_take_min] at cut
          exact ⟨[], by rw [List.append_nil, size, cut]⟩
      · intro none
        rcases List.take_eq_nil_iff.1 none with zero | empty
        · exact .inl zero
        · refine (only empty).elim (fun zero => ?_) .inr
          -- without a buffer, a cursor only fills if something is at hand
          have some : c.atHand ≠ [] := by
            rw [Ne, atHand_eq_nil, ahead_eq_nil]
            rintro ⟨none, dry⟩
            exact buffered ⟨by rw [none]; rfl, by rw [dry]; rfl, by omega⟩
          exact absurd (same some ▸ empty) some
    · cases found

/-- A read that fails has taken nothing, and nothing was ahead. -/
theorem read_error_shows (supply : holds c.supply rest) (found : read n c = .error fault c') :
    c.ahead = [] ∧ c'.ahead = [] ∧ c'.Shows holds c (c.tape rest) ∧
      Supply.read (max n c.capacity) c.supply = .error fault c'.supply := by
  unfold read at found
  split at found
  · next direct =>
    obtain ⟨none, dry, large⟩ := direct
    have none := List.isEmpty_iff.1 none
    have dry := List.isEmpty_iff.1 dry
    split at found
    · cases found
    · next s' given =>
      cases found
      rw [Nat.max_eq_left large]
      exact ⟨ahead_eq_nil.2 ⟨none, dry⟩, ahead_eq_nil.2 ⟨none, dry⟩,
        ⟨rfl, rfl, rest, honest.error supply given, rfl⟩, given⟩
  · next buffered =>
    split at found
    · cases found
    · next fault c1 filled =>
      cases found
      obtain ⟨nothing, empty, shows, failed⟩ := fill_error_shows honest supply filled
      obtain ⟨none, dry⟩ := ahead_eq_nil.1 nothing
      have small : n ≤ c.capacity := by
        apply Nat.le_of_not_le
        intro large
        exact buffered ⟨by rw [none]; rfl, by rw [dry]; rfl, large⟩
      rw [Nat.max_eq_right small]
      exact ⟨nothing, empty, shows, failed⟩

/-- Reading on until there are `n` bytes gives these, or all there are. -/
theorem readUpTo_ok_shows (supply : holds c.supply rest) (found : readUpTo n taken c = .ok data c') :
    data = taken.reverse ++ (c.tape rest).rest.take n ∧
      c'.Shows holds c ((c.tape rest).forward ((c.tape rest).rest.take n).length) := by
  fun_induction readUpTo n taken c generalizing rest with
  | case1 taken c =>
    cases found
    exact ⟨by simp, by simpa [Tape.forward] using shows_refl supply⟩
  | case2 => cases found
  | case3 n taken c some c1 read =>
    cases found
    obtain ⟨-, -, shows, -, only⟩ := read_ok_shows honest supply read
    have ended : (c.tape rest).rest = [] := (only rfl).resolve_left some
    refine ⟨by simp [ended], ?_⟩
    simpa [ended] using shows
  | case4 n taken c some b more c1 read fewer ih =>
    obtain ⟨most, ⟨behind, cut⟩, shows, -, -⟩ := read_ok_shows honest supply read
    obtain ⟨between, supply', is⟩ := shows.supply
    obtain ⟨rfl, onward⟩ := ih supply' found
    have left : (c1.tape between).rest = behind := by
      rw [is, Tape.forward, ← cut, List.drop_left]
    have front : (c.tape rest).rest.take n = b :: more ++ behind.take (n - (b :: more).length) := by
      rw [← cut, List.take_append, List.take_of_length_le most]
    rw [left] at onward ⊢
    refine ⟨by simp [front], ?_⟩
    rw [front, List.length_append, ← Tape.forward_forward, ← is]
    exact shows.trans onward

/-- Reading on stops where the supply fails. All that was ahead has been taken, and nothing is ahead any more. If no
piece came before that, it was the first read of the supply that failed. -/
theorem readUpTo_error_shows (supply : holds c.supply rest) (found : readUpTo n taken c = .error fault c') :
    ∃ got, got <+: (c.tape rest).rest ∧ got.length < n ∧ c'.Shows holds c ((c.tape rest).forward got.length) ∧
      c.ahead <+: got ∧ c'.ahead = [] ∧
      (got = [] → Supply.read (max n c.capacity) c.supply = .error fault c'.supply) := by
  fun_induction readUpTo n taken c generalizing rest with
  | case1 => cases found
  | case2 n taken c some fault c1 read =>
    cases found
    obtain ⟨nothing, empty, shows, failed⟩ := read_error_shows honest supply read
    exact ⟨[], List.nil_prefix, Nat.pos_of_ne_zero some, shows, nothing ▸ List.nil_prefix, empty, fun _ => failed⟩
  | case3 => cases found
  | case4 n taken c some b more c1 read fewer ih =>
    obtain ⟨most, ⟨behind, cut⟩, shows, front, -⟩ := read_ok_shows honest supply read
    obtain ⟨between, supply', is⟩ := shows.supply
    obtain ⟨got, ⟨left, isLeft⟩, short, onward, taken', empty, -⟩ := ih supply' found
    -- the first piece and what comes after it are taken from the front together
    rw [is, Tape.forward, ← cut, List.drop_left] at isLeft
    refine ⟨b :: more ++ got, ⟨left, ?_⟩, ?_, ?_, ?_, empty, ?_⟩
    · rw [List.append_assoc, isLeft, cut]
    · rw [List.length_append]
      omega
    · rw [List.length_append, ← Tape.forward_forward, ← is]
      exact shows.trans onward
    · exact front.trans ((List.prefix_append_right_inj _).2 taken')
    · intro nothing
      cases nothing

/-- How a look `n` bytes ahead can end. -/
inductive Looked (holds : σ → Bytes → Prop) (c : Cursor σ) (rest : Bytes) (n : Nat) : Outcome (Cursor σ) Bytes → Prop
  | seen {c' : Cursor σ} (shows : c'.Shows holds c ((c.tape rest).looked n)) :
      Looked holds c rest n (.ok ((c.tape rest).rest.take n) c')
  /-- What has been read does not fit in the pushback. -/
  | full {c' : Cursor σ} (more : c.pushbackSize < ((c.tape rest).rest.take n).length)
      (shows : c'.Shows holds c ((c.tape rest).forward ((c.tape rest).rest.take n).length)) :
      Looked holds c rest n (.error (.pushbackFull ((c.tape rest).rest.take n).length 0 c.pushbackSize) c')
  /-- The supply has failed before there were `n` bytes. -/
  | failed {c' : Cursor σ} {fault : Fault} {got : Bytes} (front : got <+: (c.tape rest).rest) (short : got.length < n)
      (shows : c'.Shows holds c ((c.tape rest).forward got.length)) (all : c.ahead <+: got) (empty : c'.ahead = [])
      (first : got = [] → Supply.read (max n c.capacity) c.supply = .error fault c'.supply) :
      Looked holds c rest n (.error fault c')

omit honest in
/-- What has been read is pushed back if it fits, which does not depend on what was held before. -/
theorem unread_looked (shows : c'.Shows holds c ((c.tape rest).forward ((c.tape rest).rest.take n).length)) :
    Looked holds c rest n
      ((unread ((c.tape rest).rest.take n) c').map fun _ => (c.tape rest).rest.take n) := by
  have held : (c.tape rest).held ≤ c.pushbackSize := c.pushback.fits
  by_cases fits : ((c.tape rest).rest.take n).length ≤ c.pushbackSize
  · have room : ((c.tape rest).rest.take n).length +
        ((c.tape rest).forward ((c.tape rest).rest.take n).length).held ≤ c.pushbackSize := by
      simp only [Tape.forward]
      omega
    obtain ⟨c'', pushed, back⟩ := unread_shows _ shows room
    rw [Tape.back_forward] at back
    rw [pushed]
    exact .seen back
  · obtain ⟨between, -, is⟩ := shows.supply
    have none : c'.pushback.bytes.length = 0 := by
      have := congrArg Tape.held is
      simp only [tape, Tape.forward] at this held fits
      omega
    have size : c'.pushback.size = c.pushbackSize := shows.size
    rw [unread_refused (by omega), none, size]
    exact .full (Nat.lt_of_not_le fits) shows

/-- Before anything is pushed back, `n` bytes or all there are have been read, or the supply has failed. -/
theorem readUpTo_looked (n : Nat) (supply : holds c.supply rest) :
    (∃ fault c', readUpTo n [] c = .error fault c' ∧ Looked holds c rest n (.error fault c')) ∨
      ∃ c', readUpTo n [] c = .ok ((c.tape rest).rest.take n) c' ∧
        c'.Shows holds c ((c.tape rest).forward ((c.tape rest).rest.take n).length) := by
  cases found : readUpTo n [] c with
  | error fault c' =>
    obtain ⟨got, front, short, shows, all, empty, first⟩ := readUpTo_error_shows honest supply found
    exact .inl ⟨fault, c', rfl, .failed front short shows all empty first⟩
  | ok data c' =>
    obtain ⟨rfl, shows⟩ := readUpTo_ok_shows honest supply found
    exact .inr ⟨c', rfl, shows⟩

/-- A `peek` pushes back whatever it has read. -/
theorem peek_looked (n : Nat) (supply : holds c.supply rest) : Looked holds c rest n (peek n c) := by
  rcases readUpTo_looked honest n supply with ⟨fault, c', found, looked⟩ | ⟨c', found, shows⟩
  · simpa only [peek, readFully, found] using looked
  · have looked := unread_looked shows
    rw [peek_eq found]
    cases back : unread ((c.tape rest).rest.take n) c' <;> simpa only [back, Outcome.map] using looked

/-- If there are `n` bytes they are handed out, and nothing is pushed back. -/
theorem readFully_looked (n : Nat) (supply : holds c.supply rest) :
    Looked holds c rest n (readFully n c) ∧ (∀ got, (readFully n c).value = .ok got → got.length < n) ∨
      ∃ c', readFully n c = .ok ((c.tape rest).rest.take n) c' ∧ ((c.tape rest).rest.take n).length = n ∧
        c'.Shows holds c ((c.tape rest).forward n) := by
  rcases readUpTo_looked honest n supply with ⟨fault, c', found, looked⟩ | ⟨c', found, shows⟩
  · simp only [readFully, found]
    exact .inl ⟨looked, fun _ is => by cases is⟩
  · have most : ((c.tape rest).rest.take n).length ≤ n := List.length_take_le ..
    by_cases fewer : ((c.tape rest).rest.take n).length < n
    · have looked := unread_looked shows
      simp only [readFully, found, if_pos fewer]
      left
      cases back : unread ((c.tape rest).rest.take n) c' with
      | ok _ c'' =>
        rw [back] at looked
        refine ⟨looked, ?_⟩
        rintro _ ⟨⟩
        exact fewer
      | error fault c'' =>
        rw [back] at looked
        exact ⟨looked, fun _ is => by cases is⟩
    · have whole : ((c.tape rest).rest.take n).length = n := by omega
      rw [whole] at shows
      exact .inr ⟨c', by simp only [readFully, found, if_neg fewer], whole, shows⟩

end Honest

section Failing

variable [Supply σ] {fault : Fault} {s' : σ}

/-- If nothing is ahead and the supply fails at once, nothing but the supply has changed. -/
theorem readUpTo_failing (some : n ≠ 0) (none : c.ahead = [])
    (given : Supply.read (max n c.capacity) c.supply = .error fault s') :
    readUpTo n [] c = .error fault { c with supply := s' } := by
  obtain ⟨none, dry⟩ := ahead_eq_nil.1 none
  have failed : read n c = .error fault { c with supply := s' } := by
    by_cases large : c.capacity ≤ n
    · rw [Nat.max_eq_left large] at given
      simp [read, none, dry, large, given]
    · rw [Nat.max_eq_right (by omega)] at given
      have room : c.capacity ≠ 0 := by omega
      simp [read, fill, none, dry, large, room, given]
  unfold readUpTo
  rw [if_neg some]
  split
  · next found =>
    obtain ⟨rfl, rfl⟩ := EStateM.Result.error.inj (failed.symm.trans found)
    rfl
  · next found => cases failed.symm.trans found
  · next found => cases failed.symm.trans found

/-- A look ahead that fails so has changed nothing either. -/
theorem call_failing {look : Call} (is : look = .readFully n ∨ look = .peek n) (some : n ≠ 0) (none : c.ahead = [])
    (given : Supply.read (max n c.capacity) c.supply = .error fault s') :
    call look c = .error fault { c with supply := s' } := by
  have failed := readUpTo_failing some none given
  rcases is with rfl | rfl
  · simp only [call, readFully, failed, Outcome.map]
  · simp only [call, peek, readFully, failed, Outcome.map]

end Failing

/-- What the cursor has become, with `taken` handed out for good. -/
structure Leaves [Supply σ] (c : Cursor σ) (rest taken : Bytes) (c' : Cursor σ) : Prop where
  supply : ∃ rest', Supply.Offers c'.supply rest' ∧ (c.tape rest).rest = taken ++ (c'.tape rest').rest
  consumed : c'.consumed = c.consumed + taken.length

/-- What a look `n` bytes ahead may have taken if it fails: all that it has read, if that cannot be pushed back, or
what came before the supply failed, which is at least what was ahead. -/
def Costs (c : Cursor σ) (rest : Bytes) (n : Nat) (fault : Fault) (taken : Bytes) (c' : Cursor σ) : Prop :=
  c.pushbackSize < taken.length ∧ taken = (c.tape rest).rest.take n ∧
      fault = .pushbackFull taken.length 0 c.pushbackSize ∨
    taken.length < n ∧ c.ahead <+: taken ∧ c'.ahead = []

section Leaving

variable [Supply σ] {taken data : Bytes} {fault : Fault} {outcome : Outcome (Cursor σ) Bytes}

theorem leaves_forward (honest : Supply.Honest holds) (front : data <+: (c.tape rest).rest)
    (shows : c'.Shows holds c ((c.tape rest).forward data.length)) : c.Leaves rest data c' := by
  obtain ⟨behind, cut⟩ := front
  obtain ⟨rest', supply, is⟩ := shows.supply
  refine ⟨⟨rest', ⟨holds, honest, supply⟩, ?_⟩, congrArg Tape.consumed is⟩
  rw [is, Tape.forward, ← cut, List.drop_left]

theorem leaves_looked (honest : Supply.Honest holds) (shows : c'.Shows holds c ((c.tape rest).looked n)) :
    c.Leaves rest [] c' := by
  obtain ⟨rest', supply, is⟩ := shows.supply
  exact ⟨⟨rest', ⟨holds, honest, supply⟩, (congrArg Tape.rest is).symm⟩, congrArg Tape.consumed is⟩

theorem Looked.leaves (honest : Supply.Honest holds) (looked : Looked holds c rest n outcome) :
    ∃ taken, c.Leaves rest taken outcome.state ∧
      (∀ got, outcome.value = .ok got → got = (c.tape rest).rest.take n ∧ taken = []) ∧
      ∀ fault, outcome.value = .error fault → c.Costs rest n fault taken outcome.state ∧
        (taken = [] → c.ahead = [] ∧ ∃ s', Supply.read (max n c.capacity) c.supply = .error fault s') := by
  cases looked with
  | seen shows =>
    refine ⟨[], leaves_looked honest shows, ?_, fun _ is => by cases is⟩
    rintro _ ⟨⟩
    exact ⟨rfl, rfl⟩
  | full more shows =>
    refine ⟨(c.tape rest).rest.take n, leaves_forward honest (List.take_prefix ..) shows, (fun _ is => by cases is), ?_⟩
    rintro _ ⟨⟩
    refine ⟨.inl ⟨more, rfl, rfl⟩, fun none => ?_⟩
    rw [none] at more
    exact absurd more (Nat.not_lt_zero _)
  | failed front short shows all empty first =>
    refine ⟨_, leaves_forward honest front shows, (fun _ is => by cases is), ?_⟩
    rintro _ ⟨⟩
    refine ⟨.inr ⟨short, all, empty⟩, fun none => ⟨?_, _, first none⟩⟩
    exact List.prefix_nil.1 (none ▸ all)

omit [Supply σ] in
/-- Only a look at some bytes can fail. -/
theorem Costs.ne_zero (costs : c.Costs rest n fault taken c') : n ≠ 0 := by
  rintro rfl
  obtain ⟨more, rfl, -⟩ | ⟨short, -⟩ := costs
  · exact absurd more (Nat.not_lt_zero _)
  · exact absurd short (Nat.not_lt_zero _)

/-- A call that looks ahead gives what it has seen, or has failed. -/
theorem Looked.call_leaves {look : Call} (is : look = .readFully n ∨ look = .peek n) (honest : Supply.Honest holds)
    (called : call look c = outcome.map .bytes) (looked : Looked holds c rest n outcome) :
    ∃ taken, c.Leaves rest taken (call look c).state ∧
      (∀ reply, (call look c).value = .ok reply → reply = .bytes ((c.tape rest).rest.take n) ∧ taken = []) ∧
      ∀ fault, (call look c).value = .error fault → c.Costs rest n fault taken (call look c).state ∧
        (taken = [] ↔ c.ahead = [] ∧ ∃ s', Supply.read (max n c.capacity) c.supply = .error fault s') := by
  obtain ⟨taken, left, good, bad⟩ := looked.leaves honest
  rw [← Outcome.state_map Reply.bytes outcome, ← called] at left bad
  refine ⟨taken, left, fun reply value => ?_, fun fault value => ?_⟩
  · rw [called, Outcome.value_map_ok] at value
    obtain ⟨got, given, rfl⟩ := value
    obtain ⟨rfl, rfl⟩ := good got given
    exact ⟨rfl, rfl⟩
  · rw [called, Outcome.value_map_error] at value
    obtain ⟨costs, first⟩ := bad fault value
    refine ⟨costs, first, ?_⟩
    rintro ⟨nothing, s', given⟩
    have same := left.consumed
    rw [call_failing is costs.ne_zero nothing given] at same
    exact List.length_eq_zero_iff.1 (Nat.left_eq_add.1 same)

end Leaving

/-- What a look `n` bytes ahead leaves, over a supply that may fail at any place. If it finds fewer than `n` bytes, it
leaves all of them, and so does a `peek` that finds `n`. If it fails, it has left all only if nothing was ahead and the
supply failed at once: otherwise what has been read up to there is gone and counted as handed out. -/
theorem lookAhead_leaves [Supply σ] {look : Call} (is : look = .readFully n ∨ look = .peek n)
    (offers : Supply.Offers c.supply rest) :
    ∃ taken, c.Leaves rest taken (call look c).state ∧
      (∀ reply, (call look c).value = .ok reply → reply = .bytes ((c.tape rest).rest.take n) ∧
        ((c.tape rest).rest.length < n ∨ look = .peek n → taken = []) ∧
        (n ≤ (c.tape rest).rest.length ∧ look = .readFully n → taken = (c.tape rest).rest.take n)) ∧
      ∀ fault, (call look c).value = .error fault → c.Costs rest n fault taken (call look c).state ∧
        (taken = [] ↔ c.ahead = [] ∧ ∃ s', Supply.read (max n c.capacity) c.supply = .error fault s') := by
  obtain ⟨holds, honest, supply⟩ := offers
  rcases is with rfl | rfl
  · rcases readFully_looked honest n supply with ⟨looked, fewer⟩ | ⟨c', found, whole, shows⟩
    · obtain ⟨taken, left, good, bad⟩ := looked.call_leaves (.inl rfl) honest rfl
      refine ⟨taken, left, fun reply value => ?_, bad⟩
      obtain ⟨got, given, rfl⟩ := Outcome.value_map_ok.1 value
      obtain ⟨all, rfl⟩ := good _ value
      obtain rfl := Reply.bytes.inj all
      have fewer := fewer _ given
      refine ⟨rfl, fun _ => rfl, fun ⟨there, _⟩ => ?_⟩
      rw [List.length_take, Nat.min_eq_left there] at fewer
      exact absurd fewer (Nat.lt_irrefl n)
    · have called : call (.readFully n) c = .ok (.bytes ((c.tape rest).rest.take n)) c' := by
        simp only [call, found, Outcome.map]
      have there : n ≤ (c.tape rest).rest.length := by
        rw [← whole]
        exact List.length_take_le' ..
      rw [called]
      refine ⟨_, leaves_forward honest (List.take_prefix n _) (whole.symm ▸ shows), ?_, fun _ is => by cases is⟩
      rintro _ ⟨⟩
      refine ⟨rfl, ?_, fun _ => rfl⟩
      rintro (fewer | other)
      · exact absurd there (Nat.not_le_of_lt fewer)
      · cases other
  · obtain ⟨taken, left, good, bad⟩ := (peek_looked honest n supply).call_leaves (.inr rfl) honest rfl
    refine ⟨taken, left, fun reply value => ?_, bad⟩
    obtain ⟨rfl, rfl⟩ := good reply value
    refine ⟨rfl, fun _ => rfl, ?_⟩
    rintro ⟨-, other⟩
    cases other

/-- The input fails after the first two of four bytes. -/
theorem lookAhead_leaves_fault :
    let c := create (⟨Bytes.ofString "abcdef", none, some 2, .inputFailed⟩ : Input) 8 8
    Supply.Offers c.supply c.supply.data ∧
      ∃ taken, c.Leaves c.supply.data taken (call (.readFully 4) c).state ∧
        (∀ reply, (call (.readFully 4) c).value = .ok reply → reply = .bytes ((c.tape c.supply.data).rest.take 4) ∧
          ((c.tape c.supply.data).rest.length < 4 ∨ Call.readFully 4 = .peek 4 → taken = []) ∧
          (4 ≤ (c.tape c.supply.data).rest.length ∧ Call.readFully 4 = .readFully 4 →
            taken = (c.tape c.supply.data).rest.take 4)) ∧
        ∀ fault, (call (.readFully 4) c).value = .error fault →
          c.Costs c.supply.data 4 fault taken (call (.readFully 4) c).state ∧
          (taken = [] ↔ c.ahead = [] ∧ ∃ s', Supply.read (max 4 c.capacity) c.supply = .error fault s') := by
  intro c
  have offers : Supply.Offers c.supply c.supply.data := ⟨Input.Offers, Input.honest_offers, rfl, by decide⟩
  exact ⟨offers, lookAhead_leaves (.inl rfl) offers⟩

/-- All that an input is still to give through a cursor, and what has been handed out. -/
def standing (c : Cursor Input) : Bytes × Nat := ((c.tape c.supply.data).rest, c.consumed)

/-- What was read before the input failed does not come again, nor does what could not be pushed back. -/
theorem exists_lookAhead_lost :
    (∃ c : Cursor Input, c.standing = (Bytes.ofString "abcdef", 0) ∧
      (call (.readFully 4) c).fault? = some .inputFailed ∧
      (call (.readFully 4) c).state.standing = (Bytes.ofString "cdef", 2)) ∧
    ∃ c : Cursor Input, c.standing = (Bytes.ofString "abc", 0) ∧
      (call (.peek 2) c).fault? = some (.pushbackFull 2 0 1) ∧
      (call (.peek 2) c).state.standing = (Bytes.ofString "c", 2) :=
  ⟨⟨create ⟨Bytes.ofString "abcdef", none, some 2, .inputFailed⟩ 8 8, by decide +kernel, by decide +kernel,
      by decide +kernel⟩,
    ⟨create (.ofBytes (Bytes.ofString "abc")) 8 1, by decide +kernel, by decide +kernel, by decide +kernel⟩⟩

end Cursor
end ArcFile
