import ArcFile.Proofs.Supply.View
import ArcFile.Supply.Span
/-!
Spans and bodies over a steady supply. However the content of a record is read, its span takes exactly the
declared bytes from the supply, or all there are, and each of the two digests has every byte that it
is to cover once and in order.
-/
namespace ArcFile

namespace Digest.Running

theorem map_update_update (running : Option Running) (a b : Bytes) :
    (running.map (·.update a)).map (·.update b) = running.map (·.update (a ++ b)) := by
  cases running <;> simp [update_update]

end Digest.Running

namespace Span

variable {σ : Type}

/-- The span was made for `length` bytes of a supply that held `all`, and still gives `rest` of them. All
that came before went through the digest. -/
structure Reads (holds : σ → Bytes → Prop) (all : Bytes) (length : Nat)
    (digest : Option Digest.Running) (span : Span σ) (rest : Bytes) : Prop where
  taken : ∃ got, all.take length = got ++ rest ∧ holds span.inner (all.drop got.length) ∧
    span.digest = digest.map (·.update got) ∧
    span.remaining + span.unavailable + got.length = length
  size : span.length = length
  ended : span.unavailable ≠ 0 → span.remaining = 0 ∧ rest = []
  unclosed : span.closed = false

variable {holds : σ → Bytes → Prop} {all rest : Bytes} {length : Nat}
  {digest : Option Digest.Running} {span : Span σ}

theorem reads_create {inner : σ} (held : holds inner all) :
    Reads holds all length digest (create inner length digest) (all.take length) where
  taken := ⟨[], rfl, held, by cases digest <;> rfl, by simp [create]⟩
  size := rfl
  ended := by
    intro missing
    exact absurd rfl missing
  unclosed := rfl

theorem Reads.rest_eq_nil (h : Reads holds all length digest span rest) (none : span.remaining = 0) :
    rest = [] := by
  by_cases missing : span.unavailable = 0
  · obtain ⟨got, cut, -, -, sum⟩ := h.taken
    have := congrArg List.length cut
    simp only [List.length_take, List.length_append] at this
    exact List.eq_nil_of_length_eq_zero (by omega)
  · exact (h.ended missing).2

variable [Supply σ] (steady : Supply.Steady holds)

include steady

theorem steady_reads : Supply.Steady (Reads holds all length digest) where
  read := by
    intro span rest n h
    simp only [Supply.read]
    unfold read
    split
    · next nothing =>
      refine ⟨[], rest, span, rfl, rfl, ?_, h⟩
      intro _
      rcases nothing with none | zero
      · exact .inr (h.rest_eq_nil none)
      · exact .inl zero
    · next something =>
      obtain ⟨open_, -⟩ := not_or.1 something
      obtain ⟨got, cut, held, covered, sum⟩ := h.taken
      have missing : span.unavailable = 0 := by
        apply Decidable.byContradiction
        intro missing
        exact open_ (h.ended missing).1
      have rest_eq : rest = (all.drop got.length).take span.remaining := by
        have := congrArg (List.drop got.length) cut
        rw [List.drop_left, List.drop_take] at this
        rw [← this]
        congr 1
        omega
      obtain ⟨more, left, inner, found, split, only, after⟩ := steady.read (min n span.remaining) held
      have most := (Supply.read_ok found).1
      rw [found]
      cases more with
      | nil =>
        have : left = [] := (only rfl).resolve_left (by omega)
        subst this
        have : rest = [] := by rw [rest_eq, split]; simp
        subst this
        refine ⟨[], [], _, rfl, rfl, ?_,
          ⟨got, cut, by rw [split]; exact after, covered, by simp only; omega⟩, h.size, ?_, h.unclosed⟩
        · intro _
          exact .inr rfl
        · intro _
          exact ⟨rfl, rfl⟩
      | cons b more =>
        have le : (b :: more).length ≤ span.remaining := Nat.le_trans most (Nat.min_le_right _ _)
        rw [split, List.take_append, List.take_of_length_le le] at rest_eq
        subst rest_eq
        refine ⟨b :: more, left.take (span.remaining - (b :: more).length), _, rfl, rfl, ?_,
          ⟨got ++ b :: more, by rw [cut, List.append_assoc], ?_, ?_, ?_⟩, h.size, ?_, h.unclosed⟩
        · intro empty
          exact absurd empty (List.cons_ne_nil _ _)
        · rw [List.length_append, ← List.drop_drop, split, List.drop_left]
          exact after
        · simp only [covered]
          exact Digest.Running.map_update_update digest got (b :: more)
        · simp only [List.length_append]
          omega
        · intro wrong
          exact absurd missing wrong

theorem passOver_reads (h : Reads holds all length digest span rest) :
    ∃ span', passOver span = .ok () span' ∧ Reads holds all length digest span' [] ∧
      span'.remaining = 0 := by
  induction len : rest.length using Nat.strongRecOn generalizing span rest with
  | ind len ih =>
    unfold passOver
    by_cases none : span.remaining = 0
    · rw [if_pos none]
      exact ⟨span, rfl, h.rest_eq_nil none ▸ h, none⟩
    · rw [if_neg none]
      obtain ⟨got, rest, span', found, rfl, only, after⟩ := (steady_reads steady).read stride h
      have found : read stride span = .ok got span' := found
      cases got with
      | nil =>
        obtain rfl : rest = [] := (only rfl).resolve_left (by decide)
        refine ⟨span', ?_, after, ?_⟩
        · split <;> simp_all
        · unfold read at found
          rw [if_neg (by simp [none, stride])] at found
          split at found
          · cases found
          · cases found
            rfl
          · cases found
      | cons b more =>
        obtain ⟨span'', passed, ended, all⟩ := ih rest.length (by simp at len; omega) after rfl
        refine ⟨span'', ?_, ended, all⟩
        split
        · next other => simp [found] at other
        · next other => simp [found] at other
        · next other =>
          simp only [found, EStateM.Result.ok.injEq, List.cons.injEq] at other
          obtain ⟨-, rfl⟩ := other
          exact passed

/-- Closing takes the whole span from the supply, and the digest is that of all of it. -/
theorem takeDigest_reads (h : Reads holds all length digest span rest) :
    ∃ span', takeDigest span = .ok (digest.map fun d => (d.update (all.take length)).finish) span' ∧
      span'.unavailable = length - (all.take length).length ∧ holds span'.inner (all.drop length) := by
  obtain ⟨span', passed, ended, empty⟩ := passOver_reads steady h
  obtain ⟨got, cut, held, covered, sum⟩ := ended.taken
  rw [List.append_nil] at cut
  subst cut
  refine ⟨{ span' with closed := true, digest := none }, ?_, by simp only; omega, ?_⟩
  · simp only [takeDigest, close, h.unclosed, Bool.false_eq_true, ↓reduceIte, passed, covered,
      Option.map_map]
    rfl
  · rcases Nat.le_total length all.length with le | le
    · simpa [Nat.min_eq_left le] using held
    · rw [List.length_take, Nat.min_eq_right le, List.drop_length] at held
      rwa [List.drop_eq_nil_of_le le]

end Span

namespace Body

variable {σ : Type}

/-- The body gave `content` when it was opened, with `running` as its digest, and still gives `rest`. -/
structure Reads (holds : σ → Bytes → Prop) (all : Bytes) (length : Nat)
    (digest running : Option Digest.Running) (content : Bytes) (body : Body σ) (rest : Bytes) :
    Prop where
  cursor : body.cursor.Holds (Span.Reads holds all length digest) rest
  taken : ∃ out, content = out ++ rest ∧ body.digest = running.map (·.update out)

variable {holds : σ → Bytes → Prop} {all content rest : Bytes} {length : Nat}
  {digest running : Option Digest.Running} {body : Body σ}

theorem holds_create {inner : σ} {capacity pushback : Nat} (pos : 0 < capacity)
    (held : holds inner all) : (create inner length digest capacity pushback).cursor.Holds
      (Span.Reads holds all length digest) (all.take length) :=
  Cursor.holds_create pos (Span.reads_create held)

theorem reads_refl (body : Body σ) (h : body.cursor.Holds (Span.Reads holds all length digest) rest) :
    Reads holds all length digest body.digest rest body rest :=
  ⟨h, [], rfl, by cases body.digest <;> rfl⟩

theorem advance_reads {n : Nat} (h : Reads holds all length digest running content body rest)
    (most : n ≤ body.cursor.atHand.length) :
    Reads holds all length digest running content (body.advance n) (rest.drop n) := by
  obtain ⟨out, rfl, covered⟩ := h.taken
  obtain ⟨more, cut⟩ := h.cursor.atHand_append
  refine ⟨(Cursor.advance_holds h.cursor most).1, out ++ rest.take n, by simp, ?_⟩
  have digested : (body.advance n).digest = body.digest.map (·.update (body.cursor.atHand.take n)) := by
    rfl
  rw [digested, covered, Digest.Running.map_update_update, cut, List.take_append_of_le_length most]

variable [Supply σ] (steady : Supply.Steady holds)

include steady

theorem fill_reads (h : Reads holds all length digest running content body rest) :
    ∃ body', fill body = .ok body'.cursor.atHand body' ∧
      Reads holds all length digest running content body' rest ∧
      (body'.cursor.atHand = [] → rest = []) := by
  obtain ⟨cursor, found, held, -, empty⟩ := Cursor.fill_holds (Span.steady_reads steady) h.cursor
  refine ⟨{ body with cursor }, by simp only [fill, found], ⟨held, h.taken⟩, ?_⟩
  intro none
  exact (empty none).1

theorem read_reads (n : Nat) (h : Reads holds all length digest running content body rest) :
    ∃ got rest' body', read n body = .ok got body' ∧ rest = got ++ rest' ∧
      (got = [] → n = 0 ∨ rest' = []) ∧
      Reads holds all length digest running content body' rest' := by
  obtain ⟨got, rest', cursor, found, rfl, only, held, -⟩ :=
    Cursor.read_holds (Span.steady_reads steady) n h.cursor
  obtain ⟨out, rfl, covered⟩ := h.taken
  refine ⟨got, rest', { body with cursor }.digested got, by simp only [read, found], rfl, only, held,
    out ++ got, by simp, ?_⟩
  simp only [digested, covered, Digest.Running.map_update_update]

theorem drain_reads (h : Reads holds all length digest running content body rest) :
    ∃ body', drain body = .ok () body' ∧ Reads holds all length digest running content body' [] := by
  induction len : rest.length using Nat.strongRecOn generalizing body rest with
  | ind len ih =>
    obtain ⟨cursor, found, held, -, empty⟩ := Cursor.fill_holds (Span.steady_reads steady) h.cursor
    unfold drain
    cases hand : cursor.atHand with
    | nil =>
      obtain rfl := (empty hand).1
      rw [hand] at found
      refine ⟨{ body with cursor }, ?_, held, h.taken⟩
      split <;> simp_all
    | cons b more =>
      have reads : Reads holds all length digest running content { body with cursor } rest :=
        ⟨held, h.taken⟩
      have after := advance_reads (n := (b :: more).length) reads (Nat.le_of_eq (by rw [hand]))
      have same : advance (b :: more).length { body with cursor } =
          { body.digested (b :: more) with cursor := cursor.advance (b :: more).length } := by
        have : (if cursor.pushback.bytes.isEmpty then cursor.buffer else cursor.pushback.bytes) =
          b :: more := hand
        simp only [advance, this, List.take_length]
        rfl
      have fewer : (rest.drop (b :: more).length).length < rest.length := by
        obtain ⟨_, cut⟩ := held.atHand_append
        rw [cut, hand, List.length_drop]
        simp only [List.length_append, List.length_cons]
        omega
      obtain ⟨body', drained, ended⟩ := ih _ (len ▸ fewer) (same ▸ after) rfl
      refine ⟨body', ?_, ended⟩
      rw [hand] at found
      split
      · next other => simp [found] at other
      · next other => simp [found] at other
      · next other =>
        simp only [found, EStateM.Result.ok.injEq, List.cons.injEq] at other
        obtain ⟨⟨rfl, rfl⟩, rfl⟩ := other
        exact drained

/-- Closing leaves the supply behind the declared bytes. The block digest is that of all of them, and the
other one that of all content, whatever was read of it. -/
theorem close_reads (h : Reads holds all length digest running content body rest) :
    ∃ inner, close body = .ok ⟨length - (all.take length).length,
        digest.map fun d => (d.update (all.take length)).finish,
        running.map fun d => (d.update content).finish⟩ inner ∧
      holds inner (all.drop length) := by
  obtain ⟨body', drained, ended⟩ := drain_reads steady h
  obtain ⟨out, rfl, covered⟩ := ended.taken
  obtain ⟨left, reads, none⟩ := ended.cursor.supply
  obtain ⟨span, taken, missing, after⟩ := Span.takeDigest_reads steady reads
  refine ⟨span.inner, ?_, after⟩
  simp only [close, drained, taken, missing, covered, Option.map_map, List.append_nil]
  rfl

end Body
end ArcFile
