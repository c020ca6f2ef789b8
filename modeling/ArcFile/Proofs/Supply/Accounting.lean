import ArcFile.Proofs.Supply.Tape
import ArcFile.Proofs.Supply.Content
/-!
A span keeps account of its bytes. Its supply may fault at any time and be asked again; whatever is asked of the
span, what it took from the supply, what it has yet to read and what it found missing make up its length.

* A `Watched` supply writes down what it is asked for, so that the account can be compared with the requests;
* `call_balances` shows that every call keeps the account, and `calls_balance` that any number of calls does.
-/
namespace ArcFile

namespace Outcome

variable {σ τ α β : Type}

def mapState (f : σ → τ) : Outcome σ α → Outcome τ α
  | .ok a s => .ok a (f s)
  | .error fault s => .error fault (f s)

@[simp] theorem state_map (f : α → β) (outcome : Outcome σ α) : (outcome.map f).state = outcome.state := by
  cases outcome <;> rfl

@[simp] theorem state_mapState (f : σ → τ) (outcome : Outcome σ α) :
    (outcome.mapState f).state = f outcome.state := by
  cases outcome <;> rfl

@[simp] theorem value_mapState (f : σ → τ) (outcome : Outcome σ α) :
    (outcome.mapState f).value = outcome.value := by
  cases outcome <;> rfl

end Outcome

namespace Supply

/-- `holds s data` says that `s` has `data` to give. A read takes a piece from the front, which is empty only at
the end, or it faults and takes nothing. -/
structure Honest {σ : Type} [Supply σ] (holds : σ → Bytes → Prop) : Prop where
  ok : ∀ {s s' : σ} {data got : Bytes} {n : Nat}, holds s data → Supply.read n s = .ok got s' →
    ∃ rest, data = got ++ rest ∧ (got = [] → n = 0 ∨ rest = []) ∧ holds s' rest
  error : ∀ {s s' : σ} {data : Bytes} {n : Nat} {fault : Fault}, holds s data →
    Supply.read n s = .error fault s' → holds s' data

/-- The supply has this data to give, in pieces of any size and with faults at any place. -/
def Offers {σ : Type} [Supply σ] (s : σ) (data : Bytes) : Prop :=
  ∃ holds : σ → Bytes → Prop, Honest holds ∧ holds s data

/-- What a supply was asked for, and what it gave. -/
structure Request where
  size : Nat
  answer : Except Fault Bytes

/-- The bytes that the request took. -/
def Request.got : Request → Bytes
  | ⟨_, .ok got⟩ => got
  | ⟨_, .error _⟩ => []

/-- A supply, with all that it has been asked for so far. -/
structure Watched (σ : Type) where
  inner : σ
  requests : List Request

namespace Watched

variable {σ : Type}

def start (inner : σ) : Watched σ := ⟨inner, []⟩

/-- All that has been taken from the supply. -/
def taken (s : Watched σ) : Bytes := s.requests.flatMap Request.got

/-- No request was for a byte beyond the first `limit`. -/
def Within (limit : Nat) (s : Watched σ) : Prop :=
  ∀ i (there : i < s.requests.length),
    ((s.requests.take i).flatMap Request.got).length + s.requests[i].size ≤ limit

/-- The supply has reported its end. -/
def FoundEnd (s : Watched σ) : Prop := ∃ n, n ≠ 0 ∧ ⟨n, .ok []⟩ ∈ s.requests

def noted (n : Nat) (answer : Except Fault Bytes) (inner : σ) (s : Watched σ) : Watched σ :=
  ⟨inner, s.requests ++ [⟨n, answer⟩]⟩

variable {s : Watched σ} {inner : σ} {n limit : Nat} {answer : Except Fault Bytes}

@[simp] theorem inner_noted : (s.noted n answer inner).inner = inner := rfl

@[simp] theorem taken_noted_ok {got : Bytes} : (s.noted n (.ok got) inner).taken = s.taken ++ got := by
  simp [taken, noted, Request.got]

@[simp] theorem taken_noted_error {fault : Fault} : (s.noted n (.error fault) inner).taken = s.taken := by
  simp [taken, noted, Request.got]

theorem Within.noted (h : s.Within limit) (most : s.taken.length + n ≤ limit) :
    (s.noted n answer inner).Within limit := by
  intro i there
  simp only [Watched.noted, List.length_append, List.length_cons, List.length_nil] at there
  by_cases earlier : i < s.requests.length
  · simpa [Watched.noted, List.take_append_of_le_length (Nat.le_of_lt earlier), earlier] using h i earlier
  · obtain rfl : i = s.requests.length := by omega
    simpa [Watched.noted, taken] using most

variable [Supply σ]

def read (n : Nat) (s : Watched σ) : Outcome (Watched σ) Bytes :=
  match Supply.read n s.inner with
  | .ok got inner => .ok got (s.noted n (.ok got) inner)
  | .error fault inner => .error fault (s.noted n (.error fault) inner)

instance : Supply (Watched σ) where
  read := read
  bound s := Supply.bound s.inner
  read_ok := by
    intro n s s' data h
    unfold read at h
    split at h
    · next found =>
      cases h
      exact Supply.read_ok found
    · cases h
  read_error := by
    intro n s s' fault h
    unfold read at h
    split at h
    · cases h
    · next found =>
      cases h
      exact Supply.read_error found

theorem ok_of_read {s' : Watched σ} {got : Bytes} (h : Supply.read n s = .ok got s') :
    ∃ inner, Supply.read n s.inner = .ok got inner ∧ s' = s.noted n (.ok got) inner := by
  simp only [Supply.read, read] at h
  split at h
  · next found =>
    cases h
    exact ⟨_, found, rfl⟩
  · cases h

theorem error_of_read {s' : Watched σ} {fault : Fault} (h : Supply.read n s = .error fault s') :
    ∃ inner, Supply.read n s.inner = .error fault inner ∧ s' = s.noted n (.error fault) inner := by
  simp only [Supply.read, read] at h
  split at h
  · cases h
  · next found =>
    cases h
    exact ⟨_, found, rfl⟩

end Watched
end Supply

namespace Input

/-- The input gives this data, with a fault at any place. -/
def Offers (input : Input) (data : Bytes) : Prop := input.data = data ∧ input.chunk ≠ some 0

theorem honest_offers : Supply.Honest Offers where
  ok := by
    rintro ⟨data, chunk, untilFault, fault⟩ s' _ got n ⟨rfl, some⟩ found
    simp only [Supply.read, read] at found
    split at found
    · cases found
    · next fine =>
      cases found
      refine ⟨data.drop (quota n ⟨data, chunk, untilFault, fault⟩), by simp, ?_, rfl, some⟩
      intro empty
      rcases List.take_eq_nil_iff.1 empty with zero | none
      · refine .inl ?_
        simp only [quota] at zero
        split at zero <;> split at zero <;> simp_all
      · exact .inr (by simp [none])
  error := by
    rintro ⟨data, chunk, untilFault, fault⟩ s' _ n fault' ⟨rfl, some⟩ found
    simp only [Supply.read, read] at found
    split at found
    · cases found
      exact ⟨rfl, some⟩
    · cases found

end Input

namespace Span

/-- What can be asked of a span. -/
inductive Call
  | read (n : Nat)
  | close
  | takeDigest
  deriving Repr, DecidableEq

/-- What a span gives for a call. -/
inductive Reply
  | bytes (data : Bytes)
  | done
  | digest (digest : Option Digest)
  deriving Repr, DecidableEq

variable {σ : Type}

/-- Whether the reply is to a call that has closed the span. -/
def closes : Except Fault Reply → Bool
  | .ok .done | .ok (.digest _) => true
  | _ => false

/-- What was given as a digest, if the reply is to a call for it. -/
def digest? : Except Fault Reply → Option (Option Digest)
  | .ok (.digest digest) => some digest
  | _ => none

section Calls

variable [Supply σ]

theorem close_of_closed {span : Span σ} (closed : span.closed) : close span = .ok () span := by
  rw [close, if_pos closed]

def call : Call → Span σ → Outcome (Span σ) Reply
  | .read n, span => (read n span).map .bytes
  | .close, span => (close span).map fun _ => .done
  | .takeDigest, span => (takeDigest span).map .digest

/-- One call after the other, whatever becomes of each. -/
def calls : List Call → Span σ → List (Except Fault Reply) × Span σ
  | [], span => ([], span)
  | next :: more, span =>
    let (replies, last) := calls more (call next span).state
    ((call next span).value :: replies, last)

end Calls

/-- The span of a supply that is not watched. -/
def bare (span : Span (Supply.Watched σ)) : Span σ := { span with inner := span.inner.inner }

/-- What a span of `length` bytes of `all` has come to, `running` being its digest before any byte. -/
structure Keeps (holds : σ → Bytes → Prop) (all : Bytes) (length : Nat) (running : Option Digest.Running)
    (span : Span (Supply.Watched σ)) : Prop where
  taken : ∃ rest, all = span.inner.taken ++ rest ∧ holds span.inner.inner rest ∧ (span.unavailable ≠ 0 → rest = [])
  size : span.length = length
  sum : span.inner.taken.length + span.remaining + span.unavailable = length
  within : span.inner.Within length
  ended : span.unavailable ≠ 0 → span.inner.FoundEnd ∧ span.remaining = 0
  digest : span.digest = running.map (·.update span.inner.taken)
  shut : span.closed → span.remaining = 0

variable {holds : σ → Bytes → Prop} {all : Bytes} {length : Nat} {running : Option Digest.Running}
  {span : Span (Supply.Watched σ)}

theorem keeps_create {inner : σ} (held : holds inner all) :
    Keeps holds all length running (create (.start inner) length running) where
  taken := ⟨all, rfl, held, fun missing => absurd rfl missing⟩
  size := rfl
  sum := by simp [create, Supply.Watched.start, Supply.Watched.taken]
  within := fun _ there => absurd there (Nat.not_lt_zero _)
  ended missing := absurd rfl missing
  digest := by cases running <;> rfl
  shut closed := by cases closed

/-- Once nothing remains, as many bytes have been taken as there are. -/
theorem Keeps.taken_eq (h : Keeps holds all length running span) (none : span.remaining = 0) :
    span.inner.taken = all.take length := by
  obtain ⟨rest, cut, -, only⟩ := h.taken
  have sum := h.sum
  by_cases missing : span.unavailable = 0
  · have whole : span.inner.taken.length = length := by omega
    rw [cut, ← whole, List.take_left]
  · obtain rfl := only missing
    rw [List.append_nil] at cut
    rw [cut, List.take_of_length_le (by omega)]

/-- While something remains, no byte is missing yet and the span has not been closed. -/
theorem Keeps.unended (h : Keeps holds all length running span) (open_ : span.remaining ≠ 0) :
    span.unavailable = 0 ∧ ¬ span.closed := by
  refine ⟨?_, fun closed => open_ (h.shut closed)⟩
  apply Decidable.byContradiction
  intro missing
  exact open_ (h.ended missing).2

section Calls

variable [Supply σ] (honest : Supply.Honest holds) {span' : Span (Supply.Watched σ)} {fault : Fault} {n : Nat}

include honest

/-- What a read gives has been taken from the supply. -/
theorem read_keeps {got : Bytes} (h : Keeps holds all length running span) (found : read n span = .ok got span') :
    Keeps holds all length running span' ∧ span'.inner.taken = span.inner.taken ++ got ∧
      (got = [] → n = 0 ∨ span'.remaining = 0) := by
  unfold read at found
  split at found
  · next nothing =>
    cases found
    exact ⟨h, by simp, fun _ => nothing.symm⟩
  · next something =>
    obtain ⟨open_, -⟩ := not_or.1 something
    obtain ⟨present, opened⟩ := h.unended open_
    obtain ⟨rest, cut, held, -⟩ := h.taken
    have sum := h.sum
    have most : span.inner.taken.length + min n span.remaining ≤ length := by omega
    split at found
    · cases found
    · next asked =>
      cases found
      obtain ⟨inner, given, rfl⟩ := Supply.Watched.ok_of_read asked
      obtain ⟨rest', split, only, after⟩ := honest.ok held given
      obtain rfl : rest' = [] := (only rfl).resolve_left (by omega)
      obtain rfl : rest = [] := split
      refine ⟨⟨⟨[], by simpa using cut, after, fun _ => rfl⟩, h.size, ?_, h.within.noted most, fun _ => ⟨?_, rfl⟩,
        by simpa using h.digest, fun _ => rfl⟩, by simp, fun _ => .inr rfl⟩
      · simp only [Supply.Watched.taken_noted_ok, List.append_nil]
        omega
      · exact ⟨min n span.remaining, by omega, by simp [Supply.Watched.noted]⟩
    · next b more inner asked =>
      cases found
      obtain ⟨inner, given, rfl⟩ := Supply.Watched.ok_of_read asked
      obtain ⟨rest', rfl, -, after⟩ := honest.ok held given
      have fits := (Supply.read_ok given).1
      refine ⟨⟨⟨rest', by simpa using cut, after, fun missing => absurd present missing⟩, h.size, ?_,
        h.within.noted most, fun missing => absurd present missing, ?_, fun closed => absurd closed opened⟩,
        by simp, fun empty => absurd empty (List.cons_ne_nil _ _)⟩
      · simp only [Supply.Watched.taken_noted_ok, List.length_append]
        omega
      · simp only [h.digest, Digest.Running.map_update_update, Supply.Watched.taken_noted_ok]

/-- A read that fails leaves all but the supply as it was, and that has as much to give as before. -/
theorem read_error_keeps (h : Keeps holds all length running span) (found : read n span = .error fault span') :
    Keeps holds all length running span' ∧ span' = { span with inner := span'.inner } ∧
      span'.inner.taken = span.inner.taken := by
  unfold read at found
  split at found
  · cases found
  · next something =>
    obtain ⟨open_, -⟩ := not_or.1 something
    obtain ⟨present, -⟩ := h.unended open_
    obtain ⟨rest, cut, held, -⟩ := h.taken
    have sum := h.sum
    split at found
    · next asked =>
      cases found
      obtain ⟨inner, given, rfl⟩ := Supply.Watched.error_of_read asked
      exact ⟨⟨⟨rest, by simpa using cut, honest.error held given, fun missing => absurd present missing⟩, h.size,
        by simpa using sum, h.within.noted (by omega), fun missing => absurd present missing,
        by simpa using h.digest, h.shut⟩, rfl, by simp⟩
    · cases found
    · cases found

theorem passOver_keeps (h : Keeps holds all length running span) :
    Keeps holds all length running (passOver span).state ∧
      ∀ span', passOver span = .ok () span' → span'.remaining = 0 := by
  fun_induction passOver span with
  | case1 span none =>
    refine ⟨h, ?_⟩
    rintro _ ⟨⟩
    exact none
  | case2 span some fault span' found => exact ⟨(read_error_keeps honest h found).1, fun _ is => by cases is⟩
  | case3 span some span' found =>
    obtain ⟨kept, -, only⟩ := read_keeps honest h found
    refine ⟨kept, ?_⟩
    rintro _ ⟨⟩
    exact (only rfl).resolve_left (by decide)
  | case4 span some b more span' found _ ih => exact ih (read_keeps honest h found).1

/-- A close that succeeds leaves the span at the end of its bytes. After one that fails it may be closed again. -/
theorem close_keeps (h : Keeps holds all length running span) :
    Keeps holds all length running (close span).state ∧ ∀ span', close span = .ok () span' → span'.closed := by
  unfold close
  split
  · next closed =>
    refine ⟨h, ?_⟩
    rintro _ ⟨⟩
    exact closed
  · obtain ⟨kept, none⟩ := passOver_keeps honest h
    split
    · next span' passed =>
      rw [passed] at kept
      refine ⟨{ kept with shut := fun _ => none span' passed }, ?_⟩
      rintro _ ⟨⟩
      rfl
    · next passed =>
      rw [passed] at kept
      exact ⟨kept, fun _ is => by cases is⟩

/-- The digest is that of all bytes of the span, and is gone once it has been given. -/
theorem takeDigest_keeps {given : Option Digest} (h : Keeps holds all length running span)
    (found : takeDigest span = .ok given span') :
    Keeps holds all length none span' ∧ span'.closed ∧
      given = running.map fun d => (d.update (all.take length)).finish := by
  obtain ⟨kept, shut⟩ := close_keeps honest h
  unfold takeDigest at found
  split at found
  · next ended closed =>
    cases found
    rw [closed] at kept
    have kept : Keeps holds all length running ended := kept
    have shut := shut ended closed
    refine ⟨{ kept with digest := rfl }, shut, ?_⟩
    rw [kept.digest, Option.map_map, kept.taken_eq (kept.shut shut)]
    rfl
  · cases found

theorem takeDigest_error_keeps (h : Keeps holds all length running span)
    (found : takeDigest span = .error fault span') : Keeps holds all length running span' := by
  have kept := (close_keeps honest h).1
  unfold takeDigest at found
  split at found
  · cases found
  · next failed =>
    cases found
    rwa [failed] at kept

/-- What is known after some calls that gave these replies. At most one of them, the first that was for the digest,
has given it. -/
structure Stands (holds : σ → Bytes → Prop) (all : Bytes) (length : Nat) (digest : Option Digest.Running)
    (replies : List (Except Fault Reply)) (span : Span (Supply.Watched σ)) : Prop where
  kept : ∃ running, Keeps holds all length running span ∧
    (replies.filterMap digest? = [] ∧ running = digest ∨
      running = none ∧ ∃ later, replies.filterMap digest? =
        (digest.map fun d => (d.update (all.take length)).finish) :: List.replicate later none)
  closed : replies.any closes → span.closed

omit honest in
theorem closed_read (n : Nat) (span : Span (Supply.Watched σ)) : (read n span).state.closed = span.closed := by
  unfold read
  repeat' split
  all_goals rfl

omit honest in
/-- What has been closed stays so, whatever is asked of it. -/
theorem closed_call (next : Call) (closed : span.closed) : (call next span).state.closed := by
  cases next with
  | read n => rw [call, Outcome.state_map, closed_read, closed]
  | close => simpa only [call, close_of_closed closed, Outcome.map, Outcome.state] using closed
  | takeDigest => simpa only [call, takeDigest, close_of_closed closed, Outcome.map, Outcome.state] using closed

variable {digest : Option Digest.Running} {replies : List (Except Fault Reply)} {reply : Except Fault Reply}

omit honest [Supply σ] in
/-- A reply that does not come from closing the span says nothing of its digest either. -/
theorem Stands.further (h : Stands holds all length digest replies span) (other : closes reply = false)
    (kept : ∀ {running}, Keeps holds all length running span → Keeps holds all length running span')
    (closed : span.closed → span'.closed) : Stands holds all length digest (replies ++ [reply]) span' := by
  have silent : digest? reply = none := by
    unfold closes at other
    unfold digest?
    split <;> simp_all
  obtain ⟨running, keeps, given⟩ := h.kept
  refine ⟨⟨running, kept keeps, ?_⟩, ?_⟩
  · simpa [List.filterMap_append, silent] using given
  · intro earlier
    refine closed (h.closed ?_)
    simpa [other] using earlier

/-- Every call keeps the account. -/
theorem call_stands (next : Call) (h : Stands holds all length digest replies span) :
    Stands holds all length digest (replies ++ [(call next span).value]) (call next span).state := by
  have closed : span.closed → (call next span).state.closed := closed_call next
  cases next with
  | read n =>
    cases found : read n span with
    | ok got span' =>
      simp only [call, found, Outcome.map, Outcome.value, Outcome.state] at closed ⊢
      exact h.further rfl (fun kept => (read_keeps honest kept found).1) closed
    | error fault span' =>
      simp only [call, found, Outcome.map, Outcome.value, Outcome.state] at closed ⊢
      exact h.further rfl (fun kept => (read_error_keeps honest kept found).1) closed
  | close =>
    cases found : close span with
    | ok nothing span' =>
      obtain ⟨running, kept, given⟩ := h.kept
      obtain ⟨keeps, shut⟩ := close_keeps honest kept
      rw [found] at keeps
      simp only [call, found, Outcome.map, Outcome.value, Outcome.state]
      refine ⟨⟨running, keeps, ?_⟩, fun _ => shut span' found⟩
      have silent : [(.ok .done : Except Fault Reply)].filterMap digest? = [] := rfl
      rwa [List.filterMap_append, silent, List.append_nil]
    | error fault span' =>
      simp only [call, found, Outcome.map, Outcome.value, Outcome.state] at closed ⊢
      refine h.further rfl (fun kept => ?_) closed
      have keeps := (close_keeps honest kept).1
      rwa [found] at keeps
  | takeDigest =>
    cases found : takeDigest span with
    | ok got span' =>
      obtain ⟨running, kept, given⟩ := h.kept
      obtain ⟨keeps, shut, rfl⟩ := takeDigest_keeps honest kept found
      simp only [call, found, Outcome.map, Outcome.value, Outcome.state]
      refine ⟨⟨none, keeps, .inr ⟨rfl, ?_⟩⟩, fun _ => shut⟩
      simp only [List.filterMap_append]
      obtain ⟨first, rfl⟩ | ⟨rfl, later, again⟩ := given
      · exact ⟨0, by rw [first]; rfl⟩
      · exact ⟨later + 1, by rw [again, List.replicate_succ']; rfl⟩
    | error fault span' =>
      simp only [call, found, Outcome.map, Outcome.value, Outcome.state] at closed ⊢
      exact h.further rfl (fun kept => takeDigest_error_keeps honest kept found) closed

/-- Any number of calls keeps the account. -/
theorem calls_stand (asked : List Call) (h : Stands holds all length digest replies span) :
    Stands holds all length digest (replies ++ (calls asked span).1) (calls asked span).2 := by
  induction asked generalizing replies span with
  | nil => simpa [calls] using h
  | cons next more ih =>
    have := ih (call_stands honest next h)
    rwa [List.append_assoc] at this

end Calls

section Bare

variable [Supply σ]

theorem read_bare (n : Nat) (span : Span (Supply.Watched σ)) :
    read n span.bare = (read n span).mapState bare := by
  have given (n : Nat) (s : Supply.Watched σ) :
      Supply.read n s.inner = (Supply.read n s).mapState Supply.Watched.inner := by
    simp only [Supply.read, Supply.Watched.read]
    split <;> simp_all [Outcome.mapState]
  simp only [read, bare, given]
  split
  · rfl
  · rcases Supply.read (min n span.remaining) span.inner with ⟨_ | _, _⟩ | _ <;> rfl

theorem passOver_eq (span : Span σ) : passOver span =
    if span.remaining = 0 then .ok () span
    else
      match read stride span with
      | .error fault span => .error fault span
      | .ok [] span => .ok () span
      | .ok (_ :: _) span => passOver span := by
  rw [passOver]
  split
  · rfl
  · split <;> simp_all

theorem passOver_bare (span : Span (Supply.Watched σ)) : passOver span.bare = (passOver span).mapState bare := by
  fun_induction passOver span with
  | case1 span none =>
    rw [passOver_eq]
    exact if_pos none
  | case2 span some fault span' found =>
    rw [passOver_eq, read_bare, found]
    exact if_neg some
  | case3 span some span' found =>
    rw [passOver_eq, read_bare, found]
    exact if_neg some
  | case4 span some b more span' found _ ih =>
    rw [passOver_eq, read_bare, found, ← ih]
    exact if_neg some

theorem close_bare (span : Span (Supply.Watched σ)) : close span.bare = (close span).mapState bare := by
  by_cases closed : span.closed
  · rw [close_of_closed closed]
    have closed : span.bare.closed := closed
    exact close_of_closed closed
  · have open_ : ¬ span.bare.closed := closed
    rw [close, if_neg open_, close, if_neg closed, passOver_bare]
    cases passOver span <;> rfl

theorem takeDigest_bare (span : Span (Supply.Watched σ)) :
    takeDigest span.bare = (takeDigest span).mapState bare := by
  simp only [takeDigest, close_bare]
  cases close span <;> rfl

theorem call_bare (next : Call) (span : Span (Supply.Watched σ)) :
    call next span.bare = (call next span).mapState bare := by
  cases next with
  | read n =>
    simp only [call, read_bare]
    cases read n span <;> rfl
  | close =>
    simp only [call, close_bare]
    cases close span <;> rfl
  | takeDigest =>
    simp only [call, takeDigest_bare]
    cases takeDigest span <;> rfl

/-- To watch a supply changes nothing. -/
theorem calls_bare (asked : List Call) (span : Span (Supply.Watched σ)) :
    calls asked span.bare = ((calls asked span).1, (calls asked span).2.bare) := by
  induction asked generalizing span with
  | nil => rfl
  | cons next more ih => simp only [calls, call_bare, Outcome.state_mapState, Outcome.value_mapState, ih]

end Bare

/-- The account of a span of `length` bytes after some calls that got these replies, `all` being what its supply
had to give. -/
structure Balanced [Supply σ] (all : Bytes) (length : Nat) (digest : Option Digest.Running)
    (replies : List (Except Fault Reply)) (span : Span (Supply.Watched σ)) : Prop where
  size : span.length = length
  taken : ∃ rest, all = span.inner.taken ++ rest ∧ Supply.Offers span.inner.inner rest
  sum : span.inner.taken.length + span.remaining + span.unavailable = length
  within : span.inner.Within length
  ended : span.unavailable ≠ 0 → span.inner.FoundEnd
  /-- What the next read gives is what it takes from the supply. -/
  read : ∀ n got span', read n span = .ok got span' → span'.inner.taken = span.inner.taken ++ got ∧ got.length ≤ n
  /-- If it fails, it takes nothing, and changes nothing but the supply. -/
  failed : ∀ n fault span', Span.read n span = .error fault span' →
    span' = { span with inner := span'.inner } ∧ span'.inner.taken = span.inner.taken
  /-- Since a call has closed the span, all bytes have been taken, and it can only be closed for nothing. -/
  closed : replies.any closes → span.remaining = 0 ∧ span.inner.taken = all.take length ∧
    close span = .ok () span
  /-- The first call for the digest that did not fail gave that of all bytes, whatever function the algorithm
  is, and later ones gave none. -/
  digests : replies.filterMap digest? = [] ∨ ∃ later, replies.filterMap digest? =
    (digest.map fun d => (⟨d.algorithm.name, d.algorithm.hash (d.data ++ all.take length), none⟩ : Digest)) ::
      List.replicate later none

/-- Whatever is asked of a span, the account of its bytes is right, however its supply gives them and wherever it
fails. This is seen by watching the supply, which does not change what is given or left. -/
theorem calls_balance [Supply σ] {inner : σ} {all : Bytes} (length : Nat) (digest : Option Digest.Running)
    (asked : List Call) (offers : Supply.Offers inner all) :
    let run := calls asked (create (.start inner) length digest)
    calls asked (create inner length digest) = (run.1, run.2.bare) ∧ Balanced all length digest run.1 run.2 := by
  intro run
  obtain ⟨holds, honest, held⟩ := offers
  have start : Stands holds all length digest [] (create (.start inner) length digest) :=
    ⟨⟨digest, keeps_create held, .inl ⟨rfl, rfl⟩⟩, fun earlier => by cases earlier⟩
  have stands : Stands holds all length digest run.1 run.2 := calls_stand honest asked start
  obtain ⟨running, kept, given⟩ := stands.kept
  obtain ⟨rest, cut, after, -⟩ := kept.taken
  refine ⟨calls_bare asked (create (.start inner) length digest),
    ⟨kept.size, ⟨rest, cut, holds, honest, after⟩, kept.sum, kept.within, fun missing => (kept.ended missing).1,
      ?_, ?_, ?_, ?_⟩⟩
  · intro n got span' found
    exact ⟨(read_keeps honest kept found).2.1, (read_ok found).1⟩
  · intro n fault span' found
    exact (read_error_keeps honest kept found).2
  · intro earlier
    have closed := stands.closed earlier
    exact ⟨kept.shut closed, kept.taken_eq (kept.shut closed), close_of_closed closed⟩
  · obtain ⟨first, -⟩ | ⟨-, again⟩ := given
    · exact .inl first
    · exact .inr (by simpa only [Digest.Running.finish_update] using again)

/-- Pieces of two bytes and a fault after three: the span is read, fails to close, and is asked further. -/
theorem calls_balance_faulty :
    let inner : Input := ⟨Bytes.ofString "abcdef", some 2, some 3, .inputFailed⟩
    let asked : List Call := [.read 3, .close, .read 0, .read 1, .takeDigest]
    let run := calls asked (create (.start inner) 5 (some (.start .sha1)))
    Supply.Offers inner inner.data ∧
      calls asked (create inner 5 (some (.start .sha1))) = (run.1, run.2.bare) ∧
      Balanced inner.data 5 (some (.start .sha1)) run.1 run.2 := by
  intro inner asked run
  have offers : Supply.Offers inner inner.data := ⟨Input.Offers, Input.honest_offers, rfl, by decide⟩
  exact ⟨offers, calls_balance 5 (some (.start .sha1)) asked offers⟩

end Span
end ArcFile
