import ArcFile.Proofs.Archive.Buffering
import ArcFile.Proofs.Archive.Course
import ArcFile.Proofs.Http.Head
/-!
How long an HTTP header can be. What decides is how much of the content can be pushed back, and that may be more than
the longest header that should be looked for: it is no less than what can be pushed back of any other content. Within
that, all headers are found.
-/
namespace ArcFile

/-- The size of the longest HTTP header that is found with these options. -/
def Options.headLimit (options : Options) : Nat := max options.httpLimit options.pushbackSize

namespace Http.Head

/-- A header that is read could have been pushed back. -/
theorem size_le_of_read {σ : Type} [Supply σ] {c c' : Cursor σ} {declared : Nat} {head : Head}
    (found : read declared c = .ok (some head) c') : head.size ≤ c.pushbackSize := by
  obtain ⟨_, -, stands⟩ := stands_of_read found
  exact stands.fits

end Http.Head

namespace Entry

variable {τ : Type} [Supply τ] {options : Options} {head : Http.Head}

theorem size_le_of_takeHead {header : RecordHeader} {body body' : Body (Cursor τ)} {findings : Findings}
    (size : body.cursor.pushbackSize = contentPushback options header)
    (taken : takeHead options header body = .ok (some head, findings) body') : head.size ≤ options.headLimit := by
  unfold takeHead at taken
  split at taken
  · cases taken
  · next expects =>
    have expects : expectsHttp options header = true := by simpa using expects
    split at taken
    · cases taken
    · split at taken
      · cases taken
      · cases taken
      · next parsed =>
        cases taken
        unfold Body.parse at parsed
        split at parsed
        · next read =>
          cases parsed
          have most := Http.Head.size_le_of_read read
          rwa [size, contentPushback, if_pos expects] at most
        · cases parsed

/-- The header of a record that has been opened is within the limit. -/
theorem size_le_of_ofHeader {isMember : Bool} {header : RecordHeader} {findings : Findings} {source : Cursor τ}
    {entry : Entry τ} (opened : ofHeader options isMember header findings source = .ok entry)
    (has : entry.httpHead = some head) : head.size ≤ options.headLimit := by
  unfold ofHeader at opened
  dsimp only at opened
  split at opened
  · split at opened
    · cases opened
    · cases opened
      cases has
  · split at opened
    · cases opened
    · next taken =>
      cases opened
      cases has
      exact size_le_of_takeHead rfl taken

theorem kind_read (n : Nat) (entry : Entry τ) : (Outcome.state (entry.read n)).kind = entry.kind := by
  unfold read
  split
  · rfl
  · split <;> rfl

theorem kind_fill (entry : Entry τ) : entry.fill.state.kind = entry.kind := by
  unfold fill
  split
  · rfl
  · split <;> rfl

theorem kind_passRest (entry : Entry τ) (c : Cursor τ) : (passRest entry c).state.kind = entry.kind := by
  unfold passRest
  split
  · rfl
  · dsimp only
    split <;> rfl

theorem kind_close (entry : Entry τ) : entry.close.state.kind = entry.kind := by
  unfold close
  split
  · rfl
  · split
    · rfl
    · exact kind_passRest _ _

/-- Whatever is asked of a record, and whether that faults or not, what it is stays the same. -/
theorem kind_call (hand : Hand τ) (call : Call) : (hand.call call).state.entry.kind = hand.entry.kind := by
  cases call with
  | read n =>
    have same := hand.entry.kind_read n
    simp only [Hand.call]
    split <;> next found => rwa [found] at same
  | fill =>
    have same := hand.entry.kind_fill
    simp only [Hand.call]
    split <;> next found => rwa [found] at same
  | consume n =>
    simp only [Hand.call, Outcome.state, advance]
    split <;> rfl
  | close =>
    have same := hand.entry.kind_close
    simp only [Hand.call]
    split <;> next found => rwa [found] at same

end Entry

/-- A frame has an HTTP header just if one is looked for, and one that is within the limit stands there. -/
theorem Frame.isSome_head_iff (options : Options) (f : Frame) : (f.head options).isSome ↔
    Entry.expectsHttp options f.header ∧ f.header.declared ≠ 0 ∧ ∃ start size, Http.Head.StartsWith f.region start ∧
      Http.Head.EndsAt f.header.declared f.region size ∧ size ≤ options.headLimit := by
  unfold Frame.head
  split
  · next looked =>
    rw [Http.Head.isSome_ofContent_iff]
    exact ⟨fun found => ⟨looked.1, looked.2, found⟩, fun stands => stands.2.2⟩
  · next not =>
    constructor
    · intro none
      cases none
    · rintro ⟨expects, some, -⟩
      exact absurd ⟨expects, some⟩ not

namespace Scanner

variable {σ : Type} [Supply σ] {options : Options} {place : Place σ} {scanner : Scanner σ} {packing : Packing}
  {input : σ} {base : Nat}

/-- The HTTP header of the record that a reader holds. -/
def Place.head : Place σ → Option Http.Head
  | between _ => none
  | within _ hand => hand.entry.httpHead

/-- The reader goes by these options, and holds no record whose HTTP header is longer than they permit. -/
structure Place.Limited (options : Options) (place : Place σ) : Prop where
  goesBy : place.session.options = options
  head : ∀ head, place.head = some head → head.size ≤ options.headLimit

theorem options_count {τ : Type} (entry : Entry τ) (session : Session) :
    (session.count entry).options = session.options := by
  unfold Session.count
  split <;> rfl

/-- The header of a record that comes next is within the limit. -/
theorem size_le_of_next {visit : Visit σ} (arrived : scanner.next = .record visit) {head : Http.Head}
    (has : visit.entry.httpHead = some head) : head.size ≤ scanner.session.options.headLimit := by
  obtain ⟨header, findings, between, sought, opened, -⟩ := opened_of_next arrived
  have same : between.session.options = scanner.session.options := by
    obtain ⟨memberStart, same⟩ := session_nextHeader scanner
    rw [sought] at same
    have same : between.session = scanner.session.at memberStart := same
    rw [same]
    rfl
  have most := Entry.size_le_of_ofHeader opened has
  rwa [(between.session.kept_enter header).1, same] at most

omit [Supply σ] in
theorem limited_between (is : scanner.session.options = options) : (Place.between scanner).Limited options where
  goesBy := is
  head _ has := by cases has

/-- One step keeps to the limit, whether it fails or not. -/
theorem step_limited (action : Action) (h : place.Limited options) : (step action place).2.Limited options := by
  cases place with
  | between scanner =>
    cases action with
    | call _ | drop => exact h
    | next =>
      have same := (options_next scanner).trans h.goesBy
      cases found : scanner.next with
      | record visit =>
        rw [found] at same
        simp only [step, found]
        refine ⟨same, fun head has => ?_⟩
        have most := size_le_of_next found has
        rwa [show scanner.session.options = options from h.goesBy] at most
      | ended scanner' | failed _ scanner' =>
        rw [found] at same
        simp only [step, found]
        exact limited_between same
  | within session hand =>
    cases action with
    | next => exact h
    | call call =>
      have same : (hand.call call).state.entry.httpHead = hand.entry.httpHead := by
        simp only [Entry.httpHead, Entry.kind_call]
      have kept : (Place.within session (hand.call call).state).Limited options :=
        ⟨h.goesBy, fun head has => h.head head (same.symm.trans has)⟩
      cases called : hand.call call with
      | ok _ hand' | error _ hand' =>
        rw [called] at kept
        simpa only [step, called, Outcome.state] using kept
    | drop =>
      have left : (Visit.leave ⟨session, hand.entry⟩).session.options = options :=
        (options_count _ session).trans h.goesBy
      cases closed : hand.entry.close with
      | ok _ entry | error _ entry =>
        simpa only [step, closed] using limited_between left

/-- And so does a run. -/
theorem run_limited (actions : List Action) (h : place.Limited options) : (run actions place).2.Limited options := by
  induction actions generalizing place with
  | nil => exact h
  | cons action more ih => exact ih (step_limited action h)

theorem Begins.goesBy (h : Begins packing options input base scanner) : scanner.session.options = options := by
  cases h with
  | given => rfl
  | found sniffed =>
    unfold Scanner.sniffed at sniffed
    split at sniffed
    · cases sniffed
      rfl
    · cases sniffed

/-- However a file is read, and wherever its input fails, no record has an HTTP header beyond the limit, which is the
longest header to be looked for only if no more than that can be pushed back. And where the input does not fail, every
header within the limit is found. -/
theorem head_within_limit (begins : Begins packing options input base scanner) :
    (∀ (actions : List Action) (head : Http.Head), (run actions (.between scanner)).2.head = some head →
      head.size ≤ options.headLimit ∧ (options.pushbackSize ≤ options.httpLimit → head.size ≤ options.httpLimit)) ∧
    ∀ (data : Bytes) (frames : List Frame), Supply.Yields input data → FramesOf base packing data frames →
      0 < options.bufferSize → ∀ (plans : List (List Entry.Call)) (i : Nat) (f : Frame) (stop : Stop σ),
        frames[i]? = some f → (tour plans scanner).1[i]? = some stop →
        (stop.opened.httpHead.isSome ↔ f.header.isVersionBlock = false ∧ Entry.expectsHttp options f.header ∧
          f.header.declared ≠ 0 ∧ ∃ start size, Http.Head.StartsWith f.region start ∧
            Http.Head.EndsAt f.header.declared f.region size ∧ size ≤ options.headLimit) := by
  refine ⟨fun actions head has => ?_, ?_⟩
  · have most := (run_limited actions (limited_between begins.goesBy)).head head has
    refine ⟨most, fun small => ?_⟩
    rwa [Options.headLimit, Nat.max_eq_left small] at most
  · intro data frames yields framesOf buffered plans i f stop isFrame isStop
    have shown := (begins.tour_shows yields framesOf buffered plans).2 i f stop isFrame isStop
    rw [← f.isSome_head_iff options, Entry.httpHead, shown.kind, Frame.kind]
    cases f.header.isVersionBlock <;> simp

/-- A record with an HTTP header of 26 bytes. -/
def longHead : Bytes :=
  Bytes.ofString "http://a/ 1.1.1.1 20200101000000 text/html 26\nHTTP/1.1 200 OK\nServer: x\n\n\n"

/-- Only headers of up to 20 bytes should be looked for, but 32 can be pushed back. -/
theorem head_within_limit_longHead :
    let options := { Options.default with httpLimit := 20 }
    let input := Input.ofBytes longHead
    let scanner := create .plain 0 options input
    Begins .plain options input 0 scanner ∧ Supply.Yields input longHead ∧
      FramesOf 0 .plain longHead (Frame.plain 0 0 longHead).1 ∧ 0 < options.bufferSize ∧
      (∀ (actions : List Action) (head : Http.Head), (run actions (.between scanner)).2.head = some head →
        head.size ≤ 32) ∧
      ∀ (i : Nat) (f : Frame) (stop : Stop Input), (Frame.plain 0 0 longHead).1[i]? = some f →
        (tour [[]] scanner).1[i]? = some stop →
        (stop.opened.httpHead.isSome ↔ f.header.isVersionBlock = false ∧ Entry.expectsHttp options f.header ∧
          f.header.declared ≠ 0 ∧ ∃ start size, Http.Head.StartsWith f.region start ∧
            Http.Head.EndsAt f.header.declared f.region size ∧ size ≤ options.headLimit) := by
  intro options input scanner
  have begins : Begins .plain options input 0 scanner := .given 0
  have yields : Supply.Yields input longHead := Input.yields_ofBytes longHead
  have framesOf : FramesOf 0 .plain longHead (Frame.plain 0 0 longHead).1 := .plain longHead
  have buffered : 0 < options.bufferSize := by decide
  obtain ⟨most, found⟩ := head_within_limit begins
  exact ⟨begins, yields, framesOf, buffered, fun actions head has => (most actions head has).1,
    found longHead _ yields framesOf buffered [[]]⟩

/-- So a header longer than those to be looked for is found. -/
theorem exists_head_beyond :
    ∃ (options : Options) (input : Input) (head : Http.Head), options.httpLimit = 20 ∧
      (run [.next] (.between (create .plain 0 options input))).2.head = some head ∧ head.size = 26 := by
  have size : (run [.next] (.between (create .plain 0 { Options.default with httpLimit := 20 }
      (Input.ofBytes longHead)))).2.head.map (·.size) = some 26 := by decide +kernel
  obtain ⟨head, has, is⟩ := Option.map_eq_some_iff.1 size
  exact ⟨_, _, head, rfl, has, is⟩

end Scanner
end ArcFile
