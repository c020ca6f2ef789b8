import ArcFile.Proofs.Archive.Survey
import ArcFile.Proofs.Archive.Tour
/-!
Buffering is invisible. Two complete readings of the same bytes take down the same, whatever pieces the bytes come in,
whatever the sizes of the buffers are, and whether the packing was given or found.
-/
namespace ArcFile

/-- The options with buffers of these sizes. -/
def Options.withBuffers (bufferSize pushbackSize : Nat) (options : Options) : Options :=
  { options.withPushbackSize pushbackSize with bufferSize }

/-- As long as an HTTP header may be as long as what can be pushed back, the sizes of buffers do not matter. -/
theorem Options.withBuffers_alike (options : Options) {bufferSize pushbackSize bufferSize' pushbackSize' : Nat}
    (fits : pushbackSize ≤ options.httpLimit) (fits' : pushbackSize' ≤ options.httpLimit) :
    (options.withBuffers bufferSize pushbackSize).Alike (options.withBuffers bufferSize' pushbackSize') where
  blockDigest := rfl
  payloadDigest := rfl
  digestEncoding := rfl
  parseHttp := rfl
  room := by
    simp only [withBuffers, withPushbackSize]
    omega

namespace Scanner

/-- Data that can be read to its end in this packing. Gzip members have to decode, and no other member may follow
them. -/
inductive Readable : Packing → Bytes → Prop where
  | plain (data : Bytes) : Readable .plain data
  | gzip (members : List (Bytes × Bytes)) (tail : Bytes) (decodes : ∀ m ∈ members, Gzip.Decodes m.1 m.2)
    (other : ¬ Gzip.magic <+: tail) : Readable .gzip (bytesOf members tail)

variable {σ τ : Type} [Supply σ] [Supply τ]

/-- A scanner at the start of its input, which begins at this offset of a file. The packing was given, or it was found
at the start of the file. -/
inductive Begins (packing : Packing) (options : Options) (input : σ) : Nat → Scanner σ → Prop where
  | given (base : Nat) : Begins packing options input base (create packing base options input)
  | found {scanner : Scanner σ} (sniffed : Scanner.sniffed options input = .ok scanner)
    (is : scanner.session.packing = packing) : Begins packing options input 0 scanner

variable {packing : Packing} {options options' : Options} {input : σ} {input' : τ} {base : Nat} {data : Bytes}
  {scanner : Scanner σ} {scanner' : Scanner τ}

theorem Begins.exists_stream {holds : σ → Bytes → Prop} (steady : Supply.Steady holds) (held : holds input data)
    (h : Begins packing options input base scanner) : ∃ stream, scanner = ofStream packing base options stream ∧
      stream.Holds holds data ∧ Cursor.Moved 0 (streamOf input) stream := by
  cases h with
  | given => exact ⟨streamOf input, rfl, Cursor.holds_create (by decide) held, .refl _⟩
  | found sniffed is =>
    obtain ⟨stream, sniffed', held', still⟩ := sniffed_holds options steady held
    rw [sniffed] at sniffed'
    cases sniffed'
    exact ⟨stream, by rw [← is]; rfl, held', still⟩

/-- However the scanner was made, what is seen of the records is what their frames say. -/
theorem Begins.tour_shows {frames : List Frame} (h : Begins packing options input base scanner)
    (yields : Supply.Yields input data) (framesOf : FramesOf base packing data frames)
    (buffered : 0 < options.bufferSize) (plans : List (List Entry.Call)) :
    min plans.length frames.length ≤ (tour plans scanner).1.length ∧
      ∀ (i : Nat) (f : Frame) (stop : Stop σ), frames[i]? = some f → (tour plans scanner).1[i]? = some stop →
        stop.Shows options (packing == .gzip) f := by
  obtain ⟨holds, steady, held⟩ := yields
  obtain ⟨stream, rfl, held, still⟩ := h.exists_stream steady held
  exact tour_shows_ofStream steady held still framesOf buffered plans

/-- What a survey takes down depends on the bytes alone: not on the supply they come from, the sizes of the buffers or
how many bytes of a record are read at a time, nor on whether the packing was given or found. It goes on to
the end of the file, or to where no gzip member begins. -/
theorem survey_buffering (yields : Supply.Yields input data) (yields' : Supply.Yields input' data)
    (readable : Readable packing data) (options : Options)
    {bufferSize pushbackSize bufferSize' pushbackSize' : Nat} (buffered : 0 < bufferSize)
    (buffered' : 0 < bufferSize') (fits : pushbackSize ≤ options.httpLimit)
    (fits' : pushbackSize' ≤ options.httpLimit)
    (begins : Begins packing (options.withBuffers bufferSize pushbackSize) input base scanner)
    (begins' : Begins packing (options.withBuffers bufferSize' pushbackSize') input' base scanner')
    {stride stride' : Nat} (pos : 0 < stride) (pos' : 0 < stride') :
    survey stride' scanner' = survey stride scanner ∧
      ((survey stride scanner).ending = .ended ∨
        ∃ offset, (survey stride scanner).ending = .failed (.notMember offset)) := by
  obtain ⟨holds, steady, held⟩ := yields
  obtain ⟨holds', steady', held'⟩ := yields'
  obtain ⟨stream, rfl, held, still⟩ := begins.exists_stream steady held
  obtain ⟨stream', rfl, held', still'⟩ := begins'.exists_stream steady' held'
  have buffered : 0 < (options.withBuffers bufferSize pushbackSize).bufferSize := buffered
  have buffered' : 0 < (options.withBuffers bufferSize' pushbackSize').bufferSize := buffered'
  have alike : (ofStream packing base (options.withBuffers bufferSize pushbackSize) stream).session.Alike
      (packing == .gzip) (packing == .gzip)
      (ofStream packing base (options.withBuffers bufferSize' pushbackSize') stream').session :=
    ⟨rfl, rfl, options.withBuffers_alike fits fits', rfl, rfl, rfl, rfl, rfl, rfl⟩
  have passed (frames : List Frame) := (alike.passAll (List.forall₂_same.2 fun f _ => ⟨.refl _ f, rfl⟩ :
    List.Forall₂ (Frame.Same (packing == .gzip) (packing == .gzip)) frames frames)).tally
  cases readable with
  | plain =>
    have made := survey_plain steady pos (ofStream_atPlain base buffered held)
    have made' := survey_plain steady' pos' (ofStream_atPlain base buffered' held')
    dsimp only at made made'
    rw [made, made', alike.accounts, alike.base, alike.findings, passed]
    exact ⟨rfl, .inl rfl⟩
  | gzip members tail decodes other =>
    obtain ⟨endOf, located⟩ := Frame.exists_located (base + 0) fun m is => (decodes m is).ne_nil
    have made := survey_packed steady pos located other (ofStream_atMembers base buffered decodes held still)
    have made' := survey_packed steady' pos' located other (ofStream_atMembers base buffered' decodes held' still')
    dsimp only at made made'
    rw [made, made', alike.accounts, alike.base, alike.findings, passed]
    refine ⟨rfl, ?_⟩
    by_cases none : tail = []
    · exact .inl (if_pos none)
    · exact .inr ⟨_, if_neg none⟩

/-- A packed file with a stray byte at its end, read as a whole, and byte by byte with its packing found. -/
theorem survey_buffering_packed :
    let data := bytesOf [(Gzip.pack twoRecords, twoRecords)] [0]
    let trickle : Input := ⟨data, some 1, none, .inputFailed⟩
    let large := Options.default.withBuffers 8192 8192
    let small := Options.default.withBuffers 1 1
    ∃ scanner, Begins .gzip small trickle 0 scanner ∧
      survey 1 scanner = survey 8192 (create .gzip 0 large (Input.ofBytes data)) := by
  intro data trickle large small
  have yields : Supply.Yields trickle data := ⟨Input.Holds, Input.steady_holds, rfl, rfl, by decide⟩
  have readable : Readable .gzip data :=
    .gzip _ _ (by simpa using Gzip.decodes_pack twoRecords) (by decide)
  have begins : ∃ scanner, Begins .gzip small trickle 0 scanner := by
    obtain ⟨holds, steady, held⟩ := yields
    obtain ⟨stream, sniffed, -⟩ := sniffed_holds small steady held
    rw [if_pos (by decide +kernel)] at sniffed
    exact ⟨_, .found sniffed rfl⟩
  obtain ⟨scanner, begins⟩ := begins
  refine ⟨scanner, begins, ?_⟩
  exact (survey_buffering (Input.yields_ofBytes data) yields readable .default (by decide) (by decide)
    (by decide) (by decide) (.given 0) begins (by decide) (by decide)).1

end Scanner
end ArcFile
