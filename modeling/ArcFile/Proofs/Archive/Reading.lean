import ArcFile.Proofs.Archive.Frame
import ArcFile.Proofs.Supply.Content
/-!
Reading a record over a steady source. Opening it never faults, and gives what the frame of the record says.
From then on every way of reading hands out the frame's content, and closing gives the same findings and
digests and leaves the source at the same place.
-/
namespace ArcFile.Entry

variable {τ : Type}

/-- The record `opened`, which stands in `source`, some of whose content may have been read. It still gives
`rest`. -/
def Reads (holds : τ → Bytes → Prop) (source : Cursor τ) (options : Options) (f : Frame)
    (opened entry : Entry τ) (rest : Bytes) : Prop :=
  ∃ body, entry = { opened with content := .reading body } ∧
    Body.Reads (Cursor.Past holds source f.behind) f.behind f.header.declared
      (options.blockDigest.map .start) (f.running options) (f.content options) body rest

/-- The record as it is once it has been closed and has left its source at `source`. -/
def closed (options : Options) (f : Frame) (source : Cursor τ) (opened : Entry τ) : Entry τ :=
  { opened with
    findings := opened.findings ++ f.closing options opened.isMember
    content := .passed source
    consumed := source.consumed - opened.sourceStart
    unavailable := f.missing
    blockDigest := (f.blockDigest options).map (·.encode options.digestEncoding)
    payloadDigest := (f.payloadDigest options).map (·.encode options.digestEncoding)
    compliant := some (opened.findings ++ f.closing options opened.isMember).isEmpty }

/-- What has been read ahead of the content. -/
def atHand (entry : Entry τ) : Bytes :=
  match entry.content with
  | .reading body => body.cursor.atHand
  | .passed _ => []

theorem atHand_advance {n : Nat} {entry : Entry τ} (fewer : n < entry.atHand.length) :
    (entry.advance n).atHand = entry.atHand.drop n := by
  unfold atHand at fewer ⊢
  unfold advance
  split at fewer
  · next stands =>
    simp only [stands]
    exact Cursor.atHand_advance fewer
  · next stands => simp [stands]

variable [Supply τ] {holds : τ → Bytes → Prop} (steady : Supply.Steady holds) {source : Cursor τ}
  {options : Options} {f : Frame} {opened entry : Entry τ} {rest : Bytes}

include steady

theorem takeHead_holds (notVersion : f.header.isVersionBlock = false) {body : Body (Cursor τ)}
    (h : body.cursor.Holds (Span.Reads (Cursor.Past holds source f.behind) f.behind f.header.declared
      (options.blockDigest.map .start)) f.region)
    (fresh : body.digest = none) (size : body.cursor.pushbackSize = contentPushback options f.header) :
    ∃ cursor, takeHead options f.header body = .ok (f.head options, f.opening options)
        { cursor, digest := f.running options } ∧
      cursor.Holds (Span.Reads (Cursor.Past holds source f.behind) f.behind f.header.declared
        (options.blockDigest.map .start)) (f.content options) ∧
      Cursor.Moved (f.kind options).size body.cursor cursor := by
  have kind : f.kind options = .data (f.head options) := by simp [Frame.kind, notVersion]
  unfold takeHead Frame.opening Frame.running Frame.content
  rw [kind]
  by_cases expects : expectsHttp options f.header
  · by_cases empty : f.header.declared = 0
    · have none : f.head options = none := by simp [Frame.head, empty]
      refine ⟨body.cursor, ?_, ?_, ?_⟩
      · simp [expects, empty, none, notVersion, ← fresh, Findings.addError, Findings.none]
      · simpa [none, Kind.size] using h
      · simpa [none, Kind.size] using Cursor.Moved.refl body.cursor
    · have limit : body.cursor.pushbackSize = max options.httpLimit options.pushbackSize := by
        simp [size, contentPushback, expects]
      obtain ⟨cursor, found, held, moved⟩ := Http.Head.read_holds
        (Span.steady_reads (Cursor.steady_past steady source f.behind)) f.header.declared h
      have head : Http.Head.ofContent body.cursor.pushbackSize f.header.declared f.region =
          f.head options := by
        simp [Frame.head, expects, empty, limit]
      rw [head] at found held moved
      refine ⟨cursor, ?_, held, moved⟩
      simp only [expects, empty, Body.parse, found, notVersion, Bool.not_true, Bool.false_eq_true,
        ↓reduceIte]
      cases f.head options with
      | none => simp [fresh, Findings.addError, Findings.none]
      | some head =>
        cases options.payloadDigest with
        | none => simp [fresh, Findings.addWarnings, Findings.none]
        | some algorithm => simp [Body.startDigest, Findings.addWarnings, Findings.none]
  · have none : f.head options = none := by simp [Frame.head, expects]
    refine ⟨body.cursor, ?_, ?_, ?_⟩
    · simp [expects, none, notVersion, ← fresh]
    · simpa [none, Kind.size] using h
    · simpa [none, Kind.size] using Cursor.Moved.refl body.cursor

omit steady in
/-- Whatever stands in the content, a record that is opened has its header, and the findings in front of its own. -/
theorem exists_ofBody {isMember : Bool} {header : RecordHeader} {findings : Findings} {entry : Entry τ}
    (opened : ofHeader options isMember header findings source = .ok entry) : ∃ kind more body,
      entry = ofBody options isMember (source.consumed - header.size) header kind (findings ++ more) body := by
  unfold ofHeader at opened
  dsimp only at opened
  split at opened
  · split at opened
    · cases opened
    · cases opened
      rw [Findings.addErrors_eq, Findings.addErrors_eq, Findings.append_assoc]
      exact ⟨_, _, _, rfl⟩
  · split at opened
    · cases opened
    · cases opened
      exact ⟨_, _, _, rfl⟩

/-- Opening a record gives what its frame says. -/
theorem ofHeader_reads (isMember : Bool) (findings : Findings) (buffered : 0 < options.bufferSize)
    (h : source.Holds holds f.behind) :
    ∃ body, ofHeader options isMember f.header findings source =
        .ok (ofBody options isMember (source.consumed - f.header.size) f.header (f.kind options)
          (findings ++ f.opening options) body) ∧
      Body.Reads (Cursor.Past holds source f.behind) f.behind f.header.declared
        (options.blockDigest.map .start) (f.running options) (f.content options) body
        (f.content options) ∧
      body.remaining = f.header.declared - (f.kind options).size := by
  have steadySource := Cursor.steady_past steady source f.behind
  have held : (Body.create source f.header.declared (options.blockDigest.map .start) options.bufferSize
      (contentPushback options f.header)).cursor.Holds (Span.Reads (Cursor.Past holds source f.behind)
        f.behind f.header.declared (options.blockDigest.map .start)) f.region :=
    Body.holds_create buffered (Cursor.past_refl h)
  unfold ofHeader
  by_cases version : f.header.isVersionBlock
  · obtain ⟨cursor, found, after, moved⟩ :=
      VersionLines.take_holds (Span.steady_reads steadySource) held
    have kind : f.kind options = .versionBlock (VersionLines.ofContent f.region).2 := by
      simp [Frame.kind, version]
    have running : f.running options = none := by simp [Frame.running, kind]
    obtain ⟨left, reads, -⟩ := after.supply
    refine ⟨{ cursor, digest := none }, ?_, ?_, ?_⟩
    · simp only [version, ↓reduceIte, found, kind, Frame.opening]
      rw [Findings.addErrors_eq, Findings.addErrors_eq, Findings.append_assoc, Findings.append_eq ⟨_, _⟩]
      rfl
    · rw [running]
      refine Body.reads_refl { cursor, digest := none } ?_
      rw [Frame.content, kind]
      exact after
    · simp only [Body.remaining, Body.declared, Body.consumed, reads.size, moved.consumed, kind]
      simp [Body.create, Cursor.create, Kind.size]
  · obtain ⟨cursor, found, after, moved⟩ := takeHead_holds steady (by simpa using version) held rfl rfl
    have kind : f.kind options = .data (f.head options) := by simp [Frame.kind, version]
    obtain ⟨left, reads, -⟩ := after.supply
    refine ⟨{ cursor, digest := f.running options }, ?_,
      Body.reads_refl { cursor, digest := f.running options } after, ?_⟩
    · simp only [version, Bool.false_eq_true, ↓reduceIte, found, kind]
    · simp only [Body.remaining, Body.declared, Body.consumed, reads.size, moved.consumed]
      simp [Body.create, Cursor.create]

theorem steady_reads : Supply.Steady (Reads holds source options f opened) where
  read := by
    rintro entry rest n ⟨body, rfl, reads⟩
    obtain ⟨got, rest', body', found, cut, only, after⟩ :=
      Body.read_reads (Cursor.steady_past steady source f.behind) n reads
    exact ⟨got, rest', { opened with content := .reading body' }, by simp only [Supply.read, read, found],
      cut, only, body', rfl, after⟩

theorem fill_reads (h : Reads holds source options f opened entry rest) :
    ∃ entry', fill entry = .ok entry'.atHand entry' ∧
      Reads holds source options f opened entry' rest := by
  obtain ⟨body, rfl, reads⟩ := h
  obtain ⟨body', found, after, -⟩ :=
    Body.fill_reads (Cursor.steady_past steady source f.behind) reads
  exact ⟨{ opened with content := .reading body' }, by simp only [fill, found, atHand], body', rfl, after⟩

omit steady [Supply τ] in
theorem Reads.prefix_atHand (h : Reads holds source options f opened entry rest) : entry.atHand <+: rest := by
  obtain ⟨body, rfl, reads⟩ := h
  obtain ⟨more, cut⟩ := reads.cursor.atHand_append
  exact ⟨more, cut.symm⟩

omit steady [Supply τ] in
theorem advance_reads {n : Nat} (h : Reads holds source options f opened entry rest)
    (most : n ≤ entry.atHand.length) :
    Reads holds source options f opened (entry.advance n) (rest.drop n) := by
  obtain ⟨body, rfl, reads⟩ := h
  exact ⟨body.advance n, rfl, Body.advance_reads reads most⟩

theorem take_holds {c : Cursor τ} {data : Bytes} (seen : Trailer) (room : 0 < c.pushbackSize)
    (h : c.Holds holds data) :
    ∃ c', Trailer.take seen c = .ok ⟨seen.newlines + (Trailer.ofBytes data).newlines,
        seen.carriageReturn || (Trailer.ofBytes data).carriageReturn⟩ c' ∧
      c'.Holds holds (data.dropWhile Bytes.isLineEnd) ∧
      Cursor.Moved (data.takeWhile Bytes.isLineEnd).length c c' := by
  induction data generalizing c seen with
  | nil =>
    obtain ⟨c', found, held, moved, -⟩ := Cursor.readByte_nil steady h
    refine ⟨c', ?_, held, moved.toMoved⟩
    unfold Trailer.take
    split <;> simp_all [Trailer.ofBytes]
  | cons b rest ih =>
    obtain ⟨c', found, held, moved⟩ := Cursor.readByte_cons steady h
    have room' : 0 < c'.pushbackSize := by rwa [moved.size]
    -- the first byte is a line feed, a carriage return, or the end of the run
    have cases_of : Trailer.take seen c =
        if b = Bytes.lineFeed then Trailer.take { seen with newlines := seen.newlines + 1 } c'
        else if b = Bytes.carriageReturn then Trailer.take { seen with carriageReturn := true } c'
        else EStateM.bind (Cursor.unread [b]) (fun _ => EStateM.pure seen) c' := by
      rw [Trailer.take]
      split
      · next other => simp [found] at other
      · next other => simp [found] at other
      · next other =>
        simp only [found, EStateM.Result.ok.injEq, Option.some.injEq] at other
        obtain ⟨rfl, rfl⟩ := other
        congr 2
        simp only [EStateM.bind]
        cases Cursor.unread [b] c' <;> rfl
    rw [cases_of]
    by_cases feed : b = Bytes.lineFeed
    · subst feed
      have ends : Bytes.isLineEnd Bytes.lineFeed = true := by decide
      have other : Bytes.carriageReturn ≠ Bytes.lineFeed := by decide
      obtain ⟨c'', all, after, further⟩ := ih { seen with newlines := seen.newlines + 1 } room' held
      refine ⟨c'', ?_, by simpa only [List.dropWhile_cons, ends, ↓reduceIte] using after, ?_⟩
      · rw [if_pos rfl, all]
        simp only [Trailer.ofBytes, List.takeWhile_cons, ends, ↓reduceIte, List.count_cons_self,
          List.contains_cons, beq_eq_false_iff_ne.2 other, Bool.false_or]
        congr 2
        omega
      · simpa only [List.takeWhile_cons, ends, ↓reduceIte, List.length_cons, Nat.add_comm]
          using moved.toMoved.trans further
    · rw [if_neg feed]
      by_cases back : b = Bytes.carriageReturn
      · subst back
        have ends : Bytes.isLineEnd Bytes.carriageReturn = true := by decide
        obtain ⟨c'', all, after, further⟩ := ih { seen with carriageReturn := true } room' held
        refine ⟨c'', ?_, by simpa only [List.dropWhile_cons, ends, ↓reduceIte] using after, ?_⟩
        · rw [if_pos rfl, all]
          simp only [Trailer.ofBytes, List.takeWhile_cons, ends, ↓reduceIte, List.count_cons_of_ne feed,
            List.contains_cons, beq_self_eq_true, Bool.true_or, Bool.or_true]
        · simpa only [List.takeWhile_cons, ends, ↓reduceIte, List.length_cons, Nat.add_comm]
            using moved.toMoved.trans further
      · have stays : Bytes.isLineEnd b = false := by simp [Bytes.isLineEnd, feed, back]
        obtain ⟨c'', pushed, held', still⟩ := Cursor.unread_holds [b] held moved room
        refine ⟨c'', ?_, by simpa [stays] using held', by simpa [stays] using still⟩
        simp only [if_neg back, EStateM.bind, pushed]
        simp [Trailer.ofBytes, stays, EStateM.pure]

omit steady [Supply τ] in
/-- Sealing the content finds what is wrong with its length and with the text form of its digests. -/
theorem withSealed_eq (entry : Entry τ) (is : entry.options = options) :
    entry.withSealed ⟨f.missing, f.blockDigest options, f.payloadDigest options⟩ = { entry with
      findings := entry.findings ++ f.sealing options
      unavailable := f.missing
      blockDigest := (f.blockDigest options).map (·.encode options.digestEncoding)
      payloadDigest := (f.payloadDigest options).map (·.encode options.digestEncoding) } := by
  have known : (((f.blockDigest options).map (·.encode options.digestEncoding)).toList ++
      ((f.payloadDigest options).map (·.encode options.digestEncoding)).toList).all
        (fun digest => digest.text.isSome) = f.encodes options := by
    unfold Frame.encodes
    cases f.blockDigest options <;> cases f.payloadDigest options <;> simp [Digest.encode]
  have kept (all : Findings) : all.addErrors [] = all := by simp [Findings.addErrors]
  simp only [withSealed, is, known, Frame.sealing]
  congr 1
  cases f.encodes options <;> split <;>
    simp [kept, Findings.addErrors_eq, Findings.addError_eq, Findings.append_none, Findings.none_append,
      Findings.append_assoc]

theorem passTrailer_holds {c : Cursor τ} (room : 0 < c.pushbackSize) (is : entry.unavailable = f.missing)
    (h : c.Holds holds f.after) :
    ∃ c', passTrailer entry c =
        .ok f.trailing c' ∧
      c'.Holds holds f.rest ∧ Cursor.Moved (f.after.length - f.rest.length) c c' := by
  unfold passTrailer Frame.trailing
  rw [is]
  by_cases whole : f.missing = 0
  · obtain ⟨c', found, held, moved⟩ := take_holds steady .nothing room h
    have size : f.after.length - f.rest.length = (f.after.takeWhile Bytes.isLineEnd).length := by
      have := congrArg List.length (List.takeWhile_append_dropWhile (p := Bytes.isLineEnd) (l := f.after))
      rw [List.length_append] at this
      simp only [Frame.rest]
      omega
    refine ⟨c', ?_, held, size ▸ moved⟩
    rw [if_neg (Decidable.not_not.2 whole), found, if_pos whole]
    simp [Trailer.nothing]
  · have none : f.after = [] := Frame.after_of_missing whole
    have rest : f.rest = [] := by rw [Frame.rest, none, List.dropWhile_nil]
    rw [if_pos whole, if_neg whole, none, rest]
    exact ⟨c, rfl, none ▸ h, .refl c⟩

theorem passMember_holds (entry : Entry τ) {c : Cursor τ} (h : c.Holds holds f.rest) :
    ∃ c', passMember entry c = .ok (f.extra entry.isMember) c' ∧
      c'.Holds holds (f.left entry.isMember) ∧
      Cursor.Moved (f.rest.length - (f.left entry.isMember).length) c c' ∧
      (entry.isMember → Supply.Spent holds c'.supply) := by
  unfold passMember Frame.extra
  cases entry.isMember with
  | false => exact ⟨c, rfl, h, by simpa [Frame.left] using Cursor.Moved.refl c, by simp⟩
  | true =>
    obtain ⟨c', found, held, moved, spent⟩ := Cursor.skipAll_holds steady h
    refine ⟨c', ?_, held, moved.toMoved, ?_⟩
    · rw [found]
      cases f.rest with
      | nil => rfl
      | cons b more => rfl
    · intro _
      exact spent

theorem passRest_holds (entry : Entry τ) {c : Cursor τ} (room : 0 < c.pushbackSize) (is : entry.unavailable = f.missing)
    (h : c.Holds holds f.after) :
    ∃ c', passRest entry c = .ok () { entry with
          findings := entry.findings ++ (f.trailing ++ f.extra entry.isMember)
          content := .passed c'
          consumed := c'.consumed - entry.sourceStart
          compliant := some (entry.findings ++ (f.trailing ++ f.extra entry.isMember)).isEmpty } ∧
      c'.Holds holds (f.left entry.isMember) ∧
      Cursor.Moved (f.after.length - (f.left entry.isMember).length) c c' ∧
      (entry.isMember → Supply.Spent holds c'.supply) := by
  obtain ⟨past, trailer, behind, moved⟩ := passTrailer_holds steady room is h
  obtain ⟨c', member, left, further, spent⟩ := passMember_holds steady
    { entry with findings := entry.findings ++ f.trailing } behind
  refine ⟨c', ?_, left, ?_, spent⟩
  · simp only [passRest, trailer, member, Findings.append_assoc]
  · have := f.rest_suffix_after.length_le
    have := f.left_suffix_rest entry.isMember |>.length_le
    have := moved.trans further
    rwa [show f.after.length - f.rest.length + (f.rest.length - (f.left entry.isMember).length) =
      f.after.length - (f.left entry.isMember).length by omega] at this

/-- Closing a record gives the same result however much of it has been read. -/
theorem close_reads (room : 0 < source.pushbackSize) (is : opened.options = options)
    (h : Reads holds source options f opened entry rest) :
    ∃ source', entry.close = .ok () (opened.closed options f source') ∧
      Cursor.Past holds source f.behind source' (f.left opened.isMember) ∧
      (opened.isMember → Supply.Spent holds source'.supply) := by
  obtain ⟨body, rfl, reads⟩ := h
  obtain ⟨inner, taken, all, cut, held, moved⟩ :=
    Body.close_reads (Cursor.steady_past steady source f.behind) reads
  have result : body.close =
      .ok ⟨f.missing, f.blockDigest options, f.payloadDigest options⟩ inner := by
    rw [taken, ← f.finish_blockDigest, ← f.finish_running]
    rfl
  obtain ⟨source', passed, left, further, spent⟩ := passRest_holds steady (f := f)
    (withSealed ⟨f.missing, f.blockDigest options, f.payloadDigest options⟩
      { opened with content := .reading body }) (by rwa [moved.size]) rfl held
  refine ⟨source', ?_, ?_, spent⟩
  · simp only [close, result, passed]
    rw [withSealed_eq { opened with content := .reading body } is]
    simp only [closed, Frame.closing, Findings.append_assoc]
  · obtain ⟨gone, behind⟩ := f.left_suffix opened.isMember
    have size : all.length + (f.after.length - (f.left opened.isMember).length) = gone.length := by
      have whole := congrArg List.length cut
      have parts := congrArg List.length behind
      have := ((f.left_suffix_rest opened.isMember).trans f.rest_suffix_after).length_le
      rw [List.length_append] at whole parts
      change _ = _ + f.after.length at whole
      omega
    exact ⟨gone, behind.symm, left, size ▸ moved.trans further⟩

end ArcFile.Entry
