import ArcFile.Proofs.Archive.Output
import ArcFile.Proofs.Record.Findings
import ArcFile.Proofs.Record.Rows
import Mathlib.Data.List.Induction
/-!
Header lines that are written as they are given. A builder takes all line ends off a line to find its length, and
writes all of them; a reader goes through the first line feed and takes one carriage return off in front of it. So the
two agree on a line just if there is no other line feed in it and no second carriage return in front of the last one.
-/
namespace ArcFile

namespace Bytes

variable {body : Bytes}

/-- Some bytes without the carriage returns behind them. -/
theorem exists_returns (data : Bytes) :
    ∃ body k, data = body ++ List.replicate k carriageReturn ∧ body.getLast? ≠ some carriageReturn := by
  induction data using List.reverseRecOn with
  | nil => exact ⟨[], 0, rfl, by simp⟩
  | append_singleton front b ih =>
    by_cases isReturn : b = carriageReturn
    · obtain ⟨body, k, rfl, other⟩ := ih
      exact ⟨body, k + 1, by rw [isReturn, List.replicate_succ', List.append_assoc], other⟩
    · exact ⟨front ++ [b], 0, by simp, by simpa using isReturn⟩

theorem dropReturn_returns (other : body.getLast? ≠ some carriageReturn) (k : Nat) :
    dropReturn (body ++ List.replicate k carriageReturn) = body ++ List.replicate (k - 1) carriageReturn := by
  cases k with
  | zero =>
    rw [List.replicate_zero, List.append_nil]
    exact dropReturn_of_getLast? other
  | succ k => rw [List.replicate_succ', ← List.append_assoc, dropReturn_append, Nat.add_sub_cancel]

theorem chars_returns (body : Bytes) (k : Nat) :
    Utf8.chars (body ++ List.replicate k carriageReturn) = Utf8.chars body ++ List.replicate k '\r' := by
  induction k with
  | zero => rw [List.replicate_zero, List.replicate_zero, List.append_nil, List.append_nil]
  | succ k ih =>
    rw [List.replicate_succ', ← List.append_assoc, Utf8.chars_append_ascii (by decide), ih, Utf8.chars_nil,
      List.replicate_succ', List.append_assoc]
    rfl

/-- Two carriage returns stand behind the bytes if there are more than one. -/
theorem two_returns_iff (other : body.getLast? ≠ some carriageReturn) (k : Nat) :
    [carriageReturn, carriageReturn] <:+ body ++ List.replicate k carriageReturn ↔ 2 ≤ k := by
  have ends (front : Bytes) : ¬ front ++ [carriageReturn] <:+ body := by
    rintro ⟨more, rfl⟩
    exact other (by simp)
  match k with
  | 0 =>
    rw [List.replicate_zero, List.append_nil]
    exact ⟨fun suffix => absurd suffix (ends [carriageReturn]), by omega⟩
  | 1 =>
    have cut : [carriageReturn, carriageReturn] = [carriageReturn] ++ [carriageReturn] := rfl
    rw [List.replicate_one, cut, List.suffix_append_inj_of_length_eq rfl]
    exact ⟨fun suffix => absurd suffix.1 (ends []), by omega⟩
  | k + 2 =>
    have cut : List.replicate (k + 2) carriageReturn =
        List.replicate k carriageReturn ++ [carriageReturn, carriageReturn] := List.replicate_add k 2 carriageReturn
    rw [cut, ← List.append_assoc]
    exact ⟨fun _ => by omega, fun _ => List.suffix_append _ _⟩

end Bytes

namespace RecordHeader

open Text

variable {line : String} {header : RecordHeader} {errors : List Finding} {body : Bytes}

theorem declared_of_parse? (h : parse? line = some (header, errors)) :
    header.declared = ((lengthIn line).getD 0).toNat := by
  rw [lengthIn, h]
  rfl

/-- A line that ends in a carriage return gives no length. -/
theorem lengthIn_return (last : line.toList.getLast? = some '\r') : lengthIn line = none := by
  cases parsed : parse? line with
  | none => rw [lengthIn, parsed]; rfl
  | some found =>
    obtain ⟨header, errors⟩ := found
    cases value : header.length.value with
    | none =>
      rw [lengthIn, parsed]
      exact value
    | some n =>
      have numeral := isNumeral_of_getLast? parsed (by rw [value]; rfl) last
      exact absurd numeral (by decide)

theorem lengthIn_returns (body : Bytes) (k : Nat) :
    lengthIn (textOf (body ++ List.replicate (k + 1) Bytes.carriageReturn)) = none := by
  rw [← lengthIn_lossy]
  apply lengthIn_return
  rw [toList_lossy, Bytes.chars_returns, List.replicate_succ', ← List.append_assoc, List.getLast?_concat]

end RecordHeader

namespace Builder

open RecordHeader

variable {line core body : Bytes}

theorem exists_terminated (line : Bytes) :
    ∃ core, terminated line = core ++ [Bytes.lineFeed] ∧ (line = core ∨ line = core ++ [Bytes.lineFeed]) := by
  by_cases last : line.getLast? = some Bytes.lineFeed
  · obtain ⟨core, rfl⟩ := List.getLast?_eq_some_iff.1 last
    exact ⟨core, if_pos last, .inr rfl⟩
  · exact ⟨line, if_neg last, .inl rfl⟩

/-- All line ends behind a line are taken off. -/
theorem trimLineEnds_lossy {k : Nat} (noFeed : Bytes.lineFeed ∉ body)
    (other : body.getLast? ≠ some Bytes.carriageReturn)
    (ends : line = body ++ List.replicate k Bytes.carriageReturn ∨
      line = body ++ List.replicate k Bytes.carriageReturn ++ [Bytes.lineFeed]) :
    trimLineEnds (Utf8.decodeLossy line) = Utf8.decodeLossy body := by
  have last (c : Char) (is : (Utf8.chars body).getLast? = some c) : c ≠ '\n' ∧ c ≠ '\r' := by
    constructor
    · rintro rfl
      exact noFeed (List.mem_of_getLast? (Utf8.getLast?_of_chars (a := 10) (by decide) is))
    · rintro rfl
      exact other (Utf8.getLast?_of_chars (a := 13) (by decide) is)
  rcases ends with rfl | rfl
  · have := trimLineEnds_eq (List.replicate k '\r') (by simp) last
    rwa [← Bytes.chars_returns] at this
  · have := trimLineEnds_eq (List.replicate k '\r' ++ ['\n']) (by simp; tauto) last
    rw [← List.append_assoc, ← Bytes.chars_returns] at this
    have feed : Utf8.chars (body ++ List.replicate k Bytes.carriageReturn ++ [Bytes.lineFeed]) =
        Utf8.chars (body ++ List.replicate k Bytes.carriageReturn) ++ ['\n'] := by
      rw [Utf8.chars_append_ascii (by decide), Utf8.chars_nil]
      rfl
    rwa [← feed] at this

/-- Nothing is wrong with a line if it gives a length, and then this is the one that is declared. -/
theorem lengthIn_of_declaredIn (clean : (declaredIn line).2 = .none) :
    ∃ n, lengthIn (trimLineEnds (Utf8.decodeLossy line)) = some n ∧ (declaredIn line).1 = n.toNat := by
  unfold declaredIn at clean ⊢
  dsimp only at clean ⊢
  split at clean
  · next header errors parsed =>
    split at clean
    · next some =>
      obtain ⟨n, value⟩ := Option.isSome_iff_exists.1 some
      refine ⟨n, by rw [lengthIn, parsed]; exact value, ?_⟩
      rw [if_pos some, RecordHeader.declared, value]
      rfl
    · cases clean
  · cases clean

/-- What is written of a line can be read again: it is one line, and a second carriage return behind it does not hide a
length from the reader. -/
def IsReadable (line : Bytes) (declared : Nat) : Prop :=
  Bytes.lineFeed ∉ (terminated line).dropLast ∧
    ([Bytes.carriageReturn, Bytes.carriageReturn] <:+ (terminated line).dropLast → declared = 0)

variable {pos : Nat} {rest behind : Bytes} {header : RecordHeader} {findings : Findings}

/-- Nothing is told of lines that were passed over. -/
def NothingPassed (findings : Findings) : Prop :=
  .dataBeforeRecord ∉ findings.errors ∧ .emptyLinesBeforeRecord ∉ findings.errors

theorem nothingPassed_of_content (all : findings.All Finding.IsOfContent) : NothingPassed findings := by
  have other (f : Finding) (framing : f.subject ∈ Finding.framingSubjects) : f ∉ findings.errors := by
    intro among
    exact (all f (List.mem_append_left _ among)).subject framing
  exact ⟨other _ (by decide), other _ (by decide)⟩

/-- Whatever stands behind it, a single line is found where it begins and goes up to its end. -/
theorem first_terminatedLine (cut : terminated line = core ++ [Bytes.lineFeed]) (noFeed : Bytes.lineFeed ∉ core)
    {found : RecordHeader} {errors : List Finding}
    (parsed : parse? (textOf (Bytes.dropReturn core)) = some (found, errors)) (pos : Nat) (rest : Bytes) :
    ∃ findings, NothingPassed findings ∧ first pos (terminated line ++ rest) =
      (some { found with start := pos, size := (terminated line).length }, findings, rest) := by
  have read : ofLine? (Bytes.dropReturn core) 0 (core.length + 1) = _ := ofLine?_of_parse? parsed
  have found := first_terminated noFeed read pos rest
  rw [cut, List.append_assoc, List.length_append]
  exact ⟨_, nothingPassed_of_content (isOfContent_ofLine? read), found⟩

/-- A header that begins where the line does and is as large as what has been written leaves no room for another line
feed. -/
theorem noFeed_of_first (cut : terminated line = core ++ [Bytes.lineFeed])
    (found : first pos (terminated line ++ rest) = (some header, findings, behind)) (start : header.start = pos)
    (size : header.size = (terminated line).length) : Bytes.lineFeed ∉ core := by
  obtain ⟨before, stands⟩ := first_stands found
  obtain rfl : before = 0 := by
    have := stands.start
    omega
  have whole : Bytes.lineSize (terminated line ++ rest) = (terminated line).length := by
    rw [← size, stands.size, List.drop_zero]
  intro fed
  obtain ⟨front, back, rfl, none⟩ := List.eq_append_cons_of_mem fed
  rw [cut, List.append_assoc, List.append_assoc, List.cons_append, Bytes.lineSize_append _ none] at whole
  simp at whole

/-- What a reader finds in a line for which nothing was wrong: the length that was declared, unless a second carriage
return hides it. -/
theorem declared_textOf (cut : terminated line = core ++ [Bytes.lineFeed]) (noFeed : Bytes.lineFeed ∉ core)
    (ends : line = core ∨ line = core ++ [Bytes.lineFeed]) (clean : (declaredIn line).2 = .none) :
    ∃ header errors, parse? (textOf (Bytes.dropReturn core)) = some (header, errors) ∧
      (header.declared = (declaredIn line).1 ↔
        ([Bytes.carriageReturn, Bytes.carriageReturn] <:+ core → (declaredIn line).1 = 0)) := by
  obtain ⟨body, k, rfl, other⟩ := Bytes.exists_returns core
  have inner : Bytes.lineFeed ∉ body := fun among => noFeed (List.mem_append_left _ among)
  obtain ⟨n, length, declared⟩ := lengthIn_of_declaredIn clean
  rw [trimLineEnds_lossy inner other ends] at length
  rw [Bytes.dropReturn_returns other, Bytes.two_returns_iff other, declared]
  have isLine : (parse? (textOf (body ++ List.replicate (k - 1) Bytes.carriageReturn))).isSome = true := by
    have spaces : (body ++ List.replicate (k - 1) Bytes.carriageReturn).count 0x20 = body.count 0x20 := by
      rw [List.count_append, List.count_replicate, if_neg (by decide), Nat.add_zero]
    obtain ⟨found, parsed, -⟩ := Option.bind_eq_some_iff.1 length
    rw [isSome_parse?, length_parts_textOf, spaces, ← length_parts_lossy, ← isSome_parse?, parsed]
    rfl
  obtain ⟨⟨header, errors⟩, parsed⟩ := Option.isSome_iff_exists.1 isLine
  refine ⟨header, errors, parsed, ?_⟩
  rw [declared_of_parse? parsed]
  by_cases few : k ≤ 1
  · have none : k - 1 = 0 := by omega
    rw [none, List.replicate_zero, List.append_nil, ← lengthIn_lossy, length]
    exact ⟨fun _ many => by omega, fun _ => rfl⟩
  · obtain ⟨j, many⟩ : ∃ j, k - 1 = j + 1 := ⟨k - 2, by omega⟩
    rw [many, lengthIn_returns, Option.getD_none]
    exact ⟨fun same _ => same.symm, fun zero => (zero (by omega)).symm⟩

/-- A builder that writes records as they are, and has not failed. -/
structure Working (b : Builder) : Prop where
  packing : b.packing = .plain
  room : b.output.room = none
  stage : b.stage ≠ .failed

variable {b : Builder}

section Plain

variable (packing : b.packing = .plain) (room : b.output.room = none)

include packing room

/-- In a file that is not packed, what is written stands in the output at once. -/
theorem put_plain (data : Bytes) :
    ∃ pieces, b.put data = .ok () { b with output := ⟨b.output.bytes ++ data, none⟩, pieces } := by
  cases data with
  | nil =>
    refine ⟨b.pieces, ?_⟩
    rw [put_nil, List.append_nil, ← room]
  | cons x more =>
    refine ⟨(x :: more) :: b.pieces, ?_⟩
    rw [put_cons x more room, encoder, packing]
    rfl

theorem endPieces_plain : ∃ pieces, b.endPieces = .ok () { b with pieces } := by
  by_cases none : b.pieces = []
  · refine ⟨b.pieces, ?_⟩
    rw [endPieces, if_pos (List.isEmpty_iff.2 none)]
  · refine ⟨[], ?_⟩
    rw [endPieces_ok none room, encoder, packing]
    simp only [Encoder.plain, List.append_nil, ← room]

theorem writeLine_plain (line : Bytes) : ∃ pieces, writeLine line b =
    .ok () { b with output := ⟨b.output.bytes ++ terminated line, none⟩, pieces } := by
  obtain ⟨pieces, put⟩ := put_plain packing room line
  unfold writeLine terminated
  rw [bind_ok (attempt_ok put)]
  by_cases feed : line.getLast? = some Bytes.lineFeed
  · rw [if_neg (not_not_intro feed), if_pos feed]
    exact ⟨pieces, rfl⟩
  · obtain ⟨pieces', put'⟩ := put_plain
      (b := { b with output := ⟨b.output.bytes ++ line, none⟩, pieces }) packing rfl [Bytes.lineFeed]
    rw [if_pos feed, if_neg feed, attempt_ok put', ← List.append_assoc]
    exact ⟨pieces', rfl⟩

theorem start_plain (line : Bytes) :
    ∃ b', start line none b = .ok () b' ∧ b'.output.bytes = b.output.bytes ++ terminated line ∧
      b'.declared = (declaredIn line).1 ∧ b'.findings = (declaredIn line).2 := by
  have given : lengthFor line none = declaredIn line := rfl
  unfold start
  rw [given]
  generalize declaredIn line = found
  obtain ⟨pieces, wrote⟩ := writeLine_plain
    (b := { b with declared := found.1, written := 0, findings := found.2 }) packing room line
  rw [bind_ok (modify_ok _ b), bind_ok wrote]
  exact ⟨_, rfl, rfl, rfl, rfl⟩

theorem closeRecord_plain (opened : b.isOpen = true) :
    ∃ whole b', closeRecord b = .ok whole b' ∧ b'.output = ⟨b.output.bytes ++ [Bytes.lineFeed], none⟩ ∧
      b'.packing = .plain := by
  obtain ⟨pieces, put⟩ := put_plain packing room [Bytes.lineFeed]
  obtain ⟨pieces', ended⟩ := endPieces_plain
    (b := { b with output := ⟨b.output.bytes ++ [Bytes.lineFeed], none⟩, pieces }) packing rfl
  exact ⟨_, _, closeRecord_open opened put ended, rfl, packing⟩

end Plain

/-- The line is written with a line feed at its end, behind the one that ends the open record. -/
theorem writeHeader_writes (line : Bytes) (h : b.Working) :
    ∃ b', writeHeader line none b = .ok () b' ∧
      b'.output.bytes = b.output.bytes ++ (if b.isOpen then [Bytes.lineFeed] else []) ++ terminated line ∧
      b'.declared = (declaredIn line).1 ∧ b'.findings = (declaredIn line).2 := by
  by_cases init : b.stage = .init
  · obtain ⟨b', started, output, declares⟩ := start_plain h.packing h.room line
    refine ⟨b', (writeHeader_init line none init).trans started, ?_, declares⟩
    rw [output, isOpen_init init, if_neg Bool.false_ne_true, List.append_nil]
  · have opened : b.isOpen = true := isOpen_of_ne init h.stage
    obtain ⟨whole, ended, closing, closed, packing⟩ := closeRecord_plain h.packing h.room opened
    obtain ⟨b', started, output, declares⟩ := start_plain packing (by rw [closed]) line
    refine ⟨b', (writeHeader_closing line none init closing).trans started, ?_, declares⟩
    rw [output, closed, opened, if_pos rfl]

/-- A line that is written as it is given stands in the output with a line feed at its end. If nothing is found wrong
with it, a reader that comes to it passes over nothing, finds a header of just these bytes, with the length that was
declared, and stands where the content begins: but only if there is no other line feed in it, and no second carriage
return hides from the reader a length that is not zero. -/
theorem writeHeader_next (line : Bytes) (working : b.Working) :
    ∃ b', writeHeader line none b = .ok () b' ∧
      b'.output.bytes = b.output.bytes ++ (if b.isOpen then [Bytes.lineFeed] else []) ++ terminated line ∧
      (b'.findings = .none → ∀ {σ : Type} [Supply σ] {holds : σ → Bytes → Prop}, Supply.Steady holds →
        ∀ {c : Cursor σ} {rest : Bytes}, c.Holds holds (terminated line ++ rest) →
          ((∃ header findings c', next c = .ok (some header, findings) c' ∧ NothingPassed findings ∧
              header.start = c.consumed ∧ header.size = (terminated line).length ∧ header.declared = b'.declared ∧
              c'.Holds holds rest) ↔
            IsReadable line b'.declared)) := by
  obtain ⟨b', written, output, declared, findings⟩ := writeHeader_writes line working
  refine ⟨b', written, output, ?_⟩
  rw [declared, findings]
  intro clean σ _ holds steady c rest held
  obtain ⟨core, cut, ends⟩ := exists_terminated line
  have front : (terminated line).dropLast = core := by rw [cut, List.dropLast_concat]
  rw [IsReadable, front]
  obtain ⟨after, found, behind, -, -⟩ := next_holds steady held
  constructor
  · rintro ⟨header, findings, c', read, -, start, size, same, -⟩
    rw [found] at read
    have isFirst : (first c.consumed (terminated line ++ rest)).1 = some header :=
      congrArg Prod.fst (EStateM.Result.ok.inj read).1
    have sought : first c.consumed (terminated line ++ rest) = (some header, _, _) := Prod.ext isFirst rfl
    have noFeed := noFeed_of_first cut sought start size
    obtain ⟨header', errors, parsed, agrees⟩ := declared_textOf cut noFeed ends clean
    obtain ⟨findings', -, alone⟩ := first_terminatedLine cut noFeed parsed c.consumed rest
    rw [alone] at isFirst
    obtain rfl := Option.some.inj isFirst
    exact ⟨noFeed, agrees.1 same⟩
  · rintro ⟨noFeed, returns⟩
    obtain ⟨header, errors, parsed, agrees⟩ := declared_textOf cut noFeed ends clean
    obtain ⟨findings, nothing, sought⟩ := first_terminatedLine cut noFeed parsed c.consumed rest
    rw [sought] at found behind
    exact ⟨_, findings, after, found, nothing, rfl, rfl, agrees.2 returns, behind⟩

/-- A line with a carriage return behind it, and two bytes of content. -/
theorem writeHeader_next_return :
    let line := Bytes.ofString "http://h/ 1.1.1.1 20200101000000 text/html 2\r"
    let c := Cursor.create (Input.ofBytes (terminated line ++ [104, 105])) 1 0
    (create .plain .stored (.empty none)).Working ∧ IsReadable line 2 ∧
      ∃ b' header findings c', writeHeader line none (create .plain .stored (.empty none)) = .ok () b' ∧
        next c = .ok (some header, findings) c' ∧ header.declared = b'.declared ∧ c'.Holds Input.Holds [104, 105] := by
  intro line c
  have working : (create .plain .stored (.empty none)).Working := ⟨rfl, rfl, by decide⟩
  have readable : IsReadable line 2 := by unfold IsReadable; decide +kernel
  have held : c.Holds Input.Holds (terminated line ++ [104, 105]) := Cursor.holds_create (by decide) ⟨rfl, rfl, by decide⟩
  obtain ⟨b', written, -, reads⟩ := writeHeader_next line working
  have declares : (match writeHeader line none (create .plain .stored (.empty none)) with
      | .ok _ b => decide (b.findings = .none ∧ b.declared = 2)
      | .error _ _ => false) = true := by decide +kernel
  rw [written] at declares
  obtain ⟨clean, two⟩ := of_decide_eq_true declares
  rw [← two] at readable
  obtain ⟨header, findings, c', found, -, -, -, same, rest⟩ := (reads clean Input.steady_holds held).2 readable
  rw [two] at readable
  exact ⟨working, readable, b', header, findings, c', written, found, same, rest⟩

/-- A line with one line feed too many: nothing is found wrong with it, all of it is written, and what a reader finds
ends in front of the last byte. -/
theorem exists_read_short :
    let core := Bytes.ofString "http://h/ 1.1.1.1 20200101000000 text/html 0"
    let line := core ++ [Bytes.lineFeed, Bytes.lineFeed]
    ∃ b' header findings c', writeHeader line none (create .plain .stored (.empty none)) = .ok () b' ∧ b'.findings = .none ∧
      b'.output.bytes = line ∧ next (Cursor.create (Input.ofBytes line) 1 0) = .ok (some header, findings) c' ∧
      header.size + 1 = line.length ∧ c'.Holds Input.Holds [Bytes.lineFeed] := by
  intro core line
  have working : (create .plain .stored (.empty none)).Working := ⟨rfl, rfl, by decide⟩
  obtain ⟨b', written, output, -, findings⟩ := writeHeader_writes line working
  have clean : (declaredIn line).2 = .none := by decide +kernel
  have whole : terminated line = line := by decide +kernel
  have isLine : (parse? (textOf (Bytes.dropReturn core))).isSome = true := by decide +kernel
  have noFeed : Bytes.lineFeed ∉ core := by decide +kernel
  have held : (Cursor.create (Input.ofBytes line) 1 0).Holds Input.Holds line :=
    Cursor.holds_create (by decide) ⟨rfl, rfl, by decide⟩
  obtain ⟨⟨header, errors⟩, parsed⟩ := Option.isSome_iff_exists.1 isLine
  have read : ofLine? (Bytes.dropReturn core) 0 (core.length + 1) = _ := ofLine?_of_parse? parsed
  have first := first_terminated noFeed read 0 [Bytes.lineFeed]
  obtain ⟨c', found', behind, -, -⟩ := next_holds Input.steady_holds held
  have start : (Cursor.create (Input.ofBytes line) 1 0).consumed = 0 := rfl
  have cut : line = core ++ Bytes.lineFeed :: [Bytes.lineFeed] := rfl
  rw [start, cut, first] at found' behind
  refine ⟨b', _, _, c', written, findings.trans clean, ?_, found', ?_, behind⟩
  · have nothing : (create .plain .stored (.empty none)).output.bytes = [] := rfl
    have idle : (create .plain .stored (.empty none)).isOpen = false := rfl
    rw [output, whole, nothing, idle, if_neg Bool.false_ne_true, List.nil_append, List.nil_append]
  · rw [cut, List.length_append, List.length_cons, List.length_singleton]

end Builder
end ArcFile
