import ArcFile.Proofs.Finding
import ArcFile.Proofs.Record.Search
import ArcFile.Proofs.Text.Ascii
import ArcFile.Proofs.Value.Slot
/-!
Header lines and their ends. The last field of a header line is its length, and a line that has one does not
end in a carriage return; so it is clear from the bytes what is the line and what is its terminator.
-/
namespace ArcFile

namespace Bytes

variable {line : Bytes}

theorem takeWhile_line (rest : Bytes) (noFeed : lineFeed ∉ line) :
    (line ++ lineFeed :: rest).takeWhile (· ≠ lineFeed) = line := by
  have others : ∀ b ∈ line, decide (b ≠ lineFeed) = true := fun b among =>
    decide_eq_true fun same => noFeed (same ▸ among)
  rw [List.takeWhile_append_of_pos others]
  simp

theorem firstLine_append (rest : Bytes) (noFeed : lineFeed ∉ line) :
    firstLine (line ++ lineFeed :: rest) = dropReturn line := by
  rw [firstLine, takeWhile_line rest noFeed]

theorem lineSize_append (rest : Bytes) (noFeed : lineFeed ∉ line) :
    lineSize (line ++ lineFeed :: rest) = line.length + 1 := by
  have shorter : line.length < (line ++ lineFeed :: rest).length := by simp
  simp only [lineSize, takeWhile_line rest noFeed, if_pos shorter]

theorem drop_lineSize_append (rest : Bytes) (noFeed : lineFeed ∉ line) :
    (line ++ lineFeed :: rest).drop (lineSize (line ++ lineFeed :: rest)) = rest := by
  rw [lineSize_append rest noFeed, ← List.drop_drop, List.drop_left]
  rfl

theorem dropReturn_append (line : Bytes) : dropReturn (line ++ [carriageReturn]) = line := by
  simp [dropReturn]

theorem dropReturn_of_getLast? (other : line.getLast? ≠ some carriageReturn) : dropReturn line = line :=
  if_neg other

/-- A line is followed by a carriage return or by nothing. -/
theorem dropReturn_cases (line : Bytes) :
    line = dropReturn line ∨ line = dropReturn line ++ [carriageReturn] := by
  by_cases last : line.getLast? = some carriageReturn
  · obtain ⟨front, rfl⟩ := List.getLast?_eq_some_iff.1 last
    exact .inr (by rw [dropReturn_append])
  · exact .inl (dropReturn_of_getLast? last).symm

theorem prefix_firstLine (data : Bytes) : firstLine data <+: data := by
  have line : data.takeWhile (· ≠ lineFeed) <+: data := List.takeWhile_prefix _
  refine List.IsPrefix.trans ?_ line
  rcases dropReturn_cases (data.takeWhile (· ≠ lineFeed)) with whole | cut
  · exact ⟨[], by rw [List.append_nil]; exact whole.symm⟩
  · exact ⟨[carriageReturn], cut.symm⟩

end Bytes

namespace RecordHeader

open Text

variable {line : String} {header : RecordHeader} {errors : List Finding}

/-- What is read from a line is read from its five or ten fields. -/
theorem ofFields_of_parse? [Url.Reader] (h : parse? line = some (header, errors)) :
    ∃ size url address date mediaType extra length,
      (header, errors) = ofFields size url address date mediaType extra length ∧
      parts line = [url, address, date, mediaType] ++
        (extra.elim [] fun e => [e.resultCode, e.checksum, e.location, e.offset, e.filename]) ++ [length] := by
  unfold parse? at h
  dsimp only at h
  split at h
  · next found => exact ⟨_, _, _, _, _, none, _, (Option.some.inj h).symm, found⟩
  · next found => exact ⟨_, _, _, _, _, some ⟨_, _, _, _, _⟩, _, (Option.some.inj h).symm, found⟩
  · cases h

/-- The content length that the last field of a header line gives. -/
def lengthOf (text : List Char) : Option Int :=
  (restrictNatural "Archive-length" (long.readSlot "Archive-length" false (String.ofList text)).1).1.value

theorem isNumeral_of_lengthOf {text : List Char} {n : Int} (h : lengthOf text = some n) :
    text ≠ [] ∧ ∀ c ∈ text, Decimal.isNumeral c = true := by
  have parsed : Decimal.readInt? (-0x8000000000000000) 0x7fffffffffffffff (String.ofList text).toList = some n :=
    ValueKind.parse?_of_readSlot (Slot.value_of_restrict h)
  rw [String.toList_ofList] at parsed
  exact Decimal.isNumeral_of_readInt? parsed

theorem value_of_parse? {before after : List Char} (cut : line.toList = before ++ ' ' :: after) (none : ' ' ∉ after)
    (h : parse? line = some (header, errors)) : header.length.value = lengthOf after := by
  obtain ⟨size, url, address, date, mediaType, extra, length, same, texts⟩ := ofFields_of_parse? h
  have last : (parts line).getLast? = some (String.ofList after) := by
    simp [parts, cut, pieces_append, pieces_of_not_mem none]
  rw [texts, List.getLast?_concat] at last
  obtain rfl : length = String.ofList after := Option.some.inj last
  have is : header = (ofFields size url address date mediaType extra (String.ofList after)).1 := congrArg Prod.fst same
  rw [is]
  rfl

theorem space_mem_of_parse? (h : parse? line = some (header, errors)) : ' ' ∈ line.toList := by
  apply Decidable.byContradiction
  intro none
  have one : parts line = [String.ofList line.toList] := by simp [parts, pieces_of_not_mem none]
  simp [parse?, one] at h

/-- The length is what stands behind the last space. -/
theorem length_of_parse? (h : parse? line = some (header, errors)) :
    ∃ before after, line.toList = before ++ ' ' :: after ∧ ' ' ∉ after ∧
      header.length.value = lengthOf after := by
  obtain ⟨before, after, cut, none⟩ := exists_last_cut (space_mem_of_parse? h)
  exact ⟨before, after, cut, none, value_of_parse? cut none h⟩

theorem isSome_length_of_ofFields {size : Nat} {url address date mediaType length : String} {extra : Option Extra}
    (none : (ofFields size url address date mediaType extra length).2 = []) :
    (ofFields size url address date mediaType extra length).1.length.value.isSome := by
  unfold ofFields at none
  have each := List.filterMap_eq_nil_iff.1 none
  have read : (long.readSlot "Archive-length" false length).2 = .none := each _ (by simp)
  have range : (restrictNatural "Archive-length" (long.readSlot "Archive-length" false length).1).2 = .none :=
    each _ (by simp)
  exact Slot.isSome_of_restrict range (ValueKind.isSome_of_readSlot read)

/-- A header line with nothing wrong with it has a length. -/
theorem isSome_length_of_parse? (h : parse? line = some (header, [])) : header.length.value.isSome := by
  obtain ⟨size, url, address, date, mediaType, extra, length, same, -⟩ := ofFields_of_parse? h
  have found := isSome_length_of_ofFields (congrArg Prod.snd same.symm)
  rwa [← same] at found

/-- The last character of a header line is one of its length, if it has one. -/
theorem isNumeral_of_getLast? {c : Char} (h : parse? line = some (header, errors))
    (some : header.length.value.isSome) (last : line.toList.getLast? = Option.some c) :
    Decimal.isNumeral c = true := by
  obtain ⟨before, after, cut, -, value⟩ := length_of_parse? h
  obtain ⟨n, found⟩ := Option.isSome_iff_exists.1 some
  obtain ⟨nonempty, all⟩ := isNumeral_of_lengthOf (value ▸ found)
  have same : line.toList.getLast? = after.getLast? := by
    rw [cut, List.getLast?_append, List.getLast?_cons_of_ne_nil nonempty]
    simp [List.getLast?_eq_some_getLast nonempty]
  exact all c (List.mem_of_getLast? (same ▸ last))

theorem getLast?_ne_return {data : Bytes} (decoded : Utf8.decode? data = some line)
    (h : parse? line = some (header, errors)) (some : header.length.value.isSome) :
    data.getLast? ≠ Option.some Bytes.carriageReturn := by
  intro last
  obtain ⟨front, rfl⟩ := List.getLast?_eq_some_iff.1 last
  have chars := Utf8.toList_of_decode? decoded
  rw [Utf8.chars_append_ascii (by decide) front []] at chars
  have ends : line.toList.getLast? = Option.some '\r' := by
    rw [chars, Utf8.chars, Utf8.chars, Utf8.scan_nil, List.map_nil, List.getLast?_concat]
    rfl
  have numeral := isNumeral_of_getLast? h some ends
  exact absurd numeral (by decide)

theorem scheme?_return (rest : List Char) : Url.scheme? ('\r' :: rest) = none := by
  have other : ('\r' : Char) ≠ ':' := by decide
  simp only [Url.scheme?, cut?, if_neg other]
  cases cut? ':' rest with
  | none => rfl
  | some parts => rfl

theorem isVersionBlock_ofFields {size : Nat} {url address date mediaType length : String} {extra : Option Extra}
    (other : Url.schemeOf? url ≠ some versionScheme) :
    (ofFields size url address date mediaType extra length).1.isVersionBlock = false := by
  change (Url.schemeOf? url == some versionScheme) = false
  simpa using other

/-- A line that begins with a carriage return does not name the scheme of version blocks. -/
theorem isVersionBlock_of_return {rest : Bytes} (decoded : Utf8.decode? (Bytes.carriageReturn :: rest) = some line)
    (h : parse? line = some (header, errors)) : header.isVersionBlock = false := by
  have chars := Utf8.toList_of_decode? decoded
  rw [show Bytes.carriageReturn :: rest = [] ++ Bytes.carriageReturn :: rest from rfl,
    Utf8.chars_append_ascii (by decide) [] rest] at chars
  have begins : line.toList = '\r' :: Utf8.chars rest := by
    rw [chars, Utf8.chars, Utf8.scan_nil]
    rfl
  obtain ⟨piece, more, first⟩ : ∃ piece more, parts line = String.ofList ('\r' :: piece) :: more := by
    have other : ('\r' : Char) ≠ ' ' := by decide
    rw [parts, begins, pieces, if_neg other]
    cases found : pieces ' ' (Utf8.chars rest) with
    | nil => exact absurd found (pieces_ne_nil _ _)
    | cons piece more => exact ⟨piece, more.map String.ofList, rfl⟩
  have none : Url.schemeOf? (String.ofList ('\r' :: piece)) = .none := by
    rw [Url.schemeOf?, String.toList_ofList, scheme?_return]
    rfl
  have other : Url.schemeOf? (String.ofList ('\r' :: piece)) ≠ some versionScheme := by
    rw [none]
    exact (Option.some_ne_none _).symm
  obtain ⟨size, url, address, date, mediaType, extra, length, same, texts⟩ := ofFields_of_parse? h
  obtain rfl : url = String.ofList ('\r' :: piece) := (List.cons.inj (texts.symm.trans first)).1
  have is : header = (ofFields size _ address date mediaType extra length).1 := congrArg Prod.fst same
  rw [is]
  exact isVersionBlock_ofFields other

section First

variable {pos : Nat} {data behind : Bytes} {findings : Findings}

theorem seek_nothing {skipped : Skipped} {found : Option (RecordHeader × Findings)}
    (h : seek skipped pos data = (.nothing, found, behind)) : skipped = .nothing ∧
      (found = none ∧ data = [] ∨ data.firstLine ≠ [] ∧ found.isSome ∧
        ofLine? data.firstLine pos data.lineSize = found ∧ behind = data.drop data.lineSize) := by
  fun_induction seek skipped pos data with
  | case1 =>
    cases h
    exact ⟨rfl, .inl ⟨rfl, rfl⟩⟩
  | case2 _ _ _ _ _ _ ih => cases congrArg Skipped.emptyLines (ih h).1
  | case3 skipped pos data ended rest some header read =>
    obtain ⟨rfl, rfl, rfl⟩ : skipped = .nothing ∧ Option.some header = found ∧ rest = behind := by
      simpa using h
    exact ⟨rfl, .inr ⟨by simpa using some, rfl, read, rfl⟩⟩
  | case4 _ _ _ _ _ _ _ ih => cases congrArg Skipped.data (ih h).1

theorem nothing_of_findings {skipped : Skipped} (none : skipped.findings = []) : skipped = .nothing := by
  obtain ⟨data, emptyLines⟩ := skipped
  cases data <;> cases emptyLines <;> simp_all [Skipped.findings, Skipped.nothing]

/-- If nothing has been passed over and there is no header line, there is no data. -/
theorem first_none_clean (h : first pos data = (none, .none, behind)) : data = [] := by
  unfold first at h
  split at h
  · next skipped rest found =>
    obtain ⟨none, -⟩ := Prod.mk.inj (Prod.mk.inj h).2
    obtain rfl := nothing_of_findings (congrArg Findings.errors none)
    rcases (seek_nothing found).2 with ⟨-, none⟩ | ⟨-, some, -⟩
    · exact none
    · cases some
  · cases h

/-- If nothing is wrong up to the end of a header line, it is the first line. -/
theorem first_some_clean (h : first pos data = (some header, .none, behind)) : data.firstLine ≠ [] ∧
    ofLine? data.firstLine pos data.lineSize = some (header, .none) ∧ behind = data.drop data.lineSize := by
  unfold first at h
  split at h
  · cases h
  · next skipped _ findings rest found =>
    obtain ⟨same, rfl⟩ := Prod.mk.inj (Prod.mk.inj h).2
    obtain ⟨none, rfl⟩ := Findings.append_eq_none.1 same
    obtain rfl := nothing_of_findings (congrArg Findings.errors none)
    cases h
    rcases (seek_nothing found).2 with ⟨none, -⟩ | ⟨nonempty, -, read, behind⟩
    · cases none
    · exact ⟨nonempty, read, behind⟩

theorem first_of_line (nonempty : data.firstLine ≠ [])
    (read : ofLine? data.firstLine pos data.lineSize = some (header, findings)) :
    first pos data = (some header, findings, data.drop data.lineSize) := by
  have some : data ≠ [] := by
    rintro rfl
    exact nonempty rfl
  have isLine : data.firstLine.isEmpty = false := by simpa using nonempty
  have found : seek .nothing pos data = (.nothing, Option.some (header, findings), data.drop data.lineSize) := by
    unfold seek
    rw [if_neg some]
    simp only [isLine, Bool.false_eq_true, ↓reduceIte, read]
  unfold first
  rw [found]
  exact congrArg (fun all => (_, all, _)) (Findings.none_append findings)

theorem first_nil (pos : Nat) : first pos [] = (none, .none, []) := by
  unfold first seek
  rfl

/-- Nothing is wrong with the header of a line just if the line is UTF-8 and no field is wrong. -/
theorem ofLine?_clean {line : Bytes} {start size : Nat} : ofLine? line start size = some (header, .none) ↔
    ∃ text found, Utf8.decode? line = some text ∧ parse? text = some (found, []) ∧
      header = { found with start, size } := by
  unfold ofLine?
  constructor
  · intro h
    split at h
    · next text decoded =>
      obtain ⟨⟨found, errors⟩, parsed, same⟩ := Option.map_eq_some_iff.1 h
      obtain ⟨rfl, none⟩ := Prod.mk.inj same
      obtain rfl : errors = [] := by simpa [Findings.none, Findings.addErrors] using none
      exact ⟨text, found, decoded, parsed, rfl⟩
    · obtain ⟨⟨found, errors⟩, parsed, same⟩ := Option.map_eq_some_iff.1 h
      have warnings := congrArg Findings.warnings (Prod.mk.inj same).2
      simp [Findings.none, Findings.addErrors, Findings.addWarning] at warnings
  · rintro ⟨text, found, decoded, parsed, rfl⟩
    rw [decoded]
    simp [parsed, Findings.none, Findings.addErrors]

/-- A version block whose header line is UTF-8 does not begin with a carriage return. -/
theorem head?_ne_return (h : first pos data = (some header, .none, behind))
    (version : header.isVersionBlock = true) : data.head? ≠ some Bytes.carriageReturn := by
  intro begins
  obtain ⟨nonempty, read, -⟩ := first_some_clean h
  obtain ⟨text, found, decoded, parsed, same⟩ := ofLine?_clean.1 read
  obtain ⟨b, more, line⟩ := List.exists_cons_of_ne_nil nonempty
  obtain ⟨rest, cut⟩ := data.prefix_firstLine
  obtain rfl : b = Bytes.carriageReturn := by
    rw [← cut, line] at begins
    exact Option.some.inj begins
  rw [line] at decoded
  rw [same] at version
  have data := isVersionBlock_of_return decoded parsed
  exact Bool.false_ne_true (data.symm.trans version)

end First

end RecordHeader
end ArcFile
