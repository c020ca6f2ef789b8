import ArcFile.Proofs.Record.Line
/-!
What a header line keeps of its text: every field has the text that stood in the line, and every finding about the line
names a field. A line is the same to all who read it, even if it is not UTF-8.
-/
namespace ArcFile.RecordHeader

open Text

variable {line : String} {header : RecordHeader} {errors : List Finding}

/-- The texts of the fields as they stood in the line. -/
def rawTexts (header : RecordHeader) : List (Option String) :=
  [header.url.text, header.address.text, header.date.text, header.mediaType.text] ++
    (match header.layout with
      | .v1 => []
      | .v2 => [header.resultCode.text, header.checksum.text, header.location.text, header.offset.text,
          header.filename.text]) ++
    [header.length.text]

theorem text_readMediaType (text : String) : (readMediaType text).1.text = some text := by
  unfold readMediaType
  split <;> rfl

theorem names_readMediaType (text : String) : Finding.Names "Content-type" (readMediaType text).2 := by
  unfold readMediaType
  split
  · exact Finding.names_none _
  · exact ValueKind.names_readSlot _ _ _ _

theorem names_readExtra {α : Type} (kind : ValueKind α) (name : String) (text : Option String) :
    Finding.Names name (readExtra kind name text).2 := by
  cases text with
  | none => exact Finding.names_none _
  | some text => exact ValueKind.names_readSlot _ _ _ _

/-- What is found wrong with the fields of a line, each with the name of its field. -/
def namedFindings (url address date mediaType : String) (extra : Option Extra) (length : String) :
    List (String × Option Finding) :=
  [("URL", (Url.kind.readSlot "URL" false url).2),
    ("IP-address", (Address.kind.readSlot "IP-address" false address).2),
    ("Archive-date", (Timestamp.kind.readSlot "Archive-date" false date).2),
    ("Content-type", (readMediaType mediaType).2),
    ("Result-code", (readExtra integer "Result-code" (extra.map (·.resultCode))).2),
    ("Checksum", (readExtra ValueKind.text "Checksum" (extra.map (·.checksum))).2),
    ("Location", (readExtra ValueKind.text "Location" (extra.map (·.location))).2),
    ("Offset", (readExtra long "Offset" (extra.map (·.offset))).2),
    ("Filename", (readExtra ValueKind.text "Filename" (extra.map (·.filename))).2),
    ("Archive-length", (long.readSlot "Archive-length" false length).2),
    ("Result-code", (restrictCode (readExtra integer "Result-code" (extra.map (·.resultCode))).1).2),
    ("Offset", (restrictNatural "Offset" (readExtra long "Offset" (extra.map (·.offset))).1).2),
    ("Archive-length", (restrictNatural "Archive-length" (long.readSlot "Archive-length" false length).1).2)]

section OfFields

variable {size : Nat} {url address date mediaType length : String} {extra : Option Extra}

/-- What is read from the fields of a line, and what is wrong with each. -/
theorem ofFields_eq : ofFields size url address date mediaType extra length =
    ({ url := (Url.kind.readSlot "URL" false url).1
       scheme := Url.schemeOf? url
       address := (Address.kind.readSlot "IP-address" false address).1
       date := (Timestamp.kind.readSlot "Archive-date" false date).1
       mediaType := (readMediaType mediaType).1
       resultCode := (restrictCode (readExtra integer "Result-code" (extra.map (·.resultCode))).1).1
       checksum := (readExtra .text "Checksum" (extra.map (·.checksum))).1
       location := (readExtra .text "Location" (extra.map (·.location))).1
       offset := (restrictNatural "Offset" (readExtra long "Offset" (extra.map (·.offset))).1).1
       filename := (readExtra .text "Filename" (extra.map (·.filename))).1
       length := (restrictNatural "Archive-length" (long.readSlot "Archive-length" false length).1).1
       layout := if extra.isSome then .v2 else .v1
       start := 0
       size },
      (namedFindings url address date mediaType extra length).filterMap (·.2)) := rfl

/-- Every field keeps its text, whatever is wrong with it. -/
theorem rawTexts_ofFields : (ofFields size url address date mediaType extra length).1.rawTexts =
    ([url, address, date, mediaType] ++
      (extra.elim [] fun e => [e.resultCode, e.checksum, e.location, e.offset, e.filename]) ++ [length]).map some := by
  have media : (ofFields size url address date mediaType extra length).1.mediaType.text = some mediaType :=
    text_readMediaType mediaType
  have last : (ofFields size url address date mediaType extra length).1.length.text = some length :=
    Slot.text_restrict (long.readSlot "Archive-length" false length).1 _ _ _
  cases extra with
  | none =>
    simp only [rawTexts, media, last]
    rfl
  | some e =>
    have code : (ofFields size url address date mediaType (some e) length).1.resultCode.text = some e.resultCode :=
      Slot.text_restrict (readExtra integer "Result-code" (some e.resultCode)).1 _ _ _
    have offset : (ofFields size url address date mediaType (some e) length).1.offset.text = some e.offset :=
      Slot.text_restrict (readExtra long "Offset" (some e.offset)).1 _ _ _
    simp only [rawTexts, media, last, code, offset]
    rfl

/-- The finding, if there is one, is that the value of a field is missing or wrong. -/
def IsOfValue (finding : Option Finding) : Prop :=
  ∀ f, finding = some f → ∃ field, f.subject = Finding.valueOf field ∧ f.kind ≠ .undesired

theorem isOfValue_of_names {field : String} {finding : Option Finding} (h : Finding.Names field finding) :
    IsOfValue finding := fun f is => ⟨field, h f is⟩

theorem names_namedFindings : ∀ entry ∈ namedFindings url address date mediaType extra length,
    Finding.Names entry.1 entry.2 := by
  simp only [namedFindings, List.forall_mem_cons, List.not_mem_nil, false_imp_iff, implies_true, and_true]
  exact ⟨ValueKind.names_readSlot _ _ _ _, ValueKind.names_readSlot _ _ _ _, ValueKind.names_readSlot _ _ _ _,
    names_readMediaType _, names_readExtra _ _ _, names_readExtra _ _ _, names_readExtra _ _ _,
    names_readExtra _ _ _, names_readExtra _ _ _, ValueKind.names_readSlot _ _ _ _, Slot.names_restrict _ _ _ _,
    Slot.names_restrict _ _ _ _, Slot.names_restrict _ _ _ _⟩

theorem findings_ofFields : (ofFields size url address date mediaType extra length).2 =
    (namedFindings url address date mediaType extra length).filterMap (·.2) := by
  rw [ofFields_eq]

theorem subject_of_ofFields {f : Finding}
    (among : f ∈ (ofFields size url address date mediaType extra length).2) :
    ∃ field, f.subject = Finding.valueOf field ∧ f.kind ≠ .undesired := by
  rw [findings_ofFields] at among
  obtain ⟨entry, named, is⟩ := List.mem_filterMap.1 among
  exact ⟨entry.1, names_namedFindings entry named f is⟩

end OfFields

theorem isSome_parse? : (parse? line).isSome = true ↔ (parts line).length = 5 ∨ (parts line).length = 10 := by
  unfold parse?
  dsimp only
  split
  · next found => simp [found]
  · next found => simp [found]
  · next five ten =>
    constructor
    · intro some
      cases some
    · intro length
      generalize parts line = texts at five ten length
      rcases length with length | length
      · match texts, length with
        | [url, address, date, mediaType, last], _ => exact absurd rfl (five _ _ _ _ _)
      · match texts, length with
        | [url, address, date, mediaType, code, checksum, location, offset, filename, last], _ =>
          exact absurd rfl (ten _ _ _ _ _ _ _ _ _ _)

/-- A line with these parts is read as these fields. -/
theorem parse?_of_parts {url address date mediaType length : String} {extra : Option Extra}
    (cut : parts line = [url, address, date, mediaType] ++
      (extra.elim [] fun e => [e.resultCode, e.checksum, e.location, e.offset, e.filename]) ++ [length]) :
    parse? line = some (ofFields ((Bytes.ofString line).length + 1) url address date mediaType extra length) := by
  unfold parse?
  cases extra with
  | none => rw [cut]; rfl
  | some e => rw [cut]; rfl

theorem rawTexts_of_parse? (h : parse? line = some (header, errors)) : header.rawTexts = (parts line).map some := by
  obtain ⟨size, url, address, date, mediaType, extra, length, same, texts⟩ := ofFields_of_parse? h
  rw [texts, ← rawTexts_ofFields, ← same]

theorem subject_of_parse? {f : Finding} (h : parse? line = some (header, errors)) (among : f ∈ errors) :
    ∃ field, f.subject = Finding.valueOf field ∧ f.kind ≠ .undesired := by
  obtain ⟨size, url, address, date, mediaType, extra, length, same, -⟩ := ofFields_of_parse? h
  have all : errors = (ofFields size url address date mediaType extra length).2 := congrArg Prod.snd same
  exact subject_of_ofFields (all ▸ among)

/-- The text of a line, as UTF-8 or else as ISO-8859-1. -/
def textOf (line : Bytes) : String := (Utf8.decode? line).getD line.latin1

section Line

variable {data : Bytes} {start size : Nat} {findings : Findings}

theorem parse?_of_ofLine? (h : ofLine? data start size = some (header, findings)) :
    ∃ found errors, parse? (textOf data) = some (found, errors) ∧ header = { found with start, size } ∧
      findings.errors = errors ∧ ∀ warning ∈ findings.warnings, warning = .headerNotUtf8 data.latin1 := by
  unfold ofLine? at h
  unfold textOf
  split at h
  · next text decoded =>
    obtain ⟨⟨found, errors⟩, parsed, same⟩ := Option.map_eq_some_iff.1 h
    cases same
    exact ⟨found, errors, by rw [decoded]; exact parsed, rfl, rfl, by simp [Findings.none, Findings.addErrors]⟩
  · next decoded =>
    obtain ⟨⟨found, errors⟩, parsed, same⟩ := Option.map_eq_some_iff.1 h
    cases same
    exact ⟨found, errors, by rw [decoded]; exact parsed, rfl, rfl,
      by simp [Findings.none, Findings.addErrors, Findings.addWarning]⟩

theorem isSome_ofLine?_eq : (ofLine? data start size).isSome = (parse? (textOf data)).isSome := by
  unfold ofLine? textOf
  split
  · next decoded => simp only [decoded, Option.isSome_map, Option.getD_some]
  · next decoded => simp only [decoded, Option.isSome_map, Option.getD_none]

theorem ofLine?_nil : ofLine? [] start size = none := by
  unfold ofLine?
  split
  · next text decoded =>
    have chars := Utf8.toList_of_decode? decoded
    rw [Utf8.chars_nil] at chars
    have one : parts text = [String.ofList []] := by rw [parts, chars]; rfl
    simp [parse?, one]
  · rfl

/-- A header line with a line feed behind it is found at once, and says the same wherever it stands. -/
theorem first_terminated (noFeed : Bytes.lineFeed ∉ data)
    (read : ofLine? (Bytes.dropReturn data) 0 (data.length + 1) = some (header, findings)) (pos : Nat) (rest : Bytes) :
    first pos (data ++ Bytes.lineFeed :: rest) = (some { header with start := pos }, findings, rest) := by
  have line : Bytes.firstLine (data ++ Bytes.lineFeed :: rest) = Bytes.dropReturn data :=
    Bytes.firstLine_append rest noFeed
  have size : Bytes.lineSize (data ++ Bytes.lineFeed :: rest) = data.length + 1 := Bytes.lineSize_append rest noFeed
  have behind : (data ++ Bytes.lineFeed :: rest).drop (data.length + 1) = rest := by
    rw [← List.drop_drop, List.drop_left]
    rfl
  have nonempty : Bytes.dropReturn data ≠ [] := by
    intro none
    rw [none, ofLine?_nil] at read
    cases read
  have found := first_of_line (line ▸ nonempty) (by rw [line, size]; exact ofLine?_start pos read)
  rwa [size, behind] at found

end Line

end ArcFile.RecordHeader
