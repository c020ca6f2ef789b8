import ArcFile.Proofs.Record.Written
/-!
Placeholders. A field that has no text is written as `-`, and `-` is read as a field that has none. So a header line
may be written from what was read of it: the new line says the same as the old one, down to every finding.
-/
namespace ArcFile

open Text

variable {α : Type}

/-- A text with the placeholder for an empty one. -/
def filled (text : String) : String := if text = "" then "-" else text

theorem given?_filled (text : String) : given? (filled text) = given? text := by
  unfold filled
  split
  · next empty =>
    rw [empty]
    rfl
  · rfl

namespace Slot

/-- The slot as it is read from a line with placeholders. -/
def filled (slot : Slot α) : Slot α := { slot with text := slot.text.map ArcFile.filled }

theorem restrict_filled {slot : Slot α} (given : slot.value.isSome → slot.text ≠ some "") (name expected : String)
    (permitted : α → Bool) : slot.filled.restrict name expected permitted =
      ((slot.restrict name expected permitted).1.filled, (slot.restrict name expected permitted).2) := by
  obtain ⟨text, value⟩ := slot
  cases value with
  | none => rfl
  | some value =>
    have same : (text.map ArcFile.filled).getD "" = text.getD "" := by
      cases text with
      | none => rfl
      | some text => exact if_neg fun empty => given rfl (congrArg some empty)
    simp only [restrict, filled, same]
    split <;> rfl

end Slot

namespace RecordHeader

/-! ## Fields -/

section Fields

variable {kind : ValueKind α} {name : String} {optional : Bool}

theorem readSlot_filled (text : String) : kind.readSlot name optional (filled text) =
    ((kind.readSlot name optional text).1.filled, (kind.readSlot name optional text).2) := by
  simp only [ValueKind.readSlot, given?_filled]
  rfl

theorem readMediaType_filled (text : String) :
    readMediaType (filled text) = ((readMediaType text).1.filled, (readMediaType text).2) := by
  have same : filled text = noType ↔ text = noType := by
    unfold filled
    split
    · next empty =>
      rw [empty]
      decide
    · rfl
  unfold readMediaType
  simp only [same]
  split
  · next is =>
    rw [is]
    rfl
  · exact readSlot_filled text

theorem readExtra_filled (text : Option String) : readExtra kind name (text.map filled) =
    ((readExtra kind name text).1.filled, (readExtra kind name text).2) := by
  cases text with
  | none => rfl
  | some text => exact readSlot_filled text

theorem text_ne_of_readSlot (text : String) (valued : (kind.readSlot name optional text).1.value.isSome) :
    (kind.readSlot name optional text).1.text ≠ some "" := by
  intro empty
  obtain rfl : text = "" := Option.some.inj empty
  cases valued

theorem text_ne_of_readExtra (text : Option String) (valued : (readExtra kind name text).1.value.isSome) :
    (readExtra kind name text).1.text ≠ some "" := by
  cases text with
  | none => cases valued
  | some text => exact text_ne_of_readSlot text valued

end Fields

def Extra.filled (extra : Extra) : Extra where
  resultCode := ArcFile.filled extra.resultCode
  checksum := ArcFile.filled extra.checksum
  location := ArcFile.filled extra.location
  offset := ArcFile.filled extra.offset
  filename := ArcFile.filled extra.filename

/-- The header as it is read from a line of this size with placeholders. -/
def filled (header : RecordHeader) (size : Nat) : RecordHeader :=
  { header with
    url := header.url.filled
    address := header.address.filled
    date := header.date.filled
    mediaType := header.mediaType.filled
    resultCode := header.resultCode.filled
    checksum := header.checksum.filled
    location := header.location.filled
    offset := header.offset.filled
    filename := header.filename.filled
    length := header.length.filled
    size }

section OfFields

variable {size : Nat} {url address date mediaType length : String} {extra : Option Extra}

/-- Placeholders change neither a value nor a finding. -/
theorem ofFields_filled (size size' : Nat) :
    ofFields size' (ArcFile.filled url) (ArcFile.filled address) (ArcFile.filled date) (ArcFile.filled mediaType)
      (extra.map Extra.filled) (ArcFile.filled length) =
    ((ofFields size url address date mediaType extra length).1.filled size',
      (ofFields size url address date mediaType extra length).2) := by
  have scheme : Url.schemeOf? (ArcFile.filled url) = Url.schemeOf? url := by
    unfold ArcFile.filled
    split
    · next empty =>
      rw [empty]
      decide
    · rfl
  have picked (pick : Extra → String) (fills : ∀ e : Extra, pick e.filled = ArcFile.filled (pick e)) :
      (extra.map Extra.filled).map pick = (extra.map pick).map ArcFile.filled := by
    cases extra with
    | none => rfl
    | some e => exact congrArg some (fills e)
  have layout : (extra.map Extra.filled).isSome = extra.isSome := Option.isSome_map
  have code : restrictCode (readExtra integer "Result-code" (extra.map (·.resultCode))).1.filled = _ :=
    Slot.restrict_filled (text_ne_of_readExtra _) _ _ _
  have offset : restrictNatural "Offset" (readExtra long "Offset" (extra.map (·.offset))).1.filled = _ :=
    Slot.restrict_filled (text_ne_of_readExtra _) _ _ _
  have last : restrictNatural "Archive-length" (long.readSlot "Archive-length" false length).1.filled = _ :=
    Slot.restrict_filled (text_ne_of_readSlot length) _ _ _
  rw [ofFields_eq, ofFields_eq]
  simp only [namedFindings, readSlot_filled, readMediaType_filled, readExtra_filled, scheme, layout, code, offset, last,
    picked (·.resultCode) fun _ => rfl, picked (·.checksum) fun _ => rfl, picked (·.location) fun _ => rfl,
    picked (·.offset) fun _ => rfl, picked (·.filename) fun _ => rfl]
  rfl

end OfFields

/-! ## Lines -/

variable {line : String} {header : RecordHeader} {errors : List Finding}

/-- The line with a placeholder in every empty field. -/
def filledLine (line : String) : String := " ".intercalate ((parts line).map ArcFile.filled)

theorem texts_eq_of_parse? (h : parse? line = some (header, errors)) :
    header.texts = (parts line).map ArcFile.filled := by
  rw [texts_eq, rawTexts_of_parse? h, List.map_map]
  rfl

theorem render_eq_of_parse? (h : parse? line = some (header, errors)) : header.render = filledLine line ++ "\n" := by
  rw [render_eq, RecordHeader.line, texts_eq_of_parse? h, filledLine]

theorem parts_filledLine (h : parse? line = some (header, errors)) :
    parts (filledLine line) = (parts line).map ArcFile.filled := by
  have nonempty : header.texts ≠ [] := by
    intro none
    have length := header.length_texts
    rw [none] at length
    exact header.layout.fieldCount_ne_zero length.symm
  have cut := parts_intercalate nonempty (spaceless_of_parse? h)
  rwa [texts_eq_of_parse? h] at cut

theorem parse?_filledLine (h : parse? line = some (header, errors)) : parse? (filledLine line) =
    some (header.filled ((Bytes.ofString (filledLine line)).length + 1), errors) := by
  obtain ⟨size, url, address, date, mediaType, extra, length, same, cut⟩ := ofFields_of_parse? h
  have cut' : parts (filledLine line) =
      [ArcFile.filled url, ArcFile.filled address, ArcFile.filled date, ArcFile.filled mediaType] ++
        ((extra.map Extra.filled).elim [] fun e => [e.resultCode, e.checksum, e.location, e.offset, e.filename]) ++
        [ArcFile.filled length] := by
    rw [parts_filledLine h, cut]
    cases extra <;> rfl
  rw [parse?_of_parts cut', ofFields_filled size, ← same]

/-- Both say the same. Their texts may differ where one has a placeholder and the other has nothing. -/
structure AgreesWith (again header : RecordHeader) : Prop where
  url : again.url.value = header.url.value
  address : again.address.value = header.address.value
  date : again.date.value = header.date.value
  mediaType : again.mediaType.value = header.mediaType.value
  resultCode : again.resultCode.value = header.resultCode.value
  checksum : again.checksum.value = header.checksum.value
  location : again.location.value = header.location.value
  offset : again.offset.value = header.offset.value
  filename : again.filename.value = header.filename.value
  length : again.length.value = header.length.value
  scheme : again.scheme = header.scheme
  layout : again.layout = header.layout
  texts : again.rawTexts = header.rawTexts.map (Option.map ArcFile.filled)

theorem rawTexts_filled (header : RecordHeader) (size : Nat) :
    (header.filled size).rawTexts = header.rawTexts.map (Option.map ArcFile.filled) := by
  unfold rawTexts
  cases layout : header.layout <;> simp [filled, Slot.filled, layout]

theorem agreesWith_filled (header : RecordHeader) (size : Nat) : (header.filled size).AgreesWith header := by
  refine ⟨rfl, rfl, rfl, rfl, rfl, rfl, rfl, rfl, rfl, rfl, rfl, rfl, rawTexts_filled header size⟩

theorem render_filled (header : RecordHeader) (size : Nat) : (header.filled size).render = header.render := by
  have twice : asWritten ∘ Option.map ArcFile.filled = asWritten := by
    funext text
    cases text with
    | none => rfl
    | some text =>
      change (if ArcFile.filled text = "" then "-" else ArcFile.filled text) = ArcFile.filled text
      unfold ArcFile.filled
      split
      · rfl
      · rfl
  rw [render_eq, render_eq, RecordHeader.line, RecordHeader.line, texts_eq, texts_eq, rawTexts_filled, List.map_map,
    twice]

/-- A header is written as the line it was read from, with a placeholder in every empty field; and that line is read as
the same header, with the same findings. -/
theorem parse?_of_render (h : parse? line = some (header, errors)) :
    header.render = filledLine line ++ "\n" ∧
    ∃ again, parse? (filledLine line) = some (again, errors) ∧ again.AgreesWith header ∧
      again.render = header.render :=
  ⟨render_eq_of_parse? h, _, parse?_filledLine h, agreesWith_filled header _, render_filled header _⟩

/-- Ten fields of which three are empty, one has a placeholder and four are wrong. -/
theorem parse?_of_render_tenFields :
    ∃ header errors, parse? "http://x/ 1.2.3  no-type 42  - -5  abc" = some (header, errors) ∧
      header.render = "http://x/ 1.2.3 - no-type 42 - - -5 - abc\n" ∧
      ∃ again, parse? "http://x/ 1.2.3 - no-type 42 - - -5 - abc" = some (again, errors) ∧ again.AgreesWith header ∧
        again.render = header.render := by
  have isHeader : (parse? "http://x/ 1.2.3  no-type 42  - -5  abc").isSome := by decide +kernel
  obtain ⟨⟨header, errors⟩, parsed⟩ := Option.isSome_iff_exists.1 isHeader
  have dashes : filledLine "http://x/ 1.2.3  no-type 42  - -5  abc" = "http://x/ 1.2.3 - no-type 42 - - -5 - abc" := by
    decide +kernel
  have again := parse?_of_render parsed
  rw [dashes] at again
  exact ⟨header, errors, parsed, again⟩

end RecordHeader
end ArcFile
