import ArcFile.Proofs.Record.OneLine
import ArcFile.Proofs.Record.Opening
/-!
Header lines and version lines that are written and read again. No field of a header line holds a space, so the line is
cut where it was put together, and what is read from it has the texts that were written. The lines of a version are read
as that version, whoever made the file and whatever follows them.
-/
namespace ArcFile

open Text

namespace Text

variable {sep : Char} {text : List Char} {n : Nat}

theorem not_mem_of_mem_pieces {piece : List Char} (among : piece ∈ pieces sep text) : sep ∉ piece := by
  induction text generalizing piece with
  | nil =>
    obtain rfl := List.mem_singleton.1 among
    exact List.not_mem_nil
  | cons c rest ih =>
    unfold pieces at among
    split at among
    · rcases List.mem_cons.1 among with rfl | later
      · exact List.not_mem_nil
      · exact ih later
    · next other =>
      split at among
      · obtain rfl := List.mem_singleton.1 among
        exact fun same => other (List.mem_singleton.1 same).symm
      · next first more found =>
        rcases List.mem_cons.1 among with rfl | later
        · have none := ih (found ▸ List.mem_cons_self)
          exact fun same => (List.mem_cons.1 same).elim (fun is => other is.symm) none
        · exact ih (found ▸ List.mem_cons_of_mem _ later)

theorem isDigit_of_mem_toString {c : Char} (among : c ∈ (toString n).toList) : c.isDigit = true := by
  rw [Nat.toString_eq_ofList_toDigits, String.toList_ofList] at among
  exact Decimal.isDigit_of_mem_toDigits among

theorem toString_ne_empty (n : Nat) : toString n ≠ "" := by
  intro is
  have none := congrArg String.toList is
  rw [Nat.toString_eq_ofList_toDigits, String.toList_ofList] at none
  exact Nat.toDigits_ne_nil none

end Text

namespace Layout

/-- The number of fields of a header line. -/
def fieldCount : Layout → Nat
  | .v1 => 5
  | .v2 => 10

theorem fieldCount_inj {layout other : Layout} (same : layout.fieldCount = other.fieldCount) : layout = other := by
  cases layout <;> cases other <;> first | rfl | cases same

theorem fieldCount_ne_zero (layout : Layout) : layout.fieldCount ≠ 0 := by
  cases layout <;> decide

theorem isLine_description (layout : Layout) : IsLine layout.description := by
  cases layout <;> decide

theorem getLast?_description_ne (layout : Layout) : layout.description.toList.getLast? ≠ some '\r' := by
  cases layout <;> decide

theorem ofDescription?_description (layout : Layout) : ofDescription? layout.description = some layout := by
  cases layout <;> rfl

end Layout

namespace RecordHeader

variable {original : String} {header : RecordHeader} {errors : List Finding} {lo hi : Int} {n : Nat}

/-- A number that is written is read as that number, if it is in range. -/
theorem readSlot_toString (least : lo ≤ n) (most : (n : Int) ≤ hi) (name : String) (optional : Bool) :
    (integerKind lo hi).readSlot name optional (toString n) = (⟨some (toString n), some (n : Int)⟩, none) := by
  have noDash : toString n ≠ "-" := by
    intro is
    have digit : '-'.isDigit = true := isDigit_of_mem_toString (is ▸ List.mem_cons_self : '-' ∈ (toString n).toList)
    cases digit
  have parsed : (integerKind lo hi).parse? (toString n) = some (n : Int) := Decimal.readInt?_toString least most
  rw [ValueKind.readSlot_of_given (given?_of_ne (toString_ne_empty n) noDash), parsed]
  rfl

/-- The text that is written for a field. -/
def asWritten : Option String → String
  | none => "-"
  | some text => if text = "" then "-" else text

theorem texts_eq (header : RecordHeader) : header.texts = header.rawTexts.map asWritten := by
  have each {α : Type} (slot : Slot α) : slot.written = asWritten slot.text := by
    rw [Slot.written]
    cases slot.text <;> rfl
  unfold texts rawTexts
  cases header.layout <;> simp only [each, List.map_append, List.map_cons, List.map_nil]

theorem length_texts (header : RecordHeader) : header.texts.length = header.layout.fieldCount := by
  unfold texts
  cases header.layout <;> rfl

/-- What is true of all texts is true of them with another length, if it is true of that. -/
theorem all_texts_length {p : String → Prop} (all : ∀ text ∈ header.texts, p text) (own : p (toString n)) :
    ∀ text ∈ ({ header with length := ⟨some (toString n), some n⟩ } : RecordHeader).texts, p text := by
  intro text among
  rcases List.mem_append.1 among with other | last
  · exact all text (List.mem_append_left _ other)
  · obtain rfl := List.mem_singleton.1 last
    change p (if toString n = "" then "-" else toString n)
    rwa [if_neg (toString_ne_empty n)]

/-- The line that is written for a header, without its terminator. -/
def line (header : RecordHeader) : String := " ".intercalate header.texts

theorem render_eq (header : RecordHeader) : header.render = header.line ++ "\n" := rfl

/-- The parts that a line is put together from are its parts, unless there are spaces in them. -/
theorem parts_intercalate {texts : List String} (some : texts ≠ [])
    (spaceless : ∀ text ∈ texts, ' ' ∉ text.toList) : parts (" ".intercalate texts) = texts := by
  induction texts with
  | nil => exact absurd rfl some
  | cons text more ih =>
    have none := spaceless text List.mem_cons_self
    cases more with
    | nil => simp [parts, pieces_of_not_mem none]
    | cons other more =>
      have later := ih (List.cons_ne_nil _ _) fun text' among => spaceless text' (List.mem_cons_of_mem _ among)
      have cut : (" ".intercalate (text :: other :: more)).toList =
          text.toList ++ ' ' :: (" ".intercalate (other :: more)).toList := by
        rw [String.intercalate_cons_cons, String.toList_append, String.toList_append, List.append_assoc]
        rfl
      rw [parts] at later ⊢
      rw [cut, pieces_append, pieces_of_not_mem none, List.map_append, later, List.map_singleton, String.ofList_toList]
      rfl

/-- A header line is read with the texts it was written with. -/
theorem parse?_line (spaceless : ∀ text ∈ header.texts, ' ' ∉ text.toList) :
    ∃ found errors, parse? header.line = some (found, errors) ∧ found.rawTexts = header.texts.map some ∧
      found.layout = header.layout := by
  have length := header.length_texts
  have nonempty : header.texts ≠ [] := by
    intro none
    rw [none] at length
    exact header.layout.fieldCount_ne_zero length.symm
  have cut := parts_intercalate nonempty spaceless
  have isLine : (parse? header.line).isSome = true := by
    rw [isSome_parse?, line, cut, length]
    cases header.layout with
    | v1 => exact .inl rfl
    | v2 => exact .inr rfl
  obtain ⟨⟨found, errors⟩, parsed⟩ := Option.isSome_iff_exists.1 isLine
  have raw := rawTexts_of_parse? parsed
  rw [line, cut] at raw
  refine ⟨found, errors, parsed, raw, Layout.fieldCount_inj ?_⟩
  rw [← length_texts, ← length_texts, texts_eq found, List.length_map, raw, List.length_map]

/-- The fields of a header that has been read hold no space. -/
theorem spaceless_of_parse? (h : parse? original = some (header, errors)) :
    ∀ text ∈ header.texts, ' ' ∉ text.toList := by
  rw [texts_eq, rawTexts_of_parse? h, List.map_map]
  intro text among
  obtain ⟨part, isPart, rfl⟩ := List.mem_map.1 among
  obtain ⟨piece, isPiece, rfl⟩ := List.mem_map.1 isPart
  simp only [Function.comp_apply, asWritten]
  split
  · decide
  · rw [String.toList_ofList]
    exact not_mem_of_mem_pieces isPiece

theorem isLine_texts (h : header.IsOneLine) : ∀ text ∈ header.texts, IsLine text := by
  rw [texts_eq]
  intro text among
  obtain ⟨raw, isRaw, rfl⟩ := List.mem_map.1 among
  cases raw with
  | none => decide
  | some text =>
    rw [asWritten]
    split
    · decide
    · exact h text isRaw

theorem scheme_of_parse? (h : parse? original = some (header, errors)) :
    header.scheme = header.url.text.bind Url.schemeOf? := by
  obtain ⟨size, url, address, date, mediaType, extra, length, same, -⟩ := ofFields_of_parse? h
  obtain rfl : header = (ofFields size url address date mediaType extra length).1 := congrArg Prod.fst same
  rfl

/-- The first and the last of the texts. -/
theorem text_of_rawTexts {found : RecordHeader} (raw : found.rawTexts = header.texts.map some) :
    found.url.text = some header.url.written ∧ found.length.text = some header.length.written := by
  have last := congrArg List.getLast? raw
  rw [rawTexts, texts, List.map_append, List.map_singleton, List.getLast?_concat, List.getLast?_concat] at last
  exact ⟨Option.some.inj (congrArg List.head? raw), Option.some.inj last⟩

/-- A URL that is read again names the same scheme. -/
theorem scheme_of_text {found : RecordHeader} {again : String} {errors' : List Finding}
    (h : parse? original = some (header, errors)) (h' : parse? again = some (found, errors'))
    (same : found.url.text = some header.url.written) (some : header.scheme.isSome) : found.scheme = header.scheme := by
  have scheme := scheme_of_parse? h
  rw [scheme_of_parse? h', same]
  cases text : header.url.text with
  | none =>
    rw [scheme, text] at some
    cases some
  | some url =>
    rw [text] at scheme
    have nonempty : url ≠ "" := by
      rintro rfl
      rw [scheme] at some
      revert some
      decide
    rw [scheme, Slot.written, text]
    simp only [if_neg nonempty]

/-- A length that is written is read as that length. -/
theorem length_of_text (h : parse? original = some (header, errors)) (text : header.length.text = some (toString n))
    (most : n ≤ 0x7fffffffffffffff) : header.length = ⟨some (toString n), some n⟩ := by
  obtain ⟨size, url, address, date, mediaType, extra, length, same, -⟩ := ofFields_of_parse? h
  obtain rfl : header = (ofFields size url address date mediaType extra length).1 := congrArg Prod.fst same
  have own : (ofFields size url address date mediaType extra length).1.length =
      (restrictNatural "Archive-length" (long.readSlot "Archive-length" false length).1).1 := rfl
  rw [own] at text ⊢
  rw [restrictNatural, Slot.text_restrict] at text
  obtain rfl : length = toString n := Option.some.inj text
  have read : long.readSlot "Archive-length" false (toString n) = (⟨some (toString n), some (n : Int)⟩, none) :=
    readSlot_toString (by omega) (by omega) _ _
  have natural : decide (0 ≤ (n : Int)) = true := decide_eq_true (Int.natCast_nonneg n)
  simp only [read, restrictNatural, Slot.restrict, natural, ↓reduceIte]

/-- A header that is written with another length is read again with its own fields and that length. -/
theorem parse?_again (h : parse? original = some (header, errors)) (most : n ≤ 0x7fffffffffffffff) :
    let written : RecordHeader := { header with length := ⟨some (toString n), some n⟩ }
    ∃ found errors', parse? written.line = some (found, errors') ∧ found.rawTexts = written.texts.map some ∧
      found.layout = header.layout ∧ found.length = ⟨some (toString n), some n⟩ ∧
      (header.scheme.isSome → found.scheme = header.scheme) := by
  intro written
  have noSpace : ' ' ∉ (toString n).toList := by
    intro among
    have digit := isDigit_of_mem_toString among
    cases digit
  obtain ⟨found, errors', again, raw, layout⟩ :=
    parse?_line (all_texts_length (spaceless_of_parse? h) noSpace)
  obtain ⟨url, last⟩ := text_of_rawTexts raw
  have text : found.length.text = some (toString n) := last.trans (congrArg some (if_neg (toString_ne_empty n)))
  exact ⟨found, errors', again, raw, layout, length_of_text again text most, scheme_of_text h again url⟩

end RecordHeader

namespace VersionLines

variable {origin : String}

/-- The first line for a version. -/
def firstLine (version : FormatVersion) (origin : String) : String :=
  toString version.major ++ " " ++ toString version.minor ++ " " ++ origin

theorem render_ofVersion (version : FormatVersion) (origin : String) : (ofVersion version origin).render =
    firstLine version origin ++ "\n" ++ version.layout.description ++ "\n" := rfl

/-- Only the first two spaces part the line; there may be others in the name. -/
theorem parts_firstLine (version : FormatVersion) (origin : String) :
    parts (firstLine version origin) = [toString version.major, toString version.minor, origin] := by
  have noSpace : ' ' ∉ (toString version.major).toList ∧ ' ' ∉ (toString version.minor).toList := by
    cases version <;> decide
  have cut : (firstLine version origin).toList =
      (toString version.major).toList ++ ' ' :: ((toString version.minor).toList ++ ' ' :: origin.toList) := by
    simp [firstLine]
  simp only [parts, cut, cut?_append noSpace.1, cut?_append noSpace.2, String.ofList_toList]

theorem readFirst_firstLine (version : FormatVersion) (some : origin ≠ "") (other : origin ≠ "-") :
    readFirst (firstLine version origin) = ({ blank with
      number := ⟨toString version.major, version.major⟩
      reserved := ⟨toString version.minor, version.minor⟩
      origin := ⟨origin, origin⟩
      version := version }, []) := by
  have number : RecordHeader.integer.readSlot "version-number" false (toString version.major) =
      (⟨toString version.major, version.major⟩, none) := by
    cases version <;> exact RecordHeader.readSlot_toString (by decide) (by decide) _ _
  have reserved : RecordHeader.integer.readSlot "reserved" false (toString version.minor) =
      (⟨toString version.minor, version.minor⟩, none) := by
    cases version <;> exact RecordHeader.readSlot_toString (by decide) (by decide) _ _
  have named : ValueKind.text.readSlot "origin-code" false origin = (⟨origin, origin⟩, none) := by
    rw [ValueKind.readSlot_of_given (given?_of_ne some other)]
    rfl
  simp only [readFirst, parts_firstLine, List.getD_cons_zero, List.getD_cons_succ, number, reserved, named,
    FormatVersion.ofNumbers?_major_minor]
  rfl

theorem isLine_firstLine (version : FormatVersion) (isLine : IsLine origin) : IsLine (firstLine version origin) := by
  have space : IsLine " " := by decide
  have number := isLine_append (isLine_int version.major) space
  exact isLine_append (isLine_append (isLine_append number (isLine_int version.minor)) space) isLine

/-- The first line ends as the name of the maker does. -/
theorem getLast?_firstLine (version : FormatVersion) (some : origin ≠ "") :
    (firstLine version origin).toList.getLast? = origin.toList.getLast? := by
  have nonempty : origin.toList ≠ [] := fun none => some (String.toList_eq_nil_iff.1 none)
  rw [firstLine, String.toList_append, List.getLast?_append, List.getLast?_eq_some_getLast nonempty]
  rfl

/-- The bytes of the lines, and what stands behind them. -/
theorem ofString_render (version : FormatVersion) (origin : String) (content : Bytes) :
    Bytes.ofString (ofVersion version origin).render ++ content =
      Bytes.ofString (firstLine version origin) ++ Bytes.lineFeed ::
        (Bytes.ofString version.layout.description ++ Bytes.lineFeed :: content) := by
  have feed : Bytes.ofString "\n" = [Bytes.lineFeed] := rfl
  simp [render_ofVersion, Bytes.ofString_append, feed]

theorem size_eq_length (version : FormatVersion) (origin : String) :
    (ofVersion version origin).size = (Bytes.ofString (ofVersion version origin).render).length := by
  simp only [ofVersion, render]

theorem size_ofVersion (version : FormatVersion) (origin : String) : (ofVersion version origin).size =
    (Bytes.ofString (firstLine version origin)).length + 1 +
      ((Bytes.ofString version.layout.description).length + 1) := by
  have whole := congrArg List.length (ofString_render version origin [])
  simp only [List.append_nil, List.length_append, List.length_cons, List.length_nil] at whole
  rw [size_eq_length]
  omega

/-- The lines of a version are read as they were written, whatever stands behind them. -/
theorem ofContent_ofVersion (version : FormatVersion) (some : origin ≠ "") (other : origin ≠ "-")
    (isLine : IsLine origin) (noReturn : origin.toList.getLast? ≠ Option.some '\r') (content : Bytes) :
    ofContent (Bytes.ofString (ofVersion version origin).render ++ content) = ([], ofVersion version origin) := by
  have firstFeed := Bytes.lineFeed_not_mem_ofString (isLine_firstLine version isLine)
  have firstReturn : (firstLine version origin).toList.getLast? ≠ Option.some '\r' := by
    rwa [getLast?_firstLine version some]
  have secondFeed := Bytes.lineFeed_not_mem_ofString version.layout.isLine_description
  have secondReturn := version.layout.getLast?_description_ne
  have nonempty (line rest : Bytes) : line ++ Bytes.lineFeed :: rest ≠ [] := by simp
  have behind (line rest : Bytes) : (line ++ Bytes.lineFeed :: rest).drop (line.length + 1) = rest := by
    rw [← List.drop_drop, List.drop_left]
    rfl
  rw [ofContent, ofString_render, if_neg (nonempty _ _), Bytes.firstLine_append _ firstFeed,
    Bytes.lineSize_append _ firstFeed, Bytes.dropReturn_ofString firstReturn, Utf8.decodeLossy_ofString,
    readFirst_firstLine version some other, behind]
  simp only [nonempty, ↓reduceIte, Bytes.firstLine_append _ secondFeed, Bytes.lineSize_append _ secondFeed,
    Bytes.dropReturn_ofString secondReturn, Utf8.decodeLossy_ofString, readSecond, Layout.ofDescription?_description,
    List.append_nil, ← size_ofVersion]
  rfl

end VersionLines

end ArcFile
