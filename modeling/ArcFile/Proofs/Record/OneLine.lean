import ArcFile.Archive.Scanner
import ArcFile.Proofs.Finding
import ArcFile.Proofs.Http.Head
import ArcFile.Proofs.Record.Fields
import ArcFile.Proofs.Text.Lines
/-!
Findings fit on one line. Whatever a finding quotes was taken from one line of the data, so none of those that reading a
header line, the version lines or an HTTP header gives has a line break in it, wherever the bytes come from.
-/
namespace ArcFile

open Text

namespace Finding

/-- There is no line break in the subject, nor in any of the details. -/
structure IsOneLine (f : Finding) : Prop where
  subject : IsLine f.subject
  details : ∀ detail ∈ f.details, IsLine detail

instance (f : Finding) : Decidable f.IsOneLine :=
  decidable_of_iff (IsLine f.subject ∧ ∀ detail ∈ f.details, IsLine detail)
    ⟨fun h => ⟨h.1, h.2⟩, fun h => ⟨h.subject, h.details⟩⟩

theorem IsOneLine.render {f : Finding} (h : f.IsOneLine) : IsLine f.render := by
  have words : IsLine f.kind.words := by cases f.kind <;> decide
  have front := isLine_append (isLine_append words (by decide : IsLine ": ")) h.subject
  unfold Finding.render
  split
  · exact isLine_append front (by decide)
  · have details := isLine_intercalate (by decide : IsLine ", ") h.details
    exact isLine_append front (isLine_append (isLine_append (by decide) details) (by decide))

/-- A finding that quotes some texts. -/
theorem IsOneLine.of {kind : Kind} {subject : String} {details : List String} (h : IsLine subject)
    (all : ∀ detail ∈ details, IsLine detail) : IsOneLine ⟨kind, subject, details⟩ := ⟨h, all⟩

variable {text field expected : String}

theorem isLine_valueOf (h : IsLine field) : IsLine (valueOf field) :=
  isLine_append (isLine_append (by decide) h) (by decide)

theorem isOneLine_missingValue (h : IsLine field) : (missingValue field).IsOneLine :=
  ⟨isLine_valueOf h, fun detail among => by cases among⟩

theorem isOneLine_wrongValue (h : IsLine field) (quoted : IsLine text) (wanted : IsLine expected) :
    (wrongValue field text expected).IsOneLine := by
  refine ⟨isLine_valueOf h, fun detail among => ?_⟩
  simp only [wrongValue, List.mem_cons, List.not_mem_nil, or_false] at among
  rcases among with rfl | rfl
  · exact quoted
  · exact wanted

end Finding

namespace RecordHeader

/-- The finding, if there is one, fits on one line. -/
def IsShort (finding : Option Finding) : Prop := ∀ f, finding = some f → f.IsOneLine

section Values

variable {α : Type} {kind : ValueKind α} {name expected : String}

theorem isShort_read (h : IsLine name) (wanted : IsLine kind.expected) {text : Option String} {optional : Bool}
    (quoted : ∀ t, text = some t → IsLine t) : IsShort (kind.read name optional text).2 := by
  intro f is
  unfold ValueKind.read at is
  split at is
  · cases optional with
    | true => cases is
    | false =>
      cases is
      exact Finding.isOneLine_missingValue h
  · next text given =>
    split at is
    · cases is
    · cases is
      exact Finding.isOneLine_wrongValue h (quoted text (Option.filter_eq_some_iff.1 given).1) wanted

theorem isLine_given? {text text' : String} (h : IsLine text) (given : given? text = some text') : IsLine text' :=
  (eq_of_given? given).1 ▸ h

theorem isShort_readSlot (kind : ValueKind α) (h : IsLine name) (wanted : IsLine kind.expected) {text : String}
    {optional : Bool} (quoted : IsLine text) : IsShort (kind.readSlot name optional text).2 :=
  isShort_read h wanted fun _ => isLine_given? quoted

theorem isShort_readExtra (h : IsLine name) (wanted : IsLine kind.expected) {text : Option String}
    (quoted : ∀ t, text = some t → IsLine t) : IsShort (readExtra kind name text).2 := by
  cases text with
  | none =>
    intro f is
    cases is
  | some text => exact isShort_readSlot kind h wanted (quoted text rfl)

theorem isShort_readMediaType {text : String} (quoted : IsLine text) : IsShort (readMediaType text).2 := by
  unfold readMediaType
  split
  · intro f is
    cases is
  · exact isShort_readSlot _ (by decide) (by decide) quoted

theorem isShort_restrict {slot : Slot α} {permitted : α → Bool} (h : IsLine name) (wanted : IsLine expected)
    (quoted : ∀ t, slot.text = some t → IsLine t) : IsShort (slot.restrict name expected permitted).2 := by
  intro f is
  unfold Slot.restrict at is
  split at is
  · split at is
    · cases is
    · cases is
      refine Finding.isOneLine_wrongValue h ?_ wanted
      cases text : slot.text with
      | none => decide
      | some text' => exact quoted text' text
  · cases is

end Values

section OfFields

variable {size : Nat} {url address date mediaType length : String} {extra : Option Extra}

/-- Whatever is wrong with the fields of a line, no finding is longer than a line. -/
theorem isOneLine_ofFields
    (all : ∀ text, some text ∈ (ofFields size url address date mediaType extra length).1.rawTexts →
    IsLine text) : ∀ f ∈ (ofFields size url address date mediaType extra length).2, f.IsOneLine := by
  rw [rawTexts_ofFields] at all
  have own (text : String) (among : text ∈ [url, address, date, mediaType, length]) : IsLine text := by
    refine all text (List.mem_map_of_mem ?_)
    simp only [List.mem_cons, List.not_mem_nil, or_false] at among
    rcases among with rfl | rfl | rfl | rfl | rfl <;> simp
  have others (pick : Extra → String) (picks : ∀ e : Extra,
      pick e ∈ [e.resultCode, e.checksum, e.location, e.offset, e.filename]) :
      ∀ text, extra.map pick = some text → IsLine text := by
    intro text is
    obtain ⟨e, rfl, rfl⟩ := Option.map_eq_some_iff.1 is
    exact all _ (List.mem_map_of_mem (List.mem_append_left _ (List.mem_append_right _ (picks e))))
  have ofExtra {α : Type} (kind : ValueKind α) (name : String) (pick : Extra → String)
      (picks : ∀ e : Extra, pick e ∈ [e.resultCode, e.checksum, e.location, e.offset, e.filename]) :
      ∀ t, (readExtra kind name (extra.map pick)).1.text = some t → IsLine t := by
    intro t is
    cases is' : extra.map pick with
    | none =>
      rw [is'] at is
      cases is
    | some text =>
      rw [is'] at is
      cases is
      exact others pick picks _ is'
  intro f among
  obtain ⟨finding, each, is⟩ := List.mem_filterMap.1 among
  simp only [List.mem_cons, List.not_mem_nil, or_false] at each
  rcases each with rfl | rfl | rfl | rfl | rfl | rfl | rfl | rfl | rfl | rfl | rfl | rfl | rfl
  · exact isShort_readSlot Url.kind (by decide) (by decide) (own url (by simp)) f is
  · exact isShort_readSlot Address.kind (by decide) (by decide) (own address (by simp)) f is
  · exact isShort_readSlot Timestamp.kind (by decide) (by decide) (own date (by simp)) f is
  · exact isShort_readMediaType (own mediaType (by simp)) f is
  · exact isShort_readExtra (by decide) (by decide) (others (·.resultCode) (by simp)) f is
  · exact isShort_readExtra (by decide) (by decide) (others (·.checksum) (by simp)) f is
  · exact isShort_readExtra (by decide) (by decide) (others (·.location) (by simp)) f is
  · exact isShort_readExtra (by decide) (by decide) (others (·.offset) (by simp)) f is
  · exact isShort_readExtra (by decide) (by decide) (others (·.filename) (by simp)) f is
  · exact isShort_readSlot long (by decide) (by decide) (own length (by simp)) f is
  · exact isShort_restrict (by decide) (by decide) (ofExtra integer _ (·.resultCode) (by simp)) f is
  · exact isShort_restrict (by decide) (by decide) (ofExtra long _ (·.offset) (by simp)) f is
  · have quoted : ∀ t, (long.readSlot "Archive-length" false length).1.text = some t → IsLine t := by
      intro t same
      exact Option.some.inj same ▸ own length (by simp)
    exact isShort_restrict (by decide) (by decide) quoted f is

end OfFields

variable {line : String} {header : RecordHeader} {errors : List Finding} {findings : Findings} {data : Bytes}
  {start size : Nat}

/-- Whatever stands in the fields of the header fits on one line. -/
def IsOneLine (header : RecordHeader) : Prop := ∀ text, some text ∈ header.rawTexts → IsLine text

theorem isOneLine_of_parse? (h : IsLine line) (parsed : parse? line = some (header, errors)) :
    header.IsOneLine ∧ ∀ f ∈ errors, f.IsOneLine := by
  have texts : header.IsOneLine := by
    intro text among
    rw [rawTexts_of_parse? parsed] at among
    obtain ⟨part, isPart, same⟩ := List.mem_map.1 among
    obtain rfl := Option.some.inj same
    obtain ⟨piece, isPiece, rfl⟩ := List.mem_map.1 isPart
    exact isLine_ofList fun among => h (mem_of_mem_pieces isPiece among)
  obtain ⟨size, url, address, date, mediaType, extra, length, same, -⟩ := ofFields_of_parse? parsed
  obtain ⟨rfl, rfl⟩ := Prod.mk.inj same
  exact ⟨texts, isOneLine_ofFields texts⟩

theorem isOneLine_of_ofLine? (none : Bytes.lineFeed ∉ data) (read : ofLine? data start size = some (header, findings)) :
    header.IsOneLine ∧ findings.All Finding.IsOneLine := by
  have line : IsLine (textOf data) := by
    unfold textOf
    cases decoded : Utf8.decode? data with
    | none => exact isLine_latin1 none
    | some text => exact isLine_decode? none decoded
  obtain ⟨found, errors, parsed, rfl, isErrors, isWarnings⟩ := parse?_of_ofLine? read
  obtain ⟨texts, all⟩ := isOneLine_of_parse? line parsed
  refine ⟨texts, fun f among => ?_⟩
  rcases List.mem_append.1 among with error | warning
  · exact all f (isErrors ▸ error)
  · rw [isWarnings f warning]
    refine .of (by decide) fun detail among => ?_
    simp only [List.mem_cons, List.not_mem_nil, or_false] at among
    rcases among with rfl | rfl
    · exact isLine_latin1 none
    · decide

section Search

variable {σ : Type} [Supply σ] {c c' : Cursor σ}

theorem isOneLine_of_search {skipped skipped' : Skipped}
    (found : search skipped c = .ok (skipped', some (header, findings)) c') :
    header.IsOneLine ∧ findings.All Finding.IsOneLine := by
  fun_induction search skipped c with
  | case1 => cases found
  | case2 => cases found
  | case3 _ _ _ _ _ _ _ ih => exact ih found
  | case4 _ _ _ _ line _ _ _ read =>
    cases found
    exact isOneLine_of_ofLine? (Cursor.lineFeed_not_mem_readLine line) read
  | case5 _ _ _ _ _ _ _ _ ih => exact ih found

theorem isOneLine_of_next {header : Option RecordHeader} (found : next c = .ok (header, findings) c') :
    (∀ h, header = some h → h.IsOneLine) ∧ findings.All Finding.IsOneLine := by
  have skips (skipped : Skipped) : Findings.All Finding.IsOneLine ⟨skipped.findings, []⟩ := by
    apply Findings.all_errors
    intro f among
    rcases skipped.mem_findings among with rfl | rfl <;> decide
  unfold next at found
  split at found
  · cases found
  · next skipped _ _ =>
    cases found
    rw [Findings.addErrors_eq, Findings.none_append]
    exact ⟨fun h is => (by cases is), skips skipped⟩
  · next skipped _ _ _ sought =>
    cases found
    obtain ⟨texts, all⟩ := isOneLine_of_search sought
    rw [Findings.addErrors_eq, Findings.none_append]
    exact ⟨fun h is => Option.some.inj is ▸ texts, Findings.all_append (skips skipped) all⟩

end Search

end RecordHeader

namespace VersionLines

variable {line : String} {lines : VersionLines} {f : Finding}

theorem isOneLine_headerFindings {header : RecordHeader} (h : header.IsOneLine)
    (among : f ∈ headerFindings header) : f.IsOneLine := by
  have given {α : Type} {slot : Slot α} {text : String} (is : slot.given = some text)
      (raw : slot.text ∈ header.rawTexts) : IsLine text := by
    obtain ⟨all, there, same⟩ := Option.bind_eq_some_iff.1 is
    exact RecordHeader.isLine_given? (h all (there ▸ raw)) same
  obtain ⟨finding, each, is⟩ := List.mem_filterMap.1 among
  obtain rfl : finding = some f := is
  simp only [List.mem_cons, List.not_mem_nil, or_false] at each
  rcases each with is | is
  · obtain ⟨url, there, found⟩ := Option.bind_eq_some_iff.1 is.symm
    split at found
    · cases found
    · cases found
      exact Finding.isOneLine_wrongValue (by decide) (given there (by simp [RecordHeader.rawTexts])) (by decide)
  · obtain ⟨text, there, found⟩ := Option.bind_eq_some_iff.1 is.symm
    obtain ⟨media, -, found⟩ := Option.bind_eq_some_iff.1 found
    split at found
    · cases found
    · cases found
      exact Finding.isOneLine_wrongValue (by decide) (given there (by simp [RecordHeader.rawTexts])) (by decide)

theorem isLine_parts (h : IsLine line) : ∀ part ∈ parts line, IsLine part := by
  have cut {text first rest : List Char} (none : '\n' ∉ text) (found : cut? ' ' text = some (first, rest)) :
      '\n' ∉ first ∧ '\n' ∉ rest := by
    rw [append_of_cut? found, List.mem_append, List.mem_cons] at none
    exact ⟨fun among => none (.inl among), fun among => none (.inr (.inr among))⟩
  unfold parts
  split
  · intro part among
    exact List.mem_singleton.1 among ▸ h
  · next first rest found =>
    obtain ⟨none, none'⟩ := cut h found
    split
    · intro part among
      simp only [List.mem_cons, List.not_mem_nil, or_false] at among
      rcases among with rfl | rfl
      · exact isLine_ofList none
      · exact isLine_ofList none'
    · next second third found' =>
      obtain ⟨none', none''⟩ := cut none' found'
      intro part among
      simp only [List.mem_cons, List.not_mem_nil, or_false] at among
      rcases among with rfl | rfl | rfl
      · exact isLine_ofList none
      · exact isLine_ofList none'
      · exact isLine_ofList none''

theorem isOneLine_readFirst (h : IsLine line) (among : f ∈ (readFirst line).2) : f.IsOneLine := by
  have part (n : Nat) : IsLine ((parts line).getD n "") := by
    rw [List.getD_eq_getElem?_getD]
    cases found : (parts line)[n]? with
    | none => decide
    | some part => exact isLine_parts h part (List.mem_of_getElem? found)
  obtain ⟨finding, each, is⟩ := List.mem_filterMap.1 among
  obtain rfl : finding = some f := is
  simp only [List.mem_cons, List.not_mem_nil, or_false] at each
  rcases each with is | is | is | is | is
  · split at is
    · cases is
    · cases is
      refine .of (by decide) fun detail among => ?_
      simp only [List.mem_cons, List.not_mem_nil, or_false] at among
      rcases among with rfl | rfl
      · exact h
      · decide
  · exact RecordHeader.isShort_readSlot RecordHeader.integer (by decide) (by decide) (part 0) f is.symm
  · exact RecordHeader.isShort_readSlot RecordHeader.integer (by decide) (by decide) (part 1) f is.symm
  · exact RecordHeader.isShort_readSlot ValueKind.text (by decide) (by decide) (part 2) f is.symm
  · split at is
    · split at is
      · cases is
      · cases is
        refine .of (by decide) fun detail among => ?_
        obtain rfl := List.mem_singleton.1 among
        exact isLine_append (isLine_append (isLine_int _) (by decide)) (isLine_int _)
    · cases is

theorem isOneLine_readSecond (h : IsLine line) (among : f ∈ (readSecond lines line).2) : f.IsOneLine := by
  unfold readSecond at among
  split at among
  · obtain rfl : f = _ := List.mem_singleton.1 among
    exact .of (by decide) fun detail among => by rwa [List.mem_singleton.1 among]
  · dsimp only at among
    split at among
    · next version _ =>
      split at among
      · cases among
      · obtain rfl : f = _ := List.mem_singleton.1 among
        refine .of (by decide) fun detail among => ?_
        simp only [List.mem_cons, List.not_mem_nil, or_false] at among
        rcases among with rfl | rfl
        · exact h
        · cases version.layout <;> decide
    · cases among

/-- What is wrong with the version lines, wherever the content comes from. -/
theorem isOneLine_take {σ : Type} [Supply σ] {c : Cursor σ} (among : f ∈ (take c).1) : f.IsOneLine := by
  have taken {c c' : Cursor σ} {line : String} (found : takeLine c = .ok (some line) c') : IsLine line := by
    unfold takeLine at found
    split at found
    · next data _ read =>
      obtain ⟨is, -⟩ := EStateM.Result.ok.inj found
      obtain ⟨data', rfl, rfl⟩ := Option.map_eq_some_iff.1 is
      exact isLine_decodeLossy (Cursor.lineFeed_not_mem_readLine read)
    · cases found
  unfold take at among
  split at among
  · cases among
  · obtain rfl : f = _ := List.mem_singleton.1 among
    decide
  · next first =>
    dsimp only at among
    split at among
    · exact isOneLine_readFirst (taken first) among
    · rcases List.mem_append.1 among with early | late
      · exact isOneLine_readFirst (taken first) early
      · obtain rfl : f = _ := List.mem_singleton.1 late
        decide
    · next second =>
      rcases List.mem_append.1 among with early | late
      · exact isOneLine_readFirst (taken first) early
      · exact isOneLine_readSecond (taken second) late

end VersionLines

/-- The warnings of an HTTP header, wherever the content comes from. -/
theorem Http.Head.isOneLine_read {σ : Type} [Supply σ] {c c' : Cursor σ} {declared : Nat} {head : Head} {f : Finding}
    (found : read declared c = .ok (some head) c') (among : f ∈ head.fields.warnings) : f.IsOneLine := by
  obtain ⟨_, -, stands⟩ := stands_of_read found
  obtain ⟨line, noFeed, rfl⟩ := stands.mem_warnings among
  refine .of (by decide) fun detail among => ?_
  rw [List.mem_singleton.1 among]
  exact isLine_latin1 noFeed

end ArcFile
