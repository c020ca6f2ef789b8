import ArcFile.Proofs.Record.Fields
import ArcFile.Proofs.Text.Encoding
/-!
What is found wrong with a header line. A field may be missing, or it may have a text that is not what the field should
be: each such field is named by one finding, and nothing else is found. A number may fail for its format or for its
range, but never for both, since a text that is no number has no value to be out of range.
-/
namespace ArcFile

namespace Finding

theorem valueOf_inj {field field' : String} : valueOf field = valueOf field' ↔ field = field' := by
  constructor
  · intro same
    have chars := congrArg String.toList same
    simp only [valueOf, String.toList_append, List.append_cancel_right_eq, List.append_cancel_left_eq] at chars
    exact String.toList_inj.1 chars
  · exact congrArg valueOf

/-- The findings about a field. -/
def about (field : String) (findings : List Finding) : List Finding := findings.filter (·.subject = valueOf field)

/-- If each finding names its field, the findings about a field are those that were made for it. -/
theorem about_filterMap {entries : List (String × Option Finding)} (names : ∀ entry ∈ entries, Names entry.1 entry.2)
    (field : String) :
    about field (entries.filterMap (·.2)) = (entries.filter (·.1 = field)).flatMap (·.2.toList) := by
  induction entries with
  | nil => rfl
  | cons entry rest ih =>
    obtain ⟨name, finding⟩ := entry
    have more := ih fun entry among => names entry (List.mem_cons_of_mem _ among)
    cases finding with
    | none =>
      rw [List.filterMap_cons_none rfl, more, List.filter_cons]
      split
      · rfl
      · rfl
    | some f =>
      have own : List.filterMap (fun entry : String × Option Finding => entry.2) ((name, some f) :: rest) =
          f :: rest.filterMap (·.2) := rfl
      have subject : f.subject = valueOf name := (names _ List.mem_cons_self f rfl).1
      have same : (f.subject = valueOf field) = (name = field) := by rw [subject, valueOf_inj]
      rw [own, about, List.filter_cons, List.filter_cons, ← about, more]
      simp only [same]
      split
      · rfl
      · rfl

end Finding

open Finding (about)

variable {α : Type}

namespace RecordHeader

/-! ## Fields -/

/-- A field of a header line, without its value. -/
structure Field where
  name : String
  optional : Bool
  text : Option String
  hasValue : Bool

namespace Field

def ofSlot (slot : Slot α) (name : String) (optional : Bool) : Field := ⟨name, optional, slot.text, slot.value.isSome⟩

/-- The text, unless it is absent, empty or a placeholder. -/
def given (field : Field) : Option String := field.text.bind given?

/-- There is one text that has no value and is not wrong. -/
def IsExempt (field : Field) : Prop := field.name = "Content-type" ∧ field.text = some noType

def IsMissing (field : Field) : Prop := field.optional = false ∧ field.given = none

def IsWrong (field : Field) : Prop := field.given.isSome ∧ field.hasValue = false ∧ ¬field.IsExempt

/-- These findings are just what there is to say of the field. -/
structure HasFindings (field : Field) (findings : List Finding) : Prop where
  given : field.hasValue → field.given.isSome
  missing : field.IsMissing → findings = [.missingValue field.name]
  wrong : field.IsWrong → ∃ text expected, field.text = some text ∧
    findings = [.wrongValue field.name text expected]
  sound : ¬field.IsMissing → ¬field.IsWrong → findings = []

variable {field : Field} {findings : List Finding}

theorem not_isMissing (present : field.given.isSome) : ¬field.IsMissing := by
  rintro ⟨-, absent⟩
  rw [absent] at present
  cases present

theorem hasFindings_of_absent (absent : field.given = none) (noValue : field.hasValue = false) :
    field.HasFindings (if field.optional then [] else [.missingValue field.name]) where
  given := fun value => absurd (noValue.symm.trans value) Bool.false_ne_true
  missing := fun ⟨needed, _⟩ => if_neg (needed ▸ Bool.false_ne_true)
  wrong := fun ⟨present, _⟩ => by rw [absent] at present; cases present
  sound := fun there _ => if_pos (by simpa [IsMissing, absent] using there)

theorem hasFindings_of_value (present : field.given.isSome) (value : field.hasValue = true) :
    field.HasFindings [] where
  given := fun _ => present
  missing := fun missing => absurd missing (not_isMissing present)
  wrong := fun ⟨_, noValue, _⟩ => absurd (noValue.symm.trans value) Bool.false_ne_true
  sound := fun _ _ => rfl

theorem hasFindings_of_exempt (present : field.given.isSome) (exempt : field.IsExempt) : field.HasFindings [] where
  given := fun _ => present
  missing := fun missing => absurd missing (not_isMissing present)
  wrong := fun ⟨_, _, other⟩ => absurd exempt other
  sound := fun _ _ => rfl

theorem hasFindings_of_wrong {text : String} (wrong : field.IsWrong) (is : field.text = some text) (expected : String) :
    field.HasFindings [.wrongValue field.name text expected] where
  given := fun _ => wrong.1
  missing := fun missing => absurd missing (not_isMissing wrong.1)
  wrong := fun _ => ⟨text, expected, is, rfl⟩
  sound := fun _ other => absurd wrong other

variable {slot : Slot α} {kind : ValueKind α} {name text expected : String} {optional : Bool} {permitted : α → Bool}

theorem hasFindings_readSlot (other : ¬(name = "Content-type" ∧ text = noType)) :
    (ofSlot (kind.readSlot name optional text).1 name optional).HasFindings
      (kind.readSlot name optional text).2.toList := by
  cases h : given? text with
  | none =>
    rw [ValueKind.readSlot_of_absent h]
    have absent : (ofSlot (⟨some text, none⟩ : Slot α) name optional).given = none := h
    have found := hasFindings_of_absent absent rfl
    cases optional with
    | true => exact found
    | false => exact found
  | some given =>
    obtain rfl := (eq_of_given? h).1
    rw [ValueKind.readSlot_of_given h]
    have present : (ofSlot ⟨some given, kind.parse? given⟩ name optional).given.isSome := Option.isSome_of_mem h
    cases parsed : kind.parse? given with
    | some value => exact hasFindings_of_value present rfl
    | none =>
      have wrong : (ofSlot (⟨some given, none⟩ : Slot α) name optional).IsWrong :=
        ⟨present, rfl, fun ⟨is, same⟩ => other ⟨is, Option.some.inj same⟩⟩
      exact hasFindings_of_wrong wrong rfl kind.expected

theorem hasFindings_readMediaType (text : String) :
    (ofSlot (readMediaType text).1 "Content-type" false).HasFindings (readMediaType text).2.toList := by
  unfold readMediaType
  split
  · next is =>
    rw [is]
    exact hasFindings_of_exempt (by decide) ⟨rfl, rfl⟩
  · next other => exact hasFindings_readSlot fun ⟨_, is⟩ => other is

/-- A number that is out of range is wrong now, and nothing was wrong with it before. -/
theorem hasFindings_restrict (read : (ofSlot slot name optional).HasFindings findings)
    (other : name ≠ "Content-type") :
    (ofSlot (slot.restrict name expected permitted).1 name optional).HasFindings
      (findings ++ (slot.restrict name expected permitted).2.toList) := by
  obtain ⟨text, value⟩ := slot
  cases value with
  | none =>
    change (ofSlot ⟨text, none⟩ name optional).HasFindings (findings ++ [])
    rwa [List.append_nil]
  | some value =>
    have present : (ofSlot ⟨text, some value⟩ name optional).given.isSome := read.given rfl
    unfold Slot.restrict
    dsimp only
    split
    · change (ofSlot ⟨text, some value⟩ name optional).HasFindings (findings ++ [])
      rwa [List.append_nil]
    · have nothing : findings = [] := read.sound (not_isMissing present) fun ⟨_, noValue, _⟩ => by cases noValue
      obtain ⟨text, rfl⟩ : ∃ given, text = some given := by
        cases text with
        | none => cases present
        | some given => exact ⟨given, rfl⟩
      have wrong : (ofSlot (⟨some text, none⟩ : Slot α) name optional).IsWrong :=
        ⟨present, rfl, fun ⟨is, _⟩ => other is⟩
      rw [nothing]
      exact hasFindings_of_wrong wrong rfl expected

theorem hasFindings_number (other : name ≠ "Content-type") :
    (ofSlot ((kind.readSlot name optional text).1.restrict name expected permitted).1 name optional).HasFindings
      ((kind.readSlot name optional text).2.toList ++
        ((kind.readSlot name optional text).1.restrict name expected permitted).2.toList) := by
  apply hasFindings_restrict
  · exact hasFindings_readSlot fun ⟨is, _⟩ => other is
  · exact other

end Field

/-- The fields in order, as the layout has them. -/
def fields (header : RecordHeader) : List Field :=
  [.ofSlot header.url "URL" false, .ofSlot header.address "IP-address" false, .ofSlot header.date "Archive-date" false,
    .ofSlot header.mediaType "Content-type" false] ++
    (match header.layout with
      | .v1 => []
      | .v2 => [.ofSlot header.resultCode "Result-code" true, .ofSlot header.checksum "Checksum" true,
          .ofSlot header.location "Location" true, .ofSlot header.offset "Offset" true,
          .ofSlot header.filename "Filename" true]) ++
    [.ofSlot header.length "Archive-length" false]

/-- The fields have the names that version blocks give them. -/
theorem names_fields (header : RecordHeader) :
    " ".intercalate (header.fields.map (·.name)) = header.layout.description := by
  have five : " ".intercalate ["URL", "IP-address", "Archive-date", "Content-type", "Archive-length"] =
      Layout.v1.description := by decide +kernel
  have ten : " ".intercalate ["URL", "IP-address", "Archive-date", "Content-type", "Result-code", "Checksum",
      "Location", "Offset", "Filename", "Archive-length"] = Layout.v2.description := by decide +kernel
  unfold fields
  cases header.layout with
  | v1 => exact five
  | v2 => exact ten

theorem texts_fields (header : RecordHeader) : header.fields.map (·.text) = header.rawTexts := by
  unfold fields rawTexts
  cases header.layout with
  | v1 => rfl
  | v2 => rfl

section OfFields

variable (size : Nat) (url address date mediaType : String) (extra : Option Extra) (length : String)

theorem about_ofFields (field : String) : about field (ofFields size url address date mediaType extra length).2 =
    ((namedFindings url address date mediaType extra length).filter (·.1 = field)).flatMap (·.2.toList) := by
  rw [findings_ofFields, Finding.about_filterMap names_namedFindings]

theorem fields_ofFields : (ofFields size url address date mediaType extra length).1.fields =
    [.ofSlot (Url.kind.readSlot "URL" false url).1 "URL" false,
      .ofSlot (Address.kind.readSlot "IP-address" false address).1 "IP-address" false,
      .ofSlot (Timestamp.kind.readSlot "Archive-date" false date).1 "Archive-date" false,
      .ofSlot (readMediaType mediaType).1 "Content-type" false] ++
    (extra.elim [] fun e =>
      [.ofSlot (restrictCode (integer.readSlot "Result-code" true e.resultCode).1).1 "Result-code" true,
        .ofSlot (ValueKind.text.readSlot "Checksum" true e.checksum).1 "Checksum" true,
        .ofSlot (ValueKind.text.readSlot "Location" true e.location).1 "Location" true,
        .ofSlot (restrictNatural "Offset" (long.readSlot "Offset" true e.offset).1).1 "Offset" true,
        .ofSlot (ValueKind.text.readSlot "Filename" true e.filename).1 "Filename" true]) ++
    [.ofSlot (restrictNatural "Archive-length" (long.readSlot "Archive-length" false length).1).1 "Archive-length"
      false] := by
  rw [ofFields_eq]
  cases extra with
  | none => rfl
  | some e => rfl

theorem hasFindings_ofFields : ∀ field ∈ (ofFields size url address date mediaType extra length).1.fields,
    field.HasFindings (about field.name (ofFields size url address date mediaType extra length).2) := by
  -- a field has the finding of its value alone, or that of its range behind it
  have one {field : Field} {finding : Option Finding} (found : field.HasFindings finding.toList)
      (own : (namedFindings url address date mediaType extra length).filter (·.1 = field.name) =
        [(field.name, finding)]) :
      field.HasFindings (about field.name (ofFields size url address date mediaType extra length).2) := by
    rw [about_ofFields, own]
    simpa using found
  have two {field : Field} {value range : Option Finding} (found : field.HasFindings (value.toList ++ range.toList))
      (own : (namedFindings url address date mediaType extra length).filter (·.1 = field.name) =
        [(field.name, value), (field.name, range)]) :
      field.HasFindings (about field.name (ofFields size url address date mediaType extra length).2) := by
    rw [about_ofFields, own]
    simpa using found
  rw [fields_ofFields]
  simp only [List.forall_mem_append, List.forall_mem_cons, List.not_mem_nil, false_imp_iff, implies_true, and_true]
  refine ⟨⟨⟨one (Field.hasFindings_readSlot (by simp)) rfl, one (Field.hasFindings_readSlot (by simp)) rfl,
    one (Field.hasFindings_readSlot (by simp)) rfl, one (Field.hasFindings_readMediaType mediaType) rfl⟩, ?_⟩,
    two (Field.hasFindings_number (by simp)) rfl⟩
  cases extra with
  | none =>
    intro field among
    cases among
  | some e =>
    simp only [Option.elim_some, List.forall_mem_cons, List.not_mem_nil, false_imp_iff, implies_true, and_true]
    exact ⟨two (Field.hasFindings_number (by simp)) rfl,
      one (Field.hasFindings_readSlot (by simp)) rfl, one (Field.hasFindings_readSlot (by simp)) rfl,
      two (Field.hasFindings_number (by simp)) rfl,
      one (Field.hasFindings_readSlot (by simp)) rfl⟩

/-- Only fields of the layout have findings. -/
theorem isField_of_namedFindings : ∀ entry ∈ namedFindings url address date mediaType extra length, entry.2.isSome →
    ∃ field ∈ (ofFields size url address date mediaType extra length).1.fields, field.name = entry.1 := by
  rw [fields_ofFields]
  cases extra with
  | none => simp [namedFindings, Field.ofSlot, readExtra, restrictCode, restrictNatural, Slot.restrict, Slot.absent]
  | some e => simp [namedFindings, Field.ofSlot]

theorem isField_of_ofFields {f : Finding} (among : f ∈ (ofFields size url address date mediaType extra length).2) :
    ∃ field ∈ (ofFields size url address date mediaType extra length).1.fields,
      f.subject = Finding.valueOf field.name := by
  rw [findings_ofFields] at among
  obtain ⟨entry, named, is⟩ := List.mem_filterMap.1 among
  obtain ⟨field, isField, same⟩ := isField_of_namedFindings size _ _ _ _ _ _ entry named (Option.isSome_of_mem is)
  exact ⟨field, isField, same ▸ (names_namedFindings entry named f is).1⟩

/-- What is left of a number is in its range. -/
theorem resultCode_ofFields {code : Int}
    (h : (ofFields size url address date mediaType extra length).1.resultCode.value = some code) :
    100 ≤ code ∧ code ≤ 999 := by
  have kept : (restrictCode (readExtra integer "Result-code" (extra.map (·.resultCode))).1).1.value = some code := h
  rw [restrictCode, Slot.value_restrict] at kept
  simpa using (Option.filter_eq_some_iff.1 kept).2

theorem natural_of_restrict {slot : Slot Int} {name : String} {n : Int}
    (h : (restrictNatural name slot).1.value = some n) : 0 ≤ n := by
  rw [restrictNatural, Slot.value_restrict] at h
  simpa using (Option.filter_eq_some_iff.1 h).2

end OfFields

/-! ## Lines -/

/-- What is read from a line, and what is found wrong with it. -/
structure IsDiagnosed (line : String) (header : RecordHeader) (errors : List Finding) : Prop where
  names : " ".intercalate (header.fields.map (·.name)) = header.layout.description
  texts : header.fields.map (·.text) = (parts line).map some
  each : ∀ field ∈ header.fields, field.HasFindings (about field.name errors)
  only : ∀ error ∈ errors, ∃ field ∈ header.fields, error.subject = Finding.valueOf field.name
  resultCode : ∀ code, header.resultCode.value = some code → 100 ≤ code ∧ code ≤ 999
  offset : ∀ n, header.offset.value = some n → 0 ≤ n
  length : ∀ n, header.length.value = some n → 0 ≤ n
  declared : (header.declared : Int) = header.length.value.getD 0

variable {line : String} {header : RecordHeader} {errors : List Finding}

theorem isDiagnosed_of_parse? (h : parse? line = some (header, errors)) : IsDiagnosed line header errors := by
  obtain ⟨size, url, address, date, mediaType, extra, length, same, -⟩ := ofFields_of_parse? h
  have texts : header.fields.map (·.text) = (parts line).map some := by
    rw [texts_fields, rawTexts_of_parse? h]
  obtain ⟨isHeader, isErrors⟩ : header = (ofFields size url address date mediaType extra length).1 ∧
      errors = (ofFields size url address date mediaType extra length).2 :=
    ⟨congrArg Prod.fst same, congrArg Prod.snd same⟩
  have natural : ∀ n, header.length.value = some n → 0 ≤ n := by
    intro n is
    rw [isHeader] at is
    exact natural_of_restrict is
  refine ⟨names_fields header, texts, ?_, ?_, ?_, ?_, natural, ?_⟩
  · rw [isHeader, isErrors]
    exact hasFindings_ofFields _ _ _ _ _ _ _
  · rw [isHeader, isErrors]
    exact fun error among => isField_of_ofFields _ _ _ _ _ _ _ among
  · rw [isHeader]
    exact fun code is => resultCode_ofFields _ _ _ _ _ _ _ is
  · rw [isHeader]
    exact fun n is => natural_of_restrict is
  · unfold declared
    cases found : header.length.value with
    | none => rfl
    | some n => exact Int.toNat_of_nonneg (natural n found)

/-- The errors of a line of five or ten parts are one for each field that is missing or wrong, and there is nothing
else to say about it. -/
theorem isDiagnosed_of_parts (length : (parts line).length = 5 ∨ (parts line).length = 10) :
    ∃ header errors, parse? line = some (header, errors) ∧ IsDiagnosed line header errors ∧
      ∀ start size, ofLine? (Bytes.ofString line) start size = some ({ header with start, size }, ⟨errors, []⟩) := by
  obtain ⟨⟨header, errors⟩, parsed⟩ := Option.isSome_iff_exists.1 (isSome_parse?.2 length)
  refine ⟨header, errors, parsed, isDiagnosed_of_parse? parsed, ?_⟩
  intro start size
  simp [ofLine?, Utf8.decode?_ofString, parsed, Findings.none, Findings.addErrors]

/-- One field is missing, one has no value but is exempt, and four are wrong, two of them for their range. -/
theorem isDiagnosed_of_parts_tenFields :
    (parts "http://x/ - 2020 no-type 42 - loc -5  abc").length = 10 ∧
    ∃ header errors, parse? "http://x/ - 2020 no-type 42 - loc -5  abc" = some (header, errors) ∧
      errors = [.missingValue "IP-address", .wrongValue "Archive-date" "2020" "yyyyMMddHHmmss",
        .wrongValue "Archive-length" "abc" "Numeric format",
        .wrongValue "Result-code" "42" "A number between 100 and 999",
        .wrongValue "Offset" "-5" "A non-negative number"] ∧
      IsDiagnosed "http://x/ - 2020 no-type 42 - loc -5  abc" header errors ∧
      ∀ start size, ofLine? (Bytes.ofString "http://x/ - 2020 no-type 42 - loc -5  abc") start size =
        some ({ header with start, size }, ⟨errors, []⟩) := by
  have ten : (parts "http://x/ - 2020 no-type 42 - loc -5  abc").length = 10 := by decide +kernel
  obtain ⟨header, errors, parsed, diagnosed, noWarnings⟩ := isDiagnosed_of_parts (.inr ten)
  have found : (parse? "http://x/ - 2020 no-type 42 - loc -5  abc").map (·.2) =
      some [.missingValue "IP-address", .wrongValue "Archive-date" "2020" "yyyyMMddHHmmss",
        .wrongValue "Archive-length" "abc" "Numeric format",
        .wrongValue "Result-code" "42" "A number between 100 and 999",
        .wrongValue "Offset" "-5" "A non-negative number"] := by decide +kernel
  rw [parsed] at found
  exact ⟨ten, header, errors, parsed, Option.some.inj found, diagnosed, noWarnings⟩

end RecordHeader
end ArcFile
