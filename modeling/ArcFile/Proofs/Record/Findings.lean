import ArcFile.Proofs.Http.Head
import ArcFile.Proofs.Record.Fields
import ArcFile.Proofs.Record.Opening
/-!
What the findings about a record's own text are like. None of them is about where the record ends or about what stands
around it.
-/
namespace ArcFile

namespace Finding

def framingSubjects : List String := ["ARC record", "payload", "trailing newlines", "gzip member"]

/-- What the findings are about that tell how a record follows those before it. -/
def sequenceSubjects : List String := ["version block", "record field version"]

theorem valueOf_not_mem (field : String) : valueOf field ∉ framingSubjects ++ sequenceSubjects := by
  intro among
  have first : (valueOf field).toList.head? = some '\'' := by simp [valueOf]
  simp only [framingSubjects, sequenceSubjects, List.cons_append, List.nil_append, List.mem_cons, List.not_mem_nil,
    or_false] at among
  rcases among with is | is | is | is | is | is
  all_goals
    rw [is] at first
    exact absurd first (by decide)

/-- The finding is about none of these, nor that there is data where none should be. -/
structure IsOfContent (f : Finding) : Prop where
  subject : f.subject ∉ framingSubjects
  place : f.subject ∉ sequenceSubjects
  kind : f.kind ≠ .undesired

theorem IsOfContent.of {kind : Kind} {subject : String} {details : List String}
    (other : subject ∉ framingSubjects ++ sequenceSubjects) (desired : kind ≠ .undesired) :
    IsOfContent ⟨kind, subject, details⟩ :=
  ⟨fun among => other (List.mem_append_left _ among), fun among => other (List.mem_append_right _ among), desired⟩

theorem IsOfContent.ofValue {f : Finding} {field : String} (subject : f.subject = valueOf field)
    (kind : f.kind ≠ .undesired) : f.IsOfContent := .of (subject ▸ valueOf_not_mem field) kind

theorem isOfContent_wrongValue (field text expected : String) : (wrongValue field text expected).IsOfContent :=
  .ofValue rfl (by simp [wrongValue])

end Finding

/-- What is wrong with a header line is about what it says. -/
theorem RecordHeader.isOfContent_ofLine? {line : Bytes} {start size : Nat} {header : RecordHeader}
    {findings : Findings} (h : ofLine? line start size = some (header, findings)) :
    findings.All Finding.IsOfContent := by
  obtain ⟨found, errors, parsed, -, isErrors, isWarnings⟩ := parse?_of_ofLine? h
  intro finding among
  rcases List.mem_append.1 among with error | warning
  · obtain ⟨field, subject, kind⟩ := subject_of_parse? parsed (isErrors ▸ error)
    exact .ofValue subject kind
  · rw [isWarnings finding warning]
    exact .of (by decide) (by decide)

namespace VersionLines

theorem isOfContent_headerFindings {header : RecordHeader} {f : Finding} (among : f ∈ headerFindings header) :
    f.IsOfContent := by
  obtain ⟨finding, each, is⟩ := List.mem_filterMap.1 among
  obtain rfl : finding = some f := is
  simp only [List.mem_cons, List.not_mem_nil, or_false] at each
  rcases each with is | is
  · obtain ⟨url, -, found⟩ := Option.bind_eq_some_iff.1 is.symm
    split at found
    · cases found
    · cases found
      exact Finding.isOfContent_wrongValue _ _ _
  · obtain ⟨text, -, found⟩ := Option.bind_eq_some_iff.1 is.symm
    obtain ⟨media, -, found⟩ := Option.bind_eq_some_iff.1 found
    split at found
    · cases found
    · cases found
      exact Finding.isOfContent_wrongValue _ _ _

theorem isOfContent_readFirst {line : String} {f : Finding} (among : f ∈ (readFirst line).2) :
    f.IsOfContent := by
  obtain ⟨finding, each, is⟩ := List.mem_filterMap.1 among
  obtain rfl : finding = some f := is
  simp only [List.mem_cons, List.not_mem_nil, or_false] at each
  have ofValue {finding : Option Finding} (h : RecordHeader.IsOfValue finding) (is : some f = finding) :
      f.IsOfContent := by
    obtain ⟨field, subject, kind⟩ := h f is.symm
    exact .ofValue subject kind
  rcases each with is | is | is | is | is
  · split at is
    · cases is
    · cases is
      exact .of (by decide) (by decide)
  · exact ofValue (RecordHeader.isOfValue_of_names (RecordHeader.integer.names_readSlot _ _ _)) is
  · exact ofValue (RecordHeader.isOfValue_of_names (RecordHeader.integer.names_readSlot _ _ _)) is
  · exact ofValue (RecordHeader.isOfValue_of_names (ValueKind.text.names_readSlot _ _ _)) is
  · split at is
    · split at is
      · cases is
      · cases is
        exact .of (by decide) (by decide)
    · cases is

theorem isOfContent_readSecond {lines : VersionLines} {line : String} {f : Finding}
    (among : f ∈ (readSecond lines line).2) : f.IsOfContent := by
  unfold readSecond at among
  split at among
  · obtain rfl : f = _ := List.mem_singleton.1 among
    exact .of (by decide) (by decide)
  · dsimp only at among
    split at among
    · split at among
      · cases among
      · obtain rfl : f = _ := List.mem_singleton.1 among
        exact .of (by decide) (by decide)
    · cases among

theorem isOfContent_ofContent {content : Bytes} {f : Finding} (among : f ∈ (ofContent content).1) :
    f.IsOfContent := by
  unfold ofContent at among
  split at among
  · obtain rfl : f = _ := List.mem_singleton.1 among
    exact .of (by decide) (by decide)
  · dsimp only at among
    split at among
    · rcases List.mem_append.1 among with first | last
      · exact isOfContent_readFirst first
      · obtain rfl : f = _ := List.mem_singleton.1 last
        exact .of (by decide) (by decide)
    · rcases List.mem_append.1 among with first | last
      · exact isOfContent_readFirst first
      · exact isOfContent_readSecond last

end VersionLines

/-- The warnings of an HTTP header are about its lines. -/
theorem Http.Head.isOfContent_ofContent {limit declared : Nat} {content : Bytes} {head : Head} {f : Finding}
    (found : ofContent limit declared content = some head) (among : f ∈ head.fields.warnings) : f.IsOfContent := by
  obtain ⟨line, -, rfl⟩ := (ofContent_iff.1 found).mem_warnings among
  exact .of (by decide) (by decide)

end ArcFile
