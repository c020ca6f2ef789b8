import ArcFile.Value.Slot
/-!
What is read of a field. The value is that of the text, if the text is given, is of the kind that is read, and is in
range; and there is a finding just if something stands in the way of a value.
-/
namespace ArcFile

variable {α : Type} {text given : String}

theorem eq_of_given? (h : given? text = some given) : given = text ∧ text ≠ "" ∧ text ≠ "-" := by
  unfold given? at h
  split at h
  · cases h
  · next other =>
    obtain ⟨some, noDash⟩ := not_or.1 other
    exact ⟨(Option.some.inj h).symm, some, noDash⟩

theorem given?_of_ne (some : text ≠ "") (other : text ≠ "-") : given? text = .some text :=
  if_neg (not_or.2 ⟨some, other⟩)

namespace Finding

/-- The finding, if there is one, is about the value of this field. -/
def Names (field : String) (finding : Option Finding) : Prop :=
  ∀ f, finding = some f → f.subject = valueOf field ∧ f.kind ≠ .undesired

theorem names_none (field : String) : Names field none := fun _ none => by cases none

theorem names_missingValue (field : String) : Names field (some (missingValue field)) := by
  rintro _ ⟨⟩
  exact ⟨rfl, by simp [missingValue]⟩

theorem names_wrongValue (field text expected : String) : Names field (some (wrongValue field text expected)) := by
  rintro _ ⟨⟩
  exact ⟨rfl, by simp [wrongValue]⟩

end Finding

namespace ValueKind

variable {kind : ValueKind α} {name : String} {optional : Bool}

/-- A text that is not given has no value, which is a finding if there must be one. -/
theorem readSlot_of_absent (absent : given? text = none) : kind.readSlot name optional text =
    (⟨some text, none⟩, if optional then none else some (.missingValue name)) := by
  simp only [readSlot, read, absent]
  rfl

/-- A text that is given has the value of its kind, or else there is a finding. -/
theorem readSlot_of_given (h : given? text = some given) : kind.readSlot name optional text =
    (⟨some text, kind.parse? given⟩,
      if (kind.parse? given).isSome then none else some (.wrongValue name given kind.expected)) := by
  have some : (given? text).filter (· ≠ "") = .some given := by
    obtain ⟨rfl, some, -⟩ := eq_of_given? h
    rw [h, Option.filter_some, if_pos (decide_eq_true some)]
  simp only [readSlot, read, some]
  cases kind.parse? given <;> rfl

theorem names_readSlot (kind : ValueKind α) (name : String) (optional : Bool) (text : String) :
    Finding.Names name (kind.readSlot name optional text).2 := by
  cases h : given? text with
  | none =>
    rw [readSlot_of_absent h]
    cases optional with
    | true => exact Finding.names_none name
    | false => exact Finding.names_missingValue name
  | some given =>
    rw [readSlot_of_given h]
    dsimp only
    split
    · exact Finding.names_none name
    · exact Finding.names_wrongValue _ _ _

theorem value_readSlot : (kind.readSlot name optional text).1.value = (given? text).bind kind.parse? := by
  cases h : given? text with
  | none => rw [readSlot_of_absent h]; rfl
  | some given => rw [readSlot_of_given h]; rfl

theorem parse?_of_readSlot {value : α} (h : (kind.readSlot name optional text).1.value = some value) :
    kind.parse? text = some value := by
  rw [value_readSlot] at h
  obtain ⟨given, is, parsed⟩ := Option.bind_eq_some_iff.1 h
  exact (eq_of_given? is).1 ▸ parsed

theorem isSome_of_readSlot (none : (kind.readSlot name false text).2 = none) :
    (kind.readSlot name false text).1.value.isSome := by
  cases h : given? text with
  | none =>
    rw [readSlot_of_absent h] at none
    cases none
  | some given =>
    rw [readSlot_of_given h] at none ⊢
    dsimp only at none ⊢
    split at none
    · next found => exact found
    · cases none

end ValueKind

namespace Slot

variable {slot : Slot α} {name expected : String} {permitted : α → Bool}

theorem value_restrict : (slot.restrict name expected permitted).1.value = slot.value.filter permitted := by
  unfold restrict
  cases h : slot.value with
  | none => exact h
  | some value =>
    dsimp only
    rw [Option.filter_some]
    split
    · exact h
    · rfl

theorem text_restrict (slot : Slot α) (name expected : String) (permitted : α → Bool) :
    (slot.restrict name expected permitted).1.text = slot.text := by
  unfold restrict
  split
  · split <;> rfl
  · rfl

/-- There is a finding just if there is a value that is not permitted. -/
theorem finding_restrict : (slot.restrict name expected permitted).2 =
    if slot.value.all permitted then none else some (.wrongValue name (slot.text.getD "") expected) := by
  unfold restrict
  cases h : slot.value with
  | none => rfl
  | some value =>
    dsimp only [Option.all_some]
    split <;> rfl

theorem names_restrict (slot : Slot α) (name expected : String) (permitted : α → Bool) :
    Finding.Names name (slot.restrict name expected permitted).2 := by
  rw [finding_restrict]
  split
  · exact Finding.names_none name
  · exact Finding.names_wrongValue _ _ _

theorem value_of_restrict {value : α} (h : (slot.restrict name expected permitted).1.value = some value) :
    slot.value = some value := by
  rw [value_restrict] at h
  exact (Option.filter_eq_some_iff.1 h).1

theorem isSome_of_restrict (none : (slot.restrict name expected permitted).2 = none) (some : slot.value.isSome) :
    (slot.restrict name expected permitted).1.value.isSome := by
  obtain ⟨value, found⟩ := Option.isSome_iff_exists.1 some
  rw [finding_restrict] at none
  split at none
  · next allowed =>
    rw [found, Option.all_some] at allowed
    rw [value_restrict, found, Option.filter_some, if_pos allowed]
    rfl
  · cases none

end Slot
end ArcFile
