import ArcFile.Supply.Basic
/-!
Supplies that never fault. What such a supply still gives is a byte string that does not depend on the
sizes of the reads; only the cuts between the reads do.
-/
namespace ArcFile.Supply

variable {σ : Type} [Supply σ] {holds : σ → Bytes → Prop}

/-- `holds s data` says that `s` gives `data` and then ends. Every read takes a piece from the front, and
only at the end is it empty. -/
structure Steady (holds : σ → Bytes → Prop) : Prop where
  read : ∀ {s : σ} {data : Bytes} (n : Nat), holds s data →
    ∃ got rest s', Supply.read n s = .ok got s' ∧ data = got ++ rest ∧
      (got = [] → n = 0 ∨ rest = []) ∧ holds s' rest

/-- The supply never faults and gives this data, in pieces of any size. -/
def Yields (s : σ) (data : Bytes) : Prop :=
  ∃ holds : σ → Bytes → Prop, Steady holds ∧ holds s data

/-- The supply has been left by a read that found its end. -/
def Spent (holds : σ → Bytes → Prop) (s' : σ) : Prop :=
  ∃ s n, n ≠ 0 ∧ holds s [] ∧ Supply.read n s = .ok [] s'

/-- No supply gives more than its bound. -/
theorem Steady.length_le_bound (steady : Steady holds) {s : σ} {data : Bytes} (held : holds s data) :
    data.length ≤ bound s := by
  induction len : data.length using Nat.strongRecOn generalizing s data with
  | ind len ih =>
    obtain ⟨got, rest, s', found, rfl, only, after⟩ := steady.read 1 held
    have taken := (read_ok found).2
    cases got with
    | nil =>
      have : rest = [] := (only rfl).resolve_left (by decide)
      simp [this] at len
      omega
    | cons b more =>
      have := ih rest.length (by simp at len; omega) after rfl
      simp at len taken
      omega

/-- Reading to the end gives all data, whatever the stride. -/
theorem Steady.readAll (steady : Steady holds) {stride : Nat} (pos : 0 < stride) {s : σ}
    {data : Bytes} (taken : Bytes) (held : holds s data) :
    ∃ s', Supply.readAll stride taken s = (taken.reverse ++ data, .ok () s') ∧ holds s' [] := by
  induction len : data.length using Nat.strongRecOn generalizing s data taken with
  | ind len ih =>
    obtain ⟨got, rest, s', found, rfl, only, after⟩ := steady.read stride held
    cases got with
    | nil =>
      obtain rfl : rest = [] := (only rfl).resolve_left (by omega)
      refine ⟨s', ?_, after⟩
      unfold Supply.readAll
      split
      · next other => simp [found] at other
      · next other => simp_all
      · next other => simp [found] at other
    | cons b more =>
      obtain ⟨s'', all, ended⟩ := ih rest.length (by simp at len; omega)
        ((b :: more).reverse ++ taken) after rfl
      refine ⟨s'', ?_, ended⟩
      unfold Supply.readAll
      split
      · next other => simp [found] at other
      · next other => simp [found] at other
      · next other =>
        simp only [found, EStateM.Result.ok.injEq, List.cons.injEq] at other
        obtain ⟨⟨rfl, rfl⟩, rfl⟩ := other
        rw [all]
        simp

end ArcFile.Supply

namespace ArcFile.Input

/-- The input gives this data and does not fault. Its pieces may have any size but zero. -/
def Holds (input : Input) (data : Bytes) : Prop :=
  input.data = data ∧ input.untilFault = none ∧ input.chunk ≠ some 0

theorem steady_holds : Supply.Steady Holds where
  read := by
    rintro ⟨data, chunk, _, fault⟩ _ n ⟨rfl, rfl, some⟩
    refine ⟨data.take (quota n ⟨data, chunk, none, fault⟩), data.drop (quota n ⟨data, chunk, none, fault⟩),
      _, rfl, (List.take_append_drop _ _).symm, fun empty => ?_, rfl, rfl, some⟩
    rcases List.take_eq_nil_iff.1 empty with zero | none
    · cases chunk with
      | none => exact .inl zero
      | some most =>
        have : most ≠ 0 := fun zero => some (by rw [zero])
        simp only [quota] at zero
        omega
    · simp [none]

theorem yields_ofBytes (data : Bytes) : Supply.Yields (ofBytes data) data :=
  ⟨Holds, steady_holds, rfl, rfl, by simp [ofBytes]⟩

end ArcFile.Input
