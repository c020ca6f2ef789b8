import ArcFile.Supply.Span
/-!
Supplies that never come to an end. Such a supply gives more and more and faults at last. What is read over it keeps
it so, and an action that would have to see the end does not succeed.
-/
namespace ArcFile

namespace Supply

variable {σ : Type} [Supply σ] {P : σ → Prop}

/-- A supply that is as `P` says stays so when it is read. -/
structure Keeps (P : σ → Prop) : Prop where
  read : ∀ {n : Nat} {s s' : σ} {data : Bytes}, P s → Supply.read n s = .ok data s' → P s'

/-- No read finds the end of the supply, either. -/
structure Endless (P : σ → Prop) : Prop extends Keeps P where
  goes : ∀ {n : Nat} {s s' : σ}, P s → Supply.read n s = .ok [] s' → n = 0

theorem Keeps.readAll (keeps : Keeps P) {stride : Nat} {taken data : Bytes} {s s' : σ} (h : P s)
    (found : Supply.readAll stride taken s = (data, .ok () s')) : P s' := by
  fun_induction Supply.readAll stride taken s with
  | case1 => cases found
  | case2 _ _ _ read =>
    cases found
    exact keeps.read h read
  | case3 _ _ _ _ _ read _ ih => exact ih (keeps.read h read) found

end Supply

namespace Cursor

variable {σ : Type} {P : σ → Prop} {c c' : Cursor σ} {n : Nat} {data : Bytes}

/-- The supply is as `P` says, and the cursor can read ahead. -/
structure Over (P : σ → Prop) (c : Cursor σ) : Prop where
  capacity : 0 < c.capacity
  supply : P c.supply

theorem over_advance (n : Nat) (h : c.Over P) : (c.advance n).Over P := by
  unfold advance
  split <;> exact ⟨h.capacity, h.supply⟩

theorem over_unread (h : c.Over P) (found : unread data c = .ok () c') : c'.Over P := by
  unfold unread at found
  split at found
  · cases found
    exact ⟨h.capacity, h.supply⟩
  · cases found

section Keeps

variable [Supply σ] (keeps : Supply.Keeps P)

include keeps

theorem over_fill (h : c.Over P) (found : fill c = .ok data c') : c'.Over P := by
  unfold fill at found
  split at found
  · cases found
    exact h
  · split at found
    · cases found
      exact h
    · split at found
      · cases found
        exact h
      · split at found
        · next read =>
          cases found
          exact ⟨h.capacity, keeps.read h.supply read⟩
        · cases found

theorem over_read (h : c.Over P) (found : read n c = .ok data c') : c'.Over P := by
  unfold read at found
  split at found
  · split at found
    · next read =>
      cases found
      exact ⟨h.capacity, keeps.read h.supply read⟩
    · cases found
  · split at found
    · next filled =>
      cases found
      exact over_advance _ (over_fill keeps h filled)
    · cases found

theorem keeps_over : Supply.Keeps (Over P) := ⟨over_read keeps⟩

theorem over_readByte {b : Option UInt8} (h : c.Over P) (found : readByte c = .ok b c') : c'.Over P := by
  unfold readByte at found
  split at found
  · next filled =>
    cases found
    exact over_fill keeps h filled
  · next filled =>
    cases found
    exact over_advance 1 (over_fill keeps h filled)
  · cases found

theorem over_takeLine {taken line : Option Bytes} (h : c.Over P) (found : takeLine taken c = .ok line c') :
    c'.Over P := by
  fun_induction takeLine taken c with
  | case1 => cases found
  | case2 _ _ _ filled =>
    cases found
    exact over_fill keeps h filled
  | case3 _ _ _ _ _ filled =>
    obtain ⟨-, rfl⟩ := EStateM.Result.ok.inj found
    exact over_advance _ (over_fill keeps h filled)
  | case4 _ _ _ _ _ filled _ _ _ _ ih => exact ih (over_advance _ (over_fill keeps h filled)) found

theorem over_readLine {line : Option Bytes} (h : c.Over P) (found : readLine c = .ok line c') : c'.Over P := by
  unfold readLine at found
  split at found
  · next taken =>
    cases found
    exact over_takeLine keeps h taken
  · cases found

end Keeps

section Endless

variable [Supply σ] (endless : Supply.Endless P)

include endless

theorem fill_ne_nil (h : c.Over P) : fill c ≠ .ok [] c' := by
  intro found
  unfold fill at found
  split at found
  · next held =>
    simp [(EStateM.Result.ok.inj found).1] at held
  · split at found
    · next ahead => simp [(EStateM.Result.ok.inj found).1] at ahead
    · rw [if_neg (Nat.pos_iff_ne_zero.1 h.capacity)] at found
      split at found
      · next read =>
        cases found
        exact absurd (endless.goes h.supply read) (Nat.pos_iff_ne_zero.1 h.capacity)
      · cases found

theorem readLine_ne_none (h : c.Over P) : readLine c ≠ .ok none c' := by
  intro found
  have some (taken : Option Bytes) {line : Option Bytes} {c c' : Cursor σ} (h : c.Over P)
      (found : takeLine taken c = .ok line c') : line.isSome := by
    fun_induction takeLine taken c with
    | case1 => cases found
    | case2 _ _ _ filled => exact absurd filled (fill_ne_nil endless h)
    | case3 =>
      obtain ⟨rfl, -⟩ := EStateM.Result.ok.inj found
      rfl
    | case4 _ _ _ _ _ filled _ _ _ _ ih => exact ih (over_advance _ (over_fill endless.toKeeps h filled)) found
  unfold readLine at found
  split at found
  · next line _ taken =>
    obtain ⟨missing, -⟩ := EStateM.Result.ok.inj found
    have there := some none h taken
    rw [Option.map_eq_none_iff.1 missing] at there
    cases there
  · cases found

/-- There is always more to be skipped. -/
theorem skipAll_ne_ok (h : c.Over P) : skipAll c ≠ .ok n c' := by
  intro found
  have never (skipped n m : Nat) {c c' : Cursor σ} (h : c.Over P) (more : c.left < n) :
      skipFrom skipped n c ≠ .ok m c' := by
    intro found
    fun_induction skipFrom skipped n c with
    | case1 => omega
    | case2 => cases found
    | case3 _ _ _ _ _ filled => exact fill_ne_nil endless h filled
    | case4 skipped n c _ b rest c'' filled _ ih =>
      obtain ⟨most, less, gone⟩ := fill_ok filled
      have := gone (min n (b :: rest).length) (Nat.min_le_right _ _)
      exact ih (over_advance _ (over_fill endless.toKeeps h filled)) (by omega) found
  exact never 0 (c.left + 1) n h (Nat.lt_succ_self _) found

end Endless

end Cursor
end ArcFile
