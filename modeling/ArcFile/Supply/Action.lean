import ArcFile.Supply.Cursor
/-!
Actions on cursors that are put together from others. What holds between a cursor and what any reading leaves of it
holds between it and what such an action leaves (`Along`): every way of putting actions together keeps it. So none
of them can leave a cursor with more than it had, which is what `Shrinks` says.
-/
namespace ArcFile.Cursor

variable {σ α β : Type}

/-- Whatever the action does, this holds between the cursor and what is left of it. -/
def Along (after : Cursor σ → Cursor σ → Prop) (action : EStateM Fault (Cursor σ) α) : Prop :=
  ∀ c : Cursor σ, after c (Outcome.state (action c))

/-- Something that holds between a cursor and what any reading leaves of it. -/
structure Tracks [Supply σ] (after : Cursor σ → Cursor σ → Prop) : Prop where
  refl : ∀ c : Cursor σ, after c c
  trans : ∀ {c c' c'' : Cursor σ}, after c c' → after c' c'' → after c c''
  read : ∀ n : Nat, Along after (readUpTo n [])

variable [Supply σ] {after : Cursor σ → Cursor σ → Prop} {action : EStateM Fault (Cursor σ) α}
  {next : α → EStateM Fault (Cursor σ) β}

theorem along_pure (tracks : Tracks after) (a : α) : Along after (pure a : EStateM Fault (Cursor σ) α) := tracks.refl

theorem along_throw (tracks : Tracks after) (fault : Fault) :
    Along after (throw fault : EStateM Fault (Cursor σ) α) := tracks.refl

theorem along_bind (tracks : Tracks after) (h : Along after action) (all : ∀ a, Along after (next a)) :
    Along after (action >>= next) := by
  intro c
  have first := h c
  simp only [bind, EStateM.bind]
  split
  · next a c' found =>
    rw [found] at first
    exact tracks.trans first (all a c')
  · next found =>
    rw [found] at first
    exact first

omit [Supply σ] in
theorem along_ite (p : Prop) [Decidable p] {other : EStateM Fault (Cursor σ) α} (h : Along after action)
    (h' : Along after other) : Along after (if p then action else other) := by
  split
  · exact h
  · exact h'

/-- Whatever the action does, it leaves no more than there was. -/
def Shrinks {α : Type} (action : EStateM Fault (Cursor σ) α) : Prop :=
  ∀ c : Cursor σ, (Outcome.state (action c)).left ≤ c.left

theorem tracks_left : Tracks fun c c' : Cursor σ => c'.left ≤ c.left where
  refl _ := Nat.le_refl _
  trans first second := Nat.le_trans second first
  read n := left_readUpTo n []

omit [Supply σ] in
/-- What the first action makes so stays so if the others keep it. -/
theorem holds_bind {P : Cursor σ → Prop} {c : Cursor σ} (first : P (Outcome.state (action c)))
    (all : ∀ a, Along (fun c c' => P c → P c') (next a)) : P (Outcome.state ((action >>= next) c)) := by
  simp only [bind, EStateM.bind]
  split
  · next a c' found =>
    rw [found] at first
    exact all a c' first
  · next found =>
    rw [found] at first
    exact first

end ArcFile.Cursor
