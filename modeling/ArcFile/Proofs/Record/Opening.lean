import ArcFile.Http.Head
import ArcFile.Proofs.Supply.View
import ArcFile.Record.VersionLines
/-!
What stands at the start of a record's content: the two lines of a version block, or an HTTP header. Both are
functions of the content, and a cursor over it takes just their bytes.
-/
namespace ArcFile

namespace VersionLines

/-- The version lines at the start of some content, and what is wrong with them. -/
def ofContent (content : Bytes) : List Finding × VersionLines :=
  if content = [] then ([.noVersionLine], blank)
  else
    let (lines, findings) := readFirst (Utf8.decodeLossy content.firstLine)
    let rest : Bytes := content.drop content.lineSize
    if rest = [] then (findings ++ [.noDescription], { lines with size := content.lineSize })
    else
      let (lines, more) := readSecond lines (Utf8.decodeLossy rest.firstLine)
      (findings ++ more, { lines with size := content.lineSize + rest.lineSize })

theorem size_ofContent_le (content : Bytes) : (ofContent content).2.size ≤ content.length := by
  have first := content.lineSize_le
  have second := Bytes.lineSize_le (content.drop content.lineSize)
  rw [List.length_drop] at second
  unfold ofContent
  split
  · simp [blank]
  · dsimp only
    split
    · exact first
    · simp only
      omega

variable {σ : Type} [Supply σ] {holds : σ → Bytes → Prop} {c : Cursor σ} {content : Bytes}
  (steady : Supply.Steady holds)

include steady

theorem takeLine_nil (h : c.Holds holds []) :
    ∃ c', takeLine c = .ok none c' ∧ c'.Holds holds [] ∧ Cursor.Forward 0 c c' := by
  obtain ⟨c', found, held, moved, -⟩ := Cursor.readLine_nil steady h
  exact ⟨c', by simp [takeLine, found], held, moved⟩

theorem takeLine_holds (nonempty : content ≠ []) (h : c.Holds holds content) :
    ∃ c', takeLine c = .ok (some (Utf8.decodeLossy content.firstLine)) c' ∧
      c'.Holds holds (content.drop content.lineSize) ∧ Cursor.Forward content.lineSize c c' := by
  obtain ⟨c', found, held, moved⟩ := Cursor.readLine_holds steady nonempty h
  exact ⟨c', by simp [takeLine, found], held, moved⟩

theorem take_holds (h : c.Holds holds content) :
    ∃ c', take c = ((ofContent content).1, .ok (ofContent content).2 c') ∧
      c'.Holds holds (content.drop (ofContent content).2.size) ∧
      Cursor.Moved (ofContent content).2.size c c' := by
  have set : (c.setCounter 0).Holds holds content := ⟨h.capacity, h.supply⟩
  have still : Cursor.Moved 0 c (c.setCounter 0) := ⟨rfl, rfl, rfl⟩
  by_cases empty : content = []
  · subst empty
    obtain ⟨c', found, held, moved⟩ := takeLine_nil steady set
    refine ⟨c', by simp [take, found, ofContent], by simpa [ofContent, blank] using held, ?_⟩
    simpa [ofContent, blank] using still.trans moved.toMoved
  · obtain ⟨c', found, held, moved⟩ := takeLine_holds steady empty set
    have counted : c'.counter = content.lineSize := by simp [moved.counter, Cursor.setCounter]
    by_cases short : content.drop content.lineSize = []
    · rw [short] at held
      obtain ⟨c'', ended, after, further⟩ := takeLine_nil steady held
      have size : c''.counter = content.lineSize := by rw [further.counter, counted, Nat.add_zero]
      refine ⟨c'', by simp [take, found, ended, size, ofContent, empty, short],
        by simpa [ofContent, empty, short] using after, ?_⟩
      simpa [ofContent, empty, short] using still.trans (moved.trans further).toMoved
    · obtain ⟨c'', second, after, further⟩ := takeLine_holds steady short held
      have size : c''.counter = content.lineSize + Bytes.lineSize (content.drop content.lineSize) := by
        rw [further.counter, counted]
      refine ⟨c'', by simp [take, found, second, size, ofContent, empty, short],
        by simpa [ofContent, empty, short] using after, ?_⟩
      simpa [ofContent, empty, short] using still.trans (moved.trans further).toMoved

end VersionLines

namespace Http.Head

namespace Draft

/-- Takes up bytes until it is clear whether there is a header of at most `limit` bytes. -/
def scan (limit declared : Nat) : Draft → Bytes → Verdict
  | draft, [] => draft.finish declared
  | draft, b :: rest =>
    if limit ≤ draft.count then .none draft
    else
      match draft.add b with
      | .more draft => scan limit declared draft rest
      | verdict => verdict

theorem count_addLine (draft : Draft) (line : Bytes) : (draft.addLine line).draft.count = draft.count := by
  unfold addLine
  repeat' split
  all_goals rfl

theorem count_add (draft : Draft) (b : UInt8) : (draft.add b).draft.count = draft.count + 1 := by
  unfold add
  dsimp only
  split
  · rw [count_addLine]
  · rfl

theorem count_finish (draft : Draft) (declared : Nat) :
    (draft.finish declared).draft.count = draft.count := by
  unfold finish
  repeat' split
  all_goals rfl

end Draft

/-- The header at the start of some content, if there is one of at most `limit` bytes. -/
def ofContent (limit declared : Nat) (content : Bytes) : Option Head :=
  match Draft.scan limit declared .empty content with
  | .head start draft => some ⟨start, draft.fields, draft.count, declared - draft.count⟩
  | _ => none

/-- What is taken up is some bytes from the start, no more than the limit. -/
theorem Draft.scan_cut (limit declared : Nat) (draft : Draft) (within : draft.count ≤ limit)
    (content : Bytes) : ∃ taken rest, content = taken ++ rest ∧
      (draft.scan limit declared content).draft.recorded = taken.reverse ++ draft.recorded ∧
      (draft.scan limit declared content).draft.count = draft.count + taken.length ∧
      draft.count + taken.length ≤ limit := by
  induction content generalizing draft with
  | nil => exact ⟨[], [], rfl, draft.recorded_finish declared, draft.count_finish declared, within⟩
  | cons b rest ih =>
    unfold scan
    split
    · exact ⟨[], b :: rest, rfl, rfl, rfl, within⟩
    · have recorded := draft.recorded_add b
      have count := draft.count_add b
      split
      · next draft' added =>
        simp only [added, Verdict.draft] at recorded count
        obtain ⟨taken, rest, rfl, all, sum, most⟩ := ih draft' (by omega)
        exact ⟨b :: taken, rest, rfl, by simp [all, recorded], by simp [sum, count]; omega,
          by simp; omega⟩
      · exact ⟨[b], rest, rfl, recorded, count, by simp; omega⟩

theorem size_ofContent_le (limit declared : Nat) (content : Bytes) :
    (ofContent limit declared content).elim 0 (·.size) ≤ content.length := by
  obtain ⟨taken, rest, rfl, -, count, -⟩ :=
    Draft.empty.scan_cut limit declared (Nat.zero_le _) content
  unfold ofContent
  split
  · next start draft found =>
    have count : draft.count = 0 + taken.length := by rwa [found] at count
    simp [count]
  · exact Nat.zero_le _

variable {σ : Type} [Supply σ] {holds : σ → Bytes → Prop} {c : Cursor σ} {content : Bytes}
  (steady : Supply.Steady holds)

include steady

theorem readDraft_holds (limit declared : Nat) (draft : Draft) (within : draft.count ≤ limit)
    (h : c.Holds holds content) :
    ∃ c', readDraft limit declared draft c = .ok (draft.scan limit declared content) c' ∧
      c'.Holds holds (content.drop ((draft.scan limit declared content).draft.count - draft.count)) ∧
      Cursor.Forward ((draft.scan limit declared content).draft.count - draft.count) c c' := by
  induction content generalizing c draft with
  | nil =>
    have count := draft.count_finish declared
    unfold readDraft
    by_cases full : limit ≤ draft.count
    · obtain ⟨c', found, held, moved, -⟩ := Cursor.fill_holds steady h
      obtain ⟨rest, none⟩ := held.atHand_append
      rw [(List.append_eq_nil_iff.1 none.symm).1] at found
      refine ⟨c', by rw [if_pos full, found]; rfl, by simpa using held, ?_⟩
      simpa [Draft.scan, count] using moved
    · obtain ⟨c', found, held, moved, -⟩ := Cursor.readByte_nil steady h
      refine ⟨c', ?_, by simpa using held, by simpa [Draft.scan, count] using moved⟩
      rw [if_neg full]
      split <;> simp_all [Draft.scan]
  | cons b rest ih =>
    unfold readDraft Draft.scan
    by_cases full : limit ≤ draft.count
    · obtain ⟨c', found, held, moved, empty⟩ := Cursor.fill_holds steady h
      cases hand : c'.atHand with
      | nil => exact absurd (empty hand).1 (List.cons_ne_nil _ _)
      | cons b' more =>
        rw [hand] at found
        refine ⟨c', by rw [if_pos full, if_pos full, found], ?_, ?_⟩
        · simpa [if_pos full, Draft.Verdict.draft] using held
        · simpa [if_pos full, Draft.Verdict.draft] using moved
    · obtain ⟨c', found, held, moved⟩ := Cursor.readByte_cons steady h
      have count := draft.count_add b
      rw [if_neg full, if_neg full]
      cases added : draft.add b with
      | more draft' =>
        simp only [added, Draft.Verdict.draft] at count
        obtain ⟨_, _, _, _, sum, _⟩ := draft'.scan_cut limit declared (by omega) rest
        obtain ⟨c'', scanned, after, further⟩ := ih draft' (by omega) held
        have one : (draft'.scan limit declared rest).draft.count - draft.count =
            1 + ((draft'.scan limit declared rest).draft.count - draft'.count) := by omega
        refine ⟨c'', ?_, ?_, ?_⟩
        · split <;> simp_all
        · rwa [one, Nat.add_comm, List.drop_succ_cons]
        · rw [one]
          exact moved.trans further
      | head start draft' =>
        simp only [added, Draft.Verdict.draft] at count ⊢
        refine ⟨c', ?_, by simpa [count] using held, by simpa [count] using moved⟩
        split <;> simp_all
      | none draft' =>
        simp only [added, Draft.Verdict.draft] at count ⊢
        refine ⟨c', ?_, by simpa [count] using held, by simpa [count] using moved⟩
        split <;> simp_all

theorem read_holds (declared : Nat) (h : c.Holds holds content) :
    ∃ c', read declared c = .ok (ofContent c.pushbackSize declared content) c' ∧
      c'.Holds holds (content.drop ((ofContent c.pushbackSize declared content).elim 0 (·.size))) ∧
      Cursor.Moved ((ofContent c.pushbackSize declared content).elim 0 (·.size)) c c' := by
  obtain ⟨c', found, held, moved⟩ := readDraft_holds steady c.pushbackSize declared .empty
    (Nat.zero_le _) h
  obtain ⟨taken, rest, rfl, recorded, count, most⟩ :=
    Draft.empty.scan_cut c.pushbackSize declared (Nat.zero_le _) content
  have none : Draft.empty.recorded = [] ∧ Draft.empty.count = 0 := ⟨rfl, rfl⟩
  rw [none.1, List.append_nil] at recorded
  rw [none.2, Nat.zero_add] at count most
  rw [none.2, Nat.sub_zero] at held moved
  unfold read ofContent
  rw [found]
  cases verdict : Draft.scan c.pushbackSize declared .empty (taken ++ rest) with
  | head start draft =>
    simp only [verdict, Draft.Verdict.draft] at held moved
    exact ⟨c', rfl, held, moved.toMoved⟩
  | none draft | more draft =>
    simp only [verdict, Draft.Verdict.draft] at held moved recorded count
    rw [count, List.drop_left] at held
    obtain ⟨c'', pushed, back, still⟩ := Cursor.unread_holds _ held (count ▸ moved) most
    exact ⟨c'', by simp [recorded, pushed], back, still⟩

end Http.Head
end ArcFile
