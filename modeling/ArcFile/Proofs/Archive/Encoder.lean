import ArcFile.Archive.Builder
import ArcFile.Proofs.Gzip.Stored
/-!
What an encoder makes of a record. It does not matter when it hands on what, as long as all of it together is a gzip
member with the pieces of the record as its content.
-/
namespace ArcFile

/-- A piece of a file that holds the bytes of one record. -/
def IsPacked : Packing → Bytes → Bytes → Prop
  | .plain, piece, data => piece = data
  | .gzip, piece, data => Gzip.Decodes piece data

namespace Encoder

variable {e : Encoder}

/-- All that has been handed on for these pieces. -/
def handed (e : Encoder) : List Bytes → Bytes
  | [] => []
  | data :: before => e.handed before ++ e.onWrite before data

/-- All that is handed on for a record of these pieces. -/
def whole (e : Encoder) (pieces : List Bytes) : Bytes := e.handed pieces ++ e.onEnd pieces

/-- What is handed on is always a gzip member with the pieces as its content. -/
def Sound (e : Encoder) : Prop := ∀ pieces, Gzip.Decodes (e.whole pieces) (content pieces)

theorem content_cons (data : Bytes) (pieces : List Bytes) : content (data :: pieces) = content pieces ++ data := by
  simp [content]

theorem whole_plain (pieces : List Bytes) : plain.whole pieces = content pieces := by
  have handed : plain.handed pieces = content pieces := by
    induction pieces with
    | nil => rfl
    | cons data before ih => rw [handed, ih, content_cons]; rfl
  rw [whole, handed]
  exact List.append_nil _

/-- If a header comes with the first piece, and `blocks` with each, then a header and blocks are what comes of all. -/
theorem handed_opening (blocks : Bytes → Bytes)
    (h : ∀ before data, e.onWrite before data = opening before ++ blocks data) (pieces : List Bytes) :
    e.handed pieces ++ opening pieces = Gzip.plainHeader ++ (pieces.reverse.map blocks).flatten := by
  induction pieces with
  | nil => exact (List.append_nil _).symm
  | cons data before ih =>
    have later : opening (data :: before) = [] := rfl
    rw [handed, h, later, List.append_nil, ← List.append_assoc, ih, List.reverse_cons, List.map_append,
      List.flatten_append, List.append_assoc]
    simp

theorem sound_stored : stored.Sound := by
  intro pieces
  have header := handed_opening (e := stored) (fun _ => []) (fun _ _ => (List.append_nil _).symm) pieces
  have none : (pieces.reverse.map fun _ => ([] : Bytes)).flatten = [] := by simp
  have whole : stored.whole pieces = Gzip.pack (content pieces) := by
    rw [Gzip.pack, ← List.append_nil Gzip.plainHeader, ← none, ← header, List.append_assoc]
    rfl
  rw [whole]
  exact Gzip.decodes_pack _

/-- A gzip member of stored blocks, too, but with nothing held back: the blocks of a piece come with the piece. -/
def prompt : Encoder where
  onWrite before data := opening before ++ Gzip.storedBlocks false data
  onEnd pieces := opening pieces ++ (Gzip.storedBlocks true [] ++ Gzip.Member.trailer (content pieces))

theorem sound_prompt : prompt.Sound := by
  intro pieces
  have header := handed_opening (e := prompt) (Gzip.storedBlocks false) (fun _ _ => rfl) pieces
  have stored := Gzip.decodes_storedBlocks pieces.reverse []
  rw [List.append_nil, ← List.append_assoc, ← header, List.append_assoc, List.append_assoc] at stored
  exact stored

end Encoder

/-- What a builder makes of a record holds the bytes of the record. -/
theorem Builder.isPacked_whole {b : Builder} (sound : b.gzip.Sound) (pieces : List Bytes) :
    IsPacked b.packing (b.encoder.whole pieces) (Encoder.content pieces) := by
  unfold Builder.encoder
  cases b.packing with
  | plain => exact Encoder.whole_plain pieces
  | gzip => exact sound pieces

end ArcFile
