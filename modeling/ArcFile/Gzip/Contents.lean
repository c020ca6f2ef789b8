import ArcFile.Gzip.Unpacker
/-!
The contents of data that is made of gzip members, one after the other.
-/
namespace ArcFile.Gzip

variable {σ : Type} [Supply σ]

/-- The most bytes of content that are read at a time. -/
def stride : Nat := 8192

/-- Reads the contents of the members from a cursor on, and tells whether they are all that is left. -/
def takeContents (c : Cursor σ) : List Bytes × Bool :=
  match peeked : Cursor.peek magic.length c with
  | .error _ _ => ([], false)
  | .ok [] _ => ([], true)
  | .ok start c' =>
    if isMagic : start = magic then
      match read : Supply.readAll stride [] (Unpacker.create c') with
      | (_, .error _ _) => ([], false)
      | (content, .ok () u) =>
        have : u.stream.left < c.left := by
          have less := Cursor.left_peek magic.length c
          have held := Cursor.pushback_of_peek peeked (by rw [isMagic])
          have header := Unpacker.bound_create_lt (c := c') fun none => by simp [none, magic] at held
          have reading := Supply.bound_readAll stride [] (Unpacker.create c')
          have stream := Unpacker.left_stream_le_bound u
          simp only [peeked, read, Outcome.state] at less reading
          have : Supply.bound u = Unpacker.bound u := rfl
          have : Supply.bound (Unpacker.create c') = Unpacker.bound (Unpacker.create c') := rfl
          omega
        let (more, all) := takeContents u.stream
        (content :: more, all)
    else ([], false)
termination_by c.left

/-- The contents of the members that the data begins with, and whether it consists of them. -/
def contents (data : Bytes) : List Bytes × Bool :=
  takeContents (Cursor.create (Input.ofBytes data) Cursor.defaultCapacity magic.length)

end ArcFile.Gzip
