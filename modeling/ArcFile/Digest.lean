import ArcFile.Digest.Md5
import ArcFile.Digest.Sha1
import ArcFile.Digest.Sha256
import ArcFile.Digest.Sha512
import ArcFile.Radix
import ArcFile.Text.Token
/-!
Message digests. A running digest takes data in pieces of any size; its digest is that of the pieces put
together, whatever the algorithm makes of them. A digest may be given a text form, and is then labelled with
the name of its algorithm.
-/
namespace ArcFile

/-- An algorithm: its name, and the digest that it makes of some data. -/
structure Digest.Algorithm where
  name : String
  hash : Bytes → Bytes

namespace Digest.Algorithm

def md5 : Algorithm := ⟨"md5", Md5.hash⟩

def sha1 : Algorithm := ⟨"sha1", Sha1.hash⟩

def sha256 : Algorithm := ⟨"sha256", Sha256.hash⟩

def sha512 : Algorithm := ⟨"sha512", Sha512.hash⟩

/-- The algorithm of this name, whatever its case. The names of the SHA family may have a hyphen. -/
def ofName? (name : String) : Option Algorithm :=
  let name := Text.lowerString name
  if name = "md5" then some .md5
  else if name = "sha1" ∨ name = "sha-1" then some .sha1
  else if name = "sha256" ∨ name = "sha-256" then some .sha256
  else if name = "sha512" ∨ name = "sha-512" then some .sha512
  else none

/-- What is said about a name that no algorithm has. -/
def unknownMessage (name : String) : String := "unknown digest algorithm \"" ++ name ++ "\""

end Digest.Algorithm

structure Digest where
  /-- The name of the algorithm. -/
  algorithm : String
  bytes : Bytes
  /-- The text form, if it has been given one. -/
  text : Option String
  deriving DecidableEq, Repr

namespace Digest

/-- Gives the digest the text form of this encoding; it has none if the encoding is not known. -/
def encode (digest : Digest) (encoding : String) : Digest :=
  { digest with text := (Radix.ofName? encoding).map fun radix => radix.encode digest.bytes }

/-- The text form after the name of the algorithm. -/
def labelled (digest : Digest) : Option String :=
  digest.text.map fun text => digest.algorithm ++ ":" ++ text

/-- A digest under way: the algorithm, and all data so far, backwards. -/
structure Running where
  algorithm : Algorithm
  seen : Bytes

namespace Running

def start (algorithm : Algorithm) : Running := ⟨algorithm, []⟩

def update (running : Running) (data : Bytes) : Running :=
  { running with seen := data.reverse ++ running.seen }

/-- All data so far. -/
def data (running : Running) : Bytes := running.seen.reverse

def finish (running : Running) : Digest :=
  ⟨running.algorithm.name, running.algorithm.hash running.data, none⟩

@[simp]
theorem data_update (running : Running) (data : Bytes) : (running.update data).data = running.data ++ data := by
  simp [Running.data, update]

/-- The digest is that of the data so far and the data taken now. -/
theorem finish_update (running : Running) (data : Bytes) :
    (running.update data).finish =
      ⟨running.algorithm.name, running.algorithm.hash (running.data ++ data), none⟩ := by
  rw [finish, data_update]
  rfl

theorem update_update (running : Running) (a b : Bytes) :
    (running.update a).update b = running.update (a ++ b) := by
  simp [update]

end Running
end Digest
end ArcFile
