import ArcFile.Gzip.Bits
/-!
Prefix codes. A code is a tree whose leaves are symbols, and whose root is a fork. Deflate gives only the length of
each symbol's code word; the words themselves follow from the rule that shorter words come before longer ones, and
words of one length stand in the order of their symbols.
-/
namespace ArcFile.Gzip

inductive CodeTree where
  /-- No code word begins this way. -/
  | nothing
  | symbol (value : Nat)
  | fork (zero one : CodeTree)
  deriving Repr

namespace CodeTree

/-- Reads what is left of a code word and gives its symbol. -/
def read : CodeTree → BitReader Nat
  | nothing => .fail
  | symbol value => pure value
  | fork zero one => do
    let b ← BitReader.bit
    if b then one.read else zero.read

/-- Builds the tree from depth `depth` on, no deeper than `more` levels, from words with their lengths in
order. Gives the words that have not found a place, too. -/
def grow : (more : Nat) → (depth : Nat) → List (Nat × Nat) → CodeTree × List (Nat × Nat)
  | _, _, [] => (nothing, [])
  | 0, depth, (length, value) :: rest =>
    if length = depth then (symbol value, rest) else (nothing, (length, value) :: rest)
  | more + 1, depth, (length, value) :: rest =>
    if length = depth then (symbol value, rest)
    else
      let (zero, rest) := grow more (depth + 1) ((length, value) :: rest)
      let (one, rest) := grow more (depth + 1) rest
      (fork zero one, rest)

end CodeTree

structure Code where
  zero : CodeTree
  one : CodeTree
  deriving Repr

namespace Code

/-- A code without words. -/
def nothing : Code := ⟨.nothing, .nothing⟩

/-- Reads a code word and gives its symbol. -/
def read (code : Code) : BitReader Nat := do
  let b ← BitReader.bit
  if b then code.one.read else code.zero.read

theorem strict_read (code : Code) : code.read.Strict := BitReader.strict_bind BitReader.strict_bit _

/-- The longest code words have this many bits. -/
def longest : Nat := 15

/-- The symbols that have a code word, with the lengths of the words, in the order of the words. -/
def words (lengths : List Nat) : List (Nat × Nat) :=
  (List.range' 1 longest).flatMap fun length =>
    (lengths.zipIdx.filter fun (n, _) => n == length)

/-- How much of all words of the longest length is taken up by words of these lengths. -/
def weight (lengths : List Nat) : Nat :=
  (lengths.filter (· ≠ 0)).foldl (fun all n => all + (1 <<< (longest - n))) 0

/-- The code with words of these lengths, one for each symbol from 0 on; a length of zero means no
word. The words must leave no gap; a `lenient` code may also have no word, or a single one of length 1. -/
def ofLengths? (lenient : Bool) (lengths : List Nat) : Option Code :=
  let used := lengths.filter (· ≠ 0)
  if weight lengths = 1 <<< longest ∨ (lenient ∧ (used = [] ∨ used = [1])) then
    let (zero, rest) := CodeTree.grow (longest - 1) 1 (words lengths)
    let (one, _) := CodeTree.grow (longest - 1) 1 rest
    some ⟨zero, one⟩
  else none

end Code
end ArcFile.Gzip
