import ArcFile.Value.Url.Percent
/-!
Paths of hierarchical URLs. A path is cut into segments at slashes; `.` is dropped and `..` drops the
segment before it, unless that is a drive letter. All else is percent-encoded. A `file` path may begin
with a drive letter, which then stands alone in front.
-/
namespace ArcFile.Url

def isLetter (c : Char) : Bool := c.isAlpha

/-- A drive letter: a letter, and a colon or a bar. -/
def isDrive : List Char → Bool
  | [a, b] => isLetter a && (b == ':' || b == '|')
  | _ => false

/-- A segment that `..` leaves in place: one that is, or up to a backslash is, a drive letter. -/
def isKept (segment : List Char) : Bool := isDrive (segment.takeWhile (· ≠ '\\'))

def isSingleDot (segment : List Char) : Bool :=
  [['.'], ['%', '2', 'e'], ['%', '2', 'E']].contains segment

def isDoubleDot (segment : List Char) : Bool :=
  [['.', '.'], ['%', '2', 'e', '%', '2', 'e'], ['%', '2', 'e', '%', '2', 'E'],
    ['%', '2', 'E', '%', '2', 'e'], ['%', '2', 'E', '%', '2', 'E'], ['%', '2', 'e', '.'],
    ['%', '2', 'E', '.'], ['.', '%', '2', 'e'], ['.', '%', '2', 'E']].contains segment

/-- The segments of a path: what stands between slashes. -/
def segments (isSlash : Char → Bool) : List Char → List (List Char)
  | [] => [[]]
  | c :: rest =>
    if isSlash c then [] :: segments isSlash rest
    else match segments isSlash rest with
      | [] => [[c]]
      | segment :: more => (c :: segment) :: more

/-- Tabs and line breaks, which are no part of a URL. -/
def isBreak (c : Char) : Bool := c == '\t' || c == '\n' || c == '\r'

def withoutBreaks (text : List Char) : List Char := text.filter fun c => !isBreak c

/-- A break stands right behind the first colon. -/
def isParted (segment : List Char) : Bool :=
  ((segment.dropWhile (· ≠ ':')).drop 1).head?.any isBreak

/-- The segments of a path that have been taken up. -/
structure Hierarchy where
  /-- The segments as they are written. -/
  written : List (List Char)
  /-- The first of them is a drive letter, in whose place there is no host. -/
  drive : Bool
  deriving DecidableEq, Repr

namespace Hierarchy

def empty : Hierarchy := ⟨[], false⟩

/-- A path of one segment. -/
def plain (segment : List Char) : Hierarchy := ⟨[encode pathSet segment], false⟩

/-- The first segment of a `file` path. A drive letter gets a colon. What a break parts from a drive
letter with a colon is a segment of its own, and that drive letter leaves the host in its place. -/
def first (segment : List Char) : Hierarchy :=
  match withoutBreaks segment with
  | [letter, mark] =>
    if isDrive [letter, mark] then ⟨[[letter, ':']], true⟩ else plain [letter, mark]
  | letter :: ':' :: rest =>
    if isLetter letter && isParted segment then ⟨[[letter, ':'], encode pathSet rest], false⟩
    else plain (letter :: ':' :: rest)
  | all => plain all

/-- Takes up a segment that is not a dot segment. -/
def add (file : Bool) (segment : List Char) (h : Hierarchy) : Hierarchy :=
  if file && h.written.isEmpty then first segment
  else { h with written := h.written ++ (plain (withoutBreaks segment)).written }

/-- Takes up an empty segment. -/
def addEmpty (h : Hierarchy) : Hierarchy := { h with written := h.written ++ [[]] }

/-- The segments without the last one, unless `..` leaves it in place. -/
def parent (h : Hierarchy) : Hierarchy :=
  match h.written.getLast? with
  | some last => if isKept last then h else { h with written := h.written.dropLast }
  | none => h

/-- Takes up segments one by one. The last one stays as the end of the path, and is empty in the place
of a dot segment. -/
def place (file : Bool) (h : Hierarchy) : List (List Char) → Hierarchy
  | [] => h
  | [last] =>
    if isDoubleDot (withoutBreaks last) then h.parent.addEmpty
    else if isSingleDot (withoutBreaks last) then h.addEmpty
    else h.add file last
  | segment :: more =>
    if isDoubleDot (withoutBreaks segment) then place file h.parent more
    else if isSingleDot (withoutBreaks segment) then place file h more
    else place file (h.add file segment) more

/-- The path as it is written: every segment after a slash. -/
def render (h : Hierarchy) : List Char := h.written.flatMap ('/' :: ·)

end Hierarchy

/-- The path that begins with a slash and goes on with `text`. -/
def normalPath (isSlash : Char → Bool) (text : List Char) : List Char :=
  (Hierarchy.empty.place false (segments isSlash text)).render

def isAnySlash (c : Char) : Bool := c == '/' || c == '\\'

/-- The path of a `file` URL, without the empty segments in front, and whether a drive letter takes the
place of the host. -/
def filePath (text : List Char) : List Char × Bool :=
  let all := Hierarchy.empty.place true (segments isAnySlash text)
  ('/' :: all.render.dropWhile (· == '/'), all.drive)

end ArcFile.Url
