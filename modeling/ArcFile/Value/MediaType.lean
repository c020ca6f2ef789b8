import ArcFile.Text.Token
import ArcFile.Value.Slot
/-!
Content types, in the grammar of RFC 2616 section 3.7:

    media-type = blank* token "/" token blank* ( ";" blank* token "=" value blank* )* [ ";" blank* ]
    value      = token | quoted string

Blanks are spaces and tabs. The type, the subtype and the names of parameters are kept in lower case.
A repeated name keeps its first place and takes its last value. A text is read character by character: a `Draft` is
what is known so far, together with the place in the grammar.
-/
namespace ArcFile

open Text

structure MediaType where
  type : String
  subtype : String
  parameters : List (String × String)
  deriving DecidableEq, Repr

namespace MediaType

def isSpace (c : Char) : Bool := c == ' ' || c == '\t'

/-- Where the reader of a content type stands. -/
inductive Place where
  | start
  | type
  | subtype
  | behindSubtype
  | beforeParameter
  | name
  | behindEquals
  | token
  | quoted
  /-- Behind a backslash between quotes. -/
  | quotedPair
  | behindValue
  deriving DecidableEq, Repr

/-- What the reader has got so far; the name and the value are those of the parameter that it is in. -/
structure Draft where
  place : Place
  type : String
  subtype : String
  parameters : List (String × String)
  name : String
  value : String
  deriving DecidableEq, Repr

/-- Gives the name this value: in its old place if it has one, else at the end. -/
def put (name value : String) : List (String × String) → List (String × String)
  | [] => [(name, value)]
  | (n, v) :: rest => if n = name then (n, value) :: rest else (n, v) :: put name value rest

namespace Draft

def start : Draft := ⟨.start, "", "", [], "", ""⟩

/-- Takes the parameter that has been read. -/
def keep (draft : Draft) : Draft :=
  { draft with parameters := put draft.name draft.value draft.parameters, name := "", value := "" }

/-- Goes on by one character, if it may stand there. -/
def step (draft : Draft) (c : Char) : Option Draft :=
  match draft.place with
  | .start =>
    if isSpace c then some draft
    else if isTokenChar c then some { draft with place := .type, type := draft.type.push c.toLower }
    else none
  | .type =>
    if isTokenChar c then some { draft with type := draft.type.push c.toLower }
    else if c = '/' then some { draft with place := .subtype }
    else none
  | .subtype =>
    if isTokenChar c then some { draft with subtype := draft.subtype.push c.toLower }
    else if draft.subtype.isEmpty then none
    else if isSpace c then some { draft with place := .behindSubtype }
    else if c = ';' then some { draft with place := .beforeParameter }
    else none
  | .behindSubtype =>
    if draft.subtype.isEmpty then none
    else if isSpace c then some draft
    else if c = ';' then some { draft with place := .beforeParameter }
    else none
  | .beforeParameter =>
    if isSpace c then some draft
    else if isTokenChar c then some { draft with place := .name, name := draft.name.push c.toLower }
    else none
  | .name =>
    if isTokenChar c then some { draft with name := draft.name.push c.toLower }
    else if c = '=' then some { draft with place := .behindEquals }
    else none
  | .behindEquals =>
    if c = '"' then some { draft with place := .quoted }
    else if isTokenChar c then some { draft with place := .token, value := draft.value.push c }
    else none
  | .token =>
    if isTokenChar c then some { draft with value := draft.value.push c }
    else if c = ';' then some { draft.keep with place := .beforeParameter }
    else if isSpace c then some { draft.keep with place := .behindValue }
    else none
  | .quoted =>
    if c = '\\' then some { draft with place := .quotedPair }
    else if c = '"' then some { draft.keep with place := .behindValue }
    else if c ≠ '\t' ∧ isControl c then none
    else some { draft with value := draft.value.push c }
  | .quotedPair => some { draft with place := .quoted, value := draft.value.push c }
  | .behindValue =>
    if c = ';' then some { draft with place := .beforeParameter }
    else if isSpace c then some draft
    else none

/-- The content type that has been read, if it may end here. -/
def finish (draft : Draft) : Option MediaType :=
  match draft.place with
  | .subtype => if draft.subtype.isEmpty then none else some ⟨draft.type, draft.subtype, draft.parameters⟩
  | .behindSubtype | .beforeParameter | .behindValue => some ⟨draft.type, draft.subtype, draft.parameters⟩
  | .token => some ⟨draft.type, draft.subtype, draft.keep.parameters⟩
  | _ => none

end Draft

def parse? (text : String) : Option MediaType := (text.toList.foldlM Draft.step .start).bind Draft.finish

/-- The value of a parameter, whatever the case of its name. -/
def parameter (media : MediaType) (name : String) : Option String :=
  media.parameters.lookup (lowerString name)

/-- Whether this is the given type and subtype, whatever their case. -/
def is (media : MediaType) (type subtype : String) : Bool :=
  sameIgnoringCase media.type type && sameIgnoringCase media.subtype subtype

/-- The text of a quoted string between its quotes. -/
def escape : List Char → List Char
  | [] => []
  | c :: rest => if c = '"' ∨ c = '\\' then '\\' :: c :: escape rest else c :: escape rest

/-- A value as a token if it is one, and as a quoted string if not. -/
def renderValue (value : List Char) : List Char :=
  if !value.isEmpty && value.all isTokenChar then value else '"' :: escape value ++ ['"']

def renderParameter (name value : String) : List Char :=
  [';', ' '] ++ name.toList ++ ['='] ++ renderValue value.toList

def render (media : MediaType) : String :=
  String.ofList (media.type.toList ++ ['/'] ++ media.subtype.toList ++
    media.parameters.flatMap fun (name, value) => renderParameter name value)

def kind : ValueKind MediaType := ⟨"Content-type format", parse?⟩

end MediaType
end ArcFile
