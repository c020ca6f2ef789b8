/-!
Character classes of RFC 2616: control characters, separators, and the token characters that are
neither. All three are ASCII.
-/
namespace ArcFile.Text

/-- ASCII control characters: 0 to 31, and 127. -/
def isControl (c : Char) : Bool := c.toNat < 32 || c.toNat == 127

def separators : List Char :=
  ['(', ')', '<', '>', '@', ',', ';', ':', '\\', '"', '/', '[', ']', '?', '=', '{', '}', ' ', '\t']

/-- A character that may stand in a token. -/
def isTokenChar (c : Char) : Bool := c.toNat < 128 && !isControl c && !separators.contains c

def isAscii (c : Char) : Bool := c.toNat < 128

/-- ASCII letters in lower case, all else as it is. -/
def lower (text : List Char) : List Char := text.map Char.toLower

def lowerString (text : String) : String := String.ofList (lower text.toList)

/-- Equal but for the case of ASCII letters. -/
def sameIgnoringCase (a b : String) : Bool := lower a.toList == lower b.toList

end ArcFile.Text
