import ArcFile.Bytes
/-!
Reading UTF-8. `scan` cuts bytes into characters and parts that are no character; such a part is
one byte, or as many bytes as begin some character before the one that does not fit. `decode?`
accepts sound UTF-8 alone, and `decodeLossy` puts U+FFFD in the place of every unsound part.
-/
namespace ArcFile.Utf8

def isContinuation (b : UInt8) : Bool := 0x80 ≤ b && b ≤ 0xBF

/-- The low six bits of a byte. -/
def low (b : UInt8) : Nat := b.toNat % 64

/-- The last two bytes of a character of four, of which `value` has been read. -/
def lastTwo (value : Nat) : Bytes → Option Char × Bytes
  | c :: d :: rest =>
    if !isContinuation c then (none, c :: d :: rest)
    else if !isContinuation d then (none, d :: rest)
    else (some (Char.ofNat ((value * 64 + low c) * 64 + low d)), rest)
  | [c] => if isContinuation c then (none, []) else (none, [c])
  | [] => (none, [])

/-- The last byte of a character of which `value` has been read. -/
def lastOne (value : Nat) : Bytes → Option Char × Bytes
  | c :: rest =>
    if isContinuation c then (some (Char.ofNat (value * 64 + low c)), rest) else (none, c :: rest)
  | [] => (none, [])

/-- The second byte of a character, which must lie from `lo` to `hi`, and then the others. -/
def second (lo hi : UInt8) (value : Nat) (others : Nat → Bytes → Option Char × Bytes) :
    Bytes → Option Char × Bytes
  | c :: rest => if lo ≤ c && c ≤ hi then others (value * 64 + low c) rest else (none, c :: rest)
  | [] => (none, [])

/-- The character that begins with the byte `b`, and what follows it. -/
def next (b : UInt8) (rest : Bytes) : Option Char × Bytes :=
  if b < 0x80 then (some (Char.ofNat b.toNat), rest)
  else if 0xC2 ≤ b && b ≤ 0xDF then lastOne (b.toNat % 32) rest
  else if b == 0xE0 then second 0xA0 0xBF 0 lastOne rest
  else if b == 0xED then second 0x80 0x9F 13 lastOne rest
  else if 0xE1 ≤ b && b ≤ 0xEF then second 0x80 0xBF (b.toNat % 16) lastOne rest
  else if b == 0xF0 then second 0x90 0xBF 0 lastTwo rest
  else if b == 0xF4 then second 0x80 0x8F 4 lastTwo rest
  else if 0xF1 ≤ b && b ≤ 0xF3 then second 0x80 0xBF (b.toNat % 8) lastTwo rest
  else (none, rest)

theorem length_lastTwo (value : Nat) (data : Bytes) :
    (lastTwo value data).2.length ≤ data.length := by
  unfold lastTwo
  repeat' split
  all_goals simp
  all_goals omega

theorem length_lastOne (value : Nat) (data : Bytes) :
    (lastOne value data).2.length ≤ data.length := by
  unfold lastOne
  repeat' split
  all_goals simp

theorem length_second {lo hi : UInt8} {value : Nat} {others : Nat → Bytes → Option Char × Bytes}
    (shorter : ∀ v d, (others v d).2.length ≤ d.length) (data : Bytes) :
    (second lo hi value others data).2.length ≤ data.length := by
  unfold second
  split
  · split
    · exact Nat.le_trans (shorter _ _) (by simp)
    · exact Nat.le_refl _
  · exact Nat.le_refl _

theorem length_next (b : UInt8) (rest : Bytes) : (next b rest).2.length ≤ rest.length := by
  unfold next
  repeat' split
  all_goals first
    | exact Nat.le_refl _
    | exact length_lastOne _ _
    | exact length_second length_lastOne _
    | exact length_second length_lastTwo _

/-- The characters of some bytes in order, `none` for every part that is no character. -/
def scan : Bytes → List (Option Char)
  | [] => []
  | b :: rest =>
    have := length_next b rest
    (next b rest).1 :: scan (next b rest).2
termination_by data => data.length

/-- The text that these bytes spell, if they are sound UTF-8. -/
def decode? (data : Bytes) : Option String :=
  ((scan data).mapM id).map String.ofList

/-- The text that these bytes spell, with U+FFFD for every unsound part. -/
def decodeLossy (data : Bytes) : String :=
  String.ofList ((scan data).map fun c => c.getD '\uFFFD')

end ArcFile.Utf8
