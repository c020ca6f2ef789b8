import ArcFile.Gzip.Block
/-!
Decoding deflate data. The decoder takes bits as they come and stops where they run out, where its window
of 32 KiB is full up to the end, or where the data ends. Bits that are too few for the next item
are kept until more come.

Every bit gives at most 258 bytes, so what is still owed bounds the output (`owed_decode`).
-/
namespace ArcFile.Gzip

/-- Output that a token has called for and that is not yet written. -/
inductive Debt where
  | nothing
  | byte (value : UInt8)
  | copy (length distance : Nat)

namespace Debt

/-- The number of bytes. -/
def size : Debt → Nat
  | nothing => 0
  | byte _ => 1
  | copy length _ => length

/-- The steps until the next token is read. -/
def steps : Debt → Nat
  | nothing => 0
  | byte _ => 1
  | copy length _ => length + 1

end Debt

/-- Where in a block the decoder stands. -/
inductive Phase where
  | start
  | stored (left : Nat)
  | coded (codes : Codes) (debt : Debt)
  | finished

namespace Phase

def isFinished : Phase → Bool
  | finished => true
  | _ => false

/-- The bytes that a token has called for and that are not yet written. -/
def owed : Phase → Nat
  | coded _ debt => debt.size
  | _ => 0

/-- The steps until the next item is read. -/
def steps : Phase → Nat
  | stored _ => 1
  | coded _ debt => debt.steps
  | _ => 0

/-- The next step writes a byte. -/
def writes : Phase → Bool
  | stored left => left ≠ 0
  | coded _ debt => debt.size ≠ 0
  | _ => false

/-- Where the decoder stands after a block. -/
def afterBlock (last : Bool) : Phase := if last then finished else start

theorem owed_afterBlock (last : Bool) : (afterBlock last).owed = 0 := by
  cases last <;> rfl

theorem steps_afterBlock (last : Bool) : (afterBlock last).steps = 0 := by
  cases last <;> rfl

/-- Where the decoder stands after the header of a block. -/
def afterHeader : BlockKind → Phase
  | .stored size => stored size
  | .coded codes => coded codes .nothing

theorem owed_afterHeader (kind : BlockKind) : (afterHeader kind).owed = 0 := by
  cases kind <;> rfl

theorem steps_afterHeader (kind : BlockKind) : (afterHeader kind).steps ≤ 1 := by
  cases kind <;> simp [afterHeader, steps, Debt.steps]

/-- Where the decoder stands after a token. -/
def afterToken (codes : Codes) (last : Bool) : Token → Phase
  | .byte b => coded codes (.byte b)
  | .copy length distance _ => coded codes (.copy length distance)
  | .endOfBlock => afterBlock last

theorem owed_afterToken (codes : Codes) (last : Bool) (token : Token) :
    (afterToken codes last token).owed ≤ 258 := by
  cases token with
  | byte _ => simp [afterToken, owed, Debt.size]
  | copy length distance le => exact le
  | endOfBlock => simp [afterToken, owed_afterBlock]

theorem steps_afterToken (codes : Codes) (last : Bool) (token : Token) :
    (afterToken codes last token).steps ≤ 259 := by
  cases token with
  | byte _ => simp [afterToken, steps, Debt.steps]
  | copy length distance le => exact Nat.succ_le_succ le
  | endOfBlock => simp [afterToken, steps_afterBlock]

end Phase

/-- Why the decoder stopped. -/
inductive Stop where
  /-- The next item needs more bits. -/
  | short
  /-- The window is full. -/
  | full
  | finished
  | corrupt
  deriving DecidableEq, Repr

structure Inflater where
  /-- The block under way is the last one. -/
  last : Bool
  phase : Phase
  /-- Bits not yet decoded. -/
  bits : Bits
  /-- All bytes decoded so far. -/
  window : Array UInt8

namespace Inflater

def start : Inflater := ⟨false, .start, [], #[]⟩

def windowSize : Nat := 32768

/-- The bytes that fit before the window is full. -/
def room (s : Inflater) : Nat := windowSize - s.window.size % windowSize

/-- The byte at a distance back. Before the first byte there are zeros. -/
def back (window : Array UInt8) (distance : Nat) : UInt8 :=
  if distance ≤ window.size then window.getD (window.size - distance) 0 else 0

/-- What the decoder may still give, if its bits alone are counted. -/
def owed (s : Inflater) : Nat := s.phase.owed + 258 * s.bits.length

/-- A bound on the steps that the decoder can go on. -/
def steps (s : Inflater) : Nat := 260 * s.bits.length + s.phase.steps

/-- What a single step gives: the decoder after it, or why there is none. -/
inductive Step where
  | next (s : Inflater)
  | stop (why : Stop)

/-- Reads an item and goes on with what follows from it. -/
def advance {α : Type} (s : Inflater) (reader : BitReader α) (next : α → Bits → Inflater) : Step :=
  match reader s.bits with
  | .short => .stop .short
  | .corrupt => .stop .corrupt
  | .done value rest _ => .next (next value rest)

/-- Goes one step: over the header of a block, a token, or a byte of output. -/
def step (s : Inflater) : Step :=
  match s.phase with
  | .finished => .stop .finished
  | .start => s.advance BlockHeader.read fun header bits =>
      { s with last := header.last, phase := .afterHeader header.kind, bits }
  | .stored 0 => .next { s with phase := .afterBlock s.last }
  | .stored (left + 1) => s.advance (BitReader.number 8) fun b bits =>
      { s with phase := .stored left, bits, window := s.window.push (UInt8.ofNat b) }
  | .coded codes .nothing => s.advance (Token.read codes) fun token bits =>
      { s with phase := .afterToken codes s.last token, bits }
  | .coded codes (.byte b) =>
    .next { s with phase := .coded codes .nothing, window := s.window.push b }
  | .coded codes (.copy 0 _) => .next { s with phase := .coded codes .nothing }
  | .coded codes (.copy (length + 1) distance) =>
    .next { s with
      phase := .coded codes (.copy length distance)
      window := s.window.push (back s.window distance) }

theorem advance_next {α : Type} {s s' : Inflater} {reader : BitReader α} {next : α → Bits → Inflater}
    (strict : reader.Strict) (h : s.advance reader next = .next s') :
    ∃ value rest, rest.length < s.bits.length ∧ s' = next value rest := by
  unfold advance at h
  split at h
  · cases h
  · cases h
  · next value rest _ found =>
    cases h
    exact ⟨value, rest, strict found, rfl⟩

/-- Every step brings the decoder nearer to its stop. -/
theorem steps_of_step {s s' : Inflater} (h : s.step = .next s') : s'.steps < s.steps := by
  unfold step at h
  split at h
  · cases h
  · obtain ⟨header, rest, less, rfl⟩ := advance_next BlockHeader.strict_read h
    have := Phase.steps_afterHeader header.kind
    simp only [steps]
    omega
  · next stands =>
    cases h
    have := Phase.steps_afterBlock s.last
    have : (Phase.stored 0).steps = 1 := rfl
    simp only [steps, stands]
    omega
  · next stands =>
    obtain ⟨b, rest, less, rfl⟩ := advance_next (BitReader.strict_bind BitReader.strict_bit _) h
    simp only [steps, stands, Phase.steps]
    omega
  · next codes stands =>
    obtain ⟨token, rest, less, rfl⟩ := advance_next (Token.strict_read codes) h
    have := Phase.steps_afterToken codes s.last token
    simp only [steps]
    omega
  all_goals
    next stands =>
      cases h
      simp [steps, stands, Phase.steps, Debt.steps]

/-- A step that does not write leaves the output as it is, and any other writes a single byte. -/
theorem size_of_step {s s' : Inflater} (h : s.step = .next s') :
    s'.window.size = s.window.size + s.phase.writes.toNat := by
  unfold step at h
  split at h
  · cases h
  · next stands =>
    obtain ⟨header, rest, less, rfl⟩ := advance_next BlockHeader.strict_read h
    simp [stands, Phase.writes]
  · next stands =>
    cases h
    simp [stands, Phase.writes]
  · next stands =>
    obtain ⟨b, rest, less, rfl⟩ := advance_next (BitReader.strict_bind BitReader.strict_bit _) h
    simp [stands, Phase.writes]
  · next codes stands =>
    obtain ⟨token, rest, less, rfl⟩ := advance_next (Token.strict_read codes) h
    simp [stands, Phase.writes, Debt.size]
  all_goals
    next stands =>
      cases h
      simp [stands, Phase.writes, Debt.size]

/-- A step pays for what it writes out of what the decoder owed. -/
theorem owed_of_step {s s' : Inflater} (h : s.step = .next s') :
    s.phase.writes.toNat + s'.owed ≤ s.owed := by
  unfold step at h
  split at h
  · cases h
  · next stands =>
    obtain ⟨header, rest, less, rfl⟩ := advance_next BlockHeader.strict_read h
    have := Phase.owed_afterHeader header.kind
    have : Phase.start.owed = 0 := rfl
    simp only [owed, stands, Phase.writes, Bool.toNat_false]
    omega
  · next stands =>
    cases h
    have := Phase.owed_afterBlock s.last
    have : (Phase.stored 0).owed = 0 := rfl
    simp [owed, stands, Phase.writes]
    omega
  · next stands =>
    obtain ⟨b, rest, less, rfl⟩ := advance_next (BitReader.strict_bind BitReader.strict_bit _) h
    simp [owed, stands, Phase.writes, Phase.owed]
    omega
  · next codes stands =>
    obtain ⟨token, rest, less, rfl⟩ := advance_next (Token.strict_read codes) h
    have := Phase.owed_afterToken codes s.last token
    have : (Phase.coded codes .nothing).owed = 0 := rfl
    simp [owed, stands, Phase.writes, Debt.size]
    omega
  · next stands =>
    cases h
    simp [owed, stands, Phase.writes, Phase.owed, Debt.size]
  · next stands =>
    cases h
    simp [owed, stands, Phase.writes, Phase.owed, Debt.size]
  · next stands =>
    cases h
    simp [owed, stands, Phase.writes, Phase.owed, Debt.size]
    omega

/-- Decodes until it must stop, writing no more than `room` bytes. -/
def decode (room : Nat) (s : Inflater) : Inflater × Stop :=
  if s.phase.writes ∧ room = 0 then (s, .full)
  else
    match found : s.step with
    | .stop why => (s, why)
    | .next s' =>
      have := steps_of_step found
      decode (room - s.phase.writes.toNat) s'
termination_by s.steps

/-- What the decoder gives and what it then owes is no more than what it owed. -/
theorem owed_decode (room : Nat) (s : Inflater) :
    s.window.size ≤ (s.decode room).1.window.size ∧
      (s.decode room).1.window.size + (s.decode room).1.owed ≤ s.window.size + s.owed := by
  fun_induction decode room s with
  | case1 => simp
  | case2 => simp
  | case3 room s _ s' found _ ih =>
    have := size_of_step found
    have := owed_of_step found
    omega

end Inflater
end ArcFile.Gzip
