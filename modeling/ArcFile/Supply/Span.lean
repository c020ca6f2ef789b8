import ArcFile.Digest
import ArcFile.Supply.Cursor
/-!
Spans and bodies. A `Span` is exactly as many bytes of a supply as were declared, or all there are if there are
fewer; its digest covers every byte that passes through. A `Body` reads a span through a cursor, so
that the start of it can be parsed, and digests what is read from some point on.
-/
namespace ArcFile

structure Span (σ : Type) where
  inner : σ
  length : Nat
  /-- The number of declared bytes that have not been read. -/
  remaining : Nat
  /-- The number of declared bytes that were missing when the supply ended. -/
  unavailable : Nat
  digest : Option Digest.Running
  closed : Bool

namespace Span

variable {σ : Type}

def create (inner : σ) (length : Nat) (digest : Option Digest.Running) : Span σ :=
  ⟨inner, length, length, 0, digest, false⟩

variable [Supply σ]

def read (n : Nat) (span : Span σ) : Outcome (Span σ) Bytes :=
  if span.remaining = 0 ∨ n = 0 then .ok [] span
  else
    match Supply.read (min n span.remaining) span.inner with
    | .error fault inner => .error fault { span with inner }
    | .ok [] inner => .ok [] { span with inner, unavailable := span.remaining, remaining := 0 }
    | .ok (b :: more) inner =>
      .ok (b :: more) { span with
        inner
        digest := span.digest.map (·.update (b :: more))
        remaining := span.remaining - (b :: more).length }

theorem read_ok {n : Nat} {s s' : Span σ} {data : Bytes} (h : read n s = .ok data s') :
    data.length ≤ n ∧ data.length + Supply.bound s'.inner ≤ Supply.bound s.inner := by
  unfold read at h
  repeat' split at h
  all_goals cases h
  · simp
  · next found =>
    have := Supply.read_ok found
    simp at *
    omega
  · next found =>
    have := Supply.read_ok found
    simp at *
    omega

theorem read_error {n : Nat} {s s' : Span σ} {fault : Fault} (h : read n s = .error fault s') :
    Supply.bound s'.inner ≤ Supply.bound s.inner := by
  unfold read at h
  repeat' split at h
  all_goals cases h
  next found => exact Supply.read_error found

instance : Supply (Span σ) where
  read := read
  bound span := Supply.bound span.inner
  read_ok := read_ok
  read_error := read_error

/-- The most bytes that are read at a time when what is left of a span is passed over. -/
def stride : Nat := 4096

theorem remaining_of_read {n : Nat} {s s' : Span σ} {b : UInt8} {more : Bytes}
    (h : read n s = .ok (b :: more) s') : s'.remaining < s.remaining := by
  unfold read at h
  repeat' split at h
  all_goals cases h
  simp only [List.length_cons]
  omega

/-- Reads what is left for nothing. -/
def passOver (span : Span σ) : Outcome (Span σ) Unit :=
  if span.remaining = 0 then .ok () span
  else
    match found : read stride span with
    | .error fault span => .error fault span
    | .ok [] span => .ok () span
    | .ok (_ :: _) span' =>
      have := remaining_of_read found
      passOver span'
termination_by span.remaining

theorem bound_passOver (span : Span σ) :
    Supply.bound (passOver span).state.inner ≤ Supply.bound span.inner := by
  fun_induction passOver span with
  | case1 => exact Nat.le_refl _
  | case2 _ _ _ _ found => exact read_error found
  | case3 _ _ _ found => exact Nat.le_trans (Nat.le_add_left _ _) (read_ok found).2
  | case4 _ _ _ _ _ found _ ih => exact Nat.le_trans ih (Nat.le_trans (Nat.le_add_left _ _) (read_ok found).2)

/-- Brings the supply to the end of the span. Doing so again has no effect. -/
def close (span : Span σ) : Outcome (Span σ) Unit :=
  if span.closed then .ok () span
  else
    match passOver span with
    | .ok () span => .ok () { span with closed := true }
    | .error fault span => .error fault span

/-- Closes the span and gives the digest of all its bytes, once. -/
def takeDigest (span : Span σ) : Outcome (Span σ) (Option Digest) :=
  match close span with
  | .ok () span => .ok (span.digest.map (·.finish)) { span with digest := none }
  | .error fault span => .error fault span

theorem bound_close (span : Span σ) : Supply.bound (close span).state.inner ≤ Supply.bound span.inner := by
  have := bound_passOver span
  unfold close
  split
  · exact Nat.le_refl _
  · split <;> simp_all [Outcome.state]

theorem bound_takeDigest (span : Span σ) :
    Supply.bound (takeDigest span).state.inner ≤ Supply.bound span.inner := by
  have := bound_close span
  unfold takeDigest
  split <;> simp_all [Outcome.state]

end Span

structure Body (σ : Type) where
  cursor : Cursor (Span σ)
  /-- The digest of what is read from the body, once it has been started. -/
  digest : Option Digest.Running

namespace Body

variable {σ : Type}

/-- What is known of a body once it has been closed. -/
structure Sealed where
  unavailable : Nat
  blockDigest : Option Digest
  payloadDigest : Option Digest
  deriving DecidableEq, Repr

def create (inner : σ) (length : Nat) (blockDigest : Option Digest.Running)
    (capacity pushback : Nat) : Body σ :=
  ⟨.create (.create inner length blockDigest) capacity pushback, none⟩

/-- The declared length. -/
def declared (body : Body σ) : Nat := body.cursor.supply.length

def consumed (body : Body σ) : Nat := body.cursor.consumed

/-- The number of bytes not yet handed out, if none are missing. -/
def remaining (body : Body σ) : Nat := body.declared - body.consumed

def startDigest (algorithm : Digest.Algorithm) (body : Body σ) : Body σ :=
  { body with digest := some (.start algorithm) }

/-- Takes bytes into the digest, if it has been started. -/
def digested (data : Bytes) (body : Body σ) : Body σ :=
  { body with digest := body.digest.map (·.update data) }

/-- Hands out `n` of the bytes that `fill` gave. -/
def advance (n : Nat) (body : Body σ) : Body σ :=
  let c := body.cursor
  let held := if c.pushback.bytes.isEmpty then c.buffer else c.pushback.bytes
  { body.digested (held.take n) with cursor := c.advance n }

/-- Takes something from the start of the body. It does not count for the digest. -/
def parse {α : Type} (action : Cursor (Span σ) → Outcome (Cursor (Span σ)) α) (body : Body σ) :
    Outcome (Body σ) α :=
  match action body.cursor with
  | .ok a cursor => .ok a { body with cursor }
  | .error fault cursor => .error fault { body with cursor }

/-- The supply that the body is part of. -/
def source (body : Body σ) : σ := body.cursor.supply.inner

variable [Supply σ]

/-- The bytes at hand, without handing them out. -/
def fill (body : Body σ) : Outcome (Body σ) Bytes :=
  match Cursor.fill body.cursor with
  | .ok data cursor => .ok data { body with cursor }
  | .error fault cursor => .error fault { body with cursor }

def read (n : Nat) (body : Body σ) : Outcome (Body σ) Bytes :=
  match Cursor.read n body.cursor with
  | .ok data cursor => .ok data ({ body with cursor }.digested data)
  | .error fault cursor => .error fault { body with cursor }

/-- Hands out all that is left for nothing, but takes it into the digest. -/
def drain (body : Body σ) : Outcome (Body σ) Unit :=
  match found : Cursor.fill body.cursor with
  | .error fault cursor => .error fault { body with cursor }
  | .ok [] cursor => .ok () { body with cursor }
  | .ok (b :: more) cursor =>
    have : (cursor.advance (b :: more).length).left < body.cursor.left := by
      obtain ⟨_, less, gone⟩ := Cursor.fill_ok found
      have := gone (b :: more).length (Nat.le_refl _)
      simp only [List.length_cons] at *
      omega
    drain { body.digested (b :: more) with cursor := cursor.advance (b :: more).length }
termination_by body.cursor.left

/-- A bound on what can still be read from the body, and from its source after it. -/
def left (body : Body σ) : Nat := body.cursor.left

theorem left_create (inner : σ) (length : Nat) (blockDigest : Option Digest.Running)
    (capacity pushback : Nat) :
    (create inner length blockDigest capacity pushback).left = Supply.bound inner := by
  simp [left, create, Cursor.left, Cursor.create, Pushback.empty]
  rfl

theorem bound_source_le_left (body : Body σ) : Supply.bound body.source ≤ body.left :=
  Nat.le_add_left _ _

theorem read_ok {n : Nat} {body body' : Body σ} {data : Bytes} (h : read n body = .ok data body') :
    data.length ≤ n ∧ data.length + body'.left ≤ body.left := by
  unfold read at h
  split at h
  · next found =>
    cases h
    exact Cursor.read_ok found
  · cases h

theorem read_error {n : Nat} {body body' : Body σ} {fault : Fault} (h : read n body = .error fault body') :
    body'.left ≤ body.left := by
  unfold read at h
  split at h
  · cases h
  · next found =>
    cases h
    exact Cursor.read_error found

theorem left_drain (body : Body σ) : (drain body).state.left ≤ body.left := by
  fun_induction drain body with
  | case1 _ _ _ found => exact Cursor.fill_error found
  | case2 _ _ found => exact (Cursor.fill_ok found).2.1
  | case3 body b more cursor found smaller ih => exact Nat.le_trans ih (Nat.le_of_lt smaller)

/-- Brings the supply to the end of the body and finishes the digests. -/
def close (body : Body σ) : Outcome σ Sealed :=
  match drain body with
  | .error fault body => .error fault body.source
  | .ok () body =>
    match Span.takeDigest body.cursor.supply with
    | .error fault span => .error fault span.inner
    | .ok blockDigest span =>
      .ok ⟨span.unavailable, blockDigest, body.digest.map (·.finish)⟩ span.inner

theorem left_parse {α : Type} {action : Cursor (Span σ) → Outcome (Cursor (Span σ)) α} {body : Body σ}
    (h : (action body.cursor).state.left ≤ body.left) : (body.parse action).state.left ≤ body.left := by
  unfold parse
  split
  all_goals
    next found =>
      rw [found] at h
      exact h

theorem bound_close (body : Body σ) : Supply.bound (close body).state ≤ body.left := by
  have drained := left_drain body
  unfold close
  split
  · next found =>
    rw [found] at drained
    exact Nat.le_trans (bound_source_le_left _) drained
  · next body' found =>
    rw [found] at drained
    have digest := Span.bound_takeDigest body'.cursor.supply
    have : Supply.bound body'.cursor.supply.inner ≤ body'.left := bound_source_le_left body'
    split
    · next closed =>
      rw [closed] at digest
      simp only [Outcome.state] at *
      omega
    · next closed =>
      rw [closed] at digest
      simp only [Outcome.state] at *
      omega

end Body
end ArcFile
