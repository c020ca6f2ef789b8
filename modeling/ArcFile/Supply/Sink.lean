import ArcFile.Bytes
import ArcFile.Fault
import ArcFile.Supply.Basic
/-!
Sinks of bytes. A sink may have room for so many bytes only: it takes what fits and then faults.
-/
namespace ArcFile

structure Sink where
  /-- All bytes taken so far. -/
  bytes : Bytes
  /-- The number of bytes that still fit, if there is a limit. -/
  room : Option Nat
  deriving DecidableEq, Repr

namespace Sink

/-- A sink with room for so many bytes, or for all. -/
def empty (room : Option Nat) : Sink := ⟨[], room⟩

def write (data : Bytes) (sink : Sink) : Outcome Sink Unit :=
  match sink.room with
  | none => .ok () { sink with bytes := sink.bytes ++ data }
  | some room =>
    let after := ⟨sink.bytes ++ data.take room, some (room - data.length)⟩
    if data.length ≤ room then .ok () after else .error .outputFull after

end Sink
end ArcFile
