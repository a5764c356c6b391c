/-!
# Output sinks

A sink collects the bytes that a program writes. It may accept only a limited number of bytes in
all: a write that goes past the limit keeps the bytes that fit and fails. Flushing may fail on its
own account. The reasons for both are the sink's own.

A run stops at the first write that fails, so what any sink does to a run comes down to how many
bytes it has taken by then, why it takes no more, and whether and why flushing it fails.
-/

namespace PiScript

/-- Why output was refused, in words. -/
structure WriteError where
  message : String
deriving DecidableEq

def WriteError.full : WriteError :=
  ⟨"sink full"⟩

def WriteError.flush : WriteError :=
  ⟨"flush failed"⟩

structure Sink where
  written : ByteArray := .empty
  /-- How many bytes are accepted in all; `none` for any number. -/
  limit : Option Nat := none
  /-- Why bytes past the limit are refused. -/
  refusal : WriteError := .full
  flushFails : Bool := false
  /-- Why flushing fails, if it does. -/
  flushError : WriteError := .flush

namespace Sink

def unlimited : Sink := {}

def fits (s : Sink) (n : Nat) : Bool :=
  match s.limit with
  | none => true
  | some limit => decide (n ≤ limit - s.written.size)

def fitting (s : Sink) (bytes : ByteArray) : ByteArray :=
  match s.limit with
  | none => bytes
  | some limit => bytes.extract 0 (limit - s.written.size)

/-- Writes a text. The sink keeps what fits even if the write fails. -/
def write (s : Sink) (text : String) : Sink × Option WriteError :=
  let bytes := text.toUTF8
  if s.fits bytes.size then
    ({ s with written := s.written ++ bytes }, none)
  else
    ({ s with written := s.written ++ s.fitting bytes }, some s.refusal)

def flush (s : Sink) : Option WriteError :=
  if s.flushFails then some s.flushError else none

end Sink

end PiScript
