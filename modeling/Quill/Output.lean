/-
Module: Quill.Output
Layer: Running
Purpose: Where programs print to. A sink collects bytes; it may have a capacity, and then keeps what fits
  and refuses the rest.
Main exports: Sink, Sink.write, Sink.text
-/

namespace Quill

/-- The bytes written so far, and how many can be held, if that is limited. -/
structure Sink where
  written : ByteArray
  capacity : Option Nat

namespace Sink

/-- A sink that takes everything. -/
def unlimited : Sink :=
  ⟨ByteArray.empty, none⟩

/-- A sink that takes as many bytes as given, or everything. -/
def ofCapacity (capacity : Option Nat) : Sink :=
  ⟨ByteArray.empty, capacity⟩

/-- Why a sink refuses bytes. -/
def refusal : String :=
  "sink full"

/-- Writes bytes and tells whether all of them fitted; those that fit are kept. -/
def write (s : Sink) (bytes : ByteArray) : Bool × Sink :=
  match s.capacity with
  | none => (true, { s with written := s.written ++ bytes })
  | some capacity =>
    let room := capacity - s.written.size
    if bytes.size ≤ room then
      (true, { s with written := s.written ++ bytes })
    else
      (false, { s with written := s.written ++ bytes.extract 0 room })

/-- The text of bytes that may end within a character: an incomplete last character is shown as the
    replacement character. -/
def decode (bytes : ByteArray) : String :=
  let upTo (n : Nat) : Option String := String.fromUTF8? (bytes.extract 0 (bytes.size - n))
  match upTo 0, upTo 1, upTo 2, upTo 3 with
  | some text, _, _, _ => text
  | none, some text, _, _ => text ++ "\uFFFD"
  | none, none, some text, _ => text ++ "\uFFFD"
  | none, none, none, some text => text ++ "\uFFFD"
  | none, none, none, none => ""

/-- The text written since `start` bytes had been written. -/
def textFrom (s : Sink) (start : Nat) : String :=
  decode (s.written.extract start s.written.size)

/-- The text written. -/
def text (s : Sink) : String :=
  s.textFrom 0

end Sink

end Quill
