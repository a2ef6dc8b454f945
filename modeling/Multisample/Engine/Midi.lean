/-!
# MIDI messages

A short message is a status byte with data bytes below 128.  The engine acts on
notes and controllers and lets everything else pass.
-/

namespace Multisample

/-- The bytes of a short message, three at most, and the frame of the block at which it came. -/
structure MidiEvent where
  offset : Nat
  bytes : List UInt8
deriving DecidableEq, Repr, Inhabited

/-- What the engine acts on; channels count from 0. -/
inductive MidiMessage where
  | noteOn (channel key velocity : Nat)
  | noteOff (channel key : Nat)
  | controller (channel number : Nat)
deriving DecidableEq, Repr

namespace MidiEvent

/-- Keeps the first three bytes. -/
def ofBytes (offset : Nat) (bytes : List UInt8) : MidiEvent :=
  ⟨offset, bytes.take 3⟩

/-- A status byte for a channel; of the channel the lowest four bits count. -/
def status (kind channel : Nat) : UInt8 :=
  UInt8.ofNat (kind * 16 + channel % 16)

/-- The lowest seven bits of a number. -/
def data (value : Nat) : UInt8 :=
  UInt8.ofNat (value % 128)

def noteOn (offset channel key velocity : Nat) : MidiEvent :=
  ⟨offset, [status 9 channel, data key, data velocity]⟩

def noteOff (offset channel key : Nat) : MidiEvent :=
  ⟨offset, [status 8 channel, data key, 0]⟩

def controller (offset channel number value : Nat) : MidiEvent :=
  ⟨offset, [status 11 channel, data number, data value]⟩

/-- Reads an event; the data end at the next status byte, and a note on without velocity is a note
off. -/
def message? (e : MidiEvent) : Option MidiMessage :=
  match e.bytes with
  | [] => none
  | first :: rest =>
    let channel := first.toNat % 16
    match first.toNat / 16, (rest.takeWhile (· < 128)).map UInt8.toNat with
    | 8, key :: _ :: _ => some (.noteOff channel key)
    | 9, key :: velocity :: _ =>
      some (if velocity = 0 then .noteOff channel key else .noteOn channel key velocity)
    | 11, number :: _ :: _ => some (.controller channel number)
    | _, _ => none

end MidiEvent

end Multisample
