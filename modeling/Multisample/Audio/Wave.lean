import Multisample.Audio.Buffer

/-!
# WAV files

A WAV file is a chain of tagged chunks: `fmt ` describes the samples and `data`
holds them, interleaved and little-endian.  Whole-number samples are read as
fractions of full scale; float samples are kept as they are.
-/

namespace Multisample.Wave

/-- How a sample is stored. -/
inductive Encoding where
  /-- Whole numbers of so many bytes; one-byte samples are stored with an offset. -/
  | integer (bytes : Nat)
  | float
deriving DecidableEq, Repr

namespace Encoding

def bytes : Encoding → Nat
  | integer bytes => bytes
  | float => 4

def tag : Encoding → Nat
  | integer _ => 1
  | float => 3

end Encoding

/-- The lowest `count` bytes of a number, lowest first. -/
def littleEndian : Nat → Nat → List UInt8
  | 0, _ => []
  | count + 1, n => n.toUInt8 :: littleEndian count (n / 256)

def ofLittleEndian (bytes : List UInt8) : Nat :=
  bytes.foldr (fun b n => b.toNat + 256 * n) 0

/-- A whole number in two's complement over so many bytes. -/
def signed (bytes n : Nat) : Int :=
  if n < 1 <<< (8 * bytes - 1) then n else (n : Int) - (1 <<< (8 * bytes) : Nat)

/-- The whole number nearest to a sample toward zero, kept inside the range of the encoding. -/
def integerOf (bytes : Nat) (x : Float32) : Int :=
  let limit : Int := (1 <<< (8 * bytes - 1) : Nat)
  let magnitude : Int := Scalar.toNat (Scalar.abs x.toFloat)
  if x < 0 then max (-magnitude) (-limit) else min magnitude (limit - 1)

def sampleBytes (e : Encoding) (x : Float32) : List UInt8 :=
  match e with
  | .float => littleEndian 4 x.toBits.toNat
  | .integer bytes =>
    let n := integerOf bytes x
    let n := if bytes = 1 then n + 128 else n
    littleEndian bytes (n % (1 <<< (8 * bytes) : Nat)).toNat

def readSample (e : Encoding) (bytes : List UInt8) : Float32 :=
  let n := ofLittleEndian bytes
  match e with
  | .float => Float32.ofBits n.toUInt32
  | .integer width =>
    let n := if width = 1 then (n : Int) - 128 else signed width n
    (Float.ofInt n / (1 <<< (8 * width - 1) : Nat).toFloat).toFloat32

def ascii (text : String) : List UInt8 :=
  text.toUTF8.toList

/-- A WAV file with these interleaved samples. -/
def encode (e : Encoding) (channels rate : Nat) (samples : Array Float32) : ByteArray :=
  let frame := channels * e.bytes
  let size := samples.size * e.bytes
  let header := ascii "RIFF" ++ littleEndian 4 (36 + size) ++ ascii "WAVEfmt "
    ++ littleEndian 4 16 ++ littleEndian 2 e.tag ++ littleEndian 2 channels
    ++ littleEndian 4 rate ++ littleEndian 4 (rate * frame) ++ littleEndian 2 frame
    ++ littleEndian 2 (8 * e.bytes) ++ ascii "data" ++ littleEndian 4 size
  samples.foldl (fun out x => (sampleBytes e x).foldl ByteArray.push out) ⟨header.toArray⟩

/-- What the `fmt ` chunk says. -/
structure Format where
  encoding : Encoding
  channels : Nat
  rate : Nat
deriving DecidableEq, Repr

def field (file : ByteArray) (start count : Nat) : List UInt8 :=
  (file.extract start (start + count)).toList

def number (file : ByteArray) (start count : Nat) : Nat :=
  ofLittleEndian (field file start count)

/-- The start and size of the first chunk with a tag, looking from a place on. -/
def chunkFrom? (file : ByteArray) (tag : List UInt8) : Nat → Nat → Option (Nat × Nat)
  | 0, _ => none
  | fuel + 1, start =>
    if file.size < start + 8 then none
    else
      let size := number file (start + 4) 4
      if field file start 4 == tag then some (start + 8, min size (file.size - (start + 8)))
      else chunkFrom? file tag fuel (start + 8 + size + size % 2)

def chunk? (file : ByteArray) (tag : String) : Option (Nat × Nat) :=
  chunkFrom? file (ascii tag) file.size 12

def isWave (file : ByteArray) : Bool :=
  field file 0 4 == ascii "RIFF" && field file 8 4 == ascii "WAVE"

def encodingOf? (tag bits : Nat) : Option Encoding :=
  if tag = 3 && bits = 32 then some .float
  else if tag = 1 && (bits = 8 || bits = 16 || bits = 24 || bits = 32) then
    some (.integer (bits / 8))
  else none

def format? (file : ByteArray) : Option Format := do
  let (start, _) ← chunk? file "fmt "
  let encoding ← encodingOf? (number file start 2) (number file (start + 14) 2)
  return ⟨encoding, number file (start + 2) 2, number file (start + 4) 4⟩

/-- The format and the samples of a WAV file; nothing for any other file. -/
def decode? (file : ByteArray) : Option (Format × Array Float32) := do
  guard (isWave file)
  let format ← format? file
  guard (0 < format.channels)
  let (start, size) ← chunk? file "data"
  let width := format.encoding.bytes
  let samples := (List.range (size / width)).foldl
    (fun out k => out.push (readSample format.encoding (field file (start + k * width) width))) #[]
  return (format, samples)

end Multisample.Wave
