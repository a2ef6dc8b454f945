import Multisample.Library.Model
import Multisample.Script.Schema

/-!
# The records of libraries

Each part of a library has a schema, and is made from the values of a table
that fits it.  What a table leaves out has the default of the model.
-/

namespace Multisample.Script

namespace Schema

/-- The largest 32-bit integer with a sign. -/
def maxCount : Int := 2147483647

def keyRange : FieldKind := .range ⟨0, 127⟩ ⟨1, 128⟩

def percentRange : FieldKind := .range ⟨0, 99⟩ ⟨1, 100⟩

def libraryInfo : Schema :=
  .mk "Library"
    [.mk {
        name := "name"
        description := "The name of the library. Together with the author it identifies the library."
        required := true
        literal := "\"Example Library\"" } (.text []),
      .mk {
        name := "tagline"
        description := "A short description of the library."
        required := true
        literal := "\"Sounds recorded in a stairwell\"" } (.text []),
      .mk {
        name := "author"
        description := "Who made the library. Together with the name it identifies the library."
        required := true
        literal := "\"Example Author\"" } (.text []),
      .mk {
        name := "minor_version"
        description := "Increase this when you change the library in a backward-compatible way."
        default := "1"
        literal := "1" } (.integer ⟨1, maxCount⟩),
      .mk {
        name := "url"
        description := "A web page for the library."
        literal := "\"https://example.com/library\"" } (.text []),
      .mk {
        name := "description"
        description := "A longer description of the library."
        literal := "\"Long-form text about the recordings.\"" } (.text []),
      .mk {
        name := "icon_image_path"
        description := "A square image relative to this script, used as the library's icon."
        literal := "\"images/icon.png\"" } .path,
      .mk {
        name := "background_image_path"
        description := "A background image relative to this script."
        literal := "\"images/background.jpg\"" } .path]
    .authored

def instrument : Schema :=
  .mk "Instrument"
    [.mk {
        name := "name"
        description := "The name of the instrument. Must be unique within the library."
        required := true
        literal := "\"Grand Piano\"" } (.text []),
      .mk {
        name := "folders"
        description := "Slash-separated folders used to group instruments."
        literal := "\"Keys/Acoustic\"" } (.text []),
      .mk {
        name := "description"
        description := "A description of the instrument."
        literal := "\"A felted upright recorded close.\"" } (.text []),
      .mk {
        name := "tags"
        description := "Words that describe the instrument."
        literal := "\x7b \"piano\", \"soft\" \x7d" } .textList,
      .mk {
        name := "waveform_audio_path"
        description := "Audio used to draw the instrument's waveform, relative to this script."
        default := "the first region's file"
        literal := "\"samples/piano_c4.wav\"" } .path]
    .named

def impulseResponse : Schema :=
  .mk "ImpulseResponse"
    [.mk {
        name := "name"
        description := "The name of the impulse response. Must be unique within the library."
        required := true
        literal := "\"Stairwell\"" } (.text []),
      .mk {
        name := "path"
        description := "The impulse response audio file, relative to this script."
        required := true
        literal := "\"irs/stairwell.wav\"" } .path]
    .named

def sampleLoop : Schema :=
  .mk "Loop"
    [.mk {
        name := "start_frame"
        description :=
          "The first frame of the loop. Negative values count from the end: -1 is the frame count."
        required := true
        literal := "24000" } (.integer ⟨-maxCount, maxCount⟩),
      .mk {
        name := "end_frame"
        description := "The frame after the last looped frame. Negative values count from the end."
        required := true
        literal := "-1" } (.integer ⟨-maxCount, maxCount⟩),
      .mk {
        name := "crossfade_frames"
        description := "Frames over which the loop end is blended into the loop start."
        default := "0"
        literal := "100" } (.integer ⟨0, maxCount⟩),
      .mk {
        name := "ping_pong"
        description := "Alternate playback direction at each end of the loop."
        default := "false"
        literal := "false" } .boolean]
    .loopOrder

def regionFile : Schema :=
  .mk "RegionFile"
    [.mk {
        name := "path"
        description := "The audio file, relative to this script."
        required := true
        literal := "\"samples/piano_c4.wav\"" } .path,
      .mk {
        name := "root_key"
        description :=
          "The MIDI note the audio was recorded at. Playback is pitched relative to it."
        required := true
        literal := "60" } (.integer ⟨0, 127⟩),
      .mk {
        name := "loop"
        description := "Loop points. Without a loop the file plays once." } (.record sampleLoop)]
    .none

def trigger : Schema :=
  .mk "TriggerCriteria"
    [.mk {
        name := "trigger_event"
        description := "The event that starts the region."
        default := "\"note_on\""
        literal := "\"note_on\"" } (.text ["note_on", "note_off"]),
      .mk {
        name := "key_range"
        description :=
          "The keys that trigger the region: \x7bstart, end\x7d with an exclusive end."
        default := "\x7b60, 64\x7d"
        literal := "\x7b 60, 64 \x7d" } keyRange,
      .mk {
        name := "velocity_range"
        description :=
          "The velocities that trigger the region, from 0 to 100 with an exclusive end."
        default := "\x7b0, 100\x7d"
        literal := "\x7b 0, 100 \x7d" } percentRange,
      .mk {
        name := "round_robin_index"
        description := "Only trigger on this step of the round-robin cycle. Counting starts at 0."
        literal := "0" } (.integer ⟨0, maxCount⟩)]
    .none

def regionOptions : Schema :=
  .mk "RegionOptions"
    [.mk {
        name := "timbre_crossfade_region"
        description := "Positions of the timbre knob where this region sounds, " ++
          "crossfading with overlapping regions."
        literal := "\x7b 0, 100 \x7d" } percentRange,
      .mk {
        name := "auto_map_key_range_group"
        description := "Regions sharing this group get key ranges computed from their root keys."
        literal := "\"main\"" } (.text []),
      .mk {
        name := "feather_overlapping_velocity_regions"
        description := "Crossfade with other regions whose velocity range overlaps this one."
        default := "false"
        literal := "false" } .boolean]
    .none

def region : Schema :=
  .mk "Region"
    [.mk {
        name := "file"
        description := "The audio file this region plays."
        required := true } (.record regionFile),
      .mk {
        name := "trigger_criteria"
        description := "When the region is triggered."
        default := "note_on over keys \x7b60, 64\x7d at every velocity" } (.record trigger),
      .mk {
        name := "options"
        description := "Additional behaviour of the region." } (.record regionOptions)]
    .none

/-- All records, those that tables describe on their own and those nested in them. -/
def all : List Schema :=
  [libraryInfo, instrument, impulseResponse, region, regionFile, sampleLoop, trigger, regionOptions]

end Schema

namespace Values

/-- The lowest bits of an integer. -/
def lowBits (bits : Nat) (n : Int) : Nat :=
  (n % (1 <<< bits : Nat)).toNat

/-- A range whose ends are stored in one byte each. -/
def valueRange (vs : Values) (name : String) : Option ValueRange :=
  (vs.range? name).map fun (start, stop) => ⟨lowBits 8 start, lowBits 8 stop⟩

/-- An integer that is stored in so many bits. -/
def natural (vs : Values) (bits : Nat) (name : String) : Option Nat :=
  (vs.integer? name).map (lowBits bits)

def toLibraryInfo (vs : Values) : LibraryInfo where
  name := (vs.text? "name").getD ""
  tagline := (vs.text? "tagline").getD ""
  author := (vs.text? "author").getD ""
  minorVersion := (vs.natural 32 "minor_version").getD 1
  url := vs.text? "url"
  description := vs.text? "description"
  icon := vs.path? "icon_image_path"
  background := vs.path? "background_image_path"

def toInstrument (vs : Values) : Instrument where
  name := (vs.text? "name").getD ""
  folders := vs.text? "folders"
  description := vs.text? "description"
  tags := Instrument.sortedTags ((vs.textList? "tags").getD [])
  waveform := vs.path? "waveform_audio_path"

def toImpulseResponse (vs : Values) : ImpulseResponse where
  name := (vs.text? "name").getD ""
  path := (vs.path? "path").getD default

def toSampleLoop (vs : Values) : SampleLoop where
  start := (vs.integer? "start_frame").getD 0
  stop := (vs.integer? "end_frame").getD 0
  crossfade := (vs.natural 32 "crossfade_frames").getD 0
  pingPong := (vs.boolean? "ping_pong").getD false

def toRegionFile (vs : Values) : RegionFile where
  path := (vs.path? "path").getD default
  rootKey := (vs.natural 8 "root_key").getD 60
  sampleLoop := (vs.record? "loop").map toSampleLoop

def toTrigger (vs : Values) : Trigger where
  event := if vs.text? "trigger_event" == some "note_off" then .noteOff else .noteOn
  keys := (vs.valueRange "key_range").getD ⟨60, 64⟩
  velocities := (vs.valueRange "velocity_range").getD ⟨0, 100⟩
  roundRobin := vs.natural 32 "round_robin_index"

def toRegionOptions (vs : Values) : RegionOptions where
  timbre := vs.valueRange "timbre_crossfade_region"
  autoMapGroup := (vs.text? "auto_map_key_range_group").filter (· ≠ "")
  feather := (vs.boolean? "feather_overlapping_velocity_regions").getD false

def toRegion (vs : Values) : Region where
  file := ((vs.record? "file").map toRegionFile).getD {}
  trigger := ((vs.record? "trigger_criteria").map toTrigger).getD {}
  options := ((vs.record? "options").map toRegionOptions).getD {}

end Values

end Multisample.Script
