import Multisample.Audio.Buffer
import Multisample.Audio.Decoding
import Multisample.Audio.Frame
import Multisample.Audio.Wave
import Multisample.Command.Arguments
import Multisample.Command.Help
import Multisample.Command.Invocation
import Multisample.Command.Program
import Multisample.Command.Rendering
import Multisample.Command.Report
import Multisample.Effects.Biquad
import Multisample.Effects.Chain
import Multisample.Effects.Compressor
import Multisample.Effects.Convolution
import Multisample.Effects.Delay
import Multisample.Effects.DelayLine
import Multisample.Effects.Distortion
import Multisample.Effects.Filter
import Multisample.Effects.Kind
import Multisample.Effects.Order
import Multisample.Effects.Oscillator
import Multisample.Effects.Parameter
import Multisample.Effects.Reverb
import Multisample.Effects.Smoother
import Multisample.Effects.Sweep
import Multisample.Effects.Transform
import Multisample.Engine.Ensemble
import Multisample.Engine.Layer
import Multisample.Engine.Midi
import Multisample.Engine.Session
import Multisample.Error
import Multisample.Files.Path
import Multisample.Files.Tree
import Multisample.Library.KeyMap
import Multisample.Library.Model
import Multisample.Library.Preparation
import Multisample.Library.Reading
import Multisample.Library.References
import Multisample.Library.RelativePath
import Multisample.Library.Scan
import Multisample.Library.ValueRange
import Multisample.Main
import Multisample.Numeric.Decimal
import Multisample.Numeric.Duration
import Multisample.Numeric.Level
import Multisample.Numeric.Machine
import Multisample.Numeric.Notation
import Multisample.Numeric.Scalar
import Multisample.Playback.Envelope
import Multisample.Playback.Loading
import Multisample.Playback.Loop
import Multisample.Playback.Retirement
import Multisample.Playback.SampleStore
import Multisample.Playback.Selection
import Multisample.Playback.Streamer
import Multisample.Playback.VoicePool
import Multisample.Proofs.Audio.Resampling
import Multisample.Proofs.Command.Schedule
import Multisample.Proofs.Effects.Alike
import Multisample.Proofs.Effects.AsNew
import Multisample.Proofs.Effects.Bypass
import Multisample.Proofs.Effects.ChainCalls
import Multisample.Proofs.Effects.Cuts
import Multisample.Proofs.Effects.DelayHistory
import Multisample.Proofs.Effects.DelayRoom
import Multisample.Proofs.Effects.Fade
import Multisample.Proofs.Effects.Feedback
import Multisample.Proofs.Effects.GainCurve
import Multisample.Proofs.Effects.InPlace
import Multisample.Proofs.Effects.OrderWords
import Multisample.Proofs.Effects.OverlapSave
import Multisample.Proofs.Effects.ParameterRanges
import Multisample.Proofs.Effects.Smoothing
import Multisample.Proofs.Effects.Stability
import Multisample.Proofs.Effects.Tuned
import Multisample.Proofs.Engine.Blocks
import Multisample.Proofs.Engine.Calls
import Multisample.Proofs.Engine.ConvolverRate
import Multisample.Proofs.Engine.EffectOrders
import Multisample.Proofs.Engine.Handover
import Multisample.Proofs.Engine.MasterGain
import Multisample.Proofs.Engine.NoteOff
import Multisample.Proofs.Engine.OneShot
import Multisample.Proofs.Engine.ParameterTargets
import Multisample.Proofs.Engine.Reactions
import Multisample.Proofs.Engine.RoundRobin
import Multisample.Proofs.Library.FileReports
import Multisample.Proofs.Library.KeyRanges
import Multisample.Proofs.Library.Names
import Multisample.Proofs.Library.NearestRoots
import Multisample.Proofs.Library.Paths
import Multisample.Proofs.Library.Preparing
import Multisample.Proofs.Library.Scanning
import Multisample.Proofs.Numeric.Exact
import Multisample.Proofs.Numeric.Extended
import Multisample.Proofs.Numeric.Spectra
import Multisample.Proofs.Numeric.Whole
import Multisample.Proofs.Playback.Envelopes
import Multisample.Proofs.Playback.Gains
import Multisample.Proofs.Playback.LoadingRegions
import Multisample.Proofs.Playback.LoopPoints
import Multisample.Proofs.Playback.Looping
import Multisample.Proofs.Playback.Pool
import Multisample.Proofs.Playback.PoolRuns
import Multisample.Proofs.Playback.RenderCuts
import Multisample.Proofs.Playback.Retiring
import Multisample.Proofs.Playback.Seams
import Multisample.Proofs.Playback.Selecting
import Multisample.Proofs.Playback.SharedBuffers
import Multisample.Proofs.Playback.Stealing
import Multisample.Proofs.Playback.Turning
import Multisample.Proofs.Playback.Unlooped
import Multisample.Proofs.Script.Building
import Multisample.Proofs.Script.ChunkNames
import Multisample.Proofs.Script.Conclusions
import Multisample.Proofs.Script.Demands
import Multisample.Proofs.Script.Interrupts
import Multisample.Proofs.Script.MergeCalls
import Multisample.Proofs.Script.Mirrors
import Multisample.Proofs.Script.PlainCalls
import Multisample.Proofs.Script.PlainData
import Multisample.Proofs.Script.Regions
import Multisample.Proofs.Script.Requests
import Multisample.Proofs.Script.SchemaDemands
import Multisample.Proofs.Script.Sessions
import Multisample.Proofs.Script.TwoHosts
import Multisample.Proofs.Script.Views
import Multisample.Proofs.Script.WatchedActs
import Multisample.Proofs.Settings.QuotaTexts
import Multisample.Script.Binding
import Multisample.Script.Build
import Multisample.Script.Builtins
import Multisample.Script.Builtins.Arguments
import Multisample.Script.Builtins.Base
import Multisample.Script.Builtins.Libraries
import Multisample.Script.Builtins.Numbers
import Multisample.Script.Builtins.Tables
import Multisample.Script.Builtins.Texts
import Multisample.Script.Builtins.Unicode
import Multisample.Script.ChunkName
import Multisample.Script.Evaluation
import Multisample.Script.Example
import Multisample.Script.Format
import Multisample.Script.Heap
import Multisample.Script.Lexer
import Multisample.Script.Machine.Memory
import Multisample.Script.Machine.Run
import Multisample.Script.Machine.State
import Multisample.Script.Machine.Transition
import Multisample.Script.Number
import Multisample.Script.Operations
import Multisample.Script.Parser
import Multisample.Script.Pattern
import Multisample.Script.Random
import Multisample.Script.Records
import Multisample.Script.Schema
import Multisample.Script.Scope
import Multisample.Script.Step
import Multisample.Script.Syntax
import Multisample.Script.Table
import Multisample.Script.Value
import Multisample.Script.Watchdog
import Multisample.Settings.Document
import Multisample.Settings.DurationText
import Multisample.Settings.Engine
import Multisample.Settings.Environment
import Multisample.Settings.Limits
import Multisample.Settings.Yaml
import Multisample.Text.Bytes
import Multisample.Text.CharClass
import Multisample.Text.Json
import Multisample.Text.Quoted
