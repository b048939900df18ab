import WordMachine.Assembly.Assemble
import WordMachine.Assembly.Emission
import WordMachine.Assembly.Item
import WordMachine.Assembly.Layout
import WordMachine.Assembly.Line
import WordMachine.Assembly.Linkage
import WordMachine.Assembly.Listing
import WordMachine.Assembly.Problem
import WordMachine.Assembly.Source
import WordMachine.Binary64
import WordMachine.Cbor.Basic
import WordMachine.Cbor.Reader
import WordMachine.Cbor.Writer
import WordMachine.Command.Flag
import WordMachine.Command.Invocation
import WordMachine.Command.Perform
import WordMachine.Editor.Analysis
import WordMachine.Editor.Cursor
import WordMachine.Editor.Features
import WordMachine.Editor.Introduction
import WordMachine.Editor.Protocol
import WordMachine.Editor.Rpc
import WordMachine.Editor.Session
import WordMachine.Editor.Store
import WordMachine.Editor.Traffic
import WordMachine.Editor.WorkQueue
import WordMachine.Editor.Workspace
import WordMachine.Fault
import WordMachine.FileTree
import WordMachine.Image.Basic
import WordMachine.Image.Codec
import WordMachine.Image.Sha256
import WordMachine.Json.Basic
import WordMachine.Json.Reader
import WordMachine.Json.Shape
import WordMachine.Json.Writer
import WordMachine.Machine.Arithmetic
import WordMachine.Machine.Basic
import WordMachine.Machine.Native
import WordMachine.Machine.Printf
import WordMachine.Machine.Run
import WordMachine.Machine.Script
import WordMachine.Machine.Setting
import WordMachine.Machine.Stack
import WordMachine.Machine.Step
import WordMachine.Main
import WordMachine.Manifest.Basic
import WordMachine.Manifest.Codec
import WordMachine.Manifest.Field
import WordMachine.Manifest.Load
import WordMachine.NameTable
import WordMachine.Numeral
import WordMachine.Opcode
import WordMachine.Output.Sink
import WordMachine.Output.StickyWriter
import WordMachine.Path
import WordMachine.Proofs.Assembly.Acceptance
import WordMachine.Proofs.Assembly.Addresses
import WordMachine.Proofs.Assembly.Declarations
import WordMachine.Proofs.Assembly.Extent
import WordMachine.Proofs.Assembly.Grammar
import WordMachine.Proofs.Assembly.Labels
import WordMachine.Proofs.Assembly.LineByLine
import WordMachine.Proofs.Assembly.LineSyntax
import WordMachine.Proofs.Assembly.Lines
import WordMachine.Proofs.Assembly.Listing
import WordMachine.Proofs.Assembly.Mentions
import WordMachine.Proofs.Assembly.Passes
import WordMachine.Proofs.Assembly.PlainLines
import WordMachine.Proofs.Assembly.Positions
import WordMachine.Proofs.Assembly.Reassembly
import WordMachine.Proofs.Assembly.Renaming
import WordMachine.Proofs.Assembly.ReportLength
import WordMachine.Proofs.Assembly.SourceOrder
import WordMachine.Proofs.Assembly.Sweep
import WordMachine.Proofs.Assembly.TokenStarts
import WordMachine.Proofs.Assembly.Words
import WordMachine.Proofs.Binary64
import WordMachine.Proofs.Cbor
import WordMachine.Proofs.Cbor.KeyOrder
import WordMachine.Proofs.Cbor.Limits
import WordMachine.Proofs.Editor.Agreement
import WordMachine.Proofs.Editor.Chronicle
import WordMachine.Proofs.Editor.Delivery
import WordMachine.Proofs.Editor.DiagnosticRanges
import WordMachine.Proofs.Editor.LatestText
import WordMachine.Proofs.Editor.Navigation
import WordMachine.Proofs.Editor.OneAtATime
import WordMachine.Proofs.Editor.Overlap
import WordMachine.Proofs.Editor.Parts
import WordMachine.Proofs.Editor.Tickets
import WordMachine.Proofs.FileTree
import WordMachine.Proofs.Image.Fields
import WordMachine.Proofs.Image.RoundTrip
import WordMachine.Proofs.Image.Stability
import WordMachine.Proofs.Machine.Alike
import WordMachine.Proofs.Machine.BoundedOutput
import WordMachine.Proofs.Machine.Cancellation
import WordMachine.Proofs.Machine.CountedWork
import WordMachine.Proofs.Machine.Effects
import WordMachine.Proofs.Machine.Enlargement
import WordMachine.Proofs.Machine.FloatingPower
import WordMachine.Proofs.Machine.Formatting
import WordMachine.Proofs.Machine.HeapBlocks
import WordMachine.Proofs.Machine.History
import WordMachine.Proofs.Machine.IntegerArithmetic
import WordMachine.Proofs.Machine.Interruption
import WordMachine.Proofs.Machine.Ledger
import WordMachine.Proofs.Machine.LimitedStep
import WordMachine.Proofs.Machine.ModestNatives
import WordMachine.Proofs.Machine.NativeNames
import WordMachine.Proofs.Machine.Nesting
import WordMachine.Proofs.Machine.Operations
import WordMachine.Proofs.Machine.Reachable
import WordMachine.Proofs.Machine.Rounds
import WordMachine.Proofs.Machine.StepLimit
import WordMachine.Proofs.Machine.StepSafety
import WordMachine.Proofs.Machine.Unseen
import WordMachine.Proofs.Manifest.Nearest
import WordMachine.Proofs.Manifest.RoundTrip
import WordMachine.Proofs.Manifest.Saving
import WordMachine.Proofs.NameTable
import WordMachine.Proofs.Numeral
import WordMachine.Proofs.Output
import WordMachine.Proofs.Output.Stickiness
import WordMachine.Proofs.Path
import WordMachine.Proofs.Report.Carets
import WordMachine.Proofs.StringLiteral
import WordMachine.Proofs.Text
import WordMachine.Proofs.Text.Parts
import WordMachine.Proofs.Text.Splitting
import WordMachine.Proofs.Toml.Tables
import WordMachine.Proofs.Toml.Values
import WordMachine.Report.Diagnostic
import WordMachine.Report.Style
import WordMachine.Shell.Basic
import WordMachine.Shell.World
import WordMachine.StringLiteral
import WordMachine.Text.Basic
import WordMachine.Text.CharRanges
import WordMachine.Text.Letter
import WordMachine.Text.Printable
import WordMachine.Text.Quoted
import WordMachine.Text.Utf8
import WordMachine.Toml.Basic
import WordMachine.Toml.Document
import WordMachine.Toml.Numbers
import WordMachine.Toml.Reader
import WordMachine.Toml.Strings
import WordMachine.Word
