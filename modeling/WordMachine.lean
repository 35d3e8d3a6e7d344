import WordMachine.CommandLine
import WordMachine.CommandLine.Options
import WordMachine.Console
import WordMachine.Encoding
import WordMachine.Encoding.Decode
import WordMachine.Encoding.Malformed
import WordMachine.Encoding.Utf16
import WordMachine.Encoding.Utf8
import WordMachine.Fault
import WordMachine.Files
import WordMachine.Host
import WordMachine.Machine.Act
import WordMachine.Machine.Compile
import WordMachine.Machine.Definition
import WordMachine.Machine.Execute
import WordMachine.Machine.Run
import WordMachine.Machine.State
import WordMachine.MachineError
import WordMachine.Main
import WordMachine.Numeral
import WordMachine.Proofs.AnyPosition
import WordMachine.Proofs.ArgumentLayout
import WordMachine.Proofs.Block
import WordMachine.Proofs.Brackets
import WordMachine.Proofs.CallDepth
import WordMachine.Proofs.CallGraph
import WordMachine.Proofs.CallingConvention
import WordMachine.Proofs.Classified
import WordMachine.Proofs.Closing
import WordMachine.Proofs.Compiling
import WordMachine.Proofs.DefinitionOrder
import WordMachine.Proofs.Escapes
import WordMachine.Proofs.Frame
import WordMachine.Proofs.Gist
import WordMachine.Proofs.Grammar
import WordMachine.Proofs.Inclusion
import WordMachine.Proofs.InertCompiling
import WordMachine.Proofs.Inline
import WordMachine.Proofs.IntegerNames
import WordMachine.Proofs.Invariant
import WordMachine.Proofs.Lexeme
import WordMachine.Proofs.LineEnds
import WordMachine.Proofs.Logging
import WordMachine.Proofs.NumberWords
import WordMachine.Proofs.Numerals
import WordMachine.Proofs.OneProgram
import WordMachine.Proofs.OpenUnits
import WordMachine.Proofs.Outcome
import WordMachine.Proofs.Pieces
import WordMachine.Proofs.Reachable
import WordMachine.Proofs.Reencoding
import WordMachine.Proofs.RoundTrip
import WordMachine.Proofs.RunPrefix
import WordMachine.Proofs.Seam
import WordMachine.Proofs.Session
import WordMachine.Proofs.SharedBuffer
import WordMachine.Proofs.Simulation
import WordMachine.Proofs.SourceText
import WordMachine.Proofs.Spacing
import WordMachine.Proofs.Starved
import WordMachine.Proofs.Strictness
import WordMachine.Proofs.Switches
import WordMachine.Proofs.Transcript
import WordMachine.Proofs.Unreadable
import WordMachine.Proofs.WordByWord
import WordMachine.Proofs.WordKinds
import WordMachine.Source
import WordMachine.Text.Blank
import WordMachine.Text.DecimalDigit
import WordMachine.Text.Lines
import WordMachine.Text.Printable
import WordMachine.Text.Quoted
import WordMachine.Text.Ranges
import WordMachine.Token
import WordMachine.Value
import WordMachine.Word
import WordMachine.Word.Cursor
import WordMachine.Proofs.TornUnits
