import OpcodeTables.Main
import OpcodeTables.FileSystem.Disk
import OpcodeTables.Signature
import OpcodeTables.Proofs.Codec
import OpcodeTables.Proofs.Tables.Image
import OpcodeTables.Proofs.Json.Spelled
import OpcodeTables.Proofs.Json.Written
import OpcodeTables.Proofs.Json.Takes
import OpcodeTables.Proofs.Json.Skipped
import OpcodeTables.Proofs.Json.Members
import OpcodeTables.Proofs.Json.Compact
import OpcodeTables.Proofs.Json.Layout
import OpcodeTables.Proofs.Tables.Json
import OpcodeTables.Proofs.Integer
import OpcodeTables.Proofs.Symbol
import OpcodeTables.Proofs.Text.Blank
import OpcodeTables.Proofs.Opcode
import OpcodeTables.Proofs.Opcode.Classes
import OpcodeTables.Proofs.Description
import OpcodeTables.Proofs.Literal
import OpcodeTables.Proofs.Signature
import OpcodeTables.Proofs.Signature.Expected
import OpcodeTables.Proofs.Signature.Insertion
import OpcodeTables.Proofs.Signature.Shadowed
import OpcodeTables.Proofs.Tables.Alignment
import OpcodeTables.Proofs.Tables.Breach
import OpcodeTables.Proofs.Tables.Build
import OpcodeTables.Proofs.Tables.Faults
import OpcodeTables.Proofs.Tables.Policy
import OpcodeTables.Proofs.Tables.Lookup
import OpcodeTables.Proofs.Tables.Extension
import OpcodeTables.Proofs.Names
import OpcodeTables.Proofs.Document
import OpcodeTables.Proofs.Document.Content
import OpcodeTables.Proofs.Emit.Line
import OpcodeTables.Proofs.Emit.Occurrence
import OpcodeTables.Proofs.Emit.Word
import OpcodeTables.Proofs.Emit.Entry
import OpcodeTables.Proofs.Emit.Dialect
import OpcodeTables.Proofs.Emit.CppHeader
import OpcodeTables.Proofs.Emit.RustSource
import OpcodeTables.Proofs.Emit.CppHeader.Lines
import OpcodeTables.Proofs.Emit.CppHeader.Namespace
import OpcodeTables.Proofs.Emit.RustSource.Lines
import OpcodeTables.Proofs.Emit.Unique
import OpcodeTables.Proofs.Emit.Brackets
import OpcodeTables.Proofs.Emit.Lexical
import OpcodeTables.Proofs.Path
import OpcodeTables.Proofs.FileSystem.Requests
import OpcodeTables.Proofs.FileSystem.Volume
import OpcodeTables.Proofs.FileSystem.Disk
import OpcodeTables.Proofs.Sha256
import OpcodeTables.Proofs.Config
import OpcodeTables.Proofs.Generation
import OpcodeTables.Proofs.CommandLine.Arguments
import OpcodeTables.Proofs.CommandLine
import OpcodeTables.Proofs.Generation.Disk
