import ArchiveRecord.Escaped.Cut
import ArchiveRecord.Escaped.Grammar
import ArchiveRecord.Flag.Arguments
import ArchiveRecord.Json.Reader
import ArchiveRecord.Log.Hierarchy
import ArchiveRecord.Main
import ArchiveRecord.ParamsText
import ArchiveRecord.Parser.Bracket
import ArchiveRecord.Proofs.Archive.Stream
import ArchiveRecord.Proofs.Command.Commuting
import ArchiveRecord.Proofs.Command.Failure
import ArchiveRecord.Proofs.Command.Logging
import ArchiveRecord.Proofs.Command.Success
import ArchiveRecord.Proofs.Escaped.Gluing
import ArchiveRecord.Proofs.Escaped.Spelling
import ArchiveRecord.Proofs.Flag.Defects
import ArchiveRecord.Proofs.Flag.Image
import ArchiveRecord.Proofs.Log.Delivery
import ArchiveRecord.Proofs.Log.Stamp
import ArchiveRecord.Proofs.Parser.Loop
import ArchiveRecord.Proofs.Parser.Release
import ArchiveRecord.Proofs.Parser.Sequence
import ArchiveRecord.Proofs.Process.Histories
import ArchiveRecord.Proofs.Source.Decoding
import ArchiveRecord.Proofs.Source.Iteration
