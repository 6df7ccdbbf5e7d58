import MonkeyTokens.Main
import MonkeyTokens.Lexing.TokenStream
import MonkeyTokens.Tree.Outline
import MonkeyTokens.Proofs.Joining
import MonkeyTokens.Proofs.Spelling
import MonkeyTokens.Proofs.LongestMatch
import MonkeyTokens.Proofs.Concatenation
import MonkeyTokens.Proofs.Spacing
import MonkeyTokens.Proofs.SessionLines
import MonkeyTokens.Proofs.Runs
import MonkeyTokens.Proofs.Coverage
import MonkeyTokens.Proofs.Encoding
import MonkeyTokens.Proofs.LiveSession
import MonkeyTokens.Proofs.SessionFaults
import MonkeyTokens.Proofs.Rendering
import MonkeyTokens.Proofs.Transcripts
import MonkeyTokens.Proofs.Listings
import MonkeyTokens.Proofs.EventTiming
import MonkeyTokens.Proofs.Edits
import MonkeyTokens.Proofs.Streams
import MonkeyTokens.Proofs.Pages
import MonkeyTokens.Proofs.Image
import MonkeyTokens.Proofs.Handover
import MonkeyTokens.Proofs.LiveLexer
import MonkeyTokens.Proofs.SourceIndex
import MonkeyTokens.Proofs.LiveProgram
import MonkeyTokens.Proofs.Options
import MonkeyTokens.Proofs.ExitCodes
import MonkeyTokens.Proofs.Outlines
import MonkeyTokens.Proofs.ReservedWords
import MonkeyTokens.Proofs.ReaderRuns
import MonkeyTokens.Proofs.Skipping
