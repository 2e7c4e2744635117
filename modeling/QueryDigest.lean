import QueryDigest.CommandLine.Directory
import QueryDigest.Main
import QueryDigest.Proofs.Bounds
import QueryDigest.Proofs.Contents
import QueryDigest.Proofs.Literals
import QueryDigest.Proofs.Tokens
import QueryDigest.Proofs.Unclosed
import QueryDigest.Proofs.Whitespace
import QueryDigest.Proofs.Comments
import QueryDigest.Proofs.Copies
import QueryDigest.Proofs.Groups
import QueryDigest.Proofs.PlaceholderLists
import QueryDigest.Proofs.Phrases
import QueryDigest.Proofs.Shortening
import QueryDigest.Proofs.FixedPoint
import QueryDigest.Proofs.Identifiers
import QueryDigest.Proofs.Statements
import QueryDigest.Proofs.Patterns
import QueryDigest.Proofs.Residue
import QueryDigest.Proofs.Spacing
import QueryDigest.Proofs.IdentifierQuotes
import QueryDigest.Proofs.Ranking
import QueryDigest.Proofs.ValueLists
import QueryDigest.Proofs.StepCount
import QueryDigest.Proofs.Dialects
import QueryDigest.Proofs.Answers
import QueryDigest.Proofs.OpenStrings
import QueryDigest.Proofs.PlaceholderQuotes
import QueryDigest.Proofs.Requests
import QueryDigest.Proofs.Settings
import QueryDigest.Proofs.SignFolding
import QueryDigest.Proofs.ByteSteps
import QueryDigest.Proofs.Characters
import QueryDigest.Proofs.Entries
import QueryDigest.Proofs.Exits
import QueryDigest.Proofs.Padding
