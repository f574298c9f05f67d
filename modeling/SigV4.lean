import SigV4.Base64
import SigV4.Body
import SigV4.Bytes
import SigV4.Calendar
import SigV4.Canonical.DotSegments
import SigV4.Canonical.Headers
import SigV4.Canonical.Path
import SigV4.Canonical.Query
import SigV4.Canonical.Request
import SigV4.Checksum
import SigV4.Chunked.Context
import SigV4.Chunked.Decoding
import SigV4.Chunked.Encoding
import SigV4.Chunked.Frame
import SigV4.Chunked.Stream
import SigV4.Clock
import SigV4.Config
import SigV4.Credentials
import SigV4.Failure
import SigV4.Fields
import SigV4.Hex
import SigV4.Hmac
import SigV4.Holdings
import SigV4.Ordered
import SigV4.Pending
import SigV4.Percent
import SigV4.Proofs.AcceptedDates
import SigV4.Proofs.AcceptedResponses
import SigV4.Proofs.CalendarDays
import SigV4.Proofs.CanonicalForm
import SigV4.Proofs.CanonicalPath
import SigV4.Proofs.CanonicalText
import SigV4.Proofs.ChecksumTrailers
import SigV4.Proofs.Checksums
import SigV4.Proofs.ChunkDecisions
import SigV4.Proofs.ChunkDelivery
import SigV4.Proofs.ChunkRoundTrip
import SigV4.Proofs.ChunkedResigning
import SigV4.Proofs.CollapsedText
import SigV4.Proofs.Collections
import SigV4.Proofs.ContentCodings
import SigV4.Proofs.Cutting
import SigV4.Proofs.Dates
import SigV4.Proofs.DerivedBodies
import SigV4.Proofs.DotSegments
import SigV4.Proofs.Edits
import SigV4.Proofs.Encodings
import SigV4.Proofs.ErrorCodes
import SigV4.Proofs.ErrorPlaces
import SigV4.Proofs.Fallback
import SigV4.Proofs.FirstVerdict
import SigV4.Proofs.HeadLines
import SigV4.Proofs.HeaderEdits
import SigV4.Proofs.HeaderSelection
import SigV4.Proofs.InsertionOrder
import SigV4.Proofs.Interruptions
import SigV4.Proofs.LineBreaks
import SigV4.Proofs.LosslessPaths
import SigV4.Proofs.NameOrder
import SigV4.Proofs.NormalPaths
import SigV4.Proofs.OneShot
import SigV4.Proofs.OwnFields
import SigV4.Proofs.Presentation
import SigV4.Proofs.ProviderTrees
import SigV4.Proofs.QueryNormalForm
import SigV4.Proofs.Reading
import SigV4.Proofs.ReadingRules
import SigV4.Proofs.Refusals
import SigV4.Proofs.ReportedFailures
import SigV4.Proofs.Resigning
import SigV4.Proofs.ResponseLines
import SigV4.Proofs.Secrecy
import SigV4.Proofs.Segments
import SigV4.Proofs.SentTrailers
import SigV4.Proofs.Sessions
import SigV4.Proofs.SignatureChain
import SigV4.Proofs.SignedHeaders
import SigV4.Proofs.SignedPayload
import SigV4.Proofs.Signing
import SigV4.Proofs.SkewCorrection
import SigV4.Proofs.SkewDetection
import SigV4.Proofs.StreamEvents
import SigV4.Proofs.Supply
import SigV4.Proofs.Target
import SigV4.Proofs.TransparentChecksums
import SigV4.Proofs.Verdicts
import SigV4.Proofs.Verification
import SigV4.Proofs.WireLength
import SigV4.Proofs.WithheldTrailers
import SigV4.Proofs.Words
import SigV4.Proofs.WrittenDates
import SigV4.Proofs.WrittenResponses
import SigV4.Provider
import SigV4.Request
import SigV4.Response
import SigV4.Sha256
import SigV4.Shared
import SigV4.Signature
import SigV4.Signer
import SigV4.Signer.ChunkHeaders
import SigV4.Signer.PayloadHash
import SigV4.Source
import SigV4.Text
import SigV4.Timestamp
