import Rim.Cbor.Basic
import Rim.Cbor.Keys
import Rim.Cbor.Notation
import Rim.Cbor.Order
import Rim.Cbor.Reader
import Rim.Cbor.Writer
import Rim.Choice.Basic
import Rim.Choice.Catalog
import Rim.Choice.Catalogs
import Rim.Choice.Family
import Rim.Code
import Rim.Config
import Rim.Document.Any
import Rim.Document.Comid
import Rim.Document.Corim
import Rim.Document.Edit
import Rim.Document.Equality
import Rim.Document.Flags
import Rim.Document.Records
import Rim.Document.Slots
import Rim.Error
import Rim.Hook.Attached
import Rim.Hook.Basic
import Rim.Hook.Bundle
import Rim.Hook.Datum
import Rim.Hook.Description
import Rim.Hook.Point
import Rim.Hook.Rule
import Rim.Json.Access
import Rim.Json.Basic
import Rim.Json.Number
import Rim.Json.Reader
import Rim.Json.Writer
import Rim.Number.Binary
import Rim.Number.Parse
import Rim.Number.Shortest
import Rim.Payload.Bytes
import Rim.Payload.Digest
import Rim.Payload.Integer
import Rim.Payload.Oid
import Rim.Payload.Pem
import Rim.Payload.Registered
import Rim.Payload.Shape
import Rim.Payload.Uri
import Rim.Payload.Uuid
import Rim.Profile.Basic
import Rim.Profile.Index
import Rim.Proofs.Alike
import Rim.Proofs.Base64
import Rim.Proofs.Basic
import Rim.Proofs.Cbor.Canonical
import Rim.Proofs.Cbor.Float
import Rim.Proofs.Cbor.Grammar
import Rim.Proofs.Cbor.Keys
import Rim.Proofs.Cbor.Lossless
import Rim.Proofs.Cbor.Order
import Rim.Proofs.Cbor.Plain
import Rim.Proofs.Cbor.RoundTrip
import Rim.Proofs.Cbor.Shuffled
import Rim.Proofs.Choice.Calm
import Rim.Proofs.Choice.Catalogs
import Rim.Proofs.Choice.Coherent
import Rim.Proofs.Choice.Exact
import Rim.Proofs.Choice.History
import Rim.Proofs.Choice.Indifferent
import Rim.Proofs.Choice.Plain
import Rim.Proofs.Choice.RoundTrip
import Rim.Proofs.Choice.Told
import Rim.Proofs.Decimal
import Rim.Proofs.Document.Agreement
import Rim.Proofs.Document.Choices
import Rim.Proofs.Document.Culprit
import Rim.Proofs.Document.FieldTypes
import Rim.Proofs.Document.Flags
import Rim.Proofs.Document.Grafting
import Rim.Proofs.Document.Inert
import Rim.Proofs.Document.Manifest
import Rim.Proofs.Document.Normal
import Rim.Proofs.Document.Parts
import Rim.Proofs.Document.Pipeline
import Rim.Proofs.Document.Profiled
import Rim.Proofs.Document.RoundTrip
import Rim.Proofs.Document.Shuffled
import Rim.Proofs.Document.TextOrder
import Rim.Proofs.Document.Travels
import Rim.Proofs.Document.Unrefused
import Rim.Proofs.Document.Vacant
import Rim.Proofs.Hook.Agreement
import Rim.Proofs.Hook.Contested
import Rim.Proofs.Hook.Graft
import Rim.Proofs.Hook.Inert
import Rim.Proofs.Hook.Settled
import Rim.Proofs.Hook.Silent
import Rim.Proofs.Hook.Told
import Rim.Proofs.Hook.Values
import Rim.Proofs.Inspection
import Rim.Proofs.Json.Agreement
import Rim.Proofs.Json.Grammar
import Rim.Proofs.Json.Numeral
import Rim.Proofs.Json.Plain
import Rim.Proofs.Json.RoundTrip
import Rim.Proofs.Json.Shuffled
import Rim.Proofs.Json.Tokens
import Rim.Proofs.Payload.Ber
import Rim.Proofs.Payload.Laws
import Rim.Proofs.Payload.Oid
import Rim.Proofs.Payload.Pem
import Rim.Proofs.Profile.History
import Rim.Proofs.Record.Acceptance
import Rim.Proofs.Record.Bare
import Rim.Proofs.Record.Depth
import Rim.Proofs.Record.Empty
import Rim.Proofs.Record.Entries
import Rim.Proofs.Record.Extended
import Rim.Proofs.Record.Grafts
import Rim.Proofs.Record.Indifferent
import Rim.Proofs.Record.Law
import Rim.Proofs.Record.Like
import Rim.Proofs.Record.Ordered
import Rim.Proofs.Record.Ordinary
import Rim.Proofs.Record.Peek
import Rim.Proofs.Record.Plain
import Rim.Proofs.Record.Reading
import Rim.Proofs.Record.Reread
import Rim.Proofs.Record.RoundTrip
import Rim.Proofs.Record.TagId
import Rim.Proofs.Record.Taking
import Rim.Proofs.Record.Telling
import Rim.Proofs.Record.Travels
import Rim.Proofs.Record.Untagged
import Rim.Proofs.Record.Wrappers
import Rim.Proofs.Record.Writer
import Rim.Proofs.Record.Written
import Rim.Proofs.Repeats
import Rim.Proofs.Schema
import Rim.Proofs.Strict
import Rim.Proofs.Validity
import Rim.Proofs.Wire
import Rim.Record.Comid
import Rim.Record.Corim
import Rim.Record.Datum
import Rim.Record.Described
import Rim.Record.Field
import Rim.Record.Format
import Rim.Record.Shape
import Rim.Report
import Rim.Schema
import Rim.Session
import Rim.Sorted
import Rim.TagId
import Rim.Text.Base64
import Rim.Text.Blank
import Rim.Text.Hex
import Rim.Text.Hidden
import Rim.Text.Quoted
import Rim.Text.Utf8
import Rim.Validity.Basic
import Rim.Validity.Comid
import Rim.Validity.Corim
import Rim.Wire
