import GroupCalendar.Access.Credentials
import GroupCalendar.Access.Token
import GroupCalendar.Api.Cursor
import GroupCalendar.Api.Events
import GroupCalendar.Api.Requests
import GroupCalendar.Api.Router
import GroupCalendar.Api.View
import GroupCalendar.Cloud.Call
import GroupCalendar.Cloud.Functions
import GroupCalendar.Cloud.Parameters
import GroupCalendar.Cloud.Services
import GroupCalendar.Cloud.Tables
import GroupCalendar.Codec
import GroupCalendar.CommandLine
import GroupCalendar.Config.Api
import GroupCalendar.Config.Import
import GroupCalendar.Config.Listing
import GroupCalendar.Config.Logging
import GroupCalendar.Config.Settings
import GroupCalendar.Crypto.Blowfish
import GroupCalendar.Crypto.Der
import GroupCalendar.Crypto.Hmac
import GroupCalendar.Crypto.PasswordHash
import GroupCalendar.Crypto.Pem
import GroupCalendar.Crypto.RsaKey
import GroupCalendar.Crypto.Sha256
import GroupCalendar.Crypto.SignedToken
import GroupCalendar.Crypto.SigningKey
import GroupCalendar.Encoding.Base64
import GroupCalendar.Event.Basic
import GroupCalendar.Event.Catalogue
import GroupCalendar.Event.Codec
import GroupCalendar.Event.Item
import GroupCalendar.Event.Json
import GroupCalendar.Fields
import GroupCalendar.GraphQl.Error
import GroupCalendar.GraphQl.Proxy
import GroupCalendar.GraphQl.Request
import GroupCalendar.Http.MediaType
import GroupCalendar.Http.Message
import GroupCalendar.Http.Post
import GroupCalendar.Import.Group
import GroupCalendar.Import.Run
import GroupCalendar.Import.Schedule
import GroupCalendar.Import.Summary
import GroupCalendar.Item.Basic
import GroupCalendar.Item.Decode
import GroupCalendar.Item.Wire
import GroupCalendar.Json.Basic
import GroupCalendar.Json.Decode
import GroupCalendar.Json.Parser
import GroupCalendar.Json.Printer
import GroupCalendar.Json.Scan
import GroupCalendar.Json.Skip
import GroupCalendar.Json.Stream
import GroupCalendar.Listing.AccessToken
import GroupCalendar.Listing.Assertion
import GroupCalendar.Listing.Client
import GroupCalendar.Listing.Page
import GroupCalendar.Listing.Sharing
import GroupCalendar.Listing.Site
import GroupCalendar.Listing.Walk
import GroupCalendar.Main
import GroupCalendar.Number.Binary64
import GroupCalendar.Number.Numeral
import GroupCalendar.Number.Octets
import GroupCalendar.Number.Shortest
import GroupCalendar.Program
import GroupCalendar.Record
import GroupCalendar.Service
import GroupCalendar.Store.Basic
import GroupCalendar.Store.Batch
import GroupCalendar.Store.Chunks
import GroupCalendar.Store.Memory
import GroupCalendar.Store.Table
import GroupCalendar.Text.Blank
import GroupCalendar.Text.Quoted
import GroupCalendar.Text.Split
import GroupCalendar.Text.Utf8
import GroupCalendar.Text.Visible
import GroupCalendar.Time.Civil
import GroupCalendar.Time.Dates
import GroupCalendar.Time.Format
import GroupCalendar.Time.Instant
import GroupCalendar.Time.Layout
import GroupCalendar.Url.Address
import GroupCalendar.Url.Basic
import GroupCalendar.Url.Form
import GroupCalendar.Url.Host
import GroupCalendar.Url.Parser
import GroupCalendar.Url.Percent
import GroupCalendar.Proofs.Program.Contract
import GroupCalendar.Proofs.Store.Answers
import GroupCalendar.Proofs.Store.Session
import GroupCalendar.Proofs.Store.Paging
import GroupCalendar.Proofs.Event.Effects
import GroupCalendar.Proofs.Import.Effect
import GroupCalendar.Proofs.Import.Horizon
import GroupCalendar.Proofs.Import.Conduct
import GroupCalendar.Proofs.Import.Interleaving
import GroupCalendar.Proofs.Import.Fetched
import GroupCalendar.Proofs.Import.Loss
import GroupCalendar.Proofs.Import.Independence
import GroupCalendar.Proofs.Import.Report
import GroupCalendar.Proofs.Import.Repeat
import GroupCalendar.Proofs.Import.Abstention
import GroupCalendar.Proofs.Import.Vanished
import GroupCalendar.Proofs.Api.Walk
import GroupCalendar.Proofs.Api.Gate
import GroupCalendar.Proofs.Listing.SingleFlight
import GroupCalendar.Proofs.Text.Order
import GroupCalendar.Proofs.Time.StoredForm
import GroupCalendar.Proofs.Event.Accepted
import GroupCalendar.Proofs.Import.Dates
import GroupCalendar.Proofs.Listing.Margin
import GroupCalendar.Proofs.Listing.Lifetime
import GroupCalendar.Proofs.Import.FanOut
import GroupCalendar.Proofs.Api.Agreement
import GroupCalendar.Proofs.Event.Formats
import GroupCalendar.Proofs.Api.Problems
import GroupCalendar.Proofs.Url.Form
import GroupCalendar.Proofs.Time.Requested
import GroupCalendar.Proofs.Url.Below
import GroupCalendar.Proofs.Api.PageQuery
import GroupCalendar.Proofs.Http.Target
import GroupCalendar.Proofs.Api.NextPage
import GroupCalendar.Proofs.Store.Pages
import GroupCalendar.Proofs.Api.AnyCursor
import GroupCalendar.Proofs.Api.Unchanged
import GroupCalendar.Proofs.Event.Upserted
import GroupCalendar.Proofs.Api.Ranges
import GroupCalendar.Proofs.Json.RoundTrip
import GroupCalendar.Proofs.GraphQl.Relay
import GroupCalendar.Proofs.Api.Correspondence
import GroupCalendar.Proofs.Listing.NearTerm
import GroupCalendar.Proofs.Event.Prefix
import GroupCalendar.Proofs.Store.Refusals
import GroupCalendar.Proofs.Event.Archiving
import GroupCalendar.Proofs.Import.Batches
import GroupCalendar.Proofs.Json.Skipped
import GroupCalendar.Proofs.Json.Stream
import GroupCalendar.Proofs.Access.Token
import GroupCalendar.Proofs.Time.Offset
import GroupCalendar.Proofs.Config.Demands
import GroupCalendar.Proofs.Store.Resending
import GroupCalendar.Proofs.Crypto.PasswordHash
import GroupCalendar.Proofs.Access.Chain
