import BoltApi.Http1.ConnectionSplit
import BoltApi.Router.Captures
import BoltApi.Http1.ResponseFraming
import BoltApi.Http2.Goaway
import BoltApi.Http2.FlowControl
import BoltApi.Http2.Requests
import BoltApi.Http2.Responses
import BoltApi.Neo4j.PackStreamRoundTrip
import BoltApi.WebRtc.SctpForward
import BoltApi.Neo4j.Authentication
import BoltApi.Neo4j.Transactions
import BoltApi.Neo4j.Decoding
import BoltApi.Neo4j.Negotiation
import BoltApi.WebRtc.RelayKeystream
import BoltApi.WebRtc.IceIntegrity
import BoltApi.WebRtc.TurnPermissions
import BoltApi.Http3.QpackRoundTrip
import BoltApi.Auth.SignedToken
import BoltApi.PgWire.Serving
import BoltApi.PgWire.BinaryResultValues
import BoltApi.Client.Sends
import BoltApi.Multipart.Delivery
import BoltApi.Quic.CryptoReassembly
import BoltApi.Quic.StreamReceive
import BoltApi.Quic.StreamWrite
import BoltApi.Auth.RateLimitKey
import BoltApi.Quic.KeyUpdate
import BoltApi.Quic.Nonces
import BoltApi.Quic.InFlight
import BoltApi.Quic.LossEvidence
import BoltApi.Quic.PeerStreams
import BoltApi.Quic.PacketSizes
import BoltApi.Quic.PacketNumbers
import BoltApi.Hpack.Limits
import BoltApi.Http1.FixedStream
import BoltApi.WebRtc.Reports
import BoltApi.WebRtc.Twcc
