import Snowflake.Lib.Io
import Snowflake.Lib.Json
import Snowflake.Lib.JsonCompact
import Snowflake.Lib.Hex
import Snowflake.Encapsulation.Format
import Snowflake.Encapsulation.Read
import Snowflake.Encapsulation.Write
import Snowflake.Encapsulation.RoundTrip
import Snowflake.Turbotunnel.Framing
import Snowflake.Messages.Proxy
import Snowflake.Messages.Client
import Snowflake.Broker.ClientOffers
import Snowflake.Lib.Transition
import Snowflake.Lib.Update
import Snowflake.Broker.Matching
import Snowflake.Broker.MatchingSafety
import Snowflake.Broker.MatchingStuck
import Snowflake.Client.Peers
import Snowflake.Turbotunnel.Redial
import Snowflake.Lib.NetIP
import Snowflake.Relay.NameMatcher
import Snowflake.Relay.Check
import Snowflake.Lib.RingBuffer
import Snowflake.Server.ClientIDMap
import Snowflake.Lib.HeapOrder
import Snowflake.Lib.Heap
import Snowflake.Broker.SnowflakeHeap
import Snowflake.Turbotunnel.ClientMap
import Snowflake.Turbotunnel.ClientMapRuns
import Snowflake.Broker.Metrics
import Snowflake.Proxy.Sessions
import Snowflake.Lib.Base64
import Snowflake.Lib.Chunks
import Snowflake.Amp.Encoder
import Snowflake.Amp.Decoder
import Snowflake.Amp.RoundTrip
import Snowflake.Lib.Hash
import Snowflake.Server.Lookup
import Snowflake.Task.Backoff
import Snowflake.Server.Listen
import Snowflake.Lib.Base64URL
import Snowflake.Amp.Path
import Snowflake.Amp.Framing
import Snowflake.Amp.DecoderSpec
import Snowflake.Broker.BridgeList
import Snowflake.Turbotunnel.QueuePacketConn
import Snowflake.Lib.BitMask
import Snowflake.Server.RandAddr
import Snowflake.Lib.BigEndian
import Snowflake.Lib.AListSum
import Snowflake.Dtls.Header
import Snowflake.Dtls.Datagram
import Snowflake.Dtls.FragmentBuffer
import Snowflake.Dtls.FragmentBufferInv
import Snowflake.Dtls.Fragmentation
import Snowflake.Dtls.HandshakeCache
import Snowflake.Dtls.HandshakeDelivery
import Snowflake.Dtls.Flight
import Snowflake.Dtls.Compaction
