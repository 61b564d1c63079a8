import Rushkit.AmfRoundTrip
import Rushkit.PacketWrite
import Rushkit.AmfProgress
import Rushkit.Message
import Rushkit.MessageReader
import Rushkit.HeaderCompression
import Rushkit.MessageWriter
import Rushkit.PacketStream
import Rushkit.StreamId
import Rushkit.Feed
import Rushkit.OutgoingChannel
import Rushkit.Handshake
import Rushkit.FeedRun
import Rushkit.Segmentation
import Rushkit.ReaderSafety
import Rushkit.Dispatch
import Rushkit.Invoke
import Rushkit.AmfGrammar
import Rushkit.AmfBounds
import Rushkit.Callbacks
import Rushkit.Rounds
import Rushkit.InboundMessage
import Rushkit.ChunkSize
import Rushkit.Library.DoWhile
import Rushkit.UnreadBytes
import Rushkit.ReaderReturns
import Rushkit.FeedData
import Rushkit.AmfRelay
import Rushkit.AmfForward
import Rushkit.AmfStore
import Rushkit.PoolTrunks
import Rushkit.ElementStorage
import Rushkit.HeaderCodec
import Rushkit.MessageEnd
import Rushkit.PoolRun
import Rushkit.Library.Frame
import Rushkit.SideEffects
import Rushkit.LeftoverRoom
import Rushkit.RequestIds
import Rushkit.WriteBlocks
import Rushkit.BufferRoundTrip
import Rushkit.Library.Dialogue
import Rushkit.Answers
import Rushkit.Conversation
import Rushkit.Service
import Rushkit.Payloads
import Rushkit.Server
import Rushkit.Connections
import Rushkit.Sessions
import Rushkit.Bindings
import Rushkit.Accounts
import Rushkit.Channels
import Rushkit.AmfCode
import Rushkit.Lockout
import Rushkit.AmfCursor
import Rushkit.Duplex
import Rushkit.AmfBuilt
