import Pump.Toolkit.IoBuffer
import Pump.Http.Frame
import Pump.Utils
import Pump.Http.Utils
import Pump.Http.Header
import Pump.Http.Body
import Pump.Http.Chunked
import Pump.Http.Packet
import Pump.Http.Request
import Pump.Http.Response
import Pump.Http.Segments
import Pump.Http.RoundTrip
import Pump.Http.Connection
import Pump.Http.Delivery
import Pump.Lts
import Pump.Transport.Dialer
import Pump.Transport.Dial
import Pump.Transport.DialResult
import Pump.Toolkit.ByteQueue
import Pump.Http.Pipelining
import Pump.RingBuffer
import Pump.Toolkit.O2oQueue
import Pump.Links
import Pump.Toolkit.O2oFifo
import Pump.Toolkit.M2mQueue
import Pump.Transport.BaseTransport
import Pump.Once
import Pump.Transport.Terminal
import Pump.Transport.ReadEnd
import Pump.Toolkit.M2mRing
import Pump.Toolkit.M2mSteps
import Pump.Tally
import Pump.Toolkit.M2mSafe
import Pump.Poll.Poller
import Pump.Toolkit.M2mLine
import Pump.Poll.EventCount
import Pump.Http.Cache
import Pump.Digits
import Pump.Http.ChunkGrammar
import Pump.Http.ContentLength
import Pump.Http.Stalled
import Pump.Http.ResponseRoundTrip
import Pump.Http.HeaderRoundTrip
import Pump.Http.Query
import Pump.Http.Url
import Pump.Http.NameCase
import Pump.Baton
import Pump.Transport.Sending
import Pump.Codec
import Pump.Http.Callbacks
import Pump.Http.Upgrade
import Pump.Time.Engine
import Pump.Time.Firing
import Pump.Time.StoppedTimer
import Pump.Toolkit.M2mAlone
import Pump.Toolkit.Semaphore
import Pump.Transport.Acceptor
import Pump.Transport.Gate
import Pump.Transport.OneReader
import Pump.Transport.TlsReading
import Pump.Transport.NoAbort
import Pump.Transport.Drain
import Pump.Http.Masking
import Pump.Http.PartialHeader
import Pump.Http.StartWebsocket
import Pump.Toolkit.ArrQueue
import Pump.Toolkit.InBounds
import Pump.Places
import Pump.Poll.Trackers
import Pump.Transport.Descriptors
import Pump.Transport.Handshaker
import Pump.Transport.References
import Pump.Transport.Released
import Pump.Base64
import Pump.Toolkit.AllocFailure
import Pump.Http.RequestLine
import Pump.Http.ChunkState
import Pump.Http.Reading
import Pump.Http.Serialized
import Pump.Http.StatusLine
import Pump.Toolkit.TimedWait
import Pump.Cells
import Pump.Toolkit.QuickSort
import Pump.Toolkit.HeapSort
import Pump.SortedMap
import Pump.Time.TimerMap
import Pump.Toolkit.O2oDestroy
import Pump.Toolkit.SharedBuffer
import Pump.Calendar
import Pump.Time.Timestamp
import Pump.Time.Rendering
import Pump.BlockHash
import Pump.SecureHash
import Pump.Sha1
import Pump.Toolkit.FreelockQueue
import Pump.Http.Conversation
import Pump.Http.Client
import Pump.Http.ClientRuns
import Pump.Poll.Kept
import Pump.Transport.Udp
import Pump.Transport.Wire
import Pump.Transport.SyncDialer
import Pump.Toolkit.SimpleSort
import Pump.Http.Server
import Pump.Toolkit.SpinMutex
import Pump.Toolkit.ArrThreads
import Pump.Toolkit.ArrSolo
