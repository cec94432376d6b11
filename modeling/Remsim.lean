import Remsim.Transition
import Remsim.Lists
import Remsim.Slotmap
import Remsim.Rspro
import Remsim.Server
import Remsim.Rest
import Remsim.Book
import Remsim.Ledger
import Remsim.Registry
import Remsim.Refinement
import Remsim.Outstanding
import Remsim.Listing
import Remsim.Teardown
import Remsim.Net
import Remsim.Bankd
import Remsim.Worker
import Remsim.Process
import Remsim.Session
import Remsim.Revocation
import Remsim.Agreement
import Remsim.World
import Remsim.Sync
import Remsim.Front
import Remsim.Clients
import Remsim.MainThread
import Remsim.Posts
import Remsim.Race
import Remsim.Fsm
import Remsim.RsproClient
import Remsim.Backoff
import Remsim.ClientMain
import Remsim.Assertions
import Remsim.Driver
import Remsim.Resets
import Remsim.RoundRobin
import Remsim.KiProxy
import Remsim.Der
import Remsim.Tpdu
import Remsim.Atomicity
import Remsim.Buffers
import Remsim.Json
import Remsim.SlotmapJson
import Remsim.Decimal
import Remsim.DeleteRequest
import Remsim.Journal
import Remsim.Edges
import Remsim.Atr
import Remsim.Llist
import Remsim.Memory
import Remsim.Unsolicited
import Remsim.IpaRead
import Remsim.CString
import Remsim.ComponentId
import Remsim.Hex
import Remsim.Scanf
import Remsim.HexCodec
import Remsim.ModemAnswer
import Remsim.CardResponse
import Remsim.WakeUp
import Remsim.PoolOption
import Remsim.ReaderTable
import Remsim.UciConfig
import Remsim.AsnNames
import Remsim.DeviceName
import Remsim.ModemStatus
import Remsim.ShellStdin
import Remsim.JsonText
import Remsim.IonMesh
import Remsim.BerChoice
import Remsim.RsproCodec
import Remsim.BerWritten
import Remsim.Frames
import Remsim.Lifecycle
import Remsim.RestGet
import Remsim.SplitTpdu
