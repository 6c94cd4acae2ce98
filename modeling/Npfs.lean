import Npfs.PacketSize
import Npfs.IoCount
import Npfs.Recycled
import Npfs.Negotiation
import Npfs.ClientPool
import Npfs.DirRead
import Npfs.ReplyStream
import Npfs.Ramfs
import Npfs.ReadProc
import Npfs.FlushChains
import Npfs.FlushOrder
import Npfs.PacketBounds
import Npfs.RoundTripDotl
import Npfs.MappedIsolation
import Npfs.Checkpoint
import Npfs.XattrValue
import Npfs.Confinement
import Npfs.AuthExchange
import Npfs.FidTable
import Npfs.Teardown
import Npfs.WorkerRoots
import Npfs.Transport
import Npfs.ConnLifetime
import Npfs.LockDiscipline
import Npfs.UserRefs
import Npfs.NameRace
import Npfs.DirListing
import Npfs.Queues
import Npfs.StatBuffer
import Npfs.FusFlush
import Npfs.ClientRequests
import Npfs.ClientTags
import Npfs.DirOffset
import Npfs.FusFraming
import Npfs.UfsListing
import Npfs.FileListing
import Npfs.ClientFids
import Npfs.FileLocks
import Npfs.ReaddirCookies
import Npfs.RemoveOnClose
import Npfs.ExclusiveOpen
import Npfs.MappedLink
import Npfs.UnknownOwners
import Npfs.FreeCalls
import Npfs.ParallelRead
import Npfs.MemoryWstat
import Npfs.AuthCodecs
import Npfs.ClientWalk
import Npfs.ClientIo
import Npfs.ParallelWrite
import Npfs.P9anyOffer
import Npfs.SimpleUsers
import Npfs.GroupMembership
import Npfs.PrivateUsers
import Npfs.Restore
import Npfs.Restoration
import Npfs.WireCompare
import Npfs.MailboxPaths
import Npfs.MailboxReads
import Npfs.FusFids
import Npfs.FusWalk
import Npfs.RdmaTrans
import Npfs.Delivery
import Npfs.AuthFid
import Npfs.Mediation
import Npfs.AuthBypass
import Npfs.Matching
import Npfs.ClientReader
