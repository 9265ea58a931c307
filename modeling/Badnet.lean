import Badnet.Relay.Delivery
import Badnet.Relay.FlowControl
import Badnet.Circuits.CircidRuns
import Badnet.Dos.ClientConns
import Badnet.Sched.KistRuns
import Badnet.Circpad.ExpectedHop
import Badnet.Evloop.TokenBucket
import Badnet.Socks.SafeSocks
import Badnet.Consdiffmgr.ClientUpdate
import Badnet.Consdiff.Optimal
import Badnet.Container.PqueueHeap
import Badnet.Protover.AndNotIn
import Badnet.Net.PatternMeaning
import Badnet.Policies.Queries
import Badnet.Relay.ResumeReading
import Badnet.Encoding.Binascii
import Badnet.Cells.DeclaredLength
import Badnet.Client.RewriteReports
import Badnet.Hibernate.WakeupArithmetic
import Badnet.Http.Framing
import Badnet.Encoding.KvlineCodec
import Badnet.Client.ReverseMap
import Badnet.Dirauth.BwWeightsLegal
import Badnet.Dirauth.ConsensusMethod
import Badnet.Dirauth.Params
import Badnet.Dirauth.RouterConsensus
import Badnet.Dirauth.TotalBandwidth
import Badnet.HsCommon.Replaycache
import Badnet.SharedRandom.HonestAuthority
import Badnet.SharedRandom.DiskState
import Badnet.SharedRandom.StateRuns
import Badnet.Entrynodes.Unblocked
import Badnet.Channel.Channelpadding
import Badnet.Control.EscapedData
import Badnet.HsCommon.TimePeriod
import Badnet.Stats.Bwhist
import Badnet.Circpad.PaddingLimit
import Badnet.Nodelist.RoutersetListing
import Badnet.Nodelist.RoutersetMembership
import Badnet.Directory.Registration
import Badnet.Directory.RouterLines
import Badnet.Directory.HeaderTransport
import Badnet.Directory.Capacity
import Badnet.Nodelist.Freshness
import Badnet.Nodelist.Reload
import Badnet.Entrynodes.StateRoundTrip
import Badnet.Container.Bsearch
