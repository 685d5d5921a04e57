import Dvpn.Lsa.RoundTrip
import Dvpn.Rib.Peers
import Dvpn.Rib.Route
import Dvpn.Rib.Rollback
import Dvpn.Dgp.Sync
import Dvpn.Lsa.Free
import Dvpn.Lsa.Differences
import Dvpn.Lsa.Canonical
import Dvpn.Lsa.Accounting
import Dvpn.Daemon.Connections
import Dvpn.Daemon.Listen
import Dvpn.Dgp.Framing
import Dvpn.Dgp.Incomplete
import Dvpn.Dgp.Buffers
import Dvpn.Dgp.Connect
import Dvpn.Tconn.Retry
import Dvpn.Tconn.KeyIds
import Dvpn.Rib.Signed
import Dvpn.Rib.PathCost
import Dvpn.Rib.Best
import Dvpn.Dgp.Network
import Dvpn.Spf.Simple
import Dvpn.Spf.Policies
import Dvpn.Fingerprint.Hostname
import Dvpn.Tconn.Lossless
import Dvpn.Daemon.RtBuilder
import Dvpn.Daemon.Advertise
import Dvpn.Rib.Room
import Dvpn.Lsa.Keys
import Dvpn.Spf.Iterations
import Dvpn.Tconn.Admission
import Dvpn.Conf.Applied
import Dvpn.Tconn.SessionRun
import Dvpn.Dgp.Listen
import Dvpn.Rib.ReferencesRun
import Dvpn.Daemon.RouterRun
import Dvpn.Tconn.ResolutionRun
