import Fiesta.Server.Model
import Fiesta.Server.Fanout
import Fiesta.Server.Table
import Fiesta.Server.Order
import Fiesta.Server.Capacity
import Fiesta.Client.Chat
import Fiesta.Client.Events
import Fiesta.Client.Stored
import Fiesta.Client.Frame
import Fiesta.Client.Codec
import Fiesta.Client.Loop
import Fiesta.Client.Tank
import Fiesta.Client.Bullets
import Fiesta.Client.Lifetime
import Fiesta.Client.Aim
import Fiesta.Client.FireRate
import Fiesta.Lib.Broadcast
import Fiesta.Session.Control
import Fiesta.Session.Heard
import Fiesta.Session.Pairing
import Fiesta.Session.Replica
import Fiesta.Common.Vector
import Fiesta.Common.Hashtable
import Fiesta.Common.Protocol18
import Fiesta.Photon.RoomList
import Fiesta.Photon.MutableRoom
import Fiesta.Photon.Listener
import Fiesta.Photon.LocalPlayer
import Fiesta.LoadBalancing.Progress
import Fiesta.LoadBalancing.Program
import Fiesta.LoadBalancing.Entrance
