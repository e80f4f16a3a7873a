import ScionPacket.Support.Bytes
import ScionPacket.Support.Collaborators
import ScionPacket.Scion.CommonHdr
import ScionPacket.Scion.Header
import ScionPacket.Scion.Parse
import ScionPacket.Scion.Packet
import ScionPacket.Scion.Control
import ScionPacket.Properties.Navigation
import ScionPacket.Properties.Lengths
import ScionPacket.Properties.Termination
import ScionPacket.Properties.RoundTrip
import ScionPacket.Properties.ControlCodec
import ScionPacket.Properties.ExtChain
import ScionPacket.Properties.Errors
import ScionPacket.Properties.DownPath
import ScionPacket.Properties.Dispatch
import ScionPacket.Properties.ControlErrors
import ScionPacket.Properties.Reply
