import GarlicRouting.Fault
import GarlicRouting.Identity

/-! What sessions know of tunnels, and why a send fails. -/
namespace GarlicRouting

/-- The tunnel through which acknowledgments come back. -/
structure ReplyTunnel where
  gateway : Identity
  tunnel : TunnelId
deriving DecidableEq

/-- Why the tunnel layer takes no message. -/
inductive TunnelFault where
  | noOutboundTunnel
  | noLease (recipient : Identity)
  | closed
deriving DecidableEq

def TunnelFault.message : TunnelFault → String
  | noOutboundTunnel => "No outbound tunnel available"
  | noLease recipient => s!"No usable lease for {recipient.short}"
  | closed => "Transport closed"

inductive SendFault where
  | noReplyTunnel
  | unknownPeer (remote : Identity)
  | tunnel (fault : TunnelFault)
  | codec (fault : Fault)
  | noUsableTag
  | shutDown
deriving DecidableEq

namespace SendFault

def message : SendFault → String
  | noReplyTunnel => "No reply tunnel available for acknowledgments"
  | unknownPeer remote => s!"No public key known for {remote.short}"
  | tunnel fault => s!"Tunnel send failed: {fault.message}"
  | codec fault => s!"Codec error: {fault.message}"
  | noUsableTag => "Tag pool emptied while locked"
  | shutDown => "Session registry shut down"

/-- Nothing was sent, and nothing will be tried again. -/
def isConnectivity : SendFault → Bool
  | noReplyTunnel | tunnel _ => true
  | _ => false

end SendFault

end GarlicRouting
