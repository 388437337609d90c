import GarlicRouting.Session.Receiver
import GarlicRouting.Session.Sessions

/-! A local identity: its sessions, its receiver, and what it passes on to the application. -/
namespace GarlicRouting

structure AppMessage where
  id : UInt32
  payload : Bytes
deriving DecidableEq

structure Node where
  own : Identity
  publicKey : ElGamal.PublicKey
  /-- The tunnel through which acknowledgments come back to it. -/
  reply : ReplyTunnel
  /-- Whether it passes on cloves that are for others. -/
  forwards : Bool
  sessions : Sessions
  receiver : Receiver
  running : Bool := true
  /-- Status ids that came out of a tunnel and wait to be handled. -/
  tunnelStatuses : List UInt32 := []
  /-- Status ids that were in garlic and wait to be handled. -/
  providerStatuses : List UInt32 := []
  /-- Application data that waits to be taken. -/
  app : List AppMessage := []
  events : List SessionEvent := []
  deliveredLocal : Nat := 0
  forwarded : Nat := 0
  unforwarded : Nat := 0
  statusReceived : Nat := 0

namespace Node

def new (pair : ElGamal.KeyPair) (settings : Settings) (tunnel : TunnelId) (forwards : Bool) : Node :=
  let own := Identity.ofPublic pair.publicKey.octets.toList
  { own, forwards
    publicKey := pair.publicKey
    reply := ⟨own, tunnel⟩
    sessions := { own, settings }
    receiver := .new pair.privateKey settings }

/-- Puts a status id up that came out of a tunnel, unless the node has stopped. -/
def queueStatus (n : Node) (id : UInt32) : Node :=
  if n.running then { n with tunnelStatuses := n.tunnelStatuses ++ [id] } else n

/-- Puts a status id up that was in garlic, unless the node has stopped. -/
def queueProviderStatus (n : Node) (id : UInt32) : Node :=
  if n.running then { n with providerStatuses := n.providerStatuses ++ [id] } else n

def deliverApp (n : Node) (m : AppMessage) : Node :=
  { n with app := n.app ++ [m], deliveredLocal := n.deliveredLocal + 1 }

def countForward (n : Node) (taken : Bool) : Node :=
  if taken then { n with forwarded := n.forwarded + 1 }
  else { n with unforwarded := n.unforwarded + 1 }

def deliveryStatus (n : Node) (id : UInt32) : Node :=
  let (_, events, sessions) := n.sessions.deliveryStatus id
  { n with sessions, events := n.events ++ events, statusReceived := n.statusReceived + 1 }

def handleStatuses (n : Node) : Node :=
  (n.tunnelStatuses ++ n.providerStatuses).foldl deliveryStatus
    { n with tunnelStatuses := [], providerStatuses := [] }

/-- The node with nothing waiting for the application, and what was. -/
def takeNews (n : Node) : List AppMessage × List SessionEvent × Node :=
  (n.app, n.events, { n with app := [], events := [] })

/-- Ends all sessions and forgets all tags; the node takes no more deliveries. -/
def shutdown (n : Node) : Node :=
  { n with
    sessions := n.sessions.shutdown.2
    receiver := n.receiver.clear
    running := false
    tunnelStatuses := []
    providerStatuses := [] }

end Node

end GarlicRouting
