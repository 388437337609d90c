import GarlicRouting.Router.Inbound

/-! Nodes in one process, connected by queues in place of tunnels. -/
namespace GarlicRouting

inductive Delivery where
  | garlic (raw : Bytes)
  /-- Out of one of the node's inbound tunnels. -/
  | tunnel (message : Message)
deriving DecidableEq

/-- More than all that can come out of a delivery. -/
def Delivery.weight : Delivery → Nat
  | garlic raw => raw.length + 1
  | tunnel message => message.encodedLength + 1

structure Network where
  nodes : Table Identity Node := .empty
  /-- Identities that can be reached. -/
  attached : List Identity := []
  /-- Deliveries under way, the oldest first. -/
  queue : List (Identity × Delivery) := []
  /-- Deliveries are lost silently. -/
  paused : Bool := false
  /-- There are no outbound and no reply tunnels. -/
  tunnelsDown : Bool := false
  delivered : Nat := 0
  lost : Nat := 0

namespace Network

def attach (net : Network) (n : Node) : Network :=
  { net with nodes := net.nodes.insert n.own n, attached := n.own :: net.attached.erase n.own }

def detach (net : Network) (id : Identity) : Network :=
  { net with attached := net.attached.filter (· ≠ id) }

def put (net : Network) (n : Node) : Network := { net with nodes := net.nodes.modify n.own fun _ => n }

def reachable? (net : Network) (id : Identity) : Option Node :=
  if net.attached.contains id then net.nodes.find? id else none

def directory (net : Network) : Directory := fun id => (net.reachable? id).map (·.publicKey)

/-- Whether a delivery is taken, be it only to be lost. -/
def accepts (net : Network) (recipient : Identity) : Except TunnelFault Unit :=
  if net.paused then .ok ()
  else
    match net.reachable? recipient with
    | none => .error (.noLease recipient)
    | some n => if n.running then .ok () else .error .closed

def deliver (net : Network) (recipient : Identity) (d : Delivery) : Network :=
  match net.accepts recipient with
  | .error _ => net
  | .ok () =>
    if net.paused then { net with lost := net.lost + 1 }
    else { net with queue := net.queue ++ [(recipient, d)], delivered := net.delivered + 1 }

/-- The reachable node at whose tunnel messages come out. -/
def tunnelOwner? (net : Network) (gateway : Identity) (tunnel : TunnelId) : Option Identity :=
  net.attached.find? fun id => (net.nodes.find? id).any fun n => n.reply = ⟨gateway, tunnel⟩

/-- Where a clove goes, and as what. A clove for the forwarding node itself goes nowhere. -/
def route (net : Network) (c : Clove) : Except TunnelFault (Option (Identity × Delivery)) :=
  let arrival : Delivery :=
    match c.message.payload with
    | .garlic raw => .garlic raw
    | _ => .tunnel c.message
  match c.instruction.target with
  | .here => .ok none
  | .destination recipient | .router recipient => .ok (some (recipient, arrival))
  | .tunnel gateway tunnel =>
    match net.tunnelOwner? gateway tunnel with
    | some owner => .ok (some (owner, .tunnel c.message))
    | none => .error (.noLease gateway)

def forwardResult (net : Network) (c : Clove) : Except TunnelFault Unit :=
  match net.route c with
  | .error e => .error e
  | .ok none => .ok ()
  | .ok (some (recipient, _)) => net.accepts recipient

def forward (net : Network) (c : Clove) : Network :=
  match net.route c with
  | .ok (some (recipient, d)) => net.deliver recipient d
  | _ => net

def replyTunnel (net : Network) (n : Node) : Option ReplyTunnel :=
  if net.tunnelsDown then none else some n.reply

def tunnelLayer (net : Network) (n : Node) : TunnelLayer where
  reply _ := net.replyTunnel n
  carry s := ⟨if net.tunnelsDown then .error .noOutboundTunnel else net.accepts s.message.destination, []⟩

def ship (net : Network) (h : Handoff) : Network :=
  match h.receipt.result with
  | .ok () => net.deliver h.shipment.message.destination (.garlic h.shipment.message.wire)
  | .error _ => net

def send (net : Network) (n : Node) (moment : Moment) (d : Draw) (remote : Identity) (explicit : Bool)
    (cloves : List Clove) : Except SendFault Sealed × Network :=
  let (result, handoff, sessions) :=
    n.sessions.send net.directory moment d (net.tunnelLayer n) remote explicit cloves
  (result, handoff.toList.foldl ship (net.put { n with sessions }))

/-- A node sends application data for the peer itself. -/
def sendData (net : Network) (n : Node) (moment : Moment) (d : Draw) (remote : Identity)
    (explicit : Bool) (data : Bytes) : Except SendFault Sealed × Network :=
  net.send n moment d remote explicit
    [.fresh d.dataIds.clove moment.clock { target := .here }
      (.fresh d.dataIds.message moment.clock (.data data))]

def maintain (net : Network) (n : Node) (moment : Moment) (supply : Supply) :
    Report × Supply × Network :=
  let (report, handoffs, events, supply, sessions) :=
    n.sessions.maintain moment supply (net.tunnelLayer n)
  (report, supply, handoffs.foldl ship (net.put { n with sessions, events := n.events ++ events }))

/-- The network as the forwarder of its nodes. -/
def forwarder : Forwarder Network := fun net c => (net.forwardResult c, net.forward c)

/-- A node handles a garlic; tells how many cloves it had. -/
def receiveGarlic (net : Network) (n : Node) (now : Nat) (raw : Bytes) : Nat × Network :=
  let (count, i) := Intake.receiveGarlic (fun _ => now) forwarder ⟨n, net, 0⟩ raw
  (count, i.forwarder.put i.node)

def receiveMessage (net : Network) (n : Node) (now : Nat) (m : Message) : Network :=
  let i := Intake.receiveMessage (fun _ => now) forwarder ⟨n, net, 0⟩ m
  i.forwarder.put i.node

def arrive (net : Network) (now : Nat) (recipient : Identity) (d : Delivery) : Network :=
  match net.nodes.find? recipient with
  | none => net
  | some n =>
    match d with
    | .garlic raw => (net.receiveGarlic n now raw).2
    | .tunnel m => net.receiveMessage n now m

/-- The next delivery: one for the node that had the last one, or else the oldest. -/
def next? (net : Network) (last : Option Identity) : Option ((Identity × Delivery) × Network) :=
  let forLast := fun (p : Identity × Delivery) => last = some p.1
  match net.queue.find? forLast, net.queue with
  | _, [] => none
  | none, p :: rest => some (p, { net with queue := rest })
  | some p, _ => some (p, { net with queue := net.queue.eraseP forLast })

/-- Handles deliveries, up to the given number. -/
def deliverWithin (now : Nat) : (steps : Nat) → Option Identity → Network → Network
  | 0, _, net => net
  | steps + 1, last, net =>
    match net.next? last with
    | none => net
    | some ((recipient, d), net) => deliverWithin now steps (some recipient) (net.arrive now recipient d)

/-- Handles deliveries until none is left, and then the status ids that came in. What comes out of a
delivery weighs less than the delivery, so the weight of the queue bounds their number. -/
def settle (net : Network) (now : Nat) : Network :=
  let weight := net.queue.foldr (fun p n => p.2.weight + n) 0
  let net := deliverWithin now weight none net
  { net with nodes := ⟨net.nodes.toList.map fun p => (p.1, p.2.handleStatuses)⟩ }

def shutdown (net : Network) (n : Node) : Network := net.put n.shutdown

end Network

end GarlicRouting
