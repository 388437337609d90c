import GarlicRouting.Session.Outbox

/-! The sessions of one local identity, by peer. -/
namespace GarlicRouting

inductive SessionEvent where
  /-- A tracked send was confirmed. -/
  | acknowledged (remote : Identity) (trackingId : UInt32)
  /-- Tags became usable. -/
  | tagsConfirmed (remote : Identity) (count : Nat) (handshake : Bool)
  /-- A handshake without answer was given up. -/
  | reset (remote : Identity)
deriving DecidableEq

structure SessionStats where
  peers : Nat := 0
  usableTags : Nat := 0
  pendingTags : Nat := 0
  outstanding : Nat := 0
  resends : Nat := 0
  resets : Nat := 0
deriving DecidableEq

/-- What an outcome tells about a peer. -/
def StatusOutcome.events (remote : Identity) (o : StatusOutcome) : List SessionEvent :=
  (match o.tags with
    | some t => if 0 < t.added then [.tagsConfirmed remote t.added t.confirmed] else []
    | none => []) ++
  (o.trackingId.map (.acknowledged remote)).toList

/-- What came in while a shipment was handed over. -/
def Handoff.events (h : Handoff) : List SessionEvent :=
  h.outcomes.flatMap (·.events h.shipment.message.destination)

structure Sessions where
  own : Identity
  settings : Settings
  peers : Table Identity Outbox := .empty
  closed : Bool := false

abbrev Directory := Identity → Option ElGamal.PublicKey

namespace Sessions

/-- The session with a peer, which begins on first use. -/
def peer (s : Sessions) (directory : Directory) (remote : Identity) :
    Except SendFault Outbox × Sessions :=
  if s.closed then (.error .shutDown, s)
  else
    match s.peers.find? remote with
    | some o => (.ok o, s)
    | none =>
      match directory remote with
      | none => (.error (.unknownPeer remote), s)
      | some key =>
        let o := Outbox.new (.new remote key s.settings)
        (.ok o, { s with peers := s.peers.insert remote o })

def put (s : Sessions) (remote : Identity) (o : Outbox) : Sessions :=
  { s with peers := s.peers.modify remote fun _ => o }

def send (s : Sessions) (directory : Directory) (moment : Moment) (d : Draw) (layer : TunnelLayer)
    (remote : Identity) (explicit : Bool) (cloves : List Clove) :
    Except SendFault Sealed × Option Handoff × Sessions :=
  match s.peer directory remote with
  | (.error e, s) => (.error e, none, s)
  | (.ok o, s) =>
    let (result, handoff, o) := o.send moment d layer explicit cloves
    (result, handoff, s.put remote o)

def updateLeases (s : Sessions) (directory : Directory) (leases : LeaseSet) :
    Except SendFault Unit × Sessions :=
  match s.peer directory leases.destination with
  | (.error e, s) => (.error e, s)
  | (.ok o, s) => (.ok (), s.put leases.destination { o with leases := some leases })

/-- Offers a status id to one peer after the other until one matches. -/
def offer (ackId : UInt32) : List (Identity × Outbox) →
    Option (Identity × StatusOutcome) × List (Identity × Outbox)
  | [] => (none, [])
  | (remote, o) :: rest =>
    let (outcome, o) := o.deliveryStatus ackId
    if outcome.matched then (some (remote, outcome), (remote, o) :: rest)
    else
      let (found, rest) := offer ackId rest
      (found, (remote, o) :: rest)

/-- Handles a status id from any source; tells the peer it matched, if any. -/
def deliveryStatus (s : Sessions) (ackId : UInt32) :
    Option (Identity × StatusOutcome) × List SessionEvent × Sessions :=
  let (found, peers) := offer ackId s.peers.toList
  (found, found.elim [] fun (remote, outcome) => outcome.events remote, { s with peers := ⟨peers⟩ })

/-- What goes on through a round over all peers. -/
structure Round where
  report : Report := {}
  handoffs : List Handoff := []
  events : List SessionEvent := []
  supply : Supply
  peers : List (Identity × Outbox) := []

def maintainPeer (moment : Moment) (layer : TunnelLayer) (r : Round) (p : Identity × Outbox) :
    Round :=
  let (report, handoffs, supply, o) := p.2.maintain moment r.supply layer
  { report := r.report.add report
    handoffs := r.handoffs ++ handoffs
    events := r.events ++ handoffs.flatMap Handoff.events ++
      (if report.reset then [.reset p.1] else [])
    supply
    peers := r.peers ++ [(p.1, o)] }

def maintain (s : Sessions) (moment : Moment) (supply : Supply) (layer : TunnelLayer) :
    Report × List Handoff × List SessionEvent × Supply × Sessions :=
  if s.closed then ({}, [], [], supply, s)
  else
    let r := s.peers.toList.foldl (maintainPeer moment layer) { supply }
    (r.report, r.handoffs, r.events, r.supply, { s with peers := ⟨r.peers⟩ })

def stats (s : Sessions) (now : Nat) : SessionStats :=
  let sum (f : Outbox → Nat) : Nat := s.peers.values.foldr (fun o n => f o + n) 0
  { peers := s.peers.size
    usableTags := sum (·.sender.usableTags now)
    pendingTags := sum (·.sender.pendingTags)
    outstanding := sum (·.entries.size)
    resends := sum (·.resends)
    resets := sum (·.resets) }

/-- Ends all sessions for good; tells what is left of them. -/
def shutdown (s : Sessions) : List (Identity × Outbox) × Sessions :=
  (s.peers.toList.map fun p => (p.1, p.2.clear), { s with peers := .empty, closed := true })

end Sessions

end GarlicRouting
