import GarlicRouting.Lease
import GarlicRouting.Session.Sender

/-! Sends to one peer that wait for their confirmation, and their resends. -/
namespace GarlicRouting

structure Outstanding where
  trackingId : UInt32
  cloves : List Clove
  explicit : Bool
  path : Path
  /-- Every status id that confirms the send, resends included. -/
  ackIds : List UInt32
  created : Nat
  lastSend : Nat
  resends : Nat := 0
deriving DecidableEq

structure Shipment where
  leases : Option LeaseSet
  message : Sealed

/-- What the tunnel layer answers. Before it answered it may have passed on status ids. -/
structure Receipt where
  result : Except TunnelFault Unit
  reported : List UInt32 := []

structure TunnelLayer where
  /-- The reply tunnel chosen for the send with a tracking id. -/
  reply : UInt32 → Option ReplyTunnel
  carry : Shipment → Receipt

structure StatusOutcome where
  trackingId : Option UInt32
  tags : Option TagAck
deriving DecidableEq

def StatusOutcome.matched (o : StatusOutcome) : Bool := o.trackingId.isSome || o.tags.isSome

/-- A shipment with its answer, and what the ids passed on meanwhile matched. -/
structure Handoff where
  shipment : Shipment
  receipt : Receipt
  outcomes : List StatusOutcome

structure Report where
  resent : Nat := 0
  failures : Nat := 0
  expired : Nat := 0
  dropped : Nat := 0
  reset : Bool := false
deriving DecidableEq

def Report.add (a b : Report) : Report :=
  ⟨a.resent + b.resent, a.failures + b.failures, a.expired + b.expired, a.dropped + b.dropped,
    a.reset || b.reset⟩

/-- The session with a peer and the sends that wait for confirmation, by tracking id and by every
status id that confirms them. -/
structure Outbox where
  sender : Sender
  leases : Option LeaseSet := none
  entries : Table UInt32 Outstanding := .empty
  acks : Table UInt32 UInt32 := .empty
  nextId : UInt32 := 1
  resends : Nat := 0
  resets : Nat := 0

/-- The status ids that confirm a message, each once. -/
def Sealed.confirmations (m : Sealed) : List UInt32 :=
  if m.ackId = m.refreshAckId then m.ackId.toList else m.ackId.toList ++ m.refreshAckId.toList

namespace Outbox

def new (sender : Sender) : Outbox := { sender }

def mapAcks (o : Outbox) (trackingId : UInt32) (ackIds : List UInt32) : Outbox :=
  { o with acks := ackIds.foldl (fun t id => t.insert id trackingId) o.acks }

def track (o : Outbox) (e : Outstanding) : Outbox :=
  { o.mapAcks e.trackingId e.ackIds with entries := o.entries.insert e.trackingId e }

def forget (o : Outbox) (trackingId : UInt32) : Outbox :=
  match o.entries.find? trackingId with
  | none => o
  | some e =>
    { o with
      entries := o.entries.erase trackingId
      acks := e.ackIds.foldl Table.erase o.acks }

/-- Adds status ids to a send that is still there. -/
def registerAcks (o : Outbox) (trackingId : UInt32) (ackIds : List UInt32) : Outbox :=
  if o.entries.contains trackingId then
    { o.mapAcks trackingId ackIds with
      entries := o.entries.modify trackingId fun e => { e with ackIds := e.ackIds ++ ackIds } }
  else o

/-- A status id confirms tags, a send, or both. -/
def deliveryStatus (o : Outbox) (ackId : UInt32) : StatusOutcome × Outbox :=
  let (tags, sender) := o.sender.acknowledge ackId
  let o := { o with sender }
  match o.acks.find? ackId with
  | none => (⟨none, tags⟩, o)
  | some trackingId =>
    (⟨(o.entries.find? trackingId).map (·.trackingId), tags⟩, o.forget trackingId)

def deliveryStatuses (o : Outbox) : List UInt32 → List StatusOutcome × Outbox
  | [] => ([], o)
  | id :: ids =>
    let (outcome, o) := o.deliveryStatus id
    let (outcomes, o) := o.deliveryStatuses ids
    (outcome :: outcomes, o)

def handOff (o : Outbox) (layer : TunnelLayer) (message : Sealed) : Handoff × Outbox :=
  let shipment : Shipment := ⟨o.leases, message⟩
  let receipt := layer.carry shipment
  let (outcomes, o) := o.deliveryStatuses receipt.reported
  (⟨shipment, receipt, outcomes⟩, o)

/-- Sends that ask for an acknowledgment, or that go out in a handshake, are tracked. -/
def needsTracking (explicit : Bool) (m : Sealed) : Bool :=
  explicit || m.path = .handshake || m.handshakeAckId.isSome

/-- Encrypts cloves and hands them over. The send is tracked before the hand-off, since its status
can come in meanwhile, and forgotten if the tunnel layer refuses it. -/
def send (o : Outbox) (moment : Moment) (d : Draw) (layer : TunnelLayer) (explicit : Bool)
    (cloves : List Clove) : Except SendFault Sealed × Option Handoff × Outbox :=
  let trackingId := o.nextId
  let o := { o with nextId := o.nextId + 1 }
  match o.sender.encrypt moment d (layer.reply trackingId) explicit trackingId cloves with
  | (.error e, sender) => (.error e, none, { o with sender })
  | (.ok message, sender) =>
    let o := { o with sender }
    let tracked := needsTracking explicit message
    let o :=
      if tracked then
        o.track {
          trackingId, cloves, explicit
          path := message.path
          ackIds := message.confirmations
          created := moment.instant
          lastSend := moment.instant }
      else o
    let (handoff, o) := o.handOff layer message
    match handoff.receipt.result with
    | .ok () => (.ok message, some handoff, o)
    | .error e => (.error (.tunnel e), some handoff, if tracked then o.forget trackingId else o)

/-- Whether the peer has not answered a send for the whole window. -/
def isExpired (o : Outbox) (now : Nat) (e : Outstanding) : Bool :=
  o.sender.settings.windowSpan.nanoseconds < now - e.created

/-- Whether a resend interval has passed since the last attempt. -/
def isStale (o : Outbox) (now : Nat) (e : Outstanding) : Bool :=
  o.sender.settings.resendSpan.nanoseconds ≤ now - e.lastSend

structure Round where
  outbox : Outbox
  supply : Supply
  /-- In reverse. -/
  handoffs : List Handoff := []
  resent : List UInt32 := []
  failures : Nat := 0

def attempt (moment : Moment) (layer : TunnelLayer) (r : Round) (e : Outstanding) : Round :=
  let (d, supply) := r.supply.next
  let r := { r with supply }
  match r.outbox.sender.encrypt moment d (layer.reply e.trackingId) e.explicit e.trackingId
      e.cloves with
  | (.error _, sender) =>
    { r with outbox := { r.outbox with sender }, failures := r.failures + 1 }
  | (.ok message, sender) =>
    let o := { r.outbox with sender }
    let (handoff, o) := (o.registerAcks e.trackingId message.confirmations).handOff layer message
    let r := { r with outbox := o, handoffs := handoff :: r.handoffs }
    match handoff.receipt.result with
    | .ok () => { r with resent := e.trackingId :: r.resent }
    | .error _ => { r with failures := r.failures + 1 }

/-- A failed attempt waits for a whole interval too, but only one that succeeded is counted. -/
def settle (now : Nat) (resent : List UInt32) (o : Outbox) (e : Outstanding) : Outbox :=
  { o with
    entries := o.entries.modify e.trackingId fun e =>
      { e with
        lastSend := now
        resends := if resent.contains e.trackingId then e.resends + 1 else e.resends } }

/-- One round of maintenance: a handshake without answer is given up, old sends are forgotten, and
stale ones are attempted again, or dropped if nothing waits for their confirmation. The attempts go
over the sends as they were when the round began. -/
def maintain (o : Outbox) (moment : Moment) (supply : Supply) (layer : TunnelLayer) :
    Report × List Handoff × Supply × Outbox :=
  let now := moment.instant
  let (reset, sender) := o.sender.resetIfStuck now o.sender.settings.resendSpan.nanoseconds
  let o := { o with sender, resets := if reset then o.resets + 1 else o.resets }
  let handshaking := reset || o.sender.barrier.isSome
  let expired := o.entries.values.filter (o.isExpired now)
  let o := expired.foldl (fun o e => o.forget e.trackingId) o
  let (due, dropped) := (o.entries.values.filter (o.isStale now)).partition fun e =>
    e.explicit || handshaking
  let o := dropped.foldl (fun o e => o.forget e.trackingId) o
  let round := due.foldl (attempt moment layer) { outbox := o, supply }
  let o := due.foldl (settle now round.resent) round.outbox
  let report : Report :=
    { resent := round.resent.length
      failures := round.failures
      expired := expired.length
      dropped := dropped.length
      reset }
  (report, round.handoffs.reverse, round.supply, { o with resends := o.resends + report.resent })

/-- Forgets all sends and the session; the lease set and the counters stay. -/
def clear (o : Outbox) : Outbox :=
  { o with entries := .empty, acks := .empty, sender := o.sender.reset }

end Outbox

end GarlicRouting
