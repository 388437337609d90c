import GarlicRouting.Session.Entropy
import GarlicRouting.Session.Pool
import GarlicRouting.Session.Settings
import GarlicRouting.Session.Tunnel
import GarlicRouting.Table
import GarlicRouting.TagBlock

/-! The sending half of a session: the session key, the tags the peer knows, and the tags that wait
for their acknowledgment. -/
namespace GarlicRouting

inductive Path where
  /-- A public-key block carries the session key. -/
  | handshake
  /-- A tag stands for the session key. -/
  | tag
deriving DecidableEq

structure Sealed where
  destination : Identity
  /-- The caller's cloves, without those that ask for acknowledgments. -/
  cloves : List Clove
  wire : Bytes
  path : Path
  /-- Usable tags left after this message. -/
  tagsRemaining : Nat
  trackingId : UInt32
  /-- The status id that confirms the message. -/
  ackId : Option UInt32
  /-- The status id that confirms the tags minted with it. -/
  refreshAckId : Option UInt32
  /-- The status id that the handshake under way waits for. -/
  handshakeAckId : Option UInt32
deriving DecidableEq

/-- Minted tags whose acknowledgment is awaited. -/
structure Batch where
  tags : List SessionTag
  key : SessionKey
  created : Nat
  /-- The tags went out in a handshake. -/
  handshake : Bool
deriving DecidableEq

/-- A handshake under way: its acknowledgment and when it began. -/
structure Barrier where
  ackId : UInt32
  started : Nat
deriving DecidableEq

structure TagAck where
  added : Nat
  /-- It ended the handshake under way. -/
  confirmed : Bool
deriving DecidableEq

structure AckRequest where
  refresh : Option UInt32 := none
  ack : Option UInt32 := none
  cloves : List Clove := []

structure Sender where
  remote : Identity
  remoteKey : ElGamal.PublicKey
  settings : Settings
  key : Option SessionKey := none
  usable : Pool SessionTag Unit
  pending : Table UInt32 Batch := .empty
  barrier : Option Barrier := none

namespace Sender

def new (remote : Identity) (remoteKey : ElGamal.PublicKey) (settings : Settings) : Sender :=
  { remote, remoteKey, settings, usable := { lifetime := settings.usableTagSpan.nanoseconds } }

def expire (s : Sender) (now : Nat) : Sender :=
  { s with
    usable := (s.usable.purge now).2
    pending := s.pending.filter fun b => now - b.created ≤ s.settings.pendingTagSpan.nanoseconds }

def usableTags (s : Sender) (now : Nat) : Nat := s.usable.count now

def pendingTags (s : Sender) : Nat := s.pending.values.foldr (fun b n => b.tags.length + n) 0

def isPending (s : Sender) (ackId : UInt32) : Bool := s.pending.contains ackId

def path (s : Sender) (now : Nat) : Path := if s.usableTags now = 0 then .handshake else .tag

/-- New tags go with every handshake, and with a tag that leaves few others. -/
def mintsTags (s : Sender) (now : Nat) : Bool :=
  s.path now = .handshake || s.usableTags now - 1 ≤ s.settings.lowWatermark

def ackClove (clock : UInt64) (reply : ReplyTunnel) (ids : CloveIds) (ackId : UInt32) : Clove :=
  .fresh ids.clove clock { target := .tunnel reply.gateway reply.tunnel }
    (.status ids.message clock ackId)

/-- New tags are acknowledged first. An explicit acknowledgment has its own clove unless the settings
let it share the one for new tags. -/
def ackRequest (s : Sender) (clock : UInt64) (d : Draw) (reply : ReplyTunnel)
    (mint explicit : Bool) : AckRequest :=
  let refresh : AckRequest :=
    if mint then
      { refresh := some d.refreshAck
        ack := some d.refreshAck
        cloves := [ackClove clock reply d.refreshIds d.refreshAck] }
    else {}
  if explicit && (s.settings.explicitAckClove || !mint) then
    { refresh with
      ack := some d.explicitAck
      cloves := refresh.cloves ++ [ackClove clock reply d.explicitIds d.explicitAck] }
  else refresh

def requestAcks (s : Sender) (clock : UInt64) (d : Draw) (reply : Option ReplyTunnel)
    (mint explicit : Bool) : Except SendFault AckRequest :=
  if mint || explicit then
    match reply with
    | some reply => .ok (s.ackRequest clock d reply mint explicit)
    | none => .error .noReplyTunnel
  else .ok {}

def spendTag (s : Sender) (now : Nat) (d : Draw) :
    Except SendFault (SessionKey × SessionTag) × Sender :=
  let (picked, usable) := s.usable.pick now d.picks
  let s := { s with usable }
  match picked, s.key with
  | some (tag, ()), some key => (.ok (key, tag), s)
  | _, _ => (.error .noUsableTag, s)

/-- The key of the handshake under way, or of one that begins now: then older tags are void. -/
def handshakeKey (s : Sender) (d : Draw) : SessionKey × Sender :=
  match s.barrier, s.key with
  | some _, some key => (key, s)
  | _, _ => (d.sessionKey, { s with key := some d.sessionKey, usable := s.usable.clear })

/-- Keeps minted tags until they are acknowledged; the first ones of a handshake raise the barrier. -/
def keepPending (s : Sender) (now : Nat) (path : Path) (key : SessionKey) (tags : List SessionTag)
    (refresh : Option UInt32) : Sender :=
  match refresh with
  | none => s
  | some ackId =>
    { s with
      pending := s.pending.insert ackId ⟨tags, key, now, path = .handshake⟩
      barrier := if path = .handshake && s.barrier.isNone then some ⟨ackId, now⟩ else s.barrier }

def tagWire (key : SessionKey) (tag : SessionTag) (block : TagBlock) (d : Draw) :
    Except Fault Bytes := do
  return tag.octets.toList ++ (← block.encrypt key tag.octets d.filler)

def handshakeWire (remoteKey : ElGamal.PublicKey) (key : SessionKey) (block : TagBlock) (d : Draw) :
    Except Fault Bytes := do
  let data : Octets 222 := key.octets ++ d.preIv ++ d.noise
  let opening := ElGamal.encrypt remoteKey (ElGamal.exponentOf d.exponent) data
  return opening.toList ++ (← block.encrypt key d.preIv d.filler)

/-- What is settled once the cleartext of a message stands: the session afterwards, and the octets
or why there are none. -/
def commit (s : Sender) (now : Nat) (d : Draw) (path : Path) (tags : List SessionTag)
    (refresh : Option UInt32) (payload : Bytes) : Except SendFault Bytes × Sender :=
  let block : TagBlock := { tags, payload }
  match path with
  | .tag =>
    match s.spendTag now d with
    | (.error e, s) => (.error e, s)
    | (.ok (key, tag), s) =>
      ((tagWire key tag block d).mapError .codec, s.keepPending now path key tags refresh)
  | .handshake =>
    let (key, s) := s.handshakeKey d
    ((handshakeWire s.remoteKey key block d).mapError .codec,
      s.keepPending now path key tags refresh)

/-- Encrypts cloves for the peer. A missing reply tunnel or a clove that cannot be written leaves the
session as it was, except for what has grown too old. -/
def encrypt (s : Sender) (moment : Moment) (d : Draw) (reply : Option ReplyTunnel) (explicit : Bool)
    (trackingId : UInt32) (cloves : List Clove) : Except SendFault Sealed × Sender :=
  let now := moment.instant
  let s := s.expire now
  let path := s.path now
  let mint := s.mintsTags now
  match s.requestAcks moment.clock d reply mint explicit with
  | .error e => (.error e, s)
  | .ok acks =>
    let garlic : Garlic :=
      ⟨cloves ++ acks.cloves, d.garlicId, defaultExpiration moment.clock⟩
    match garlic.encode with
    | .error e => (.error (.codec e), s)
    | .ok payload =>
      let tags := if mint then d.batch s.settings.refillBatch else []
      match s.commit now d path tags acks.refresh payload with
      | (.error e, s) => (.error e, s)
      | (.ok wire, s) =>
        (.ok {
          destination := s.remote
          cloves, wire, path, trackingId
          tagsRemaining := s.usableTags now
          ackId := acks.ack
          refreshAckId := acks.refresh
          handshakeAckId := s.barrier.map Barrier.ackId }, s)

/-- Makes the batch of an acknowledgment usable, unless the session key has changed since. -/
def acknowledge (s : Sender) (ackId : UInt32) : Option TagAck × Sender :=
  match s.pending.find? ackId with
  | none => (none, s)
  | some batch =>
    let s := { s with pending := s.pending.erase ackId }
    if s.key ≠ some batch.key then (some ⟨0, false⟩, s)
    else
      let usable := batch.tags.foldl (fun p t => p.insert t () batch.created) s.usable
      let confirmed := s.barrier.any fun b => batch.handshake || b.ackId = ackId
      (some ⟨batch.tags.length, confirmed⟩,
        { s with usable, barrier := if confirmed then none else s.barrier })

def reset (s : Sender) : Sender :=
  { s with key := none, usable := s.usable.clear, pending := .empty, barrier := none }

/-- Starts over if the handshake under way is older than `timeout`. -/
def resetIfStuck (s : Sender) (now timeout : Nat) : Bool × Sender :=
  if s.barrier.any fun b => timeout < now - b.started then (true, s.reset) else (false, s)

end Sender

end GarlicRouting
