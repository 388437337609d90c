import GarlicRouting.Cipher.ElGamal
import GarlicRouting.Garlic
import GarlicRouting.Session.Pool
import GarlicRouting.Session.Settings
import GarlicRouting.TagBlock

/-! The receiving half of all sessions: the private key and the tags that peers have sent. -/
namespace GarlicRouting

structure ReceiverStats where
  /-- Messages that began with a known tag. -/
  tagHits : Nat := 0
  /-- Handshakes that decrypted. -/
  handshakes : Nat := 0
  dropped : Nat := 0
  tagsReceived : Nat := 0
deriving DecidableEq

structure Receiver where
  privateKey : ElGamal.PrivateKey
  /-- The key of every tag. -/
  tags : Pool SessionTag SessionKey
  stats : ReceiverStats := {}

namespace Receiver

def new (privateKey : ElGamal.PrivateKey) (settings : Settings) : Receiver :=
  { privateKey, tags := { lifetime := settings.receivedTagSpan.nanoseconds } }

/-- Removes the tag at the front of a message and returns it with its key. -/
def takeTag (r : Receiver) (now : Nat) (raw : Bytes) : Option (SessionTag × SessionKey) × Receiver :=
  match Octets.ofList? 32 (raw.take 32) with
  | none => (none, r)
  | some octets =>
    let (key, tags) := r.tags.remove ⟨octets⟩ now
    (key.map (⟨octets⟩, ·), { r with tags })

def decryptHandshake (r : Receiver) (raw : Bytes) : Option (TagBlock × SessionKey) × Receiver :=
  match ElGamal.decrypt r.privateKey raw with
  | .error _ => (none, r)
  | .ok data =>
    let key : SessionKey := ⟨data.slice 0 32⟩
    let block := TagBlock.decrypt key (data.slice 32 32) (raw.drop 514)
    (block.toOption.map (·, key),
      { r with stats := { r.stats with handshakes := r.stats.handshakes + 1 } })

/-- The block inside a message and the key it was encrypted with, by a known tag or else by a
handshake. -/
def decryptBlock (r : Receiver) (now : Nat) (raw : Bytes) : Option (TagBlock × SessionKey) × Receiver :=
  let r := { r with tags := (r.tags.purge now).2 }
  match r.takeTag now raw with
  | (some (tag, key), r) =>
    let block := TagBlock.decrypt key tag.octets (raw.drop 32)
    (block.toOption.map (·, key),
      { r with stats := { r.stats with tagHits := r.stats.tagHits + 1 } })
  | (none, r) => r.decryptHandshake raw

/-- Keeps the tags of a block under its new key, or else under its own. -/
def harvest (r : Receiver) (now : Nat) (block : TagBlock) (key : SessionKey) : Receiver :=
  { r with
    tags := block.tags.foldl (fun p t => p.insert t (block.newKey.getD key) now) r.tags
    stats := { r.stats with tagsReceived := r.stats.tagsReceived + block.tags.length } }

/-- The garlic in a message. What cannot be decrypted or read is dropped. -/
def decrypt (r : Receiver) (now : Nat) (raw : Bytes) : Option Garlic × Receiver :=
  let (garlic, r) := match r.decryptBlock now raw with
    | (none, r) => (none, r)
    | (some (block, key), r) => ((Garlic.decode.front block.payload).toOption, r.harvest now block key)
  if garlic.isSome then (garlic, r)
  else (none, { r with stats := { r.stats with dropped := r.stats.dropped + 1 } })

def knownTags (r : Receiver) (now : Nat) : Nat := r.tags.count now

def clear (r : Receiver) : Receiver := { r with tags := r.tags.clear }

end Receiver

end GarlicRouting
