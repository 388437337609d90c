import GarlicRouting.Router.Node

/-! How a node takes messages in: what becomes of their cloves, garlic inside garlic included. -/
namespace GarlicRouting

abbrev Forwarder (σ : Type) := σ → Clove → Except TunnelFault Unit × σ

/-- Garlic that lies deeper than this is dropped unseen. -/
def maxNesting : Nat := 4

/-- A node while it takes a message in: its forwarder, and how often it has looked at the clock. -/
structure Intake (σ : Type) where
  node : Node
  forwarder : σ
  readings : Nat := 0

namespace Intake

variable {σ : Type} (clock : Nat → Nat) (forward : Forwarder σ)

def decrypt (i : Intake σ) (raw : Bytes) : Option Garlic × Intake σ :=
  let (garlic, receiver) := i.node.receiver.decrypt (clock i.readings) raw
  (garlic, { i with node := { i.node with receiver }, readings := i.readings + 1 })

/-- Gives a clove to the forwarder. Without one it is only counted. -/
def forwardClove (i : Intake σ) (c : Clove) : Intake σ :=
  if i.node.forwards then
    let answer := forward i.forwarder c
    { i with node := i.node.countForward answer.1.isOk, forwarder := answer.2 }
  else { i with node := i.node.countForward false }

def dispatchClove (nested : Intake σ → Bytes → Intake σ) (i : Intake σ) (c : Clove) : Intake σ :=
  if c.instruction.target ≠ .here then i.forwardClove forward c
  else
    match c.message.payload with
    | .status id _ => { i with node := i.node.queueProviderStatus id }
    | .data bs => { i with node := i.node.deliverApp ⟨c.message.id, bs⟩ }
    | .garlic raw => nested i raw
    | .other .. => i

/-- Decrypts a message and routes its cloves; tells how many it had. Garlic is followed for the given
number of levels. -/
def dispatch : (levels : Nat) → Intake σ → Bytes → Nat × Intake σ
  | 0, i, _ => (0, i)
  | levels + 1, i, raw =>
    match i.decrypt clock raw with
    | (none, i) => (0, i)
    | (some garlic, i) =>
      (garlic.cloves.length,
        garlic.cloves.foldl (dispatchClove forward fun i raw => (dispatch levels i raw).2) i)

def receiveGarlic (i : Intake σ) (raw : Bytes) : Nat × Intake σ :=
  dispatch clock forward maxNesting i raw

def receiveMessage (i : Intake σ) (m : Message) : Intake σ :=
  match m.payload with
  | .status id _ => { i with node := i.node.queueStatus id }
  | .garlic raw => (i.receiveGarlic clock forward raw).2
  | .data bs => { i with node := i.node.deliverApp ⟨m.id, bs⟩ }
  | .other .. => i

end Intake

end GarlicRouting
