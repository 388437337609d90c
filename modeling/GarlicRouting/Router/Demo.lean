import GarlicRouting.Router.Network

/-! Demo traffic: one node sends texts to others, and all that arrives is told. -/
namespace GarlicRouting.Network

def sendLine (recipient : Identity) : Except SendFault Sealed → String
  | .ok m =>
    let path := match m.path with
      | .handshake => "a handshake"
      | .tag => "a tag"
    s!"Sent to {recipient.short} by {path} ({m.tagsRemaining} tags left)"
  | .error e => s!"Send to {recipient.short} failed: {e.message}"

def arrivalLine (node : Identity) (m : AppMessage) : String :=
  let text := (String.fromUTF8? ⟨m.payload.toArray⟩).getD (hex m.payload)
  s!"{node.short} received message {m.id}: {text}"

/-- The network with no news left, and a line for every piece of data that had arrived. -/
def tellNews (net : Network) : List String × Network :=
  let told := net.nodes.toList.map fun (id, n) =>
    let (app, _, n) := n.takeNews
    (app.map (arrivalLine id), (id, n))
  (told.flatMap Prod.fst, { net with nodes := ⟨told.map Prod.snd⟩ })

def demoSend (moment : Moment) (explicit : Bool) (text : String) (n : Node)
    (s : List String × Supply × Network) (recipient : Identity) : List String × Supply × Network :=
  let (lines, supply, net) := s
  let (draw, supply) := supply.next
  let (result, net) :=
    net.sendData ((net.nodes.find? n.own).getD n) moment draw recipient explicit text.toUTF8.toList
  (lines ++ [sendLine recipient result], supply, net)

/-- A round of traffic from the first node to all others, and a round of its maintenance. -/
def demoRound (net : Network) (moment : Moment) (supply : Supply) (explicit : Bool)
    (number : Nat) : List String × Supply × Network :=
  match net.nodes.toList with
  | [] => ([], supply, net)
  | (id, n) :: others =>
    let text := s!"demo message {number} from {id.short}"
    let (sent, supply, net) :=
      (others.map Prod.fst).foldl (demoSend moment explicit text n) ([], supply, net)
    let net := net.settle moment.instant
    let (_, supply, net) := net.maintain ((net.nodes.find? id).getD n) moment supply
    let (arrived, net) := (net.settle moment.instant).tellNews
    (sent ++ arrived, supply, net)

end GarlicRouting.Network
