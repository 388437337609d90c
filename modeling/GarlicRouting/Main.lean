import GarlicRouting.Router.CommandLine
import GarlicRouting.Router.Demo
import GarlicRouting.Router.KeyFile

/-! The program: it puts local identities into one network and lets them exchange demo traffic. -/
namespace GarlicRouting.Main

def existing? (path : String) : IO (Option Bytes) := do
  match ← (IO.FS.readBinFile path).toBaseIO with
  | .ok file => return some file.toList
  | .error (.noFileOrDirectory ..) => return none
  | .error fault => throw fault

def readFile? (path : String) : IO (Option Bytes) := do
  let .ok file ← (IO.FS.readBinFile path).toBaseIO | return none
  return some file.toList

/-- The keys in a file, which is written if it is not there. -/
def keysAt (path : String) : IO Keys := do
  let random ← IO.getRandomBytes 256
  let fresh : ElGamal.KeyPair := .ofRandom (ofBigEndian random.toList)
  match Keys.loadOrGenerate (← existing? path) fresh with
  | .ok (keys, none) => return keys
  | .ok (keys, some file) =>
    IO.FS.writeBinFile path ⟨file.toArray⟩
    return keys
  | .error .notFound => throw (.userError s!"no keys in {path}")
  | .error .corrupt => throw (.userError s!"the identity in {path} belongs to another key")
  | .error (.format fault) => throw (.userError s!"{path}: {fault.message}")

/-- Both clocks. Nobody outside reads the times, so one clock serves for both. -/
def readClocks : IO Moment := do
  let now ← IO.monoNanosNow
  return ⟨now, .ofNat (now / 1000000)⟩

/-- Rounds of demo traffic without end. -/
partial def demo (l : Launch) (number : Nat) (supply : Supply) (net : Network) : IO Unit := do
  let (lines, supply, net) := net.demoRound (← readClocks) supply l.explicitAck number
  lines.forM IO.println
  IO.sleep (.ofNat (1000 * l.demoInterval))
  demo l (number + 1) supply net

def start (l : Launch) (settings : Settings) : IO Unit := do
  IO.FS.createDirAll l.dataDir
  let mut net : Network := {}
  for index in List.range l.identities do
    let keys ← keysAt (l.keyPath index)
    net := net.attach (.new keys.pair settings ⟨.ofNat index⟩ true)
    IO.println s!"Identity {keys.identity.short} online"
  if l.demo then
    let seed ← IO.getRandomBytes 32
    demo l 1 (.ofSeed seed.toList) net

def run (words : List String) : IO UInt32 := do
  match Launch.parse (← IO.getEnv "GARLICD_DATA_DIR") words with
  | .error .displayHelp =>
    IO.println UsageFault.displayHelp.message
    return 0
  | .error fault =>
    IO.eprintln fault.message
    return 2
  | .ok l =>
    match l.validate with
    | .error fault =>
      IO.eprintln fault.message
      return 1
    | .ok () =>
      let file ← (l.sessionConfig.mapM readFile? : IO _)
      match l.settings fun _ => file.join with
      | .error .reading => IO.eprintln "The session settings cannot be read"; return 1
      | .error .parsing => IO.eprintln "The session settings are malformed"; return 1
      | .error (.invalid fault) => IO.eprintln fault.message; return 1
      | .ok settings =>
        start l settings
        return 0

end GarlicRouting.Main

def main (words : List String) : IO UInt32 := GarlicRouting.Main.run words
