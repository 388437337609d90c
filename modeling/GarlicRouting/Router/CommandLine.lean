import GarlicRouting.Session.SettingsText

/-! The command line: options, their checks, and the files they name. -/
namespace GarlicRouting

inductive UsageFault where
  | unknownArgument | invalidValue | valueValidation | argumentConflict | tooManyValues
  /-- Help was asked for. -/
  | displayHelp
deriving DecidableEq

def UsageFault.message : UsageFault → String
  | unknownArgument => "unexpected argument"
  | invalidValue => "a value is required"
  | valueValidation => "invalid value"
  | argumentConflict => "an argument cannot be used multiple times"
  | tooManyValues => "unexpected value"
  | displayHelp =>
    "Usage: [--data-dir DIR] [--identities N] [--session-config FILE] [--resend-interval-secs N] " ++
      "[--demo] [--demo-interval-secs N] [--explicit-ack] [--log-format json|pretty]"

inductive ValueOption where
  | dataDir | identities | sessionConfig | resendInterval | demoInterval | logFormat
deriving DecidableEq

inductive Switch where
  | demo | explicitAck | help
deriving DecidableEq

def ValueOption.ofName? (name : String) : Option ValueOption :=
  [("data-dir", ValueOption.dataDir), ("identities", identities), ("session-config", sessionConfig),
    ("resend-interval-secs", resendInterval), ("demo-interval-secs", demoInterval),
    ("log-format", logFormat)].lookup name

def Switch.ofName? (name : String) : Option Switch :=
  [("demo", Switch.demo), ("explicit-ack", explicitAck), ("help", help)].lookup name

structure Arguments where
  dataDir : Option String := none
  identities : Option Nat := none
  sessionConfig : Option String := none
  resendInterval : Option Nat := none
  demoInterval : Option Nat := none
  logFormat : Option String := none
  demo : Bool := false
  explicitAck : Bool := false
deriving DecidableEq

namespace Arguments

/-- Digits after an optional plus sign, below `2 ^ 64`. -/
def number? (text : String) : Option Nat :=
  let digits := match text.toList with
    | '+' :: rest => rest
    | cs => cs
  if digits.isEmpty || !digits.all Char.isDigit then none
  else
    (some (digits.foldl (fun n c => 10 * n + (c.toNat - 48)) 0)).filter (· < 18446744073709551616)

/-- A path is not empty. -/
def path (text : String) : Except UsageFault String :=
  if text.isEmpty then .error .invalidValue else .ok text

def number (text : String) : Except UsageFault Nat :=
  (number? text).elim (.error .valueValidation) .ok

def has (a : Arguments) : ValueOption → Bool
  | .dataDir => a.dataDir.isSome
  | .identities => a.identities.isSome
  | .sessionConfig => a.sessionConfig.isSome
  | .resendInterval => a.resendInterval.isSome
  | .demoInterval => a.demoInterval.isSome
  | .logFormat => a.logFormat.isSome

/-- An option may be given once. -/
def set (a : Arguments) (o : ValueOption) (text : String) : Except UsageFault Arguments :=
  if a.has o then .error .argumentConflict
  else
    match o with
    | .dataDir => return { a with dataDir := some (← path text) }
    | .identities => return { a with identities := some (← number text) }
    | .sessionConfig => return { a with sessionConfig := some (← path text) }
    | .resendInterval => return { a with resendInterval := some (← number text) }
    | .demoInterval => return { a with demoInterval := some (← number text) }
    | .logFormat => return { a with logFormat := some text }

def turnOn (a : Arguments) : Switch → Except UsageFault Arguments
  | .demo => if a.demo then .error .argumentConflict else .ok { a with demo := true }
  | .explicitAck =>
    if a.explicitAck then .error .argumentConflict else .ok { a with explicitAck := true }
  | .help => .error .displayHelp

end Arguments

structure Reading where
  arguments : Arguments := {}
  /-- The last option, with the word after it; it is set when the next option comes. -/
  pending : Option (ValueOption × Option String) := none
  /-- After `--` no option comes. -/
  ended : Bool := false

namespace Reading

def resolve (r : Reading) : Except UsageFault Arguments :=
  match r.pending with
  | none => .ok r.arguments
  | some (_, none) => .error .invalidValue
  | some (o, some text) => r.arguments.set o text

/-- An option, with its value if that is attached. -/
def option (r : Reading) (o : ValueOption) (attached : Option String) : Except UsageFault Reading := do
  let a ← r.resolve
  match attached with
  | none => return { r with arguments := a, pending := some (o, none) }
  | some text => return { r with arguments := ← a.set o text, pending := none }

def switch (r : Reading) (s : Switch) : Except UsageFault Reading := do
  return { r with arguments := ← (← r.resolve).turnOn s, pending := none }

/-- A word that begins with two dashes, without them. -/
def long (r : Reading) (word : List Char) : Except UsageFault Reading :=
  let name := String.ofList (word.takeWhile (· ≠ '='))
  let attached := match word.dropWhile (· ≠ '=') with
    | [] => none
    | _ :: text => some (String.ofList text)
  match ValueOption.ofName? name, Switch.ofName? name with
  | some o, _ => r.option o attached
  | none, some s => if attached.isSome then .error .tooManyValues else r.switch s
  | none, none => .error .unknownArgument

/-- A word that begins with one dash, without it. -/
def short (r : Reading) : List Char → Except UsageFault Reading
  | ['d'] => r.option .dataDir none
  | 'd' :: '=' :: text => r.option .dataDir (some (String.ofList text))
  | 'd' :: text => r.option .dataDir (some (String.ofList text))
  | 'h' :: _ => r.switch .help
  | _ => .error .unknownArgument

/-- Reads one word. Words that belong to no option are refused. -/
def step (r : Reading) (word : String) : Except UsageFault Reading :=
  if r.ended then .error .unknownArgument
  else
    match word.toList, r.pending with
    | ['-', '-'], _ => .ok { r with ended := true }
    | '-' :: '-' :: rest, _ => r.long rest
    | '-' :: c :: rest, _ => r.short (c :: rest)
    | _, some (o, none) => .ok { r with pending := some (o, some word) }
    | _, _ => .error .unknownArgument

end Reading

inductive LaunchFault where
  | noIdentity
  | demoNeedsTwo
  | demoInterval
  | logFormat (name : String)
deriving DecidableEq

def LaunchFault.message : LaunchFault → String
  | noIdentity => "At least one identity is required"
  | demoNeedsTwo => "Demo traffic needs at least 2 identities"
  | demoInterval => "Demo interval must be greater than zero"
  | logFormat name => s!"Unknown log format: {name}"

inductive SettingsSourceFault where
  /-- The file is missing or is no text. -/
  | reading
  | parsing
  | invalid (fault : SettingsFault)
deriving DecidableEq

structure Launch where
  dataDir : String
  identities : Nat
  sessionConfig : Option String
  resendInterval : Option Nat
  demo : Bool
  demoInterval : Nat
  explicitAck : Bool
  logFormat : String
deriving DecidableEq

namespace Launch

/-- The command line wins over the environment, and both over the defaults. -/
def ofArguments (a : Arguments) (environment : Option String) : Except UsageFault Launch := do
  let dataDir ← match a.dataDir, environment with
    | some dir, _ => pure dir
    | none, some dir => Arguments.path dir
    | none, none => pure "./data/garlicd"
  return {
    dataDir
    identities := a.identities.getD 2
    sessionConfig := a.sessionConfig
    resendInterval := a.resendInterval
    demo := a.demo
    demoInterval := a.demoInterval.getD 5
    explicitAck := a.explicitAck
    logFormat := a.logFormat.getD "pretty" }

/-- Reads the words of a command line; `environment` is the data directory that is set there. -/
def parse (environment : Option String) (words : List String) : Except UsageFault Launch := do
  let r ← words.foldlM Reading.step {}
  ofArguments (← r.resolve) environment

/-- The first rule that is broken, if any. -/
def validate (l : Launch) : Except LaunchFault Unit := do
  if l.identities = 0 then throw .noIdentity
  if l.demo && l.identities < 2 then throw .demoNeedsTwo
  if l.demoInterval = 0 then throw .demoInterval
  unless l.logFormat = "json" || l.logFormat = "pretty" do throw (.logFormat l.logFormat)

def jsonLogs (l : Launch) : Bool := l.logFormat = "json"

/-- The settings in the file that is named, or the defaults, with the resend interval of the
command line. -/
def settings (l : Launch) (readFile? : String → Option Bytes) :
    Except SettingsSourceFault Settings := do
  let base ← match l.sessionConfig with
    | none => pure {}
    | some path =>
      match readFile? path with
      | none => throw .reading
      | some bs =>
        if (String.fromUTF8? ⟨bs.toArray⟩).isNone then throw .reading
        match Settings.ofText? bs with
        | none => throw .parsing
        | some s => pure s
  let s := { base with resendInterval := l.resendInterval.getD base.resendInterval }
  match s.validate with
  | .error fault => throw (.invalid fault)
  | .ok () => return s

def keyPath (l : Launch) (index : Nat) : String :=
  let separator := if l.dataDir.isEmpty || l.dataDir.toList.getLast? = some '/' then "" else "/"
  l.dataDir ++ separator ++ "identity-" ++ toString index ++ ".keys"

end Launch

end GarlicRouting
