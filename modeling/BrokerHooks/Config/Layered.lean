import BrokerHooks.Config.Placeholder
import BrokerHooks.Config.Scalar
import BrokerHooks.Config.Strict

namespace BrokerHooks.Config

inductive FileContent where
  | absent
  | directory
  | bytes (bs : List UInt8)
deriving DecidableEq, Repr

abbrev Variables := List (String × String)

def environment (vars : Variables) : Placeholder.Environment := fun name => vars.lookup name

/-- The lower-case form of a character in the name of a variable; the sign for the kelvin is a K. -/
def lowerChar (c : Char) : Char := if c = '\u212a' then 'k' else c.toLower

def envMark : List Char := "mqtt_intercept__".toList

/-- Doubled underscores separate the keys of a path. -/
def dotted : List Char → List Char
  | '_' :: '_' :: rest => '.' :: dotted rest
  | c :: rest => c :: dotted rest
  | [] => []

/-- The path that a variable stands for, if it is meant for the broker. -/
def envPath? (name : String) : Option (List Setting.Step) :=
  (envMark.isPrefixOf? (name.toList.map lowerChar)).map fun rest =>
    Setting.path (String.ofList (dotted rest))

def overlayVariable (s : Setting) (v : String × String) : Setting :=
  match envPath? v.1 with
  | some path => (Setting.ofText v.2).setAt path s
  | none => s

/-- The settings of a file; its outermost keys are paths. -/
def fileSettings (table : List (String × Toml.Value)) : Setting :=
  table.foldl (fun s e => (Setting.ofToml e.2).setAt (Setting.path e.1) s) (.table [])

def lenient : Decoder Setting where
  fields?
    | .table entries => some fun _ name => entries.lookup name
    | .list items => some fun i _ => items[i]?
    | _ => none
  int? := Setting.int?
  nat? := Setting.nat?
  flag? := Setting.flag?
  duration? := Setting.duration?

def decodeText? (bs : List UInt8) : Option String := String.fromUTF8? ⟨bs.toArray⟩

def readFile (vars : Variables) : FileContent → Except ConfigError Setting
  | .absent => .ok (.table [])
  | .directory => .error .io
  | .bytes bs =>
    match decodeText? bs with
    | none => .error .io
    | some content =>
      let filled := Placeholder.substitute (environment vars) content.toList
      match Toml.parse? .second (String.ofList filled) with
      | none => .error .config
      | some table => .ok (fileSettings table)

def load (file : FileContent) (vars : Variables) : Except ConfigError Config := do
  let settings ← readFile vars file
  match lenient.config? (vars.foldl overlayVariable settings).entries with
  | none => .error .config
  | some c => c.validated

end BrokerHooks.Config
