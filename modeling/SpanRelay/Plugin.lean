import SpanRelay.Recorder.Basic

/-!
Plugins add callbacks when they are installed and are started once the worker runs. What a plugin
registers counts only if its installation succeeds as a whole.
-/
namespace SpanRelay

/-- What a plugin does when it is installed: the callbacks that it registers, and whether it fails
once it has. -/
structure Installation where
  starts : List Registration
  ends : List Registration
  fails : Bool
  deriving DecidableEq, Repr

structure Plugin where
  /-- Two entries of a table are the same plugin if this number is the same. -/
  identity : Nat
  /-- The name under which its calls are observed, if they are. -/
  label : Option String
  starts : List Registration
  ends : List Registration
  installFails : Bool
  startFails : Bool
  deriving DecidableEq, Repr

def Plugin.installation (p : Plugin) : Installation := ⟨p.starts, p.ends, p.installFails⟩

structure PluginHost where
  table : List Plugin
  installed : List Plugin
  deriving DecidableEq, Repr

namespace PluginHost

def ofTable (table : List Plugin) : PluginHost := ⟨table, []⟩

def has (h : PluginHost) (p : Plugin) : Bool := h.installed.any fun q => q.identity = p.identity

def observe (r : Recorder) (p : Plugin) (event : String → Event) : Recorder :=
  match p.label with
  | some label => r.emit (event label)
  | none => r

/-! ## Installation -/

/-- The turn of a plugin to be installed: the service that it is told, and what it does then. -/
structure Turn where
  plugin : Plugin
  service : String
  does : Installation
  deriving DecidableEq, Repr

/-- What came of a turn. -/
inductive Answer where
  /-- The plugin was not called, as it is installed already. -/
  | passedOver
  | failed
  /-- So many of its callbacks were new. -/
  | installed (starts ends : Nat)
  deriving DecidableEq, Repr

/-- Installs one plugin, unless it is installed already. -/
def installOne (h : PluginHost) (r : Recorder) (t : Turn) : Answer × PluginHost × Recorder :=
  if h.has t.plugin then (.passedOver, h, r)
  else
    let r := observe r t.plugin fun label => .pluginInstalled label t.service
    if t.does.fails then (.failed, h, r)
    else
      let starts := r.onStart.addAll t.does.starts
      let ends := r.onEnd.addAll t.does.ends
      (.installed starts.1 ends.1, { h with installed := h.installed ++ [t.plugin] },
        { r with onStart := starts.2, onEnd := ends.2 })

def installEach (h : PluginHost) (r : Recorder) : List Turn → List Answer × PluginHost × Recorder
  | [] => ([], h, r)
  | t :: turns =>
    let one := installOne h r t
    let rest := installEach one.2.1 one.2.2 turns
    (one.1 :: rest.1, rest.2)

/-- Every plugin of the table has its turn. What it does may depend on its place. -/
def turns (h : PluginHost) (service : String) (does : Nat → Plugin → Installation) : List Turn :=
  h.table.mapIdx fun i p => ⟨p, service, does i p⟩

def installBy (h : PluginHost) (service : String) (does : Nat → Plugin → Installation)
    (r : Recorder) : List Answer × PluginHost × Recorder :=
  h.installEach r (h.turns service does)

def install (h : PluginHost) (service : String) (r : Recorder) : PluginHost × Recorder :=
  (h.installBy service (fun _ p => p.installation) r).2

/-- A call of install: the service of its configuration, and what the plugin at each place of the
table does if it is called. -/
structure InstallCall where
  service : String
  does : Nat → Plugin → Installation

def installAll (h : PluginHost) (r : Recorder) :
    List InstallCall → List Answer × PluginHost × Recorder
  | [] => ([], h, r)
  | c :: calls =>
    let one := h.installBy c.service c.does r
    let rest := installAll one.2.1 one.2.2 calls
    (one.1 ++ rest.1, rest.2)

/-! ## Start -/

/-- Starts plugins in order, whether or not those before failed, and answers which failed. -/
def startEach (start : Plugin → σ → Bool × σ) : List Plugin → σ → List (Plugin × Bool) × σ
  | [], s => ([], s)
  | p :: plugins, s =>
    let one := start p s
    let rest := startEach start plugins one.2
    ((p, one.1) :: rest.1, rest.2)

/-- Starts one plugin and answers whether it failed. -/
def startOne (p : Plugin) (r : Recorder) : Bool × Recorder :=
  (p.startFails, observe r p .pluginStarted)

/-- Starts every installed plugin. -/
def startBy (h : PluginHost) (start : Plugin → σ → Bool × σ) (s : σ) : List (Plugin × Bool) × σ :=
  startEach start h.installed s

def startAll (h : PluginHost) (r : Recorder) : Recorder := (h.startBy startOne r).2

end PluginHost
end SpanRelay
