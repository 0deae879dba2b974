import Mathlib.Logic.Function.Basic
import Sewg.App.Config

/-! `TunnelManager`, over `FileConfigStore` and the part of `GoBackend` that keeps track of
the running tunnel. A `Tunnel` is a number, the list of the tunnels is not in order, and the
last used tunnel and the saved preferences are left out. An operation goes on with what its
worker and its completions do until nothing is left to do. -/

namespace Sewg.App
open CString (Bytes)

/-- What an operation can throw. `system` comes from below. -/
inductive Thrown
  | invalidName
  | tunnelExists (name : JString)
  | fileExists (name : JString)
  | cannotDelete (name : JString)
  | replacementExists (name : JString)
  | cannotRename (name : JString)
  | fileNotFound (name : JString)
  | sameKey
  | noConfig
  | onlyOne
  | notAuthorized
  | noTun
  | notTurnedOn
  | nullConfig
  | system (message : String)
  deriving DecidableEq

/-! ## The store -/

/-- The text of each file `name.conf`. -/
abbrev Files := JString → Option Bytes

/-- How a configuration is written to its file and read from it. -/
structure Format where
  toBytes : Config → Bytes
  ofBytes : Bytes → Except Thrown Config

/-- What the file system answers in one operation. A write that fails leaves something. -/
structure FileEnv where
  createNewFile : Option Thrown
  write : Option (Thrown × Bytes)
  read : Option Thrown
  renameTo : Bool
  delete : Bool

namespace FileConfigStore
variable (f : Format) (env : FileEnv)

/-- Writing to a file that is there. -/
def write (files : Files) (name : JString) (config : Config) : Except Thrown Config × Files :=
  match env.write with
  | some (thrown, left) => (.error thrown, Function.update files name (some left))
  | none => (.ok config, Function.update files name (some (f.toBytes config)))

def create (files : Files) (name : JString) (config : Option Config) :
    Except Thrown Config × Files :=
  match env.createNewFile with
  | some thrown => (.error thrown, files)
  | none =>
    if (files name).isSome then (.error (.fileExists name), files)
    else
      let files := Function.update files name (some [])
      match config with
      | none => (.error .nullConfig, files)
      | some config => write f env files name config

def delete (files : Files) (name : JString) : Option Thrown × Files :=
  if (files name).isSome ∧ env.delete then (none, Function.update files name none)
  else (some (.cannotDelete name), files)

/-- The file for the new name is made first, to see that there is none. -/
def rename (files : Files) (name replacement : JString) : Option Thrown × Files :=
  match env.createNewFile with
  | some thrown => (some thrown, files)
  | none =>
    if (files replacement).isSome then (some (.replacementExists replacement), files)
    else
      let files := Function.update files replacement (some [])
      if (files name).isSome ∧ env.renameTo then
        (none, Function.update (Function.update files name none) replacement (files name))
      else
        (some (.cannotRename name),
          if env.delete then Function.update files replacement none else files)

def save (files : Files) (name : JString) (config : Config) : Except Thrown Config × Files :=
  if (files name).isSome then write f env files name config
  else (.error (.fileNotFound name), files)

def load (files : Files) (name : JString) : Except Thrown Config :=
  match files name, env.read with
  | none, _ => .error (.fileNotFound name)
  | some _, some thrown => .error thrown
  | some text, none => f.ofBytes text

end FileConfigStore

/-! ## The backend -/

inductive State
  | down
  | toggle
  | up
  deriving DecidableEq

/-- No handle is `-1`: `wgTurnOn` returns that or a number from `0` on. -/
structure GoBackend where
  currentTunnel : Option Nat
  currentTunnelHandle : Option Nat

/-- What one try to bring a tunnel up meets. `build` has what is thrown until the interface is
established. -/
structure UpEnv where
  authorized : Bool
  service : Option Thrown
  build : Config → Option Thrown
  established : Bool
  wgTurnOn : Option Nat

namespace GoBackend

def getState (b : GoBackend) (tunnel : Nat) : State :=
  if b.currentTunnel = some tunnel then .up else .down

/-- `setStateInternal` with `UP`. -/
def bringUp (env : UpEnv) (b : GoBackend) (tunnel : Nat) (config : Option Config) :
    Option Thrown × GoBackend :=
  match config with
  | none => (some .noConfig, b)
  | some config =>
    if ¬env.authorized then (some .notAuthorized, b)
    else match env.service with
    | some thrown => (some thrown, b)
    | none =>
      if b.currentTunnelHandle.isSome then (none, b)
      else match env.build config with
      | some thrown => (some thrown, b)
      | none =>
        if ¬env.established then (some .noTun, b)
        else match env.wgTurnOn with
        | none => (some .notTurnedOn, { b with currentTunnelHandle := none })
        | some handle => (none, ⟨some tunnel, some handle⟩)

/-- `setStateInternal` with another state. -/
def bringDown (b : GoBackend) : GoBackend :=
  if b.currentTunnelHandle.isSome then ⟨none, none⟩ else b

def setStateInternal (env : UpEnv) (b : GoBackend) (tunnel : Nat) (config : Option Config)
    (state : State) : Option Thrown × GoBackend :=
  if state = .up then b.bringUp env tunnel config else (none, b.bringDown)

def setState (env : UpEnv) (b : GoBackend) (tunnel : Nat) (config : Option Config)
    (state : State) : Except Thrown State × GoBackend :=
  let originalState := b.getState tunnel
  let state :=
    if state = .toggle then (if originalState = .up then .down else .up) else state
  if state = originalState then (.ok originalState, b)
  else if state = .up ∧ b.currentTunnel.isSome then (.error .onlyOne, b)
  else match b.setStateInternal env tunnel config state with
  | (some thrown, b) => (.error thrown, b)
  | (none, b) => (.ok (b.getState tunnel), b)

end GoBackend

/-! ## The manager -/

structure Tunnel where
  name : JString
  config : Option Config
  state : State

/-- `[a-zA-Z0-9_=+.-]` -/
def isNameChar (c : UInt16) : Bool :=
  97 ≤ c && c ≤ 122 || 65 ≤ c && c ≤ 90 || 48 ≤ c && c ≤ 57 || (lit "_=+.-").contains c

/-- The whole name is up to 15 of them. -/
def isNameInvalid (name : JString) : Bool :=
  !(1 ≤ name.length && name.length ≤ 15 && name.all isNameChar)

/-- `tunnel` has every tunnel that was made, `tunnels` those of the list. -/
structure TunnelManager where
  tunnel : Nat → Tunnel
  made : Nat
  tunnels : List Nat
  files : Files
  backend : GoBackend

/-- What one operation meets. A tunnel may have to be brought up `again`. -/
structure Env where
  file : FileEnv
  up : UpEnv
  again : UpEnv

namespace TunnelManager

def update (m : TunnelManager) (t : Nat) (g : Tunnel → Tunnel) : TunnelManager :=
  { m with tunnel := Function.update m.tunnel t (g (m.tunnel t)) }

def onConfigChanged (m : TunnelManager) (t : Nat) (config : Config) : TunnelManager :=
  m.update t ({ · with config := some config })

def onStateChanged (m : TunnelManager) (t : Nat) (state : State) : TunnelManager :=
  m.update t ({ · with state })

def onNameChanged (m : TunnelManager) (t : Nat) (name : JString) : TunnelManager :=
  m.update t ({ · with name })

def containsKey (m : TunnelManager) (name : JString) : Bool :=
  m.tunnels.any fun t => (m.tunnel t).name = name

/-- `tunnels.add`. Another tunnel with the name of this one is an exception. -/
def add (m : TunnelManager) (t : Nat) : Option Thrown × TunnelManager :=
  match m.tunnels.find? fun u => (m.tunnel u).name = (m.tunnel t).name with
  | some u => (if u = t then none else some .sameKey, m)
  | none => (none, { m with tunnels := t :: m.tunnels })

def remove (m : TunnelManager) (t : Nat) : TunnelManager := { m with tunnels := m.tunnels.erase t }

def addToList (m : TunnelManager) (name : JString) (config : Option Config) (state : State) :
    Option Thrown × TunnelManager :=
  { m with
    tunnel := Function.update m.tunnel m.made ⟨name, config, state⟩
    made := m.made + 1 }.add m.made

/-- `setState` of the backend, with the configuration that the tunnel has. -/
def setBackend (env : UpEnv) (m : TunnelManager) (t : Nat) (state : State) :
    Except Thrown State × TunnelManager :=
  let (result, backend) := m.backend.setState env t (m.tunnel t).config state
  (result, { m with backend })

/-- The same in the middle of another operation, for a tunnel that was up at first. -/
def setIfUp (env : UpEnv) (m : TunnelManager) (t : Nat) (originalState state : State) :
    Option Thrown × TunnelManager :=
  if originalState = .up then
    match m.setBackend env t state with
    | (.error thrown, m) => (some thrown, m)
    | (.ok _, m) => (none, m)
  else (none, m)

section
variable (f : Format) (env : Env)

def create (m : TunnelManager) (name : JString) (config : Option Config) :
    Option Thrown × TunnelManager :=
  if isNameInvalid name then (some .invalidName, m)
  else if m.containsKey name then (some (.tunnelExists name), m)
  else match FileConfigStore.create f env.file m.files name config with
  | (.error thrown, files) => (some thrown, { m with files })
  | (.ok savedConfig, files) => { m with files }.addToList name (some savedConfig) .down

/-- What the worker does, after the tunnel has left the list. -/
def deleteWork (m : TunnelManager) (t : Nat) (originalState : State) :
    Option Thrown × TunnelManager :=
  match m.setIfUp env.up t originalState .down with
  | (some thrown, m) => (some thrown, m)
  | (none, m) =>
    match FileConfigStore.delete env.file m.files (m.tunnel t).name with
    | (none, files) => (none, { m with files })
    | (some thrown, files) =>
      match { m with files }.setIfUp env.again t originalState .up with
      | (some thrown, m) => (some thrown, m)
      | (none, m) => (some thrown, m)

/-- An exception of the completion is dropped when there already is one. -/
def delete (m : TunnelManager) (t : Nat) : Option Thrown × TunnelManager :=
  let originalState := (m.tunnel t).state
  match (m.remove t).deleteWork env t originalState with
  | (none, m) => (none, m)
  | (some thrown, m) => (some thrown, (m.add t).2)

def getTunnelConfig (m : TunnelManager) (t : Nat) : Except Thrown Config × TunnelManager :=
  match FileConfigStore.load f env.file m.files (m.tunnel t).name with
  | .error thrown => (.error thrown, m)
  | .ok config => (.ok config, m.onConfigChanged t config)

def getTunnelState (m : TunnelManager) (t : Nat) : TunnelManager :=
  m.onStateChanged t (m.backend.getState t)

def applyConfig (m : TunnelManager) (t : Nat) (config : Config) :
    Except Thrown Config × TunnelManager :=
  if (m.tunnel t).state = .up then
    let m := { m with backend := m.backend.bringDown }
    match m.backend.bringUp env.up t (some config) with
    | (none, backend) => (.ok config, { m with backend })
    | (some thrown, backend) =>
      -- the old configuration
      match backend.bringUp env.again t (m.tunnel t).config with
      | (some thrown, backend) => (.error thrown, { m with backend })
      | (none, backend) => (.error thrown, { m with backend })
  else (.ok config, m)

def setTunnelConfig (m : TunnelManager) (t : Nat) (config : Config) :
    Option Thrown × TunnelManager :=
  match m.applyConfig env t config with
  | (.error thrown, m) => (some thrown, m)
  | (.ok appliedConfig, m) =>
    match FileConfigStore.save f env.file m.files (m.tunnel t).name appliedConfig with
    | (.error thrown, files) => (some thrown, { m with files })
    | (.ok config, files) => (none, { m with files }.onConfigChanged t config)

def renameWork (m : TunnelManager) (t : Nat) (name : JString) (originalState : State) :
    Option Thrown × TunnelManager :=
  match m.setIfUp env.up t originalState .down with
  | (some thrown, m) => (some thrown, m)
  | (none, m) =>
    match FileConfigStore.rename env.file m.files (m.tunnel t).name name with
    | (some thrown, files) => (some thrown, { m with files })
    | (none, files) =>
      ({ m with files }.onNameChanged t name).setIfUp env.again t originalState .up

def setTunnelName (m : TunnelManager) (t : Nat) (name : JString) : Option Thrown × TunnelManager :=
  if isNameInvalid name then (some .invalidName, m)
  else if m.containsKey name then (some (.tunnelExists name), m)
  else
    let originalState := (m.tunnel t).state
    match (m.remove t).renameWork env t name originalState with
    | (none, m) => m.add t
    | (some thrown, m) => (some thrown, ((m.getTunnelState t).add t).2)

/-- `getConfigAsync` -/
def getConfig (m : TunnelManager) (t : Nat) : Option Thrown × TunnelManager :=
  if (m.tunnel t).config.isSome then (none, m)
  else match m.getTunnelConfig f env t with
  | (.error thrown, m) => (some thrown, m)
  | (.ok _, m) => (none, m)

/-- After an exception the state is set to what it is. -/
def setTunnelState (m : TunnelManager) (t : Nat) (state : State) : Option Thrown × TunnelManager :=
  match m.getConfig f env t with
  | (some thrown, m) => (some thrown, m)
  | (none, m) =>
    match m.setBackend env.up t state with
    | (.error thrown, m) => (some thrown, m.onStateChanged t (m.tunnel t).state)
    | (.ok newState, m) => (none, m.onStateChanged t newState)

end

/-- The tunnels of the store, when the manager starts. -/
def onTunnelsLoaded (m : TunnelManager) (present running : List JString) : TunnelManager :=
  present.foldl (fun m name =>
    (m.addToList name none (if name ∈ running then .up else .down)).2) m

end TunnelManager

/-- A new process: nothing runs. -/
def started (files : Files) (present : List JString) : TunnelManager :=
  TunnelManager.onTunnelsLoaded ⟨fun _ => ⟨[], none, .down⟩, 0, [], files, ⟨none, none⟩⟩ present []

/-- `getTunnelConfig` is also what `Tunnel.getConfig` starts when there is none yet. -/
inductive Operation
  | create (name : JString) (config : Option Config)
  | delete (tunnel : Nat)
  | setTunnelName (tunnel : Nat) (name : JString)
  | setTunnelConfig (tunnel : Nat) (config : Config)
  | setTunnelState (tunnel : Nat) (state : State)
  | getTunnelConfig (tunnel : Nat)

namespace TunnelManager

/-- An operation, and what it reports. -/
def perform (f : Format) (m : TunnelManager) (op : Operation × Env) :
    Option Thrown × TunnelManager :=
  match op.1 with
  | .create name config => m.create f op.2 name config
  | .delete t => m.delete op.2 t
  | .setTunnelName t name => m.setTunnelName op.2 t name
  | .setTunnelConfig t config => m.setTunnelConfig f op.2 t config
  | .setTunnelState t state => m.setTunnelState f op.2 t state
  | .getTunnelConfig t =>
    match m.getTunnelConfig f op.2 t with
    | (.error thrown, m) => (some thrown, m)
    | (.ok _, m) => (none, m)

/-- Operations one after the other. -/
def step (f : Format) (m : TunnelManager) (op : Operation × Env) : Option TunnelManager :=
  some (m.perform f op).2

end TunnelManager

def emptyConfig : Config := ⟨{}, []⟩

/-- Every file has one byte. -/
def oneByte : Format := ⟨fun _ => [1], fun _ => .ok emptyConfig⟩

/-- Everything works. -/
def smooth : Env where
  file := ⟨none, none, none, true, true⟩
  up := ⟨true, none, fun _ => none, true, some 0⟩
  again := ⟨true, none, fun _ => none, true, some 0⟩

end Sewg.App
