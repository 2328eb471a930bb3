import ChangeFeed.Connection.Settings
import ChangeFeed.Files.Basic

/-!
# Where connections lead

The places at which a connection is tried, in order. Every host is tried at the port of its own or
at the one port that is given; an address stands in for the host in its place.
-/

namespace ChangeFeed.Connection

/-- A place at which a connection is tried. -/
inductive Target where
  /-- A socket under a path. -/
  | socket (path : String)
  | network
  deriving DecidableEq, Repr

/-- The path of the socket for a port in a directory. -/
def socketPath (directory : String) (port : Nat) : String :=
  (if directory.endsWith "/" then directory else directory ++ "/") ++
    ".s.PGSQL." ++ Number.decimal port

/-- The target of a host at a port. -/
def Target.ofHost (host : List UInt8) (port : Nat) : Target :=
  match host, Text.ofUtf8 host with
  | 0x2F :: _, .ok directory => .socket (socketPath (String.ofList directory) port)
  | _, _ => .network

namespace Settings

/-- The port of the host at an index. -/
def portAt (s : Settings) (index : Nat) : Nat :=
  (s.ports[index]?.or s.ports.head?).getD 5432

/-- The target of the host or address at an index. -/
def targetAt (s : Settings) (index : Nat) : Target :=
  match s.addresses[index]?, s.hosts[index]? with
  | none, some host => .ofHost host (s.portAt index)
  | _, _ => .network

/-- The places at which a connection is tried, or why there are none. -/
def targets (s : Settings) : Except String (List Target) :=
  let hosts := s.hosts.length
  let addresses := s.addresses.length
  let count := if hosts = 0 then addresses else hosts
  if count = 0 then .error "both host and hostaddr are missing"
  else if hosts ≠ 0 ∧ addresses ≠ 0 ∧ hosts ≠ addresses then
    .error ("number of hosts (" ++ Number.decimal hosts ++
      ") is different from number of hostaddrs (" ++ Number.decimal addresses ++ ")")
  else if 1 < s.ports.length ∧ s.ports.length ≠ count then .error "invalid number of ports"
  else .ok ((List.range count).map s.targetAt)

end Settings

/-- Why nothing answers at a target where nobody listens. -/
def Target.silence (tree : FileTree) : Target → Cause
  | .network => .refused
  | .socket path =>
    match tree.read path with
    | .error .isADirectory => .refused
    | .error fault => .file fault
    | .ok _ => .refused

/-- Tries targets in order, up to the first that answers; if none does, the last one says why. -/
def tryTargets (attempt : Target → Except Cause Unit) : List Target → Except Cause Unit
  | [] => .error .refused
  | [target] => attempt target
  | target :: rest =>
    match attempt target with
    | .ok () => .ok ()
    | .error _ => tryTargets attempt rest

/-- Connects with settings, given what answers where. -/
def connect (attempt : Target → Except Cause Unit) (s : Settings) : Except (List Cause) Unit :=
  match s.targets with
  | .error reason => .error [.database none, .message reason]
  | .ok targets => (tryTargets attempt targets).mapError fun cause => [.database none, cause]

end ChangeFeed.Connection
