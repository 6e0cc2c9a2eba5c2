import Foton.Admission.State
import Foton.Lib.Run

/-!
# Logins, relocations and disconnects around the admissions

Any number of login tasks, relocation jobs and disconnect saves take their steps
in any order. The log records the loads and the saves of player data.
-/

namespace Foton

variable {U : Type} [DecidableEq U]

/-- Where a background task stands. -/
inductive AdmissionTask (U : Type) where
  /-- The login waits for its UUID. -/
  | login (player : Player U)
  | loading (player : Player U)
  /-- The loaded join waits in the queue. -/
  | prepared (join : PendingPlayerJoin U)
  /-- The join has passed its checks. -/
  | admitting (player : Player U)
  | admitted (player : Player U)
  | relocating (player : Player U)
  /-- The relocation is over; its job may still be cancelled. -/
  | relocated (player : Player U)
  /-- The disconnect save is prepared. -/
  | disconnect (player : Player U)
  | saving (player : Player U)
  deriving DecidableEq

inductive AdmissionEvent (U : Type) where
  | load (player : Player U)
  /-- The session is handed to a disconnect save. -/
  | prepare (player : Player U)
  /-- The disconnect save has ended. -/
  | saved (player : Player U)
  deriving DecidableEq

structure AdmissionSystem (U : Type) [DecidableEq U] where
  server : PlayerAdmissions U
  tasks : List (AdmissionTask U)
  /-- The sessions that ever asked to join. -/
  sessions : List (Player U)
  log : List (AdmissionEvent U)

/-- The outcomes that are not decided by the admissions are part of the step. -/
inductive AdmissionOp (U : Type) where
  | queuePlayerJoin (player : Player U)
  | tryReservePlayerJoin (player : Player U)
  | giveUpLogin (player : Player U)
  | loadPlayerData (player : Player U) (state : Except String Unit)
  | finishPreparedPlayerJoin (join : PendingPlayerJoin U) (closed whitelisted : Bool)
  | admitReservedPlayer (player : Player U)
  | finishAdmittedJoin (player : Player U) (restored spawned : Bool)
  | reservePlayerRelocation (player : Player U)
  | finishRelocation (player : Player U)
  | cancelRelocated (player : Player U)
  | queueRelocatingPlayerDisconnect (player : Player U)
  | queueDetachedPlayerDisconnect (player : Player U)
  | processPlayerDisconnect (player : Player U)
  | startSave (player : Player U)
  | endSave (player : Player U)

namespace AdmissionSystem

def new : AdmissionSystem U := ⟨.new, [], [], []⟩

/-- The disconnect save of the player is prepared. -/
def prepare (s : AdmissionSystem U) (server : PlayerAdmissions U) (player : Player U) : AdmissionSystem U :=
  { s with server := server, tasks := .disconnect player :: s.tasks, log := s.log ++ [.prepare player] }

def exec (maxPlayers : Nat) (s : AdmissionSystem U) : AdmissionOp U → Except String (AdmissionSystem U)
  | .queuePlayerJoin player => .ok { s with tasks := .login player :: s.tasks, sessions := player :: s.sessions }
  | .tryReservePlayerJoin player =>
    match s.server.tryReservePlayerJoin maxPlayers player with
    | (.reserved, server) => .ok { s with server := server, tasks := .loading player :: s.tasks.erase (.login player) }
    | (.full, server) => .ok { s with server := server, tasks := s.tasks.erase (.login player) }
    | (.duplicate, server) => .ok { s with server := server }
  | .giveUpLogin player => .ok { s with tasks := s.tasks.erase (.login player) }
  | .loadPlayerData player state => .ok { s with
      tasks := .prepared ⟨player, state⟩ :: s.tasks.erase (.loading player)
      log := s.log ++ [.load player] }
  | .finishPreparedPlayerJoin join closed whitelisted =>
    match s.server.checkPreparedJoin maxPlayers join closed whitelisted with
    | .proceed => .ok { s with tasks := .admitting join.player :: s.tasks.erase (.prepared join) }
    | .refuse _ => .ok { s with
        server := s.server.releasePlayerAdmission join.player.uuid .joining
        tasks := s.tasks.erase (.prepared join) }
  | .admitReservedPlayer player => (s.server.admitReservedPlayer player).map fun
    | (true, server) => { s with server := server, tasks := .admitted player :: s.tasks.erase (.admitting player) }
    | (false, server) => { s with server := server, tasks := s.tasks.erase (.admitting player) }
  | .finishAdmittedJoin player restored spawned => .ok { s with
      server := s.server.finishAdmittedJoin player restored spawned
      tasks := s.tasks.erase (.admitted player) }
  | .reservePlayerRelocation player =>
    match s.server.reservePlayerRelocation player with
    | none => .ok s
    | some server => .ok { s with server := server, tasks := .relocating player :: s.tasks }
  | .finishRelocation player => .ok { s with
      server := s.server.releasePlayerAdmission player.uuid .relocating
      tasks := .relocated player :: s.tasks.erase (.relocating player) }
  | .cancelRelocated player => .ok { s with
      server := s.server.releasePlayerAdmission player.uuid .relocating
      tasks := s.tasks.erase (.relocated player) }
  | .queueRelocatingPlayerDisconnect player =>
    let s := { s with tasks := s.tasks.erase (.relocating player) }
    match s.server.queueRelocatingPlayerDisconnect player with
    | none => .ok s
    | some server => .ok (s.prepare server player)
  | .queueDetachedPlayerDisconnect player =>
    match s.server.queueDetachedPlayerDisconnect player with
    | none => .ok s
    | some server => .ok (s.prepare server player)
  | .processPlayerDisconnect player =>
    match s.server.processPlayerDisconnect player with
    | (false, server) => .ok { s with server := server }
    | (true, server) => .ok (s.prepare server player)
  | .startSave player => .ok { s with tasks := .saving player :: s.tasks.erase (.disconnect player) }
  | .endSave player => .ok { s with
      server := s.server.releasePlayerAdmission player.uuid .disconnecting
      tasks := s.tasks.erase (.saving player)
      log := s.log ++ [.saved player] }

/-- A task takes its own steps; each login has a new player. A player may be queued for a disconnect at any time. -/
def Enabled (s : AdmissionSystem U) : AdmissionOp U → Prop
  | .queuePlayerJoin player => player ∉ s.sessions
  | .tryReservePlayerJoin player | .giveUpLogin player => .login player ∈ s.tasks
  | .loadPlayerData player _ => .loading player ∈ s.tasks
  | .finishPreparedPlayerJoin join _ _ => .prepared join ∈ s.tasks
  | .admitReservedPlayer player => .admitting player ∈ s.tasks
  | .finishAdmittedJoin player _ _ => .admitted player ∈ s.tasks
  | .finishRelocation player | .queueRelocatingPlayerDisconnect player => .relocating player ∈ s.tasks
  | .cancelRelocated player => .relocated player ∈ s.tasks
  | .startSave player => .disconnect player ∈ s.tasks
  | .endSave player => .saving player ∈ s.tasks
  | .reservePlayerRelocation _ | .queueDetachedPlayerDisconnect _ | .processPlayerDisconnect _ => True

def Step (maxPlayers : Nat) (s : AdmissionSystem U) (op : AdmissionOp U) (s' : AdmissionSystem U) : Prop :=
  s.Enabled op ∧ s.exec maxPlayers op = .ok s'

def Reachable (maxPlayers : Nat) (s : AdmissionSystem U) : Prop := ∃ ops, Run (Step maxPlayers) new ops s

end AdmissionSystem

end Foton
