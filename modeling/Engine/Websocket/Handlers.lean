import Engine.Model.Types
import Engine.Text.Strings
import Mathlib.Logic.Function.Basic

/-! The websocket clients of `server/utils/websocket.ts` and of `server/routes/transaction/status.ts`. A handler runs up
to its `await` at once, and goes on in a step of its own. -/
namespace Engine.Websocket

inductive ReadyState
  | ready
  | closing
  | closed
deriving DecidableEq

structure Socket where
  readyState : ReadyState := .ready
  /-- The listeners of `error`, `message` and `close` are there. -/
  listening : Bool := false

/-- The socket is told by the number of its connection. -/
structure UserSubscription where
  socket : ℕ
  requestId : QueueId
deriving DecidableEq

/-- What is looked at of a `TransactionSchema`. -/
structure TransactionData where
  queueId : QueueId
  status : Status
  errorMessage : Option String

inductive Message
  | status (result : Option TransactionData) (queueId : Option QueueId) (message : String)
  | error (requestId : QueueId) (message : String)

/-- The handlers behind their `await`. -/
inductive Handler
  /-- `findOrAddWSConnectionInSharedState`, which `wsHandler` has called. -/
  | adding (connection : ℕ) (queueId : QueueId) (index : ℤ)
  /-- `wsHandler`, which waits for the transaction. -/
  | awaiting (connection : ℕ) (queueId : QueueId)
  | onError (connection : ℕ) (message : String) (index : ℤ)
  | onMessage (connection : ℕ) (index : ℤ)
  | onClose (connection : ℕ) (index : ℤ)
  | finished (connection : ℕ)
deriving DecidableEq

structure State where
  subscriptionsData : List UserSubscription := []
  sockets : ℕ → Option Socket := fun _ => none
  handlers : List Handler := []
  sent : List (ℕ × Message) := []
  /-- What the handlers of events have thrown. -/
  rejected : List Err := []

/-- `l[index]`, where a negative index has no element. -/
def elementAt {α : Type} (l : List α) (index : ℤ) : Option α := if index < 0 then none else l[index.toNat]?

/-- `l.splice(index, 1)`, where a negative index is one from the end. -/
def splice {α : Type} (l : List α) (index : ℤ) : List α :=
  l.eraseIdx (if index < 0 then (l.length + index).toNat else index.toNat)

def findWSConnectionInSharedState (s : State) (connection : ℕ) : ℤ :=
  match s.subscriptionsData.findIdx? fun sub => sub.socket = connection with
  | some index => index
  | none => -1

/-! ### Sockets -/

namespace State

def setSocket (s : State) (connection : ℕ) (f : Socket → Socket) : State :=
  { s with sockets := Function.update s.sockets connection ((s.sockets connection).map f) }

/-- What is sent on a socket that is not open is lost. -/
def send (s : State) (socket : ℕ) (message : Message) : State :=
  if (s.sockets socket).any fun x => x.readyState = .ready then { s with sent := s.sent ++ [(socket, message)] } else s

/-- `socket.close()`. The `close` event comes later. -/
def closeSocket (s : State) (socket : ℕ) : State :=
  s.setSocket socket fun x => { x with readyState := if x.readyState = .ready then .closing else x.readyState }

def remove (s : State) (index : ℤ) : State := { s with subscriptionsData := splice s.subscriptionsData index }

def reject (s : State) (e : Err) : State := { s with rejected := s.rejected ++ [e] }

end State

/-! ### Handlers -/

def undefinedSocket : Err :=
  { name := "TypeError", message := some "Cannot read properties of undefined (reading 'socket')" }

def onError (s : State) (connection : ℕ) (message : String) (index : ℤ) : State :=
  if index = -1 then s
  else
    match elementAt s.subscriptionsData index with
    | some userSubscription =>
      (((s.remove index).send userSubscription.socket
        (.error userSubscription.requestId message)).closeSocket connection)
    | none => (s.remove index).reject undefinedSocket

def onMessage (s : State) (index : ℤ) : State :=
  match elementAt s.subscriptionsData index with
  | some userSubscription =>
    ((s.remove index).send userSubscription.socket (.error userSubscription.requestId
      "Do not send any message. Closing Socket... Reconnect again.")).closeSocket userSubscription.socket
  | none => (s.remove index).reject undefinedSocket

def onClose (s : State) (index : ℤ) : State := if index = -1 then s else s.remove index

def findOrAddWSConnectionInSharedState (s : State) (connection : ℕ) (queueId : QueueId) (index : ℤ) : State :=
  if index > -1 then s else { s with subscriptionsData := s.subscriptionsData ++ [⟨connection, queueId⟩] }

def getStatusMessageAndConnectionStatus (data : Option TransactionData) : String × Bool :=
  match data with
  | none => ("Transaction not found. Make sure the provided ID is correct.", true)
  | some data =>
    match data.status with
    | .mined => ("Transaction mined. Closing connection.", true)
    | .errored => ((truthy data.errorMessage).getD "Transaction errored. Closing connection.", true)
    | .sent => ("Transaction submitted to blockchain. Waiting for transaction to be mined...", false)
    | _ => ("Request is queued. Waiting for transaction to be picked up by worker.", false)

def formatSocketMessage (data : Option TransactionData) (message : String) : Message :=
  .status data (data.map fun data => data.queueId) message

/-- `wsHandler` with its transaction. Where there is none to be had, the connection is destroyed. -/
def wsHandler (s : State) (connection : ℕ) (transaction : Except Err (Option TransactionData)) : State :=
  match transaction with
  | .error _ => s.closeSocket connection
  | .ok returnData =>
    let status := getStatusMessageAndConnectionStatus returnData
    let s := s.send connection (formatSocketMessage returnData status.1)
    if status.2 then s.closeSocket connection else s.setSocket connection fun x => { x with listening := true }

namespace Handler

def connection : Handler → ℕ
  | adding connection _ _ => connection
  | awaiting connection _ => connection
  | onError connection _ _ => connection
  | onMessage connection _ => connection
  | onClose connection _ => connection
  | finished connection => connection

def isFinished : Handler → Bool
  | finished _ => true
  | _ => false

/-- What is left of a handler after its next step. -/
def next : Handler → Handler
  | adding connection queueId _ => awaiting connection queueId
  | h => finished h.connection

/-- The next step of a handler. The transaction is what the database replies to `wsHandler`. -/
def resume (s : State) (transaction : Except Err (Option TransactionData)) : Handler → Option State
  | adding connection queueId index => some (findOrAddWSConnectionInSharedState s connection queueId index)
  | awaiting connection _ => some (wsHandler s connection transaction)
  | onError connection message index => some (Websocket.onError s connection message index)
  | onMessage _ index => some (Websocket.onMessage s index)
  | onClose _ index => some (Websocket.onClose s index)
  | finished _ => none

/-- The index at which a handler is going to remove. -/
def removes : Handler → Option ℤ
  | onError _ _ index => if index = -1 then none else some index
  | onMessage _ index => some index
  | onClose _ index => if index = -1 then none else some index
  | _ => none

end Handler

/-! ### Runs -/

inductive Move
  | connect (connection : ℕ) (queueId : QueueId)
  | message (connection : ℕ)
  | error (connection : ℕ) (message : String)
  | close (connection : ℕ)
  | resume (i : ℕ) (transaction : Except Err (Option TransactionData))

namespace State

def spawn (s : State) (h : Handler) : State := { s with handlers := s.handlers ++ [h] }

/-- An event of a socket that is not closed. Without listeners it is lost. -/
def emit (s : State) (connection : ℕ) (handler : ℤ → Handler) : Option State :=
  match s.sockets connection with
  | some socket =>
    if socket.readyState = .closed then none
    else if socket.listening then some (s.spawn (handler (findWSConnectionInSharedState s connection)))
    else some s
  | none => none

def step (s : State) : Move → Option State
  | .connect connection queueId =>
    if (s.sockets connection).isSome then none
    else some (({ s with sockets := Function.update s.sockets connection (some {}) } : State).spawn
      (.adding connection queueId (findWSConnectionInSharedState s connection)))
  | .message connection => s.emit connection (.onMessage connection)
  | .error connection message => s.emit connection (.onError connection message)
  | .close connection =>
    (s.emit connection (.onClose connection)).map fun s =>
      s.setSocket connection fun socket => { socket with readyState := .closed }
  | .resume i transaction =>
    s.handlers[i]?.bind fun h =>
      (h.resume s transaction).map fun t => { t with handlers := s.handlers.set i h.next }

/-- No handler is behind an `await`. -/
def quiescent (s : State) : Bool := s.handlers.all Handler.isFinished

/-- How many entries a socket has. -/
def entries (s : State) (connection : ℕ) : ℕ := (s.subscriptionsData.map UserSubscription.socket).count connection

end State

/-- The connection that a step is for. -/
def Move.connectionIn (s : State) : Move → Option ℕ
  | .connect connection _ => some connection
  | .message connection => some connection
  | .error connection _ => some connection
  | .close connection => some connection
  | .resume i _ => s.handlers[i]?.map Handler.connection

/-- The states of the runs whose steps are allowed. -/
inductive Reachable (allowed : State → Move → Bool) : State → Prop
  | initial : Reachable allowed {}
  | step {s s' : State} {m : Move} (h : Reachable allowed s) (hm : allowed s m = true) (hs : s.step m = some s') :
    Reachable allowed s'

end Engine.Websocket
