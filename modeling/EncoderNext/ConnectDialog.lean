import EncoderNext.PanelChange

/-!
# The Wi-Fi window

Buttons and timers of the panel's window, a thread for each request, and the helper at the other end.
An answer may be lost on its way, a packet may be read long after its thread has given up, and others
talk to the helper as well.
-/

namespace EncoderNext

open Program

inductive JobPhase where
  | waiting
  | asked (answer : Except Bytes Bytes)
  | done (reply : WifiConnectReply)

structure Job where
  action : WifiConnectAction
  profile : Option WifiProfile
  phase : JobPhase := .waiting

inductive ConnectStatus where
  | entry
  | unavailable
  | badEntry
  | started
  | unanswered
  | told (st : WifiConnectState)
  deriving DecidableEq

/-- The window. Requests are counted, and `pending` is the one under way. -/
structure WifiConnectDialog where
  request : Bool
  active : Bool := false
  startEnabled : Bool
  confirmEnabled : Bool := false
  cancelEnabled : Bool := false
  closeEnabled : Bool := true
  entryEnabled : Bool := true
  poll : Bool := false
  refresh : Bool := false
  pending : Option Nat := none
  jobs : List Job := []
  status : ConnectStatus

namespace WifiConnectDialog

def opened (request : Bool) : WifiConnectDialog where
  request := request
  startEnabled := request
  status := if request then .entry else .unavailable

/-- A thread that cannot be made leaves a request that is done, without a reply. -/
def send (d : WifiConnectDialog) (thread : Bool) (action : WifiConnectAction)
    (profile : Option WifiProfile := none) : WifiConnectDialog :=
  if !d.request || d.pending.isSome then d
  else { d with
    pending := some d.jobs.length
    jobs := d.jobs ++ [⟨action, profile, if thread then .waiting else .done {}⟩]
    confirmEnabled := false
    cancelEnabled := false
    poll := true }

def onStart (kdf : Pbkdf2) (d : WifiConnectDialog) (network password : Bytes) (thread : Bool) :
    WifiConnectDialog :=
  match WifiProfile.make kdf network password with
  | .error _ => { d with status := .badEntry }
  | .ok profile =>
    { d with
      active := true
      startEnabled := false
      closeEnabled := false
      entryEnabled := false
      status := .started }.send thread .start (some profile)

def told (d : WifiConnectDialog) (st : WifiConnectState) : WifiConnectDialog :=
  let d := { d with status := .told st }
  match st with
  | .connecting | .recoveryRequired => d
  | .awaitingConfirmation => { d with confirmEnabled := true }
  | .committed | .rolledBack | .rejected => { d with active := false }

def receive (d : WifiConnectDialog) (reply : WifiConnectReply) : WifiConnectDialog :=
  let d := { d with poll := false, pending := none, closeEnabled := true }
  if !reply.ok then { d with status := .unanswered, cancelEnabled := true, refresh := true }
  else
    let d := d.told reply.state
    { d with cancelEnabled := d.active, refresh := d.active }

def arrived (d : WifiConnectDialog) : Option WifiConnectReply :=
  match d.pending.bind fun n => d.jobs[n]? with
  | some ⟨_, _, .done reply⟩ => some reply
  | _ => none

def onPoll (d : WifiConnectDialog) : WifiConnectDialog :=
  match d.arrived with
  | none => d
  | some reply => d.receive reply

def settle (d : WifiConnectDialog) (n : Nat) (phase : JobPhase) : WifiConnectDialog :=
  { d with jobs := d.jobs.modify n fun job => { job with phase := phase } }

end WifiConnectDialog

/-! ## The window, the helper and everyone else -/

namespace ConnectWindow

/-- For whom the helper works: a request whose thread waits, one whose thread has given up, or others. -/
inductive Source where
  | asked (n : Nat)
  | late (n : Nat)
  | others

inductive Note where
  | clicked (action : WifiConnectAction)
  | refreshed
  | shown (status : ConnectStatus)
  | helper (source : Source) (e : WifiRpc.Event)

/-- A packet that stands in the queue of the helper, though nobody waits for its answer. -/
structure Queued where
  request : Nat
  action : WifiConnectAction
  packet : Bytes

structure System where
  dialog : WifiConnectDialog
  ticket : Bytes := []
  rpc : WifiRpc := {}
  queue : List Queued := []
  log : List Note := []

def helperEvent : Note → Option WifiRpc.Event
  | .helper _ e => some e
  | _ => none

def helperLog (log : List Note) : List WifiRpc.Event := log.filterMap helperEvent

/-- The two refusals that reach no helper. -/
def refusals : List Bytes :=
  [bytes "Wi-Fi change disabled or requires Ethernet admin connection", bytes "Unauthorized"]

/-- How the helper's answer comes back: whole, or as an error on the way. -/
inductive Returned (a : Bytes) : Except Bytes Bytes → Prop
  | whole (it : Iteration) : Returned a (AdminClient.userAnswer (Server.answerStream it
      (Server.wifiAnswer (WifiIpc.serveWifiChangePacket a))))
  | lost {error : Bytes} (h : error ∉ refusals) : Returned a (.error error)

inductive GivenUp : JobPhase → Prop
  | unknown {error : Bytes} (h : error ∉ refusals) : GivenUp (.asked (.error error))
  | thrown : GivenUp (.done {})

def System.window (s : System) (dialog : WifiConnectDialog) (notes : List Note) : System :=
  { s with dialog := dialog, log := s.log ++ notes }

def sentNote (d d' : WifiConnectDialog) (note : Note) : List Note :=
  if d'.jobs.length = d.jobs.length then [] else [note]

def shownNote (d d' : WifiConnectDialog) : List Note :=
  if d.arrived.isNone then [] else [.shown d'.status]

def handling (source : Source) (packet a : Bytes) (seg : List WifiRpc.Event) (rpc : WifiRpc) :
    List Note :=
  (.packet packet :: (seg ++ [WifiRpc.Event.answer a rpc.sessionState])).map (.helper source)

inductive Step (kdf : Pbkdf2) : System → System → Prop
  | start {s : System} (network password : Bytes) (thread : Bool) : s.dialog.startEnabled = true →
      Step kdf s (s.window (s.dialog.onStart kdf network password thread)
        [.clicked .start, .shown (s.dialog.onStart kdf network password thread).status])
  | confirm {s : System} (thread : Bool) : s.dialog.confirmEnabled = true →
      Step kdf s (s.window (s.dialog.send thread .confirm) [.clicked .confirm])
  | cancel {s : System} (thread : Bool) : s.dialog.cancelEnabled = true →
      Step kdf s (s.window (s.dialog.send thread .cancel) [.clicked .cancel])
  | refresh {s : System} (thread : Bool) : s.dialog.refresh = true →
      Step kdf s (s.window (s.dialog.send thread .status)
        (sentNote s.dialog (s.dialog.send thread .status) .refreshed))
  | poll {s : System} : s.dialog.poll = true →
      Step kdf s (s.window s.dialog.onPoll (shownNote s.dialog s.dialog.onPoll))
  /-- There is no packet for the action, or an exception ends the thread's work. -/
  | failed {s : System} {n : Nat} {job : Job} : s.dialog.jobs[n]? = some job →
      (∀ reply, job.phase ≠ .done reply) → Step kdf s (s.window (s.dialog.settle n (.done {})) [])
  | refused {s : System} {n : Nat} {job : Job} {packet error : Bytes} : s.dialog.jobs[n]? = some job →
      job.phase = .waiting → AdminWindow.packetOf s.ticket job.profile job.action = some packet →
      Step kdf s (s.window (s.dialog.settle n (.asked (.error error))) [])
  | handled {s : System} {n : Nat} {job : Job} {packet a : Bytes} {rpc : WifiRpc}
      {seg : List WifiRpc.Event} {answer : Except Bytes Bytes} : s.dialog.jobs[n]? = some job →
      job.phase = .waiting → AdminWindow.packetOf s.ticket job.profile job.action = some packet →
      Runs WifiRpc.record (s.rpc.handle kdf packet) (helperLog s.log ++ [.packet packet]) (a, rpc)
        (helperLog s.log ++ [.packet packet] ++ seg) → Returned a answer →
      Step kdf s { s with
        dialog := s.dialog.settle n (.asked answer)
        rpc := rpc
        log := s.log ++ handling (.asked n) packet a seg rpc }
  /-- The packet is sent, and the thread has waited long enough before the helper is done with it. -/
  | gaveUp {s : System} {n : Nat} {job : Job} {packet : Bytes} {phase : JobPhase} :
      s.dialog.jobs[n]? = some job → job.phase = .waiting →
      AdminWindow.packetOf s.ticket job.profile job.action = some packet → GivenUp phase →
      Step kdf s { s with
        dialog := s.dialog.settle n phase
        queue := s.queue ++ [⟨n, job.action, packet⟩] }
  /-- The helper reads it all the same, and its answer reaches nobody. -/
  | late {s : System} {q : Queued} {front back : List Queued} {a : Bytes} {rpc : WifiRpc}
      {seg : List WifiRpc.Event} : s.queue = front ++ q :: back →
      Runs WifiRpc.record (s.rpc.handle kdf q.packet) (helperLog s.log ++ [.packet q.packet]) (a, rpc)
        (helperLog s.log ++ [.packet q.packet] ++ seg) →
      Step kdf s { s with
        rpc := rpc
        queue := front ++ back
        log := s.log ++ handling (.late q.request) q.packet a seg rpc }
  | returned {s : System} {n : Nat} {job : Job} {answer : Except Bytes Bytes} :
      s.dialog.jobs[n]? = some job → job.phase = .asked answer →
      Step kdf s { s with
        dialog := s.dialog.settle n (.done (AdminWindow.understand job.action s.ticket answer).1)
        ticket := (AdminWindow.understand job.action s.ticket answer).2 }
  | tick {s : System} {rpc : WifiRpc} {seg : List WifiRpc.Event} :
      Runs WifiRpc.record s.rpc.tick (helperLog s.log ++ [.tick]) rpc (helperLog s.log ++ [.tick] ++ seg) →
      Step kdf s { s with rpc := rpc, log := s.log ++ (.tick :: seg).map (.helper .others) }
  | other {s : System} {packet a : Bytes} {rpc : WifiRpc} {seg : List WifiRpc.Event} :
      Runs WifiRpc.record (s.rpc.handle kdf packet) (helperLog s.log ++ [.packet packet]) (a, rpc)
        (helperLog s.log ++ [.packet packet] ++ seg) →
      Step kdf s { s with rpc := rpc, log := s.log ++ handling .others packet a seg rpc }

def Reach (kdf : Pbkdf2) : System → Prop :=
  Relation.ReflTransGen (Step kdf) { dialog := .opened true }

end ConnectWindow

end EncoderNext
