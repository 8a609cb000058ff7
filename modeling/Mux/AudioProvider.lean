import Mux.Lib.Run

/-!
# The automatic audio provider

A helper on the Mac offers its devices to a host over one stream. When an application of a pane opens an audio device
there, `acquire` puts an acquisition into the channel of `provider::serve`, which writes the request on the stream and
waits for the answer with its id. The helper runs one media operation at a time: it takes the hardware, opens the
route the request stands for and then its device, and answers. A request that comes while one is running waits for
that to end, and is refused if it does not.

The links are the connections of all helpers to all hosts; the hardware lock is one for the Mac.
-/

namespace Mux.AudioProvider

structure Request where
  id : Nat
  name : String
  attachment : Nat
deriving DecidableEq, Repr

structure Ready where
  id : Nat
  error : Option String
deriving DecidableEq, Repr

/-! ## The host -/

/-- How far a call of `acquire` is that has the gate. -/
inductive Stage where
  | sending
  | waiting
  | answered (error : Option String)
deriving DecidableEq, Repr

/-- Its permit is valid as long as the call is there. -/
structure Acquire where
  task : Nat
  request : Request
  stage : Stage
deriving DecidableEq, Repr

/-- `ready` of an acquisition leads to the call with this number. -/
structure Acquisition where
  task : Nat
  request : Request
deriving DecidableEq, Repr

/-- Why `serve` returned: the stream or the deadline, a byte that nobody asked for, or an answer for another id. -/
inductive End where
  | lost
  | stray
  | mismatched
deriving DecidableEq, Repr

inductive Serving where
  | idle
  | reply (a : Acquisition)
  | ended (why : End)
deriving DecidableEq, Repr

/-! ## The helper -/

/-- Where a media operation stands. `grant` is the call under whose permit the route was opened. -/
inductive Phase where
  | begun
  | owning
  | routed (grant : Nat)
  | ready (grant : Nat)
  | ended (error : Option String)
deriving DecidableEq, Repr

structure Media where
  request : Request
  phase : Phase
deriving DecidableEq, Repr

inductive Helper where
  | idle (queued : Option Request)
  | starting (wanted : Request)
  | answering (wanted : Request) (error : Option String)
  | running (wanted : Request)
  | grace (wanted next : Request)
  | refusing (wanted next : Request)
  | lost
deriving DecidableEq, Repr

/-! ## Links -/

/-- `asked` and `answered` are what was written on the stream in either direction, `received` how many answers were
read, `granted` the calls under whose permit a route was opened and then a device of the Mac. -/
structure Link where
  tasks : Nat
  acquire : Option Acquire
  queue : List Acquisition
  serving : Serving
  down : List Request
  up : List Ready
  inbox : List Request
  helper : Helper
  media : Option Media
  asked : List Request
  answered : List Ready
  received : Nat
  granted : List Nat
deriving DecidableEq, Repr

def Link.new : Link where
  tasks := 0
  acquire := none
  queue := []
  serving := .idle
  down := []
  up := []
  inbox := []
  helper := .idle none
  media := none
  asked := []
  answered := []
  received := 0
  granted := []

/-- Who has the hardware lock. -/
inductive Owner where
  | link (k : Nat)
  | other
deriving DecidableEq, Repr

structure State where
  owner : Option Owner
  links : List Link
deriving DecidableEq, Repr

def init : State := { owner := none, links := [] }

def channelDepth : Nat := 8

def Phase.owns : Phase → Bool
  | .owning | .routed _ | .ready _ => true
  | _ => false

def Link.owns (l : Link) : Bool := l.media.any (·.phase.owns)

/-! ## provider::serve and acquire -/

inductive HostAct where
  | acquire (r : Request)
  | send
  | cancel
  | take
  | receive
  | stray
  | lose
deriving DecidableEq, Repr

/-- `acquisition.ready.is_closed()` -/
def Link.closed (l : Link) (a : Acquisition) : Bool := !l.acquire.any fun b => b.task == a.task

/-- `acquisition.ready.send(result)` -/
def Link.deliver (l : Link) (a : Acquisition) (error : Option String) : Link :=
  { l with acquire := l.acquire.map fun b => if b.task = a.task then { b with stage := .answered error } else b }

def Link.host (l : Link) : HostAct → Option Link
  | .acquire r =>
    match l.acquire with
    | none => some { l with acquire := some { task := l.tasks, request := r, stage := .sending }, tasks := l.tasks + 1 }
    | some _ => none
  | .send =>
    match l.acquire, l.serving with
    | some ⟨_, _, .sending⟩, .ended _ => some { l with acquire := none }
    | some ⟨t, r, .sending⟩, _ =>
      if l.queue.length < channelDepth then
        some { l with acquire := some ⟨t, r, .waiting⟩, queue := l.queue ++ [⟨t, r⟩] }
      else none
    | _, _ => none
  | .cancel => some { l with acquire := none }
  | .take =>
    match l.serving, l.queue with
    | .idle, a :: queue =>
      if l.closed a then some { l with queue := queue }
      else
        some { l with
          queue := queue, serving := .reply a, down := l.down ++ [a.request], asked := l.asked ++ [a.request] }
    | _, _ => none
  | .receive =>
    match l.serving, l.up with
    | .reply a, r :: up =>
      let l' : Link := { l with up := up, received := l.received + 1 }
      if r.id = a.request.id then some ({ l' with serving := .idle }.deliver a r.error)
      else some { l' with serving := .ended .mismatched }
    | _, _ => none
  | .stray =>
    match l.serving, l.up with
    | .idle, _ :: _ => some { l with serving := .ended .stray }
    | _, _ => none
  | .lose =>
    match l.serving with
    | .ended _ => none
    | _ => some { l with serving := .ended .lost }

/-! ## connected -/

inductive HelperAct where
  | read
  | begin
  | granted
  | failed
  | answer (ok : Bool)
  | finish
  | next
  | settle
  | late
  | refuse (ok : Bool)
  | leave
deriving DecidableEq, Repr

def setupError : Option String → String
  | some e => e
  | none => "Audio closed during setup"

def inUse (wanted : Request) : String := "Mac audio is in use by pane " ++ wanted.name ++ "; end its voice session first"

/-- The reader and the media operation go with the helper. -/
def Link.lose (l : Link) : Link := { l with helper := .lost, media := none }

def Link.start (l : Link) (wanted : Request) : Link :=
  { l with helper := .starting wanted, media := some { request := wanted, phase := .begun } }

def Link.write (l : Link) (r : Ready) : Link := { l with up := l.up ++ [r], answered := l.answered ++ [r] }

def Link.mediaPhase (l : Link) : Option Phase := l.media.map (·.phase)

def Link.help (l : Link) : HelperAct → Option Link
  | .read =>
    match l.helper, l.down with
    | .lost, _ => none
    | _, q :: down => if l.inbox.length < channelDepth then some { l with down := down, inbox := l.inbox ++ [q] } else none
    | _, [] => none
  | .begin =>
    match l.helper, l.inbox with
    | .idle (some q), _ => some (l.start q)
    | .idle none, q :: inbox => some ({ l with inbox := inbox }.start q)
    | _, _ => none
  | .granted =>
    match l.helper, l.mediaPhase with
    | .starting w, some (.ready _) => some { l with helper := .answering w none }
    | _, _ => none
  | .failed =>
    match l.helper, l.mediaPhase with
    | .starting w, some (.ended result) =>
      some { l with helper := .answering w (some (setupError result)), media := none }
    | _, _ => none
  | .answer ok =>
    match l.helper with
    | .answering w error =>
      if ok then
        some { l.write { id := w.id, error := error } with helper := if error.isNone then .running w else .idle none }
      else some l.lose
    | _ => none
  | .finish =>
    match l.helper, l.mediaPhase with
    | .running _, some (.ended _) => some { l with helper := .idle none, media := none }
    | _, _ => none
  | .next =>
    match l.helper, l.inbox with
    | .running w, q :: inbox => some { l with helper := .grace w q, inbox := inbox }
    | _, _ => none
  | .settle =>
    match l.helper, l.mediaPhase with
    | .grace _ q, some (.ended _) => some { l with helper := .idle (some q), media := none }
    | _, _ => none
  | .late =>
    match l.helper, l.mediaPhase with
    | .grace _ _, some (.ended _) => none
    | .grace w q, _ => some { l with helper := .refusing w q }
    | _, _ => none
  | .refuse ok =>
    match l.helper with
    | .refusing w q =>
      if ok then some { l.write { id := q.id, error := some (inUse w) } with helper := .running w } else some l.lose
    | _ => none
  | .leave =>
    match l.helper with
    | .lost => none
    | _ => some l.lose

/-! ## run_ready -/

/-- `e` is the text of an error that comes from the outside. -/
inductive MediaAct where
  | own (ok : Bool) (e : String)
  | route (ok : Bool) (e : String)
  | open (ok : Bool) (e : String)
  | stop (error : Option String)
deriving DecidableEq, Repr

def expired : String := "error: audio request expired"

/-- `Provider::permit` -/
def Link.permit (l : Link) (r : Request) : Option Nat :=
  match l.serving, l.acquire with
  | .ended _, _ => none
  | _, some b => if b.request = r then some b.task else none
  | _, none => none

def Link.mediaTo (l : Link) (m : Media) (p : Phase) : Link := { l with media := some { m with phase := p } }

/-- The step of the operation; `free` says that nobody has the hardware lock. -/
def Link.mediate (l : Link) (m : Media) (free : Bool) : MediaAct → Option Link
  | .own ok e =>
    match m.phase with
    | .begun => some (l.mediaTo m (if ok && free then .owning else .ended (some e)))
    | _ => none
  | .route ok e =>
    match m.phase with
    | .owning =>
      match ok, l.permit m.request with
      | true, some t => some (l.mediaTo m (.routed t))
      | true, none => some (l.mediaTo m (.ended (some expired)))
      | false, _ => some (l.mediaTo m (.ended (some e)))
    | _ => none
  | .open ok e =>
    match m.phase with
    | .routed t =>
      if ok then some { l.mediaTo m (.ready t) with granted := l.granted ++ [t] }
      else some (l.mediaTo m (.ended (some e)))
    | _ => none
  | .stop error =>
    match m.phase with
    | .ready _ => some (l.mediaTo m (.ended error))
    | _ => none

/-! ## Steps -/

inductive LinkAct where
  | host (a : HostAct)
  | helper (a : HelperAct)
  | media (a : MediaAct)
deriving DecidableEq, Repr

inductive Label where
  | connect
  | link (k : Nat) (a : LinkAct)
  | other (own : Bool)
deriving DecidableEq, Repr

def Link.step (l : Link) (free : Bool) : LinkAct → Option Link
  | .host a => l.host a
  | .helper a => l.help a
  | .media a => l.media.bind fun m => l.mediate m free a

/-- The lock goes to a link that has come to own it and back when it does not any more. -/
def State.owned (s : State) (k : Nat) (before after : Bool) : Option Owner :=
  match before, after with
  | false, true => some (.link k)
  | true, false => none
  | _, _ => s.owner

def step (s : State) : Label → Option State
  | .connect => some { s with links := s.links ++ [.new] }
  | .link k a =>
    s.links[k]?.bind fun l =>
      (l.step s.owner.isNone a).map fun l' => { owner := s.owned k l.owns l'.owns, links := s.links.set k l' }
  | .other true => if s.owner.isNone then some { s with owner := some .other } else none
  | .other false => if s.owner = some .other then some { s with owner := none } else none

end Mux.AudioProvider
