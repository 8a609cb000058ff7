import Mux.CloseSound

/-!
# Closed panes and the daemon's deadline

A daemon that accepts a close names a deadline on its own clock. The app stores it and
compares it with the clock of the machine it runs on: in the menu, when a closed tab is
reopened, and when a daemon lists its terminals. Here the app runs beside its clock, with
the leases the daemons have granted; `offset host` is how far the app's clock is ahead of
that daemon's.
-/

namespace Mux.Tiling

/-- One terminal of a daemon's answer to `ls`. -/
structure Listing where
  id : PaneId
  attached : Bool
  cwd : Option String
deriving Repr, DecidableEq

/-- `apply(agent:cwd:)`: an `ix:` pane keeps its directory. -/
def PaneView.describe (p : PaneView) (cwd : Option String) : PaneView :=
  match cwd with
  | some dir => if daemonOf p.target = p.target then { p with pwd := some dir } else p
  | none => p

namespace Session

def hosts (s : Session) (id : PaneId) (host : Option String) : Bool :=
  (s.pane? id).any fun p => daemonOf p.target == host

def describe (s : Session) (id : PaneId) (cwd : Option String) : Session :=
  { s with panes := s.panes.map fun p => if p.id = id then p.describe cwd else p }

end Session

namespace Window

def pane? (w : Window) (id : PaneId) : Option PaneView :=
  (w.owner id).bind fun i => (w.sessions[i]?).bind fun s => s.pane? id

/-- What a daemon says about a pane, applied to the pane. -/
def describe (w : Window) (id : PaneId) (host : Option String) (cwd : Option String) : Window :=
  match w.sessions.findIdx? fun s => s.hosts id host with
  | some i => w.edit i fun s => s.describe id cwd
  | none => w

/-- The first loop of `applyListings`: the closed panes left, and the terminals to kill. -/
def retire (items : List Listing) (host : Option String) (h : History) : List Entry → History × List PaneId
  | [] => (h, [])
  | e :: rest =>
    match items.find? fun l => l.id == e.id with
    | some l =>
      let more := retire items host h rest
      (more.1, if l.attached then more.2 else e.id :: more.2)
    | none => retire items host (h.remove e.id host) rest

def kills (w : Window) (items : List Listing) (host : Option String) (now : Nat) : List PaneId :=
  (retire items host w.closedPanes (w.closedPanes.expired host now)).2

def applyListings (w : Window) (items : List Listing) (host : Option String) (now : Nat) : Window :=
  items.foldl (fun w l => w.describe l.id host l.cwd)
    (w.setClosed (retire items host w.closedPanes (w.closedPanes.expired host now)).1)

end Window

/-- The entries that reopening again and again takes, in that order. -/
def History.reopenings (now : Nat) : Nat → History → List Entry
  | 0, _ => []
  | n + 1, h =>
    match h.popLast now with
    | (rest, some e) => e :: reopenings now n rest
    | (_, none) => []

/-- What `reopenClosedTab` offers. -/
def Window.offers (w : Window) (now : Nat) : List Entry :=
  w.closedPanes.reopenings now w.closedPanes.length

namespace App

/-- What is on disk: every change is saved at once. -/
def saved (a : App) : List WindowSnapshot := a.windows.map Window.snapshot ++ a.closedWindows

/-- Ids the windows of a saved state leave to new ones. -/
def firstFree (saved : List WindowSnapshot) : Nat := (saved.map fun w => w.id + 1).foldl max 0

/-- The window the pane of a request is in, and the daemon its terminal is on: the view that
asked, or the layout its window left. -/
def asked (a : App) (q : Request) : Option (Nat × Option String) :=
  if q.alive then
    (a.windows.find? fun w => w.keys.contains q.pane).bind fun w =>
      (w.pane? q.pane).map fun p => (w.id, daemonOf p.target)
  else
    (a.closedWindows.find? fun w => w.leaves.contains q.pane).map fun w =>
      (w.id, ((w.sessions.flatMap fun s => s.panes).lookup q.pane).bind fun p => daemonOf p.target)

/-- The completion finds the pane in the window of the session it started from. -/
def reaches (a : App) (q : Request) : Bool :=
  q.alive && (q.session.bind a.find).any fun f => (a.windows[f.1]?).any fun w => w.keys.contains q.pane

end App

/-- A close a daemon acknowledged. It is `held` until it is reopened, an exit event comes, or a
listing without it. -/
structure Lease where
  window : Nat
  id : PaneId
  host : Option String
  deadline : Nat
  held : Bool
deriving Repr, DecidableEq

namespace Lease

def on (l : Lease) (id : PaneId) (host : Option String) : Bool := l.id == id && l.host == host

def release (l : Lease) : Lease := { l with held := false }

end Lease

structure Retention where
  app : App
  now : Nat
  leases : List Lease
deriving Repr, DecidableEq

inductive Event where
  | tick (n : Nat)
  | op (op : Op)
  | start (saved : List WindowSnapshot)
  | restart
  | listing (window : Option Nat) (host : Option String) (items : List Listing)
  | watch (host : Option String) (id : PaneId) (exited : Bool) (cwd : Option String)
deriving Repr, DecidableEq

namespace Retention

/-- The clock of the daemon on `host`. -/
def daemonNow (offset : Option String → Int) (s : Retention) (host : Option String) : Int := s.now - offset host

def releaseIf (s : Retention) (p : Lease → Bool) : List Lease := s.leases.map fun l => if p l then l.release else l

/-- A reply with deadline `d`. The daemon renews no running lease: a repeated close gets the
deadline it has. -/
def grant (offset : Option String → Int) (s : Retention) (q : Request) (d : Nat) : List Lease :=
  match s.app.asked q with
  | none => s.leases
  | some (window, host) =>
    if s.leases.any fun l => l.on q.pane host && l.held && decide (s.daemonNow offset host < l.deadline) then s.leases
    else (s.leases.filter fun l => !l.on q.pane host) ++ [⟨window, q.pane, host, d, true⟩]

/-- The leases after an operation of the app. -/
def leasesAfter (offset : Option String → Int) (s : Retention) : Op → List Lease
  | .reply n (some d) =>
    match s.app.requests[n]? with
    | some q => s.grant offset q d
    | none => s.leases
  | .window k (.reopenClosedTab _) =>
    match (s.app.windows[k]?).bind fun w => (w.closedPanes.popLast s.now).2 with
    | some e => s.releaseIf fun l => l.on e.id e.host
    | none => s.leases
  | _ => s.leases

/-- Operations by themselves; a reopen reads the app's clock. -/
def allows (s : Retention) : Op → Bool
  | .launch _ => false
  | .exitEvent _ _ => false
  | .window _ (.reopenClosedTab now) => now == s.now
  | _ => true

def step (offset : Option String → Int) (s : Retention) : Event → Option Retention
  | .tick n => some { s with now := s.now + n }
  | .op op => if s.allows op then (s.app.step op).map fun app => ⟨app, s.now, s.leasesAfter offset op⟩ else none
  | .start saved =>
    if s.app = App.init ∧ s.leases = [] ∧ (saved.map fun w => w.id).Nodup then
      (({ App.init with nextRef := App.firstFree saved } : App).step (.launch saved)).map fun app => { s with app := app }
    else none
  | .restart => (s.app.step (.launch s.app.saved)).map fun app => { s with app := app }
  | .listing window host items =>
    let apply := fun w : Window => w.applyListings items host s.now
    some { s with
      app := match window with
        | some k => s.app.onWindow k apply
        | none => s.app.setWindows (s.app.windows.map apply)
      leases := s.releaseIf fun l => l.host == host && !items.any fun i => i.id == l.id }
  | .watch host id exited cwd =>
    ((if exited then s.app.step (.exitEvent id host) else some s.app).map fun app : App =>
      { s with
        app := app.setWindows (app.windows.map fun w => w.describe id host cwd)
        leases := if exited then s.releaseIf fun l => l.on id host else s.leases })

def init : Retention := ⟨App.init, 0, []⟩

/-- What the daemons were promised. A lease is running until its deadline on its daemon's clock. -/
structure Respects (offset : Option String → Int) (s : Retention) : Prop where
  /-- A lease that runs and is held is offered by the window that closed it, or parked with it. -/
  offered : ∀ l ∈ s.leases, l.held = true → s.daemonNow offset l.host < l.deadline →
    (∃ w ∈ s.app.windows, w.id = l.window ∧ ∃ e ∈ w.offers s.now, (e.id, e.host, e.deadline) = (l.id, l.host, l.deadline)) ∨
    ∃ w ∈ s.app.closedWindows, w.id = l.window ∧
      ∃ e ∈ w.closedPanes.getD [], (e.id, e.host, e.deadline) = (l.id, l.host, l.deadline)
  windows_once : (s.app.windows.map (fun w => w.id) ++ s.app.closedWindows.map fun w => w.id).Nodup
  /-- The most recently closed first. -/
  recent : ∀ w ∈ s.app.windows, (((w.offers s.now).map fun e => (e.id, e.host)).filter
    fun k => s.leases.any fun l => l.on k.1 k.2).Sublist (s.leases.map fun l => (l.id, l.host)).reverse
  once : ∀ w ∈ s.app.windows, ((w.offers s.now).map fun e => (e.id, e.host)).Nodup
  /-- No listing that may come makes the app kill a terminal whose lease runs. -/
  spared : ∀ l ∈ s.leases, s.daemonNow offset l.host < l.deadline →
    ∀ w ∈ s.app.windows, ∀ items, l.id ∉ w.kills items l.host s.now
  /-- What is recorded of a lease is its deadline or earlier, in windows and on disk. -/
  kept : ∀ l ∈ s.leases, ∀ w ∈ s.app.saved, ∀ e ∈ w.closedPanes.getD [], e.id = l.id → e.host = l.host →
    e.deadline ≤ l.deadline

/-- What the operations and a first start bring in. A restart brings in what the app saved. -/
def bringsNew (s : Retention) : Event → Bool
  | .op op => s.app.bringsNew op
  | .start saved => decide (saved.flatMap WindowSnapshot.restored).Nodup
  | _ => true

/-- A close is acknowledged only where its completion finds the pane, and on a daemon whose clock
the app's is not ahead of. -/
def heeds (offset : Option String → Int) (s : Retention) : Event → Bool
  | .op (.reply n (some _)) =>
    (s.app.requests[n]?).all fun q => (s.app.asked q).all fun a => s.app.reaches q && decide (offset a.2 ≤ 0)
  | _ => true

end Retention

end Mux.Tiling
