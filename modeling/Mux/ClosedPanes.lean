import Mux.SplitTree

/-!
# Closed panes

What the app keeps of a pane that was closed: enough to open it again while its daemon
still holds the terminal. A time is a number; `distantPast` is before every one the app
asks about.
-/

namespace Mux.Tiling

structure PaneSnapshot where
  cwd : Option String
  target : Option String
  fontDelta : Option Int
  requireExisting : Option Bool
deriving Repr, DecidableEq

/-- The daemon a target's terminal is on: an `ix:` pane runs on the local one. -/
def daemonOf (target : Option String) : Option String :=
  target.filter fun t => !t.startsWith "ix:"

structure SessionSnapshot where
  tree : SplitNode
  panes : List (PaneId × PaneSnapshot)
  focused : Option PaneId
  zoomed : Option PaneId
deriving Repr, DecidableEq

structure Entry where
  id : PaneId
  pane : PaneSnapshot
  expiresAt : Option Nat
deriving Repr, DecidableEq

def distantPast : Nat := 0

def Entry.host (e : Entry) : Option String := daemonOf e.pane.target

def Entry.deadline (e : Entry) : Nat := e.expiresAt.getD distantPast

def Entry.snapshot (e : Entry) : SessionSnapshot := ⟨.leaf e.id, [(e.id, e.pane)], some e.id, none⟩

/-- `ClosedPaneHistory`: oldest first. -/
abbrev History := List Entry

namespace History

def has (h : History) (id : PaneId) (host : Option String) : Bool :=
  h.any fun e => e.id == id && e.host == host

def remove (h : History) (id : PaneId) (host : Option String) : History :=
  h.filter fun e => !(e.id == id && e.host == host)

def record (h : History) (id : PaneId) (pane : PaneSnapshot) (expiresAt : Nat) : History :=
  remove h id (daemonOf pane.target) ++ [⟨id, { pane with requireExisting := some true }, some expiresAt⟩]

def ofEntries (entries : List Entry) : History :=
  entries.foldl (fun h e => record h e.id e.pane (e.expiresAt.getD distantPast)) []

def expired (h : History) (host : Option String) (now : Nat) : List Entry :=
  h.filter fun e => e.host == host && decide (e.deadline ≤ now)

def isEmpty (h : History) (now : Nat) : Bool :=
  !h.any fun e => decide (now < e.deadline)

/-- What is past its deadline goes, and the last of the rest is taken. -/
def popLast (h : History) (now : Nat) : History × Option Entry :=
  let live := h.filter fun e => !decide (e.deadline ≤ now)
  (live.dropLast, live.getLast?)

def ids (h : History) : List PaneId := h.map fun e => e.id

theorem count_filter_le (h : History) (p : Entry → Bool) (x : PaneId) :
    (ids (h.filter p)).count x ≤ (ids h).count x :=
  (List.filter_sublist.map _).count_le x

theorem count_remove_le (h : History) (id : PaneId) (host : Option String) (x : PaneId) :
    (ids (remove h id host)).count x ≤ (ids h).count x :=
  count_filter_le h _ x

theorem count_record_le (h : History) (id : PaneId) (pane : PaneSnapshot) (d : Nat) (x : PaneId) :
    (ids (record h id pane d)).count x ≤ (ids h).count x + if x = id then 1 else 0 := by
  have hr := count_remove_le h id (daemonOf pane.target) x
  have hl := SplitNode.count_leaf id x
  unfold record
  rw [ids, List.map_append, List.count_append]
  exact Nat.add_le_add hr (Nat.le_of_eq hl)

theorem count_popLast_le {h : History} {now : Nat} {rest : History} {e : Entry} (hp : popLast h now = (rest, some e))
    (x : PaneId) : (ids rest).count x + (if x = e.id then 1 else 0) ≤ (ids h).count x := by
  have hle := count_filter_le h (fun e => !decide (e.deadline ≤ now)) x
  obtain ⟨hrest, hlast⟩ := Prod.mk.injEq .. ▸ hp
  have hsplit := List.dropLast_append_getLast? e hlast
  rw [← hsplit, ids, List.map_append, List.count_append, hrest] at hle
  have hl := SplitNode.count_leaf e.id x
  exact Nat.le_trans (Nat.add_le_add_left (Nat.le_of_eq hl.symm) _) hle

theorem count_popLast_none {h : History} {now : Nat} (x : PaneId) :
    (ids (popLast h now).1).count x ≤ (ids h).count x :=
  ((List.dropLast_sublist _).trans List.filter_sublist |>.map _).count_le x

theorem count_ofEntries_le (entries : List Entry) (x : PaneId) :
    (ids (ofEntries entries)).count x ≤ (ids entries).count x := by
  have hfold : ∀ (es : List Entry) (h : History),
      (ids (es.foldl (fun h e => record h e.id e.pane (e.expiresAt.getD distantPast)) h)).count x ≤
        (ids h).count x + (ids es).count x := by
    intro es
    induction es with
    | nil => intro h; exact Nat.le_add_right _ _
    | cons e es ih =>
      intro h
      have hr := count_record_le h e.id e.pane (e.expiresAt.getD distantPast) x
      have hi := ih (record h e.id e.pane (e.expiresAt.getD distantPast))
      have hc : (ids (e :: es)).count x = (ids es).count x + if x = e.id then 1 else 0 := by
        by_cases hx : x = e.id
        · simp [ids, hx]
        · simp [ids, hx, Ne.symm hx]
      rw [List.foldl_cons]
      omega
  exact Nat.le_trans (hfold entries []) (by simp [ids])

end History

end Mux.Tiling
