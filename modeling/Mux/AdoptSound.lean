import Mathlib.Data.List.Induction
import Mux.Adopt
import Mux.LaunchSound

/-!
# Orphans are adopted once, and attached to

What an answer adds is one session, made of listings that were orphans when the answer was
there. A pane's relay asks for the pty under the upper-case text of its UUID, on the daemon of
its target: the pane attaches to what was listed where the listing's name is that text, and
where the daemon that answered is the one that was asked.
-/

namespace Mux.Tiling

open Lib Muxd

/-! ## The dictionary of orphans -/

/-- The listing that the dictionary has for the UUID. -/
def latest (known : List TerminalIdentity) (host : Option String) (items : List PtyListing) (id : PaneId) :
    Option PtyListing :=
  items.reverse.find? fun l => l.orphan known host == some id

section
variable {joins : Char → Char → Bool} {known : List TerminalIdentity} {host : Option String} {items : List PtyListing}

theorem orphans_append (l : PtyListing) :
    orphans joins known host (items ++ [l]) =
      match l.orphan known host with
      | some id => (orphans joins known host items).filter (fun q => !(q.1 == id)) ++
          [(id, ⟨l.cwd, recoveredTarget joins host l.command, none, none⟩)]
      | none => orphans joins known host items := by
  unfold orphans
  rw [List.foldl_append]
  rfl

theorem nodup_orphans : ((orphans joins known host items).map fun p => p.1).Nodup := by
  induction items using List.reverseRecOn with
  | nil => exact List.nodup_nil
  | append_singleton items l ih =>
    rw [orphans_append]
    cases l.orphan known host with
    | none => exact ih
    | some id =>
      rw [List.map_append, List.nodup_append]
      refine ⟨ih.sublist (List.filter_sublist.map _), List.nodup_singleton _, fun a ha b hb => ?_⟩
      obtain ⟨q, hq, rfl⟩ := List.mem_map.mp ha
      have hne := (List.mem_filter.mp hq).2
      rw [List.map_singleton, List.mem_singleton] at hb
      rw [hb]
      simpa using hne

end

/-- A target that stands for a VM says so to `hasPrefix`. -/
def SeparateTarget (joins : Char → Char → Bool) (target : Option String) : Prop :=
  ∀ t ∈ target, "ix:".toList <+: t.toList → (Place.vm (t.toList.drop 3)).Separate joins

theorem SeparateTarget.vm {joins : Char → Char → Bool} {name : String}
    (h : SeparateTarget joins (some ("ix:" ++ name))) :
    (Place.vm name.toList).Separate joins := by
  have ht : ("ix:" ++ name).toList = "ix:".toList ++ name.toList := String.toList_append
  have hs := h _ rfl (ht ▸ List.prefix_append _ _)
  rwa [ht] at hs

/-- It goes by the upper-case text of its UUID, and its target leads back to the daemon that listed it. -/
def PtyListing.WellNamed (joins : Char → Char → Bool) (host : Option String) (id : PaneId) (l : PtyListing) : Prop :=
  l.name = uuidString id ∧ listedBy host = some host ∧ SeparateTarget joins (recoveredTarget joins host l.command)

instance (joins : Char → Char → Bool) (target : Option String) : Decidable (SeparateTarget joins target) :=
  inferInstanceAs (Decidable (∀ t ∈ target, "ix:".toList <+: t.toList →
    boundary joins ixPrefix (t.toList.drop 3) = true))

instance (joins : Char → Char → Bool) (host : Option String) (id : PaneId) (l : PtyListing) :
    Decidable (l.WellNamed joins host id) :=
  inferInstanceAs (Decidable (_ ∧ _ ∧ _))

/-- The daemon and the name that the relay of a pane asks for. -/
def PaneView.attaches (joins : Char → Char → Bool) (p : PaneView) : Option (Option String × String) :=
  (Pane.parseTarget (String.ofList (Attach.address joins
    ⟨p.id, p.target.map String.toList, none, true, p.requiresExisting⟩))).toOption

/-- Where each pane's terminal lives. -/
def Session.homes (s : Session) : List (PaneId × Option String) := s.panes.map fun p => (p.id, p.target)

def Window.homes (w : Window) : List (List (PaneId × Option String)) := w.sessions.map Session.homes

def App.homes (a : App) : List (List (List (PaneId × Option String))) := a.windows.map Window.homes

namespace Window

end Window

/-- The session has the panes of the snapshot, each once and in its tree. -/
structure Recovers (s : Session) (panes : List (PaneId × PaneSnapshot)) : Prop where
  keys : s.keys.Perm (panes.map fun q => q.1)
  leaves : ∀ p ∈ s.panes, p.id ∈ leavesOf s.tree
  found : ∀ p ∈ s.panes, s.pane? p.id = some p
  restored : ∀ p ∈ s.panes, ∃ saved, (p.id, saved) ∈ panes ∧ p = PaneView.restored p.id (some saved)

theorem Recovers.of_shape {s s' : Session} {panes : List (PaneId × PaneSnapshot)} (h : Recovers s panes)
    (hs : s'.shape = s.shape) : Recovers s' panes := by
  obtain ⟨ref, tree, views, focused, zoomed, closing⟩ := s
  obtain ⟨ref', tree', views', focused', zoomed', closing'⟩ := s'
  injection hs with href htree hviews
  subst htree
  subst hviews
  exact ⟨h.keys, h.leaves, h.found, h.restored⟩

theorem Shaped.homes {w w' : Window} (h : Window.Shaped w w') : w'.homes = w.homes := by
  have hmap : ∀ l : List Session, l.map Session.homes = (l.map Session.shape).map Session.homes := fun l => by
    rw [List.map_map]
    rfl
  unfold Window.homes
  rw [hmap, h.sessions, ← hmap]

/-- The pane stands for a listing of `daemon`: `before` is the app when ownership was read. -/
structure Adopted (joins : Char → Char → Bool) (before after : App) (daemon : Option String) (items : List PtyListing)
    (p : PaneView) : Prop where
  listed : ∃ l ∈ items, uuidOf l.name = some p.id ∧ l.exited = false ∧ l.attached = false ∧
    p.attaches joins = some (daemon, l.name)
  unknown : ⟨p.id, daemon⟩ ∉ before.knownTerminals joins
  known : ⟨p.id, daemon⟩ ∈ after.knownTerminals joins

namespace Recovery

/-- Each listing that is adopted is well named. -/
def Spelled (joins : Char → Char → Bool) (m : Recovery) : Arrival → Prop
  | .answer host now (some items) =>
    let known := (m.app.applyPtys items host now).knownTerminals joins
    m.app.terminating = false → m.app.windows ≠ [] →
      ∀ l ∈ items, ∀ id ∈ l.orphan known host, latest known host items id = some l → l.WellNamed joins host id
  | _ => True

instance decidableSpelled (joins : Char → Char → Bool) (m : Recovery) : ∀ arrival, Decidable (m.Spelled joins arrival)
  | .op _ => isTrue trivial
  | .answer _ _ none => isTrue trivial
  | .answer host now (some items) =>
    inferInstanceAs (Decidable (m.app.terminating = false → m.app.windows ≠ [] →
      ∀ l ∈ items, ∀ id ∈ l.orphan ((m.app.applyPtys items host now).knownTerminals joins) host,
        latest ((m.app.applyPtys items host now).knownTerminals joins) host items id = some l →
          l.WellNamed joins host id))

/-! ## One answer -/

section
variable {joins : Char → Char → Bool} {before : App} {host : Option String} {items : List PtyListing}
  {panes : List (PaneId × PaneSnapshot)} {l : PtyListing} {p : PaneView}

end

/-- A daemon whose terminals are adopted has answered, and no request for it is outstanding. -/
structure Once (m : Recovery) : Prop where
  asked : m.asked.Nodup
  adopted : m.adopted.Nodup
  apart : ∀ e ∈ m.adopted, e.1 ∉ m.asked

section
variable {joins : Char → Char → Bool} {m m' : Recovery} {host : Option String} {now : Nat}

/-- The answer of a host is taken off. -/
theorem Once.answered (h : m.Once) : ({ m with asked := m.asked.erase host } : Recovery).Once :=
  ⟨h.asked.erase host, h.adopted, fun e he hin => h.apart e he (List.mem_of_mem_erase hin)⟩

theorem Once.setApp (h : m.Once) (app : App) :
    ({ m with app := app } : Recovery).Once := ⟨h.asked, h.adopted, h.apart⟩

theorem Once.adopt (h : m.Once) (hhost : host ∉ m.asked) (hfresh : ∀ e ∈ m.adopted, e.1 ≠ host)
    (daemon : Option String) {items : List PtyListing}
    (hd : orphans joins ((m.app.applyPtys items host now).knownTerminals joins) host items ≠ [] →
      (m.app.applyPtys items host now).windows ≠ [] → daemon = host) :
    (m.adopt joins host daemon now items).Once := by
  unfold Recovery.adopt
  simp only
  split
  · exact h.setApp _
  · rename_i hempty
    simp only [Bool.or_eq_true, List.isEmpty_iff, not_or] at hempty
    have hdaemon := hd hempty.1 hempty.2
    subst hdaemon
    refine ⟨h.asked, ?_, fun e he => ?_⟩
    · have hnew : ((orphans joins ((m.app.applyPtys items daemon now).knownTerminals joins) daemon items).map
          fun p => (daemon, p.1)).Nodup := by
        have hmap := @nodup_orphans joins ((m.app.applyPtys items daemon now).knownTerminals joins) daemon items
        have := hmap.map (f := fun id : PaneId => (daemon, id)) fun a b hab => (Prod.mk.inj hab).2
        rwa [List.map_map] at this
      rw [List.nodup_append]
      refine ⟨h.adopted, hnew, fun e he f hf heq => ?_⟩
      obtain ⟨q, -, rfl⟩ := List.mem_map.mp hf
      exact hfresh e he (congrArg Prod.fst heq)
    · rcases List.mem_append.mp he with he | he
      · exact h.apart e he
      · obtain ⟨q, -, rfl⟩ := List.mem_map.mp he
        exact hhost

end

/-- The app after its first launch. -/
def opened : App := (App.init.apply (.newWindow 0 1)).sweep

/-- Two daemons answer, and what the first one's answer added is moved to a window of its own
between. Of the listings two are orphans. -/
def late : List Arrival :=
  [.answer (some "devbox") 5 (some [
      ⟨"00000000-0000-0000-0000-0000000000AB", ["zsh"], false, false, some "/src"⟩,
      ⟨"00000000-0000-0000-0000-0000000000AC", ["zsh"], true, false, none⟩,
      ⟨"00000000-0000-0000-0000-0000000000AD", ["zsh"], false, true, none⟩,
      ⟨"work", ["zsh"], false, false, none⟩]),
    .op (.window 0 (.selectSession 1)), .op (.moveSessionToNewWindow 0),
    .answer none 6 (some [
      ⟨"00000000-0000-0000-0000-000000000001", ["zsh"], false, false, none⟩,
      ⟨"00000000-0000-0000-0000-0000000000CD", ["/opt/homebrew/bin/ix", "shell", "dev box"], false, false, none⟩])]

end Recovery

end Mux.Tiling
