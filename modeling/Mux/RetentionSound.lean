import Mux.RetentionOps

/-!
# The daemon's deadline is respected

As long as the app's clock is not ahead of the daemon's, what the app's clock calls expired
is expired for the daemon. Each step then carries the histories along, up to what is expired,
reopened or exited; the reply to a close adds its pane, once and last.
-/

namespace Mux.Tiling

open Lib

/-! ## Leases and histories -/

def Key.pane (k : Key) : PaneId × Option String := (k.1, k.2.1)

def Lease.key (l : Lease) : Key := (l.id, l.host, l.deadline)

def Lease.pane (l : Lease) : PaneId × Option String := (l.id, l.host)

theorem Lease.on_iff {l : Lease} {id : PaneId} {host : Option String} :
    l.on id host = true ↔ l.pane = (id, host) := by
  unfold Lease.on Lease.pane
  rw [Bool.and_eq_true, beq_iff_eq, beq_iff_eq, Prod.mk.injEq]

namespace Retention

def leased (leases : List Lease) (k : PaneId × Option String) : Bool := leases.any fun l => l.on k.1 k.2

theorem leased_iff {leases : List Lease} {k : PaneId × Option String} :
    leased leases k = true ↔ k ∈ leases.map Lease.pane := by
  unfold leased
  rw [List.any_eq_true, List.mem_map]
  exact exists_congr fun l => and_congr_right fun _ => Lease.on_iff

/-- What was closed is in a history, as long as its lease runs; what a history says of a lease is
its deadline; and a history has the leases in the order they were granted. -/
structure Inv (offset : Option String → Int) (s : Retention) : Prop where
  app : s.app.Inv
  named : s.app.Named
  near : ∀ l ∈ s.leases, offset l.host ≤ 0
  present : ∀ l ∈ s.leases, l.held = true → s.daemonNow offset l.host < l.deadline →
    ∃ p ∈ s.app.histories, p.1 = l.window ∧ l.key ∈ History.keys p.2
  agree : ∀ l ∈ s.leases, ∀ p ∈ s.app.histories, ∀ k ∈ History.keys p.2, Key.pane k = l.pane → k.2.2 = l.deadline
  order : ∀ p ∈ s.app.histories,
    (((History.keys p.2).map Key.pane).filter (leased s.leases)).Sublist (s.leases.map Lease.pane)

variable {offset : Option String → Int}

/-- Past the deadline by the app's clock is past it by the daemon's. -/
theorem Inv.expired {s : Retention} (hi : s.Inv offset) {l : Lease} (hl : l ∈ s.leases)
    (hlive : s.daemonNow offset l.host < l.deadline) : s.now < l.deadline := by
  have := hi.near l hl
  unfold daemonNow at hlive
  omega

theorem mem_releaseIf {s : Retention} {p : Lease → Bool} {l' : Lease} (h : l' ∈ s.releaseIf p) :
    ∃ l ∈ s.leases, l'.window = l.window ∧ l'.key = l.key ∧ l'.pane = l.pane ∧
      (l'.held = true → l.held = true ∧ p l = false) := by
  obtain ⟨l, hl, rfl⟩ := List.mem_map.mp h
  refine ⟨l, hl, ?_⟩
  split
  · exact ⟨rfl, rfl, rfl, fun hh => by cases hh⟩
  · rename_i hp
    exact ⟨rfl, rfl, rfl, fun hh => ⟨hh, Bool.eq_false_iff.mpr hp⟩⟩

theorem pane_releaseIf (s : Retention) (p : Lease → Bool) :
    (s.releaseIf p).map Lease.pane = s.leases.map Lease.pane := by
  unfold releaseIf
  rw [List.map_map]
  apply List.map_congr_left
  intro l _
  show (if p l then l.release else l).pane = l.pane
  split <;> rfl

theorem releaseIf_false (s : Retention) : s.releaseIf (fun _ => false) = s.leases := List.map_id _

theorem leased_congr {leases leases' : List Lease} (h : leases'.map Lease.pane = leases.map Lease.pane) :
    leased leases' = leased leases := by
  funext k
  rw [Bool.eq_iff_iff, leased_iff, leased_iff, h]

/-- A step that carries the histories along and releases the leases of what it loses. -/
theorem Inv.carry {s s' : Retention} (hi : s.Inv offset) {lost : Key → Prop} {p : Lease → Bool} (ha : s'.app.Inv)
    (hc : Carries lost s.app.histories s'.app.histories) (hn : s'.app.Named) (hl : s'.leases = s.releaseIf p)
    (hnow : s.now ≤ s'.now) (hlost : ∀ l ∈ s.leases, s.now < l.deadline → lost l.key → p l = true) :
    s'.Inv offset := by
  have hpane : s'.leases.map Lease.pane = s.leases.map Lease.pane := by rw [hl, pane_releaseIf]
  have hget : ∀ l' ∈ s'.leases, ∃ l ∈ s.leases, l'.window = l.window ∧ l'.key = l.key ∧ l'.pane = l.pane ∧
      (l'.held = true → l.held = true ∧ p l = false) := fun l' hl' => mem_releaseIf (hl ▸ hl')
  refine ⟨ha, hn, fun l' hl' => ?_, fun l' hl' hheld hlive => ?_, fun l' hl' q' hq' k hk hkp => ?_, fun q' hq' => ?_⟩
  · obtain ⟨l, hl, -, hkey, -⟩ := hget l' hl'
    have hhost : l'.host = l.host := congrArg (fun k : Key => k.2.1) hkey
    exact hhost ▸ hi.near l hl
  · obtain ⟨l, hl, hwin, hkey, -, hkeep⟩ := hget l' hl'
    obtain ⟨hheld, hp⟩ := hkeep hheld
    have hhost : l'.host = l.host := congrArg (fun k : Key => k.2.1) hkey
    have hdead : l'.deadline = l.deadline := congrArg (fun k : Key => k.2.2) hkey
    have hlive : s.daemonNow offset l.host < l.deadline := by
      unfold daemonNow at hlive ⊢
      rw [hhost, hdead] at hlive
      omega
    obtain ⟨q, hq, hname, hmem⟩ := hi.present l hl hheld hlive
    have hnot : ¬ lost l.key := fun hlo => by
      rw [hlost l hl (hi.expired hl hlive) hlo] at hp
      cases hp
    obtain ⟨q', hq', hname', hmem'⟩ := hc.stay q hq l.key hmem hnot
    exact ⟨q', hq', by rw [hname', hname, hwin], hkey ▸ hmem'⟩
  · obtain ⟨l, hl, -, hkey, hpane', -⟩ := hget l' hl'
    have hdead : l'.deadline = l.deadline := congrArg (fun k : Key => k.2.2) hkey
    obtain hnil | ⟨q, hq, -, hsub⟩ := hc.old q' hq'
    · rw [hnil] at hk
      cases hk
    · rw [hdead]
      exact hi.agree l hl q hq k (hsub.subset hk) (hpane' ▸ hkp)
  · rw [leased_congr hpane, hpane]
    obtain hnil | ⟨q, hq, -, hsub⟩ := hc.old q' hq'
    · rw [hnil]
      exact List.nil_sublist _
    · exact ((hsub.map _).filter _).trans (hi.order q hq)

/-- A step that leaves the histories and the leases as they are. -/
theorem Inv.same {s s' : Retention} (hi : s.Inv offset) (ha : s'.app.Inv) (hn : s'.app.Named)
    (hh : s'.app.histories = s.app.histories) (hl : s'.leases = s.leases) (hnow : s.now ≤ s'.now) :
    s'.Inv offset := by
  have hc : Carries (fun _ => False) s.app.histories s'.app.histories := .of_perm (.of_eq hh)
  exact hi.carry ha hc hn (hl.trans s.releaseIf_false.symm) hnow fun _ _ _ hf => hf.elim

/-- A history that gets a pane it does not have, and the ones beside it. -/
structure Records (name : Nat) (key : Key) (H H' : List (Nat × History)) : Prop where
  old : ∀ p' ∈ H', ∃ p ∈ H, p.1 = p'.1 ∧ (History.keys p'.2 = History.keys p.2 ∨
    History.keys p'.2 = History.keys p.2 ++ [key])
  stay : ∀ p ∈ H, ∃ p' ∈ H', p'.1 = p.1 ∧ (History.keys p.2).Sublist (History.keys p'.2)
  new : ∃ p' ∈ H', p'.1 = name ∧ key ∈ History.keys p'.2

theorem Records.of_onWindow {a : App} {k : Nat} {w : Window} (hk : a.windows[k]? = some w) {f : Window → Window}
    {key : Key}
    (hid : (f w).id = w.id) (hkeys : History.keys (f w).closedPanes = History.keys w.closedPanes ++ [key]) :
    Records w.id key a.histories (a.onWindow k f).histories ∧
      (a.onWindow k f).histories.map Prod.fst = a.histories.map Prod.fst := by
  have hmem : w.tag ∈ a.histories := List.mem_append_left _ (List.mem_map_of_mem (List.mem_of_getElem? hk))
  have hmem' : (f w).tag ∈ (a.onWindow k f).histories := by
    refine List.mem_append_left _ (List.mem_map_of_mem (List.mem_of_getElem? (i := k) ?_))
    exact getElem?_modify_some_iff.mpr ⟨w, hk, (if_pos rfl).symm⟩
  refine ⟨⟨fun p' hp' => ?_, fun p hp => ?_, ⟨_, hmem', hid, ?_⟩⟩, ?_⟩
  · obtain hp' | hp' := List.mem_append.mp hp'
    · obtain ⟨v', hv', rfl⟩ := List.mem_map.mp hp'
      obtain ⟨j, hj⟩ := List.getElem?_of_mem hv'
      obtain ⟨v, hv, heq⟩ := getElem?_modify_some_iff.mp hj
      by_cases hkj : k = j
      · subst hkj
        rw [hk] at hv
        cases hv
        rw [if_pos rfl] at heq
        exact ⟨w.tag, hmem, heq ▸ hid.symm, .inr (heq ▸ hkeys)⟩
      · rw [if_neg hkj] at heq
        exact ⟨v.tag, List.mem_append_left _ (List.mem_map_of_mem (List.mem_of_getElem? hv)), heq ▸ rfl, .inl (heq ▸ rfl)⟩
    · exact ⟨p', List.mem_append_right _ hp', rfl, .inl rfl⟩
  · obtain hp | hp := List.mem_append.mp hp
    · obtain ⟨v, hv, rfl⟩ := List.mem_map.mp hp
      obtain ⟨j, hj⟩ := List.getElem?_of_mem hv
      by_cases hkj : k = j
      · subst hkj
        rw [hk] at hj
        cases hj
        exact ⟨(f w).tag, hmem', hid, hkeys ▸ List.sublist_append_left _ _⟩
      · refine ⟨v.tag, List.mem_append_left _ (List.mem_map_of_mem (List.mem_of_getElem? (i := j) ?_)), rfl,
          List.Sublist.refl _⟩
        exact getElem?_modify_some_iff.mpr ⟨v, hj, (if_neg hkj).symm⟩
    · exact ⟨p, List.mem_append_right _ hp, rfl, List.Sublist.refl _⟩
  · exact hkeys ▸ List.mem_append_right _ List.mem_cons_self
  · have hnames : ((a.windows.modify k f).map Window.tag).map Prod.fst = (a.windows.map Window.tag).map Prod.fst := by
      rw [List.map_map, List.map_map]
      exact (map_modify_congr (e := fun w => w) hk hid).trans (map_modify_of_eq (fun _ => rfl) k a.windows)
    unfold App.histories
    rw [List.map_append, List.map_append]
    exact congrArg (· ++ _) hnames

theorem filter_pane (leases : List Lease) (id : PaneId) (host : Option String) :
    (leases.filter fun l => !l.on id host).map Lease.pane =
      (leases.map Lease.pane).filter fun k => !decide (k = (id, host)) := by
  rw [List.filter_map]
  refine congrArg _ (List.filter_congr fun l _ => ?_)
  show (!l.on id host) = !decide (l.pane = (id, host))
  rw [Bool.not_inj_iff, Bool.eq_iff_iff, Lease.on_iff, decide_eq_true_eq]

/-- An acknowledged close. Its pane was in a session, so no history had it. -/
theorem Inv.granted {s s' : Retention} (hi : s.Inv offset) {window d : Nat} {id : PaneId} {host : Option String}
    (ha : s'.app.Inv) (hn : s'.app.Named) (hr : Records window (id, host, d) s.app.histories s'.app.histories)
    (hfresh : ∀ p ∈ s.app.histories, ∀ k ∈ History.keys p.2, k.1 ≠ id) (hnear : offset host ≤ 0)
    (hl : s'.leases = (s.leases.filter fun l => !l.on id host) ++ [⟨window, id, host, d, true⟩])
    (hnow : s'.now = s.now) : s'.Inv offset := by
  have hget : ∀ l ∈ s'.leases, (l ∈ s.leases ∧ l.pane ≠ (id, host)) ∨ l = ⟨window, id, host, d, true⟩ := fun l hmem => by
    rw [hl] at hmem
    obtain hmem | hmem := List.mem_append.mp hmem
    · obtain ⟨hmem, hon⟩ := List.mem_filter.mp hmem
      rw [Bool.not_eq_true', ← Bool.not_eq_true, Lease.on_iff] at hon
      exact .inl ⟨hmem, hon⟩
    · exact .inr (List.mem_singleton.mp hmem)
  have hpanes : s'.leases.map Lease.pane =
      (s.leases.map Lease.pane).filter (fun k => !decide (k = (id, host))) ++ [(id, host)] := by
    rw [hl, List.map_append, filter_pane]
    rfl
  have hapart : ∀ p ∈ s.app.histories, ∀ k ∈ (History.keys p.2).map Key.pane, k ≠ (id, host) := fun p hp k hk heq => by
    obtain ⟨key, hkey, rfl⟩ := List.mem_map.mp hk
    exact hfresh p hp key hkey (congrArg Prod.fst heq)
  refine ⟨ha, hn, fun l hmem => ?_, fun l hmem hheld hlive => ?_, fun l hmem p' hp' k hk hkp => ?_, fun p' hp' => ?_⟩
  · obtain ⟨hmem, -⟩ | rfl := hget l hmem
    · exact hi.near l hmem
    · exact hnear
  · obtain ⟨hmem, -⟩ | rfl := hget l hmem
    · unfold daemonNow at hlive
      rw [hnow] at hlive
      obtain ⟨p, hp, hname, hkey⟩ := hi.present l hmem hheld hlive
      obtain ⟨p', hp', hname', hsub⟩ := hr.stay p hp
      exact ⟨p', hp', hname'.trans hname, hsub.subset hkey⟩
    · exact hr.new
  · obtain ⟨p, hp, -, hkeys⟩ := hr.old p' hp'
    have hsplit : k ∈ History.keys p.2 ∨ k = (id, host, d) := by
      obtain hkeys | hkeys := hkeys
      · exact .inl (hkeys ▸ hk)
      · rw [hkeys, List.mem_append, List.mem_singleton] at hk
        exact hk
    obtain ⟨hmem, hne⟩ | rfl := hget l hmem
    · obtain hk | rfl := hsplit
      · exact hi.agree l hmem p hp k hk hkp
      · exact absurd hkp.symm hne
    · obtain hk | rfl := hsplit
      · exact absurd (congrArg Prod.fst hkp) (hfresh p hp k hk)
      · rfl
  · -- the leases of the history before, all of them other panes
    obtain ⟨p, hp, -, hkeys⟩ := hr.old p' hp'
    have hleased : ∀ k ∈ (History.keys p.2).map Key.pane, leased s'.leases k = leased s.leases k := fun k hk => by
      rw [Bool.eq_iff_iff, leased_iff, leased_iff, hpanes, List.mem_append, List.mem_filter, List.mem_singleton]
      have hne := hapart p hp k hk
      simp [hne]
    have hbefore : (((History.keys p.2).map Key.pane).filter (leased s'.leases)).Sublist
        ((s.leases.map Lease.pane).filter fun k => !decide (k = (id, host))) := by
      rw [List.filter_congr hleased]
      have hself : (((History.keys p.2).map Key.pane).filter (leased s.leases)).filter
          (fun k => !decide (k = (id, host))) = ((History.keys p.2).map Key.pane).filter (leased s.leases) :=
        List.filter_eq_self.mpr fun k hk => by
          have := hapart p hp k (List.mem_of_mem_filter hk)
          simpa using this
      rw [← hself]
      exact (hi.order p hp).filter _
    rw [hpanes]
    obtain hkeys | hkeys := hkeys
    · rw [hkeys]
      exact hbefore.trans (List.sublist_append_left _ _)
    · rw [hkeys, List.map_append, List.filter_append]
      exact hbefore.append List.filter_sublist

/-! ## One step -/

/-- A listing takes out only what is past its deadline by the app's clock. -/
theorem applyListings_follows {w : Window} (hnd : w.closedPanes.ids.Nodup) (items : List Listing)
    (host : Option String) (now : Nat) :
    Follows (fun k => k.2.2 ≤ now) w.tag (w.applyListings items host now).tag := by
  rw [Window.tag_applyListings]
  refine ⟨rfl, History.keys_sublist (Window.retire_sublist ..), fun k hk hlive => ?_⟩
  obtain ⟨e, he, rfl⟩ := History.mem_keys.mp hk
  refine History.mem_keys.mpr ⟨e, Window.mem_retire _ _ he fun x hx hsame => ?_, rfl⟩
  obtain ⟨hmem, hexp⟩ := List.mem_filter.mp hx
  rw [Bool.and_eq_true, decide_eq_true_eq] at hexp
  -- the history has the pane once, so it is the same entry
  have heq : e = x := List.inj_on_of_nodup_map hnd he hmem hsame.1
  exact hlive (heq ▸ hexp.2)

theorem Inv.listing {s : Retention} (hi : s.Inv offset) (window : Option Nat) (host : Option String)
    (items : List Listing) {s' : Retention} (h : s.step offset (.listing window host items) = some s') :
    s'.Inv offset := by
  have hfollow : ∀ w ∈ s.app.windows,
      Follows (fun k => k.2.2 ≤ s.now) w.tag (w.applyListings items host s.now).tag := fun w hw =>
    applyListings_follows (hi.app.history_once (List.mem_append_left _ (List.mem_map_of_mem hw))) items host s.now
  have hmake : ∀ l : List Window, List.Forall₂ Window.Trims s.app.windows l →
      List.Forall₂ (Follows fun k => k.2.2 ≤ s.now) (s.app.windows.map Window.tag) (l.map Window.tag) →
      (Retention.mk (s.app.setWindows l) s.now
        (s.releaseIf fun l => l.host == host && !items.any fun i => i.id == l.id)).Inv offset := by
    intro l ht hf
    obtain ⟨hc, hnames⟩ := Carries.of_follows (List.rel_append hf
      (List.forall₂_same.mpr fun p (_ : p ∈ s.app.closedWindows.map WindowSnapshot.tag) => Follows.refl _ p))
    refine hi.carry (hi.app.trims ht) hc (hi.named.same hnames (Nat.le_refl _)) rfl (Nat.le_refl _) ?_
    intro l _ hlive hle
    exact absurd hle (Nat.not_le.mpr hlive)
  obtain rfl := Option.some.inj h
  cases window with
  | none =>
    refine hmake _ ?_ ?_
    · rw [List.forall₂_map_right_iff]
      exact List.forall₂_same.mpr fun w _ => w.trims_applyListings items host s.now
    · rw [List.map_map, List.forall₂_map_left_iff, List.forall₂_map_right_iff]
      exact List.forall₂_same.mpr hfollow
  | some k =>
    refine hmake _ ?_ ?_
    · exact forall₂_modify Window.Trims.refl fun w _ => w.trims_applyListings items host s.now
    · rw [List.forall₂_map_left_iff, List.forall₂_map_right_iff]
      exact forall₂_modify (fun w => Follows.refl _ w.tag) fun w hk => hfollow w (List.mem_of_getElem? hk)

/-- What a daemon says about a pane leaves the histories alone. -/
theorem described {a : App} (ha : a.Inv) (hn : a.Named) (id : PaneId) (host cwd : Option String) :
    (a.setWindows (a.windows.map fun w => w.describe id host cwd)).Inv ∧
      (a.setWindows (a.windows.map fun w => w.describe id host cwd)).histories = a.histories ∧
        (a.setWindows (a.windows.map fun w => w.describe id host cwd)).Named := by
  have heq : (a.setWindows (a.windows.map fun w => w.describe id host cwd)).histories = a.histories := by
    show (a.windows.map _).map Window.tag ++ _ = _
    rw [List.map_map]
    exact congrArg (· ++ _) (List.map_congr_left fun w _ => w.tag_describe id host cwd)
  refine ⟨ha.trims ?_, heq, hn.same (congrArg _ heq) (Nat.le_refl _)⟩
  rw [List.forall₂_map_right_iff]
  exact List.forall₂_same.mpr fun w _ => w.trims_describe id host cwd

theorem Inv.watch {s : Retention} (hi : s.Inv offset) (host : Option String) (id : PaneId) (exited : Bool)
    (cwd : Option String) {s' : Retention} (h : s.step offset (.watch host id exited cwd) = some s') :
    s'.Inv offset := by
  obtain ⟨a, ha, rfl⟩ := Option.map_eq_some_iff.mp h
  cases exited with
  | false =>
    obtain rfl := Option.some.inj ha
    obtain ⟨h1, h2, h3⟩ := described hi.app hi.named id host cwd
    exact hi.same h1 h3 h2 rfl (Nat.le_refl _)
  | true =>
    have hinv := App.step_inv ha rfl hi.app
    obtain ⟨-, rfl⟩ := App.step_some ha
    obtain ⟨hc, hn⟩ := App.apply_carries hi.named (.exitEvent id host) (fun _ _ heq => by cases heq)
      fun _ heq => by cases heq
    obtain ⟨h1, h2, h3⟩ := described hinv ⟨hn.once, hn.lt⟩ id host cwd
    refine hi.carry h1 (h2 ▸ hc) h3 rfl (Nat.le_refl _) fun l _ _ hlost => ?_
    exact Lease.on_iff.mpr (Prod.ext hlost.1 hlost.2)

theorem leasesAfter_reply {s : Retention} {n d : Nat} {q : Request} (hq : s.app.requests[n]? = some q) :
    s.leasesAfter offset (.reply n (some d)) = s.grant offset q d := by
  simp only [leasesAfter, hq]

theorem Inv.reply {s : Retention} (hi : s.Inv offset) {n d : Nat}
    (hg : s.heeds offset (.op (.reply n (some d))) = true)
    {a : App} (ha : s.app.step (.reply n (some d)) = some a) :
    (Retention.mk a s.now (s.leasesAfter offset (.reply n (some d)))).Inv offset := by
  have hinv := App.step_inv ha rfl hi.app
  obtain ⟨-, rfl⟩ := App.step_some ha
  have hle : s.app.nextRef ≤ (s.app.reply n (some d)).nextRef + 1 := App.reply_nextRef .. ▸ Nat.le_succ _
  obtain ⟨hsame, hmiss⟩ | ⟨q, k, w, p, hq, hk, hp, hasked, hrec⟩ := App.reply_cases hi.app n d
  · -- nothing is acknowledged to a pane that is gone
    have hl : s.leasesAfter offset (.reply n (some d)) = s.leases := by
      cases hq : s.app.requests[n]? with
      | none => simp only [leasesAfter, hq]
      | some q =>
        simp only [heeds, hq, Option.all_some, hmiss q hq, Bool.false_and] at hg
        rw [leasesAfter_reply hq]
        cases hasked : s.app.asked q with
        | none => simp only [grant, hasked]
        | some b =>
          rw [hasked] at hg
          cases hg
    rw [hl]
    exact hi.same hinv (hi.named.perm (.of_eq hsame) hle) hsame rfl (Nat.le_refl _)
  · have hmem := App.pane?_mem hp
    have hin : q.pane ∈ s.app.keys := List.mem_flatMap.mpr ⟨w, List.mem_of_getElem? hk, hmem⟩
    have hfresh : ∀ p ∈ s.app.histories, q.pane ∉ History.ids p.2 := fun p hp => hi.app.key_apart hin hp
    have hfresh' : ∀ p ∈ s.app.histories, ∀ key ∈ History.keys p.2, key.1 ≠ q.pane := fun p hp key hkey heq =>
      hfresh p hp (heq ▸ History.id_mem_of_key hkey)
    have hnear : offset (daemonOf p.target) ≤ 0 := by
      simp only [heeds, hq, hasked, Option.all_some, Bool.and_eq_true, decide_eq_true_eq] at hg
      exact hg.2
    have hl : s.leasesAfter offset (.reply n (some d)) = (s.leases.filter fun l => !l.on q.pane (daemonOf p.target)) ++
        [⟨w.id, q.pane, daemonOf p.target, d, true⟩] := by
      rw [leasesAfter_reply hq]
      simp only [grant, hasked]
      refine if_neg fun hany => ?_
      obtain ⟨l, hl, hon⟩ := List.any_eq_true.mp hany
      rw [Bool.and_eq_true, Bool.and_eq_true, decide_eq_true_eq, Lease.on_iff] at hon
      obtain ⟨⟨hpane, hheld⟩, hlive⟩ := hon
      have hhost : l.host = daemonOf p.target := congrArg Prod.snd hpane
      obtain ⟨r, hr, -, hkey⟩ := hi.present l hl hheld (hhost ▸ hlive)
      exact hfresh' r hr _ hkey (congrArg Prod.fst hpane)
    have hkeys := History.keys_record (hfresh w.tag (List.mem_append_left _ (List.mem_map_of_mem
      (List.mem_of_getElem? hk)))) ⟨p.pwd, p.target, some p.fontDelta, none⟩ d
    obtain ⟨hr, hnames⟩ := Records.of_onWindow hk (f := fun w => w.setClosed (w.closedPanes.record q.pane
      ⟨p.pwd, p.target, some p.fontDelta, none⟩ d)) rfl hkeys
    rw [← hrec] at hr hnames
    exact hi.granted hinv (hi.named.same hnames hle) hr hfresh' hnear hl rfl

/-- Operations of the app. -/
theorem Inv.op {s : Retention} (hi : s.Inv offset) {op : Op} (hg : s.heeds offset (.op op) = true)
    (hnew : s.app.bringsNew op = true) {s' : Retention} (h : s.step offset (.op op) = some s') : s'.Inv offset := by
  simp only [step] at h
  split at h
  case isFalse => cases h
  rename_i hallow
  obtain ⟨a, ha, rfl⟩ := Option.map_eq_some_iff.mp h
  have hinv := App.step_inv ha hnew hi.app
  -- all but three kinds of operations leave histories and leases alone
  have hquiet : s.leasesAfter offset op = s.leases → (∀ key, ¬ s.app.lostBy op key) → (∀ n d, op ≠ .reply n (some d)) →
      (∀ saved, op ≠ .launch saved) → (Retention.mk a s.now (s.leasesAfter offset op)).Inv offset := by
    intro hl hlost hreply hlaunch
    obtain ⟨-, rfl⟩ := App.step_some ha
    obtain ⟨hc, hn⟩ := App.apply_carries hi.named op hreply hlaunch
    refine hi.carry hinv hc ⟨hn.once, hn.lt⟩ (hl.trans s.releaseIf_false.symm) (Nat.le_refl _) fun l _ _ hlo => ?_
    exact absurd hlo (hlost l.key)
  cases op with
  | window k act =>
    cases act with
    | reopenClosedTab now =>
      have hnow : now = s.now := eq_of_beq hallow
      subst hnow
      obtain ⟨-, rfl⟩ := App.step_some ha
      obtain ⟨hc, hn⟩ := App.apply_carries hi.named (.window k (.reopenClosedTab s.now))
        (fun _ _ heq => by cases heq) fun _ heq => by cases heq
      have hn' : (s.app.apply (.window k (.reopenClosedTab s.now))).sweep.Named := ⟨hn.once, hn.lt⟩
      cases hpop : (s.app.windows[k]?).bind fun w => (w.closedPanes.popLast s.now).2 with
      | none =>
        have hl : s.leasesAfter offset (.window k (.reopenClosedTab s.now)) = s.releaseIf fun _ => false := by
          simp only [leasesAfter, hpop, releaseIf_false]
        refine hi.carry hinv hc hn' hl (Nat.le_refl _) fun l hmem hlive hlost => ?_
        obtain hle | ⟨w, e, hw, he, -⟩ := hlost
        · exact absurd hle (Nat.not_le.mpr hlive)
        · rw [hw, Option.bind_some, he] at hpop
          cases hpop
      | some e =>
        have hl : s.leasesAfter offset (.window k (.reopenClosedTab s.now)) = s.releaseIf fun l => l.on e.id e.host := by
          simp only [leasesAfter, hpop]
        refine hi.carry hinv hc hn' hl (Nat.le_refl _) fun l hmem hlive hlost => ?_
        obtain hle | ⟨w, e', hw, he, hkey⟩ := hlost
        · exact absurd hle (Nat.not_le.mpr hlive)
        · rw [hw, Option.bind_some, he] at hpop
          obtain rfl := Option.some.inj hpop
          exact Lease.on_iff.mpr (congrArg Key.pane hkey).symm
    | _ => exact hquiet rfl (fun _ hf => hf) (fun _ _ heq => by cases heq) fun _ heq => by cases heq
  | reply n expiresAt =>
    cases expiresAt with
    | some d => exact hi.reply hg ha
    | none => exact hquiet rfl (fun _ hf => hf) (fun _ _ heq => by cases heq) fun _ heq => by cases heq
  | exitEvent id host => cases hallow
  | launch saved => cases hallow
  | _ => exact hquiet rfl (fun _ hf => hf) (fun _ _ heq => by cases heq) fun _ heq => by cases heq

theorem step_inv {s s' : Retention} {e : Event} (hg : s.heeds offset e = true) (hnew : s.bringsNew e = true)
    (h : s.step offset e = some s') (hi : s.Inv offset) : s'.Inv offset := by
  cases e with
  | tick n =>
    obtain rfl := Option.some.inj h
    exact hi.same hi.app hi.named rfl rfl (Nat.le_add_right _ _)
  | op op => exact hi.op hg hnew h
  | start saved =>
    simp only [step] at h
    split at h
    case isFalse => cases h
    rename_i hfirst
    obtain ⟨a, ha, rfl⟩ := Option.map_eq_some_iff.mp h
    have hempty : ({ App.init with nextRef := App.firstFree saved } : App).Inv :=
      ⟨App.init_inv.windows, App.init_inv.once, App.init_inv.refs_once, fun _ hr => absurd hr List.not_mem_nil⟩
    have hinv := App.step_inv ha hnew hempty
    obtain ⟨-, rfl⟩ := App.step_some ha
    have hn := App.start_named saved hfirst.2.2
    have hnil : ∀ l ∈ s.leases, False := fun l hl => by
      rw [hfirst.2.1] at hl
      cases hl
    refine ⟨hinv, ⟨hn.once, hn.lt⟩, fun l hl => (hnil l hl).elim, fun l hl => (hnil l hl).elim,
      fun l hl => (hnil l hl).elim, fun p _ => ?_⟩
    have hnone : ((History.keys p.2).map Key.pane).filter (leased s.leases) = [] := by
      rw [hfirst.2.1]
      exact List.filter_eq_nil_iff.mpr fun _ _ hf => by cases hf
    show (List.filter (leased s.leases) _).Sublist _
    rw [hnone]
    exact List.nil_sublist _
  | restart =>
    obtain ⟨a, ha, rfl⟩ := Option.map_eq_some_iff.mp h
    have hinv := App.step_inv ha hi.app.bringsNew_saved hi.app
    obtain ⟨-, rfl⟩ := App.step_some ha
    obtain ⟨hc, hn⟩ := App.restart_carries hi.app hi.named fun _ => False
    exact hi.carry hinv hc ⟨hn.once, hn.lt⟩ s.releaseIf_false.symm (Nat.le_refl _) fun _ _ _ hf => hf.elim
  | listing window host items => exact hi.listing window host items h
  | watch host id exited cwd => exact hi.watch host id exited cwd h

theorem init_inv : init.Inv offset := by
  refine ⟨App.init_inv, ⟨List.nodup_nil, fun _ hn => absurd hn List.not_mem_nil⟩, ?_, ?_, ?_, ?_⟩
  · exact fun _ hl => absurd hl List.not_mem_nil
  · exact fun _ hl => absurd hl List.not_mem_nil
  · exact fun _ hl => absurd hl List.not_mem_nil
  · exact fun _ hp => absurd hp List.not_mem_nil

/-! ## Every run -/

theorem Inv.respects {s : Retention} (hi : s.Inv offset) : s.Respects offset := by
  have hmem : ∀ w ∈ s.app.windows, w.tag ∈ s.app.histories := fun w hw =>
    List.mem_append_left _ (List.mem_map_of_mem hw)
  have hoffers : ∀ w : Window, (w.offers s.now).map (fun e => (e.id, e.host)) =
      ((w.closedPanes.live s.now).keys.map Key.pane).reverse := fun w => by
    rw [Window.offers_eq, List.map_reverse, History.keys, List.map_map]
    rfl
  have hlive : ∀ w : Window, ((w.closedPanes.live s.now).keys.map Key.pane).Sublist
      ((History.keys w.tag.2).map Key.pane) := fun w => (History.keys_sublist List.filter_sublist).map _
  refine ⟨fun l hl hheld hrun => ?_, ?_, fun w hw => ?_, fun w hw => ?_, fun l hl hrun w hw items hk => ?_,
    fun l hl w hw e he hid hhost => ?_⟩
  · obtain ⟨p, hp, hname, hkey⟩ := hi.present l hl hheld hrun
    obtain ⟨e, he, hek⟩ := History.mem_keys.mp hkey
    have hnow := hi.expired hl hrun
    obtain hp | hp := List.mem_append.mp hp
    · obtain ⟨w, hw, rfl⟩ := List.mem_map.mp hp
      refine .inl ⟨w, hw, hname, e, ?_, hek⟩
      have hdead : e.deadline = l.deadline := congrArg (fun k : Key => k.2.2) hek
      rw [Window.offers_eq, List.mem_reverse, History.mem_live, hdead]
      exact ⟨he, hnow⟩
    · obtain ⟨w, hw, rfl⟩ := List.mem_map.mp hp
      exact .inr ⟨w, hw, hname, e, he, hek⟩
  · have := hi.named.once
    unfold App.histories at this
    rw [List.map_append, List.map_map, List.map_map] at this
    exact this
  · rw [hoffers, List.filter_reverse]
    exact List.reverse_sublist.mpr (((hlive w).filter _).trans (hi.order _ (hmem w hw)))
  · rw [hoffers, List.nodup_reverse]
    have hids := hi.app.history_once (hmem w hw)
    have hpanes : ((History.keys w.tag.2).map Key.pane).map Prod.fst = History.ids w.tag.2 := by
      unfold History.keys History.ids
      rw [List.map_map, List.map_map]
      rfl
    rw [← hpanes] at hids
    exact (hlive w).nodup hids.of_map
  · obtain ⟨e, he, hid, hhost, hle⟩ := Window.kills_expired hk
    have hdead := hi.agree l hl w.tag (hmem w hw) e.key (List.mem_map_of_mem he) (Prod.ext hid hhost)
    have hnow := hi.expired hl hrun
    have hdead : e.deadline = l.deadline := hdead
    omega
  · have htag : w.tag ∈ s.app.histories := by
      rw [← App.saved_tags]
      exact List.mem_map_of_mem hw
    exact Nat.le_of_eq (hi.agree l hl w.tag htag e.key (List.mem_map_of_mem he) (Prod.ext hid hhost))

theorem lease_respected {run : List Event} {s : Retention} (h : exec (step offset) init run = some s)
    (hm : Meets (step offset) (fun s e => s.heeds offset e = true) init run)
    (hnew : Meets (step offset) (fun s e => s.bringsNew e = true) init run) : s.Respects offset :=
  (exec_inv_of_meets (fun _ _ _ hg hs hi => step_inv hg.1 hg.2 hs hi) (hm.and hnew) h init_inv).respects

/-- The app's clock is `n` ahead of the one on `spark`. -/
def sparkOffset (n : Int) (host : Option String) : Int := if host = some "spark" then n else 0

/-- Two panes on `spark` are closed there; the app is listed to, restarted, and reopens one. -/
def closeTwo : List Event :=
  [.op (.newWindow 0 1), .tick 1000, .op (.window 0 (.newSession 2 (.explicit (some "spark")))),
    .op (.window 0 (.newSession 3 (.explicit (some "spark")))), .op (.closePane 0 2), .op (.closePane 0 3),
    .op (.reply 0 (some 1065)), .op (.reply 0 (some 1065)), .tick 50,
    .listing none (some "spark") [⟨2, false, none⟩, ⟨3, false, none⟩], .restart,
    .watch (some "spark") 2 false (some "/src"), .op (.window 0 (.reopenClosedTab 1050))]

theorem lease_respected_closeTwo : ∃ s, exec (step (sparkOffset (-5))) init closeTwo = some s ∧
    s.Respects (sparkOffset (-5)) ∧ (⟨0, 2, some "spark", 1065, true⟩ : Lease) ∈ s.leases := by
  have hs : exec (step (sparkOffset (-5))) init closeTwo =
      some ((exec (step (sparkOffset (-5))) init closeTwo).get (by decide +kernel)) := (Option.some_get _).symm
  exact ⟨_, hs, lease_respected hs (by decide +kernel) (by decide +kernel), by decide +kernel⟩

/-- One of two panes on `spark` is closed, and 56 of its 60 seconds pass. -/
def closeOne : List Event :=
  [.op (.newWindow 0 1), .tick 1000, .op (.window 0 (.newSession 2 (.explicit (some "spark")))),
    .op (.window 0 (.newSession 3 (.explicit (some "spark")))), .op (.closePane 0 2), .op (.reply 0 (some 1055)), .tick 56]

theorem running_lease_killed : ¬ ∀ (offset : Option String → Int) (run : List Event) (s : Retention),
    exec (step offset) init run = some s → s.Respects offset := by
  intro h
  have hs : exec (step (sparkOffset 5)) init closeOne =
      some ((exec (step (sparkOffset 5)) init closeOne).get (by decide +kernel)) := (Option.some_get _).symm
  have hr := h _ _ _ hs
  have hspared := fun l hl hrun w hw => hr.spared l hl hrun w hw [⟨2, false, none⟩, ⟨3, true, none⟩]
  exact absurd hspared (by decide +kernel)

end Retention

end Mux.Tiling
