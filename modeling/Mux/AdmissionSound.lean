import Mux.Admission
import Mux.RequestSound
import Mux.TableSound
import Mux.TokenSound

/-!
# What admission is for

A connection that is not admitted changes nothing, so a run of a daemon is the run of its admitted
connections; and whatever a daemon does to its sessions or sends on to another host, an admitted request asked
for. A host that a request is relayed to serves it as the daemon that relayed it would have.
-/

namespace Mux.Admission

open Lib Lib.Postcard Request
open Tokens (Digest)

section
variable {sha : Text → Digest}

/-! ## Admitted requests -/

/-- A request of a version this daemon speaks that the listener's policy lets in. -/
def Admitted (sha : Text → Digest) (p : Policy) (buf : Lib.Bytes) (r : OpenRequest) : Prop :=
  handshake buf = .ok (.ok r) ∧ p.rules.admits sha (credentials r) = .ok ()

def admitted (sha : Text → Digest) : Label → Bool
  | .connection p buf _ _ =>
    match handshake buf with
    | .ok (.ok r) => (p.rules.admits sha (credentials r)).isOk
    | _ => false
  | .task _ => true

theorem admitted_connection {p : Policy} {buf : Lib.Bytes} {spawned : Except String (PtyId × Pid)} {generation : Generation} :
    admitted sha (.connection p buf spawned generation) = true ↔ ∃ r, Admitted sha p buf r := by
  constructor
  · intro h
    simp only [admitted] at h
    split at h
    · rename_i r hr
      cases ha : p.rules.admits sha (credentials r) with
      | error e => rw [ha] at h; cases h
      | ok u => exact ⟨r, hr, ha⟩
    · cases h
  · rintro ⟨r, hr, ha⟩
    unfold admitted
    simp only [hr, ha]
    rfl

/-- Over the network only a request with an enrolled token, and without a target, is admitted. -/
theorem admits_iff {p : Policy} {r : OpenRequest} : p.rules.admits sha (credentials r) = .ok () ↔
    p.isLocal = true ∨ r.target = none ∧ ∃ token digests, r.token = some token ∧ sha token.1.toList ∈ digests ∧
      (p = .remote digests ∨ ∃ c, p = .remoteConnection digests c) := by
  have hremote : ∀ digests : List Digest, Tokens.admitRemote sha digests (credentials r) = .ok () ↔
      r.target = none ∧ ∃ token, r.token = some token ∧ sha token.1.toList ∈ digests := by
    intro digests
    rw [Tokens.admitRemote_ok]
    cases ht : r.token with
    | none => simp [credentials, ht]
    | some token => simp [credentials, ht]
  cases p with
  | «local» => simp [Policy.rules, Tokens.Policy.admits, Policy.isLocal]
  | remote digests =>
    simp only [Policy.rules, Tokens.Policy.admits, Policy.isLocal, hremote]
    simp
  | remoteConnection digests c =>
    simp only [Policy.rules, Tokens.Policy.admits, Policy.isLocal, hremote]
    simp

/-! ## The arms -/

/-- The arm of a request that was not admitted only answers. -/
theorem dispatch_error {p : Policy} {h : Handshake} (hn : ∀ r, h = .ok r → p.rules.admits sha (credentials r) ≠ .ok ()) :
    (∃ version, dispatch sha p h = .mismatch version) ∨ ∃ e, dispatch sha p h = .rejected e := by
  cases h with
  | error version => exact Or.inl ⟨version, rfl⟩
  | ok r =>
    cases ha : p.rules.admits sha (credentials r) with
    | ok u => exact absurd ha (hn r rfl)
    | error e => exact Or.inr ⟨e, by simp only [dispatch, ha]⟩

/-- An admitted request is relayed when it came in by the socket and names a host, and served otherwise. -/
theorem dispatch_admitted {p : Policy} {r : OpenRequest} (h : p.rules.admits sha (credentials r) = .ok ()) :
    (∃ host, r.target = some host ∧ p.isLocal = true ∧ dispatch sha p (.ok r) = .relay host r) ∨
      (r.target = none ∧ dispatch sha p (.ok r) = serve r p.connection) := by
  have hcases := admits_iff.mp h
  cases ht : r.target with
  | none => exact Or.inr ⟨rfl, by simp only [dispatch, h, ht]⟩
  | some host =>
    rcases hcases with hl | ⟨hn, _⟩
    · exact Or.inl ⟨host, rfl, hl, by simp only [dispatch, h, ht, hl]⟩
    · rw [ht] at hn
      cases hn

theorem dispatch_relay {p : Policy} {h : Handshake} {host : Str} {r : OpenRequest} (hd : dispatch sha p h = .relay host r) :
    h = .ok r ∧ p.isLocal = true ∧ r.target = some host := by
  cases h with
  | error version => cases hd
  | ok q =>
    cases ha : p.rules.admits sha (credentials q) with
    | error e => simp only [dispatch, ha] at hd; cases hd
    | ok u =>
      rcases dispatch_admitted ha with ⟨host', ht, hl, heq⟩ | ⟨_, heq⟩
      · rw [heq] at hd
        cases hd
        exact ⟨rfl, hl, ht⟩
      · rw [heq] at hd
        unfold serve at hd
        split at hd <;> first | (split at hd <;> cases hd) | cases hd

variable {T : Type} [Ghostty T]

/-- A connection that is not admitted leaves the daemon as it was. -/
theorem step_unadmitted {s s' : Daemon T} {a : Label} (hn : admitted sha a = false) (h : step sha s a = some s') :
    s' = s := by
  cases a with
  | task a => cases hn
  | connection p buf spawned generation =>
    rw [Bool.eq_false_iff] at hn
    cases hb : handshake buf with
    | error e =>
      simp only [step, hb, Option.some.injEq] at h
      exact h.symm
    | ok hs =>
      simp only [step, hb, Option.some.injEq] at h
      have herr : ∀ r, hs = .ok r → p.rules.admits sha (credentials r) ≠ .ok () := by
        rintro r rfl ha
        exact hn (admitted_connection.mpr ⟨r, hb, ha⟩)
      rcases dispatch_error herr with ⟨version, hd⟩ | ⟨e, hd⟩ <;> rw [hd] at h <;> exact h.symm

/-- The connections that are not admitted can be left out of a run. -/
theorem exec_admitted {as : List Label} {s t : Daemon T} (h : exec (step sha) s as = some t) :
    exec (step sha) s (as.filter (admitted sha)) = some t := by
  induction as generalizing s with
  | nil => exact h
  | cons a as ih =>
    obtain ⟨s', ha, h⟩ := exec_cons_some.mp h
    cases had : admitted sha a with
    | true =>
      rw [List.filter_cons_of_pos had]
      exact exec_cons_some.mpr ⟨s', ha, ih h⟩
    | false =>
      rw [List.filter_cons_of_neg (by rw [had]; exact Bool.false_ne_true)]
      rw [step_unadmitted had ha] at h
      exact ih h

/-! ## Where a session and its fate come from -/

/-- A request among the labels asked for this, and was admitted. -/
def Asked (sha : Text → Digest) (as : List Label) (G : OpenRequest → Prop) : Prop :=
  ∃ p buf spawned generation r, Label.connection p buf spawned generation ∈ as ∧ Admitted sha p buf r ∧ G r

theorem Asked.mono {as bs : List Label} {G : OpenRequest → Prop} (h : Asked sha as G) : Asked sha (as ++ bs) G := by
  obtain ⟨p, buf, spawned, generation, r, hm, ha, hG⟩ := h
  exact ⟨p, buf, spawned, generation, r, List.mem_append_left _ hm, ha, hG⟩

/-- An open of this name for this command. -/
def Opens (name : String) (command : List String) (r : OpenRequest) : Prop :=
  ∃ n cwd c cwdFrom, r.mode = .openTerm n cwd c cwdFrom ∧ r.target = none ∧ n.1 = name ∧ c.1.map Subtype.val = command

def Kills (name : String) (r : OpenRequest) : Prop := ∃ n, r.mode = .kill n ∧ r.target = none ∧ n.1 = name

def Closes (name : String) (r : OpenRequest) : Prop := ∃ n, r.mode = .close n ∧ r.target = none ∧ n.1 = name

/-- The session came from a predecessor. -/
def HandedOver (as : List Label) (name : String) (child : Pid) : Prop :=
  ∃ incoming i, Label.task (.adoptMany incoming) ∈ as ∧ i ∈ incoming ∧ i.pty.name = name ∧ i.pty.childPid = child

/-- Every session, kill, close deadline and relayed request of a daemon goes back to a label that may cause it. -/
structure Justified (sha : Text → Digest) (as : List Label) (s : Daemon T) : Prop where
  started : ∀ (r : Manager.Ref) (c : Manager.Cell T), s.manager.cells[r]? = some c →
    Asked sha as (Opens c.session.name c.session.command) ∨
    HandedOver as c.session.name c.session.child
  killed : ∀ (r : Manager.Ref) (c : Manager.Cell T), s.manager.cells[r]? = some c → c.removal = some .killed →
    Asked sha as (Kills c.session.name)
  closed : ∀ (r : Manager.Ref) (c : Manager.Cell T), s.manager.cells[r]? = some c → c.session.closeDeadline ≠ none →
    Asked sha as (Closes c.session.name) ∨ HandedOver as c.session.name c.session.child
  relayed : ∀ host r, (host, r) ∈ s.relayed → Asked sha as fun q => q = r ∧ r.target = some host

/-- What an arm does to the table is what its request says. -/
theorem arm_label {p : Policy} {buf : Lib.Bytes} {h : Handshake} {spawned : Except String (PtyId × Pid)}
    {generation : Generation} {a : Manager.Label} (hb : handshake buf = .ok h)
    (ha : (dispatch sha p h).label spawned generation = some a) :
    ∃ r, Admitted sha p buf r ∧ r.target = none ∧ (serve r p.connection).label spawned generation = some a := by
  cases h with
  | error version => cases ha
  | ok r =>
    cases had : p.rules.admits sha (credentials r) with
    | error e => simp only [dispatch, had] at ha; cases ha
    | ok u =>
      rcases dispatch_admitted had with ⟨host, _, _, heq⟩ | ⟨ht, heq⟩
      · rw [heq] at ha
        cases ha
      · exact ⟨r, ⟨hb, had⟩, ht, heq ▸ ha⟩

theorem serve_label {r : OpenRequest} {c : Option Nat} {spawned : Except String (PtyId × Pid)} {generation : Generation}
    {a : Manager.Label} (ht : r.target = none) (ha : (serve r c).label spawned generation = some a) :
    (∃ name command, a = .openTerm name command r.cols r.rows spawned generation ∧ Opens name command r) ∨
      (∃ name, a = .kill name ∧ Kills name r) ∨ (∃ name, a = .closeFor name 60000 ∧ Closes name r) ∨
      (∃ name, a = .reopen name) ∨ ∃ name, a = .get name := by
  unfold serve at ha
  cases hm : r.mode with
  | openTerm name cwd command cwdFrom =>
    rw [hm] at ha
    cases ha
    exact Or.inl ⟨_, _, rfl, name, cwd, command, cwdFrom, hm, ht, rfl, rfl⟩
  | kill name =>
    rw [hm] at ha
    cases ha
    exact Or.inr (Or.inl ⟨_, rfl, name, hm, ht, rfl⟩)
  | close name =>
    rw [hm] at ha
    cases ha
    exact Or.inr (Or.inr (Or.inl ⟨_, rfl, name, hm, ht, rfl⟩))
  | reopen name =>
    rw [hm] at ha
    cases ha
    exact Or.inr (Or.inr (Or.inr (Or.inl ⟨_, rfl⟩)))
  | attach name =>
    rw [hm] at ha
    cases ha
    exact Or.inr (Or.inr (Or.inr (Or.inr ⟨_, rfl⟩)))
  | audio name | audioAcquire request | audioProvider =>
    rw [hm] at ha
    cases c <;> cases ha
  | list | watch | inspect name | observe name | input name i | connect path =>
    rw [hm] at ha
    cases ha

omit [Ghostty T] in
theorem killed_of_orElse {o : Option Manager.Removal} {why : Manager.Removal} (hne : why ≠ .killed)
    (h : (o <|> some why) = some .killed) : o = some .killed := by
  cases o with
  | none => exact absurd (Option.some.inj h) hne
  | some _ => exact h

/-- Only a kill marks a session as killed, and only a close gives it a deadline. -/
theorem effect_fate {m : Manager.State T} {a : Manager.Label} {r : Manager.Ref} {f : Manager.Cell T → Manager.Cell T}
    {c : Manager.Cell T} (he : Manager.Effect m a r f) :
    ((f c).removal = some .killed → c.removal = some .killed ∨ ∃ name, a = .kill name ∧ m.ptys.get name = some r) ∧
    ((f c).session.closeDeadline ≠ none → c.session.closeDeadline ≠ none ∨
      ∃ name retention, a = .closeFor name retention ∧ m.ptys.get name = some r) := by
  cases he with
  | kill hr => exact ⟨fun _ => Or.inr ⟨_, rfl, hr⟩, Or.inl⟩
  | expire ht hd => exact ⟨fun h => Or.inl (killed_of_orElse (by decide) h), Or.inl⟩
  | close hr hc => exact ⟨Or.inl, fun _ => Or.inr ⟨_, _, rfl, hr⟩⟩
  | reopen hr hlate => exact ⟨Or.inl, fun h => absurd rfl h⟩
  | reapRemove hc hm => exact ⟨fun h => Or.inl (killed_of_orElse (by decide) h), Or.inl⟩
  | _ => exact ⟨Or.inl, Or.inl⟩

/-- A step of the table that starts or takes over a session. -/
inductive Founds : Manager.Label → Manager.Cell T → Prop where
  | openTerm {c : Manager.Cell T} {name : String} {command : List String} {cols rows : UInt16}
      {spawned : Except String (PtyId × Pid)} {generation : Generation} (hname : c.session.name = name)
      (hcommand : c.session.command = command) (hremoval : c.removal = none) (hdeadline : c.session.closeDeadline = none) :
      Founds (.openTerm name command cols rows spawned generation) c
  | adoptMany {c : Manager.Cell T} {incoming : List Manager.Incoming} {i : Manager.Incoming} (hi : i ∈ incoming)
      (hname : i.pty.name = c.session.name) (hchild : i.pty.childPid = c.session.child) (hremoval : c.removal = none) :
      Founds (.adoptMany incoming) c

/-- A step that changes nothing about the fate of a session it finds. -/
structure Kept (a : Manager.Label) (c c' : Manager.Cell T) : Prop where
  ident : Manager.ident c'.session = Manager.ident c.session
  killed : c'.removal = some .killed → c.removal = some .killed ∨ a = .kill c.session.name
  closed : c'.session.closeDeadline ≠ none → c.session.closeDeadline ≠ none ∨
    ∃ retention, a = .closeFor c.session.name retention

omit [Ghostty T] in
theorem Kept.refl (a : Manager.Label) (c : Manager.Cell T) : Kept a c c := ⟨rfl, Or.inl, Or.inl⟩

theorem cell_of_step {m m' : Manager.State T} {a : Manager.Label} {r : Manager.Ref} {c' : Manager.Cell T}
    (hi : Manager.TableInv m) (hs : Manager.step m a = some m') (hc' : m'.cells[r]? = some c') :
    (∃ c, m.cells[r]? = some c ∧ Kept a c c') ∨ Founds a c' := by
  by_cases hdraws : a.draws = []
  · left
    obtain ⟨c, hc⟩ := Manager.old_of_step hs hdraws hc'
    refine ⟨c, hc, ?_⟩
    rcases Manager.cells_of_step hs with ⟨hcells, _⟩ | ⟨q, f, he, hcells⟩ | ⟨new, hcells, hgens, _⟩
    · rw [hcells, hc] at hc'
      cases hc'
      exact Kept.refl a _
    · rw [hcells] at hc'
      by_cases hq : r = q
      · subst hq
        rw [Manager.modify_self hc] at hc'
        cases hc'
        have named : ∀ name, m.ptys.get name = some r → name = c.session.name := by
          intro name hname
          obtain ⟨d, hd, hk, _⟩ := hi.key name r hname
          rw [hc] at hd
          cases hd
          exact hk.symm
        obtain ⟨hkill, hclose⟩ := effect_fate (c := c) he
        refine ⟨(he.evolves hc).ident, ?_, ?_⟩
        · intro hk
          rcases hkill hk with h | ⟨name, rfl, hname⟩
          · exact Or.inl h
          · exact Or.inr (by rw [named name hname])
        · intro hd
          rcases hclose hd with h | ⟨name, retention, rfl, hname⟩
          · exact Or.inl h
          · exact Or.inr ⟨retention, by rw [named name hname]⟩
      · rw [Manager.modify_other hq, hc] at hc'
        cases hc'
        exact Kept.refl a _
    · have hnew : new = [] := by
        rw [hdraws, List.reverse_nil, List.map_eq_nil_iff] at hgens
        exact hgens
      rw [hcells, hnew, List.map_nil, List.append_nil, hc] at hc'
      cases hc'
      exact Kept.refl a _
  · cases a with
    | openTerm name command cols rows spawned generation =>
      cases hs
      rcases Manager.openTerm_cases m name command cols rows spawned generation with
        heq | ⟨terminal, master, child, _, _, _, heq⟩
      · rw [heq] at hc'
        exact Or.inl ⟨c', hc', Kept.refl _ _⟩
      · rw [heq] at hc'
        rcases Manager.install_cell hc' with hc | ⟨rfl, rfl⟩
        · exact Or.inl ⟨c', hc, Kept.refl _ _⟩
        · exact Or.inr (.openTerm rfl rfl rfl rfl)
    | adoptMany incoming =>
      cases hs
      rcases Manager.adoptMany_cases m incoming with ⟨e, heq⟩ | ⟨staged, hstage, _, _, heq⟩
      · rw [heq] at hc'
        exact Or.inl ⟨c', hc', Kept.refl _ _⟩
      · rw [heq] at hc'
        rw [Manager.extend_cells] at hc'
        by_cases hr : r < m.cells.length
        · rw [List.getElem?_append_left hr] at hc'
          exact Or.inl ⟨c', hc', Kept.refl _ _⟩
        · rw [List.getElem?_append_right (Nat.le_of_not_lt hr)] at hc'
          obtain ⟨e, he, rfl⟩ := List.mem_map.mp (List.mem_of_getElem? hc')
          rcases Manager.stage_get hstage (Manager.Table.mem_entries.mp he) with hk | ⟨i, hi, terminal, hname, hp⟩
          · cases hk
          · refine Or.inr (.adoptMany hi ?_ ?_ rfl)
            · rw [hp]
              rfl
            · rw [hp]
              rfl
    | _ => exact absurd rfl hdraws

/-! ## Runs -/

omit [Ghostty T] in
theorem HandedOver.mono {as bs : List Label} {name : String} {child : Pid} (h : HandedOver as name child) :
    HandedOver (as ++ bs) name child := by
  obtain ⟨incoming, i, hm, hi⟩ := h
  exact ⟨incoming, i, List.mem_append_left _ hm, hi⟩

/-- The label that took this step of the table may take it. -/
structure Allowed (sha : Text → Digest) (l : Label) (a : Manager.Label) : Prop where
  openTerm : ∀ name command cols rows spawned generation, a = .openTerm name command cols rows spawned generation →
    Asked sha [l] (Opens name command)
  kill : ∀ name, a = .kill name → Asked sha [l] (Kills name)
  close : ∀ name retention, a = .closeFor name retention → Asked sha [l] (Closes name)
  adopt : ∀ incoming, a = .adoptMany incoming → l = .task a

theorem allowed_task {a : Manager.Label} (hb : background a = true) : Allowed sha (.task a) a where
  openTerm := by
    intro name command cols rows spawned generation h
    rw [h] at hb
    cases hb
  kill := by
    intro name h
    rw [h] at hb
    cases hb
  close := by
    intro name retention h
    rw [h] at hb
    cases hb
  adopt := fun _ _ => rfl

theorem allowed_connection {p : Policy} {buf : Lib.Bytes} {spawned : Except String (PtyId × Pid)}
    {generation : Generation} {h : Handshake} {a : Manager.Label} (hb : handshake buf = .ok h)
    (ha : (dispatch sha p h).label spawned generation = some a) :
    Allowed sha (.connection p buf spawned generation) a := by
  obtain ⟨r, had, ht, hl⟩ := arm_label hb ha
  have asked : ∀ G : OpenRequest → Prop, G r → Asked sha [.connection p buf spawned generation] G :=
    fun G hG => ⟨p, buf, spawned, generation, r, List.mem_singleton.mpr rfl, had, hG⟩
  have hcases := serve_label ht hl
  refine ⟨?_, ?_, ?_, ?_⟩
  · intro name command cols rows spawned' generation' heq
    rcases hcases with ⟨name', command', h, hG⟩ | ⟨_, h, _⟩ | ⟨_, h, _⟩ | ⟨_, h⟩ | ⟨_, h⟩ <;> rw [heq] at h <;> cases h
    exact asked _ hG
  · intro name heq
    rcases hcases with ⟨_, _, h, _⟩ | ⟨name', h, hG⟩ | ⟨_, h, _⟩ | ⟨_, h⟩ | ⟨_, h⟩ <;> rw [heq] at h <;> cases h
    exact asked _ hG
  · intro name retention heq
    rcases hcases with ⟨_, _, h, _⟩ | ⟨_, h, _⟩ | ⟨name', h, hG⟩ | ⟨_, h⟩ | ⟨_, h⟩ <;> rw [heq] at h <;> cases h
    exact asked _ hG
  · intro incoming heq
    rcases hcases with ⟨_, _, h, _⟩ | ⟨_, h, _⟩ | ⟨_, h, _⟩ | ⟨_, h⟩ | ⟨_, h⟩ <;> rw [heq] at h <;> cases h

theorem Asked.last {as : List Label} {l : Label} {G : OpenRequest → Prop} (h : Asked sha [l] G) :
    Asked sha (as ++ [l]) G := by
  obtain ⟨p, buf, spawned, generation, r, hm, ha, hG⟩ := h
  exact ⟨p, buf, spawned, generation, r, List.mem_append_right _ hm, ha, hG⟩

/-- A step of the table that its label may take leaves everything justified. -/
theorem Justified.table {as : List Label} {s : Daemon T} {l : Label} {a : Manager.Label} {m : Manager.State T}
    (hj : Justified sha as s) (hi : Manager.TableInv s.manager) (hl : Allowed sha l a)
    (hs : Manager.step s.manager a = some m) : Justified sha (as ++ [l]) { s with manager := m } where
  started := by
    intro r c' hc'
    rcases cell_of_step hi hs hc' with ⟨c, hc, hk⟩ | hf
    · rw [Manager.name_of_ident hk.ident, show c'.session.command = c.session.command from congrArg (·.2.2.1) hk.ident,
        show c'.session.child = c.session.child from congrArg (·.2.2.2.2.1) hk.ident]
      rcases hj.started r c hc with h | h
      · exact Or.inl h.mono
      · exact Or.inr h.mono
    · cases hf with
      | openTerm hname hcommand hremoval hdeadline =>
        rw [hname, hcommand]
        exact Or.inl (hl.openTerm _ _ _ _ _ _ rfl).last
      | adoptMany hmem hname hchild hremoval =>
        exact Or.inr ⟨_, _, List.mem_append_right _ (List.mem_singleton.mpr (hl.adopt _ rfl).symm), hmem, hname, hchild⟩
  killed := by
    intro r c' hc' hr
    rcases cell_of_step hi hs hc' with ⟨c, hc, hk⟩ | hf
    · rw [Manager.name_of_ident hk.ident]
      rcases hk.killed hr with h | h
      · exact (hj.killed r c hc h).mono
      · exact (hl.kill _ h).last
    · cases hf with
      | openTerm hname hcommand hremoval hdeadline =>
        rw [hremoval] at hr
        cases hr
      | adoptMany hmem hname hchild hremoval =>
        rw [hremoval] at hr
        cases hr
  closed := by
    intro r c' hc' hd
    rcases cell_of_step hi hs hc' with ⟨c, hc, hk⟩ | hf
    · rw [Manager.name_of_ident hk.ident, show c'.session.child = c.session.child from congrArg (·.2.2.2.2.1) hk.ident]
      rcases hk.closed hd with h | ⟨retention, h⟩
      · rcases hj.closed r c hc h with h | h
        · exact Or.inl h.mono
        · exact Or.inr h.mono
      · exact Or.inl (hl.close _ _ h).last
    · cases hf with
      | openTerm hname hcommand hremoval hdeadline => exact absurd hdeadline hd
      | adoptMany hmem hname hchild hremoval =>
        exact Or.inr ⟨_, _, List.mem_append_right _ (List.mem_singleton.mpr (hl.adopt _ rfl).symm), hmem, hname, hchild⟩
  relayed := fun host r h => (hj.relayed host r h).mono

omit [Ghostty T] in
theorem Justified.later {as : List Label} {s : Daemon T} (l : Label) (h : Justified sha as s) :
    Justified sha (as ++ [l]) s where
  started r c hc := (h.started r c hc).imp Asked.mono HandedOver.mono
  killed r c hc hr := (h.killed r c hc hr).mono
  closed r c hc hd := (h.closed r c hc hd).imp Asked.mono HandedOver.mono
  relayed host r hm := (h.relayed host r hm).mono

/-- What a daemon has done, and the invariant of its table. -/
structure Lawful (sha : Text → Digest) (as : List Label) (s : Daemon T) : Prop where
  table : Manager.TableInv s.manager
  justified : Justified sha as s

theorem Lawful.perform {as : List Label} {s : Daemon T} {l : Label} {a : Manager.Label} (h : Lawful sha as s)
    (hl : Allowed sha l a) : Lawful sha (as ++ [l]) (s.perform a) := by
  unfold Daemon.perform
  cases hs : Manager.step s.manager a with
  | none => exact ⟨h.table, h.justified.later l⟩
  | some m => exact ⟨h.table.step hs, h.justified.table h.table hl hs⟩

theorem Lawful.step {as : List Label} {s s' : Daemon T} {l : Label} (h : Lawful sha as s) (hs : step sha s l = some s') :
    Lawful sha (as ++ [l]) s' := by
  cases l with
  | task a =>
    simp only [Admission.step, Option.ite_none_right_eq_some, Option.map_eq_some_iff] at hs
    obtain ⟨hb, m, hm, rfl⟩ := hs
    exact ⟨h.table.step hm, h.justified.table h.table (allowed_task hb) hm⟩
  | connection p buf spawned generation =>
    cases hb : handshake buf with
    | error e =>
      simp only [Admission.step, hb, Option.some.injEq] at hs
      subst hs
      exact ⟨h.table, h.justified.later _⟩
    | ok hshake =>
      simp only [Admission.step, hb, Option.some.injEq] at hs
      subst hs
      unfold Daemon.arm
      split
      · rename_i host request hd
        obtain ⟨rfl, hlocal, ht⟩ := dispatch_relay hd
        have hadm : Admitted sha p buf request := ⟨hb, admits_iff.mpr (Or.inl hlocal)⟩
        have hj := h.justified.later (.connection p buf spawned generation)
        refine ⟨h.table, hj.started, hj.killed, hj.closed, ?_⟩
        intro host' r' hm
        rcases List.mem_append.mp hm with hm | hm
        · exact hj.relayed host' r' hm
        · cases List.mem_singleton.mp hm
          exact ⟨p, buf, spawned, generation, request, List.mem_append_right _ (List.mem_singleton.mpr rfl), hadm, rfl, ht⟩
      · split
        · rename_i l hl
          exact h.perform (allowed_connection hb hl)
        · exact ⟨h.table, h.justified.later _⟩

omit [Ghostty T] in
theorem lawful_new (sha : Text → Digest) (clock : Nat) : Lawful sha [] (Daemon.new clock : Daemon T) where
  table := Manager.TableInv.new clock
  justified := {
    started := by
      intro r c h
      cases h
    killed := by
      intro r c h
      cases h
    closed := by
      intro r c h
      cases h
    relayed := by
      intro host r h
      cases h }

/-! ## Admission as authority -/

/-- A run of a daemon is the run of its admitted connections, and all it has done was asked for by one of
them; over the network that takes an enrolled token, and a request that names no other host. -/
structure Authority (sha : Text → Digest) (s t : Daemon T) (as : List Label) : Prop where
  same : exec (step sha) s (as.filter (admitted sha)) = some t
  justified : Justified sha (as.filter (admitted sha)) t
  enrolled : ∀ p buf spawned generation, Label.connection p buf spawned generation ∈ as.filter (admitted sha) →
    ∃ r, Admitted sha p buf r ∧ (p.isLocal = true ∨ r.target = none ∧ ∃ token digests, r.token = some token ∧
      sha token.1.toList ∈ digests ∧ (p = .remote digests ∨ ∃ c, p = .remoteConnection digests c))

theorem admission_is_authority (sha : Text → Digest) (clock : Nat) (as : List Label) (t : Daemon T)
    (h : exec (step sha) (Daemon.new clock) as = some t) : Authority sha (Daemon.new clock) t as := by
  have hsame := exec_admitted h
  refine ⟨hsame, ?_, ?_⟩
  · have := exec_history (I := Lawful sha) (fun _ _ _ _ hs hl => hl.step hs) hsame (lawful_new sha clock)
    rw [List.nil_append] at this
    exact this.justified
  · intro p buf spawned generation hm
    obtain ⟨r, hr⟩ := admitted_connection.mp (List.mem_filter.mp hm).2
    exact ⟨r, hr, admits_iff.mp hr.2⟩

/-- A pane opens a terminal by the socket, and a host whose token is not enrolled tries to kill it. -/
theorem admission_keeps_strangers_out :
    let own : Digest := ⟨List.replicate 32 1, rfl⟩
    let sha : Text → Digest := fun text => if text = ['k'] then own else ⟨List.replicate 32 0, rfl⟩
    let opens : OpenRequest := ⟨13, 80, 24, none, none, none, .openTerm ⟨"p", by decide⟩ none ⟨[], by decide⟩ none⟩
    let kills : OpenRequest := ⟨13, 80, 24, none, some ⟨"x", by decide⟩, none, .kill ⟨"p", by decide⟩⟩
    let run : List Label := [.connection .local (openRequest.encode opens) (.ok (4, 100)) 1,
      .connection (.remoteConnection [own] 7) (openRequest.encode kills) (.error "") 2]
    ∃ t : Daemon Echo, exec (step sha) (Daemon.new 0) run = some t ∧ Authority sha (Daemon.new 0) t run ∧
      (run.filter (admitted sha)).length = 1 := by
  intro own sha opens kills run
  have hrun : (exec (step (T := Echo) sha) (Daemon.new 0) run).isSome = true := by decide +kernel
  obtain ⟨t, ht⟩ := Option.isSome_iff_exists.mp hrun
  exact ⟨t, ht, admission_is_authority sha 0 run t ht, by decide +kernel⟩

end

/-! ## Relaying -/

/-- An arm of the socket of a daemon, taken on a connection between hosts. -/
def Arm.onLink (c : Nat) : Arm → Arm
  | .audioRefused mode => .audio c mode
  | .open mode cols rows term _ => .open mode cols rows term (some c)
  | a => a

theorem serve_onLink (r : OpenRequest) (c : Nat) : serve r (some c) = (serve r none).onLink c := by
  unfold serve
  cases r.mode <;> rfl

theorem accepted_relayed (r : OpenRequest) (token : Str) : Accepted (relayed r token) := by
  have hm : ∀ m : OpenMode, m.minimum ≤ protocolVersion := by
    intro m
    cases m <;> simp [OpenMode.minimum, protocolVersion]
  exact ⟨(by decide : (7 : UInt32) ≤ 13), (by decide : (13 : UInt32) ≤ 13), hm r.mode⟩

section
variable {sha : Text → Digest}

theorem dispatch_relayed (r : OpenRequest) (token : Str) (digests : List Digest) (c : Nat) :
    dispatch sha (.remoteConnection digests c) (.ok (relayed r token)) =
      if sha token.1.toList ∈ digests then (serve r none).onLink c
      else .rejected ⟨.tokenRejected, "authentication failed"⟩ := by
  by_cases hm : sha token.1.toList ∈ digests
  · have ha : (Policy.remoteConnection digests c).rules.admits sha (credentials (relayed r token)) = .ok () :=
      admits_iff.mpr (Or.inr ⟨rfl, token, digests, rfl, hm, Or.inr ⟨c, rfl⟩⟩)
    rw [if_pos hm, ← serve_onLink]
    simp only [dispatch, ha]
    rfl
  · have ha : (Policy.remoteConnection digests c).rules.admits sha (credentials (relayed r token)) =
        .error ⟨.tokenRejected, "authentication failed"⟩ := by
      simp [Policy.rules, Tokens.Policy.admits, Tokens.admitRemote, credentials, relayed, hm]
    rw [if_neg hm]
    simp only [dispatch, ha]

/-- Everything is there, and the request fits: it is sent, framed whole. -/
theorem openStream_ok {host : Text} {r : OpenRequest} {way : Way} {wire : Lib.Bytes} :
    openStream host r way = .ok wire ↔
      KnownHosts.checkAlias host = true ∧ (∃ addr, way.hostAddr = .ok addr) ∧ way.connection = .ok () ∧
        way.opened = .ok () ∧ ∃ token, way.hostToken = .ok token ∧
          (openRequest.encode (relayed r token)).length ≤ Frame.maxRequestBytes ∧
            Frame.encodeMessage (openRequest.encode (relayed r token)) = .ok wire := by
  obtain ⟨hostAddr, hostToken, connection, opened⟩ := way
  unfold openStream checkAlias
  cases hhost : KnownHosts.checkAlias host with
  | false => simp [bind, Except.bind, Except.mapError]
  | true =>
    cases hostAddr with
    | error e => simp [bind, Except.bind, Except.mapError]
    | ok addr =>
      cases hostToken with
      | error e => simp [bind, Except.bind, Except.mapError]
      | ok token =>
        cases connection with
        | error e => simp [bind, Except.bind, Except.mapError]
        | ok u =>
          by_cases hl : Frame.maxRequestBytes < (openRequest.encode (relayed r token)).length
          · have hnot := Nat.not_le_of_lt hl
            simp [bind, Except.bind, Except.mapError, hl, hnot]
          · cases opened with
            | error e => simp [bind, Except.bind, Except.mapError, hl]
            | ok u =>
              cases hm : Frame.encodeMessage (openRequest.encode (relayed r token)) <;>
                simp [bind, Except.bind, Except.mapError, hl, hm, Nat.le_of_not_lt hl]

theorem encodeMessage_relayed {r : OpenRequest} {token : Str}
    (h : (openRequest.encode (relayed r token)).length ≤ Frame.maxRequestBytes) :
    ∃ wire, Frame.encodeMessage (openRequest.encode (relayed r token)) = .ok wire := by
  have hpos : 1 ≤ (openRequest.encode (relayed r token)).length := by
    have h : 0 < (encodeVarint 5 (relayed r token).version.toNat).length := encodeVarint_pos 4 _
    show 1 ≤ (encodeVarint 5 (relayed r token).version.toNat ++ _).length
    rw [List.length_append]
    omega
  exact ⟨_, Frame.encodeMessage_ok hpos h⟩

/-- The host reads the broker's request whole and serves it as the broker's daemon would serve it from its own
socket, whatever version, token and host the pane wrote. -/
structure Transparent (sha : Text → Digest) (host : Text) (r : OpenRequest) (way : Way) : Prop where
  here : dispatch sha .local (.ok { r with target := none }) = serve r none
  there : ∀ wire, openStream host r way = .ok wire → ∃ token, way.hostToken = .ok token ∧
    ∀ {σ : Type} (R : Reader σ) (src : σ) (rest : Lib.Bytes), R.Delivers src (wire ++ rest) →
      ∃ src' q, readRequest R src = (.ok (.ok q), src') ∧ R.Delivers src' rest ∧ ∀ digests c,
        dispatch sha (.remoteConnection digests c) (.ok q) =
          if sha token.1.toList ∈ digests then (serve r none).onLink c
          else .rejected ⟨.tokenRejected, "authentication failed"⟩
  sent : (∃ wire, openStream host r way = .ok wire) ↔
    KnownHosts.checkAlias host = true ∧ (∃ addr, way.hostAddr = .ok addr) ∧ way.connection = .ok () ∧
      way.opened = .ok () ∧ ∃ token, way.hostToken = .ok token ∧
        (openRequest.encode (relayed r token)).length ≤ Frame.maxRequestBytes
  once : ∀ (p : Policy) (h : Handshake) (host : Str) (q : OpenRequest), p.isLocal = false →
    dispatch sha p h ≠ .relay host q

theorem relay_is_transparent (sha : Text → Digest) (host : Text) (r : OpenRequest) (way : Way) :
    Transparent sha host r way where
  here := rfl
  there := by
    intro wire hw
    obtain ⟨_, _, _, _, token, htoken, _, hsent⟩ := openStream_ok.mp hw
    refine ⟨token, htoken, ?_⟩
    intro σ R src rest hd
    have hh := handshake_request (fromBytes_self openRequest (relayed r token))
    rw [if_pos (accepted_relayed r token)] at hh
    obtain ⟨src', hr, hd'⟩ := readRequest_message hsent hh hd
    exact ⟨src', relayed r token, hr, hd', dispatch_relayed r token⟩
  sent := by
    constructor
    · rintro ⟨wire, hw⟩
      obtain ⟨hhost, haddr, hconnection, hopened, token, htoken, hl, _⟩ := openStream_ok.mp hw
      exact ⟨hhost, haddr, hconnection, hopened, token, htoken, hl⟩
    · rintro ⟨hhost, haddr, hconnection, hopened, token, htoken, hl⟩
      obtain ⟨wire, hw⟩ := encodeMessage_relayed hl
      exact ⟨wire, openStream_ok.mpr ⟨hhost, haddr, hconnection, hopened, token, htoken, hl, hw⟩⟩
  once := by
    intro p h host q hp hd
    rw [(dispatch_relay hd).2.1] at hp
    cases hp

/-- A pane lists the terminals of a host where the token of this client is enrolled. -/
theorem relay_is_transparent_list :
    let own : Digest := ⟨List.replicate 32 1, rfl⟩
    let sha : Text → Digest := fun text => if text = ['k'] then own else ⟨List.replicate 32 0, rfl⟩
    let way : Way := ⟨.ok "10.0.0.7".toList, .ok ⟨"k", by decide⟩, .ok (), .ok ()⟩
    let r : OpenRequest := ⟨7, 80, 24, none, none, some ⟨"spark", by decide⟩, .list⟩
    ∃ wire, openStream "spark".toList r way = .ok wire ∧
      ∀ {σ : Type} (R : Reader σ) (src : σ), R.Delivers src (wire ++ []) → ∃ src' q,
        readRequest R src = (.ok (.ok q), src') ∧ dispatch sha (.remoteConnection [own] 7) (.ok q) = .list := by
  intro own sha way r
  have h := relay_is_transparent sha "spark".toList r way
  obtain ⟨wire, hw⟩ := h.sent.mpr ⟨by decide, ⟨_, rfl⟩, rfl, rfl, _, rfl, by decide⟩
  obtain ⟨token, htoken, hread⟩ := h.there wire hw
  cases htoken
  refine ⟨wire, hw, fun R src hd => ?_⟩
  obtain ⟨src', q, hr, -, harm⟩ := hread R src [] hd
  have hk : sha "k".toList ∈ [own] := by decide
  exact ⟨src', q, hr, by rw [harm, if_pos hk]; rfl⟩

end

end Mux.Admission
