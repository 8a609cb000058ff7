import Mux.HostsWindow
import Mux.Lib.Count
import Mathlib.Data.List.Perm.Basic

/-!
# Answers in any order

The list of machines is what was listed and answered since the window was opened, wherever it stands at the moment and
in whatever order the answers come; an answer does not move the highlight, and neither does a visit to the templates.
-/

namespace Mux.HostsWindow

open Lib

/-! ## What the list has to be -/

def HostEntry.rowAfter (probed : List (String × Probe)) (e : HostEntry) : Row :=
  { e.row with status := (probed.lookup e.name).elim .pending HostsWindow.status }

def vmRows (vms : List VM) : List Row := if vms.isEmpty then [] else headingRow :: vms.map (·.row)

def localRows (entries : List HostEntry) : List Row := localRow :: if entries.isEmpty then [noneRow] else []

def machines (entries : List HostEntry) (probed : List (String × Probe)) (vms : List VM) : List Row :=
  localRows entries ++ entries.map (HostEntry.rowAfter probed) ++ vmRows vms

/-- The target of a machine's row. -/
def Row.target (r : Row) : Option (Option String) :=
  match r.kind with
  | .host target => some target
  | _ => none

namespace State

/-- The machines and their highlight, in front or behind the templates. -/
def parked (s : State) : List Row × Nat :=
  if s.pickingTemplate then s.stashedHosts.getD ([], 0) else (s.rows, s.index)

/-- The highlighted machine. -/
def machine (s : State) : Option (Option String) := s.parked.1[s.parked.2]?.bind Row.target

def highlighted (s : State) : Bool := s.rows[s.index]?.any (·.selectable)

end State

theorem selectedHost_eq (s : State) : s.selectedHost = if s.pickingTemplate then none else s.machine := by
  unfold State.selectedHost State.machine State.parked
  cases s.pickingTemplate with
  | true => rfl
  | false =>
    rfl

theorem selectable_of_target {r : Row} (h : r.target.isSome = true) : r.selectable = true := by
  unfold Row.target at h
  unfold Row.selectable
  cases hk : r.kind <;> simp [hk] at h ⊢

theorem highlighted_of_machine {s : State} (hp : s.pickingTemplate = false) (h : s.machine.isSome = true) :
    s.highlighted = true := by
  unfold State.machine State.parked at h
  simp only [hp, Bool.false_eq_true, if_false] at h
  unfold State.highlighted
  cases hr : s.rows[s.index]? with
  | none => simp [hr] at h
  | some r => exact selectable_of_target (by simpa [hr] using h)

/-- A row that can be selected is a machine. -/
theorem target_of_selectable {entries : List HostEntry} {probed : List (String × Probe)} {vms : List VM} {r : Row}
    (hr : r ∈ machines entries probed vms) (hs : r.selectable = true) : r.target.isSome = true := by
  unfold Row.selectable at hs
  unfold Row.target
  cases hk : r.kind with
  | heading => simp [hk] at hs
  | inert => simp [hk] at hs
  | host target => rfl
  | template value =>
    exfalso
    rcases List.mem_append.mp hr with hr | hr
    · rcases List.mem_append.mp hr with hr | hr
      · unfold localRows at hr
        split at hr <;> simp [localRow, noneRow] at hr
        · rcases hr with rfl | rfl <;> cases hk
        · subst hr
          cases hk
      · obtain ⟨e, _, rfl⟩ := List.mem_map.mp hr
        cases hk
    · unfold vmRows at hr
      split at hr
      · cases hr
      · rcases List.mem_cons.mp hr with rfl | hr
        · cases hk
        · obtain ⟨vm, _, rfl⟩ := List.mem_map.mp hr
          unfold VM.row at hk
          split at hk <;> cases hk

/-! ## Small steps -/

theorem rowsChanged_of_highlighted {s : State} (h : s.highlighted = true) : s.rowsChanged = s := by
  unfold State.rowsChanged
  rw [if_pos (by exact h)]

theorem rowsChanged_eq (s : State) : ∃ i, s.rowsChanged = { s with index := i } := by
  unfold State.rowsChanged
  split
  · exact ⟨s.index, rfl⟩
  · exact ⟨_, rfl⟩

theorem highlighted_rowsChanged {s : State} {r : Row} (hr : r ∈ s.rows) (hs : r.selectable = true) :
    s.rowsChanged.highlighted = true := by
  unfold State.rowsChanged
  split
  · assumption
  · cases hi : s.rows.findIdx? (·.selectable) with
    | none =>
      rw [List.findIdx?_eq_none_iff] at hi
      rw [hi r hr] at hs
      cases hs
    | some i =>
      obtain ⟨hlt, hsel, _⟩ := List.findIdx?_eq_some_iff_getElem.mp hi
      unfold State.highlighted
      simp only [Option.getD_some, List.getElem?_eq_getElem hlt, Option.any_some]
      exact hsel

/-- The answer of a machine goes to its row. -/
theorem machines_probe {entries : List HostEntry} {name : String} (probed : List (String × Probe)) (vms : List VM)
    (probe : Probe) (hapart : (entries.map (·.name)).Nodup) (hname : name ∈ entries.map (·.name)) :
    ∃ row, (machines entries probed vms).findIdx? (fun r => r.kind == .host (some name)) = some row ∧
      (machines entries probed vms).modify row (fun r => { r with status := status probe }) =
        machines entries ((name, probe) :: probed) vms := by
  obtain ⟨e, he, rfl⟩ := List.mem_map.mp hname
  obtain ⟨before, after, rfl⟩ := List.append_of_mem he
  rw [List.map_append, List.map_cons] at hapart
  have hother {x : HostEntry} (hx : x ∈ before ∨ x ∈ after) : x.name ≠ e.name := by
    intro hxe
    have hcons := (List.nodup_append.mp hapart).2
    rcases hx with hx | hx
    · exact hcons.2 x.name (List.mem_map_of_mem hx) e.name (.head _) hxe
    · exact (List.nodup_cons.mp hcons.1).1 (hxe ▸ List.mem_map_of_mem hx)
  have hsame {x : HostEntry} (hx : x ∈ before ∨ x ∈ after) :
      x.rowAfter ((e.name, probe) :: probed) = x.rowAfter probed := by
    have hbeq : (x.name == e.name) = false := beq_eq_false_iff_ne.mpr (hother hx)
    simp only [HostEntry.rowAfter, List.lookup_cons, hbeq]
  have hsplit (p : List (String × Probe)) : machines (before ++ e :: after) p vms =
      (localRows (before ++ e :: after) ++ before.map (HostEntry.rowAfter p)) ++
        e.rowAfter p :: (after.map (HostEntry.rowAfter p) ++ vmRows vms) := by
    simp only [machines, List.map_append, List.map_cons, List.append_assoc, List.cons_append]
  have hnot : ∀ r ∈ localRows (before ++ e :: after) ++ before.map (HostEntry.rowAfter probed),
      (r.kind == .host (some e.name)) = false := by
    intro r hr
    rcases List.mem_append.mp hr with hr | hr
    · simp [localRows, localRow] at hr
      subst hr
      rfl
    · obtain ⟨x, hx, rfl⟩ := List.mem_map.mp hr
      simpa [HostEntry.rowAfter, HostEntry.row] using hother (.inl hx)
  have hrow : ({ e.rowAfter probed with status := status probe } : Row) = e.rowAfter ((e.name, probe) :: probed) := by
    simp [HostEntry.rowAfter]
  have hbefore : before.map (HostEntry.rowAfter ((e.name, probe) :: probed)) = before.map (HostEntry.rowAfter probed) :=
    List.map_congr_left fun x hx => hsame (.inl hx)
  have hafter : after.map (HostEntry.rowAfter ((e.name, probe) :: probed)) = after.map (HostEntry.rowAfter probed) :=
    List.map_congr_left fun x hx => hsame (.inr hx)
  rw [hsplit, hsplit]
  exact ⟨_, findIdx?_append_cons hnot (by simp [HostEntry.rowAfter, HostEntry.row]),
    by rw [modify_append_cons, hrow, hbefore, hafter]⟩

/-! ## What is kept -/

/-- `taken` are questions that are being answered. -/
structure Inv (taken : List Ask) (s : State) : Prop where
  stash : s.stashedHosts.isSome = s.pickingTemplate
  hosts : s.hosts = machines s.entries s.probed s.vms
  apart : (s.entries.map (·.name)).Nodup
  asked : ∀ ask ∈ taken ++ s.pending, ask.generation ≤ s.generation
  known : ∀ name, ⟨s.generation, .probe name⟩ ∈ taken ++ s.pending → name ∈ s.entries.map (·.name)
  probed : ∀ e ∈ s.entries, ⟨s.generation, .probe e.name⟩ ∈ taken ++ s.pending ∨ (s.probed.lookup e.name).isSome = true
  vmsOnce : (taken ++ s.pending).count ⟨s.generation, .vms⟩ + (if s.vms.isEmpty then 0 else 1) ≤ 1
  digestOnce : (taken ++ s.pending).count ⟨s.generation, .digest⟩ + (if s.digest.isSome then 1 else 0) ≤ 1
  machine : s.machine.isSome = true
  highlighted : s.highlighted = true
  templates : s.pickingTemplate = true → ∀ r ∈ s.rows, ∃ value, r.kind = .template value
  bases : ∀ ask ∈ taken ++ s.pending, ∀ base current, ask.question = .templates base current →
    base.kind = .template defaultTemplate
  copied : s.copied = true → s.digest.isSome = true ∧ s.clipboard = s.digest

theorem inv_take {s : State} {i : Nat} {ask : Ask} (h : Inv [] s) (hi : s.pending[i]? = some ask) :
    Inv [ask] { s with pending := s.pending.eraseIdx i } := by
  have hperm : ([ask] ++ s.pending.eraseIdx i).Perm ([] ++ s.pending) := by
    obtain ⟨hlt, rfl⟩ := List.getElem?_eq_some_iff.mp hi
    exact List.getElem_cons_eraseIdx_perm hlt
  refine { h with asked := ?_, known := ?_, probed := ?_, vmsOnce := ?_, digestOnce := ?_, bases := ?_ }
  · intro x hx
    exact h.asked x (hperm.mem_iff.mp hx)
  · intro name hname
    exact h.known name (hperm.mem_iff.mp hname)
  · intro e he
    exact (h.probed e he).imp hperm.mem_iff.mpr id
  · rw [hperm.count_eq]
    exact h.vmsOnce
  · rw [hperm.count_eq]
    exact h.digestOnce
  · intro x hx
    exact h.bases x (hperm.mem_iff.mp hx)

/-- The question is done with, and nothing else has changed. -/
theorem inv_drop {s : State} {ask : Ask} (h : Inv [ask] s)
    (hprobe : ∀ name, ask = ⟨s.generation, .probe name⟩ → (s.probed.lookup name).isSome = true) : Inv [] s := by
  have hsub {x : Ask} (hx : x ∈ [] ++ s.pending) : x ∈ [ask] ++ s.pending := List.mem_cons_of_mem _ hx
  have hcount (x : Ask) : ([] ++ s.pending).count x ≤ ([ask] ++ s.pending).count x :=
    (List.sublist_cons_self ask s.pending).count_le x
  refine { h with asked := ?_, known := ?_, probed := ?_, vmsOnce := ?_, digestOnce := ?_, bases := ?_ }
  · intro x hx
    exact h.asked x (hsub hx)
  · intro name hname
    exact h.known name (hsub hname)
  · intro e he
    rcases h.probed e he with hin | hdone
    · rcases List.mem_cons.mp hin with heq | hin
      · exact .inr (hprobe e.name heq.symm)
      · exact .inl hin
    · exact .inr hdone
  · have := h.vmsOnce
    have := hcount ⟨s.generation, .vms⟩
    omega
  · have := h.digestOnce
    have := hcount ⟨s.generation, .digest⟩
    omega
  · intro x hx
    exact h.bases x (hsub hx)

/-! ## Answers -/

theorem target_modify (rows : List Row) (row : Nat) (status : Status) (i : Nat) :
    (rows.modify row fun r => { r with status := status })[i]?.bind Row.target = rows[i]?.bind Row.target := by
  rw [List.getElem?_modify]
  cases rows[i]? with
  | none => rfl
  | some r => by_cases hi : row = i <;> simp [hi, Row.target]

theorem getElem?_append_bind {rows more : List Row} {i : Nat} (h : (rows[i]?.bind Row.target).isSome = true) :
    (rows ++ more)[i]?.bind Row.target = rows[i]?.bind Row.target := by
  cases hr : rows[i]? with
  | none => simp [hr] at h
  | some r => rw [List.getElem?_append_left (lt_of_getElem?_some hr), hr]

/-- A new list of machines that starts like the old one. -/
def Extends (rows rows' : List Row) : Prop :=
  ∀ i : Nat, (rows[i]?.bind Row.target).isSome = true → rows'[i]?.bind Row.target = rows[i]?.bind Row.target

theorem machine_setHosts {s : State} {rows : List Row} (hstash : s.stashedHosts.isSome = s.pickingTemplate)
    (hmachine : s.machine.isSome = true) (h : Extends s.hosts rows) : (s.setHosts rows).machine = s.machine := by
  unfold State.machine State.parked at hmachine
  unfold State.hosts at h
  unfold State.machine State.parked State.setHosts
  cases hp : s.pickingTemplate with
  | false =>
    simp only [hp, Bool.false_eq_true, if_false] at hmachine h ⊢
    exact h _ hmachine
  | true =>
    rw [hp] at hstash
    obtain ⟨⟨stashed, i⟩, hst⟩ := Option.isSome_iff_exists.mp hstash
    simp only [hp, hst, if_true, Option.map_some, Option.getD_some] at hmachine h ⊢
    exact h _ hmachine

theorem hosts_setHosts {s : State} (hstash : s.stashedHosts.isSome = s.pickingTemplate) (rows : List Row) :
    (s.setHosts rows).hosts = rows := by
  unfold State.hosts State.setHosts
  cases hp : s.pickingTemplate with
  | false => simp
  | true =>
    rw [hp] at hstash
    obtain ⟨stash, hst⟩ := Option.isSome_iff_exists.mp hstash
    simp [hst]

theorem setHosts_probed (s : State) (rows : List Row) (probed : List (String × Probe)) :
    ({ s.setHosts rows with probed := probed } : State) = { s.setHosts rows with probed := probed, vms := s.vms } := by
  unfold State.setHosts
  split <;> rfl

theorem setHosts_vms (s : State) (rows : List Row) (vms : List VM) :
    ({ s.setHosts rows with vms := vms } : State) = { s.setHosts rows with probed := s.probed, vms := vms } := by
  unfold State.setHosts
  split <;> rfl

/-- The list of machines gets new rows or statuses. -/
theorem inv_setHosts {s : State} {taken : List Ask} {rows : List Row} {probed : List (String × Probe)} {vms : List VM}
    (h : Inv taken s) (hext : Extends s.hosts rows) (hrows : rows = machines s.entries probed vms)
    (hprobed : ∀ name, (s.probed.lookup name).isSome = true → (probed.lookup name).isSome = true)
    (honce : (taken ++ s.pending).count ⟨s.generation, .vms⟩ + (if vms.isEmpty then 0 else 1) ≤ 1) :
    Inv taken { s.setHosts rows with probed := probed, vms := vms } := by
  have hmachine := machine_setHosts h.stash h.machine hext
  have hhosts := hosts_setHosts h.stash rows
  have hsome : (s.setHosts rows).machine.isSome = true := by
    rw [hmachine]
    exact h.machine
  cases hp : s.pickingTemplate with
  | false =>
    have hset : s.setHosts rows = { s with rows := rows } := by
      unfold State.setHosts
      simp [hp]
    rw [hset] at hhosts hsome ⊢
    exact
      { h with
        hosts := hhosts.trans hrows
        probed := fun e he => (h.probed e he).imp id (hprobed e.name)
        vmsOnce := honce
        machine := hsome
        highlighted := highlighted_of_machine (s := { s with rows := rows }) hp hsome
        templates := by
          intro hpick
          rw [hp] at hpick
          cases hpick }
  | true =>
    have hset : s.setHosts rows = { s with stashedHosts := s.stashedHosts.map fun stash => (rows, stash.2) } := by
      unfold State.setHosts
      simp [hp]
    rw [hset] at hhosts hsome ⊢
    exact
      { h with
        stash := by simpa using h.stash
        hosts := hhosts.trans hrows
        probed := fun e he => (h.probed e he).imp id (hprobed e.name)
        vmsOnce := honce
        machine := hsome }

section
variable {s s' : State} {g : Nat}

theorem inv_answer_probe {name : String} {probe : Probe} (h : Inv [⟨g, .probe name⟩] s)
    (ha : s.answer ⟨g, .probe name⟩ (.probe probe) = some s') : Inv [] s' ∧ s'.machine = s.machine := by
  simp only [State.answer] at ha
  split at ha
  · -- The row is there, and stays where it is.
    rename_i hgen
    obtain rfl := beq_iff_eq.mp hgen
    have hname := h.known name (.head _)
    obtain ⟨row, hfind, hmodify⟩ := machines_probe s.probed s.vms probe h.apart hname
    rw [h.hosts, hfind, Option.some.injEq] at ha
    have hext : Extends s.hosts (machines s.entries ((name, probe) :: s.probed) s.vms) := by
      intro i _
      rw [← hmodify, target_modify, h.hosts]
    have hmore (x : String) (hx : (s.probed.lookup x).isSome = true) :
        (((name, probe) :: s.probed).lookup x).isSome = true := by
      rw [List.lookup_cons]
      split
      · rfl
      · exact hx
    have hinv := inv_setHosts h hext rfl hmore h.vmsOnce
    rw [hmodify, setHosts_probed] at ha
    subst ha
    refine ⟨inv_drop hinv ?_, machine_setHosts h.stash h.machine hext⟩
    intro x hx
    rw [Ask.mk.injEq, Question.probe.injEq] at hx
    simp [hx.2]
  · rename_i hgen
    cases ha
    refine ⟨inv_drop h ?_, rfl⟩
    intro x hx
    rw [Ask.mk.injEq] at hx
    exact absurd (beq_iff_eq.mpr hx.1) hgen

theorem inv_answer_vms {vms : List VM} (h : Inv [⟨g, .vms⟩] s) (ha : s.answer ⟨g, .vms⟩ (.vms vms) = some s') :
    Inv [] s' ∧ s'.machine = s.machine := by
  have hdrop := inv_drop h fun _ hx => by cases hx
  simp only [State.answer] at ha
  split at ha
  · -- It is the first such answer since the window was opened.
    rename_i hgen
    rw [Bool.and_eq_true, beq_iff_eq] at hgen
    obtain ⟨rfl, hsome⟩ := hgen
    have honce := h.vmsOnce
    rw [List.singleton_append, List.count_cons_self] at honce
    have hnone : s.vms = [] := by
      cases hv : s.vms with
      | nil => rfl
      | cons v l =>
        simp only [hv, List.isEmpty_cons, Bool.false_eq_true, if_false] at honce
        omega
    have hrows : s.hosts ++ headingRow :: vms.map (·.row) = machines s.entries s.probed vms := by
      rw [h.hosts, hnone]
      simp [machines, vmRows, show vms.isEmpty = false by simpa using hsome]
    have hext : Extends s.hosts (machines s.entries s.probed vms) := by
      intro i hi
      rw [← hrows]
      exact getElem?_append_bind hi
    have hzero : s.pending.count ⟨s.generation, .vms⟩ + (if vms.isEmpty then 0 else 1) ≤ 1 := by
      split <;> omega
    have hinv := inv_setHosts hdrop hext rfl (fun _ hx => hx) hzero
    have hhigh : (s.setHosts (machines s.entries s.probed vms)).highlighted = true := hinv.highlighted
    rw [hrows, rowsChanged_of_highlighted hhigh, setHosts_vms, Option.some.injEq] at ha
    subst ha
    exact ⟨hinv, machine_setHosts h.stash h.machine hext⟩
  · cases ha
    exact ⟨hdrop, rfl⟩

theorem inv_answer_digest {digest : Option String} (h : Inv [⟨g, .digest⟩] s)
    (ha : s.answer ⟨g, .digest⟩ (.digest digest) = some s') : Inv [] s' ∧ s'.machine = s.machine := by
  have hdrop := inv_drop h fun _ hx => by cases hx
  simp only [State.answer] at ha
  split at ha
  · -- It is the first digest since the window was opened, so none was copied.
    rename_i hgen
    obtain rfl := beq_iff_eq.mp hgen
    cases ha
    have honce := h.digestOnce
    rw [List.singleton_append, List.count_cons_self] at honce
    have hnone : s.digest = none := by
      cases hd : s.digest with
      | none => rfl
      | some d =>
        simp only [hd, Option.isSome_some, if_true] at honce
        omega
    refine ⟨{ hdrop with digestOnce := ?_, copied := ?_ }, rfl⟩
    · change s.pending.count ⟨s.generation, .digest⟩ + (if digest.isSome then 1 else 0) ≤ 1
      split <;> omega
    · intro hc
      have hsome := (h.copied hc).1
      rw [hnone] at hsome
      cases hsome
  · cases ha
    exact ⟨hdrop, rfl⟩

/-- New rows in front of the machines. -/
theorem inv_setRows {rows : List Row} {i : Nat} (h : Inv [] s) (hpick : s.pickingTemplate = true)
    (hhigh : State.highlighted { s with rows := rows, index := i } = true)
    (htemplates : ∀ r ∈ rows, ∃ value, r.kind = .template value) :
    Inv [] { s with rows := rows, index := i } ∧ State.machine { s with rows := rows, index := i } = s.machine := by
  have hparked : State.parked { s with rows := rows, index := i } = s.parked := by
    unfold State.parked
    rw [if_pos hpick, if_pos hpick]
  have hmachine : State.machine { s with rows := rows, index := i } = s.machine := by
    unfold State.machine
    rw [hparked]
  have hhosts : State.hosts { s with rows := rows, index := i } = s.hosts := by
    unfold State.hosts
    rw [if_pos hpick, if_pos hpick]
  exact
    ⟨{ h with
        hosts := hhosts.trans h.hosts
        machine := by rw [hmachine, h.machine]
        highlighted := hhigh
        templates := fun _ => htemplates }, hmachine⟩

theorem inv_answer_templates {base : Row} {current : String} {templates : List Template}
    (h : Inv [⟨g, .templates base current⟩] s)
    (ha : s.answer ⟨g, .templates base current⟩ (.templates templates) = some s') :
    Inv [] s' ∧ s'.machine = s.machine := by
  have hdrop := inv_drop h fun _ hx => by cases hx
  simp only [State.answer] at ha
  split at ha
  · rename_i hcond
    simp only [Bool.and_eq_true] at hcond
    have hbase := h.bases _ (.head _) base current rfl
    have hhigh : ({ s with rows := base :: templates.map (Template.row current) } : State).rowsChanged.highlighted =
        true :=
      highlighted_rowsChanged (.head _) (by simp [Row.selectable, hbase])
    obtain ⟨i, hi⟩ := rowsChanged_eq { s with rows := base :: templates.map (Template.row current) }
    rw [hi] at hhigh
    rw [hi, Option.some.injEq] at ha
    subst ha
    refine inv_setRows hdrop hcond.1.2 hhigh fun r hr => ?_
    rcases List.mem_cons.mp hr with rfl | hr
    · exact ⟨_, hbase⟩
    · obtain ⟨t, _, rfl⟩ := List.mem_map.mp hr
      exact ⟨t.value, rfl⟩
  · cases ha
    exact ⟨hdrop, rfl⟩

/-- What is done with an answer keeps the machine that is highlighted. -/
theorem inv_answer {ask : Ask} {a : Answer} (h : Inv [ask] s) (ha : s.answer ask a = some s') :
    Inv [] s' ∧ s'.machine = s.machine := by
  obtain ⟨g, question⟩ := ask
  cases a with
  | probe probe =>
    cases question with
    | probe name => exact inv_answer_probe h ha
    | _ => cases ha
  | vms vms =>
    cases question with
    | vms => exact inv_answer_vms h ha
    | _ => cases ha
  | digest digest =>
    cases question with
    | digest => exact inv_answer_digest h ha
    | _ => cases ha
  | templates templates =>
    cases question with
    | templates base current => exact inv_answer_templates h ha
    | _ => cases ha

end

/-! ## Keys -/

theorem inv_rows {s : State} (h : Inv [] s) (hp : s.pickingTemplate = false) :
    s.rows = machines s.entries s.probed s.vms := by
  have hhosts := h.hosts
  unfold State.hosts at hhosts
  rwa [hp, if_neg Bool.false_ne_true] at hhosts

theorem reload_eq (s : State) (entries : List HostEntry) : s.reload entries =
    { s with
      generation := s.generation + 1
      copied := false
      digest := none
      pickingTemplate := false
      stashedHosts := none
      rows := machines entries [] []
      index := 0
      entries := entries
      probed := []
      vms := []
      pending := s.pending ++ entries.map (fun e => ⟨s.generation + 1, .probe e.name⟩) ++
        [⟨s.generation + 1, .vms⟩, ⟨s.generation + 1, .digest⟩] } := by
  have hrows : localRow :: (if entries.isEmpty then [noneRow] else []) ++ entries.map (·.row) =
      machines entries [] [] := by
    have hrow : entries.map (HostEntry.rowAfter []) = entries.map (·.row) := List.map_congr_left fun _ _ => rfl
    simp [machines, vmRows, localRows, hrow]
  unfold State.reload
  simp only [hrows]
  rw [rowsChanged_of_highlighted rfl]

/-- Every question of the opening is asked once. -/
theorem inv_reload {s : State} {entries : List HostEntry} (hasked : ∀ ask ∈ s.pending, ask.generation ≤ s.generation)
    (hbases : ∀ ask ∈ s.pending, ∀ base current, ask.question = .templates base current →
      base.kind = .template defaultTemplate)
    (hapart : (entries.map (·.name)).Nodup) : Inv [] (s.reload entries) := by
  have hnew (q : Question) : s.pending.count ⟨s.generation + 1, q⟩ = 0 := by
    refine List.count_eq_zero.mpr fun hin => ?_
    exact absurd (hasked _ hin) (Nat.not_succ_le_self _)
  have hprobes (q : Question) (hq : ∀ name, q ≠ .probe name) :
      (entries.map fun e => (⟨s.generation + 1, .probe e.name⟩ : Ask)).count ⟨s.generation + 1, q⟩ = 0 := by
    refine List.count_eq_zero.mpr fun hin => ?_
    obtain ⟨e, _, he⟩ := List.mem_map.mp hin
    rw [Ask.mk.injEq] at he
    exact hq e.name he.2.symm
  have hmem {x : Ask} (hx : x ∈ s.pending ++ entries.map (fun e => (⟨s.generation + 1, .probe e.name⟩ : Ask)) ++
      [⟨s.generation + 1, .vms⟩, ⟨s.generation + 1, .digest⟩]) :
      x ∈ s.pending ∨ (∃ e ∈ entries, x = ⟨s.generation + 1, .probe e.name⟩) ∨ x = ⟨s.generation + 1, .vms⟩ ∨
        x = ⟨s.generation + 1, .digest⟩ := by
    rcases List.mem_append.mp hx with hx | hx
    · rcases List.mem_append.mp hx with hx | hx
      · exact .inl hx
      · obtain ⟨e, he, rfl⟩ := List.mem_map.mp hx
        exact .inr (.inl ⟨e, he, rfl⟩)
    · simp only [List.mem_cons, List.not_mem_nil, or_false] at hx
      exact .inr (.inr hx)
  rw [reload_eq]
  refine
    { stash := rfl
      hosts := rfl
      apart := hapart
      asked := ?_
      known := ?_
      probed := ?_
      vmsOnce := ?_
      digestOnce := ?_
      machine := rfl
      highlighted := rfl
      templates := fun hpick => by cases hpick
      bases := ?_
      copied := fun hc => by cases hc }
  · intro x hx
    rcases hmem hx with hx | ⟨e, _, rfl⟩ | rfl | rfl
    · exact Nat.le_succ_of_le (hasked x hx)
    all_goals exact Nat.le_refl _
  · intro name hname
    rcases hmem hname with hin | ⟨e, he, heq⟩ | heq | heq
    · exact absurd (hasked _ hin) (Nat.not_succ_le_self _)
    · rw [Ask.mk.injEq, Question.probe.injEq] at heq
      exact heq.2 ▸ List.mem_map_of_mem he
    · cases heq
    · cases heq
  · intro e he
    refine .inl ?_
    rw [List.nil_append]
    exact List.mem_append_left _ (List.mem_append_right _ (List.mem_map.mpr ⟨e, he, rfl⟩))
  · simp [List.count_append, hnew, hprobes]
  · simp [List.count_append, hnew, hprobes]
  · intro x hx base current hq
    rcases hmem hx with hx | ⟨e, _, rfl⟩ | rfl | rfl
    · exact hbases x hx base current hq
    all_goals cases hq

theorem showTemplates_eq {s : State} (hp : s.pickingTemplate = false) : s.showTemplates =
    { s with
      stashedHosts := some (s.rows, s.index)
      pickingTemplate := true
      rows := [baseRow s.template]
      index := 0
      pending := s.pending ++ [⟨s.generation, .templates (baseRow s.template) s.template⟩] } := by
  unfold State.showTemplates
  rw [hp, if_neg Bool.false_ne_true]
  simp only
  rw [rowsChanged_of_highlighted rfl]

theorem inv_showTemplates {s : State} (h : Inv [] s) :
    Inv [] s.showTemplates ∧ s.showTemplates.machine = s.machine := by
  by_cases hpick : s.pickingTemplate = true
  · have hsame : s.showTemplates = s := by
      unfold State.showTemplates
      rw [if_pos hpick]
    rw [hsame]
    exact ⟨h, rfl⟩
  · have hp : s.pickingTemplate = false := by simpa using hpick
    have hmachine : s.showTemplates.machine = s.machine := by
      rw [showTemplates_eq hp]
      unfold State.machine State.parked
      rw [hp]
      rfl
    have hmem {x : Ask} (hx : x ∈ s.pending ++ [⟨s.generation, .templates (baseRow s.template) s.template⟩]) :
        x ∈ s.pending ∨ x = ⟨s.generation, .templates (baseRow s.template) s.template⟩ :=
      (List.mem_append.mp hx).imp id List.mem_singleton.mp
    refine ⟨?_, hmachine⟩
    have hsome := hmachine ▸ h.machine
    rw [showTemplates_eq hp] at hsome ⊢
    refine
      { h with
        stash := rfl
        hosts := inv_rows h hp
        asked := ?_
        known := ?_
        probed := ?_
        vmsOnce := ?_
        digestOnce := ?_
        machine := hsome
        highlighted := rfl
        templates := ?_
        bases := ?_ }
    · intro x hx
      rcases hmem hx with hx | rfl
      · exact h.asked x hx
      · exact Nat.le_refl _
    · intro name hname
      rcases hmem hname with hname | heq
      · exact h.known name hname
      · cases heq
    · intro e he
      refine (h.probed e he).imp (fun hin => ?_) id
      rw [List.nil_append]
      exact List.mem_append_left _ hin
    · have honce := h.vmsOnce
      simpa [List.count_append] using honce
    · have honce := h.digestOnce
      simpa [List.count_append] using honce
    · intro _ r hr
      obtain rfl := List.mem_singleton.mp hr
      exact ⟨_, rfl⟩
    · intro x hx base current hq
      rcases hmem hx with hx | rfl
      · exact h.bases x hx base current hq
      · cases hq
        rfl

theorem inv_showHosts {s : State} (h : Inv [] s) : Inv [] s.showHosts ∧ s.showHosts.machine = s.machine := by
  unfold State.showHosts
  cases hp : s.pickingTemplate with
  | false => exact ⟨h, rfl⟩
  | true =>
    have hstash := h.stash
    rw [hp] at hstash
    obtain ⟨⟨rows, index⟩, hst⟩ := Option.isSome_iff_exists.mp hstash
    have hmachine : State.machine { s with
        pickingTemplate := false, rows := rows, index := index, stashedHosts := none } = s.machine := by
      unfold State.machine State.parked
      simp [hp, hst]
    have hsome : (State.machine { s with
        pickingTemplate := false, rows := rows, index := index, stashedHosts := none }).isSome = true := by
      rw [hmachine]
      exact h.machine
    have hhigh := highlighted_of_machine rfl hsome
    simp only [if_true, hst]
    rw [rowsChanged_of_highlighted hhigh]
    have hhosts := h.hosts
    unfold State.hosts at hhosts
    rw [hp, if_pos rfl, hst] at hhosts
    exact
      ⟨{ h with
          stash := rfl
          hosts := hhosts
          machine := hsome
          highlighted := hhigh
          templates := fun hpick => by cases hpick }, hmachine⟩

theorem inv_commitTemplate {s : State} (h : Inv [] s) :
    Inv [] s.commitTemplate ∧ s.commitTemplate.machine = s.machine := by
  unfold State.commitTemplate
  split
  · rename_i value _
    have hset : Inv [] (s.setTemplate value) := { h with }
    exact inv_showHosts hset
  · exact inv_showHosts h

theorem highlighted_move {s : State} (h : s.highlighted = true) (delta : Int) : (s.move delta).highlighted = true := by
  unfold State.move
  simp only
  split
  · exact h
  · rename_i hne
    generalize hsel : ((List.range s.rows.length).filter fun i => s.rows[i]?.any (·.selectable)) = selectable at hne ⊢
    have hpos : 0 < selectable.length := List.length_pos_iff.mpr (by simpa using hne)
    generalize ((selectable.findIdx? (· == s.index)).getD 0 : Int) + delta + selectable.length = position
    have hlt : (position % selectable.length).toNat < selectable.length := by
      have := Int.emod_lt_of_pos position (show (0 : Int) < selectable.length by omega)
      omega
    have hall : ∀ i ∈ selectable, s.rows[i]?.any (·.selectable) = true := by
      rw [← hsel]
      intro i hi
      exact (List.mem_filter.mp hi).2
    unfold State.highlighted
    rw [List.getElem?_eq_getElem hlt, Option.getD_some]
    exact hall _ (List.getElem_mem hlt)

theorem move_eq (s : State) (delta : Int) : ∃ i, s.move delta = { s with index := i } := by
  unfold State.move
  simp only
  split
  · exact ⟨s.index, rfl⟩
  · exact ⟨_, rfl⟩

theorem inv_move {s : State} (h : Inv [] s) (delta : Int) :
    Inv [] (s.move delta) ∧ (s.pickingTemplate = true → (s.move delta).machine = s.machine) := by
  have hhigh := highlighted_move h.highlighted delta
  obtain ⟨i, hi⟩ := move_eq s delta
  rw [hi] at hhigh ⊢
  have hsame (hp : s.pickingTemplate = true) : State.machine { s with index := i } = s.machine := by
    unfold State.machine State.parked
    rw [if_pos hp, if_pos hp]
  refine ⟨{ h with machine := ?_, highlighted := hhigh }, hsame⟩
  by_cases hpick : s.pickingTemplate = true
  · rw [hsame hpick]
    exact h.machine
  · -- Another row that can be selected, and these are machines.
    have hrows := inv_rows h (by simpa using hpick)
    unfold State.highlighted at hhigh
    unfold State.machine State.parked
    rw [if_neg hpick]
    cases hr : s.rows[i]? with
    | none => simp [hr] at hhigh
    | some r =>
      rw [hr, Option.any_some] at hhigh
      exact target_of_selectable (hrows ▸ List.mem_of_getElem? hr) hhigh

theorem inv_copyDigest {s : State} (h : Inv [] s) : Inv [] s.copyDigest ∧ s.copyDigest.machine = s.machine := by
  unfold State.copyDigest
  split
  · exact ⟨h, rfl⟩
  · rename_i digest hd
    exact ⟨{ h with copied := fun _ => ⟨by simp [hd], hd.symm⟩ }, rfl⟩

/-! ## Runs -/

/-- The highlight of the machines is moved by opening the window and by the keys on its list. -/
def Label.chooses (s : State) : Label → Bool
  | .reload _ => true
  | .move _ => !s.pickingTemplate
  | _ => false

theorem inv_step {s s' : State} {l : Label} (hs : step s l = some s') (h : Inv [] s) :
    Inv [] s' ∧ (l.chooses s = false → s'.machine = s.machine) := by
  cases l with
  | reload entries =>
    rw [step, Option.ite_none_right_eq_some] at hs
    obtain ⟨hapart, hs⟩ := hs
    cases hs
    exact ⟨inv_reload h.asked h.bases hapart, fun hc => by cases hc⟩
  | showTemplates =>
    cases hs
    exact (inv_showTemplates h).imp id fun hm _ => hm
  | showHosts =>
    cases hs
    exact (inv_showHosts h).imp id fun hm _ => hm
  | commitTemplate =>
    cases hs
    exact (inv_commitTemplate h).imp id fun hm _ => hm
  | move down =>
    cases hs
    refine (inv_move h _).imp id fun hm hc => hm ?_
    simpa [Label.chooses] using hc
  | copyDigest =>
    cases hs
    exact (inv_copyDigest h).imp id fun hm _ => hm
  | answer i a =>
    cases hi : s.pending[i]? with
    | none => simp [step, hi] at hs
    | some ask =>
      simp only [step, hi] at hs
      exact (inv_answer (inv_take h hi) hs).imp id fun hm _ => hm

theorem inv_run {template : String} {entries : List HostEntry} {run : List Label} {s : State}
    (h : exec step (init template) (.reload entries :: run) = some s) : Inv [] s := by
  obtain ⟨opened, hopen, hrun⟩ := exec_cons_some.mp h
  rw [step, Option.ite_none_right_eq_some] at hopen
  obtain ⟨hapart, hopen⟩ := hopen
  cases hopen
  have hfirst : Inv [] ((init template).reload entries) :=
    inv_reload (fun _ hx => by cases hx) (fun _ hx => by cases hx) hapart
  exact exec_inv (I := Inv []) (fun _ _ _ hx hi => (inv_step hx hi).1) hrun hfirst

/-- After the window was opened once: the machines are the ones listed at the last opening with what was answered
since, a machine that nothing is asked about any more has its answer, enter has a machine or a template to act on, and
what was copied is the digest that is shown. However it goes on, as long as the window is not opened again and no key
moves the highlight on the list of machines, the same machine stays highlighted. -/
theorem answers_in_any_order {template : String} {entries : List HostEntry} {run : List Label} {s : State}
    (h : exec step (init template) (.reload entries :: run) = some s) :
    s.hosts = machines s.entries s.probed s.vms ∧
    (∀ e ∈ s.entries, (⟨s.generation, .probe e.name⟩ : Ask) ∉ s.pending → (s.probed.lookup e.name).isSome = true) ∧
    (s.pickingTemplate = false → s.selectedHost.isSome = true) ∧
    (s.pickingTemplate = true → s.selectedTemplate.isSome = true) ∧
    (s.copied = true → s.digest.isSome = true ∧ s.clipboard = s.digest) ∧
    ∀ more t, exec step s more = some t → Meets step (fun s l => l.chooses s = false) s more →
      t.machine = s.machine ∧ t.selectedHost = if t.pickingTemplate then none else s.machine := by
  have hinv := inv_run h
  refine ⟨hinv.hosts, ?_, ?_, ?_, hinv.copied, ?_⟩
  · intro e he hin
    exact (hinv.probed e he).resolve_left hin
  · intro hp
    rw [selectedHost_eq, hp]
    exact hinv.machine
  · intro hp
    have hhigh := hinv.highlighted
    unfold State.highlighted at hhigh
    unfold State.selectedTemplate
    rw [if_pos hp]
    cases hr : s.rows[s.index]? with
    | none => simp [hr] at hhigh
    | some r =>
      obtain ⟨value, hvalue⟩ := hinv.templates hp r (List.mem_of_getElem? hr)
      simp [hvalue]
  · intro more t hrun hmeets
    have hkept : Inv [] t ∧ t.machine = s.machine := by
      refine exec_inv_of_meets (I := fun x => Inv [] x ∧ x.machine = s.machine) ?_ hmeets hrun ⟨hinv, rfl⟩
      intro x l x' hc hs hi
      obtain ⟨hx, hm⟩ := inv_step hs hi.1
      exact ⟨hx, (hm hc).trans hi.2⟩
    exact ⟨hkept.2, by rw [selectedHost_eq, hkept.2]⟩

/-- A machine and the virtual machines answer while the templates are in front. -/
def behindTemplates : List Label :=
  [.reload [⟨"spark", "100.64.0.7:4433"⟩], .showTemplates, .answer 0 (.probe ⟨true, some 12, some 1, none⟩),
    .answer 0 (.vms [⟨"vm", "running"⟩]), .showHosts, .move true]

theorem answers_in_any_order_behind_templates :
    ∃ s t, exec step (init "default") behindTemplates = some s ∧
      s.hosts.map (·.status) = [.none, .ok "ok 12ms  1 pty", .none, .plain "running"] ∧
      exec step s [.answer 0 (.digest (some "sha256:00")), .copyDigest] = some t ∧
      t.selectedHost = some (some "spark") ∧ t.clipboard = some "sha256:00" := by
  obtain ⟨t, ht⟩ := Option.isSome_iff_exists.mp (show (exec step (init "default") (behindTemplates ++
    [.answer 0 (.digest (some "sha256:00")), .copyDigest])).isSome = true by decide +kernel)
  obtain ⟨s, hs, hmore⟩ := exec_append_some.mp ht
  have hmid : (exec step (init "default") behindTemplates).map (fun s => (s.entries, s.probed, s.vms)) =
      some ([⟨"spark", "100.64.0.7:4433"⟩], [("spark", ⟨true, some 12, some 1, none⟩)], [⟨"vm", "running"⟩]) := by
    decide +kernel
  have hmachine : (exec step (init "default") behindTemplates).map State.machine = some (some (some "spark")) := by
    decide +kernel
  have hend : (exec step (init "default") (behindTemplates ++
      [.answer 0 (.digest (some "sha256:00")), .copyDigest])).map (fun t => (t.pickingTemplate, t.clipboard)) =
      some (false, some "sha256:00") := by
    decide +kernel
  rw [hs, Option.map_some, Option.some.injEq] at hmid hmachine
  rw [ht, Option.map_some, Option.some.injEq] at hend
  simp only [Prod.mk.injEq] at hmid hend
  obtain ⟨hentries, hprobed, hvms⟩ := hmid
  obtain ⟨hhosts, _, _, _, _, hkeeps⟩ := answers_in_any_order hs
  obtain ⟨_, hselected⟩ := hkeeps _ t hmore ⟨rfl, fun _ _ => ⟨rfl, fun _ _ => trivial⟩⟩
  rw [hend.1, hmachine] at hselected
  refine ⟨s, t, hs, ?_, hmore, hselected, hend.2⟩
  rw [hhosts, hentries, hprobed, hvms]
  decide +kernel

end Mux.HostsWindow
