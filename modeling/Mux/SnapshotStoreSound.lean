import Mux.SnapshotStore

/-!
# What the state files keep

At every moment the last completed save is in the main file, or the main file is missing and
the save is in the backup. A load therefore finds it after any number of crashes. Only a
load of an undecodable file touches the quarantined one.
-/

namespace Mux.Tiling

open Lib

def Phase.seeksBackup : Phase → Bool
  | .removingCorrupt | .quarantining | .loadingBackup => true
  | _ => false

def Phase.rotates : Phase → Bool
  | .removingBackup _ => true
  | _ => false

/-- A load has found its main file undecodable. -/
def Phase.setsAside : Phase → Bool
  | .removingCorrupt | .quarantining => true
  | _ => false

theorem moveItem_cases {D : Type} (ok : Bool) (source target : Option D) :
    (moveItem ok source target = (none, source) ∧ target = none) ∨ moveItem ok source target = (source, target) := by
  unfold moveItem
  by_cases h : (ok && source.isSome && target.isNone) = true
  · rw [if_pos h]
    simp only [Bool.and_eq_true, Option.isNone_iff_eq_none] at h
    exact Or.inl ⟨rfl, h.2⟩
  · rw [if_neg h]
    exact Or.inr rfl

namespace Store

variable {D : Type} (txt : JsonText D)

/-- The file operations and the reads, each with what it does. -/
inductive Proceeds (s : Store D) (ok : Bool) (draw : Nat → Nat) : Store D → Prop where
  | removePreCrash (hp : s.phase = .removingPreCrash) :
    Proceeds s ok draw { s with preCrash := removeItem ok s.preCrash, phase := .copying }
  | copy (hp : s.phase = .copying) :
    Proceeds s ok draw { s with preCrash := copyItem ok s.main s.preCrash, phase := .arming }
  | arm (hp : s.phase = .arming) : Proceeds s ok draw { s with running := s.running || ok, phase := .loading }
  | missing (hp : s.phase = .loading) (hm : s.main = none) : Proceeds s ok draw { s with phase := .loadingBackup }
  | undecodable (hp : s.phase = .loading) (d : D) (hm : s.main = some d) (hd : txt.decode draw d = none) :
    Proceeds s ok draw { s with phase := .removingCorrupt }
  | load (hp : s.phase = .loading) (d : D) (t : AppSnapshot) (hm : s.main = some d) (hd : txt.decode draw d = some t) :
    Proceeds s ok draw (s.finish (some t))
  | removeCorrupt (hp : s.phase = .removingCorrupt) :
    Proceeds s ok draw { s with corrupt := removeItem ok s.corrupt, phase := .quarantining }
  | quarantine (hp : s.phase = .quarantining) :
    Proceeds s ok draw { s with
      main := (moveItem ok s.main s.corrupt).1, corrupt := (moveItem ok s.main s.corrupt).2, phase := .loadingBackup }
  | loadBackup (hp : s.phase = .loadingBackup) : Proceeds s ok draw (s.finish (s.backup.bind (txt.decode draw)))
  | removeBackup (v : Save) (hp : s.phase = .removingBackup v) :
    Proceeds s ok draw { s with backup := removeItem ok s.backup, phase := .rotating v }
  | rotate (v : Save) (hp : s.phase = .rotating v) :
    Proceeds s ok draw { s with
      main := (moveItem ok s.main s.backup).1, backup := (moveItem ok s.main s.backup).2, phase := .writing v }
  | write (v : Save) (hp : s.phase = .writing v) (hok : ok = true) :
    Proceeds s ok draw { s with main := some (v.data txt), completed := some v, phase := .idle }
  | writeFails (v : Save) (hp : s.phase = .writing v) (hok : ok = false) : Proceeds s ok draw { s with phase := .idle }

theorem proceeds_of_proceed {s s' : Store D} {ok : Bool} {draw : Nat → Nat} (hs : s.proceed txt ok draw = some s') :
    Proceeds txt s ok draw s' := by
  unfold proceed at hs
  cases hp : s.phase with
  | down => simp only [hp] at hs; cases hs
  | idle => simp only [hp] at hs; cases hs
  | removingPreCrash =>
    simp only [hp] at hs
    cases hs
    exact .removePreCrash hp
  | copying =>
    simp only [hp] at hs
    cases hs
    exact .copy hp
  | arming =>
    simp only [hp] at hs
    cases hs
    exact .arm hp
  | loading =>
    simp only [hp] at hs
    cases hm : s.main with
    | none =>
      simp only [hm] at hs
      cases hs
      exact hm ▸ .missing hp hm
    | some d =>
      simp only [hm] at hs
      cases hd : txt.decode draw d with
      | none =>
        simp only [hd] at hs
        cases hs
        exact hm ▸ .undecodable hp d hm hd
      | some t =>
        simp only [hd] at hs
        cases hs
        exact .load hp d t hm hd
  | removingCorrupt =>
    simp only [hp] at hs
    cases hs
    exact .removeCorrupt hp
  | quarantining =>
    simp only [hp] at hs
    cases hs
    exact .quarantine hp
  | loadingBackup =>
    simp only [hp] at hs
    cases hs
    exact .loadBackup hp
  | removingBackup v =>
    simp only [hp] at hs
    cases hs
    exact .removeBackup v hp
  | rotating v =>
    simp only [hp] at hs
    cases hs
    exact .rotate v hp
  | writing v =>
    simp only [hp] at hs
    cases hok : ok with
    | true =>
      rw [hok, if_pos rfl] at hs
      cases hs
      exact hok ▸ .write v hp hok
    | false =>
      rw [hok, if_neg Bool.false_ne_true] at hs
      cases hs
      exact .writeFails v hp rfl

/-- A load would find this save. -/
def Holds (s : Store D) (v : Save) : Prop :=
  s.main = some (v.data txt) ∨ s.main = none ∧ s.backup = some (v.data txt)

structure Inv (s : Store D) : Prop where
  kept : ∀ v, s.completed = some v → s.Holds txt v
  rotates : s.phase.rotates = true → s.main ≠ none
  unread : s.phase.seeksBackup = true → ∃ draw, s.main.bind (txt.decode draw) = none
  loads : ∀ l ∈ s.loads, ∀ v, l.completed = some v → ∃ t, l.result = some t ∧ t.Alike v.snapshot.readBack

theorem decode_data (v : Save) (draw : Nat → Nat) :
    ∃ t, txt.decode draw (v.data txt) = some t ∧ t.Alike v.snapshot.readBack :=
  ⟨_, txt.decode_encode v.it v.wf draw, AppSnapshot.alike_ordered _ _⟩

variable {txt}

theorem start_inv (main backup corrupt preCrash : Option D) (running : Bool) :
    (start main backup corrupt preCrash running).Inv txt :=
  ⟨fun _ h => (by cases h), fun h => (by cases h), fun h => (by cases h), fun _ h => absurd h List.not_mem_nil⟩

/-- The files of the state stay, and no rotation begins. -/
theorem Inv.keeps {s s' : Store D} (h : s.Inv txt) (hm : s'.main = s.main) (hb : s'.backup = s.backup)
    (hc : s'.completed = s.completed) (hl : s'.loads = s.loads) (hr : s'.phase.rotates = false)
    (hs : s'.phase.seeksBackup = true → ∃ draw, s.main.bind (txt.decode draw) = none) : s'.Inv txt := by
  refine ⟨fun v hv => ?_, fun hp => ?_, ?_, ?_⟩
  · rw [Holds, hm, hb]
    exact h.kept v (hc ▸ hv)
  · rw [hr] at hp
    cases hp
  · rw [hm]
    exact hs
  · rw [hl]
    exact h.loads

/-- As `keeps`, into a phase that asks nothing of the files. -/
theorem Inv.calm {s s' : Store D} (h : s.Inv txt) (hm : s'.main = s.main) (hb : s'.backup = s.backup)
    (hc : s'.completed = s.completed) (hl : s'.loads = s.loads) (hr : s'.phase.rotates = false)
    (hs : s'.phase.seeksBackup = false) : s'.Inv txt := by
  refine h.keeps hm hb hc hl hr fun hp => ?_
  rw [hs] at hp
  cases hp

theorem Inv.finish {s : Store D} (h : s.Inv txt) {result : Option AppSnapshot}
    (hr : ∀ v, s.completed = some v → ∃ t, result = some t ∧ t.Alike v.snapshot.readBack) :
    (s.finish result).Inv txt := by
  refine ⟨h.kept, fun hp => (by cases hp), fun hp => (by cases hp), fun l hl => ?_⟩
  rcases List.mem_append.mp hl with hl | hl
  · exact h.loads l hl
  · obtain rfl := List.mem_singleton.mp hl
    exact hr

/-- While the main file does not decode, what is complete is in the backup. -/
theorem Inv.in_backup {s : Store D} (h : s.Inv txt) (hp : s.phase.seeksBackup = true) {v : Save}
    (hv : s.completed = some v) : s.main = none ∧ s.backup = some (v.data txt) := by
  rcases h.kept v hv with hm | hb
  · obtain ⟨draw, hd⟩ := h.unread hp
    obtain ⟨t, ht, -⟩ := decode_data txt v draw
    rw [hm, Option.bind_some, ht] at hd
    cases hd
  · exact hb

theorem proceed_inv {s s' : Store D} {ok : Bool} {draw : Nat → Nat} (h : s.Inv txt)
    (hs : s.proceed txt ok draw = some s') : s'.Inv txt := by
  cases proceeds_of_proceed txt hs with
  | removePreCrash hp => exact h.calm rfl rfl rfl rfl rfl rfl
  | copy hp => exact h.calm rfl rfl rfl rfl rfl rfl
  | arm hp => exact h.calm rfl rfl rfl rfl rfl rfl
  | missing hp hm => exact h.keeps rfl rfl rfl rfl rfl fun _ => ⟨draw, by simp [hm]⟩
  | undecodable hp d hm hd => exact h.keeps rfl rfl rfl rfl rfl fun _ => ⟨draw, by simp [hm, hd]⟩
  | load hp d t hm hd =>
    apply h.finish
    intro v hv
    rcases h.kept v hv with hk | hk
    · obtain ⟨u, hu, hsame⟩ := decode_data txt v draw
      rw [hm] at hk
      cases hk
      rw [hd] at hu
      exact ⟨u, hu, hsame⟩
    · rw [hm] at hk
      cases hk.1
  | removeCorrupt hp => exact h.keeps rfl rfl rfl rfl rfl fun _ => h.unread (by rw [hp]; rfl)
  | quarantine hp =>
    have hseek : s.phase.seeksBackup = true := by rw [hp]; rfl
    refine ⟨fun v hv => ?_, fun hp => (by cases hp), fun _ => ?_, h.loads⟩
    · -- there is nothing to move aside where a save is complete
      have hb := h.in_backup hseek hv
      refine Or.inr ⟨?_, hb.2⟩
      rcases moveItem_cases ok s.main s.corrupt with ⟨heq, -⟩ | heq
      · rw [heq]
      · rw [heq]
        exact hb.1
    · obtain ⟨draw', hd⟩ := h.unread hseek
      rcases moveItem_cases ok s.main s.corrupt with ⟨heq, -⟩ | heq
      · exact ⟨draw', by rw [heq]; rfl⟩
      · exact ⟨draw', by rw [heq]; exact hd⟩
  | loadBackup hp =>
    apply h.finish
    intro v hv
    have hb := h.in_backup (by rw [hp]; rfl) hv
    rw [hb.2]
    exact decode_data txt v draw
  | removeBackup w hp =>
    have hmain := h.rotates (by rw [hp]; rfl)
    refine ⟨fun v hv => ?_, fun hp => (by cases hp), fun hp => (by cases hp), h.loads⟩
    rcases h.kept v hv with hk | hk
    · exact Or.inl hk
    · exact absurd hk.1 hmain
  | rotate w hp =>
    refine ⟨fun v hv => ?_, fun hp => (by cases hp), fun hp => (by cases hp), h.loads⟩
    rcases moveItem_cases ok s.main s.backup with ⟨heq, hnone⟩ | heq
    · refine Or.inr ?_
      rcases h.kept v hv with hk | hk
      · rw [heq]
        exact ⟨rfl, hk⟩
      · rw [hnone] at hk
        cases hk.2
    · show (moveItem ok s.main s.backup).1 = _ ∨ (moveItem ok s.main s.backup).1 = none ∧ _
      rw [heq]
      exact h.kept v hv
  | write w hp hok =>
    refine ⟨fun v hv => ?_, fun hp => (by cases hp), fun hp => (by cases hp), h.loads⟩
    cases hv
    exact Or.inl rfl
  | writeFails w hp hok => exact h.calm rfl rfl rfl rfl rfl rfl

variable [DecidableEq D]

theorem save_inv {s : Store D} (h : s.Inv txt) (v : Save) (hidle : s.phase = .idle) : (s.save txt v).Inv txt := by
  unfold save
  by_cases heq : s.main = some (v.data txt)
  · rw [if_pos heq]
    refine ⟨fun w hw => ?_, fun hp => ?_, fun hp => ?_, h.loads⟩
    · cases hw
      exact Or.inl heq
    · rw [hidle] at hp
      cases hp
    · rw [hidle] at hp
      cases hp
  · rw [if_neg heq]
    by_cases hm : s.main.isSome = true
    · rw [if_pos hm]
      refine ⟨h.kept, fun _ hnone => ?_, fun hp => (by cases hp), h.loads⟩
      rw [show s.main = none from hnone] at hm
      cases hm
    · rw [if_neg hm]
      exact h.calm rfl rfl rfl rfl rfl rfl

theorem step_inv {s s' : Store D} {a : StoreLabel} (hs : s.step txt a = some s') (h : s.Inv txt) : s'.Inv txt := by
  cases a with
  | launch =>
    cases hp : s.phase <;> simp only [step, hp] at hs <;> cases hs
    cases s.running <;> exact h.calm rfl rfl rfl rfl rfl rfl
  | proceed ok draw => exact proceed_inv h hs
  | save v =>
    cases hp : s.phase <;> simp only [step, hp] at hs <;> cases hs
    exact save_inv h v hp
  | terminate ok =>
    cases hp : s.phase <;> simp only [step, hp] at hs <;> cases hs
    exact h.calm rfl rfl rfl rfl rfl rfl
  | crash =>
    cases hp : s.phase <;> simp only [step, hp] at hs <;> cases hs
    all_goals exact h.calm rfl rfl rfl rfl rfl rfl

theorem run_inv {main backup corrupt preCrash : Option D} {running : Bool} {run : List StoreLabel} {s : Store D}
    (h : exec (step txt) (start main backup corrupt preCrash running) run = some s) : s.Inv txt :=
  exec_inv (fun _ _ _ hs hi => step_inv hs hi) h (start_inv main backup corrupt preCrash running)

/-! ## What a load sets aside -/

theorem quarantine_load {s : Store D} (hp : s.phase = .loading) {d : D} (hm : s.main = some d) {draw : Nat → Nat}
    (hd : txt.decode draw d = none) (draw' : Nat → Nat) :
    exec (step txt) s [.proceed true draw, .proceed true draw, .proceed true draw, .proceed true draw'] =
      some { s with
        main := none
        corrupt := some d
        phase := .idle
        loads := s.loads ++ [⟨s.completed, s.backup.bind (txt.decode draw')⟩] } := by
  simp [exec, step, proceed, hp, hm, hd, removeItem, moveItem, finish]

theorem corrupt_step {s s' : Store D} {a : StoreLabel} (hs : s.step txt a = some s')
    (hp : s.phase.setsAside = false) :
    s'.corrupt = s.corrupt := by
  cases a with
  | launch =>
    cases hph : s.phase <;> simp only [step, hph] at hs <;> cases hs
    rfl
  | proceed ok draw =>
    unfold step proceed at hs
    cases hph : s.phase with
    | removingCorrupt => rw [hph] at hp; cases hp
    | quarantining => rw [hph] at hp; cases hp
    | loading =>
      simp only [hph] at hs
      repeat' split at hs
      all_goals cases hs; rfl
    | writing v =>
      simp only [hph] at hs
      split at hs <;> cases hs <;> rfl
    | _ => simp only [hph] at hs; cases hs <;> rfl
  | save v =>
    cases hph : s.phase <;> simp only [step, hph] at hs <;> cases hs
    unfold save
    split <;> rfl
  | terminate ok =>
    cases hph : s.phase <;> simp only [step, hph] at hs <;> cases hs
    rfl
  | crash => cases hph : s.phase <;> simp only [step, hph] at hs <;> cases hs <;> rfl

end Store

/-! ## Examples of texts -/

/-- A text for one snapshot; other documents stand for themselves. -/
noncomputable def JsonText.showing (sample : AppSnapshot) (text : String) : JsonText (String ⊕ AppSnapshot) where
  print j := open Classical in
    if j = sample.encode then .inl text else if h : ∃ s : AppSnapshot, s.encode = j then .inr h.choose else .inl ""
  parse
    | .inl t => if t = text then some sample.encode else none
    | .inr s => some s.encode
  parse_print s _ := by
    by_cases h : s.encode = sample.encode
    · simp [h]
    · have hex : ∃ t : AppSnapshot, t.encode = s.encode := ⟨s, rfl⟩
      simp only [if_neg h, dif_pos hex]
      exact congrArg some hex.choose_spec

def Iteration.plain {α : Type} : Iteration α := ⟨fun l => l, fun l => .refl l⟩

def Iteration.reversed {α : Type} : Iteration α := ⟨List.reverse, List.reverse_perm⟩

def oneWindow : AppSnapshot := ⟨[⟨[], ⟨1, [], 0, none⟩⟩], none⟩

def oneWindowText : String :=
  "\x7b\n  \"version\" : 4,\n  \"windows\" : [\n    \x7b\n      \"activeSession\" : 0,\n      \"frame\" : [\n\n      ],\n" ++
  "      \"id\" : \"00000000-0000-0000-0000-000000000001\",\n      \"sessions\" : [\n\n      ]\n    \x7d\n  ]\n\x7d"

theorem wf_oneWindow : oneWindow.Wf := by
  refine ⟨fun w hw => ?_, fun _ h => by cases h⟩
  obtain rfl := List.mem_singleton.mp hw
  exact ⟨by unfold IsUuid; decide, fun _ h => absurd h List.not_mem_nil, fun _ h => by cases h⟩

def saveOneWindow : Save := ⟨oneWindow, .plain, wf_oneWindow⟩

namespace Store

variable {D : Type} {txt : JsonText D} [DecidableEq D]

/-! ## Crashes -/

variable (txt) in
/-- What holds in a state the files can be in. -/
structure CrashSafe (s : Store D) : Prop where
  loads : ∀ l ∈ s.loads, ∀ v, l.completed = some v → ∃ t, l.result = some t ∧ t.Alike v.snapshot.readBack
  quarantines : ∀ d draw draw', s.phase = .loading → s.main = some d → txt.decode draw d = none →
    ∃ s', exec (step txt) s [.proceed true draw, .proceed true draw, .proceed true draw, .proceed true draw'] =
        some s' ∧
      s'.corrupt = some d ∧ s'.main = none ∧
      s'.loads = s.loads ++ [⟨s.completed, s.backup.bind (txt.decode draw')⟩] ∧
      ∀ later s'', Meets (step txt) (fun m _ => m.phase.setsAside = false) s' later →
        exec (step txt) s' later = some s'' →
        s''.corrupt = some d

/-- After any saves, crashes and loads, from any files. -/
theorem crash_safe {main backup corrupt preCrash : Option D} {running : Bool} {run : List StoreLabel} {s : Store D}
    (h : exec (step txt) (start main backup corrupt preCrash running) run = some s) : CrashSafe txt s := by
  refine ⟨(run_inv h).loads, fun d draw draw' hp hm hd => ⟨_, quarantine_load hp hm hd draw', rfl, rfl, rfl, ?_⟩⟩
  intro later s'' hmeets hrun
  refine exec_inv_of_meets (I := fun m : Store D => m.corrupt = some d) ?_ hmeets hrun rfl
  intro m a m' hp hs hc
  rw [corrupt_step hs hp, hc]

def always : StoreLabel := .proceed true fun n => n

/-- A save, a crash, and the next launch. -/
def saveReload (v : Save) : List StoreLabel :=
  [.launch, always, always, always, .save v, always, .crash, .launch, always, always, always, always]

theorem exec_saveReload (txt : JsonText D) (v : Save) :
    exec (step txt) (start none none none none false) (saveReload v) =
      some ⟨some (v.data txt), none, none, some (v.data txt), true, .idle, some v,
        [⟨none, none⟩, ⟨some v, some (v.snapshot.readBack.ordered v.it)⟩]⟩ := by
  have hd : txt.decode (fun n => n) (v.data txt) = some (v.snapshot.readBack.ordered v.it) :=
    txt.decode_encode v.it v.wf _
  simp [exec, saveReload, always, step, proceed, start, save, finish, hd, removeItem, copyItem]

/-- A save that names no active window reads back with the first one. -/
theorem load_names_first_window :
    ∃ s, exec (step (.showing oneWindow oneWindowText)) (start none none none none false) (saveReload saveOneWindow) =
        some s ∧
      ∃ l ∈ s.loads, ∃ v, l.completed = some v ∧ ¬∃ t, l.result = some t ∧ t.Alike v.snapshot := by
  refine ⟨_, exec_saveReload _ saveOneWindow, _, List.mem_cons_of_mem _ List.mem_cons_self, saveOneWindow, rfl, ?_⟩
  rintro ⟨t, ht, hsame⟩
  cases ht
  have hactive := hsame.activeWindow
  revert hactive
  decide

theorem crash_safe_oneWindow :
    ∃ s, exec (step (.showing oneWindow oneWindowText)) (start none none none none false) (saveReload saveOneWindow) =
        some s ∧ CrashSafe (.showing oneWindow oneWindowText) s :=
  ⟨_, exec_saveReload _ saveOneWindow, crash_safe (exec_saveReload _ saveOneWindow)⟩

end Store

end Mux.Tiling
