import Mux.SnapshotStoreSound

/-!
# Saves that change nothing, and the pre-crash copy

A save compares bytes, and the bytes of a snapshot depend on the order its dictionaries are
iterated in. A launch after a crash copies the main file only, while the load it is followed
by falls back to the backup.
-/

namespace Mux.Tiling

open Lib

/-- `checkAndArm` and the load. -/
def Phase.launching : Phase → Bool
  | .removingPreCrash | .copying | .arming | .loading | .removingCorrupt | .quarantining | .loadingBackup => true
  | _ => false

namespace Store

variable {D : Type} {txt : JsonText D} [DecidableEq D]

/-! ## An unchanged snapshot -/

variable (txt) in
/-- Whatever its file operations do, the save leaves the state and its backup as they are. -/
def Unchanged (s : Store D) (v : Save) : Prop :=
  ∀ (oks : List (Bool × (Nat → Nat))) (s' : Store D),
    exec (step txt) s (.save v :: oks.map fun o => .proceed o.1 o.2) = some s' →
      s'.main = s.main ∧ s'.backup = s.backup

theorem unchanged_of_eq {s : Store D} (hp : s.phase = .idle) {v : Save} (hm : s.main = some (v.data txt)) :
    Unchanged txt s v := by
  intro oks s' h
  obtain ⟨m, h1, h2⟩ := exec_cons_some.mp h
  simp only [step, hp, save, if_pos hm] at h1
  cases h1
  -- nothing is left to do
  cases oks with
  | nil =>
    cases h2
    exact ⟨rfl, rfl⟩
  | cons o oks =>
    obtain ⟨m', h3, -⟩ := exec_cons_some.mp h2
    simp [step, proceed] at h3

theorem exec_save {s : Store D} (hp : s.phase = .idle) {d : D} (hm : s.main = some d) {v : Save}
    (hne : d ≠ v.data txt) (draw : Nat → Nat) :
    exec (step txt) s [.save v, .proceed true draw, .proceed true draw, .proceed true draw] =
      some { s with main := some (v.data txt), backup := some d, completed := some v } := by
  simp [exec, step, proceed, save, hp, hm, hne, removeItem, moveItem]

theorem unchanged_iff_eq {s : Store D} (hp : s.phase = .idle) {d : D} (hm : s.main = some d) {v : Save} :
    Unchanged txt s v ↔ d = v.data txt := by
  constructor
  · intro h
    by_contra hne
    have hrun := exec_save hp hm hne fun _ => 0
    have hsame := h [(true, fun _ => 0), (true, fun _ => 0), (true, fun _ => 0)] _ hrun
    rw [hm] at hsame
    exact hne (Option.some.inj hsame.1).symm
  · intro h
    exact unchanged_of_eq hp (h ▸ hm)

/-- The two saves name the same active window and go through every pane dictionary in the same order. -/
def SameOrder (v w : Save) : Prop := v.snapshot.ordered v.it = w.snapshot.ordered w.it

omit [DecidableEq D] in
theorem data_eq_iff {v w : Save} : v.data txt = w.data txt ↔ SameOrder v w := by
  constructor
  · intro h
    exact txt.encode_injective v.wf w.wf h
  · intro h
    show txt.print (v.snapshot.ordered v.it).encode = txt.print (w.snapshot.ordered w.it).encode
    rw [show v.snapshot.ordered v.it = w.snapshot.ordered w.it from h]

/-- Whatever the file decodes to, a save leaves the files alone exactly if the file was written in the order of
the save. -/
theorem unchanged_iff_sameOrder {s : Store D} (hp : s.phase = .idle) {d : D} (hm : s.main = some d) (v : Save) :
    (Unchanged txt s v ↔ ∃ w : Save, d = w.data txt ∧ SameOrder w v) ∧
      ∀ w : Save, d = w.data txt → (Unchanged txt s v ↔ SameOrder w v) := by
  have hiff : Unchanged txt s v ↔ d = v.data txt := unchanged_iff_eq hp hm
  refine ⟨?_, fun w hw => ?_⟩
  · rw [hiff]
    constructor
    · intro h
      exact ⟨v, h, rfl⟩
    · rintro ⟨w, rfl, hsame⟩
      exact data_eq_iff.mpr hsame
  · rw [hiff, hw]
    exact data_eq_iff

/-- Two panes side by side, of which the file says nothing else. -/
def twoPanes : AppSnapshot :=
  ⟨[⟨[], ⟨1, [⟨.split .horizontal (1 / 2) (.leaf 2) (.leaf 3),
    [(2, ⟨none, none, none, none⟩), (3, ⟨none, none, none, none⟩)],
    none, none⟩], 0, none⟩⟩], some 1⟩

def twoPanesText : String :=
  "\x7b\n  \"activeWindow\" : \"00000000-0000-0000-0000-000000000001\",\n  \"version\" : 4,\n" ++
  "  \"windows\" : [\n    \x7b\n      \"activeSession\" : 0,\n      \"frame\" : [\n\n      ],\n" ++
  "      \"id\" : \"00000000-0000-0000-0000-000000000001\",\n      \"sessions\" : [\n        \x7b\n" ++
  "          \"panes\" : [\n            \"00000000-0000-0000-0000-000000000002\",\n            \x7b\n\n" ++
  "            \x7d,\n            \"00000000-0000-0000-0000-000000000003\",\n            \x7b\n\n" ++
  "            \x7d\n          ],\n          \"tree\" : \x7b\n            \"split\" : \x7b\n" ++
  "              \"_0\" : \x7b\n                \"direction\" : \"horizontal\",\n" ++
  "                \"first\" : \x7b\n                  \"leaf\" : \x7b\n" ++
  "                    \"_0\" : \"00000000-0000-0000-0000-000000000002\"\n                  \x7d\n" ++
  "                \x7d,\n                \"ratio\" : 0.5,\n                \"second\" : \x7b\n" ++
  "                  \"leaf\" : \x7b\n" ++
  "                    \"_0\" : \"00000000-0000-0000-0000-000000000003\"\n                  \x7d\n" ++
  "                \x7d\n              \x7d\n            \x7d\n          \x7d\n        \x7d\n      ]\n" ++
  "    \x7d\n  ]\n\x7d"

theorem wf_twoPanes : twoPanes.Wf := by
  have h1 : IsUuid 1 := by unfold IsUuid; decide
  have h2 : IsUuid 2 := by unfold IsUuid; decide
  have h3 : IsUuid 3 := by unfold IsUuid; decide
  refine ⟨fun w hw => ?_, fun id hid => by cases hid; exact h1⟩
  obtain rfl := List.mem_singleton.mp hw
  refine ⟨h1, fun x hx => ?_, fun _ h => by cases h⟩
  obtain rfl := List.mem_singleton.mp hx
  refine ⟨?_, ?_, by decide, fun _ h => (by cases h), fun _ h => (by cases h)⟩
  · simp [SplitNode.leaves, h2, h3]
  · simp [h2, h3]

def savePlain : Save := ⟨twoPanes, .plain, wf_twoPanes⟩

def saveReversed : Save := ⟨twoPanes, .reversed, wf_twoPanes⟩

theorem not_sameOrder_reversed : ¬SameOrder savePlain saveReversed := by
  unfold SameOrder
  decide +kernel

/-- The app that is launched again goes through the two panes in the other order. -/
noncomputable def relaunched : Store (String ⊕ AppSnapshot) :=
  ⟨some (savePlain.data (.showing twoPanes twoPanesText)), none, none, none, true, .idle, none, []⟩

theorem same_snapshot_rotated :
    ∃ d t, relaunched.main = some d ∧ (JsonText.showing twoPanes twoPanesText).decode (fun n => n) d = some t ∧
      t.Alike saveReversed.snapshot ∧ ¬Unchanged (.showing twoPanes twoPanesText) relaunched saveReversed := by
  refine ⟨_, _, rfl, JsonText.decode_encode _ savePlain.it savePlain.wf _, AppSnapshot.alike_ordered _ _, fun h => ?_⟩
  have hd := (unchanged_iff_eq rfl rfl).mp h
  exact not_sameOrder_reversed (data_eq_iff.mp hd)

theorem unchanged_iff_sameOrder_twoPanes :
    relaunched.phase = .idle ∧ Unchanged (.showing twoPanes twoPanesText) relaunched savePlain :=
  ⟨rfl, ((unchanged_iff_sameOrder rfl rfl savePlain).2 savePlain rfl).mpr rfl⟩

/-! ## The pre-crash copy -/

/-- A launch goes through without a crash, and its own file operations succeed. -/
def Undisturbed (s : Store D) : StoreLabel → Prop
  | .launch | .crash => False
  | .proceed ok _ => s.phase.launching = true → ok = true
  | _ => True

variable (txt) in
/-- How far a launch from the files of `s₀` has come, and what it has done to them. -/
def Launching (s₀ s : Store D) : Prop :=
  match s.phase with
  | .removingPreCrash => s.main = s₀.main ∧ s.backup = s₀.backup ∧ s.loads = s₀.loads
  | .copying => s.preCrash = none ∧ s.main = s₀.main ∧ s.backup = s₀.backup ∧ s.loads = s₀.loads
  | .arming | .loading => s.preCrash = s₀.main ∧ s.main = s₀.main ∧ s.backup = s₀.backup ∧ s.loads = s₀.loads
  | .removingCorrupt | .quarantining | .loadingBackup =>
    s.preCrash = s₀.main ∧ s.backup = s₀.backup ∧ s.loads = s₀.loads ∧
      ∃ draw, s₀.main.bind (txt.decode draw) = none
  | _ => s.preCrash = s₀.main ∧ ∃ c draw draw', s.loads = s₀.loads ++
      [⟨c, (s₀.main.bind (txt.decode draw)).or (s₀.backup.bind (txt.decode draw'))⟩]

omit [DecidableEq D] in
theorem launching_proceed {s₀ s s' : Store D} {ok : Bool} {draw : Nat → Nat} (h : Launching txt s₀ s)
    (hok : s.phase.launching = true → ok = true) (hs : s.proceed txt ok draw = some s') : Launching txt s₀ s' := by
  cases proceeds_of_proceed txt hs with
  | removePreCrash hp =>
    simp only [Launching, hp] at h
    cases hok (by rw [hp]; rfl)
    exact ⟨rfl, h⟩
  | copy hp =>
    simp only [Launching, hp] at h
    cases hok (by rw [hp]; rfl)
    refine ⟨?_, h.2⟩
    show copyItem true s.main s.preCrash = s₀.main
    rw [h.1, h.2.1, copyItem]
    cases s₀.main <;> rfl
  | arm hp =>
    simp only [Launching, hp] at h
    exact h
  | missing hp hm =>
    simp only [Launching, hp] at h
    obtain ⟨hpre, hmain, hback, hloads⟩ := h
    exact ⟨hpre, hback, hloads, draw, by rw [← hmain, hm]; rfl⟩
  | undecodable hp d hm hd =>
    simp only [Launching, hp] at h
    obtain ⟨hpre, hmain, hback, hloads⟩ := h
    exact ⟨hpre, hback, hloads, draw, by rw [← hmain, hm]; exact hd⟩
  | load hp d t hm hd =>
    simp only [Launching, hp] at h
    obtain ⟨hpre, hmain, hback, hloads⟩ := h
    refine ⟨hpre, s.completed, draw, draw, ?_⟩
    show s.loads ++ _ = _
    rw [hloads, ← hmain, hm, Option.bind_some, hd]
    rfl
  | removeCorrupt hp =>
    simp only [Launching, hp] at h
    exact h
  | quarantine hp =>
    simp only [Launching, hp] at h
    exact h
  | loadBackup hp =>
    simp only [Launching, hp] at h
    obtain ⟨hpre, hback, hloads, draw', hnone⟩ := h
    refine ⟨hpre, s.completed, draw', draw, ?_⟩
    show s.loads ++ _ = _
    rw [hloads, hback, hnone, Option.none_or]
  | removeBackup v hp =>
    simp only [Launching, hp] at h
    exact h
  | rotate v hp =>
    simp only [Launching, hp] at h
    exact h
  | write v hp _ =>
    simp only [Launching, hp] at h
    exact h
  | writeFails v hp _ =>
    simp only [Launching, hp] at h
    exact h

theorem launching_step {s₀ s s' : Store D} {a : StoreLabel} (hu : Undisturbed s a) (hs : s.step txt a = some s')
    (h : Launching txt s₀ s) : Launching txt s₀ s' := by
  cases a with
  | launch => cases hu
  | crash => cases hu
  | proceed ok draw => exact launching_proceed h hu hs
  | save v =>
    cases hp : s.phase <;> simp only [step, hp] at hs <;> cases hs
    simp only [Launching, hp] at h
    unfold save
    split
    · simp only [Launching, hp]
      exact h
    · cases s.main <;> exact h
  | terminate ok =>
    cases hp : s.phase <;> simp only [step, hp] at hs <;> cases hs
    simp only [Launching, hp] at h
    exact h

variable (txt) in
/-- The pre-crash file reads as what the last load returned. -/
def Frozen (s : Store D) : Prop :=
  ∃ t draw, (s.loads.getLast?).bind (fun l => l.result) = some t ∧ s.preCrash.bind (txt.decode draw) = some t

variable (txt) in
def MainDecodes (s : Store D) : Prop := ∃ d draw, s.main = some d ∧ (txt.decode draw d).isSome = true

omit [DecidableEq D] in
theorem isSome_decode (draw draw' : Nat → Nat) (d : D) :
    (txt.decode draw d).isSome = (txt.decode draw' d).isSome := by
  unfold JsonText.decode
  cases txt.parse d with
  | none => rfl
  | some j => exact AppSnapshot.isSome_decode draw draw' j

omit [DecidableEq D] in
theorem frozen_iff {s₀ s : Store D} (h : Launching txt s₀ s) (hdone : s.phase.launching = false) :
    Frozen txt s ↔ MainDecodes txt s₀ := by
  have hend : s.preCrash = s₀.main ∧ ∃ c draw draw', s.loads = s₀.loads ++
      [⟨c, (s₀.main.bind (txt.decode draw)).or (s₀.backup.bind (txt.decode draw'))⟩] := by
    unfold Launching at h
    cases hp : s.phase <;> simp only [hp] at h <;> first | exact h | (rw [hp] at hdone; cases hdone)
  obtain ⟨hpre, c, draw, draw', hloads⟩ := hend
  unfold Frozen MainDecodes
  rw [hpre, hloads, List.getLast?_concat]
  simp only [Option.bind_some]
  constructor
  · rintro ⟨t, draw₂, -, hd⟩
    obtain ⟨d, hm, ht⟩ := Option.bind_eq_some_iff.mp hd
    exact ⟨d, draw₂, hm, by rw [ht]; rfl⟩
  · rintro ⟨d, draw₂, hm, hd⟩
    rw [isSome_decode draw₂ draw] at hd
    obtain ⟨t, ht⟩ := Option.isSome_iff_exists.mp hd
    exact ⟨t, draw, by rw [hm, Option.bind_some, ht, Option.some_or], by rw [hm, Option.bind_some, ht]⟩

theorem preCrash_frozen_iff {main backup corrupt preCrash : Option D} {running : Bool} {run : List StoreLabel}
    {s₀ s₁ s : Store D} (h : exec (step txt) (start main backup corrupt preCrash running) run = some s₀)
    (harmed : s₀.running = true) (hlaunch : s₀.step txt .launch = some s₁) {later : List StoreLabel}
    (hu : Meets (step txt) Undisturbed s₁ later) (hrun : exec (step txt) s₁ later = some s)
    (hdone : s.phase.launching = false) :
    (Frozen txt s ↔ MainDecodes txt s₀) ∧ ∀ v, s₀.completed = some v → (Frozen txt s ↔ s₀.main ≠ none) := by
  have hfirst : Launching txt s₀ s₁ := by
    cases hp : s₀.phase <;> simp only [step, hp, harmed, if_true] at hlaunch <;> cases hlaunch
    exact ⟨rfl, rfl, rfl⟩
  have hlast : Launching txt s₀ s :=
    exec_inv_of_meets (I := fun m => Launching txt s₀ m) (fun _ _ _ hu hs hi => launching_step hu hs hi) hu hrun hfirst
  have hiff := frozen_iff hlast hdone
  refine ⟨hiff, fun v hv => ?_⟩
  rw [hiff]
  constructor
  · rintro ⟨d, draw, hm, -⟩
    simp [hm]
  · intro hne
    rcases (run_inv h).kept v hv with hm | hm
    · obtain ⟨t, ht, -⟩ := decode_data txt v fun n => n
      exact ⟨_, fun n => n, hm, by rw [ht]; rfl⟩
    · exact absurd hm.1 hne

/-- The crash comes when the second save has moved the first one aside. -/
def cutOff (v w : Save) : List StoreLabel :=
  [.launch, always, always, always, .save v, always, .save w, always, always, .crash]

theorem exec_cutOff (txt : JsonText D) {v w : Save} (hne : v.data txt ≠ w.data txt) :
    exec (step txt) (start none none none none false) (cutOff v w) =
      some ⟨none, some (v.data txt), none, none, true, .down, some v, [⟨none, none⟩]⟩ := by
  simp [exec, cutOff, always, step, proceed, start, save, finish, hne, removeItem, moveItem]

def saveNothing : Save := ⟨⟨[], none⟩, .plain, ⟨fun _ h => absurd h List.not_mem_nil, fun _ h => by cases h⟩⟩

omit [DecidableEq D] in
theorem data_ne_nothing (txt : JsonText D) : saveOneWindow.data txt ≠ saveNothing.data txt := by
  intro h
  have hsame := data_eq_iff.mp h
  revert hsame
  unfold SameOrder
  decide

/-- The launch after the crash: the copy finds no file, and the load takes the backup. -/
theorem exec_relaunch (txt : JsonText D) {v : Save} :
    exec (step txt) ⟨none, some (v.data txt), none, none, true, .down, some v, [⟨none, none⟩]⟩
        [.launch, always, always, always, always, always] =
      some ⟨none, some (v.data txt), none, none, true, .idle, some v,
        [⟨none, none⟩, ⟨some v, some (v.snapshot.readBack.ordered v.it)⟩]⟩ := by
  have hd : txt.decode (fun n => n) (v.data txt) = some (v.snapshot.readBack.ordered v.it) :=
    txt.decode_encode v.it v.wf _
  simp [exec, always, step, proceed, finish, hd, removeItem, copyItem]

theorem preCrash_missing :
    ∃ s, exec (step (.showing oneWindow oneWindowText)) (start none none none none false)
        (cutOff saveOneWindow saveNothing ++ [.launch, always, always, always, always, always]) = some s ∧
      s.phase.launching = false ∧ (∃ l ∈ s.loads, ∃ t, l.result = some t) ∧
      ¬Frozen (.showing oneWindow oneWindowText) s := by
  refine ⟨_, exec_append_some.mpr ⟨_, exec_cutOff _ (data_ne_nothing _), exec_relaunch _⟩, rfl,
    ⟨_, List.mem_cons_of_mem _ List.mem_cons_self, _, rfl⟩, ?_⟩
  rintro ⟨t, draw, -, hd⟩
  cases hd

/-- A crash between two saves: the main file is there. -/
theorem preCrash_frozen_iff_between :
    ∃ s₀ s₁ s, exec (step (.showing oneWindow oneWindowText)) (start none none none none false)
        [.launch, always, always, always, .save saveOneWindow, always, .crash] = some s₀ ∧
      s₀.step (.showing oneWindow oneWindowText) .launch = some s₁ ∧
      exec (step (.showing oneWindow oneWindowText)) s₁ [always, always, always, always] = some s ∧
      Frozen (.showing oneWindow oneWindowText) s := by
  generalize htxt : JsonText.showing oneWindow oneWindowText = txt
  have h₀ : exec (step txt) (start none none none none false)
      [.launch, always, always, always, .save saveOneWindow, always, .crash] =
        some ⟨some (saveOneWindow.data txt), none, none, none, true, .down, some saveOneWindow, [⟨none, none⟩]⟩ := by
    simp [exec, always, step, proceed, start, save, finish]
  have hd : txt.decode (fun n => n) (saveOneWindow.data txt) = some (oneWindow.readBack.ordered .plain) :=
    txt.decode_encode _ wf_oneWindow _
  have hrun : exec (step txt)
      ⟨some (saveOneWindow.data txt), none, none, none, true, .removingPreCrash, some saveOneWindow, [⟨none, none⟩]⟩
        [always, always, always, always] =
      some ⟨some (saveOneWindow.data txt), none, none, some (saveOneWindow.data txt), true, .idle, some saveOneWindow,
        [⟨none, none⟩, ⟨some saveOneWindow, some (oneWindow.readBack.ordered .plain)⟩]⟩ := by
    simp [exec, always, step, proceed, finish, hd, removeItem, copyItem]
  refine ⟨_, _, _, h₀, rfl, hrun, ?_⟩
  refine ((preCrash_frozen_iff h₀ rfl rfl (meets_of_mem fun a ha m => ?_) hrun rfl).2 saveOneWindow rfl).mpr (by simp)
  have heq : a = always := by simpa using ha
  rw [heq]
  exact fun _ => rfl

end Store

end Mux.Tiling
