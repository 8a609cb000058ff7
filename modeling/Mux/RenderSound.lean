import Mux.Render

/-!
# Where the tail restores the cursor

One lemma for each step of the render says what a terminal that reads its bytes has
afterwards: the cells and modes stand, the margins, style, character set and origin mode
are the source's. The cursor position and the reprinted character then decide. A position
is restored unless origin mode is on and the cursor is off the region, or left of its right
margin while there is a left margin; a pending wrap is restored when the cell under the
cursor prints as itself at the right limit.
-/

namespace Mux.Render

open Lib.Vt

section
variable {S C : Type}

/-- What no step before the last one changes. -/
structure Stands (c t : Screen S C) : Prop where
  rows : t.rows = c.rows
  cols : t.cols = c.cols
  cells : t.cells = c.cells
  leftRightMargin : t.leftRightMargin = c.leftRightMargin

theorem Stands.refl (c : Screen S C) : Stands c c := ⟨rfl, rfl, rfl, rfl⟩

theorem Stands.trans {a b c : Screen S C} (h : Stands a b) (h' : Stands b c) : Stands a c :=
  ⟨h'.rows.trans h.rows, h'.cols.trans h.cols, h'.cells.trans h.cells, h'.leftRightMargin.trans h.leftRightMargin⟩

/-- What the steps between the margins and the extras keep as well. -/
structure Steady (c t : Screen S C) : Prop extends Stands c t where
  region : t.region = c.region
  origin : t.origin = c.origin
  charset : t.charset = c.charset

theorem Steady.refl (c : Screen S C) : Steady c c := ⟨.refl c, rfl, rfl, rfl⟩

theorem Steady.trans {a b c : Screen S C} (h : Steady a b) (h' : Steady b c) : Steady a c :=
  ⟨h.toStands.trans h'.toStands, h'.region.trans h.region, h'.origin.trans h.origin, h'.charset.trans h.charset⟩

namespace Screen


/-- A position is a move, whatever the mode. -/
theorem setCursorPos_moves (t : Screen S C) (row col : Nat) : ∃ x y, t.setCursorPos row col = t.moveTo x y := by
  unfold setCursorPos
  split
  · exact ⟨_, _, rfl⟩
  · exact ⟨_, _, rfl⟩

end Screen

/-! ## Margins -/

structure Handle.Valid (h : Handle S C) : Prop where
  x_lt : h.terminal.x < h.terminal.cols
  y_lt : h.terminal.y < h.terminal.rows
  rows_region : h.terminal.region.top = 0 ∧ h.terminal.region.bottom = h.terminal.rows - 1 ∨
    h.terminal.region.top < h.terminal.region.bottom ∧ h.terminal.region.bottom < h.terminal.rows
  cols_region : h.terminal.region.left = 0 ∧ h.terminal.region.right = h.terminal.cols - 1 ∨
    h.terminal.leftRightMargin = true ∧ h.terminal.region.left < h.terminal.region.right ∧
      h.terminal.region.right < h.terminal.cols
  text : ∀ y x, y < h.terminal.rows → x < h.terminal.cols →
    (h.terminal.cells y x).text = '\x00' ∨ Printable (h.terminal.cells y x).text
  pwd : IsPayload h.pwd
  title : ∀ title ∈ h.title, IsPayload title

/-- A terminal that read the render up to the viewport: the source's size, cells and modes, with
the margins and origin mode it started with. -/
structure Shows (h : Handle S C) (c : Screen S C) : Prop where
  rows : c.rows = h.terminal.rows
  cols : c.cols = h.terminal.cols
  cells : ∀ y x, y < c.rows → x < c.cols → c.cells y x = h.terminal.cells y x
  region : c.region = c.fullRegion
  origin : c.origin = false
  leftRightMargin : c.leftRightMargin = h.terminal.leftRightMargin

variable (E : Tables S C)

theorem feed_plain {t : Screen S C} {n : Nat} {rest : List Nat} {last : UInt8}
    (hl : 0x40 ≤ last.toNat ∧ last.toNat ≤ 0x7e) :
    Lib.Vt.feed (perform E) (.ground, t) (csi none (n :: rest) last) =
      (.ground, perform E t (.csi none (n :: rest) last)) :=
  feed_csi (perform E) t (fun _ h => by cases h) (by simp) hl

theorem setTopAndBottomMargin_spec {t : Screen S C} {top bottom : Nat} (h : top < bottom) (hb : bottom < t.rows) :
    Stands t (t.setTopAndBottomMargin (top + 1) (bottom + 1)) ∧
      (t.setTopAndBottomMargin (top + 1) (bottom + 1)).region = ⟨top, bottom, t.region.left, t.region.right⟩ ∧
      (t.setTopAndBottomMargin (top + 1) (bottom + 1)).origin = t.origin ∧
      (t.setTopAndBottomMargin (top + 1) (bottom + 1)).charset = t.charset := by
  have hmin : min (bottom + 1) t.rows = bottom + 1 := by omega
  unfold Screen.setTopAndBottomMargin
  rw [if_pos (by omega), hmin]
  obtain ⟨x, y, hm⟩ := Screen.setCursorPos_moves
    { t with region := { t.region with top := top + 1 - 1, bottom := bottom + 1 - 1 } } 1 1
  rw [hm]
  exact ⟨⟨rfl, rfl, rfl, rfl⟩, rfl, rfl, rfl⟩

theorem setLeftAndRightMargin_spec {t : Screen S C} {left right : Nat} (hm : t.leftRightMargin = true)
    (h : left < right) (hr : right < t.cols) :
    Stands t (t.setLeftAndRightMargin (left + 1) (right + 1)) ∧
      (t.setLeftAndRightMargin (left + 1) (right + 1)).region = ⟨t.region.top, t.region.bottom, left, right⟩ ∧
      (t.setLeftAndRightMargin (left + 1) (right + 1)).origin = t.origin ∧
      (t.setLeftAndRightMargin (left + 1) (right + 1)).charset = t.charset := by
  have hmin : min (right + 1) t.cols = right + 1 := by omega
  unfold Screen.setLeftAndRightMargin
  rw [if_pos ⟨hm, by omega⟩, hmin]
  obtain ⟨x, y, hm⟩ := Screen.setCursorPos_moves
    { t with region := { t.region with left := left + 1 - 1, right := right + 1 - 1 } } 1 1
  rw [hm]
  exact ⟨⟨rfl, rfl, rfl, rfl⟩, rfl, rfl, rfl⟩

/-- Step 4. A margin that is not written is the one the terminal has. -/
theorem feed_region {h : Handle S C} (hv : h.Valid) {c : Screen S C} (hc : Shows h c) :
    ∃ t, Lib.Vt.feed (perform E) (.ground, c) (regionBytes h.terminal) = (.ground, t) ∧ Stands c t ∧
      t.region = h.terminal.region ∧ t.origin = false ∧ t.charset = c.charset := by
  have hrows : ∃ t, Lib.Vt.feed (perform E) (.ground, c)
      (if h.terminal.region.top ≠ 0 ∨ h.terminal.region.bottom ≠ h.terminal.rows - 1 then
        csi none [h.terminal.region.top + 1, h.terminal.region.bottom + 1] 0x72 else []) = (.ground, t) ∧ Stands c t ∧
      t.region = ⟨h.terminal.region.top, h.terminal.region.bottom, 0, c.cols - 1⟩ ∧ t.origin = false ∧
      t.charset = c.charset := by
    by_cases hd : h.terminal.region.top ≠ 0 ∨ h.terminal.region.bottom ≠ h.terminal.rows - 1
    · obtain hf | ⟨hlt, hb⟩ := hv.rows_region
      · omega
      · obtain ⟨hs, hr, ho, hch⟩ := setTopAndBottomMargin_spec (t := c) hlt (by rw [hc.rows]; exact hb)
        rw [if_pos hd, feed_plain E (by decide)]
        refine ⟨_, rfl, hs, ?_, ho.trans hc.origin, hch⟩
        rw [show perform E c _ = c.setTopAndBottomMargin _ _ from rfl, hr, hc.region]
        rfl
    · rw [if_neg hd]
      refine ⟨c, rfl, .refl c, ?_, hc.origin, rfl⟩
      rw [hc.region, Screen.fullRegion, hc.rows]
      congr 1 <;> omega
  obtain ⟨t, ht, hs, hr, ho, hch⟩ := hrows
  unfold regionBytes
  rw [feed_append, ht]
  by_cases hd : h.terminal.region.left ≠ 0 ∨ h.terminal.region.right ≠ h.terminal.cols - 1
  · obtain hf | ⟨hlr, hlt, hb⟩ := hv.cols_region
    · omega
    · obtain ⟨hs', hr', ho', hch'⟩ := setLeftAndRightMargin_spec (t := t)
        (by rw [hs.leftRightMargin, hc.leftRightMargin]; exact hlr) hlt (by rw [hs.cols, hc.cols]; exact hb)
      rw [if_pos hd, feed_plain E (by decide)]
      refine ⟨_, rfl, hs.trans hs', ?_, ho'.trans ho, hch'.trans hch⟩
      rw [show perform E t _ = t.setLeftAndRightMargin _ _ from rfl, hr', hr]
  · rw [if_neg hd]
    refine ⟨t, rfl, hs, ?_, ho, hch⟩
    rw [hr, hc.cols, show h.terminal.cols - 1 = h.terminal.region.right by omega,
      show 0 = h.terminal.region.left by omega]

/-! ## Tab stops and reports -/

theorem feed_tabstop {t : Screen S C} (ho : t.origin = false) {col : Nat} (hcol : col < t.cols) :
    ∃ t', Lib.Vt.feed (perform E) (.ground, t) (csi none [col + 1] 0x47 ++ esc 0x48) = (.ground, t') ∧ Steady t t' ∧
      ∀ j, t'.tabstops j = (t.tabstops j || j == col) := by
  have hcha : Lib.Vt.feed (perform E) (.ground, t) (csi none [col + 1] 0x47) = (.ground, t.setCursorCol (col + 1)) := by
    rw [feed_plain E (by decide)]
    rfl
  have hpos : t.setCursorCol (col + 1) = t.moveTo col t.y := by
    unfold Screen.setCursorCol
    rw [ho, if_neg (by decide), Nat.add_sub_cancel, Nat.min_eq_left (by omega)]
  rw [feed_append, hcha, hpos, feed_esc (perform E) _ (by decide)]
  refine ⟨(t.moveTo col t.y).setTab, rfl, ⟨⟨rfl, rfl, rfl, rfl⟩, rfl, rfl, rfl⟩, fun j => ?_⟩
  show (if j = col then true else t.tabstops j) = _
  by_cases hj : j = col
  · simp [hj]
  · simp [hj]

theorem feed_tabstops (stops : Nat → Bool) : ∀ (cols : List Nat) {t : Screen S C}, t.origin = false →
    (∀ col ∈ cols, col < t.cols) →
    ∃ t', Lib.Vt.feed (perform E) (.ground, t)
        (cols.flatMap fun col => if stops col then csi none [col + 1] 0x47 ++ esc 0x48 else []) = (.ground, t') ∧
      Steady t t' ∧ ∀ j, t'.tabstops j = (t.tabstops j || (cols.contains j && stops j)) := by
  intro cols
  induction cols with
  | nil => exact fun _ _ => ⟨_, rfl, .refl _, fun j => by simp⟩
  | cons col cols ih =>
    intro t ho hcols
    rw [List.flatMap_cons, feed_append]
    by_cases hstop : stops col = true
    · rw [if_pos hstop]
      obtain ⟨t1, h1, hs1, htabs1⟩ := feed_tabstop E ho (hcols col List.mem_cons_self)
      obtain ⟨t2, h2, hs2, htabs2⟩ := ih (hs1.origin.trans ho) fun k hk => by
        rw [hs1.cols]; exact hcols k (List.mem_cons_of_mem _ hk)
      refine ⟨t2, by rw [h1, h2], hs1.trans hs2, fun j => ?_⟩
      rw [htabs2, htabs1, List.contains_cons]
      by_cases hj : j = col
      · simp [hj, hstop]
      · rw [beq_eq_false_iff_ne.mpr hj, Bool.or_false, Bool.false_or]
    · rw [if_neg hstop]
      obtain ⟨t2, h2, hs2, htabs2⟩ := ih ho fun k hk => hcols k (List.mem_cons_of_mem _ hk)
      refine ⟨t2, h2, hs2, fun j => ?_⟩
      rw [htabs2, List.contains_cons]
      by_cases hj : j = col
      · simp [hj, hstop]
      · rw [beq_eq_false_iff_ne.mpr hj, Bool.false_or]

/-- Step 5: the terminal has the source's tab stops. -/
theorem feed_tabs {t s : Screen S C} (ho : t.origin = false) (hcols : t.cols = s.cols) :
    ∃ t', Lib.Vt.feed (perform E) (.ground, t) (tabBytes s) = (.ground, t') ∧ Steady t t' ∧
      ∀ j, j < s.cols → t'.tabstops j = s.tabstops j := by
  have hclear : Lib.Vt.feed (perform E) (.ground, t) (csi none [3] 0x67) = (.ground, t.clearTabs) := by
    rw [feed_plain E (by decide)]
    rfl
  have hst : Steady t t.clearTabs := ⟨⟨rfl, rfl, rfl, rfl⟩, rfl, rfl, rfl⟩
  obtain ⟨t', ht, hs, htabs⟩ := feed_tabstops E s.tabstops (List.range s.cols) (hst.origin.trans ho) fun col hcol => by
    rw [hst.cols, hcols]; exact List.mem_range.mp hcol
  refine ⟨t', by rw [tabBytes, feed_append, hclear, ht], hst.trans hs, fun j hj => ?_⟩
  rw [htabs j]
  simp [Screen.clearTabs, hj]

theorem isPayload_report {kind : UInt8} {text : Lib.Bytes} (hk : kind.toNat ≠ 0x1b ∧ kind.toNat ≠ 0x07)
    (h : IsPayload text) : IsPayload ([kind, 0x3b] ++ text) := by
  intro b hb
  rw [List.mem_append, List.mem_cons, List.mem_singleton] at hb
  obtain (rfl | rfl) | hb := hb
  · exact hk
  · decide
  · exact h b hb

/-- Steps 6 and 7 report to the terminal's owner and touch at most the link in effect. -/
theorem feed_report {t : Screen S C} {h : Handle S C} (hv : h.Valid) :
    ∃ t', Lib.Vt.feed (perform E) (.ground, t) (reportBytes h) = (.ground, t') ∧ Steady t t' ∧
      t'.tabstops = t.tabstops := by
  have hosc : ∀ (t : Screen S C) (payload : Lib.Bytes), IsPayload payload →
      ∃ t', Lib.Vt.feed (perform E) (.ground, t) (osc payload) = (.ground, t') ∧ Steady t t' ∧
        t'.tabstops = t.tabstops := fun t payload hp =>
    ⟨_, feed_osc (perform E) t hp, ⟨⟨rfl, rfl, rfl, rfl⟩, rfl, rfl, rfl⟩, rfl⟩
  have hkeys : Lib.Vt.feed (perform E) (.ground, t)
      (if h.modifyOtherKeys2 then csi (some 0x3e) [4, 2] 0x6d else []) = (.ground, t) := by
    split
    · exact feed_csi (perform E) t (fun m h => by cases h; decide) (by simp) (by decide)
    · rfl
  have hpwd : ∃ t', Lib.Vt.feed (perform E) (.ground, t)
      (if h.pwd.length > 0 then osc ([0x37, 0x3b] ++ h.pwd) else []) = (.ground, t') ∧ Steady t t' ∧
        t'.tabstops = t.tabstops := by
    split
    · exact hosc t _ (isPayload_report (by decide) hv.pwd)
    · exact ⟨t, rfl, .refl t, rfl⟩
  obtain ⟨t1, h1, hs1, htabs1⟩ := hpwd
  unfold reportBytes
  rw [feed_append, feed_append, hkeys, h1]
  cases htitle : h.title with
  | none => exact ⟨t1, rfl, hs1, htabs1⟩
  | some title =>
    have hk : (0x30 : UInt8).toNat ≠ 0x1b ∧ (0x30 : UInt8).toNat ≠ 0x07 := by decide
    obtain ⟨t2, h2, hs2, htabs2⟩ := hosc t1 _ (isPayload_report hk (hv.title title htitle))
    exact ⟨t2, h2, hs1.trans hs2, htabs2.trans htabs1⟩

/-! ## Origin mode and the cursor -/

/-- What the formatter's extras do to a terminal with the character sets it started with: style and
character sets become the source's, nothing else moves. -/
def ExtrasRestore (h : Handle S C) (c : Screen S C) (extras : Lib.Bytes) : Prop :=
  ∀ t : Screen S C, t.charset = c.charset → Lib.Vt.feed (perform E) (.ground, t) extras =
    (.ground, { t with style := h.terminal.style, charset := h.terminal.charset })

/-- The terminal before the cursor is placed. -/
structure Ready (h : Handle S C) (c t : Screen S C) : Prop extends Stands c t where
  region : t.region = h.terminal.region
  origin : t.origin = h.terminal.origin
  style : t.style = h.terminal.style
  charset : t.charset = h.terminal.charset
  tabstops : ∀ j, j < h.terminal.cols → t.tabstops j = h.terminal.tabstops j

/-- Steps 4 to 9. -/
theorem feed_ready {h : Handle S C} (hv : h.Valid) {c : Screen S C} (hc : Shows h c) {extras : Lib.Bytes}
    (hx : ExtrasRestore E h c extras) :
    ∃ t, Lib.Vt.feed (perform E) (.ground, c) (regionBytes h.terminal ++ tabBytes h.terminal ++ reportBytes h ++
      extras ++ originBytes h.terminal) = (.ground, t) ∧ Ready h c t := by
  obtain ⟨t1, h1, hs1, hr1, ho1, hc1⟩ := feed_region E hv hc
  obtain ⟨t2, h2, hs2, htabs⟩ := feed_tabs E ho1 (hs1.cols.trans hc.cols)
  obtain ⟨t3, h3, hs3, htabs3⟩ := feed_report E hv (t := t2)
  have hs := hs2.trans hs3
  have hst := hs1.trans hs.toStands
  have htabs : ∀ j, j < h.terminal.cols → t3.tabstops j = h.terminal.tabstops j := fun j hj => by
    rw [htabs3, htabs j hj]
  have hx := hx t3 (hs.charset.trans hc1)
  rw [feed_append, feed_append, feed_append, feed_append, h1, h2, h3, hx]
  unfold originBytes
  by_cases ho : h.terminal.origin = true
  · have hset : Lib.Vt.feed (perform E) (.ground, { t3 with style := h.terminal.style, charset := h.terminal.charset })
        (csi (some 0x3f) [6] 0x68) =
          (.ground, ({ t3 with style := h.terminal.style, charset := h.terminal.charset }).setOrigin true) :=
      feed_csi (perform E) _ (fun m h => by cases h; decide) (by simp) (by decide)
    rw [if_pos ho, hset]
    obtain ⟨x, y, hm⟩ := Screen.setCursorPos_moves
      { t3 with style := h.terminal.style, charset := h.terminal.charset, origin := true } 1 1
    refine ⟨_, rfl, ?_⟩
    rw [Screen.setOrigin, hm]
    exact ⟨⟨hst.rows, hst.cols, hst.cells, hst.leftRightMargin⟩, hs.region.trans hr1, ho.symm, rfl, rfl, htabs⟩
  · rw [if_neg ho]
    refine ⟨_, rfl, ⟨hst.rows, hst.cols, hst.cells, hst.leftRightMargin⟩, hs.region.trans hr1, ?_, rfl, rfl, htabs⟩
    exact (hs.origin.trans ho1).trans (Bool.eq_false_iff.mpr ho).symm

/-- The column and the row that the position sequence reaches. -/
def reachedCol (s : Screen S C) : Nat :=
  if s.origin then min (s.region.left + s.x) s.region.right else s.x

def reachedRow (s : Screen S C) : Nat :=
  if s.origin then min (s.region.top + (s.y - s.region.top)) s.region.bottom else s.y

/-- Step 10. -/
theorem feed_cursor {h : Handle S C} (hv : h.Valid) {c t : Screen S C} (hc : Shows h c) (ht : Ready h c t) :
    Lib.Vt.feed (perform E) (.ground, t) (cursorBytes h.terminal) =
      (.ground, t.moveTo (reachedCol h.terminal) (reachedRow h.terminal)) := by
  have hx := hv.x_lt
  have hy := hv.y_lt
  have hcols : t.cols = h.terminal.cols := ht.cols.trans hc.cols
  have hrows : t.rows = h.terminal.rows := ht.rows.trans hc.rows
  unfold cursorBytes reachedCol reachedRow
  by_cases ho : h.terminal.origin = true
  · simp only [ho, if_true]
    rw [feed_plain E (by decide)]
    show (Parser.ground, t.setCursorPos _ _) = _
    unfold Screen.setCursorPos
    rw [if_pos (ht.origin.trans ho), Nat.add_sub_cancel, Nat.add_sub_cancel, ht.region]
  · simp only [if_neg ho]
    rw [feed_plain E (by decide)]
    show (Parser.ground, t.setCursorPos _ _) = _
    unfold Screen.setCursorPos
    rw [ht.origin, if_neg ho, Nat.add_sub_cancel, Nat.add_sub_cancel, hcols, hrows, Nat.min_eq_left (by omega),
      Nat.min_eq_left (by omega)]

/-- Under origin mode the cursor is in the region's rows, and either there is no left margin and it
is not right of the region, or it is at the right margin. -/
def InPlace (s : Screen S C) : Prop :=
  s.origin = true → (s.region.top ≤ s.y ∧ s.y ≤ s.region.bottom) ∧
    (s.region.left = 0 ∧ s.x ≤ s.region.right ∨ s.x = s.region.right)

theorem reached_iff {s : Screen S C} (hr : s.region.top ≤ s.region.bottom) :
    reachedCol s = s.x ∧ reachedRow s = s.y ↔ InPlace s := by
  unfold reachedCol reachedRow InPlace
  by_cases ho : s.origin = true
  · simp only [ho, if_true, true_implies]
    omega
  · simp [ho]

/-! ## Printing -/

namespace Screen

@[simp] theorem put_cells (t : Screen S C) (y x : Nat) (cell : Cell S) : (t.put y x cell).cells y x = cell := by
  simp [put]

theorem put_cells_other (t : Screen S C) {y x r c : Nat} (cell : Cell S) (h : ¬(r = y ∧ c = x)) :
    (t.put y x cell).cells r c = t.cells r c := if_neg h

theorem printCell_cursor (t : Screen S C) (text : Char) (kind : Kind) :
    (t.printCell text kind).x = t.x ∧ (t.printCell text kind).y = t.y ∧
      (t.printCell text kind).pendingWrap = t.pendingWrap := by
  unfold printCell
  cases (t.cells t.y t.x).kind <;> exact ⟨rfl, rfl, rfl⟩

theorem printCell_here (t : Screen S C) (text : Char) (kind : Kind) :
    (t.printCell text kind).cells t.y t.x = ⟨text, [], t.style, kind⟩ := by
  unfold printCell
  cases (t.cells t.y t.x).kind <;> exact put_cells ..

/-- Over a narrow cell, nothing else is touched. -/
theorem printCell_narrow (t : Screen S C) (text : Char) (kind : Kind) (h : (t.cells t.y t.x).kind = .narrow)
    {r c : Nat}
    (hrc : ¬(r = t.y ∧ c = t.x)) : (t.printCell text kind).cells r c = t.cells r c := by
  unfold printCell
  rw [h]
  exact put_cells_other t _ hrc

theorem insertBlanks_cursor (t : Screen S C) (limit count : Nat) :
    (t.insertBlanks limit count).x = t.x ∧ (t.insertBlanks limit count).y = t.y ∧
      (t.insertBlanks limit count).pendingWrap = t.pendingWrap ∧ (t.insertBlanks limit count).style = t.style := by
  unfold insertBlanks
  split <;> exact ⟨rfl, rfl, rfl, rfl⟩

theorem insertBlanks_limit (t : Screen S C) {limit : Nat} (h : t.x = limit) : t.insertBlanks limit 1 = t :=
  if_neg fun hi => by omega

theorem printNarrow_spec (t : Screen S C) (limit : Nat) (text : Char) (hp : t.pendingWrap = false) :
    (t.printNarrow limit text).y = t.y ∧
      (t.printNarrow limit text).x = (if t.x = limit then t.x else t.x + 1) ∧
      ((t.printNarrow limit text).pendingWrap = true ↔ t.x = limit) ∧
      (t.printNarrow limit text).cells t.y t.x = ⟨text, [], t.style, .narrow⟩ := by
  obtain ⟨hx, hy, hpend, hstyle⟩ := insertBlanks_cursor t limit 1
  obtain ⟨hx', hy', hpend'⟩ := printCell_cursor (t.insertBlanks limit 1) text .narrow
  have hcell := printCell_here (t.insertBlanks limit 1) text .narrow
  rw [hx, hy, hstyle] at hcell
  unfold printNarrow advance
  rw [hx', hx]
  by_cases hl : t.x = limit
  · rw [if_pos hl, if_pos hl]
    exact ⟨hy'.trans hy, rfl, ⟨fun _ => hl, fun _ => rfl⟩, hcell⟩
  · rw [if_neg hl, if_neg hl]
    refine ⟨hy'.trans hy, rfl, ⟨fun h => ?_, fun h => absurd h hl⟩, hcell⟩
    rw [show _ = t.pendingWrap from hpend'.trans hpend, hp] at h
    cases h

theorem advance_pending {t : Screen S C} {limit : Nat} (hp : t.pendingWrap = false)
    (h : (t.advance limit).pendingWrap = true) :
    (t.advance limit).x = t.x ∧ (t.advance limit).y = t.y ∧ (t.advance limit).cells = t.cells := by
  unfold advance at h ⊢
  by_cases hl : t.x = limit
  · rw [if_pos hl]
    exact ⟨rfl, rfl, rfl⟩
  · rw [if_neg hl] at h
    cases hp.symm.trans h

/-- Where a wrap is pending after a cell without text was printed, the cell under the cursor has
none. -/
theorem advance_empty {t : Screen S C} {limit : Nat} {kind : Kind} (hp : t.pendingWrap = false)
    (h : ((t.printCell '\x00' kind).advance limit).pendingWrap = true) :
    (((t.printCell '\x00' kind).advance limit).cells ((t.printCell '\x00' kind).advance limit).y
      ((t.printCell '\x00' kind).advance limit).x).text = '\x00' := by
  obtain ⟨hx, hy, hpend⟩ := printCell_cursor t '\x00' kind
  obtain ⟨hx', hy', hcells⟩ := advance_pending (hpend.trans hp) h
  rw [hx', hy', hcells, hx, hy, printCell_here]

theorem printHalves_empty {t : Screen S C} {limit : Nat} {text : Char} (hp : t.pendingWrap = false)
    (h : (t.printHalves limit text).pendingWrap = true) :
    ((t.printHalves limit text).cells (t.printHalves limit text).y (t.printHalves limit text).x).text = '\x00' := by
  have hpend := (printCell_cursor (t.insertBlanks limit 2) text .wide).2.2.trans (insertBlanks_cursor t limit 2).2.2.1
  exact advance_empty (hpend.trans hp) h

/-- A wide character leaves a wrap pending only over its empty second half. -/
theorem printWide_empty {t : Screen S C} {limit : Nat} {text : Char} (hp : t.pendingWrap = false)
    (h : (t.printWide limit text).pendingWrap = true) :
    ((t.printWide limit text).cells (t.printWide limit text).y (t.printWide limit text).x).text = '\x00' := by
  unfold printWide at h ⊢
  by_cases hnarrow : limit ≤ t.region.left
  · rw [if_pos hnarrow] at h ⊢
    exact advance_empty hp h
  · rw [if_neg hnarrow] at h ⊢
    by_cases hx : t.x = limit
    · rw [if_pos hx] at h ⊢
      by_cases hw : t.wraparound = true
      · rw [if_pos hw] at h ⊢
        exact printHalves_empty rfl h
      · rw [if_neg hw] at h
        cases hp.symm.trans h
    · rw [if_neg hx] at h ⊢
      exact printHalves_empty hp h

theorem print_of_not_pending {t : Screen S C} (hp : t.pendingWrap = false) (c : Char) :
    t.print E c = if E.isWide c then t.printWide t.rightLimit (E.translate t.charset c)
      else t.printNarrow t.rightLimit (E.translate t.charset c) := by
  have hn : ¬(t.pendingWrap = true ∧ t.wraparound = true) := by simp [hp]
  unfold print
  simp only [if_neg hn]

end Screen

/-! ## The tail -/

/-- The source's cells, cursor and pending wrap. -/
structure Restored (h : Handle S C) (t : Screen S C) : Prop where
  cells : ∀ y x, y < h.terminal.rows → x < h.terminal.cols → t.cells y x = h.terminal.cells y x
  x : t.x = h.terminal.x
  y : t.y = h.terminal.y
  pendingWrap : t.pendingWrap = h.terminal.pendingWrap

/-- Where a wrap is pending, the cell under the cursor is at the right limit and prints as itself: a
narrow character alone in its cell, in the style now in effect, which the character set now in
effect leaves as it is. -/
structure Reprints (s : Screen S C) : Prop where
  text : (s.cells s.y s.x).text ≠ '\x00'
  narrow : E.isWide (s.cells s.y s.x).text = false
  cell : s.cells s.y s.x = ⟨E.translate s.charset (s.cells s.y s.x).text, [], s.style, .narrow⟩
  limit : s.x = s.rightLimit

def Restorable (s : Screen S C) : Prop :=
  InPlace s ∧ (s.pendingWrap = true → Reprints E s)

theorem text_pos_iff {c : Char} : c.toNat > 0 ↔ c ≠ '\x00' := by
  constructor
  · rintro h rfl
    exact absurd h (by decide)
  · intro h
    refine Nat.pos_of_ne_zero fun h0 => h (Char.ext (UInt32.toNat_inj.mp ?_))
    exact h0

/-- The terminal once the cursor is placed. -/
structure Placed (h : Handle S C) (u : Screen S C) : Prop where
  cols : u.cols = h.terminal.cols
  cells : ∀ y x, y < h.terminal.rows → x < h.terminal.cols → u.cells y x = h.terminal.cells y x
  region : u.region = h.terminal.region
  style : u.style = h.terminal.style
  charset : u.charset = h.terminal.charset
  x : u.x = reachedCol h.terminal
  y : u.y = reachedRow h.terminal
  pendingWrap : u.pendingWrap = false

theorem Ready.placed {h : Handle S C} {c t : Screen S C} (hc : Shows h c) (ht : Ready h c t) :
    Placed h (t.moveTo (reachedCol h.terminal) (reachedRow h.terminal)) := by
  refine ⟨ht.cols.trans hc.cols, fun y x hy hx => ?_, ht.region, ht.style, ht.charset, rfl, rfl, rfl⟩
  show t.cells y x = _
  rw [ht.cells]
  exact hc.cells y x (hc.rows ▸ hy) (hc.cols ▸ hx)

section
variable {E}
variable {h : Handle S C} {u : Screen S C} (hu : Placed h u)
include hu

theorem Placed.restored_iff (hpend : h.terminal.pendingWrap = false) :
    Restored h u ↔ reachedCol h.terminal = h.terminal.x ∧ reachedRow h.terminal = h.terminal.y := by
  constructor
  · exact fun hr => ⟨hu.x.symm.trans hr.x, hu.y.symm.trans hr.y⟩
  · exact fun ⟨hx, hy⟩ => ⟨hu.cells, hu.x.trans hx, hu.y.trans hy, hu.pendingWrap.trans hpend.symm⟩

/-- Without a reprint the flag is lost. -/
theorem Placed.not_restored (hpend : h.terminal.pendingWrap = true) : ¬Restored h u := fun hr =>
  absurd (hu.pendingWrap.symm.trans (hr.pendingWrap.trans hpend)) (by decide)

theorem Placed.rightLimit (hx : reachedCol h.terminal = h.terminal.x) : u.rightLimit = h.terminal.rightLimit := by
  unfold Screen.rightLimit
  rw [hu.region, hu.x, hx, hu.cols]

variable (hv : h.Valid)
include hv

theorem Placed.wide_not_restored (hpend : h.terminal.pendingWrap = true) {limit : Nat} {text : Char}
    (htext : (h.terminal.cells h.terminal.y h.terminal.x).text ≠ '\x00') : ¬Restored h (u.printWide limit text) := by
  intro hr
  have hempty := Screen.printWide_empty hu.pendingWrap (hr.pendingWrap.trans hpend)
  rw [hr.x, hr.y, hr.cells _ _ hv.y_lt hv.x_lt] at hempty
  exact htext hempty

theorem Placed.narrow_restored_iff (hpend : h.terminal.pendingWrap = true) {text : Char} :
    Restored h (u.printNarrow u.rightLimit text) ↔
      (reachedCol h.terminal = h.terminal.x ∧ reachedRow h.terminal = h.terminal.y) ∧
      h.terminal.cells h.terminal.y h.terminal.x = ⟨text, [], h.terminal.style, .narrow⟩ ∧
      h.terminal.x = h.terminal.rightLimit := by
  obtain ⟨hy, hx, hp, hcell⟩ := Screen.printNarrow_spec u u.rightLimit text hu.pendingWrap
  constructor
  · intro hr
    have hl := hp.mp (hr.pendingWrap.trans hpend)
    rw [if_pos hl] at hx
    have hux : u.x = h.terminal.x := hx.symm.trans hr.x
    have huy : u.y = h.terminal.y := hy.symm.trans hr.y
    have hcol : reachedCol h.terminal = h.terminal.x := hu.x.symm.trans hux
    refine ⟨⟨hcol, hu.y.symm.trans huy⟩, ?_, ?_⟩
    · rw [hux, huy, hr.cells _ _ hv.y_lt hv.x_lt, hu.style] at hcell
      exact hcell
    · rw [← hu.rightLimit hcol, ← hl, hux]
  · rintro ⟨⟨hcol, hrow⟩, hsame, hlim⟩
    have hux : u.x = h.terminal.x := hu.x.trans hcol
    have huy : u.y = h.terminal.y := hu.y.trans hrow
    have hl : u.x = u.rightLimit := by rw [hu.rightLimit hcol, hux]; exact hlim
    rw [if_pos hl] at hx
    refine ⟨fun y x hyr hxc => ?_, hx.trans hux, hy.trans huy, (hp.mpr hl).trans hpend.symm⟩
    by_cases hhere : y = u.y ∧ x = u.x
    · obtain ⟨rfl, rfl⟩ := hhere
      rw [hcell, huy, hux, hsame, hu.style]
    · have hkind : (u.cells u.y u.x).kind = .narrow := by
        rw [huy, hux, hu.cells _ _ hv.y_lt hv.x_lt, hsame]
      unfold Screen.printNarrow Screen.advance
      rw [Screen.insertBlanks_limit u hl, if_pos ((Screen.printCell_cursor u text .narrow).1.trans hl)]
      show (u.printCell text .narrow).cells y x = _
      rw [Screen.printCell_narrow u text .narrow hkind hhere]
      exact hu.cells y x hyr hxc

end

/-- Step 11. -/
theorem feed_wrap {h : Handle S C} {u : Screen S C} (hv : h.Valid) (hu : Placed h u) :
    Restored h (feed E u (wrapBytes h.terminal)) ↔
      (reachedCol h.terminal = h.terminal.x ∧ reachedRow h.terminal = h.terminal.y) ∧
      (h.terminal.pendingWrap = true → Reprints E h.terminal) := by
  unfold feed wrapBytes
  by_cases hpend : h.terminal.pendingWrap = true
  · rw [if_pos hpend]
    by_cases htext : (h.terminal.cells h.terminal.y h.terminal.x).text = '\x00'
    · simp only [htext]
      refine ⟨fun hr => absurd hr (hu.not_restored hpend), fun hr => absurd htext (hr.2 hpend).text⟩
    · have hprint := (hv.text _ _ hv.y_lt hv.x_lt).resolve_left htext
      simp only [if_pos (text_pos_iff.mpr htext)]
      rw [feed_utf8 (perform E) u hprint]
      show Restored h (u.print E _) ↔ _
      rw [Screen.print_of_not_pending E hu.pendingWrap, hu.charset]
      by_cases hw : E.isWide (h.terminal.cells h.terminal.y h.terminal.x).text = true
      · rw [if_pos hw]
        refine ⟨fun hr => absurd hr (hu.wide_not_restored hv hpend htext), fun hr => ?_⟩
        have := (hr.2 hpend).narrow
        rw [hw] at this
        cases this
      · rw [if_neg hw, hu.narrow_restored_iff hv hpend]
        constructor
        · exact fun ⟨hplace, hcell, hlim⟩ => ⟨hplace, fun _ => ⟨htext, Bool.eq_false_iff.mpr hw, hcell, hlim⟩⟩
        · exact fun ⟨hplace, hre⟩ => ⟨hplace, (hre hpend).cell, (hre hpend).limit⟩
  · rw [if_neg hpend]
    show Restored h u ↔ _
    rw [hu.restored_iff (Bool.eq_false_iff.mpr hpend)]
    exact ⟨fun hr => ⟨hr, fun hp => absurd hp hpend⟩, And.left⟩

/-- Fed to a terminal that shows the viewport, the tail leaves every cell and restores cursor and
pending wrap exactly where the position can be restored and the pending cell reprints as itself. -/
theorem renderTail_restores_iff {h : Handle S C} (hv : h.Valid) {c : Screen S C} (hc : Shows h c) {extras : Lib.Bytes}
    (hx : ExtrasRestore E h c extras) :
    Restored h (feed E c (renderTail extras h)) ↔ Restorable E h.terminal := by
  obtain ⟨t, ht, hready⟩ := feed_ready E hv hc hx
  have hregion : h.terminal.region.top ≤ h.terminal.region.bottom := by
    have := hv.rows_region
    omega
  have hfeed : feed E c (renderTail extras h) =
      feed E (t.moveTo (reachedCol h.terminal) (reachedRow h.terminal)) (wrapBytes h.terminal) := by
    unfold feed renderTail
    rw [feed_append, feed_append, ht, feed_cursor E hv hc hready]
  rw [hfeed, feed_wrap E hv (hready.placed hc), reached_iff hregion]
  rfl

end

/-! ## Two screens -/

/-- A table of few entries: wide from U+1100 on, one line-drawing character, the last SGR code. -/
def lineTables : Tables Nat Bool where
  isWide c := 0x1100 ≤ c.toNat
  translate drawing c := if drawing && c == 'q' then '─' else c
  graphic params _ := params.getLastD 0
  designate _ set _ := set == 0x30
  shift _ drawing := drawing
  link _ style := style

def emptyCell : Cell Nat := ⟨'\x00', [], 0, .narrow⟩

/-- Two rows of three columns with `a` at the right margin, its wrap pending, under origin mode. -/
def marginScreen : Screen Nat Bool where
  rows := 2
  cols := 3
  cells y x := if y = 1 ∧ x = 1 then ⟨'a', [], 0, .narrow⟩ else emptyCell
  region := ⟨0, 1, 0, 1⟩
  tabstops _ := false
  origin := true
  leftRightMargin := true
  wraparound := true
  insert := false
  style := 0
  charset := false
  x := 1
  y := 1
  pendingWrap := true

/-- One row of two columns, filled by one wide character. -/
def wideScreen : Screen Nat Bool where
  rows := 1
  cols := 2
  cells _ x := if x = 0 then ⟨'中', [], 0, .wide⟩ else ⟨'\x00', [], 0, .spacerTail⟩
  region := ⟨0, 0, 0, 1⟩
  tabstops _ := false
  origin := false
  leftRightMargin := false
  wraparound := true
  insert := false
  style := 0
  charset := false
  x := 1
  y := 0
  pendingWrap := true

def Screen.handle (s : Screen Nat Bool) : Handle Nat Bool := ⟨s, false, [], none⟩

/-- The terminal at the other end, its cursor where the viewport's last cell left it. -/
def Screen.viewer (s : Screen Nat Bool) : Screen Nat Bool :=
  { s with region := s.fullRegion, origin := false, x := s.cols - 1, y := s.rows - 1, pendingWrap := true }

theorem viewer_shows (s : Screen Nat Bool) : Shows s.handle s.viewer :=
  ⟨rfl, rfl, fun _ _ _ _ => rfl, rfl, rfl, rfl⟩

theorem extras_reset {s : Screen Nat Bool} (hs : s.style = 0) :
    ExtrasRestore lineTables s.handle s.viewer [0x1b, 0x5b, 0x30, 0x6d] := by
  intro t ht
  have hfeed : Lib.Vt.feed (perform lineTables) (.ground, t) [0x1b, 0x5b, 0x30, 0x6d] =
      (.ground, { t with style := 0 }) := rfl
  rw [hfeed, show s.handle.terminal.style = 0 from hs, show s.handle.terminal.charset = t.charset from ht.symm]

theorem marginScreen_valid : marginScreen.handle.Valid where
  x_lt := by decide
  y_lt := by decide
  rows_region := by decide
  cols_region := by decide
  text y x _ _ := by
    show (if y = 1 ∧ x = 1 then (⟨'a', [], 0, .narrow⟩ : Cell Nat) else emptyCell).text = _ ∨
      Printable (if y = 1 ∧ x = 1 then (⟨'a', [], 0, .narrow⟩ : Cell Nat) else emptyCell).text
    split
    · exact .inr (by unfold Printable; decide)
    · exact .inl rfl
  pwd _ hb := by cases hb
  title _ ht := by cases ht

theorem wideScreen_valid : wideScreen.handle.Valid where
  x_lt := by decide
  y_lt := by decide
  rows_region := by decide
  cols_region := by decide
  text y x _ _ := by
    show (if x = 0 then (⟨'中', [], 0, .wide⟩ : Cell Nat) else ⟨'\x00', [], 0, .spacerTail⟩).text = _ ∨
      Printable (if x = 0 then (⟨'中', [], 0, .wide⟩ : Cell Nat) else ⟨'\x00', [], 0, .spacerTail⟩).text
    split
    · exact .inr (by unfold Printable; decide)
    · exact .inl rfl
  pwd _ hb := by cases hb
  title _ ht := by cases ht

theorem renderTail_restores_margin :
    Restored marginScreen.handle
      (feed lineTables marginScreen.viewer (renderTail [0x1b, 0x5b, 0x30, 0x6d] marginScreen.handle)) := by
  refine (renderTail_restores_iff lineTables marginScreen_valid (viewer_shows _) (extras_reset rfl)).mpr
    ⟨fun _ => by decide, fun _ => ⟨by decide, by decide, rfl, rfl⟩⟩

/-- The second half of a wide character has no text of its own, so nothing is printed again. -/
theorem renderTail_drops_wrap : ¬∀ (h : Handle Nat Bool) (c : Screen Nat Bool) (extras : Lib.Bytes), h.Valid →
    Shows h c → ExtrasRestore lineTables h c extras → Restored h (feed lineTables c (renderTail extras h)) := by
  intro hall
  have hr := hall _ _ _ wideScreen_valid (viewer_shows _) (extras_reset rfl)
  have hlost : (feed lineTables wideScreen.viewer (renderTail [0x1b, 0x5b, 0x30, 0x6d] wideScreen.handle)).pendingWrap =
      false := by decide
  exact absurd (hlost.symm.trans hr.pendingWrap) (by decide)

end Mux.Render
