import Mux.Retention

/-!
# What a history keeps

An entry counts here by its pane, its daemon and its deadline. Every operation of a history
takes entries out, except the record of a closed pane, and leaves the others in their order;
starting again with the saved entries gives the same ones.
-/

namespace Mux.Tiling

abbrev Key := PaneId × Option String × Nat

def Entry.key (e : Entry) : Key := (e.id, e.host, e.deadline)

namespace History

def keys (h : History) : List Key := h.map Entry.key

theorem keys_sublist {h h' : History} (hs : h'.Sublist h) : (keys h').Sublist (keys h) := hs.map _

theorem mem_keys {h : History} {k : Key} : k ∈ keys h ↔ ∃ e ∈ h, e.key = k := List.mem_map

theorem id_mem_of_key {h : History} {k : Key} (hk : k ∈ keys h) : k.1 ∈ ids h := by
  obtain ⟨e, he, rfl⟩ := mem_keys.mp hk
  exact List.mem_map_of_mem he

/-! ## Removing and recording -/

theorem mem_remove {h : History} {id : PaneId} {host : Option String} {e : Entry} :
    e ∈ remove h id host ↔ e ∈ h ∧ ¬ (e.id = id ∧ e.host = host) := by
  unfold remove
  rw [List.mem_filter, Bool.not_eq_true', ← Bool.not_eq_true, Bool.and_eq_true, beq_iff_eq, beq_iff_eq]

theorem remove_fresh {h : History} {id : PaneId} (hid : id ∉ ids h) (host : Option String) :
    remove h id host = h := by
  apply List.filter_eq_self.mpr
  intro e he
  have hne : e.id ≠ id := fun heq => hid (heq ▸ List.mem_map_of_mem he)
  rw [Bool.not_eq_true', ← Bool.not_eq_true, Bool.and_eq_true, beq_iff_eq]
  exact fun hc => hne hc.1

theorem keys_record {h : History} {id : PaneId} (hid : id ∉ ids h) (pane : PaneSnapshot) (d : Nat) :
    keys (record h id pane d) = keys h ++ [(id, daemonOf pane.target, d)] := by
  unfold record
  rw [remove_fresh hid, keys, List.map_append]
  rfl

/-- Starting again with what was saved. -/
theorem keys_ofEntries {entries : List Entry} (hnd : (ids entries).Nodup) :
    keys (ofEntries entries) = keys entries := by
  have hfold : ∀ (es : List Entry) (h : History), (ids h ++ ids es).Nodup →
      keys (es.foldl (fun h e => record h e.id e.pane (e.expiresAt.getD distantPast)) h) = keys h ++ keys es := by
    intro es
    induction es with
    | nil =>
      intro h _
      exact (List.append_nil _).symm
    | cons e es ih =>
      intro h hnd
      have hid : e.id ∉ ids h := fun hmem =>
        (List.nodup_append.mp hnd).2.2 e.id hmem e.id List.mem_cons_self rfl
      have hrec := keys_record hid e.pane (e.expiresAt.getD distantPast)
      have hids : ids (record h e.id e.pane (e.expiresAt.getD distantPast)) = ids h ++ [e.id] := by
        unfold record
        rw [remove_fresh hid, ids, List.map_append]
        rfl
      rw [List.foldl_cons, ih _ (by rw [hids, List.append_assoc]; exact hnd), hrec, List.append_assoc]
      rfl
  exact hfold entries [] hnd

/-! ## Reopening -/

def live (h : History) (now : Nat) : History := h.filter fun e => !decide (e.deadline ≤ now)

theorem mem_live {h : History} {now : Nat} {e : Entry} : e ∈ live h now ↔ e ∈ h ∧ now < e.deadline := by
  unfold live
  rw [List.mem_filter, Bool.not_eq_true', decide_eq_false_iff_not, Nat.not_le]

theorem popLast_sublist (h : History) (now : Nat) : (popLast h now).1.Sublist h :=
  (List.dropLast_sublist _).trans List.filter_sublist

/-- What is not past its deadline stays, except the one that is taken. -/
theorem mem_popLast {h : History} {now : Nat} {e : Entry} (he : e ∈ h) (hlive : now < e.deadline)
    (hnot : (popLast h now).2 ≠ some e) : e ∈ (popLast h now).1 := by
  have hmem := mem_live.mpr ⟨he, hlive⟩
  have hnot : (live h now).getLast? ≠ some e := hnot
  show e ∈ (live h now).dropLast
  cases hl : (live h now).getLast? with
  | none =>
    rw [List.getLast?_eq_none_iff.mp hl] at hmem
    cases hmem
  | some last =>
    rw [← List.dropLast_append_getLast? last hl] at hmem
    obtain hin | hin := List.mem_append.mp hmem
    · exact hin
    · rw [List.mem_singleton.mp hin] at hnot
      exact absurd hl hnot

theorem reopenings_eq (now : Nat) : ∀ (n : Nat) (h : History), h.length ≤ n →
    reopenings now n h = (live h now).reverse
  | 0, h, hn => by
    rw [List.length_eq_zero_iff.mp (Nat.le_zero.mp hn)]
    rfl
  | n + 1, h, hn => by
    have hpop : popLast h now = ((live h now).dropLast, (live h now).getLast?) := rfl
    unfold reopenings
    rw [hpop]
    cases hl : (live h now).getLast? with
    | none =>
      rw [List.getLast?_eq_none_iff.mp hl]
      rfl
    | some last =>
      have hsplit := List.dropLast_append_getLast? last hl
      have hlen : (live h now).dropLast.length ≤ n := by
        have h1 := List.length_filter_le (fun e : Entry => !decide (e.deadline ≤ now)) h
        have h2 := congrArg List.length hsplit
        rw [List.length_append, List.length_singleton] at h2
        have h3 : (live h now).length ≤ h.length := h1
        omega
      -- the rest is live already
      have hrest : live (live h now).dropLast now = (live h now).dropLast := by
        apply List.filter_eq_self.mpr
        intro e he
        have := (mem_live.mp (List.dropLast_sublist _ |>.subset he)).2
        rw [Bool.not_eq_true', decide_eq_false_iff_not]
        exact Nat.not_le.mpr this
      show last :: reopenings now n (live h now).dropLast = _
      rw [reopenings_eq now n _ hlen, hrest]
      conv_rhs => rw [← hsplit]
      rw [List.reverse_append]
      rfl

end History

theorem Window.offers_eq (w : Window) (now : Nat) : w.offers now = (w.closedPanes.live now).reverse :=
  History.reopenings_eq now _ _ (Nat.le_refl _)

/-! ## Listings -/

namespace Window

theorem retire_sublist (items : List Listing) (host : Option String) (es : List Entry) (h : History) :
    (retire items host h es).1.Sublist h := by
  induction es generalizing h with
  | nil => exact List.Sublist.refl _
  | cons e es ih =>
    unfold retire
    split
    · exact ih h
    · exact (ih _).trans List.filter_sublist

/-- Only the panes gone through may go. -/
theorem mem_retire {items : List Listing} {host : Option String} {e : Entry} (es : List Entry) (h : History)
    (he : e ∈ h) (hnot : ∀ x ∈ es, ¬ (e.id = x.id ∧ e.host = host)) : e ∈ (retire items host h es).1 := by
  induction es generalizing h with
  | nil => exact he
  | cons x es ih =>
    have hrest : ∀ y ∈ es, ¬ (e.id = y.id ∧ e.host = host) := fun y hy => hnot y (List.mem_cons_of_mem _ hy)
    unfold retire
    split
    · exact ih h he hrest
    · exact ih _ (History.mem_remove.mpr ⟨he, hnot x List.mem_cons_self⟩) hrest

theorem mem_retire_kills {items : List Listing} {host : Option String} {id : PaneId} (es : List Entry) (h : History)
    (hk : id ∈ (retire items host h es).2) : ∃ e ∈ es, e.id = id := by
  induction es generalizing h with
  | nil => cases hk
  | cons e es ih =>
    have hrest : ∀ g : History, id ∈ (retire items host g es).2 → ∃ x ∈ e :: es, x.id = id := fun g hg => by
      obtain ⟨x, hx, hid⟩ := ih g hg
      exact ⟨x, List.mem_cons_of_mem _ hx, hid⟩
    unfold retire at hk
    split at hk
    · rename_i l _
      simp only at hk
      split at hk
      · exact hrest h hk
      · obtain rfl | hk := List.mem_cons.mp hk
        · exact ⟨e, List.mem_cons_self, rfl⟩
        · exact hrest h hk
    · exact hrest _ hk

/-- Only what is past its deadline by the app's clock is killed. -/
theorem kills_expired {w : Window} {items : List Listing} {host : Option String} {now : Nat} {id : PaneId}
    (hk : id ∈ w.kills items host now) : ∃ e ∈ w.closedPanes, e.id = id ∧ e.host = host ∧ e.deadline ≤ now := by
  obtain ⟨e, he, hid⟩ := mem_retire_kills _ _ hk
  have hmem := List.mem_filter.mp he
  rw [Bool.and_eq_true, beq_iff_eq, decide_eq_true_eq] at hmem
  exact ⟨e, hmem.1, hid, hmem.2⟩

end Window

end Mux.Tiling
