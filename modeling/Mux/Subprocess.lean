import Mux.Lib.Run
import Mux.Lib.Text

/-!
# Helpers that keep talking

A stream reads what its helper prints as it comes and hands every complete line to the main thread, and its end after
the last one. The main thread runs what it was handed in order. Several streams have one main thread.
-/

namespace Mux.Subprocess

open Lib

abbrev Bytes := List UInt8

def endsLine (b : UInt8) : Bool := b == 10

/-- `String(bytes: line, encoding: .utf8) ?? ""` -/
def text (line : Bytes) : String := (String.fromUTF8? ⟨line.toArray⟩).getD ""

/-- `output` is everything that was read, for the statements. -/
structure Stream where
  pending : Bytes
  ended : Bool
  terminated : Bool
  output : Bytes
deriving DecidableEq, Repr

/-- What a stream hands to the main thread. -/
inductive Callback where
  | line (id : Nat) (text : String)
  | exit (id : Nat)
deriving DecidableEq, Repr

def Callback.id : Callback → Nat
  | .line id _ => id
  | .exit id => id

/-- The streams, what is left for the main thread, and what it has run. -/
structure Main where
  streams : List Stream
  queue : List Callback
  done : List Callback
deriving DecidableEq, Repr

namespace Main

def empty : Main := { streams := [], queue := [], done := [] }

/-- A stream whose process could be launched. -/
def launch (m : Main) : Main :=
  { m with streams := m.streams ++ [{ pending := [], ended := false, terminated := false, output := [] }] }

/-- The lines that are complete in `pending`, one after the other. -/
def takeLines : Nat → Bytes → List Bytes × Bytes
  | 0, pending => ([], pending)
  | n + 1, pending =>
    match pending.dropWhile fun b => !endsLine b with
    | [] => ([], pending)
    | _ :: rest =>
      let r := takeLines n rest
      ((pending.takeWhile fun b => !endsLine b) :: r.1, r.2)

/-- The handler of the pipe: no data is the end. -/
def read (m : Main) (id : Nat) (data : Bytes) : Option Main :=
  match m.streams[id]? with
  | none => none
  | some s =>
    if s.ended then none
    else if data.isEmpty then
      some { m with streams := m.streams.set id { s with ended := true }, queue := m.queue ++ [.exit id] }
    else
      let r := takeLines (s.pending ++ data).length (s.pending ++ data)
      let s' : Stream := { s with pending := r.2, output := s.output ++ data }
      some { m with streams := m.streams.set id s', queue := m.queue ++ r.1.map fun line => .line id (text line) }

def next (m : Main) : Option (Callback × Main) :=
  match m.queue with
  | [] => none
  | c :: queue => some (c, { m with queue := queue, done := m.done ++ [c] })

def terminate (m : Main) (ids : List Nat) : Main :=
  { m with streams := m.streams.mapIdx fun i s => if i ∈ ids then { s with terminated := true } else s }

end Main

/-! ## Lines do not depend on the chunks -/

theorem takeLines_eq (n : Nat) (pending : Bytes) (hn : pending.length ≤ n) :
    Main.takeLines n pending = (closedParts endsLine pending, openPart endsLine pending) := by
  induction n generalizing pending with
  | zero =>
    obtain rfl := List.eq_nil_of_length_eq_zero (Nat.le_zero.mp hn)
    rfl
  | succ n ih =>
    have hsplit : pending = pending.takeWhile (fun b => !endsLine b) ++ pending.dropWhile fun b => !endsLine b :=
      List.takeWhile_append_dropWhile.symm
    have hline : ∀ b ∈ pending.takeWhile (fun b => !endsLine b), endsLine b = false := by
      intro b hb
      simpa using List.mem_takeWhile_imp hb
    rw [Main.takeLines]
    cases hrest : pending.dropWhile fun b => !endsLine b with
    | nil =>
      rw [hrest, List.append_nil] at hsplit
      rw [← hsplit] at hline
      have hparts := parts_append (l := []) hline
      simp only [List.nil_append, closedParts_nil, openPart_nil] at hparts
      rw [hparts.1, hparts.2]
    | cons b rest =>
      have hb : endsLine b = true := by
        have hne : pending.dropWhile (fun b => !endsLine b) ≠ [] := by simp [hrest]
        have := List.head_dropWhile_not (fun b => !endsLine b) hne
        simpa [hrest] using this
      have hlen : rest.length ≤ n := by
        have := congrArg List.length hsplit
        rw [hrest, List.length_append, List.length_cons] at this
        omega
      have hfirst := parts_append (l := []) hline
      have hsep := parts_append_sep (l := pending.takeWhile fun b => !endsLine b) hb (w := []) (by simp)
      have hopen := parts_append_open (p := endsLine) ((pending.takeWhile fun b => !endsLine b) ++ [b]) rest
      simp only [List.nil_append, closedParts_nil, openPart_nil] at hfirst
      rw [hsep.1, hsep.2, hfirst.1, hfirst.2, List.append_assoc, List.singleton_append, ← hrest, ← hsplit] at hopen
      simp only [ih rest hlen]
      rw [hopen.1, hopen.2]
      rfl

/-- The callbacks for a stream that has printed `output`. -/
def callbacks (id : Nat) (s : Stream) : List Callback :=
  (closedParts endsLine s.output).map (fun line => .line id (text line)) ++ if s.ended then [.exit id] else []

def Main.log (m : Main) : List Callback := m.done ++ m.queue

def Main.logOf (m : Main) (id : Nat) : List Callback := m.log.filter fun c => c.id == id

/-- Every complete line is handed over once, in order, and the end after all of them. -/
structure Faithful (m : Main) : Prop where
  known : ∀ c ∈ m.log, c.id < m.streams.length
  log : ∀ id s, m.streams[id]? = some s → m.logOf id = callbacks id s
  pending : ∀ s ∈ m.streams, s.pending = openPart endsLine s.output

theorem faithful_empty : Faithful .empty where
  known c hc := by cases hc
  log id s hs := by simp [Main.empty] at hs
  pending s hs := by cases hs

theorem logOf_append {m m' : Main} {cs : List Callback} (h : m'.log = m.log ++ cs) (id : Nat) :
    m'.logOf id = m.logOf id ++ cs.filter fun c => c.id == id := by
  unfold Main.logOf
  rw [h, List.filter_append]

theorem faithful_launch {m : Main} (h : Faithful m) : Faithful m.launch where
  known := by
    intro c hc
    simp only [Main.launch, List.length_append, List.length_singleton]
    exact Nat.lt_succ_of_lt (h.known c hc)
  log := by
    intro id s hs
    rcases getElem?_snoc_some_iff.mp hs with hs | ⟨rfl, rfl⟩
    · exact h.log id s hs
    · -- Nobody has spoken of the new stream.
      have hnone : m.logOf m.streams.length = [] := by
        unfold Main.logOf
        rw [List.filter_eq_nil_iff]
        intro c hc
        have := h.known c hc
        simp only [beq_iff_eq]
        omega
      exact hnone
  pending := by
    intro s hs
    rcases List.mem_append.mp hs with hs | hs
    · exact h.pending s hs
    · obtain rfl := List.mem_singleton.mp hs
      rfl

/-- A stream goes on, and so do its callbacks. -/
theorem Faithful.extend {m : Main} (h : Faithful m) {id : Nat} {s s' : Stream} {cs : List Callback}
    (hs : m.streams[id]? = some s) (hcs : ∀ c ∈ cs, c.id = id) (hcallbacks : callbacks id s' = callbacks id s ++ cs)
    (hpending : s'.pending = openPart endsLine s'.output) :
    Faithful { m with streams := m.streams.set id s', queue := m.queue ++ cs } := by
  have hid : id < m.streams.length := lt_of_getElem?_some hs
  have hlog : Main.log { m with streams := m.streams.set id s', queue := m.queue ++ cs } = m.log ++ cs :=
    (List.append_assoc _ _ _).symm
  refine ⟨?_, ?_, ?_⟩
  · intro c hc
    rw [hlog] at hc
    rw [List.length_set]
    rcases List.mem_append.mp hc with hc | hc
    · exact h.known c hc
    · rw [hcs c hc]
      exact hid
  · intro j x hx
    rw [logOf_append hlog]
    by_cases hj : j = id
    · subst hj
      rw [getElem?_set_self_some hs, Option.some.injEq] at hx
      subst hx
      have hall : (cs.filter fun c => c.id == j) = cs := by
        rw [List.filter_eq_self]
        intro c hc
        simp [hcs c hc]
      rw [hall, h.log j s hs, hcallbacks]
    · rw [List.getElem?_set_ne (Ne.symm hj)] at hx
      have hnone : (cs.filter fun c => c.id == j) = [] := by
        rw [List.filter_eq_nil_iff]
        intro c hc
        simp [hcs c hc, Ne.symm hj]
      rw [hnone, List.append_nil]
      exact h.log j x hx
  · intro x hx
    rcases List.mem_or_eq_of_mem_set hx with hx | rfl
    · exact h.pending x hx
    · exact hpending

/-- A stream that has not ended takes its end or more of its output. -/
theorem read_cases {m m' : Main} {id : Nat} {data : Bytes} (hr : m.read id data = some m') :
    ∃ s s' cs, m.streams[id]? = some s ∧ s.ended = false ∧
      m' = { m with streams := m.streams.set id s', queue := m.queue ++ cs } ∧
      (s' = { s with ended := true } ∧ cs = [.exit id] ∨
        ∃ r, r = Main.takeLines (s.pending ++ data).length (s.pending ++ data) ∧
          s' = { s with pending := r.2, output := s.output ++ data } ∧
          cs = r.1.map fun line => .line id (text line)) := by
  unfold Main.read at hr
  cases hs : m.streams[id]? with
  | none => simp [hs] at hr
  | some s =>
    cases hended : s.ended with
    | true => simp [hs, hended] at hr
    | false =>
      by_cases hdata : data.isEmpty = true
      · simp only [hs, hended, hdata, if_true, Bool.false_eq_true, if_false, Option.some.injEq] at hr
        exact ⟨s, _, _, rfl, hended, hr.symm, .inl ⟨rfl, rfl⟩⟩
      · simp only [hs, hended, hdata, Bool.false_eq_true, if_false, Option.some.injEq] at hr
        exact ⟨s, _, _, rfl, hended, hr.symm, .inr ⟨_, rfl, by rw [hended], rfl⟩⟩

theorem faithful_read {m m' : Main} {id : Nat} {data : Bytes} (h : Faithful m) (hr : m.read id data = some m') :
    Faithful m' := by
  obtain ⟨s, s', cs, hs, hended, rfl, hcase⟩ := read_cases hr
  have hpending := h.pending s (List.mem_of_getElem? hs)
  rcases hcase with ⟨rfl, rfl⟩ | ⟨r, hlines, rfl, rfl⟩
  · refine h.extend hs (by simp [Callback.id]) ?_ hpending
    simp [callbacks, hended]
  · have hopen := parts_append_open (p := endsLine) s.output data
    rw [takeLines_eq _ _ (Nat.le_refl _), hpending] at hlines
    subst hlines
    refine h.extend hs ?_ ?_ ?_
    · intro c hc
      obtain ⟨line, _, rfl⟩ := List.mem_map.mp hc
      rfl
    · simp [callbacks, hopen.1, hended]
    · exact hopen.2.symm

theorem faithful_next {m m' : Main} {c : Callback} (h : Faithful m) (hn : m.next = some (c, m')) :
    Faithful m' ∧ m'.streams = m.streams ∧ m'.done = m.done ++ [c] ∧ m.queue = c :: m'.queue := by
  unfold Main.next at hn
  cases hq : m.queue with
  | nil => simp [hq] at hn
  | cons x queue =>
    simp only [hq, Option.some.injEq, Prod.mk.injEq] at hn
    obtain ⟨rfl, rfl⟩ := hn
    have hlog : Main.log { m with queue := queue, done := m.done ++ [x] } = m.log := by
      simp [Main.log, hq]
    refine ⟨⟨?_, ?_, h.pending⟩, rfl, rfl, rfl⟩
    · rw [hlog]
      exact h.known
    · unfold Main.logOf
      rw [hlog]
      exact h.log

theorem getElem?_terminate {m : Main} {ids : List Nat} {id : Nat} {s : Stream}
    (hs : (m.terminate ids).streams[id]? = some s) :
    ∃ x, m.streams[id]? = some x ∧ s = if id ∈ ids then { x with terminated := true } else x := by
  simp only [Main.terminate, List.getElem?_mapIdx] at hs
  obtain ⟨x, hx, rfl⟩ := Option.map_eq_some_iff.mp hs
  exact ⟨x, hx, rfl⟩

theorem faithful_terminate {m : Main} (h : Faithful m) (ids : List Nat) : Faithful (m.terminate ids) where
  known := by
    simp only [Main.terminate, List.length_mapIdx]
    exact h.known
  log := by
    intro id s hs
    obtain ⟨x, hx, rfl⟩ := getElem?_terminate hs
    have hsame : callbacks id (if id ∈ ids then { x with terminated := true } else x) = callbacks id x := by
      split <;> rfl
    rw [hsame]
    exact h.log id x hx
  pending := by
    intro s hs
    obtain ⟨id, hid⟩ := List.getElem?_of_mem hs
    obtain ⟨x, hx, rfl⟩ := getElem?_terminate hid
    have := h.pending x (List.mem_of_getElem? hx)
    split <;> exact this

theorem read_fields {m m' : Main} {id : Nat} {data : Bytes} (hr : m.read id data = some m') :
    m'.done = m.done ∧ m'.streams.length = m.streams.length ∧
      ∀ (j : Nat) (x' : Stream), m'.streams[j]? = some x' →
        ∃ x, m.streams[j]? = some x ∧ x'.terminated = x.terminated := by
  obtain ⟨s, s', cs, hs, _, rfl, hcase⟩ := read_cases hr
  have hterminated : s'.terminated = s.terminated := by
    rcases hcase with ⟨rfl, _⟩ | ⟨_, _, rfl, _⟩ <;> rfl
  refine ⟨rfl, List.length_set, fun j x' hx => ?_⟩
  by_cases hj : j = id
  · subst hj
    rw [getElem?_set_self_some hs, Option.some.injEq] at hx
    exact ⟨s, hs, hx ▸ hterminated⟩
  · rw [List.getElem?_set_ne (Ne.symm hj)] at hx
    exact ⟨x', hx, rfl⟩

/-- The end of a stream is handed over once. -/
theorem Faithful.exit_once {m : Main} (h : Faithful m) {id : Nat} {s : Stream} (hs : m.streams[id]? = some s) :
    m.log.count (.exit id) ≤ 1 := by
  have hcount : (m.logOf id).count (.exit id) = m.log.count (.exit id) := by
    unfold Main.logOf
    rw [List.count_filter (by simp [Callback.id])]
  rw [← hcount, h.log id s hs, callbacks, List.count_append]
  have hlines : ((closedParts endsLine s.output).map fun line => Callback.line id (text line)).count (.exit id) = 0 := by
    rw [List.count_eq_zero]
    intro hmem
    obtain ⟨line, _, heq⟩ := List.mem_map.mp hmem
    cases heq
  rw [hlines]
  split <;> simp

theorem Faithful.exit_not_done {m : Main} (h : Faithful m) {id : Nat} {s : Stream} (hs : m.streams[id]? = some s)
    {queue : List Callback} (hqueue : m.queue = .exit id :: queue) : .exit id ∉ m.done := by
  intro hdone
  have honce := h.exit_once hs
  have := List.count_pos_iff.mpr hdone
  rw [Main.log, List.count_append, hqueue, List.count_cons_self] at honce
  omega

/-- Once the end is handed over there is no line left. -/
theorem Faithful.no_line_after {m : Main} (h : Faithful m) {id : Nat} {s : Stream} (hs : m.streams[id]? = some s)
    {t : String} (before : List Callback) {after : List Callback} (hqueue : m.queue = before ++ .line id t :: after) :
    .exit id ∉ m.done := by
  intro hexit
  have hlog : (m.done ++ before).filter (fun c => c.id == id) ++ .line id t :: after.filter (fun c => c.id == id) =
      callbacks id s := by
    rw [← h.log id s hs]
    simp [Main.logOf, Main.log, hqueue, Callback.id]
  have hin : .exit id ∈ (m.done ++ before).filter fun c => c.id == id :=
    List.mem_filter.mpr ⟨List.mem_append_left _ hexit, by simp [Callback.id]⟩
  -- What stands before the line is part of the lines.
  have hlines : (m.done ++ before).filter (fun c => c.id == id) <+:
      (closedParts endsLine s.output).map fun line => .line id (text line) := by
    unfold callbacks at hlog
    generalize (m.done ++ before).filter (fun c => c.id == id) = first at hlog ⊢
    generalize (closedParts endsLine s.output).map (fun line => Callback.line id (text line)) = lines at hlog ⊢
    have hend : (if s.ended then [Callback.exit id] else []).length ≤ 1 := by split <;> simp
    have hlen := congrArg List.length hlog
    simp only [List.length_append, List.length_cons] at hlen
    have hfirst : first <+: lines ++ if s.ended then [.exit id] else [] := by
      rw [← hlog]
      exact List.prefix_append _ _
    exact List.prefix_of_prefix_length_le hfirst (List.prefix_append _ _) (by omega)
  obtain ⟨line, _, heq⟩ := List.mem_map.mp (hlines.subset hin)
  cases heq

/-- The text of a line of the stream. -/
def Callback.lineOf (id : Nat) : Callback → Option String
  | .line i t => if i = id then some t else none
  | .exit _ => none

/-- The lines of the stream that the main thread was given so far. -/
def Main.said (m : Main) (id : Nat) : List String := m.done.filterMap (Callback.lineOf id)

theorem filterMap_logOf (m : Main) (id : Nat) :
    (m.logOf id).filterMap (Callback.lineOf id) = m.log.filterMap (Callback.lineOf id) := by
  rw [Main.logOf, List.filterMap_filter]
  congr 1
  funext c
  cases c with
  | line i t => by_cases hi : i = id <;> simp [Callback.id, Callback.lineOf, hi]
  | exit i => simp [Callback.lineOf]

theorem filterMap_callbacks (id : Nat) (s : Stream) :
    (callbacks id s).filterMap (Callback.lineOf id) = (closedParts endsLine s.output).map text := by
  have hend : (if s.ended then [Callback.exit id] else []).filterMap (Callback.lineOf id) = [] := by
    split <;> rfl
  rw [callbacks, List.filterMap_append, List.filterMap_map, hend, List.append_nil, ← List.filterMap_eq_map]
  congr 1
  funext line
  simp [Callback.lineOf]

/-- The lines that were run are the first complete lines of the output. -/
theorem Faithful.said_lines {m : Main} (h : Faithful m) {id : Nat} {s : Stream} (hs : m.streams[id]? = some s) :
    m.said id <+: (closedParts endsLine s.output).map text := by
  rw [← filterMap_callbacks id, ← h.log id s hs, filterMap_logOf, Main.log, List.filterMap_append]
  exact List.prefix_append _ _

/-- With the end all lines were run. -/
theorem Faithful.said_all {m : Main} (h : Faithful m) {id : Nat} {s : Stream} (hs : m.streams[id]? = some s)
    (hexit : .exit id ∈ m.done) : m.said id = (closedParts endsLine s.output).map text ∧ s.ended = true := by
  have hin : .exit id ∈ callbacks id s := by
    rw [← h.log id s hs, Main.logOf, List.mem_filter]
    exact ⟨List.mem_append_left _ hexit, by simp [Callback.id]⟩
  refine ⟨?_, ?_⟩
  · -- A line in the queue would come after the end.
    have hnone : m.queue.filterMap (Callback.lineOf id) = [] := by
      rw [List.filterMap_eq_nil_iff]
      intro c hc
      cases c with
      | exit i => rfl
      | line i t =>
        by_cases hi : i = id
        · subst hi
          obtain ⟨before, after, hqueue⟩ := List.append_of_mem hc
          exact absurd hexit (h.no_line_after hs before hqueue)
        · simp [Callback.lineOf, hi]
    rw [← filterMap_callbacks id, ← h.log id s hs, filterMap_logOf, Main.log, List.filterMap_append, hnone,
      List.append_nil]
    rfl
  · rw [callbacks] at hin
    cases he : s.ended with
    | true => rfl
    | false =>
      rw [he] at hin
      simp at hin

end Mux.Subprocess
