import Mathlib.Data.List.TakeDrop
import Mathlib.Data.List.TakeWhile
import Mux.LaunchCommand

/-!
# The app and the relay agree on the launch command

The words that a shell reads are the parts that were quoted, and the argument loop puts each
where the app meant it, whatever the strings are: a word that looks like a flag only ever
stands where the loop takes it as it is. A relay that is told that the terminal must exist
also expects it to.
-/

namespace Mux.Muxd

open Lib

/-! ## Words -/

theorem cString_eq_self {t : Text} (h : '\x00' ∉ t) : cString t = t := by
  unfold cString
  rw [List.takeWhile_eq_self_iff]
  intro c hc
  rw [bne_iff_ne]
  intro heq
  exact h (heq ▸ hc)

theorem mem_quoted {c : Char} (h1 : c ≠ '\'') (h2 : c ≠ '\\') {t : Text} (h : c ∈ quoted t) : c ∈ t := by
  unfold quoted replacing at h
  simp only [List.mem_cons, List.mem_append, List.mem_flatMap, h1, false_or, List.not_mem_nil, or_false] at h
  obtain ⟨d, hd, hc⟩ := h
  split at hc
  · simp [h1, h2] at hc
  · rwa [List.mem_singleton.mp hc]

theorem mem_quote {c : Char} (h1 : c ≠ '\'') (h2 : c ≠ '\\') (h3 : c ≠ ' ') {argv : List Text}
    (h : c ∈ Attach.quote argv) : ∃ t ∈ argv, c ∈ t := by
  unfold Attach.quote at h
  induction argv with
  | nil => simp [List.intercalate] at h
  | cons a argv ih =>
    cases argv with
    | nil =>
      have h : c ∈ quoted a := by simpa [List.intercalate] using h
      exact ⟨a, List.mem_cons_self, mem_quoted h1 h2 h⟩
    | cons b argv =>
      have h : c ∈ quoted a ++ ' ' :: [' '].intercalate ((b :: argv).map quoted) := by
        simpa [List.intercalate] using h
      rcases List.mem_append.mp h with h | h
      · exact ⟨a, List.mem_cons_self, mem_quoted h1 h2 h⟩
      · obtain ⟨t, ht, hc⟩ := ih ((List.mem_cons.mp h).resolve_left h3)
        exact ⟨t, List.mem_cons_of_mem _ ht, hc⟩

/-- The shell starts the program that was quoted, with the arguments that were. -/
theorem launched_quote {program : Text} {args : List Text} (h : ∀ t ∈ program :: args, '\x00' ∉ t) :
    launched (Attach.quote (program :: args)) = (Pane.parseArgs (args.map String.ofList)).toOption := by
  have hnul : '\x00' ∉ Attach.quote (program :: args) := by
    intro hmem
    obtain ⟨t, ht, hc⟩ := mem_quote (by decide) (by decide) (by decide) hmem
    exact h t ht hc
  unfold launched
  rw [cString_eq_self hnul, Attach.quote, shellWords_quoted]
  rfl

theorem nul_not_mem_uuidString (n : Nat) : '\x00' ∉ (uuidString n).toList := by
  have hdigit : ∀ n < 16, upperDigit n ≠ '\x00' := by decide
  have htext : ∀ w n, '\x00' ∉ hexText w n := by
    intro w
    induction w with
    | zero => intro n; simp [hexText]
    | succ w ih =>
      intro n
      have hd := hdigit (n % 16) (Nat.mod_lt _ (by decide))
      simp [hexText, ih, hd.symm]
  simp [uuidString, htext]

/-! ## Targets -/

theorem colon_not_mem {name : Text} (h : KnownHosts.checkAlias name = true) : ':' ∉ name := by
  intro hmem
  simp only [KnownHosts.checkAlias, Bool.and_eq_true, List.all_eq_true] at h
  exact absurd (h.2 ':' hmem) (by decide)

theorem hasPrefix_alias (joins : Char → Char → Bool) {name : Text} (h : KnownHosts.checkAlias name = true) :
    hasPrefix joins ixPrefix name = false := by
  rw [hasPrefix, Bool.and_eq_false_iff]
  left
  rw [← Bool.not_eq_true, List.isPrefixOf_iff_prefix]
  rintro ⟨rest, rfl⟩
  exact colon_not_mem h (by simp [ixPrefix])

theorem hasPrefix_vm {joins : Char → Char → Bool} {name : Text} (h : boundary joins ixPrefix name = true) :
    hasPrefix joins ixPrefix (ixPrefix ++ name) = true := by
  simp [hasPrefix, h]

section
variable {joins : Char → Char → Bool} {a : Attach} {p : Place} (ht : a.target = p.target) (hs : p.Separate joins)
include ht hs

theorem address_eq :
    a.address joins = (p.relayHost.getD "local".toList) ++ ':' :: (uuidString a.paneID).toList := by
  unfold Attach.address
  rw [ht]
  cases p with
  | here => rfl
  | host name remote => simp [Place.target, Place.relayHost, hasPrefix_alias joins name.2]
  | vm name =>
    simp only [Place.target, hasPrefix_vm hs]
    rfl

theorem inPty_eq (b : Binaries) : a.inPty joins b = a.ptyCommand.or (p.shell b) := by
  unfold Attach.inPty vm
  rw [ht]
  cases p with
  | here => rfl
  | host name remote => simp [Place.target, Place.shell, hasPrefix_alias joins name.2]
  | vm name =>
    simp only [Place.target, Place.shell, Option.bind_some, hasPrefix_vm hs, if_true, List.drop_left, Option.map_some]

end

theorem splitOnce_append {c : Char} {before : Text} (h : c ∉ before) (after : Text) :
    Pane.splitOnce c (String.ofList (before ++ c :: after)) = some (String.ofList before, String.ofList after) := by
  have hspan : (before ++ c :: after).span (· ≠ c) = (before, c :: after) := by
    have hbefore : ∀ d ∈ before, decide (d ≠ c) = true := by
      intro d hd
      rw [decide_eq_true_eq]
      rintro rfl
      exact h hd
    rw [List.span_eq_takeWhile_dropWhile, List.takeWhile_append_of_pos hbefore, List.dropWhile_append_of_pos hbefore]
    simp
  unfold Pane.splitOnce
  rw [String.toList_ofList, hspan]

theorem uuidString_ne (id : Nat) : uuidString id ≠ "" := by
  intro h
  have hlen := congrArg (fun s => s.toList.length) h
  simp [uuidString] at hlen

theorem parseTarget_eq (p : Place) {name : String} (hname : name ≠ "") :
    Pane.parseTarget (String.ofList ((p.relayHost.getD "local".toList) ++ ':' :: name.toList)) =
      .ok (p.relayHost.map String.ofList, name) := by
  have hlocal : ':' ∉ "local".toList := by decide
  unfold Pane.parseTarget
  cases p with
  | host known remote =>
    have hne : String.ofList known.1 ≠ "local" := fun h => remote (by rw [← h, String.toList_ofList])
    have hfirst : String.ofList known.1 ≠ "" := by
      intro h
      have hnil : known.1 = [] := by rw [← String.toList_ofList (l := known.1), h]; rfl
      have hok := known.2
      rw [hnil] at hok
      exact absurd hok (by decide)
    rw [Place.relayHost, Option.getD_some, splitOnce_append (colon_not_mem known.2), String.ofList_toList]
    simp only [hne, hfirst, hname, false_and, if_false, ne_eq, not_false_eq_true, and_self, if_true, Option.map_some]
  | here =>
    have hno : Place.here.relayHost = none := rfl
    rw [hno, Option.getD_none, splitOnce_append hlocal, String.ofList_toList]
    simp [hname]
  | vm vmName =>
    have hno : (Place.vm vmName).relayHost = none := rfl
    rw [hno, Option.getD_none, splitOnce_append hlocal, String.ofList_toList]
    simp [hname]

/-! ## The argument loop -/

theorem read_address (f : Pane.Flags) {address : String} (h : ':' ∈ address.toList) (rest : List String) :
    f.read (address :: rest) = { f with target := some address }.read rest := by
  have hflag : ∀ flag ∈ ["--expect-existing", "--mirror-foreground", "--require-existing", "--cwd", "--cwd-from",
      "--"],
      ':' ∉ flag.toList := by decide
  have hne : ∀ flag ∈ ["--expect-existing", "--mirror-foreground", "--require-existing", "--cwd", "--cwd-from", "--"],
      address ≠ flag := by
    intro flag hmem heq
    exact hflag flag hmem (heq ▸ h)
  simp only [List.forall_mem_cons] at hne
  rw [Pane.Flags.read.eq_def]
  simp [hne]

theorem read_flags (a : Attach) (f : Pane.Flags) (rest : List String) :
    f.read (a.flags.map String.ofList ++ rest) =
      { f with
        requireExisting := f.requireExisting || a.requireExisting
        expectExisting := f.expectExisting || (a.requireExisting || a.expectExisting) }.read rest := by
  unfold Attach.flags
  cases hr : a.requireExisting with
  | true =>
    rw [if_pos rfl, List.map_singleton, List.singleton_append, Pane.Flags.read.eq_def]
    simp
  | false =>
    cases he : a.expectExisting with
    | true =>
      rw [if_neg (by decide), if_pos rfl, List.map_singleton, List.singleton_append, Pane.Flags.read.eq_def]
      simp
    | false => simp

theorem read_nil (f : Pane.Flags) : f.read [] = .ok f := by rw [Pane.Flags.read.eq_def]

theorem read_command (f : Pane.Flags) (command : List String) :
    f.read ("--" :: command) = .ok { f with command := command } := by
  rw [Pane.Flags.read.eq_def]
  simp

theorem read_cwd (f : Pane.Flags) (dir : String) : f.read ["--cwd", dir] = .ok { f with cwd := some dir } := by
  rw [Pane.Flags.read.eq_def]
  simp [read_nil]

theorem read_cwdFrom (f : Pane.Flags) (source : String) :
    f.read ["--cwd-from", source] = .ok { f with cwdFrom := some source } := by
  rw [Pane.Flags.read.eq_def]
  simp [read_nil]

/-! ## The composition -/

variable {joins : Char → Char → Bool} {b : Binaries} {a : Attach} {p : Place} {cwd : Option Text}
  {cwdFrom : Option Nat}

/-- What `commandLine` appends to the flags. -/
def Attach.tail (joins : Char → Char → Bool) (b : Binaries) (a : Attach) (cwd : Option Text) (cwdFrom : Option Nat) :
    List Text :=
  match a.inPty joins b, cwdFrom, cwd with
  | some command, _, _ => "--".toList :: command
  | none, some source, _ => ["--cwd-from".toList, (uuidString source).toList]
  | none, none, some dir => ["--cwd".toList, dir]
  | none, none, none => []

theorem commandLine_eq :
    a.commandLine joins b cwd cwdFrom =
      Attach.quote (b.attachBinary :: a.address joins :: (a.flags ++ a.tail joins b cwd cwdFrom)) := by
  unfold Attach.commandLine Attach.tail
  cases a.inPty joins b with
  | some command => simp
  | none =>
    cases cwdFrom with
    | some source => simp
    | none => cases cwd <;> simp

theorem nul_not_mem_address (hn : a.NulFree b cwd) : '\x00' ∉ a.address joins := by
  have hid := nul_not_mem_uuidString a.paneID
  unfold Attach.address
  cases ht : a.target with
  | none => simpa using hid
  | some t =>
    have htarget := hn.target t ht
    simp only
    split
    · simpa using hid
    · simp [htarget, hid]

theorem nul_not_mem_flags (a : Attach) : ∀ t ∈ a.flags, '\x00' ∉ t := by
  unfold Attach.flags
  split
  · decide
  · split
    · decide
    · simp

theorem nul_not_mem_tail (ht : a.target = p.target) (hs : p.Separate joins) (hn : a.NulFree b cwd) :
    ∀ t ∈ a.tail joins b cwd cwdFrom, '\x00' ∉ t := by
  have hcommand : ∀ command, a.inPty joins b = some command → ∀ t ∈ command, '\x00' ∉ t := by
    intro command h t hmem
    rw [inPty_eq ht hs] at h
    cases hp : a.ptyCommand with
    | some l =>
      rw [hp, Option.some_or, Option.some_inj] at h
      exact hn.command l hp t (h ▸ hmem)
    | none =>
      rw [hp, Option.none_or] at h
      cases p with
      | vm name =>
        cases h
        have hname := hn.target _ ht
        simp only [List.mem_cons, List.not_mem_nil, or_false] at hmem
        rcases hmem with rfl | rfl | rfl
        · exact hn.ix
        · decide
        · exact fun hc => hname (List.mem_append_right _ hc)
      | here => cases h
      | host _ _ => cases h
  unfold Attach.tail
  cases hi : a.inPty joins b with
  | some command =>
    rw [List.forall_mem_cons]
    exact ⟨by decide, hcommand command hi⟩
  | none =>
    cases cwdFrom with
    | some source =>
      have hid := nul_not_mem_uuidString source
      simp [hid]
    | none =>
      cases hc : cwd with
      | some dir =>
        have hdir := hn.cwd dir hc
        simp [hdir]
      | none => simp

/-- For every pane: the relay recovers what it was launched with. -/
theorem launch_agrees (ht : a.target = p.target) (hs : p.Separate joins) (hn : a.NulFree b cwd) :
    launched (a.commandLine joins b cwd cwdFrom) =
      some (a.relay b p cwd cwdFrom (a.requireExisting || a.expectExisting)) := by
  have hnul : ∀ t ∈ b.attachBinary :: a.address joins :: (a.flags ++ a.tail joins b cwd cwdFrom), '\x00' ∉ t := by
    simp only [List.forall_mem_cons, List.forall_mem_append]
    exact ⟨hn.attachBinary, nul_not_mem_address hn, nul_not_mem_flags a, nul_not_mem_tail ht hs hn⟩
  rw [commandLine_eq, launched_quote hnul, List.map_cons, List.map_append, Pane.parseArgs, address_eq ht hs]
  rw [read_address _ (by simp), read_flags]
  unfold Attach.tail Attach.relay
  rw [inPty_eq ht hs]
  have htarget := parseTarget_eq p (uuidString_ne a.paneID)
  cases a.ptyCommand.or (p.shell b) with
  | some command =>
    rw [List.map_cons, String.ofList_toList, read_command]
    simp only [htarget]
    rfl
  | none =>
    cases cwdFrom with
    | some source =>
      simp only [List.map_cons, List.map_nil, String.ofList_toList, read_cwdFrom, htarget]
      rfl
    | none =>
      cases cwd with
      | some dir =>
        simp only [List.map_cons, List.map_nil, String.ofList_toList, read_cwd, htarget]
        rfl
      | none =>
        simp only [List.map_nil, read_nil, htarget]
        rfl

/-- A pane that must exist, on this machine. -/
def required : Attach := ⟨1, none, none, false, true⟩

/-- A VM whose name begins with a combining accent. -/
def accented : Attach := ⟨1, some (ixPrefix ++ ['\u0301', 'a']), none, true, false⟩

def found : Binaries := ⟨"/Applications/mux.app/Contents/MacOS/mux-attach".toList, "/opt/homebrew/bin/ix".toList⟩

/-- The accent of `accented` joins what is before it. -/
def accent (_ d : Char) : Bool := d == '\u0301'

/-- The flag that was not set is recovered as set, and the VM is taken for a host. -/
theorem launch_not_exact :
    launched (required.commandLine accent found none none) ≠
        some (required.relay found .here none none required.expectExisting) ∧
      launched (accented.commandLine accent found none none) ≠
        some (accented.relay found (.vm ['\u0301', 'a']) none none accented.expectExisting) := by
  constructor
  · decide +kernel
  · decide +kernel

/-- Creating a VM: an empty argument, one with a quote, a line break and a flag, and a directory that is left out. -/
def creating : Attach :=
  ⟨7, some (ixPrefix ++ "dev box".toList),
    some ["ix".toList, "new".toList, [], "it's\n$HOME".toList, "--cwd".toList], true, false⟩

theorem launch_agrees_creating :
    launched (creating.commandLine accent found (some "/stale".toList) (some 9)) =
      some ⟨none, "00000000-0000-0000-0000-000000000007", none, none, ["ix", "new", "", "it's\n$HOME", "--cwd"], true,
        false, false⟩ := by
  have hagrees := @launch_agrees accent found creating (.vm "dev box".toList) (some "/stale".toList) (some 9) rfl
    (by unfold Place.Separate; decide) ⟨by decide, by decide, by decide, by decide, by decide⟩
  rw [hagrees]
  decide +kernel

end Mux.Muxd
