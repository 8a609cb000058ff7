import Mux.MigrateWire
import Mathlib.Algebra.Order.BigOperators.Group.List
import Mathlib.Algebra.Order.Ring.Nat
import Mathlib.Algebra.Group.Action.Defs

/-!
# What the successor makes of the message

`receive` depends on the bytes of the message and on the descriptors, not on where the stream
was cut: it hands the body to `accept`. What remains is the two layouts of the payload.
-/

namespace Mux.Migrate

open Lib Lib.Postcard

/-- The stream delivers the message in some pieces and then ends; the descriptors come with the
first of them. -/
def Carries (src : List Recv) (message : Bytes) (fds : List Fd) : Prop :=
  ∃ n b bs src', src = List.replicate n .wouldBlock ++ .data b bs fds :: src' ∧
    Reader.tokio.Delivers (some (.data b bs) :: src'.map Recv.plain) message

/-! ## Stitching -/

theorem recv_wouldBlock (n : Nat) (src : List Recv) :
    recvWithFds (List.replicate n .wouldBlock ++ src) = recvWithFds src := by
  induction n with
  | zero => rfl
  | succ n ih => rw [List.replicate_succ, List.cons_append, recvWithFds, ih]

theorem recv_spec {src : List Recv} {message : Bytes} {fds : List Fd} (h : Carries src message fds)
    (hf : fds.length ≤ maxMigrateFds) :
    ∃ buf rest tail, recvWithFds src = .ok (buf, fds, rest) ∧ message = buf ++ tail ∧ Reader.tokio.Delivers rest tail := by
  obtain ⟨n, b, bs, src', rfl, hw, hb⟩ := h
  have hbytes : message = (b :: bs) ++ Reader.tokioBytes (src'.map Recv.plain) := hb.symm
  have hwhole : Reader.TokioWhole (src'.map Recv.plain) := fun e he => hw e (List.mem_cons_of_mem _ he)
  refine ⟨(b :: bs).take recvBuffer, (Event.rest ((b :: bs).drop recvBuffer)).map some ++ src'.map Recv.plain,
    (b :: bs).drop recvBuffer ++ Reader.tokioBytes (src'.map Recv.plain), ?_, ?_, ?_, ?_⟩
  · rw [recv_wouldBlock, recvWithFds, if_neg (by omega)]
  · rw [hbytes, ← List.append_assoc, List.take_append_drop]
  · intro e he
    rcases List.mem_append.mp he with he | he
    · exact Event.fail_not_mem_rest (by simpa using he)
    · exact hwhole e he
  · show Reader.tokioBytes _ = _
    rw [Reader.tokioBytes, Reader.pieces_rest, Reader.stdBytes, List.flatMap_append, Event.rest_bytes]
    rfl

theorem receive_too_many {src : List Recv} {message : Bytes} {fds : List Fd} (h : Carries src message fds)
    (hf : maxMigrateFds < fds.length) : receive src = .error (.receiving .other) := by
  obtain ⟨n, b, bs, src', rfl, -⟩ := h
  unfold receive
  rw [recv_wouldBlock, recvWithFds, if_pos hf]
  rfl

theorem fill_spec (n : Nat) (buf : Bytes) {tail : Bytes} {src : List (Option Event)}
    (h : Reader.tokio.Delivers src tail)
    (hn : n ≤ (buf ++ tail).length) :
    ∃ buf' src' tail', fill n buf src = .ok (buf', src') ∧ buf' ++ tail' = buf ++ tail ∧ n ≤ buf'.length ∧
      Reader.tokio.Delivers src' tail' := by
  unfold fill
  by_cases hl : buf.length < n
  · have hle : n - buf.length ≤ tail.length := by
      rw [List.length_append] at hn
      omega
    rw [← List.take_append_drop (n - buf.length) tail] at h
    obtain ⟨src', hr, hd⟩ := h.enough (List.length_take_of_le hle)
    rw [if_pos hl, hr]
    refine ⟨_, src', _, rfl, ?_, ?_, hd⟩
    · rw [List.append_assoc, List.take_append_drop]
    · rw [List.length_append, List.length_take_of_le hle]
      omega
  · rw [if_neg hl]
    exact ⟨buf, src, tail, rfl, rfl, by omega, h⟩

theorem frameMessage_ok {body message : Bytes} (h : frameMessage body = .ok message) :
    body.length < 2 ^ 32 ∧ message = leBytes 4 body.length ++ body := by
  unfold frameMessage at h
  split at h
  · exact ⟨by assumption, (Except.ok.inj h).symm⟩
  · cases h

theorem head_split {buf tail body : Bytes} {n : Nat} (h : buf ++ tail = leBytes 4 n ++ body) (h4 : 4 ≤ buf.length) :
    buf.take 4 = leBytes 4 n ∧ buf.drop 4 ++ tail = body := by
  rw [← List.take_append_drop 4 buf, List.append_assoc] at h
  exact List.append_inj h (by rw [List.length_take_of_le h4, leBytes_length])

/-- However the message was cut, the body reaches `accept`, when its length passes. -/
theorem receive_eq {src : List Recv} {body message : Bytes} {fds : List Fd} (hm : frameMessage body = .ok message)
    (h : Carries src message fds) (hf : fds.length ≤ maxMigrateFds) :
    receive src = if body.length = 0 ∨ maxPayloadBytes < body.length then
        .error (.refused s!"bad handoff payload length {body.length}") else accept body fds := by
  obtain ⟨hlt, rfl⟩ := frameMessage_ok hm
  obtain ⟨buf, rest, tail, hr, hmsg, hd⟩ := recv_spec h hf
  obtain ⟨buf1, rest1, tail1, hr1, hb1, h4, hd1⟩ := fill_spec 4 buf hd
    (by rw [← hmsg, List.length_append, leBytes_length]; omega)
  obtain ⟨htake, hdrop⟩ := head_split (hb1.trans hmsg.symm) h4
  have hlen : leValue (buf1.take 4) = body.length := by
    rw [htake, leValue_leBytes]
    exact hlt
  unfold receive
  simp only [hr, hr1, bind, Except.bind, hlen]
  split
  · rfl
  · obtain ⟨body', rest2, tail2, hr2, hb2, hl2, hd2⟩ := fill_spec body.length (buf1.drop 4) hd1 (by rw [hdrop])
    have hbody : body'.take body.length = body := by
      rw [← List.take_append_of_le_length hl2, hb2, hdrop, List.take_length]
    rw [hr2]
    simp only [hbody]

/-! ## The two layouts -/

theorem decodePayload_current {p : MigratePayload} (h : p.version = migrateVersion) :
    decodePayload (migratePayload.encode p) = .ok p := by
  have hv : fromBytes u32 (migratePayload.encode p) = .ok p.version := fromBytes_encode u32 p.version _
  have hp : fromBytes migratePayload (migratePayload.encode p) = .ok p := fromBytes_self migratePayload p
  have hne : p.version ≠ 1 := by rw [h]; decide
  unfold decodePayload
  rw [hv, hp]
  simp only [decoded, Except.mapError, bind, Except.bind, if_pos hne]

def LegacyPayload.upgrade (p : LegacyPayload) : List MigratePty := p.ptys.1.map LegacyPty.toPty

theorem decodePayload_legacy {p : LegacyPayload} (h : p.version = 1) :
    ∃ q, decodePayload (legacyPayload.encode p) = .ok q ∧
    q.version = migrateVersion ∧ q.ptys.1 = p.upgrade := by
  have hv : fromBytes u32 (legacyPayload.encode p) = .ok p.version := fromBytes_encode u32 p.version _
  have hp : fromBytes legacyPayload (legacyPayload.encode p) = .ok p := fromBytes_self legacyPayload p
  unfold decodePayload
  rw [hv, hp]
  simp only [decoded, Except.mapError, bind, Except.bind, if_neg (not_not.mpr h)]
  exact ⟨_, rfl, rfl, rfl⟩

theorem decoded_ok {α : Type} {r : Except Error α} {x : α} (h : decoded r = .ok x) : r = .ok x := by
  cases r with
  | error e => cases h
  | ok y => cases h; rfl

/-- The body is decoded at its own version or not at all. -/
theorem decodePayload_version {body : Bytes} {v : UInt32} {p : MigratePayload} (hv : fromBytes u32 body = .ok v)
    (h1 : v ≠ 1)
    (hp : decodePayload body = .ok p) : p.version = v := by
  unfold decodePayload at hp
  rw [hv] at hp
  simp only [bind, Except.bind, show decoded (.ok v : Except Error UInt32) = .ok v from rfl, if_pos h1] at hp
  obtain ⟨x, rfl, hx⟩ := fromBytes_first (decoded_ok hp)
  exact Except.ok.inj (hx.symm.trans hv)

theorem accept_ok {body : Bytes} {fds : List Fd} {p : MigratePayload} (hp : decodePayload body = .ok p)
    (hv : p.version = migrateVersion) (hc : p.ptys.1.length = fds.length) :
    accept body fds = .ok (List.zipWith Adopted.mk p.ptys.1 fds) := by
  unfold accept
  simp only [hp, bind, Except.bind, if_neg (not_not.mpr hv), if_neg (not_not.mpr hc)]
  rfl

theorem accept_eq_ok {body : Bytes} {fds : List Fd} {adopted : List Adopted} (h : accept body fds = .ok adopted) :
    ∃ p, decodePayload body = .ok p ∧ p.version = migrateVersion ∧ p.ptys.1.length = fds.length := by
  unfold accept at h
  cases hp : decodePayload body with
  | error e => rw [hp] at h; cases h
  | ok p =>
    simp only [hp, bind, Except.bind] at h
    split at h
    · cases h
    · split at h
      · cases h
      · rename_i hv hc
        exact ⟨p, rfl, not_not.mp hv, not_not.mp hc⟩

theorem receive_eq_ok {src : List Recv} {body message : Bytes} {fds : List Fd} {adopted : List Adopted}
    (hm : frameMessage body = .ok message) (h : Carries src message fds) (hr : receive src = .ok adopted) :
    body.length ≤ maxPayloadBytes ∧
      ∃ p, decodePayload body = .ok p ∧ p.version = migrateVersion ∧ p.ptys.1.length = fds.length := by
  by_cases hf : fds.length ≤ maxMigrateFds
  · rw [receive_eq hm h hf] at hr
    split at hr
    · cases hr
    · exact ⟨by omega, accept_eq_ok hr⟩
  · rw [receive_too_many h (Nat.lt_of_not_le hf)] at hr
    cases hr

/-! ## The message -/

theorem writeAll_flatten (cuts : List Nat) (m : Bytes) : (writeAll cuts m).flatten = m := by
  induction cuts generalizing m with
  | nil => simp [writeAll]
  | cons n cuts ih => rw [writeAll, List.flatten_cons, ih, List.take_append_drop]

def Delivered (src : List Recv) (writes : List (Bytes × List Fd)) : Prop :=
  Carries src (writes.flatMap Prod.fst) (writes.flatMap Prod.snd)

theorem delivered_carries {src : List Recv} {message : Bytes} {fds : List Fd} {sent : Nat} {cuts : List Nat}
    (h : Delivered src (sendWithFds message fds sent cuts)) : Carries src message fds := by
  have h1 : (sendWithFds message fds sent cuts).flatMap Prod.fst = message := by
    rw [sendWithFds, List.flatMap_cons, List.flatMap_map, List.flatMap_id', writeAll_flatten, List.take_append_drop]
  have h2 : (sendWithFds message fds sent cuts).flatMap Prod.snd = fds := by
    rw [sendWithFds, List.flatMap_cons, List.flatMap_map]
    simp
  rw [Delivered, h1, h2] at h
  exact h

theorem u32_pos (v : UInt32) (l : Bytes) : 0 < (u32.encode v ++ l).length := by
  have := encodeVarint_pos 4 v.toNat
  rw [List.length_append]
  exact Nat.lt_of_lt_of_le this (Nat.le_add_right ..)

theorem receive_body {src : List Recv} {body message : Bytes} {fds : List Fd} {p : MigratePayload}
    (hm : frameMessage body = .ok message) (h : Carries src message fds) (hf : fds.length ≤ maxMigrateFds)
    (h0 : 0 < body.length) (hl : body.length ≤ maxPayloadBytes) (hp : decodePayload body = .ok p)
    (hv : p.version = migrateVersion) (hc : p.ptys.1.length = fds.length) :
    receive src = .ok (List.zipWith Adopted.mk p.ptys.1 fds) := by
  rw [receive_eq hm h hf, if_neg (by omega), accept_ok hp hv hc]

/-- However the message was sent and received in pieces: a current payload arrives as it was, a
payload of version 1 without deadlines, and nothing else arrives. -/
theorem handoff_wire {src : List Recv} {body message : Bytes} {fds : List Fd} {sent : Nat} {cuts : List Nat}
    (hm : frameMessage body = .ok message) (hd : Delivered src (sendWithFds message fds sent cuts)) :
    (∀ p : MigratePayload, body = migratePayload.encode p → p.version = migrateVersion → p.ptys.1.length ≤ maxMigrateFds →
      p.ptys.1.length = fds.length → body.length ≤ maxPayloadBytes →
        receive src = .ok (List.zipWith Adopted.mk p.ptys.1 fds)) ∧
    (∀ p : LegacyPayload, body = legacyPayload.encode p → p.version = 1 → p.ptys.1.length ≤ maxMigrateFds →
      p.ptys.1.length = fds.length → body.length ≤ maxPayloadBytes →
        receive src = .ok (List.zipWith Adopted.mk (p.ptys.1.map LegacyPty.toPty) fds)) ∧
    (∀ v : UInt32, fromBytes u32 body = .ok v → v ≠ 1 → v ≠ migrateVersion → ∃ e, receive src = .error e) ∧
    (∀ p : MigratePayload, body = migratePayload.encode p → p.version = migrateVersion → p.ptys.1.length ≠ fds.length →
      ∃ e, receive src = .error e) ∧
    ∀ p : LegacyPayload, body = legacyPayload.encode p → p.version = 1 → p.ptys.1.length ≠ fds.length →
      ∃ e, receive src = .error e := by
  have hcar := delivered_carries hd
  refine ⟨?_, ?_, ?_, ?_, ?_⟩
  · rintro p rfl hv hn hc hl
    exact receive_body hm hcar (hc ▸ hn) (u32_pos ..) hl (decodePayload_current hv) hv hc
  · rintro p rfl hv hn hc hl
    obtain ⟨q, hq, hqv, hqp⟩ := decodePayload_legacy hv
    have := receive_body hm hcar (hc ▸ hn) (u32_pos ..) hl hq hqv (by rw [hqp, LegacyPayload.upgrade, List.length_map, hc])
    rwa [hqp] at this
  · intro v hv h1 h2
    cases hr : receive src with
    | error e => exact ⟨e, rfl⟩
    | ok adopted =>
      obtain ⟨-, p, hp, hpv, -⟩ := receive_eq_ok hm hcar hr
      exact absurd ((decodePayload_version hv h1 hp).symm.trans hpv) h2
  · rintro p rfl hv hc
    cases hr : receive src with
    | error e => exact ⟨e, rfl⟩
    | ok adopted =>
      obtain ⟨-, q, hq, -, hqc⟩ := receive_eq_ok hm hcar hr
      rw [decodePayload_current hv] at hq
      cases hq
      exact absurd hqc hc
  · rintro p rfl hv hc
    cases hr : receive src with
    | error e => exact ⟨e, rfl⟩
    | ok adopted =>
      obtain ⟨q, hq, -, hqp⟩ := decodePayload_legacy hv
      obtain ⟨-, q', hq', -, hqc⟩ := receive_eq_ok hm hcar hr
      cases hq.symm.trans hq'
      rw [hqp, LegacyPayload.upgrade, List.length_map] at hqc
      exact absurd hqc hc

def closedPty : MigratePty where
  name := ⟨"closed", by decide⟩
  command := ⟨[], by decide⟩
  childPid := 123
  cols := 80
  rows := 24
  screen := ⟨[104, 105], by decide⟩
  closeDeadline := some 1800000000000

/-- The first receive holds half of the length. -/
theorem handoff_wire_closed :
    receive [.wouldBlock, .data 24 [0] [7], .wouldBlock, .data 0 [0, 2, 1, 6, 99, 108, 111] [],
      .data 115 [101, 100, 0, 246, 1, 80, 24, 2, 104, 105, 1, 128, 160, 241, 194, 177, 52] []] = .ok [⟨closedPty, 7⟩] := by
  have hd : Delivered [.wouldBlock, .data 24 [0] [7], .wouldBlock, .data 0 [0, 2, 1, 6, 99, 108, 111] [],
      .data 115 [101, 100, 0, 246, 1, 80, 24, 2, 104, 105, 1, 128, 160, 241, 194, 177, 52] []]
      (sendWithFds (leBytes 4 24 ++ migratePayload.encode ⟨migrateVersion, [closedPty], by decide⟩) [7] 3 [5]) :=
    ⟨1, 24, [0], _, rfl, fun e he => by simp [Recv.plain] at he, rfl⟩
  exact (handoff_wire rfl hd).1 ⟨migrateVersion, [closedPty], by decide⟩ rfl rfl (by decide) rfl (by decide)

/-! ## The predecessor's limits -/

def Live.size (s : Live) : Nat :=
  str.size s.name + ((vec str).size s.command + (i32.size s.child + (u16.size s.cols + (u16.size s.rows +
    ((lenSize s.screen.1.length + s.screen.1.length) + (option u64).size s.closeDeadline)))))

def handoffSize (sessions : List Live) : Nat := 1 + (lenSize sessions.length + (sessions.map Live.size).sum)

theorem bytes_size (l : Vec UInt8) : (vec u8).size l = lenSize l.1.length + l.1.length := by
  have : (l.1.map u8.size).sum = l.1.length := by
    rw [show l.1.map u8.size = l.1.map fun _ => 1 from rfl]
    simp
  show lenSize l.1.length + (l.1.map u8.size).sum = _
  rw [this]

theorem toPty_size (s : Live) : migratePty.size s.toPty = s.size := by
  have := bytes_size s.screen
  simp only [Live.size, ← this]
  rfl

theorem handoff_length (sessions : List Live) (h : (sessions.map Live.toPty).length < 2 ^ 64) :
    (migratePayload.encode ⟨migrateVersion, sessions.map Live.toPty, h⟩).length = handoffSize sessions := by
  have hsum : (sessions.map Live.toPty).map migratePty.size = sessions.map Live.size := by
    rw [List.map_map]
    exact List.map_congr_left fun s _ => toPty_size s
  rw [migratePayload.encode_length]
  show 1 + (lenSize (sessions.map Live.toPty).length + ((sessions.map Live.toPty).map migratePty.size).sum) = _
  rw [hsum, List.length_map, handoffSize]

theorem masters_length {sessions : List Live} {fds : List Fd} (h : sessions.mapM Live.master = some fds) :
    fds.length = sessions.length := by
  induction sessions generalizing fds with
  | nil => cases h; rfl
  | cons s sessions ih =>
    simp only [List.mapM_cons, bind, Option.bind_eq_some_iff, pure, Option.some.injEq] at h
    obtain ⟨fd, -, rest, hr, rfl⟩ := h
    rw [List.length_cons, List.length_cons, ih hr]

theorem handOff_ok {fdLimit : Nat} {sessions : List Live} {message : Bytes} {fds : List Fd}
    (h : handOff fdLimit sessions = .ok (message, fds)) :
    sessions.length ≤ maxMigrateFds ∧ fds.length = sessions.length ∧ ∃ p : MigratePayload,
      frameMessage (migratePayload.encode p) = .ok message ∧ p.version = migrateVersion ∧ p.ptys.1 = sessions.map Live.toPty ∧
        (migratePayload.encode p).length = handoffSize sessions := by
  unfold handOff at h
  split at h
  · cases h
  · rename_i hn
    split at h
    · cases h
    · rename_i fds' hfds
      refine ⟨Nat.le_of_not_lt hn, ?_⟩
      dsimp only at h
      generalize hp : frameMessage _ = r at h
      cases r with
      | error e => cases h
      | ok m =>
        simp only [Except.bind] at h
        split at h
        · cases h
        · cases h
          exact ⟨masters_length hfds, _, hp, rfl, rfl, handoff_length ..⟩

/-- Past the cap, whatever the cause, the successor refuses. -/
theorem handoff_refused {fdLimit : Nat} {sessions : List Live} {message : Bytes} {fds : List Fd} {src : List Recv}
    (h : handOff fdLimit sessions = .ok (message, fds)) (hc : Carries src message fds)
    (hcap : maxPayloadBytes < handoffSize sessions) :
    ∃ e, receive src = .error e := by
  obtain ⟨-, -, p, hm, -, -, hl⟩ := handOff_ok h
  cases hr : receive src with
  | error e => exact ⟨e, rfl⟩
  | ok adopted =>
    have := (receive_eq_ok hm hc hr).1
    omega

/-- The successor takes a handoff exactly when the payload is within its cap, and then takes
every session with its master. -/
theorem handoff_accepted_iff {fdLimit : Nat} {sessions : List Live} {message : Bytes} {fds : List Fd} {sent : Nat}
    {cuts : List Nat} {src : List Recv} (h : handOff fdLimit sessions = .ok (message, fds))
    (hd : Delivered src (sendWithFds message fds sent cuts)) :
    ((∃ adopted, receive src = .ok adopted) ↔ handoffSize sessions ≤ maxPayloadBytes) ∧
      (handoffSize sessions ≤ maxPayloadBytes →
        receive src = .ok (List.zipWith Adopted.mk (sessions.map Live.toPty) fds)) := by
  obtain ⟨hn, hf, p, hm, hv, hp, hl⟩ := handOff_ok h
  have hcar := delivered_carries hd
  have hok : handoffSize sessions ≤ maxPayloadBytes →
      receive src = .ok (List.zipWith Adopted.mk (sessions.map Live.toPty) fds) := by
    intro hcap
    rw [← hp]
    exact receive_body hm hcar (hf ▸ hn) (u32_pos ..) (hl ▸ hcap) (decodePayload_current hv) hv
      (by rw [hp, List.length_map, hf])
  refine ⟨⟨?_, fun hcap => ⟨_, hok hcap⟩⟩, hok⟩
  rintro ⟨adopted, hr⟩
  exact hl ▸ (receive_eq_ok hm hcar hr).1

def closedLive : Live where
  name := closedPty.name
  command := closedPty.command
  child := 123
  cols := 80
  rows := 24
  screen := closedPty.screen
  closeDeadline := closedPty.closeDeadline
  master := some 7

theorem handoff_accepted_closed :
    receive [.data 24 [0, 0, 0, 2, 1, 6, 99, 108, 111, 115, 101, 100, 0, 246, 1, 80, 24, 2, 104, 105, 1, 128, 160, 241, 194, 177, 52]
      [7]] = .ok [⟨closedPty, 7⟩] := by
  have hd : Delivered [.data 24 [0, 0, 0, 2, 1, 6, 99, 108, 111, 115, 101, 100, 0, 246, 1, 80, 24, 2, 104, 105, 1, 128, 160, 241, 194,
      177, 52] [7]] (sendWithFds (leBytes 4 24 ++ migratePayload.encode ⟨migrateVersion, [closedPty], by decide⟩) [7] 28 []) :=
    ⟨0, 24, _, _, rfl, fun e he => by simp at he, rfl⟩
  have hs : handOff scmMaxFd [closedLive] = .ok (leBytes 4 24 ++ migratePayload.encode ⟨migrateVersion, [closedPty], by decide⟩, [7]) := rfl
  exact (handoff_accepted_iff hs hd).2 (by decide)

/-! ### A full table

As many sessions as one message can carry, each with 270000 bytes on its screen. -/

def fullName (i : Nat) : String := String.singleton (Char.ofNat (0x4e00 + i))

theorem fullName_size (i : Nat) : (fullName i).utf8ByteSize ≤ 4 := by
  rw [fullName, String.utf8ByteSize_singleton]
  exact Char.utf8Size_le_four _

def fullSession (i : Nat) : Live where
  name := ⟨fullName i, Nat.lt_of_le_of_lt (fullName_size i) (by decide)⟩
  command := ⟨[], by decide⟩
  child := 1
  cols := 80
  rows := 24
  screen := ⟨List.replicate 270000 97, by rw [List.length_replicate]; decide⟩
  closeDeadline := none
  master := some i

def fullTable : List Live := (List.range scmMaxFd).map fullSession

theorem lenSize_le (n : Nat) : lenSize n ≤ 10 := encodeVarint_le 10 _

theorem fullSession_size (i : Nat) : 270000 ≤ (fullSession i).size ∧ (fullSession i).size ≤ 270100 := by
  have h1 : str.size (fullSession i).name ≤ 14 := Nat.add_le_add (lenSize_le _) (fullName_size i)
  have h2 : (vec str).size (fullSession i).command = 1 := rfl
  have h3 : i32.size (fullSession i).child = 1 := rfl
  have h4 : u16.size (fullSession i).cols = 1 := rfl
  have h5 : u16.size (fullSession i).rows = 1 := rfl
  have h6 : (fullSession i).screen.1.length = 270000 := List.length_replicate
  have h7 : (option u64).size (fullSession i).closeDeadline = 1 := rfl
  have h8 := lenSize_le (fullSession i).screen.1.length
  unfold Live.size
  omega

/-- Stated for any table: with `fullTable` in the goal the sum would be computed. -/
theorem full_size {sessions : List Live} (hlen : sessions.length = scmMaxFd)
    (hsize : ∀ s ∈ sessions, 270000 ≤ s.size ∧ s.size ≤ 270100) :
    maxPayloadBytes < handoffSize sessions ∧ handoffSize sessions < 2 ^ 32 := by
  have hmem : ∀ n ∈ sessions.map Live.size, 270000 ≤ n ∧ n ≤ 270100 := by
    intro n hn
    obtain ⟨s, hs, rfl⟩ := List.mem_map.mp hn
    exact hsize s hs
  have hlow := List.card_nsmul_le_sum _ 270000 fun n hn => (hmem n hn).1
  have hhigh := List.sum_le_card_nsmul _ 270100 fun n hn => (hmem n hn).2
  rw [List.length_map, hlen, smul_eq_mul] at hlow hhigh
  have hcount := lenSize_le sessions.length
  unfold scmMaxFd at hlow hhigh
  unfold handoffSize maxPayloadBytes
  omega

theorem fullTable_size : maxPayloadBytes < handoffSize fullTable ∧ handoffSize fullTable < 2 ^ 32 := by
  refine full_size (by simp [fullTable]) fun s hs => ?_
  obtain ⟨i, -, rfl⟩ := List.mem_map.mp hs
  exact fullSession_size i

theorem masters_map (l : List Nat) : (l.map fullSession).mapM Live.master = some l := by
  induction l with
  | nil => rfl
  | cons i l ih => simp only [List.map_cons, List.mapM_cons, ih, fullSession, bind, Option.bind, pure]

theorem exists_carries {message : Bytes} (h : message ≠ []) (fds : List Fd) : ∃ src, Carries src message fds := by
  obtain ⟨b, bs, rfl⟩ := List.exists_cons_of_ne_nil h
  refine ⟨[.data b bs fds], 0, b, bs, [], rfl, ?_, ?_⟩
  · intro e he
    simp at he
  · show (b :: bs) ++ [] = _
    rw [List.append_nil]

/-- `hand_off` sends the table and `receive` does not take it. -/
theorem full_table_refused : ∃ message fds src, handOff scmMaxFd fullTable = .ok (message, fds) ∧
    Delivered src (sendWithFds message fds message.length []) ∧ ∃ e, receive src = .error e := by
  obtain ⟨hcap, hlt⟩ := fullTable_size
  have hlen : ¬ maxMigrateFds < fullTable.length := by
    rw [fullTable, List.length_map, List.length_range]
    decide
  have hsend : ∃ message, handOff scmMaxFd fullTable = .ok (message, List.range scmMaxFd) ∧ message ≠ [] := by
    unfold handOff
    rw [dif_neg hlen]
    simp only [show fullTable.mapM Live.master = some (List.range scmMaxFd) from masters_map _]
    rw [frameMessage, handoff_length, if_pos hlt]
    simp only [Except.bind, List.length_range, Nat.lt_irrefl, if_false]
    exact ⟨_, rfl, by simp [leBytes]⟩
  obtain ⟨message, hm, hne⟩ := hsend
  obtain ⟨src, hc⟩ := exists_carries hne (List.range scmMaxFd)
  refine ⟨message, _, src, hm, ?_, handoff_refused hm hc hcap⟩
  rw [Delivered, sendWithFds, List.take_length, List.drop_length]
  simpa [writeAll] using hc

end Mux.Migrate
