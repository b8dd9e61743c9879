import NetCosm.Client.Input
import NetCosm.Client.Negotiation

/-!
# Lines longer than the buffer

`client_read` asks `read` for as many bytes as there is room for in its buffer, and takes a
result of `0` for the end of the connection.  When the buffer is full it asks for none, and is
answered `0` by a connection that is there.

The buffer is given up when a line has ended and when there was a telnet command in what was
read, and only then.  `Overfills` follows the number of bytes in it from read to read, and
`clientReads_lost_iff` says that the connection is taken for lost exactly when this number
reaches the size of the buffer and more is to come.

## What is read

What happens next depends on a read only through the status of its bytes, and this is read off
the bytes without scanning them (`telnetParseData_eq`): an `IAC` makes it a command, whatever
follows.
-/

namespace NetCosm

/-- The status of the bytes of one read. -/
def readStatus (got : List UInt8) : TelnetStatus :=
  if IpBehind false got then .exit
  else if IAC ∈ got then .foundCmd
  else if got.any isCruft then .lineOver
  else .data

/-- The flags at the end of a scan that does not end the session.  An `IAC` is the number of
a command itself, so there is no `IAC` without a command. -/
theorem telnetScan_flags {s : TelnetScan} (hs : s.iac = true → s.foundCmd = true)
    {buf : List UInt8} (hno : ¬ IpBehind s.iac buf) :
    ∃ (s' : TelnetScan) (out : List UInt8), telnetScan s 0 buf = .ok (s'.status, s', out) ∧
      out.length = buf.length ∧ s'.terminal = s.terminal ∧
      s'.foundCmd = (s.foundCmd || decide (IAC ∈ buf)) ∧
      s'.lineDone = (s.lineDone || buf.any isCruft) := by
  induction buf generalizing s with
  | nil => exact ⟨s, [], rfl, rfl, rfl, by simp, by simp⟩
  | cons c buf ih =>
    rw [ipBehind_cons, not_or] at hno
    rcases telnetScan_step s c with ⟨hiac, hip, -⟩ |
      ⟨-, s', c', hterm, hiac, hfound, hline, hscan⟩
    · exact absurd ⟨hiac, hip⟩ hno.1
    have hfound' : s'.foundCmd = (s.foundCmd || c == IAC) := by
      rw [hfound, hiac]
      by_cases hc : c = IAC
      · subst hc
        rw [beq_self_eq_true, Bool.or_true, Bool.true_and, Bool.or_true]
        exact Bool.or_true _
      · rw [beq_eq_false_iff_ne.mpr hc, Bool.or_false, Bool.or_false]
        cases hsi : s.iac with
        | false => rw [Bool.false_and, Bool.or_false]
        | true => rw [hs hsi, Bool.true_or]
    have hline' : s'.lineDone = (s.lineDone || isCruft c) := by
      rw [hline]
      by_cases hc : c = IAC
      · subst hc
        rfl
      · rw [bne_iff_ne.mpr hc, Bool.true_and]
    have hs' : s'.iac = true → s'.foundCmd = true := by
      rw [hiac, hfound', Bool.or_eq_true, Bool.or_eq_true]
      exact Or.imp_left hs
    obtain ⟨s'', out, hrest, hlen, hterm', hfound'', hline''⟩ := ih hs' (hiac ▸ hno.2)
    refine ⟨s'', c' :: out, ?_, congrArg (· + 1) hlen, hterm'.trans hterm, ?_, ?_⟩
    · rw [hscan, hrest]
      rfl
    · have hmem : decide (IAC ∈ c :: buf) = (c == IAC || decide (IAC ∈ buf)) := by
        rw [Bool.eq_iff_iff, decide_eq_true_eq, Bool.or_eq_true, decide_eq_true_eq, beq_iff_eq,
          List.mem_cons, eq_comm]
      rw [hfound'', hfound', hmem, Bool.or_assoc]
    · rw [hline'', hline', List.any_cons, Bool.or_assoc]

/-- **What is made of the bytes of one read.** -/
theorem telnetParseData_eq (t : Terminal) (got : List UInt8) :
    ∃ out, telnetParseData t got = .ok (readStatus got, t, out) ∧
      (readStatus got ≠ .exit → out.length = got.length) := by
  by_cases hexit : IpBehind false got
  · have hstatus : readStatus got = .exit := if_pos hexit
    obtain ⟨status, out, hparse⟩ := terminal_telnetParseData t got
    have hret : ReturnsExit t got := (returnsExit_iff t got).2.mpr hexit
    rw [ReturnsExit, hparse] at hret
    obtain rfl : status = .exit := Except.ok.inj hret
    exact ⟨out, by rw [hparse, hstatus], fun h => absurd hstatus h⟩
  · obtain ⟨s, out, hscan, hlen, hterm, hfound, hline⟩ :=
      telnetScan_flags (s := TelnetScan.start t) (fun h => absurd h Bool.false_ne_true) hexit
    have hstatus : readStatus got = s.status := by
      rw [readStatus, if_neg hexit, TelnetScan.status, hfound, hline]
      simp only [TelnetScan.start, Bool.false_or, decide_eq_true_eq]
    refine ⟨out, ?_, fun _ => hlen⟩
    have hterm' : s.terminal = t := hterm
    rw [telnetParseData, ← TelnetScan.start, hscan, hstatus]
    exact congrArg (fun t => Except.ok (_, t, _)) hterm'

/-! ## How full the buffer is -/

/-- The bytes in the buffer after a read that added `got` to `k`. -/
def filled (k : ℕ) (got : List UInt8) : ℕ :=
  if readStatus got = .data then k + got.length else 0

/-- With `k` bytes in the buffer, the pieces that are still to be read fill it, and then there
is a piece left. -/
inductive Overfills : ℕ → List (List UInt8) → Prop
  | full {k : ℕ} {chunk : List UInt8} {later : List (List UInt8)} (h : CLIENT_READ_SZ ≤ k + 1) :
      Overfills k (chunk :: later)
  | read {k : ℕ} {chunk : List UInt8} {later : List (List UInt8)} (h : k + 1 < CLIENT_READ_SZ)
      (hgoes : readStatus (chunk.take (CLIENT_READ_SZ - k - 1)) ≠ .exit)
      (hlater : Overfills (filled k (chunk.take (CLIENT_READ_SZ - k - 1)))
        (unread chunk later (CLIENT_READ_SZ - k - 1))) :
      Overfills k (chunk :: later)

theorem not_overfills_nil (k : ℕ) : ¬ Overfills k [] := by
  rintro ⟨⟩

theorem overfills_cons_iff {k : ℕ} (chunk : List UInt8) (later : List (List UInt8))
    (h : k + 1 < CLIENT_READ_SZ) :
    Overfills k (chunk :: later) ↔
      readStatus (chunk.take (CLIENT_READ_SZ - k - 1)) ≠ .exit ∧
        Overfills (filled k (chunk.take (CLIENT_READ_SZ - k - 1)))
          (unread chunk later (CLIENT_READ_SZ - k - 1)) := by
  constructor
  · intro hover
    cases hover with
    | full hfull => omega
    | read _ hgoes hlater => exact ⟨hgoes, hlater⟩
  · rintro ⟨hgoes, hlater⟩
    exact .read h hgoes hlater

/-- No piece that is left is empty. -/
theorem ne_nil_of_mem_unread {chunk : List UInt8} {later : List (List UInt8)} (room : ℕ)
    (hne : ∀ piece ∈ chunk :: later, piece ≠ []) :
    ∀ piece ∈ unread chunk later room, piece ≠ [] := by
  obtain ⟨-, hlater⟩ := List.forall_mem_cons.mp hne
  rw [unread]
  split
  · exact hlater
  · rename_i hlen
    refine List.forall_mem_cons.mpr ⟨fun h => hlen ?_, hlater⟩
    exact List.drop_eq_nil_iff.mp h

/-- How one call of `client_read` ends, and what becomes of the pieces. -/
def LoopEnds (k : ℕ) (pieces : List (List UInt8)) :
    Except Fault (ReadOutcome × Terminal × List (List UInt8)) → Prop
  | .error e => e = .fatal ∧ Overfills k pieces
  | .ok (.waiting, _, _) | .ok (.exited, _, _) => ¬ Overfills k pieces
  | .ok (.line _, _, rest) =>
      (Overfills k pieces ↔ Overfills 0 rest) ∧ ∀ piece ∈ rest, piece ≠ []

/-- What is left of a call that goes on ends as the call does. -/
theorem LoopEnds.congr {k k' : ℕ} {pieces pieces' : List (List UInt8)}
    {r : Except Fault (ReadOutcome × Terminal × List (List UInt8))} (h : LoopEnds k' pieces' r)
    (hiff : Overfills k pieces ↔ Overfills k' pieces') : LoopEnds k pieces r := by
  rcases r with e | ⟨outcome, t, rest⟩
  · exact ⟨h.1, hiff.mpr h.2⟩
  · cases outcome with
    | waiting => exact fun hover => h (hiff.mp hover)
    | exited => exact fun hover => h (hiff.mp hover)
    | line s => exact ⟨hiff.trans h.1, h.2⟩

/-- **One call of `client_read`** takes the connection for lost exactly when the buffer is
full. -/
theorem loopEnds_clientReadLoop (t : Terminal) (buf : List UInt8) {pieces : List (List UInt8)}
    (hne : ∀ piece ∈ pieces, piece ≠ []) (hbuf : buf.length < CLIENT_READ_SZ) :
    LoopEnds buf.length pieces (clientReadLoop t buf pieces) := by
  induction hlen : pieces.flatten.length using Nat.strong_induction_on
    generalizing buf pieces with
  | _ n ih =>
    subst hlen
    rcases pieces with _ | ⟨chunk, later⟩
    · rw [clientReadLoop]
      exact not_overfills_nil _
    rw [clientReadLoop]
    by_cases hgot : chunk.take (CLIENT_READ_SZ - buf.length - 1) = []
    · -- the buffer is full
      rw [dif_pos hgot]
      refine ⟨rfl, .full ?_⟩
      rcases List.take_eq_nil_iff.mp hgot with h | h
      · omega
      · exact absurd h (hne chunk (List.mem_cons_self ..))
    · have hroom : buf.length + 1 < CLIENT_READ_SZ := by
        by_contra hfull
        refine hgot (List.take_eq_nil_iff.mpr (Or.inl ?_))
        omega
      have hne' := ne_nil_of_mem_unread (CLIENT_READ_SZ - buf.length - 1) hne
      have hshorter := @length_unread_lt chunk later _ hgot
      have hiff := overfills_cons_iff chunk later hroom
      obtain ⟨out, hparse, hout⟩ :=
        telnetParseData_eq t (chunk.take (CLIENT_READ_SZ - buf.length - 1))
      have hfilled : readStatus (chunk.take (CLIENT_READ_SZ - buf.length - 1)) ≠ .data →
          filled buf.length (chunk.take (CLIENT_READ_SZ - buf.length - 1)) = 0 := fun h => if_neg h
      rw [dif_neg hgot, hparse]
      cases hstatus : readStatus (chunk.take (CLIENT_READ_SZ - buf.length - 1)) with
      | exit => exact fun h => (hiff.mp h).1 hstatus
      | lineOver =>
        rw [hstatus, hfilled (by rw [hstatus]; decide)] at hiff
        exact ⟨hiff.trans (and_iff_right (by decide)), hne'⟩
      | foundCmd =>
        rw [hstatus, hfilled (by rw [hstatus]; decide)] at hiff
        exact (ih _ hshorter [] hne' (by decide) rfl).congr (hiff.trans (and_iff_right (by decide)))
      | data =>
        have hsum : filled buf.length (chunk.take (CLIENT_READ_SZ - buf.length - 1)) =
            (buf ++ out).length := by
          rw [filled, if_pos hstatus, List.length_append, hout (by rw [hstatus]; decide)]
        have hlt : (buf ++ out).length < CLIENT_READ_SZ := by
          rw [List.length_append, hout (by rw [hstatus]; decide), List.length_take]
          omega
        rw [hstatus, hsum] at hiff
        exact (ih _ hshorter _ hne' hlt rfl).congr (hiff.trans (and_iff_right (by decide)))

/-- **The connection is taken for lost exactly when the buffer is full.**  Take any pieces, none
of them empty, that a connection delivers.  Reading lines from it ends with a lost connection
if and only if at some point the bytes read since the last line end or telnet command fill the
buffer, and there is more to be read. -/
theorem clientReads_lost_iff (t : Terminal) (pieces : List (List UInt8))
    (hne : ∀ piece ∈ pieces, piece ≠ []) :
    (clientReads t pieces).2 ≠ .stopped .fatal ↔ ¬ Overfills 0 pieces := by
  rw [not_iff_not]
  induction hlen : pieces.flatten.length using Nat.strong_induction_on generalizing t pieces with
  | _ n ih =>
    subst hlen
    have hends := loopEnds_clientReadLoop t [] hne (by decide)
    cases hrun : clientRead t pieces with
    | error e =>
      rw [← clientRead, hrun] at hends
      obtain ⟨rfl, hover⟩ := hends
      rw [clientReads_of_error hrun]
      exact iff_of_true rfl hover
    | ok r =>
      obtain ⟨outcome, t', rest⟩ := r
      rw [← clientRead, hrun] at hends
      cases outcome with
      | waiting =>
        rw [clientReads_of_waiting _ _ hrun]
        exact iff_of_false (by decide) hends
      | exited =>
        rw [clientReads_of_exited _ _ hrun]
        exact iff_of_false (by decide) hends
      | line s =>
        rw [clientReads_of_line hrun]
        exact (ih _ (clientReadLoop_shorter hrun) t' rest hends.2 rfl).trans hends.1.symm

/-- A line that fits is no reason to take the connection for lost. -/
theorem not_overfills_short_line : ¬ Overfills 0 [[97], [13, 10]] :=
  (clientReads_lost_iff ⟨80, 24⟩ [[97], [13, 10]] (by decide)).mp (by decide +kernel)

/-- A line of 128 bytes is. -/
theorem clientReads_loses_long_line :
    (∀ piece ∈ [List.replicate 128 (97 : UInt8)], piece ≠ []) ∧
      (clientReads ⟨80, 24⟩ [List.replicate 128 97]).2 = .stopped .fatal :=
  ⟨by decide, by decide +kernel⟩

end NetCosm
