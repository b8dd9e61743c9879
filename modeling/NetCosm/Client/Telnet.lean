import NetCosm.Machine
import NetCosm.Text.CString

/-!
# Reading what a terminal sends

`telnet_parse_data` scans the bytes of one `read` for telnet commands and for line ends.
The scan replaces zero bytes by spaces as it goes and leaves the other bytes in place:
the bytes of a command are data to everybody but the scan.

The flag `iac` is never taken back, so once a buffer has had an `IAC` in it every later byte
that is the number of a command counts as one.  The bytes of a window size are only read
under `case TELOPT_NAWS`, which stands inside `if(TELCMD_OK(c))`; the two exclude each other
(`telcmdOk_naws`), and no buffer ever sets the width of the terminal.  That branch is kept
in the model, with the reads it would make past the end of the buffer as faults.

`telnetParseData_plain` is what the callers of this file need: a buffer without `IAC` and
without zero bytes comes back as it is, and the status says whether it has a line end in it.
-/

namespace NetCosm

/-! ## Commands and options -/

/-- The byte commands start with. -/
def IAC : UInt8 := 255

/-- The command that interrupts the process. -/
def IP : UInt8 := 244

/-- The command that begins a sub-negotiation. -/
def SB : UInt8 := 250

/-- The option for window sizes. -/
def TELOPT_NAWS : UInt8 := 31

/-- `TELCMD_OK`: the byte is between `xEOF` and `IAC`. -/
def telcmdOk (c : UInt8) : Bool := 236 ≤ c && c ≤ 255

/-- The number of the option is not the number of a command. -/
theorem telcmdOk_naws : telcmdOk TELOPT_NAWS = false := rfl

/-- `enum telnet_status`. -/
inductive TelnetStatus where
  | exit
  | foundCmd
  | data
  | lineOver
  deriving DecidableEq, Repr

/-- `term_width` and `term_height`. -/
structure Terminal where
  width : UInt16
  height : UInt16
  deriving DecidableEq, Repr

/-! ## The scan -/

/-- The local variables of the scan, and the size of the terminal. -/
structure TelnetScan where
  iac : Bool
  foundCmd : Bool
  inSb : Bool
  lineDone : Bool
  terminal : Terminal

/-- The flags one byte sets. -/
def TelnetScan.see (s : TelnetScan) (c : UInt8) : TelnetScan :=
  { s with iac := s.iac || c == IAC, lineDone := s.lineDone || (c != IAC && isCruft c) }

/-- What the scan returns at the end of the buffer. -/
def TelnetScan.status (s : TelnetScan) : TelnetStatus :=
  if s.foundCmd then .foundCmd else if s.lineDone then .lineOver else .data

/-- The loop that reads `n` bytes of a window size from the bytes after the option: the bytes
read, and by how many the index has gone on.  A byte of `255` is followed by one that is
skipped. -/
def nawsBytes : ℕ → List UInt8 → Except Fault (List UInt8 × ℕ)
  | 0, _ => .ok ([], 0)
  | _ + 1, [] => .error .outOfBounds
  | n + 1, b :: rest =>
      if b = 255 then
        match rest with
        | [] => if n = 0 then .ok ([b], 2) else .error .fatal
        | _ :: rest => (nawsBytes n rest).map fun r => (b :: r.1, r.2 + 2)
      else (nawsBytes n rest).map fun r => (b :: r.1, r.2 + 1)

/-- Two bytes in network order. -/
def ntohs (hi lo : UInt8) : UInt16 := hi.toUInt16 <<< 8 ||| lo.toUInt16

/-- The size four bytes stand for. -/
def Terminal.ofBytes (bytes : List UInt8) : Terminal :=
  ⟨ntohs (bytes.getD 0 0) (bytes.getD 1 0), ntohs (bytes.getD 2 0) (bytes.getD 3 0)⟩

/-- The loop of `telnet_parse_data` over the rest of the buffer, the first `skip` bytes of
which the index has already passed: the status, the variables at the end, and the buffer. -/
def telnetScan : TelnetScan → ℕ → List UInt8 →
    Except Fault (TelnetStatus × TelnetScan × List UInt8)
  | s, _, [] => .ok (s.status, s, [])
  | s, skip + 1, c :: rest =>
      (telnetScan s skip rest).map fun r => (r.1, r.2.1, c :: r.2.2)
  | s, 0, c :: rest =>
      let s := s.see c
      let c' := if c = 0 then 32 else c
      if s.iac && telcmdOk c then
        if c = IP then .ok (.exit, { s with foundCmd := true }, c' :: rest)
        else if c = SB then
          (telnetScan { s with foundCmd := true, inSb := true } 0 rest).map
            fun r => (r.1, r.2.1, c' :: r.2.2)
        else if c = TELOPT_NAWS ∧ s.inSb then
          match nawsBytes 4 rest with
          | .error e => .error e
          | .ok (bytes, skip) =>
              (telnetScan { s with foundCmd := true, terminal := .ofBytes bytes } skip rest).map
                fun r => (r.1, r.2.1, c' :: r.2.2)
        else
          (telnetScan { s with foundCmd := true } 0 rest).map
            fun r => (r.1, r.2.1, c' :: r.2.2)
      else (telnetScan s 0 rest).map fun r => (r.1, r.2.1, c' :: r.2.2)

/-- `telnet_parse_data`: the status, the size of the terminal, and the buffer as it leaves
it. -/
def telnetParseData (t : Terminal) (buf : List UInt8) :
    Except Fault (TelnetStatus × Terminal × List UInt8) :=
  (telnetScan ⟨false, false, false, false, t⟩ 0 buf).map fun r => (r.1, r.2.1.terminal, r.2.2)

/-! ## Buffers without commands -/

/-- A byte that means nothing to telnet, and is not the end of a string. -/
def IsPlain (c : UInt8) : Prop := c ≠ IAC ∧ c ≠ 0

instance (c : UInt8) : Decidable (IsPlain c) := inferInstanceAs (Decidable (_ ∧ _))

/-- Scanning plain bytes sets no flag but that of line ends. -/
theorem telnetScan_plain {s : TelnetScan} {buf : List UInt8} (hiac : s.iac = false)
    (hbuf : ∀ c ∈ buf, IsPlain c) :
    ∃ s', telnetScan s 0 buf = .ok (s'.status, s', buf) ∧
      s' = { s with lineDone := s.lineDone || buf.any isCruft } := by
  induction buf generalizing s with
  | nil => exact ⟨s, rfl, by simp⟩
  | cons c buf ih =>
    obtain ⟨hc, h0⟩ := hbuf c (List.mem_cons_self ..)
    have hsee : s.see c = { s with lineDone := s.lineDone || isCruft c } := by
      rw [TelnetScan.see, hiac, beq_eq_false_iff_ne.mpr hc, bne_iff_ne.mpr hc]
      rfl
    obtain ⟨s', hs', rfl⟩ := ih (s := s.see c) (by rw [hsee]; exact hiac)
      (fun b hb => hbuf b (List.mem_cons_of_mem c hb))
    refine ⟨_, ?_, rfl⟩
    have hoff : ((s.see c).iac && telcmdOk c) = false := by rw [hsee]; simp [hiac]
    rw [telnetScan, hoff, if_neg (by decide), hs', if_neg h0, hsee, List.any_cons,
      ← Bool.or_assoc]
    rfl

/-- **A buffer of plain bytes** comes back as it is, and ends a line if there is a line end
in it. -/
theorem telnetParseData_plain (t : Terminal) {buf : List UInt8} (hbuf : ∀ c ∈ buf, IsPlain c) :
    telnetParseData t buf = .ok (if buf.any isCruft then .lineOver else .data, t, buf) := by
  obtain ⟨s', hs', rfl⟩ := telnetScan_plain (s := ⟨false, false, false, false, t⟩) rfl hbuf
  rw [telnetParseData, hs']
  rfl

end NetCosm
