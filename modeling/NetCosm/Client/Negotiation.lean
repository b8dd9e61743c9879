import NetCosm.Client.Telnet

/-!
# Commands and negotiations in what a terminal sends

`telnet_parse_data` keeps four flags, and takes none of them back.  So what it makes of a byte
depends on one thing only, whether there has been an `IAC` in the buffer before
(`telnetScan_step`), and two questions about whole buffers have short answers.

* **Which buffers end the session.**  Those with a byte of the value `IP` somewhere behind an
  `IAC` (`returnsExit_iff`).  By the protocol it is those in which an `IAC` that starts a
  command stands right before the `IP`, outside of a sub-negotiation: `interrupts` reads a
  buffer that way.  Every interrupt ends the session (`ipBehind_of_interrupts`), and
  `returnsExit_iff_interrupts_iff` says on which buffers the two agree.
* **Which window sizes are decoded.**  None: the size of the terminal is never written, and
  `windowSizeDecoded_iff` says what is left of decoding it.
-/

namespace NetCosm

/-- The command that ends a sub-negotiation. -/
def SE : UInt8 := 240

/-- Some byte of the value `IP` stands behind an `IAC`, or an `IAC` has been seen before. -/
def IpBehind (iac : Bool) (buf : List UInt8) : Prop :=
  ∃ a b, buf = a ++ IP :: b ∧ (iac = true ∨ IAC ∈ a)

theorem ipBehind_cons {iac : Bool} {c : UInt8} {buf : List UInt8} :
    IpBehind iac (c :: buf) ↔ (iac = true ∧ c = IP) ∨ IpBehind (iac || c == IAC) buf := by
  constructor
  · rintro ⟨a, b, h, hiac⟩
    cases a with
    | nil =>
      obtain ⟨rfl, rfl⟩ := List.cons.inj h
      exact Or.inl ⟨hiac.resolve_right (by simp), rfl⟩
    | cons x a =>
      obtain ⟨rfl, rfl⟩ := List.cons.inj h
      refine Or.inr ⟨a, b, rfl, ?_⟩
      rcases hiac with h | h
      · exact Or.inl (by rw [h, Bool.true_or])
      · rcases List.mem_cons.mp h with rfl | h
        · exact Or.inl (by simp)
        · exact Or.inr h
  · rintro (⟨h, rfl⟩ | ⟨a, b, rfl, h⟩)
    · exact ⟨[], buf, rfl, Or.inl h⟩
    · refine ⟨c :: a, b, rfl, ?_⟩
      rcases h with h | h
      · rcases (Bool.or_eq_true _ _).mp h with h | h
        · exact Or.inl h
        · exact Or.inr (by rw [eq_of_beq h]; exact List.mem_cons_self ..)
      · exact Or.inr (List.mem_cons_of_mem c h)

theorem not_ipBehind_nil (iac : Bool) : ¬ IpBehind iac [] := by
  rintro ⟨a, b, h, -⟩
  exact absurd h (by simp)

instance instDecidableIpBehind (iac : Bool) : (buf : List UInt8) → Decidable (IpBehind iac buf)
  | [] => .isFalse (not_ipBehind_nil iac)
  | c :: buf =>
      have := instDecidableIpBehind (iac || c == IAC) buf
      decidable_of_iff ((iac = true ∧ c = IP) ∨ IpBehind (iac || c == IAC) buf)
        ipBehind_cons.symm

/-- A byte of the value `IP` behind an `IAC` stays behind it whatever was before. -/
theorem IpBehind.weaken {iac : Bool} {buf : List UInt8} (h : IpBehind false buf) :
    IpBehind iac buf := by
  obtain ⟨a, b, hbuf, hiac⟩ := h
  exact ⟨a, b, hbuf, Or.inr (hiac.resolve_left (by simp))⟩

/-! ## What the scan does with one byte, and with some -/

/-- **What the scan does with one byte.**  It stops at `IP` if there has been an `IAC`, and
otherwise goes on behind the byte.  It leaves the size of the terminal alone. -/
theorem telnetScan_step (s : TelnetScan) (c : UInt8) :
    (s.iac = true ∧ c = IP ∧ ∃ s' : TelnetScan, s'.terminal = s.terminal ∧
        ∀ rest, telnetScan s 0 (c :: rest) = .ok (.exit, s', c :: rest)) ∨
      (¬ (s.iac = true ∧ c = IP) ∧ ∃ (s' : TelnetScan) (c' : UInt8),
        s'.terminal = s.terminal ∧ s'.iac = (s.iac || c == IAC) ∧
        s'.foundCmd = (s.foundCmd || (s'.iac && telcmdOk c)) ∧
        s'.lineDone = (s.lineDone || (c != IAC && isCruft c)) ∧
        ∀ rest, telnetScan s 0 (c :: rest) =
          (telnetScan s' 0 rest).map fun r => (r.1, r.2.1, c' :: r.2.2)) := by
  by_cases hcmd : ((s.see c).iac && telcmdOk c) = true
  · have hfound : true = (s.foundCmd || ((s.see c).iac && telcmdOk c)) := by
      rw [hcmd, Bool.or_true]
    by_cases hip : c = IP
    · subst hip
      have hiac : s.iac = true := by
        have h := (Bool.and_eq_true _ _).mp hcmd |>.1
        rw [TelnetScan.see] at h
        simpa [IAC, IP] using h
      refine Or.inl ⟨hiac, rfl, { s.see IP with foundCmd := true }, rfl, fun rest => ?_⟩
      rw [telnetScan, hcmd]
      rfl
    · refine Or.inr ⟨fun h => hip h.2, ?_⟩
      by_cases hsb : c = SB
      · refine ⟨{ s.see c with foundCmd := true, inSb := true }, if c = 0 then 32 else c, rfl,
          rfl, hfound, rfl, fun rest => ?_⟩
        simp only [telnetScan, hcmd, if_true, if_neg hip, if_pos hsb]
      · have hnaws : ¬ (c = TELOPT_NAWS ∧ (s.see c).inSb) := by
          rintro ⟨rfl, -⟩
          rw [telcmdOk_naws, Bool.and_false] at hcmd
          exact absurd hcmd (by simp)
        refine ⟨{ s.see c with foundCmd := true }, if c = 0 then 32 else c, rfl, rfl, hfound, rfl,
          fun rest => ?_⟩
        simp only [telnetScan, hcmd, if_true, if_neg hip, if_neg hsb, if_neg hnaws]
  · have hnip : ¬ (s.iac = true ∧ c = IP) := by
      rintro ⟨hiac, rfl⟩
      refine hcmd ?_
      rw [TelnetScan.see, hiac]
      rfl
    have hfound : s.foundCmd = (s.foundCmd || ((s.see c).iac && telcmdOk c)) := by
      rw [Bool.eq_false_of_not_eq_true hcmd, Bool.or_false]
    refine Or.inr ⟨hnip, s.see c, if c = 0 then 32 else c, rfl, rfl, hfound, rfl, fun rest => ?_⟩
    simp only [telnetScan, hcmd]
    rfl

/-- The scan goes on behind `seen`: from some state on, it does with what comes next what it
would do with that alone. -/
def GoesOn (s : TelnetScan) (seen : List UInt8) : Prop :=
  ∃ (s' : TelnetScan) (out : List UInt8), s'.terminal = s.terminal ∧
    ∀ rest, telnetScan s 0 (seen ++ rest) =
      (telnetScan s' 0 rest).map fun r => (r.1, r.2.1, out ++ r.2.2)

/-- The scan ends the session within `seen`. -/
def EndsWithin (s : TelnetScan) (seen : List UInt8) : Prop :=
  ∃ (s' : TelnetScan) (out : List UInt8), s'.terminal = s.terminal ∧
    ∀ rest, telnetScan s 0 (seen ++ rest) = .ok (.exit, s', out ++ rest)

theorem map_map_ok {α β γ : Type*} (x : Except Fault α) (f : α → β) (g : β → γ) :
    (x.map f).map g = x.map fun a => g (f a) := by
  cases x <;> rfl

/-- **What the scan does with some bytes**: it ends the session or goes on. -/
theorem telnetScan_seen (s : TelnetScan) (seen : List UInt8) :
    (IpBehind s.iac seen ∧ EndsWithin s seen) ∨ (¬ IpBehind s.iac seen ∧ GoesOn s seen) := by
  induction seen generalizing s with
  | nil =>
    refine Or.inr ⟨not_ipBehind_nil _, s, [], rfl, fun rest => ?_⟩
    rw [List.nil_append]
    cases telnetScan s 0 rest <;> rfl
  | cons c seen ih =>
    rcases telnetScan_step s c with ⟨hiac, hip, s', hterm, hscan⟩ |
      ⟨hno, s', c', hterm, hiac, -, -, hscan⟩
    · exact Or.inl ⟨ipBehind_cons.mpr (Or.inl ⟨hiac, hip⟩), s', c :: seen, hterm,
        fun rest => hscan (seen ++ rest)⟩
    · rcases ih s' with ⟨hbehind, s'', out, hterm', hrest⟩ | ⟨hbehind, s'', out, hterm', hrest⟩
      · refine Or.inl ⟨ipBehind_cons.mpr (Or.inr (hiac ▸ hbehind)), s'', c' :: out,
          hterm'.trans hterm, fun rest => ?_⟩
        rw [List.cons_append, hscan, hrest]
        rfl
      · refine Or.inr ⟨fun h => ?_, s'', c' :: out, hterm'.trans hterm, fun rest => ?_⟩
        · rcases ipBehind_cons.mp h with h | h
          · exact hno h
          · exact hbehind (hiac ▸ h)
        · rw [List.cons_append, hscan, hrest, map_map_ok]
          rfl

/-- The state the scan of a buffer starts in. -/
def TelnetScan.start (t : Terminal) : TelnetScan := ⟨false, false, false, false, t⟩

/-- What the scan has seen at the end of a buffer is never the end of the session. -/
theorem status_ne_exit (s : TelnetScan) : s.status ≠ .exit := by
  rw [TelnetScan.status]
  split
  · simp
  · split <;> simp

/-- A scan that goes on has not ended the session. -/
theorem not_ipBehind_of_goesOn {s : TelnetScan} {seen : List UInt8} (h : GoesOn s seen) :
    ¬ IpBehind s.iac seen := by
  intro hbehind
  rcases telnetScan_seen s seen with ⟨-, s₁, out₁, -, hends⟩ | ⟨hno, -⟩
  · obtain ⟨s₂, out₂, -, hgoes⟩ := h
    have hnil := (hends []).symm.trans (hgoes [])
    exact status_ne_exit s₂ (congrArg Prod.fst (Except.ok.inj hnil)).symm
  · exact hno hbehind

/-! ## Which buffers end the session -/

/-- `telnet_parse_data` returns `TELNET_EXIT`. -/
def ReturnsExit (t : Terminal) (buf : List UInt8) : Prop :=
  (telnetParseData t buf).map Prod.fst = .ok .exit

instance (t : Terminal) (buf : List UInt8) : Decidable (ReturnsExit t buf) :=
  inferInstanceAs (Decidable (_ = _))

/-- **A buffer ends the session exactly when `IP` stands behind an `IAC` in it**, and no buffer
is scanned beyond its end. -/
theorem returnsExit_iff (t : Terminal) (buf : List UInt8) :
    (∃ r, telnetParseData t buf = .ok r) ∧ (ReturnsExit t buf ↔ IpBehind false buf) := by
  have hstart : telnetParseData t buf = (telnetScan (TelnetScan.start t) 0 (buf ++ [])).map
      fun r => (r.1, r.2.1.terminal, r.2.2) := by
    rw [List.append_nil]
    rfl
  rcases telnetScan_seen (TelnetScan.start t) buf with ⟨hbehind, s, out, -, hends⟩ |
    ⟨hbehind, s, out, -, hgoes⟩
  · rw [hends] at hstart
    refine ⟨⟨_, hstart⟩, fun _ => hbehind, fun _ => ?_⟩
    rw [ReturnsExit, hstart]
    rfl
  · rw [hgoes] at hstart
    refine ⟨⟨_, hstart⟩, fun h => ?_, fun h => absurd h hbehind⟩
    rw [ReturnsExit, hstart] at h
    exact absurd (Except.ok.inj h) (status_ne_exit s)

/-- Where the next byte stands, by the protocol. -/
inductive TelnetPlace where
  | text
  /-- Right behind an `IAC` that starts a command. -/
  | command
  | negotiation
  /-- Right behind such an `IAC` within a sub-negotiation. -/
  | negotiationCommand

/-- The buffer has an `IAC` in it that is not the second of two, has `IP` right behind it and
is outside of every sub-negotiation. -/
def interrupts : TelnetPlace → List UInt8 → Bool
  | _, [] => false
  | .text, c :: rest => interrupts (if c = IAC then .command else .text) rest
  | .command, c :: rest => c == IP || interrupts (if c = SB then .negotiation else .text) rest
  | .negotiation, c :: rest =>
      interrupts (if c = IAC then .negotiationCommand else .negotiation) rest
  | .negotiationCommand, c :: rest => interrupts (if c = SE then .text else .negotiation) rest

/-- An `IAC` has been seen before the next byte. -/
def TelnetPlace.afterIac : TelnetPlace → Bool
  | .text => false
  | .command | .negotiation | .negotiationCommand => true

/-- **Every interrupt ends the session.** -/
theorem ipBehind_of_interrupts {place : TelnetPlace} {buf : List UInt8}
    (h : interrupts place buf = true) : IpBehind place.afterIac buf := by
  induction buf generalizing place with
  | nil => cases place <;> exact absurd h (by simp [interrupts])
  | cons c buf ih =>
    rw [ipBehind_cons]
    cases place with
    | text =>
      rw [interrupts] at h
      by_cases hc : c = IAC
      · rw [if_pos hc] at h
        refine Or.inr ?_
        rw [hc]
        exact ih h
      · rw [if_neg hc] at h
        exact Or.inr (ih h).weaken
    | command =>
      rw [interrupts, Bool.or_eq_true] at h
      rcases h with h | h
      · exact Or.inl ⟨rfl, eq_of_beq h⟩
      · refine Or.inr ?_
        split at h
        · exact ih h
        · exact (ih h).weaken
    | negotiation =>
      rw [interrupts] at h
      refine Or.inr ?_
      split at h <;> exact ih h
    | negotiationCommand =>
      rw [interrupts] at h
      refine Or.inr ?_
      split at h
      · exact (ih h).weaken
      · exact ih h

/-- **On which buffers only an interrupt ends the session.**  `telnet_parse_data` returns
`TELNET_EXIT` exactly on interrupts if and only if the buffer has an interrupt in it, or no
byte of the value `IP` behind an `IAC`. -/
theorem returnsExit_iff_interrupts_iff (t : Terminal) (buf : List UInt8) :
    (ReturnsExit t buf ↔ interrupts .text buf = true) ↔
      (IpBehind false buf → interrupts .text buf = true) := by
  rw [(returnsExit_iff t buf).2]
  exact ⟨fun h => h.mp, fun h => ⟨h, ipBehind_of_interrupts⟩⟩

/-! ## Window sizes -/

/-- A byte as it is sent within a sub-negotiation. -/
def doubled (c : UInt8) : List UInt8 := if c = IAC then [IAC, IAC] else [c]

/-- The sub-negotiation that tells a window size. -/
def nawsSequence (w h : UInt16) : List UInt8 :=
  [IAC, SB, TELOPT_NAWS] ++
    [(w >>> 8).toUInt8, w.toUInt8, (h >>> 8).toUInt8, h.toUInt8].flatMap doubled ++ [IAC, SE]

/-- After the scan of a buffer with the sub-negotiation between `pre` and `post`, the terminal
has the size that was told; the scan has gone on behind the sub-negotiation, and not past the
end of the buffer. -/
def WindowSizeDecoded (t : Terminal) (pre post : List UInt8) (w h : UInt16) : Prop :=
  GoesOn (TelnetScan.start t) (pre ++ nawsSequence w h) ∧
    ∃ status buf, telnetParseData t (pre ++ nawsSequence w h ++ post) = .ok (status, ⟨w, h⟩, buf)

/-- **No scan changes the size of the terminal.** -/
theorem terminal_telnetParseData (t : Terminal) (buf : List UInt8) :
    ∃ status buf', telnetParseData t buf = .ok (status, t, buf') := by
  have hstart : telnetParseData t buf = (telnetScan (TelnetScan.start t) 0 (buf ++ [])).map
      fun r => (r.1, r.2.1.terminal, r.2.2) := by
    rw [List.append_nil]
    rfl
  rcases telnetScan_seen (TelnetScan.start t) buf with ⟨-, s, out, hterm, hends⟩ |
    ⟨-, s, out, hterm, hgoes⟩
  · rw [hends] at hstart
    exact ⟨_, _, hstart.trans (congrArg (fun t => Except.ok (_, t, _)) hterm)⟩
  · rw [hgoes] at hstart
    exact ⟨_, _, hstart.trans (congrArg (fun t => Except.ok (_, t, _)) hterm)⟩

/-- **When a window size comes out as it was sent.**  Only if the terminal had that size
before, and no byte of the value `IP` stands behind an `IAC` up to the end of the
sub-negotiation. -/
theorem windowSizeDecoded_iff (t : Terminal) (pre post : List UInt8) (w h : UInt16) :
    WindowSizeDecoded t pre post w h ↔
      t = ⟨w, h⟩ ∧ ¬ IpBehind false (pre ++ nawsSequence w h) := by
  obtain ⟨status, buf, hparse⟩ :=
    terminal_telnetParseData t (pre ++ nawsSequence w h ++ post)
  constructor
  · rintro ⟨hgoes, status', buf', hsize⟩
    have heq := Except.ok.inj (hparse.symm.trans hsize)
    exact ⟨congrArg (fun r => r.2.1) heq, not_ipBehind_of_goesOn hgoes⟩
  · rintro ⟨rfl, hno⟩
    rcases telnetScan_seen (TelnetScan.start ⟨w, h⟩) (pre ++ nawsSequence w h) with
      ⟨hbehind, -⟩ | ⟨-, hgoes⟩
    · exact absurd hbehind hno
    · exact ⟨hgoes, status, buf, hparse⟩

/-- A terminal of 100 columns and 40 lines tells its size in vain. -/
theorem windowSize_not_decoded : ¬ WindowSizeDecoded ⟨80, 24⟩ [] [] 100 40 := by
  rintro ⟨-, status, buf, hsize⟩
  obtain ⟨status', buf', hparse⟩ :=
    terminal_telnetParseData ⟨80, 24⟩ ([] ++ nawsSequence 100 40 ++ [])
  have hwidth : (⟨80, 24⟩ : Terminal) = ⟨100, 40⟩ :=
    congrArg (fun r => r.2.1) (Except.ok.inj (hparse.symm.trans hsize))
  exact absurd hwidth (by decide)

/-- A terminal of 244 columns and 24 lines ends the session when it tells its size. -/
theorem windowSize_ends_session :
    ¬ (ReturnsExit ⟨80, 24⟩ (nawsSequence 244 24) ↔
      interrupts .text (nawsSequence 244 24) = true) := by decide

end NetCosm
