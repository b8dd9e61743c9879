import NetCosm.Client.Wrapping

/-!
# Lines on the terminal

`TerminalLines W` says of the bytes sent to a terminal that every LF comes right behind a CR, and
that no line between two of them has more than `W` characters.

## What goes wrong

The loop of `out` begins to look at a text at the column the last call left.  The characters in
front of it are sent as they are: a newline among them is sent without a CR, and a line that is
ended behind them can be as long as what was on the terminal before and `W` characters more.

`FirstLineFits` is what has to hold of a call, in terms of its text, of the column, and of what is
on the terminal in front of it: the last byte, and how long the open line is.  The characters that
are not looked at may be sent as they are (`FineAsIs`), and the first line the call ends has room
behind what is on the terminal already.  `lineEnd` is where that line is ended.  All further lines
of the same call are right.
-/

namespace NetCosm

/-! ## Lines -/

/-- The line the cursor is on, if there is an LF in front of it. -/
def OpenLine (sent line : List UInt8) : Prop := (∃ a, sent = a ++ LF :: line) ∧ LF ∉ line

/-- **What the terminal gets is well formed**: every LF comes right behind a CR, and a line between
two of them has at most `W` characters, the CR not counted. -/
def TerminalLines (W : ℕ) (sent : List UInt8) : Prop :=
  ∀ pre post, sent = pre ++ LF :: post → pre.getLast? = some CR ∧
    ∀ line, OpenLine pre line → line.length ≤ W + 1

variable {W : ℕ} {sent l l' line : List UInt8}

/-- An LF is in the first part or in the second. -/
theorem append_eq_append_LF {pre post : List UInt8} (h : sent ++ l = pre ++ LF :: post) :
    (∃ post', sent = pre ++ LF :: post') ∨ LF ∈ l := by
  rcases List.append_eq_append_iff.mp h with ⟨m, -, hl⟩ | ⟨m, hsent, hm⟩
  · exact Or.inr (hl ▸ List.mem_append_right _ (List.mem_cons_self ..))
  · cases m with
    | nil => exact Or.inr (by rw [List.nil_append] at hm; exact hm ▸ List.mem_cons_self ..)
    | cons c m =>
      obtain ⟨rfl, -⟩ := List.cons.inj hm
      exact Or.inl ⟨m, hsent⟩

theorem TerminalLines.of_append (h : TerminalLines W (sent ++ l)) : TerminalLines W sent :=
  fun pre post heq => h pre (post ++ l) (by rw [heq, List.append_assoc, List.cons_append])

/-- Characters that are no LF change nothing. -/
theorem terminalLines_append_iff (hl : LF ∉ l) :
    TerminalLines W (sent ++ l) ↔ TerminalLines W sent := by
  refine ⟨TerminalLines.of_append, fun h pre post heq => ?_⟩
  rcases append_eq_append_LF heq with ⟨post', hsent⟩ | hmem
  · exact h pre post' hsent
  · exact absurd hmem hl

theorem openLine_append_iff (hl : LF ∉ l) :
    OpenLine (sent ++ l) line ↔ ∃ line', OpenLine sent line' ∧ line = line' ++ l := by
  constructor
  · rintro ⟨⟨a, heq⟩, hline⟩
    rcases append_eq_append_LF heq with ⟨line', hsent⟩ | hmem
    · rw [hsent, List.append_assoc, List.cons_append] at heq
      have htail := List.cons.inj (List.append_cancel_left heq)
      refine ⟨line', ⟨⟨a, hsent⟩, fun hmem => hline ?_⟩, htail.2.symm⟩
      rw [← htail.2]
      exact List.mem_append_left _ hmem
    · exact absurd hmem hl
  · rintro ⟨line', ⟨⟨a, rfl⟩, hline'⟩, rfl⟩
    refine ⟨⟨a, by rw [List.append_assoc, List.cons_append]⟩, ?_⟩
    rw [List.mem_append, not_or]
    exact ⟨hline', hl⟩

/-- There is one such line. -/
theorem OpenLine.unique (h : OpenLine sent line) (h' : OpenLine sent l) : line = l := by
  obtain ⟨⟨a, rfl⟩, hline⟩ := h
  obtain ⟨⟨b, heq⟩, hl⟩ := h'
  rcases List.append_eq_append_iff.mp heq with ⟨m, -, hm⟩ | ⟨m, -, hm⟩
  · cases m with
    | nil => exact (List.cons.inj hm).2
    | cons c m =>
      rw [List.cons_append] at hm
      exact absurd (by rw [(List.cons.inj hm).2]; simp) hline
  · cases m with
    | nil => exact (List.cons.inj hm).2.symm
    | cons c m =>
      rw [List.cons_append] at hm
      exact absurd (by rw [(List.cons.inj hm).2]; simp) hl

theorem openLine_LF (sent : List UInt8) : OpenLine (sent ++ [LF]) [] :=
  ⟨⟨sent, rfl⟩, List.not_mem_nil⟩

/-- **One more LF** has to come behind a CR and to end a line that fits. -/
theorem terminalLines_LF_iff : TerminalLines W (sent ++ [LF]) ↔
    TerminalLines W sent ∧ sent.getLast? = some CR ∧
      ∀ line, OpenLine sent line → line.length ≤ W + 1 := by
  constructor
  · intro h
    exact ⟨h.of_append, h sent [] rfl⟩
  · rintro ⟨h, hend⟩ pre post heq
    rcases List.eq_nil_or_concat post with rfl | ⟨post', c, rfl⟩
    · obtain ⟨rfl, -⟩ := List.append_inj' heq rfl
      exact hend
    · rw [List.concat_eq_append, ← List.cons_append, ← List.append_assoc pre] at heq
      exact h pre post' (List.append_inj' heq rfl).1

/-- **A line that is ended properly** has to fit behind what is on the terminal. -/
theorem terminalLines_line_iff (hl : LF ∉ l) :
    TerminalLines W (sent ++ l ++ [CR, LF]) ↔
      TerminalLines W sent ∧ ∀ line, OpenLine sent line → line.length + l.length ≤ W := by
  have hCR : LF ∉ l ++ [CR] := by
    rw [List.mem_append, not_or]
    exact ⟨hl, by decide⟩
  have hsplit : sent ++ l ++ [CR, LF] = (sent ++ (l ++ [CR])) ++ [LF] := by simp
  have hlast : (sent ++ (l ++ [CR])).getLast? = some CR := by simp
  rw [hsplit, terminalLines_LF_iff, terminalLines_append_iff hCR, and_iff_right hlast]
  refine and_congr_right fun _ => ⟨fun h line hline => ?_, fun h line hline => ?_⟩
  · have hle := h _ ((openLine_append_iff hCR).mpr ⟨line, hline, rfl⟩)
    simp only [List.length_append, List.length_singleton] at hle
    omega
  · obtain ⟨line', hline', rfl⟩ := (openLine_append_iff hCR).mp hline
    have hle := h line' hline'
    simp only [List.length_append, List.length_singleton]
    omega

/-! ## Bytes sent as they are -/

/-- How many bytes there are since the last LF, if there was one; `line` says it of the bytes in
front of `l`. -/
def lengthBehind (line : Option ℕ) (l : List UInt8) : Option ℕ :=
  l.foldl (fun line c => if c = LF then some 0 else line.map (· + 1)) line

theorem lengthBehind_append (line : Option ℕ) (l l' : List UInt8) :
    lengthBehind line (l ++ l') = lengthBehind (lengthBehind line l) l' :=
  List.foldl_append

theorem lengthBehind_singleton (line : Option ℕ) (c : UInt8) :
    lengthBehind line [c] = if c = LF then some 0 else line.map (· + 1) := rfl

/-- The length of the open line. -/
theorem lengthBehind_eq_some_iff (sent : List UInt8) (n : ℕ) :
    lengthBehind none sent = some n ↔ ∃ line, OpenLine sent line ∧ line.length = n := by
  induction sent using List.reverseRecOn generalizing n with
  | nil =>
    refine iff_of_false (by simp [lengthBehind]) ?_
    rintro ⟨line, ⟨⟨a, heq⟩, -⟩, -⟩
    simp at heq
  | append_singleton sent c ih =>
    rw [lengthBehind_append, lengthBehind_singleton]
    by_cases hc : c = LF
    · subst hc
      rw [if_pos rfl, Option.some.injEq]
      constructor
      · rintro rfl
        exact ⟨[], openLine_LF sent, rfl⟩
      · rintro ⟨line, hline, rfl⟩
        rw [hline.unique (openLine_LF sent), List.length_nil]
    · rw [if_neg hc, Option.map_eq_some_iff]
      have hnot : LF ∉ [c] := by simpa using Ne.symm hc
      simp only [openLine_append_iff hnot, ih]
      constructor
      · rintro ⟨m, ⟨line, hline, rfl⟩, rfl⟩
        exact ⟨line ++ [c], ⟨line, hline, rfl⟩, List.length_append⟩
      · rintro ⟨_, ⟨line, hline, rfl⟩, rfl⟩
        exact ⟨line.length, ⟨line, hline, rfl⟩, by rw [List.length_append, List.length_singleton]⟩

theorem forall_openLine_iff (P : ℕ → Prop) :
    (∀ line, OpenLine sent line → P line.length) ↔ ∀ n, lengthBehind none sent = some n → P n := by
  simp only [lengthBehind_eq_some_iff]
  constructor
  · rintro h n ⟨line, hline, rfl⟩
    exact h line hline
  · exact fun h line hline => h _ ⟨line, hline, rfl⟩

/-- The bytes `l` may be sent as they are, behind the byte `last` and an open line of `line` bytes:
every LF among them comes right behind a CR and ends a line that fits. -/
def FineAsIs (W : ℕ) : Option UInt8 → Option ℕ → List UInt8 → Prop
  | _, _, [] => True
  | last, line, c :: l =>
      (c = LF → last = some CR ∧ ∀ n, line = some n → n ≤ W + 1) ∧
        FineAsIs W (some c) (lengthBehind line [c]) l

/-- **Bytes sent as they are** depend on the last byte and the open line in front of them only. -/
theorem terminalLines_asIs_iff : TerminalLines W (sent ++ l) ↔
    TerminalLines W sent ∧ FineAsIs W sent.getLast? (lengthBehind none sent) l := by
  induction l generalizing sent with
  | nil => rw [List.append_nil, FineAsIs, and_true]
  | cons c l ih =>
    have hone : TerminalLines W (sent ++ [c]) ↔ TerminalLines W sent ∧
        (c = LF → sent.getLast? = some CR ∧ ∀ n, lengthBehind none sent = some n → n ≤ W + 1) := by
      by_cases hc : c = LF
      · subst hc
        rw [terminalLines_LF_iff, forall_openLine_iff (· ≤ W + 1)]
        simp
      · rw [terminalLines_append_iff (by simpa using Ne.symm hc)]
        simp [hc]
    rw [List.append_cons, ih, hone, List.getLast?_concat, lengthBehind_append, FineAsIs, and_assoc]

/-- Lines that are ended properly and have room. -/
def Lines (W : ℕ) (l : List UInt8) : Prop :=
  ∀ sent, TerminalLines W sent → OpenLine sent [] →
    TerminalLines W (sent ++ l) ∧ OpenLine (sent ++ l) []

theorem lines_nil (W : ℕ) : Lines W [] := by
  intro sent hsent hopen
  rw [List.append_nil]
  exact ⟨hsent, hopen⟩

/-- One more line. -/
theorem Lines.append {r : List UInt8} (hr : Lines W r) (hl : LF ∉ l) (hlen : l.length ≤ W) :
    Lines W (r ++ l ++ [CR, LF]) := by
  intro sent hsent hopen
  obtain ⟨hsent', hopen'⟩ := hr sent hsent hopen
  rw [← List.append_assoc, ← List.append_assoc]
  refine ⟨(terminalLines_line_iff hl).mpr ⟨hsent', fun line hline => ?_⟩, ?_⟩
  · rw [hline.unique hopen', List.length_nil]
    omega
  · have hsplit : sent ++ r ++ l ++ [CR, LF] = (sent ++ r ++ l ++ [CR]) ++ [LF] := by simp
    rw [hsplit]
    exact openLine_LF _

/-! ## The first line of a call -/

/-- Where a call ends its first line, if it ends one: `rest` is what is to be looked at, from the
character `pos` on.  It is the first newline, if that comes before the line is full, and otherwise
the last space, or the end of the line. -/
def lineEnd (W : ℕ) : List UInt8 → ℕ → ℕ → Option ℕ
  | [], _, _ => none
  | c :: rest, pos, lastSpace =>
      if c = LF then some pos
      else if W ≤ pos then some (if lastSpace = 0 then pos else lastSpace)
      else lineEnd W rest (pos + 1) (if c = SPACE then pos else lastSpace)

/-- The loop of `out` is on the first line of the text `t`, of which it began to look at the
character `p`. -/
structure FirstLine (W p : ℕ) (t : List UInt8) (s : Wrapping) : Prop where
  text : TextAt s.ptr t
  sent : s.sent = []
  le_pos : p ≤ s.pos
  lastSpace : s.lastSpace = 0 ∨ p ≤ s.lastSpace ∧ s.lastSpace ≤ s.pos
  scanned : LF ∉ (t.take s.pos).drop p
  ends : lineEnd W (t.drop s.pos) s.pos s.lastSpace = lineEnd W (t.drop p) p 0

/-- The loop has ended the first line behind `n` characters, has sent the lines `r`, and is on a
line of the rest of the text. -/
structure LaterLine (W p : ℕ) (t : List UInt8) (n : ℕ) (s : Wrapping) (r rest : List UInt8) :
    Prop where
  ends : lineEnd W (t.drop p) p 0 = some n
  le : p ≤ n
  le_length : n ≤ t.length
  first : LF ∉ (t.take n).drop p
  sent : s.sent = t.take n ++ [CR, LF] ++ r
  lines : Lines W r
  text : TextAt s.ptr rest
  pos_le : s.pos ≤ W
  lastSpace : s.lastSpace ≤ s.pos
  scanned : LF ∉ rest.take s.pos

variable {w p n : ℕ} {t r rest : List UInt8} {s s' : Wrapping}

theorem take_succ_of_getElem? {c : UInt8} {i : ℕ} (hc : t[i]? = some c) :
    t.take (i + 1) = t.take i ++ [c] := by
  rw [List.take_add_one, hc]
  rfl

theorem not_mem_take_of_le {i : ℕ} (h : LF ∉ t.take i) {j : ℕ} (hj : j ≤ i) : LF ∉ t.take j :=
  fun hmem => h ((List.take_prefix_take_left hj).subset hmem)

theorem FirstLine.lastSpace_le (h : FirstLine W p t s) : s.lastSpace ≤ s.pos := by
  rcases h.lastSpace with hzero | ⟨-, hle⟩
  · omega
  · exact hle

/-- What `lineEnd` says at the character `c`. -/
theorem lineEnd_cons (W : ℕ) {c : UInt8} (hc : t[s.pos]? = some c) :
    lineEnd W (t.drop s.pos) s.pos s.lastSpace =
      if c = LF ∨ W ≤ s.pos then some (s.cut c)
      else lineEnd W (t.drop (s.pos + 1)) (s.pos + 1) (if c = SPACE then s.pos else s.lastSpace) := by
  obtain ⟨hlt, rfl⟩ := List.getElem?_eq_some_iff.mp hc
  rw [List.drop_eq_getElem_cons hlt, lineEnd, Wrapping.cut]
  by_cases hLF : t[s.pos] = LF
  · rw [if_pos hLF, if_pos (Or.inl hLF), if_pos (Or.inl hLF)]
  · rw [if_neg hLF]
    simp only [hLF, false_or]

/-- **A turn on the first line.** -/
theorem firstLine_step (hw : w = W + 1) (h : FirstLine W p t s)
    (hstep : wrapStep w s = .ok (some s')) :
    FirstLine W p t s' ∨ ∃ n r rest, LaterLine W p t n s' r rest := by
  have hle := h.le_pos
  obtain ⟨c, hc, hcases⟩ := wrapStep_cases h.text h.lastSpace_le hstep
  have hends := (lineEnd_cons W hc).symm.trans h.ends
  have hlen := (List.getElem?_eq_some_iff.mp hc).1
  rcases hcases with ⟨hbreak, htext, hpos, hls, hsent⟩ | ⟨hLF, hroom, rfl⟩
  · have hcut := Wrapping.cut_le h.lastSpace_le c
    rw [if_pos (hbreak.imp_right fun hle => by omega)] at hends
    refine Or.inr ⟨s.cut c, [], s.behind t c, hends.symm, ?_, by omega, ?_, ?_, lines_nil W, htext,
      ?_, ?_, ?_⟩
    · unfold Wrapping.cut
      split
      · exact h.le_pos
      · rename_i hspace
        rw [not_or] at hspace
        exact (h.lastSpace.resolve_left hspace.2).1
    · intro hmem
      exact h.scanned (((List.take_prefix_take_left hcut).drop p).subset hmem)
    · rw [hsent, h.sent, List.nil_append, List.append_nil]
    · rw [hpos]
      exact Nat.zero_le W
    · rw [hpos, hls]
    · rw [hpos]
      exact List.not_mem_nil
  · rw [if_neg (by rw [not_or]; exact ⟨hLF, by omega⟩)] at hends
    refine Or.inl ⟨h.text, h.sent, Nat.le_succ_of_le hle, ?_, ?_, hends⟩
    · dsimp only
      split
      · exact Or.inr ⟨hle, Nat.le_succ _⟩
      · exact h.lastSpace.imp_right fun hs => ⟨hs.1, Nat.le_succ_of_le hs.2⟩
    · rw [take_succ_of_getElem? hc, List.drop_append_of_le_length (by
        rw [List.length_take]
        omega), List.mem_append, not_or]
      exact ⟨h.scanned, by simpa using Ne.symm hLF⟩

/-- **A turn on a later line.** -/
theorem laterLine_step (hw : w = W + 1) (h : LaterLine W p t n s r rest)
    (hstep : wrapStep w s = .ok (some s')) : ∃ r rest, LaterLine W p t n s' r rest := by
  have hposle := h.pos_le
  obtain ⟨c, hc, hcases⟩ := wrapStep_cases h.text h.lastSpace hstep
  rcases hcases with ⟨-, htext, hpos, hls, hsent⟩ | ⟨hLF, hroom, rfl⟩
  · have hcut := Wrapping.cut_le h.lastSpace c
    have hline : LF ∉ rest.take (s.cut c) := not_mem_take_of_le h.scanned hcut
    have hlen : (rest.take (s.cut c)).length ≤ W :=
      (List.length_take_le _ _).trans (hcut.trans h.pos_le)
    refine ⟨r ++ rest.take (s.cut c) ++ [CR, LF], s.behind rest c,
      { h with
        sent := ?_
        lines := h.lines.append hline hlen
        text := htext
        pos_le := ?_
        lastSpace := ?_
        scanned := ?_ }⟩
    · rw [hsent, h.sent]
      simp only [List.append_assoc]
    · rw [hpos]
      exact Nat.zero_le W
    · rw [hpos, hls]
    · rw [hpos]
      exact List.not_mem_nil
  · refine ⟨r, rest,
      { h with
        pos_le := show s.pos + 1 ≤ W by omega
        lastSpace := ?_
        scanned := ?_ }⟩
    · have hle := h.lastSpace
      dsimp only
      split
      · omega
      · omega
    · rw [take_succ_of_getElem? hc, List.mem_append, not_or]
      exact ⟨h.scanned, by simpa using Ne.symm hLF⟩

/-! ## Calls -/

theorem firstLine_start (W p : ℕ) (text : CString) :
    FirstLine W p (formatted text) (.start p text) where
  text := textAt_outBuf text
  sent := rfl
  le_pos := Nat.le_refl p
  lastSpace := Or.inl rfl
  scanned := by
    have hnil : ((formatted text).take p).drop p = [] :=
      List.drop_eq_nil_of_le (List.length_take_le _ _)
    show LF ∉ ((formatted text).take p).drop p
    rw [hnil]
    exact List.not_mem_nil
  ends := rfl

/-- **What a call sends**: the text as it is, or a first line, ended where `lineEnd` says, and behind
it only lines that are ended properly and have room. -/
theorem out_sends {s s' : Screen} {a : OutCall} (hw : lineWidth a.termWidth = W + 1)
    (h : out s a = .ok s') :
    (lineEnd W ((formatted a.text).drop s.pos) s.pos 0 = none ∧
        LF ∉ (formatted a.text).drop s.pos ∧ s'.sent = s.sent ++ formatted a.text) ∨
      ∃ seen r rest,
        lineEnd W ((formatted a.text).drop s.pos) s.pos 0 = some (s.pos + seen.length) ∧
        LF ∉ seen ∧ Lines W r ∧ LF ∉ rest ∧
        s'.sent = s.sent ++ (formatted a.text).take s.pos ++ seen ++ [CR, LF] ++ (r ++ rest) := by
  obtain ⟨w, hloop, rfl⟩ := map_eq_ok h
  have hinv := invariant_loop (I := fun w => FirstLine W s.pos (formatted a.text) w ∨
      ∃ n r rest, LaterLine W s.pos (formatted a.text) n w r rest) (fun w w' hI hstep => by
    rcases hI with hfirst | ⟨n, r, rest, hlater⟩
    · exact firstLine_step hw hfirst hstep
    · obtain ⟨r', rest', hlater'⟩ := laterLine_step hw hlater hstep
      exact Or.inr ⟨n, r', rest', hlater'⟩) (Or.inl (firstLine_start W s.pos a.text)) hloop
  obtain ⟨hfirst | ⟨n, r, rest, hlater⟩, hend⟩ := hinv
  · have hle := length_le_of_wrapStep hfirst.text hfirst.lastSpace_le hend
    have hends := hfirst.ends
    have hscanned := hfirst.scanned
    rw [List.drop_eq_nil_of_le hle] at hends
    rw [List.take_of_length_le hle] at hscanned
    refine Or.inl ⟨hends.symm, hscanned, ?_⟩
    dsimp only
    rw [hfirst.sent, hfirst.text.takeWhile, List.nil_append]
  · have hle := length_le_of_wrapStep hlater.text hlater.lastSpace hend
    have hscanned := hlater.scanned
    rw [List.take_of_length_le hle] at hscanned
    have hle' := hlater.le
    have hlen := hlater.le_length
    have hseen : s.pos + (((formatted a.text).take n).drop s.pos).length = n := by
      rw [List.length_drop, List.length_take]
      omega
    have htake : (formatted a.text).take s.pos ++ ((formatted a.text).take n).drop s.pos =
        (formatted a.text).take n := by
      rw [← Nat.min_eq_left hle', ← List.take_take, Nat.min_eq_left hle', List.take_append_drop]
    refine Or.inr ⟨((formatted a.text).take n).drop s.pos, r, rest, ?_, hlater.first, hlater.lines,
      hscanned, ?_⟩
    · rw [hseen]
      exact hlater.ends
    · dsimp only
      rw [hlater.sent, hlater.text.takeWhile, List.append_assoc s.sent, htake]
      simp only [List.append_assoc]

/-- **The first line of a call fits.**  The characters the call does not look at may be sent as they
are behind what is on the terminal, and the first line it ends has room behind both. -/
def FirstLineFits (s : Screen) (a : OutCall) : Prop :=
  FineAsIs a.termWidth.toNat s.sent.getLast? (lengthBehind none s.sent)
      ((formatted a.text).take s.pos) ∧
    ∀ n, lineEnd a.termWidth.toNat ((formatted a.text).drop s.pos) s.pos 0 = some n →
      ∀ m, lengthBehind (lengthBehind none s.sent) ((formatted a.text).take s.pos) = some m →
        m + (n - s.pos) ≤ a.termWidth.toNat

/-- **After a call the lines are right if and only if they were, and its first line fits.** -/
theorem terminalLines_out_iff {s s' : Screen} {a : OutCall}
    (hw : lineWidth a.termWidth = a.termWidth.toNat + 1) (h : out s a = .ok s') :
    TerminalLines a.termWidth.toNat s'.sent ↔
      TerminalLines a.termWidth.toNat s.sent ∧ FirstLineFits s a := by
  rw [FirstLineFits, ← and_assoc, ← terminalLines_asIs_iff]
  rcases out_sends hw h with ⟨hnone, hLF, hsent⟩ | ⟨seen, r, rest, hsome, hseen, hlines, hrest, hsent⟩
  · have hsplit : s'.sent =
        s.sent ++ (formatted a.text).take s.pos ++ (formatted a.text).drop s.pos := by
      rw [hsent, List.append_assoc, List.take_append_drop]
    rw [hsplit, terminalLines_append_iff hLF, hnone]
    simp
  · have hfirst : TerminalLines a.termWidth.toNat
        (s.sent ++ (formatted a.text).take s.pos ++ seen ++ [CR, LF]) ↔
        TerminalLines a.termWidth.toNat (s.sent ++ (formatted a.text).take s.pos) ∧
          ∀ m, lengthBehind (lengthBehind none s.sent) ((formatted a.text).take s.pos) = some m →
            m + seen.length ≤ a.termWidth.toNat := by
      rw [terminalLines_line_iff hseen, ← lengthBehind_append,
        forall_openLine_iff (· + seen.length ≤ a.termWidth.toNat)]
    have hopen : OpenLine (s.sent ++ (formatted a.text).take s.pos ++ seen ++ [CR, LF]) [] := by
      have hsplit : s.sent ++ (formatted a.text).take s.pos ++ seen ++ [CR, LF] =
          (s.sent ++ (formatted a.text).take s.pos ++ seen ++ [CR]) ++ [LF] := by simp
      rw [hsplit]
      exact openLine_LF _
    have hrun : TerminalLines a.termWidth.toNat s'.sent ↔ TerminalLines a.termWidth.toNat
        (s.sent ++ (formatted a.text).take s.pos ++ seen ++ [CR, LF]) := by
      rw [hsent, ← List.append_assoc, terminalLines_append_iff hrest]
      exact ⟨TerminalLines.of_append, fun hfits => (hlines _ hfits hopen).1⟩
    rw [hrun, hfirst, hsome]
    simp only [Option.some.injEq, forall_eq', Nat.add_sub_cancel_left]

/-! ## Runs -/

/-- What has been sent stays. -/
theorem sent_prefix_of_run {s s' : Screen} {calls : List OutCall}
    (h : Runs.run out s calls = .ok s') : s.sent <+: s'.sent := by
  refine Runs.invariant_run (I := fun s' => s.sent <+: s'.sent) (fun s₁ a s₂ hs₁ hout => ?_)
    List.prefix_rfl h
  obtain ⟨w, -, rfl⟩ := map_eq_ok hout
  exact hs₁.trans (List.prefix_append _ _)

/-- Any number of calls at one width, at which lines have room. -/
theorem terminalLines_run_iff {V : UInt16} (hV : lineWidth V = V.toNat + 1) (hpos : 1 ≤ V.toNat)
    (texts : List CString) {s : Screen} (hs : s.pos < OUT_SZ) (hle : s.pos ≤ lineWidth V)
    (hlines : TerminalLines V.toNat s.sent) :
    ∃ s', Runs.run out s (texts.map (⟨V, ·⟩)) = .ok s' ∧
      (TerminalLines V.toNat s'.sent ↔ Runs.EachStep out FirstLineFits s (texts.map (⟨V, ·⟩))) := by
  induction texts generalizing s with
  | nil => exact ⟨s, rfl, iff_of_true hlines trivial⟩
  | cons text texts ih =>
    obtain ⟨s₁, hout, hs₁, hle₁, -⟩ :=
      out_of_contained (a := ⟨V, text⟩) hs (Or.inr ⟨hle, Or.inl (by
        show 2 ≤ lineWidth V
        omega)⟩)
    have hfirst := terminalLines_out_iff (a := ⟨V, text⟩) hV hout
    have hle₁' : s₁.pos ≤ lineWidth V := hle₁.elim (fun heq => heq ▸ hle) id
    have hsteps : Runs.EachStep out FirstLineFits s ((text :: texts).map (⟨V, ·⟩)) ↔
        FirstLineFits s ⟨V, text⟩ ∧ Runs.EachStep out FirstLineFits s₁ (texts.map (⟨V, ·⟩)) := by
      rw [List.map_cons, Runs.EachStep]
      refine and_congr_right fun _ => ⟨fun h => h s₁ hout, fun h s₂ hs₂ => ?_⟩
      exact Except.ok.inj (hout.symm.trans hs₂) ▸ h
    rw [hsteps, List.map_cons, Runs.run_cons_ok hout]
    by_cases hlines₁ : TerminalLines V.toNat s₁.sent
    · obtain ⟨s', hrun, hiff⟩ := ih hs₁ hle₁' hlines₁
      exact ⟨s', hrun, hiff.trans (and_iff_right (hfirst.mp hlines₁).2).symm⟩
    · obtain ⟨s', hrun, -⟩ := out_run_keeps (by omega) texts hs₁ hle₁'
      refine ⟨s', hrun, iff_of_false (fun h => hlines₁ ?_) fun h => hlines₁ (hfirst.mpr ⟨hlines, h.1⟩)⟩
      obtain ⟨later, hlater⟩ := sent_prefix_of_run hrun
      rw [← hlater] at h
      exact h.of_append

/-- **On a terminal of 80 columns** the lines are right if and only if the first line of every call
fits. -/
theorem terminalLines_80_iff (texts : List CString) :
    ∃ s, Runs.run out .init (texts.map (⟨80, ·⟩)) = .ok s ∧
      (TerminalLines 80 s.sent ↔
        Runs.EachStep out FirstLineFits .init (texts.map (⟨80, ·⟩))) := by
  refine terminalLines_run_iff (V := 80) (by decide) (by decide) texts (by decide) (by decide) ?_
  intro pre post h
  exact absurd h (by simp [Screen.init])

/-- A prompt, and the newline `>> ` is answered with: an LF without a CR. -/
theorem out_newline_after_prompt :
    ∃ s, Runs.run out .init ([CString.ofChars ">> ".toList, CString.ofChars "\n".toList].map
        (⟨80, ·⟩)) = .ok s ∧ ¬ TerminalLines 80 s.sent := by
  refine ⟨⟨3, [62, 62, 32, 10]⟩, by decide +kernel, fun h => ?_⟩
  exact absurd (h [62, 62, 32] [] rfl).1 (by decide)

end NetCosm
