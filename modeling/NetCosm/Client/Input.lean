import Mathlib.Data.List.TakeWhile
import NetCosm.Client.Telnet

/-!
# Reading lines from a client

`client_read` collects the bytes of successive `read`s in a buffer of `CLIENT_READ_SZ` bytes
until one of them has a line end in it, cuts the buffer with `remove_cruft` and returns it.
What the connection delivers is a list of pieces, in the order they arrive; a `read` takes
the first piece, or as much of it as there is room for.  An empty piece is the end of the
connection.

The bytes of the buffer behind the first line are given up with the buffer.  So a line is read
as it was sent exactly when no other byte came with the `read` that ended it, and a line
end that arrives in two pieces is a line end twice.  `clientReads_eq_lines_iff` says exactly for
which lines and which pieces the results are the lines that were sent.
-/

namespace NetCosm

/-- `CLIENT_READ_SZ`. -/
def CLIENT_READ_SZ : ℕ := 128

/-- The string a buffer holds. -/
def CString.ofBuffer (buf : List UInt8) : CString :=
  ⟨buf.takeWhile (· != 0), fun h => absurd (List.all_eq_true.mp List.all_takeWhile 0 h) (by decide)⟩

/-- How a call of `client_read` ends when `error` is not called. -/
inductive ReadOutcome where
  | line (s : CString)
  /-- `poll` waits for more. -/
  | waiting
  /-- `exit(0)`. -/
  | exited

/-- What is left of the pieces after a `read` with room for `room` bytes. -/
def unread (chunk : List UInt8) (later : List (List UInt8)) (room : ℕ) : List (List UInt8) :=
  if chunk.length ≤ room then later else chunk.drop room :: later

theorem take_append_unread (chunk : List UInt8) (later : List (List UInt8)) (room : ℕ) :
    chunk.take room ++ (unread chunk later room).flatten = chunk ++ later.flatten := by
  rw [unread]
  split
  · rename_i h
    rw [List.take_of_length_le h]
  · rw [List.flatten_cons, ← List.append_assoc, List.take_append_drop]

theorem length_unread_lt {chunk : List UInt8} {later : List (List UInt8)} {room : ℕ}
    (h : chunk.take room ≠ []) :
    (unread chunk later room).flatten.length < (chunk :: later).flatten.length := by
  have hlen := congrArg List.length (take_append_unread chunk later room)
  have hpos : 0 < (chunk.take room).length := List.length_pos_of_ne_nil h
  rw [List.length_append] at hlen
  rw [List.flatten_cons]
  omega

/-- The loop of `client_read`, with the bytes that are in the buffer. -/
def clientReadLoop (t : Terminal) (buf : List UInt8) (input : List (List UInt8)) :
    Except Fault (ReadOutcome × Terminal × List (List UInt8)) :=
  match input with
  | [] => .ok (.waiting, t, [])
  | chunk :: later =>
      let room := CLIENT_READ_SZ - buf.length - 1
      -- lost connection
      if _h : chunk.take room = [] then .error .fatal
      else
        match telnetParseData t (chunk.take room) with
        | .error e => .error e
        | .ok (.exit, t, _) => .ok (.exited, t, unread chunk later room)
        | .ok (.foundCmd, t, _) => clientReadLoop t [] (unread chunk later room)
        | .ok (.data, t, got) => clientReadLoop t (buf ++ got) (unread chunk later room)
        | .ok (.lineOver, t, got) =>
            .ok (.line (removeCruft (.ofBuffer (buf ++ got))), t, unread chunk later room)
  termination_by input.flatten.length
  decreasing_by all_goals exact length_unread_lt _h

/-- `client_read`. -/
def clientRead (t : Terminal) (input : List (List UInt8)) :
    Except Fault (ReadOutcome × Terminal × List (List UInt8)) :=
  clientReadLoop t [] input

/-- A call that returns a line has read something. -/
theorem clientReadLoop_shorter {t t' : Terminal} {buf : List UInt8}
    {input rest : List (List UInt8)} {s : CString}
    (h : clientReadLoop t buf input = .ok (.line s, t', rest)) :
    rest.flatten.length < input.flatten.length := by
  fun_induction clientReadLoop t buf input with
  | case1 => exact absurd h (by simp)
  | case2 => exact absurd h (by simp)
  | case3 => exact absurd h (by simp)
  | case4 => exact absurd h (by simp)
  | case5 _ _ _ _ _ hgot _ _ _ ih => exact (ih h).trans (length_unread_lt hgot)
  | case6 _ _ _ _ _ hgot _ _ _ ih => exact (ih h).trans (length_unread_lt hgot)
  | case7 _ _ _ _ _ hgot _ _ _ =>
    obtain ⟨-, -, rfl⟩ := h
    exact length_unread_lt hgot

/-- How a session of `client_read` calls ends. -/
inductive SessionEnd where
  | waiting
  | exited
  | stopped (e : Fault)
  deriving DecidableEq

/-- The results of one call of `client_read` after the other, and why there are no more. -/
def clientReads (t : Terminal) (input : List (List UInt8)) : List CString × SessionEnd :=
  match _h : clientRead t input with
  | .error e => ([], .stopped e)
  | .ok (.waiting, _, _) => ([], .waiting)
  | .ok (.exited, _, _) => ([], .exited)
  | .ok (.line s, t, rest) => (s :: (clientReads t rest).1, (clientReads t rest).2)
  termination_by input.flatten.length
  decreasing_by all_goals exact clientReadLoop_shorter _h

theorem clientReads_of_error {t : Terminal} {input : List (List UInt8)} {e : Fault}
    (h : clientRead t input = .error e) : clientReads t input = ([], .stopped e) := by
  rw [clientReads]
  split <;> simp_all

theorem clientReads_of_waiting {t : Terminal} {input : List (List UInt8)}
    (t' : Terminal) (rest : List (List UInt8)) (h : clientRead t input = .ok (.waiting, t', rest)) :
    clientReads t input = ([], .waiting) := by
  rw [clientReads]
  split <;> simp_all

theorem clientReads_of_exited {t : Terminal} {input : List (List UInt8)}
    (t' : Terminal) (rest : List (List UInt8)) (h : clientRead t input = .ok (.exited, t', rest)) :
    clientReads t input = ([], .exited) := by
  rw [clientReads]
  split <;> simp_all

theorem clientReads_of_line {t t' : Terminal} {input rest : List (List UInt8)} {s : CString}
    (h : clientRead t input = .ok (.line s, t', rest)) :
    clientReads t input = (s :: (clientReads t' rest).1, (clientReads t' rest).2) := by
  rw [clientReads]
  split <;> simp_all

/-! ## Plain input -/

/-- A byte that may stand in a line. -/
def IsText (c : UInt8) : Prop := IsPlain c ∧ isCruft c = false

instance (c : UInt8) : Decidable (IsText c) := inferInstanceAs (Decidable (_ ∧ _))

/-- **What `client_read` does with plain bytes.**  Either no line end arrives, or the buffer
is full before one does, or the pieces up to the first with a line end in it are returned. -/
theorem clientReadLoop_plain (t : Terminal) (buf : List UInt8) {input : List (List UInt8)}
    (hin : ∀ chunk ∈ input, chunk ≠ [] ∧ ∀ c ∈ chunk, IsPlain c)
    (hbuf : ∀ c ∈ buf, isCruft c = false) :
    (clientReadLoop t buf input = .ok (.waiting, t, []) ∧
        ∀ c ∈ input.flatten, isCruft c = false) ∨
      (clientReadLoop t buf input = .error .fatal ∧
        ∃ full, full <+: buf ++ input.flatten ∧ CLIENT_READ_SZ ≤ full.length + 1 ∧
          ∀ c ∈ full, isCruft c = false) ∨
      ∃ before chunk later room, input = before ++ chunk :: later ∧
        room = CLIENT_READ_SZ - (buf ++ before.flatten).length - 1 ∧
        (∀ c ∈ before.flatten, isCruft c = false) ∧ (∃ c ∈ chunk.take room, isCruft c) ∧
        clientReadLoop t buf input = .ok (.line (removeCruft (.ofBuffer
          (buf ++ before.flatten ++ chunk.take room))), t, unread chunk later room) := by
  induction input generalizing buf with
  | nil => exact Or.inl ⟨by rw [clientReadLoop], by simp⟩
  | cons chunk later ih =>
    obtain ⟨hne, hplain⟩ := hin chunk (List.mem_cons_self ..)
    have hlater := fun ch hch => hin ch (List.mem_cons_of_mem chunk hch)
    rw [clientReadLoop]
    by_cases hgot : chunk.take (CLIENT_READ_SZ - buf.length - 1) = []
    · -- no room is left
      rw [dif_pos hgot]
      refine Or.inr (Or.inl ⟨rfl, buf, List.prefix_append .., ?_, hbuf⟩)
      rcases List.take_eq_nil_iff.mp hgot with h | h
      · omega
      · exact absurd h hne
    rw [dif_neg hgot, telnetParseData_plain t fun c hc => hplain c (List.mem_of_mem_take hc)]
    by_cases hcruft : (chunk.take (CLIENT_READ_SZ - buf.length - 1)).any isCruft
    · -- the line ends here
      rw [if_pos hcruft]
      refine Or.inr (Or.inr ⟨[], chunk, later, _, rfl, rfl, by simp, ?_, ?_⟩)
      · simpa using hcruft
      · simp
    rw [if_neg hcruft]
    have hfree : ∀ c ∈ buf ++ chunk.take (CLIENT_READ_SZ - buf.length - 1), isCruft c = false := by
      intro c hc
      rcases List.mem_append.mp hc with hc | hc
      · exact hbuf c hc
      · simpa using fun h => hcruft (List.any_eq_true.mpr ⟨c, hc, h⟩)
    by_cases hroom : chunk.length ≤ CLIENT_READ_SZ - buf.length - 1
    · -- the piece fits, and the next one is read behind it
      rw [List.take_of_length_le hroom] at hfree ⊢
      rw [unread, if_pos hroom]
      rcases ih _ hlater hfree with ⟨hrun, hrest⟩ | ⟨hrun, full, hfull, hsz, hno⟩ |
        ⟨before, chunk', later', room, rfl, hroom', hno, hany, hrun⟩
      · refine Or.inl ⟨hrun, fun c hc => ?_⟩
        rw [List.flatten_cons] at hc
        rcases List.mem_append.mp hc with hc | hc
        · exact hfree c (List.mem_append_right buf hc)
        · exact hrest c hc
      · exact Or.inr (Or.inl ⟨hrun, full, by rwa [List.flatten_cons, ← List.append_assoc],
          hsz, hno⟩)
      · refine Or.inr (Or.inr ⟨chunk :: before, chunk', later', room, rfl, ?_, ?_, hany, ?_⟩)
        · rw [hroom', List.flatten_cons, List.append_assoc]
        · intro c hc
          rw [List.flatten_cons] at hc
          rcases List.mem_append.mp hc with hc | hc
          · exact hfree c (List.mem_append_right buf hc)
          · exact hno c hc
        · rw [List.flatten_cons, ← List.append_assoc buf]
          exact hrun
    · -- the piece fills the buffer, and there is no room for the rest of it
      have hlen : (chunk.take (CLIENT_READ_SZ - buf.length - 1)).length =
          CLIENT_READ_SZ - buf.length - 1 := List.length_take_of_le (by omega)
      have hpos : 0 < (chunk.take (CLIENT_READ_SZ - buf.length - 1)).length :=
        List.length_pos_of_ne_nil hgot
      refine Or.inr (Or.inl ⟨?_, buf ++ chunk.take (CLIENT_READ_SZ - buf.length - 1), ?_, ?_,
        hfree⟩)
      · rw [unread, if_neg hroom]
        show clientReadLoop t (buf ++ chunk.take _) _ = _
        rw [clientReadLoop, dif_pos]
        rw [List.length_append, hlen, List.take_eq_nil_iff]
        exact Or.inl (by omega)
      · rw [List.flatten_cons, ← List.append_assoc]
        exact ((List.prefix_append_right_inj buf).mpr (List.take_prefix _ chunk)).trans
          (List.prefix_append ..)
      · rw [List.length_append]
        omega

/-! ## Lines -/

/-- A line a client may type: fewer than 120 bytes, none of which is an `IAC`, a zero byte
or a line end. -/
structure Line where
  text : CString
  isText : ∀ c ∈ text.bytes, IsText c
  short : text.length < 120

/-- A property of the bytes of a string of one letter. -/
theorem forall_mem_letter {p : UInt8 → Prop} {c : UInt8} (h : p c) :
    ∀ b ∈ (letter c).bytes, p b := by
  intro b hb
  obtain rfl := List.mem_singleton.mp (List.mem_filter.mp hb).1
  exact h

/-- The bytes of the lines, each followed by `\r\n`. -/
def sentBytes (lines : List Line) : List UInt8 :=
  lines.flatMap fun l => l.text.bytes ++ [13, 10]

theorem sentBytes_cons (l : Line) (ls : List Line) :
    sentBytes (l :: ls) = l.text.bytes ++ 13 :: 10 :: sentBytes ls := by
  rw [sentBytes, List.flatMap_cons, List.append_assoc]
  rfl

/-- The piece has no line end in it, or one `\r\n`, with nothing behind it. -/
def EndsAtLine (piece : List UInt8) : Prop :=
  (∀ c ∈ piece, isCruft c = false) ∨
    ∃ text, piece = text ++ [13, 10] ∧ ∀ c ∈ text, isCruft c = false

/-- Bytes sent for lines are plain. -/
theorem isPlain_of_mem_sentBytes (lines : List Line) {c : UInt8} (h : c ∈ sentBytes lines) :
    IsPlain c := by
  obtain ⟨l, -, hc⟩ := List.mem_flatMap.mp h
  rcases List.mem_append.mp hc with hc | hc
  · exact (l.isText c hc).1
  · rcases List.mem_pair.mp hc with rfl | rfl <;> exact ⟨by decide, by decide⟩

/-- Bytes are split in one way only at the first line end. -/
theorem cruft_split_unique {a b s t : List UInt8} {c d : UInt8}
    (ha : ∀ x ∈ a, isCruft x = false) (hb : ∀ x ∈ b, isCruft x = false)
    (hc : isCruft c = true) (hd : isCruft d = true) (h : a ++ c :: s = b ++ d :: t) :
    a = b ∧ c = d ∧ s = t := by
  induction a generalizing b with
  | nil =>
    cases b with
    | nil => exact ⟨rfl, List.cons.inj h⟩
    | cons y b =>
      have := hb y (List.mem_cons_self ..)
      rw [← (List.cons.inj h).1, hc] at this
      exact absurd this (by simp)
  | cons x a ih =>
    cases b with
    | nil =>
      have := ha x (List.mem_cons_self ..)
      rw [(List.cons.inj h).1, hd] at this
      exact absurd this (by simp)
    | cons y b =>
      obtain ⟨rfl, h'⟩ := List.cons.inj h
      obtain ⟨rfl, hcd, hst⟩ := ih (fun x hx => ha x (List.mem_cons_of_mem _ hx))
        (fun x hx => hb x (List.mem_cons_of_mem _ hx)) h'
      exact ⟨rfl, hcd, hst⟩

/-- A buffer without zero bytes is a string as a whole. -/
theorem bytes_ofBuffer (buf : List UInt8) (h : ∀ c ∈ buf, c ≠ 0) :
    (CString.ofBuffer buf).bytes = buf :=
  List.takeWhile_eq_self_iff.mpr fun c hc => bne_iff_ne.mpr (h c hc)

/-- If `remove_cruft` leaves no line end, it has cut the string at its first one. -/
theorem removeCruft_cut {s r : CString} (h : removeCruft s = r)
    (hr : ∀ c ∈ r.bytes, isCruft c = false) (hs : ∃ c ∈ s.bytes, isCruft c = true) :
    r.bytes ≠ [] ∧ ∃ c rest, isCruft c = true ∧ s.bytes = r.bytes ++ c :: rest := by
  have hbytes : r.bytes = s.bytes.takeWhile isCruft ++
      (s.bytes.dropWhile isCruft).takeWhile (fun c => !isCruft c) := h ▸ rfl
  have hlead : s.bytes.takeWhile isCruft = [] := by
    refine List.eq_nil_iff_forall_not_mem.mpr fun c hc => ?_
    have hcruft : isCruft c = true := List.all_eq_true.mp List.all_takeWhile c hc
    have := hr c (hbytes ▸ List.mem_append_left _ hc)
    rw [hcruft] at this
    exact absurd this (by simp)
  have hdrop : s.bytes.dropWhile isCruft = s.bytes := by
    have := List.takeWhile_append_dropWhile (p := isCruft) (l := s.bytes)
    rwa [hlead] at this
  rw [hlead, hdrop, List.nil_append] at hbytes
  have hsplit := List.takeWhile_append_dropWhile (p := fun c => !isCruft c) (l := s.bytes)
  rw [← hbytes] at hsplit
  cases hd : s.bytes.dropWhile (fun c => !isCruft c) with
  | nil =>
    rw [hd, List.append_nil] at hsplit
    obtain ⟨c, hc, hcruft⟩ := hs
    rw [← hsplit] at hc
    exact absurd ((hr c hc).symm.trans hcruft) (by simp)
  | cons c rest =>
    have hc : isCruft c = true := by
      have := List.head?_dropWhile_not (fun c => !isCruft c) s.bytes
      rw [hd] at this
      simpa using this
    rw [hd] at hsplit
    refine ⟨fun hnil => ?_, c, rest, hc, hsplit.symm⟩
    rw [hnil] at hsplit
    rw [← hsplit, List.nil_append, List.takeWhile_cons_of_pos hc] at hlead
    exact absurd hlead (by simp)

/-- `remove_cruft` cuts a line at its end, if there is anything before it. -/
theorem removeCruft_line {s r : CString} {rest : List UInt8} {c : UInt8}
    (hs : s.bytes = r.bytes ++ c :: rest) (hr : ∀ c ∈ r.bytes, isCruft c = false)
    (hne : r.bytes ≠ []) (hc : isCruft c = true) : removeCruft s = r := by
  obtain ⟨b, text, htext⟩ := List.exists_cons_of_ne_nil hne
  have hb : isCruft b = false := hr b (htext ▸ List.mem_cons_self ..)
  refine CString.ext ?_
  show s.bytes.takeWhile isCruft ++ (s.bytes.dropWhile isCruft).takeWhile _ = r.bytes
  have hlead : s.bytes.takeWhile isCruft = [] := by
    rw [hs, htext, List.cons_append, List.takeWhile_cons_of_neg (by simp [hb])]
  have hdrop : s.bytes.dropWhile isCruft = s.bytes := by
    rw [hs, htext, List.cons_append, List.dropWhile_cons_of_neg (by simp [hb])]
  rw [hlead, hdrop, hs, List.nil_append, List.takeWhile_append_of_pos (by simpa using hr),
    List.takeWhile_cons_of_neg (by simp [hc]), List.append_nil]

/-! ## Which cuts are harmless -/

/-- The bytes of a call that has returned a line, and what is left, are all there was. -/
theorem read_append_unread {pieces before later : List (List UInt8)} {chunk : List UInt8}
    (h : pieces = before ++ chunk :: later) (room : ℕ) :
    pieces.flatten = before.flatten ++ chunk.take room ++ (unread chunk later room).flatten := by
  rw [h, List.append_assoc, take_append_unread, List.flatten_append, List.flatten_cons]

/-- What holds of the pieces holds of those that are left. -/
theorem forall_unread {P : UInt8 → Prop} {pieces before later : List (List UInt8)}
    {chunk : List UInt8} (h : pieces = before ++ chunk :: later)
    (hin : ∀ piece ∈ pieces, piece ≠ [] ∧ ∀ c ∈ piece, P c) (room : ℕ) :
    ∀ piece ∈ unread chunk later room, piece ≠ [] ∧ ∀ c ∈ piece, P c := by
  have hlater : ∀ piece ∈ later, piece ≠ [] ∧ ∀ c ∈ piece, P c := fun piece hpiece =>
    hin piece (h ▸ List.mem_append_right before (List.mem_cons_of_mem chunk hpiece))
  have hchunk := hin chunk (h ▸ List.mem_append_right before (List.mem_cons_self ..))
  rw [unread]
  split
  · exact hlater
  · rename_i hlen
    refine List.forall_mem_cons.mpr ⟨⟨?_, fun c hc => hchunk.2 c (List.mem_of_mem_drop hc)⟩,
      hlater⟩
    rw [ne_eq, List.drop_eq_nil_iff]
    exact hlen

/-- If the next byte is a line end, it is in the next line. -/
theorem clientReads_of_cruft (t : Terminal) {pieces : List (List UInt8)} {c : UInt8}
    {rest : List UInt8} (hin : ∀ piece ∈ pieces, piece ≠ [] ∧ ∀ c ∈ piece, IsPlain c)
    (hc : isCruft c = true) (hflat : pieces.flatten = c :: rest) {lines : List Line} :
    (clientReads t pieces).1 ≠ lines.map Line.text := by
  have hmem : c ∈ pieces.flatten := hflat ▸ List.mem_cons_self ..
  have hplain : ∀ b ∈ pieces.flatten, b ≠ 0 := fun b hb => by
    obtain ⟨piece, hpiece, hb⟩ := List.mem_flatten.mp hb
    exact ((hin piece hpiece).2 b hb).2
  intro h
  rcases clientReadLoop_plain t [] hin (by simp) with ⟨-, hno⟩ |
    ⟨-, full, hfull, hsz, hno⟩ | ⟨before, chunk, later, room, hpieces, -, hbefore, hany, hrun⟩
  · exact absurd ((hno c hmem).symm.trans hc) (by simp)
  · rw [List.nil_append, hflat] at hfull
    cases full with
    | nil => exact absurd hsz (by decide)
    | cons b full =>
      obtain ⟨rfl, -⟩ := List.cons_prefix_cons.mp hfull
      exact absurd ((hno b (List.mem_cons_self ..)).symm.trans hc) (by simp)
  · rw [clientReads_of_line hrun] at h
    cases lines with
    | nil => exact absurd h (by simp)
    | cons l lines =>
      have hl := (List.cons.inj h).1
      have hsplit := read_append_unread hpieces room
      have hgot : ∀ b ∈ before.flatten ++ chunk.take room, b ≠ 0 := fun b hb =>
        hplain b (hsplit ▸ List.mem_append_left _ hb)
      have hbytes := bytes_ofBuffer _ hgot
      obtain ⟨b, hb, hcruft⟩ := hany
      obtain ⟨hne, d, rest', hd, hcut⟩ := removeCruft_cut hl (fun c hc => (l.isText c hc).2)
        ⟨b, by rw [List.nil_append, hbytes]; exact List.mem_append_right _ hb, hcruft⟩
      rw [List.nil_append, hbytes] at hcut
      rw [hcut, hflat, List.append_assoc, List.cons_append] at hsplit
      obtain ⟨hnil, -⟩ := cruft_split_unique (a := []) (by simp)
        (fun c hc => (l.isText c hc).2) hc hd hsplit
      exact hne hnil.symm

/-- The last piece of a line that was read as it was sent. -/
theorem endsAtLine_of_append {before chunk text : List UInt8}
    (hbefore : ∀ c ∈ before, isCruft c = false) (htext : ∀ c ∈ text, isCruft c = false)
    (h : before ++ chunk = text ++ [13, 10]) : EndsAtLine chunk := by
  rcases List.append_eq_append_iff.mp h with ⟨x, rfl, hx⟩ | ⟨x, rfl, hx⟩
  · exact Or.inr ⟨x, hx, fun c hc => htext c (List.mem_append_right before hc)⟩
  · cases x with
    | nil => exact Or.inr ⟨[], hx.symm, by simp⟩
    | cons c x =>
      obtain ⟨rfl, -⟩ := List.cons.inj hx
      exact absurd (hbefore 13 (List.mem_append_right text (List.mem_cons_self ..))) (by decide)

/-- The other way about: a cut the results do not show is one of those above.  The pieces
may be all that is left of the lines after the first bytes of them were given up, and
then the results show it. -/
theorem endsAtLine_of_clientReads (t : Terminal) {lines : List Line}
    {pieces : List (List UInt8)} (hin : ∀ piece ∈ pieces, piece ≠ [] ∧ ∀ c ∈ piece, IsPlain c)
    (hleft : pieces.flatten <:+ sentBytes lines)
    (h : (clientReads t pieces).1 = lines.map Line.text) :
    pieces.flatten = sentBytes lines ∧ (∀ l ∈ lines, l.text.bytes ≠ []) ∧
      ∀ piece ∈ pieces, EndsAtLine piece := by
  induction lines generalizing pieces with
  | nil =>
    have hnil : pieces.flatten = [] := List.suffix_nil.mp hleft
    refine ⟨hnil, by simp, fun piece hpiece => ?_⟩
    exact absurd (List.flatten_eq_nil_iff.mp hnil piece hpiece) (hin piece hpiece).1
  | cons l lines ih =>
    have hplain : ∀ b ∈ pieces.flatten, b ≠ 0 := fun b hb =>
      (isPlain_of_mem_sentBytes _ (hleft.mem hb)).2
    have htext : ∀ c ∈ l.text.bytes, isCruft c = false := fun c hc => (l.isText c hc).2
    rcases clientReadLoop_plain t [] hin (by simp) with ⟨hrun, -⟩ | ⟨hrun, -⟩ |
      ⟨before, chunk, later, room, hpieces, hroom, hbefore, hany, hrun⟩
    · rw [clientReads_of_waiting _ _ hrun] at h
      exact absurd h (by simp)
    · rw [clientReads_of_error hrun] at h
      exact absurd h (by simp)
    rw [clientReads_of_line hrun] at h
    obtain ⟨hl, hrest⟩ := List.cons.inj h
    have hsplit := read_append_unread hpieces room
    have hin' := forall_unread hpieces hin room
    have hbytes := bytes_ofBuffer (before.flatten ++ chunk.take room) fun b hb =>
      hplain b (hsplit ▸ List.mem_append_left _ hb)
    rw [List.nil_append] at hl
    obtain ⟨b, hb, hcruft⟩ := hany
    obtain ⟨hne, d, more, hd, hcut⟩ := removeCruft_cut hl htext
      ⟨b, by rw [hbytes]; exact List.mem_append_right _ hb, hcruft⟩
    rw [hbytes] at hcut
    have hwhole : pieces.flatten =
        l.text.bytes ++ d :: (more ++ (unread chunk later room).flatten) := by
      rw [hsplit, hcut, List.append_assoc, List.cons_append]
    obtain ⟨gone, hgone⟩ := hleft
    rw [sentBytes_cons] at hgone
    -- where in the first line the pieces begin, or behind it
    rcases List.append_eq_append_iff.mp hgone with ⟨p, hp, hflat⟩ | ⟨p, -, hflat⟩
    · have hp' : ∀ c ∈ p, isCruft c = false := fun c hc =>
        htext c (hp ▸ List.mem_append_right gone hc)
      obtain ⟨rfl, rfl, hmore⟩ := cruft_split_unique htext hp' hd rfl (hwhole.symm.trans hflat)
      cases more with
      | nil => exact absurd hrest (clientReads_of_cruft t hin' (by decide) hmore)
      | cons c more =>
        obtain ⟨rfl, hmore'⟩ := List.cons.inj hmore
        obtain ⟨hall, hnonempty, hends⟩ := ih hin' ⟨more, hmore'⟩ hrest
        obtain rfl : more = [] := by
          rw [hall] at hmore'
          simpa using hmore'
        -- the line and its end are shorter than the buffer
        have hfits : chunk.length ≤ room := by
          by_contra hlong
          have hlen := congrArg List.length hcut
          have hshort := l.short
          rw [CString.length] at hshort
          rw [List.length_append, List.length_take_of_le (by omega), List.length_append,
            List.length_cons, List.length_cons, List.length_nil] at hlen
          rw [List.nil_append, CLIENT_READ_SZ] at hroom
          omega
        rw [List.take_of_length_le hfits] at hcut
        rw [unread, if_pos hfits] at hends
        refine ⟨hflat.trans (sentBytes_cons l lines).symm,
          List.forall_mem_cons.mpr ⟨hne, hnonempty⟩, fun piece hpiece => ?_⟩
        rw [hpieces] at hpiece
        rcases List.mem_append.mp hpiece with hpiece | hpiece
        · exact Or.inl fun c hc => hbefore c (List.mem_flatten_of_mem hpiece hc)
        · rcases List.mem_cons.mp hpiece with rfl | hpiece
          · exact endsAtLine_of_append hbefore htext hcut
          · exact hends piece hpiece
    · -- the first line is gone as a whole, and there are fewer lines than results
      have hbehind : pieces.flatten <:+ sentBytes lines := by
        rcases p with _ | ⟨x, _ | ⟨y, p⟩⟩
        · obtain ⟨hnil, -⟩ := cruft_split_unique (a := []) (by simp) htext rfl hd
            ((List.nil_append _).trans hflat |>.trans hwhole)
          exact absurd hnil.symm hne
        · obtain ⟨-, hflat⟩ := List.cons.inj hflat
          obtain ⟨hnil, -⟩ := cruft_split_unique (a := []) (by simp) htext rfl hd
            ((List.nil_append _).trans hflat |>.trans hwhole)
          exact absurd hnil.symm hne
        · obtain ⟨-, hflat⟩ := List.cons.inj hflat
          obtain ⟨-, hflat⟩ := List.cons.inj hflat
          exact ⟨p, hflat.symm⟩
      have hrest' : (unread chunk later room).flatten <:+ sentBytes lines :=
        List.IsSuffix.trans ⟨_, hsplit.symm⟩ hbehind
      obtain ⟨hall, -⟩ := ih hin' hrest' hrest
      have hlen := hbehind.length_le
      rw [hwhole, ← hall, List.length_append, List.length_cons, List.length_append] at hlen
      omega

/-- **Lines that arrive one at a time are read as they were sent.** -/
theorem clientReads_of_endsAtLine (t : Terminal) {lines : List Line}
    {pieces : List (List UInt8)} (hin : ∀ piece ∈ pieces, piece ≠ [] ∧ ∀ c ∈ piece, IsPlain c)
    (hsent : pieces.flatten = sentBytes lines) (hne : ∀ l ∈ lines, l.text.bytes ≠ [])
    (hends : ∀ piece ∈ pieces, EndsAtLine piece) :
    clientReads t pieces = (lines.map Line.text, .waiting) := by
  induction lines generalizing pieces with
  | nil =>
    cases pieces with
    | nil => exact clientReads_of_waiting t [] (by rw [clientRead, clientReadLoop])
    | cons piece pieces =>
      exact absurd (List.flatten_eq_nil_iff.mp hsent piece (List.mem_cons_self ..))
        (hin piece (List.mem_cons_self ..)).1
  | cons l lines ih =>
    have htext : ∀ c ∈ l.text.bytes, isCruft c = false := fun c hc => (l.isText c hc).2
    have hshort := l.short
    rw [CString.length] at hshort
    rw [sentBytes_cons] at hsent
    rcases clientReadLoop_plain t [] hin (by simp) with ⟨-, hno⟩ |
      ⟨-, full, hfull, hsz, hno⟩ | ⟨before, chunk, later, room, hpieces, hroom, hbefore, hany, hrun⟩
    · exact absurd (hno 13 (hsent ▸ List.mem_append_right _ (List.mem_cons_self ..))) (by decide)
    · -- the buffer cannot be full before the line ends
      rw [List.nil_append, hsent] at hfull
      have hline : l.text.bytes ++ [13] <+: l.text.bytes ++ 13 :: 10 :: sentBytes lines :=
        (List.prefix_append_right_inj _).mpr ⟨10 :: sentBytes lines, rfl⟩
      have hle : (l.text.bytes ++ [13]).length ≤ full.length := by
        rw [List.length_append, List.length_singleton]
        rw [CLIENT_READ_SZ] at hsz
        omega
      have hmem : 13 ∈ full := (List.prefix_of_prefix_length_le hline hfull hle).mem
        (List.mem_append_right _ (List.mem_singleton_self 13))
      exact absurd (hno 13 hmem) (by decide)
    · -- the piece that ends the line ends with it
      obtain ⟨x, rfl, hx⟩ : ∃ x, chunk = x ++ [13, 10] ∧ ∀ c ∈ x, isCruft c = false := by
        rcases hends chunk (hpieces ▸ List.mem_append_right before (List.mem_cons_self ..)) with
          hno | hline
        · obtain ⟨c, hc, hcruft⟩ := hany
          exact absurd ((hno c (List.mem_of_mem_take hc)).symm.trans hcruft) (by simp)
        · exact hline
      have hflat : (before.flatten ++ x) ++ 13 :: 10 :: later.flatten =
          l.text.bytes ++ 13 :: 10 :: sentBytes lines := by
        rw [← hsent, hpieces, List.flatten_append, List.flatten_cons]
        simp
      have hfree : ∀ c ∈ before.flatten ++ x, isCruft c = false := fun c hc =>
        (List.mem_append.mp hc).elim (hbefore c) (hx c)
      obtain ⟨htake, -, hlater⟩ := cruft_split_unique hfree htext rfl rfl hflat
      have hlen := congrArg List.length htake
      rw [List.length_append] at hlen
      have hfits : (x ++ [13, 10]).length ≤ room := by
        rw [List.length_append, List.length_cons, List.length_cons, List.length_nil, hroom,
          List.nil_append, CLIENT_READ_SZ]
        omega
      have hgot : [] ++ before.flatten ++ (x ++ [13, 10]) = l.text.bytes ++ 13 :: [10] := by
        rw [List.nil_append, ← List.append_assoc, htake]
      have hzero : ∀ c ∈ l.text.bytes ++ 13 :: [10], c ≠ 0 := by
        intro c hc
        rcases List.mem_append.mp hc with hc | hc
        · exact (l.isText c hc).1.2
        · rcases List.mem_pair.mp hc with rfl | rfl <;> decide
      rw [List.take_of_length_le hfits, unread, if_pos hfits, hgot,
        removeCruft_line (bytes_ofBuffer _ hzero) htext (hne l (List.mem_cons_self ..)) rfl] at hrun
      have hin' : ∀ piece ∈ later, piece ∈ pieces := fun piece hpiece =>
        hpieces ▸ List.mem_append_right before (List.mem_cons_of_mem _ hpiece)
      rw [clientReads_of_line hrun, ih (fun piece hpiece => hin piece (hin' piece hpiece))
        (List.cons.inj hlater).2 (fun l' hl' => hne l' (List.mem_cons_of_mem l hl'))
        (fun piece hpiece => hends piece (hin' piece hpiece))]
      rfl

/-- **Which ways of cutting a stream of lines are harmless.**  Take any lines of text of fewer
than 120 bytes, each sent as line `\r\n`, and any way the bytes are cut into the pieces
that successive `read`s find.  The results of `client_read`, one call after the other, are the
lines that were sent exactly when no line is empty and every piece has either no line end
in it or one `\r\n`, with nothing behind it.  And then the client is waiting for the next
line when the pieces are read. -/
theorem clientReads_eq_lines_iff (t : Terminal) (lines : List Line) (pieces : List (List UInt8))
    (hne : ∀ piece ∈ pieces, piece ≠ []) (hsent : pieces.flatten = sentBytes lines) :
    ((clientReads t pieces).1 = lines.map Line.text ↔
        (∀ l ∈ lines, l.text.bytes ≠ []) ∧ ∀ piece ∈ pieces, EndsAtLine piece) ∧
      ((clientReads t pieces).1 = lines.map Line.text →
        (clientReads t pieces).2 = .waiting) := by
  have hin : ∀ piece ∈ pieces, piece ≠ [] ∧ ∀ c ∈ piece, IsPlain c := fun piece hpiece =>
    ⟨hne piece hpiece, fun c hc => isPlain_of_mem_sentBytes lines
      (hsent ▸ List.mem_flatten_of_mem hpiece hc)⟩
  have hmp : (clientReads t pieces).1 = lines.map Line.text →
      (∀ l ∈ lines, l.text.bytes ≠ []) ∧ ∀ piece ∈ pieces, EndsAtLine piece := fun h =>
    (endsAtLine_of_clientReads t hin (hsent ▸ List.suffix_refl _) h).2
  refine ⟨⟨hmp, fun h => ?_⟩, fun h => ?_⟩
  · rw [clientReads_of_endsAtLine t hin hsent h.1 h.2]
  · rw [clientReads_of_endsAtLine t hin hsent (hmp h).1 (hmp h).2]

/-- A line that arrives in two pieces, and one that arrives in one. -/
theorem clientReads_line_in_two_pieces :
    ∃ a b : Line, (clientReads ⟨80, 24⟩ [[97], [13, 10], [98, 13, 10]]).1 =
      [a, b].map Line.text := by
  refine ⟨⟨letter 97, forall_mem_letter (by decide), by decide⟩,
    ⟨letter 98, forall_mem_letter (by decide), by decide⟩, ?_⟩
  refine (clientReads_eq_lines_iff ⟨80, 24⟩ _ _ (by decide) (by decide)).1.mpr ⟨by decide, ?_⟩
  refine List.forall_mem_cons.mpr
    ⟨Or.inl (List.forall_mem_singleton.mpr rfl), List.forall_mem_cons.mpr ⟨?_, ?_⟩⟩
  · exact Or.inr ⟨[], rfl, by simp⟩
  · exact List.forall_mem_singleton.mpr (Or.inr ⟨[98], rfl, List.forall_mem_singleton.mpr rfl⟩)

/-- **Two lines in one piece are one result.** -/
theorem clientReads_loses_line :
    ∃ a b : Line, sentBytes [a, b] = [[97, 13, 10, 98, 13, 10]].flatten ∧
      (clientReads ⟨80, 24⟩ [[97, 13, 10, 98, 13, 10]]).1 ≠ [a, b].map Line.text :=
  ⟨⟨letter 97, forall_mem_letter (by decide), by decide⟩,
    ⟨letter 98, forall_mem_letter (by decide), by decide⟩, by decide, by decide +kernel⟩

end NetCosm
