import NetCosm.Client.Output
import NetCosm.Text.Words
import Mathlib.Data.List.TakeWhile

/-!
# Wrapping ends, and keeps the text

What the loop of `out` does at a width at which it can do anything, and at the others.

## One turn

`TextAt ptr t` says that `t` is the text at `ptr`: there are no zeros in it, and there is one behind
it.  A turn that does not fail either finds the end of the text (`wrapStep_end`), or goes one
character on (`wrapStep_scan`), or breaks the line (`wrapStep_break`).

## Ending

A break at a width of one or more takes at least one character out of the text, so the loop ends
(`wrap_ends`).  At the widths `0` and `65535` a break takes nothing but newlines and spaces, and the
loop does not end when it comes to anything else (`wrap_endless`).  A column that was left by a
terminal that was wider than the present one is more than `line_buf` holds.  `out_returns_iff` is
all of this together.

## Keeping

What is sent and what is still to be looked at are, without spaces, CR and LF, the same before and
after each turn.
-/

namespace NetCosm

/-! ## Text in the buffer -/

/-- The text at `ptr` is `t`. -/
def TextAt (ptr t : List UInt8) : Prop := 0 ∉ t ∧ ∃ k, ptr = t ++ List.replicate (k + 1) 0

variable {ptr t : List UInt8} {w : ℕ}

theorem TextAt.length_lt (h : TextAt ptr t) : t.length < ptr.length := by
  obtain ⟨-, k, rfl⟩ := h
  rw [List.length_append, List.length_replicate]
  omega

theorem TextAt.getElem?_of_lt (h : TextAt ptr t) {i : ℕ} (hi : i < t.length) :
    ptr[i]? = t[i]? := by
  obtain ⟨-, k, rfl⟩ := h
  exact List.getElem?_append_left hi

/-- Behind the text there are zeros. -/
theorem TextAt.getElem?_of_le (h : TextAt ptr t) {i : ℕ} (hi : t.length ≤ i)
    (hlt : i < ptr.length) : ptr[i]? = some 0 := by
  obtain ⟨-, k, rfl⟩ := h
  rw [List.length_append, List.length_replicate] at hlt
  rw [List.getElem?_append_right hi, List.getElem?_replicate, if_pos (by omega)]

theorem TextAt.ne_zero (h : TextAt ptr t) {i : ℕ} {c : UInt8} (hc : t[i]? = some c) : c ≠ 0 := by
  rintro rfl
  exact h.1 (List.mem_of_getElem? hc)

theorem TextAt.takeWhile (h : TextAt ptr t) : ptr.takeWhile (· != 0) = t := by
  obtain ⟨h0, k, rfl⟩ := h
  have hall : ∀ c ∈ t, (c != 0) = true := by
    intro c hc
    rw [bne_iff_ne]
    rintro rfl
    exact h0 hc
  rw [List.takeWhile_append_of_pos hall, List.replicate_succ, List.takeWhile_cons_of_neg (by simp), List.append_nil]

/-- Copying `n` characters of a text that has them. -/
theorem copyLine_append {n : ℕ} (h0 : 0 ∉ t) (hn : n ≤ t.length) (later : List UInt8) :
    copyLine n (t ++ later) = (t.take n, t.drop n ++ later) := by
  induction n generalizing t with
  | zero => rfl
  | succ n ih =>
    cases t with
    | nil => exact absurd hn (by simp)
    | cons c t =>
      rw [List.mem_cons, not_or] at h0
      rw [List.cons_append, copyLine, if_neg (Ne.symm h0.1), ih h0.2 (by simpa using hn)]
      rfl

/-- Skipping spaces stops at the zeros. -/
theorem dropWhile_append_replicate (t : List UInt8) (k : ℕ) :
    (t ++ List.replicate (k + 1) 0).dropWhile (· == SPACE) =
      t.dropWhile (· == SPACE) ++ List.replicate (k + 1) 0 := by
  induction t with
  | nil =>
    rw [List.nil_append, List.replicate_succ, List.dropWhile_cons_of_neg (by decide)]
    rfl
  | cons c t ih =>
    rw [List.cons_append, List.dropWhile_cons, List.dropWhile_cons, ih]
    split
    · rfl
    · rfl

theorem textAt_outBuf (text : CString) : TextAt (outBuf text) (formatted text) := by
  have hlen : (formatted text).length ≤ OUT_SZ - 1 := List.length_take_le _ _
  refine ⟨fun h0 => text.2 (List.mem_of_mem_take h0), OUT_SZ - (formatted text).length - 1, ?_⟩
  have hpos : OUT_SZ - (formatted text).length - 1 + 1 = OUT_SZ - (formatted text).length := by
    unfold OUT_SZ at hlen ⊢
    omega
  rw [outBuf, hpos]

theorem length_outBuf (text : CString) : (outBuf text).length = OUT_SZ := by
  have hlen : (formatted text).length ≤ OUT_SZ - 1 := List.length_take_le _ _
  rw [outBuf, List.length_append, List.length_replicate]
  unfold OUT_SZ at hlen ⊢
  omega

/-! ## One turn -/

variable {s : Wrapping}

/-- The end of the text. -/
theorem wrapStep_end (h : TextAt s.ptr t) (hle : t.length ≤ s.pos) (hlt : s.pos < s.ptr.length) :
    wrapStep w s = .ok none := by
  rw [wrapStep, h.getElem?_of_le hle hlt]
  rfl

/-- A character that is passed. -/
theorem wrapStep_scan (h : TextAt s.ptr t) {c : UInt8} (hc : t[s.pos]? = some c) (hLF : c ≠ LF)
    (hroom : s.pos + 1 < w) :
    wrapStep w s = .ok (some { s with
      pos := s.pos + 1
      lastSpace := if c = SPACE then s.pos else s.lastSpace }) := by
  have hlt := (List.getElem?_eq_some_iff.mp hc).1
  rw [wrapStep, h.getElem?_of_lt hlt, hc]
  dsimp only
  rw [if_neg (h.ne_zero hc), if_neg]
  rintro (hLF' | hle)
  · exact hLF hLF'
  · omega

/-- How many characters are copied when a line is broken at the character `c`. -/
def Wrapping.cut (s : Wrapping) (c : UInt8) : ℕ :=
  if c = LF ∨ s.lastSpace = 0 then s.pos else s.lastSpace

/-- Where the next line begins. -/
def Wrapping.behind (s : Wrapping) (t : List UInt8) (c : UInt8) : List UInt8 :=
  (t.drop (if c = LF then s.cut c + 1 else s.cut c)).dropWhile (· == SPACE)

theorem Wrapping.cut_le (hls : s.lastSpace ≤ s.pos) (c : UInt8) : s.cut c ≤ s.pos := by
  unfold Wrapping.cut
  split
  · exact Nat.le_refl s.pos
  · exact hls

/-- Without a space all that has been looked at is copied. -/
theorem Wrapping.cut_of_zero (hls : s.lastSpace = 0) (c : UInt8) : s.cut c = s.pos :=
  if_pos (Or.inr hls)

/-- **A line is broken.** -/
theorem wrapStep_break (h : TextAt s.ptr t) {c : UInt8} (hc : t[s.pos]? = some c)
    (hbreak : c = LF ∨ w ≤ s.pos + 1) (hls : s.lastSpace ≤ s.pos) :
    if w < s.cut c then wrapStep w s = .error .outOfBounds
    else ∃ ptr', wrapStep w s = .ok (some ⟨ptr', 0, 0, s.sent ++ t.take (s.cut c) ++ [CR, LF]⟩) ∧
      TextAt ptr' (s.behind t c) := by
  have hlt := (List.getElem?_eq_some_iff.mp hc).1
  have hcut := Wrapping.cut_le hls c
  obtain ⟨h0, k, hptr⟩ := id h
  have hcopy : copyLine (s.cut c) s.ptr =
      (t.take (s.cut c), t.drop (s.cut c) ++ List.replicate (k + 1) 0) := by
    rw [hptr]
    exact copyLine_append h0 (by omega) _
  have hlen : (t.take (s.cut c)).length = s.cut c := List.length_take_of_le (by omega)
  have hstep : wrapStep w s =
      if w < s.cut c then .error .outOfBounds
      else .ok (some
        { ptr := (if c = LF then (t.drop (s.cut c) ++ List.replicate (k + 1) 0).tail
            else t.drop (s.cut c) ++ List.replicate (k + 1) 0).dropWhile (· == SPACE)
          pos := 0
          lastSpace := 0
          sent := s.sent ++ t.take (s.cut c) ++ [CR, LF] }) := by
    rw [wrapStep, h.getElem?_of_lt hlt, hc]
    dsimp only
    rw [if_neg (h.ne_zero hc), if_pos hbreak]
    have hfold : (if c = LF ∨ s.lastSpace = 0 then s.pos else s.lastSpace) = s.cut c := rfl
    rw [hfold, hcopy, hlen]
  rw [hstep]
  split
  · rfl
  · refine ⟨_, rfl, ?_, k, ?_⟩
    · intro hmem
      exact h0 (List.mem_of_mem_drop ((List.dropWhile_sublist _).subset hmem))
    · rw [Wrapping.behind, ← dropWhile_append_replicate]
      split
      · rw [List.tail_append_of_ne_nil, List.tail_drop]
        exact fun hnil => absurd (List.drop_eq_nil_iff.mp hnil) (by omega)
      · rfl

/-- **What a turn does**, if it does not end the loop. -/
theorem wrapStep_cases {s' : Wrapping} (h : TextAt s.ptr t) (hls : s.lastSpace ≤ s.pos)
    (hstep : wrapStep w s = .ok (some s')) :
    ∃ c, t[s.pos]? = some c ∧
      ((c = LF ∨ w ≤ s.pos + 1) ∧ TextAt s'.ptr (s.behind t c) ∧ s'.pos = 0 ∧ s'.lastSpace = 0 ∧
          s'.sent = s.sent ++ t.take (s.cut c) ++ [CR, LF] ∨
        c ≠ LF ∧ s.pos + 1 < w ∧ s' = { s with
          pos := s.pos + 1
          lastSpace := if c = SPACE then s.pos else s.lastSpace }) := by
  have hlt : s.pos < t.length := by
    by_contra hle
    rcases Nat.lt_or_ge s.pos s.ptr.length with hlt | hge
    · rw [wrapStep_end h (Nat.le_of_not_lt hle) hlt] at hstep
      exact absurd hstep (by simp)
    · rw [wrapStep, List.getElem?_eq_none hge] at hstep
      exact absurd hstep (by simp)
  have hc : t[s.pos]? = some t[s.pos] := List.getElem?_eq_getElem hlt
  refine ⟨t[s.pos], hc, ?_⟩
  generalize t[s.pos] = c at hc
  by_cases hbreak : c = LF ∨ w ≤ s.pos + 1
  · have hcases := wrapStep_break h hc hbreak hls
    split at hcases
    · rw [hcases] at hstep
      exact absurd hstep (by simp)
    · obtain ⟨ptr', heq, htext⟩ := hcases
      obtain rfl := Option.some.inj (Except.ok.inj (heq.symm.trans hstep))
      exact Or.inl ⟨hbreak, htext, rfl, rfl, rfl⟩
  · rw [not_or] at hbreak
    have hroom : s.pos + 1 < w := Nat.lt_of_not_le hbreak.2
    rw [wrapStep_scan h hc hbreak.1 hroom] at hstep
    exact Or.inr ⟨hbreak.1, hroom, (Option.some.inj (Except.ok.inj hstep)).symm⟩

/-- The loop is over at the end of the text. -/
theorem length_le_of_wrapStep (h : TextAt s.ptr t) (hls : s.lastSpace ≤ s.pos)
    (hstep : wrapStep w s = .ok none) : t.length ≤ s.pos := by
  by_contra hlt
  obtain ⟨c, hc⟩ : ∃ c, t[s.pos]? = some c := ⟨_, List.getElem?_eq_getElem (Nat.lt_of_not_le hlt)⟩
  by_cases hbreak : c = LF ∨ w ≤ s.pos + 1
  · have hcases := wrapStep_break h hc hbreak hls
    split at hcases
    · exact absurd (hcases.symm.trans hstep) (by simp)
    · obtain ⟨ptr', heq, -⟩ := hcases
      exact absurd (heq.symm.trans hstep) (by simp)
  · rw [not_or] at hbreak
    exact absurd ((wrapStep_scan h hc hbreak.1 (Nat.lt_of_not_le hbreak.2)).symm.trans hstep)
      (by simp)

/-! ## Ending -/

/-- Newlines and spaces. -/
def Blank (t : List UInt8) : Prop := ∀ c ∈ t, c = LF ∨ c = SPACE

instance (t : List UInt8) : Decidable (Blank t) := inferInstanceAs (Decidable (∀ c ∈ t, _))

/-- What holds in front of every turn of a loop that ends.  Where lines have no room, what has not
been looked at is blank. -/
structure Wraps (w : ℕ) (s : Wrapping) (t : List UInt8) : Prop where
  text : TextAt s.ptr t
  length_lt : t.length < OUT_SZ
  pos_lt : s.pos < s.ptr.length
  pos_lt_size : s.pos < OUT_SZ
  pos_le : t.length ≤ s.pos ∨ s.pos ≤ w
  lastSpace_le : s.lastSpace ≤ s.pos
  room : 2 ≤ w ∨ s.lastSpace = 0 ∧ Blank (t.drop s.pos)

/-- The text that is left, and how much of it has been looked at. -/
def Wrapping.remaining (s : Wrapping) : ℕ :=
  (s.ptr.takeWhile (· != 0)).length * OUT_SZ + (OUT_SZ - 1 - s.pos)

/-- The next line begins behind where this one began, if anything is taken out of the text. -/
theorem length_behind_lt {c : UInt8} (hc : t[s.pos]? = some c)
    (h : c = LF ∨ 0 < s.cut c ∨ c = SPACE) : (s.behind t c).length < t.length := by
  have hlt := (List.getElem?_eq_some_iff.mp hc).1
  have hle := (List.dropWhile_sublist (· == SPACE)
    (l := t.drop (if c = LF then s.cut c + 1 else s.cut c))).length_le
  rw [List.length_drop] at hle
  by_cases hpos : 0 < if c = LF then s.cut c + 1 else s.cut c
  · rw [Wrapping.behind]
    omega
  · have hLF : c ≠ LF := by
      intro hLF
      rw [if_pos hLF] at hpos
      omega
    rw [if_neg hLF] at hpos
    have hSPACE : c = SPACE := by
      rcases h with h | h | h
      · exact absurd h hLF
      · exact absurd h hpos
      · exact h
    have hzero : s.pos = 0 := by
      unfold Wrapping.cut at hpos
      split at hpos
      · omega
      · omega
    rw [hzero] at hc
    rw [Wrapping.behind, if_neg hLF, Nat.eq_zero_of_not_pos hpos, List.drop_zero]
    cases t with
    | nil => exact absurd hc (by simp)
    | cons d t =>
      obtain rfl : d = c := Option.some.inj hc
      rw [List.dropWhile_cons_of_pos (by rw [hSPACE]; rfl), List.length_cons]
      exact Nat.lt_succ_of_le (List.dropWhile_sublist _).length_le

/-- A break where lines have room, or what follows is blank, takes something out of the text. -/
theorem Wraps.advances (h : Wraps w s t) {c : UInt8} (hc : t[s.pos]? = some c)
    (hbreak : c = LF ∨ w ≤ s.pos + 1) : c = LF ∨ 0 < s.cut c ∨ c = SPACE := by
  rcases h.room with hroom | ⟨-, hblank⟩
  · by_cases hLF : c = LF
    · exact Or.inl hLF
    · refine Or.inr (Or.inl ?_)
      have hpos := hbreak.resolve_left hLF
      unfold Wrapping.cut
      split
      · omega
      · rename_i hspace
        rw [not_or] at hspace
        omega
  · have hmem : c ∈ t.drop s.pos := by
      refine List.mem_of_getElem? (i := 0) ?_
      rwa [List.getElem?_drop, Nat.add_zero]
    exact (hblank c hmem).imp_right Or.inr

/-- Behind the break everything is blank, if it was before. -/
theorem Wraps.room_behind (h : Wraps w s t) (c : UInt8) :
    2 ≤ w ∨ 0 = 0 ∧ Blank ((s.behind t c).drop 0) := by
  refine h.room.imp_right fun ⟨hls, hblank⟩ => ⟨rfl, fun d hd => ?_⟩
  have hcut := Wrapping.cut_of_zero hls c
  rw [List.drop_zero, Wrapping.behind, hcut] at hd
  have hd' := (List.dropWhile_sublist _).subset hd
  refine hblank d ?_
  split at hd'
  · rw [← List.drop_drop] at hd'
    exact List.mem_of_mem_drop hd'
  · exact hd'

/-- What is seen of a text: all but spaces, CR and LF. -/
def inked (l : List UInt8) : List UInt8 := l.filter fun c => c != SPACE && c != CR && c != LF

theorem inked_append (l l' : List UInt8) : inked (l ++ l') = inked l ++ inked l' :=
  List.filter_append ..

/-- Skipping spaces skips nothing that is seen. -/
theorem inked_dropWhile (l : List UInt8) : inked (l.dropWhile (· == SPACE)) = inked l := by
  have hspaces : inked (l.takeWhile (· == SPACE)) = [] := by
    refine List.filter_eq_nil_iff.mpr fun c hc => ?_
    rw [eq_of_beq (List.mem_takeWhile_imp (p := (· == SPACE)) hc)]
    decide
  rw [← List.nil_append (inked (l.dropWhile _)), ← hspaces, ← inked_append,
    List.takeWhile_append_dropWhile]

/-- **A break keeps what is seen of the text.** -/
theorem inked_behind {c : UInt8} (hc : t[s.pos]? = some c) :
    inked (t.take (s.cut c) ++ [CR, LF] ++ s.behind t c) = inked t := by
  have hCRLF : inked [CR, LF] = [] := by decide
  rw [inked_append, inked_append, hCRLF, List.append_nil, Wrapping.behind, inked_dropWhile,
    ← inked_append]
  split
  · rename_i hLF
    have hcut : s.cut c = s.pos := if_pos (Or.inl hLF)
    obtain ⟨hlt, hget⟩ := List.getElem?_eq_some_iff.mp hc
    have hnewline : inked [t[s.pos]] = [] := by
      rw [hget, hLF]
      decide
    calc inked (t.take (s.cut c) ++ t.drop (s.cut c + 1))
        = inked (t.take s.pos) ++ (inked [t[s.pos]] ++ inked (t.drop (s.pos + 1))) := by
          rw [hcut, inked_append, hnewline, List.nil_append]
      _ = inked (t.take s.pos ++ t.drop s.pos) := by
          rw [← inked_append, ← inked_append, List.singleton_append, ← List.drop_eq_getElem_cons hlt]
      _ = inked t := by rw [List.take_append_drop]
  · rw [List.take_append_drop]

/-- **One turn of a loop that ends.** -/
theorem wrapStep_wraps (h : Wraps w s t) :
    ∃ r, wrapStep w s = .ok r ∧
      ∀ s', r = some s' → ∃ t', Wraps w s' t' ∧ s'.pos ≤ w ∧
        inked (s'.sent ++ t') = inked (s.sent ++ t) ∧ s'.remaining < s.remaining := by
  have hlen := h.length_lt
  have hrem : s.remaining = t.length * OUT_SZ + (OUT_SZ - 1 - s.pos) := by
    rw [Wrapping.remaining, h.text.takeWhile]
  rcases Nat.lt_or_ge s.pos t.length with hlt | hle
  · have hc : t[s.pos]? = some t[s.pos] := List.getElem?_eq_getElem hlt
    have hpw : s.pos ≤ w := h.pos_le.resolve_left (by omega)
    generalize t[s.pos] = c at hc
    by_cases hbreak : c = LF ∨ w ≤ s.pos + 1
    · have hcut := Wrapping.cut_le h.lastSpace_le c
      have hstep := wrapStep_break h.text hc hbreak h.lastSpace_le
      rw [if_neg (by omega)] at hstep
      obtain ⟨ptr', hstep, htext⟩ := hstep
      have hshort := length_behind_lt hc (h.advances hc hbreak)
      refine ⟨_, hstep, ?_⟩
      rintro s' hs'
      obtain rfl := Option.some.inj hs'
      refine ⟨s.behind t c, ⟨htext, hshort.trans hlen, Nat.zero_lt_of_lt htext.length_lt,
        show 0 < OUT_SZ by decide, Or.inr (Nat.zero_le w), Nat.le_refl 0, h.room_behind c⟩,
        Nat.zero_le w, ?_, ?_⟩
      · rw [List.append_assoc, List.append_assoc, ← List.append_assoc (t.take (s.cut c)),
          inked_append, inked_behind hc, ← inked_append]
      · rw [hrem, Wrapping.remaining]
        dsimp only
        rw [htext.takeWhile]
        unfold OUT_SZ
        omega
    · rw [not_or] at hbreak
      have hroom : s.pos + 1 < w := by omega
      refine ⟨_, wrapStep_scan h.text hc hbreak.1 hroom, ?_⟩
      rintro s' hs'
      obtain rfl := Option.some.inj hs'
      have hptr := h.text.length_lt
      refine ⟨t, ⟨h.text, hlen, Nat.lt_of_le_of_lt hlt hptr, Nat.lt_of_le_of_lt hlt hlen,
        Or.inr (Nat.le_of_lt hroom), ?_, Or.inl (by omega)⟩, Nat.le_of_lt hroom, rfl, ?_⟩
      · have hls := h.lastSpace_le
        dsimp only
        split
        · omega
        · omega
      · rw [hrem, Wrapping.remaining]
        dsimp only
        rw [h.text.takeWhile]
        unfold OUT_SZ at hlen ⊢
        omega
  · exact ⟨none, wrapStep_end h.text hle h.pos_lt, fun s' hs' => absurd hs' (by simp)⟩

/-- What the loop of `out` starts from. -/
theorem wraps_start {pos : ℕ} {text : CString} (hpos : pos < OUT_SZ)
    (hle : (formatted text).length ≤ pos ∨ pos ≤ w)
    (hroom : 2 ≤ w ∨ Blank ((formatted text).drop pos)) :
    Wraps w (.start pos text) (formatted text) where
  text := textAt_outBuf text
  length_lt := by
    have hlen : (formatted text).length ≤ OUT_SZ - 1 := List.length_take_le _ _
    unfold OUT_SZ at hlen ⊢
    omega
  pos_lt := by
    show pos < (outBuf text).length
    rwa [length_outBuf]
  pos_lt_size := hpos
  pos_le := hle
  lastSpace_le := Nat.zero_le pos
  room := hroom.imp_right fun h => ⟨rfl, h⟩

/-- **The loop ends**, and keeps the text. -/
theorem wrap_ends (h : Wraps w s t) {n : ℕ} (hn : s.remaining < n) :
    ∃ s' t', loop (wrapStep w) .endlessLoop n s = .ok s' ∧ Wraps w s' t' ∧
      (s'.pos = s.pos ∨ s'.pos ≤ w) ∧ inked (s'.sent ++ t') = inked (s.sent ++ t) := by
  have hbody : ∀ s₁, (∃ t₁, Wraps w s₁ t₁ ∧ (s₁.pos = s.pos ∨ s₁.pos ≤ w) ∧
        inked (s₁.sent ++ t₁) = inked (s.sent ++ t)) →
      ∃ r, wrapStep w s₁ = .ok r ∧ ∀ s₂, r = some s₂ →
        (∃ t₂, Wraps w s₂ t₂ ∧ (s₂.pos = s.pos ∨ s₂.pos ≤ w) ∧
          inked (s₂.sent ++ t₂) = inked (s.sent ++ t)) ∧ s₂.remaining < s₁.remaining := by
    rintro s₁ ⟨t₁, hw, -, hink⟩
    obtain ⟨r, hstep, hr⟩ := wrapStep_wraps hw
    refine ⟨r, hstep, fun s₂ hs₂ => ?_⟩
    obtain ⟨t₂, hw₂, hpos₂, hink₂, hlt⟩ := hr s₂ hs₂
    exact ⟨⟨t₂, hw₂, Or.inr hpos₂, hink₂.trans hink⟩, hlt⟩
  obtain ⟨s', hloop, ⟨t', hw, hpos, hink⟩, -⟩ := loop_ends hbody ⟨t, h, Or.inl rfl, rfl⟩ hn
  exact ⟨s', t', hloop, hw, hpos, hink⟩

theorem remaining_start_lt {pos : ℕ} (text : CString) :
    (Wrapping.start pos text).remaining < wrapTurns := by
  have hlen : (formatted text).length ≤ OUT_SZ - 1 := List.length_take_le _ _
  have htext : TextAt (Wrapping.start pos text).ptr (formatted text) := textAt_outBuf text
  rw [Wrapping.remaining, htext.takeWhile]
  unfold wrapTurns OUT_SZ at *
  omega

/-- What holds in front of every turn of a loop that does not end: there is no room, and something
that is not blank is still to come. -/
structure Stuck (w : ℕ) (s : Wrapping) (t : List UInt8) : Prop where
  text : TextAt s.ptr t
  pos_le : s.pos ≤ w
  lastSpace : s.lastSpace = 0
  noRoom : w ≤ 1
  blocked : ¬ Blank (t.drop s.pos)

/-- **One turn of a loop that does not end.** -/
theorem wrapStep_stuck (h : Stuck w s t) :
    ∃ s', wrapStep w s = .ok (some s') ∧ ∃ t', Stuck w s' t' := by
  obtain ⟨d, hd, hdLF, hdSPACE⟩ : ∃ d ∈ t.drop s.pos, d ≠ LF ∧ d ≠ SPACE := by
    have hblocked := h.blocked
    unfold Blank at hblocked
    push Not at hblocked
    exact hblocked
  have hlt : s.pos < t.length := by
    have hpos := List.length_pos_of_mem hd
    rw [List.length_drop] at hpos
    omega
  have hc : t[s.pos]? = some t[s.pos] := List.getElem?_eq_getElem hlt
  generalize t[s.pos] = c at hc
  have hnoRoom := h.noRoom
  have hcut := Wrapping.cut_of_zero h.lastSpace c
  have hstep := wrapStep_break h.text hc (w := w) (Or.inr (by omega)) (by rw [h.lastSpace]; omega)
  rw [if_neg (by rw [hcut]; exact Nat.not_lt_of_le h.pos_le)] at hstep
  obtain ⟨ptr', hstep, htext⟩ := hstep
  refine ⟨_, hstep, s.behind t c, htext, Nat.zero_le w, rfl, hnoRoom, fun hblank => ?_⟩
  have hbehind : d ∈ t.drop (if c = LF then s.pos + 1 else s.pos) := by
    split
    · rename_i hLF
      rw [List.drop_eq_getElem_cons hlt] at hd
      rcases List.mem_cons.mp hd with hdc | hd
      · rw [List.getElem?_eq_getElem hlt] at hc
        exact absurd (hdc.trans ((Option.some.inj hc).trans hLF)) hdLF
      · exact hd
    · exact hd
  have hkept : d ∈ s.behind t c := by
    rw [Wrapping.behind, hcut]
    rw [← List.takeWhile_append_dropWhile (p := (· == SPACE))
      (l := t.drop (if c = LF then s.pos + 1 else s.pos)), List.mem_append] at hbehind
    refine hbehind.resolve_left fun htake => hdSPACE ?_
    exact eq_of_beq (List.mem_takeWhile_imp (p := (· == SPACE)) htake)
  rcases hblank d hkept with hd' | hd'
  · exact hdLF hd'
  · exact hdSPACE hd'

/-! ## Calls -/

/-- **The calls that return.**  There is nothing to look at behind the column that was left; or that
column is within the line, and lines have room or what is to be looked at is blank. -/
def Contained (s : Screen) (a : OutCall) : Prop :=
  (formatted a.text).length ≤ s.pos ∨
    s.pos ≤ lineWidth a.termWidth ∧
      (2 ≤ lineWidth a.termWidth ∨ Blank ((formatted a.text).drop s.pos))

instance (s : Screen) (a : OutCall) : Decidable (Contained s a) :=
  inferInstanceAs (Decidable (_ ∨ _))

/-- If a call is not of these, its loop fails, however many turns it is given. -/
theorem not_contained {s : Screen} {a : OutCall} (h : ¬ Contained s a) (n : ℕ) :
    ∃ e, loop (wrapStep (lineWidth a.termWidth)) .endlessLoop n (.start s.pos a.text) =
      .error e := by
  have htext : TextAt (Wrapping.start s.pos a.text).ptr (formatted a.text) := textAt_outBuf a.text
  rw [Contained, not_or] at h
  obtain ⟨hlt, h⟩ := h
  have hlt := Nat.lt_of_not_le hlt
  have hc : (formatted a.text)[s.pos]? = some (formatted a.text)[s.pos] :=
    List.getElem?_eq_getElem hlt
  rcases Nat.lt_or_ge (lineWidth a.termWidth) s.pos with hover | hle
  · -- the first line does not fit in `line_buf`
    cases n with
    | zero => exact ⟨_, rfl⟩
    | succ n =>
      have hstep := wrapStep_break htext hc (w := lineWidth a.termWidth) (Or.inr (by
        show lineWidth a.termWidth ≤ s.pos + 1
        omega)) (Nat.zero_le s.pos)
      rw [Wrapping.cut_of_zero rfl] at hstep
      have hstep := (if_pos hover).mp hstep
      exact ⟨_, loop_succ_error hstep n⟩
  · rw [not_and, not_or] at h
    obtain ⟨hnoRoom, hblocked⟩ := h hle
    exact ⟨_, loop_endless (J := fun w => ∃ t, Stuck (lineWidth a.termWidth) w t)
      (fun w ⟨t, hw⟩ => wrapStep_stuck hw) ⟨_, htext, hle, rfl, by omega, hblocked⟩ n⟩

/-- **A call that returns** leaves a column within the buffer, no further than the line is wide
unless it was so before, and sends the text. -/
theorem out_of_contained {s : Screen} {a : OutCall} (hpos : s.pos < OUT_SZ)
    (h : Contained s a) :
    ∃ s', out s a = .ok s' ∧ s'.pos < OUT_SZ ∧
      (s'.pos = s.pos ∨ s'.pos ≤ lineWidth a.termWidth) ∧
      inked s'.sent = inked (s.sent ++ formatted a.text) := by
  have hwraps : Wraps (lineWidth a.termWidth) (.start s.pos a.text) (formatted a.text) := by
    rcases h with hle | ⟨hle, hroom⟩
    · refine wraps_start hpos (Or.inl hle) (Or.inr ?_)
      rw [List.drop_eq_nil_of_le hle]
      exact fun c hc => absurd hc List.not_mem_nil
    · exact wraps_start hpos (Or.inr hle) hroom
  obtain ⟨w, t, hloop, hw, hle, hink⟩ := wrap_ends hwraps (remaining_start_lt a.text)
  refine ⟨⟨w.pos, s.sent ++ (w.sent ++ w.ptr.takeWhile (· != 0))⟩, ?_, hw.pos_lt_size, hle, ?_⟩
  · rw [out, hloop]
    rfl
  · dsimp only
    rw [hw.text.takeWhile, inked_append, hink, ← inked_append]
    rfl

theorem out_returns_iff {s : Screen} (hpos : s.pos < OUT_SZ) (a : OutCall) :
    (∃ s', out s a = .ok s') ↔ Contained s a := by
  refine ⟨fun ⟨s', hout⟩ => ?_, fun h => ?_⟩
  · by_contra h
    obtain ⟨e, he⟩ := not_contained h wrapTurns
    rw [out, he] at hout
    exact absurd hout (by simp [Except.map])
  · obtain ⟨s', hout, -⟩ := out_of_contained hpos h
    exact ⟨s', hout⟩

/-- The column is always within the buffer. -/
theorem pos_lt_of_out {s s' : Screen} {a : OutCall} (hpos : s.pos < OUT_SZ)
    (h : out s a = .ok s') : s'.pos < OUT_SZ := by
  obtain ⟨s'', hout, hlt, -⟩ := out_of_contained hpos ((out_returns_iff hpos a).mp ⟨s', h⟩)
  exact Except.ok.inj (hout.symm.trans h) ▸ hlt

/-- **Wrapping ends and stays in its buffer exactly as long as every call is `Contained`.**  In a
call that is not, the loop fails however many turns it is given. -/
theorem out_run_returns_iff (calls : List OutCall) :
    ((∃ s, Runs.run out .init calls = .ok s) ↔ Runs.EachStep out Contained .init calls) ∧
      ∀ s a, ¬ Contained s a → ∀ n, ∃ e,
        loop (wrapStep (lineWidth a.termWidth)) .endlessLoop n (.start s.pos a.text) = .error e :=
  ⟨Runs.run_returns_iff (I := fun s => s.pos < OUT_SZ) (fun _ _ _ => pos_lt_of_out)
    (fun _ a hs => out_returns_iff hs a) (by decide), fun _ _ => not_contained⟩

/-- A prompt, the terminal shrinks to three columns, and another prompt; and a terminal that says it
is `0` columns wide. -/
theorem out_overflows :
    Runs.run out .init [⟨80, .ofChars "login: ".toList⟩, ⟨3, .ofChars "Password: ".toList⟩] =
        .error .outOfBounds ∧
      ¬ ∃ n s, loop (wrapStep (lineWidth 0)) .endlessLoop n (.start 0 (.ofChars "a".toList)) =
        .ok s := by
  refine ⟨by decide +kernel, ?_⟩
  rintro ⟨n, s, hok⟩
  obtain ⟨e, he⟩ := not_contained (s := .init) (a := ⟨0, .ofChars "a".toList⟩) (by decide) n
  exact absurd (hok.symm.trans he) (by simp)

/-! ## Nothing is lost -/

/-- **Any number of calls at one width**, at which lines have room. -/
theorem out_run_keeps {W : UInt16} (hW : 2 ≤ lineWidth W) (texts : List CString) {s : Screen}
    (hpos : s.pos < OUT_SZ) (hle : s.pos ≤ lineWidth W) :
    ∃ s', Runs.run out s (texts.map (⟨W, ·⟩)) = .ok s' ∧
      inked s'.sent = inked (s.sent ++ texts.flatMap formatted) := by
  induction texts generalizing s with
  | nil => exact ⟨s, rfl, by rw [List.flatMap_nil, List.append_nil]⟩
  | cons text texts ih =>
    obtain ⟨s₁, hout, hpos₁, hle₁, hink₁⟩ :=
      out_of_contained (a := ⟨W, text⟩) hpos (Or.inr ⟨hle, Or.inl hW⟩)
    obtain ⟨s', hrun, hink⟩ := ih hpos₁ (hle₁.elim (fun heq => heq ▸ hle) id)
    refine ⟨s', ?_, ?_⟩
    · rw [List.map_cons, Runs.run_cons_ok hout, hrun]
    · rw [hink, inked_append, hink₁, ← inked_append, List.flatMap_cons, List.append_assoc]

theorem formatted_of_length_le {text : CString} (h : text.length ≤ 1023) :
    formatted text = text.bytes := List.take_of_length_le h

/-- **Wrapping loses no text.** -/
theorem out_run_inked {W : UInt16} (hW : 1 ≤ W.toNat) (hW' : W.toNat ≤ 1000)
    {texts : List CString} (htexts : ∀ text ∈ texts, text.length ≤ 1023) :
    ∃ s, Runs.run out .init (texts.map (⟨W, ·⟩)) = .ok s ∧
      inked s.sent = inked (texts.flatMap fun text => text.bytes) := by
  have hwidth : lineWidth W = W.toNat + 1 := by
    rw [lineWidth, UInt16.toNat_add]
    exact Nat.mod_eq_of_lt (by
      show W.toNat + 1 < 2 ^ 16
      omega)
  obtain ⟨s, hrun, hink⟩ := out_run_keeps (W := W) (s := .init) (by omega) texts (by decide)
    (Nat.zero_le _)
  refine ⟨s, hrun, ?_⟩
  have hbytes : texts.flatMap formatted = texts.flatMap fun text => text.bytes :=
    List.flatMap_congr fun text htext => formatted_of_length_le (htexts text htext)
  rw [hink, hbytes]
  rfl

/-- A prompt, and a line that has to be wrapped at ten columns. -/
theorem out_run_inked_ten :
    ∃ s, Runs.run out .init
        ([CString.ofChars ">> ".toList, CString.ofChars "You are in a dark cave.".toList].map
          (⟨10, ·⟩)) = .ok s ∧
      inked s.sent = inked ([CString.ofChars ">> ".toList,
        CString.ofChars "You are in a dark cave.".toList].flatMap fun text => text.bytes) :=
  out_run_inked (by decide) (by decide) (by decide)

end NetCosm
