import NetCosm.Text.CString

/-!
# Words of a line

What a client types is cut into words by `strtok_r`, and the words are compared after
`all_upper` or `all_lower`.  A string literal of the source is `ofChars` of its characters.

`strtok_r` returns a token and remembers where to go on; here the rest of the line is
returned with the token.  Between the two it overwrites the delimiter, so one delimiter is
lost.  With no delimiters at all it returns the rest of the line, if there is one.

`remove_cruft` uses it to cut a line at its end.  It skips leading delimiters without removing them, so a
line that begins with a line end keeps it (`removeCruft_isLine_iff`).
-/

namespace NetCosm

namespace CString

/-- A string with some of its bytes left out. -/
def drop (n : ℕ) (s : CString) : CString := ⟨s.bytes.drop n, fun h => s.2 (List.mem_of_mem_drop h)⟩

/-- A string from the first byte on that is not in a class. -/
def dropWhile (p : UInt8 → Bool) (s : CString) : CString :=
  ⟨s.bytes.dropWhile p, fun h => s.2 ((List.dropWhile_sublist p).mem h)⟩

/-- A literal. -/
def ofChars (l : List Char) : CString :=
  ⟨(l.map fun c => c.toNat.toUInt8).filter fun c => c ≠ 0, by simp⟩

/-- One string after the other. -/
def append (s t : CString) : CString := ⟨s.bytes ++ t.bytes, by
  rw [List.mem_append]
  rintro (h | h)
  · exact s.2 h
  · exact t.2 h⟩

end CString

/-- `WSPACE`. -/
def isWspace (c : UInt8) : Bool := c == 32 || c == 9 || c == 13 || c == 10

/-- `strtok_r` with the delimiters of a class: the token, and what is left of the line. -/
def strtok (delim : UInt8 → Bool) (s : CString) : Option (CString × CString) :=
  let s := s.dropWhile delim
  if s.bytes = [] then none
  else
    let tok := s.takeWhile fun c => !delim c
    some (tok, s.drop (tok.length + 1))

/-- `toupper`, on a byte. -/
def upper (c : UInt8) : UInt8 := if 97 ≤ c ∧ c ≤ 122 then c - 32 else c

/-- No byte is raised to the terminator. -/
theorem upper_ne_zero {c : UInt8} (h : c ≠ 0) : upper c ≠ 0 := by
  unfold upper
  split
  · rename_i hc
    have h1 := UInt8.le_iff_toNat_le.mp hc.1
    intro h0
    have h3 : (c - 32).toNat = 0 := by rw [h0]; rfl
    rw [UInt8.toNat_sub_of_le _ _ (UInt8.le_iff_toNat_le.mpr (by simp at h1 ⊢; omega))] at h3
    simp at h1 h3
    omega
  · exact h

/-- Every byte of a string is changed, and none to the terminator. -/
def mapString (f : UInt8 → UInt8) (hf : ∀ {c}, c ≠ 0 → f c ≠ 0) (s : CString) : CString :=
  ⟨s.bytes.map f, fun h => by
    obtain ⟨c, hc, h0⟩ := List.mem_map.mp h
    exact hf (fun hz => s.2 (show (0 : UInt8) ∈ s.bytes from hz ▸ hc)) h0⟩

/-- `all_upper`. -/
def allUpper (s : CString) : CString := mapString upper upper_ne_zero s

/-- `all_lower`. -/
def allLower (s : CString) : CString := mapString lower lower_ne_zero s

/-- The value of a digit or letter, in bases up to 36. -/
def digitOf (c : UInt8) : ℕ :=
  if 48 ≤ c ∧ c ≤ 57 then c.toNat - 48
  else if 97 ≤ lower c ∧ lower c ≤ 122 then (lower c).toNat - 87
  else 36

/-- `strtol(s, &end, 0)`: the number, and the bytes `end` points at.  The result is kept
between the bounds of a `long`. -/
def strtol (s : List UInt8) : ℤ × List UInt8 :=
  let t := s.dropWhile fun c => isWspace c || c == 11 || c == 12
  let (negative, t) := match t with
    | 45 :: t => (true, t)
    | 43 :: t => (false, t)
    | t => (false, t)
  let (base, t) := match t with
    | 48 :: x :: d :: t =>
        if lower x = 120 ∧ digitOf d < 16 then (16, d :: t) else (8, 48 :: x :: d :: t)
    | 48 :: t => (8, 48 :: t)
    | t => (10, t)
  let digits := t.takeWhile fun c => digitOf c < base
  if digits = [] then (0, s)
  else
    let n : ℤ := digits.foldl (fun n c => n * base + digitOf c) 0
    let n := if negative then -n else n
    (max (-2 ^ 63) (min (2 ^ 63 - 1) n), t.drop digits.length)

/-! ## Line ends -/

/-- **What `remove_cruft` does with the token.**  `strtok_r` puts a terminator behind it and leaves alone
what is in front of it; without a token it leaves the string as it is. -/
theorem removeCruft_eq_strtok (s : CString) :
    removeCruft s = ((strtok isCruft s).map fun r => (s.takeWhile isCruft).append r.1).getD s := by
  refine CString.ext ?_
  have hsplit := List.takeWhile_append_dropWhile (p := isCruft) (l := s.bytes)
  unfold strtok
  dsimp only
  split
  · rename_i hnil
    have hdrop : s.bytes.dropWhile isCruft = [] := hnil
    show s.bytes.takeWhile isCruft ++ (s.bytes.dropWhile isCruft).takeWhile _ = s.bytes
    rw [hdrop, List.takeWhile_nil, ← hdrop, hsplit]
  · rfl

/-- `r` is the longest prefix of `s` without a line end. -/
structure IsLine (s r : CString) : Prop where
  isPrefix : r.bytes <+: s.bytes
  clean : ∀ c ∈ r.bytes, isCruft c = false
  longest : ∀ p, p <+: s.bytes → (∀ c ∈ p, isCruft c = false) → p.length ≤ r.bytes.length

/-- A prefix all of whose bytes are of a class is no longer than the longest one. -/
theorem length_le_takeWhile {α : Type*} {f : α → Bool} {p l : List α} (hp : p <+: l)
    (hf : ∀ a ∈ p, f a = true) : p.length ≤ (l.takeWhile f).length := by
  obtain ⟨t, rfl⟩ := hp
  rw [List.takeWhile_append_of_pos hf, List.length_append]
  exact Nat.le_add_right _ _

/-- The longest prefix without a line end is what comes before the first one. -/
theorem isLine_iff {s r : CString} : IsLine s r ↔ r = s.takeWhile fun c => !isCruft c := by
  have hclean : ∀ {p : List UInt8}, (∀ c ∈ p, isCruft c = false) → ∀ c ∈ p, (!isCruft c) = true :=
    fun hp c hc => by rw [hp c hc, Bool.not_false]
  have hlead : (s.bytes.takeWhile fun c => !isCruft c) <+: s.bytes := List.takeWhile_prefix _
  have hall : ∀ c ∈ s.bytes.takeWhile fun c => !isCruft c, isCruft c = false := fun c hc => by
    simpa using List.all_eq_true.mp List.all_takeWhile c hc
  constructor
  · intro h
    refine CString.ext ?_
    have hle := length_le_takeWhile h.isPrefix (hclean h.clean)
    have hge := h.longest _ hlead hall
    exact (List.prefix_of_prefix_length_le h.isPrefix hlead hle).eq_of_length
      (Nat.le_antisymm hle hge)
  · rintro rfl
    exact ⟨hlead, hall, fun p hp hc => length_le_takeWhile hp (hclean hc)⟩

/-- `\n`. -/
def lf : CString := letter 10

/-- `\r\n`. -/
def crlf : CString := (letter 13).append (letter 10)

/-- A string that does not begin with a line end is cut at the first one. -/
theorem removeCruft_of_head {s : CString} (h : ∀ c ∈ s.bytes.head?, isCruft c = false) :
    removeCruft s = s.takeWhile fun c => !isCruft c := by
  have hlead : s.bytes.takeWhile isCruft = [] := by
    cases hs : s.bytes with
    | nil => rfl
    | cons c rest =>
      rw [hs] at h
      rw [List.takeWhile_cons_of_neg (by rw [h c rfl]; exact Bool.false_ne_true)]
  have hsplit := List.takeWhile_append_dropWhile (p := isCruft) (l := s.bytes)
  rw [hlead, List.nil_append] at hsplit
  refine CString.ext ?_
  show s.bytes.takeWhile isCruft ++ (s.bytes.dropWhile isCruft).takeWhile _ = s.bytes.takeWhile _
  rw [hlead, hsplit, List.nil_append]

/-- **Line ends are stripped** exactly from the strings that do not begin with one; and a text that is
ended by `\n` gives what it gives when it is ended by `\r\n` unless there is no text. -/
theorem removeCruft_isLine_iff (s : CString) :
    (IsLine s (removeCruft s) ↔ ∀ c ∈ s.bytes.head?, isCruft c = false) ∧
      ((∀ c ∈ s.bytes, isCruft c = false) →
        (removeCruft (s.append lf) = removeCruft (s.append crlf) ↔ s.bytes ≠ [])) := by
  refine ⟨⟨fun h c hc => ?_, fun h => ?_⟩, fun ht => ⟨fun h hnil => ?_, fun hne => ?_⟩⟩
  · -- a leading line end is still there afterwards
    by_contra hcruft
    rw [Bool.not_eq_false] at hcruft
    refine absurd (h.clean c ?_) (by simp [hcruft])
    show c ∈ s.bytes.takeWhile isCruft ++ _
    cases hs : s.bytes with
    | nil => rw [hs] at hc; exact absurd hc (by simp)
    | cons d rest =>
      rw [hs] at hc
      obtain rfl := Option.some.inj hc
      rw [List.takeWhile_cons_of_pos hcruft]
      exact List.mem_cons_self ..
  · exact isLine_iff.mpr (removeCruft_of_head h)
  · obtain rfl : s = default := CString.ext hnil
    exact absurd h (by decide)
  · have hhead : ∀ e : CString, ∀ c ∈ (s.append e).bytes.head?, isCruft c = false := by
      intro e c hc
      obtain ⟨b, rest, hb⟩ := List.exists_cons_of_ne_nil hne
      have hbytes : (s.append e).bytes = b :: (rest ++ e.bytes) := by
        show s.bytes ++ e.bytes = _
        rw [hb, List.cons_append]
      rw [hbytes] at hc
      obtain rfl := Option.some.inj hc
      exact ht _ (hb ▸ List.mem_cons_self ..)
    have hcut : ∀ (e : CString) (b : UInt8) (rest : List UInt8), e.bytes = b :: rest →
        isCruft b = true → removeCruft (s.append e) = s := by
      intro e b rest he hb
      rw [removeCruft_of_head (hhead e)]
      refine CString.ext ?_
      show (s.bytes ++ e.bytes).takeWhile _ = s.bytes
      rw [List.takeWhile_append_of_pos (by simpa using ht), he,
        List.takeWhile_cons_of_neg (by simp [hb]), List.append_nil]
    rw [hcut lf 10 [] rfl rfl, hcut crlf 13 [10] rfl rfl]

/-- A name that was typed at the terminal of the server, and one that came from a client. -/
theorem removeCruft_isLine_admin :
    removeCruft ((CString.ofChars "admin".toList).append lf) =
        removeCruft ((CString.ofChars "admin".toList).append crlf) ↔
      (CString.ofChars "admin".toList).bytes ≠ [] :=
  (removeCruft_isLine_iff (.ofChars "admin".toList)).2 (by decide +kernel)

/-- An empty line stays what it is. -/
theorem empty_line_keeps_its_end :
    ¬ (∀ s, IsLine s (removeCruft s)) ∧ removeCruft lf = lf ∧ removeCruft lf ≠ removeCruft crlf := by
  refine ⟨fun h => ?_, by decide, by decide⟩
  exact absurd ((h lf).clean 10 (by decide)) (by decide)

end NetCosm
