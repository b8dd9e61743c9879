import Mathlib.Data.List.Basic
import Mathlib.Data.List.TakeDrop
import Mathlib.Data.UInt
import Mathlib.Tactic

/-!
# C strings, and the functions keys are hashed and compared by

A C string is a list of bytes with no zero byte in it; the terminator is not part
of the list.  `hashDjb` and the two comparisons are those of `hash.c`, and
`removeCruft` is the function of `util.c` every line of input goes through.

## What the two comparisons forget

`compare_strings` is zero exactly on equal strings.  `compare_strings_nocase` is
zero exactly on strings that are equal after `lower`, and this is the whole
difference between a lookup in a user database and a lookup in a room.
`hash_djb` is computed on the bytes as they are, so it separates strings the
second comparison does not (`hashDjb_separates`).

The bytes of a string are `char`s.  `char` is taken to be signed, as it is on the
machines the Makefile builds for: a byte of `128` or more enters the hash as a
negative number.
-/

namespace NetCosm

/-- A C string: bytes, none of which is the terminator. -/
def CString : Type := { bytes : List UInt8 // (0 : UInt8) ∉ bytes }

namespace CString

/-- The bytes before the terminator. -/
def bytes (s : CString) : List UInt8 := s.1

instance : DecidableEq CString :=
  inferInstanceAs (DecidableEq { bytes : List UInt8 // (0 : UInt8) ∉ bytes })

instance : Inhabited CString := ⟨⟨[], List.not_mem_nil⟩⟩

@[ext] theorem ext {s t : CString} (h : s.bytes = t.bytes) : s = t := Subtype.ext h

/-- `strlen`. -/
def length (s : CString) : ℕ := s.bytes.length

/-- A string read up to some byte is a string. -/
def takeWhile (p : UInt8 → Bool) (s : CString) : CString :=
  ⟨s.bytes.takeWhile p, fun h => s.2 ((List.takeWhile_sublist p).mem h)⟩

end CString

/-- The string of one letter. -/
def letter (c : UInt8) : CString := ⟨[c].filter fun c => c ≠ 0, by simp⟩

/-! ## Hashing -/

/-- A `char` promoted to the width of the hash. -/
def signExtend (c : UInt8) : UInt32 :=
  if c < 128 then c.toUInt32 else c.toUInt32 ||| 0xffffff00

/-- The body of the loop of `hash_djb`. -/
def djbStep (hash : UInt32) (c : UInt8) : UInt32 := ((hash <<< 5) + hash) ^^^ signExtend c

/-- `hash_djb`. -/
def hashDjb (s : CString) : UInt32 := s.bytes.foldl djbStep 5381

/-! ## Comparing -/

/-- `strcmp`: the difference of the first two bytes that differ, the terminator
being smaller than every byte. -/
def strcmp : List UInt8 → List UInt8 → ℤ
  | [], [] => 0
  | [], b :: _ => -(b.toNat : ℤ)
  | a :: _, [] => (a.toNat : ℤ)
  | a :: s, b :: t => if a = b then strcmp s t else (a.toNat : ℤ) - b.toNat

/-- `tolower` in the C locale. -/
def lower (c : UInt8) : UInt8 := if 65 ≤ c ∧ c ≤ 90 then c + 32 else c

/-- `compare_strings`. -/
def compareStrings (a b : CString) : ℤ := strcmp a.bytes b.bytes

/-- `compare_strings_nocase`: `strcasecmp` compares the lower-case bytes. -/
def compareStringsNocase (a b : CString) : ℤ :=
  strcmp (a.bytes.map lower) (b.bytes.map lower)

/-- `strcmp` is zero exactly on equal strings; that no byte is zero is what makes
the end of one of them a difference. -/
theorem strcmp_eq_zero_iff {s t : List UInt8} (hs : 0 ∉ s) (ht : 0 ∉ t) :
    strcmp s t = 0 ↔ s = t := by
  induction s generalizing t with
  | nil =>
    cases t with
    | nil => simp [strcmp]
    | cons b t =>
      have hb : b ≠ 0 := fun h => ht (by simp [h])
      have hb' : b.toNat ≠ 0 := fun h => hb (UInt8.toNat_inj.mp (by simpa using h))
      simp only [strcmp, reduceCtorEq, iff_false]
      omega
  | cons a s ih =>
    cases t with
    | nil =>
      have ha : a ≠ 0 := fun h => hs (by simp [h])
      have ha' : a.toNat ≠ 0 := fun h => ha (UInt8.toNat_inj.mp (by simpa using h))
      simp only [strcmp, reduceCtorEq, iff_false]
      omega
    | cons b t =>
      rw [strcmp]
      by_cases hab : a = b
      · rw [if_pos hab, ih (fun h => hs (by simp [h])) (fun h => ht (by simp [h]))]
        simp [hab]
      · have hne : a.toNat ≠ b.toNat := fun h => hab (UInt8.toNat_inj.mp h)
        rw [if_neg hab]
        refine iff_of_false (by omega) (fun h => hab (List.cons.inj h).1)

/-- No byte is lowered to the terminator. -/
theorem lower_ne_zero {c : UInt8} (h : c ≠ 0) : lower c ≠ 0 := by
  unfold lower
  split
  · rename_i hc
    have h1 := UInt8.le_iff_toNat_le.mp hc.1
    have h2 := UInt8.le_iff_toNat_le.mp hc.2
    intro h0
    have h3 : (c + 32).toNat = 0 := by rw [h0]; rfl
    rw [UInt8.toNat_add] at h3
    simp at h1 h2 h3
    omega
  · exact h

theorem zero_notMem_lower (s : CString) : (0 : UInt8) ∉ s.bytes.map lower := by
  rw [List.mem_map]
  rintro ⟨c, hc, h0⟩
  exact lower_ne_zero (fun h : c = 0 => s.2 (h ▸ hc : (0 : UInt8) ∈ s.bytes)) h0

/-- **Keys of a room or an inventory are compared up to case.** -/
theorem compareStringsNocase_eq_zero_iff {a b : CString} :
    compareStringsNocase a b = 0 ↔ a.bytes.map lower = b.bytes.map lower :=
  strcmp_eq_zero_iff (zero_notMem_lower a) (zero_notMem_lower b)

/-- Names of users are compared exactly. -/
theorem compareStrings_eq_zero_iff {a b : CString} : compareStrings a b = 0 ↔ a = b :=
  (strcmp_eq_zero_iff a.2 b.2).trans ⟨CString.ext, fun h => h ▸ rfl⟩

/-- Two spellings of one key with different hashes. -/
theorem hashDjb_separates :
    ∃ a b : CString, compareStringsNocase a b = 0 ∧ hashDjb a ≠ hashDjb b :=
  ⟨⟨[65], by decide⟩, ⟨[97], by decide⟩, by decide, by decide⟩

/-! ## Lines of input -/

/-- `\r` or `\n`. -/
def isCruft (c : UInt8) : Bool := c == 13 || c == 10

/-- `remove_cruft`: `strtok_r` skips leading delimiters without removing them, and
puts the terminator at the first delimiter after the token. -/
def removeCruft (s : CString) : CString :=
  ⟨s.bytes.takeWhile isCruft ++ (s.bytes.dropWhile isCruft).takeWhile (fun c => !isCruft c), by
    intro h
    rcases List.mem_append.mp h with h | h
    · exact s.2 ((List.takeWhile_sublist _).mem h)
    · exact s.2 ((List.dropWhile_sublist _).mem ((List.takeWhile_sublist _).mem h))⟩

end NetCosm
