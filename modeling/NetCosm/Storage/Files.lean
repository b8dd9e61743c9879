import NetCosm.Library.Readers
import NetCosm.Server.Dispatch

/-!
# Reading and writing the fields of a data file

`world.dat` and `users.dat` are written field by field, without tags: numbers in the byte order of
the machine, strings with their length in front.  This file has the functions of `util.c` that
do so.

## What a short read does

`read_uint32`, `read_uint64`, `read_size`, `read_bool` and `read_string` call `error` if the file
ends too early.  `read_roomid` does not: it tests for a negative result only, and `read` returns
how many bytes there were.  Then the rest of the variable is whatever was in that place of the
stack before, here `junk`.  `readOver` is what both `read_roomid` and the two calls of `read` in
`world_load` that are not checked have in common: the bytes there are, over the old ones.

`Decodes r bs v A` says that `r` reads the bytes `bs` as `v`, and does not go past the end of a
file that ends within them; `A` false is the functions that notice.

Reads and writes of a regular file are taken to be complete.
-/

namespace NetCosm

namespace Storage

open Reader

/-- A function that reads from a data file. -/
abbrev FileReader (σ : Type) : Type → Type := Reader UInt8 σ Fault

/-- `error` has been called. -/
def Stops (e : Fault) : Prop := e = .fatal

/-! ## Numbers in memory -/

/-- The `size` bytes of a number. -/
def littleEndian : ℕ → ℕ → List UInt8
  | 0, _ => []
  | size + 1, n => UInt8.ofNat n :: littleEndian size (n / 256)

@[simp] theorem length_littleEndian (size n : ℕ) : (littleEndian size n).length = size := by
  induction size generalizing n with
  | zero => rfl
  | succ size ih => rw [littleEndian, List.length_cons, ih]

theorem ofLittleEndian_littleEndian {size n : ℕ} (h : n < 256 ^ size) :
    ofLittleEndian (littleEndian size n) = n := by
  induction size generalizing n with
  | zero => exact (Nat.lt_one_iff.mp h).symm
  | succ size ih =>
    have hdiv : n / 256 < 256 ^ size := Nat.div_lt_of_lt_mul (by rwa [pow_succ'] at h)
    have hmod : (UInt8.ofNat n).toNat = n % 256 := UInt8.toNat_ofNat'
    rw [littleEndian, ofLittleEndian, ih hdiv, hmod]
    exact Nat.mod_add_div n 256

/-! ## Writing -/

/-- `write_roomid`. -/
def writeRoomid (id : Int32) : List UInt8 := littleEndian 4 id.toUInt32.toNat

/-- `write_bool`. -/
def writeBool (b : Bool) : List UInt8 := littleEndian 1 b.toNat

/-- `write_uint32`. -/
def writeUint32 (b : UInt32) : List UInt8 := littleEndian 4 b.toNat

/-- `write_uint64`. -/
def writeUint64 (b : UInt64) : List UInt8 := littleEndian 8 b.toNat

/-- `write_size`, and `write` of a `size_t`. -/
def writeSize (b : UInt64) : List UInt8 := littleEndian 8 b.toNat

/-- `write_string`. -/
def writeString (str : CString) : List UInt8 := writeSize (UInt64.ofNat str.length) ++ str.bytes

/-! ## Reading -/

section

variable {σ α γ : Type}

/-- `read`, unchecked, over memory in which there is something already. -/
def readOver (old : List UInt8) : FileReader σ (List UInt8) := do
  let got ← readUpTo old.length
  pure (got ++ old.drop got.length)

/-- The number in four bytes, as a `room_id`. -/
def roomidOf (bytes : List UInt8) : Int32 := (UInt32.ofNat (ofLittleEndian bytes)).toInt32

/-- `read_roomid`. -/
def readRoomid (junk : List UInt8) : FileReader σ Int32 := do
  let ret ← readOver junk
  pure (roomidOf ret)

/-- `read_bool`. -/
def readBool : FileReader σ Bool := do
  let ret ← readExact 1 .fatal
  pure (ofLittleEndian ret != 0)

/-- `read_uint32`. -/
def readUint32 : FileReader σ UInt32 := do
  let ret ← readExact 4 .fatal
  pure (UInt32.ofNat (ofLittleEndian ret))

/-- `read_uint64`. -/
def readUint64 : FileReader σ UInt64 := do
  let ret ← readExact 8 .fatal
  pure (UInt64.ofNat (ofLittleEndian ret))

/-- `read_size`. -/
def readSize : FileReader σ UInt64 := readUint64

/-- `read_string`.  The buffer has `sz + 1` bytes, and that wraps. -/
def readString : FileReader σ CString := do
  let sz ← readSize
  if sz + 1 = 0 then fail .outOfBounds
  else do
    let ret ← readExact sz.toNat .fatal
    pure (CString.ofBuffer ret)

/-- A loop that counts with an `unsigned` up to a `size_t`.  It can go on for ever, and does not
as long as each turn reads something. -/
def forUnsigned (n : ℕ) (body : ℕ → α → FileReader σ α) (a : α) : FileReader σ α :=
  if n < unsignedRange then turns body n 0 a
  else withFuel fun k => turns (fun j => body (j % unsignedRange)) k 0 a >>= fun _ =>
    fail .endlessLoop

/-! ## What is read is what was written -/

/-- The reader reads `bs` as `v`. -/
def Decodes (r : FileReader σ α) (bs : List UInt8) (v : α) (A : α → Prop) : Prop :=
  ∀ P : σ → Prop, Loads Stops P r bs (fun a s => a = v ∧ P s) A

variable {r : FileReader σ α} {f : α → FileReader σ γ} {bs cs : List UInt8} {v : α}
  {A : α → Prop} {C : γ → Prop} {P : σ → Prop} {Q : γ → σ → Prop}

theorem Decodes.on_append (h : Decodes r bs v A) (t : List UInt8) (s : σ) :
    on r (bs ++ t) s = .ok ((v, t), s) := by
  obtain ⟨a, s', hok, rfl, rfl⟩ := (h (· = s)).reads t s rfl
  exact hok

/-- A value that is known. -/
theorem loads_of_eq (h : Loads Stops P (f v) cs Q C) (a : α) :
    Loads Stops (fun s => a = v ∧ P s) (f a) cs Q C := by
  refine ⟨?_, ?_⟩
  · rintro rest s ⟨rfl, hP⟩
    exact h.reads rest s hP
  · rintro s hs hne st ⟨rfl, hP⟩
    exact h.cut s hs hne st hP

/-- **A field, and then the rest.** -/
theorem Decodes.andThen (h : Decodes r bs v fun _ => False) (hf : Loads Stops P (f v) cs Q C) :
    Loads Stops P (r >>= f) (bs ++ cs) Q C :=
  Loads.andThen (h P) fun a => loads_of_eq hf a

/-- A field that may be cut short unnoticed. -/
theorem Decodes.bind (h : Decodes r bs v A) (hA : ∀ a, A a → Starves Stops C (f a))
    (hf : Loads Stops P (f v) cs Q C) : Loads Stops P (r >>= f) (bs ++ cs) Q C :=
  Loads.bind (h P) hA fun a => loads_of_eq hf a

theorem decodes_pure (v : α) : Decodes (pure v : FileReader σ α) [] v A :=
  fun _ => loads_pure fun _ hs => ⟨rfl, hs⟩

/-- The value is computed from what was read. -/
theorem Decodes.map {g : α → γ} (h : Decodes r bs v A) (hA : ∀ a, A a → C (g a)) :
    Decodes (r >>= fun a => pure (g a)) bs (g v) C := by
  intro P
  have hbind := Decodes.bind (f := fun a => (pure (g a) : FileReader σ γ)) h
    (fun a ha => starves_pure (hA a ha)) (decodes_pure (A := C) (g v) P)
  rwa [List.append_nil] at hbind

theorem decodes_bytes (σ : Type) {n : ℕ} (hn : bs.length = n) :
    Decodes (readExact n .fatal : FileReader σ (List UInt8)) bs bs fun _ => False :=
  fun _ => loads_readExact hn rfl fun _ hs => ⟨rfl, hs⟩

theorem starves_exact {n : ℕ} (hn : 0 < n) {A : List UInt8 → Prop} :
    Starves Stops A (readExact n .fatal : FileReader σ (List UInt8)) := starves_readExact hn rfl

/-- What is written over all of the memory is what is read. -/
theorem decodes_readOver (σ : Type) (old : List UInt8) (h : bs.length = old.length) :
    Decodes (readOver old : FileReader σ (List UInt8)) bs bs fun _ => True := by
  intro P
  refine Loads.finish (R := fun a s => a = bs ∧ P s) (A := fun _ => True)
    (loads_readUpTo h (fun _ hs => ⟨rfl, hs⟩) fun _ _ _ => trivial)
    (fun _ _ => starves_pure trivial) fun a => ?_
  refine loads_of_eq (f := fun got => (pure (got ++ old.drop got.length) :
    FileReader σ (List UInt8))) (loads_pure fun s hs => ?_) a
  exact ⟨by rw [List.drop_eq_nil_of_le (Nat.le_of_eq h.symm), List.append_nil], hs⟩

theorem starves_readOver (old : List UInt8) :
    Starves Stops (fun _ => True) (readOver old : FileReader σ (List UInt8)) :=
  Starves.bind (A := fun _ => True) (starves_readUpTo trivial) fun _ _ => starves_pure trivial

theorem decodes_readBool (b : Bool) : Decodes (readBool : FileReader σ Bool) (writeBool b) b fun _ => False := by
  have h := (decodes_bytes σ (length_littleEndian 1 b.toNat)).map (C := fun _ => False)
    (g := fun ret => ofLittleEndian ret != 0) fun _ hf => hf.elim
  have hb : (ofLittleEndian (littleEndian 1 b.toNat) != 0) = b := by
    cases b <;> decide
  rw [hb] at h
  exact h

theorem decodes_readUint32 (b : UInt32) :
    Decodes (readUint32 : FileReader σ UInt32) (writeUint32 b) b fun _ => False := by
  have h := (decodes_bytes σ (length_littleEndian 4 b.toNat)).map (C := fun _ => False)
    (g := fun ret => UInt32.ofNat (ofLittleEndian ret)) fun _ hf => hf.elim
  rw [ofLittleEndian_littleEndian b.toNat_lt, UInt32.ofNat_toNat] at h
  exact h

theorem decodes_readUint64 (b : UInt64) :
    Decodes (readUint64 : FileReader σ UInt64) (writeUint64 b) b fun _ => False := by
  have h := (decodes_bytes σ (length_littleEndian 8 b.toNat)).map (C := fun _ => False)
    (g := fun ret => UInt64.ofNat (ofLittleEndian ret)) fun _ hf => hf.elim
  rw [ofLittleEndian_littleEndian b.toNat_lt, UInt64.ofNat_toNat] at h
  exact h

theorem decodes_readSize (b : UInt64) :
    Decodes (readSize : FileReader σ UInt64) (writeSize b) b fun _ => False :=
  decodes_readUint64 b

@[simp] theorem length_writeRoomid (id : Int32) : (writeRoomid id).length = 4 :=
  length_littleEndian 4 _

/-- The four bytes of a room's id. -/
theorem roomidOf_writeRoomid (id : Int32) : roomidOf (writeRoomid id) = id := by
  rw [roomidOf, writeRoomid, ofLittleEndian_littleEndian id.toUInt32.toNat_lt,
    UInt32.ofNat_toNat]
  rfl

/-- **A room's id is read right from a file that has it**, and the end of the file is not
noticed. -/
theorem decodes_readRoomid {junk : List UInt8} (hjunk : junk.length = 4) (id : Int32) :
    Decodes (readRoomid junk : FileReader σ Int32) (writeRoomid id) id fun _ => True := by
  have hlen : (writeRoomid id).length = junk.length := (length_writeRoomid id).trans hjunk.symm
  have h := (decodes_readOver σ junk hlen).map (C := fun _ => True) (g := roomidOf)
    fun _ _ => trivial
  rw [roomidOf_writeRoomid] at h
  exact h

theorem ofBuffer_bytes (s : CString) : CString.ofBuffer s.bytes = s := by
  refine CString.ext ?_
  show s.bytes.takeWhile (· != 0) = s.bytes
  rw [List.takeWhile_eq_self_iff]
  intro c hc
  rw [bne_iff_ne]
  rintro rfl
  exact s.2 hc

/-- A string that fits in memory with its terminator. -/
def Fits (s : CString) : Prop := s.length + 1 < 2 ^ 64

instance (s : CString) : Decidable (Fits s) := inferInstanceAs (Decidable (_ < _))

theorem fits_default : Fits default := by decide

theorem decodes_readString {s : CString} (h : Fits s) :
    Decodes (readString : FileReader σ CString) (writeString s) s fun _ => False := by
  intro P
  have hlen : (UInt64.ofNat s.length).toNat = s.length := by
    rw [UInt64.toNat_ofNat']
    exact Nat.mod_eq_of_lt (Nat.lt_of_succ_lt h)
  have hne : UInt64.ofNat s.length + 1 ≠ 0 := by
    intro h0
    have h1 := congrArg UInt64.toNat h0
    rw [UInt64.toNat_add, hlen, UInt64.toNat_one, Nat.mod_eq_of_lt h, UInt64.toNat_zero] at h1
    omega
  refine (decodes_readSize _).andThen ?_
  rw [if_neg hne, hlen]
  have hbytes := (decodes_bytes σ (rfl : s.bytes.length = s.length)).map (C := fun _ => False)
    (g := CString.ofBuffer) fun _ hf => hf.elim
  rw [ofBuffer_bytes] at hbytes
  exact hbytes P

/-! ## At the end of the file -/

theorem starves_readUint64 : Starves Stops (fun _ => False) (readUint64 : FileReader σ UInt64) :=
  Starves.stop (starves_exact (by decide))

theorem starves_readSize : Starves Stops (fun _ => False) (readSize : FileReader σ UInt64) := starves_readUint64

theorem starves_readString : Starves Stops (fun _ => False) (readString : FileReader σ CString) :=
  Starves.stop starves_readSize

/-- `read_roomid` starves unnoticed. -/
theorem starves_readRoomid (junk : List UInt8) :
    Starves Stops (fun _ => True) (readRoomid junk : FileReader σ Int32) :=
  Starves.bind (starves_readOver junk) fun _ _ => starves_pure trivial

/-- **A loop over the items of a list**, counted by an `unsigned`. -/
theorem loads_forUnsigned {ι : Type} {body : ℕ → α → FileReader σ α} {b : ι → List UInt8}
    {I : List ι → α → σ → Prop} {items : List ι} (hsz : items.length < unsignedRange)
    (hbody : ∀ done i later, items = done ++ i :: later → ∀ a,
      Loads Stops (I done a) (body done.length a) (b i) (I (done ++ [i])) A)
    (hstarves : ∀ j a, A a → Starves Stops A (body j a)) (a : α) :
    Loads Stops (I [] a) (forUnsigned items.length body a) (items.flatMap b) (I items) A := by
  rw [forUnsigned, if_pos hsz]
  exact Loads.turns hbody hstarves [] items rfl a

/-! ## What the readers keep -/

theorem preserves_readUint32 : Preserves P (fun _ => True) (readUint32 : FileReader σ UInt32) :=
  preserves_readExact.bind fun _ _ => preserves_pure trivial

theorem preserves_readUint64 : Preserves P (fun _ => True) (readUint64 : FileReader σ UInt64) :=
  preserves_readExact.bind fun _ _ => preserves_pure trivial

theorem preserves_readBool : Preserves P (fun _ => True) (readBool : FileReader σ Bool) :=
  preserves_readExact.bind fun _ _ => preserves_pure trivial

theorem preserves_readString : Preserves P (fun _ => True) (readString : FileReader σ CString) := by
  refine preserves_readUint64.bind fun sz _ => ?_
  split
  · exact preserves_fail
  · exact preserves_readExact.bind fun _ _ => preserves_pure trivial

theorem preserves_forUnsigned {α : Type} {A : α → Prop} {body : ℕ → α → FileReader σ α}
    (hbody : ∀ j a, A a → Preserves P A (body j a)) (n : ℕ) {a : α} (ha : A a) :
    Preserves P A (forUnsigned n body a) := by
  unfold forUnsigned
  split
  · exact preserves_turns hbody n 0 ha
  · refine preserves_withFuel fun k => ?_
    exact (preserves_turns (fun j => hbody (j % unsignedRange)) k 0 ha).bind fun _ _ => preserves_fail

end

end Storage

end NetCosm
