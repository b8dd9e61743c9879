import NetCosm.Client.Outcomes

/-!
# How much of a password's hash is compared

`hash_pass_hex` writes a digest of `AUTH_HASHLEN` bytes as twice as many digits, and
`auth_check` compares `AUTH_HASHLEN` of them: the first half.  A password is therefore taken
for another if their digests agree in the first half of their bytes
(`passMatches_iff_take`), and `authCheck_full_match_iff` says when that is as good as a
comparison of the whole.

`StoredFor` is what there is to know of a record that a user was given with a password, and
`auth_user_add` sends no other (`storedFor_of_authUserAdd`).
-/

namespace NetCosm

open Sessions

variable {σ : Type} {env : ClientEnv σ}

/-! ## Digits -/

theorem hexDigit_inj {m n : ℕ} (hm : m < 16) (hn : n < 16) (h : hexDigit m = hexDigit n) :
    m = n := by
  have hvalue : ∀ k < 16, (hexDigit k).toNat = if k < 10 then 48 + k else 87 + k := by decide
  have hnat := congrArg UInt8.toNat h
  rw [hvalue m hm, hvalue n hn] at hnat
  split at hnat <;> split at hnat <;> omega

/-- A byte is told by its two digits. -/
theorem hexByte_inj {c d : UInt8} (h : hexByte c = hexByte d) : c = d := by
  obtain ⟨hhi, hlo⟩ := List.cons.inj h
  have hc := c.toNat_lt
  have hd := d.toNat_lt
  have h1 := hexDigit_inj (by omega) (by omega) hhi
  have h2 := hexDigit_inj (Nat.mod_lt _ (by decide)) (Nat.mod_lt _ (by decide)) (List.cons.inj hlo).1
  exact UInt8.toNat_inj.mp (by omega)

theorem length_flatMap_hexByte (bs : List UInt8) : (bs.flatMap hexByte).length = 2 * bs.length := by
  induction bs with
  | nil => rfl
  | cons b bs ih =>
    rw [List.flatMap_cons, List.length_append, ih, List.length_cons]
    show 2 + _ = _
    omega

/-- The first digits are those of the first bytes. -/
theorem take_flatMap_hexByte (n : ℕ) (bs : List UInt8) :
    (bs.flatMap hexByte).take (2 * n) = (bs.take n).flatMap hexByte := by
  induction bs generalizing n with
  | nil => simp
  | cons b bs ih =>
    cases n with
    | zero => rfl
    | succ n =>
      rw [List.take_succ_cons, List.flatMap_cons, List.flatMap_cons, ← ih]
      rfl

/-- Bytes are told by their digits. -/
theorem flatMap_hexByte_inj {as bs : List UInt8} (h : as.flatMap hexByte = bs.flatMap hexByte) :
    as = bs := by
  induction as generalizing bs with
  | nil =>
    cases bs with
    | nil => rfl
    | cons b bs => exact absurd h (by simp [hexByte])
  | cons a as ih =>
    cases bs with
    | nil => exact absurd h (by simp [hexByte])
    | cons b bs =>
      rw [List.flatMap_cons, List.flatMap_cons] at h
      obtain ⟨hbyte, hrest⟩ := List.append_inj h rfl
      rw [hexByte_inj hbyte, ih hrest]

/-! ## Digests -/

/-- The digest `hash_pass_hex` writes down. -/
def passDigest (env : ClientEnv σ) (pass : CString) (salt : List UInt8) : List UInt8 :=
  (fun h => env.sha512 (env.sha512 h))^[HASH_ITERS / 2 - 1]
    (env.sha512 (salt.take SALT_LEN ++ pass.bytes))

theorem hashPassHex_eq (pass : CString) (salt : List UInt8) :
    hashPassHex env pass salt = (passDigest env pass salt).flatMap hexByte := rfl

theorem length_passDigest (pass : CString) (salt : List UInt8) :
    (passDigest env pass salt).length = AUTH_HASHLEN := env.sha512_length _

/-- A record that was made for the password `pass`. -/
structure UserData.StoredFor (env : ClientEnv σ) (pass : CString) (data : UserData) : Prop where
  salt_length : data.salt.length = SALT_LEN + 1
  passhash_eq : data.passhash = hashPassHex env (removeCruft pass) data.salt ++ [0]

theorem storedFor_newRecord (s : Session σ) (name pass : CString) (level : ℤ) :
    (s.newRecord env name (removeCruft pass) level).StoredFor env pass := by
  have hlen : (s.newSalt env).length = SALT_LEN := by simp [Session.newSalt]
  refine ⟨?_, ?_⟩
  · show (s.newSalt env ++ [0]).length = _
    rw [List.length_append, hlen]
    rfl
  · show hashPassHex env (removeCruft pass) (s.newSalt env) ++ [0] =
      hashPassHex env (removeCruft pass) (s.newSalt env ++ [0]) ++ [0]
    rw [hashPassHex, hashPassHex, List.take_append_of_le_length (by rw [hlen]),
      List.take_of_length_le (Nat.le_of_eq hlen)]

/-- `auth_user_add` makes one request under a valid name. -/
theorem made_authUserAdd (env : ClientEnv σ) {user : CString} (pass : CString) (level : ℤ)
    (s : Session σ)
    (hvalid : validLoginName (removeCruft user) = true) :
    s.hashed.Made env (.addUserData (s.newRecord env (removeCruft user) (removeCruft pass) level))
      ((authUserAdd env user pass level).final s) := by
  rw [Script.final, authUserAdd_eq s hvalid]
  refine Triple.final (P := (s.hashed = ·)) ?_ rfl
  have hsend : Triple (s.hashed = ·) (sendMaster env _) _ _ :=
    (triple_sendMaster s.hashed (.addUserData
      (s.newRecord env (removeCruft user) (removeCruft pass) level))).mono (fun _ h => h)
      (fun _ _ h => h.made) fun _ h => h
  exact triple_bind (triple_bind hsend fun _ => triple_ask fun _ h => h) fun _ =>
    triple_pure fun _ h => h

/-- **What `auth_user_add` sends** is the new record, under a name that is valid. -/
theorem newRecord_of_authUserAdd {s : Session σ} {user pass : CString} {level : ℤ}
    {call : Call} {data : UserData}
    (hcall : call ∈ ((authUserAdd env user pass level).final s).calls.drop s.calls.length)
    (hdata : call.request = .addUserData data) :
    validLoginName (removeCruft user) = true ∧
      data = s.newRecord env (removeCruft user) (removeCruft pass) level := by
  by_cases hvalid : validLoginName (removeCruft user) = true
  · have hmade := made_authUserAdd env pass level s hvalid
    rw [Session.Made] at hmade
    rw [hmade, show s.hashed.calls = s.calls from rfl, List.drop_left, List.mem_singleton] at hcall
    subst hcall
    exact ⟨hvalid, (Request.addUserData.inj hdata).symm⟩
  · have hrun : (authUserAdd env user pass level).final s = s := by
      rw [Script.final, authUserAdd, if_neg hvalid]
      rfl
    rw [hrun, List.drop_length] at hcall
    exact absurd hcall List.not_mem_nil

/-- **Every record `auth_user_add` sends was made for the password it was given.** -/
theorem storedFor_of_authUserAdd {s : Session σ} {user pass : CString} {level : ℤ}
    {call : Call} {data : UserData}
    (hcall : call ∈ ((authUserAdd env user pass level).final s).calls.drop s.calls.length)
    (hdata : call.request = .addUserData data) : data.StoredFor env pass := by
  obtain ⟨-, rfl⟩ := newRecord_of_authUserAdd hcall hdata
  exact storedFor_newRecord s _ pass level

/-- All digits of the hash of a password are those of the record. -/
def FullMatch (env : ClientEnv σ) (pass : CString) (data : UserData) : Prop :=
  hashPassHex env pass data.salt = data.passhash.take (2 * AUTH_HASHLEN)

/-- **What is compared**: the first half of the digests. -/
theorem passMatches_iff_take {p q : CString} {data : UserData} (h : data.StoredFor env p) :
    passMatches env (removeCruft q) data = true ↔
      (passDigest env (removeCruft q) data.salt).take (AUTH_HASHLEN / 2) =
        (passDigest env (removeCruft p) data.salt).take (AUTH_HASHLEN / 2) := by
  have htake : ∀ pass : CString, (hashPassHex env pass data.salt).take AUTH_HASHLEN =
      ((passDigest env pass data.salt).take (AUTH_HASHLEN / 2)).flatMap hexByte := fun pass => by
    rw [hashPassHex_eq, ← take_flatMap_hexByte]
    rfl
  have hstored : data.passhash.take AUTH_HASHLEN =
      (hashPassHex env (removeCruft p) data.salt).take AUTH_HASHLEN := by
    rw [h.passhash_eq, List.take_append_of_le_length]
    rw [hashPassHex_eq, length_flatMap_hexByte, length_passDigest]
    omega
  rw [passMatches, beq_iff_eq, hstored, htake, htake]
  exact ⟨flatMap_hexByte_inj, fun h => by rw [h]⟩

/-- All digits agree exactly when all bytes of the digests do. -/
theorem fullMatch_iff {p q : CString} {data : UserData} (h : data.StoredFor env p) :
    FullMatch env (removeCruft q) data ↔
      passDigest env (removeCruft q) data.salt = passDigest env (removeCruft p) data.salt := by
  have hstored : data.passhash.take (2 * AUTH_HASHLEN) =
      hashPassHex env (removeCruft p) data.salt := by
    rw [h.passhash_eq, List.take_left']
    rw [hashPassHex_eq, length_flatMap_hexByte, length_passDigest]
  rw [FullMatch, hstored, hashPassHex_eq, hashPassHex_eq]
  exact ⟨flatMap_hexByte_inj, fun h => by rw [h]⟩

/-- A login succeeds exactly on a full match, which is one of all bytes of the digests. -/
def AcceptsFullMatch (env : ClientEnv σ) (s : Session σ) (user p q : CString)
    (data : UserData) : Prop :=
  ((authCheck env user q s).1 = some (some data) ↔ FullMatch env (removeCruft q) data) ∧
    (FullMatch env (removeCruft q) data ↔
      passDigest env (removeCruft q) data.salt = passDigest env (removeCruft p) data.salt)

/-- **When a password is accepted exactly on a full match.**  Let a record be sent by
`auth_user_add` for the password `p`, and let a login with the password `q` be given this
record.  It succeeds exactly on a full match if and only if the two digests do not agree in
their first halves and differ behind. -/
theorem authCheck_full_match_iff (env : ClientEnv σ) {s₀ s : Session σ} {user p q : CString}
    {level : ℤ} {call : Call} {data : UserData}
    (hcall : call ∈ ((authUserAdd env user p level).final s₀).calls.drop s₀.calls.length)
    (hdata : call.request = .addUserData data)
    (hgiven : (userdbRequestLookup env (removeCruft user) s).1 = some (some data)) :
    AcceptsFullMatch env s user p q data ↔
      ((passDigest env (removeCruft q) data.salt).take (AUTH_HASHLEN / 2) =
          (passDigest env (removeCruft p) data.salt).take (AUTH_HASHLEN / 2) →
        passDigest env (removeCruft q) data.salt = passDigest env (removeCruft p) data.salt) := by
  have hstored := storedFor_of_authUserAdd hcall hdata
  have hcheck : (authCheck env user q s).1 = some (some data) ↔
      passMatches env (removeCruft q) data = true := by
    rw [authCheck, bind_of_some (eq_of_fst hgiven)]
    show some (Option.filter _ (some data)) = some (some data) ↔ _
    rw [Option.filter_some, Option.some_inj]
    split
    · rename_i hpass
      exact iff_of_true rfl hpass
    · rename_i hpass
      exact iff_of_false (by simp) hpass
  rw [AcceptsFullMatch, and_iff_left (fullMatch_iff hstored), hcheck, fullMatch_iff hstored,
    passMatches_iff_take hstored]
  exact ⟨Iff.mp, fun h => ⟨h, fun heq => by rw [heq]⟩⟩

/-! ## A digest that differs at the end -/

/-- A client as before, with a function that tells its inputs apart in the last byte only. -/
def lastByteEnv : ClientEnv Unit :=
  { sampleEnv Int.ofNat with
    sha512 := fun bs => List.replicate (AUTH_HASHLEN - 1) 0 ++ [bs.getLastD 0]
    sha512_length := fun _ => rfl }

/-- A session in which the user `a` was given the password `p`. -/
def sampleStored : Session Unit :=
  (authUserAdd lastByteEnv (letter 97) (letter 112) PRIV_USER).final
    (Session.start sampleServer [])

/-- The record that was stored. -/
def sampleRecord : UserData :=
  (Session.start sampleServer []).newRecord lastByteEnv (letter 97) (letter 112) PRIV_USER

theorem sampleRecord_sent :
    ∃ call ∈ sampleStored.calls.drop (Session.start sampleServer []).calls.length,
      call.request = .addUserData sampleRecord := by
  decide +kernel

theorem sampleRecord_given :
    (userdbRequestLookup lastByteEnv (removeCruft (letter 97)) sampleStored).1 =
      some (some sampleRecord) := by
  decide +kernel

/-- The password that was stored is accepted for its full match. -/
theorem stored_password_accepted :
    AcceptsFullMatch lastByteEnv sampleStored (letter 97) (letter 112) (letter 112)
      sampleRecord := by
  obtain ⟨call, hcall, hdata⟩ := sampleRecord_sent
  exact (authCheck_full_match_iff lastByteEnv hcall hdata sampleRecord_given).mpr fun _ => rfl

/-- **A password that is not the one stored, and accepted.** -/
theorem other_password_accepted :
    (authCheck lastByteEnv (letter 97) (letter 120) sampleStored).1 = some (some sampleRecord) ∧
      ¬ FullMatch lastByteEnv (removeCruft (letter 120)) sampleRecord ∧
      ¬ AcceptsFullMatch lastByteEnv sampleStored (letter 97) (letter 112) (letter 120)
        sampleRecord := by
  have haccepted : (authCheck lastByteEnv (letter 97) (letter 120) sampleStored).1 =
      some (some sampleRecord) := by decide +kernel
  have hdiffers : ¬ FullMatch lastByteEnv (removeCruft (letter 120)) sampleRecord := by
    unfold FullMatch
    decide +kernel
  exact ⟨haccepted, hdiffers, fun h => hdiffers (h.1.mp haccepted)⟩

end NetCosm
