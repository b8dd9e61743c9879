import NetCosm.Client.Requests

/-!
# Accounts, from the client's side

The functions of `auth.c`.  Passwords never reach the master: the client asks for the record
of a user, hashes what was typed with the salt of the record, and compares.

`HASH_ITERS` is 1, so the rounds after the first are not run.  The comparison covers
`AUTH_HASHLEN` characters of the hexadecimal form, which has twice as many.
-/

namespace NetCosm

open Sessions

variable {σ : Type}

/-- `HASH_ITERS`. -/
def HASH_ITERS : ℕ := 1

/-- A digit as `%x` prints it. -/
def hexDigit (n : ℕ) : UInt8 := if n < 10 then (48 + n).toUInt8 else (87 + n).toUInt8

/-- A byte as `%02x` prints it. -/
def hexByte (c : UInt8) : List UInt8 := [hexDigit (c.toNat / 16), hexDigit (c.toNat % 16)]

/-- `hash_pass_hex`, without the terminator. -/
def hashPassHex (env : ClientEnv σ) (pass : CString) (salt : List UInt8) : List UInt8 :=
  let hash := env.sha512 (salt.take SALT_LEN ++ pass.bytes)
  ((fun h => env.sha512 (env.sha512 h))^[HASH_ITERS / 2 - 1] hash).flatMap hexByte

/-- `isalpha` or `isdigit`, in the C locale. -/
def isAlnum (c : UInt8) : Bool :=
  (48 ≤ c && c ≤ 57) || (65 ≤ c && c ≤ 90) || (97 ≤ c && c ≤ 122)

/-- `valid_login_name`. -/
def validLoginName (name : CString) : Bool :=
  name.length ≤ MAX_NAME_LEN && name.bytes.all isAlnum

/-- `strncpy` into an array of `n` bytes. -/
def strncpy (n : ℕ) (s : CString) : List UInt8 := (s.bytes ++ List.replicate n 0).take n

/-- The letters of a salt. -/
def randSalt (env : ClientEnv σ) : ℕ → ClientM σ (List UInt8)
  | 0 => pure []
  | n + 1 => do
      let r ← rand env
      let salt ← randSalt env n
      pure ((65 + r % 26).toUInt8 :: salt)

/-- `add_user_internal`. -/
def addUserInternal (env : ClientEnv σ) (name pass : CString) (authlevel : ℤ) :
    ClientM σ Unit := do
  let salt ← randSalt env SALT_LEN
  let lastLogin ← time env
  let _ ← userdbRequestAdd env
    { username := strncpy (MAX_NAME_LEN + 1) name
      salt := salt ++ [0]
      passhash := hashPassHex env pass salt ++ [0]
      priv := authlevel
      lastLogin := lastLogin
      userdata := none }
  pure ()

/-- `auth_user_del`. -/
def authUserDel (env : ClientEnv σ) (user : CString) : ClientM σ Bool :=
  let user := removeCruft user
  if validLoginName user then userdbRequestRemove env user else pure false

/-- `auth_user_add`. -/
def authUserAdd (env : ClientEnv σ) (user pass : CString) (level : ℤ) : ClientM σ Bool :=
  let user := removeCruft user
  let pass := removeCruft pass
  if validLoginName user then do
    addUserInternal env user pass level
    pure true
  else pure false

/-- The comparison of `auth_check`. -/
def passMatches (env : ClientEnv σ) (pass : CString) (data : UserData) : Bool :=
  (hashPassHex env pass data.salt).take AUTH_HASHLEN == data.passhash.take AUTH_HASHLEN

/-- `auth_check`. -/
def authCheck (env : ClientEnv σ) (name pass : CString) : ClientM σ (Option UserData) := do
  let data ← userdbRequestLookup env (removeCruft name)
  pure (data.filter (passMatches env (removeCruft pass)))

end NetCosm
