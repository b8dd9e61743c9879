import NetCosm.Client.Auth

/-!
# `client_main`

A client logs in, says who it is, and runs the commands that are typed until one of them logs
it out or ends it.  After a logout the same process logs in again: its variables, among them
`are_admin` and the counter of the limiter, are those of the session before.

`commandLoop` and `clientMain` take the number of rounds they go at most.  Every round reads a
line, so a session with `n` lines to come is cut short by nothing if it may go `n + 1` rounds.

Nothing is printed here.
-/

namespace NetCosm

open Sessions

variable {σ : Type}

/-- `MAX_FAILURES`. -/
def MAX_FAILURES : ℕ := 3

/-- `CMD_OK`, `CMD_LOGOUT` and `CMD_QUIT`. -/
inductive CmdResult where
  | ok
  | logout
  | quit
  deriving DecidableEq, Repr

/-- `client_read_password`, which switches the echo off and on again. -/
def clientReadPassword : ClientM σ CString := clientReadLine

/-- `current_user`. -/
def currentUser : ClientM σ (Option CString) := ask fun s => s.client.currentUser

/-! ## Callbacks -/

/-- The branch of `user_cb` that adds a user, or changes one. -/
def userAdd (env : ClientEnv σ) (user : CString) : ClientM σ Unit := do
  let pass ← clientReadPassword
  let pass2 ← clientReadPassword
  if pass ≠ pass2 then pure ()
  else
    let allowAdmin ← clientReadLine
    let priv := if (allowAdmin.bytes.head?.map upper) = some 89 then PRIV_ADMIN else PRIV_USER
    let _ ← authUserAdd env user pass priv
    pure ()

/-- `user_cb`. -/
def userCb (env : ClientEnv σ) (save : CString) : ClientM σ CmdResult :=
  match strtok isWspace save with
  | none => pure .ok
  | some (what, save) => do
      let what := allUpper what
      let current ← currentUser
      if what = .ofChars ['D', 'E', 'L'] then
        match strtok isWspace save with
        | some (user, _) =>
            if some user ≠ current then
              let _ ← authUserDel env user
              pure .ok
            else pure .ok
        | none => pure .ok
      else if what = .ofChars ['A', 'D', 'D'] ∨ what = .ofChars ['M', 'O', 'D', 'I', 'F', 'Y'] then
        match strtok isWspace save with
        | some (user, _) =>
            if some user = current then pure .ok
            else
              userAdd env user
              pure .ok
        | none => pure .ok
      else if what = .ofChars ['L', 'I', 'S', 'T'] then
        clientUserList env
        pure .ok
      else pure .ok

/-- `client_cb`. -/
def clientCb (env : ClientEnv σ) (save : CString) : ClientM σ CmdResult :=
  match strtok isWspace save with
  | none => pure .ok
  | some (what, save) =>
      let what := allUpper what
      if what = .ofChars ['L', 'I', 'S', 'T'] then do
        sendMaster env .listClients
        pure .ok
      else if what = .ofChars ['K', 'I', 'C', 'K'] then
        match strtok isWspace save with
        | none => pure .ok
        | some (pidS, _) =>
            let pidS := allUpper pidS
            if pidS = .ofChars ['A', 'L', 'L'] then do
              sendMaster env (.kickAll (.ofChars "Kicking everyone...\n".toList))
              pure .ok
            else
              let (pid, rest) := strtol pidS.bytes
              let pid : UInt32 := .ofInt pid
              if pid = env.pid then pure .ok
              else if rest ≠ [] then pure .ok
              else do
                sendMaster env (.kick pid (.ofChars "You were kicked.\n".toList))
                pure .ok
      else pure .ok

/-- `quit_cb`. -/
def quitCb (_save : CString) : ClientM σ CmdResult := pure .quit

/-- `say_cb`. -/
def sayCb (env : ClientEnv σ) (save : CString) : ClientM σ CmdResult := do
  let user ← currentUser
  let what := (strtok (fun _ => false) save).map Prod.fst
  let text := ((user.getD (.ofChars "(null)".toList)).append (.ofChars " says ".toList)).append
    ((what.getD (.ofChars "(null)".toList)).append (.ofChars ['\n']))
  sendMaster env (.bcastMsg text)
  pure .ok

/-- `date_cb`. -/
def dateCb (env : ClientEnv σ) (_save : CString) : ClientM σ CmdResult := do
  let _ ← time env
  pure .ok

/-- `logout_cb`. -/
def logoutCb (_save : CString) : ClientM σ CmdResult := pure .logout

/-- `look_cb`. -/
def lookCb (env : ClientEnv σ) (save : CString) : ClientM σ CmdResult := do
  match strtok (fun _ => false) save with
  | none => clientLook env
  | some (what, _) => clientLookAt env what
  pure .ok

/-- `inventory_cb`. -/
def inventoryCb (env : ClientEnv σ) (_save : CString) : ClientM σ CmdResult := do
  clientInventory env
  pure .ok

/-- `take_cb`. -/
def takeCb (env : ClientEnv σ) (save : CString) : ClientM σ CmdResult := do
  clientTake env ((strtok (fun _ => false) save).map Prod.fst)
  pure .ok

/-- `wait_cb`. -/
def waitCb (env : ClientEnv σ) (_save : CString) : ClientM σ CmdResult := do
  sendMaster env .wait
  pure .ok

/-- `go_cb`. -/
def goCb (env : ClientEnv σ) (save : CString) : ClientM σ CmdResult :=
  match strtok isWspace save with
  | none => pure .ok
  | some (dir, _) => do
      let moved ← clientMove env (allUpper dir)
      if moved then
        clientLook env
        pure .ok
      else pure .ok

/-- `drop_cb`. -/
def dropCb (env : ClientEnv σ) (save : CString) : ClientM σ CmdResult :=
  match strtok (fun _ => false) save with
  | none => pure .ok
  | some (what, _) => do
      clientDrop env what
      pure .ok

/-- The new password of `chpass_cb`.  `current_data` points to the record that was returned
last. -/
def chpassNew (env : ClientEnv σ) (user : CString) : ClientM σ Unit := do
  let pass1 ← clientReadPassword
  let pass2 ← clientReadPassword
  if pass1 ≠ pass2 then pure ()
  else
    let data ← ask fun s => s.client.returnedReqdata
    let _ ← authUserAdd env user pass1 data.priv
    pure ()

/-- `chpass_cb`. -/
def chpassCb (env : ClientEnv σ) (_save : CString) : ClientM σ CmdResult := do
  let current ← clientReadPassword
  match ← currentUser with
  | none => stop
  | some user =>
      let data ← authCheck env user current
      if data.isSome then
        chpassNew env user
        pure .ok
      else pure .ok

/-- `struct client_cmd`. -/
structure ClientCmd (σ : Type) where
  cmd : CString
  cb : CString → ClientM σ CmdResult
  adminOnly : Bool

/-- `cmds`. -/
def cmds (env : ClientEnv σ) : List (ClientCmd σ) :=
  [⟨.ofChars ['U', 'S', 'E', 'R'], userCb env, true⟩,
    ⟨.ofChars ['C', 'L', 'I', 'E', 'N', 'T'], clientCb env, true⟩,
    ⟨.ofChars ['E', 'X', 'I', 'T'], quitCb, false⟩,
    ⟨.ofChars ['Q', 'U', 'I', 'T'], quitCb, false⟩,
    ⟨.ofChars ['S', 'A', 'Y'], sayCb env, false⟩,
    ⟨.ofChars ['D', 'A', 'T', 'E'], dateCb env, false⟩,
    ⟨.ofChars ['L', 'O', 'G', 'O', 'U', 'T'], logoutCb, false⟩,
    ⟨.ofChars ['L', 'O', 'O', 'K'], lookCb env, false⟩,
    ⟨.ofChars ['I', 'N', 'V', 'E', 'N', 'T', 'O', 'R', 'Y'], inventoryCb env, false⟩,
    ⟨.ofChars ['T', 'A', 'K', 'E'], takeCb env, false⟩,
    ⟨.ofChars ['W', 'A', 'I', 'T'], waitCb env, true⟩,
    ⟨.ofChars ['G', 'O'], goCb env, false⟩,
    ⟨.ofChars ['D', 'R', 'O', 'P'], dropCb env, false⟩,
    ⟨.ofChars ['C', 'H', 'P', 'A', 'S', 'S'], chpassCb env, false⟩]

/-! ## The loops -/

/-- One round of the command loop. -/
def commandRound (env : ClientEnv σ) : ClientM σ CmdResult := do
  let line ← clientReadLine
  let client ← ask fun s => s.client
  let execVerb : ClientM σ CmdResult := do
    sendMaster env (.execVerb line)
    pure .ok
  if client.childRawmode then execVerb
  else
    match strtok isWspace line with
    | none => pure .ok
    | some (tok, save) =>
        match (cmds env).find? fun cmd => cmd.cmd = allUpper tok with
        | some cmd => if cmd.adminOnly && !client.areAdmin then pure .ok else cmd.cb save
        | none => execVerb

/-- The command loop. -/
def commandLoop (env : ClientEnv σ) : ℕ → ClientM σ CmdResult
  | 0 => stop
  | n + 1 => do
      match ← commandRound env with
      | .ok => commandLoop env n
      | .logout => pure .logout
      | .quit => pure .quit

/-- The loop of the login screen: the privileges of the user, if one of the attempts that are
left succeeds. -/
def authLoop (env : ClientEnv σ) : ℕ → ClientM σ (Option ℤ)
  | 0 => pure none
  | n + 1 => do
      let user ← clientReadLine
      let user := removeCruft user
      setClient fun c => { c with currentUser := some user }
      let pass ← clientReadPassword
      clientChangeState env .checking
      match ← authCheck env user pass with
      | some data => do
          let lastLogin ← time env
          let data := { data with lastLogin }
          setClient fun c => { c with returnedReqdata := data }
          let _ ← userdbRequestAdd env data
          pure (some data.priv)
      | none => do
          clientChangeState env .failed
          setClient fun c => { c with currentUser := none }
          authLoop env n

/-- A login has succeeded. -/
def newLogin : ClientM σ Unit := update fun s => { s with login := s.login + 1 }

/-- The client enters or leaves its command loop. -/
def setPhase (phase : Phase) : ClientM σ Unit := update fun s => { s with phase }

/-- What is sent between a login and the command loop. -/
def announce (env : ClientEnv σ) (authlevel : ℤ) : ClientM σ Unit := do
  newLogin
  setClient fun c => { c with areAdmin := authlevel == PRIV_ADMIN }
  clientChangeState env (if authlevel = PRIV_ADMIN then .admin else .loggedin)
  match ← currentUser with
  | none => stop
  | some user => clientChangeUser env user
  clientChangeRoom env 0
  clientLook env

/-- `client_main`, from the label `auth` on. -/
def clientMain (env : ClientEnv σ) : ℕ → ClientM σ Unit
  | 0 => stop
  | n + 1 => do
      setPhase .authenticating
      clientChangeState env .auth
      match ← authLoop env MAX_FAILURES with
      | none => pure ()
      | some authlevel =>
          if authlevel = PRIV_NONE then pure ()
          else do
            announce env authlevel
            setPhase .commands
            match ← commandLoop env n with
            | .logout => clientMain env n
            | .ok | .quit => setClient fun c => { c with currentUser := none }

end NetCosm
