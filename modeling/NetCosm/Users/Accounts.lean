import NetCosm.Client.Passwords
import NetCosm.Users.Userdb

/-!
# Accounts that change while they are used

Every change of an account ends in `userdb_add`, which puts a whole record in the place of
another.  The record comes from another process.  What it does not carry is taken from the old
record by `userdb_add`, and that is the inventory alone.

## 1.  A new password

`auth_user_add` fills the record in from zero, so its pointer to the data of the world module
is null, and `userdb_add` stores that.  Everything else that belongs to the player is kept:
the name, the inventory with its one owner, and all other records (`keepsPlayer_iff`).  So
nothing is lost exactly when there was nothing to lose: `authUserAdd_keepsPlayer_iff`.

## 2.  A login

A login fetches the record, writes the time into it, and sends it back.  Between the two
requests the master serves other clients, and whatever they did to the record is undone, unless
it is only the time of the last login that they changed (`login_updates_iff`).  A user who was
removed in between is there again.
-/

namespace NetCosm

open Sessions Userdb

variable {K V : Type} {asserts : Bool} {db db' : Userdb K V}

/-! ## What belongs to a player -/

/-- The record of `user` has changed in its salt, its hash, its privileges and the time of the
last login at most.  It is still found under the name, its inventory is the same multimap, which
has one owner, and the rest of the database has not changed. -/
structure KeepsPlayer (asserts : Bool) (db db' : Userdb K V) (user : CString) : Prop where
  record : ∃ old new, db.lookup asserts user = some old ∧ db'.lookup asserts user = some new ∧
    new.data.name = old.data.name ∧ new.data.userdata = old.data.userdata ∧
    ∃ a m, old.objects = some a ∧ new.objects = some a ∧ db'.maps a = some m ∧ m.refcount = 1 ∧
      ∀ key r, db'.lookup asserts key = some r → r.objects = some a → key = user
  others : ∀ key, key ≠ user → db'.lookup asserts key = db.lookup asserts key
  maps_eq : db'.maps = db.maps

/-- **What a record without data of the world module does to a player.** -/
theorem keepsPlayer_iff (hdb : db.Owned asserts) {data : UserData} {old : UserRecord}
    (hold : db.lookup asserts data.name = some old) (hdata : data.userdata = none) :
    ∃ db', db.add asserts data = .ok (true, db') ∧
      (KeepsPlayer asserts db db' data.name ↔ old.data.userdata = none) := by
  obtain ⟨map, hadd, hplaced, hlookup⟩ := add_of_lookup hdb _ hold
  have howned := owned_add hdb hadd
  have hnew : ({ db with map } : Userdb K V).lookup asserts data.name =
      some ⟨data, old.objects⟩ := (hlookup _).trans (if_pos rfl)
  refine ⟨_, hadd, ?_, fun hnone => ?_⟩
  · rintro ⟨⟨old', new, hold', hnew', -, huserdata, -⟩, -, -⟩
    obtain rfl := Option.some.inj (hold.symm.trans hold')
    obtain rfl := Option.some.inj (hnew.symm.trans hnew')
    exact huserdata.symm.trans hdata
  · obtain ⟨a, m, ha, hm, hcount⟩ := hdb.objects _ _ hold
    refine ⟨⟨old, ⟨data, old.objects⟩, hold, hnew, (hdb.name_eq _ _ hold).symm,
      hdata.trans hnone.symm, a, m, ha, ha, hm, hcount, ?_⟩, ?_, rfl⟩
    · intro key r hr hobjects
      exact howned.inj key data.name r ⟨data, old.objects⟩ hr hnew (hobjects.trans ha.symm)
    · intro key hne
      exact (hlookup key).trans (if_neg hne)

/-- **When a new password keeps what belongs to the player.**  In every state of the database,
and for every user in it, the record that `auth_user_add` sends is stored, and it keeps what
belongs to the player exactly if no data of the world module does. -/
theorem authUserAdd_keepsPlayer_iff {σ : Type} (env : ClientEnv σ) {s : Session σ}
    {user pass : CString} {level : ℤ} {call : Call} {data : UserData}
    (hcall : call ∈ ((authUserAdd env user pass level).final s).calls.drop s.calls.length)
    (hdata : call.request = .addUserData data) {ops : List (UserdbOp K V)}
    (hrun : Runs.run (userdbStep env.asserts) Userdb.init ops = .ok db) {old : UserRecord}
    (hold : db.lookup env.asserts (removeCruft user) = some old) :
    ∃ db', db.add env.asserts data = .ok (true, db') ∧
      (KeepsPlayer env.asserts db db' (removeCruft user) ↔ old.data.userdata = none) := by
  obtain ⟨hvalid, rfl⟩ := newRecord_of_authUserAdd hcall hdata
  have hname : (s.newRecord env (removeCruft user) (removeCruft pass) level).name =
      removeCruft user := name_newRecord hvalid
  have hkeeps := keepsPlayer_iff (owned_run (owned_init env.asserts) hrun)
    ((congrArg (db.lookup env.asserts) hname).trans hold) rfl
  rwa [hname] at hkeeps

/-- A record of the user `a`. -/
def sampleAccount : UserData :=
  { UserData.zero with username := strncpy (MAX_NAME_LEN + 1) (letter 97) }

/-- The user `a` in a database of that record. -/
theorem lookup_sampleAccount :
    ∃ db : Userdb ℕ ℕ, Runs.run (userdbStep false) Userdb.init [.add sampleAccount] = .ok db ∧
      db.lookup false (letter 97) = some ⟨sampleAccount, some 0⟩ :=
  exists_of_toOption_bind (by decide +kernel)

/-- The user `a`, when a world module has kept something with the record. -/
theorem lookup_sampleAccount_userdata :
    ∃ db : Userdb ℕ ℕ, Runs.run (userdbStep false) Userdb.init
        [.add sampleAccount, .setUserdata (letter 97) (some 1)] = .ok db ∧
      db.lookup false (letter 97) = some ⟨{ sampleAccount with userdata := some 1 }, some 0⟩ :=
  exists_of_toOption_bind (by decide +kernel)

/-- A new password for a user of whom the world module keeps nothing. -/
theorem new_password_keepsPlayer :
    ∃ db db' : Userdb ℕ ℕ,
      Runs.run (userdbStep false) Userdb.init [.add sampleAccount] = .ok db ∧
        db.add false sampleRecord = .ok (true, db') ∧ KeepsPlayer false db db' (letter 97) := by
  obtain ⟨db, hrun, hlookup⟩ := lookup_sampleAccount
  obtain ⟨call, hcall, hdata⟩ := sampleRecord_sent
  have hlookup' : db.lookup lastByteEnv.asserts (removeCruft (letter 97)) =
      some ⟨sampleAccount, some 0⟩ := hlookup
  obtain ⟨db', hadd, hiff⟩ := authUserAdd_keepsPlayer_iff lastByteEnv hcall hdata hrun hlookup'
  exact ⟨db, db', hrun, hadd, hiff.mpr rfl⟩

/-- **A new password that costs a player what the world module kept.** -/
theorem new_password_loses_userdata :
    (∃ call ∈ ((authUserAdd lastByteEnv (letter 97) (letter 112) PRIV_USER).final
        (Session.start sampleServer [])).calls.drop (Session.start sampleServer []).calls.length,
      call.request = .addUserData sampleRecord) ∧
    ∃ db db' : Userdb ℕ ℕ,
      Runs.run (userdbStep false) Userdb.init
          [.add sampleAccount, .setUserdata (letter 97) (some 1)] = .ok db ∧
        db.add false sampleRecord = .ok (true, db') ∧
        ¬ KeepsPlayer false db db' (letter 97) := by
  obtain ⟨db, hrun, hlookup⟩ := lookup_sampleAccount_userdata
  have hname : sampleRecord.name = letter 97 := by decide +kernel
  obtain ⟨db', hadd, hiff⟩ := keepsPlayer_iff (owned_run (owned_init false) hrun)
    ((congrArg (db.lookup false) hname).trans hlookup) rfl
  rw [hname] at hiff
  exact ⟨sampleRecord_sent, db, db', hrun, hadd, fun h => absurd (hiff.mp h) (by simp)⟩

/-! ## What a login changes -/

/-- Nothing but the time of the last login of `user` has changed. -/
structure OnlyLastLogin (asserts : Bool) (db db' : Userdb K V) (user : CString) (t : ℤ) :
    Prop where
  record : ∃ r, db.lookup asserts user = some r ∧
    db'.lookup asserts user = some { r with data := { r.data with lastLogin := t } }
  others : ∀ key, key ≠ user → db'.lookup asserts key = db.lookup asserts key
  maps_eq : db'.maps = db.maps

/-- **What the record of a login does** to a database in which that of the user is another. -/
theorem onlyLastLogin_iff (hdb : db.Owned asserts) {fetched : UserData} (t : ℤ) :
    (∃ db', db.add asserts { fetched with lastLogin := t } = .ok (true, db') ∧
        OnlyLastLogin asserts db db' fetched.name t) ↔
      ∃ r, db.lookup asserts fetched.name = some r ∧
        { r.data with lastLogin := fetched.lastLogin } = fetched := by
  constructor
  · rintro ⟨db', hadd, ⟨r, hr, hr'⟩, -, -⟩
    obtain ⟨map, hadd', -, hlookup⟩ :=
      add_of_lookup hdb { fetched with lastLogin := t } hr
    obtain ⟨-, rfl⟩ := Prod.mk.inj (Except.ok.inj (hadd'.symm.trans hadd))
    have hnew : hashLookup (namesEnv asserts) map fetched.name =
        some ⟨{ fetched with lastLogin := t }, r.objects⟩ := (hlookup _).trans (if_pos rfl)
    have hdata := congrArg UserRecord.data (Option.some.inj (hnew.symm.trans hr'))
    refine ⟨r, hr, ?_⟩
    exact (congrArg (fun d : UserData => { d with lastLogin := fetched.lastLogin }) hdata).symm
  · rintro ⟨r, hr, hdata⟩
    obtain ⟨map, hadd, -, hlookup⟩ :=
      add_of_lookup hdb { fetched with lastLogin := t } hr
    refine ⟨_, hadd, ⟨r, hr, ?_⟩, ?_, rfl⟩
    · refine (hlookup _).trans ((if_pos rfl).trans ?_)
      rw [← hdata]
    · intro key hne
      exact (hlookup key).trans (if_neg hne)

/-- **When a login loses no change of the account.**  Whatever happens to the database between
the request of a login for the record of a user and the one that stores it again, the second
changes nothing but the time of the last login exactly if the user has a record then that is the
one fetched, up to that time. -/
theorem login_updates_iff {before between : List (UserdbOp K V)} {db₁ db₂ : Userdb K V}
    (hbefore : Runs.run (userdbStep asserts) Userdb.init before = .ok db₁)
    {user : CString} {fetched : UserRecord} (hget : db₁.lookup asserts user = some fetched)
    (hbetween : Runs.run (userdbStep asserts) db₁ between = .ok db₂) (t : ℤ) :
    (∃ db₃, db₂.add asserts { fetched.data with lastLogin := t } = .ok (true, db₃) ∧
        OnlyLastLogin asserts db₂ db₃ user t) ↔
      ∃ r, db₂.lookup asserts user = some r ∧
        { r.data with lastLogin := fetched.data.lastLogin } = fetched.data := by
  have h₁ := owned_run (owned_init asserts) hbefore
  rw [← h₁.name_eq user fetched hget]
  exact onlyLastLogin_iff (owned_run h₁ hbetween) t

/-- What the master does while `a` logs in.  The user `b` is added, becomes an administrator, is given data by the
world module and is removed; `a` logs in elsewhere; and a user `c` is added. -/
def meanwhile : List (UserdbOp ℕ ℕ) :=
  let b := { sampleAccount with username := strncpy (MAX_NAME_LEN + 1) (letter 98) }
  [.add b, .add { b with priv := PRIV_ADMIN }, .setUserdata (letter 98) (some 1),
    .add { sampleAccount with lastLogin := 5 }, .remove (letter 98),
    .add { b with username := strncpy (MAX_NAME_LEN + 1) (letter 99) }]

/-- A login among the requests of other clients.  It changes the time of the other login only. -/
theorem login_among_others :
    ∃ db₁ db₂ db₃ : Userdb ℕ ℕ,
      Runs.run (userdbStep false) Userdb.init [.add sampleAccount] = .ok db₁ ∧
        Runs.run (userdbStep false) db₁ meanwhile = .ok db₂ ∧
        db₂.lookup false (letter 97) = some ⟨{ sampleAccount with lastLogin := 5 }, some 0⟩ ∧
        db₂.add false { sampleAccount with lastLogin := 6 } = .ok (true, db₃) ∧
        OnlyLastLogin false db₂ db₃ (letter 97) 6 := by
  obtain ⟨db₁, hrun, h₁⟩ := exists_of_toOption_bind
    (x := Runs.run (userdbStep false) (Userdb.init : Userdb ℕ ℕ) [.add sampleAccount])
    (g := fun db₁ => (Runs.run (userdbStep false) db₁ meanwhile).toOption.bind fun db₂ =>
      some (db₁.lookup false (letter 97), db₂.lookup false (letter 97)))
    (b := (some ⟨sampleAccount, some 0⟩, some ⟨{ sampleAccount with lastLogin := 5 }, some 0⟩))
    (by decide +kernel)
  obtain ⟨db₂, hmeanwhile, h₂⟩ := exists_of_toOption_bind h₁
  obtain ⟨hfetched, hcurrent⟩ := Prod.mk.inj (Option.some.inj h₂)
  obtain ⟨db₃, hadd, honly⟩ :=
    (login_updates_iff hrun hfetched hmeanwhile 6).mpr ⟨_, hcurrent, rfl⟩
  exact ⟨db₁, db₂, db₃, hrun, hmeanwhile, hcurrent, hadd, honly⟩

/-- **A user who is removed while a login is under way** has the record again afterwards. -/
theorem login_restores_removed_user :
    ∃ db₁ db₂ db₃ : Userdb ℕ ℕ,
      Runs.run (userdbStep false) Userdb.init [.add sampleAccount] = .ok db₁ ∧
        db₁.lookup false (letter 97) = some ⟨sampleAccount, some 0⟩ ∧
        Runs.run (userdbStep false) db₁ [.remove (letter 97)] = .ok db₂ ∧
        db₂.lookup false (letter 97) = none ∧
        db₂.add false { sampleAccount with lastLogin := 1 } = .ok (true, db₃) ∧
        db₃.lookup false (letter 97) = some ⟨{ sampleAccount with lastLogin := 1 }, some 1⟩ ∧
        ¬ OnlyLastLogin false db₂ db₃ (letter 97) 1 := by
  obtain ⟨db₁, hrun, h₁⟩ := exists_of_toOption_bind
    (x := Runs.run (userdbStep false) (Userdb.init : Userdb ℕ ℕ) [.add sampleAccount])
    (g := fun db₁ => (Runs.run (userdbStep false) db₁ [.remove (letter 97)]).toOption.bind fun db₂ =>
      (db₂.add false { sampleAccount with lastLogin := 1 }).toOption.bind fun r =>
        some (r.1, db₁.lookup false (letter 97), db₂.lookup false (letter 97),
          r.2.lookup false (letter 97)))
    (b := (true, some ⟨sampleAccount, some 0⟩, none,
      some ⟨{ sampleAccount with lastLogin := 1 }, some 1⟩)) (by decide +kernel)
  obtain ⟨db₂, hremove, h₂⟩ := exists_of_toOption_bind h₁
  obtain ⟨⟨success, db₃⟩, hadd, h₃⟩ := exists_of_toOption_bind h₂
  obtain ⟨rfl, hbefore, hgone, hback⟩ := by simpa using h₃
  refine ⟨db₁, db₂, db₃, hrun, hbefore, hremove, hgone, hadd, hback, ?_⟩
  rintro ⟨⟨r, hr, -⟩, -, -⟩
  exact absurd (hgone.symm.trans hr) (by simp)

end NetCosm
