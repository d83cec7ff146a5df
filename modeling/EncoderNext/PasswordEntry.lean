import EncoderNext.EncryptRequest
import EncoderNext.UsersFile

/-!
# Where a password comes from

A password is set on the command line or by a request and is asked for by a request.
On the way through a header it loses the blanks around it; the command line keeps them.
-/

namespace EncoderNext

open Program Program.Stateful

def ClientCore.authenticateRequest (cfg : ClientConfig) (username password : Bytes) : Header :=
  let header := Header.set {} (bytes "op") (bytes "auth_check")
  let header := header.set (bytes "username") username
  let header := header.set (bytes "password") password
  let header := header.set (bytes "client_id") cfg.clientId.1
  header.set (bytes "client_host") cfg.hostLabel.1

namespace UserStore

structure Keeps (kdf : PasswordKdf) (users : UserStore) (name password : Bytes) (rec : UserRecord) :
    Prop where
  found : users.lookup name = some rec
  hash : pbkdf2Hash kdf password rec.saltHex = some rec.hashHex
  filled : rec.hashHex ≠ []

theorem toHex_ne_nil (out : Vector UInt8 32) : toHex out.toList ≠ [] := by
  intro h
  have hlen := congrArg List.length h
  rw [length_toHex] at hlen
  simp at hlen

theorem keeps_renewed {kdf : PasswordKdf} {users users' : UserStore} {name password : Bytes}
    (h : Renewed kdf users name password users') : ∃ rec, Keeps kdf users' name password rec := by
  obtain ⟨-, salt, hashHex, hhash, rfl⟩ := h
  exact ⟨_, AList.lookup_insert _, hhash, toHex_ne_nil hashHex⟩

/-- Of an open account exactly the passwords are verified that derive the same key. -/
theorem verify_keeps {kdf : PasswordKdf} {users : UserStore} {name password : Bytes} {rec : UserRecord}
    (h : Keeps kdf users name password rec) (hopen : rec.blocked = false) (given : Bytes) :
    verify kdf users name given = true ↔
      pbkdf2Hash kdf given rec.saltHex = pbkdf2Hash kdf password rec.saltHex := by
  rw [h.hash, verify_iff]
  constructor
  · rintro ⟨found, hfound, -, -, hhash⟩
    obtain rfl := Option.some.inj (h.found.symm.trans hfound)
    exact hhash
  · exact fun he => ⟨rec, h.found, hopen, h.filled, he⟩

end UserStore

namespace Server

variable (cfg : ServerConfig) (kdf : PasswordKdf)

/-- `--init-user` on the accounts that were loaded. -/
def initUser (users : UserStore) (username password : Bytes) : ServerProgram Bool := do
  let updated ← UserStore.upsert kdf users username password
  match updated with
  | none => return false
  | some users => UserStore.save users cfg.usersDbPath

def AccountOp.setsPassword : AccountOp → Bool
  | changePassword | admin .adminCreateUser | admin .adminResetPassword => true
  | _ => false

/-- The accounts of a server that accepted and saved a password for a name, given on
the command line or as it was sent in a request. -/
inductive Entered (lib : CryptoLibrary) (username password : Bytes) : Bool → UserStore → Prop where
  | commandLine {w w' : DiskWorld} :
      Runs (diskEnv cfg.usersDbPath)
        (initUser cfg kdf (UserStore.load (w.files cfg.usersDbPath)) username password) w true w' →
      Entered lib username password false (UserStore.load (w'.files cfg.usersDbPath))
  | request {s s' : ServerState} {w w' : DiskWorld} {r : Except Unit Unit} {reply sent req : Header}
      {rest rest' : Bytes} (op : AccountOp) (adminOnly : Bool) (it : Iteration) :
      Served cfg kdf lib s w → sent.Writable → op.setsPassword = true →
      sent.fields.lookup (bytes "op") = some op.name →
      sent.fields.lookup (bytes "username") = some username →
      sent.fields.lookup (bytes "new_password") = some password →
      Header.read cfg.maxHeaderBytes (sent.serialize it ++ rest) = some (req, rest') →
      Runs (diskEnv cfg.usersDbPath) ((handleRequest cfg kdf lib adminOnly req).go s) w (r, s') w' →
      w'.replies = w.replies ++ [reply] → reply.get (bytes "status") = bytes "ok" →
      Entered lib username password true s'.users

def LoggedIn (users : UserStore) (account stream : Bytes) : Prop :=
  ∃ req rest, Header.read cfg.maxHeaderBytes stream = some (req, rest) ∧
    req.get (bytes "op") = bytes "auth_check" ∧ req.get (bytes "username") = account ∧
    UserStore.verify kdf users (req.get (bytes "username")) (req.get (bytes "password")) = true

def accountOf (requested : Bool) (username : Bytes) : Bytes :=
  if requested then trim username else username

section
variable {cfg kdf} {lib : CryptoLibrary} {username password : Bytes}

theorem initUser_spec {users : UserStore} (hu : UserStore.AllClean users) (w : DiskWorld) :
    wp (diskEnv cfg.usersDbPath) (fun saved u => saved = true →
        ∃ users', UserStore.Renewed kdf users username password users' ∧
          Agree (u.files cfg.usersDbPath) users')
      (fun _ => True) (initUser cfg kdf users username password) w := by
  unfold initUser
  rw [wp_bind]
  refine wp_mono (fun updated w₁ _ h₁ => ?_) (fun _ _ => trivial)
    (UserStore.upsert_spec kdf users username password)
  cases updated with
  | none => exact ⟨trivial, nofun⟩
  | some users' =>
    have hnew := h₁ users' rfl
    refine wp_mono (fun saved u _ hs hok => ?_) (fun _ _ => trivial)
      (save_spec (UserStore.clean_renewed hu hnew) w₁)
    subst hok
    exact ⟨users', hnew, hs.2⟩

theorem read_set {sent req : Header} {it : Iteration} {rest rest' key value : Bytes} {max : Nat}
    (hw : sent.Writable) (hl : sent.fields.lookup key = some value)
    (hread : Header.read max (sent.serialize it ++ rest) = some (req, rest')) :
    (sent.serialize it).length < max ∧ ∀ k, req.get k = ((sent.fields.lookup k).map trim).getD [] := by
  have hne : sent.fields.entries ≠ [] := by
    intro hnil
    rw [AList.lookup, hnil] at hl
    cases hl
  rw [Header.read_serialize hw it hne] at hread
  split at hread
  · rename_i hfits
    cases hread
    exact ⟨hfits, fun k => Header.get_parse_serialize hw it k []⟩
  · cases hread

theorem trim_name (op : AccountOp) : trim op.name = op.name := by
  cases op with
  | changePassword => decide
  | admin op => cases op <;> decide

theorem renewed_of_reply {s s' : ServerState} {w w' : DiskWorld} {adminOnly : Bool} {req reply : Header}
    {op : AccountOp} {r : Except Unit Unit} (h : Served cfg kdf lib s w) (hsets : op.setsPassword = true)
    (hop : req.get (bytes "op") = op.name)
    (hr : Runs (diskEnv cfg.usersDbPath) ((handleRequest cfg kdf lib adminOnly req).go s) w (r, s') w')
    (hreply : w'.replies = w.replies ++ [reply]) (hok : reply.get (bytes "status") = bytes "ok") :
    UserStore.Renewed kdf s.users (req.get (bytes "username")) (req.get (bytes "new_password"))
      s'.users := by
  rcases runs_request hop (served_agree h).1 hr with ⟨users, hmade, ha⟩ | hf
  · rw [ha.memory]
    match op, hsets, hmade.requested with
    | .changePassword, _, hreq => exact hreq
    | .admin .adminCreateUser, _, hreq => exact hreq.2
    | .admin .adminResetPassword, _, hreq => exact hreq.2
  · obtain ⟨message, hm⟩ := hf.replies
    obtain rfl := List.singleton_inj.mp (List.append_cancel_left (hreply.symm.trans hm))
    rw [errorHeader, Header.get_set, if_neg (by decide), Header.get_set_self] at hok
    exact absurd hok (by decide)

theorem keeps_entered {requested : Bool} {users : UserStore}
    (h : Entered cfg kdf lib username password requested users) :
    lf ∉ username ∧ ∃ rec, UserStore.Keeps kdf users (accountOf requested username)
      (if requested then trim password else password) rec := by
  cases h with
  | @commandLine w w' hr =>
    have hu := UserStore.clean_load (w.files cfg.usersDbPath)
    obtain ⟨users', hnew, hagree⟩ := runs_of_wp (initUser_spec hu w) hr rfl
    obtain ⟨rec, hkeeps⟩ := UserStore.keeps_renewed hnew
    exact ⟨(UserStore.plain_name hu hnew.named).1.2, rec, (hagree username).trans hkeeps.found,
      hkeeps.hash, hkeeps.filled⟩
  | request op adminOnly it hserved hw hsets hop hname hpass hread hr hreply hok =>
    have hget := (read_set hw hop hread).2
    have hreqop := hget (bytes "op")
    rw [hop, Option.map_some, Option.getD_some, trim_name] at hreqop
    have hnew := renewed_of_reply hserved hsets hreqop hr hreply hok
    rw [hget, hget, hname, hpass] at hnew
    exact ⟨(hw _ _ hname).2, UserStore.keeps_renewed hnew⟩

end

section
variable {cfg kdf} {lib : CryptoLibrary} {username password : Bytes} {users : UserStore}
  (client : ClientCore.ClientConfig)

theorem writable_authenticate (hname : lf ∉ username) (hpass : lf ∉ password) :
    (ClientCore.authenticateRequest client username password).Writable := by
  unfold ClientCore.authenticateRequest
  dsimp only
  repeat' refine Header.writable_set ?_ (by decide) ?_
  · exact Header.writable_empty
  · decide
  · exact hname
  · exact hpass
  · exact client.clientId.2
  · exact client.hostLabel.2

theorem lookup_authenticate (username password : Bytes) :
    (ClientCore.authenticateRequest client username password).fields.lookup (bytes "op") =
      some (bytes "auth_check") ∧
    (ClientCore.authenticateRequest client username password).fields.lookup (bytes "username") =
      some username ∧
    (ClientCore.authenticateRequest client username password).fields.lookup (bytes "password") =
      some password := by
  unfold ClientCore.authenticateRequest
  dsimp only
  simp only [Header.lookup_set]
  exact ⟨rfl, rfl, rfl⟩

/-- What is sent to log in arrives without the blanks around it. -/
theorem loggedIn_iff (hname : lf ∉ username) (hpass : lf ∉ password) (it : Iteration)
    (account rest : Bytes) :
    LoggedIn cfg kdf users account
        ((ClientCore.authenticateRequest client username password).serialize it ++ rest) ↔
      ((ClientCore.authenticateRequest client username password).serialize it).length <
        cfg.maxHeaderBytes ∧
      trim username = account ∧ UserStore.verify kdf users account (trim password) = true := by
  have hw := writable_authenticate client hname hpass
  obtain ⟨hop, huser, hpassword⟩ := lookup_authenticate client username password
  have hne : (ClientCore.authenticateRequest client username password).fields.entries ≠ [] := by
    intro hnil
    rw [AList.lookup, hnil] at hop
    cases hop
  have hget (key value : Bytes)
      (hl : (ClientCore.authenticateRequest client username password).fields.lookup key = some value) :
      (Header.parse ((ClientCore.authenticateRequest client username password).serialize it)).get key =
        trim value := by
    rw [Header.get_parse_serialize hw it, hl]
    rfl
  unfold LoggedIn
  rw [Header.read_serialize hw it hne]
  constructor
  · rintro ⟨req, rest', hread, -, hu, hv⟩
    split at hread
    · rename_i hfits
      cases hread
      rw [hget _ _ huser] at hu hv
      rw [hget _ _ hpassword, hu] at hv
      exact ⟨hfits, hu, hv⟩
    · cases hread
  · rintro ⟨hfits, rfl, hv⟩
    refine ⟨_, rest, if_pos hfits, ?_, ?_, ?_⟩
    · rw [hget _ _ hop]
      decide
    · exact hget _ _ huser
    · rw [hget _ _ huser, hget _ _ hpassword]
      exact hv

/-- **Where a password is set decides whether it can be used.** After it was accepted for
an open account, the request that `authenticate` makes of the same name and password logs
in to that account exactly if its header is read and the password was set by a request
too, or else the name has no blanks around it and those around the password do not matter
to PBKDF2. -/
theorem password_login_iff {requested : Bool} {rec : UserRecord}
    (h : Entered cfg kdf lib username password requested users) (hlf : lf ∉ password)
    (hrec : users.lookup (accountOf requested username) = some rec) (hopen : rec.blocked = false)
    (it : Iteration) (rest : Bytes) :
    LoggedIn cfg kdf users (accountOf requested username)
        ((ClientCore.authenticateRequest client username password).serialize it ++ rest) ↔
      ((ClientCore.authenticateRequest client username password).serialize it).length <
        cfg.maxHeaderBytes ∧
      (requested = true ∨ trim username = username ∧
        UserStore.pbkdf2Hash kdf (trim password) rec.saltHex =
          UserStore.pbkdf2Hash kdf password rec.saltHex) := by
  obtain ⟨hname, rec', hkeeps⟩ := keeps_entered h
  obtain rfl := Option.some.inj (hrec.symm.trans hkeeps.found)
  rw [loggedIn_iff client hname hlf, UserStore.verify_keeps hkeeps hopen]
  cases requested <;> simp [accountOf]

end

/-! ## Two passwords of one user -/

def enterAnswer (w : DiskWorld) : (c : ServerCall) → c.Reply × DiskWorld
  | .random n => ((true, Vector.replicate n 0), w)
  | c => diskAnswer w c

theorem diskEnv_enterAnswer (db : Bytes) (w : DiskWorld) (c : ServerCall) :
    diskEnv db w c (enterAnswer w c).1 (enterAnswer w c).2 := by
  cases c with
  | random n => exact ⟨rfl, rfl⟩
  | _ => exact diskEnv_answer db w _

def lengthKdf : PasswordKdf := fun password _ _ => some (Vector.replicate 32 (.ofNat password.length))

def initBob (password : Bytes) : Bool × DiskWorld :=
  exec enterAnswer (initUser sampleConfig lengthKdf ∅ (bytes "bob") password) {}

def initializedBob (password : Bytes) : UserStore :=
  UserStore.load ((initBob password).2.files (bytes "users.db"))

theorem entered_bob (password : Bytes) (h : (initBob password).1 = true) :
    Entered sampleConfig lengthKdf noLibrary (bytes "bob") password false (initializedBob password) := by
  have hruns : Runs (diskEnv sampleConfig.usersDbPath)
      (initUser sampleConfig lengthKdf ∅ (bytes "bob") password) {} (initBob password).1
      (initBob password).2 := runs_exec (diskEnv_enterAnswer _) _ _
  rw [h] at hruns
  exact .commandLine (w := {}) hruns

def deskClient : ClientCore.ClientConfig := { ClientCore.sampleConfig with clientId := ⟨bytes "c1", by decide⟩ }

theorem password_login_bob : LoggedIn sampleConfig lengthKdf (initializedBob (bytes "secret"))
    (bytes "bob") ((ClientCore.authenticateRequest deskClient (bytes "bob") (bytes "secret")).serialize
      .stored ++ []) := by
  have hentered := entered_bob (bytes "secret") (by decide)
  obtain ⟨rec, hrec⟩ : ∃ rec, (initializedBob (bytes "secret")).lookup (bytes "bob") = some rec :=
    Option.isSome_iff_exists.mp (by decide +kernel)
  have hopen : rec.blocked = false := by
    have hflag : ((initializedBob (bytes "secret")).lookup (bytes "bob")).map (·.blocked) =
        some false := by decide +kernel
    rw [hrec] at hflag
    exact Option.some.inj hflag
  exact (password_login_iff deskClient hentered (by decide) hrec hopen .stored []).mpr
    ⟨by decide, .inr ⟨by decide, rfl⟩⟩

/-- A password that starts with a blank is accepted and never verified. -/
theorem blank_password_lost :
    Entered sampleConfig lengthKdf noLibrary (bytes "bob") (bytes " secret") false
      (initializedBob (bytes " secret")) ∧
    ((initializedBob (bytes " secret")).lookup (bytes "bob")).map (·.blocked) = some false ∧
    ¬LoggedIn sampleConfig lengthKdf (initializedBob (bytes " secret")) (bytes "bob")
      ((ClientCore.authenticateRequest deskClient (bytes "bob") (bytes " secret")).serialize .stored ++
        []) := by
  refine ⟨entered_bob _ (by decide), by decide, ?_⟩
  rw [loggedIn_iff deskClient (by decide) (by decide)]
  rintro ⟨-, -, hverify⟩
  exact absurd hverify (by decide)

end Server

end EncoderNext
