import EncoderNext.UsersFile

/-!
# The accounts as a function of their history

A new password rebuilds the whole record and puts it in the place of the old one.
Yet block and mask can be read off the requests that succeeded: each is what the last
decision made it, or what was loaded, or what a new account starts with.
-/

namespace EncoderNext

open Program Program.Stateful

namespace Server

structure AccountEvent where
  op : AccountOp
  req : Header
  ok : Bool

namespace AccountEvent

def username (e : AccountEvent) : Bytes := e.req.get (bytes "username")

def block (name : Bytes) (e : AccountEvent) : Option Bool :=
  match e.op with
  | .admin .adminBlockUser =>
    if e.ok = true ∧ e.username = name then some (e.req.get (bytes "blocked") == bytes "1") else none
  | _ => none

def mask (name : Bytes) (e : AccountEvent) : Option UInt32 :=
  match e.op, e.req.get (bytes "permissions") with
  | .admin .adminSetPermissions, [c] =>
    if e.ok = true ∧ e.username = name then some (c - byte '0').toUInt32 else none
  | _, _ => none

def creates (name : Bytes) (e : AccountEvent) : Bool :=
  match e.op with
  | .admin .adminCreateUser => e.ok && e.username == name
  | _ => false

theorem other_name {name : Bytes} {e : AccountEvent} (h : e.username ≠ name) :
    e.block name = none ∧ e.mask name = none ∧ e.creates name = false := by
  unfold block mask creates
  refine ⟨?_, ?_, ?_⟩
  · split <;> simp [h]
  · split <;> simp [h]
  · split <;> simp [h]

theorem failed {name : Bytes} {e : AccountEvent} (h : e.ok = false) :
    e.block name = none ∧ e.mask name = none ∧ e.creates name = false := by
  unfold block mask creates
  refine ⟨?_, ?_, ?_⟩
  · split <;> simp [h]
  · split <;> simp [h]
  · split <;> simp [h]

end AccountEvent

def lastBlock (start : UserStore) (name : Bytes) (es : List AccountEvent) : Bool :=
  (es.filterMap (AccountEvent.block name)).getLast?.getD ((start.lookup name).getD {}).blocked

def lastMask (start : UserStore) (name : Bytes) (es : List AccountEvent) : UInt32 :=
  (es.filterMap (AccountEvent.mask name)).getLast?.getD ((start.lookup name).getD {}).permissions

theorem last_snoc {α : Type} (f : AccountEvent → Option α) (d : α) (es : List AccountEvent)
    (e : AccountEvent) : ((es ++ [e]).filterMap f).getLast?.getD d =
      (f e).getD ((es.filterMap f).getLast?.getD d) := by
  cases h : f e <;> simp [h]

/-! ## What one request changes -/

/-- What a successful request makes of the account that it names. -/
def Effect (req : Header) (old new : Option UserRecord) : AccountOp → Prop
  | .admin .adminCreateUser => old = none ∧ ∃ salt hash,
      new = some
        { username := req.get (bytes "username"), saltHex := salt, hashHex := hash
          blocked := false, permissions := 3 }
  | .changePassword | .admin .adminResetPassword => ∃ rec salt hash, old = some rec ∧
      new = some { rec with saltHex := salt, hashHex := hash }
  | .admin .adminBlockUser => ∃ rec, old = some rec ∧
      new = some { rec with blocked := req.get (bytes "blocked") == bytes "1" }
  | .admin .adminSetPermissions => ∃ rec c, old = some rec ∧ req.get (bytes "permissions") = [c] ∧
      new = some { rec with permissions := (c - byte '0').toUInt32 }

/-- The named account changes as asked for, and no other. -/
structure Changes (req : Header) (users users' : UserStore) (op : AccountOp) : Prop where
  named : Effect req (users.lookup (req.get (bytes "username")))
    (users'.lookup (req.get (bytes "username"))) op
  others : ∀ name, name ≠ req.get (bytes "username") → users'.lookup name = users.lookup name

section
variable {cfg : ServerConfig} {kdf : PasswordKdf} {lib : CryptoLibrary}

theorem lookup_renewed {users users' : UserStore} {username password : Bytes}
    (h : UserStore.Renewed kdf users username password users') :
    (∃ salt hash, users'.lookup username = some
      { username := username, saltHex := salt, hashHex := hash
        blocked := ((users.lookup username).getD {}).blocked
        permissions := ((users.lookup username).getD {}).permissions }) ∧
    ∀ name, name ≠ username → users'.lookup name = users.lookup name := by
  obtain ⟨-, salt, hash, -, rfl⟩ := h
  exact ⟨⟨_, _, AList.lookup_insert _⟩, fun name hne => AList.lookup_insert_ne hne⟩

theorem changes_made {req : Header} {users users' : UserStore} {op : AccountOp}
    (hu : UserStore.AllClean users) (h : Made kdf req users users' op) : Changes req users users' op := by
  have hrenewed (hknown : UserStore.exists_ users (req.get (bytes "username")) = true)
      (hr : UserStore.Renewed kdf users (req.get (bytes "username")) (req.get (bytes "new_password"))
        users') : Changes req users users' .changePassword := by
    obtain ⟨⟨salt, hash, hl⟩, hothers⟩ := lookup_renewed hr
    obtain ⟨rec, hrec⟩ := Option.isSome_iff_exists.mp hknown
    have hkey := (hu _ _ hrec).key
    refine ⟨⟨rec, salt, hash, hrec, ?_⟩, hothers⟩
    rw [hl, hrec, ← hkey]
    rfl
  obtain ⟨hreq, hknown⟩ := h
  match op, hreq with
  | .changePassword, hr => exact hrenewed (hknown nofun) hr
  | .admin .adminResetPassword, ⟨hold, hr⟩ => exact ⟨(hrenewed hold hr).named, (hrenewed hold hr).others⟩
  | .admin .adminCreateUser, ⟨hnew, hr⟩ =>
    obtain ⟨⟨salt, hash, hl⟩, hothers⟩ := lookup_renewed hr
    have hnone := Option.isSome_eq_false_iff.mp hnew
    rw [Option.isNone_iff_eq_none] at hnone
    refine ⟨⟨hnone, salt, hash, ?_⟩, hothers⟩
    rw [hl, hnone]
    rfl
  | .admin .adminBlockUser, ⟨rec, hl, he⟩ =>
    subst he
    exact ⟨⟨rec, hl, AList.lookup_insert _⟩, fun name hne => AList.lookup_insert_ne hne⟩
  | .admin .adminSetPermissions, ⟨rec, c, hl, hc, _, _, he⟩ =>
    subst he
    exact ⟨⟨rec, c, hl, hc, AList.lookup_insert _⟩, fun name hne => AList.lookup_insert_ne hne⟩

/-! ## Any sequence of requests -/

/-- What a server that was started with some accounts has been asked about accounts,
and with which success. -/
inductive History (cfg : ServerConfig) (kdf : PasswordKdf) (lib : CryptoLibrary) (start : UserStore) :
    List AccountEvent → ServerState → DiskWorld → Prop where
  | loaded {s : ServerState} {w : DiskWorld} : start = UserStore.load (w.files cfg.usersDbPath) →
      s.users = start → History cfg kdf lib start [] s w
  | request {es : List AccountEvent} {s s' : ServerState} {w w' : DiskWorld} {r : Except Unit Unit}
      {reply : Header} (op : AccountOp) (adminOnly : Bool) (req : Header) :
      History cfg kdf lib start es s w → req.get (bytes "op") = op.name →
      Runs (diskEnv cfg.usersDbPath) ((handleRequest cfg kdf lib adminOnly req).go s) w (r, s') w' →
      w'.replies = w.replies ++ [reply] →
      History cfg kdf lib start (es ++ [⟨op, req, reply.get (bytes "status") == bytes "ok"⟩]) s' w'

theorem served_history {start : UserStore} {es : List AccountEvent} {s : ServerState} {w : DiskWorld}
    (h : History cfg kdf lib start es s w) : Served cfg kdf lib s w := by
  induction h with
  | loaded hstart husers => exact .start (husers.trans hstart)
  | request op adminOnly req _ hop hr _ ih => exact .request op adminOnly req ih hop hr

/-- A request succeeds with its change, or fails and changes nothing. -/
theorem changes_of_reply {s s' : ServerState} {w w' : DiskWorld} {adminOnly : Bool} {req : Header}
    {op : AccountOp} {r : Except Unit Unit} {reply : Header} (h : Served cfg kdf lib s w)
    (hop : req.get (bytes "op") = op.name)
    (hr : Runs (diskEnv cfg.usersDbPath) ((handleRequest cfg kdf lib adminOnly req).go s) w (r, s') w')
    (hreply : w'.replies = w.replies ++ [reply]) :
    if reply.get (bytes "status") = bytes "ok" then Changes req s.users s'.users op
    else s'.users = s.users := by
  have hu := (served_agree h).1
  rcases runs_request hop hu hr with ⟨users, hmade, ha⟩ | hf
  · obtain ⟨message, hm⟩ := ha.replies
    obtain rfl := List.singleton_inj.mp (List.append_cancel_left (hreply.symm.trans hm))
    rw [if_pos (by rw [messageHeader, Header.get_set, if_neg (by decide), Header.get_set_self]), ha.memory]
    exact changes_made hu hmade
  · obtain ⟨message, hm⟩ := hf.replies
    obtain rfl := List.singleton_inj.mp (List.append_cancel_left (hreply.symm.trans hm))
    rw [if_neg]
    · exact hf.users
    · rw [errorHeader, Header.get_set, if_neg (by decide), Header.get_set_self]
      decide

/-- Accounts that follow their history; a name without one has no decision either. -/
structure Tracks (start : UserStore) (es : List AccountEvent) (users : UserStore) : Prop where
  block : ∀ name, ((users.lookup name).getD {}).blocked = lastBlock start name es
  mask : ∀ name, ((users.lookup name).getD {}).permissions = lastMask start name es
  present : ∀ name, UserStore.exists_ users name =
    (UserStore.exists_ start name || es.any (AccountEvent.creates name))

theorem tracks_same {start users : UserStore} {es : List AccountEvent} {e : AccountEvent}
    (h : Tracks start es users) (hf : e.ok = false) : Tracks start (es ++ [e]) users := by
  refine ⟨fun name => ?_, fun name => ?_, fun name => ?_⟩
  · rw [lastBlock, last_snoc, (AccountEvent.failed hf).1]
    exact h.block name
  · rw [lastMask, last_snoc, (AccountEvent.failed hf).2.1]
    exact h.mask name
  · rw [List.any_append, h.present name]
    simp [(AccountEvent.failed hf).2.2]

/-- The event of a success says what became of the account it names. -/
theorem event_effect {req : Header} {old new : Option UserRecord} {op : AccountOp}
    (h : Effect req old new op) :
    (new.getD {}).blocked = ((AccountEvent.mk op req true).block (req.get (bytes "username"))).getD
      (old.getD {}).blocked ∧
    (new.getD {}).permissions = ((AccountEvent.mk op req true).mask (req.get (bytes "username"))).getD
      (old.getD {}).permissions ∧
    new.isSome = (old.isSome || (AccountEvent.mk op req true).creates (req.get (bytes "username"))) := by
  have hname : (AccountEvent.mk op req true).username = req.get (bytes "username") := rfl
  match op, h with
  | .changePassword, ⟨rec, salt, hash, hold, hnew⟩ =>
    subst hold hnew
    exact ⟨rfl, rfl, rfl⟩
  | .admin .adminResetPassword, ⟨rec, salt, hash, hold, hnew⟩ =>
    subst hold hnew
    exact ⟨rfl, rfl, rfl⟩
  | .admin .adminCreateUser, ⟨hold, salt, hash, hnew⟩ =>
    subst hold hnew
    refine ⟨rfl, rfl, ?_⟩
    simp [AccountEvent.creates, hname]
  | .admin .adminBlockUser, ⟨rec, hold, hnew⟩ =>
    subst hold hnew
    refine ⟨?_, rfl, rfl⟩
    simp [AccountEvent.block, hname]
  | .admin .adminSetPermissions, ⟨rec, c, hold, hc, hnew⟩ =>
    subst hold hnew
    refine ⟨rfl, ?_, rfl⟩
    simp [AccountEvent.mask, hname, hc]

theorem tracks_changes {start users users' : UserStore} {es : List AccountEvent} {op : AccountOp}
    {req : Header} (h : Tracks start es users) (hc : Changes req users users' op) :
    Tracks start (es ++ [⟨op, req, true⟩]) users' := by
  have hname : ∀ name, name ≠ req.get (bytes "username") →
      AccountEvent.username ⟨op, req, true⟩ ≠ name := fun _ hne => Ne.symm hne
  refine ⟨fun name => ?_, fun name => ?_, fun name => ?_⟩
  · rw [lastBlock, last_snoc, ← lastBlock, ← h.block name]
    by_cases hne : name = req.get (bytes "username")
    · subst hne
      exact (event_effect hc.named).1
    · rw [hc.others name hne, (AccountEvent.other_name (hname name hne)).1]
      rfl
  · rw [lastMask, last_snoc, ← lastMask, ← h.mask name]
    by_cases hne : name = req.get (bytes "username")
    · subst hne
      exact (event_effect hc.named).2.1
    · rw [hc.others name hne, (AccountEvent.other_name (hname name hne)).2.1]
      rfl
  · rw [List.any_append, ← Bool.or_assoc, ← h.present name]
    by_cases hne : name = req.get (bytes "username")
    · subst hne
      simpa [UserStore.exists_] using (event_effect hc.named).2.2
    · simp [UserStore.exists_, hc.others name hne, (AccountEvent.other_name (hname name hne)).2.2]

theorem tracks_history {start : UserStore} {es : List AccountEvent} {s : ServerState} {w : DiskWorld}
    (h : History cfg kdf lib start es s w) : Tracks start es s.users := by
  induction h with
  | loaded _ husers => exact ⟨fun name => by rw [husers]; rfl, fun name => by rw [husers]; rfl,
      fun name => by rw [husers]; simp⟩
  | @request es s s' w w' r reply op adminOnly req hh hop hr hreply ih =>
    have hstep := changes_of_reply (served_history hh) hop hr hreply
    by_cases hok : reply.get (bytes "status") = bytes "ok"
    · rw [if_pos hok] at hstep
      rw [beq_iff_eq.mpr hok]
      exact tracks_changes ih hstep
    · rw [if_neg hok] at hstep
      rw [beq_eq_false_iff_ne.mpr hok, hstep]
      exact tracks_same ih rfl

/-- **The accounts follow from their history.** A block and a mask are what the last
successful decision about the name made them, or else what was loaded or a new account
starts with; accounts are those loaded and those created. A next request that succeeds
changes the account it names, as the operation says, and no other; one that fails
changes nothing. -/
theorem account_history {start : UserStore} {es : List AccountEvent} {s : ServerState} {w : DiskWorld}
    (h : History cfg kdf lib start es s w) :
    (∀ name rec, s.users.lookup name = some rec →
      rec.blocked = lastBlock start name es ∧ rec.permissions = lastMask start name es) ∧
    (∀ name, UserStore.exists_ s.users name =
      (UserStore.exists_ start name || es.any (AccountEvent.creates name))) ∧
    ∀ {op : AccountOp} {adminOnly : Bool} {req : Header} {r : Except Unit Unit} {s' : ServerState}
      {w' : DiskWorld}, req.get (bytes "op") = op.name →
      Runs (diskEnv cfg.usersDbPath) ((handleRequest cfg kdf lib adminOnly req).go s) w (r, s') w' →
      ∃ reply, w'.replies = w.replies ++ [reply] ∧
        if reply.get (bytes "status") = bytes "ok" then Changes req s.users s'.users op
        else s'.users = s.users := by
  have htracks := tracks_history h
  refine ⟨fun name rec hl => ⟨?_, ?_⟩, htracks.present, fun {op adminOnly req r s' w'} hop hr => ?_⟩
  · rw [← htracks.block name, hl]
    rfl
  · rw [← htracks.mask name, hl]
    rfl
  · obtain ⟨reply, hreply, -⟩ := (accounts_agree (served_history h) hop hr).2
    exact ⟨reply, hreply, changes_of_reply (served_history h) hop hr hreply⟩

/-- Bob is blocked, and has the permissions of his older line. -/
theorem account_history_blockBob :
    ∃ rec, blockedBob.1.2.users.lookup (bytes "bob") = some rec ∧
      rec.blocked = true ∧ rec.permissions = 3 := by
  have hruns : Runs (diskEnv sampleConfig.usersDbPath)
      ((handleRequest sampleConfig (fun _ _ _ => none) noLibrary true blockBob).go bobsServer) bobsDisk
      (blockedBob.1.1, blockedBob.1.2) blockedBob.2 := runs_exec (diskEnv_answer _) _ _
  have hop : blockBob.get (bytes "op") = (AccountOp.admin .adminBlockUser).name := by decide
  have hone : blockedBob.2.replies.map (fun reply => reply.get (bytes "status")) = [bytes "ok"] := by
    decide
  obtain ⟨reply, hreply, -⟩ := (accounts_agree (.start rfl) hop hruns).2
  have hok : reply.get (bytes "status") = bytes "ok" := by
    rw [hreply] at hone
    exact List.singleton_inj.mp hone
  have hstart : History sampleConfig (fun _ _ _ => none) noLibrary bobsServer.users [] bobsServer bobsDisk :=
    .loaded rfl rfl
  have hsome : (blockedBob.1.2.users.lookup (bytes "bob")).isSome = true := by decide
  obtain ⟨rec, hl⟩ := Option.isSome_iff_exists.mp hsome
  obtain ⟨hblock, hmask⟩ := (account_history (hstart.request _ _ _ hop hruns hreply)).1 _ _ hl
  rw [hok] at hblock hmask
  exact ⟨rec, hl, hblock.trans (by decide), hmask.trans (by decide)⟩

end

end Server

end EncoderNext
