import EncoderNext.Checks

/-!
# The accounts in memory and on disk

What is loaded can be saved and loaded again, whatever the file held, and every
request that changes the accounts keeps that. Memory and file then agree after
each request, and a request that fails has changed neither.
-/

namespace EncoderNext

open Program Program.Stateful

namespace UserStore

/-! ## A line and its record -/

structure Clean (name : Bytes) (rec : UserRecord) : Prop where
  key : rec.username = name
  text : ∀ p ∈ [name, rec.saltHex, rec.hashHex], byte ':' ∉ p ∧ lf ∉ p
  comment : name.head? ≠ some (byte '#')
  permissions : rec.permissions ≤ 3

def AllClean (users : UserStore) : Prop :=
  ∀ name rec, users.lookup name = some rec → Clean name rec

theorem clean_insert {users : UserStore} {name : Bytes} {rec : UserRecord} (hu : AllClean users)
    (h : Clean name rec) : AllClean (users.insert name rec) := by
  intro key found hl
  by_cases hk : key = name
  · subst hk
    rw [AList.lookup_insert] at hl
    cases hl
    exact h
  · rw [AList.lookup_insert_ne hk] at hl
    exact hu key found hl

theorem small_permissions {p : UInt32} (h : p ≤ 3) : p = 0 ∨ p = 1 ∨ p = 2 ∨ p = 3 := by
  have hn : p.toNat ≤ 3 := h
  simp only [← UInt32.toNat_inj]
  simp only [UInt32.reduceToNat]
  omega

theorem readPermissions_decimal {p : UInt32} (h : p ≤ 3) :
    readPermissions (dropCr (decimal p.toNat)) = p := by
  rcases small_permissions h with rfl | rfl | rfl | rfl <;> decide

theorem digit_permissions {c : UInt8} (h₁ : byte '0' ≤ c) (h₂ : c ≤ byte '3') :
    (c - byte '0').toUInt32 ≤ 3 := by
  have hc : c.toNat ≤ 51 := h₂
  have hsub : (c - byte '0').toNat = c.toNat - 48 := UInt8.toNat_sub_of_le c _ h₁
  show (c - byte '0').toUInt32.toNat ≤ 3
  rw [UInt8.toNat_toUInt32, hsub]
  omega

theorem readPermissions_le (s : Bytes) : readPermissions s ≤ 3 := by
  unfold readPermissions
  split
  · rename_i c
    split
    · rename_i hc
      exact digit_permissions hc.1 hc.2
    · decide
  · decide

theorem parts_userLine {name : Bytes} {rec : UserRecord} (h : Clean name rec) :
    parts (byte ':') (userLine ⟨name, rec⟩) = [name, rec.saltHex, rec.hashHex,
      if rec.blocked then bytes "1" else bytes "0", decimal rec.permissions.toNat] := by
  have hflag : byte ':' ∉ (if rec.blocked then bytes "1" else bytes "0") := by
    split <;> decide
  rw [userLine, h.key]
  refine parts_joined (not_numeral rfl (decimal_numeral _)) (decimal_ne_nil _) [_, _, _, _]
    fun p hp => ?_
  simp only [List.mem_cons, List.not_mem_nil, or_false] at hp
  rcases hp with rfl | rfl | rfl | rfl
  · exact (h.text _ (by simp)).1
  · exact (h.text _ (by simp)).1
  · exact (h.text _ (by simp)).1
  · exact hflag

theorem head_userLine {name : Bytes} {rec : UserRecord} (h : Clean name rec) :
    (userLine ⟨name, rec⟩).head? ≠ some (byte '#') := by
  rw [userLine, h.key]
  cases hn : name with
  | nil =>
    show some (byte ':') ≠ some (byte '#')
    decide
  | cons c rest =>
    have hc := h.comment
    rw [hn] at hc
    exact hc

theorem loadLine_userLine {name : Bytes} {rec : UserRecord} (h : Clean name rec)
    (users : UserStore) : loadLine users (userLine ⟨name, rec⟩) = users.insert name rec := by
  have hflag : (dropCr (if rec.blocked then bytes "1" else bytes "0") != bytes "0") = rec.blocked := by
    cases rec.blocked <;> rfl
  rw [loadLine, if_neg (head_userLine h), parts_userLine h]
  simp only [hflag, readPermissions_decimal h.permissions]
  obtain ⟨rfl, -, -, -⟩ := h
  rfl

theorem lf_not_mem_userLine {name : Bytes} {rec : UserRecord} (h : Clean name rec) :
    lf ∉ userLine ⟨name, rec⟩ := by
  rw [userLine, h.key]
  refine not_mem_joined (by decide) fun p hp => ?_
  simp only [List.mem_cons, List.not_mem_nil, or_false] at hp
  rcases hp with rfl | rfl | rfl | rfl | rfl
  · exact (h.text _ (by simp)).2
  · exact (h.text _ (by simp)).2
  · exact (h.text _ (by simp)).2
  · split <;> decide
  · exact not_numeral rfl (decimal_numeral _)

/-- **Saved accounts are loaded as they were**, in whatever order they are walked. -/
theorem load_usersText {users : UserStore} (hu : AllClean users) {es : List Entry}
    (hp : es.Perm users.entries) (name : Bytes) :
    (load (some (usersText es))).lookup name = users.lookup name := by
  have hclean : ∀ e ∈ es, Clean e.1 e.2 := fun e he =>
    hu _ _ (List.mem_dlookup users.nodupKeys (hp.mem_iff.mp he))
  have hstep : ∀ e ∈ es, Inserts id loadLine (userLine e) e.1 (some e.2) :=
    fun e he => loadLine_userLine (hclean e he)
  have hempty : id (∅ : UserStore) = ∅ := rfl
  have hread := lookup_read_lines id hp (fun e he => lf_not_mem_userLine (hclean e he)) hstep hempty name
  rwa [Option.bind_fun_some] at hread

/-! ## What is loaded is clean -/

theorem head_of_parts {d c : UInt8} {s p : Bytes} {ps : List Bytes} (hs : parts d s = p :: ps)
    (hc : p.head? = some c) : s.head? = some c := by
  cases s with
  | nil => cases hs
  | cons e s =>
    by_cases he : e = d
    · rw [parts, if_pos he] at hs
      cases hs
      cases hc
    · rw [parts, if_neg he] at hs
      cases hr : parts d s with
      | nil =>
        rw [hr] at hs
        cases hs
        exact hc
      | cons q qs =>
        rw [hr] at hs
        cases hs
        exact hc

theorem clean_loadLine {users : UserStore} {line : Bytes} (hu : AllClean users) (hlf : lf ∉ line) :
    AllClean (loadLine users line) := by
  unfold loadLine
  split
  · exact hu
  rename_i hcomment
  split
  · rename_i username saltHex hashHex rest hparts
    have htext : ∀ p ∈ [username, saltHex, hashHex], byte ':' ∉ p ∧ lf ∉ p := by
      intro p hp
      have hmem : p ∈ parts (byte ':') line := by
        rw [hparts]
        simp only [List.mem_cons, List.not_mem_nil, or_false] at hp ⊢
        rcases hp with rfl | rfl | rfl <;> simp
      exact ⟨not_mem_parts p hmem, fun hc => hlf (mem_of_mem_parts hmem hc)⟩
    refine clean_insert hu ⟨rfl, htext, fun hc => hcomment (head_of_parts hparts hc), ?_⟩
    dsimp only
    split
    · exact readPermissions_le _
    · decide
  · exact hu

theorem clean_empty : AllClean ∅ := by
  intro name rec hl
  cases hl

theorem clean_load (file : Option Bytes) : AllClean (load file) := by
  cases file with
  | none => exact clean_empty
  | some text =>
    refine List.foldlRecOn (motive := AllClean) (lines text) loadLine clean_empty fun users hu l hl => ?_
    exact clean_loadLine hu (lf_not_mem_lines l hl)

/-! ## Every change keeps it clean -/

theorem nameByte_plain : ∀ c : UInt8, nameByte c = true →
    c ≠ byte ':' ∧ c ≠ lf ∧ c ≠ byte '#' := by
  refine forall_byte ?_
  decide +kernel

theorem plain_toHex (b : Bytes) : byte ':' ∉ toHex b ∧ lf ∉ toHex b :=
  ⟨not_mem_toHex (by decide) b, not_mem_toHex (by decide) b⟩

theorem plain_name {users : UserStore} {username : Bytes} (hu : AllClean users)
    (h : exists_ users username = true ∨ validUsername username = true) :
    (byte ':' ∉ username ∧ lf ∉ username) ∧ username.head? ≠ some (byte '#') := by
  rcases h with h | h
  · obtain ⟨rec, hl⟩ := Option.isSome_iff_exists.mp h
    have hc := hu _ _ hl
    exact ⟨hc.text _ (by simp), hc.comment⟩
  · simp only [validUsername, Bool.and_eq_true] at h
    have hall := fun c hc => nameByte_plain c (List.all_eq_true.mp h.2 c hc)
    exact ⟨⟨fun hc => (hall _ hc).1 rfl, fun hc => (hall _ hc).2.1 rfl⟩,
      fun hc => (hall _ (List.mem_of_head? hc)).2.2 rfl⟩

structure Renewed (kdf : PasswordKdf) (users : UserStore) (username password : Bytes)
    (users' : UserStore) : Prop where
  named : exists_ users username = true ∨ validUsername username = true
  inserted : ∃ salt : Vector UInt8 16, ∃ hashHex : Vector UInt8 32,
    pbkdf2Hash kdf password (toHex salt.toList) = some (toHex hashHex.toList) ∧
    users' = users.insert username
      { username := username, saltHex := toHex salt.toList, hashHex := toHex hashHex.toList
        blocked := ((users.lookup username).getD {}).blocked
        permissions := ((users.lookup username).getD {}).permissions }

theorem clean_renewed {kdf : PasswordKdf} {users users' : UserStore} {username password : Bytes}
    (hu : AllClean users) (h : Renewed kdf users username password users') : AllClean users' := by
  obtain ⟨hname, salt, hashHex, -, rfl⟩ := h
  obtain ⟨hplain, hcomment⟩ := plain_name hu hname
  refine clean_insert hu ⟨rfl, fun p hp => ?_, hcomment, ?_⟩
  · simp only [List.mem_cons, List.not_mem_nil, or_false] at hp
    rcases hp with rfl | rfl | rfl
    · exact hplain
    · exact plain_toHex _
    · exact plain_toHex _
  · cases hl : users.lookup username with
    | none =>
      show (3 : UInt32) ≤ 3
      decide
    | some rec => exact (hu _ _ hl).permissions

theorem pbkdf2Hash_hex {kdf : PasswordKdf} {password saltHex hashHex : Bytes}
    (h : pbkdf2Hash kdf password saltHex = some hashHex) (hne : hashHex ≠ []) :
    ∃ out : Vector UInt8 32, hashHex = toHex out.toList := by
  obtain ⟨salt, -, rfl⟩ := Option.map_eq_some_iff.mp h
  cases hk : kdf password salt iterations with
  | none =>
    rw [hk] at hne
    exact absurd rfl hne
  | some out => exact ⟨out, rfl⟩

section
variable {W : Type} {env : Env W ServerCall ServerCall.Reply} {w : W}

theorem upsert_spec (kdf : PasswordKdf) (users : UserStore) (username password : Bytes) :
    wp env (fun r _ => ∀ users', r = some users' → Renewed kdf users username password users')
      (fun _ => True) (upsert kdf users username password) w := by
  unfold upsert
  split
  · exact ⟨trivial, nofun⟩
  rename_i hgood
  have hname : exists_ users username = true ∨ validUsername username = true := by
    cases he : exists_ users username <;> cases hv : validUsername username <;> simp_all
  rw [wp_ask_bind]
  refine ⟨trivial, fun drawn w' _ => ?_⟩
  dsimp only
  split
  · exact ⟨trivial, nofun⟩
  split
  · exact ⟨trivial, nofun⟩
  · exact ⟨trivial, nofun⟩
  · rename_i hashHex hne hhash
    obtain ⟨out, rfl⟩ := pbkdf2Hash_hex hhash hne
    refine ⟨trivial, fun users' he => ?_⟩
    cases he
    exact ⟨hname, drawn.2, out, hhash, rfl⟩

end

end UserStore

/-! ## The disk -/

structure DiskWorld where
  files : Bytes → Option Bytes := fun _ => none
  replies : List Header := []

/-- A write that fails may leave anything in its file; a rename is made as a whole or
not at all. Everything else leaves the accounts' file alone. -/
def diskEnv (db : Bytes) : Env DiskWorld ServerCall ServerCall.Reply := fun w c r u =>
  match c, r with
  | .sendHeader h, _ => u.files = w.files ∧ u.replies = w.replies ++ [h]
  | .writeText path text, written =>
    u.replies = w.replies ∧ (∀ p, p ≠ path → u.files p = w.files p) ∧
      (written = true → u.files path = some text)
  | .rename source target, renamed =>
    u.replies = w.replies ∧
      if renamed = true then ∃ data, w.files source = some data ∧
        u.files = Function.update (Function.update w.files source none) target (some data)
      else u.files = w.files
  | _, _ => u.replies = w.replies ∧ u.files db = w.files db

def Agree (file : Option Bytes) (users : UserStore) : Prop :=
  ∀ name, (UserStore.load file).lookup name = users.lookup name

theorem quiet_disk {db : Bytes} {w u : DiskWorld} {c : ServerCall} {r : c.Reply} (hc : c.Quiet)
    (h : diskEnv db w c r u) : u.replies = w.replies ∧ u.files db = w.files db := by
  cases c <;> first | exact h | exact hc.elim

theorem temporary_ne (db : Bytes) : db ++ bytes ".tmp" ≠ db := by
  intro h
  have hlen := congrArg List.length h
  simp only [List.length_append] at hlen
  exact absurd hlen (by simp [bytes])

/-- Either the file holds the accounts or it is as it was. -/
theorem save_spec {db : Bytes} {users : UserStore} (hu : UserStore.AllClean users) (w : DiskWorld) :
    wp (diskEnv db) (fun saved u => u.replies = w.replies ∧
        if saved = true then Agree (u.files db) users else u.files db = w.files db)
      (fun _ => True) (UserStore.save users db) w := by
  unfold UserStore.save
  dsimp only
  rw [wp_ask_bind]
  refine ⟨trivial, fun es w₁ h₁ => ?_⟩
  rw [wp_ask_bind]
  refine ⟨trivial, fun written w₂ h₂ => ?_⟩
  obtain ⟨hreplies, hothers, hwritten⟩ := h₂
  have hdb : w₂.files db = w.files db := (hothers db (temporary_ne db).symm).trans h₁.2
  cases written with
  | false => exact ⟨trivial, hreplies.trans h₁.1, hdb⟩
  | true =>
    rw [if_neg (by decide)]
    refine ⟨trivial, fun renamed w₃ h₃ => ⟨trivial, h₃.1.trans (hreplies.trans h₁.1), ?_⟩⟩
    have hafter := h₃.2
    cases renamed with
    | false => exact (congrFun hafter db).trans hdb
    | true =>
      obtain ⟨data, hdata, hfiles⟩ := hafter
      have htext : data = UserStore.usersText es.1 := by
        rw [hwritten rfl] at hdata
        exact (Option.some.inj hdata).symm
      have hsaved : w₃.files db = some (UserStore.usersText es.1) := by
        rw [hfiles, Function.update_self, htext]
      show Agree (w₃.files db) users
      rw [hsaved]
      exact UserStore.load_usersText hu es.2

namespace Server

/-! ## Requests about accounts -/

section
variable {cfg : ServerConfig} {kdf : PasswordKdf} {s₀ s : ServerState} {w₀ w : DiskWorld}

structure Idle (cfg : ServerConfig) (s₀ : ServerState) (w₀ : DiskWorld) (s : ServerState)
    (w : DiskWorld) : Prop where
  users : s.users = s₀.users
  file : w.files cfg.usersDbPath = w₀.files cfg.usersDbPath
  replies : w.replies = w₀.replies

structure Refused (cfg : ServerConfig) (s₀ : ServerState) (w₀ : DiskWorld) (s : ServerState)
    (w : DiskWorld) : Prop where
  users : s.users = s₀.users
  file : w.files cfg.usersDbPath = w₀.files cfg.usersDbPath
  replies : ∃ message, w.replies = w₀.replies ++ [errorHeader message]

theorem kept_disk : Kept (diskEnv cfg.usersDbPath) (Idle cfg s₀ w₀) (Refused cfg s₀ w₀)
    fun _ => True where
  quiet h hc he := ⟨h.users, (quiet_disk hc he).2.trans h.file, (quiet_disk hc he).1.trans h.replies⟩
  stats _ h := ⟨h.users, h.file, h.replies⟩
  policy _ h := ⟨h.users, h.file, h.replies⟩
  error h he := ⟨h.users, (congrFun he.1 _).trans h.file, _, he.2.trans (by rw [h.replies])⟩
  ended h hc he := by
    obtain ⟨message, hm⟩ := h.replies
    exact ⟨h.users, (quiet_disk hc he).2.trans h.file, message, (quiet_disk hc he).1.trans hm⟩
  crash _ := trivial
  crashed _ := trivial

structure Stored (cfg : ServerConfig) (w₀ : DiskWorld) (users : UserStore) (s : ServerState)
    (w : DiskWorld) : Prop where
  memory : s.users = users
  file : Agree (w.files cfg.usersDbPath) users
  replies : w.replies = w₀.replies

theorem storeUsers_spec {updated : Option UserStore} {message : Bytes} (h : Idle cfg s₀ w₀ s w)
    (hu : ∀ users, updated = some users → UserStore.AllClean users) :
    wpS (diskEnv cfg.usersDbPath) (fun _ s' u => ∃ users, updated = some users ∧
        Stored cfg w₀ users s' u) (fun _ => Refused cfg s₀ w₀) (fun _ => True)
      (storeUsers cfg updated message) s w := by
  unfold storeUsers
  rw [wpS_state_bind]
  refine kept_disk.orFail h fun users husers => ?_
  rw [wpS_setUsers_bind, wpS_bind, wpS_lift]
  refine wp_post (save_spec (hu users husers) w) fun saved u _ hs => ?_
  cases saved with
  | true => exact ⟨trivial, users, husers, rfl, hs.2, hs.1.trans h.replies⟩
  | false =>
    refine wpS_guardOr_last false () _ (fun _ => ?_) nofun
    rw [wpS_setUsers_bind]
    exact kept_disk.sendError message ⟨h.users, hs.2.trans h.file, hs.1.trans h.replies⟩

inductive AccountOp where
  | changePassword
  | admin (op : UserOp)

def AccountOp.name : AccountOp → Bytes
  | changePassword => bytes "change_password"
  | admin op => op.name

def Requested (kdf : PasswordKdf) (req : Header) (users users' : UserStore) : AccountOp → Prop
  | .changePassword =>
    UserStore.Renewed kdf users (req.get (bytes "username")) (req.get (bytes "new_password")) users'
  | .admin .adminCreateUser =>
    UserStore.exists_ users (req.get (bytes "username")) = false ∧
      UserStore.Renewed kdf users (req.get (bytes "username")) (req.get (bytes "new_password")) users'
  | .admin .adminResetPassword =>
    UserStore.exists_ users (req.get (bytes "username")) = true ∧
      UserStore.Renewed kdf users (req.get (bytes "username")) (req.get (bytes "new_password")) users'
  | .admin .adminBlockUser => ∃ rec, users.lookup (req.get (bytes "username")) = some rec ∧
      users' = users.insert (req.get (bytes "username"))
        { rec with blocked := req.get (bytes "blocked") == bytes "1" }
  | .admin .adminSetPermissions => ∃ rec c, users.lookup (req.get (bytes "username")) = some rec ∧
      req.get (bytes "permissions") = [c] ∧ byte '0' ≤ c ∧ c ≤ byte '3' ∧
      users' = users.insert (req.get (bytes "username"))
        { rec with permissions := (c - byte '0').toUInt32 }

theorem clean_requested {req : Header} {users users' : UserStore} {op : AccountOp}
    (hu : UserStore.AllClean users) (h : Requested kdf req users users' op) :
    UserStore.AllClean users' := by
  match op, h with
  | .changePassword, h => exact UserStore.clean_renewed hu h
  | .admin .adminCreateUser, h => exact UserStore.clean_renewed hu h.2
  | .admin .adminResetPassword, h => exact UserStore.clean_renewed hu h.2
  | .admin .adminBlockUser, ⟨rec, hl, hnew⟩ =>
    have hc := hu _ _ hl
    exact hnew ▸ UserStore.clean_insert hu ⟨hc.key, hc.text, hc.comment, hc.permissions⟩
  | .admin .adminSetPermissions, ⟨rec, c, hl, _, h₁, h₂, hnew⟩ =>
    have hc := hu _ _ hl
    have hp := UserStore.digit_permissions h₁ h₂
    exact hnew ▸ UserStore.clean_insert hu ⟨hc.key, hc.text, hc.comment, hp⟩

/-- The change that was made; only a creation makes one for a new name. -/
structure Made (kdf : PasswordKdf) (req : Header) (users users' : UserStore) (op : AccountOp) :
    Prop where
  requested : Requested kdf req users users' op
  known : op ≠ .admin .adminCreateUser → UserStore.exists_ users (req.get (bytes "username")) = true

theorem made_admin {req : Header} {users users' : UserStore} {op : UserOp}
    (h : Requested kdf req users users' (.admin op)) : Made kdf req users users' (.admin op) := by
  refine ⟨h, fun hne => ?_⟩
  cases op with
  | adminCreateUser => exact absurd rfl hne
  | adminResetPassword => exact h.1
  | adminBlockUser =>
    obtain ⟨rec, hl, -⟩ := h
    exact Option.isSome_iff_exists.mpr ⟨rec, hl⟩
  | adminSetPermissions =>
    obtain ⟨rec, c, hl, -⟩ := h
    exact Option.isSome_iff_exists.mpr ⟨rec, hl⟩

structure Answered (cfg : ServerConfig) (w₀ : DiskWorld) (users : UserStore) (s : ServerState)
    (w : DiskWorld) : Prop where
  memory : s.users = users
  file : Agree (w.files cfg.usersDbPath) users
  replies : ∃ message, w.replies = w₀.replies ++ [messageHeader message]

theorem answer_spec {users : UserStore} {kind who detail message : Bytes}
    {E : Unit → ServerState → DiskWorld → Prop} (h : Stored cfg w₀ users s w) :
    wpS (diskEnv cfg.usersDbPath) (fun _ => Answered cfg w₀ users) E (fun _ => True)
      (do
        perform_ (.logEvent kind who detail)
        perform_ (.sendHeader (messageHeader message))) s w := by
  rw [wpS_bind, wpS_perform_]
  refine ⟨trivial, fun _ w₁ h₁ => ⟨trivial, ?_⟩⟩
  have hquiet := quiet_disk (c := .logEvent kind who detail) trivial h₁
  rw [wpS_perform_]
  refine ⟨trivial, fun _ w₂ h₂ => ⟨trivial, h.memory, ?_, message, ?_⟩⟩
  · rw [h₂.1, hquiet.2]
    exact h.file
  · rw [h₂.2, hquiet.1, h.replies]

theorem handleChangePassword_spec (req : Header) (h : Idle cfg s₀ w₀ s w)
    (hu : UserStore.AllClean s₀.users) :
    wpS (diskEnv cfg.usersDbPath) (fun _ s' u => ∃ users,
        Made kdf req s₀.users users .changePassword ∧ Answered cfg w₀ users s' u)
      (fun _ => Refused cfg s₀ w₀) (fun _ => True) (handleChangePassword cfg kdf req) s w := by
  unfold handleChangePassword
  dsimp only
  rw [wpS_bind]
  refine wpS_post (requireClient_spec kept_disk req _ _ 0 h) fun _ s₁ w₁ _ h₁ => ?_
  rw [wpS_bind]
  refine wpS_post (requireUnlocked_spec kept_disk _ _ 0 h₁.1) fun _ s₂ w₂ _ h₂ => ?_
  obtain ⟨h₂, rfl, -⟩ := h₂
  rw [wpS_bind]
  refine wpS_post (requirePassword_spec kept_disk _ _ _ h₂) fun _ s₃ w₃ _ h₃ => ?_
  obtain ⟨rfl, rfl, hverify⟩ := h₃
  have hold := UserStore.exists_of_verify hverify
  rw [h₂.users] at hold
  rw [wpS_bind]
  refine wpS_post (recordLogin_spec kept_disk _ h₂) fun _ s₄ w₄ _ h₄ => ?_
  obtain ⟨h₄, -, -⟩ := h₄
  rw [wpS_state_bind, wpS_bind, wpS_lift]
  have hquiet := UserStore.upsert_quiet kdf s₄.users (req.get (bytes "username"))
    (req.get (bytes "new_password"))
  have hupsert := wp_and (kept_disk.program hquiet h₄)
    (UserStore.upsert_spec kdf s₄.users (req.get (bytes "username")) (req.get (bytes "new_password")))
  refine wp_mono (fun updated w₅ _ h₅ => ?_) (fun _ _ => trivial) hupsert
  obtain ⟨h₅, hupdated⟩ := h₅
  rw [h₄.users] at hupdated
  rw [wpS_bind]
  refine wpS_post (storeUsers_spec h₅ fun users he => UserStore.clean_renewed hu (hupdated users he))
    fun _ s₆ w₆ _ h₆ => ?_
  obtain ⟨users, he, hstored⟩ := h₆
  refine wpS_post (answer_spec hstored) fun _ s₇ w₇ _ h₇ => ?_
  exact ⟨users, ⟨hupdated users he, fun _ => hold⟩, h₇⟩

theorem updateUser_spec (op : UserOp) (req : Header) (h : Idle cfg s₀ w₀ s w)
    (hexists : UserStore.exists_ s₀.users (req.get (bytes "username")) = (op != .adminCreateUser)) :
    wpS (diskEnv cfg.usersDbPath) (fun updated s' u => Idle cfg s₀ w₀ s' u ∧ ∀ users,
        updated = some users → Requested kdf req s₀.users users (.admin op))
      (fun _ => Refused cfg s₀ w₀) (fun _ => True)
      (updateUser kdf op req s₀.users (req.get (bytes "username"))) s w := by
  -- creation and reset only differ in whether the name is there
  have hpassword : (op = .adminCreateUser ∨ op = .adminResetPassword) →
      wpS (diskEnv cfg.usersDbPath) (fun updated s' u => Idle cfg s₀ w₀ s' u ∧ ∀ users,
          updated = some users → Requested kdf req s₀.users users (.admin op))
        (fun _ => Refused cfg s₀ w₀) (fun _ => True)
        (do
          require (8 ≤ (req.get (bytes "new_password")).length &&
            (req.get (bytes "new_password")).length ≤ 1024)
            (bytes "Password must contain 8-1024 bytes")
          lift (UserStore.upsert kdf s₀.users (req.get (bytes "username"))
            (req.get (bytes "new_password")))) s w := by
    intro hop
    refine kept_disk.require h fun _ => ?_
    rw [wpS_lift]
    have hupsert := wp_and (kept_disk.program (UserStore.upsert_quiet kdf s₀.users
      (req.get (bytes "username")) (req.get (bytes "new_password"))) h)
      (UserStore.upsert_spec kdf s₀.users (req.get (bytes "username")) (req.get (bytes "new_password")))
    refine wp_mono (fun updated u _ hr => ⟨hr.1, fun users he => ?_⟩) (fun _ _ => trivial) hupsert
    rcases hop with rfl | rfl
    · exact ⟨hexists, hr.2 users he⟩
    · exact ⟨hexists, hr.2 users he⟩
  cases op with
  | adminCreateUser => exact hpassword (.inl rfl)
  | adminResetPassword => exact hpassword (.inr rfl)
  | adminBlockUser =>
    refine kept_disk.require h fun _ => ⟨trivial, h, fun users he => ?_⟩
    obtain ⟨rec, hl, hnew⟩ := Option.map_eq_some_iff.mp he
    exact ⟨rec, hl, hnew.symm⟩
  | adminSetPermissions =>
    unfold updateUser
    dsimp only
    split
    · rename_i c hc
      refine kept_disk.require h fun hdigit => ⟨trivial, h, fun users he => ?_⟩
      simp only [Bool.and_eq_true, decide_eq_true_eq] at hdigit
      unfold UserStore.setPermissions at he
      split at he
      · cases he
      rename_i rec hl
      rw [if_neg (UInt32.not_lt.mpr (UserStore.digit_permissions hdigit.1 hdigit.2))] at he
      exact ⟨rec, c, hl, hc, hdigit.1, hdigit.2, (Option.some.inj he).symm⟩
    · exact kept_disk.fail _ h

theorem handleAdminUser_spec (op : UserOp) (req : Header) (h : Idle cfg s₀ w₀ s w)
    (hu : UserStore.AllClean s₀.users) :
    wpS (diskEnv cfg.usersDbPath) (fun _ s' u => ∃ users,
        Requested kdf req s₀.users users (.admin op) ∧ Answered cfg w₀ users s' u)
      (fun _ => Refused cfg s₀ w₀) (fun _ => True) (handleAdminUser cfg kdf op req) s w := by
  have hstore (hexists : UserStore.exists_ s₀.users (req.get (bytes "username")) =
      (op != .adminCreateUser)) :
      wpS (diskEnv cfg.usersDbPath) (fun _ s' u => ∃ users,
          Requested kdf req s₀.users users (.admin op) ∧ Answered cfg w₀ users s' u)
        (fun _ => Refused cfg s₀ w₀) (fun _ => True)
        (do
          let updated ← updateUser kdf op req s₀.users (req.get (bytes "username"))
          storeUsers cfg updated (bytes "Cannot save user database")
          perform_ (.logEvent op.name (bytes "admin") (req.get (bytes "username")))
          perform_ (.sendHeader (messageHeader (bytes "User updated")))) s w := by
    rw [wpS_bind]
    refine wpS_post (updateUser_spec op req h hexists) fun updated s₁ w₁ _ h₁ => ?_
    obtain ⟨h₁, hupdated⟩ := h₁
    rw [wpS_bind]
    refine wpS_post (storeUsers_spec h₁ fun users he => clean_requested hu (hupdated users he))
      fun _ s₂ w₂ _ h₂ => ?_
    obtain ⟨users, he, hstored⟩ := h₂
    exact wpS_post (answer_spec hstored) fun _ _ _ _ h₃ => ⟨users, hupdated users he, h₃⟩
  unfold handleAdminUser
  dsimp only
  refine kept_disk.require h fun _ => ?_
  rw [wpS_state_bind, h.users]
  by_cases hop : op = .adminCreateUser
  · rw [if_pos hop]
    refine kept_disk.require h fun hnew => hstore ?_
    simpa [hop] using hnew
  · rw [if_neg hop]
    refine kept_disk.require h fun hold => hstore ?_
    have hne : (op != .adminCreateUser) = true := by simpa using hop
    exact hold.trans hne.symm

/-! ## Any sequence of requests -/

/-- A request has answered once: with the change, or with an error and nothing changed. -/
theorem handleRequest_spec {lib : CryptoLibrary} {adminOnly : Bool} {req : Header} {op : AccountOp}
    (hop : req.get (bytes "op") = op.name) (hu : UserStore.AllClean s.users) :
    wpS (diskEnv cfg.usersDbPath) (fun _ s' u =>
        (∃ users, Made kdf req s.users users op ∧ Answered cfg w users s' u) ∨
        Refused cfg s w s' u)
      (fun _ => Refused cfg s w) (fun _ => True) (handleRequest cfg kdf lib adminOnly req) s w := by
  have h : Idle cfg s w s w := ⟨rfl, rfl, rfl⟩
  have hadmin (op : UserOp) (hop : req.get (bytes "op") = op.name) :
      wpS (diskEnv cfg.usersDbPath) (fun _ s' u =>
          (∃ users, Made kdf req s.users users (.admin op) ∧ Answered cfg w users s' u) ∨
          Refused cfg s w s' u)
        (fun _ => Refused cfg s w) (fun _ => True) (handleAdmin cfg kdf op.name req) s w := by
    unfold handleAdmin
    refine kept_disk.require h fun _ => ?_
    have hspec : wpS (diskEnv cfg.usersDbPath) (fun _ s' u =>
        (∃ users, Made kdf req s.users users (.admin op) ∧ Answered cfg w users s' u) ∨
        Refused cfg s w s' u) (fun _ => Refused cfg s w) (fun _ => True)
        (handleAdminUser cfg kdf op req) s w :=
      wpS_post (handleAdminUser_spec op req h hu) fun _ _ _ _ ⟨users, hreq, ha⟩ =>
        .inl ⟨users, made_admin hreq, ha⟩
    cases op <;> exact hspec
  unfold handleRequest
  dsimp only
  rw [hop]
  cases op with
  | admin op =>
    have hprefix : (bytes "admin_").isPrefixOf op.name = true := by cases op <;> rfl
    simp only [AccountOp.name, hprefix, Bool.not_true, Bool.and_false, Bool.false_eq_true, if_false,
      if_true]
    exact hadmin op hop
  | changePassword =>
    cases adminOnly with
    | true => exact wpS_post (kept_disk.sendError _ h) fun _ _ _ _ => .inr
    | false => exact wpS_post (handleChangePassword_spec req h hu) fun _ _ _ _ => .inl

/-- The states of a server that was started on some file and has served requests
about accounts, whatever became of its writes. -/
inductive Served (cfg : ServerConfig) (kdf : PasswordKdf) (lib : CryptoLibrary) :
    ServerState → DiskWorld → Prop where
  | start {s : ServerState} {w : DiskWorld} : s.users = UserStore.load (w.files cfg.usersDbPath) →
      Served cfg kdf lib s w
  | request {s s' : ServerState} {w w' : DiskWorld} {r : Except Unit Unit} (op : AccountOp)
      (adminOnly : Bool) (req : Header) : Served cfg kdf lib s w → req.get (bytes "op") = op.name →
      Runs (diskEnv cfg.usersDbPath) ((handleRequest cfg kdf lib adminOnly req).go s) w (r, s') w' →
      Served cfg kdf lib s' w'

theorem runs_request {lib : CryptoLibrary} {adminOnly : Bool} {req : Header} {op : AccountOp}
    {s' : ServerState} {w' : DiskWorld} {r : Except Unit Unit}
    (hop : req.get (bytes "op") = op.name) (hu : UserStore.AllClean s.users)
    (hr : Runs (diskEnv cfg.usersDbPath) ((handleRequest cfg kdf lib adminOnly req).go s) w (r, s') w') :
    (∃ users, Made kdf req s.users users op ∧ Answered cfg w users s' w') ∨
      Refused cfg s w s' w' := by
  have hspec := runs_of_wp (handleRequest_spec hop hu) hr
  cases r with
  | ok a => exact hspec
  | error e => exact .inr hspec

theorem served_agree {lib : CryptoLibrary} (h : Served cfg kdf lib s w) :
    UserStore.AllClean s.users ∧ Agree (w.files cfg.usersDbPath) s.users := by
  induction h with
  | start hload =>
    rw [hload]
    exact ⟨UserStore.clean_load _, fun _ => rfl⟩
  | request op adminOnly req _ hop hr ih =>
    rcases runs_request hop ih.1 hr with ⟨users, hmade, ha⟩ | hf
    · rw [ha.memory]
      exact ⟨clean_requested ih.1 hmade.requested, ha.file⟩
    · rw [hf.users, hf.file]
      exact ih

/-- **Memory and file never disagree.** After each request of any run the file is
loaded as what is in memory; the request has one answer, and either the change that
was asked for is made and the answer says so, or the answer is an error and neither
memory nor file has changed. -/
theorem accounts_agree {lib : CryptoLibrary} {adminOnly : Bool} {req : Header} {op : AccountOp}
    {s' : ServerState} {w' : DiskWorld} {r : Except Unit Unit} (h : Served cfg kdf lib s w)
    (hop : req.get (bytes "op") = op.name)
    (hr : Runs (diskEnv cfg.usersDbPath) ((handleRequest cfg kdf lib adminOnly req).go s) w (r, s') w') :
    (∀ name, (UserStore.load (w'.files cfg.usersDbPath)).lookup name = s'.users.lookup name) ∧
    ∃ reply, w'.replies = w.replies ++ [reply] ∧
      (reply.get (bytes "status") = bytes "ok" ∧ Requested kdf req s.users s'.users op ∨
       reply.get (bytes "status") = bytes "error" ∧ s'.users = s.users ∧
         w'.files cfg.usersDbPath = w.files cfg.usersDbPath) := by
  refine ⟨(served_agree (.request op adminOnly req h hop hr)).2, ?_⟩
  rcases runs_request hop (served_agree h).1 hr with ⟨users, hmade, ha⟩ | hf
  · obtain ⟨message, hm⟩ := ha.replies
    refine ⟨_, hm, .inl ⟨?_, ha.memory ▸ hmade.requested⟩⟩
    rw [messageHeader, Header.get_set, if_neg (by decide), Header.get_set_self]
  · obtain ⟨message, hm⟩ := hf.replies
    refine ⟨_, hm, .inr ⟨?_, hf.users, hf.file⟩⟩
    rw [errorHeader, Header.get_set, if_neg (by decide), Header.get_set_self]

end

/-! ## An account is blocked -/

def diskAnswer (w : DiskWorld) : (c : ServerCall) → c.Reply × DiskWorld
  | .sendHeader h => (true, { w with replies := w.replies ++ [h] })
  | .writeText path text => (true, { w with files := Function.update w.files path (some text) })
  | .writeFile _ _ => (false, w)
  | .rename source target =>
    match w.files source with
    | none => (false, w)
    | some data =>
      (true, { w with files := Function.update (Function.update w.files source none) target (some data) })
  | c => (c.plain 0, w)

theorem diskEnv_answer (db : Bytes) (w : DiskWorld) (c : ServerCall) :
    diskEnv db w c (diskAnswer w c).1 (diskAnswer w c).2 := by
  cases c with
  | rename source target =>
    cases hs : w.files source with
    | none => simp [diskEnv, diskAnswer, hs]
    | some data => simp [diskEnv, diskAnswer, hs]
  | writeText path text =>
    exact ⟨rfl, fun p hp => Function.update_of_ne hp _ _, fun _ => Function.update_self ..⟩
  | _ => exact ⟨rfl, rfl⟩

def sampleConfig : ServerConfig where
  keysDir := bytes "keys"
  hashesDir := bytes "hashes"
  usersDbPath := bytes "users.db"
  adminToken := bytes "token"

def noLibrary : CryptoLibrary where
  cipherByName _ := none
  sealCipher _ := .error []
  openCipher _ := .error []
  sha256 := .of32 fun _ => none
  sha512 := .of64 fun _ => none
  digestByName _ := none
  gost := none

def bobsDisk : DiskWorld where
  files := Function.update (fun _ => none) (bytes "users.db") (some (bytes "bob:00:11"))

def blockBob : Header :=
  (((Header.set {} (bytes "op") (bytes "admin_block_user")).set (bytes "admin_token") (bytes "token")).set
    (bytes "username") (bytes "bob")).set (bytes "blocked") (bytes "1")

def bobsServer : ServerState where
  users := UserStore.load (bobsDisk.files (bytes "users.db"))

def blockedBob : (Except Unit Unit × ServerState) × DiskWorld :=
  exec diskAnswer ((handleRequest sampleConfig (fun _ _ _ => none) noLibrary true blockBob).go bobsServer)
    bobsDisk

theorem accounts_agree_blockBob :
    (blockedBob.1.2.users.lookup (bytes "bob")).map (·.blocked) = some true ∧
    (UserStore.load (blockedBob.2.files (bytes "users.db"))).lookup (bytes "bob") =
      blockedBob.1.2.users.lookup (bytes "bob") := by
  have hruns : Runs (diskEnv sampleConfig.usersDbPath)
      ((handleRequest sampleConfig (fun _ _ _ => none) noLibrary true blockBob).go bobsServer) bobsDisk
      (blockedBob.1.1, blockedBob.1.2) blockedBob.2 := runs_exec (diskEnv_answer _) _ _
  have hop : blockBob.get (bytes "op") = (AccountOp.admin .adminBlockUser).name := by decide
  exact ⟨by decide, (accounts_agree (.start rfl) hop hruns).1 (bytes "bob")⟩

end Server

end EncoderNext
