import EncoderNext.Admission

/-!
# On whose authority

Before the administrator's token, or the client, the lock and the password of a user have been found
right, a request makes the server look at clocks, keep its own tables and logs, and say no.
-/

namespace EncoderNext

open Program Program.Stateful

def ServerCall.Timid (c : ServerCall) : Prop :=
  c.Inward ∨ ∃ message, c = .sendHeader (Server.errorHeader message)

open ServerCall (Timid)

namespace Server

theorem timid_error (message : Bytes) : Timid (.sendHeader (errorHeader message)) := .inr ⟨message, rfl⟩

theorem timid_of_inward (c : ServerCall) (h : c.Inward) : c.Timid := .inl h

/-! ## What the checks leave alone -/

structure SameAccess (s s' : ServerState) : Prop where
  users : s'.users = s.users
  binding : s'.policy.enabled = s.policy.enabled
  clients : ∀ clientId, s'.policy.isClientAllowed clientId = s.policy.isClientAllowed clientId

theorem SameAccess.refl (s : ServerState) : SameAccess s s := ⟨rfl, rfl, fun _ => rfl⟩

theorem SameAccess.trans (s₁ s₂ s₃ : ServerState) (h : SameAccess s₁ s₂) (h' : SameAccess s₂ s₃) :
    SameAccess s₁ s₃ :=
  ⟨h'.users.trans h.users, h'.binding.trans h.binding, fun id => (h'.clients id).trans (h.clients id)⟩

theorem isClientAllowed_registered_any (policy : BindingPolicy) (clientId label : Bytes) (now : Int)
    (other : Bytes) :
    (policy.registered clientId label now).isClientAllowed other = policy.isClientAllowed other := by
  by_cases h : other = clientId
  · rw [h, policy.isClientAllowed_registered]
  · unfold BindingPolicy.registered BindingPolicy.isClientAllowed
    simp only [AList.lookup_insert_ne h]

section
variable (cfg : ServerConfig) (kdf : PasswordKdf) (req : Header) (username op : Bytes) (size : Nat)

theorem perform_moves (c : ServerCall) : Moves SameAccess (perform_ c) :=
  moves_bind .trans (moves_perform .refl c) fun _ => moves_pure .refl ()

theorem fail_moves {α : Type} (message : Bytes) : Moves SameAccess (fail message : Handler α) :=
  moves_bind .trans (perform_moves _) fun _ => moves_throw .refl ()

theorem require_moves (b : Bool) (message : Bytes) : Moves SameAccess (require b message) :=
  moves_guardOr .refl .trans (perform_moves _)

theorem orFail_moves {α : Type} (value : Option α) (message : Bytes) :
    Moves SameAccess (orFail value message) := by
  cases value with
  | none => exact fail_moves message
  | some a => exact moves_pure .refl a

theorem onStats_moves (f : Table UserStats → ServerProgram (Table UserStats)) :
    Moves SameAccess (onStats f) := by
  intro W env s w
  rw [wpS_onStats]
  exact wp_post (wp_true _ w) fun _ _ _ _ => ⟨rfl, rfl, fun _ => rfl⟩

theorem discardPayload_moves : Moves SameAccess (discardPayload size) := by
  unfold discardPayload readExact
  by_cases hz : size = 0
  · simp only [hz, if_true]
    exact moves_bind .trans (moves_pure .refl _) fun _ => moves_pure .refl ()
  · simp only [hz, if_false]
    exact moves_bind .trans (moves_bind .trans (moves_perform .refl _) fun _ => moves_pure .refl _)
      fun _ => moves_pure .refl ()

theorem registerClient_moves (clientId label : Bytes) :
    Moves SameAccess (onPolicy fun policy => policy.registerClient clientId label) := by
  intro W env s w
  rw [wpS_onPolicy]
  unfold BindingPolicy.registerClient
  rw [wp_ask_bind]
  refine ⟨trivial, fun (now : Int) u _ => ?_⟩
  dsimp only
  rw [wp_ask_bind]
  exact ⟨trivial, fun _ _ _ => ⟨trivial, rfl, rfl, isClientAllowed_registered_any _ _ _ now⟩⟩

theorem requireClient_moves : Moves SameAccess (requireClient req username op size) := by
  refine moves_bind .trans ?_ fun allowed => moves_guardOr .refl .trans (discardPayload_moves size)
  refine moves_bind .trans (registerClient_moves _ _) fun _ => moves_bind .trans (moves_state .refl) fun s => ?_
  by_cases ha : s.policy.isClientAllowed (BindingPolicy.clientIdOf req) = true
  · simp only [ha, if_true]
    exact moves_pure .refl true
  · simp only [ha]
    refine moves_bind .trans (perform_moves _) fun _ => ?_
    exact moves_bind .trans (perform_moves _) fun _ => moves_pure .refl false

theorem requireUnlocked_moves : Moves SameAccess (requireUnlocked username op size) := by
  refine moves_bind .trans (moves_state .refl) fun s => moves_bind .trans (moves_lift .refl _) fun remaining => ?_
  cases remaining with
  | none => exact moves_pure .refl ()
  | some remaining =>
    refine moves_bind .trans (discardPayload_moves size) fun _ => ?_
    exact moves_bind .trans (perform_moves _) fun _ => fail_moves _

theorem requirePassword_moves (password : Bytes) :
    Moves SameAccess (requirePassword cfg kdf username password op) := by
  refine moves_bind .trans (moves_state .refl) fun s => moves_guardOr .refl .trans ?_
  refine moves_bind .trans (onStats_moves _) fun _ => ?_
  exact moves_bind .trans (perform_moves _) fun _ => perform_moves _

theorem recordLogin_moves : Moves SameAccess (recordLogin cfg username) := onStats_moves _

theorem checkRequest_moves (bit : UInt32) (denied : Bytes) :
    Moves SameAccess (checkRequest cfg kdf req op bit denied) := by
  refine moves_bind .trans (orFail_moves _ _) fun fileSize => moves_bind .trans (require_moves _ _) fun _ => ?_
  refine moves_bind .trans (requireClient_moves req _ op fileSize) fun _ => ?_
  refine moves_bind .trans (requireUnlocked_moves _ op fileSize) fun _ => ?_
  refine moves_bind .trans (requirePassword_moves cfg kdf _ op _) fun _ => ?_
  refine moves_bind .trans (moves_bind .trans (moves_state .refl) fun s => require_moves _ _) fun _ => ?_
  refine moves_bind .trans (recordLogin_moves cfg _) fun _ => ?_
  exact moves_bind .trans (requireUnlocked_moves _ _ fileSize) fun _ => moves_pure .refl fileSize

end

/-! ## Authority -/

def AllTimid (log : List Event) : Prop := ∀ e ∈ log, e.1.Timid

def HoldsToken (cfg : ServerConfig) (req : Header) : Prop :=
  cfg.adminToken ≠ [] ∧ req.get (bytes "admin_token") = cfg.adminToken

def neededBit (op : Bytes) : Option UInt32 :=
  if op = bytes "encrypt" then some 1
  else if op = bytes "decrypt" then some 2
  else if op = bytes "change_password" ∨ op = bytes "auth_check" then some 0
  else none

/-- Client, lock, password and permission have been found right before anything else was done. -/
structure Authenticated (kdf : PasswordKdf) (req : Header) (bit : UInt32) (s : ServerState)
    (log : List Event) : Prop where
  client : s.policy.isClientAllowed (BindingPolicy.clientIdOf req) = true
  password : UserStore.verify kdf s.users (req.get (bytes "username")) (req.get (bytes "password")) = true
  permission : bit ≠ 0 → UserStore.permissions s.users (req.get (bytes "username")) &&& bit ≠ 0
  unlocked : ∃ checks, checks <+: log ∧ AllTimid checks ∧ ∃ t : Int, (⟨.now, t⟩ : Event) ∈ checks ∧
    SecurityMonitor.lockedAt s.stats (req.get (bytes "username")) t = none

inductive Granted (cfg : ServerConfig) (kdf : PasswordKdf) (adminOnly : Bool) (req : Header)
    (s : ServerState) (log : List Event) : Prop
  | token : bytes "admin_" <+: req.get (bytes "op") → HoldsToken cfg req → Granted cfg kdf adminOnly req s log
  | login {bit : UInt32} : adminOnly = false → neededBit (req.get (bytes "op")) = some bit →
      Authenticated kdf req bit s log → Granted cfg kdf adminOnly req s log

section
variable {cfg : ServerConfig} {kdf : PasswordKdf} {lib : CryptoLibrary} {req : Header} {adminOnly : Bool}
  {first s : ServerState} {log w u : List Event} {bit : UInt32}

theorem allTimid_snoc {c : ServerCall} {r : c.Reply} (h : AllTimid log) (hc : c.Timid) :
    AllTimid (log ++ [⟨c, r⟩]) := by
  intro e hm
  rcases List.mem_append.mp hm with hm | hm
  · exact h e hm
  · exact List.mem_singleton.mp hm ▸ hc

theorem Authenticated.grows (h : Authenticated kdf req bit s log) (hu : log <+: u) : Authenticated kdf req bit s u := by
  obtain ⟨checks, hchecks, hrest⟩ := h.unlocked
  exact { h with unlocked := ⟨checks, hchecks.trans hu, hrest⟩ }

theorem Granted.grows (h : Granted cfg kdf adminOnly req s log) (hu : log <+: u) :
    Granted cfg kdf adminOnly req s u := by
  cases h with
  | token hop htoken => exact .token hop htoken
  | login hport hbit h => exact .login hport hbit (h.grows hu)

structure Meek (first s : ServerState) (log : List Event) : Prop where
  timid : AllTimid log
  access : SameAccess first s

theorem kept_true {W : Type} {env : Env W ServerCall ServerCall.Reply} :
    Kept env (fun _ _ => True) (fun _ _ => True) fun _ => True := by
  constructor <;> intros <;> trivial

/-- A check: what it passes, what it leaves alone, and that it goes on from the log. -/
theorem check_spec {α : Type} {x : Handler α} {Q : α → ServerState → List Event → Prop}
    (hx : UsesS Timid x) (hm : Moves SameAccess x) (h : Meek first s w)
    (hpass : wpS recording Q (fun _ _ _ => True) (fun _ => True) x s w) :
    wpS recording (fun a s' u => Meek first s' u ∧ w <+: u ∧ Q a s' u) (fun _ => Meek first) AllTimid x s w := by
  have htimid : wpS recording (fun _ _ => AllTimid) (fun _ _ => AllTimid) AllTimid x s w :=
    wpS_of_uses (fun _ _ _ _ hc hw he => he ▸ allTimid_snoc hw hc) hx h.timid
  have hgrow : wpS recording (fun _ _ u => w <+: u) (fun _ _ u => w <+: u) (fun u => w <+: u) x s w :=
    wpS_of_uses (fun _ _ _ _ _ hw he => prefix_recording hw he) (fun _ => uses_true _) List.prefix_rfl
  refine wpS_mono (wpS_and (wpS_and htimid hgrow) (wpS_and (hm recording s w) hpass)) ?_ ?_ ?_
  · rintro a s' u - ⟨⟨ht, hpre⟩, hmove, hq⟩
    exact ⟨⟨ht, .trans first s s' h.access hmove⟩, hpre, hq⟩
  · rintro e s' u - ⟨⟨ht, -⟩, hmove, -⟩
    exact ⟨ht, .trans first s s' h.access hmove⟩
  · exact fun u hu => hu.1.1

/-- A request that does nothing before it has been granted. -/
abbrev Gated (cfg : ServerConfig) (kdf : PasswordKdf) (adminOnly : Bool) (req : Header) (first : ServerState)
    (x : Handler Unit) (s : ServerState) (w : List Event) : Prop :=
  wpS recording (fun _ s' u => Meek first s' u ∨ Granted cfg kdf adminOnly req first u)
    (fun _ s' u => Meek first s' u ∨ Granted cfg kdf adminOnly req first u)
    (fun u => AllTimid u ∨ Granted cfg kdf adminOnly req first u) x s w

theorem gated_granted (x : Handler Unit) (h : Granted cfg kdf adminOnly req first w) :
    Gated cfg kdf adminOnly req first x s w := by
  have hgrow : wpS recording (fun _ _ u => w <+: u) (fun _ _ u => w <+: u) (fun u => w <+: u) x s w :=
    wpS_of_uses (fun _ _ _ _ _ hw he => prefix_recording hw he) (fun _ => uses_true _) List.prefix_rfl
  exact wpS_mono hgrow (fun _ _ _ _ hu => .inr (h.grows hu)) (fun _ _ _ _ hu => .inr (h.grows hu))
    fun _ hu => .inr (h.grows hu)

theorem gated_check {α : Type} {x : Handler α} {f : α → Handler Unit}
    {Q : α → ServerState → List Event → Prop} (hx : UsesS Timid x) (hm : Moves SameAccess x)
    (h : Meek first s w) (hpass : wpS recording Q (fun _ _ _ => True) (fun _ => True) x s w)
    (hf : ∀ a s' u, Meek first s' u → w <+: u → Q a s' u → Gated cfg kdf adminOnly req first (f a) s' u) :
    Gated cfg kdf adminOnly req first (x >>= f) s w := by
  rw [Gated, wpS_bind]
  refine wpS_mono (check_spec hx hm h hpass) ?_ (fun _ _ _ _ => .inl) fun _ => .inl
  exact fun a s' u _ hu => hf a s' u hu.1 hu.2.1 hu.2.2

theorem gated_refused {x : Handler Unit} (hx : UsesS Timid x) (hm : Moves SameAccess x)
    (h : Meek first s w) : Gated cfg kdf adminOnly req first x s w := by
  have hpass : wpS recording (fun _ _ _ => True) (fun _ _ _ => True) (fun _ => True) x s w := by
    refine wpS_mono (hm recording s w) ?_ ?_ ?_ <;> intros <;> trivial
  exact wpS_mono (check_spec hx hm h hpass) (fun _ _ _ _ hu => .inl hu.1) (fun _ _ _ _ => .inl) fun _ => .inl

/-! ## The requests -/

theorem gated_checked {op : Bytes} {f : Handler Unit} (hport : adminOnly = false)
    (hbit : neededBit (req.get (bytes "op")) = some 0) (h : Meek s s w) :
    Gated cfg kdf adminOnly req s (do
      requireClient req (req.get (bytes "username")) op 0
      requireUnlocked (req.get (bytes "username")) op 0
      requirePassword cfg kdf (req.get (bytes "username")) (req.get (bytes "password")) op
      f) s w := by
  have hk : Kept recording (fun _ _ => True) (fun _ _ => True) fun _ => True := kept_true
  refine gated_check (requireClient_uses timid_of_inward req _ op 0 (timid_error _))
    (requireClient_moves req _ op 0) h (requireClient_spec hk req _ op 0 trivial) fun _ s₁ w₁ h₁ _ hq₁ => ?_
  obtain ⟨-, husers, hstats, hclient⟩ := hq₁
  refine gated_check (requireUnlocked_uses timid_of_inward _ op 0 fun _ => timid_error _)
    (requireUnlocked_moves _ op 0) h₁ (requireUnlocked_spec hk _ op 0 trivial) fun _ s₂ w₂ h₂ _ hq₂ => ?_
  obtain ⟨-, rfl, t, ht, hfree⟩ := hq₂
  have hasked : (⟨.now, t⟩ : Event) ∈ w₂ := by simp [show w₂ = _ from ht]
  refine gated_check (requirePassword_uses timid_of_inward cfg kdf _ _ op (timid_error _))
    (requirePassword_moves cfg kdf _ op _) h₂ (requirePassword_spec hk _ _ op trivial) fun _ s₃ w₃ h₃ hgrown hq₃ => ?_
  have hlogin : Authenticated kdf req 0 s w₃ :=
    { client := hclient
      password := husers ▸ hq₃.2.2
      permission := fun hne => absurd rfl hne
      unlocked := ⟨w₃, List.prefix_rfl, h₃.timid, t, hgrown.subset hasked, hstats ▸ hfree⟩ }
  exact gated_granted _ (.login hport hbit hlogin)

theorem prefix_runs {α : Type} {p : ServerProgram α} {a : α} (h : Runs recording p w a u) : w <+: u := by
  have hall : wp recording (fun _ u => w <+: u) (fun u => w <+: u) p w :=
    wp_of_uses (fun _ _ _ _ _ hw he => prefix_recording hw he) (uses_true p) List.prefix_rfl
  have hgrown := runs_of_wp hall h
  exact hgrown

theorem authenticated_of_admitted {size : Nat} {s' : ServerState} (h : Admitted recording cfg kdf req bit s size s' u)
    (ht : AllTimid u) : Authenticated kdf req bit s u := by
  obtain ⟨w₁, w₂, w₃, t, t', hasked, hfree, hlogin, hagain, -⟩ := h.locks
  have hmem : (⟨.now, t⟩ : Event) ∈ w₂ := by simp [show w₂ = _ from hasked]
  have hgrown : w₂ <+: u := (prefix_runs hlogin).trans (prefix_recording List.prefix_rfl hagain)
  exact ⟨h.client, h.password, fun _ => h.permission, u, List.prefix_rfl, ht, t, hgrown.subset hmem, hfree⟩

theorem gated_file {op denied : Bytes} {f : Nat → Handler Unit} (hport : adminOnly = false)
    (hbit : neededBit (req.get (bytes "op")) = some bit) (h : Meek s s w) :
    Gated cfg kdf adminOnly req s (checkRequest cfg kdf req op bit denied >>= f) s w := by
  have hk : Kept recording (fun _ _ => True) (fun _ _ => True) fun _ => True := kept_true
  refine gated_check (checkRequest_uses timid_error timid_of_inward cfg kdf req op denied bit)
    (checkRequest_moves cfg kdf req op bit denied) h (checkRequest_spec hk req op denied bit trivial)
    fun size s₁ w₁ h₁ _ hq => ?_
  exact gated_granted _ (.login hport hbit (authenticated_of_admitted hq.2 h₁.timid))

theorem gated_admin {op : Bytes} (hop : bytes "admin_" <+: req.get (bytes "op")) (h : Meek s s w) :
    Gated cfg kdf adminOnly req s (handleAdmin cfg kdf op req) s w := by
  by_cases htoken : HoldsToken cfg req
  · exact gated_granted _ (.token hop htoken)
  · have hno : (cfg.adminToken != [] && req.get (bytes "admin_token") == cfg.adminToken) = false := by
      unfold HoldsToken at htoken
      simpa [Bool.and_eq_false_imp] using htoken
    unfold handleAdmin
    rw [hno, Gated, wpS_bind]
    have hrefused : Gated cfg kdf adminOnly req s (require false (bytes "Unauthorized")) s w :=
      gated_refused (require_uses timid_error _ _) (require_moves _ _) h
    exact wpS_guardOr_last false () _ (fun _ => gated_refused (perform_uses (timid_error _)) (perform_moves _) h)
      fun hb => Bool.noConfusion hb

theorem handleChangePassword_gated (hport : adminOnly = false)
    (hop : req.get (bytes "op") = bytes "change_password") (h : Meek s s w) :
    Gated cfg kdf adminOnly req s (handleChangePassword cfg kdf req) s w := by
  have hbit : neededBit (req.get (bytes "op")) = some 0 := by
    rw [hop]
    decide
  unfold handleChangePassword
  dsimp only
  exact gated_checked hport hbit h

theorem handleAuthCheck_gated (hport : adminOnly = false)
    (hop : req.get (bytes "op") = bytes "auth_check") (h : Meek s s w) :
    Gated cfg kdf adminOnly req s (handleAuthCheck cfg kdf req) s w := by
  have hbit : neededBit (req.get (bytes "op")) = some 0 := by
    rw [hop]
    decide
  unfold handleAuthCheck
  dsimp only
  exact gated_checked hport hbit h

theorem handleRequest_gated (h : Meek s s w) :
    Gated cfg kdf adminOnly req s (handleRequest cfg kdf lib adminOnly req) s w := by
  have hrefused (message : Bytes) : Gated cfg kdf adminOnly req s (sendError message) s w :=
    gated_refused (perform_uses (timid_error message)) (perform_moves _) h
  unfold handleRequest
  dsimp only
  split_ifs with hport hadmin hencrypt hdecrypt hchange hcheck
  · exact hrefused _
  · exact gated_admin (List.isPrefixOf_iff_prefix.mp hadmin) h
  all_goals
    have husers : adminOnly = false := by simpa [hadmin] using hport
  · exact gated_file husers (by rw [neededBit, if_pos hencrypt]) h
  · exact gated_file husers (by rw [neededBit, if_neg hencrypt, if_pos hdecrypt]) h
  · exact handleChangePassword_gated husers hchange h
  · exact handleAuthCheck_gated husers hcheck h
  · exact hrefused _

/-- **Nothing is done without authority.** Wherever a request is cut, if its log holds anything but
clocks, a payload that is read, the server's own tables and logs, and errors, then the request is an
administrator's with the token, or a user's, on the users' port, whose client was let in under the
policy in force and whose lock, password and permission had been found right before. And without such
a grant a request leaves the accounts, the binding and the answer to every client as they were. Where
the binding is off, a request without a grant may still enter its client as an allowed one. -/
theorem nothing_without_authority :
    (∀ log, Visits recording ((handleRequest cfg kdf lib adminOnly req).go s) [] log →
      (∃ e ∈ log, ¬ e.1.Timid) → Granted cfg kdf adminOnly req s log) ∧
    (∀ r s' log, Runs recording ((handleRequest cfg kdf lib adminOnly req).go s) [] (r, s') log →
      ¬ SameAccess s s' → Granted cfg kdf adminOnly req s log) := by
  have hstart : Meek s s [] := ⟨fun _ he => absurd he List.not_mem_nil, .refl s⟩
  have hall : Gated cfg kdf adminOnly req s (handleRequest cfg kdf lib adminOnly req) s [] :=
    handleRequest_gated hstart
  constructor
  · rintro log hv ⟨e, he, hbold⟩
    rcases visits_of_wp hall hv with htimid | hgranted
    · exact absurd (htimid e he) hbold
    · exact hgranted
  · intro r s' log hr hmoved
    have hend := runs_of_wp hall hr
    have hcases : Meek s s' log ∨ Granted cfg kdf adminOnly req s log := by
      cases r with
      | ok _ => exact hend
      | error _ => exact hend
    rcases hcases with hmeek | hgranted
    · exact absurd hmeek.access hmoved
    · exact hgranted

end

theorem not_timid_of_releases {c : ServerCall} (h : c.Releases) : ¬ c.Timid := by
  rintro (hinward | ⟨message, rfl⟩)
  · cases c <;> first | exact hinward | exact h
  · exact not_releases_error message h

def encryptRequested : Header := encryptAsked.set (bytes "op") (bytes "encrypt")

def requestedLog : List Event :=
  (exec recordAnswer ((handleRequest fileConfig zeroKdf copyLibrary false encryptRequested).go bobsState) []).2

theorem nothing_without_authority_bob :
    Granted fileConfig zeroKdf false encryptRequested bobsState requestedLog := by
  have hvisits : Visits recording ((handleRequest fileConfig zeroKdf copyLibrary false encryptRequested).go
      bobsState) [] requestedLog := by
    rw [requestedLog]
    exact visits_of_runs (runs_exec (fun _ _ => rfl) _ _)
  have hreleased : (requestedLog.any fun e => decide e.1.Releases) = true := by decide
  obtain ⟨e, he, hr⟩ := List.any_eq_true.mp hreleased
  exact nothing_without_authority.1 requestedLog hvisits
    ⟨e, he, not_timid_of_releases (of_decide_eq_true hr)⟩

end Server

end EncoderNext
