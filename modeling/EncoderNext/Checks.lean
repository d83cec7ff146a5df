import EncoderNext.FileRequests

/-!
# What the checks of a request leave alone

The checks before an operation neither write files of their own nor answer
anything but an error. What such quiet calls keep, and an error ends, is kept by
every check.
-/

namespace EncoderNext

open Program Program.Stateful

def ServerCall.Quiet : ServerCall → Prop
  | .sendHeader _ | .sendData _ | .writeFile .. | .writeText .. | .rename .. => False
  | _ => True

/-- Shows nothing to anyone: clocks, the payload, the server's own tables and logs. -/
def ServerCall.Inward : ServerCall → Prop
  | .now | .localHour _ | .receive _ | .saveStats _ | .savePolicy _ | .logEvent .. | .logAlert .. => True
  | _ => False

def ServerCall.Checking : ServerCall → Prop
  | .sendHeader _ => True
  | c => c.Inward

theorem ServerCall.checking_of_inward {c : ServerCall} (h : c.Inward) : c.Checking := by
  cases c <;> first | exact h.elim | exact trivial

theorem ServerCall.quiet_of_inward {c : ServerCall} (h : c.Inward) : c.Quiet := by
  cases c <;> first | exact h.elim | exact trivial

open ServerCall (Quiet Inward)

theorem uses_quiet {α : Type} {p : ServerProgram α} (h : Uses Inward p) : Uses Quiet p :=
  uses_mono (fun _ => ServerCall.quiet_of_inward) h

/-! ## Programs that only look and log -/

namespace SecurityMonitor

variable (cfg : MonitorConfig) (table : Table UserStats) (who : Bytes)

theorem keep_inward (stats : UserStats) : Uses Inward (keep table who stats) :=
  ⟨trivial, fun _ => trivial⟩

theorem lock_inward (reason : Bytes) (stats : UserStats) (configuredSec now : Int) :
    Uses Inward (lock who reason stats configuredSec now) := ⟨trivial, fun _ => trivial⟩

theorem locked_inward (reason : Bytes) (stats : UserStats) (configuredSec now : Int) :
    Uses Inward (lock who reason stats configuredSec now >>= fun stats => keep table who stats) :=
  uses_bind (lock_inward who reason stats configuredSec now) fun stats => keep_inward table who stats

theorem recordLoginFailure_inward : Uses Inward (recordLoginFailure cfg table who) := by
  unfold recordLoginFailure
  rw [uses_ask_bind]
  refine ⟨trivial, fun now => ?_⟩
  dsimp only
  split
  · exact ⟨trivial, fun _ => locked_inward table who _ _ _ _⟩
  · exact keep_inward table who _

theorem recordLoginSuccess_inward : Uses Inward (recordLoginSuccess cfg table who) := by
  unfold recordLoginSuccess
  rw [uses_ask_bind]
  refine ⟨trivial, fun now => ?_⟩
  rw [uses_ask_bind]
  refine ⟨trivial, fun hour => ?_⟩
  dsimp only
  split
  · exact ⟨trivial, fun _ => locked_inward table who _ _ _ _⟩
  · exact keep_inward table who _

variable {table who} in
theorem rule_inward {b : Bool} {kind detail reason : Bytes} {stats stats' : UserStats} {sec now : Int} :
    Uses Inward (if b = true then do
        act (.logAlert kind who detail)
        lock who reason stats sec now
      else return stats' : ServerProgram UserStats) := by
  split
  · exact ⟨trivial, fun _ => lock_inward who _ _ _ _⟩
  · exact trivial

theorem recordDecrypt_inward (repeats size : Nat) (now : Int) (stats : UserStats) :
    Uses Inward (recordDecrypt cfg who repeats size now stats) := by
  unfold recordDecrypt
  refine uses_bind rule_inward fun stats => uses_bind rule_inward fun stats => ?_
  exact rule_inward

theorem recordFileOp_inward (op : Bytes) (count size : Nat) :
    Uses Inward (recordFileOp cfg table who op count size) := by
  unfold recordFileOp
  rw [uses_ask_bind]
  refine ⟨trivial, fun now => uses_bind rule_inward fun stats => ?_⟩
  by_cases hd : op = bytes "decrypt"
  · rw [if_pos hd]
    exact uses_bind (recordDecrypt_inward cfg who _ _ _ _) fun stats => keep_inward table who stats
  · rw [if_neg hd]
    exact keep_inward table who stats

theorem isLocked_inward : Uses Inward (isLocked table who) := ⟨trivial, fun _ => trivial⟩

theorem unlockUser_inward : Uses Inward (unlockUser table who) := by
  unfold unlockUser
  cases table.lookup who with
  | none => exact trivial
  | some stats =>
    dsimp only
    rw [uses_ask_bind]
    exact ⟨trivial, fun _ => uses_bind (keep_inward table who _) fun _ => trivial⟩

end SecurityMonitor

namespace BindingPolicy

theorem registerClient_inward (policy : BindingPolicy) (clientId label : Bytes) :
    Uses Inward (policy.registerClient clientId label) :=
  ⟨trivial, fun _ => ⟨trivial, fun _ => trivial⟩⟩

end BindingPolicy

theorem UserStore.upsert_uses {P : ServerCall → Prop} (hrandom : P (.random 16)) (kdf : PasswordKdf)
    (users : UserStore) (username password : Bytes) :
    Uses P (UserStore.upsert kdf users username password) := by
  unfold UserStore.upsert
  split
  · exact trivial
  rw [uses_ask_bind]
  refine ⟨hrandom, fun drawn => ?_⟩
  dsimp only
  split
  · exact trivial
  split <;> exact trivial

theorem UserStore.upsert_quiet (kdf : PasswordKdf) (users : UserStore) (username password : Bytes) :
    Uses Quiet (UserStore.upsert kdf users username password) :=
  UserStore.upsert_uses (P := Quiet) trivial kdf users username password

namespace Server

/-! ## Rules -/

section
variable {W α β : Type} {env : Env W ServerCall ServerCall.Reply} {E : Unit → ServerState → W → Prop}
  {K : W → Prop} {s : ServerState} {w : W}

theorem wpS_perform_ {Q : Unit → ServerState → W → Prop} (c : ServerCall) :
    wpS env Q E K (perform_ c) s w ↔ K w ∧ ∀ r u, env w c r u → K u ∧ Q () s u := by
  rw [perform_, wpS_perform_bind]
  exact Iff.rfl

theorem wpS_fail {Q : α → ServerState → W → Prop} (message : Bytes) :
    wpS env Q E K (fail message) s w ↔
      K w ∧ ∀ r u, env w (.sendHeader (errorHeader message)) r u → K u ∧ E () s u := by
  rw [fail, wpS_bind, sendError, wpS_perform_]
  refine and_congr_right fun _ => forall_congr' fun r => forall_congr' fun u => ?_
  exact ⟨fun h he => (h he).2, fun h he => ⟨(h he).1, h he⟩⟩

theorem wpS_onStats {Q : Unit → ServerState → W → Prop}
    (f : Table UserStats → ServerProgram (Table UserStats)) :
    wpS env Q E K (onStats f) s w ↔
      wp env (fun stats u => Q () { s with stats := stats } u) K (f s.stats) w := by
  rw [onStats, wpS_step, wp_bind]
  exact ⟨fun h => wp_post h fun _ _ _ hq => hq.2, fun h => wp_post h fun _ _ hk hq => ⟨hk, hq⟩⟩

theorem wpS_onPolicy {Q : Unit → ServerState → W → Prop}
    (f : BindingPolicy → ServerProgram BindingPolicy) :
    wpS env Q E K (onPolicy f) s w ↔
      wp env (fun policy u => Q () { s with policy := policy } u) K (f s.policy) w := by
  rw [onPolicy, wpS_step, wp_bind]
  exact ⟨fun h => wp_post h fun _ _ _ hq => hq.2, fun h => wp_post h fun _ _ hk hq => ⟨hk, hq⟩⟩

theorem wpS_setUsers_bind {Q : β → ServerState → W → Prop} (users : UserStore)
    (f : Unit → Handler β) :
    wpS env Q E K (setUsers users >>= f) s w ↔ wpS env Q E K (f ()) { s with users := users } w := by
  rw [wpS_bind, setUsers, wpS_step]
  exact ⟨fun h => h.2, fun h => ⟨wp_here h, h⟩⟩

/-! ## What some calls keep -/

/-- `I` outlasts the calls of `P`, and an error ends it in `F`. -/
structure Endures (env : Env W ServerCall ServerCall.Reply) (P : ServerCall → Prop)
    (I F : ServerState → W → Prop) (K : W → Prop) : Prop where
  call {s : ServerState} {w u : W} {c : ServerCall} {r : c.Reply} :
    I s w → P c → env w c r u → I s u
  error {s : ServerState} {w u : W} {message : Bytes} {r : Bool} :
    I s w → env w (.sendHeader (errorHeader message)) r u → F s u
  crash {s : ServerState} {w : W} : I s w → K w
  crashed {s : ServerState} {w : W} : F s w → K w

/-- `I` outlasts quiet calls, statistics and policy; an error ends it in `F`, which
quiet calls keep as well. -/
structure Kept (env : Env W ServerCall ServerCall.Reply) (I F : ServerState → W → Prop)
    (K : W → Prop) : Prop where
  quiet {s : ServerState} {w u : W} {c : ServerCall} {r : c.Reply} :
    I s w → c.Quiet → env w c r u → I s u
  stats {s : ServerState} {w : W} (stats : Table UserStats) : I s w → I { s with stats := stats } w
  policy {s : ServerState} {w : W} (policy : BindingPolicy) :
    I s w → I { s with policy := policy } w
  error {s : ServerState} {w u : W} {message : Bytes} {r : Bool} :
    I s w → env w (.sendHeader (errorHeader message)) r u → F s u
  ended {s : ServerState} {w u : W} {c : ServerCall} {r : c.Reply} :
    F s w → c.Quiet → env w c r u → F s u
  crash {s : ServerState} {w : W} : I s w → K w
  crashed {s : ServerState} {w : W} : F s w → K w

end

namespace Endures

variable {W α β : Type} {env : Env W ServerCall ServerCall.Reply} {P : ServerCall → Prop}
  {I F : ServerState → W → Prop} {K : W → Prop} (hk : Endures env P I F K) {s : ServerState} {w : W}
include hk

theorem program {p : ServerProgram α} (hp : Uses P p) (h : I s w) :
    wp env (fun _ u => I s u) K p w := by
  have hi : wp env (fun _ u => I s u) (fun u => I s u) p w :=
    wp_of_uses (fun _ _ _ _ hc hi he => hk.call hi hc he) hp h
  exact wp_mono (fun _ _ _ => id) (fun _ => hk.crash) hi

theorem fail {Q : α → ServerState → W → Prop} (message : Bytes) (h : I s w) :
    wpS env Q (fun _ => F) K (Server.fail message) s w :=
  (wpS_fail message).mpr ⟨hk.crash h, fun _ _ he => ⟨hk.crashed (hk.error h he), hk.error h he⟩⟩

theorem sendError {E : Unit → ServerState → W → Prop} (message : Bytes) (h : I s w) :
    wpS env (fun _ => F) E K (Server.sendError message) s w :=
  (wpS_perform_ _).mpr ⟨hk.crash h, fun _ _ he => ⟨hk.crashed (hk.error h he), hk.error h he⟩⟩

theorem perform {E : Unit → ServerState → W → Prop} {c : ServerCall} (hc : P c) (h : I s w) :
    wpS env (fun _ => I) E K (Stateful.perform c : Handler c.Reply) s w :=
  wpS_perform.mpr ⟨hk.crash h, fun _ _ he => ⟨hk.crash (hk.call h hc he), hk.call h hc he⟩⟩

theorem perform_ {E : Unit → ServerState → W → Prop} {c : ServerCall} (hc : P c) (h : I s w) :
    wpS env (fun _ => I) E K (Server.perform_ c) s w :=
  (wpS_perform_ c).mpr ⟨hk.crash h, fun _ _ he => ⟨hk.crash (hk.call h hc he), hk.call h hc he⟩⟩

theorem require {Q : β → ServerState → W → Prop} {b : Bool} {message : Bytes} {f : Unit → Handler β}
    (h : I s w) (hgo : b = true → wpS env Q (fun _ => F) K (f ()) s w) :
    wpS env Q (fun _ => F) K (Server.require b message >>= f) s w :=
  wpS_guardOr b () _ f (fun _ => hk.sendError message h) hgo

theorem orFail {Q : β → ServerState → W → Prop} {value : Option α} {message : Bytes}
    {f : α → Handler β} (h : I s w)
    (hgo : ∀ a, value = some a → wpS env Q (fun _ => F) K (f a) s w) :
    wpS env Q (fun _ => F) K (Server.orFail value message >>= f) s w := by
  rw [wpS_bind]
  cases value with
  | none => exact hk.fail message h
  | some a => exact ⟨hk.crash h, hgo a rfl⟩

theorem orFail_last {Q : α → ServerState → W → Prop} {value : Option α} {message : Bytes}
    (h : I s w) (hQ : ∀ a, value = some a → Q a s w) :
    wpS env Q (fun _ => F) K (Server.orFail value message) s w := by
  cases value with
  | none => exact hk.fail message h
  | some a => exact ⟨hk.crash h, hQ a rfl⟩

theorem okOrFail {Q : β → ServerState → W → Prop} {value : Except Bytes α} {what : Bytes}
    {f : α → Handler β} (h : I s w)
    (hgo : ∀ a, value = .ok a → wpS env Q (fun _ => F) K (f a) s w) :
    wpS env Q (fun _ => F) K (Server.okOrFail value what >>= f) s w := by
  rw [wpS_bind]
  cases value with
  | error e => exact hk.fail (what ++ e) h
  | ok a => exact ⟨hk.crash h, hgo a rfl⟩

theorem readExact {E : Unit → ServerState → W → Prop} {size : Nat} (hc : P (.receive size))
    (h : I s w) : wpS env (fun _ => I) E K (Server.readExact size) s w := by
  unfold Server.readExact
  split
  · exact ⟨hk.crash h, h⟩
  · rw [wpS_bind]
    exact wpS_post (hk.perform hc h) fun _ _ _ hw hi => ⟨hw, hi⟩

end Endures

namespace Kept

variable {W α β : Type} {env : Env W ServerCall ServerCall.Reply} {I F : ServerState → W → Prop}
  {K : W → Prop} (hk : Kept env I F K) {s : ServerState} {w : W} {username op : Bytes} {size : Nat}
include hk

theorem endures : Endures env Quiet I F K := ⟨hk.quiet, hk.error, hk.crash, hk.crashed⟩

theorem program {p : ServerProgram α} (hp : Uses Quiet p) (h : I s w) :
    wp env (fun _ u => I s u) K p w :=
  hk.endures.program hp h

theorem fail {Q : α → ServerState → W → Prop} (message : Bytes) (h : I s w) :
    wpS env Q (fun _ => F) K (Server.fail message) s w :=
  hk.endures.fail message h

theorem sendError {E : Unit → ServerState → W → Prop} (message : Bytes) (h : I s w) :
    wpS env (fun _ => F) E K (Server.sendError message) s w :=
  hk.endures.sendError message h

theorem perform_ {E : Unit → ServerState → W → Prop} {c : ServerCall} (hc : c.Quiet) (h : I s w) :
    wpS env (fun _ => I) E K (Server.perform_ c) s w :=
  hk.endures.perform_ hc h

theorem onStats {E : Unit → ServerState → W → Prop}
    {f : Table UserStats → ServerProgram (Table UserStats)} (hf : ∀ t, Uses Quiet (f t)) (h : I s w) :
    wpS env (fun _ => I) E K (Server.onStats f) s w :=
  (wpS_onStats f).mpr (wp_post (hk.program (hf _) h) fun stats _ _ hi => hk.stats stats hi)

theorem require {Q : β → ServerState → W → Prop} {b : Bool} {message : Bytes} {f : Unit → Handler β}
    (h : I s w) (hgo : b = true → wpS env Q (fun _ => F) K (f ()) s w) :
    wpS env Q (fun _ => F) K (Server.require b message >>= f) s w :=
  hk.endures.require h hgo

theorem orFail {Q : β → ServerState → W → Prop} {value : Option α} {message : Bytes}
    {f : α → Handler β} (h : I s w)
    (hgo : ∀ a, value = some a → wpS env Q (fun _ => F) K (f a) s w) :
    wpS env Q (fun _ => F) K (Server.orFail value message >>= f) s w :=
  hk.endures.orFail h hgo

theorem okOrFail {Q : β → ServerState → W → Prop} {value : Except Bytes α} {what : Bytes}
    {f : α → Handler β} (h : I s w)
    (hgo : ∀ a, value = .ok a → wpS env Q (fun _ => F) K (f a) s w) :
    wpS env Q (fun _ => F) K (Server.okOrFail value what >>= f) s w :=
  hk.endures.okOrFail h hgo

theorem readExact {E : Unit → ServerState → W → Prop} (size : Nat) (h : I s w) :
    wpS env (fun _ => I) E K (Server.readExact size) s w :=
  hk.endures.readExact trivial h

theorem discardPayload {E : Unit → ServerState → W → Prop} (size : Nat) (h : I s w) :
    wpS env (fun _ => I) E K (Server.discardPayload size) s w := by
  rw [Server.discardPayload, wpS_bind]
  exact wpS_post (hk.readExact size h) fun _ _ _ hw hi => ⟨hw, hi⟩

theorem ended_discardPayload {E : Unit → ServerState → W → Prop} (size : Nat) (h : F s w) :
    wpS env (fun _ => F) E K (Server.discardPayload size) s w := by
  rw [Server.discardPayload, wpS_bind]
  unfold Server.readExact
  split
  · exact ⟨hk.crashed h, hk.crashed h, h⟩
  · rw [wpS_perform_bind]
    refine ⟨hk.crashed h, fun _ u he => ?_⟩
    have hu := hk.ended (c := .receive size) h trivial he
    exact ⟨hk.crashed hu, hk.crashed hu, hu⟩

end Kept

/-! ## The checks one by one -/

section
variable {W : Type} {env : Env W ServerCall ServerCall.Reply} {I F : ServerState → W → Prop}
  {K : W → Prop} (hk : Kept env I F K) {s : ServerState} {w : W} {cfg : ServerConfig}
  {kdf : PasswordKdf}
include hk

theorem requireClient_spec (req : Header) (username op : Bytes) (size : Nat) (h : I s w) :
    wpS env (fun _ s' u => I s' u ∧ s'.users = s.users ∧ s'.stats = s.stats ∧
        s.policy.isClientAllowed (BindingPolicy.clientIdOf req) = true)
      (fun _ => F) K (requireClient req username op size) s w := by
  have hlet := BindingPolicy.isClientAllowed_registered s.policy (BindingPolicy.clientIdOf req)
    (BindingPolicy.clientHostOf req)
  unfold requireClient enforceClientBinding
  rw [wpS_bind, wpS_bind, wpS_onPolicy]
  unfold BindingPolicy.registerClient
  rw [wp_ask_bind]
  refine ⟨hk.crash h, fun (now : Int) w₁ hnow => ?_⟩
  have h₁ := hk.quiet (c := .now) h trivial hnow
  dsimp only
  rw [wp_ask_bind]
  refine ⟨hk.crash h₁, fun _ w₂ hsave => ?_⟩
  have h₂ := hk.policy (s.policy.registered (BindingPolicy.clientIdOf req)
    (BindingPolicy.clientHostOf req) now) (hk.quiet (c := .savePolicy _) h₁ trivial hsave)
  refine ⟨hk.crash h₂, ?_⟩
  dsimp only
  rw [wpS_state_bind]
  by_cases ha : s.policy.isClientAllowed (BindingPolicy.clientIdOf req) = true
  · rw [if_pos ((hlet now).trans ha)]
    exact ⟨hk.crash h₂, hk.crash h₂, h₂, rfl, rfl, ha⟩
  · rw [if_neg (by rw [hlet now]; exact ha), wpS_bind]
    refine wpS_post (hk.perform_ trivial h₂) fun _ s₃ w₃ _ h₃ => ?_
    rw [wpS_bind]
    refine wpS_post (hk.sendError _ h₃) fun _ s₄ w₄ hk₄ h₄ => ⟨hk₄, ?_⟩
    show wpS env _ _ K (Server.discardPayload size >>= fun _ => throw ()) s₄ w₄
    rw [wpS_bind]
    exact wpS_post (hk.ended_discardPayload size h₄) fun _ _ _ hk₅ h₅ => ⟨hk₅, h₅⟩

theorem requireUnlocked_spec (username stage : Bytes) (size : Nat) (h : I s w) :
    wpS env (fun _ s' u => I s' u ∧ s' = s ∧
        ∃ t : Int, env w .now t u ∧ SecurityMonitor.lockedAt s.stats username t = none)
      (fun _ => F) K (requireUnlocked username stage size) s w := by
  unfold requireUnlocked
  rw [wpS_state_bind, wpS_bind, wpS_lift]
  unfold SecurityMonitor.isLocked
  rw [wp_ask_bind]
  refine ⟨hk.crash h, fun (t : Int) u ht => ?_⟩
  have hu := hk.quiet (c := .now) h trivial ht
  refine ⟨hk.crash hu, ?_⟩
  cases hl : SecurityMonitor.lockedAt s.stats username t with
  | none => exact ⟨hk.crash hu, hu, rfl, t, ht, hl⟩
  | some remaining =>
    dsimp only
    rw [wpS_bind]
    refine wpS_post (hk.discardPayload size hu) fun _ s₁ w₁ _ h₁ => ?_
    rw [wpS_bind]
    refine wpS_post (hk.perform_ trivial h₁) fun _ s₂ w₂ _ h₂ => ?_
    exact hk.fail _ h₂

theorem requirePassword_spec (username password op : Bytes) (h : I s w) :
    wpS env (fun _ s' u => s' = s ∧ u = w ∧ UserStore.verify kdf s.users username password = true)
      (fun _ => F) K (requirePassword cfg kdf username password op) s w := by
  unfold requirePassword
  rw [wpS_state_bind]
  cases hv : UserStore.verify kdf s.users username password with
  | true => exact ⟨hk.crash h, rfl, rfl, rfl⟩
  | false =>
    show wpS env _ _ K ((_ : Handler Unit) >>= fun _ => throw ()) s w
    rw [wpS_bind, wpS_bind]
    have hfail (t : Table UserStats) :=
      uses_quiet (SecurityMonitor.recordLoginFailure_inward cfg.monitor t username)
    refine wpS_post (hk.onStats hfail h) fun _ s₁ w₁ _ h₁ => ?_
    rw [wpS_bind]
    refine wpS_post (hk.perform_ trivial h₁) fun _ s₂ w₂ _ h₂ => ?_
    exact wpS_post (hk.sendError _ h₂) fun _ _ _ hk₃ h₃ => ⟨hk₃, h₃⟩

theorem recordLogin_spec (username : Bytes) (h : I s w) :
    wpS env (fun _ s' u => I s' u ∧ s'.users = s.users ∧
        Runs env (SecurityMonitor.recordLoginSuccess cfg.monitor s.stats username) w s'.stats u)
      (fun _ => F) K (recordLogin cfg username) s w := by
  rw [recordLogin, wpS_onStats]
  have hquiet :=
    uses_quiet (SecurityMonitor.recordLoginSuccess_inward cfg.monitor s.stats username)
  have hboth := wp_and (hk.program hquiet h) (wp_runs _ w)
  exact wp_mono (fun stats u _ hi => ⟨hk.stats stats hi.1, rfl, hi.2⟩) (fun _ => And.left) hboth

end

/-- What a request that was admitted has passed. -/
structure Admitted {W : Type} (env : Env W ServerCall ServerCall.Reply) (cfg : ServerConfig)
    (kdf : PasswordKdf) (req : Header) (bit : UInt32) (s : ServerState) (size : Nat)
    (s' : ServerState) (u : W) : Prop where
  carried : stoull (req.get (bytes "file_size") (bytes "0")) = some size
  fits : size ≤ cfg.maxFileBytes
  client : s.policy.isClientAllowed (BindingPolicy.clientIdOf req) = true
  password : UserStore.verify kdf s.users (req.get (bytes "username")) (req.get (bytes "password")) =
    true
  permission : UserStore.permissions s.users (req.get (bytes "username")) &&& bit ≠ 0
  users : s'.users = s.users
  /-- The account is not locked, the login is recorded, and it is still not locked. -/
  locks : ∃ (w₁ w₂ w₃ : W) (t t' : Int), env w₁ .now t w₂ ∧
    SecurityMonitor.lockedAt s.stats (req.get (bytes "username")) t = none ∧
    Runs env (SecurityMonitor.recordLoginSuccess cfg.monitor s.stats (req.get (bytes "username"))) w₂
      s'.stats w₃ ∧
    env w₃ .now t' u ∧ SecurityMonitor.lockedAt s'.stats (req.get (bytes "username")) t' = none

theorem checkRequest_spec {W : Type} {env : Env W ServerCall ServerCall.Reply}
    {I F : ServerState → W → Prop} {K : W → Prop} (hk : Kept env I F K) {s : ServerState} {w : W}
    {cfg : ServerConfig} {kdf : PasswordKdf} (req : Header) (op denied : Bytes) (bit : UInt32)
    (h : I s w) :
    wpS env (fun size s' u => I s' u ∧ Admitted env cfg kdf req bit s size s' u) (fun _ => F) K
      (checkRequest cfg kdf req op bit denied) s w := by
  unfold checkRequest
  dsimp only
  refine hk.orFail h fun size hsize => ?_
  refine hk.require h fun hfits => ?_
  rw [wpS_bind]
  refine wpS_post (requireClient_spec hk req _ op size h) fun _ s₁ w₁ _ h₁ => ?_
  obtain ⟨h₁, husers, hstats, hclient⟩ := h₁
  rw [wpS_bind]
  refine wpS_post (requireUnlocked_spec hk _ op size h₁) fun _ s₂ w₂ _ h₂ => ?_
  obtain ⟨h₂, rfl, t, ht, hbefore⟩ := h₂
  rw [wpS_bind]
  refine wpS_post (requirePassword_spec hk _ _ op h₂) fun _ s₃ w₃ _ h₃ => ?_
  obtain ⟨rfl, rfl, hpassword⟩ := h₃
  unfold requirePermission
  rw [wpS_bind, wpS_state_bind]
  refine wpS_guardOr_last _ () _ (fun _ => hk.sendError _ h₂) fun hpermission => ?_
  refine ⟨hk.crash h₂, ?_⟩
  rw [wpS_bind]
  refine wpS_post (recordLogin_spec hk _ h₂) fun _ s₄ w₄ _ h₄ => ?_
  obtain ⟨h₄, husers', hlogin⟩ := h₄
  rw [wpS_bind]
  refine wpS_post (requireUnlocked_spec hk _ _ size h₄) fun _ s₅ w₅ hk₅ h₅ => ?_
  obtain ⟨h₅, rfl, t', ht', hafter⟩ := h₅
  refine ⟨hk₅, h₅, hsize, of_decide_eq_true hfits, hclient, husers ▸ hpassword, ?_, husers'.trans husers,
    w₁, _, w₄, t, t', ht, hstats ▸ hbefore, hstats ▸ hlogin, ht', hafter⟩
  rw [← husers]
  simpa using hpermission

/-! ## Which calls the checks make -/

section
variable {α : Type} {P : ServerCall → Prop}

theorem perform_uses {c : ServerCall} (hc : P c) : UsesS P (perform_ c) :=
  usesS_bind (usesS_perform hc) fun _ => usesS_pure ()

section
variable (hP : ∀ c, Inward c → P c)
include hP

theorem onStats_uses {f : Table UserStats → ServerProgram (Table UserStats)}
    (hf : ∀ t, Uses Inward (f t)) : UsesS P (onStats f) :=
  usesS_step fun s => uses_bind (uses_mono hP (hf s.stats)) fun _ => trivial

theorem readExact_uses (size : Nat) : UsesS P (readExact size) := by
  unfold readExact
  split
  · exact usesS_pure _
  · exact usesS_bind (usesS_perform (hP (.receive size) trivial)) fun _ => usesS_pure _

theorem discardPayload_uses (size : Nat) : UsesS P (discardPayload size) :=
  usesS_bind (readExact_uses hP size) fun _ => usesS_pure ()

theorem requireClient_uses (req : Header) (username op : Bytes) (size : Nat)
    (h : P (.sendHeader (errorHeader (bytes "Client is not allowed by binding policy")))) :
    UsesS P (requireClient req username op size) := by
  refine usesS_bind ?_ fun allowed => usesS_guardOr (discardPayload_uses hP size)
  refine usesS_bind (usesS_step fun s => uses_bind (uses_mono hP ?_) fun _ => trivial) fun _ => ?_
  · exact s.policy.registerClient_inward _ _
  refine usesS_bind usesS_state fun s => ?_
  split
  · exact usesS_pure true
  · refine usesS_bind (perform_uses (hP (.logAlert _ _ _) trivial)) fun _ => ?_
    exact usesS_bind (perform_uses h) fun _ => usesS_pure false

theorem requireUnlocked_uses (username stage : Bytes) (size : Nat)
    (h : ∀ remaining, P (.sendHeader (errorHeader (lockedMessage remaining)))) :
    UsesS P (requireUnlocked username stage size) := by
  refine usesS_bind usesS_state fun s => usesS_bind (usesS_lift ?_) fun remaining => ?_
  · exact uses_mono hP (SecurityMonitor.isLocked_inward s.stats username)
  · cases remaining with
    | none => exact usesS_pure ()
    | some remaining =>
      refine usesS_bind (discardPayload_uses hP size) fun _ => ?_
      refine usesS_bind (perform_uses (hP (.logEvent _ _ _) trivial)) fun _ => ?_
      exact usesS_bind (perform_uses (h remaining)) fun _ => usesS_throw ()

theorem requirePassword_uses (cfg : ServerConfig) (kdf : PasswordKdf) (username password op : Bytes)
    (h : P (.sendHeader (errorHeader (bytes "Authentication failed")))) :
    UsesS P (requirePassword cfg kdf username password op) := by
  refine usesS_bind usesS_state fun s => usesS_guardOr ?_
  refine usesS_bind (onStats_uses hP fun t => ?_) fun _ => ?_
  · exact SecurityMonitor.recordLoginFailure_inward cfg.monitor t username
  · exact usesS_bind (perform_uses (hP (.logEvent _ _ _) trivial)) fun _ => perform_uses h

theorem recordLogin_uses (cfg : ServerConfig) (username : Bytes) : UsesS P (recordLogin cfg username) :=
  onStats_uses hP fun t => SecurityMonitor.recordLoginSuccess_inward cfg.monitor t username

end

section
variable (herror : ∀ message, P (.sendHeader (errorHeader message)))
include herror

theorem fail_uses (message : Bytes) : UsesS P (fail message : Handler α) :=
  usesS_bind (perform_uses (herror message)) fun _ => usesS_throw ()

theorem require_uses (b : Bool) (message : Bytes) : UsesS P (require b message) :=
  usesS_guardOr (perform_uses (herror message))

theorem orFail_uses (value : Option α) (message : Bytes) : UsesS P (orFail value message) := by
  cases value with
  | none => exact fail_uses herror message
  | some a => exact usesS_pure a

theorem okOrFail_uses (value : Except Bytes α) (what : Bytes) : UsesS P (okOrFail value what) := by
  cases value with
  | error e => exact fail_uses herror (what ++ e)
  | ok a => exact usesS_pure a

variable (hP : ∀ c, Inward c → P c) (cfg : ServerConfig) (kdf : PasswordKdf) (req : Header)
include hP

theorem checkRequest_uses (op denied : Bytes) (bit : UInt32) :
    UsesS P (checkRequest cfg kdf req op bit denied) := by
  have hlocked (remaining : Int) := herror (lockedMessage remaining)
  refine usesS_bind (orFail_uses herror _ _) fun size => usesS_bind (require_uses herror _ _) fun _ => ?_
  refine usesS_bind (requireClient_uses hP req _ op size (herror _)) fun _ => ?_
  refine usesS_bind (requireUnlocked_uses hP _ op size hlocked) fun _ => ?_
  refine usesS_bind (requirePassword_uses hP cfg kdf _ _ op (herror _)) fun _ => ?_
  refine usesS_bind (usesS_bind usesS_state fun s => require_uses herror _ _) fun _ => ?_
  refine usesS_bind (recordLogin_uses hP cfg _) fun _ => ?_
  exact usesS_bind (requireUnlocked_uses hP _ _ size hlocked) fun _ => usesS_pure size

end

theorem handleAuthCheck_uses (hP : ∀ c, ServerCall.Checking c → P c) (cfg : ServerConfig)
    (kdf : PasswordKdf) (req : Header) : UsesS P (handleAuthCheck cfg kdf req) := by
  have hin (c : ServerCall) (hc : c.Inward) := hP c (ServerCall.checking_of_inward hc)
  have hheader (h : Header) : P (.sendHeader h) := hP _ trivial
  refine usesS_bind (requireClient_uses hin req _ _ 0 (hheader _)) fun _ => ?_
  refine usesS_bind (requireUnlocked_uses hin _ _ 0 fun _ => hheader _) fun _ => ?_
  refine usesS_bind (requirePassword_uses hin cfg kdf _ _ _ (hheader _)) fun _ => ?_
  refine usesS_bind (recordLogin_uses hin cfg _) fun _ => ?_
  refine usesS_bind (perform_uses (hin (.logEvent _ _ _) trivial)) fun _ => ?_
  exact usesS_bind usesS_state fun s => perform_uses (hheader _)

end

end Server

end EncoderNext
