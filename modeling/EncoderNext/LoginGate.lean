import EncoderNext.Admission
import EncoderNext.MonitorLocks

/-!
# A login that locks its own account

Recording a login may lock the account. Encryption and decryption ask once more
before they go on; a change of password and a check of it do not. A clock that
never runs back stands beside the log, and every call bears the time it was made.
-/

namespace EncoderNext

open Program Program.Stateful SecurityMonitor

structure Stamped where
  time : Int
  event : Event

structure ClockWorld where
  time : Int
  log : List Stamped := []

def ClockWorld.after (w : ClockWorld) (c : ServerCall) (r : c.Reply) : ClockWorld :=
  ⟨w.time, w.log ++ [⟨w.time, ⟨c, r⟩⟩]⟩

/-- Any answers, at times that never run back; the clock shows them, and hours are of a day. -/
def clocked : Env ClockWorld ServerCall ServerCall.Reply := fun w c r u =>
  w.time ≤ u.time ∧ u.log = w.log ++ [⟨u.time, ⟨c, r⟩⟩] ∧
    match c, r with
    | .now, (t : Int) => t = u.time
    | .localHour _, (hour : Int) => 0 ≤ hour ∧ hour < 24
    | _, _ => True

/-- An answer that is no error, a result, or a write to a file of accounts, keys or digests. -/
def ServerCall.Effect : ServerCall → Prop
  | .sendHeader h => h.get (bytes "status") ≠ bytes "error"
  | .sendData _ | .writeFile .. | .writeText .. | .rename .. => True
  | _ => False

def saved (stats : Table UserStats) (e : Stamped) : Table UserStats :=
  match e.event.1 with
  | .saveStats stats' => stats'
  | _ => stats

/-- The statistics in memory: every change of them is saved at once. -/
def current (first : Table UserStats) (log : List Stamped) : Table UserStats := log.foldl saved first

def NoEffects (log : List Stamped) : Prop := ∀ e ∈ log, ¬ e.event.1.Effect

def Honours (first : Table UserStats) (who : Bytes) (log : List Stamped) : Prop :=
  ∀ front e back, log = front ++ e :: back → e.event.1.Effect →
    ¬ Locked (current first front) who e.time

def Refused (log : List Stamped) : Prop :=
  ∃ e ∈ log, ∃ h, e.event.1 = .sendHeader h ∧ h.get (bytes "status") = bytes "error"

def Replied (log : List Stamped) : Prop := ∃ e ∈ log, ∃ h, e.event.1 = .sendHeader h

/-- However far a handler comes, it does nothing for an account that is locked then;
and if it does nothing at all, it replies with an error and keeps the accounts. -/
def Obeys (handler : Handler Unit) (who : Bytes) (s : ServerState) : Prop :=
  ∀ start : Int, 0 ≤ start →
    (∀ w, Visits clocked (handler.go s) ⟨start, []⟩ w → Honours s.stats who w.log) ∧
    (∀ r s' w, Runs clocked (handler.go s) ⟨start, []⟩ (r, s') w → NoEffects w.log →
      Refused w.log ∧ s'.users = s.users)

/-! ## Logs -/

section
variable {first : Table UserStats} {who : Bytes} {log : List Stamped} {e : Stamped}

theorem current_snoc : current first (log ++ [e]) = saved (current first log) e := by
  simp [current]

theorem honours_of_noEffects (h : NoEffects log) : Honours first who log := by
  rintro front e back rfl he
  exact absurd he (h e (by simp))

theorem honours_snoc (h : Honours first who log)
    (he : e.event.1.Effect → ¬ Locked (current first log) who e.time) :
    Honours first who (log ++ [e]) := by
  intro front e' back hsplit he'
  rcases List.eq_nil_or_concat back with rfl | ⟨back, last, rfl⟩
  · obtain ⟨rfl, hlast⟩ := List.append_inj' hsplit rfl
    obtain rfl := List.singleton_inj.mp hlast
    exact he he'
  · rw [List.concat_eq_append, ← List.cons_append, ← List.append_assoc] at hsplit
    obtain ⟨rfl, -⟩ := List.append_inj' hsplit rfl
    exact h front e' back rfl he'

theorem noEffects_snoc (h : NoEffects log) (he : ¬ e.event.1.Effect) : NoEffects (log ++ [e]) := by
  intro e' hm
  rcases List.mem_append.mp hm with hm | hm
  · exact h e' hm
  · exact List.mem_singleton.mp hm ▸ he

theorem replied_snoc (h : Replied log) : Replied (log ++ [e]) := by
  obtain ⟨e', hm, h⟩ := h
  exact ⟨e', by simp [hm], h⟩

theorem refused_of_replied (h : Replied log) (hn : NoEffects log) : Refused log := by
  obtain ⟨e, hm, hd, hcall⟩ := h
  refine ⟨e, hm, hd, hcall, ?_⟩
  have he := hn e hm
  rw [hcall] at he
  exact not_not.mp he

end

theorem not_effect_quiet {c : ServerCall} (hc : c.Quiet) : ¬ c.Effect := by
  cases c <;> first | exact hc.elim | exact id

theorem not_effect_error (message : Bytes) :
    ¬ (ServerCall.sendHeader (Server.errorHeader message)).Effect := by
  show ¬ (Server.errorHeader message).get (bytes "status") ≠ bytes "error"
  rw [Server.errorHeader, Header.get_set, if_neg (by decide), Header.get_set_self]
  exact not_not.mpr rfl

def ServerCall.Unsaving : ServerCall → Prop
  | .saveStats _ => False
  | _ => True

namespace Server

section
variable {first : Table UserStats} {who : Bytes} {users : UserStore}

/-! ## Before the login -/

structure Blank (users : UserStore) (s : ServerState) (w : ClockWorld) : Prop where
  time : 0 ≤ w.time
  noEffects : NoEffects w.log
  users : s.users = users

theorem kept_blank : Kept clocked (Blank users) (fun s w => Blank users s w ∧ Replied w.log)
    (fun w => Honours first who w.log) where
  quiet h hc he :=
    ⟨h.time.trans he.1, he.2.1 ▸ noEffects_snoc h.noEffects (not_effect_quiet hc), h.users⟩
  stats _ h := ⟨h.time, h.noEffects, h.users⟩
  policy _ h := ⟨h.time, h.noEffects, h.users⟩
  error h he := by
    refine ⟨⟨h.time.trans he.1, ?_, h.users⟩, ?_⟩
    · rw [he.2.1]
      exact noEffects_snoc h.noEffects (not_effect_error _)
    · rw [he.2.1]
      exact ⟨_, List.mem_append_right _ (List.mem_singleton_self _), _, rfl⟩
  ended h hc he := by
    refine ⟨⟨h.1.time.trans he.1, ?_, h.1.users⟩, ?_⟩
    · rw [he.2.1]
      exact noEffects_snoc h.1.noEffects (not_effect_quiet hc)
    · rw [he.2.1]
      exact replied_snoc h.2
  crash h := honours_of_noEffects h.noEffects
  crashed h := honours_of_noEffects h.1.noEffects

/-! ## Behind the gate -/

structure Unlocked (first : Table UserStats) (who : Bytes) (w : ClockWorld) : Prop where
  honours : Honours first who w.log
  free : ∀ t, w.time ≤ t → ¬ Locked (current first w.log) who t

theorem unlocked_call {w u : ClockWorld} {c : ServerCall} {r : c.Reply} (h : Unlocked first who w)
    (hc : c.Unsaving) (he : clocked w c r u) : Unlocked first who u := by
  obtain ⟨htime, hlog, -⟩ := he
  have hsame : saved (current first w.log) ⟨u.time, ⟨c, r⟩⟩ = current first w.log := by
    cases c <;> first | exact hc.elim | rfl
  constructor
  · rw [hlog]
    exact honours_snoc h.honours fun _ => h.free _ htime
  · intro t ht
    rw [hlog, current_snoc, hsame]
    exact h.free t (htime.trans ht)

structure Open (first : Table UserStats) (who : Bytes) (users : UserStore) (s : ServerState)
    (w : ClockWorld) : Prop where
  unlocked : Unlocked first who w
  users : NoEffects w.log → s.users = users

theorem noEffects_of_call {w u : ClockWorld} {c : ServerCall} {r : c.Reply} (he : clocked w c r u)
    (h : NoEffects u.log) : NoEffects w.log := by
  rw [he.2.1] at h
  exact fun e hm => h e (List.mem_append_left _ hm)

theorem replied_header {w u : ClockWorld} {h : Header} {r : Bool}
    (he : clocked w (.sendHeader h) r u) : Replied u.log := by
  rw [he.2.1]
  exact ⟨_, List.mem_append_right _ (List.mem_singleton_self _), _, rfl⟩

theorem open_call {s : ServerState} {w u : ClockWorld} {c : ServerCall} {r : c.Reply}
    (h : Open first who users s w) (hc : c.Unsaving) (he : clocked w c r u) :
    Open first who users s u :=
  ⟨unlocked_call h.unlocked hc he, fun hn => h.users (noEffects_of_call he hn)⟩

theorem endures_open : Endures clocked ServerCall.Unsaving (Open first who users)
    (fun s w => Open first who users s w ∧ Replied w.log) (fun w => Honours first who w.log) where
  call h hc he := open_call h hc he
  error h he := ⟨open_call (c := .sendHeader _) h trivial he, replied_header he⟩
  crash h := h.unlocked.honours
  crashed h := h.1.unlocked.honours

/-! ## The end -/

structure Finished (users : UserStore) (s : ServerState) (w : ClockWorld) : Prop where
  replied : Replied w.log
  users : NoEffects w.log → s.users = users

theorem obeys_of_wpS {handler : Handler Unit} {s : ServerState}
    (h : ∀ start : Int, 0 ≤ start → wpS clocked (fun _ => Finished s.users) (fun _ => Finished s.users)
      (fun w => Honours s.stats who w.log) handler s ⟨start, []⟩) : Obeys handler who s := by
  intro start hstart
  have hall := h start hstart
  refine ⟨fun w => visits_of_wp hall, fun r s' w hr hn => ?_⟩
  have hend : Finished s.users s' w := by
    have hq := runs_of_wp hall hr
    cases r with
    | ok _ => exact hq
    | error _ => exact hq
  exact ⟨refused_of_replied hend.replied hn, hend.users hn⟩

theorem recordFile_finishes {cfg : ServerConfig} {s : ServerState} {w : ClockWorld}
    (username op : Bytes) (size : Nat) (detail : Bytes) (h : Honours first who w.log)
    (hend : Finished users s w) :
    wpS clocked (fun _ => Finished users) (fun _ => Finished users) (fun w => Honours first who w.log)
      (recordFile cfg username op size detail) s w := by
  have hcall : ∀ {w u : ClockWorld} {c : ServerCall} {r : c.Reply}, c.Quiet → clocked w c r u →
      Honours first who w.log ∧ Finished users s w → Honours first who u.log ∧ Finished users s u := by
    intro w u c r hc he hw
    have hfin : Replied u.log := by
      rw [he.2.1]
      exact replied_snoc hw.2.replied
    refine ⟨?_, hfin, fun hn => hw.2.users (noEffects_of_call he hn)⟩
    rw [he.2.1]
    exact honours_snoc hw.1 fun heffect => absurd heffect (not_effect_quiet hc)
  unfold recordFile
  rw [wpS_bind, wpS_onStats]
  have hquiet := uses_quiet (SecurityMonitor.recordFileOp_inward cfg.monitor s.stats username op 1 size)
  have hstats : wp clocked (fun _ u => Honours first who u.log ∧ Finished users s u)
      (fun u => Honours first who u.log ∧ Finished users s u) _ w :=
    wp_of_uses (fun _ _ _ _ hc hw he => hcall hc he hw) hquiet ⟨h, hend⟩
  refine wp_mono (fun stats u _ hu => ?_) (fun _ hu => hu.1) hstats
  rw [wpS_perform_]
  refine ⟨hu.1, fun r u' he => ?_⟩
  have hu' := hcall (c := .logEvent _ _ _) trivial he hu
  exact ⟨hu'.1, hu'.2.replied, hu'.2.users⟩

theorem sendResult_finishes {cfg : ServerConfig} {s : ServerState} {w : ClockWorld} (resp : Header)
    (data username op : Bytes) (size : Nat) (detail : Bytes) (h : Open first who users s w) :
    wpS clocked (fun _ => Finished users) (fun _ => Finished users) (fun w => Honours first who w.log)
      (sendResult resp data >>= fun _ => recordFile cfg username op size detail) s w := by
  rw [wpS_bind, sendResult, wpS_perform_bind]
  refine ⟨h.unlocked.honours, fun sent u he => ?_⟩
  have hu := open_call (c := .sendHeader _) h trivial he
  have hreplied := replied_header he
  refine wpS_guardOr sent () _ _ (fun _ => ⟨hu.unlocked.honours, hreplied, hu.users⟩) fun _ => ?_
  rw [wpS_perform_]
  refine ⟨hu.unlocked.honours, fun r u' he' => ?_⟩
  have hu' := open_call (c := .sendData _) hu trivial he'
  have hreplied' : Replied u'.log := by
    rw [he'.2.1]
    exact replied_snoc hreplied
  exact ⟨hu'.unlocked.honours,
    recordFile_finishes username op size detail hu'.unlocked.honours ⟨hreplied', hu'.users⟩⟩

/-! ## The login -/

theorem current_keep (first : Table UserStats) {table : Table UserStats} (s : UserStats)
    {w : ClockWorld} :
    wp clocked (fun table' u => table' = table.insert who s ∧ current first u.log = table' ∧
      w.time ≤ u.time) (fun _ => True) (keep table who s) w := by
  refine ⟨trivial, fun _ u he => ⟨trivial, rfl, ?_, he.1⟩⟩
  rw [he.2.1, current_snoc]
  rfl

theorem lock_beyond (s : UserStats) (reason : Bytes) (sec now : Int) (w : ClockWorld) :
    wp clocked (fun s' u => w.time ≤ u.time ∧ now < s'.lockUntilTs) (fun _ => True)
      (lock who reason s sec now) w := by
  unfold lock
  rcases hchosen : chooseLockDuration s sec with ⟨s', lockSec⟩
  have hpos : 0 < lockSec := by simpa [hchosen] using chooseLockDuration_pos s sec
  dsimp only
  rw [wp_ask_bind]
  refine ⟨trivial, fun _ u he => ⟨trivial, he.1, ?_⟩⟩
  show now < max s'.lockUntilTs (now + lockSec)
  omega

theorem current_alert (first : Table UserStats) {table : Table UserStats} (s : UserStats)
    (kind detail reason : Bytes) (sec now : Int) {w : ClockWorld} :
    wp clocked (fun table' u => (current first u.log = table' ∧ w.time ≤ u.time) ∧
        ∃ s', table' = table.insert who s' ∧ now < s'.lockUntilTs) (fun _ => True)
      (do
        act (.logAlert kind who detail)
        keep table who (← lock who reason s sec now)) w := by
  rw [wp_ask_bind]
  refine ⟨trivial, fun _ u₁ h₁ => ?_⟩
  rw [wp_bind]
  refine wp_post (lock_beyond s reason sec now u₁) fun s' u₂ _ hlock => ?_
  refine wp_post (current_keep first s') fun table' u _ hkept => ?_
  obtain ⟨rfl, hcurrent, hlater⟩ := hkept
  exact ⟨⟨hcurrent, (h₁.1.trans hlock.1).trans hlater⟩, s', rfl, hlock.2⟩

def Regular (cfg : MonitorConfig) (stats : UserStats) : Prop :=
  ∀ hour : Int, 0 ≤ hour → hour < 24 → isSuspiciousHour cfg stats hour = false

theorem recordLoginSuccess_current {cfg : MonitorConfig} {table : Table UserStats} {w : ClockWorld} :
    wp clocked (fun table' u => (current first u.log = table' ∧ w.time ≤ u.time) ∧
        (Regular cfg (lookup table who) → ∃ s, table' = table.insert who s ∧
          s.lockUntilTs = (lookup table who).lockUntilTs))
      (fun _ => True) (recordLoginSuccess cfg table who) w := by
  unfold recordLoginSuccess
  rw [wp_ask_bind]
  refine ⟨trivial, fun (now : Int) w₁ h₁ => ?_⟩
  rw [wp_ask_bind]
  refine ⟨trivial, fun (hour : Int) w₂ h₂ => ?_⟩
  have htime : w.time ≤ w₂.time := h₁.1.trans h₂.1
  dsimp only
  split
  · rename_i halert
    refine wp_post (current_alert first _ _ _ _ _ _) fun table' u _ hkept => ?_
    obtain ⟨⟨hcurrent, hlater⟩, -⟩ := hkept
    refine ⟨⟨hcurrent, htime.trans hlater⟩, fun hregular => ?_⟩
    simp [hregular hour h₂.2.2.1 h₂.2.2.2] at halert
  · refine wp_post (current_keep first _) fun table' u _ hkept => ?_
    obtain ⟨rfl, hcurrent, hlater⟩ := hkept
    exact ⟨⟨hcurrent, htime.trans hlater⟩, fun _ => ⟨_, rfl, rfl⟩⟩

theorem not_locked_later {table : Table UserStats} {t t' : Int} (h : lockedAt table who t = none)
    (ht : t ≤ t') : ¬ Locked table who t' := by
  unfold Locked
  unfold lockedAt at h ⊢
  cases hl : table.lookup who with
  | none => simp
  | some s =>
    rw [hl] at h
    have hpast : s.lockUntilTs ≤ t := by simpa using h
    simp [hpast.trans ht]

theorem lockUntil_le {table : Table UserStats} {t : Int} (h : lockedAt table who t = none)
    (ht : 0 ≤ t) : (lookup table who).lockUntilTs ≤ t := by
  unfold lockedAt at h
  unfold lookup
  cases hl : table.lookup who with
  | none => exact ht
  | some s =>
    rw [hl] at h
    simpa using h

/-! ## Encryption and decryption -/

variable {cfg : ServerConfig} {kdf : PasswordKdf} {lib : CryptoLibrary} {req : Header}
  {s s' : ServerState} {w : ClockWorld}

/-- The second look at the lock sees what the login left. -/
theorem open_of_admitted {bit : UInt32} {size : Nat} (hblank : Blank users s' w)
    (h : Admitted clocked cfg kdf req bit s size s' w) :
    Open s.stats (req.get (bytes "username")) users s' w := by
  obtain ⟨w₁, w₂, w₃, t, t', -, -, hlogin, hclock, hfree⟩ := h.locks
  obtain ⟨⟨hcurrent, -⟩, -⟩ := runs_of_wp (@recordLoginSuccess_current s.stats _ _ _ _) hlogin
  obtain ⟨-, hlog, htime⟩ := hclock
  have hsame : current s.stats w.log = s'.stats := by
    rw [hlog, current_snoc, hcurrent]
    rfl
  refine ⟨⟨honours_of_noEffects hblank.noEffects, fun t₁ ht₁ => ?_⟩, fun _ => hblank.users⟩
  rw [hsame]
  exact not_locked_later hfree (htime.trans_le ht₁)

theorem blank_start (s : ServerState) {start : Int} (h : 0 ≤ start) :
    Blank s.users s ⟨start, []⟩ := ⟨h, by simp [NoEffects], rfl⟩

theorem finished_of_refused (h : Blank users s w ∧ Replied w.log) : Finished users s w :=
  ⟨h.2, fun _ => h.1.users⟩

theorem finished_of_failed (h : Open first who users s w ∧ Replied w.log) : Finished users s w :=
  ⟨h.2, h.1.users⟩

theorem checked_obeys {α : Type} {op denied : Bytes} {bit : UInt32} {result : Nat → Handler α}
    {answer : Nat → α → Handler Unit} (s : ServerState)
    (hresult : ∀ size s₁ w₁, Open s.stats (req.get (bytes "username")) s.users s₁ w₁ →
      wpS clocked (fun _ => Open s.stats (req.get (bytes "username")) s.users)
        (fun _ s₂ w₂ => Open s.stats (req.get (bytes "username")) s.users s₂ w₂ ∧ Replied w₂.log)
        (fun w => Honours s.stats (req.get (bytes "username")) w.log) (result size) s₁ w₁)
    (hanswer : ∀ size a s₂ w₂, Open s.stats (req.get (bytes "username")) s.users s₂ w₂ →
      wpS clocked (fun _ => Finished s.users) (fun _ => Finished s.users)
        (fun w => Honours s.stats (req.get (bytes "username")) w.log) (answer size a) s₂ w₂) :
    Obeys (checkRequest cfg kdf req op bit denied >>= fun size => result size >>= answer size)
      (req.get (bytes "username")) s := by
  refine obeys_of_wpS fun start hstart => ?_
  rw [wpS_bind]
  refine wpS_mono (checkRequest_spec kept_blank req _ _ _ (blank_start s hstart))
    (fun size s₁ w₁ _ h₁ => ?_) (fun _ _ _ _ => finished_of_refused) fun _ => id
  rw [wpS_bind]
  exact wpS_mono (hresult size s₁ w₁ (open_of_admitted h₁.1 h₁.2)) (fun a s₂ w₂ _ => hanswer size a s₂ w₂)
    (fun _ _ _ _ => finished_of_failed) fun _ => id

theorem handleEncrypt_obeys (s : ServerState) :
    Obeys (handleEncrypt cfg kdf lib req) (req.get (bytes "username")) s := by
  unfold handleEncrypt encryptFile
  refine checked_obeys s (fun size s₁ w₁ h₁ => ?_) fun _ _ _ _ h₂ => sendResult_finishes _ _ _ _ _ _ h₂
  exact encryptRequest_ends endures_open (fun _ => trivial) (fun _ _ => trivial) trivial h₁

theorem handleDecrypt_obeys (s : ServerState) :
    Obeys (handleDecrypt cfg kdf lib req) (req.get (bytes "username")) s := by
  unfold handleDecrypt decryptFile
  refine checked_obeys s (fun size s₁ w₁ h₁ => ?_) fun _ _ _ _ h₂ => sendResult_finishes _ _ _ _ _ _ h₂
  exact openRequest_ends endures_open (fun _ _ _ => trivial) (fun _ _ _ => trivial) trivial
    (fun _ => trivial) (fun _ => trivial) h₁

/-! ## Requests about accounts -/

def Enters (kdf : PasswordKdf) (s : ServerState) (req : Header) : Prop :=
  s.policy.isClientAllowed (BindingPolicy.clientIdOf req) = true ∧
    UserStore.verify kdf s.users (req.get (bytes "username")) (req.get (bytes "password")) = true

/-- Where no login raises an alert, the account is as free behind it as before. -/
theorem gate_spec {op : Bytes} {f : Unit → Handler Unit} (h : Blank s.users s w)
    (hgo : ∀ s' u, Enters kdf s req → Blank s.users s' u →
      (Regular cfg.monitor (lookup s.stats (req.get (bytes "username"))) →
        Open s.stats (req.get (bytes "username")) s.users s' u) →
      wpS clocked (fun _ => Finished s.users) (fun _ => Finished s.users)
        (fun w => Honours s.stats (req.get (bytes "username")) w.log) (f ()) s' u) :
    wpS clocked (fun _ => Finished s.users) (fun _ => Finished s.users)
      (fun w => Honours s.stats (req.get (bytes "username")) w.log) (do
        requireClient req (req.get (bytes "username")) op 0
        requireUnlocked (req.get (bytes "username")) op 0
        requirePassword cfg kdf (req.get (bytes "username")) (req.get (bytes "password")) op
        recordLogin cfg (req.get (bytes "username"))
        f ()) s w := by
  have hend : ∀ (_ : Unit) (s' : ServerState) (u : ClockWorld),
      Honours s.stats (req.get (bytes "username")) u.log →
      Blank s.users s' u ∧ Replied u.log → Finished s.users s' u :=
    fun _ _ _ _ => finished_of_refused
  rw [wpS_bind]
  refine wpS_mono (requireClient_spec kept_blank req _ op 0 h) (fun _ s₁ w₁ _ h₁ => ?_) hend fun _ => id
  obtain ⟨h₁, husers, hstats, hclient⟩ := h₁
  rw [wpS_bind]
  refine wpS_mono (requireUnlocked_spec kept_blank _ op 0 h₁) (fun _ s₂ w₂ _ h₂ => ?_) hend fun _ => id
  obtain ⟨h₂, rfl, t, hclock, hfree⟩ := h₂
  rw [wpS_bind]
  refine wpS_mono (requirePassword_spec kept_blank _ _ op h₂) (fun _ s₃ w₃ _ h₃ => ?_) hend fun _ => id
  obtain ⟨rfl, rfl, hpassword⟩ := h₃
  rw [wpS_bind]
  refine wpS_mono (recordLogin_spec kept_blank _ h₂) (fun _ s₄ w₄ _ h₄ => ?_) hend fun _ => id
  obtain ⟨h₄, husers', hlogin⟩ := h₄
  obtain ⟨⟨hcurrent, hlater⟩, hsame⟩ := runs_of_wp (@recordLoginSuccess_current s.stats _ _ _ _) hlogin
  rw [hstats] at hfree hsame
  refine hgo s₄ w₄ ⟨hclient, husers ▸ hpassword⟩ h₄ fun hregular => ?_
  obtain ⟨rec, hinsert, hlock⟩ := hsame hregular
  -- the clock has not moved since the lock was looked at
  have htime : t = w₃.time := hclock.2.2
  have hnow : 0 ≤ t := htime ▸ h₂.time
  refine ⟨⟨honours_of_noEffects h₄.noEffects, fun t' ht' => ?_⟩, fun _ => h₄.users⟩
  rw [hcurrent, hinsert, locked_insert, hlock]
  have hpast := lockUntil_le hfree hnow
  omega

theorem answer_finishes {h : Header} (hopen : Open first who users s w) :
    wpS clocked (fun _ => Finished users) (fun _ => Finished users) (fun w => Honours first who w.log)
      (perform_ (.sendHeader h)) s w := by
  rw [wpS_perform_]
  refine ⟨hopen.unlocked.honours, fun r u he => ?_⟩
  have hu := open_call (c := .sendHeader h) hopen trivial he
  exact ⟨hu.unlocked.honours, replied_header he, hu.users⟩

theorem handleAuthCheck_obeys
    (hregular : Enters kdf s req → Regular cfg.monitor (lookup s.stats (req.get (bytes "username")))) :
    Obeys (handleAuthCheck cfg kdf req) (req.get (bytes "username")) s := by
  refine obeys_of_wpS fun start hstart => ?_
  unfold handleAuthCheck
  refine gate_spec (f := fun _ => _) (blank_start s hstart) fun s₁ w₁ henters _ hopen => ?_
  have h₁ := hopen (hregular henters)
  rw [wpS_bind]
  refine wpS_post (endures_open.perform_ trivial h₁) fun _ s₂ w₂ _ h₂ => ?_
  rw [wpS_state_bind]
  exact answer_finishes h₂

/-- A save writes beside the file before it can succeed. -/
theorem save_unlocked (store : UserStore) (path : Bytes) (h : Unlocked first who w) :
    wp clocked (fun _ u => Unlocked first who u ∧ ¬ NoEffects u.log) (fun w => Honours first who w.log)
      (UserStore.save store path) w := by
  unfold UserStore.save
  dsimp only
  rw [wp_ask_bind]
  refine ⟨h.honours, fun es w₁ he₁ => ?_⟩
  have h₁ := unlocked_call (c := .walk store) h trivial he₁
  rw [wp_ask_bind]
  refine ⟨h₁.honours, fun (written : Bool) w₂ he₂ => ?_⟩
  have h₂ := unlocked_call (c := .writeText _ _) h₁ trivial he₂
  have hwritten : ¬ NoEffects w₂.log := by
    rw [he₂.2.1]
    exact fun hn => hn _ (List.mem_append_right _ (List.mem_singleton_self _)) trivial
  cases written with
  | false => exact ⟨h₂.honours, h₂, hwritten⟩
  | true =>
    refine ⟨h₂.honours, fun r w₃ he₃ => ?_⟩
    have h₃ := unlocked_call (c := .rename _ _) h₂ trivial he₃
    exact ⟨h₃.honours, h₃, fun hn => hwritten (noEffects_of_call he₃ hn)⟩

theorem storeUsers_keeps (updated : Option UserStore) (message : Bytes) (h : Open first who users s w) :
    wpS clocked (fun _ => Open first who users)
      (fun _ s u => Open first who users s u ∧ Replied u.log) (fun w => Honours first who w.log)
      (storeUsers cfg updated message) s w := by
  unfold storeUsers
  rw [wpS_state_bind]
  refine endures_open.orFail h fun store _ => ?_
  rw [wpS_setUsers_bind, wpS_bind, wpS_lift]
  refine wp_post (save_unlocked store cfg.usersDbPath h.unlocked) fun stored u hu h₁ => ?_
  have hopen : ∀ s₁, Open first who users s₁ u := fun s₁ => ⟨h₁.1, fun hn => absurd hn h₁.2⟩
  refine wpS_guardOr_last stored () _ (fun _ => ?_) fun _ => ⟨hu, hopen _⟩
  rw [wpS_setUsers_bind]
  exact endures_open.sendError message (hopen _)

def Settable (kdf : PasswordKdf) (password : Bytes) : Prop :=
  password ≠ [] ∧ password.length ≤ 1024 ∧ ∃ (salt : Vector UInt8 16) (hash : Bytes),
    hash ≠ [] ∧ UserStore.pbkdf2Hash kdf password (toHex salt.toList) = some hash

theorem upsert_none {password : Bytes} (hunset : ¬ Settable kdf password) {K : ClockWorld → Prop}
    (hK : ∀ (w : ClockWorld) (r : Bool × Vector UInt8 16) u, K w → clocked w (.random 16) r u → K u)
    (h : K w) :
    wp clocked (fun updated _ => updated = none) K (UserStore.upsert kdf users who password) w := by
  unfold UserStore.upsert
  split
  · exact ⟨h, rfl⟩
  rename_i hname
  simp only [Bool.or_eq_true, not_or, beq_iff_eq, decide_eq_true_eq, Nat.not_lt] at hname
  rw [wp_ask_bind]
  refine ⟨h, fun drawn u he => ?_⟩
  have hu := hK w drawn u h he
  dsimp only
  split
  · exact ⟨hu, rfl⟩
  split
  · exact ⟨hu, rfl⟩
  · exact ⟨hu, rfl⟩
  · rename_i hash hne hhash
    exact absurd ⟨hname.1.2, hname.2, drawn.2, hash, hne, hhash⟩ hunset

theorem handleChangePassword_obeys
    (hregular : Enters kdf s req → Settable kdf (req.get (bytes "new_password")) →
      Regular cfg.monitor (lookup s.stats (req.get (bytes "username")))) :
    Obeys (handleChangePassword cfg kdf req) (req.get (bytes "username")) s := by
  refine obeys_of_wpS fun start hstart => ?_
  unfold handleChangePassword
  refine gate_spec (f := fun _ => _) (blank_start s hstart) fun s₁ w₁ henters hblank hopen => ?_
  rw [wpS_state_bind, wpS_bind, wpS_lift]
  by_cases hset : Settable kdf (req.get (bytes "new_password"))
  · have h₁ := hopen (hregular henters hset)
    have hdraw := UserStore.upsert_uses (P := ServerCall.Unsaving) trivial kdf s₁.users
      (req.get (bytes "username")) (req.get (bytes "new_password"))
    refine wp_post (endures_open.program hdraw h₁) fun updated w₂ _ h₂ => ?_
    rw [wpS_bind]
    refine wpS_mono (storeUsers_keeps updated _ h₂) (fun _ s₃ w₃ _ h₃ => ?_)
      (fun _ _ _ _ => finished_of_failed) fun _ => id
    rw [wpS_bind]
    exact wpS_post (endures_open.perform_ trivial h₃) fun _ s₄ w₄ _ h₄ => answer_finishes h₄
  · have hdraw : ∀ (w : ClockWorld) (r : Bool × Vector UInt8 16) u, Blank s.users s₁ w →
        clocked w (.random 16) r u → Blank s.users s₁ u :=
      fun w r u hw he =>
        (@kept_blank s.stats [] s.users).quiet (c := .random 16) hw trivial he
    refine wp_mono (fun updated w₂ h₂ hnone => ?_) (fun _ hw => honours_of_noEffects hw.noEffects)
      (upsert_none hset hdraw hblank)
    obtain rfl : updated = none := hnone
    unfold storeUsers
    rw [wpS_bind, wpS_state_bind]
    have hk := @kept_blank s.stats (req.get (bytes "username")) s.users
    exact wpS_mono (Q := fun _ _ _ => False) (hk.orFail h₂ fun _ ha => nomatch ha)
      (fun _ _ _ _ hf => hf.elim) (fun _ _ _ _ => finished_of_refused) fun _ => id

/-! ## A login that raises an alert -/

def dueTime (cfg : MonitorConfig) (stats : UserStats) : Int :=
  max 0 (max stats.lockUntilTs (stats.lastTimeAlertTs + cfg.alertCooldownSec + 1))

theorem current_after {c : ServerCall} (hc : c.Unsaving) (r : c.Reply) :
    current first (w.after c r).log = current first w.log := by
  rw [ClockWorld.after, current_snoc]
  cases c <;> first | exact hc.elim | rfl

theorem not_honours_after {c : ServerCall} (hc : c.Effect) (r : c.Reply)
    (h : Locked (current first w.log) who w.time) : ¬ Honours first who (w.after c r).log :=
  fun hh => hh w.log ⟨w.time, ⟨c, r⟩⟩ [] rfl hc h

section
variable {Q E : Unit → ServerState → ClockWorld → Prop} {K : ClockWorld → Prop} {f : Unit → Handler Unit}

theorem client_passes {op : Bytes} (hlet : s.policy.isClientAllowed (BindingPolicy.clientIdOf req) = true)
    (h : wpS clocked Q E K (requireClient req who op 0 >>= f) s w) :
    ∃ s' u, wpS clocked Q E K (f ()) s' u ∧ u.time = w.time ∧ s'.users = s.users ∧
      s'.stats = s.stats := by
  unfold requireClient enforceClientBinding at h
  rw [wpS_bind, wpS_bind, wpS_bind, wpS_onPolicy] at h
  unfold BindingPolicy.registerClient at h
  rw [wp_ask_bind] at h
  have h := h.2 w.time (w.after .now w.time) ⟨le_rfl, rfl, rfl⟩
  dsimp only at h
  rw [wp_ask_bind] at h
  have h := (h.2 () ((w.after .now w.time).after (.savePolicy _) ()) ⟨le_rfl, rfl, trivial⟩).2
  dsimp only at h
  rw [wpS_state_bind] at h
  rw [if_pos ((BindingPolicy.isClientAllowed_registered _ _ _ _).trans hlet)] at h
  exact ⟨_, _, h.2.2, rfl, rfl, rfl⟩

theorem unlocked_passes {op : Bytes} (hfree : lockedAt s.stats who w.time = none)
    (h : wpS clocked Q E K (requireUnlocked who op 0 >>= f) s w) :
    wpS clocked Q E K (f ()) s (w.after .now w.time) := by
  unfold requireUnlocked at h
  rw [wpS_bind, wpS_state_bind, wpS_bind, wpS_lift] at h
  unfold isLocked at h
  rw [wp_ask_bind] at h
  have h := (h.2 w.time (w.after .now w.time) ⟨le_rfl, rfl, rfl⟩).2
  rw [hfree] at h
  exact h.2

theorem password_passes {password op : Bytes} (hright : UserStore.verify kdf s.users who password = true)
    (h : wpS clocked Q E K (requirePassword cfg kdf who password op >>= f) s w) :
    wpS clocked Q E K (f ()) s w := by
  unfold requirePassword at h
  rw [wpS_bind, wpS_state_bind, hright] at h
  exact h.2

theorem runs_still {α : Type} (p : ServerProgram α) (w : ClockWorld) :
    ∃ a u, Runs clocked p w a u ∧ u.time = w.time := by
  induction p generalizing w with
  | done a => exact ⟨a, w, .done a w, rfl⟩
  | call c k ih =>
    have hstep : clocked w c (c.plain w.time) (w.after c (c.plain w.time)) := by
      refine ⟨le_rfl, rfl, ?_⟩
      cases c
      case localHour =>
        show (0 : Int) ≤ 0 ∧ (0 : Int) < 24
        decide
      all_goals trivial
    obtain ⟨a, u, hr, htime⟩ := ih (c.plain w.time) (w.after c (c.plain w.time))
    exact ⟨a, u, .call hstep hr, htime⟩

variable (first) in
theorem login_locks {hour : Int} (h0 : 0 ≤ hour) (h24 : hour < 24)
    (hsuspicious : isSuspiciousHour cfg.monitor (lookup s.stats who) hour = true)
    (hdue : (lookup s.stats who).lastTimeAlertTs + cfg.monitor.alertCooldownSec < w.time)
    (h : wpS clocked Q E K (recordLogin cfg who >>= f) s w) :
    ∃ stats u, wpS clocked Q E K (f ()) { s with stats := stats } u ∧
      Locked (current first u.log) who u.time := by
  rw [wpS_bind, recordLogin, wpS_onStats] at h
  unfold recordLoginSuccess at h
  rw [wp_ask_bind] at h
  have h := h.2 w.time (w.after .now w.time) ⟨le_rfl, rfl, rfl⟩
  rw [wp_ask_bind] at h
  have h := h.2 hour ((w.after .now w.time).after (.localHour w.time) hour) ⟨le_rfl, rfl, h0, h24⟩
  have hlong : w.time - (lookup s.stats who).lastTimeAlertTs > cfg.monitor.alertCooldownSec := by
    omega
  dsimp only at h
  rw [if_pos (by rw [hsuspicious, Bool.true_and]; exact decide_eq_true hlong)] at h
  obtain ⟨stats, u, hr, htime⟩ := runs_still _ ((w.after .now w.time).after (.localHour w.time) hour)
  have hgo := runs_of_wp h hr
  refine ⟨stats, u, hgo, ?_⟩
  obtain ⟨⟨hcurrent, -⟩, rec, rfl, hlock⟩ := runs_of_wp (current_alert first _ _ _ _ _ _) hr
  rw [hcurrent, locked_insert, htime]
  exact hlock

theorem free_dueTime (cfg : MonitorConfig) (table : Table UserStats) :
    lockedAt table who (dueTime cfg (lookup table who)) = none := by
  unfold lockedAt dueTime lookup
  cases hl : table.lookup who with
  | none => rfl
  | some stats => simp

variable (first) in
/-- On the way in nothing stops the request, and the login locks the account. -/
theorem gate_locks {op : Bytes} {hour : Int} (henters : Enters kdf s req) (h0 : 0 ≤ hour)
    (h24 : hour < 24) (hsuspicious : isSuspiciousHour cfg.monitor
      (lookup s.stats (req.get (bytes "username"))) hour = true)
    (h : wpS clocked Q E K (do
        requireClient req (req.get (bytes "username")) op 0
        requireUnlocked (req.get (bytes "username")) op 0
        requirePassword cfg kdf (req.get (bytes "username")) (req.get (bytes "password")) op
        recordLogin cfg (req.get (bytes "username"))
        f ()) s ⟨dueTime cfg.monitor (lookup s.stats (req.get (bytes "username"))), []⟩) :
    ∃ s' u, wpS clocked Q E K (f ()) s' u ∧ s'.users = s.users ∧
      Locked (current first u.log) (req.get (bytes "username")) u.time := by
  obtain ⟨s₁, w₁, h, htime, husers, hstats⟩ := client_passes (f := fun _ => _) henters.1 h
  have hfree : lockedAt s₁.stats (req.get (bytes "username")) w₁.time = none := by
    rw [hstats, htime]
    exact free_dueTime cfg.monitor s.stats
  have h := unlocked_passes (f := fun _ => _) hfree h
  have h := password_passes (f := fun _ => _) (husers ▸ henters.2) h
  have hdue : (lookup s₁.stats (req.get (bytes "username"))).lastTimeAlertTs +
      cfg.monitor.alertCooldownSec < (w₁.after .now w₁.time).time := by
    show _ < w₁.time
    rw [hstats, htime]
    dsimp only [dueTime]
    omega
  obtain ⟨stats, u, h, hlocked⟩ := login_locks first h0 h24 (hstats ▸ hsuspicious) hdue h
  exact ⟨_, u, h, husers, hlocked⟩

end

theorem wpS_of_obeys {handler : Handler Unit} (h : Obeys handler who s) {start : Int}
    (hstart : 0 ≤ start) :
    wpS clocked (fun _ _ _ => True) (fun _ _ _ => True) (fun w => Honours s.stats who w.log)
      handler s ⟨start, []⟩ := by
  refine (wp_iff _ _).mpr ⟨fun r _ _ => ?_, (h start hstart).1⟩
  obtain ⟨r, s'⟩ := r
  cases r <;> trivial

theorem handleAuthCheck_not_obeys {hour : Int} (henters : Enters kdf s req) (h0 : 0 ≤ hour)
    (h24 : hour < 24) (hsuspicious : isSuspiciousHour cfg.monitor
      (lookup s.stats (req.get (bytes "username"))) hour = true) :
    ¬ Obeys (handleAuthCheck cfg kdf req) (req.get (bytes "username")) s := by
  intro hobeys
  have h := wpS_of_obeys hobeys (show 0 ≤ dueTime cfg.monitor
    (lookup s.stats (req.get (bytes "username"))) from le_max_left _ _)
  unfold handleAuthCheck at h
  obtain ⟨s₁, w, h, -, hlocked⟩ := gate_locks (f := fun _ => _) s.stats henters h0 h24
    hsuspicious h
  rw [perform_, bind_assoc, wpS_perform_bind] at h
  have h := h.2 () (w.after (.logEvent _ _ _) ()) ⟨le_rfl, rfl, trivial⟩
  rw [pure_bind, wpS_state_bind, wpS_perform_] at h
  have hdone := (h.2 true ((w.after (.logEvent _ _ _) ()).after (.sendHeader _) true)
    ⟨le_rfl, rfl, trivial⟩).1
  refine absurd hdone (@not_honours_after _ _ _ (.sendHeader _) ?_ true ?_)
  · show ¬ _ = _
    rw [Header.get_set, if_neg (by decide), messageHeader, Header.get_set, if_neg (by decide),
      Header.get_set_self]
    decide
  · rw [current_after (c := .logEvent _ _ _) trivial]
    exact hlocked

/-- A new password is written while the account is locked. -/
theorem storeUsers_not_honours {Q E : Unit → ServerState → ClockWorld → Prop} {store : UserStore}
    {message : Bytes} (hlocked : Locked (current first w.log) who w.time) :
    ¬ wpS clocked Q E (fun w => Honours first who w.log) (storeUsers cfg (some store) message) s w := by
  intro h
  unfold storeUsers at h
  rw [wpS_state_bind, wpS_bind] at h
  have h := h.2
  dsimp only at h
  rw [wpS_setUsers_bind, wpS_bind, wpS_lift] at h
  unfold UserStore.save at h
  dsimp only at h
  rw [wp_ask_bind] at h
  have h := h.2 ⟨_, .refl _⟩ (w.after (.walk store) ⟨_, .refl _⟩) ⟨le_rfl, rfl, trivial⟩
  rw [wp_ask_bind] at h
  have hwritten := h.2 true ((w.after (.walk store) ⟨_, .refl _⟩).after (.writeText _ _) true)
    ⟨le_rfl, rfl, trivial⟩
  refine absurd (wp_here hwritten) (@not_honours_after _ _ _ (.writeText _ _) trivial true ?_)
  rw [@current_after _ _ (.walk _) trivial]
  exact hlocked

theorem handleChangePassword_not_obeys {hour : Int} (henters : Enters kdf s req)
    (hset : Settable kdf (req.get (bytes "new_password"))) (h0 : 0 ≤ hour) (h24 : hour < 24)
    (hsuspicious : isSuspiciousHour cfg.monitor (lookup s.stats (req.get (bytes "username"))) hour =
      true) :
    ¬ Obeys (handleChangePassword cfg kdf req) (req.get (bytes "username")) s := by
  intro hobeys
  obtain ⟨hne, hlong, salt, hash, hhash, hsalt⟩ := hset
  have h := wpS_of_obeys hobeys (show 0 ≤ dueTime cfg.monitor
    (lookup s.stats (req.get (bytes "username"))) from le_max_left _ _)
  unfold handleChangePassword at h
  obtain ⟨s₁, w, h, husers, hlocked⟩ := gate_locks (f := fun _ => _) s.stats henters h0 h24
    hsuspicious h
  have hknown : UserStore.exists_ s₁.users (req.get (bytes "username")) = true := by
    rw [husers]
    exact UserStore.exists_of_verify henters.2
  rw [wpS_state_bind, wpS_bind, wpS_lift] at h
  unfold UserStore.upsert at h
  rw [if_neg (by simp [hknown, hne, hlong]), wp_ask_bind] at h
  have h := h.2 (true, salt) (w.after (.random 16) (true, salt)) ⟨le_rfl, rfl, trivial⟩
  dsimp only at h
  rw [if_neg (by decide), hsalt] at h
  cases hash with
  | nil => exact hhash rfl
  | cons c hash =>
    have h := h.2
    dsimp only at h
    rw [wpS_bind] at h
    refine storeUsers_not_honours ?_ h
    rw [@current_after _ _ (.random 16) trivial]
    exact hlocked

/-- **Who answers for an account that its own login locked.** Encryption and decryption never do.
A change and a check of the password do so exactly where a request with the right password is let
in, some hour of the day is suspicious for the account and, for a change, the new password can be
set. -/
theorem login_gate_iff (cfg : ServerConfig) (kdf : PasswordKdf) (lib : CryptoLibrary) (s : ServerState)
    (req : Header) :
    Obeys (handleEncrypt cfg kdf lib req) (req.get (bytes "username")) s ∧
    Obeys (handleDecrypt cfg kdf lib req) (req.get (bytes "username")) s ∧
    (Obeys (handleChangePassword cfg kdf req) (req.get (bytes "username")) s ↔
      (Enters kdf s req → Settable kdf (req.get (bytes "new_password")) →
        Regular cfg.monitor (lookup s.stats (req.get (bytes "username"))))) ∧
    (Obeys (handleAuthCheck cfg kdf req) (req.get (bytes "username")) s ↔
      (Enters kdf s req → Regular cfg.monitor (lookup s.stats (req.get (bytes "username"))))) := by
  refine ⟨handleEncrypt_obeys s, handleDecrypt_obeys s, ⟨fun hobeys henters hset => ?_,
    handleChangePassword_obeys⟩, ⟨fun hobeys henters => ?_, handleAuthCheck_obeys⟩⟩
  · intro hour h0 h24
    by_contra hsuspicious
    exact handleChangePassword_not_obeys henters hset h0 h24 (by simpa using hsuspicious) hobeys
  · intro hour h0 h24
    by_contra hsuspicious
    exact handleAuthCheck_not_obeys henters h0 h24 (by simpa using hsuspicious) hobeys

end

/-! ## A login at night -/

def officeHours : ServerConfig :=
  { fileConfig with monitor := { workHoursStart := 9, workHoursEnd := 17 } }

def bobsRequest : Header :=
  (Header.set {} (bytes "username") (bytes "bob")).set (bytes "new_password") (bytes "new")

/-- At night his own login locks the account, and still its password is confirmed and changed. -/
theorem login_gate_night :
    ¬ Obeys (handleAuthCheck officeHours zeroKdf bobsRequest) (bytes "bob") bobsState ∧
    ¬ Obeys (handleChangePassword officeHours zeroKdf bobsRequest) (bytes "bob") bobsState := by
  have henters : Enters zeroKdf bobsState bobsRequest := ⟨by decide, by decide⟩
  have hset : Settable zeroKdf (bobsRequest.get (bytes "new_password")) :=
    ⟨by decide, by decide, Vector.replicate 16 0, toHex (Vector.replicate 32 0).toList,
      by decide, by decide⟩
  exact ⟨@handleAuthCheck_not_obeys _ _ _ _ 3 henters (by decide) (by decide) (by decide),
    @handleChangePassword_not_obeys _ _ _ _ 3 henters hset (by decide) (by decide) (by decide)⟩

end Server

end EncoderNext
