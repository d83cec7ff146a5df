import EncoderNext.ShortRequests
import EncoderNext.Storage

/-!
# One answer to every request

A request is answered by one header. Bytes follow only behind an ok header that tells how many, and
nothing is sent behind them.
-/

namespace EncoderNext

open Program Program.Stateful

def ServerCall.isSent : ServerCall → Bool
  | .sendHeader _ | .sendData _ => true
  | _ => false

namespace Server

def sendings (log : List Event) : List Event := log.filter fun e => e.1.isSent

def sizeKeys : List Bytes := [bytes "enc_size", bytes "plain_size", bytes "payload_size"]

def Announces (h : Header) (n : Nat) : Prop :=
  h.get (bytes "status") = bytes "ok" ∧ ∃ key ∈ sizeKeys, h.get key = decimal n

inductive OneReply : List Event → Prop
  | refused (message : Bytes) (r : Bool) : OneReply [⟨.sendHeader (errorHeader message), r⟩]
  | told {h : Header} (r : Bool) : h.get (bytes "status") = bytes "ok" →
      (∀ key ∈ sizeKeys, h.get key = []) → OneReply [⟨.sendHeader h, r⟩]
  | lost {h : Header} {n : Nat} : Announces h n → OneReply [⟨.sendHeader h, false⟩]
  | payload {h : Header} {b : Bytes} (r : Bool) : Announces h b.length →
      OneReply [⟨.sendHeader h, true⟩, ⟨.sendData b, r⟩]

def Unanswered (log : List Event) : Prop := sendings log = []

def RepliedOnce (log : List Event) : Prop := OneReply (sendings log)

def Begun (log : List Event) : Prop := ∃ whole, OneReply whole ∧ sendings log <+: whole

section
variable {log w u : List Event} {c : ServerCall} {r : c.Reply}

theorem sendings_append (log log' : List Event) : sendings (log ++ log') = sendings log ++ sendings log' :=
  List.filter_append ..

theorem sendings_silent (hc : c.isSent = false) (log : List Event) :
    sendings (log ++ [⟨c, r⟩]) = sendings log := by
  simp [sendings, hc]

theorem quiet_unsent (hc : c.Quiet) : c.isSent = false := by
  cases c <;> first | rfl | exact hc.elim

theorem begun_unanswered (h : Unanswered w) : Begun w :=
  ⟨_, .refused [] true, h ▸ List.nil_prefix⟩

theorem begun_answered (h : RepliedOnce w) : Begun w := ⟨_, h, List.prefix_rfl⟩

theorem answered_silent (h : RepliedOnce w) (hc : c.isSent = false) (he : recording w c r u) : RepliedOnce u := by
  unfold RepliedOnce
  rw [he, sendings_silent hc]
  exact h

theorem endures_unanswered : Endures recording (fun c => c.isSent = false) (fun _ => Unanswered)
    (fun _ => RepliedOnce) Begun where
  call h hc he := by
    unfold Unanswered
    rw [he, sendings_silent hc]
    exact h
  error {s w u message r} h he := by
    have hu : sendings u = [⟨.sendHeader (errorHeader message), r⟩] := by
      rw [he, sendings_append, h]
      simp [sendings, ServerCall.isSent]
    unfold RepliedOnce
    rw [hu]
    exact .refused message r
  crash h := begun_unanswered h
  crashed h := begun_answered h

theorem kept_unanswered : Kept recording (fun _ => Unanswered) (fun _ => RepliedOnce) Begun where
  quiet {s _ _ _ _} h hc he := endures_unanswered.call (s := s) h (quiet_unsent hc) he
  stats _ h := h
  policy _ h := h
  error {s _ _ _ _} h he := endures_unanswered.error (s := s) h he
  ended h hc he := answered_silent h (quiet_unsent hc) he
  crash h := begun_unanswered h
  crashed h := begun_answered h

end

/-! ## The ends of the handlers -/

section
variable {s : ServerState} {w : List Event} {cfg : ServerConfig}

/-- A handler that answers, however it ends. -/
abbrev Replying (x : Handler Unit) (s : ServerState) (w : List Event) : Prop :=
  wpS recording (fun _ _ => RepliedOnce) (fun _ _ => RepliedOnce) Begun x s w

theorem sent_alone {h : Header} {r : Bool} (hw : Unanswered w) :
    sendings (w ++ [⟨.sendHeader h, r⟩]) = [⟨.sendHeader h, r⟩] := by
  rw [sendings_append, hw]
  simp [sendings, ServerCall.isSent]

theorem reply_told {h : Header} (hw : Unanswered w) (hok : h.get (bytes "status") = bytes "ok")
    (hkeys : ∀ key ∈ sizeKeys, h.get key = []) : Replying (perform_ (.sendHeader h)) s w := by
  rw [Replying, wpS_perform_]
  refine ⟨begun_unanswered hw, fun r u he => ?_⟩
  have hu : RepliedOnce u := by
    rw [RepliedOnce, he, sent_alone hw]
    exact .told r hok hkeys
  exact ⟨begun_answered hu, hu⟩

theorem answered_payload {h : Header} {b : Bytes} {r : Bool} (hw : Unanswered w)
    (ha : Announces h b.length) : RepliedOnce (w ++ [⟨.sendHeader h, true⟩] ++ [⟨.sendData b, r⟩]) := by
  rw [RepliedOnce, sendings_append, sent_alone hw]
  exact .payload r ha

theorem begun_payload {h : Header} {b : Bytes} {r : Bool} (hw : Unanswered w)
    (ha : Announces h b.length) : Begun (w ++ [⟨.sendHeader h, r⟩]) := by
  rw [Begun, sent_alone hw]
  cases r with
  | true => exact ⟨_, .payload true ha, ⟨[⟨.sendData b, true⟩], rfl⟩⟩
  | false => exact ⟨_, .lost ha, List.prefix_rfl⟩

theorem answered_lost {h : Header} {n : Nat} (hw : Unanswered w) (ha : Announces h n) :
    RepliedOnce (w ++ [⟨.sendHeader h, false⟩]) := by
  rw [RepliedOnce, sent_alone hw]
  exact .lost ha

theorem quiet_answered {x : Handler Unit} (hx : UsesS ServerCall.Quiet x) (hw : RepliedOnce w) :
    Replying x s w := by
  have hkeep : wpS recording (fun _ _ => RepliedOnce) (fun _ _ => RepliedOnce) RepliedOnce x s w :=
    wpS_of_uses (fun _ _ _ _ hc hw he => answered_silent hw (quiet_unsent hc) he) hx hw
  exact wpS_mono hkeep (fun _ _ _ _ h => h) (fun _ _ _ _ h => h) fun _ => begun_answered

theorem reply_result {resp : Header} {b : Bytes} {x : Handler Unit} (hx : UsesS ServerCall.Quiet x)
    (hw : Unanswered w) (ha : Announces resp b.length) : Replying (sendResult resp b >>= fun _ => x) s w := by
  rw [Replying, wpS_bind, sendResult, wpS_perform_bind]
  refine ⟨begun_unanswered hw, fun sent u he => ?_⟩
  cases he
  cases sent with
  | false => exact ⟨begun_payload hw ha, answered_lost hw ha⟩
  | true =>
    show wpS recording _ _ Begun (perform_ (.sendData b)) s _
    rw [wpS_perform_]
    refine ⟨begun_payload hw ha, fun r u' he' => ?_⟩
    have hu : RepliedOnce u' := by
      rw [he']
      exact answered_payload hw ha
    exact ⟨begun_answered hu, quiet_answered hx hu⟩

theorem reply_payload {h : Header} {b : Bytes} (hw : Unanswered w) (ha : Announces h b.length) :
    Replying (sendPayload h b) s w := by
  rw [Replying, sendPayload, wpS_perform_bind]
  refine ⟨begun_unanswered hw, fun sent u he => ?_⟩
  cases he
  cases sent with
  | false => exact ⟨begun_payload hw ha, answered_lost hw ha⟩
  | true =>
    show wpS recording _ _ Begun (perform_ (.sendData b)) s _
    rw [wpS_perform_]
    refine ⟨begun_payload hw ha, fun r u' he' => ?_⟩
    have hu : RepliedOnce u' := by
      rw [he']
      exact answered_payload hw ha
    exact ⟨begun_answered hu, hu⟩

theorem recordFile_quiet (username op : Bytes) (size : Nat) (detail : Bytes) :
    UsesS ServerCall.Quiet (recordFile cfg username op size detail) := by
  unfold recordFile
  refine usesS_bind (usesS_step fun s => ?_) fun _ => perform_uses trivial
  have hquiet := uses_quiet (SecurityMonitor.recordFileOp_inward cfg.monitor s.stats username op 1 size)
  exact uses_bind hquiet fun _ => trivial

/-! ## Requests about files -/

variable {kdf : PasswordKdf} {lib : CryptoLibrary} {req : Header}

theorem announces_encrypted (req : Header) (e : Encryption) :
    Announces (encryptedHeader req e) e.result.data.length := by
  refine ⟨?_, bytes "enc_size", by decide, ?_⟩ <;> rw [get_encryptedHeader] <;> rfl

theorem announces_decrypted (plain : Bytes) : Announces (decryptedHeader plain) plain.length := by
  refine ⟨?_, bytes "plain_size", by decide, ?_⟩
  · rw [decryptedHeader, Header.get_set, if_neg (by decide), Header.get_set_self]
  · rw [decryptedHeader, Header.get_set_self]

theorem handleEncrypt_replies (hw : Unanswered w) : Replying (handleEncrypt cfg kdf lib req) s w := by
  have hk := kept_unanswered
  unfold handleEncrypt
  rw [Replying, wpS_bind]
  refine wpS_post (checkRequest_spec hk req _ _ 1 hw) fun size s₁ w₁ _ h₁ => ?_
  unfold encryptFile
  rw [wpS_bind]
  refine wpS_post (encryptRequest_ends endures_unanswered (fun _ => rfl) (fun _ _ => rfl) rfl h₁.1)
    fun e s₂ w₂ _ h₂ => ?_
  exact reply_result (recordFile_quiet _ _ _ _) h₂ (announces_encrypted req e)

theorem handleDecrypt_replies (hw : Unanswered w) : Replying (handleDecrypt cfg kdf lib req) s w := by
  have hk := kept_unanswered
  unfold handleDecrypt
  rw [Replying, wpS_bind]
  refine wpS_post (checkRequest_spec hk req _ _ 2 hw) fun size s₁ w₁ _ h₁ => ?_
  unfold decryptFile
  rw [wpS_bind]
  refine wpS_post (openRequest_ends endures_unanswered (fun _ _ _ => rfl) (fun _ _ _ => rfl) rfl
    (fun _ => rfl) (fun _ => rfl) h₁.1) fun plain s₂ w₂ _ h₂ => ?_
  exact reply_result (recordFile_quiet _ _ _ _) h₂ (announces_decrypted plain)

/-! ## Requests about accounts -/

theorem get_messageHeader (message key : Bytes) : (messageHeader message).get key =
    if key = bytes "message" then message else if key = bytes "status" then bytes "ok" else [] := by
  unfold messageHeader
  simp only [Header.get_set]
  rfl

theorem reply_message (message : Bytes) (hw : Unanswered w) :
    Replying (perform_ (.sendHeader (messageHeader message))) s w := by
  refine reply_told hw ?_ fun key hkey => ?_
  · rw [get_messageHeader]
    rfl
  · have hother : ∀ key ∈ sizeKeys, key ≠ bytes "message" ∧ key ≠ bytes "status" := by decide
    rw [get_messageHeader, if_neg (hother key hkey).1, if_neg (hother key hkey).2]

theorem reply_noted {kind who detail : Bytes} (message : Bytes) (hw : Unanswered w) :
    Replying (do
      perform_ (.logEvent kind who detail)
      perform_ (.sendHeader (messageHeader message))) s w := by
  rw [Replying, wpS_bind]
  exact wpS_post (endures_unanswered.perform_ rfl hw) fun _ _ _ _ h₁ => reply_message message h₁

theorem reply_checked {op password : Bytes} {f : Handler Unit} (hw : Unanswered w)
    (hf : ∀ s' u, Unanswered u → Replying f s' u) :
    Replying (do
      requireClient req (req.get (bytes "username")) op 0
      requireUnlocked (req.get (bytes "username")) op 0
      requirePassword cfg kdf (req.get (bytes "username")) password op
      recordLogin cfg (req.get (bytes "username"))
      f) s w := by
  have hk := kept_unanswered
  rw [Replying, wpS_bind]
  refine wpS_post (requireClient_spec hk req _ op 0 hw) fun _ s₁ w₁ _ h₁ => ?_
  rw [wpS_bind]
  refine wpS_post (requireUnlocked_spec hk _ op 0 h₁.1) fun _ s₂ w₂ _ h₂ => ?_
  rw [wpS_bind]
  refine wpS_post (requirePassword_spec hk _ _ op h₂.1) fun _ s₃ w₃ _ h₃ => ?_
  have hu : Unanswered w₃ := h₃.2.1 ▸ h₂.1
  rw [wpS_bind]
  exact wpS_post (recordLogin_spec hk _ hu) fun _ s₄ w₄ _ h₄ => hf s₄ w₄ h₄.1

theorem storeUsers_unanswered (updated : Option UserStore) (message : Bytes) (hw : Unanswered w) :
    wpS recording (fun _ _ => Unanswered) (fun _ _ => RepliedOnce) Begun (storeUsers cfg updated message) s w := by
  have hk := endures_unanswered
  unfold storeUsers
  rw [wpS_state_bind]
  refine hk.orFail hw fun users _ => ?_
  rw [wpS_setUsers_bind, wpS_bind, wpS_lift]
  have hsave : Uses (fun c : ServerCall => c.isSent = false) (UserStore.save users cfg.usersDbPath) :=
    save_uses (fun _ => rfl) (fun _ _ => rfl) (fun _ _ => rfl) _ _
  refine wp_post (hk.program (s := s) hsave hw) fun saved u hb hu => ?_
  refine wpS_guardOr_last _ () _ (fun _ => ?_) fun _ => ⟨hb, hu⟩
  rw [wpS_setUsers_bind]
  exact hk.sendError _ hu

theorem upsert_unsent (users : UserStore) (username password : Bytes) :
    Uses (fun c : ServerCall => c.isSent = false) (UserStore.upsert kdf users username password) := by
  apply UserStore.upsert_uses
  rfl

theorem handleChangePassword_replies (hw : Unanswered w) :
    Replying (handleChangePassword cfg kdf req) s w := by
  have hk := endures_unanswered
  unfold handleChangePassword
  dsimp only
  refine reply_checked hw fun s₁ u₁ h₁ => ?_
  rw [Replying, wpS_state_bind, wpS_bind, wpS_lift]
  refine wp_post (hk.program (s := s₁) (upsert_unsent _ _ _) h₁) fun updated u₂ _ h₂ => ?_
  rw [wpS_bind]
  exact wpS_post (storeUsers_unanswered updated _ h₂) fun _ s₃ u₃ _ h₃ => reply_noted _ h₃

theorem handleAuthCheck_replies (hw : Unanswered w) : Replying (handleAuthCheck cfg kdf req) s w := by
  have hk := endures_unanswered
  unfold handleAuthCheck
  dsimp only
  refine reply_checked hw fun s₁ u₁ h₁ => ?_
  rw [Replying, wpS_bind]
  refine wpS_post (hk.perform_ rfl h₁) fun _ s₂ u₂ _ h₂ => ?_
  rw [wpS_state_bind]
  refine reply_told h₂ ?_ fun key hkey => ?_
  · rw [Header.get_set, if_neg (by decide), get_messageHeader]
    rfl
  · have hother : ∀ key ∈ sizeKeys, key ≠ bytes "permissions" ∧ key ≠ bytes "message" ∧
        key ≠ bytes "status" := by decide
    obtain ⟨hp, hm, hs⟩ := hother key hkey
    rw [Header.get_set, if_neg hp, get_messageHeader, if_neg hm, if_neg hs]

/-! ## The administrator's requests -/

theorem updateUser_unanswered (op : UserOp) (users : UserStore) (username : Bytes) (hw : Unanswered w) :
    wpS recording (fun _ _ => Unanswered) (fun _ _ => RepliedOnce) Begun
      (updateUser kdf op req users username) s w := by
  have hk := endures_unanswered
  have hwritten : wpS recording (fun _ _ => Unanswered) (fun _ _ => RepliedOnce) Begun
      (do
        let password := req.get (bytes "new_password")
        require (8 ≤ password.length && password.length ≤ 1024)
          (bytes "Password must contain 8-1024 bytes")
        lift (UserStore.upsert kdf users username password)) s w := by
    refine hk.require hw fun _ => ?_
    rw [wpS_lift]
    exact hk.program (s := s) (upsert_unsent _ _ _) hw
  cases op with
  | adminCreateUser => exact hwritten
  | adminResetPassword => exact hwritten
  | adminBlockUser => exact hk.require hw fun _ => ⟨begun_unanswered hw, hw⟩
  | adminSetPermissions =>
    unfold updateUser
    dsimp only
    split
    · exact hk.require hw fun _ => ⟨begun_unanswered hw, hw⟩
    · exact hk.fail _ hw

theorem handleAdminUser_replies (op : UserOp) (hw : Unanswered w) :
    Replying (handleAdminUser cfg kdf op req) s w := by
  have hk := endures_unanswered
  have hrest : Replying (do
      let updated ← updateUser kdf op req s.users (req.get (bytes "username"))
      storeUsers cfg updated (bytes "Cannot save user database")
      perform_ (.logEvent op.name (bytes "admin") (req.get (bytes "username")))
      perform_ (.sendHeader (messageHeader (bytes "User updated")))) s w := by
    rw [Replying, wpS_bind]
    refine wpS_post (updateUser_unanswered op s.users _ hw) fun updated s₁ u₁ _ h₁ => ?_
    rw [wpS_bind]
    exact wpS_post (storeUsers_unanswered updated _ h₁) fun _ s₂ u₂ _ h₂ => reply_noted _ h₂
  unfold handleAdminUser
  refine hk.require hw fun _ => ?_
  rw [wpS_state_bind]
  by_cases hop : op = .adminCreateUser
  · rw [if_pos hop]
    exact hk.require hw fun _ => hrest
  · rw [if_neg hop]
    exact hk.require hw fun _ => hrest

theorem handleAdminUnlock_replies (hw : Unanswered w) : Replying (handleAdminUnlock req) s w := by
  have hk := endures_unanswered
  unfold handleAdminUnlock
  refine hk.require hw fun _ => ?_
  rw [wpS_bind, wpS_step, wp_bind]
  have hquiet := uses_quiet (SecurityMonitor.unlockUser_inward s.stats (req.get (bytes "username")))
  refine wp_post (kept_unanswered.program (s := s) hquiet hw) fun r u hb hu => ⟨hb, ?_⟩
  exact hk.require hu fun _ => reply_noted _ hu

theorem handleAdminSetBinding_replies (hw : Unanswered w) : Replying (handleAdminSetBinding req) s w := by
  unfold handleAdminSetBinding
  rw [Replying, wpS_bind, wpS_onPolicy]
  have hquiet : Uses ServerCall.Quiet (s.policy.setBinding (BindingPolicy.isYes (req.get (bytes "enabled")))) :=
    ⟨trivial, fun _ => trivial⟩
  exact wp_post (kept_unanswered.program (s := s) hquiet hw) fun policy u _ hu => reply_noted _ hu

theorem setClientAllowed_quiet (policy : BindingPolicy) (clientId : Bytes) (allowed : Bool) :
    Uses ServerCall.Quiet (policy.setClientAllowed clientId allowed) := by
  unfold BindingPolicy.setClientAllowed
  by_cases hz : ((policy.clients.lookup clientId).getD {}).firstSeenTs = 0
  · simp only [hz, if_true]
    exact ⟨trivial, fun _ => ⟨trivial, fun _ => trivial⟩⟩
  · simp only [hz, if_false]
    exact ⟨trivial, fun _ => trivial⟩

theorem handleAdminSetClientAllowed_replies (hw : Unanswered w) :
    Replying (handleAdminSetClientAllowed req) s w := by
  unfold handleAdminSetClientAllowed
  refine endures_unanswered.require hw fun _ => ?_
  rw [wpS_bind, wpS_onPolicy]
  exact wp_post (kept_unanswered.program (s := s) (setClientAllowed_quiet _ _ _) hw)
    fun policy u _ hu => reply_noted _ hu

theorem announces_report (fields : List (Bytes × Bytes)) (payload : Bytes) :
    Announces (reportHeader fields payload) payload.length := by
  refine ⟨?_, bytes "payload_size", by decide, ?_⟩
  · rw [reportHeader, Header.get_set, if_neg (by decide), Header.get_set_self]
  · rw [reportHeader, Header.get_set_self]

theorem handleAdminReport_replies (op : Bytes) (hw : Unanswered w) :
    Replying (handleAdminReport op req) s w := by
  have hk := endures_unanswered
  unfold handleAdminReport
  rw [Replying, wpS_bind]
  refine wpS_post (hk.perform (c := .report op req) rfl hw) fun answer s₁ u₁ _ h₁ => ?_
  exact hk.okOrFail h₁ fun found _ => reply_payload h₁ (announces_report _ _)

theorem handleAdmin_replies (op : Bytes) (hw : Unanswered w) : Replying (handleAdmin cfg kdf op req) s w := by
  have hk := endures_unanswered
  unfold handleAdmin
  refine hk.require hw fun _ => ?_
  split_ifs
  · exact handleAdminUser_replies .adminCreateUser hw
  · exact handleAdminUser_replies .adminResetPassword hw
  · exact handleAdminUser_replies .adminBlockUser hw
  · exact handleAdminUser_replies .adminSetPermissions hw
  · exact handleAdminUnlock_replies hw
  · exact handleAdminSetBinding_replies hw
  · exact handleAdminSetClientAllowed_replies hw
  · exact handleAdminReport_replies op hw
  · exact hk.fail _ hw

theorem handleRequest_replies (adminOnly : Bool) (hw : Unanswered w) :
    Replying (handleRequest cfg kdf lib adminOnly req) s w := by
  have hk := endures_unanswered
  unfold handleRequest
  dsimp only
  split_ifs
  · exact hk.sendError _ hw
  · exact handleAdmin_replies _ hw
  · exact handleEncrypt_replies hw
  · exact handleDecrypt_replies hw
  · exact handleChangePassword_replies hw
  · exact handleAuthCheck_replies hw
  · exact hk.sendError _ hw

end

/-! ## A session -/

def Concluded (cfg : ServerConfig) (log : List Event) : Prop :=
  ∃ read rest, log = ⟨.readHeader cfg.maxHeaderBytes, read⟩ :: rest ∧
    if read.isSome then RepliedOnce log else Unanswered log

theorem handleSession_concludes (cfg : ServerConfig) (kdf : PasswordKdf) (lib : CryptoLibrary)
    (adminOnly : Bool) (s : ServerState) :
    wpS recording (fun _ _ => Concluded cfg) (fun _ _ => Concluded cfg) Begun
      (handleSession cfg kdf lib adminOnly) s [] := by
  unfold handleSession
  rw [wpS_perform_bind]
  refine ⟨begun_unanswered rfl, fun read u he => ?_⟩
  cases he
  have hw : Unanswered [⟨.readHeader cfg.maxHeaderBytes, read⟩] := rfl
  cases read with
  | none => exact ⟨begun_unanswered hw, none, [], rfl, hw⟩
  | some req =>
    have hgrow : wpS recording (fun _ _ w => [⟨.readHeader cfg.maxHeaderBytes, some req⟩] <+: w)
        (fun _ _ w => [⟨.readHeader cfg.maxHeaderBytes, some req⟩] <+: w)
        (fun w => [⟨.readHeader cfg.maxHeaderBytes, some req⟩] <+: w)
        (handleRequest cfg kdf lib adminOnly req) s [⟨.readHeader cfg.maxHeaderBytes, some req⟩] :=
      wpS_of_uses (fun _ _ _ _ _ hw he => prefix_recording hw he) (fun _ => uses_true _) List.prefix_rfl
    have hend : ∀ w : List Event, [⟨.readHeader cfg.maxHeaderBytes, some req⟩] <+: w → RepliedOnce w →
        Concluded cfg w := by
      intro w hfrom ha
      obtain ⟨rest, rfl⟩ := hfrom
      exact ⟨some req, rest, rfl, ha⟩
    have hreplies : Replying (handleRequest cfg kdf lib adminOnly req) s _ := handleRequest_replies adminOnly hw
    exact wpS_mono (wpS_and hgrow hreplies) (fun _ _ w _ h => hend w h.1 h.2)
      (fun _ _ w _ h => hend w h.1 h.2) fun _ h => h.2

/-- **One answer to every request.** Whatever every call answers, a session whose request can be read
sends one header and no other: an error, an ok header without a payload, or an ok header that tells how
many bytes follow, and then just these, unless the header could not be sent. Wherever the session is
cut, what it has sent so far is the start of such an answer; and a session whose request cannot be read
sends nothing. -/
theorem one_answer (cfg : ServerConfig) (kdf : PasswordKdf) (lib : CryptoLibrary) (adminOnly : Bool)
    (s : ServerState) :
    (∀ log, Visits recording ((handleSession cfg kdf lib adminOnly).go s) [] log → Begun log) ∧
    (∀ r s' log, Runs recording ((handleSession cfg kdf lib adminOnly).go s) [] (r, s') log →
      Concluded cfg log) := by
  have hall := handleSession_concludes cfg kdf lib adminOnly s
  refine ⟨fun log hv => visits_of_wp hall hv, fun r s' log hr => ?_⟩
  have hend := runs_of_wp hall hr
  cases r with
  | ok _ => exact hend
  | error _ => exact hend

def requestAnswer (log : List Event) (c : ServerCall) : c.Reply × List Event :=
  let r : c.Reply := match c with
    | .readHeader _ => some (encryptAsked.set (bytes "op") (bytes "encrypt"))
    | c => (recordAnswer log c).1
  (r, log ++ [⟨c, r⟩])

def sessionLog : List Event :=
  (exec requestAnswer ((handleSession fileConfig zeroKdf copyLibrary false).go bobsState) []).2

def sends (b : Bytes) : Event → Bool
  | ⟨.sendData data, _⟩ => data == b
  | _ => false

theorem one_answer_file : Concluded fileConfig sessionLog ∧
    sessionLog.any (sends [7, 7, 7]) = true := by
  have hruns : Runs recording ((handleSession fileConfig zeroKdf copyLibrary false).go bobsState) []
      (_, _) sessionLog := runs_exec (fun _ _ => rfl) _ _
  exact ⟨(one_answer fileConfig zeroKdf copyLibrary false bobsState).2 _ _ sessionLog hruns, by decide⟩

end Server

end EncoderNext
