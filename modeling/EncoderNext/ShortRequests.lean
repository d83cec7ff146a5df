import EncoderNext.SmallState

/-!
# Requests with short headers

Every handler puts values of its header into the log, the tables and the records of files.
A short header leaves short ones, whatever the handler does and wherever it ends.
-/

namespace EncoderNext

open Program Program.Stateful AuditWorld

namespace Server

/-- Tables and files as short requests leave them, after so many events. -/
structure Small (n : Nat) (s : ServerState) (w : AuditWorld) : Prop where
  stats : SecurityMonitor.SmallTable n s.stats
  clients : BindingPolicy.SmallClients s.policy
  files : w.Short

theorem Small.mono {n m : Nat} {s : ServerState} {w : AuditWorld} (h : Small n s w) (hnm : n ≤ m) :
    Small m s w := ⟨h.stats.mono hnm, h.clients, h.files⟩

/-- Small values, and a file name that opens nothing but a record. -/
structure ShortRequest (cfg : ServerConfig) (req : Header) : Prop where
  size : req.size ≤ shortHeader
  file : 0 ∉ hashPath cfg (req.get (bytes "file_id"))

theorem endures_small {n m : Nat} (h : n ≤ m) :
    Endures Answers ServerCall.Fits (Small n) (Small m) fun _ => True where
  call hi hc he := ⟨hi.stats, hi.clients, short_call hi.files hc he⟩
  error hi he := Small.mono ⟨hi.stats, hi.clients, short_call (c := .sendHeader _) hi.files trivial he⟩ h
  crash _ := trivial
  crashed _ := trivial

/-! ## The values of a short request -/

section
variable {cfg : ServerConfig} {req : Header} (hreq : ShortRequest cfg req)
include hreq

theorem values_short (keys : List Bytes) (hk : keys.Nodup) :
    (keys.map fun key => (req.get key).length).sum ≤ shortHeader :=
  (req.values_le_size hk).trans hreq.size

theorem value_short (key : Bytes) : (req.get key).length ≤ shortHeader := by
  simpa using values_short hreq [key] (List.nodup_singleton key)

end

theorem length_get_le (req : Header) (key default : Bytes) :
    (req.get key default).length ≤ (req.get key).length + default.length := by
  unfold Header.get
  cases req.fields.lookup key <;> simp

theorem length_client_le (req : Header) :
    (BindingPolicy.clientIdOf req).length ≤ (req.get (bytes "client_id")).length + 7 ∧
    (BindingPolicy.clientHostOf req).length ≤ (req.get (bytes "client_host")).length + 7 := by
  have hunknown : (bytes "unknown").length = 7 := by simp [bytes]
  constructor
  · unfold BindingPolicy.clientIdOf
    split
    · omega
    · omega
  · have := length_get_le req (bytes "client_host") (bytes "unknown")
    unfold BindingPolicy.clientHostOf
    omega

/-! ## The checks -/

section
variable {cfg : ServerConfig} {kdf : PasswordKdf} {req : Header} (hreq : ShortRequest cfg req)
  {n : Nat} {s : ServerState} {w : AuditWorld} {op : Bytes} (hop : op.length ≤ 30)

theorem discardPayload_small {E : Unit → ServerState → AuditWorld → Prop} (size : Nat) (h : Small n s w) :
    wpS Answers (fun _ => Small n) E (fun _ => True) (discardPayload size) s w := by
  unfold discardPayload
  rw [wpS_bind]
  exact wpS_post ((endures_small (le_refl n)).readExact trivial h) fun _ _ _ hw hi => ⟨hw, hi⟩

include hreq

theorem requireUnlocked_small {stage : Bytes} (hstage : stage.length ≤ 50) (size : Nat) (h : Small n s w) :
    wpS Answers (fun _ => Small n) (fun _ => Small (n + 2)) (fun _ => True)
      (requireUnlocked (req.get (bytes "username")) stage size) s w := by
  have hk := endures_small (Nat.le_add_right n 2)
  have hname := value_short hreq (bytes "username")
  unfold requireUnlocked
  rw [wpS_state_bind, wpS_bind, wpS_lift]
  unfold SecurityMonitor.isLocked
  rw [wp_ask_bind]
  refine ⟨trivial, fun (t : Int) u ht => ⟨trivial, ?_⟩⟩
  have hu : Small n s u := hk.call (c := .now) h trivial ht
  cases hl : SecurityMonitor.lockedAt s.stats (req.get (bytes "username")) t with
  | none => exact ⟨trivial, hu⟩
  | some remaining =>
    have hrange : Int64Range remaining := by
      unfold SecurityMonitor.lockedAt at hl
      split at hl
      · cases hl
      · rename_i stats hstats
        have hlocked := (h.stats _ _ hstats).2.locked
        have hclock := ht.1
        split at hl
        · cases hl
        · cases hl
          unfold Clock at hclock
          unfold Int64Range
          omega
    have hdigits := length_decimalInt hrange
    dsimp only
    rw [wpS_bind]
    refine wpS_post (discardPayload_small size hu) fun _ s₁ u₁ _ h₁ => ?_
    rw [wpS_bind]
    refine wpS_post (hk.perform_ ?_ h₁) fun _ s₂ u₂ _ h₂ => hk.fail _ h₂
    unfold shortHeader at hname
    simp only [ServerCall.Fits, List.length_append, bytes, String.reduceToList, List.length_map,
      List.length_cons, List.length_nil] at hname ⊢
    omega

theorem recordLogin_small {E : Unit → ServerState → AuditWorld → Prop} (hcfg : cfg.monitor.Loaded)
    (h : Small n s w) :
    wpS Answers (fun _ => Small n) E (fun _ => True) (recordLogin cfg (req.get (bytes "username"))) s w := by
  rw [recordLogin, wpS_onStats]
  refine wp_post (SecurityMonitor.recordLoginSuccess_small hcfg h.stats
    (value_short hreq (bytes "username")) h.files) fun stats u _ hu => ?_
  exact ⟨hu.1, h.clients, hu.2⟩

include hop

theorem requireClient_small (size : Nat) (h : Small n s w) :
    wpS Answers (fun _ => Small n) (fun _ => Small (n + 2)) (fun _ => True)
      (requireClient req (req.get (bytes "username")) op size) s w := by
  have hk := endures_small (Nat.le_add_right n 2)
  obtain ⟨hid, hhost⟩ := length_client_le req
  have hvalues := values_short hreq [bytes "username", bytes "client_id", bytes "client_host"]
    (by decide)
  simp only [List.map_cons, List.map_nil, List.sum_cons, List.sum_nil] at hvalues
  unfold requireClient enforceClientBinding
  rw [wpS_bind, wpS_bind, wpS_onPolicy]
  refine wp_post (BindingPolicy.registerClient_small h.clients h.files (by omega)) fun policy u _ hp => ?_
  have h₁ : Small n { s with policy := policy } u := ⟨h.stats, hp.1, hp.2⟩
  rw [wpS_state_bind]
  split
  · exact ⟨trivial, trivial, h₁⟩
  · rw [wpS_bind]
    refine wpS_post (hk.perform_ ?_ h₁) fun _ s₂ u₂ _ h₂ => ?_
    · unfold shortHeader at hvalues
      simp only [ServerCall.Fits, bindingDetail, List.length_append, bytes, String.reduceToList,
        List.length_map, List.length_cons, List.length_nil] at hvalues hid hhost ⊢
      omega
    · rw [wpS_bind]
      refine wpS_post (hk.sendError _ h₂) fun _ s₃ u₃ _ h₃ => ⟨trivial, ?_⟩
      show wpS Answers _ _ _ (discardPayload size >>= fun _ => throw ()) s₃ u₃
      rw [wpS_bind]
      exact wpS_post (discardPayload_small size h₃) fun _ _ _ _ h₄ => ⟨trivial, h₄⟩

variable (hcfg : cfg.monitor.Loaded) (hn : n + 2 < 2 ^ 64)
include hcfg hn

theorem requirePassword_small (password : Bytes) (h : Small n s w) :
    wpS Answers (fun _ => Small n) (fun _ => Small (n + 2)) (fun _ => True)
      (requirePassword cfg kdf (req.get (bytes "username")) password op) s w := by
  have hk := endures_small (show n + 1 ≤ n + 2 by omega)
  have hname := value_short hreq (bytes "username")
  unfold requirePassword
  rw [wpS_state_bind]
  refine wpS_guardOr_last _ () _ (fun _ => ?_) fun _ => ⟨trivial, h⟩
  rw [wpS_bind, wpS_onStats]
  refine wp_post (SecurityMonitor.recordLoginFailure_small hcfg h.stats (by omega) hname h.files)
    fun stats u _ hu => ?_
  have h₁ : Small (n + 1) { s with stats := stats } u := ⟨hu.1, h.clients, hu.2⟩
  rw [wpS_bind]
  refine wpS_post (hk.perform_ ?_ h₁) fun _ s₂ u₂ _ h₂ => hk.sendError _ h₂
  unfold shortHeader at hname
  simp only [ServerCall.Fits, bytes, String.reduceToList, List.length_map, List.length_cons,
    List.length_nil] at hname ⊢
  omega

theorem checkRequest_small (bit : UInt32) (denied : Bytes) (h : Small n s w) :
    wpS Answers (fun size s' u => size < 2 ^ 64 ∧ Small n s' u) (fun _ => Small (n + 2)) (fun _ => True)
      (checkRequest cfg kdf req op bit denied) s w := by
  have hk := endures_small (Nat.le_add_right n 2)
  unfold checkRequest
  dsimp only
  refine hk.orFail h fun size hsize => hk.require h fun _ => ?_
  rw [wpS_bind]
  refine wpS_post (requireClient_small hreq hop size h) fun _ s₁ u₁ _ h₁ => ?_
  rw [wpS_bind]
  refine wpS_post (requireUnlocked_small hreq (by omega) size h₁) fun _ s₂ u₂ _ h₂ => ?_
  rw [wpS_bind]
  refine wpS_post (requirePassword_small hreq hop hcfg hn _ h₂) fun _ s₃ u₃ _ h₃ => ?_
  unfold requirePermission
  rw [wpS_bind, wpS_state_bind]
  refine wpS_guardOr_last _ () _ (fun _ => hk.sendError _ h₃) fun _ => ⟨trivial, ?_⟩
  rw [wpS_bind]
  refine wpS_post (recordLogin_small hreq hcfg h₃) fun _ s₄ u₄ _ h₄ => ?_
  rw [wpS_bind]
  refine wpS_post (requireUnlocked_small hreq ?_ size h₄) fun _ s₅ u₅ _ h₅ => ?_
  · have hlater : (bytes " post_login").length = 11 := by simp [bytes]
    rw [List.length_append]
    omega
  · exact ⟨trivial, AuditService.stoull_lt hsize, h₅⟩

end

/-! ## Records -/

def ShortDigests (lib : CryptoLibrary) : Prop :=
  ∀ alg digest, CryptoEngine.digestOf lib alg = some digest → digest.size ≤ 64

theorem length_hash_le {lib : CryptoLibrary} (hlib : ShortDigests lib) {alg : HashAlg} {data hex : Bytes}
    (h : CryptoEngine.hash lib alg data = .ok hex) : hex.length ≤ 128 := by
  unfold CryptoEngine.hash at h
  split at h
  · cases h
  · rename_i digest hdigest
    have hsize := hlib alg digest hdigest
    split at h
    · cases h
    · cases h
      rw [length_toHex, Vector.length_toList]
      omega

theorem length_parts_le {c : UInt8} {p q rest written a hex : Bytes} {r₁ r₂ : Bytes}
    (hpre : written <+: p ++ c :: q ++ c :: rest) (h₁ : splitAt? c written = some (a, r₁))
    (h₂ : splitAt? c r₁ = some (hex, r₂)) : a.length + hex.length ≤ p.length + q.length := by
  obtain ⟨hw, ha⟩ := splitAt?_eq h₁
  obtain ⟨hr, hh⟩ := splitAt?_eq h₂
  by_contra hlong
  have hread : a ++ c :: hex <+: p ++ c :: q ++ c :: rest := by
    refine List.IsPrefix.trans ⟨c :: r₂, ?_⟩ hpre
    rw [hw, hr, List.append_assoc]
    rfl
  have hpayload : p ++ c :: q ++ [c] <+: p ++ c :: q ++ c :: rest := ⟨rest, by simp⟩
  have hcut : p ++ c :: q ++ [c] <+: a ++ c :: hex := by
    refine List.prefix_of_prefix_length_le hpayload hread ?_
    simp only [List.length_append, List.length_cons, List.length_nil]
    omega
  -- two colons against one
  have hcount := hcut.sublist.count_le c
  simp only [List.count_append, List.count_cons_self, List.count_nil, List.count_eq_zero.mpr ha,
    List.count_eq_zero.mpr hh] at hcount
  omega

theorem suffix_joinPath (dir name : Bytes) : name <:+ joinPath dir name := by
  unfold joinPath
  split
  · exact List.suffix_rfl
  · split
    · exact List.suffix_append _ _
    · exact (List.suffix_cons _ _).trans (List.suffix_append _ _)

theorem hashPath_file (cfg : ServerConfig) (fileId : Bytes) : HashFile (hashPath cfg fileId) :=
  (List.suffix_append fileId _).trans (suffix_joinPath _ _)

theorem keyPath_other (cfg : ServerConfig) (keyId : Bytes) : ¬HashFile (keyPath cfg keyId) := by
  intro h
  have hbin : bytes ".bin" <:+ keyPath cfg keyId := (List.suffix_append keyId _).trans (suffix_joinPath _ _)
  have hboth := List.suffix_of_suffix_length_le hbin h (by decide)
  exact absurd hboth (by decide)

theorem hashRecord_short {cfg : ServerConfig} {req : Header} (hreq : ShortRequest cfg req) {hex : Bytes}
    (hhex : hex.length ≤ 128) {written : Bytes} (hpre : written <+: (hashRecord req hex).payload) :
    ShortRecord written := by
  intro r hr
  unfold HashRecord.ofFile at hr
  obtain ⟨data, hdata, hr⟩ := Option.bind_eq_some_iff.mp hr
  cases hdata
  split at hr
  · cases hr
  · simp only [HashRecord.parse, Option.bind_eq_bind, Option.bind_eq_some_iff] at hr
    obtain ⟨⟨alg, r₁⟩, h₁, ⟨hex', r₂⟩, h₂, hr⟩ := hr
    have hlen := length_parts_le hpre h₁ h₂
    have hname := value_short hreq (bytes "hash")
    split at hr
    · cases hr
      unfold hashRecord at hlen
      dsimp only at hlen ⊢
      omega
    · cases hr

/-! ## Requests about files -/

section
variable {cfg : ServerConfig} {kdf : PasswordKdf} {lib : CryptoLibrary} {req : Header}
  (hreq : ShortRequest cfg req) (hlib : ShortDigests lib) {n : Nat} {s : ServerState} {w : AuditWorld}

theorem sendResult_small (resp : Header) (data : Bytes) (h : Small n s w) :
    wpS Answers (fun _ s' u => data.length < 2 ^ 64 ∧ Small n s' u) (fun _ => Small (n + 2))
      (fun _ => True) (sendResult resp data) s w := by
  have hk := endures_small (Nat.le_add_right n 2)
  unfold sendResult
  rw [wpS_bind]
  refine wpS_post (hk.perform (c := .sendHeader resp) trivial h) fun sent s₁ u₁ _ h₁ => ?_
  refine wpS_guardOr sent () _ _ (fun _ => ⟨trivial, h₁.mono (Nat.le_add_right n 2)⟩) fun _ => ?_
  refine (wpS_perform_ _).mpr ⟨trivial, fun _ u hu => ⟨trivial, hu.1, ?_⟩⟩
  exact hk.call (c := .sendData data) h₁ trivial hu

include hreq

theorem recordFile_small (hcfg : cfg.monitor.Loaded) (hn : n + 2 < 2 ^ 64) {op detail : Bytes}
    (hop : op.length ≤ 30) {size : Nat} (hsize : size < 2 ^ 64)
    (hfits : (ServerCall.logEvent op (req.get (bytes "username")) detail).Fits) (h : Small n s w) :
    wpS Answers (fun _ => Small (n + 2)) (fun _ => Small (n + 2)) (fun _ => True)
      (recordFile cfg (req.get (bytes "username")) op size detail) s w := by
  unfold recordFile
  rw [wpS_bind, wpS_onStats]
  refine wp_post (SecurityMonitor.recordFileOp_small hcfg h.stats hn (value_short hreq (bytes "username"))
    h.files hop hsize) fun stats u _ hu => ?_
  have h₁ : Small (n + 2) { s with stats := stats } u := ⟨hu.1, h.clients, hu.2⟩
  exact (endures_small (le_refl (n + 2))).perform_ hfits h₁

include hlib

theorem encryptRequest_small (size : Nat) (h : Small n s w) :
    wpS Answers (fun _ => Small n) (fun _ => Small (n + 2)) (fun _ => True)
      (encryptRequest cfg lib req size) s w := by
  have hk := endures_small (Nat.le_add_right n 2)
  unfold encryptRequest
  refine hk.orFail h fun cipher _ => hk.orFail h fun alg _ => hk.require h fun _ => ?_
  rw [wpS_bind]
  refine wpS_post (hk.readExact trivial h) fun payload s₁ u₁ _ h₁ => ?_
  refine hk.orFail h₁ fun plain _ => hk.okOrFail h₁ fun hex hhex => ?_
  have hshort := length_hash_le hlib hhex
  rw [wpS_bind, wpS_lift]
  have hencrypt : wp Answers (fun _ _ => True) (fun u => Small n s₁ u)
      (CryptoEngine.encrypt lib cipher plain) u₁ :=
    wp_post (CryptoEngine.encrypt_spec (fun _ n _ _ hi he => hk.call (c := .random n) hi trivial he) h₁)
      fun _ _ _ _ => trivial
  refine wp_mono (fun encrypted u₂ h₂ _ => ?_) (fun _ _ => trivial) hencrypt
  refine hk.okOrFail h₂ fun result _ => hk.require h₂ fun _ => ?_
  have hkeep : wpS Answers (fun _ => Small n) (fun _ => Small (n + 2)) (fun _ => True)
      (keepKey cfg (keyStorage req) result.toKeyMaterial) s₁ u₂ := by
    unfold keepKey
    split
    · rw [wpS_bind]
      refine wpS_post (randomHex_ends hk trivial h₂) fun keyId s₃ u₃ _ h₃ => ?_
      rw [wpS_bind, storeKey]
      refine wpS_post (hk.perform (c := .writeFile _ _) (fun hfile => absurd hfile (keyPath_other cfg keyId)) h₃)
        fun stored s₄ u₄ _ h₄ => ?_
      exact hk.require h₄ fun _ => ⟨trivial, h₄⟩
    · exact ⟨trivial, h₂⟩
  rw [wpS_bind]
  refine wpS_post hkeep fun keyId s₃ u₃ _ h₃ => ?_
  rw [wpS_bind]
  refine wpS_post (randomHex_ends hk trivial h₃) fun fileId s₄ u₄ _ h₄ => ?_
  rw [wpS_bind]
  refine wpS_post (hk.perform_ ?_ h₄) fun _ s₅ u₅ _ h₅ => ⟨trivial, h₅⟩
  exact fun _ written hpre => hashRecord_short hreq hshort hpre

theorem checkDigest_small (plain : Bytes) (h : Small n s w) :
    wpS Answers (fun _ => Small n) (fun _ => Small (n + 2)) (fun _ => True)
      (checkDigest cfg lib (req.get (bytes "username")) (req.get (bytes "file_id"))
        (req.get (bytes "hash")) plain) s w := by
  have hk := endures_small (Nat.le_add_right n 2)
  have hvalues := values_short hreq [bytes "username", bytes "file_id", bytes "hash"] (by decide)
  unfold shortHeader at hvalues
  unfold checkDigest
  split
  · exact ⟨trivial, h⟩
  · rw [wpS_bind]
    refine wpS_post (loadHashRecord_spec hk (P := ServerCall.Fits) trivial h) fun found s₁ u₁ _ h₁ => ?_
    obtain ⟨h₁, file, he, rfl⟩ := h₁
    refine hk.orFail h₁ fun record hrecord => ?_
    -- the record was written for a short request
    have hshort : record.alg.length + record.hex.length ≤ shortHeader + 128 := by
      cases hf : file with
      | none =>
        rw [hf] at hrecord
        cases hrecord
      | some b =>
        rw [hf] at hrecord
        exact h.files.records b (he.2 (hashPath_file cfg _) hreq.file b hf) record hrecord
    unfold shortHeader at hshort
    rw [wpS_bind]
    have hnote : wpS Answers (fun _ => Small n) (fun _ => Small (n + 2)) (fun _ => True)
        (noteMismatch (req.get (bytes "username")) (req.get (bytes "file_id")) (req.get (bytes "hash"))
          record) s₁ u₁ := by
      unfold noteMismatch
      split
      · refine hk.perform_ ?_ h₁
        simp only [ServerCall.Fits, List.length_append, List.map_cons, List.map_nil, List.sum_cons,
          List.sum_nil, bytes, String.reduceToList, List.length_cons, List.length_nil] at hvalues ⊢
        omega
      · exact ⟨trivial, h₁⟩
    refine wpS_post hnote fun _ s₂ u₂ _ h₂ => ?_
    refine hk.orFail h₂ fun alg _ => hk.okOrFail h₂ fun hex hhex => ?_
    have hgot := length_hash_le hlib hhex
    refine wpS_guardOr_last _ () _ (fun _ => ?_) fun _ => ⟨trivial, h₂⟩
    rw [wpS_bind]
    refine wpS_post (hk.perform_ ?_ h₂) fun _ s₃ u₃ _ h₃ => hk.sendError _ h₃
    simp only [ServerCall.Fits, List.length_append, List.map_cons, List.map_nil, List.sum_cons,
      List.sum_nil, bytes, String.reduceToList, List.length_cons, List.length_nil] at hvalues ⊢
    omega

theorem openRequest_small (size : Nat) (h : Small n s w) :
    wpS Answers (fun _ => Small n) (fun _ => Small (n + 2)) (fun _ => True)
      (openRequest cfg lib req size) s w := by
  have hk := endures_small (Nat.le_add_right n 2)
  unfold openRequest
  dsimp only
  refine hk.orFail h fun cipher _ => ?_
  rw [wpS_bind]
  refine wpS_post (hk.readExact trivial h) fun payload s₁ u₁ _ h₁ => hk.orFail h₁ fun ciphertext _ => ?_
  rw [wpS_bind]
  refine wpS_post (findKey_spec hk req (fun _ => trivial) h₁) fun m s₂ u₂ _ h₂ => ?_
  rw [wpS_bind]
  refine wpS_post (openFile_spec hk cipher ciphertext m (fun _ => trivial) h₂) fun plain s₃ u₃ _ h₃ => ?_
  rw [wpS_bind]
  exact wpS_post (checkDigest_small hreq hlib plain h₃) fun _ _ _ _ h₄ => ⟨trivial, h₄⟩

variable (hcfg : cfg.monitor.Loaded) (hn : n + 2 < 2 ^ 64)
include hcfg hn

omit hlib in
/-- A request that passes the checks, and then works on a file, answers and is recorded. -/
theorem checked_small {α : Type} {op denied : Bytes} {bit : UInt32} {result : Nat → Handler α}
    {resp : Nat → α → Header} {data : α → Bytes} {count : Nat → α → Nat} {detail : Nat → α → Bytes}
    (hop : op.length ≤ 30) (h : Small n s w)
    (hresult : ∀ size s₁ u₁, Small n s₁ u₁ → wpS Answers (fun _ => Small n) (fun _ => Small (n + 2))
      (fun _ => True) (result size) s₁ u₁)
    (hcount : ∀ size a, size < 2 ^ 64 → (data a).length < 2 ^ 64 → count size a < 2 ^ 64)
    (hdetail : ∀ size a, size < 2 ^ 64 → (data a).length < 2 ^ 64 →
      (ServerCall.logEvent op (req.get (bytes "username")) (detail size a)).Fits) :
    wpS Answers (fun _ => Small (n + 2)) (fun _ => Small (n + 2)) (fun _ => True)
      (checkRequest cfg kdf req op bit denied >>= fun size => result size >>= fun a => do
        sendResult (resp size a) (data a)
        recordFile cfg (req.get (bytes "username")) op (count size a) (detail size a)) s w := by
  rw [wpS_bind]
  refine wpS_post (checkRequest_small hreq hop hcfg hn _ _ h) fun size s₁ u₁ _ h₁ => ?_
  obtain ⟨hsize, h₁⟩ := h₁
  rw [wpS_bind]
  refine wpS_post (hresult size s₁ u₁ h₁) fun a s₂ u₂ _ h₂ => ?_
  rw [wpS_bind]
  refine wpS_post (sendResult_small _ _ h₂) fun _ s₃ u₃ _ h₃ => ?_
  obtain ⟨hdata, h₃⟩ := h₃
  exact recordFile_small hreq hcfg hn hop (hcount size a hsize hdata) (hdetail size a hsize hdata) h₃

theorem handleEncrypt_small (h : Small n s w) :
    wpS Answers (fun _ => Small (n + 2)) (fun _ => Small (n + 2)) (fun _ => True)
      (handleEncrypt cfg kdf lib req) s w := by
  have hvalues := values_short hreq [bytes "username", bytes "file_name", bytes "cipher"]
    (by decide)
  unfold shortHeader at hvalues
  unfold handleEncrypt encryptFile
  refine checked_small hreq hcfg hn (by simp [bytes]) h
    (fun size s₁ u₁ h₁ => encryptRequest_small hreq hlib size h₁) (fun _ _ hsize _ => hsize)
    fun size e hsize hdata => ?_
  have hdigits := length_decimal_word hsize
  have hdigits' := length_decimal_word hdata
  simp only [ServerCall.Fits, List.length_append, List.map_cons, List.map_nil, List.sum_cons,
    List.sum_nil, bytes, String.reduceToList, List.length_cons, List.length_nil] at hvalues ⊢
  omega

theorem handleDecrypt_small (h : Small n s w) :
    wpS Answers (fun _ => Small (n + 2)) (fun _ => Small (n + 2)) (fun _ => True)
      (handleDecrypt cfg kdf lib req) s w := by
  have hvalues := values_short hreq [bytes "username", bytes "file_id", bytes "cipher"]
    (by decide)
  unfold shortHeader at hvalues
  unfold handleDecrypt decryptFile
  refine checked_small hreq hcfg hn (by simp [bytes]) h
    (fun size s₁ u₁ h₁ => openRequest_small hreq hlib size h₁) (fun _ _ _ hdata => hdata)
    fun size plain hsize hdata => ?_
  have hdigits := length_decimal_word hsize
  have hdigits' := length_decimal_word hdata
  simp only [ServerCall.Fits, List.length_append, List.map_cons, List.map_nil, List.sum_cons,
    List.sum_nil, bytes, String.reduceToList, List.length_cons, List.length_nil] at hvalues ⊢
  omega

end

/-! ## Requests about accounts -/

theorem save_uses {P : ServerCall → Prop} (hwalk : ∀ users, P (.walk users))
    (hwrite : ∀ path text, P (.writeText path text)) (hrename : ∀ a b, P (.rename a b)) (users : UserStore)
    (path : Bytes) : Uses P (UserStore.save users path) := by
  unfold UserStore.save
  rw [uses_ask_bind]
  refine ⟨hwalk users, fun es => ?_⟩
  rw [uses_ask_bind]
  refine ⟨hwrite _ _, fun written => ?_⟩
  split
  · exact trivial
  · exact ⟨hrename _ _, fun _ => trivial⟩

section
variable {cfg : ServerConfig} {kdf : PasswordKdf} {req : Header} (hreq : ShortRequest cfg req) {n : Nat}
  {s : ServerState} {w : AuditWorld}

theorem storeUsers_small (updated : Option UserStore) (message : Bytes) (h : Small n s w) :
    wpS Answers (fun _ => Small n) (fun _ => Small (n + 2)) (fun _ => True)
      (storeUsers cfg updated message) s w := by
  have hk := endures_small (Nat.le_add_right n 2)
  unfold storeUsers
  rw [wpS_state_bind]
  refine hk.orFail h fun users _ => ?_
  rw [wpS_setUsers_bind]
  have h₁ : Small n { s with users := users } w := ⟨h.stats, h.clients, h.files⟩
  rw [wpS_bind, wpS_lift]
  have hsave := save_uses (P := ServerCall.Fits) (fun _ => trivial) (fun _ _ => trivial)
    (fun _ _ => trivial) users cfg.usersDbPath
  refine wp_post (hk.program hsave h₁) fun saved u _ hu => ?_
  refine wpS_guardOr_last _ () _ (fun _ => ?_) fun _ => ⟨trivial, hu⟩
  rw [wpS_setUsers_bind]
  exact hk.sendError _ ⟨hu.stats, hu.clients, hu.files⟩

theorem upsert_small {Q : Option UserStore → ServerState → AuditWorld → Prop}
    {E : Unit → ServerState → AuditWorld → Prop} (users : UserStore) (username password : Bytes)
    (h : Small n s w) (hQ : ∀ updated u, Small n s u → Q updated s u) :
    wpS Answers Q E (fun _ => True) (lift (UserStore.upsert kdf users username password)) s w := by
  have hk := endures_small (le_refl n)
  rw [wpS_lift]
  exact wp_post (hk.program (UserStore.upsert_uses trivial kdf users username password) h)
    fun updated u _ hu => hQ updated u hu

theorem answer_small {kind who detail : Bytes} (resp : Header)
    (hfits : (ServerCall.logEvent kind who detail).Fits) (h : Small n s w) :
    wpS Answers (fun _ => Small (n + 2)) (fun _ => Small (n + 2)) (fun _ => True)
      (do
        perform_ (.logEvent kind who detail)
        perform_ (.sendHeader resp)) s w := by
  have hk := endures_small (le_refl (n + 2))
  rw [wpS_bind]
  refine wpS_post (hk.perform_ hfits (h.mono (Nat.le_add_right n 2))) fun _ s₁ u₁ _ h₁ => ?_
  exact hk.perform_ trivial h₁

include hreq

theorem admitted_small {α : Type} {Q : α → ServerState → AuditWorld → Prop} {op : Bytes} {f : Handler α}
    (hcfg : cfg.monitor.Loaded) (hn : n + 2 < 2 ^ 64) (hop : op.length ≤ 30) (password : Bytes)
    (h : Small n s w)
    (hf : ∀ s' u, Small n s' u → wpS Answers Q (fun _ => Small (n + 2)) (fun _ => True) f s' u) :
    wpS Answers Q (fun _ => Small (n + 2)) (fun _ => True)
      (do
        requireClient req (req.get (bytes "username")) op 0
        requireUnlocked (req.get (bytes "username")) op 0
        requirePassword cfg kdf (req.get (bytes "username")) password op
        recordLogin cfg (req.get (bytes "username"))
        f) s w := by
  rw [wpS_bind]
  refine wpS_post (requireClient_small hreq hop 0 h) fun _ s₁ u₁ _ h₁ => ?_
  rw [wpS_bind]
  refine wpS_post (requireUnlocked_small hreq (by omega) 0 h₁) fun _ s₂ u₂ _ h₂ => ?_
  rw [wpS_bind]
  refine wpS_post (requirePassword_small hreq hop hcfg hn password h₂) fun _ s₃ u₃ _ h₃ => ?_
  rw [wpS_bind]
  exact wpS_post (recordLogin_small hreq hcfg h₃) fun _ s₄ u₄ _ h₄ => hf s₄ u₄ h₄

theorem handleChangePassword_small (hcfg : cfg.monitor.Loaded) (hn : n + 2 < 2 ^ 64) (h : Small n s w) :
    wpS Answers (fun _ => Small (n + 2)) (fun _ => Small (n + 2)) (fun _ => True)
      (handleChangePassword cfg kdf req) s w := by
  have hname := value_short hreq (bytes "username")
  unfold shortHeader at hname
  unfold handleChangePassword
  dsimp only
  refine admitted_small hreq hcfg hn (by simp [bytes]) _ h fun s₁ u₁ h₁ => ?_
  rw [wpS_state_bind, wpS_bind]
  refine upsert_small _ _ _ h₁ fun updated u₂ h₂ => ?_
  rw [wpS_bind]
  refine wpS_post (storeUsers_small updated _ h₂) fun _ s₃ u₃ _ h₃ => answer_small _ ?_ h₃
  simp only [ServerCall.Fits, bytes, String.reduceToList, List.length_map, List.length_cons,
    List.length_nil] at hname ⊢
  omega

theorem handleAuthCheck_small (hcfg : cfg.monitor.Loaded) (hn : n + 2 < 2 ^ 64) (h : Small n s w) :
    wpS Answers (fun _ => Small (n + 2)) (fun _ => Small (n + 2)) (fun _ => True)
      (handleAuthCheck cfg kdf req) s w := by
  have hk := endures_small (le_refl (n + 2))
  have hname := value_short hreq (bytes "username")
  unfold shortHeader at hname
  unfold handleAuthCheck
  dsimp only
  refine admitted_small hreq hcfg hn (by simp [bytes]) _ h fun s₁ u₁ h₁ => ?_
  rw [wpS_bind]
  refine wpS_post (hk.perform_ ?_ (h₁.mono (Nat.le_add_right n 2))) fun _ s₂ u₂ _ h₂ => ?_
  · simp only [ServerCall.Fits, bytes, String.reduceToList, List.length_map, List.length_cons,
      List.length_nil] at hname ⊢
    omega
  · rw [wpS_state_bind]
    exact hk.perform_ trivial h₂

/-! ## The administrator's requests -/

omit hreq in
theorem updateUser_small (op : UserOp) (users : UserStore) (username : Bytes) (h : Small n s w) :
    wpS Answers (fun _ => Small n) (fun _ => Small (n + 2)) (fun _ => True)
      (updateUser kdf op req users username) s w := by
  have hk := endures_small (Nat.le_add_right n 2)
  have hwritten : wpS Answers (fun _ => Small n) (fun _ => Small (n + 2)) (fun _ => True)
      (do
        let password := req.get (bytes "new_password")
        require (8 ≤ password.length && password.length ≤ 1024)
          (bytes "Password must contain 8-1024 bytes")
        lift (UserStore.upsert kdf users username password)) s w :=
    hk.require h fun _ => upsert_small _ _ _ h fun _ _ => id
  cases op with
  | adminCreateUser => exact hwritten
  | adminResetPassword => exact hwritten
  | adminBlockUser => exact hk.require h fun _ => ⟨trivial, h⟩
  | adminSetPermissions =>
    unfold updateUser
    dsimp only
    split
    · exact hk.require h fun _ => ⟨trivial, h⟩
    · exact hk.fail _ h

theorem handleAdminUser_small (op : UserOp) (h : Small n s w) :
    wpS Answers (fun _ => Small (n + 2)) (fun _ => Small (n + 2)) (fun _ => True)
      (handleAdminUser cfg kdf op req) s w := by
  have hk := endures_small (Nat.le_add_right n 2)
  have hname := value_short hreq (bytes "username")
  unfold shortHeader at hname
  have hop : op.name.length ≤ 30 := by cases op <;> simp [UserOp.name, bytes]
  have hadmin : (bytes "admin").length = 5 := by simp [bytes]
  have hrest : wpS Answers (fun _ => Small (n + 2)) (fun _ => Small (n + 2)) (fun _ => True)
      (do
        let updated ← updateUser kdf op req s.users (req.get (bytes "username"))
        storeUsers cfg updated (bytes "Cannot save user database")
        perform_ (.logEvent op.name (bytes "admin") (req.get (bytes "username")))
        perform_ (.sendHeader (messageHeader (bytes "User updated")))) s w := by
    rw [wpS_bind]
    refine wpS_post (updateUser_small op s.users _ h) fun updated s₁ u₁ _ h₁ => ?_
    rw [wpS_bind]
    refine wpS_post (storeUsers_small updated _ h₁) fun _ s₂ u₂ _ h₂ => answer_small _ ?_ h₂
    unfold ServerCall.Fits
    omega
  unfold handleAdminUser
  refine hk.require h fun _ => ?_
  rw [wpS_state_bind]
  split
  · exact hk.require h fun _ => hrest
  · exact hk.require h fun _ => hrest

theorem handleAdminUnlock_small (h : Small n s w) :
    wpS Answers (fun _ => Small (n + 2)) (fun _ => Small (n + 2)) (fun _ => True)
      (handleAdminUnlock req) s w := by
  have hk := endures_small (Nat.le_add_right n 2)
  have hname := value_short hreq (bytes "username")
  unfold handleAdminUnlock
  refine hk.require h fun _ => ?_
  rw [wpS_bind, wpS_step, wp_bind]
  refine wp_post (SecurityMonitor.unlockUser_small h.stats hname h.files) fun r u _ hr => ⟨trivial, ?_⟩
  have h₁ : Small n { s with stats := r.2 } u := ⟨hr.1, h.clients, hr.2⟩
  refine hk.require h₁ fun _ => answer_small _ ?_ h₁
  unfold shortHeader at hname
  simp only [ServerCall.Fits, bytes, String.reduceToList, List.length_map, List.length_cons,
    List.length_nil] at hname ⊢
  omega

omit hreq in
theorem handleAdminSetBinding_small (h : Small n s w) :
    wpS Answers (fun _ => Small (n + 2)) (fun _ => Small (n + 2)) (fun _ => True)
      (handleAdminSetBinding req) s w := by
  unfold handleAdminSetBinding
  rw [wpS_bind, wpS_onPolicy]
  refine wp_post (BindingPolicy.setBinding_small h.clients h.files _) fun policy u _ hp => ?_
  refine answer_small _ ?_ ⟨h.stats, hp.1, hp.2⟩
  split <;> simp [ServerCall.Fits, bytes]

theorem handleAdminSetClientAllowed_small (h : Small n s w) :
    wpS Answers (fun _ => Small (n + 2)) (fun _ => Small (n + 2)) (fun _ => True)
      (handleAdminSetClientAllowed req) s w := by
  have hk := endures_small (Nat.le_add_right n 2)
  have hid := value_short hreq (bytes "client_id")
  have hflag (allowed : Bool) : (if allowed then bytes "1" else bytes "0").length = 1 := by
    cases allowed <;> simp [bytes]
  unfold handleAdminSetClientAllowed
  refine hk.require h fun _ => ?_
  rw [wpS_bind, wpS_onPolicy]
  refine wp_post (BindingPolicy.setClientAllowed_small h.clients h.files hid _) fun policy u _ hp => ?_
  refine answer_small _ ?_ ⟨h.stats, hp.1, hp.2⟩
  unfold shortHeader at hid
  rw [ServerCall.Fits, List.length_append, List.length_append, hflag]
  simp only [bytes, String.reduceToList, List.length_map, List.length_cons, List.length_nil] at hid ⊢
  omega

omit hreq in
theorem handleAdminReport_small (op : Bytes) (h : Small n s w) :
    wpS Answers (fun _ => Small (n + 2)) (fun _ => Small (n + 2)) (fun _ => True)
      (handleAdminReport op req) s w := by
  have hk := endures_small (Nat.le_add_right n 2)
  unfold handleAdminReport
  rw [wpS_bind]
  refine wpS_post (hk.perform (c := .report op req) trivial h) fun answer s₁ u₁ _ h₁ => ?_
  refine hk.okOrFail h₁ fun found _ => ?_
  have h₂ := h₁.mono (Nat.le_add_right n 2)
  have hk₂ := endures_small (le_refl (n + 2))
  unfold sendPayload
  rw [wpS_bind]
  refine wpS_post (hk₂.perform (c := .sendHeader _) trivial h₂) fun sent s₃ u₃ _ h₃ => ?_
  split
  · exact hk₂.perform_ trivial h₃
  · exact ⟨trivial, h₃⟩

theorem handleAdmin_small (op : Bytes) (h : Small n s w) :
    wpS Answers (fun _ => Small (n + 2)) (fun _ => Small (n + 2)) (fun _ => True)
      (handleAdmin cfg kdf op req) s w := by
  have hk := endures_small (Nat.le_add_right n 2)
  unfold handleAdmin
  refine hk.require h fun _ => ?_
  split_ifs
  · exact handleAdminUser_small hreq .adminCreateUser h
  · exact handleAdminUser_small hreq .adminResetPassword h
  · exact handleAdminUser_small hreq .adminBlockUser h
  · exact handleAdminUser_small hreq .adminSetPermissions h
  · exact handleAdminUnlock_small hreq h
  · exact handleAdminSetBinding_small h
  · exact handleAdminSetClientAllowed_small hreq h
  · exact handleAdminReport_small op h
  · exact hk.fail _ h

theorem handleRequest_small {lib : CryptoLibrary} (hlib : ShortDigests lib) (hcfg : cfg.monitor.Loaded)
    (hn : n + 2 < 2 ^ 64) (adminOnly : Bool) (h : Small n s w) :
    wpS Answers (fun _ => Small (n + 2)) (fun _ => Small (n + 2)) (fun _ => True)
      (handleRequest cfg kdf lib adminOnly req) s w := by
  have hk := endures_small (Nat.le_add_right n 2)
  unfold handleRequest
  dsimp only
  split_ifs
  · exact hk.sendError _ h
  · exact handleAdmin_small hreq _ h
  · exact handleEncrypt_small hreq hlib hcfg hn h
  · exact handleDecrypt_small hreq hlib hcfg hn h
  · exact handleChangePassword_small hreq hcfg hn h
  · exact handleAuthCheck_small hreq hcfg hn h
  · exact hk.sendError _ h

end

end Server

end EncoderNext
