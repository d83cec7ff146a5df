import EncoderNext.FileCalls

/-!
# Nothing is released before every check has passed

A log records each call and its answer, whatever the answer is. No log of an
encryption or a decryption holds an ok reply, a result or a record before the
checks stand in it.
-/

namespace EncoderNext

open Program Program.Stateful

abbrev Event : Type := Sigma ServerCall.Reply

def recording : Env (List Event) ServerCall ServerCall.Reply := fun w c r u => u = w ++ [⟨c, r⟩]

def ServerCall.Releases : ServerCall → Prop
  | .sendHeader h => h.get (bytes "status") = bytes "ok"
  | .sendData _ | .writeFile .. => True
  | _ => False

def Silent (log : List Event) : Prop := ∀ e ∈ log, ¬ e.1.Releases

theorem silent_snoc {log : List Event} {e : Event} (h : Silent log) (he : ¬ e.1.Releases) :
    Silent (log ++ [e]) := by
  intro e' hm
  rcases List.mem_append.mp hm with hm | hm
  · exact h e' hm
  · exact List.mem_singleton.mp hm ▸ he

theorem not_releases_quiet {c : ServerCall} (hc : c.Quiet) : ¬ c.Releases := by
  cases c <;> first | exact hc.elim | exact id

theorem not_releases_error (message : Bytes) :
    ¬ (ServerCall.sendHeader (Server.errorHeader message)).Releases := by
  show ¬ (Server.errorHeader message).get (bytes "status") = bytes "ok"
  rw [Server.errorHeader, Header.get_set, if_neg (by decide), Header.get_set_self]
  decide

namespace Server

theorem prefix_recording {l w u : List Event} {c : ServerCall} {r : c.Reply} (h : l <+: w)
    (he : recording w c r u) : l <+: u := by
  rw [he]
  exact h.trans (List.prefix_append w _)

structure SilentFrom (l w : List Event) : Prop where
  silent : Silent w
  from_prefix : l <+: w

theorem kept_silent {K : List Event → Prop} (hK : ∀ w, Silent w → K w) (l : List Event) :
    Kept recording (fun _ => SilentFrom l) (fun _ => SilentFrom l) K where
  quiet h hc he :=
    ⟨he ▸ silent_snoc h.silent (not_releases_quiet hc), prefix_recording h.from_prefix he⟩
  stats _ h := h
  policy _ h := h
  error h he :=
    ⟨he ▸ silent_snoc h.silent (not_releases_error _), prefix_recording h.from_prefix he⟩
  ended h hc he :=
    ⟨he ▸ silent_snoc h.silent (not_releases_quiet hc), prefix_recording h.from_prefix he⟩
  crash h := hK _ h.silent
  crashed h := hK _ h.silent

theorem SilentFrom.trans {l₁ l₂ w : List Event} (h : SilentFrom l₂ w) (h' : l₁ <+: l₂) :
    SilentFrom l₁ w := ⟨h.silent, h'.trans h.from_prefix⟩

/-- The request has passed the checks in a part of the log without releases. -/
def PassedChecks (cfg : ServerConfig) (kdf : PasswordKdf) (req : Header) (bit : UInt32)
    (s : ServerState) (log : List Event) : Prop :=
  ∃ size s' checks, Admitted recording cfg kdf req bit s size s' checks ∧ Silent checks ∧ checks <+: log

def DigestChecked (cfg : ServerConfig) (lib : CryptoLibrary) (fileId plain : Bytes)
    (log : List Event) : Prop :=
  ∃ (file : Option Bytes) (record : HashRecord) (alg : HashAlg),
    (⟨.readFile (hashPath cfg fileId), file⟩ : Event) ∈ log ∧ HashRecord.ofFile file = some record ∧
    CryptoEngine.hashFromString record.alg = some alg ∧
    CryptoEngine.hash lib alg plain = .ok record.hex

variable {cfg : ServerConfig} {kdf : PasswordKdf} {lib : CryptoLibrary} {req : Header} {s : ServerState}

theorem handleEncrypt_passed : wpS recording (fun _ _ _ => True) (fun _ _ _ => True)
    (fun w => ¬ Silent w → PassedChecks cfg kdf req 1 s w) (handleEncrypt cfg kdf lib req) s [] := by
  unfold handleEncrypt
  rw [wpS_bind]
  have hk := kept_silent (K := fun w => ¬ Silent w → PassedChecks cfg kdf req 1 s w)
    (fun w hs hn => absurd hs hn) []
  have hstart : SilentFrom [] [] := ⟨by simp [Silent], List.nil_prefix⟩
  refine wpS_mono (checkRequest_spec hk req _ _ 1 hstart) (fun size s' u _ hq => ?_)
    (fun _ _ _ _ _ => trivial) fun _ => id
  obtain ⟨⟨hsilent, -⟩, hadmitted⟩ := hq
  have hgrow : wpS recording (fun _ _ w => u <+: w) (fun _ _ w => u <+: w) (fun w => u <+: w)
      (encryptFile cfg lib req size) s' u :=
    wpS_of_uses (fun _ _ _ _ _ hw he => prefix_recording hw he) (fun _ => uses_true _) List.prefix_rfl
  exact wpS_mono hgrow (fun _ _ _ _ _ => trivial) (fun _ _ _ _ _ => trivial)
    fun w hw _ => ⟨size, s', u, hadmitted, hsilent, hw⟩

/-! ## Decryption -/

section
variable {K : List Event → Prop} (hK : ∀ w, Silent w → K w)
include hK

theorem checkDigest_spec {l w : List Event} (username fileId hashStr plain : Bytes)
    (h : SilentFrom l w) :
    wpS recording (fun _ _ u => SilentFrom l u ∧ (fileId ≠ [] → DigestChecked cfg lib fileId plain u))
      (fun _ _ => SilentFrom l) K (checkDigest cfg lib username fileId hashStr plain) s w := by
  unfold checkDigest
  split
  · rename_i hnone
    exact ⟨hK w h.silent, h, fun hne => absurd hnone hne⟩
  · rw [wpS_bind]
    refine wpS_post (loadHashRecord_spec (kept_silent hK l).endures trivial h) fun found s₁ w₁ _ h₁ => ?_
    obtain ⟨h₁, file, he, rfl⟩ := h₁
    have hread : (⟨.readFile (hashPath cfg fileId), file⟩ : Event) ∈ w₁ := by
      rw [he]
      simp
    -- from here on the log goes on from the read
    refine (kept_silent hK l).orFail h₁ fun record hrecord => ?_
    have hk := kept_silent hK w₁
    have hend : ∀ (_ : Unit) (_ : ServerState) (u : List Event), K u → SilentFrom w₁ u → SilentFrom l u :=
      fun _ _ _ _ hu => hu.trans h₁.from_prefix
    rw [wpS_bind]
    refine wpS_mono (noteMismatch_spec hk.endures username fileId hashStr record
      (fun _ _ _ => trivial) ⟨h₁.silent, List.prefix_rfl⟩)
      (fun _ s₂ w₂ _ h₂ => ?_) hend fun _ => id
    refine wpS_mono (Q := fun _ _ u => SilentFrom w₁ u ∧ DigestChecked cfg lib fileId plain u)
      (E := fun _ _ => SilentFrom w₁) ?_ (fun _ _ u _ hu => ⟨hu.1.trans h₁.from_prefix, fun _ => hu.2⟩)
      hend fun _ => id
    refine hk.orFail h₂ fun alg halg => hk.okOrFail h₂ fun hex hhex => ?_
    refine wpS_guardOr_last _ () _ (fun _ => ?_) fun heq => ?_
    · rw [wpS_bind]
      exact wpS_post (hk.perform_ trivial h₂) fun _ s₃ w₃ _ h₃ => hk.sendError _ h₃
    · have hsame : hex = record.hex := eq_of_beq heq
      exact ⟨hK w₂ h₂.silent, h₂, file, record, alg, h₂.from_prefix.subset hread, hrecord, halg,
        hsame ▸ hhex⟩

end

def OnlySent (plain : Bytes) (log : List Event) : Prop :=
  ∀ e ∈ log, ∀ data, e.1 = .sendData data → data = plain

/-- Everything that must stand in a log before a decryption releases anything. -/
structure PassedDecrypt (cfg : ServerConfig) (kdf : PasswordKdf) (lib : CryptoLibrary) (req : Header)
    (s : ServerState) (log : List Event) : Prop where
  checks : PassedChecks cfg kdf req 2 s log
  digest : ∃ plain, OnlySent plain log ∧ (req.get (bytes "file_id") ≠ [] →
    DigestChecked cfg lib (req.get (bytes "file_id")) plain log)

theorem onlySent_silent {log : List Event} (h : Silent log) (plain : Bytes) : OnlySent plain log := by
  intro e he data hd
  have hquiet := h e he
  rw [hd] at hquiet
  exact absurd trivial hquiet

def Sends (plain : Bytes) (c : ServerCall) : Prop := ∀ data, c = .sendData data → data = plain

theorem sends_quiet {plain : Bytes} {c : ServerCall} (hc : c.Quiet) : Sends plain c := by
  rintro data rfl
  exact hc.elim

theorem sendResult_sends (resp : Header) (plain : Bytes) : UsesS (Sends plain) (sendResult resp plain) := by
  unfold sendResult
  have hheader : Sends plain (.sendHeader resp) := nofun
  have hdata : Sends plain (.sendData plain) := fun data he => by cases he; rfl
  refine usesS_bind (usesS_perform hheader) fun sent => ?_
  refine usesS_bind (usesS_guardOr (usesS_pure ())) fun _ => ?_
  exact usesS_bind (usesS_perform hdata) fun _ => usesS_pure ()

theorem recordFile_sends (username op : Bytes) (size : Nat) (detail plain : Bytes) :
    UsesS (Sends plain) (recordFile cfg username op size detail) := by
  unfold recordFile
  refine usesS_bind (usesS_step fun s => ?_) fun _ => ?_
  · have hquiet := uses_quiet (SecurityMonitor.recordFileOp_inward cfg.monitor s.stats username op 1 size)
    exact uses_bind (uses_mono (fun _ => sends_quiet) hquiet) fun _ => trivial
  · have hevent : Sends plain (.logEvent op username detail) := nofun
    exact usesS_bind (usesS_perform hevent) fun _ => usesS_pure ()

theorem openRequest_spec {K : List Event → Prop} (hK : ∀ w, Silent w → K w) {l w : List Event}
    (size : Nat) (h : SilentFrom l w) :
    wpS recording (fun plain _ u => SilentFrom l u ∧ (req.get (bytes "file_id") ≠ [] →
        DigestChecked cfg lib (req.get (bytes "file_id")) plain u))
      (fun _ _ => SilentFrom l) K (openRequest cfg lib req size) s w := by
  have hk := kept_silent hK l
  unfold openRequest
  dsimp only
  refine hk.orFail h fun cipher _ => ?_
  rw [wpS_bind]
  refine wpS_post (hk.readExact size h) fun payload s₁ w₁ _ h₁ => ?_
  refine hk.orFail h₁ fun ciphertext _ => ?_
  rw [wpS_bind]
  refine wpS_post (findKey_spec hk.endures req (fun _ => trivial) h₁) fun m s₂ w₂ _ h₂ => ?_
  rw [wpS_bind]
  refine wpS_post (openFile_spec hk.endures cipher ciphertext m (fun _ => trivial) h₂) fun plain s₃ w₃ _ h₃ => ?_
  rw [wpS_bind]
  exact wpS_post (checkDigest_spec hK _ _ _ plain h₃) fun _ _ _ hk₄ h₄ => ⟨hk₄, h₄⟩

theorem handleDecrypt_passed : wpS recording (fun _ _ _ => True) (fun _ _ _ => True)
    (fun w => ¬ Silent w → PassedDecrypt cfg kdf lib req s w) (handleDecrypt cfg kdf lib req) s [] := by
  have hK : ∀ w, Silent w → ¬ Silent w → PassedDecrypt cfg kdf lib req s w := fun w hs hn => absurd hs hn
  unfold handleDecrypt
  rw [wpS_bind]
  have hstart : SilentFrom [] [] := ⟨by simp [Silent], List.nil_prefix⟩
  refine wpS_mono (checkRequest_spec (kept_silent hK []) req _ _ 2 hstart) (fun size s₁ w₁ _ h₁ => ?_)
    (fun _ _ _ _ _ => trivial) fun _ => id
  obtain ⟨⟨hsilent, -⟩, hadmitted⟩ := h₁
  unfold decryptFile
  rw [wpS_bind]
  refine wpS_mono (openRequest_spec hK size ⟨hsilent, List.prefix_rfl⟩) (fun plain s₂ w₂ _ h₂ => ?_)
    (fun _ _ _ _ _ => trivial) fun _ => id
  obtain ⟨⟨hsilent', hfrom⟩, hdigest⟩ := h₂
  have hrest : UsesS (Sends plain) (do
      sendResult (decryptedHeader plain) plain
      recordFile cfg (req.get (bytes "username")) (bytes "decrypt") plain.length
        (bytes "file_id=" ++ req.get (bytes "file_id") ++ bytes " enc_size=" ++ decimal size ++
          bytes " plain_size=" ++ decimal plain.length ++ bytes " cipher=" ++ req.get (bytes "cipher"))) :=
    usesS_bind (sendResult_sends _ plain) fun _ => recordFile_sends _ _ _ _ _
  let Grown (w : List Event) : Prop := w₂ <+: w ∧ OnlySent plain w
  have hgrow : ∀ (w : List Event) (c : ServerCall) (r : c.Reply) (u : List Event),
      Sends plain c → Grown w → recording w c r u → Grown u := by
    intro w c r u hc hw he
    refine ⟨prefix_recording hw.1 he, fun e hm data hd => ?_⟩
    rw [he] at hm
    rcases List.mem_append.mp hm with hm | hm
    · exact hw.2 e hm data hd
    · rw [List.mem_singleton.mp hm] at hd
      exact hc data hd
  refine wpS_mono (wpS_of_uses hgrow hrest ⟨List.prefix_rfl, onlySent_silent hsilent' plain⟩)
    (fun _ _ _ _ _ => trivial) (fun _ _ _ _ _ => trivial) fun w hw _ => ?_
  refine ⟨⟨size, s₁, w₁, hadmitted, hsilent, hfrom.trans hw.1⟩, plain, hw.2, fun hne => ?_⟩
  obtain ⟨file, record, alg, hmem, hfile, halg, hhash⟩ := hdigest hne
  exact ⟨file, record, alg, hw.1.subset hmem, hfile, halg, hhash⟩

/-- **Nothing is released before every check has passed.** Wherever a run is cut, if
its log holds an ok reply, a byte of a result or a record, then the request has passed
every check in a part of the log before any of them; a decryption that names a file
has also found the digest of what it sends in the record of that file. -/
theorem released_passed :
    (∀ log, Visits recording ((handleEncrypt cfg kdf lib req).go s) [] log →
      (∃ e ∈ log, e.1.Releases) → PassedChecks cfg kdf req 1 s log) ∧
    (∀ log, Visits recording ((handleDecrypt cfg kdf lib req).go s) [] log →
      (∃ e ∈ log, e.1.Releases) → PassedDecrypt cfg kdf lib req s log) := by
  have hloud : ∀ {log : List Event}, (∃ e ∈ log, e.1.Releases) → ¬ Silent log :=
    fun ⟨e, he, hr⟩ hs => hs e he hr
  exact ⟨fun log hv hr => visits_of_wp handleEncrypt_passed hv (hloud hr),
    fun log hv hr => visits_of_wp handleDecrypt_passed hv (hloud hr)⟩

/-! ## A file of three bytes -/

def copyLibrary : CryptoLibrary where
  cipherByName name := if name = bytes "aes-256-ctr" then some ⟨32, 16, 1, .other⟩ else none
  sealCipher call := .ok (call.data, Vector.replicate 16 0)
  openCipher call := .ok call.data
  sha256 := .of32 fun _ => some (Vector.replicate 32 0)
  sha512 := .of64 fun _ => some (Vector.replicate 64 0)
  digestByName _ := none
  gost := none

def zeroKdf : PasswordKdf := fun _ _ _ => some (Vector.replicate 32 0)

def fileConfig : ServerConfig where
  keysDir := bytes "keys"
  hashesDir := bytes "hashes"
  usersDbPath := bytes "users.db"
  adminToken := []

def bob : UserRecord where
  username := bytes "bob"
  hashHex := toHex (List.replicate 32 0)

def bobsState : ServerState where
  users := AList.insert (bytes "bob") bob ∅

def encryptAsked : Header :=
  ((((Header.set {} (bytes "username") (bytes "bob")).set (bytes "cipher") (bytes "aes-256-ctr")).set
    (bytes "hash") (bytes "sha256")).set (bytes "key_storage") (bytes "client")).set
    (bytes "file_size") (bytes "3")

def decryptAsked : Header :=
  (encryptAsked.set (bytes "file_id") (bytes "00")).set (bytes "key") (bytes "AA==")

def storedRecord : HashRecord := ⟨bytes "sha256", toHex (List.replicate 32 0), bytes "notes"⟩

def recordAnswer (log : List Event) (c : ServerCall) : c.Reply × List Event :=
  let r : c.Reply := match c with
    | .random n => (true, Vector.replicate n 0)
    | .receive n => some (Vector.replicate n 7)
    | .readFile _ => some storedRecord.payload
    | c => c.plain 0
  (r, log ++ [⟨c, r⟩])

def encryptedLog : List Event :=
  (exec recordAnswer ((handleEncrypt fileConfig zeroKdf copyLibrary encryptAsked).go bobsState) []).2

def decryptedLog : List Event :=
  (exec recordAnswer ((handleDecrypt fileConfig zeroKdf copyLibrary decryptAsked).go bobsState) []).2

instance : DecidablePred ServerCall.Releases
  | .sendHeader h => inferInstanceAs (Decidable (h.get (bytes "status") = bytes "ok"))
  | .sendData _ | .writeFile .. => isTrue trivial
  | .now | .localHour _ | .random _ | .readHeader _ | .receive _ | .readFile _ | .walk _
  | .writeText .. | .rename .. | .saveStats _ | .savePolicy _ | .logEvent .. | .logAlert ..
  | .report .. => isFalse id

theorem exists_released {log : List Event} (h : (log.any fun e => decide e.1.Releases) = true) :
    ∃ e ∈ log, e.1.Releases := by
  obtain ⟨e, he, hr⟩ := List.any_eq_true.mp h
  exact ⟨e, he, of_decide_eq_true hr⟩

/-- An encryption and a decryption that end well. -/
theorem released_passed_file : PassedChecks fileConfig zeroKdf encryptAsked 1 bobsState encryptedLog ∧
    PassedDecrypt fileConfig zeroKdf copyLibrary decryptAsked bobsState decryptedLog ∧
    decryptAsked.get (bytes "file_id") ≠ [] := by
  have hencrypt : Runs recording ((handleEncrypt fileConfig zeroKdf copyLibrary encryptAsked).go bobsState)
      [] _ encryptedLog := runs_exec (fun _ _ => rfl) _ _
  have hdecrypt : Runs recording ((handleDecrypt fileConfig zeroKdf copyLibrary decryptAsked).go bobsState)
      [] _ decryptedLog := runs_exec (fun _ _ => rfl) _ _
  have hloud : (encryptedLog.any fun e => decide e.1.Releases) = true ∧
      (decryptedLog.any fun e => decide e.1.Releases) = true := by decide +kernel
  exact ⟨released_passed.1 _ (visits_of_runs hencrypt) (exists_released hloud.1),
    released_passed.2 _ (visits_of_runs hdecrypt) (exists_released hloud.2), by decide⟩

end Server

end EncoderNext
