import EncoderNext.Checks

/-!
# The calls of a file request

Behind the checks a request reads its payload, draws numbers, and reads or writes
files under names it is told. What these calls keep, its body keeps, and it ends
early only with an error.
-/

namespace EncoderNext

open Program Program.Stateful

namespace Server

section
variable {W : Type} {env : Env W ServerCall ServerCall.Reply} {P : ServerCall → Prop}
  {I F : ServerState → W → Prop} {K : W → Prop} (hk : Endures env P I F K) {s : ServerState} {w : W}
  {cfg : ServerConfig} {lib : CryptoLibrary}
include hk

/-! ## Decryption -/

theorem loadKey_spec {E : Unit → ServerState → W → Prop} {path : Bytes} (hc : P (.readFile path))
    (h : I s w) : wpS env (fun _ => I) E K (loadKey path) s w := by
  unfold loadKey
  rw [wpS_bind]
  exact wpS_post (hk.perform hc h) fun _ _ _ hw hi => ⟨hw, hi⟩

theorem loadHashRecord_spec {E : Unit → ServerState → W → Prop} {path : Bytes}
    (hc : P (.readFile path)) (h : I s w) :
    wpS env (fun found s' u => I s' u ∧ ∃ file, env w (.readFile path) file u ∧
      found = HashRecord.ofFile file) E K (loadHashRecord path) s w := by
  unfold loadHashRecord
  rw [wpS_perform_bind]
  refine ⟨hk.crash h, fun file u he => ?_⟩
  have hu := hk.call h hc he
  exact ⟨hk.crash hu, hu, file, he, rfl⟩

theorem decodeOrFail_spec {Q : Bytes → ServerState → W → Prop} (text message : Bytes) (h : I s w)
    (hQ : ∀ b, Q b s w) : wpS env Q (fun _ => F) K (decodeOrFail text message) s w := by
  unfold decodeOrFail
  split
  · exact ⟨hk.crash h, hQ []⟩
  · exact hk.orFail_last h fun b _ => hQ b

theorem findKey_spec (req : Header)
    (hkey : req.get (bytes "key_id") ≠ [] → P (.readFile (keyPath cfg (req.get (bytes "key_id")))))
    (h : I s w) : wpS env (fun _ => I) (fun _ => F) K (findKey cfg req) s w := by
  unfold findKey
  split
  · rename_i hid
    rw [wpS_bind]
    refine wpS_post (loadKey_spec hk (hkey hid) h) fun found s₁ w₁ _ h₁ => ?_
    exact hk.orFail_last h₁ fun _ _ => h₁
  · refine hk.orFail h fun key _ => hk.require h fun _ => ?_
    rw [wpS_bind]
    refine decodeOrFail_spec hk _ _ h fun iv => ?_
    rw [wpS_bind]
    exact decodeOrFail_spec hk _ _ h fun tag => ⟨hk.crash h, h⟩

theorem trustedRecord_spec {fileId : Bytes}
    (hhash : fileId ≠ [] → P (.readFile (hashPath cfg fileId))) (h : I s w) :
    wpS env (fun _ => I) (fun _ => F) K (trustedRecord cfg fileId) s w := by
  unfold trustedRecord
  refine hk.require h fun hid => ?_
  rw [wpS_bind]
  refine wpS_post (loadHashRecord_spec hk (hhash (by simpa using hid)) h) fun found s₁ w₁ hk₁ h₁ => ?_
  refine hk.orFail h₁.1 fun trusted _ => hk.orFail h₁.1 fun alg _ => ?_
  exact ⟨hk₁, h₁.1⟩

theorem openFile_spec {fileId : Bytes} (cipher : Cipher) (ciphertext : Bytes) (m : KeyMaterial)
    (hhash : fileId ≠ [] → P (.readFile (hashPath cfg fileId))) (h : I s w) :
    wpS env (fun _ => I) (fun _ => F) K (openFile cfg lib fileId cipher ciphertext m) s w := by
  unfold openFile
  rw [wpS_bind]
  have hopened : wpS env (fun _ => I) (fun _ => F) K (openCiphertext cfg lib fileId cipher ciphertext m)
      s w := by
    unfold openCiphertext
    split
    · rw [wpS_bind]
      exact wpS_post (trustedRecord_spec hk hhash h) fun r s₁ w₁ hk₁ h₁ => ⟨hk₁, h₁⟩
    · exact ⟨hk.crash h, h⟩
  refine wpS_post hopened fun r s₁ w₁ hk₁ h₁ => ?_
  exact hk.okOrFail h₁ fun _ _ => ⟨hk₁, h₁⟩

theorem noteMismatch_spec {E : Unit → ServerState → W → Prop} (username fileId hashStr : Bytes)
    (record : HashRecord) (hevent : ∀ kind who detail, P (.logEvent kind who detail)) (h : I s w) :
    wpS env (fun _ => I) E K (noteMismatch username fileId hashStr record) s w := by
  unfold noteMismatch
  split
  · exact hk.perform_ (hevent _ _ _) h
  · exact ⟨hk.crash h, h⟩

section
variable (hevent : ∀ kind who detail, P (.logEvent kind who detail))
  (halert : ∀ kind who detail, P (.logAlert kind who detail))
include hevent halert

theorem checkDigest_ends {fileId : Bytes} (username hashStr plain : Bytes)
    (hhash : fileId ≠ [] → P (.readFile (hashPath cfg fileId))) (h : I s w) :
    wpS env (fun _ => I) (fun _ => F) K (checkDigest cfg lib username fileId hashStr plain) s w := by
  unfold checkDigest
  split
  · exact ⟨hk.crash h, h⟩
  · rename_i hid
    rw [wpS_bind]
    refine wpS_post (loadHashRecord_spec hk (hhash hid) h) fun found s₁ w₁ _ h₁ => ?_
    refine hk.orFail h₁.1 fun record _ => ?_
    rw [wpS_bind]
    refine wpS_post (noteMismatch_spec hk username fileId hashStr record hevent h₁.1)
      fun _ s₂ w₂ _ h₂ => ?_
    refine hk.orFail h₂ fun alg _ => hk.okOrFail h₂ fun hex _ => ?_
    refine wpS_guardOr_last _ () _ (fun _ => ?_) fun _ => ⟨hk.crash h₂, h₂⟩
    rw [wpS_bind]
    exact wpS_post (hk.perform_ (halert _ _ _) h₂) fun _ s₃ w₃ _ h₃ => hk.sendError _ h₃

theorem openRequest_ends {req : Header} {size : Nat} (hreceive : P (.receive size))
    (hkey : req.get (bytes "key_id") ≠ [] → P (.readFile (keyPath cfg (req.get (bytes "key_id")))))
    (hhash : req.get (bytes "file_id") ≠ [] →
      P (.readFile (hashPath cfg (req.get (bytes "file_id"))))) (h : I s w) :
    wpS env (fun _ => I) (fun _ => F) K (openRequest cfg lib req size) s w := by
  unfold openRequest
  dsimp only
  refine hk.orFail h fun cipher _ => ?_
  rw [wpS_bind]
  refine wpS_post (hk.readExact hreceive h) fun payload s₁ w₁ _ h₁ => hk.orFail h₁ fun ciphertext _ => ?_
  rw [wpS_bind]
  refine wpS_post (findKey_spec hk req hkey h₁) fun m s₂ w₂ _ h₂ => ?_
  rw [wpS_bind]
  refine wpS_post (openFile_spec hk cipher ciphertext m hhash h₂) fun plain s₃ w₃ _ h₃ => ?_
  rw [wpS_bind]
  exact wpS_post (checkDigest_ends hk hevent halert _ _ plain hhash h₃) fun _ _ _ hw hi => ⟨hw, hi⟩

end

/-! ## Encryption -/

theorem randomHex_ends {E : Unit → ServerState → W → Prop} {n : Nat} (hrandom : P (.random n))
    (h : I s w) : wpS env (fun _ => I) E K (randomHex n) s w := by
  unfold randomHex
  rw [wpS_bind]
  exact wpS_post (hk.perform hrandom h) fun _ _ _ hw hi => ⟨hw, hi⟩

section
variable (hrandom : ∀ n, P (.random n)) (hwrite : ∀ path b, P (.writeFile path b))
include hrandom hwrite

theorem keepKey_ends (storage : Bytes) (m : KeyMaterial) (h : I s w) :
    wpS env (fun _ => I) (fun _ => F) K (keepKey cfg storage m) s w := by
  unfold keepKey
  split
  · rw [wpS_bind]
    refine wpS_post (randomHex_ends hk (hrandom 16) h) fun keyId s₁ w₁ _ h₁ => ?_
    rw [wpS_bind, storeKey]
    refine wpS_post (hk.perform (hwrite _ _) h₁) fun stored s₂ w₂ hw₂ h₂ => ?_
    exact hk.require h₂ fun _ => ⟨hw₂, h₂⟩
  · exact ⟨hk.crash h, h⟩

theorem encryptRequest_ends {req : Header} {size : Nat} (hreceive : P (.receive size)) (h : I s w) :
    wpS env (fun _ => I) (fun _ => F) K (encryptRequest cfg lib req size) s w := by
  unfold encryptRequest
  refine hk.orFail h fun cipher _ => hk.orFail h fun alg _ => hk.require h fun _ => ?_
  rw [wpS_bind]
  refine wpS_post (hk.readExact hreceive h) fun payload s₁ w₁ _ h₁ => ?_
  refine hk.orFail h₁ fun plain _ => hk.okOrFail h₁ fun hex _ => ?_
  rw [wpS_bind, wpS_lift]
  have hencrypt : wp env (fun _ _ => True) (fun u => I s₁ u)
      (CryptoEngine.encrypt lib cipher plain) w₁ :=
    wp_post (CryptoEngine.encrypt_spec (fun _ n _ _ hi he => hk.call hi (hrandom n) he) h₁)
      fun _ _ _ _ => trivial
  refine wp_mono (fun encrypted w₂ h₂ _ => ?_) (fun _ => hk.crash) hencrypt
  refine hk.okOrFail h₂ fun result _ => hk.require h₂ fun _ => ?_
  rw [wpS_bind]
  refine wpS_post (keepKey_ends hk hrandom hwrite _ _ h₂) fun keyId s₃ w₃ _ h₃ => ?_
  rw [wpS_bind]
  refine wpS_post (randomHex_ends hk (hrandom 16) h₃) fun fileId s₄ w₄ _ h₄ => ?_
  rw [wpS_bind]
  exact wpS_post (hk.perform_ (hwrite _ _) h₄) fun _ _ _ hw hi => ⟨hw, hi⟩

end

end

end Server

end EncoderNext
