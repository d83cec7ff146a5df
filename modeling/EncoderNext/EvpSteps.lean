import EncoderNext.CryptoEngine

/-!
# Decryption call by call

`evp_decrypt_cipher` sets up a context of the library, one call after another,
and hands it key, IV and tag by pointer. No call of it looks at their lengths.
-/

namespace EncoderNext

open Program Program.Stateful

inductive EvpStep where
  | new
  /-- The cipher alone, without key and IV. -/
  | init (name : Bytes)
  | setPadding (on : Bool)
  | setIvLength (n : Int32)
  | setTag (n : Int32) (tag : Bytes)
  | initKey (key : Bytes) (iv : Option Bytes)
  | updateLength (n : Int32)
  | update (data : Bytes) (n : Int32)
  | final
  | collectErrors

namespace EvpStep

/-- Whether a call succeeds; the bytes it writes, where it writes any. -/
@[reducible] def Reply : EvpStep → Type
  | new | init _ | setIvLength _ | setTag .. | initKey .. | updateLength _ => Bool
  | setPadding _ => Unit
  | update .. | final => Option Bytes
  | collectErrors => Bytes

def TakesMaterial : EvpStep → Prop
  | setTag .. | initKey .. => True
  | _ => False

end EvpStep

abbrev EvpProgram (α : Type) : Type := Stateful EvpStep EvpStep.Reply Unit Bytes α

namespace CryptoEngine

def evpFailed {α : Type} (message : Bytes) : EvpProgram α := do
  let text : Bytes ← perform EvpStep.collectErrors
  throw (message ++ text)

def ensureOk (ok : Bool) (message : Bytes) : EvpProgram Unit :=
  if ok then pure () else evpFailed message

def ensureWritten (out : Option Bytes) (message : Bytes) : EvpProgram Bytes :=
  match out with
  | some b => pure b
  | none => evpFailed message

def onlyIf (b : Bool) (x : EvpProgram Unit) : EvpProgram Unit := if b then x else pure ()

def lengthOf (b : Bytes) : Int32 := Int32.ofNat b.length

def setTag (tag : Bytes) : EvpProgram Unit := do
  let ok : Bool ← perform (EvpStep.setTag (lengthOf tag) tag)
  ensureOk ok (bytes "EVP_CTRL_AEAD_SET_TAG failed: ")

def setPadding (evp : EvpCipher) : EvpProgram Unit := do
  let _ ← perform (EvpStep.setPadding (evp.mode == .cbc || evp.mode == .ecb))
  return ()

/-- CCM learns the length of the IV, and the tag, before the key. -/
def setCcm (iv tag : Bytes) : EvpProgram Unit := do
  let ok : Bool ← perform (EvpStep.setIvLength (lengthOf iv))
  ensureOk ok (bytes "EVP_CTRL_AEAD_SET_IVLEN failed: ")
  setTag tag

def updateWith (data message : Bytes) : EvpProgram Bytes :=
  if data = [] then pure []
  else do
    let out : Option Bytes ← perform (EvpStep.update data (lengthOf data))
    ensureWritten out message

def feed (ccm : Bool) (ciphertext : Bytes) : EvpProgram Bytes := do
  if ccm then do
    let ok : Bool ← perform (EvpStep.updateLength (lengthOf ciphertext))
    ensureOk ok (bytes "EVP_DecryptUpdate(length) failed: ")
    updateWith ciphertext (bytes "EVP_DecryptUpdate(data) failed: ")
  else updateWith ciphertext (bytes "EVP_DecryptUpdate failed: ")

def evpDecryptCipher (evp : Bytes × EvpCipher) (ciphertext key iv tag : Bytes) (aead ccm : Bool) :
    EvpProgram Bytes := do
  let made : Bool ← perform EvpStep.new
  guardOr made (bytes "EVP_CIPHER_CTX_new failed") (pure ())
  let ok : Bool ← perform (EvpStep.init evp.1)
  ensureOk ok (bytes "EVP_DecryptInit_ex failed: ")
  onlyIf (!aead) (setPadding evp.2)
  onlyIf ccm (setCcm iv tag)
  let ok : Bool ← perform (EvpStep.initKey key (if iv = [] then none else some iv))
  ensureOk ok (bytes "EVP_DecryptInit_ex(key/iv) failed: ")
  onlyIf (aead && !ccm) (setTag tag)
  let front ← feed ccm ciphertext
  let out : Option Bytes ← perform EvpStep.final
  let back ← ensureWritten out (bytes "EVP_DecryptFinal_ex failed: ")
  return front ++ back

def resultOf (r : Except Bytes Unit × CryptoResult) : EvpProgram Bytes :=
  match r.1 with
  | .error e => throw e
  | .ok _ => pure r.2.data

def decryptSteps (lib : CryptoLibrary) (cipher : Cipher) (ciphertext : Bytes) (m : KeyMaterial) :
    EvpProgram Bytes :=
  match findSpec cipher with
  | none => throw (bytes "Unsupported cipher")
  | some spec =>
    if spec.gost then resultOf (decrypt lib cipher ciphertext m {})
    else if spec.aead && m.tag == [] then
      throw (bytes "Missing authentication tag for AEAD cipher")
    else
      match evpOf lib spec with
      | none => throw (unavailable spec)
      | some evp => evpDecryptCipher evp ciphertext m.key m.iv m.tag spec.aead spec.ccm

/-- Where the library opens what the calls on a context give, both say the same. -/
theorem decrypt_eq_steps {W : Type} {lib : CryptoLibrary}
    {answer : W → (c : EvpStep) → c.Reply × W} {w : W}
    (hopen : ∀ (spec : CipherSpec) (evp : Bytes × EvpCipher) (ciphertext : Bytes) (m : KeyMaterial),
      lib.openCipher (evpCall spec evp m.key m.iv ciphertext (if spec.aead then some m.tag else none)) =
        (exec answer ((evpDecryptCipher evp ciphertext m.key m.iv m.tag spec.aead spec.ccm).go ()) w).1.1)
    (cipher : Cipher) (ciphertext : Bytes) (m : KeyMaterial) :
    (exec answer ((decryptSteps lib cipher ciphertext m).go ()) w).1.1 =
      match (decrypt lib cipher ciphertext m {}).1 with
      | .error e => .error e
      | .ok _ => .ok (decrypt lib cipher ciphertext m {}).2.data := by
  unfold decryptSteps
  cases hspec : findSpec cipher with
  | none => simp [decrypt, hspec]; rfl
  | some spec =>
    dsimp only
    by_cases hgost : spec.gost = true
    · rw [if_pos hgost]
      rcases hr : decrypt lib cipher ciphertext m {} with ⟨r, out⟩
      cases r <;> rfl
    · rw [if_neg hgost]
      by_cases htag : (spec.aead && m.tag == []) = true
      · simp only [decrypt, hspec, hgost, htag, if_true]
        rfl
      · rw [if_neg htag]
        cases hevp : evpOf lib spec with
        | none =>
          simp only [decrypt, hspec, hgost, htag, hevp]
          rfl
        | some evp =>
          dsimp only
          rw [← hopen spec evp ciphertext m]
          simp only [decrypt, hspec, hgost, htag, hevp]
          cases lib.openCipher _ <;> rfl

/-! ## The lengths -/

structure RightSizes (spec : CipherSpec) (evp : EvpCipher) (m : KeyMaterial) : Prop where
  key : m.key.length = keySize evp
  iv : m.iv.length = ivSize evp
  tag : spec.aead = true → m.tag.length = 16

/-- Whatever the library answers, no call takes key, IV or tag, and no decryption
succeeds, unless all of them have the right size. -/
structure SizesChecked (lib : CryptoLibrary) (cipher : Cipher) (spec : CipherSpec)
    (ciphertext : Bytes) (m : KeyMaterial) : Prop where
  calls : ∀ evp, evpOf lib spec = some evp →
    UsesS (fun c => c.TakesMaterial → RightSizes spec evp.2 m) (decryptSteps lib cipher ciphertext m)
  success : ∀ evp, evpOf lib spec = some evp → ∀ {W : Type} (env : Env W EvpStep EvpStep.Reply)
    (w w' : W) (plain : Bytes),
    Runs env ((decryptSteps lib cipher ciphertext m).go ()) w (.ok plain, ()) w' →
      RightSizes spec evp.2 m

section
variable {P : EvpStep → Prop} {α : Type}

theorem uses_behind_padding {b : Bool} {evp : EvpCipher} {f : Unit → EvpProgram α}
    (h : UsesS P (onlyIf b (setPadding evp) >>= f)) : UsesS P (f ()) := by
  unfold onlyIf at h
  cases b with
  | false => simpa using h
  | true =>
    rw [if_pos rfl, setPadding, bind_assoc] at h
    simpa using (usesS_perform_bind.mp h).2 ()

theorem uses_tag_of_ccm {iv tag : Bytes} {f : Unit → EvpProgram α}
    (h : UsesS P (setCcm iv tag >>= f)) : P (.setTag (lengthOf tag) tag) := by
  rw [setCcm, bind_assoc] at h
  have h := (usesS_perform_bind.mp h).2 true
  rw [ensureOk, if_pos rfl, pure_bind, setTag, bind_assoc] at h
  exact (usesS_perform_bind.mp h).1

theorem takes_material {evp : Bytes × EvpCipher} {ciphertext key iv tag : Bytes} {aead ccm : Bool}
    (h : UsesS P (evpDecryptCipher evp ciphertext key iv tag aead ccm)) :
    ∃ c, c.TakesMaterial ∧ P c := by
  unfold evpDecryptCipher at h
  have h := (usesS_perform_bind.mp h).2 true
  rw [guardOr, if_pos rfl, pure_bind] at h
  have h := (usesS_perform_bind.mp h).2 true
  rw [ensureOk, if_pos rfl, pure_bind] at h
  have h := uses_behind_padding h
  cases ccm with
  | true => exact ⟨.setTag _ _, trivial, uses_tag_of_ccm h⟩
  | false =>
    rw [onlyIf, if_neg (by decide), pure_bind] at h
    exact ⟨.initKey _ _, trivial, (usesS_perform_bind.mp h).1⟩

end

/-- **When decryption looks at its material.** It uses only key, IV and tag of the right sizes
exactly when they have the right sizes, or nothing is done at all: the library does not
know the cipher, or an AEAD cipher comes without a tag. -/
theorem sizes_checked_iff {cipher : Cipher} {spec : CipherSpec} {lib : CryptoLibrary}
    (hspec : findSpec cipher = some spec) (hkind : spec.gost = false) (ciphertext : Bytes)
    (m : KeyMaterial) :
    SizesChecked lib cipher spec ciphertext m ↔
      evpOf lib spec = none ∨ (spec.aead = true ∧ m.tag = []) ∨
        ∃ evp, evpOf lib spec = some evp ∧ RightSizes spec evp.2 m := by
  have hsteps : decryptSteps lib cipher ciphertext m =
      if spec.aead && m.tag == [] then throw (bytes "Missing authentication tag for AEAD cipher")
      else
        match evpOf lib spec with
        | none => throw (unavailable spec)
        | some evp => evpDecryptCipher evp ciphertext m.key m.iv m.tag spec.aead spec.ccm := by
    simp [decryptSteps, hspec, hkind]
  constructor
  · intro h
    cases hevp : evpOf lib spec with
    | none => exact .inl rfl
    | some evp =>
      by_cases htag : spec.aead = true ∧ m.tag = []
      · exact .inr (.inl htag)
      · refine .inr (.inr ⟨evp, rfl, ?_⟩)
        have hcalls := h.calls evp hevp
        rw [hsteps, if_neg (by simpa using htag), hevp] at hcalls
        -- some run hands the material over, so its sizes are the right ones
        obtain ⟨c, hc, hsizes⟩ := takes_material hcalls
        exact hsizes hc
  · rintro (hnone | ⟨haead, htag⟩ | ⟨evp, hevp, hsizes⟩)
    · exact ⟨fun evp hevp => by simp [hnone] at hevp, fun evp hevp => by simp [hnone] at hevp⟩
    · have hthrow : decryptSteps lib cipher ciphertext m =
          throw (bytes "Missing authentication tag for AEAD cipher") := by
        rw [hsteps, if_pos (by simp [haead, htag])]
      refine ⟨fun evp _ => ?_, fun evp _ W env w w' plain hr => ?_⟩
      · rw [hthrow]
        exact usesS_throw _
      · rw [hthrow] at hr
        cases hr
    · refine ⟨fun evp' hevp' => ?_, fun evp' hevp' W env w w' plain _ => ?_⟩
      · obtain rfl : evp = evp' := Option.some.inj (hevp.symm.trans hevp')
        exact fun s => uses_mono (fun c _ => fun _ => hsizes) (uses_true (go _ s))
      · obtain rfl : evp = evp' := Option.some.inj (hevp.symm.trans hevp')
        exact hsizes

/-! ## Short material -/

def gcmLibrary : CryptoLibrary where
  cipherByName name := if name = bytes "aes-256-gcm" then some ⟨32, 12, 1, .other⟩ else none
  sealCipher call := .ok (call.data, Vector.replicate 16 0)
  openCipher call := .ok call.data
  sha256 := .of32 fun _ => none
  sha512 := .of64 fun _ => none
  digestByName _ := none
  gost := none

def gcmSpec : CipherSpec :=
  ⟨.aes256Gcm, bytes "aes-256-gcm", some (bytes "aes-256-gcm"), false, true, false⟩

theorem sizes_checked_gcm : SizesChecked gcmLibrary .aes256Gcm gcmSpec [1]
    { key := List.replicate 32 7, iv := List.replicate 12 7, tag := List.replicate 16 7 } :=
  (sizes_checked_iff rfl rfl [1] _).mpr (.inr (.inr ⟨_, rfl, ⟨rfl, rfl, fun _ => rfl⟩⟩))

def prefixAnswer (matched : Bool) : (c : EvpStep) → c.Reply × Bool
  | .setTag n tag => (true, matched && n == lengthOf tag && tag.isPrefixOf (List.replicate 16 7))
  | .new | .init _ | .setIvLength _ | .initKey .. | .updateLength _ => (true, matched)
  | .setPadding _ => ((), matched)
  | .update data _ => (some data, matched)
  | .final => (if matched then some [] else none, matched)
  | .collectErrors => ([], matched)

/-- One byte of a key and one byte of the tag open the file. -/
def shortMaterial : KeyMaterial := { key := [7], iv := List.replicate 12 7, tag := [7] }

theorem short_material_opens : ¬ SizesChecked gcmLibrary .aes256Gcm gcmSpec [1] shortMaterial ∧
    (exec prefixAnswer ((decryptSteps gcmLibrary .aes256Gcm [1] shortMaterial).go ()) true).1.1 =
      .ok [1] := by
  refine ⟨fun h => ?_, rfl⟩
  let env : Env Bool EvpStep EvpStep.Reply := fun w c r u => prefixAnswer w c = (r, u)
  have hanswer : ∀ w c, env w c (prefixAnswer w c).1 (prefixAnswer w c).2 := fun _ _ => rfl
  have hruns : Runs env ((decryptSteps gcmLibrary .aes256Gcm [1] shortMaterial).go ()) true
      (.ok [1], ()) true := runs_exec hanswer _ true
  have hsizes := h.success (bytes "aes-256-gcm", ⟨32, 12, 1, .other⟩) rfl env true true [1] hruns
  exact absurd hsizes.key (by decide)

end CryptoEngine

end EncoderNext
