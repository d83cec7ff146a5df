import EncoderNext.Container
import EncoderNext.Storage

/-!
# A stored file is opened

The server is asked for a file that it has encrypted, with what its reply named. Other sessions go on
in between. It refuses the request by one of its checks, or sends the very bytes.
-/

namespace EncoderNext

open Program Program.Stateful

namespace Server

/-! ## What the checks say -/

inductive Refusal (cfg : ServerConfig) (size : Nat) (denied : Bytes) : Bytes → Prop
  | tooLarge (h : cfg.maxFileBytes < size) : Refusal cfg size denied (bytes "File too large")
  | client : Refusal cfg size denied (bytes "Client is not allowed by binding policy")
  | locked (remaining : Int) : Refusal cfg size denied (lockedMessage remaining)
  | password : Refusal cfg size denied (bytes "Authentication failed")
  | permission : Refusal cfg size denied denied

theorem lf_not_mem_refusal {cfg : ServerConfig} {size : Nat} {denied message : Bytes} (hd : lf ∉ denied)
    (h : Refusal cfg size denied message) : lf ∉ message := by
  cases h with
  | tooLarge _ => decide
  | client => decide
  | locked remaining =>
    have hnum : lf ∉ decimalInt remaining := not_numeral rfl (decimalInt_numeral remaining)
    have hfront : lf ∉ bytes "Account locked. Try again in " := by decide
    have hend : lf ∉ bytes "s" := by decide
    simp [lockedMessage, hnum, hfront, hend]
  | password => decide
  | permission => exact hd

section
variable {P : ServerCall → Prop} {α : Type}

theorem require_replies {b : Bool} {message : Bytes} {f : Unit → Handler α}
    (hbad : b = false → P (.sendHeader (errorHeader message))) (hgo : b = true → UsesS P (f ())) :
    UsesS P (require b message >>= f) := by
  cases b with
  | true => exact hgo rfl
  | false =>
    show UsesS P ((sendError message >>= fun _ => throw ()) >>= f)
    rw [bind_assoc]
    exact usesS_bind (perform_uses (hbad rfl)) fun _ _ => trivial

theorem checkRequest_replies (hP : ∀ c, ServerCall.Inward c → P c) (cfg : ServerConfig)
    (kdf : PasswordKdf) {req : Header} {size : Nat}
    (hsize : stoull (req.get (bytes "file_size") (bytes "0")) = some size) (op denied : Bytes) (bit : UInt32)
    (h : ∀ message, Refusal cfg size denied message → P (.sendHeader (errorHeader message))) :
    UsesS P (checkRequest cfg kdf req op bit denied) := by
  have hlocked (remaining : Int) := h _ (.locked remaining)
  unfold checkRequest
  dsimp only
  rw [hsize]
  show UsesS P (pure size >>= fun fileSize => _)
  rw [pure_bind]
  apply require_replies
  · intro hlarge
    exact h _ (.tooLarge (by simpa using hlarge))
  intro _
  apply usesS_bind (requireClient_uses hP req _ op size (h _ .client))
  intro _
  apply usesS_bind (requireUnlocked_uses hP _ op size hlocked)
  intro _
  apply usesS_bind (requirePassword_uses hP cfg kdf _ _ op (h _ .password))
  intro _
  apply usesS_bind
  · apply usesS_bind usesS_state
    intro s
    exact usesS_guardOr (perform_uses (h _ .permission))
  intro _
  apply usesS_bind (recordLogin_uses hP cfg _)
  intro _
  exact usesS_bind (requireUnlocked_uses hP _ _ size hlocked) fun _ => usesS_pure size

end

/-! ## A session among others -/

def Channel (payload : Bytes) : (c : ServerCall) → c.Reply → Prop
  | .receive n, got =>
    got.map Vector.toList = if n ≤ payload.length then some (payload.take n) else none
  | _, _ => True

def ReadsTrue (files : Bytes → Option Bytes) : (c : ServerCall) → c.Reply → Prop
  | .readFile path, file => file = files path
  | _, _ => True

/-- Between two calls of a session, others make any number of theirs. -/
def shared (cfg : ServerConfig) (payload : Bytes) : Env StoreWorld ServerCall ServerCall.Reply :=
  fun w c r u => ∃ v : StoreWorld, v.log = w.log ∧ Later cfg w.files v.files ∧ sound cfg v c r u ∧
    Channel payload c r ∧ ReadsTrue v.files c r

def Keeps (stored files : Bytes → Option Bytes) : Prop :=
  ∀ path b, stored path = some b → files path = some b

section
variable {cfg : ServerConfig} {payload : Bytes} {w u : StoreWorld} {c : ServerCall} {r : c.Reply}
  {stored : Bytes → Option Bytes}

theorem log_shared (he : shared cfg payload w c r u) : u.log = w.log ++ [⟨c, r⟩] := by
  obtain ⟨v, hv, -, hs, -⟩ := he
  rw [← hv]
  exact hs.1.1

theorem keeps_shared (hw : Keeps stored w.files) (he : shared cfg payload w c r u) :
    Keeps stored u.files := by
  intro path b hb
  obtain ⟨v, -, hlater, hs, -⟩ := he
  exact sound_keeps hs (later_keeps hlater (hw path b hb))

theorem read_shared {path b : Bytes} (hw : Keeps stored w.files) (hb : stored path = some b)
    {file : Option Bytes} (he : shared cfg payload w (.readFile path) file u) : file = some b := by
  obtain ⟨v, -, hlater, -, -, hread⟩ := he
  rw [show file = v.files path from hread]
  exact later_keeps hlater (hw path b hb)

theorem received_shared {n : Nat} (hn : n = payload.length) {got : Option (Vector UInt8 n)}
    (he : shared cfg payload w (.receive n) got u) : got.map Vector.toList = some payload := by
  obtain ⟨v, -, -, -, hgot, -⟩ := he
  have hgot : got.map Vector.toList = if n ≤ payload.length then some (payload.take n) else none := hgot
  rw [hgot, hn, if_pos le_rfl, List.take_length]

end

/-! ## The file behind a reply -/

/-- What a reply has promised of a file. -/
structure StoredFile (cfg : ServerConfig) (lib : CryptoLibrary) (record : HashRecord) (e : Encryption)
    (storage : Bytes) (files : Bytes → Option Bytes) : Prop where
  used : CryptoEngine.Encrypted lib e.cipher e.plain e.result
  alg : CryptoEngine.hashFromString record.alg = some e.alg
  digest : CryptoEngine.hash lib e.alg e.plain = .ok record.hex
  fileId : e.fileId ≠ []
  keyId : storage = bytes "server" → e.keyId ≠ []
  record : ∃ b, files (hashPath cfg e.fileId) = some b ∧ HashRecord.ofFile (some b) = some record
  key : storage = bytes "server" →
    ∃ b, files (keyPath cfg e.keyId) = some b ∧ KeyMaterial.ofBlob b = some e.result.toKeyMaterial

structure AsksFor (req : Header) (e : Encryption) (storage : Bytes) : Prop where
  cipher : CryptoEngine.cipherFromString (req.get (bytes "cipher")) = some e.cipher
  fileId : req.get (bytes "file_id") = e.fileId
  size : stoull (req.get (bytes "file_size") (bytes "0")) = some e.result.data.length
  mode : storage = bytes "server" ∨ storage = bytes "client"
  server : storage = bytes "server" → req.get (bytes "key_id") = e.keyId
  client : storage = bytes "client" → req.get (bytes "key_id") = [] ∧
    req.get (bytes "key") = base64Encode e.result.key ∧
    req.get (bytes "iv") = base64Encode e.result.iv ∧ req.get (bytes "tag") = base64Encode e.result.tag

def Fine (cfg : ServerConfig) (size : Nat) (plain : Bytes) : ServerCall → Prop
  | .sendHeader h => size ≤ cfg.maxFileBytes ∧ h = decryptedHeader plain ∨
      ∃ message, h = errorHeader message ∧
        Refusal cfg size (bytes "Decryption is not allowed for this account") message
  | .sendData b => b = plain
  | _ => True

structure Ready (cfg : ServerConfig) (size : Nat) (plain : Bytes) (stored : Bytes → Option Bytes)
    (w : StoreWorld) : Prop where
  fine : ∀ ev ∈ w.log, Fine cfg size plain ev.1
  keeps : Keeps stored w.files

section
variable {cfg : ServerConfig} {kdf : PasswordKdf} {lib : CryptoLibrary} {payload plain : Bytes}
  {stored : Bytes → Option Bytes} {size : Nat} {s : ServerState} {w u : StoreWorld}

theorem ready_shared {c : ServerCall} {r : c.Reply} (hc : Fine cfg size plain c)
    (hw : Ready cfg size plain stored w) (he : shared cfg payload w c r u) :
    Ready cfg size plain stored u := by
  refine ⟨fun ev hm => ?_, keeps_shared hw.keeps he⟩
  rw [log_shared he] at hm
  rcases mem_snoc hm with hm | hm
  · exact hw.fine ev hm
  · exact hm ▸ hc

theorem fine_inward {c : ServerCall} (hc : c.Inward) : Fine cfg size plain c := by
  cases c <;> first | exact hc.elim | exact trivial

theorem orFail_some {α : Type} (a : α) (message : Bytes) : orFail (some a) message = pure a := rfl

theorem okOrFail_ok {α : Type} (a : α) (what : Bytes) : okOrFail (.ok a) what = pure a := rfl

theorem require_true (message : Bytes) : require true message = pure () := rfl

/-- From a world that is ready, `x` makes fine calls only, and ends with such a value. -/
def Opens (cfg : ServerConfig) (size : Nat) (plain : Bytes) (stored : Bytes → Option Bytes)
    (payload : Bytes) {α : Type} (x : Handler α) (Q : α → Prop) : Prop :=
  ∀ s w, Ready cfg size plain stored w →
    wpS (shared cfg payload) (fun a _ u => Q a ∧ Ready cfg size plain stored u)
      (fun _ _ => Ready cfg size plain stored) (Ready cfg size plain stored) x s w

section
variable {α β : Type} {x : Handler α} {Q : α → Prop}

theorem opens_pure {a : α} (h : Q a) : Opens cfg size plain stored payload (pure a) Q :=
  fun _ _ hw => ⟨hw, h, hw⟩

theorem opens_bind {f : α → Handler β} {Q' : β → Prop} (hx : Opens cfg size plain stored payload x Q)
    (hf : ∀ a, Q a → Opens cfg size plain stored payload (f a) Q') :
    Opens cfg size plain stored payload (x >>= f) Q' := by
  intro s w hw
  rw [wpS_bind]
  exact wpS_post (hx s w hw) fun a s' u _ hu => hf a hu.1 s' u hu.2

theorem opens_uses (hx : UsesS (Fine cfg size plain) x) :
    Opens cfg size plain stored payload x (fun _ => True) := by
  intro s w hw
  refine wpS_post (wpS_of_uses (fun _ _ _ _ hc hw he => ready_shared hc hw he) hx hw) ?_
  exact fun _ _ _ _ hu => ⟨trivial, hu⟩

theorem opens_perform {c : ServerCall} {Q : c.Reply → Prop} (hc : Fine cfg size plain c)
    (hQ : ∀ w r u, Keeps stored w.files → shared cfg payload w c r u → Q r) :
    Opens cfg size plain stored payload (perform c) Q := by
  intro s w hw
  rw [wpS_perform]
  refine ⟨hw, fun r u he => ?_⟩
  have hu := ready_shared hc hw he
  exact ⟨hu, hQ w r u hw.keeps he, hu⟩

end

theorem readExact_opens (hsize : size = payload.length) :
    Opens cfg size plain stored payload (readExact size) (· = some payload) := by
  unfold readExact
  by_cases h : size = 0
  · have hnil : payload = [] := List.eq_nil_of_length_eq_zero (hsize.symm.trans h)
    simp only [h, if_true]
    exact opens_pure (by simp [hnil])
  · simp only [h, if_false]
    apply opens_bind (opens_perform (c := .receive size) trivial fun w r u _ he => received_shared hsize he)
    exact fun got hgot => opens_pure hgot

theorem loadKey_opens {path b : Bytes} (hb : stored path = some b) :
    Opens cfg size plain stored payload (loadKey path) (· = KeyMaterial.ofBlob b) := by
  unfold loadKey
  apply opens_bind (opens_perform (c := .readFile path) trivial fun w r u hk he => read_shared hk hb he)
  intro file hfile
  exact opens_pure (by rw [hfile, Option.bind_some])

theorem loadHashRecord_opens {path b : Bytes} (hb : stored path = some b) :
    Opens cfg size plain stored payload (loadHashRecord path) (· = HashRecord.ofFile (some b)) := by
  unfold loadHashRecord
  apply opens_bind (opens_perform (c := .readFile path) trivial fun w r u hk he => read_shared hk hb he)
  intro file hfile
  exact opens_pure (by rw [hfile])

variable {req : Header} {e : Encryption} {storage : Bytes} {record : HashRecord}

theorem decodeOrFail_encode (b message : Bytes) :
    decodeOrFail (base64Encode b) message = pure b := by
  by_cases hb : b = []
  · simp [decodeOrFail, hb, base64Encode]
  · simp [decodeOrFail, encode_ne_nil hb, decoded_encode, orFail_some]

theorem findKey_opens (hf : StoredFile cfg lib record e storage stored) (ha : AsksFor req e storage) :
    Opens cfg size plain stored payload (findKey cfg req) (· = e.result.toKeyMaterial) := by
  unfold findKey
  rcases ha.mode with hs | hc
  · obtain ⟨b, hb, hblob⟩ := hf.key hs
    rw [if_pos (by rw [ha.server hs]; exact hf.keyId hs), ha.server hs]
    apply opens_bind (loadKey_opens hb)
    intro m hm
    rw [hm, hblob, orFail_some]
    exact opens_pure rfl
  · obtain ⟨hid, hkey, hiv, htag⟩ := ha.client hc
    have hne : (e.result.key != []) = true := by
      simpa using CryptoEngine.key_ne_nil_of_encrypted hf.used
    rw [if_neg (by simp [hid]), hkey, hiv, htag, decoded_encode, orFail_some, pure_bind, hne,
      require_true, pure_bind, decodeOrFail_encode, pure_bind, decodeOrFail_encode, pure_bind]
    exact opens_pure rfl

/-- What was sealed just now is no legacy file. -/
theorem not_legacy {cipher : Cipher} {r : CryptoResult} (h : CryptoEngine.Encrypted lib cipher plain r) :
    isLegacyGost cipher r.data = false := by
  have hspecs : ∀ spec ∈ cipherSpecs, spec.gost = (spec.cipher == .kuznechik || spec.cipher == .magma) := by
    decide
  cases h with
  | gost hspec hkind hlib h =>
    obtain ⟨iv, data, tag, -, -, hdata⟩ := h.frame
    have hlen : GostNative.magic.length = 8 := by decide
    have hfront : ∃ rest, r.data = GostNative.magic ++ rest := by
      rw [hdata, GostNative.frame, GostNative.frameHeader]
      simp only [List.append_assoc]
      exact ⟨_, rfl⟩
    obtain ⟨rest, hrest⟩ := hfront
    have htake : r.data.take 8 = GostNative.magic := by rw [hrest, ← hlen, List.take_left]
    have hlong : ¬ r.data.length < 8 := by
      rw [hrest, List.length_append]
      omega
    simp [isLegacyGost, htake, hlong]
  | evp hspec hkind _ _ _ _ _ _ =>
    have hgost := hspecs _ (List.mem_of_find?_eq_some hspec)
    have hcipher := List.find?_some hspec
    rw [eq_of_beq hcipher, hkind] at hgost
    simp [isLegacyGost, ← hgost]

theorem openFile_opens (hinv : CryptoEngine.Inverts lib) (hused : CryptoEngine.Encrypted lib e.cipher e.plain e.result)
    (fileId : Bytes) : openFile cfg lib fileId e.cipher e.result.data e.result.toKeyMaterial = pure e.plain := by
  have hopened := CryptoEngine.decrypt_encrypted hinv hused {}
  simp only [openFile, openCiphertext, not_legacy hused, Bool.false_eq_true, if_false, hopened, pure_bind,
    okOrFail_ok]

theorem noteMismatch_fine (username fileId hashStr : Bytes) :
    UsesS (Fine cfg size plain) (noteMismatch username fileId hashStr record) := by
  unfold noteMismatch
  split
  · exact perform_uses trivial
  · exact usesS_pure ()

theorem checkDigest_opens (hf : StoredFile cfg lib record e storage stored) (username hashStr : Bytes) :
    Opens cfg size plain stored payload (checkDigest cfg lib username e.fileId hashStr e.plain)
      (fun _ => True) := by
  obtain ⟨b, hb, hrecord⟩ := hf.record
  unfold checkDigest
  rw [if_neg hf.fileId]
  apply opens_bind (loadHashRecord_opens hb)
  intro found hfound
  rw [hfound, hrecord, orFail_some, pure_bind]
  apply opens_bind (opens_uses (noteMismatch_fine _ _ _))
  intro _ _
  rw [hf.alg, orFail_some, pure_bind, hf.digest, okOrFail_ok, pure_bind, beq_self_eq_true]
  exact opens_pure trivial

theorem openRequest_opens (hinv : CryptoEngine.Inverts lib)
    (hf : StoredFile cfg lib record e storage stored) (ha : AsksFor req e storage) :
    Opens cfg e.result.data.length plain stored e.result.data
      (openRequest cfg lib req e.result.data.length) (· = e.plain) := by
  unfold openRequest
  dsimp only
  rw [ha.cipher, orFail_some, pure_bind, ha.fileId]
  apply opens_bind (readExact_opens rfl)
  intro got hgot
  rw [hgot, orFail_some, pure_bind]
  apply opens_bind (findKey_opens hf ha)
  intro m hm
  rw [hm, openFile_opens hinv hf.used, pure_bind]
  exact opens_bind (checkDigest_opens hf _ _) fun _ _ => opens_pure rfl

theorem decryptFile_opens (hinv : CryptoEngine.Inverts lib)
    (hf : StoredFile cfg lib record e storage stored) (ha : AsksFor req e storage)
    (hfits : e.result.data.length ≤ cfg.maxFileBytes) :
    Opens cfg e.result.data.length e.plain stored e.result.data
      (decryptFile cfg lib req e.result.data.length) (fun _ => True) := by
  unfold decryptFile
  apply opens_bind (openRequest_opens hinv hf ha)
  intro out hout
  rw [hout]
  apply opens_uses
  have hheader : Fine cfg e.result.data.length e.plain (.sendHeader (decryptedHeader e.plain)) :=
    .inl ⟨hfits, rfl⟩
  have hdata : Fine cfg e.result.data.length e.plain (.sendData e.plain) := rfl
  apply usesS_bind
  · apply usesS_bind (usesS_perform hheader)
    intro sent
    apply usesS_bind (usesS_guardOr (usesS_pure ()))
    intro _
    exact perform_uses hdata
  intro _
  apply usesS_bind
  · exact usesS_step fun s => uses_bind
      (uses_mono (fun c hc => fine_inward hc)
        (SecurityMonitor.recordFileOp_inward cfg.monitor s.stats _ _ 1 _)) fun _ => trivial
  · exact fun _ => perform_uses trivial

theorem checkRequest_opens (hsize : stoull (req.get (bytes "file_size") (bytes "0")) = some size)
    (op : Bytes) (bit : UInt32) :
    Opens cfg size plain stored payload
      (checkRequest cfg kdf req op bit (bytes "Decryption is not allowed for this account"))
      (fun n => n = size ∧ size ≤ cfg.maxFileBytes) := by
  intro s w hw
  have huses : UsesS (Fine cfg size plain)
      (checkRequest cfg kdf req op bit (bytes "Decryption is not allowed for this account")) :=
    checkRequest_replies (fun _ hc => fine_inward hc) cfg kdf hsize op _ bit
      fun message hm => .inr ⟨message, rfl, hm⟩
  have hk : Kept (shared cfg payload) (fun _ _ => True) (fun _ _ => True) (fun _ => True) := by
    constructor <;> intros <;> trivial
  have hadmitted : wpS (shared cfg payload)
      (fun n s' u => True ∧ Admitted (shared cfg payload) cfg kdf req bit s n s' u) (fun _ _ _ => True)
      (fun _ => True) (checkRequest cfg kdf req op bit (bytes "Decryption is not allowed for this account"))
      s w := checkRequest_spec hk req op _ bit trivial
  have hfine : Opens cfg size plain stored payload _ _ := opens_uses huses
  refine wpS_mono (wpS_and (hfine s w hw) hadmitted) (fun n s' u _ h => ?_) (fun _ _ _ _ h => h.1) fun _ h => h.1
  have hcarried := h.2.2.carried
  rw [hsize] at hcarried
  obtain rfl := Option.some.inj hcarried
  exact ⟨⟨rfl, h.2.2.fits⟩, h.1.2⟩

/-- **A stored file is opened.** -/
theorem handleDecrypt_opens (hinv : CryptoEngine.Inverts lib)
    (hf : StoredFile cfg lib record e storage stored) (ha : AsksFor req e storage) :
    Opens cfg e.result.data.length e.plain stored e.result.data (handleDecrypt cfg kdf lib req)
      (fun _ => True) := by
  unfold handleDecrypt
  apply opens_bind (checkRequest_opens ha.size _ 2)
  rintro n ⟨hn, hfits⟩
  rw [hn]
  exact decryptFile_opens hinv hf ha hfits

end

end Server

end EncoderNext
