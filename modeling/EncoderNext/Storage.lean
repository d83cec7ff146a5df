import EncoderNext.Admission

/-!
# What the server keeps of an encrypted file

An encryption draws a number for each record and writes the records under them.
Where the writes and the draws succeed and no number comes twice, what an ok reply
names stays stored. The server looks at none of this for the digest.
-/

namespace EncoderNext

open Program Program.Stateful

/-! ## Names of algorithms -/

theorem mem_trimmed {c : UInt8} {s : Bytes} (hc : isSpace c = false) (h : c ∈ s) :
    c ∈ s.dropWhile isSpace := by
  rw [← List.takeWhile_append_dropWhile (p := isSpace) (l := s)] at h
  rcases List.mem_append.mp h with h | h
  · rw [List.mem_takeWhile_imp h] at hc
    cases hc
  · exact h

theorem mem_normalized {c : UInt8} {s : Bytes} (hc : isSpace c = false) (hc' : c ≠ byte '_')
    (hc'' : (byte 'A' ≤ c && c ≤ byte 'Z') = false) (h : c ∈ s) : c ∈ normalizeCipherName s := by
  refine List.mem_map.mpr ⟨c, ?_, ?_⟩
  · rw [List.rdropWhile, List.mem_reverse]
    exact mem_trimmed hc (List.mem_reverse.mpr (mem_trimmed hc h))
  · rw [if_neg hc', if_neg (by rw [hc'']; decide)]

def hashNames : List Bytes := [bytes "sha256", bytes "sha512", bytes "sha3-256", bytes "sha3-512",
  bytes "blake2b-512", bytes "blake2b512", bytes "streebog"]

theorem mem_hashNames {v : Bytes} {alg : HashAlg} (h : CryptoEngine.hashFromString v = some alg) :
    normalizeCipherName v ∈ hashNames := by
  by_contra hn
  simp only [hashNames, List.mem_cons, List.not_mem_nil, or_false, not_or] at hn
  obtain ⟨h₁, h₂, h₃, h₄, h₅, h₆, h₇⟩ := hn
  unfold CryptoEngine.hashFromString at h
  dsimp only at h
  rw [if_neg h₁, if_neg h₂, if_neg h₃, if_neg h₄, if_neg (not_or.mpr ⟨h₅, h₆⟩), if_neg h₇] at h
  cases h

theorem plain_hashName {v : Bytes} {alg : HashAlg} (h : CryptoEngine.hashFromString v = some alg) :
    v ≠ [] ∧ byte ':' ∉ v := by
  have hall : ∀ n ∈ hashNames, n ≠ [] ∧ byte ':' ∉ n := by decide
  obtain ⟨hne, hcolon⟩ := hall _ (mem_hashNames h)
  refine ⟨fun hv => hne ?_, fun hv => hcolon (mem_normalized (by decide) (by decide) (by decide) hv)⟩
  rw [hv]
  rfl

namespace Server

/-! ## The disk under the records -/

structure StoreWorld where
  files : Bytes → Option Bytes
  log : List Event := []

/-- A write may fail, and may leave anything in its file whatever it reports. -/
def storage : Env StoreWorld ServerCall ServerCall.Reply := fun w c r u =>
  u.log = w.log ++ [⟨c, r⟩] ∧
    match c with
    | .writeFile path _ => ∀ p, p ≠ path → u.files p = w.files p
    | _ => u.files = w.files

def lastDrawn (log : List Event) : Bool :=
  log.foldl (fun drawn e =>
    match e with
    | ⟨.random _, r⟩ => r.1
    | _ => drawn) true

/-- The condition on a call: a record is written under a number that was drawn with
success and has no record yet, what a write reports is true, and the digest is
written. -/
def Meets (cfg : ServerConfig) (w : StoreWorld) (c : ServerCall) (r : c.Reply) (u : StoreWorld) : Prop :=
  match c, r with
  | .writeFile path b, written =>
    lastDrawn w.log = true ∧ w.files path = none ∧ (written = true → u.files path = some b) ∧
      ((∃ fileId, path = hashPath cfg fileId) → written = true)
  | _, _ => True

def sound (cfg : ServerConfig) : Env StoreWorld ServerCall ServerCall.Reply := fun w c r u =>
  storage w c r u ∧ Meets cfg w c r u

/-- The files after any further calls of any sessions that meet the condition. -/
def Later (cfg : ServerConfig) : (Bytes → Option Bytes) → (Bytes → Option Bytes) → Prop :=
  Relation.ReflTransGen fun files files' =>
    ∃ (w u : StoreWorld) (c : ServerCall) (r : c.Reply), w.files = files ∧ u.files = files' ∧
      sound cfg w c r u

variable {cfg : ServerConfig}

theorem sound_keeps {w u : StoreWorld} {c : ServerCall} {r : c.Reply} (h : sound cfg w c r u)
    {path b : Bytes} (hp : w.files path = some b) : u.files path = some b := by
  obtain ⟨⟨-, hfiles⟩, hmeets⟩ := h
  cases c with
  | writeFile path' b' =>
    have hne : path ≠ path' := by
      rintro rfl
      rw [hmeets.2.1] at hp
      cases hp
    rw [hfiles path hne, hp]
  | _ => exact (congrFun hfiles path).trans hp

theorem later_keeps {files files' : Bytes → Option Bytes} (h : Later cfg files files') {path b : Bytes}
    (hp : files path = some b) : files' path = some b := by
  induction h with
  | refl => exact hp
  | tail _ hstep ih =>
    obtain ⟨w, u, c, r, rfl, rfl, hs⟩ := hstep
    exact sound_keeps hs ih

/-! ## One encryption -/

def NoReply (log : List Event) : Prop :=
  ∀ h r, (⟨.sendHeader h, r⟩ : Event) ∈ log → h.get (bytes "status") ≠ bytes "ok"

def NoLoss (log : List Event) : Prop := ∀ path b, (⟨.writeFile path b, false⟩ : Event) ∉ log

def Drawn (log : List Event) (id : Bytes) : Prop :=
  ∃ v : Vector UInt8 16, (⟨.random 16, (true, v)⟩ : Event) ∈ log ∧ id = toHex v.toList

def Received (log : List Event) (size : Nat) (plain : Bytes) : Prop :=
  size = 0 ∧ plain = [] ∨
    ∃ v : Vector UInt8 size, (⟨.receive size, some v⟩ : Event) ∈ log ∧ plain = v.toList

/-- The records of an encryption are in the files, under numbers that were drawn. -/
structure Recorded (cfg : ServerConfig) (lib : CryptoLibrary) (req : Header) (size : Nat)
    (e : Encryption) (log : List Event) (files : Bytes → Option Bytes) : Prop where
  cipher : CryptoEngine.cipherFromString (req.get (bytes "cipher")) = some e.cipher
  alg : CryptoEngine.hashFromString (req.get (bytes "hash")) = some e.alg
  modern : e.alg ≠ .streebog
  received : Received log size e.plain
  digest : CryptoEngine.hash lib e.alg e.plain = .ok e.hex
  used : CryptoEngine.Encrypted lib e.cipher e.plain e.result
  storage : keyStorage req = bytes "server" ∨ keyStorage req = bytes "client"
  key : if keyStorage req = bytes "server" then Drawn log e.keyId ∧
    files (keyPath cfg e.keyId) = some e.result.toKeyMaterial.blob else e.keyId = []
  file : Drawn log e.fileId
  record : files (hashPath cfg e.fileId) = some (hashRecord req e.hex).payload
  complete : NoLoss log

theorem drawn_mono {log log' : List Event} (hl : log <+: log') {id : Bytes} (h : Drawn log id) :
    Drawn log' id := by
  obtain ⟨v, hv, hid⟩ := h
  exact ⟨v, hl.subset hv, hid⟩

theorem received_mono {log log' : List Event} (hl : log <+: log') {size : Nat} {plain : Bytes}
    (h : Received log size plain) : Received log' size plain := by
  rcases h with h | ⟨v, hv, hp⟩
  · exact .inl h
  · exact .inr ⟨v, hl.subset hv, hp⟩

structure Before (w : StoreWorld) : Prop where
  noReply : NoReply w.log
  noLoss : NoLoss w.log

theorem mem_snoc {log : List Event} {e e' : Event} (h : e ∈ log ++ [e']) : e ∈ log ∨ e = e' := by
  simpa using h

theorem noReply_snoc {log : List Event} {e : Event} (h : NoReply log)
    (he : ∀ hd r, e = ⟨.sendHeader hd, r⟩ → hd.get (bytes "status") ≠ bytes "ok") :
    NoReply (log ++ [e]) := by
  intro hd r hm
  rcases mem_snoc hm with hm | hm
  · exact h hd r hm
  · exact he hd r hm.symm

theorem noLoss_snoc {log : List Event} {e : Event} (h : NoLoss log)
    (he : ∀ path b, e ≠ ⟨.writeFile path b, false⟩) : NoLoss (log ++ [e]) := by
  intro path b hm
  rcases mem_snoc hm with hm | hm
  · exact h path b hm
  · exact he path b hm.symm

theorem before_quiet {w u : StoreWorld} {c : ServerCall} {r : c.Reply} (h : Before w)
    (hc : c.Quiet) (he : sound cfg w c r u) : Before u := by
  have hlog := he.1.1
  constructor
  · rw [hlog]
    refine noReply_snoc h.noReply fun hd r' heq => ?_
    cases heq
    exact hc.elim
  · rw [hlog]
    refine noLoss_snoc h.noLoss fun path b heq => ?_
    cases heq
    exact hc.elim

theorem error_not_ok (message : Bytes) :
    (errorHeader message).get (bytes "status") ≠ bytes "ok" := not_releases_error message

theorem kept_before {K : StoreWorld → Prop} (hK : ∀ w, NoReply w.log → K w) :
    Kept (sound cfg) (fun _ => Before) (fun _ w => NoReply w.log) K where
  quiet h hc he := before_quiet h hc he
  stats _ h := h
  policy _ h := h
  error h he := by
    rw [he.1.1]
    refine noReply_snoc h.noReply fun hd r heq => ?_
    cases heq
    exact error_not_ok _
  ended h hc he := by
    rw [he.1.1]
    refine noReply_snoc h fun hd r heq => ?_
    cases heq
    exact hc.elim
  crash h := hK _ h.noReply
  crashed h := hK _ h

section
variable {K : StoreWorld → Prop} (hK : ∀ w, NoReply w.log → K w) {s : ServerState} {w : StoreWorld}
include hK

theorem randomHex_spec {E : Unit → ServerState → StoreWorld → Prop} (h : Before w) :
    wpS (sound cfg) (fun id _ u => Before u ∧ u.files = w.files ∧ w.log <+: u.log ∧
        (lastDrawn u.log = true → Drawn u.log id)) E K (randomHex 16) s w := by
  unfold randomHex
  rw [wpS_perform_bind]
  refine ⟨hK w h.noReply, fun drawn u he => ?_⟩
  have hu := before_quiet (c := .random 16) h trivial he
  refine ⟨hK u hu.noReply, hu, he.1.2, ?_, fun hlast => ?_⟩
  · rw [he.1.1]
    exact List.prefix_append _ _
  · obtain ⟨ok, v⟩ := drawn
    have hok : ok = true := by
      rw [he.1.1, lastDrawn, List.foldl_append] at hlast
      exact hlast
    refine ⟨v, ?_, rfl⟩
    rw [he.1.1, hok]
    simp

theorem keepKey_spec (storage : Bytes) (m : KeyMaterial) (h : Before w) :
    wpS (sound cfg) (fun keyId _ u => Before u ∧ w.log <+: u.log ∧
        if storage = bytes "server" then Drawn u.log keyId ∧
          u.files (keyPath cfg keyId) = some m.blob else keyId = [])
      (fun _ _ u => NoReply u.log) K (keepKey cfg storage m) s w := by
  unfold keepKey
  by_cases hs : storage = bytes "server"
  · rw [if_pos hs, wpS_bind]
    refine wpS_post (randomHex_spec hK h) fun keyId s₁ w₁ _ h₁ => ?_
    obtain ⟨h₁, hfiles, hprefix, hdrawn⟩ := h₁
    rw [storeKey, wpS_perform_bind]
    refine ⟨hK w₁ h₁.noReply, fun stored w₂ he => ?_⟩
    have hnoReply : NoReply w₂.log := by
      rw [he.1.1]
      exact noReply_snoc h₁.noReply fun _ _ heq => by cases heq
    cases stored with
    | false =>
      -- a key that is not stored is answered with an error
      show wpS _ _ _ _ (require false _ >>= fun _ => pure keyId) s₁ w₂
      refine wpS_guardOr false () _ _ (fun _ => ?_) fun hstored => by cases hstored
      rw [sendError, wpS_perform_]
      refine ⟨hK w₂ hnoReply, fun _ w₃ he₃ => ?_⟩
      have hnoReply₃ : NoReply w₃.log := by
        rw [he₃.1.1]
        refine noReply_snoc hnoReply fun _ _ heq => ?_
        cases heq
        exact error_not_ok _
      exact ⟨hK w₃ hnoReply₃, hnoReply₃⟩
    | true =>
      obtain ⟨hlast, -, hstored, -⟩ := he.2
      have hnoLoss : NoLoss w₂.log := by
        rw [he.1.1]
        exact noLoss_snoc h₁.noLoss fun _ _ heq => by cases heq
      obtain ⟨v, hv, hid⟩ := hdrawn hlast
      refine ⟨hK w₂ hnoReply, ⟨hnoReply, hnoLoss⟩, ?_, ?_⟩
      · rw [he.1.1]
        exact hprefix.trans (List.prefix_append _ _)
      · rw [if_pos hs]
        refine ⟨⟨v, ?_, hid⟩, hstored rfl⟩
        rw [he.1.1]
        exact List.mem_append_left _ hv
  · rw [if_neg hs]
    exact ⟨hK w h.noReply, h, List.prefix_rfl, by rw [if_neg hs]⟩

theorem readExact_spec {E : Unit → ServerState → StoreWorld → Prop} (size : Nat) (h : Before w) :
    wpS (sound cfg) (fun payload _ u => Before u ∧
        ∀ plain, payload = some plain → Received u.log size plain) E K (readExact size) s w := by
  unfold readExact
  by_cases hsize : size = 0
  · rw [if_pos hsize]
    refine ⟨hK w h.noReply, h, fun plain he => .inl ⟨hsize, ?_⟩⟩
    exact (Option.some.inj he).symm
  · rw [if_neg hsize, wpS_perform_bind]
    refine ⟨hK w h.noReply, fun r u he => ?_⟩
    have hu := before_quiet (c := .receive size) h trivial he
    refine ⟨hK u hu.noReply, hu, fun plain hp => .inr ?_⟩
    obtain ⟨v, rfl, rfl⟩ := Option.map_eq_some_iff.mp hp
    refine ⟨v, ?_, rfl⟩
    rw [he.1.1]
    simp

theorem encryptRequest_spec {lib : CryptoLibrary} {req : Header} (size : Nat) (h : Before w) :
    wpS (sound cfg) (fun e _ u => NoReply u.log ∧ Recorded cfg lib req size e u.log u.files)
      (fun _ _ u => NoReply u.log) K (encryptRequest cfg lib req size) s w := by
  have hk := @kept_before cfg K hK
  unfold encryptRequest
  refine hk.orFail h fun cipher hcipher => hk.orFail h fun alg halg => hk.require h fun hmodern => ?_
  rw [wpS_bind]
  refine wpS_post (readExact_spec hK size h) fun payload s₁ w₁ _ h₁ => ?_
  obtain ⟨h₁, hreceived⟩ := h₁
  refine hk.orFail h₁ fun plain hplain => hk.okOrFail h₁ fun hex hhex => ?_
  rw [wpS_bind, wpS_lift]
  -- a draw only makes the log longer
  have hdraw : ∀ (v : StoreWorld) (n : Nat) (r : Bool × Vector UInt8 n) (u : StoreWorld),
      Before v ∧ w₁.log <+: v.log → sound cfg v (.random n) r u → Before u ∧ w₁.log <+: u.log := by
    intro v n r u hv he
    refine ⟨before_quiet (c := .random n) hv.1 trivial he, hv.2.trans ?_⟩
    rw [he.1.1]
    exact List.prefix_append _ _
  have hencrypt : wp (sound cfg)
      (fun r _ => ∀ res, r = .ok res → CryptoEngine.Encrypted lib cipher plain res)
      (fun u => Before u ∧ w₁.log <+: u.log) (CryptoEngine.encrypt lib cipher plain) w₁ :=
    CryptoEngine.encrypt_spec hdraw ⟨h₁, List.prefix_rfl⟩
  refine wp_mono (fun encrypted w₂ h₂ hused => ?_) (fun u hu => hK u hu.1.noReply) hencrypt
  obtain ⟨h₂, hprefix₂⟩ := h₂
  refine hk.okOrFail h₂ fun result hresult => hk.require h₂ fun hstorage => ?_
  rw [wpS_bind]
  refine wpS_post (keepKey_spec hK _ _ h₂) fun keyId s₃ w₃ _ h₃ => ?_
  obtain ⟨h₃, hprefix₃, hkey⟩ := h₃
  rw [wpS_bind]
  refine wpS_post (randomHex_spec hK h₃) fun fileId s₄ w₄ _ h₄ => ?_
  obtain ⟨h₄, hfiles₄, hprefix₄, hdrawn⟩ := h₄
  rw [wpS_bind, wpS_perform_]
  refine ⟨hK w₄ h₄.noReply, fun written w₅ he => ?_⟩
  have hlog := he.1.1
  obtain ⟨hlast, -, hstored, hwritten⟩ := he.2
  -- the condition on the calls: this write does not fail
  obtain rfl : written = true := hwritten ⟨fileId, rfl⟩
  have hprefix : w₄.log <+: w₅.log := by
    rw [hlog]
    exact List.prefix_append _ _
  have hnoReply : NoReply w₅.log := by
    rw [hlog]
    exact noReply_snoc h₄.noReply fun _ _ heq => by cases heq
  have hnoLoss : NoLoss w₅.log := by
    rw [hlog]
    exact noLoss_snoc h₄.noLoss fun _ _ heq => by cases heq
  refine ⟨hK w₅ hnoReply, hK w₅ hnoReply, hnoReply, hcipher, halg, by simpa using hmodern,
    received_mono (hprefix₂.trans (hprefix₃.trans (hprefix₄.trans hprefix))) (hreceived plain hplain),
    hhex, hused result hresult, by simpa using hstorage, ?_, drawn_mono hprefix (hdrawn hlast),
    hstored rfl, hnoLoss⟩
  by_cases hs : keyStorage req = bytes "server"
  · rw [if_pos hs] at hkey ⊢
    exact ⟨drawn_mono (hprefix₄.trans hprefix) hkey.1, sound_keeps he (hfiles₄ ▸ hkey.2)⟩
  · rw [if_neg hs] at hkey ⊢
    exact hkey

end

/-! ## After the reply -/

theorem get_setUnlessEmpty (h : Header) (key value encoded key' : Bytes) :
    (setUnlessEmpty h key value encoded).get key' =
      if key' = key ∧ value ≠ [] then encoded else h.get key' := by
  unfold setUnlessEmpty
  by_cases hv : value = []
  · simp [hv]
  · rw [if_neg hv, Header.get_set]
    simp [hv]

theorem get_encryptedHeader (req : Header) (e : Encryption) (key : Bytes) :
    (encryptedHeader req e).get key =
      if key = bytes "tag" ∧ e.result.tag ≠ [] then base64Encode e.result.tag
      else if key = bytes "iv" ∧ e.result.iv ≠ [] then base64Encode e.result.iv
      else if key = bytes "key" ∧ keyStorage req = bytes "client" then base64Encode e.result.key
      else if key = bytes "key_id" ∧ e.keyId ≠ [] then e.keyId
      else if key = bytes "enc_size" then decimal e.result.data.length
      else if key = bytes "hash_value" then e.hex
      else if key = bytes "file_id" then e.fileId
      else if key = bytes "hash" then req.get (bytes "hash")
      else if key = bytes "cipher" then req.get (bytes "cipher")
      else if key = bytes "status" then bytes "ok" else [] := by
  unfold encryptedHeader
  rw [get_setUnlessEmpty, get_setUnlessEmpty]
  by_cases hc : keyStorage req = bytes "client"
  · simp only [hc, if_true, Header.get_set, get_setUnlessEmpty, and_true]
    rfl
  · simp only [hc, if_false, Header.get_set, get_setUnlessEmpty, and_false]
    rfl

theorem get_fileId (req : Header) (e : Encryption) :
    (encryptedHeader req e).get (bytes "file_id") = e.fileId := by
  rw [get_encryptedHeader]
  simp +decide only [false_and, if_false, if_true]

theorem get_keyId (req : Header) (e : Encryption) :
    (encryptedHeader req e).get (bytes "key_id") = e.keyId := by
  rw [get_encryptedHeader]
  simp +decide only [false_and, if_false, true_and]
  by_cases hk : e.keyId = []
  · simp [hk]
  · simp [hk]

/-- The reply stands in the log, what it names is stored, and only the result
follows it. -/
structure Promised (cfg : ServerConfig) (lib : CryptoLibrary) (req : Header) (size : Nat)
    (e : Encryption) (l t : List Event) (sent : Bool) (w : StoreWorld) : Prop where
  carried : stoull (req.get (bytes "file_size") (bytes "0")) = some size
  log : w.log = l ++ ⟨.sendHeader (encryptedHeader req e), sent⟩ :: t
  first : NoReply l
  last : NoReply t
  recorded : Recorded cfg lib req size e l w.files
  result : OnlySent e.result.data t

def Follows (data : Bytes) (c : ServerCall) : Prop := Sends data c ∧ ∀ h, c ≠ .sendHeader h

theorem follows_quiet {data : Bytes} {c : ServerCall} (hc : c.Quiet) : Follows data c :=
  ⟨sends_quiet hc, fun _ he => by cases he; exact hc.elim⟩

theorem recordFile_follows (username op : Bytes) (size : Nat) (detail data : Bytes) :
    UsesS (Follows data) (recordFile cfg username op size detail) := by
  unfold recordFile
  refine usesS_bind (usesS_step fun s => ?_) fun _ => ?_
  · have hquiet := uses_quiet (SecurityMonitor.recordFileOp_inward cfg.monitor s.stats username op 1 size)
    exact uses_bind (uses_mono (fun _ => follows_quiet) hquiet) fun _ => trivial
  · exact usesS_bind (usesS_perform (follows_quiet trivial)) fun _ => usesS_pure ()

variable {lib : CryptoLibrary} {kdf : PasswordKdf} {req : Header} {size : Nat} {e : Encryption}
  {l t : List Event} {sent : Bool}

theorem recorded_keeps {w u : StoreWorld} {c : ServerCall} {r : c.Reply} (hs : sound cfg w c r u)
    (h : Recorded cfg lib req size e l w.files) : Recorded cfg lib req size e l u.files := by
  refine { h with key := ?_, record := sound_keeps hs h.record }
  have hkey := h.key
  split at hkey
  · rename_i hserver
    rw [if_pos hserver]
    exact ⟨hkey.1, sound_keeps hs hkey.2⟩
  · rename_i hserver
    rwa [if_neg hserver]

theorem promised_step {w u : StoreWorld} {c : ServerCall} {r : c.Reply}
    (hc : Follows e.result.data c) (h : Promised cfg lib req size e l t sent w)
    (hs : sound cfg w c r u) :
    Promised cfg lib req size e l (t ++ [⟨c, r⟩]) sent u := by
  refine ⟨h.carried, ?_, h.first, noReply_snoc h.last fun hd r' heq => ?_, recorded_keeps hs h.recorded, ?_⟩
  · rw [hs.1.1, h.log, List.append_assoc]
    rfl
  · cases heq
    exact absurd rfl (hc.2 hd)
  · intro e' hm data hd
    rcases mem_snoc hm with hm | rfl
    · exact h.result e' hm data hd
    · exact hc.1 data hd

def Honoured (cfg : ServerConfig) (lib : CryptoLibrary) (req : Header) (w : StoreWorld) : Prop :=
  NoReply w.log ∨ ∃ size e l t sent, Promised cfg lib req size e l t sent w

theorem handleEncrypt_honours {s : ServerState} {w : StoreWorld} (hlog : w.log = []) :
    wpS (sound cfg) (fun _ _ _ => True) (fun _ _ _ => True) (Honoured cfg lib req)
      (handleEncrypt cfg kdf lib req) s w := by
  have hK : ∀ w, NoReply w.log → Honoured cfg lib req w := fun _ => .inl
  have hbefore : Before w := by
    constructor <;> rw [hlog]
    · exact fun _ _ hm => absurd hm List.not_mem_nil
    · exact fun _ _ hm => absurd hm List.not_mem_nil
  unfold handleEncrypt
  rw [wpS_bind]
  refine wpS_mono (checkRequest_spec (kept_before hK) req _ _ 1 hbefore) (fun size s₁ w₁ _ h₁ => ?_)
    (fun _ _ _ _ _ => trivial) fun _ => id
  unfold encryptFile
  rw [wpS_bind]
  refine wpS_mono (encryptRequest_spec hK size h₁.1) (fun e s₂ w₂ _ h₂ => ?_)
    (fun _ _ _ _ _ => trivial) fun _ => id
  obtain ⟨hfirst, hrecorded⟩ := h₂
  unfold sendResult
  rw [wpS_bind, wpS_perform_bind]
  refine ⟨hK w₂ hfirst, fun sent w₃ he => ?_⟩
  let After (w : StoreWorld) : Prop := ∃ t, Promised cfg lib req size e w₂.log t sent w
  have hsent : After w₃ := ⟨[], h₁.2.carried, he.1.1, hfirst, fun _ _ hm => absurd hm List.not_mem_nil,
    recorded_keeps he hrecorded, fun _ hm => absurd hm List.not_mem_nil⟩
  have hstep : ∀ (w : StoreWorld) (c : ServerCall) (r : c.Reply) (u : StoreWorld),
      Follows e.result.data c → After w → sound cfg w c r u → After u :=
    fun w c r u hc ⟨t, h⟩ hs => ⟨t ++ [⟨c, r⟩], promised_step hc h hs⟩
  have hend : ∀ w, After w → Honoured cfg lib req w := fun w ⟨t, h⟩ => .inr ⟨size, e, _, t, sent, h⟩
  have hdata : Follows e.result.data (.sendData e.result.data) :=
    ⟨fun data he => by cases he; rfl, fun _ => by simp⟩
  have hresult : UsesS (Follows e.result.data) (do
      guardOr sent () (pure ())
      perform_ (.sendData e.result.data) : Handler Unit) :=
    usesS_bind (usesS_guardOr (usesS_pure ())) fun _ =>
      usesS_bind (usesS_perform hdata) fun _ => usesS_pure ()
  refine wpS_mono (wpS_of_uses hstep hresult hsent) (fun _ s₄ w₄ _ h₄ => ?_)
    (fun _ _ _ _ _ => trivial) hend
  exact wpS_mono (wpS_of_uses hstep (recordFile_follows _ _ _ _ _) h₄) (fun _ _ _ _ _ => trivial)
    (fun _ _ _ _ _ => trivial) hend

theorem promised_of_mem {w : StoreWorld} (h : Honoured cfg lib req w) {hd : Header} {r : Bool}
    (hm : (⟨.sendHeader hd, r⟩ : Event) ∈ w.log) (hok : hd.get (bytes "status") = bytes "ok") :
    ∃ size e l t, hd = encryptedHeader req e ∧ Promised cfg lib req size e l t r w := by
  rcases h with hnone | ⟨size, e, l, t, sent, hp⟩
  · exact absurd hok (hnone hd r hm)
  · have hlog := hm
    rw [hp.log] at hlog
    rcases List.mem_append.mp hlog with hl | hl
    · exact absurd hok (hp.first hd r hl)
    rcases List.mem_cons.mp hl with heq | ht
    · cases heq
      exact ⟨size, e, l, t, rfl, hp⟩
    · exact absurd hok (hp.last hd r ht)

theorem digest_loaded {file : Option Bytes} {r : HashRecord} (h : file = some r.payload)
    (ha : r.alg ≠ []) (hh : r.hex ≠ []) (hac : byte ':' ∉ r.alg) (hhc : byte ':' ∉ r.hex) :
    HashRecord.ofFile file = some r := by
  rw [h, HashRecord.ofFile_payload ha hh hac hhc]

theorem key_loaded {file : Option Bytes} {m : KeyMaterial} (h : file = some m.blob) (hm : m.Fits) :
    file.bind KeyMaterial.ofBlob = some m := by
  rw [h, Option.bind_some, KeyMaterial.ofBlob_blob hm]

/-- **What an ok reply names stays stored**, where every call meets the condition. At
any cut of an encryption whose log holds an ok reply, no write before it failed and
its numbers were drawn with success; and after any further calls of any sessions the
record under the file's number holds the digest of the payload under the algorithm of the
request, and the one under the key's number the key, IV and tag that its cipher used. -/
theorem encrypted_stays {s : ServerState} {w w' : StoreWorld} (hlog : w.log = [])
    (hv : Visits (sound cfg) ((handleEncrypt cfg kdf lib req).go s) w w') {h : Header} {r : Bool}
    (hsent : (⟨.sendHeader h, r⟩ : Event) ∈ w'.log) (hok : h.get (bytes "status") = bytes "ok") :
    ∃ (e : Encryption) (size : Nat) (before after : List Event),
      w'.log = before ++ ⟨.sendHeader h, r⟩ :: after ∧ NoLoss before ∧
      Drawn before (h.get (bytes "file_id")) ∧
      (h.get (bytes "key_id") ≠ [] → Drawn before (h.get (bytes "key_id"))) ∧
      stoull (req.get (bytes "file_size") (bytes "0")) = some size ∧
      CryptoEngine.cipherFromString (req.get (bytes "cipher")) = some e.cipher ∧
      CryptoEngine.hashFromString (req.get (bytes "hash")) = some e.alg ∧
      Received before size e.plain ∧ CryptoEngine.hash lib e.alg e.plain = .ok e.hex ∧
      CryptoEngine.Encrypted lib e.cipher e.plain e.result ∧ OnlySent e.result.data after ∧
      ∀ files, Later cfg w'.files files →
        HashRecord.ofFile (files (hashPath cfg (h.get (bytes "file_id")))) =
          some (hashRecord req e.hex) ∧
        (h.get (bytes "key_id") ≠ [] →
          (files (keyPath cfg (h.get (bytes "key_id")))).bind KeyMaterial.ofBlob =
            some e.result.toKeyMaterial) := by
  obtain ⟨size, e, l, t, rfl, hp⟩ := promised_of_mem (visits_of_wp (handleEncrypt_honours hlog) hv) hsent hok
  have hr := hp.recorded
  rw [get_fileId, get_keyId]
  -- only a key that the server keeps has a number
  have hserver (hne : e.keyId ≠ []) : keyStorage req = bytes "server" := by
    by_contra hs
    have hkey := hr.key
    rw [if_neg hs] at hkey
    exact hne hkey
  have hkey (hne : e.keyId ≠ []) : Drawn l e.keyId ∧
      w'.files (keyPath cfg e.keyId) = some e.result.toKeyMaterial.blob := by
    have hkey := hr.key
    rwa [if_pos (hserver hne)] at hkey
  obtain ⟨hhexNe, hhexAll⟩ := CryptoEngine.hash_hex lib hr.digest
  obtain ⟨halgNe, halgColon⟩ := plain_hashName hr.alg
  have hhexColon : byte ':' ∉ e.hex := fun hm => by
    have hdigit := List.all_eq_true.mp hhexAll _ hm
    revert hdigit
    decide
  refine ⟨e, size, l, t, hp.log, hr.complete, hr.file, fun hne => (hkey hne).1, hp.carried, hr.cipher,
    hr.alg, hr.received, hr.digest, hr.used, hp.result, fun files hlater => ⟨?_, fun hne => ?_⟩⟩
  · exact digest_loaded (later_keeps hlater hr.record) halgNe hhexNe halgColon hhexColon
  · exact key_loaded (later_keeps hlater (hkey hne).2) (CryptoEngine.fits_of_encrypted hr.used)

/-! ## A disk that keeps, and one that loses -/

def recordsAnswer (draws : Nat) (written : Bool) (w : StoreWorld) (c : ServerCall) :
    c.Reply × StoreWorld :=
  let r : c.Reply := match c with
    | .random n => (w.log.length < draws, Vector.replicate n (UInt8.ofNat w.log.length))
    | .receive n => some (Vector.replicate n 7)
    | .writeFile _ _ => written
    | c => c.plain 0
  let files : Bytes → Option Bytes := match c with
    | .writeFile path b => if written then Function.update w.files path (some b) else w.files
    | _ => w.files
  (r, { files := files, log := w.log ++ [⟨c, r⟩] })

def noRecords : StoreWorld := { files := fun _ => none }

def encryptKept : Header := encryptAsked.set (bytes "key_storage") (bytes "server")

def encryptFor (req : Header) : ServerProgram (Except Unit Unit × ServerState) :=
  (handleEncrypt fileConfig zeroKdf copyLibrary req).go bobsState

def recordsAfter (draws : Nat) (written : Bool) (req : Header) : StoreWorld :=
  (exec (recordsAnswer draws written) (encryptFor req) noRecords).2

theorem storage_records (draws : Nat) (written : Bool) (w : StoreWorld) (c : ServerCall) :
    storage w c (recordsAnswer draws written w c).1 (recordsAnswer draws written w c).2 := by
  refine ⟨rfl, ?_⟩
  cases c with
  | writeFile path b =>
    intro p hp
    cases written with
    | false => rfl
    | true => exact Function.update_of_ne hp _ _
  | _ => rfl

def recordsFit (w : StoreWorld) : ServerCall → Bool
  | .writeFile path _ => lastDrawn w.log && (w.files path).isNone
  | _ => true

theorem sound_records (draws : Nat) (w : StoreWorld) (c : ServerCall) (h : recordsFit w c = true) :
    sound fileConfig w c (recordsAnswer draws true w c).1 (recordsAnswer draws true w c).2 := by
  refine ⟨storage_records draws true w c, ?_⟩
  cases c with
  | writeFile path b =>
    obtain ⟨hlast, hnone⟩ := Bool.and_eq_true_iff.mp h
    exact ⟨hlast, Option.isNone_iff_eq_none.mp hnone, fun _ => Function.update_self .., fun _ => rfl⟩
  | _ => trivial

theorem visits_records (draws : Nat) (written : Bool) (req : Header) :
    Visits storage (encryptFor req) noRecords (recordsAfter draws written req) :=
  visits_of_runs (runs_exec (storage_records draws written) _ _)

theorem visits_sound {draws : Nat} {req : Header}
    (h : execMeets (recordsAnswer draws true) recordsFit (encryptFor req) noRecords = true) :
    Visits (sound fileConfig) (encryptFor req) noRecords (recordsAfter draws true req) :=
  visits_of_runs (runs_execMeets (sound_records draws) _ _ h)

def numberAt (n : Nat) : Bytes := toHex (Vector.replicate 16 (UInt8.ofNat n)).toList

def repliesOk (fileId keyId : Bytes) : Event → Bool
  | ⟨.sendHeader h, _⟩ => h.get (bytes "status") == bytes "ok" && h.get (bytes "file_id") == fileId &&
      h.get (bytes "key_id") == keyId
  | _ => false

theorem sent_of_any {fileId keyId : Bytes} {log : List Event}
    (h : log.any (repliesOk fileId keyId) = true) :
    ∃ hd r, (⟨.sendHeader hd, r⟩ : Event) ∈ log ∧ hd.get (bytes "status") = bytes "ok" ∧
      hd.get (bytes "file_id") = fileId ∧ hd.get (bytes "key_id") = keyId := by
  obtain ⟨⟨c, r⟩, hm, hok⟩ := List.any_eq_true.mp h
  cases c with
  | sendHeader hd =>
    simp only [repliesOk, Bool.and_eq_true, beq_iff_eq] at hok
    exact ⟨hd, r, hm, hok.1.1, hok.1.2, hok.2⟩
  | _ => cases hok

def arrivesSevens : Event → Bool
  | ⟨.receive n, r⟩ => r.map Vector.toList == some (List.replicate n 7)
  | _ => true

/-- Three bytes and the key of their file, on a disk that keeps both. -/
theorem encrypted_stays_kept : ∃ e : Encryption,
    e.plain = [7, 7, 7] ∧ e.cipher = .aes256Ctr ∧ e.alg = .sha256 ∧
      CryptoEngine.hash copyLibrary e.alg e.plain = .ok e.hex ∧
      CryptoEngine.Encrypted copyLibrary e.cipher e.plain e.result ∧
      ∀ files, Later fileConfig (recordsAfter 100 true encryptKept).files files →
        HashRecord.ofFile (files (hashPath fileConfig (numberAt 12))) =
          some (hashRecord encryptKept e.hex) ∧
        (files (keyPath fileConfig (numberAt 10))).bind KeyMaterial.ofBlob =
          some e.result.toKeyMaterial := by
  have hcomputed : execMeets (recordsAnswer 100 true) recordsFit (encryptFor encryptKept) noRecords = true ∧
      (recordsAfter 100 true encryptKept).log.any (repliesOk (numberAt 12) (numberAt 10)) = true ∧
      (recordsAfter 100 true encryptKept).log.all arrivesSevens = true := by
    decide
  obtain ⟨hmeets, hreply, hsevens⟩ := hcomputed
  obtain ⟨h, r, hm, hok, hfile, hkey⟩ := sent_of_any hreply
  obtain ⟨e, size, before, after, hlog, -, -, -, hsize, hcipher, halg, hreceived, hdigest, hused, -,
    hstays⟩ := encrypted_stays rfl (visits_sound hmeets) hm hok
  obtain rfl : 3 = size := Option.some.inj ((by decide : _ = some 3).symm.trans hsize)
  have hplain : e.plain = [7, 7, 7] := by
    rcases hreceived with ⟨hzero, -⟩ | ⟨v, hv, hplain⟩
    · cases hzero
    · have hseven := List.all_eq_true.mp hsevens _ (hlog ▸ List.mem_append_left _ hv)
      rw [hplain]
      exact Option.some.inj (eq_of_beq hseven)
  refine ⟨e, hplain, ?_, ?_, hdigest, hused, fun files hl => ?_⟩
  · exact Option.some.inj (hcipher.symm.trans (by decide))
  · exact Option.some.inj (halg.symm.trans (by decide))
  · rw [hfile, hkey] at hstays
    exact ⟨(hstays files hl).1, (hstays files hl).2 (by decide)⟩

def lostWrite : Event → Bool
  | ⟨.writeFile _ _, written⟩ => !written
  | _ => false

theorem lost_of_any {log : List Event} (h : log.any lostWrite = true) :
    ∃ path b, (⟨.writeFile path b, false⟩ : Event) ∈ log := by
  obtain ⟨⟨c, r⟩, hm, hlost⟩ := List.any_eq_true.mp h
  cases c with
  | writeFile path b =>
    obtain rfl : r = false := by simpa [lostWrite] using hlost
    exact ⟨path, b, hm⟩
  | _ => cases hlost

def badDraw (id : Bytes) : Event → Bool
  | ⟨.random 16, drawn⟩ => !drawn.1 && toHex drawn.2.toList == id
  | _ => false

theorem bad_of_any {id : Bytes} {log : List Event} (h : log.any (badDraw id) = true) :
    ∃ v : Vector UInt8 16, (⟨.random 16, (false, v)⟩ : Event) ∈ log ∧ id = toHex v.toList := by
  obtain ⟨⟨c, r⟩, hm, hbad⟩ := List.any_eq_true.mp h
  unfold badDraw at hbad
  split at hbad
  · next drawn heq =>
    cases heq
    obtain ⟨ok, v⟩ := drawn
    obtain ⟨rfl, rfl⟩ : ok = false ∧ toHex v.toList = id := by simpa using hbad
    exact ⟨v, hm, rfl⟩
  · cases hbad

/-- **A lost digest is answered with ok, and so is a failed draw.** -/
theorem lost_digest_replies_ok :
    (∃ w h r path b, Visits storage (encryptFor encryptAsked) noRecords w ∧
      (⟨.sendHeader h, r⟩ : Event) ∈ w.log ∧ h.get (bytes "status") = bytes "ok" ∧
      (⟨.writeFile path b, false⟩ : Event) ∈ w.log ∧
      w.files (hashPath fileConfig (h.get (bytes "file_id"))) = none) ∧
    ∃ w h r, ∃ v : Vector UInt8 16, Visits storage (encryptFor encryptAsked) noRecords w ∧
      (⟨.sendHeader h, r⟩ : Event) ∈ w.log ∧ h.get (bytes "status") = bytes "ok" ∧
      (⟨.random 16, (false, v)⟩ : Event) ∈ w.log ∧ h.get (bytes "file_id") = toHex v.toList := by
  have hwritten : (recordsAfter 100 false encryptAsked).log.any (repliesOk (numberAt 10) []) = true ∧
      (recordsAfter 100 false encryptAsked).log.any lostWrite = true ∧
      (recordsAfter 100 false encryptAsked).files (hashPath fileConfig (numberAt 10)) = none := by
    decide
  have hdrawn : (recordsAfter 10 true encryptAsked).log.any (repliesOk (numberAt 10) []) = true ∧
      (recordsAfter 10 true encryptAsked).log.any (badDraw (numberAt 10)) = true := by
    decide
  obtain ⟨hreply, hlost, hnone⟩ := hwritten
  obtain ⟨hreply', hbad⟩ := hdrawn
  refine ⟨?_, ?_⟩
  · obtain ⟨h, r, hm, hok, hfile, -⟩ := sent_of_any hreply
    obtain ⟨path, b, hb⟩ := lost_of_any hlost
    exact ⟨_, h, r, path, b, visits_records 100 false encryptAsked, hm, hok, hb, hfile ▸ hnone⟩
  · obtain ⟨h, r, hm, hok, hfile, -⟩ := sent_of_any hreply'
    obtain ⟨v, hv, hid⟩ := bad_of_any hbad
    exact ⟨_, h, r, v, visits_records 10 true encryptAsked, hm, hok, hv, hfile.trans hid⟩

end Server

end EncoderNext
