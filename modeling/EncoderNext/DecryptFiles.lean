import EncoderNext.Admission
import EncoderNext.Paths

/-!
# The files a decryption opens

The numbers of a request are put into the names of files as they stand. Only the
key's file and the record of the digest are ever opened, and a request that comes
to open one finds it where it should exactly where its number leads nowhere else.
-/

namespace EncoderNext

open Program Program.Stateful
open EncoderNext.Path (Inside Fits opened steps depth isAbsolute slash)

namespace Server

/-! ## Joined names -/

theorem joinPath_absolute {dir name : Bytes} (h : isAbsolute name = true) : joinPath dir name = name := by
  have hhead : name.head? = some (byte '/') := by simpa [isAbsolute, slash] using h
  rw [joinPath, if_pos (.inl hhead)]

theorem isAbsolute_joinPath {dir name : Bytes} (h : isAbsolute name = false) :
    isAbsolute (joinPath dir name) = isAbsolute dir := by
  have hhead : name.head? ≠ some (byte '/') := by simpa [isAbsolute, slash] using h
  cases dir with
  | nil =>
    rw [joinPath, if_pos (.inr rfl), h]
    rfl
  | cons c dir =>
    rw [joinPath, if_neg (by simp [hhead])]
    split <;> rfl

theorem steps_joinPath {dir name : Bytes} (h : isAbsolute name = false) :
    steps (joinPath dir name) = steps dir ++ steps name := by
  have hhead : name.head? ≠ some (byte '/') := by simpa [isAbsolute, slash] using h
  by_cases hdir : dir = []
  · subst hdir
    rw [joinPath, if_pos (.inr rfl)]
    rfl
  · rw [joinPath, if_neg (by simp [hhead, hdir])]
    split
    · rename_i hlast
      obtain ⟨top, rfl⟩ := List.getLast?_eq_some_iff.mp hlast
      rw [List.append_assoc, List.singleton_append]
      show steps (top ++ slash :: name) = steps (top ++ slash :: []) ++ steps name
      rw [Path.steps_append, Path.steps_append]
      simp [steps, parts]
    · exact Path.steps_append dir name

theorem opened_joinPath {dir : Bytes} (hdir : 0 ∉ dir) (name : Bytes) :
    opened (joinPath dir name) = joinPath dir (opened name) := by
  have hhead : (opened name).head? = some (byte '/') ↔ name.head? = some (byte '/') := by
    have h := Path.isAbsolute_opened name
    simpa [isAbsolute, slash] using congrArg (· = true) h
  unfold joinPath
  simp only [hhead]
  split
  · rfl
  · split
    · exact Path.opened_append hdir name
    · exact Path.opened_append hdir (slash :: name)

theorem inside_joinPath (dir name : Bytes) : Inside dir (opened (joinPath dir name)) ↔ Fits dir name := by
  by_cases h0 : 0 ∈ dir
  · exact ⟨fun h => absurd h0 (Path.not_mem_of_inside h), fun h => absurd h0 h.1⟩
  · rw [opened_joinPath h0, Fits, and_iff_right h0]
    cases habs : isAbsolute name with
    | true => rw [if_pos rfl, joinPath_absolute (by rw [Path.isAbsolute_opened, habs])]
    | false =>
      have hopened : isAbsolute (opened name) = false := by rw [Path.isAbsolute_opened, habs]
      rw [if_neg Bool.false_ne_true]
      exact Path.inside_of_steps (isAbsolute_joinPath hopened) (steps_joinPath hopened)

theorem getLast?_joinPath (dir : Bytes) {name : Bytes} (hn : name ≠ []) :
    (joinPath dir name).getLast? = name.getLast? := by
  unfold joinPath
  split
  · rfl
  split
  · exact List.getLast?_append_of_ne_nil _ hn
  · rw [List.getLast?_append_of_ne_nil _ (List.cons_ne_nil _ _), List.getLast?_cons,
      List.getLast?_eq_getLast_of_ne_nil hn]
    rfl

theorem keyPath_ne_hashPath (cfg : ServerConfig) (keyId fileId : Bytes) :
    keyPath cfg keyId ≠ hashPath cfg fileId := by
  intro h
  have hlast := congrArg List.getLast? h
  rw [keyPath, hashPath, getLast?_joinPath _ (by simp [bytes]), getLast?_joinPath _ (by simp [bytes]),
    List.getLast?_append_of_ne_nil _ (by decide), List.getLast?_append_of_ne_nil _ (by decide)] at hlast
  revert hlast
  decide

/-! ## Which requests pass the checks -/

/-- What the checks ask of a request and of the state that meets it. A lock passes with time. -/
structure Passes (cfg : ServerConfig) (kdf : PasswordKdf) (req : Header) (bit : UInt32)
    (s : ServerState) (size : Nat) : Prop where
  carried : stoull (req.get (bytes "file_size") (bytes "0")) = some size
  fits : size ≤ cfg.maxFileBytes
  client : s.policy.isClientAllowed (BindingPolicy.clientIdOf req) = true
  password : UserStore.verify kdf s.users (req.get (bytes "username")) (req.get (bytes "password")) =
    true
  permission : UserStore.permissions s.users (req.get (bytes "username")) &&& bit ≠ 0

section
variable {α : Type} {s s' : ServerState} {cfg : ServerConfig} {kdf : PasswordKdf} {req : Header}

theorem reaches_orFail {value : Option α} {message : Bytes} {a : α} :
    Reaches (orFail value message) s a s' ↔ value = some a ∧ s = s' := by
  cases value with
  | none =>
    refine ⟨fun h => ?_, nofun⟩
    obtain ⟨_, _, _, hthrow⟩ := reaches_bind.mp h
    cases hthrow
  | some b =>
    constructor
    · rintro ⟨⟩
      exact ⟨rfl, rfl⟩
    · rintro ⟨h, rfl⟩
      cases h
      exact reaches_pure

theorem reaches_readExact {size : Nat} {b : Bytes} :
    Reaches (readExact size) s (some b) s' ↔ b.length = size ∧ s = s' := by
  unfold readExact
  by_cases hsize : size = 0
  · rw [if_pos hsize, hsize]
    constructor
    · rintro ⟨⟩
      exact ⟨rfl, rfl⟩
    · rintro ⟨h, rfl⟩
      rw [List.eq_nil_of_length_eq_zero h]
      exact reaches_pure
  · rw [if_neg hsize, reaches_bind]
    constructor
    · rintro ⟨received, s₁, hreceive, hrest⟩
      cases hreceive with
      | call _ hdone =>
        cases hdone
        generalize hvalue : received.map Vector.toList = value at hrest
        cases hrest
        obtain ⟨v, -, rfl⟩ := Option.map_eq_some_iff.mp hvalue
        exact ⟨Vector.length_toList, rfl⟩
    · rintro ⟨rfl, rfl⟩
      exact ⟨_, _, reaches_perform _ (some ⟨b.toArray, rfl⟩), reaches_pure⟩

theorem exists_run (p : ServerProgram α) : ∃ a, Runs anything p () a () := by
  have hanswer (w : Unit) (c : ServerCall) (_ : True) : ∃ r w', anything w c r w' :=
    ⟨ServerCall.plain 0 c, (), trivial⟩
  obtain ⟨a, ⟨⟩, h⟩ := exists_runs hanswer () (uses_true p)
  exact ⟨a, h⟩

/-- Late enough, no lock is left. -/
theorem reaches_requireUnlocked (username stage : Bytes) (size : Nat) :
    Reaches (requireUnlocked username stage size) s () s := by
  have hlate : ∃ t, SecurityMonitor.lockedAt s.stats username t = none := by
    unfold SecurityMonitor.lockedAt
    cases s.stats.lookup username with
    | none => exact ⟨0, rfl⟩
    | some stats => exact ⟨stats.lockUntilTs, if_pos (Int.le_refl _)⟩
  obtain ⟨t, ht⟩ := hlate
  have hasked : Runs anything (SecurityMonitor.isLocked s.stats username) () none () := by
    refine anything_call (c := ServerCall.now) t ?_
    rw [← ht]
    exact .done _ ()
  exact reaches_bind.mpr ⟨s, s, reaches_state,
    reaches_bind.mpr ⟨none, s, reaches_lift hasked, reaches_pure⟩⟩

theorem reaches_requireClient {username op : Bytes} {size : Nat}
    (h : s.policy.isClientAllowed (BindingPolicy.clientIdOf req) = true) :
    ∃ policy, Reaches (requireClient req username op size) s () { s with policy := policy } := by
  let policy := s.policy.registered (BindingPolicy.clientIdOf req) (BindingPolicy.clientHostOf req) 0
  have hlet : policy.isClientAllowed (BindingPolicy.clientIdOf req) = true :=
    (BindingPolicy.isClientAllowed_registered ..).trans h
  have hregister : Reaches (onPolicy fun policy =>
      policy.registerClient (BindingPolicy.clientIdOf req) (BindingPolicy.clientHostOf req)) s ()
      { s with policy := policy } :=
    reaches_step (runs_bind (anything_call (0 : Int) (anything_call () (.done policy ()))) (.done _ ()))
  have hallowed : Reaches (enforceClientBinding req username op) s true { s with policy := policy } := by
    refine reaches_bind.mpr ⟨(), _, hregister, reaches_bind.mpr ⟨_, _, reaches_state, ?_⟩⟩
    rw [if_pos hlet]
    exact reaches_pure
  exact ⟨policy, reaches_bind.mpr ⟨true, _, hallowed, reaches_guardOr.mpr ⟨rfl, rfl⟩⟩⟩

theorem reaches_checkRequest {op denied : Bytes} {bit : UInt32} {size : Nat} :
    (∃ s', Reaches (checkRequest cfg kdf req op bit denied) s size s') ↔
      Passes cfg kdf req bit s size := by
  constructor
  · rintro ⟨s', hr⟩
    have hkept : Kept (anything : Env Unit ServerCall ServerCall.Reply) (fun _ _ => True)
        (fun _ _ => True) (fun _ => True) :=
      ⟨fun _ _ _ => trivial, fun _ _ => trivial, fun _ _ => trivial, fun _ _ => trivial,
        fun _ _ _ => trivial, fun _ => trivial, fun _ => trivial⟩
    obtain ⟨-, h⟩ := reaches_spec (checkRequest_spec hkept req op denied bit trivial) hr
    exact ⟨h.carried, h.fits, h.client, h.password, h.permission⟩
  · intro h
    obtain ⟨policy, hclient⟩ := @reaches_requireClient s req (req.get (bytes "username")) op size h.client
    let s₁ : ServerState := { s with policy := policy }
    have hpassword : Reaches (requirePassword cfg kdf (req.get (bytes "username"))
        (req.get (bytes "password")) op) s₁ () s₁ :=
      reaches_bind.mpr ⟨s₁, s₁, reaches_state, reaches_guardOr.mpr ⟨h.password, rfl⟩⟩
    have hpermission : Reaches (requirePermission (req.get (bytes "username")) bit denied) s₁ () s₁ :=
      reaches_bind.mpr ⟨s₁, s₁, reaches_state, reaches_guardOr.mpr ⟨bne_iff_ne.mpr h.permission, rfl⟩⟩
    obtain ⟨stats, hstats⟩ := exists_run (SecurityMonitor.recordLoginSuccess cfg.monitor s₁.stats
      (req.get (bytes "username")))
    have hlogin : Reaches (recordLogin cfg (req.get (bytes "username"))) s₁ () { s₁ with stats := stats } :=
      reaches_step (runs_bind hstats (.done _ ()))
    refine ⟨{ s₁ with stats := stats }, ?_⟩
    refine reaches_bind.mpr ⟨size, s, reaches_orFail.mpr ⟨h.carried, rfl⟩, ?_⟩
    refine reaches_bind.mpr ⟨(), s, reaches_guardOr.mpr ⟨decide_eq_true h.fits, rfl⟩, ?_⟩
    refine reaches_bind.mpr ⟨(), s₁, hclient, ?_⟩
    refine reaches_bind.mpr ⟨(), s₁, reaches_requireUnlocked _ op size, ?_⟩
    refine reaches_bind.mpr ⟨(), s₁, hpassword, reaches_bind.mpr ⟨(), s₁, hpermission, ?_⟩⟩
    refine reaches_bind.mpr ⟨(), _, hlogin, ?_⟩
    exact reaches_bind.mpr ⟨(), _, reaches_requireUnlocked _ _ size, reaches_pure⟩

end

/-! ## Which files are opened -/

def Reads (A : Bytes → Prop) : ServerCall → Prop
  | .readFile path => A path
  | _ => True

def decodedIfSent (text : Bytes) : Option Bytes := if text = [] then some [] else decoded text

/-- What a payload may be opened with: anything that the file of a key may hold, or what is
sent along. -/
def Keyed (req : Header) (m : KeyMaterial) : Prop :=
  if req.get (bytes "key_id") ≠ [] then ∃ file, KeyMaterial.ofBlob file = some m
  else decoded (req.get (bytes "key")) = some m.key ∧ m.key ≠ [] ∧
    decodedIfSent (req.get (bytes "iv")) = some m.iv ∧
    decodedIfSent (req.get (bytes "tag")) = some m.tag

/-- Some payload of this size gets as far as the digest: one that is no frame of its GOST cipher,
or one that opens. -/
def Digested (lib : CryptoLibrary) (req : Header) (cipher : Cipher) (size : Nat) : Prop :=
  ∃ ciphertext m, ciphertext.length = size ∧ Keyed req m ∧
    (isLegacyGost cipher ciphertext = true ∨
      (CryptoEngine.decrypt lib cipher ciphertext m {}).1 = .ok ())

section
variable {A : Bytes → Prop} {α β : Type} {s s' : ServerState} {cfg : ServerConfig}
  {lib : CryptoLibrary} {req : Header} {fileId : Bytes}

theorem reads_of_inward (c : ServerCall) (h : c.Inward) : Reads A c := by
  cases c <;> first | exact h.elim | exact trivial

theorem reads_error (message : Bytes) : Reads A (.sendHeader (errorHeader message)) := trivial

theorem reads_bind {x : Handler α} {f : α → Handler β} (hx : UsesS (Reads A) x) :
    Uses (Reads A) ((x >>= f).go s) ↔ ∀ a s', Reaches x s a s' → Uses (Reads A) ((f a).go s') :=
  usesAt_bind.trans (and_iff_right (hx s))

theorem reads_orFail {value : Option α} {message : Bytes} {f : α → Handler β} :
    Uses (Reads A) ((orFail value message >>= f).go s) ↔
      ∀ a, value = some a → Uses (Reads A) ((f a).go s) := by
  rw [reads_bind (orFail_uses reads_error value message)]
  constructor
  · exact fun h a ha => h a s (reaches_orFail.mpr ⟨ha, rfl⟩)
  · intro h a s' hr
    obtain ⟨ha, rfl⟩ := reaches_orFail.mp hr
    exact h a ha

theorem loadKey_reads {path : Bytes} : Uses (Reads A) ((loadKey path).go s) ↔ A path :=
  ⟨fun h => h.1, fun h => ⟨h, fun _ => trivial⟩⟩

theorem reaches_loadKey {path : Bytes} {found : Option KeyMaterial} :
    Reaches (loadKey path) s found s' ↔ (∃ file, Option.bind file KeyMaterial.ofBlob = found) ∧ s = s' := by
  constructor
  · intro h
    obtain ⟨file, s₁, hcall, hdone⟩ := reaches_bind.mp h
    cases hcall with
    | call _ hcall =>
      cases hcall
      cases hdone
      exact ⟨⟨file, rfl⟩, rfl⟩
  · rintro ⟨⟨file, rfl⟩, rfl⟩
    exact reaches_bind.mpr ⟨file, s, reaches_perform _ _, reaches_pure⟩

theorem loadHashRecord_reads {path : Bytes} : Uses (Reads A) ((loadHashRecord path).go s) ↔ A path :=
  ⟨fun h => h.1, fun h => ⟨h, fun _ => trivial⟩⟩

theorem decodeOrFail_reads (text message : Bytes) : UsesS (Reads A) (decodeOrFail text message) := by
  unfold decodeOrFail
  split
  · exact usesS_pure []
  · exact orFail_uses reads_error _ _

theorem reaches_decodeOrFail {text message b : Bytes} :
    Reaches (decodeOrFail text message) s b s' ↔ decodedIfSent text = some b ∧ s = s' := by
  unfold decodeOrFail decodedIfSent
  split
  · exact @reaches_orFail _ _ _ (some []) message b
  · exact reaches_orFail

theorem reaches_findKey {m : KeyMaterial} : Reaches (findKey cfg req) s m s' ↔ Keyed req m ∧ s = s' := by
  unfold findKey Keyed
  by_cases hid : req.get (bytes "key_id") ≠ []
  · rw [if_pos hid, if_pos hid, reaches_bind]
    simp only [reaches_orFail, reaches_loadKey]
    constructor
    · rintro ⟨_, s₁, ⟨⟨file, hfound⟩, rfl⟩, rfl, rfl⟩
      obtain ⟨blob, -, hblob⟩ := Option.bind_eq_some_iff.mp hfound
      exact ⟨⟨blob, hblob⟩, rfl⟩
    · rintro ⟨⟨blob, hblob⟩, rfl⟩
      exact ⟨some m, s, ⟨⟨some blob, hblob⟩, rfl⟩, rfl, rfl⟩
  · rw [if_neg hid, if_neg hid, reaches_bind]
    constructor
    · rintro ⟨key, s₁, hkey, hrest⟩
      obtain ⟨⟨⟩, s₂, hrequire, hrest⟩ := reaches_bind.mp hrest
      obtain ⟨iv, s₃, hiv, hrest⟩ := reaches_bind.mp hrest
      obtain ⟨tag, s₄, htag, hrest⟩ := reaches_bind.mp hrest
      rw [reaches_orFail] at hkey
      rw [require, reaches_guardOr, bne_iff_ne] at hrequire
      rw [reaches_decodeOrFail] at hiv htag
      cases hrest
      obtain ⟨hkey, rfl⟩ := hkey
      obtain ⟨hne, rfl⟩ := hrequire
      exact ⟨⟨hkey, hne, hiv.1, htag.1⟩, hiv.2.trans htag.2⟩
    · rintro ⟨⟨hkey, hne, hiv, htag⟩, rfl⟩
      refine ⟨m.key, s, reaches_orFail.mpr ⟨hkey, rfl⟩, ?_⟩
      refine reaches_bind.mpr ⟨(), s, reaches_guardOr.mpr ⟨bne_iff_ne.mpr hne, rfl⟩, ?_⟩
      refine reaches_bind.mpr ⟨m.iv, s, reaches_decodeOrFail.mpr ⟨hiv, rfl⟩, ?_⟩
      exact reaches_bind.mpr ⟨m.tag, s, reaches_decodeOrFail.mpr ⟨htag, rfl⟩, reaches_pure⟩

theorem findKey_reads : Uses (Reads A) ((findKey cfg req).go s) ↔
    (req.get (bytes "key_id") ≠ [] → A (keyPath cfg (req.get (bytes "key_id")))) := by
  unfold findKey
  by_cases hid : req.get (bytes "key_id") ≠ []
  · rw [if_pos hid]
    constructor
    · exact fun h _ => loadKey_reads.mp (usesAt_bind.mp h).1
    · refine fun h => usesAt_bind.mpr ⟨loadKey_reads.mpr (h hid), fun found s' _ => ?_⟩
      exact orFail_uses reads_error _ _ s'
  · rw [if_neg hid]
    refine ⟨fun _ h => absurd h hid, fun _ => ?_⟩
    refine usesS_bind (orFail_uses reads_error _ _) (fun key => ?_) s
    refine usesS_bind (require_uses reads_error _ _) fun _ => ?_
    refine usesS_bind (decodeOrFail_reads _ _) fun iv => ?_
    exact usesS_bind (decodeOrFail_reads _ _) fun tag => usesS_pure _

theorem trustedRecord_reads : Uses (Reads A) ((trustedRecord cfg fileId).go s) ↔
    (fileId ≠ [] → A (hashPath cfg fileId)) := by
  unfold trustedRecord
  constructor
  · intro h hid
    have hpass : (fileId != []) = true := bne_iff_ne.mpr hid
    have hrest := (usesAt_bind.mp h).2 () s (reaches_guardOr.mpr ⟨hpass, rfl⟩)
    exact loadHashRecord_reads.mp (usesAt_bind.mp hrest).1
  · intro h
    refine (reads_bind (require_uses reads_error _ _)).mpr fun _ s₁ hrequire => ?_
    have hpath := h (bne_iff_ne.mp (reaches_guardOr.mp hrequire).1)
    have hread : Uses (Reads A) ((loadHashRecord (hashPath cfg fileId)).go s₁) :=
      loadHashRecord_reads.mpr hpath
    refine usesAt_bind.mpr ⟨hread, fun found s₂ _ => ?_⟩
    refine usesS_bind (orFail_uses reads_error _ _) (fun trusted => ?_) s₂
    exact usesS_bind (orFail_uses reads_error _ _) fun alg => usesS_pure _

section
variable {cipher : Cipher} {ciphertext : Bytes} {m : KeyMaterial}

theorem openFile_reads : Uses (Reads A) ((openFile cfg lib fileId cipher ciphertext m).go s) ↔
    (isLegacyGost cipher ciphertext = true → fileId ≠ [] → A (hashPath cfg fileId)) := by
  unfold openFile openCiphertext
  by_cases hlegacy : isLegacyGost cipher ciphertext = true
  · rw [if_pos hlegacy]
    constructor
    · exact fun h _ => trustedRecord_reads.mp (usesAt_bind.mp (usesAt_bind.mp h).1).1
    · intro h
      have hrecord : Uses (Reads A) ((trustedRecord cfg fileId).go s) :=
        trustedRecord_reads.mpr (h hlegacy)
      refine usesAt_bind.mpr ⟨usesAt_bind.mpr ⟨hrecord, fun _ _ _ => trivial⟩, fun r s' _ => ?_⟩
      exact usesS_bind (okOrFail_uses reads_error _ _) (fun _ => usesS_pure _) s'
  · rw [if_neg hlegacy]
    refine ⟨fun _ h => absurd h hlegacy, fun _ => ?_⟩
    exact usesS_bind (usesS_pure _)
      (fun r => usesS_bind (okOrFail_uses reads_error _ _) fun _ => usesS_pure _) s

theorem reaches_openFile (hlegacy : ¬isLegacyGost cipher ciphertext = true)
    (h : (CryptoEngine.decrypt lib cipher ciphertext m {}).1 = .ok ()) :
    Reaches (openFile cfg lib fileId cipher ciphertext m) s
      (CryptoEngine.decrypt lib cipher ciphertext m {}).2.data s := by
  unfold openFile openCiphertext
  rw [if_neg hlegacy]
  refine reaches_bind.mpr ⟨_, s, reaches_pure, ?_⟩
  dsimp only
  rw [h]
  exact reaches_bind.mpr ⟨(), s, reaches_pure, reaches_pure⟩

theorem opened_of_reaches {plain : Bytes}
    (h : Reaches (openFile cfg lib fileId cipher ciphertext m) s plain s') :
    isLegacyGost cipher ciphertext = true ∨
      (CryptoEngine.decrypt lib cipher ciphertext m {}).1 = .ok () := by
  by_cases hlegacy : isLegacyGost cipher ciphertext = true
  · exact .inl hlegacy
  · unfold openFile openCiphertext at h
    rw [if_neg hlegacy] at h
    obtain ⟨r, s₁, hr, hrest⟩ := reaches_bind.mp h
    cases hr
    dsimp only at hrest
    cases hopened : (CryptoEngine.decrypt lib cipher ciphertext m {}).1 with
    | ok u => exact .inr rfl
    | error e =>
      rw [hopened] at hrest
      obtain ⟨_, _, hfail, _⟩ := reaches_bind.mp hrest
      obtain ⟨_, _, _, hthrow⟩ := reaches_bind.mp hfail
      cases hthrow

end

theorem checkDigest_reads (username hashStr plain : Bytes) :
    Uses (Reads A) ((checkDigest cfg lib username fileId hashStr plain).go s) ↔
      (fileId ≠ [] → A (hashPath cfg fileId)) := by
  unfold checkDigest
  by_cases hid : fileId = []
  · rw [if_pos hid]
    exact ⟨fun _ h => absurd hid h, fun _ => trivial⟩
  · rw [if_neg hid]
    constructor
    · exact fun h _ => loadHashRecord_reads.mp (usesAt_bind.mp h).1
    · intro h
      have hnote (record : HashRecord) :
          UsesS (Reads A) (noteMismatch username fileId hashStr record) := by
        unfold noteMismatch
        split
        · exact perform_uses trivial
        · exact usesS_pure ()
      refine usesAt_bind.mpr ⟨loadHashRecord_reads.mpr (h hid), fun found s' _ => ?_⟩
      refine usesS_bind (orFail_uses reads_error _ _) (fun record => ?_) s'
      refine usesS_bind (hnote record) fun _ => ?_
      refine usesS_bind (orFail_uses reads_error _ _) fun alg => ?_
      refine usesS_bind (okOrFail_uses reads_error _ _) fun hex => ?_
      exact usesS_guardOr (usesS_bind (perform_uses trivial) fun _ => perform_uses trivial)

theorem openRequest_reads {size : Nat} : Uses (Reads A) ((openRequest cfg lib req size).go s) ↔
    ∀ cipher, CryptoEngine.cipherFromString (req.get (bytes "cipher")) = some cipher →
      (req.get (bytes "key_id") ≠ [] → A (keyPath cfg (req.get (bytes "key_id")))) ∧
      (req.get (bytes "file_id") ≠ [] → Digested lib req cipher size →
        A (hashPath cfg (req.get (bytes "file_id")))) := by
  unfold openRequest
  dsimp only
  rw [reads_orFail]
  refine forall_congr' fun cipher => forall_congr' fun _ => ?_
  rw [reads_bind (readExact_uses reads_of_inward size)]
  constructor
  · intro h
    have hbehind (ciphertext : Bytes) (hlen : ciphertext.length = size) :=
      reads_orFail.mp (h (some ciphertext) s (reaches_readExact.mpr ⟨hlen, rfl⟩)) ciphertext rfl
    have hany := hbehind (List.replicate size 0) List.length_replicate
    refine ⟨fun hid => findKey_reads.mp (usesAt_bind.mp hany).1 hid, ?_⟩
    rintro hid ⟨ciphertext, m, hlen, hm, hgets⟩
    have hopen := (usesAt_bind.mp (hbehind ciphertext hlen)).2 m s (reaches_findKey.mpr ⟨hm, rfl⟩)
    by_cases hlegacy : isLegacyGost cipher ciphertext = true
    · exact openFile_reads.mp (usesAt_bind.mp hopen).1 hlegacy hid
    · have hcheck := (usesAt_bind.mp hopen).2 _ s (reaches_openFile hlegacy (hgets.resolve_left hlegacy))
      exact (checkDigest_reads _ _ _).mp (usesAt_bind.mp hcheck).1 hid
  · rintro ⟨hkey, hhash⟩ payload s₁ hpayload
    refine reads_orFail.mpr fun ciphertext hsome => ?_
    subst hsome
    obtain ⟨hlen, rfl⟩ := reaches_readExact.mp hpayload
    refine usesAt_bind.mpr ⟨findKey_reads.mpr hkey, fun m s₁ hm => ?_⟩
    obtain ⟨hkeyed, rfl⟩ := reaches_findKey.mp hm
    have hlegacy : isLegacyGost cipher ciphertext = true → req.get (bytes "file_id") ≠ [] → _ :=
      fun hl hid => hhash hid ⟨ciphertext, m, hlen, hkeyed, .inl hl⟩
    refine usesAt_bind.mpr ⟨openFile_reads.mpr hlegacy, fun plain s₂ hplain => ?_⟩
    have hdigest := fun hid => hhash hid ⟨ciphertext, m, hlen, hkeyed, opened_of_reaches hplain⟩
    exact usesAt_bind.mpr ⟨(checkDigest_reads _ _ plain).mpr hdigest, fun _ _ _ => trivial⟩

theorem decryptFile_reads {size : Nat} : Uses (Reads A) ((decryptFile cfg lib req size).go s) ↔
    Uses (Reads A) ((openRequest cfg lib req size).go s) := by
  have hrest (plain : Bytes) : UsesS (Reads A) (do
      sendResult (decryptedHeader plain) plain
      recordFile cfg (req.get (bytes "username")) (bytes "decrypt") plain.length
        (bytes "file_id=" ++ req.get (bytes "file_id") ++ bytes " enc_size=" ++ decimal size ++
          bytes " plain_size=" ++ decimal plain.length ++ bytes " cipher=" ++
          req.get (bytes "cipher"))) := by
    refine usesS_bind ?_ fun _ => usesS_bind ?_ fun _ => perform_uses trivial
    · refine usesS_bind (usesS_perform trivial) fun sent => ?_
      exact usesS_bind (usesS_guardOr (usesS_pure ())) fun _ => perform_uses trivial
    · exact onStats_uses reads_of_inward fun t => SecurityMonitor.recordFileOp_inward cfg.monitor t _ _ _ _
  exact usesAt_bind.trans (and_iff_left fun plain s' _ => hrest plain s')

/-- Which files a decryption opens, whatever is answered. -/
theorem handleDecrypt_reads {kdf : PasswordKdf} :
    Uses (Reads A) ((handleDecrypt cfg kdf lib req).go s) ↔ ∀ size cipher,
      Passes cfg kdf req 2 s size →
      CryptoEngine.cipherFromString (req.get (bytes "cipher")) = some cipher →
        (req.get (bytes "key_id") ≠ [] → A (keyPath cfg (req.get (bytes "key_id")))) ∧
        (req.get (bytes "file_id") ≠ [] → Digested lib req cipher size →
          A (hashPath cfg (req.get (bytes "file_id")))) := by
  unfold handleDecrypt
  rw [reads_bind (checkRequest_uses reads_error reads_of_inward cfg kdf req _ _ _)]
  constructor
  · intro h size cipher hpasses hcipher
    obtain ⟨s', hs'⟩ := reaches_checkRequest.mpr hpasses
    exact openRequest_reads.mp (decryptFile_reads.mp (h size s' hs')) cipher hcipher
  · intro h size s' hs'
    have hpasses := reaches_checkRequest.mp ⟨s', hs'⟩
    exact decryptFile_reads.mpr (openRequest_reads.mpr fun cipher => h size cipher hpasses)

/-- Whatever is opened for a request lies directly inside the directory of its kind. -/
def Confined (cfg : ServerConfig) (kdf : PasswordKdf) (lib : CryptoLibrary) (s : ServerState)
    (req : Header) : Prop :=
  Uses (Reads fun path =>
      path = keyPath cfg (req.get (bytes "key_id")) ∧ Inside cfg.keysDir (opened path) ∨
      path = hashPath cfg (req.get (bytes "file_id")) ∧ Inside cfg.hashesDir (opened path))
    ((handleDecrypt cfg kdf lib req).go s)

theorem confined_of_fits (kdf : PasswordKdf)
    (hkey : req.get (bytes "key_id") ≠ [] → Fits cfg.keysDir (req.get (bytes "key_id") ++ bytes ".bin"))
    (hhash : req.get (bytes "file_id") ≠ [] →
      Fits cfg.hashesDir (req.get (bytes "file_id") ++ bytes ".hash")) :
    Confined cfg kdf lib s req := by
  refine handleDecrypt_reads.mpr fun _ _ _ _ => ⟨fun hid => ?_, fun hid _ => ?_⟩
  · exact .inl ⟨rfl, (inside_joinPath _ _).mpr (hkey hid)⟩
  · exact .inr ⟨rfl, (inside_joinPath _ _).mpr (hhash hid)⟩

theorem fits_number {dir ending : Bytes} (hdir : 0 ∉ dir) (h0 : 0 ∉ ending) (hslash : slash ∉ ending)
    (hlong : 2 < ending.length) (number : Bytes) : Fits dir (toHex number ++ ending) := by
  have hlength : 2 < (toHex number ++ ending).length := by
    rw [List.length_append]
    omega
  apply Path.fits_of_step hdir
  · simpa [h0] using not_mem_toHex (by decide) number
  · simpa [hslash] using not_mem_toHex (by decide) number
  · rintro h
    simp [h] at hlength
  · rintro h
    rw [h] at hlength
    exact absurd hlength (by decide)
  · rintro h
    rw [h] at hlength
    exact absurd hlength (by decide)

theorem confined_of_numbers {key file : Bytes} (kdf : PasswordKdf) (hkeys : 0 ∉ cfg.keysDir)
    (hhashes : 0 ∉ cfg.hashesDir) (hkey : req.get (bytes "key_id") = toHex key)
    (hfile : req.get (bytes "file_id") = toHex file) : Confined cfg kdf lib s req := by
  apply confined_of_fits kdf
  · rw [hkey]
    exact fun _ => fits_number hkeys (by decide) (by decide) (by decide) key
  · rw [hfile]
    exact fun _ => fits_number hhashes (by decide) (by decide) (by decide) file

/-- **Which requests open files inside the two directories only.** Those that are refused before
they come to a file, and those whose numbers, with their endings, lead directly inside: they go
nowhere above, and an absolute one spells the directory. -/
theorem confined_iff (cfg : ServerConfig) (kdf : PasswordKdf) (lib : CryptoLibrary) (s : ServerState)
    (req : Header) :
    Confined cfg kdf lib s req ↔ ∀ size cipher, Passes cfg kdf req 2 s size →
      CryptoEngine.cipherFromString (req.get (bytes "cipher")) = some cipher →
        (req.get (bytes "key_id") ≠ [] →
          Fits cfg.keysDir (req.get (bytes "key_id") ++ bytes ".bin")) ∧
        (req.get (bytes "file_id") ≠ [] → Digested lib req cipher size →
          Fits cfg.hashesDir (req.get (bytes "file_id") ++ bytes ".hash")) := by
  let keyId := req.get (bytes "key_id")
  let fileId := req.get (bytes "file_id")
  -- a path of one kind is none of the other
  have hne : keyPath cfg keyId ≠ hashPath cfg fileId := keyPath_ne_hashPath cfg keyId fileId
  have hkey : (keyPath cfg keyId = keyPath cfg keyId ∧ Inside cfg.keysDir (opened (keyPath cfg keyId)) ∨
      keyPath cfg keyId = hashPath cfg fileId ∧ Inside cfg.hashesDir (opened (keyPath cfg keyId))) ↔
      Fits cfg.keysDir (keyId ++ bytes ".bin") := by
    rw [or_iff_left fun h => hne h.1, and_iff_right rfl]
    exact inside_joinPath _ _
  have hhash : (hashPath cfg fileId = keyPath cfg keyId ∧
      Inside cfg.keysDir (opened (hashPath cfg fileId)) ∨
      hashPath cfg fileId = hashPath cfg fileId ∧ Inside cfg.hashesDir (opened (hashPath cfg fileId))) ↔
      Fits cfg.hashesDir (fileId ++ bytes ".hash") := by
    rw [or_iff_right fun h => hne h.1.symm, and_iff_right rfl]
    exact inside_joinPath _ _
  unfold Confined
  rw [handleDecrypt_reads]
  refine forall₄_congr fun size cipher _ _ => and_congr (imp_congr_right fun _ => hkey) ?_
  exact imp_congr_right fun _ => imp_congr_right fun _ => hhash

end

/-! ## A key from elsewhere -/

def otherKey : Header := encryptAsked.set (bytes "key_id") (bytes "../../etc/secret")

def decryptLog (req : Header) : List Event :=
  (exec recordAnswer ((handleDecrypt fileConfig zeroKdf copyLibrary req).go bobsState) []).2

def opens (path : Bytes) : Event → Bool
  | ⟨.readFile name, _⟩ => name == path
  | _ => false

/-- A number with dots and slashes has a file opened far above the directory of keys. -/
theorem confined_other_key : ¬ Confined fileConfig zeroKdf copyLibrary bobsState otherKey ∧
    (decryptLog otherKey).any (opens (bytes "keys/../../etc/secret.bin")) = true := by
  constructor
  · intro h
    have hpasses : Passes fileConfig zeroKdf otherKey 2 bobsState 3 :=
      ⟨by decide, by decide, by decide, by decide, by decide⟩
    have hcipher : CryptoEngine.cipherFromString (otherKey.get (bytes "cipher")) = some .aes256Ctr := by decide
    rcases (handleDecrypt_reads.mp h 3 .aes256Ctr hpasses hcipher).1 (by decide) with ⟨-, hinside⟩ | ⟨hsame, -⟩
    · exact absurd ((inside_joinPath _ _).mp hinside) (by decide)
    · exact keyPath_ne_hashPath _ _ _ hsame
  · decide

end Server

end EncoderNext
