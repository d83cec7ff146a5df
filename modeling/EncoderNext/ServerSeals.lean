import EncoderNext.Exchange
import EncoderNext.PanelChange
import EncoderNext.ServerOpens

/-!
# A file is sealed

A header crosses the wire with the bytes behind it, in both directions. What the server answers to a
whole file stands for records in its store.
-/

namespace EncoderNext

open Program Program.Stateful
open Server
open Framing (Clean writable_of_clean)

/-! ## The wire -/

/-- A header with bytes behind it, as the other side reads them. -/
def Arrives (max : Nat) (h : Header) (behind : Bytes) (got : Header) (rest : Bytes) : Prop :=
  ∃ it : Iteration, Header.read max (h.serialize it ++ behind) = some (got, rest)

section
variable {max : Nat} {h got : Header} {behind rest : Bytes}

theorem lookup_of_get {k : Bytes} (hk : h.get k ≠ []) : ∃ v, h.fields.lookup k = some v := by
  cases hl : h.fields.lookup k with
  | none => simp [Header.get, hl] at hk
  | some v => exact ⟨v, rfl⟩

variable {k : Bytes} (hk : h.get k ≠ []) (ha : Arrives max h behind got rest)
include hk ha

theorem arrives_parse (hw : h.Writable) : rest = behind ∧ ∃ it, got = Header.parse (h.serialize it) := by
  obtain ⟨it, hr⟩ := ha
  obtain ⟨v, hl⟩ := lookup_of_get hk
  have hne : h.fields.entries ≠ [] := by
    intro hnil
    rw [AList.lookup, hnil] at hl
    cases hl
  rw [Header.read_serialize hw it hne] at hr
  obtain ⟨-, he⟩ := Option.ite_none_right_eq_some.mp hr
  cases he
  exact ⟨rfl, it, rfl⟩

theorem get_arrived (hw : h.Writable) {key default v : Bytes} (hg : h.get key default = v)
    (hv : trim v = v) : got.get key default = v := by
  obtain ⟨-, it, rfl⟩ := arrives_parse hk ha hw
  rw [Header.get_parse_serialize hw it]
  unfold Header.get at hg
  cases hl : h.fields.lookup key with
  | none => simpa [hl] using hg
  | some v' =>
    have hv' : v' = v := by simpa [hl] using hg
    simp [hv', hv]

theorem get_arrived_clean (hc : Clean h) (key default : Bytes) :
    got.get key default = h.get key default := by
  obtain ⟨-, it, rfl⟩ := arrives_parse hk ha (writable_of_clean hc)
  exact get_parse_clean hc it key default

end

def sentBytes (log : List Event) : Bytes :=
  log.flatMap fun ev =>
    match ev with
    | ⟨.sendData b, _⟩ => b
    | _ => []

theorem sentBytes_only {data : Bytes} {log : List Event} (h : OnlySent data log) :
    ∃ k, sentBytes log = (List.replicate k data).flatten := by
  induction log with
  | nil => exact ⟨0, rfl⟩
  | cons ev log ih =>
    obtain ⟨k, hk⟩ := ih fun e he => h e (List.mem_cons_of_mem _ he)
    obtain ⟨c, r⟩ := ev
    have hcons : sentBytes (⟨c, r⟩ :: log) = sentBytes [⟨c, r⟩] ++ sentBytes log := by
      simp [sentBytes]
    by_cases hc : ∃ b, c = .sendData b
    · obtain ⟨b, hb⟩ := hc
      have hdata : b = data := h _ List.mem_cons_self b hb
      refine ⟨k + 1, ?_⟩
      subst hb
      rw [hcons, hk, hdata, List.replicate_succ, List.flatten_cons]
      simp [sentBytes]
    · refine ⟨k, ?_⟩
      have hnil : sentBytes [⟨c, r⟩] = [] := by
        cases c <;> first | rfl | exact absurd ⟨_, rfl⟩ hc
      rw [hcons, hk, hnil, List.nil_append]

theorem sent_whole {data sent rest : Bytes} {log : List Event} (h : OnlySent data log)
    (hs : sent <+: rest) (hr : rest = sentBytes log) (hlen : sent.length = data.length) : sent = data := by
  obtain ⟨k, hk⟩ := sentBytes_only h
  rw [hr, hk] at hs
  cases k with
  | zero =>
    have hnil : sent = [] := by simpa using hs
    rw [hnil] at hlen
    rw [hnil, List.eq_nil_of_length_eq_zero hlen.symm]
  | succ k =>
    rw [List.replicate_succ, List.flatten_cons] at hs
    have hdata : sent <+: data := List.prefix_of_prefix_length_le hs (List.prefix_append _ _) hlen.le
    exact hdata.eq_of_length hlen

def Replies (cfg : ServerConfig) (kdf : PasswordKdf) (lib : CryptoLibrary)
    (env : Bytes → Env StoreWorld ServerCall ServerCall.Reply) (files : Bytes → Option Bytes)
    (w : StoreWorld) (told : Header → Prop) : ClientCore.Peer := fun request payload resp rest =>
  ∃ (req h : Header) (got : Bytes) (s : ServerState) (before after : List Event) (r : Bool),
    Arrives cfg.maxHeaderBytes request payload req got ∧
    Visits (env got) ((handleRequest cfg kdf lib false req).go s) { files := files } w ∧
    w.log = before ++ ⟨.sendHeader h, r⟩ :: after ∧ told h ∧ Arrives 65536 h (sentBytes after) resp rest

/-! ## A file is encrypted -/

namespace Server

def served (cfg : ServerConfig) (payload : Bytes) : Env StoreWorld ServerCall ServerCall.Reply :=
  fun w c r u => sound cfg w c r u ∧ Channel payload c r

/-- The ok replies of a session that leaves this store. -/
def encrypts (cfg : ServerConfig) (kdf : PasswordKdf) (lib : CryptoLibrary) (store : StoreWorld) :
    ClientCore.Peer := fun request payload resp rest =>
  ∃ files, Replies cfg kdf lib (served cfg) files store (fun h => h.get (bytes "status") = bytes "ok")
    request payload resp rest

def decrypts (cfg : ServerConfig) (kdf : PasswordKdf) (lib : CryptoLibrary)
    (files : Bytes → Option Bytes) : ClientCore.Peer := fun request payload resp rest =>
  ∃ store, Replies cfg kdf lib (shared cfg) files store (fun _ => True) request payload resp rest

variable {cfg : ServerConfig} {kdf : PasswordKdf} {lib : CryptoLibrary} {req : Header}
  {s : ServerState} {payload : Bytes} {w w' : StoreWorld}

theorem received_served (hv : Visits (served cfg payload) ((handleEncrypt cfg kdf lib req).go s) w w')
    (hlog : w.log = []) {plain : Bytes} {log : List Event} (hsub : log ⊆ w'.log)
    (hr : Received log payload.length plain) : plain = payload := by
  rcases hr with ⟨hsize, hnil⟩ | ⟨v, hm, hplain⟩
  · rw [hnil, List.eq_nil_of_length_eq_zero hsize]
  let Heard (w : StoreWorld) : Prop := ∀ ev ∈ w.log, Channel payload ev.1 ev.2
  have hstep (w : StoreWorld) (c : ServerCall) (r : c.Reply) (u : StoreWorld) (_ : True) (h : Heard w)
      (he : served cfg payload w c r u) : Heard u := by
    intro ev hev
    rw [he.1.1.1] at hev
    rcases mem_snoc hev with hev | hev
    · exact h ev hev
    · exact hev ▸ he.2
  have hstart : Heard w := by simp [Heard, hlog]
  have hall : Heard w' := visits_of_wp (wp_of_uses hstep (uses_true _) hstart) hv
  have hgot : Option.map Vector.toList (some v) =
      if payload.length ≤ payload.length then some (payload.take payload.length) else none :=
    hall _ (hsub hm)
  rw [if_pos le_rfl, List.take_length, Option.map_some] at hgot
  exact hplain.trans (Option.some.inj hgot)

/-- What an ok reply to a whole payload stands for. -/
theorem encrypt_answered (hv : Visits (served cfg payload) ((handleEncrypt cfg kdf lib req).go s) w w')
    (hlog : w.log = []) {h : Header} {r : Bool} {before after : List Event}
    (hsplit : w'.log = before ++ ⟨.sendHeader h, r⟩ :: after) (hok : h.get (bytes "status") = bytes "ok")
    (hsize : req.get (bytes "file_size") (bytes "0") = decimal payload.length) :
    ∃ e l, h = encryptedHeader req e ∧ e.plain = payload ∧ payload.length < 2 ^ 64 ∧
      OnlySent e.result.data after ∧ Recorded cfg lib req payload.length e l w'.files := by
  have hm : (⟨.sendHeader h, r⟩ : Event) ∈ w'.log := by simp [hsplit]
  have hhonours : wp (served cfg payload) (fun _ _ => True) (Honoured cfg lib req)
      ((handleEncrypt cfg kdf lib req).go s) w := by
    refine wp_env (fun w c r u he => he.1) (wp_post (handleEncrypt_honours hlog) ?_)
    exact fun _ _ _ _ => trivial
  obtain ⟨size, e, l, t, hheader, hp⟩ := promised_of_mem (visits_of_wp hhonours hv) hm hok
  have hcarried := hp.carried
  rw [hsize, stoull_decimal] at hcarried
  obtain ⟨hsmall, hcarried⟩ := Option.ite_none_right_eq_some.mp hcarried
  cases hcarried
  have hl : (⟨.sendHeader h, r⟩ : Event) ∉ l := fun hm => hp.first h r hm hok
  have ht : (⟨.sendHeader h, r⟩ : Event) ∉ t := fun hm => hp.last h r hm hok
  have hlogs := (hheader ▸ hp.log).symm.trans hsplit
  obtain ⟨-, -, hafter⟩ := (List.append_cons_inj_of_notMem hl ht).mp hlogs
  have hsub : l ⊆ w'.log := by simp [hp.log]
  have hplain := received_served hv hlog hsub hp.recorded.received
  exact ⟨e, l, hheader, hplain, hsmall, hafter ▸ hp.result, hp.recorded⟩

theorem handleRequest_encrypt (h : req.get (bytes "op") = bytes "encrypt") :
    handleRequest cfg kdf lib false req = handleEncrypt cfg kdf lib req := by
  unfold handleRequest
  dsimp only
  rw [h, if_neg (by decide), if_neg (by decide), if_pos rfl]

theorem handleRequest_decrypt (h : req.get (bytes "op") = bytes "decrypt") :
    handleRequest cfg kdf lib false req = handleDecrypt cfg kdf lib req := by
  unfold handleRequest
  dsimp only
  rw [h, if_neg (by decide), if_neg (by decide), if_neg (by decide), if_pos rfl]

theorem trimmed_hex {text : Bytes} (h : text.all isHexDigit = true) : Trimmed text :=
  trimmed_plain fun c hc => WifiRpc.plain_of_hex c (List.all_eq_true.mp h c hc)

theorem trimmed_decimal (n : Nat) : Trimmed (decimal n) :=
  trimmed_plain fun c hc => (digit_plain c (decimal_digits n c hc)).2.1

def resultOf (storage : Bytes) (e : Encryption) : ClientCore.EncryptResult where
  fileId := e.fileId
  keyId := e.keyId
  hashValue := e.hex
  key := if storage = bytes "client" then e.result.key else []
  iv := e.result.iv
  tag := e.result.tag

theorem drawn_ne_nil {log : List Event} {id : Bytes} (h : Drawn log id) : id ≠ [] ∧ Trimmed id := by
  obtain ⟨v, -, rfl⟩ := h
  refine ⟨?_, trimmed_hex (toHex_all _)⟩
  rw [← List.length_pos_iff, length_toHex, Vector.length_toList]
  decide

section
variable {size : Nat} {e : Encryption} {l : List Event} {files : Bytes → Option Bytes}
  (hr : Recorded cfg lib req size e l files)
include hr

theorem keyId_trimmed : Trimmed e.keyId := by
  have hkey := hr.key
  by_cases hs : keyStorage req = bytes "server"
  · rw [if_pos hs] at hkey
    exact (drawn_ne_nil hkey.1).2
  · rw [if_neg hs] at hkey
    rw [hkey]
    exact trimmed_plain (by simp)

theorem clean_encryptedHeader (hc : Trimmed (req.get (bytes "cipher"))) (hh : Trimmed (req.get (bytes "hash"))) :
    Clean (encryptedHeader req e) := by
  unfold encryptedHeader
  dsimp only
  apply clean_setUnlessEmpty _ (by decide) (trimmed_base64 _)
  apply clean_setUnlessEmpty _ (by decide) (trimmed_base64 _)
  apply clean_setIf _ (by decide) (trimmed_base64 _)
  apply clean_setUnlessEmpty _ (by decide) (keyId_trimmed hr)
  apply clean_set _ (by decide) (trimmed_decimal _)
  apply clean_set _ (by decide) (trimmed_hex (CryptoEngine.hash_hex lib hr.digest).2)
  apply clean_set _ (by decide) (drawn_ne_nil hr.file).2
  apply clean_set _ (by decide) hh
  apply clean_set _ (by decide) hc
  exact clean_set clean_empty (by decide) ⟨by decide, by decide⟩

theorem storedFile_of_recorded {files' : Bytes → Option Bytes} (hl : Later cfg files files') :
    StoredFile cfg lib (hashRecord req e.hex) e (keyStorage req) files' := by
  obtain ⟨hne, hcolon⟩ := plain_hashName hr.alg
  obtain ⟨hhexNe, hhexAll⟩ := CryptoEngine.hash_hex lib hr.digest
  have hhexColon : byte ':' ∉ e.hex := by
    intro hm
    have hdigit := List.all_eq_true.mp hhexAll _ hm
    revert hdigit
    decide
  have hkey (hs : keyStorage req = bytes "server") : Drawn l e.keyId ∧
      files (keyPath cfg e.keyId) = some e.result.toKeyMaterial.blob := by
    have hkey := hr.key
    rwa [if_pos hs] at hkey
  constructor
  · exact hr.used
  · exact hr.alg
  · exact hr.digest
  · exact (drawn_ne_nil hr.file).1
  · exact fun hs => (drawn_ne_nil (hkey hs).1).1
  · exact ⟨_, later_keeps hl hr.record, HashRecord.ofFile_payload hne hhexNe hcolon hhexColon⟩
  · intro hs
    exact ⟨_, later_keeps hl (hkey hs).2, KeyMaterial.ofBlob_blob (CryptoEngine.fits_of_encrypted hr.used)⟩

end

theorem trim_between {a b : UInt8} (ha : isBlank a = false) (hb : isBlank b = false) (mid : Bytes) :
    trim (a :: (mid ++ [b])) = a :: (mid ++ [b]) := by
  have hlast : a :: (mid ++ [b]) = (a :: mid) ++ [b] := rfl
  rw [trim, List.dropWhile_cons_of_neg (by simp [ha]), hlast]
  exact List.rdropWhile_concat_neg _ _ _ (by simp [hb])

theorem trimmed_refusal {size : Nat} {denied message : Bytes} (hd : Trimmed denied)
    (h : Refusal cfg size denied message) : Trimmed message := by
  refine ⟨lf_not_mem_refusal hd.1 h, ?_⟩
  cases h with
  | tooLarge _ => decide
  | client => decide
  | locked remaining =>
    have hfront : bytes "Account locked. Try again in " =
        byte 'A' :: bytes "ccount locked. Try again in " := by decide
    have hend : bytes "s" = [byte 's'] := by decide
    rw [lockedMessage, hfront, hend, List.append_assoc, List.cons_append, ← List.append_assoc]
    exact trim_between (by decide) (by decide) _
  | password => decide
  | permission => exact hd.2

theorem clean_errorHeader {message : Bytes} (h : Trimmed message) : Clean (errorHeader message) :=
  clean_set (clean_set clean_empty (by decide) ⟨by decide, by decide⟩) (by decide) h

theorem clean_decryptedHeader (plain : Bytes) : Clean (decryptedHeader plain) :=
  clean_set (clean_set clean_empty (by decide) ⟨by decide, by decide⟩) (by decide) (trimmed_decimal _)

end Server

end EncoderNext
