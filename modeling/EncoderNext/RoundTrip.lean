import EncoderNext.ServerSeals

/-!
# An encrypted file opens again

The client and the server over the wire: a file that was encrypted is opened later, by any client, in
any later state of the server's store. Six encodings are crossed on the way.
-/

namespace EncoderNext

open Program Program.Stateful
open Server
open Framing (Clean writable_of_clean)

namespace ClientCore

variable {cfg : ServerConfig} {kdf : PasswordKdf} {lib : CryptoLibrary} {client : ClientConfig}
  {p : EncryptParams} {content sent : Bytes} {result : EncryptResult} {store : StoreWorld}

/-- The key stays with one of the two. -/
def KeyKept (client : ClientConfig) (p : EncryptParams) : Prop :=
  (keyStorageOf client p).1 = bytes "server" ∨ (keyStorageOf client p).1 = bytes "client"

theorem responseField_encode (b : Bytes) : responseField (base64Encode b) = some b := by
  by_cases hb : b = []
  · simp [responseField, hb, base64Encode]
  · simp [responseField, encode_ne_nil hb, decoded_encode]

section
variable {max : Nat} {req : Header} {got : Bytes} (hname : lf ∉ fileName p.filePath) (hmode : KeyKept client p)
  (ha : Arrives max (encryptRequest client p content) content req got)
include hname

theorem writable_encryptRequest : (encryptRequest client p content).Writable := by
  intro key value hv
  rcases fields_request client p content key value hv with ⟨hk, hvalue⟩ | ⟨-, hk, hvalue⟩
  · rw [hk, hvalue]
    exact ⟨by decide, hname⟩
  · exact ⟨hk, hvalue⟩

include hmode ha

theorem encryptRequest_arrives : got = content ∧ req.get (bytes "op") = bytes "encrypt" ∧
    req.get (bytes "cipher") = CryptoEngine.cipherToString p.cipher ∧
    req.get (bytes "hash") = CryptoEngine.hashToString p.hash ∧
    req.get (bytes "file_size") (bytes "0") = decimal content.length ∧
    keyStorage req = (keyStorageOf client p).1 := by
  have hw : (encryptRequest client p content).Writable := writable_encryptRequest hname
  have hsent {k v : Bytes} (hl : (encryptRequest client p content).fields.lookup k = some v)
      (default : Bytes) : (encryptRequest client p content).get k default = v := by
    simp [Header.get, hl]
  have hop : (encryptRequest client p content).fields.lookup (bytes "op") = some (bytes "encrypt") := by
    rw [lookup_request]
    rfl
  have hk : (encryptRequest client p content).get (bytes "op") ≠ [] := by
    rw [hsent hop]
    decide
  have hget {k v : Bytes} (hl : (encryptRequest client p content).fields.lookup k = some v)
      (hv : trim v = v) (default : Bytes) : req.get k default = v :=
    get_arrived hk ha hw (hsent hl default) hv
  refine ⟨(arrives_parse hk ha hw).1, ?_, ?_, ?_, ?_, ?_⟩
  · exact hget hop (by decide) _
  · exact hget (by rw [lookup_request]; rfl) (trimmed_cipher p.cipher).2 _
  · exact hget (by rw [lookup_request]; rfl) (trimmed_hash p.hash).2 _
  · exact hget (by rw [lookup_request]; rfl) (trimmed_decimal _).2 _
  · refine hget (by rw [lookup_request]; rfl) ?_ _
    rcases hmode with hs | hc
    · rw [hs]
      decide
    · rw [hc]
      decide

end

/-- **What the client is told of a file is so.** -/
theorem sealed_recorded (hname : lf ∉ fileName p.filePath) (hmode : KeyKept client p)
    (h : Sealed (encrypts cfg kdf lib store) (jobOf client p) content result sent) :
    ∃ req e l, keyStorage req = (keyStorageOf client p).1 ∧ e.plain = content ∧ e.cipher = p.cipher ∧
      content.length < 2 ^ 64 ∧ sent = e.result.data ∧ sent.length < 2 ^ 64 ∧
      result = resultOf (keyStorageOf client p).1 e ∧
      Recorded cfg lib req content.length e l store.files := by
  obtain ⟨resp, rest, ⟨files, hreplies⟩, hsize, hprefix, htells⟩ := h.answered
  obtain ⟨req, h, got, s, before, after, r, hreq, hv, hlog, hok, hresp⟩ := hreplies
  obtain ⟨hgot, hop, hcipher, hhash, hcarried, hstorage⟩ := encryptRequest_arrives hname hmode hreq
  rw [handleRequest_encrypt hop, hgot] at hv
  obtain ⟨e, l, hheader, hplain, hsmall, honly, hr⟩ := encrypt_answered hv rfl hlog hok hcarried
  have hclean : Clean (encryptedHeader req e) :=
    clean_encryptedHeader hr (hcipher ▸ trimmed_cipher _) (hhash ▸ trimmed_hash _)
  rw [hheader] at hok hresp
  have hk : (encryptedHeader req e).get (bytes "status") ≠ [] := by
    rw [hok]
    decide
  have hrest := (arrives_parse hk hresp (writable_of_clean hclean)).1
  -- each field of the answer comes back as it was put in
  have hget (key : Bytes) := (get_arrived_clean hk hresp hclean key []).trans (get_encryptedHeader req e key)
  have hencSize := hget (bytes "enc_size")
  have hfileId := hget (bytes "file_id")
  have hkeyId := hget (bytes "key_id")
  have hvalue := hget (bytes "hash_value")
  have hkey := hget (bytes "key")
  have hiv := hget (bytes "iv")
  have htag := hget (bytes "tag")
  simp +decide only [false_and, true_and, if_false, if_true] at hencSize hfileId hkeyId hvalue hkey hiv htag
  rw [unlessEmpty (f := base64Encode) rfl] at hiv htag
  rw [unlessEmpty (f := fun v => v) rfl] at hkeyId
  rw [announced, hencSize, if_pos (decimal_ne_nil _), stoull_decimal] at hsize
  obtain ⟨hsentSmall, hlen⟩ := Option.ite_none_right_eq_some.mp hsize
  have hlen : e.result.data.length = sent.length := Option.some.inj hlen
  have hsent := sent_whole honly hprefix hrest hlen.symm
  have hcipher' : e.cipher = p.cipher := by
    have h := hr.cipher
    rw [hcipher, (CryptoEngine.cipherToString_spec p.cipher).1] at h
    exact (Option.some.inj h).symm
  refine ⟨req, e, l, hstorage, hplain, hcipher', hsmall, hsent, hlen ▸ hsentSmall, ?_, hr⟩
  have hkey' : responseField (if keyStorage req = bytes "client" then base64Encode e.result.key else []) =
      some (if (keyStorageOf client p).1 = bytes "client" then e.result.key else []) := by
    rw [hstorage]
    by_cases hc : (keyStorageOf client p).1 = bytes "client"
    · simp [hc, responseField_encode]
    · simp [hc, responseField]
  have hk' := htells.key
  have hi' := htells.iv
  have ht' := htells.tag
  rw [hkey, hkey'] at hk'
  rw [hiv, responseField_encode] at hi'
  rw [htag, responseField_encode] at ht'
  cases result
  simp only [resultOf, EncryptResult.mk.injEq]
  exact ⟨htells.fileId.trans hfileId, htells.keyId.trans hkeyId, htells.hashValue.trans hvalue,
    (Option.some.inj hk').symm, (Option.some.inj hi').symm, (Option.some.inj ht').symm⟩

/-! ## A file is opened -/

section
variable {m : Metadata} {ciphertext : Bytes} {opening : DecryptParams}

theorem get_decryptRequest (k default : Bytes) :
    (decryptRequest client opening m ciphertext).get k default =
      if k = bytes "key_id" ∧ m.keyStorage = bytes "server" then m.keyId
      else if k = bytes "tag" ∧ ¬ m.keyStorage = bytes "server" ∧ m.tag ≠ [] then base64Encode m.tag
      else if k = bytes "iv" ∧ ¬ m.keyStorage = bytes "server" ∧ m.iv ≠ [] then base64Encode m.iv
      else if k = bytes "key" ∧ ¬ m.keyStorage = bytes "server" then base64Encode m.key
      else if k = bytes "file_id" ∧ m.fileId ≠ [] then m.fileId
      else if k = bytes "file_size" then decimal ciphertext.length
      else if k = bytes "hash" then CryptoEngine.hashToString m.hash
      else if k = bytes "cipher" then CryptoEngine.cipherToString m.cipher
      else if k = bytes "client_host" then client.hostLabel.1
      else if k = bytes "client_id" then client.clientId.1
      else if k = bytes "password" then opening.password.1
      else if k = bytes "username" then opening.username.1
      else if k = bytes "op" then bytes "decrypt" else default := by
  unfold decryptRequest
  by_cases hs : m.keyStorage = bytes "server"
  · simp only [hs, if_true, Header.get_set, get_setUnlessEmpty, and_true, not_true, false_and, and_false,
      if_false]
    rfl
  · simp only [hs, if_false, Header.get_set, get_setUnlessEmpty, and_false, not_false_eq_true, true_and,
      and_true]
    rfl

theorem writable_setUnlessEmpty {h : Header} {key value encoded : Bytes} (hw : h.Writable)
    (hk : Header.keyOk key = true) (hv : lf ∉ encoded) :
    (setUnlessEmpty h key value encoded).Writable := by
  unfold setUnlessEmpty
  by_cases he : value = []
  · simpa [he] using hw
  · simpa [he] using Header.writable_set hw hk hv

theorem writable_decryptRequest (hfile : lf ∉ m.fileId) (hkey : lf ∉ m.keyId) :
    (decryptRequest client opening m ciphertext).Writable := by
  have hbase : (setUnlessEmpty ((((((((Header.set {} (bytes "op") (bytes "decrypt")).set (bytes "username")
      opening.username.1).set (bytes "password") opening.password.1).set (bytes "client_id")
      client.clientId.1).set (bytes "client_host") client.hostLabel.1).set (bytes "cipher")
      (CryptoEngine.cipherToString m.cipher)).set (bytes "hash") (CryptoEngine.hashToString m.hash)).set
      (bytes "file_size") (decimal ciphertext.length)) (bytes "file_id") m.fileId m.fileId).Writable := by
    apply writable_setUnlessEmpty _ (by decide) hfile
    apply Header.writable_set _ (by decide) (trimmed_decimal _).1
    apply Header.writable_set _ (by decide) (trimmed_hash _).1
    apply Header.writable_set _ (by decide) (trimmed_cipher _).1
    apply Header.writable_set _ (by decide) client.hostLabel.2
    apply Header.writable_set _ (by decide) client.clientId.2
    apply Header.writable_set _ (by decide) opening.password.2
    apply Header.writable_set _ (by decide) opening.username.2
    exact Header.writable_set Header.writable_empty (by decide) (by decide)
  unfold decryptRequest
  by_cases hs : m.keyStorage = bytes "server"
  · simp only [hs, if_true]
    exact Header.writable_set hbase (by decide) hkey
  · simp only [hs, if_false]
    apply writable_setUnlessEmpty _ (by decide) (trimmed_base64 _).1
    apply writable_setUnlessEmpty _ (by decide) (trimmed_base64 _).1
    exact Header.writable_set hbase (by decide) (trimmed_base64 _).1

end

theorem decryptRequest_arrives {opening : DecryptParams} {q : EncryptJob} {e : Encryption} {max : Nat}
    {req : Header} {got : Bytes} (hmode : q.keyStorage = bytes "server" ∨ q.keyStorage = bytes "client")
    (hcipher : e.cipher = q.cipher) (hfileId : Trimmed e.fileId) (hkeyId : Trimmed e.keyId)
    (hsmall : e.result.data.length < 2 ^ 64)
    (ha : Arrives max (decryptRequest client opening (metadataOf q (resultOf q.keyStorage e)) e.result.data)
      e.result.data req got) :
    got = e.result.data ∧ req.get (bytes "op") = bytes "decrypt" ∧ AsksFor req e q.keyStorage := by
  have hw : (decryptRequest client opening (metadataOf q (resultOf q.keyStorage e)) e.result.data).Writable :=
    writable_decryptRequest hfileId.1 hkeyId.1
  have hsent (k default : Bytes) := @get_decryptRequest client (metadataOf q (resultOf q.keyStorage e))
    e.result.data opening k default
  have hop := hsent (bytes "op") []
  have hcip := hsent (bytes "cipher") []
  have hsize := hsent (bytes "file_size") (bytes "0")
  have hfile := hsent (bytes "file_id") []
  have hnumber := hsent (bytes "key_id") []
  have hkey := hsent (bytes "key") []
  have hiv := hsent (bytes "iv") []
  have htag := hsent (bytes "tag") []
  simp +decide only [false_and, true_and, if_false, if_true] at hop hcip hsize hfile hnumber hkey hiv htag
  rw [unlessEmpty (f := fun v => v) rfl] at hfile
  have hk : (decryptRequest client opening (metadataOf q (resultOf q.keyStorage e)) e.result.data).get
      (bytes "op") ≠ [] := by
    rw [hop]
    decide
  -- no value loses a blank on the way
  have hget {k default v : Bytes} (hg : (decryptRequest client opening (metadataOf q (resultOf q.keyStorage e))
      e.result.data).get k default = v) (hv : Trimmed v) : req.get k default = v :=
    get_arrived hk ha hw hg hv.2
  refine ⟨(arrives_parse hk ha hw).1, hget hop ⟨by decide, by decide⟩, ?_⟩
  constructor
  · rw [hget hcip (trimmed_cipher _), (CryptoEngine.cipherToString_spec _).1, hcipher]
    rfl
  · exact hget hfile hfileId
  · rw [hget hsize (trimmed_decimal _), stoull_decimal, if_pos hsmall]
  · exact hmode
  · intro hs
    have hs' : (metadataOf q (resultOf q.keyStorage e)).keyStorage = bytes "server" := hs
    rw [if_pos hs'] at hnumber
    exact hget hnumber hkeyId
  · intro hc
    have hs : ¬ (metadataOf q (resultOf q.keyStorage e)).keyStorage = bytes "server" := by
      show ¬ q.keyStorage = bytes "server"
      rw [hc]
      decide
    have hm : (metadataOf q (resultOf q.keyStorage e)).key = e.result.key := by
      simp [metadataOf, resultOf, hc]
    simp only [hs, if_false, not_false_eq_true, if_true, true_and] at hnumber hkey hiv htag
    rw [hm] at hkey
    rw [unlessEmpty (f := base64Encode) rfl] at hiv htag
    exact ⟨hget hnumber (trimmed_plain (by simp)), hget hkey (trimmed_base64 _),
      hget hiv (trimmed_base64 _), hget htag (trimmed_base64 _)⟩

def Refused (cfg : ServerConfig) (size : Nat) (resp : Header) : Prop :=
  resp.get (bytes "status") = bytes "error" ∧
    Refusal cfg size (bytes "Decryption is not allowed for this account") (messageOf resp)

theorem decrypts_answer (hinv : CryptoEngine.Inverts lib) {opening : DecryptParams} {q : EncryptJob}
    {e : Encryption} {record : HashRecord} {files : Bytes → Option Bytes} {resp : Header} {rest : Bytes}
    (hf : StoredFile cfg lib record e q.keyStorage files)
    (hmode : q.keyStorage = bytes "server" ∨ q.keyStorage = bytes "client")
    (hcipher : e.cipher = q.cipher) (hfileId : Trimmed e.fileId) (hkeyId : Trimmed e.keyId)
    (hsmall : e.result.data.length < 2 ^ 64) (hplain : e.plain.length < 2 ^ 64)
    (ha : decrypts cfg kdf lib files (decryptRequest client opening
      (metadataOf q (resultOf q.keyStorage e)) e.result.data) e.result.data resp rest) :
    (e.result.data.length ≤ cfg.maxFileBytes ∧ resp.get (bytes "status") = bytes "ok" ∧
      announced resp = some e.plain.length ∧
      ∀ out, out <+: rest → out.length = e.plain.length → out = e.plain) ∨
    announced resp = some 0 ∧ Refused cfg e.result.data.length resp := by
  obtain ⟨store, req, h, got, s, before, after, r, hreq, hv, hlog, -, hresp⟩ := ha
  obtain ⟨hgot, hop, hasks⟩ := decryptRequest_arrives hmode hcipher hfileId hkeyId hsmall hreq
  rw [handleRequest_decrypt hop, hgot] at hv
  have hstart : Ready cfg e.result.data.length e.plain files { files := files } :=
    ⟨by simp, fun _ _ hb => hb⟩
  -- every call of the session so far is fine
  have hready := visits_of_wp (handleDecrypt_opens hinv hf hasks s _ hstart) hv
  have hfine := hready.fine ⟨.sendHeader h, r⟩ (by simp [hlog])
  rcases hfine with ⟨hfits, hh⟩ | ⟨message, hh, hm⟩
  · left
    rw [hh] at hresp
    have hclean := clean_decryptedHeader e.plain
    have hstatus : (decryptedHeader e.plain).get (bytes "status") = bytes "ok" := by
      rw [decryptedHeader, Header.get_set, if_neg (by decide), Header.get_set_self]
    have hk : (decryptedHeader e.plain).get (bytes "status") ≠ [] := by
      rw [hstatus]
      decide
    have hget := get_arrived_clean hk hresp hclean
    have hrest := (arrives_parse hk hresp (writable_of_clean hclean)).1
    refine ⟨hfits, (hget _ _).trans hstatus, ?_, fun out hout hlen => ?_⟩
    · have henc : (decryptedHeader e.plain).get (bytes "enc_size") = [] := by
        rw [decryptedHeader, Header.get_set, if_neg (by decide), Header.get_set, if_neg (by decide)]
        rfl
      have hsize : (decryptedHeader e.plain).get (bytes "plain_size") = decimal e.plain.length := by
        rw [decryptedHeader, Header.get_set_self]
      rw [announced, hget, hget, henc, hsize, if_neg (by simp), if_pos (decimal_ne_nil _), stoull_decimal,
        if_pos hplain]
    · refine sent_whole (fun ev hev data hdata => ?_) hout hrest hlen
      have hev' : ev ∈ store.log := by simp [hlog, hev]
      have hfine := hready.fine ev hev'
      rw [hdata] at hfine
      exact hfine
  · right
    rw [hh] at hresp
    have hclean := clean_errorHeader (trimmed_refusal ⟨by decide, by decide⟩ hm)
    have hstatus : (errorHeader message).get (bytes "status") = bytes "error" := by
      rw [errorHeader, Header.get_set, if_neg (by decide), Header.get_set_self]
    have hk : (errorHeader message).get (bytes "status") ≠ [] := by
      rw [hstatus]
      decide
    have hget := get_arrived_clean hk hresp hclean
    have hsize (key : Bytes) (hs : key ≠ bytes "status") (hm : key ≠ bytes "message") :
        resp.get key = [] := by
      rw [hget, errorHeader, Header.get_set, if_neg hm, Header.get_set, if_neg hs]
      rfl
    refine ⟨?_, (hget _ _).trans hstatus, ?_⟩
    · rw [announced, hsize _ (by decide) (by decide), hsize _ (by decide) (by decide)]
      simp
    rw [messageOf, hget, errorHeader, Header.get_set_self]
    exact hm

theorem length_sealed (hlen : CryptoEngine.Lengths lib) (hname : lf ∉ fileName p.filePath)
    (hmode : KeyKept client p)
    (hsealed : Sealed (encrypts cfg kdf lib store) (jobOf client p) content result sent) :
    sent.length = CryptoEngine.sealedSize lib p.cipher content.length := by
  obtain ⟨req, x, l, -, hplain, hcipher, -, hsent, -, -, hr⟩ := sealed_recorded hname hmode hsealed
  rw [hsent, CryptoEngine.length_encrypted hlen hr.used, hcipher, hplain]

/-- What `decrypt_file` comes to, asked for a ciphertext of this size. -/
inductive Reopened (cfg : ServerConfig) (p : EncryptParams) (content : Bytes) (size : Nat)
    (log : List ClientEvent) : Except ClientEnding DecryptResult → Prop
  | opened {d : DecryptResult} (hfits : size ≤ cfg.maxFileBytes) (hdata : d.data = content)
      (hcipher : d.cipher = p.cipher) (hhash : d.hash = p.hash) : Reopened cfg p content size log (.ok d)
  | failed {ending : ClientEnding} {ev : ClientEvent} (hm : ev ∈ log) (he : endingOf ev = some ending) :
      Reopened cfg p content size log (.error ending)
  | refused {resp : Header} (hm : heard resp ∈ log) (hr : Refused cfg size resp) :
      Reopened cfg p content size log (.error (.failed (messageOf resp)))

theorem reopened (hinv : CryptoEngine.Inverts lib) (hname : lf ∉ fileName p.filePath)
    (hmode : KeyKept client p)
    (hsealed : Sealed (encrypts cfg kdf lib store) (jobOf client p) content result sent)
    {files : Bytes → Option Bytes} (hlater : Later cfg store.files files) {it : Iteration}
    {real : Bytes → Bytes} {after : Bytes → Option Bytes} {client' : ClientConfig} {e : Endpoint}
    {opening : DecryptParams}
    (hfile : after (real opening.filePath) = some (container it (jobOf client p) result sent))
    {out : Except ClientEnding DecryptResult} {z : Link}
    (hdec : Runs (linked (decrypts cfg kdf lib files) real)
      ((decryptFile client' e opening).go ()) { content := after } (out, ()) z) :
    Reopened cfg p content sent.length z.log out := by
  obtain ⟨req, x, l, hstorage, hplain, hcipher, hsmall, hsent, hsentSmall, hresult, hr⟩ :=
    sealed_recorded hname hmode hsealed
  have hfileId := (drawn_ne_nil hr.file).2
  have hkeyId := keyId_trimmed hr
  have hvalue : Trimmed x.hex := trimmed_hex (CryptoEngine.hash_hex lib hr.digest).2
  have hmode' : Trimmed (keyStorageOf client p).1 := by
    rcases hmode with hs | hc
    · rw [hs]
      exact ⟨by decide, by decide⟩
    · rw [hc]
      exact ⟨by decide, by decide⟩
  rw [hsent] at hsentSmall hfile ⊢
  rw [hresult] at hfile
  -- what the first session recorded is what the second one finds
  have hstored := storedFile_of_recorded hr hlater
  rw [hstorage] at hstored
  have hs : Storable (jobOf client p) (resultOf (keyStorageOf client p).1 x) :=
    ⟨hmode', hfileId, hkeyId, hvalue⟩
  -- the file tells the key or the number of it
  have ho : Openable (metadataOf (jobOf client p) (resultOf (keyStorageOf client p).1 x)) := by
    rcases hmode with hserver | hclient
    · exact .inl ⟨hserver, hstored.keyId hserver⟩
    · refine .inr ⟨hclient, ?_⟩
      have hkey := CryptoEngine.key_ne_nil_of_encrypted hr.used
      have hjob : (jobOf client p).keyStorage = bytes "client" := hclient
      simp [metadataOf, resultOf, hjob, hclient, hkey]
  have hanswer {resp : Header} {rest : Bytes} := @decrypts_answer cfg kdf lib client' hinv opening
    (jobOf client p) x _ files resp rest hstored hmode hcipher hfileId hkeyId hsentSmall (hplain ▸ hsmall)
  have hends := runs_of_wp (decryptFile_spec e hs ho hfile) hdec
  cases out with
  | ok d =>
    obtain ⟨⟨resp, rest, hpeer, hsize, hprefix, hok⟩, hc, hh, -⟩ := hends
    rcases hanswer hpeer with ⟨hfits, -, hannounced, hall⟩ | ⟨-, hbad, -⟩
    · have hlen : x.plain.length = d.data.length := Option.some.inj (hannounced.symm.trans hsize)
      exact .opened hfits ((hall _ hprefix hlen.symm).trans hplain) hc hh
    · have hne : bytes "ok" ≠ bytes "error" := by decide
      exact absurd (hok.symm.trans hbad) hne
  | error ending =>
    cases hends with
    | call hm he => exact .failed hm he
    | @unsized resp rest hpeer hm hbad =>
      have hsized : announced resp ≠ none := by
        rcases hanswer hpeer with ⟨-, -, hsize, -⟩ | ⟨hsize, -⟩ <;> simp [hsize]
      exact absurd hbad hsized
    | @refused resp rest hpeer hm hbad =>
      rcases hanswer hpeer with ⟨-, hok, -⟩ | ⟨-, hrefused⟩
      · exact absurd hok hbad
      · exact .refused hm hrefused

end ClientCore

end EncoderNext
