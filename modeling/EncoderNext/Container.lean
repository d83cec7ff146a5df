import EncoderNext.ClientDecrypt
import EncoderNext.PanelReads

/-!
# The container

What the client has written in front of a ciphertext it reads back: the same ciphertext, and
everything it was told when the file was encrypted.
-/

namespace EncoderNext

open Header (LineOk keyOk)
open Framing (Clean lookup_parse_clean writable_of_clean)

theorem decoded_encode (b : Bytes) : Server.decoded (base64Encode b) = some b := by
  simp [Server.decoded, decode_encode_base64]

def Trimmed (v : Bytes) : Prop := lf ∉ v ∧ trim v = v

theorem trimmed_plain {v : Bytes} (h : ∀ c ∈ v, isBlank c = false) : Trimmed v := by
  refine ⟨fun hm => ?_, Server.trim_plain h⟩
  simpa [isBlank] using h lf hm

theorem trimmed_base64 (b : Bytes) : Trimmed (base64Encode b) := trimmed_plain (encode_plain b)

theorem trimmed_cipher (c : Cipher) : Trimmed (CryptoEngine.cipherToString c) := by
  apply trimmed_plain
  simpa using (CryptoEngine.cipherToString_spec c).2.1

theorem trimmed_hash (a : HashAlg) : Trimmed (CryptoEngine.hashToString a) := by
  apply trimmed_plain
  intro c hc
  have h := List.all_eq_true.mp (CryptoEngine.hashToString_spec a).2.1 c hc
  simp at h
  exact h.1

/-! ## Headers that come back as they are -/

section
variable {h : Header} {key value : Bytes}

theorem clean_empty : Clean {} := by
  intro key value hv
  simp at hv

theorem clean_set (hc : Clean h) (hk : keyOk key = true) (hv : Trimmed value) :
    Clean (h.set key value) := by
  intro key' value' hv'
  rw [Header.lookup_set] at hv'
  by_cases he : key' = key
  · simp [he] at hv'
    exact ⟨he ▸ hk, hv' ▸ hv⟩
  · simp [he] at hv'
    exact hc key' value' hv'

theorem clean_setUnlessEmpty {encoded : Bytes} (hc : Clean h) (hk : keyOk key = true)
    (hv : Trimmed encoded) : Clean (Server.setUnlessEmpty h key value encoded) := by
  unfold Server.setUnlessEmpty
  by_cases he : value = []
  · simpa [he] using hc
  · simpa [he] using clean_set hc hk hv

theorem clean_setIf {c : Prop} [Decidable c] (hc : Clean h) (hk : keyOk key = true) (hv : Trimmed value) :
    Clean (if c then h.set key value else h) := by
  by_cases hif : c
  · simpa [hif] using clean_set hc hk hv
  · simpa [hif] using hc

theorem get_setUnlessEmpty (h : Header) (key value encoded key' default : Bytes) :
    (Server.setUnlessEmpty h key value encoded).get key' default =
      if key' = key ∧ value ≠ [] then encoded else h.get key' default := by
  unfold Server.setUnlessEmpty
  by_cases hv : value = []
  · simp [hv]
  · simp [hv, Header.get_set]

theorem get_parse_clean (hc : Clean h) (it : Iteration) (key default : Bytes) :
    (Header.parse (h.serialize it)).get key default = h.get key default := by
  rw [Header.get, lookup_parse_clean hc it, Header.get]

end

namespace ClientCore

/-! ## Where the header ends -/

theorem cutAtBlank_line {l : Bytes} (hl : lf ∉ l) (s : Bytes) :
    cutAtBlank (l ++ lf :: s) = (cutAtBlank (lf :: s)).map fun r => (l ++ r.1, r.2) := by
  induction l with
  | nil => simp
  | cons c l ih =>
    simp only [List.mem_cons, not_or] at hl
    have hc : c ≠ lf := Ne.symm hl.1
    have ih := ih hl.2
    cases l with
    | nil => simp [cutAtBlank, hc]
    | cons d l =>
      rw [List.cons_append, List.cons_append, cutAtBlank, if_neg (by simp [hc]), ← List.cons_append, ih,
        Option.map_map]
      rfl

theorem cutAtBlank_lines {ls : List Bytes} (h : ∀ l ∈ ls, LineOk l) (hne : ls ≠ []) (data : Bytes) :
    cutAtBlank (ls.flatMap (fun l => l ++ [lf]) ++ [lf] ++ data) =
      some (ls.flatMap (fun l => l ++ [lf]) ++ [lf], data) := by
  induction ls with
  | nil => exact absurd rfl hne
  | cons l ls ih =>
    have hl := (h l (by simp)).1
    have htext : (l :: ls).flatMap (fun l => l ++ [lf]) ++ [lf] ++ data =
        l ++ lf :: (ls.flatMap (fun l => l ++ [lf]) ++ [lf] ++ data) := by simp
    rw [htext, cutAtBlank_line hl]
    cases ls with
    | nil => simp [cutAtBlank]
    | cons next ls =>
      have ih := ih (fun l' hl' => h l' (by simp [hl'])) (by simp)
      obtain ⟨hnext, c, hc, -⟩ := h next (by simp)
      cases next with
      | nil => simp at hc
      | cons d next =>
        -- the next line does not begin with a line feed
        have hd : d ≠ lf := by
          intro hd
          simp [hd] at hnext
        simp only [List.flatMap_cons, List.cons_append] at ih ⊢
        rw [cutAtBlank, if_neg (by simp [hd]), ih]
        simp

theorem cutAtBlank_serialize {h : Header} (hw : h.Writable) (hne : h.fields.entries ≠ []) (it : Iteration)
    (data : Bytes) : cutAtBlank (h.serialize it ++ data) = some (h.serialize it, data) := by
  rw [Header.serialize_eq]
  apply cutAtBlank_lines (Header.lineOk_order hw it)
  intro hnil
  rw [List.map_eq_nil_iff] at hnil
  have hlen := (it.perm h.fields.entries).length_eq
  simp [hnil] at hlen
  exact hne (by simpa using hlen.symm)

/-! ## What the header says -/

section
variable (q : EncryptJob) (r : EncryptResult)

def metadataOf : Metadata where
  keyStorage := q.keyStorage
  fileId := r.fileId
  keyId := r.keyId
  hashValue := r.hashValue
  cipher := q.cipher
  hash := q.hash
  key := if q.keyStorage = bytes "client" then r.key else []
  iv := r.iv
  tag := r.tag

structure Storable : Prop where
  keyStorage : Trimmed q.keyStorage
  fileId : Trimmed r.fileId
  keyId : Trimmed r.keyId
  hashValue : Trimmed r.hashValue

theorem get_embeddedHeader (k default : Bytes) : (embeddedHeader q r).get k default =
    if k = bytes "key" ∧ q.keyStorage = bytes "client" then base64Encode r.key
    else if k = bytes "tag" ∧ r.tag ≠ [] then base64Encode r.tag
    else if k = bytes "iv" ∧ r.iv ≠ [] then base64Encode r.iv
    else if k = bytes "hash_value" ∧ r.hashValue ≠ [] then r.hashValue
    else if k = bytes "key_id" ∧ r.keyId ≠ [] then r.keyId
    else if k = bytes "file_id" ∧ r.fileId ≠ [] then r.fileId
    else if k = bytes "key_storage" then q.keyStorage
    else if k = bytes "hash" then CryptoEngine.hashToString q.hash
    else if k = bytes "cipher" then CryptoEngine.cipherToString q.cipher
    else if k = bytes "version" then bytes "1" else default := by
  unfold embeddedHeader
  by_cases hc : q.keyStorage = bytes "client"
  · simp only [hc, if_true, Header.get_set, get_setUnlessEmpty, and_true]
    rfl
  · simp only [hc, if_false, Header.get_set, get_setUnlessEmpty, and_false]
    rfl

variable {q r}

theorem clean_embeddedHeader (h : Storable q r) : Clean (embeddedHeader q r) := by
  unfold embeddedHeader
  dsimp only
  apply clean_setIf _ (by decide) (trimmed_base64 _)
  apply clean_setUnlessEmpty _ (by decide) (trimmed_base64 _)
  apply clean_setUnlessEmpty _ (by decide) (trimmed_base64 _)
  apply clean_setUnlessEmpty _ (by decide) h.hashValue
  apply clean_setUnlessEmpty _ (by decide) h.keyId
  apply clean_setUnlessEmpty _ (by decide) h.fileId
  apply clean_set _ (by decide) h.keyStorage
  apply clean_set _ (by decide) (trimmed_hash _)
  apply clean_set _ (by decide) (trimmed_cipher _)
  exact clean_set clean_empty (by decide) ⟨by decide, by decide⟩

theorem embeddedField_encode (value message : Bytes) :
    embeddedField (base64Encode value) message = .ok value := by
  by_cases hv : value = []
  · simp [embeddedField, hv, base64Encode]
  · simp [embeddedField, encode_ne_nil hv, decoded_encode, orError]

theorem unlessEmpty {f : Bytes → Bytes} (hf : f [] = []) (value : Bytes) :
    (if value ≠ [] then f value else []) = f value := by
  by_cases hv : value = [] <;> simp [hv, hf]

/-- **What was written in front of a ciphertext is found again**, and the ciphertext behind it. -/
theorem readEmbeddedFile_container (h : Storable q r) (it : Iteration) (data : Bytes) :
    readEmbeddedFile (some (container it q r data)) =
      .embedded (Header.parse ((embeddedHeader q r).serialize it)) data := by
  have hne : (embeddedHeader q r).fields.entries ≠ [] := by
    intro hnil
    have hget := get_embeddedHeader q r (bytes "version") []
    rw [Header.get, AList.lookup, hnil] at hget
    revert hget
    simp +decide
  have hcut := cutAtBlank_serialize (writable_of_clean (clean_embeddedHeader h)) hne it data
  rw [readEmbeddedFile, container, List.append_assoc, List.take_left, List.drop_left, hcut]
  simp

theorem extractMetadata_container (h : Storable q r) (it : Iteration) :
    extractMetadata (Header.parse ((embeddedHeader q r).serialize it)) = .ok (metadataOf q r) := by
  have hget (k default : Bytes) := (get_parse_clean (clean_embeddedHeader h) it k default).trans
    (get_embeddedHeader q r k default)
  have hcipher := hget (bytes "cipher") []
  have hhash := hget (bytes "hash") []
  have hkey := hget (bytes "key") []
  have hiv := hget (bytes "iv") []
  have htag := hget (bytes "tag") []
  have hstorage := hget (bytes "key_storage") (bytes "server")
  have hfile := hget (bytes "file_id") []
  have hid := hget (bytes "key_id") []
  have hvalue := hget (bytes "hash_value") []
  simp +decide only [false_and, true_and, if_false, if_true] at hcipher hhash hkey hiv htag
  simp +decide only [false_and, true_and, if_false, if_true] at hstorage hfile hid hvalue
  rw [unlessEmpty (f := base64Encode) rfl] at hiv htag
  rw [unlessEmpty (f := fun v => v) rfl] at hfile hid hvalue
  unfold extractMetadata
  rw [hcipher, hhash, hkey, hiv, htag, hstorage, hfile, hid, hvalue,
    (CryptoEngine.cipherToString_spec q.cipher).1, (CryptoEngine.hashToString_spec q.hash).1, metadataOf]
  have hfield : embeddedField (if q.keyStorage = bytes "client" then base64Encode r.key else [])
      (bytes "Invalid key in embedded header") =
      .ok (if q.keyStorage = bytes "client" then r.key else []) := by
    by_cases hc : q.keyStorage = bytes "client"
    · simp [hc, embeddedField_encode]
    · simp [hc, embeddedField]
  rw [hfield, embeddedField_encode, embeddedField_encode]
  rfl

end

end ClientCore

end EncoderNext
