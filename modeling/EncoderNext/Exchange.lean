import EncoderNext.Container
import EncoderNext.EncryptInPlace

/-!
# A request and its answer

What a client is given back is what its peer answers to exactly what it has sent. Where it is given
nothing, one of its calls has failed or the answer says so.
-/

namespace EncoderNext

open Program Program.Stateful

namespace ClientCore

/-- What may be answered to a header and a payload: a header, and the bytes behind it. -/
abbrev Peer : Type := Header → Bytes → Header → Bytes → Prop

structure Link where
  content : Bytes → Option Bytes
  log : List ClientEvent := []
  request : Option Header := none
  payload : Bytes := []
  unread : Bytes := []

def Link.disk (w : Link) : Disk := ⟨w.content, w.log⟩

def Speaks (peer : Peer) (w : Link) : (c : ClientCall) → c.Reply → Link → Prop
  | .connect .., _, u => u.request = none ∧ u.payload = []
  | .sendHeader h, _, u => u.request = some h ∧ u.payload = w.payload
  | .sendData b, _, u => u.request = w.request ∧ u.payload = b
  | .readHeader _, answer, u =>
    ∀ resp, answer = some resp → ∃ h, w.request = some h ∧ peer h w.payload resp u.unread
  | .receive _, got, _ => ∀ data, got = some data → data.toList <+: w.unread
  | _, _, u => u.request = w.request ∧ u.payload = w.payload ∧ u.unread = w.unread

/-- A write that is reported as done is done. -/
def Whole : (c : ClientCall) → c.Reply → Prop
  | .writeFile _ data, .written kept => kept = data
  | _, _ => True

def linked (peer : Peer) (real : Bytes → Bytes) : Env Link ClientCall ClientCall.Reply := fun w c r u =>
  disk real w.disk c r u.disk ∧ Speaks peer w c r u ∧ Whole c r

/-- How the program ends when this call has failed. -/
def endingOf : ClientEvent → Option ClientEnding
  | ⟨.readFile _, r⟩ => if r.isSome then none else some (.failed (bytes "Failed to read file"))
  | ⟨.netInit, r⟩ => if r then none else some (.failed (bytes "Network initialization failed"))
  | ⟨.connect host port, r⟩ => unlessOk r (bytes "Cannot reach " ++ host ++ bytes ":" ++
      decimalInt port ++ bytes ". Check the address, network and server. ")
  | ⟨.tlsInit, r⟩ => unlessOk r (bytes "Cannot load TLS configuration. Check the certificate file. ")
  | ⟨.tlsConnect _, r⟩ =>
    unlessOk r (bytes "TLS handshake failed. Check the certificate and device clocks. ")
  | ⟨.sendHeader _, r⟩ =>
    if r then none else some (.failed (bytes "Connection lost while sending the request"))
  | ⟨.sendData _, r⟩ =>
    if r then none else some (.failed (bytes "Connection lost while sending the file"))
  | ⟨.readHeader _, r⟩ =>
    if r.isSome then none
    else some (.failed (bytes "Server closed the connection or returned an invalid response"))
  | ⟨.resize _, r⟩ => if r then none else some .thrown
  | ⟨.receive _, r⟩ =>
    if r.isSome then none else some (.failed (bytes "Connection lost while receiving the file"))
  | _ => none
where
  unlessOk (r : Except Bytes Unit) (message : Bytes) : Option ClientEnding :=
    match r with
    | .ok _ => none
    | .error e => some (.failed (message ++ e))

def heard (resp : Header) : ClientEvent := ⟨.readHeader 65536, some resp⟩

def messageOf (resp : Header) : Bytes := resp.get (bytes "message") (bytes "Server error")

inductive Broken (answers : Header → Bytes → Prop) (log : List ClientEvent) : ClientEnding → Prop
  | call {ev : ClientEvent} {ending : ClientEnding} (hm : ev ∈ log) (he : endingOf ev = some ending) :
      Broken answers log ending
  | unsized {resp : Header} {data : Bytes} (ha : answers resp data) (hm : heard resp ∈ log)
      (hr : announced resp = none) :
      Broken answers log (.failed (bytes "Invalid or incomplete server response"))
  | refused {resp : Header} {data : Bytes} (ha : answers resp data) (hm : heard resp ∈ log)
      (hr : resp.get (bytes "status") ≠ bytes "ok") : Broken answers log (.failed (messageOf resp))

section
variable {peer : Peer} {real : Bytes → Bytes} {answers : Header → Bytes → Prop} {w u : Link}
  {c : ClientCall} {r : c.Reply} {line message : Bytes}

theorem mem_linked (he : linked peer real w c r u) {ev : ClientEvent} (hm : ev ∈ w.log) : ev ∈ u.log := by
  have hlog : u.log = w.log ++ [⟨c, r⟩] := he.1.2
  exact hlog ▸ List.mem_append_left _ hm

theorem broken_linked {ending : ClientEnding} (h : Broken answers w.log ending)
    (he : linked peer real w c r u) : Broken answers u.log ending := by
  cases h with
  | call hm hf => exact .call (mem_linked he hm) hf
  | unsized ha hm hr => exact .unsized ha (mem_linked he hm) hr
  | refused ha hm hr => exact .refused ha (mem_linked he hm) hr

theorem broken_of_failing {ending : ClientEnding} (he : linked peer real w c r u)
    (hf : endingOf ⟨c, r⟩ = some ending) : Broken answers u.log ending := by
  have hlog : u.log = w.log ++ [⟨c, r⟩] := he.1.2
  refine .call ?_ hf
  simp [hlog]

theorem logAndFail_broken {α : Type} {Q : α → Unit → Link → Prop}
    (h : Broken answers w.log (.failed message)) :
    wpS (linked peer real) Q (fun ending _ u => Broken answers u.log ending) (fun _ => True)
      (logAndFail line message) () w := by
  unfold logAndFail
  rw [wpS_perform_bind]
  exact ⟨trivial, fun _ _ he => ⟨trivial, broken_linked h he⟩⟩

theorem orLog_spec {b : Bool} (h : b = false → Broken answers w.log (.failed message)) :
    wpS (linked peer real) (fun _ _ u => u = w ∧ b = true) (fun ending _ u => Broken answers u.log ending)
      (fun _ => True) (orLog b line message) () w := by
  cases b with
  | true => exact ⟨trivial, rfl, rfl⟩
  | false => exact logAndFail_broken (h rfl)

theorem connected_spec {reply : Except Bytes Unit}
    (h : ∀ e, reply = .error e → Broken answers w.log (.failed (message ++ e))) :
    wpS (linked peer real) (fun _ _ u => u = w) (fun ending _ u => Broken answers u.log ending)
      (fun _ => True) (connected reply line message) () w := by
  cases reply with
  | ok _ => exact ⟨trivial, rfl⟩
  | error e => exact logAndFail_broken (h e rfl)

theorem logging_spec {α : Type} {Q : α → Unit → Link → Prop} {x : ClientProgram α}
    (h : wpS (linked peer real) Q (fun ending _ u => Broken answers u.log ending) (fun _ => True) x () w) :
    wpS (linked peer real) Q (fun ending _ u => Broken answers u.log ending) (fun _ => True)
      (logging line x) () w := by
  apply wpS_tryCatch h
  intro e _ u _ hb
  cases e with
  | failed message => exact logAndFail_broken hb
  | thrown => exact ⟨trivial, hb⟩

/-! ## One request -/

theorem openConnection_spec (e : Endpoint) :
    wpS (linked peer real) (fun _ _ u => u.payload = []) (fun ending _ u => Broken answers u.log ending)
      (fun _ => True) (openConnection e) () w := by
  unfold openConnection
  rw [wpS_perform_bind]
  refine ⟨trivial, fun ready w₁ h₁ => ?_⟩
  rw [wpS_bind]
  refine wpS_post (orLog_spec fun hb => broken_of_failing h₁ (by simp [endingOf, hb])) ?_
  intro _ _ _ _ hu
  rw [hu.1, wpS_perform_bind]
  refine ⟨trivial, fun reply w₂ h₂ => ?_⟩
  rw [wpS_bind]
  refine wpS_post (connected_spec fun _ hb => broken_of_failing h₂ (by simp [endingOf, endingOf.unlessOk, hb])) ?_
  intro _ _ _ _ hu
  rw [hu, wpS_perform_bind]
  refine ⟨trivial, fun reply w₃ h₃ => ?_⟩
  rw [wpS_bind]
  refine wpS_post (connected_spec fun _ hb => broken_of_failing h₃ (by simp [endingOf, endingOf.unlessOk, hb])) ?_
  intro _ _ _ _ hu
  rw [hu, wpS_perform_bind]
  refine ⟨trivial, fun reply w₄ h₄ => ?_⟩
  refine wpS_post (connected_spec fun _ hb => broken_of_failing h₄ (by simp [endingOf, endingOf.unlessOk, hb])) ?_
  intro _ _ _ _ hu
  have hopened : w₂.payload = [] := h₂.2.1.2
  have hinit : w₃.payload = w₂.payload := h₃.2.1.2.1
  have hready : w₄.payload = w₃.payload := h₄.2.1.2.1
  rw [hu, hready, hinit, hopened]

theorem sendPayload_spec {request : Header} {payload : Bytes} (hr : w.request = some request)
    (hp : w.payload = []) :
    wpS (linked peer real) (fun _ _ u => u.request = some request ∧ u.payload = payload)
      (fun ending _ u => Broken answers u.log ending) (fun _ => True) (sendPayload payload) () w := by
  unfold sendPayload
  by_cases hne : payload = []
  · simp only [hne, if_true]
    exact ⟨trivial, hr, hp⟩
  · simp only [hne, if_false]
    rw [wpS_perform_bind]
    refine ⟨trivial, fun sent u h => ?_⟩
    refine wpS_post (orLog_spec fun hb => broken_of_failing h (by simp [endingOf, hb])) ?_
    intro _ _ _ _ hu
    rw [hu.1]
    exact ⟨h.2.1.1.trans hr, h.2.1.2⟩

theorem receivePayload_spec (size : Nat) :
    wpS (linked peer real)
      (fun data _ u => (data.length = size ∧ data <+: w.unread) ∧ ∀ ev ∈ w.log, ev ∈ u.log)
      (fun ending _ u => Broken answers u.log ending) (fun _ => True) (receivePayload size) () w := by
  unfold receivePayload
  by_cases hsize : size = 0
  · simp only [hsize, if_true]
    exact ⟨trivial, ⟨rfl, List.nil_prefix⟩, fun _ hm => hm⟩
  · simp only [hsize, if_false]
    rw [wpS_perform_bind]
    refine ⟨trivial, fun room w₁ h₁ => ?_⟩
    apply wpS_guardOr
    · intro hroom
      exact ⟨trivial, broken_of_failing h₁ (by simp [endingOf, hroom])⟩
    · intro _
      rw [wpS_perform_bind]
      refine ⟨trivial, fun got w₂ h₂ => ?_⟩
      cases got with
      | none => exact logAndFail_broken (broken_of_failing h₂ rfl)
      | some data =>
        have hread : data.toList <+: w₁.unread := h₂.2.1 data rfl
        have hsame : w₁.unread = w.unread := h₁.2.1.2.2
        rw [hsame] at hread
        refine ⟨trivial, ⟨Vector.length_toList, hread⟩, fun ev hm => ?_⟩
        exact mem_linked h₂ (mem_linked h₁ hm)

theorem sendRequest_spec (e : Endpoint) (request : Header) (payload : Bytes) :
    wpS (linked peer real)
      (fun r _ u => heard r.1 ∈ u.log ∧ ∃ data, peer request payload r.1 data ∧
        announced r.1 = some r.2.length ∧ r.2 <+: data)
      (fun ending _ u => Broken (peer request payload) u.log ending) (fun _ => True)
      (sendRequest e request payload) () w := by
  unfold sendRequest
  rw [wpS_bind]
  refine wpS_post (openConnection_spec e) fun _ _ w₁ _ hp₁ => ?_
  rw [wpS_perform_bind]
  refine ⟨trivial, fun sent w₂ h₂ => ?_⟩
  rw [wpS_bind]
  refine wpS_post (orLog_spec fun hb => broken_of_failing h₂ (by simp [endingOf, hb])) ?_
  intro _ _ _ _ hu
  rw [hu.1, wpS_bind]
  refine wpS_post (sendPayload_spec h₂.2.1.1 (h₂.2.1.2.trans hp₁)) fun _ _ w₃ _ h₃ => ?_
  rw [wpS_perform_bind]
  refine ⟨trivial, fun answer w₄ h₄ => ?_⟩
  cases answer with
  | none => exact logAndFail_broken (broken_of_failing h₄ rfl)
  | some resp =>
    obtain ⟨h, hh, hpeer⟩ := h₄.2.1 resp rfl
    have hsent : h = request := Option.some.inj (hh.symm.trans h₃.1)
    rw [hsent, h₃.2] at hpeer
    have hheard : heard resp ∈ w₄.log := by
      have hlog : w₄.log = w₃.log ++ [heard resp] := h₄.1.2
      simp [hlog]
    cases hsize : announced resp with
    | none =>
      simp only [hsize]
      exact ⟨trivial, .unsized hpeer hheard hsize⟩
    | some size =>
      simp only [hsize]
      rw [wpS_bind]
      refine wpS_post (receivePayload_spec size) fun data _ w₅ _ h₅ => ?_
      obtain ⟨⟨hlen, hprefix⟩, hlog⟩ := h₅
      exact ⟨trivial, hlog _ hheard, w₄.unread, hpeer, by simp [hsize, hlen], hprefix⟩

/-! ## Encryption -/

def responseField (text : Bytes) : Option Bytes := if text = [] then some [] else Server.decoded text

structure Tells (resp : Header) (result : EncryptResult) : Prop where
  status : resp.get (bytes "status") = bytes "ok"
  fileId : result.fileId = resp.get (bytes "file_id")
  keyId : result.keyId = resp.get (bytes "key_id")
  hashValue : result.hashValue = resp.get (bytes "hash_value")
  key : responseField (resp.get (bytes "key")) = some result.key
  iv : responseField (resp.get (bytes "iv")) = some result.iv
  tag : responseField (resp.get (bytes "tag")) = some result.tag

structure Sealed (peer : Peer) (q : EncryptJob) (content : Bytes) (result : EncryptResult)
    (sent : Bytes) : Prop where
  answered : ∃ resp rest, peer (q.header content) content resp rest ∧ announced resp = some sent.length ∧
    sent <+: rest ∧ Tells resp result

theorem decodeField_spec (text : Bytes) :
    wpS (linked peer real) (fun b _ u => u = w ∧ responseField text = some b) (fun _ _ _ => True)
      (fun _ => True) (decodeField text [] message) () w := by
  unfold decodeField responseField
  by_cases ht : text = []
  · simp only [ht, if_true]
    exact ⟨trivial, rfl, rfl⟩
  · simp only [ht, if_false]
    cases Server.decoded text with
    | none => exact ⟨trivial, trivial⟩
    | some b => exact ⟨trivial, rfl, rfl⟩

theorem requestEncryption_spec (e : Endpoint) (q : EncryptJob) (content : Bytes) :
    wpS (linked peer real) (fun r _ _ => Sealed peer q content r.1 r.2) (fun _ _ _ => True)
      (fun _ => True) (requestEncryption e q {} content) () w := by
  unfold requestEncryption
  rw [wpS_bind]
  refine wpS_mono (logging_spec (sendRequest_spec e (q.header content) content))
    (fun r _ u _ h => ?_) (fun _ _ _ _ _ => trivial) fun _ => id
  obtain ⟨hheard, rest, hpeer, hsize, hprefix⟩ := h
  dsimp only
  rw [wpS_bind]
  have hstatus : wpS (linked peer real)
      (fun _ _ u' => u' = u ∧ (r.1.get (bytes "status") == bytes "ok") = true) (fun _ _ _ => True)
      (fun _ => True) (checkStatus r.1) () u := by
    have hspec : wpS (linked peer real)
        (fun _ _ u' => u' = u ∧ (r.1.get (bytes "status") == bytes "ok") = true)
        (fun ending _ u => Broken (peer (q.header content) content) u.log ending) (fun _ => True)
        (checkStatus r.1) () u :=
      orLog_spec fun hb => .refused hpeer hheard (by simpa using hb)
    exact wpS_mono hspec (fun _ _ _ _ => id) (fun _ _ _ _ _ => trivial) fun _ => id
  refine wpS_post hstatus fun _ _ u₁ _ h₁ => ?_
  rw [h₁.1, wpS_bind]
  refine wpS_post (decodeField_spec _) fun key _ u₂ _ h₂ => ?_
  rw [h₂.1, wpS_bind]
  refine wpS_post (decodeField_spec _) fun iv _ u₃ _ h₃ => ?_
  rw [h₃.1, wpS_bind]
  refine wpS_post (decodeField_spec _) fun tag _ u₄ _ h₄ => ?_
  exact ⟨trivial, r.1, rest, hpeer, hsize, hprefix, eq_of_beq h₁.2, rfl, rfl, rfl, h₂.2, h₃.2, h₄.2⟩

def wrote (path data : Bytes) : ClientEvent := ⟨.writeFile path data, .written data⟩

theorem content_remove {path other : Bytes} (hne : real other ≠ real path)
    (he : linked peer real w (.remove other) () u) : u.content (real path) = w.content (real path) := by
  have heffect : u.content = w.content ∨ u.content = Function.update w.content (real other) none := he.1.1
  rcases heffect with h | h
  · rw [h]
  · rw [h, Function.update_of_ne hne.symm]

variable {q : EncryptJob} (it : Iteration)

theorem writeEmbeddedFile_spec (result : EncryptResult) (sent : Bytes) :
    wpS (linked peer real)
      (fun _ _ u => u.content (real q.filePath) = some (container it q result sent) ∧
        wrote q.filePath (container it q result sent) ∈ u.log)
      (fun _ _ _ => True) (fun _ => True) (writeEmbeddedFile it q result sent) () w := by
  unfold writeEmbeddedFile
  have hfail {α : Type} {Q : α → Unit → Link → Prop} (line message : Bytes) (w : Link) :
      wpS (linked peer real) Q (fun _ _ _ => True) (fun _ => True) (logAndFail line message) () w := by
    unfold logAndFail
    rw [wpS_perform_bind]
    exact ⟨trivial, fun _ _ _ => ⟨trivial, trivial⟩⟩
  by_cases hkey : q.keyStorage = bytes "client" ∧ result.key = []
  · simp only [hkey, and_self, if_true]
    exact hfail _ _ w
  · simp only [hkey, if_false]
    rw [wpS_perform_bind]
    refine ⟨trivial, fun outcome u h => ?_⟩
    cases outcome with
    | unopened => exact hfail _ _ u
    | failed kept => exact hfail _ _ u
    | written kept =>
      have hwhole : kept = container it q result sent := h.2.2
      have heffect : u.content = Function.update w.content (real q.filePath) (some kept) := h.1.1.2
      have hlog : u.log = w.log ++ [wrote q.filePath (container it q result sent)] := hwhole ▸ h.1.2
      refine ⟨trivial, ?_, by simp [hlog]⟩
      rw [heffect, hwhole, Function.update_self]

/-- This was written, and is in the file unless one of the two names removed after it leads there. -/
def Written (real : Bytes → Bytes) (q : EncryptJob) (file : Bytes) (u : Link) : Prop :=
  wrote q.filePath file ∈ u.log ∧
    (real (q.filePath ++ bytes ".cph") ≠ real q.filePath →
      real (q.filePath ++ bytes ".key") ≠ real q.filePath → u.content (real q.filePath) = some file)

theorem encryptData_spec (e : Endpoint) (content : Bytes) :
    wpS (linked peer real)
      (fun result _ u => ∃ sent, Sealed peer q content result sent ∧
        Written real q (container it q result sent) u)
      (fun _ _ _ => True) (fun _ => True) (encryptData it e q {} content) () w := by
  unfold encryptData
  rw [wpS_bind]
  refine wpS_post (requestEncryption_spec e q content) fun r _ w₂ _ h₂ => ?_
  dsimp only
  rw [wpS_bind]
  refine wpS_post (writeEmbeddedFile_spec it r.1 r.2) fun _ _ w₃ _ h₃ => ?_
  rw [wpS_perform_bind]
  refine ⟨trivial, fun _ w₄ h₄ => ?_⟩
  rw [wpS_perform_bind]
  refine ⟨trivial, fun _ w₅ h₅ => ⟨trivial, r.2, h₂, ?_, fun hcph hkey => ?_⟩⟩
  · exact mem_linked h₅ (mem_linked h₄ h₃.2)
  · rw [content_remove hkey h₅, content_remove hcph h₄, h₃.1]

theorem encryptFile_spec (e : Endpoint) :
    wpS (linked peer real)
      (fun result _ u => ∃ content sent, w.content (real q.filePath) = some content ∧
        Sealed peer q content result sent ∧ Written real q (container it q result sent) u)
      (fun _ _ _ => True) (fun _ => True) (encryptFile it e q {}) () w := by
  unfold encryptFile
  rw [wpS_perform_bind]
  refine ⟨trivial, fun file w₁ h₁ => ?_⟩
  cases file with
  | none =>
    unfold logAndFail
    rw [wpS_perform_bind]
    exact ⟨trivial, fun _ _ _ => ⟨trivial, trivial⟩⟩
  | some content =>
    have hread : some content = none ∨ some content = w.content (real q.filePath) := h₁.1.1.2
    have hcontent : w.content (real q.filePath) = some content := by simpa [eq_comm] using hread
    refine wpS_post (encryptData_spec it e content) fun result _ u _ h => ?_
    obtain ⟨sent, hsealed, hwritten⟩ := h
    exact ⟨content, sent, hcontent, hsealed, hwritten⟩

/-! ## Decryption -/

variable {it} {result : EncryptResult} {ciphertext : Bytes} {cfg : ClientConfig} {p : DecryptParams}

theorem okOrLog_ok {α : Type} (a : α) : okOrLog (.ok a) line = pure a := rfl

theorem findMetadata_spec (hs : Storable q result)
    (hfile : w.content (real p.filePath) = some (container it q result ciphertext)) :
    wpS (linked peer real) (fun found _ _ => found = (true, metadataOf q result, ciphertext))
      (fun ending _ u => Broken answers u.log ending) (fun _ => True) (findMetadata p) () w := by
  unfold findMetadata
  rw [wpS_perform_bind]
  refine ⟨trivial, fun file u h => ?_⟩
  cases file with
  | none => exact logAndFail_broken (broken_of_failing h rfl)
  | some file =>
    have hread : some file = none ∨ some file = w.content (real p.filePath) := h.1.1.2
    have hsome : some file = some (container it q result ciphertext) := by simpa [hfile] using hread
    rw [hsome, readEmbeddedFile_container hs]
    dsimp only
    rw [extractMetadata_container hs, okOrLog_ok, pure_bind]
    exact ⟨trivial, rfl⟩

def Openable (m : Metadata) : Prop :=
  m.keyStorage = bytes "server" ∧ m.keyId ≠ [] ∨ m.keyStorage = bytes "client" ∧ m.key ≠ []

theorem chooseKey_openable {m : Metadata} (h : Openable m) (embedded : Bool) :
    chooseKey p embedded m = pure m := by
  rcases h with ⟨hs, hid⟩ | ⟨hc, hkey⟩
  · simp [chooseKey, hs, hid]
  · have hne : ¬ bytes "client" = bytes "server" := by decide
    simp only [chooseKey, hc, hne, if_false, if_true, if_pos hkey]

theorem decryptFile_spec (e : Endpoint) (hs : Storable q result) (ho : Openable (metadataOf q result))
    (hfile : w.content (real p.filePath) = some (container it q result ciphertext)) :
    wpS (linked peer real)
      (fun out _ _ => (∃ resp rest,
          peer (decryptRequest cfg p (metadataOf q result) ciphertext) ciphertext resp rest ∧
          announced resp = some out.data.length ∧ out.data <+: rest ∧
          resp.get (bytes "status") = bytes "ok") ∧
        out.cipher = q.cipher ∧ out.hash = q.hash ∧ out.keyStorage = q.keyStorage ∧
        out.fileId = result.fileId ∧ out.originalName = fileName p.filePath)
      (fun ending _ u =>
        Broken (peer (decryptRequest cfg p (metadataOf q result) ciphertext) ciphertext) u.log ending)
      (fun _ => True) (decryptFile cfg e p) () w := by
  unfold decryptFile
  rw [wpS_bind]
  refine wpS_post (findMetadata_spec hs hfile) fun found _ w₁ _ h₁ => ?_
  rw [h₁]
  dsimp only
  rw [chooseKey_openable ho, pure_bind, wpS_bind]
  refine wpS_post (logging_spec (sendRequest_spec e _ ciphertext)) fun r _ w₂ _ h₂ => ?_
  obtain ⟨hheard, rest, hpeer, hsize, hprefix⟩ := h₂
  rw [wpS_bind]
  unfold checkDecrypted
  refine wpS_post (orLog_spec fun hb => .refused hpeer hheard (by simpa using hb)) fun _ _ u _ h => ?_
  exact ⟨trivial, ⟨r.1, rest, hpeer, hsize, hprefix, eq_of_beq h.2⟩, rfl, rfl, rfl, rfl, rfl⟩

end

end ClientCore

end EncoderNext
