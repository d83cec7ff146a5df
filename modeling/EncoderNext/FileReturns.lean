import EncoderNext.RoundTrip

/-!
# An encrypted file comes back

Whatever is asked later for a file that was encrypted, nothing that was written or recorded of it
keeps it from being opened, but the size that it has grown to. It may be opened and encrypted again any
number of times.
-/

namespace EncoderNext

open Program Program.Stateful
open Server

namespace ClientCore

variable {cfg : ServerConfig} {kdf : PasswordKdf} {lib : CryptoLibrary} {client : ClientConfig}
  {p : EncryptParams} {content : Bytes} {result : EncryptResult} {store : StoreWorld}

/-! ## What an opening may fail for -/

/-- How the messages of a call that failed and of a refusal begin. -/
def explanations : List Bytes := [
  bytes "Failed to read file", bytes "Network initialization failed", bytes "Cannot reach ",
  bytes "Cannot load TLS configuration. ", bytes "TLS handshake failed. ",
  bytes "Connection lost while sending the request", bytes "Connection lost while sending the file",
  bytes "Server closed the connection", bytes "Connection lost while receiving the file",
  bytes "File too large", bytes "Client is not allowed by binding policy",
  bytes "Account locked. Try again in ", bytes "Authentication failed",
  bytes "Decryption is not allowed for this account"]

/-- How the messages begin that `decrypt_file` and `handle_decrypt` have for a file, a key or a digest
that they cannot make out. -/
def unreadable : List Bytes := [
  bytes "Failed to parse", bytes "Invalid ", bytes "Metadata file not found", bytes "Incomplete metadata",
  bytes "Missing ", bytes "Failed to load key", bytes "Unknown ", bytes "Key not found",
  bytes "Legacy GOST", bytes "Decrypt failed", bytes "Hash ", bytes "Integrity check failed"]

theorem unreadable_apart : ∀ front ∈ unreadable, ∀ known ∈ explanations,
    ¬ front <+: known ∧ ¬ known <+: front := by
  decide +kernel

theorem explained_of_ending {ev : ClientEvent} {message : Bytes}
    (h : endingOf ev = some (.failed message)) : ∃ known ∈ explanations, known <+: message := by
  have htold {b : Bool} {known : Bytes} (hk : known ∈ explanations)
      (h : (if b then none else some (.failed known)) = some (ClientEnding.failed message)) :
      ∃ known ∈ explanations, known <+: message := by
    cases b with
    | true => cases h
    | false =>
      cases h
      exact ⟨_, hk, List.prefix_rfl⟩
  have hadded {r : Except Bytes Unit} {front : Bytes} (hk : ∃ known ∈ explanations, known <+: front)
      (h : endingOf.unlessOk r front = some (.failed message)) :
      ∃ known ∈ explanations, known <+: message := by
    obtain ⟨known, hk, hfront⟩ := hk
    cases r with
    | ok _ => cases h
    | error e =>
      cases h
      exact ⟨known, hk, hfront.trans (List.prefix_append _ _)⟩
  obtain ⟨c, r⟩ := ev
  cases c with
  | readFile path => exact htold (by simp [explanations]) h
  | netInit => exact htold (by simp [explanations]) h
  | connect host port =>
    refine hadded ⟨bytes "Cannot reach ", by simp [explanations], ?_⟩ h
    simp only [List.append_assoc]
    exact List.prefix_append _ _
  | tlsInit => exact hadded ⟨bytes "Cannot load TLS configuration. ", by simp [explanations], by decide⟩ h
  | tlsConnect host => exact hadded ⟨bytes "TLS handshake failed. ", by simp [explanations], by decide⟩ h
  | sendHeader header => exact htold (by simp [explanations]) h
  | sendData data => exact htold (by simp [explanations]) h
  | readHeader max =>
    cases r with
    | some _ => cases h
    | none =>
      cases h
      exact ⟨bytes "Server closed the connection", by simp [explanations], by decide⟩
  | resize size =>
    cases r <;> cases h
  | receive size => exact htold (by simp [explanations]) h
  | writeFile path data => cases h
  | remove path => cases h
  | logError line => cases h

theorem explained_of_refusal {size : Nat} {message : Bytes}
    (h : Refusal cfg size (bytes "Decryption is not allowed for this account") message) :
    ∃ known ∈ explanations, known <+: message := by
  cases h with
  | tooLarge _ => exact ⟨_, by simp [explanations], List.prefix_rfl⟩
  | client => exact ⟨_, by simp [explanations], List.prefix_rfl⟩
  | locked remaining =>
    refine ⟨bytes "Account locked. Try again in ", by simp [explanations], ?_⟩
    rw [lockedMessage, List.append_assoc]
    exact List.prefix_append _ _
  | password => exact ⟨_, by simp [explanations], List.prefix_rfl⟩
  | permission => exact ⟨_, by simp [explanations], List.prefix_rfl⟩

theorem reopened_readable {size : Nat} {log : List ClientEvent} {message : Bytes}
    (h : Reopened cfg p content size log (.error (.failed message))) {front : Bytes}
    (hf : front ∈ unreadable) : ¬ front <+: message := by
  intro hfront
  have hknown : ∃ known ∈ explanations, known <+: message := by
    cases h with
    | failed _ he => exact explained_of_ending he
    | refused _ hr => exact explained_of_refusal hr.2
  obtain ⟨known, hk, hprefix⟩ := hknown
  have hapart := unreadable_apart front hf known hk
  rcases List.prefix_or_prefix_of_prefix hfront hprefix with h | h
  · exact hapart.1 h
  · exact hapart.2 h

/-- No call has failed, and no answer refuses the user, as one may whatever the size of the file. -/
structure Undisturbed (cfg : ServerConfig) (log : List ClientEvent) : Prop where
  calls : ∀ ev ∈ log, endingOf ev = none
  accepted : ∀ resp, heard resp ∈ log → ¬ Refused cfg 0 resp

theorem refused_of_size {size : Nat} {resp : Header} (h : Refused cfg size resp)
    (hfits : size ≤ cfg.maxFileBytes) : Refused cfg 0 resp := by
  refine ⟨h.1, ?_⟩
  have hr := h.2
  generalize messageOf resp = message at hr ⊢
  cases hr with
  | tooLarge hlarge => exact absurd hlarge (by omega)
  | client => exact .client
  | locked remaining => exact .locked remaining
  | password => exact .password
  | permission => exact .permission

theorem opened_iff {size : Nat} {log : List ClientEvent} {out : Except ClientEnding DecryptResult}
    (h : Reopened cfg p content size log out) (hu : Undisturbed cfg log) :
    (∃ d, out = .ok d ∧ d.data = content) ↔ size ≤ cfg.maxFileBytes := by
  cases h with
  | opened hfits hdata _ _ => exact ⟨fun _ => hfits, fun _ => ⟨_, rfl, hdata⟩⟩
  | failed hm he => exact absurd (hu.calls _ hm) (by simp [he])
  | refused hm hr =>
    constructor
    · rintro ⟨d, hd, -⟩
      cases hd
    · exact fun hfits => absurd (refused_of_size hr hfits) (hu.accepted _ hm)

/-- **An encrypted file comes back.** Whatever is asked later for what a successful call has written:
an opening that fails has met a failed call or a refusal, never a file, a key or a digest that cannot
be made out; and one that meets neither gives back the bytes exactly if the ciphertext is within the
server's limit. -/
theorem encrypted_file_returns (hinv : CryptoEngine.Inverts lib) (hlen : CryptoEngine.Lengths lib)
    (hname : lf ∉ fileName p.filePath) (hmode : KeyKept client p)
    {real : Bytes → Bytes} {it : Iteration} {e : Endpoint} {before : Bytes → Option Bytes} {u : Link}
    (henc : Runs (linked (encrypts cfg kdf lib store) real)
      ((encryptFile it e (jobOf client p) {}).go ()) { content := before } (.ok result, ()) u) :
    ∃ content file, before (real p.filePath) = some content ∧ Written real (jobOf client p) file u ∧
      ∀ {files : Bytes → Option Bytes} {real' : Bytes → Bytes} {after : Bytes → Option Bytes}
        {client' : ClientConfig} {e' : Endpoint} {opening : DecryptParams}
        {out : Except ClientEnding DecryptResult} {z : Link},
        Later cfg store.files files → after (real' opening.filePath) = some file →
        Runs (linked (decrypts cfg kdf lib files) real') ((decryptFile client' e' opening).go ())
          { content := after } (out, ()) z →
        (∀ message, out = .error (.failed message) → ∀ front ∈ unreadable, ¬ front <+: message) ∧
        (Undisturbed cfg z.log → ((∃ d, out = .ok d ∧ d.data = content) ↔
          CryptoEngine.sealedSize lib p.cipher content.length ≤ cfg.maxFileBytes)) := by
  obtain ⟨content, sent, hcontent, hsealed, hwritten⟩ := runs_of_wp (encryptFile_spec it e) henc
  refine ⟨content, _, hcontent, hwritten, fun hlater hfile hdec => ?_⟩
  have hends := reopened hinv hname hmode hsealed hlater hfile hdec
  refine ⟨fun message hm front hf => reopened_readable (hm ▸ hends) hf, fun hu => ?_⟩
  rw [← length_sealed hlen hname hmode hsealed]
  exact opened_iff hends hu

/-! ## However often it is opened -/

/-- A file in use: how it was encrypted last, the records of the server and the disk of the client.
Others come in between, and what an opening gave back is encrypted again over it. -/
inductive InUse (cfg : ServerConfig) (kdf : PasswordKdf) (lib : CryptoLibrary) (real : Bytes → Bytes)
    (path content : Bytes) : EncryptParams → (Bytes → Option Bytes) → (Bytes → Option Bytes) → Prop
  | encrypted {client : ClientConfig} {p : EncryptParams} {it : Iteration} {e : Endpoint}
      {before : Bytes → Option Bytes} {store : StoreWorld} {result : EncryptResult} {u : Link}
      (hpath : p.filePath = path) (hmode : KeyKept client p) (hcontent : before (real path) = some content)
      (henc : Runs (linked (encrypts cfg kdf lib store) real)
        ((encryptFile it e (jobOf client p) {}).go ()) { content := before } (.ok result, ()) u) :
      InUse cfg kdf lib real path content p store.files u.content
  | later {p : EncryptParams} {files files' disk disk' : Bytes → Option Bytes}
      (h : InUse cfg kdf lib real path content p files disk) (hlater : Later cfg files files')
      (hsame : disk' (real path) = disk (real path)) : InUse cfg kdf lib real path content p files' disk'
  | resealed {p p' : EncryptParams} {files disk before : Bytes → Option Bytes}
      {client client' : ClientConfig} {e e' : Endpoint} {opening : DecryptParams} {d : DecryptResult}
      {z u : Link} {it : Iteration} {store : StoreWorld} {result : EncryptResult}
      (h : InUse cfg kdf lib real path content p files disk) (hopening : opening.filePath = path)
      (hdec : Runs (linked (decrypts cfg kdf lib files) real) ((decryptFile client' e' opening).go ())
        { content := disk } (.ok d, ()) z)
      (hpath : p'.filePath = path) (hmode : KeyKept client p')
      (henc : Runs (linked (encrypts cfg kdf lib store) real)
        ((encryptData it e (jobOf client p') {} d.data).go ()) { content := before } (.ok result, ()) u) :
      InUse cfg kdf lib real path content p' store.files u.content

section
variable {real : Bytes → Bytes} {path : Bytes} {files disk : Bytes → Option Bytes}
  (hinv : CryptoEngine.Inverts lib) (hname : lf ∉ fileName path)
  (hcph : real (path ++ bytes ".cph") ≠ real path) (hkey : real (path ++ bytes ".key") ≠ real path)
include hinv hname hcph hkey

/-- The file of a use is what was sealed last, and its records stand. -/
theorem sealed_inUse (h : InUse cfg kdf lib real path content p files disk) :
    ∃ client store result sent it, p.filePath = path ∧ KeyKept client p ∧
      Sealed (encrypts cfg kdf lib store) (jobOf client p) content result sent ∧
      Later cfg store.files files ∧ disk (real path) = some (container it (jobOf client p) result sent) := by
  induction h with
  | @encrypted client p it e before store result u hpath hmode hcontent henc =>
    subst hpath
    obtain ⟨content', sent, hcontent', hsealed, -, hfile⟩ := runs_of_wp (encryptFile_spec it e) henc
    obtain rfl := Option.some.inj (hcontent'.symm.trans hcontent)
    exact ⟨client, store, result, sent, it, rfl, hmode, hsealed, .refl, hfile hcph hkey⟩
  | later h hlater hsame ih =>
    obtain ⟨client, store, result, sent, it, hpath, hmode, hsealed, hbefore, hfile⟩ := ih
    exact ⟨client, store, result, sent, it, hpath, hmode, hsealed, hbefore.trans hlater, hsame.trans hfile⟩
  | @resealed p p' files disk before client client' e e' opening d z u it store result h hopening hdec hpath
      hmode henc ih =>
    obtain ⟨client₀, store₀, result₀, sent₀, it₀, hpath₀, hmode₀, hsealed₀, hlater, hfile⟩ := ih
    have hends := reopened hinv (hpath₀ ▸ hname) hmode₀ hsealed₀ hlater (hopening ▸ hfile) hdec
    -- what the opening gave back is the content again
    have hdata : d.data = content := by
      cases hends with
      | opened _ hdata _ _ => exact hdata
    subst hpath
    obtain ⟨sent, hsealed, -, hfile'⟩ := runs_of_wp (encryptData_spec it e d.data) henc
    exact ⟨client, store, result, sent, it, rfl, hmode, hdata ▸ hsealed, .refl, hfile' hcph hkey⟩

/-- **An encrypted file opens again**, however often it was opened and encrypted again: each opening
gives back the first content, with the cipher and hash chosen last, unless a call fails or the checks
refuse the request. Its name holds no line feed, what is reported as written is there, the records
stand under fresh numbers, and the library opens what it sealed. -/
theorem encrypted_file_opens (h : InUse cfg kdf lib real path content p files disk) {real' : Bytes → Bytes}
    {after : Bytes → Option Bytes} {client' : ClientConfig} {e : Endpoint} {opening : DecryptParams}
    (hsame : after (real' opening.filePath) = disk (real path))
    {out : Except ClientEnding DecryptResult} {z : Link}
    (hdec : Runs (linked (decrypts cfg kdf lib files) real')
      ((decryptFile client' e opening).go ()) { content := after } (out, ()) z) :
    ∃ file size, disk (real path) = some file ∧ size ≤ file.length ∧
      Reopened cfg p content size z.log out := by
  obtain ⟨client, store, result, sent, it, hpath, hmode, hsealed, hlater, hfile⟩ :=
    sealed_inUse hinv hname hcph hkey h
  refine ⟨_, sent.length, hfile, ?_, ?_⟩
  · rw [container, List.length_append]
    omega
  · exact reopened hinv (hpath ▸ hname) hmode hsealed hlater (hsame.trans hfile) hdec

end

/-! ## One file there and back -/

end ClientCore

namespace Server

/-- Numbers are drawn by how many calls there were, from `draws` on. -/
def sessionAnswer (draws : Nat) (payload : Bytes) (w : StoreWorld) (c : ServerCall) : c.Reply × StoreWorld :=
  let r : c.Reply := match c with
    | .random n => (true, Vector.replicate n (UInt8.ofNat (draws + w.log.length)))
    | .receive n => if h : n ≤ payload.length then some ⟨(payload.take n).toArray, by simp [h]⟩ else none
    | .readFile path => w.files path
    | c => c.plain 0
  let files : Bytes → Option Bytes := match c with
    | .writeFile path b => Function.update w.files path (some b)
    | _ => w.files
  (r, { files := files, log := w.log ++ [⟨c, r⟩] })

theorem sound_session (cfg : ServerConfig) (draws : Nat) (payload : Bytes) (w : StoreWorld) (c : ServerCall)
    (h : recordsFit w c = true) :
    sound cfg w c (sessionAnswer draws payload w c).1 (sessionAnswer draws payload w c).2 := by
  cases c with
  | writeFile path b =>
    obtain ⟨hlast, hnone⟩ := Bool.and_eq_true_iff.mp h
    refine ⟨⟨rfl, fun p hp => Function.update_of_ne hp _ _⟩, ?_⟩
    exact ⟨hlast, Option.isNone_iff_eq_none.mp hnone, fun _ => Function.update_self .., fun _ => rfl⟩
  | _ => exact ⟨⟨rfl, rfl⟩, trivial⟩

theorem channel_session (draws : Nat) (payload : Bytes) (w : StoreWorld) (c : ServerCall) :
    Channel payload c (sessionAnswer draws payload w c).1 := by
  cases c with
  | receive n =>
    by_cases hn : n ≤ payload.length
    · simp [Channel, sessionAnswer, hn, Vector.toList]
    · simp [Channel, sessionAnswer, hn]
  | _ => exact trivial

theorem served_session (cfg : ServerConfig) (draws : Nat) (payload : Bytes) (w : StoreWorld) (c : ServerCall)
    (h : recordsFit w c = true) :
    served cfg payload w c (sessionAnswer draws payload w c).1 (sessionAnswer draws payload w c).2 :=
  ⟨sound_session cfg draws payload w c h, channel_session draws payload w c⟩

theorem shared_session (cfg : ServerConfig) (draws : Nat) (payload : Bytes) (w : StoreWorld) (c : ServerCall)
    (h : recordsFit w c = true) :
    shared cfg payload w c (sessionAnswer draws payload w c).1 (sessionAnswer draws payload w c).2 := by
  refine ⟨w, rfl, .refl, sound_session cfg draws payload w c h, channel_session draws payload w c, ?_⟩
  cases c with
  | readFile path => rfl
  | _ => exact trivial

def firstAnswer : List Event → Option (Header × Bytes)
  | [] => none
  | ⟨.sendHeader h, _⟩ :: log => some (h, sentBytes log)
  | _ :: log => firstAnswer log

theorem firstAnswer_some {h : Header} {behind : Bytes} {log : List Event}
    (hf : firstAnswer log = some (h, behind)) :
    ∃ before after r, log = before ++ ⟨.sendHeader h, r⟩ :: after ∧ behind = sentBytes after := by
  induction log with
  | nil => cases hf
  | cons ev log ih =>
    obtain ⟨c, r⟩ := ev
    by_cases hc : ∃ h', c = .sendHeader h'
    · obtain ⟨h', hh⟩ := hc
      subst hh
      cases hf
      exact ⟨[], log, r, rfl, rfl⟩
    · have hrest : firstAnswer log = some (h, behind) := by
        cases c <;> first | exact hf | exact absurd ⟨_, rfl⟩ hc
      obtain ⟨before, after, r', hlog, hbehind⟩ := ih hrest
      exact ⟨⟨c, r⟩ :: before, after, r', by rw [hlog, List.cons_append], hbehind⟩

def arrivesWhole (h : Header) (behind : Bytes) : Bool :=
  (Header.read 65536 (h.serialize .stored ++ behind)).map (fun r => (r.1.fields.entries, r.2)) ==
    some ((Header.parse (h.serialize .stored)).fields.entries, behind)

theorem arrives_whole {h : Header} {behind : Bytes} (hw : arrivesWhole h behind = true) :
    Arrives 65536 h behind (Header.parse (h.serialize .stored)) behind := by
  obtain ⟨⟨got, rest⟩, hread, he⟩ := Option.map_eq_some_iff.mp (eq_of_beq hw)
  obtain ⟨hentries, hrest⟩ := Prod.mk.inj he
  have hgot : got = Header.parse (h.serialize .stored) := congrArg Header.mk (AList.ext hentries)
  refine ⟨.stored, ?_⟩
  rw [hread, hgot]
  exact congrArg (fun rest => some (Header.parse (h.serialize .stored), rest)) hrest

/-- Bob's request, and the server that it comes to. -/
structure Talk where
  cfg : ServerConfig
  lib : CryptoLibrary
  draws : Nat
  files : Bytes → Option Bytes
  request : Header
  payload : Bytes

namespace Talk

variable (t : Talk)

def handled : ServerProgram (Except Unit Unit × ServerState) :=
  (handleRequest t.cfg zeroKdf t.lib false (Header.parse (t.request.serialize .stored))).go bobsState

def session : StoreWorld := (exec (sessionAnswer t.draws t.payload) t.handled { files := t.files }).2

def answer : Header × Bytes := (firstAnswer t.session.log).getD ({}, [])

def reply : Header := Header.parse (t.answer.1.serialize .stored)

def fits : Bool :=
  t.cfg.maxHeaderBytes == 65536 && arrivesWhole t.request t.payload &&
    execMeets (sessionAnswer t.draws t.payload) recordsFit t.handled { files := t.files } &&
    (firstAnswer t.session.log).isSome && arrivesWhole t.answer.1 t.answer.2

variable {t}

theorem replies {env : Bytes → Env StoreWorld ServerCall ServerCall.Reply} {told : Header → Prop}
    (henv : ∀ w c, recordsFit w c = true →
      env t.payload w c (sessionAnswer t.draws t.payload w c).1 (sessionAnswer t.draws t.payload w c).2)
    (hfits : t.fits = true) (htold : told t.answer.1) :
    Replies t.cfg zeroKdf t.lib env t.files t.session told t.request t.payload t.reply t.answer.2 := by
  simp only [fits, Bool.and_eq_true] at hfits
  obtain ⟨⟨⟨⟨hlimit, hrequest⟩, hmeets⟩, hsome⟩, hwhole⟩ := hfits
  obtain ⟨first, hfirst⟩ := Option.isSome_iff_exists.mp hsome
  have hanswer : t.answer = first := by rw [answer, hfirst, Option.getD_some]
  rw [← hanswer] at hfirst
  obtain ⟨before, after, r, hlog, hbehind⟩ := firstAnswer_some hfirst
  refine ⟨Header.parse (t.request.serialize .stored), t.answer.1, t.payload, bobsState, before, after, r,
    ?_, ?_, hlog, htold, ?_⟩
  · rw [eq_of_beq hlimit]
    exact arrives_whole hrequest
  · exact visits_of_runs (runs_execMeets henv _ _ hmeets)
  · exact hbehind ▸ arrives_whole hwhole

theorem encrypts_of_fits (hfits : t.fits = true) (hok : t.answer.1.get (bytes "status") = bytes "ok") :
    encrypts t.cfg zeroKdf t.lib t.session t.request t.payload t.reply t.answer.2 :=
  ⟨t.files, replies (served_session t.cfg t.draws _) hfits hok⟩

theorem decrypts_of_fits (hfits : t.fits = true) :
    decrypts t.cfg zeroKdf t.lib t.files t.request t.payload t.reply t.answer.2 :=
  ⟨t.session, replies (shared_session t.cfg t.draws _) hfits trivial⟩

end Talk

end Server

namespace ClientCore

def deskAnswer (resp : Header) (behind : Bytes) (w : Link) (c : ClientCall) : c.Reply × Link :=
  let r : c.Reply := match c with
    | .readFile path => w.content path
    | .writeFile _ data => .written data
    | .remove _ => ()
    | .logError _ => none
    | .netInit | .sendHeader _ | .sendData _ | .resize _ => true
    | .connect .. | .tlsInit | .tlsConnect _ => .ok ()
    | .readHeader _ => some resp
    | .receive n =>
      if h : n ≤ w.unread.length then some ⟨(w.unread.take n).toArray, by simp [h]⟩ else none
  (r, {
    content := match c with
      | .writeFile path data => Function.update w.content path (some data)
      | _ => w.content
    log := w.log ++ [⟨c, r⟩]
    request := match c with
      | .connect .. => none
      | .sendHeader h => some h
      | _ => w.request
    payload := match c with
      | .connect .. => []
      | .sendData b => b
      | _ => w.payload
    unread := match c with
      | .readHeader _ => behind
      | _ => w.unread })

def deskFit (request : Header) (payload : Bytes) (w : Link) : ClientCall → Bool
  | .readHeader _ => w.request.map (fun h => h.fields.entries) == some request.fields.entries &&
      w.payload == payload
  | _ => true

theorem linked_desk {peer : Peer} {request resp : Header} {payload behind : Bytes}
    (hpeer : peer request payload resp behind) (w : Link) (c : ClientCall)
    (h : deskFit request payload w c = true) :
    linked peer id w c (deskAnswer resp behind w c).1 (deskAnswer resp behind w c).2 := by
  cases c with
  | readFile path => exact ⟨⟨⟨rfl, .inr rfl⟩, rfl⟩, ⟨rfl, rfl, rfl⟩, trivial⟩
  | writeFile path data => exact ⟨⟨⟨List.prefix_rfl, rfl⟩, rfl⟩, ⟨rfl, rfl, rfl⟩, rfl⟩
  | remove path => exact ⟨⟨.inl rfl, rfl⟩, ⟨rfl, rfl, rfl⟩, trivial⟩
  | logError message => exact ⟨⟨rfl, rfl⟩, ⟨rfl, rfl, rfl⟩, trivial⟩
  | readHeader max =>
    obtain ⟨hrequest, hpayload⟩ := Bool.and_eq_true_iff.mp h
    refine ⟨⟨rfl, rfl⟩, fun resp' hr => ?_, trivial⟩
    obtain rfl := Option.some.inj hr
    obtain ⟨h', hh, he⟩ := Option.map_eq_some_iff.mp (eq_of_beq hrequest)
    have hsame : h' = request := congrArg Header.mk (AList.ext he)
    exact ⟨h', hh, hsame ▸ eq_of_beq hpayload ▸ hpeer⟩
  | receive n =>
    refine ⟨⟨rfl, rfl⟩, fun data hd => ?_, trivial⟩
    by_cases hn : n ≤ w.unread.length
    · simp only [deskAnswer, hn, dite_true, Option.some.injEq] at hd
      rw [← hd]
      exact List.take_prefix n w.unread
    · simp [deskAnswer, hn] at hd
  | connect host port => exact ⟨⟨rfl, rfl⟩, ⟨rfl, rfl⟩, trivial⟩
  | sendHeader h => exact ⟨⟨rfl, rfl⟩, ⟨rfl, rfl⟩, trivial⟩
  | sendData b => exact ⟨⟨rfl, rfl⟩, ⟨rfl, rfl⟩, trivial⟩
  | _ => exact ⟨⟨rfl, rfl⟩, ⟨rfl, rfl, rfl⟩, trivial⟩

section
variable {α : Type} (t : Talk) (x : ClientProgram α) (disk : Bytes → Option Bytes)

def atDesk : (Except ClientEnding α × Unit) × Link :=
  exec (deskAnswer t.reply t.answer.2) (x.go ()) { content := disk }

def deskFits : Bool :=
  t.fits && execMeets (deskAnswer t.reply t.answer.2) (deskFit t.request t.payload) (x.go ())
    { content := disk }

variable {t x disk}

theorem runs_encrypts (h : deskFits t x disk = true) (hok : t.answer.1.get (bytes "status") = bytes "ok") :
    Runs (linked (encrypts t.cfg zeroKdf t.lib t.session) id) (x.go ()) { content := disk }
      (atDesk t x disk).1 (atDesk t x disk).2 := by
  obtain ⟨hfits, hmeets⟩ := Bool.and_eq_true_iff.mp h
  exact runs_execMeets (linked_desk (Talk.encrypts_of_fits hfits hok)) _ _ hmeets

theorem runs_decrypts (h : deskFits t x disk = true) :
    Runs (linked (decrypts t.cfg zeroKdf t.lib t.files) id) (x.go ()) { content := disk }
      (atDesk t x disk).1 (atDesk t x disk).2 := by
  obtain ⟨hfits, hmeets⟩ := Bool.and_eq_true_iff.mp h
  exact runs_execMeets (linked_desk (Talk.decrypts_of_fits hfits)) _ _ hmeets

end

theorem exists_of_isOk {ε α : Type} {x : Except ε α} (h : x.isOk = true) : ∃ a, x = .ok a := by
  cases x with
  | ok a => exact ⟨a, rfl⟩
  | error e => simp [Except.isOk, Except.toBool] at h

def desk : Endpoint := ⟨[], 7443⟩

def noteParams (cipher : Cipher) : EncryptParams := { sampleParams notes with cipher := cipher }

def openingNotes : DecryptParams := ⟨(sampleParams notes).username, (sampleParams notes).password, notes⟩

/-- This content is encrypted, from the file or `again`, and opened. -/
structure Round where
  cfg : ServerConfig
  lib : CryptoLibrary
  cipher : Cipher
  content : Bytes
  draws : Nat := 0
  before : Bytes → Option Bytes := fun path => if path = notes then some content else none
  again : Bool := false

namespace Round

variable (t : Round)

def params : EncryptParams := noteParams t.cipher

def job : EncryptJob := jobOf sampleConfig t.params

/-- The server's side of an encryption. -/
def sealing : Talk :=
  ⟨t.cfg, t.lib, t.draws, fun _ => none, encryptRequest sampleConfig t.params t.content, t.content⟩

/-- The server's side of an opening. -/
def asking (store : StoreWorld) (disk : Bytes → Option Bytes) : Talk :=
  match readEmbeddedFile (disk notes) with
  | .embedded header ciphertext =>
    match extractMetadata header with
    | .ok m => ⟨t.cfg, t.lib, 0, store.files, decryptRequest sampleConfig openingNotes m ciphertext, ciphertext⟩
    | .error _ => ⟨t.cfg, t.lib, 0, store.files, {}, []⟩
  | _ => ⟨t.cfg, t.lib, 0, store.files, {}, []⟩

def encrypting : ClientProgram EncryptResult :=
  bif t.again then encryptData .stored desk t.job {} t.content else encryptFile .stored desk t.job {}

def opening : ClientProgram DecryptResult := decryptFile sampleConfig desk openingNotes

def encrypted : (Except ClientEnding EncryptResult × Unit) × Link := atDesk t.sealing t.encrypting t.before

def disk : Bytes → Option Bytes := t.encrypted.2.content

def asked : Talk := t.asking t.sealing.session t.disk

def opened : (Except ClientEnding DecryptResult × Unit) × Link := atDesk t.asked opening t.disk

def encrypts : Bool :=
  t.encrypted.1.1.isOk && deskFits t.sealing t.encrypting t.before &&
    t.sealing.answer.1.get (bytes "status") == bytes "ok"

def opens : Bool := deskFits t.asked opening t.disk

variable {t}

theorem encrypted_runs (h : t.encrypts = true) : ∃ result,
    Runs (linked (Server.encrypts t.cfg zeroKdf t.lib t.sealing.session) id)
      (t.encrypting.go ()) { content := t.before }
      (.ok result, ()) t.encrypted.2 := by
  simp only [encrypts, Bool.and_eq_true] at h
  obtain ⟨⟨hok, hfits⟩, hstatus⟩ := h
  obtain ⟨result, hresult⟩ := exists_of_isOk hok
  have hpair : t.encrypted.1 = (.ok result, ()) := Prod.ext hresult (Subsingleton.elim _ _)
  have hrun := runs_encrypts hfits (eq_of_beq hstatus)
  rw [show (atDesk t.sealing t.encrypting t.before).1 = (.ok result, ()) from hpair] at hrun
  exact ⟨result, hrun⟩

theorem opened_runs (h : t.opens = true) :
    Runs (linked (decrypts t.cfg zeroKdf t.lib t.sealing.session.files) id)
      ((decryptFile sampleConfig desk openingNotes).go ()) { content := t.disk } (t.opened.1.1, ())
      t.opened.2 := by
  have hrun := runs_decrypts h
  have hsame (store : StoreWorld) (disk : Bytes → Option Bytes) :
      (t.asking store disk).cfg = t.cfg ∧ (t.asking store disk).lib = t.lib ∧
        (t.asking store disk).files = store.files := by
    unfold asking
    split
    · split <;> exact ⟨rfl, rfl, rfl⟩
    · exact ⟨rfl, rfl, rfl⟩
  obtain ⟨hcfg, hlib, hfiles⟩ := hsame t.sealing.session t.disk
  rw [asked, hcfg, hlib, hfiles] at hrun
  exact hrun

end Round

/-! ### A library that fills up its blocks -/

def padded (block : Nat) (data : Bytes) : Bytes :=
  let fill := block - data.length % block
  data ++ List.replicate fill (UInt8.ofNat fill)

def unpadded (data : Bytes) : Bytes := data.take (data.length - (data.getLast?.getD 0).toNat)

theorem unpadded_padded {block : Nat} (hpos : 0 < block) (hsmall : block < 256) (data : Bytes) :
    unpadded (padded block data) = data := by
  have hmod := Nat.mod_lt data.length hpos
  have hfill : 0 < block - data.length % block := by omega
  have hbyte : block - data.length % block < 256 := by omega
  unfold unpadded padded
  dsimp only
  generalize block - data.length % block = fill at hfill hbyte
  have hlast : (data ++ List.replicate fill (UInt8.ofNat fill)).getLast? = some (UInt8.ofNat fill) := by
    rw [List.getLast?_append_of_ne_nil _ (by simp; omega)]
    simp [List.getLast?_replicate]
    omega
  have hlen : (data ++ List.replicate fill (UInt8.ofNat fill)).length -
      (UInt8.ofNat fill).toNat = data.length := by
    simp
    omega
  rw [hlast, Option.getD_some, hlen, List.take_left]

/-- Nothing is hidden, but the blocks are filled up where the library does so. -/
def blockLibrary : CryptoLibrary where
  cipherByName name :=
    if name = bytes "aes-256-cbc" then some ⟨32, 16, 16, .cbc⟩ else copyLibrary.cipherByName name
  sealCipher call := .ok (if call.padding = some true then padded (blockSize call.name) call.data
    else call.data, Vector.replicate 16 0)
  openCipher call := .ok (if call.padding = some true then unpadded call.data else call.data)
  sha256 := copyLibrary.sha256
  sha512 := copyLibrary.sha512
  digestByName _ := none
  gost := none
where
  blockSize (name : Bytes) : Nat := if name = bytes "aes-256-cbc" then 16 else 1

theorem block_inverts : CryptoEngine.Inverts blockLibrary where
  evp call data tag h := by
    cases h
    have hblock : 0 < blockLibrary.blockSize call.name ∧ blockLibrary.blockSize call.name < 256 := by
      unfold blockLibrary.blockSize
      split <;> simp
    by_cases hp : call.padding = some true
    · simp [blockLibrary, hp, unpadded_padded hblock.1 hblock.2]
    · simp [blockLibrary, hp]
  gost gost h := by cases h

theorem block_lengths : CryptoEngine.Lengths blockLibrary := by
  intro call data tag evp h hname
  cases h
  have hblock : evp.blockSize = blockLibrary.blockSize call.name := by
    unfold blockLibrary.blockSize
    by_cases hc : call.name = bytes "aes-256-cbc"
    · simp [blockLibrary, hc] at hname
      simp [hc, ← hname]
    · have hother : copyLibrary.cipherByName call.name = some evp := by
        simpa [blockLibrary, hc] using hname
      unfold copyLibrary at hother
      dsimp only at hother
      split at hother
      · cases hother
        simp [hc]
      · cases hother
  by_cases hp : call.padding = some true
  · simp [hp, padded, hblock]
  · simp [hp]

def noteRound : Round where
  cfg := fileConfig
  lib := blockLibrary
  cipher := .aes256Ctr
  content := [1, 2, 3]

/-- What the first round gave back is encrypted again, with another cipher. -/
def noteRoundAgain : Round where
  cfg := fileConfig
  lib := blockLibrary
  cipher := .aes256Cbc
  content := [1, 2, 3]
  draws := 100
  before := noteRound.opened.2.content
  again := true

/-- As many bytes as the server admits, in whole blocks. -/
def fullRound : Round where
  cfg := { fileConfig with maxFileBytes := 16 }
  lib := blockLibrary
  cipher := .aes256Cbc
  content := List.replicate 16 7

def givesBack (out : Except ClientEnding DecryptResult) (data : Bytes) : Bool :=
  match out with
  | .ok d => d.data == data
  | .error _ => false

def tooLarge : Except ClientEnding DecryptResult → Bool
  | .error (.failed message) => message == bytes "File too large"
  | _ => false

/-- No call failed, and the answer is good or names the size. -/
def smooth (log : List ClientEvent) : Bool :=
  log.all fun ev => (endingOf ev).isNone &&
    match ev with
    | ⟨.readHeader _, some resp⟩ =>
      resp.get (bytes "status") == bytes "ok" || messageOf resp == bytes "File too large"
    | _ => true

theorem rounds_computed :
    (noteRound.encrypts = true ∧ noteRound.opens = true ∧ givesBack noteRound.opened.1.1 [1, 2, 3] = true) ∧
    (noteRoundAgain.encrypts = true ∧ noteRoundAgain.opens = true ∧
      givesBack noteRoundAgain.opened.1.1 [1, 2, 3] = true) ∧
    fullRound.encrypts = true ∧ fullRound.opens = true ∧ tooLarge fullRound.opened.1.1 = true ∧
      smooth noteRound.opened.2.log = true ∧ smooth fullRound.opened.2.log = true := by
  decide +kernel

theorem not_refused_large (cfg : ServerConfig) (denied : Bytes) (hd : denied ≠ bytes "File too large") :
    ¬ Refusal cfg 0 denied (bytes "File too large") := by
  intro h
  generalize hm : bytes "File too large" = message at h
  cases h with
  | tooLarge hlarge => omega
  | client => exact absurd hm (by decide)
  | locked remaining =>
    have hfront : bytes "Account locked. Try again in " <+: bytes "File too large" := by
      rw [hm, lockedMessage, List.append_assoc]
      exact List.prefix_append _ _
    exact absurd hfront (by decide)
  | password => exact absurd hm (by decide)
  | permission => exact hd hm.symm

theorem undisturbed_of_smooth (cfg : ServerConfig) {log : List ClientEvent} (h : smooth log = true) :
    Undisturbed cfg log := by
  have hev (ev : ClientEvent) (hm : ev ∈ log) := List.all_eq_true.mp h ev hm
  constructor
  · intro ev hm
    simpa using (Bool.and_eq_true_iff.mp (hev ev hm)).1
  · rintro resp hm ⟨hstatus, hr⟩
    have hresp := (Bool.and_eq_true_iff.mp (hev _ hm)).2
    rcases Bool.or_eq_true_iff.mp hresp with hok | hlarge
    · rw [eq_of_beq hok] at hstatus
      exact absurd hstatus (by decide)
    · rw [eq_of_beq hlarge] at hr
      exact not_refused_large cfg _ (by decide) hr

theorem ok_of_givesBack {out : Except ClientEnding DecryptResult} {data : Bytes}
    (h : givesBack out data = true) : ∃ d, out = .ok d ∧ d.data = data := by
  cases out with
  | ok d => exact ⟨d, rfl, eq_of_beq h⟩
  | error e => cases h

theorem error_of_tooLarge {out : Except ClientEnding DecryptResult} (h : tooLarge out = true) :
    out = .error (.failed (bytes "File too large")) := by
  unfold tooLarge at h
  split at h
  · rw [eq_of_beq h]
  · cases h

theorem encrypted_file_returns_notes :
    ∃ d, noteRound.opened.1.1 = .ok d ∧ d.data = [1, 2, 3] := by
  obtain ⟨hencrypts, hopens, -⟩ := rounds_computed.1
  have hsmooth := rounds_computed.2.2.2.2.2.1
  obtain ⟨result, henc⟩ := Round.encrypted_runs hencrypts
  have hkept : KeyKept sampleConfig noteRound.params := .inl (by decide)
  obtain ⟨content, file, hcontent, hwritten, hlater⟩ :=
    encrypted_file_returns block_inverts block_lengths (by decide) hkept henc
  have hnotes : content = [1, 2, 3] := (Option.some.inj hcontent).symm
  have hfile : noteRound.disk notes = some file := hwritten.2 (by decide) (by decide)
  obtain ⟨-, hiff⟩ := hlater .refl hfile (Round.opened_runs hopens)
  have hsize : CryptoEngine.sealedSize blockLibrary .aes256Ctr content.length ≤ 104857600 := by
    rw [hnotes]
    decide +kernel
  obtain ⟨d, hd, hdata⟩ := (hiff (undisturbed_of_smooth _ hsmooth)).mpr hsize
  exact ⟨d, hd, hdata.trans hnotes⟩

theorem encrypted_file_opens_again :
    ∃ d, noteRoundAgain.opened.1.1 = .ok d ∧ d.data = [1, 2, 3] ∧ d.cipher = .aes256Cbc := by
  obtain ⟨⟨hencrypts, hopens, hback⟩, ⟨hagain, hreopens, hgood⟩, -⟩ := rounds_computed
  obtain ⟨result, henc⟩ := Round.encrypted_runs hencrypts
  obtain ⟨result', henc'⟩ := Round.encrypted_runs hagain
  obtain ⟨d, hd, hdata⟩ := ok_of_givesBack hback
  obtain ⟨d', hd', -⟩ := ok_of_givesBack hgood
  have hdec := Round.opened_runs hopens
  rw [hd] at hdec
  have hdec' := Round.opened_runs hreopens
  rw [hd'] at hdec'
  have hkept : KeyKept sampleConfig noteRound.params := .inl (by decide)
  have hkept' : KeyKept sampleConfig noteRoundAgain.params := .inl (by decide)
  have huse : InUse fileConfig zeroKdf blockLibrary id notes [1, 2, 3] noteRound.params
      noteRound.sealing.session.files noteRound.disk :=
    .encrypted rfl hkept rfl henc
  have huse' : InUse fileConfig zeroKdf blockLibrary id notes [1, 2, 3] noteRoundAgain.params
      noteRoundAgain.sealing.session.files noteRoundAgain.disk :=
    .resealed huse rfl hdec rfl hkept' (by rw [hdata]; exact henc')
  have hsame : noteRoundAgain.disk (id openingNotes.filePath) = noteRoundAgain.disk (id notes) := rfl
  obtain ⟨file, size, -, -, hend⟩ :=
    encrypted_file_opens block_inverts (by decide) (by decide) (by decide) huse' hsame hdec'
  cases hend with
  | opened _ hdata hcipher _ => exact ⟨d', hd', hdata, hcipher⟩

/-- Sixteen bytes under the limit become too many. -/
theorem full_file_stays_sealed :
    CryptoEngine.Inverts blockLibrary ∧ CryptoEngine.Lengths blockLibrary ∧
    fullRound.content.length ≤ fullRound.cfg.maxFileBytes ∧
    fullRound.before notes = some fullRound.content ∧
    (∃ result, Runs (linked (encrypts fullRound.cfg zeroKdf blockLibrary fullRound.sealing.session) id)
      ((encryptFile .stored desk (jobOf sampleConfig (noteParams .aes256Cbc)) {}).go ())
      { content := fullRound.before } (.ok result, ()) fullRound.encrypted.2) ∧
    Runs (linked (decrypts fullRound.cfg zeroKdf blockLibrary fullRound.sealing.session.files) id)
      ((decryptFile sampleConfig desk openingNotes).go ()) { content := fullRound.encrypted.2.content }
      (.error (.failed (bytes "File too large")), ()) fullRound.opened.2 ∧
    Undisturbed fullRound.cfg fullRound.opened.2.log := by
  obtain ⟨-, -, hencrypts, hopens, hlarge, -, hsmooth⟩ := rounds_computed
  have hdec := Round.opened_runs hopens
  rw [error_of_tooLarge hlarge] at hdec
  exact ⟨block_inverts, block_lengths, by decide, rfl, Round.encrypted_runs hencrypts, hdec,
    undisturbed_of_smooth _ hsmooth⟩

end ClientCore

end EncoderNext
