import EncoderNext.Decimal
import EncoderNext.Interleaving

/-!
# The migration of the current network

`apply_wifi_migration.py` takes the network out of Netplan's hands once, with a timer that takes
everything back unless the change was committed. Either side may be killed between any two of
its calls; what is left is then found by the next rollback.
-/

namespace EncoderNext

open Program

namespace Migration

/-! ## The surroundings -/

/-- `OLD`, `NEW` and `OVERRIDE`, then the two files of `STATE`. -/
inductive Place where
  | old | new | override | phase | original
  deriving DecidableEq

inductive Folder where
  | state | policy | runtime
  deriving DecidableEq

def Place.folder : Place → Option Folder
  | old | new => none
  | override => some .policy
  | phase | original => some .state

/-- What `prepare_wifi_migration.py` left, the digest without the blanks around it. -/
inductive Prepared where
  | digest | draft | policy

structure World where
  file : Place → Option Bytes
  stage : Place → Option Bytes
  link : Place → Bool
  folder : Folder → Bool
  prepared : Prepared → Option Bytes

inductive Call where
  | installed
  | baseLink
  | runtimeLink
  | ethernetReady
  | linkReady (ssid : Bytes)
  /-- How many turns of the waiting loop begin before its deadline. -/
  | turns
  | run (command : List String)
  | print (line : String)
  | prepared (p : Prepared)
  | folderExists (d : Folder)
  | makeFolder (d : Folder) (existOk : Bool)
  | setMode (d : Folder)
  | lock
  | fileExists (p : Place)
  | isLink (p : Place)
  | read (p : Place)
  | create (p : Place)
  | write (p : Place) (b : Bytes)
  | sync (p : Place)
  | replace (p : Place)
  | syncFolder (p : Place)
  | unlink (p : Place)

@[reducible] def Call.Answer : Call → Type
  | installed | baseLink | runtimeLink | ethernetReady | linkReady _ | folderExists _ | fileExists _
  | isLink _ => Bool
  | turns => Nat
  | run _ | prepared _ | read _ => Bytes
  | _ => Unit

@[reducible] def Call.Reply (c : Call) : Type := Option c.Answer

def Call.outside : Call → Bool
  | installed | baseLink | runtimeLink | ethernetReady | linkReady _ | turns | run _ | print _ => true
  | _ => false

namespace World
variable (w : World)

def staged (p : Place) (s : Option Bytes) : World := { w with stage := Function.update w.stage p s }

def placed (p : Place) (b : Bytes) : World :=
  { w with
    file := Function.update w.file p (some b)
    stage := Function.update w.stage p none
    link := Function.update w.link p false }

def removed (p : Place) : World :=
  { w with file := Function.update w.file p none, link := Function.update w.link p false }

def withFolder (d : Folder) : World := { w with folder := Function.update w.folder d true }

def reaches (p : Place) : Bool := p.folder.all w.folder

end World

/-- What a call does when nothing fails. A staging file is opened only where there is none. -/
def serve (w : World) : (c : Call) → c.Reply × World
  | .installed => (some true, w)
  | .baseLink | .runtimeLink => (some false, w)
  | .ethernetReady | .linkReady _ => (some true, w)
  | .turns => (some 1, w)
  | .run _ => (some [], w)
  | .print _ => (some (), w)
  | .prepared p => (w.prepared p, w)
  | .folderExists d => (some (w.folder d), w)
  | .makeFolder d existOk =>
    if w.folder d && !existOk then (none, w) else (some (), w.withFolder d)
  | .setMode d => if w.folder d then (some (), w) else (none, w)
  | .lock => if w.folder .state then (some (), w) else (none, w)
  | .fileExists p => (some (w.file p).isSome, w)
  | .isLink p => (some (w.link p), w)
  | .read p => (w.file p, w)
  | .create p =>
    if w.reaches p && (w.stage p).isNone then (some (), w.staged p (some [])) else (none, w)
  | .write p b => (some (), w.staged p (some b))
  | .sync _ | .syncFolder _ => (some (), w)
  | .replace p =>
    match w.stage p with
    | some b => (some (), w.placed p b)
    | none => (none, w)
  | .unlink p => if (w.file p).isSome || w.link p then (some (), w.removed p) else (none, w)

/-- Any call may fail, a write after a part; outside answers are any. -/
def anyEnv : Env World Call Call.Reply := fun w c r w' =>
  (r, w') = serve w c ∨ (w' = w ∧ (c.outside = true ∨ r = none)) ∨
    (r = none ∧ ∃ p b part, c = .write p b ∧ w' = w.staged p (some part))

def workingEnv : Env World Call Call.Reply := fun w c r w' =>
  (r, w') = serve w c ∨ (c.outside = true ∧ r.isSome ∧ w' = w)

/-! ## The script -/

inductive Error where
  | refused (message : String)
  | failed
  deriving DecidableEq

abbrev Fallible := ExceptT Error (Program Call Call.Reply)

def call (c : Call) : Fallible c.Answer := do
  match ← (ask c : Program Call Call.Reply c.Reply) with
  | some a => pure a
  | none => throw .failed

def require (ok : Bool) (message : String) : Fallible Unit := ensure ok (.refused message)

def put (p : Place) (data : Bytes) : Fallible Unit := do
  call (.create p)
  call (.write p data)
  call (.sync p)
  call (.replace p)
  call (.syncFolder p)

def phase (value : Option String) : Fallible Bytes := do
  if let some v := value then put .phase (bytes v)
  call (.read .phase)

def drop (p : Place) : Fallible Unit := do
  if ← call (.fileExists p) then
    require (!(← call (.isLink p))) "Rollback destination redirected"
    call (.unlink p)

def rollback : Fallible Unit := do
  call .lock
  let now ← phase none
  if now = bytes "committed" ∨ now = bytes "restored" then return
  -- the profile first: it stays in place whatever fails later
  put .old (← call (.read .original))
  drop .new
  drop .override
  let _ ← phase (some "restoring")
  let _ ← call (.run ["systemctl", "disable", "--now", "encoder-wifi-recovery.service"])
  let _ ← call (.run ["systemctl", "daemon-reload"])
  let _ ← call (.run ["systemctl", "restart", "netplan-wpa-wlan0.service"])
  let _ ← phase (some "restored")
  call (.print "ROLLBACK: original profile and Wi-Fi service configuration restored")

def policyDigest : Bytes := bytes "88569f8603c6d99c07d4ce40237b1348b22ee2442e7784bd95e94aaa6b43d295"

def base : String := "/root/encoder-wifi-migration-bia2kngj"
def self : String := "/root/encoder-apply-wifi.py"
def timer : String := "encoder-wifi-migration-rollback"

def absent (p : Place) : Fallible Unit := do
  let free ← (do if ← call (.fileExists p) then return false else return !(← call (.isLink p)) :
    Fallible Bool)
  require free "Managed destination already exists"

def ready (ssid : Bytes) : Fallible Bool := do
  if ← call (.linkReady ssid) then call .ethernetReady else return false

/-- The waiting loop, by the turns that begin before the deadline. -/
def await (ssid : Bytes) : Nat → Fallible Unit
  | 0 => throw (.refused "Current network did not return before deadline")
  | n + 1 => do if ← ready ssid then return else await ssid n

def confirms (ssid : Bytes) : Fallible Bool := do
  if (← phase none) = bytes "pending" then
    if ← call .ethernetReady then call (.linkReady ssid) else return false
  else return false

/-- The body of the `try` statement. -/
def migrate (draft policy ssid : Bytes) : Fallible Unit := do
  call .lock
  require ((← phase none) = bytes "pending") "Rollback already began"
  call (.makeFolder .policy true)
  call (.setMode .policy)
  put .new draft
  call (.unlink .old)
  put .override policy
  require (!(← call .runtimeLink)) "Runtime directory redirected"
  call (.makeFolder .runtime true)
  let _ ← call (.run ["/opt/encoder/bin/encoder-wifi-policy-guard", "--check"])
  let _ ← call (.run ["systemctl", "daemon-reload"])
  let _ ← call (.run ["systemctl", "restart", "netplan-wpa-wlan0.service"])
  await ssid (← call .turns)
  let _ ← call (.run ["systemctl", "enable", "--now", "encoder-wifi-recovery.service"])
  let _ ← call (.run ["systemctl", "is-active", "--quiet", "encoder-wifi-recovery.service"])
  let _ ← call (.run ["systemctl", "is-active", "--quiet", "encoder-server.service"])
  call .lock
  require (← confirms ssid) "Cannot confirm migrated connection"
  let _ ← phase (some "committed")
  let _ ← call (.run ["systemctl", "stop", timer ++ ".timer"])
  call (.print "OK: current Wi-Fi migrated; WPA2/CCMP and IPv4 verified; DHCPv6 preserved in saved profile")
  call (.print "Ethernet and encryption server available; independent recovery service active/enabled")
  call (.print "Wi-Fi change API/socket still disabled. Do not switch to another network yet.")
  call (.print s!"Private backup and state: {base}/apply")

variable (sha256 : Bytes → Bytes) (draftSsid : Bytes → Option Bytes)

def apply : Fallible Unit := do
  require (← call .installed) "Use the verified root-owned installation path"
  require (!(← call (.folderExists .state))) "Migration already attempted; inspect its state before retrying"
  absent .new
  absent .override
  let direct ← (do if ← call (.isLink .old) then return false else return !(← call .baseLink) :
    Fallible Bool)
  require direct "Source redirected"
  require (← call .ethernetReady) "Ethernet recovery link is unavailable"
  let _ ← call (.run ["systemctl", "is-active", "--quiet", "encoder-server.service"])
  let overrides ← call (.run ["systemctl", "show", "netplan-wpa-wlan0.service", "-p", "DropInPaths", "--value"])
  require (overrides.all isSpace) "Unexpected Wi-Fi service overrides"
  let original ← call (.read .old)
  require (sha256 original = (← call (.prepared .digest))) "Source changed since preparation"
  let draft ← call (.prepared .draft)
  let policy ← call (.prepared .policy)
  require (sha256 policy = policyDigest) "Policy override checksum mismatch"
  let _ ← call (.run ["python3", "-I", "/opt/encoder/libexec/netplan_preflight.py", "--root-dir", base ++ "/shadow"])
  match draftSsid draft with
  | none => throw .failed
  | some ssid =>
    require (← call (.linkReady ssid)) "Current Wi-Fi connection is not ready or differs from draft"
    call (.makeFolder .state false)
    put .original original
    let _ ← phase (some "pending")
    let _ ← call (.run ["systemd-run", "--unit=" ++ timer, "--on-active=150s",
      "--timer-property=AccuracySec=1s", "/usr/bin/python3", "-I", self, "--rollback"])
    -- what fails from here on is taken back at once; the timer does it for a killed one
    tryCatch (migrate draft policy ssid) fun e => do
      rollback
      throw e

/-- What may be left after the migration and rollbacks that ended or were killed. -/
def Reached : World → World → Prop :=
  Relation.ReflTransGen fun w w' =>
    Visits anyEnv (apply sha256 draftSsid).run w w' ∨ Visits anyEnv rollback.run w w'

def Restored (w₀ w : World) : Prop :=
  w.file .old = w₀.file .old ∧ (w.file .old).isSome ∧ w.file .new = none ∧ w.file .override = none ∧
    w.file .phase = some (bytes "restored")

/-! ## Calls -/

theorem serve_none {w : World} {c : Call} (h : (serve w c).1 = none) : (serve w c).2 = w := by
  cases c with
  | makeFolder d existOk =>
    simp only [serve] at h ⊢
    split
    · rfl
    · rw [if_neg ‹_›] at h
      cases h
  | create p | unlink p =>
    simp only [serve] at h ⊢
    split
    · rw [if_pos ‹_›] at h
      cases h
    · rfl
  | setMode d | lock =>
    simp only [serve]
    split <;> rfl
  | replace p =>
    simp only [serve] at h ⊢
    cases hs : w.stage p with
    | none => rfl
    | some b =>
      rw [hs] at h
      cases h
  | write p b => cases h
  | _ => rfl

def Gives (w : World) (c : Call) (a : c.Answer) (w' : World) : Prop :=
  serve w c = (some a, w') ∨ (c.outside = true ∧ w' = w)

theorem gives_same {w w' : World} {c : Call} {a : c.Answer} (hc : (serve w c).2 = w)
    (h : Gives w c a w') : w' = w := by
  obtain h | ⟨-, h⟩ := h
  · rw [h] at hc
    exact hc
  · exact h

section
variable {α : Type} {Q : α → World → Prop} {K : World → Prop} {w : World}

theorem wpOk_call (c : Call) (f : c.Answer → Fallible α) (hK : K w)
    (hpart : ∀ p b part, c = .write p b → K (w.staged p (some part)))
    (hf : ∀ a w', Gives w c a w' → wpOk anyEnv Q K (f a) w') :
    wpOk anyEnv Q K (call c >>= f) w := by
  refine ⟨hK, fun r w' he => ?_⟩
  have hfail : r = none → K w' := by
    rintro rfl
    obtain h | ⟨rfl, -⟩ | ⟨-, p, b, part, hc, rfl⟩ := he
    · obtain rfl : w' = w := (congrArg Prod.snd h).trans (serve_none (congrArg Prod.fst h).symm)
      exact hK
    · exact hK
    · exact hpart p b part hc
  cases r with
  | none => exact (wpOk_throw Error.failed w').mpr (hfail rfl)
  | some a =>
    refine hf a w' ?_
    obtain h | ⟨rfl, h | h⟩ | ⟨h, -⟩ := he
    · exact .inl h.symm
    · exact .inr ⟨h, rfl⟩
    · cases h
    · cases h

theorem wpOk_quiet (c : Call) (f : c.Answer → Fallible α) (hw : ∀ p b, c ≠ .write p b)
    (hc : (serve w c).2 = w) (hK : K w) (hf : ∀ a, Gives w c a w → wpOk anyEnv Q K (f a) w) :
    wpOk anyEnv Q K (call c >>= f) w := by
  refine wpOk_call c f hK (fun p b _ h => absurd h (hw p b)) fun a w' h => ?_
  obtain rfl := gives_same hc h
  exact hf a h

theorem wpOk_require {ok : Bool} {message : String} {f : Unit → Fallible α} (hK : K w)
    (hf : ok = true → wpOk anyEnv Q K (f ()) w) :
    wpOk anyEnv Q K (require ok message >>= f) w :=
  (wpOk_ensure ok (Error.refused message) f w).mpr ⟨hK, hf⟩

theorem wpOk_run (command : List String) (f : Bytes → Fallible α) (hK : K w)
    (hf : ∀ out, wpOk anyEnv Q K (f out) w) :
    wpOk anyEnv Q K (call (.run command) >>= f) w := by
  refine wpOk_quiet _ _ nofun rfl hK fun out _ => ?_
  exact hf out

theorem wpOk_print (line : String) {Q : Unit → World → Prop} (hK : K w) (hQ : Q () w) :
    wpOk anyEnv Q K (call (.print line)) w := by
  rw [← bind_pure (call (.print line))]
  exact wpOk_quiet _ _ nofun rfl hK fun _ _ => (wpOk_pure () w).mpr ⟨hK, hQ⟩

@[simp] theorem staged_staged (p : Place) (s t : Option Bytes) :
    (w.staged p s).staged p t = w.staged p t := by
  simp [World.staged]

@[simp] theorem placed_staged (p : Place) (s : Option Bytes) (b : Bytes) :
    (w.staged p s).placed p b = w.placed p b := by
  simp [World.staged, World.placed]

theorem wpOk_put (p : Place) (b : Bytes) (hK : K w) (hstaged : ∀ s, K (w.staged p s))
    (hplaced : K (w.placed p b)) {f : Unit → Fallible α}
    (hf : wpOk anyEnv Q K (f ()) (w.placed p b)) : wpOk anyEnv Q K (put p b >>= f) w := by
  unfold put
  simp only [bind_assoc]
  refine wpOk_call _ _ hK nofun fun _ w₁ h₁ => ?_
  obtain rfl : w₁ = w.staged p (some []) := by
    obtain h₁ | ⟨h₁, -⟩ := h₁
    · simp only [serve] at h₁
      split at h₁
      · exact (congrArg Prod.snd h₁).symm
      · cases h₁
    · cases h₁
  refine wpOk_call _ _ (hstaged _) ?_ fun _ w₂ h₂ => ?_
  · rintro p' b' part hc
    cases hc
    rw [staged_staged]
    exact hstaged _
  obtain rfl : w₂ = w.staged p (some b) := by
    obtain h₂ | ⟨h₂, -⟩ := h₂
    · rw [← staged_staged p (some []) (some b)]
      exact (congrArg Prod.snd h₂).symm
    · cases h₂
  refine wpOk_quiet _ _ nofun rfl (hstaged _) fun _ _ => ?_
  refine wpOk_call _ _ (hstaged _) nofun fun _ w₃ h₃ => ?_
  obtain rfl : w₃ = w.placed p b := by
    obtain h₃ | ⟨h₃, -⟩ := h₃
    · have hstage : (w.staged p (some b)).stage p = some b := Function.update_self ..
      simp only [serve, hstage, placed_staged] at h₃
      exact (congrArg Prod.snd h₃).symm
    · cases h₃
  exact wpOk_quiet _ _ nofun rfl hplaced fun _ _ => hf

theorem wpOk_phase (v : String) {f : Bytes → Fallible α} (hK : K w)
    (hstaged : ∀ s, K (w.staged .phase s)) (hplaced : K (w.placed .phase (bytes v)))
    (hf : ∀ b, wpOk anyEnv Q K (f b) (w.placed .phase (bytes v))) :
    wpOk anyEnv Q K (phase (some v) >>= f) w := by
  unfold phase
  simp only [bind_assoc]
  refine wpOk_put _ _ hK hstaged hplaced ?_
  exact wpOk_quiet _ _ nofun rfl hplaced fun b _ => hf b

theorem wpOk_now {f : Bytes → Fallible α} (hK : K w)
    (hf : ∀ b, w.file .phase = some b → wpOk anyEnv Q K (f b) w) :
    wpOk anyEnv Q K (phase none >>= f) w := by
  show wpOk anyEnv Q K (call (.read .phase) >>= f) w
  refine wpOk_quiet _ _ nofun rfl hK fun b hb => hf b ?_
  obtain hb | ⟨hb, -⟩ := hb
  · exact congrArg Prod.fst hb
  · cases hb

theorem wpOk_lock {f : Unit → Fallible α} (hK : K w) (hf : wpOk anyEnv Q K (f ()) w) :
    wpOk anyEnv Q K (call .lock >>= f) w := by
  refine wpOk_quiet _ _ nofun ?_ hK fun _ _ => hf
  simp only [serve]
  split <;> rfl

theorem wpOk_makeFolder (d : Folder) (existOk : Bool) {f : Unit → Fallible α} (hK : K w)
    (hf : wpOk anyEnv Q K (f ()) (w.withFolder d)) :
    wpOk anyEnv Q K (call (.makeFolder d existOk) >>= f) w := by
  refine wpOk_call _ _ hK nofun fun _ w' h => ?_
  obtain rfl : w' = w.withFolder d := by
    obtain h | ⟨h, -⟩ := h
    · simp only [serve] at h
      split at h
      · cases h
      · exact (congrArg Prod.snd h).symm
    · cases h
  exact hf

theorem wpOk_unlink (p : Place) {f : Unit → Fallible α} (hK : K w)
    (hf : wpOk anyEnv Q K (f ()) (w.removed p)) : wpOk anyEnv Q K (call (.unlink p) >>= f) w := by
  refine wpOk_call _ _ hK nofun fun _ w' h => ?_
  obtain rfl : w' = w.removed p := by
    obtain h | ⟨h, -⟩ := h
    · simp only [serve] at h
      split at h
      · exact (congrArg Prod.snd h).symm
      · cases h
    · cases h
  exact hf

theorem wpOk_drop (p : Place) {f : Unit → Fallible α} (hK : K w)
    (hf : ∀ w', w'.file p = none → (w' = w ∨ w' = w.removed p) → wpOk anyEnv Q K (f ()) w') :
    wpOk anyEnv Q K (drop p >>= f) w := by
  unfold drop
  rw [bind_assoc]
  refine wpOk_quiet _ _ nofun rfl hK fun there hthere => ?_
  cases there with
  | false =>
    refine hf w ?_ (.inl rfl)
    obtain h | ⟨h, -⟩ := hthere
    · simpa [serve] using h
    · cases h
  | true =>
    simp only [if_true, bind_assoc]
    refine wpOk_quiet _ _ nofun rfl hK fun _ _ => wpOk_require hK fun _ => ?_
    exact wpOk_unlink _ hK (hf _ (Function.update_self ..) (.inr rfl))

theorem wpOk_ready (ssid : Bytes) {f : Bool → Fallible α} (hK : K w)
    (hf : ∀ b, wpOk anyEnv Q K (f b) w) : wpOk anyEnv Q K (ready ssid >>= f) w := by
  unfold ready
  rw [bind_assoc]
  refine wpOk_quiet _ _ nofun rfl hK fun b _ => ?_
  cases b with
  | false => exact hf false
  | true => exact wpOk_quiet _ _ nofun rfl hK fun b _ => hf b

theorem wpOk_confirms (ssid : Bytes) {f : Bool → Fallible α} (hK : K w)
    (hf : ∀ b, wpOk anyEnv Q K (f b) w) : wpOk anyEnv Q K (confirms ssid >>= f) w := by
  unfold confirms
  rw [bind_assoc]
  refine wpOk_now hK fun now _ => ?_
  split
  · rw [bind_assoc]
    refine wpOk_quiet _ _ nofun rfl hK fun b _ => ?_
    cases b with
    | false => exact hf false
    | true => exact wpOk_quiet _ _ nofun rfl hK fun b _ => hf b
  · exact hf false

theorem wpOk_await (ssid : Bytes) {f : Unit → Fallible α} (hK : K w)
    (hf : wpOk anyEnv Q K (f ()) w) : ∀ n, wpOk anyEnv Q K (await ssid n >>= f) w
  | 0 => (wpOk_bind _ f w).mpr ((wpOk_throw _ w).mpr hK)
  | n + 1 => by
    rw [await, bind_assoc]
    refine wpOk_ready ssid hK fun b => ?_
    cases b with
    | true => exact hf
    | false => exact wpOk_await ssid hK hf n

end

/-! ## What every cut leaves -/

structure Live (c : Bytes) (w : World) : Prop where
  phase : ∃ b, w.file .phase = some b ∧ b ≠ bytes "restored"
  folder : w.folder .state = true
  original : w.file .original = some c
  new : w.link .new = false
  override : w.link .override = false

structure Back (c : Bytes) (w : World) : Prop where
  phase : w.file .phase = some (bytes "restored")
  folder : w.folder .state = true
  old : w.file .old = some c
  new : w.file .new = none
  override : w.file .override = none
  unstaged : w.stage .old = none ∧ w.stage .phase = none

/-- `start` is what was at the place of the profile before the migration. -/
inductive Sound (start : Option Bytes) (w : World) : Prop where
  | unrecorded : w.file .phase = none → w.file .old = start → Sound start w
  | live {c : Bytes} : start = some c → Live c w → Sound start w
  | back {c : Bytes} : start = some c → Back c w → Sound start w

section
variable {c : Bytes} {w : World}

theorem live_staged (h : Live c w) (p : Place) (s : Option Bytes) : Live c (w.staged p s) :=
  ⟨h.phase, h.folder, h.original, h.new, h.override⟩

theorem live_placed (h : Live c w) {p : Place} (b : Bytes) (hp : p ≠ .phase) (ho : p ≠ .original) :
    Live c (w.placed p b) where
  phase := by simpa [World.placed, Function.update_of_ne hp.symm] using h.phase
  folder := h.folder
  original := by simpa [World.placed, Function.update_of_ne ho.symm] using h.original
  new := by simp [World.placed, Function.update_apply, h.new]
  override := by simp [World.placed, Function.update_apply, h.override]

theorem live_removed (h : Live c w) {p : Place} (hp : p ≠ .phase) (ho : p ≠ .original) :
    Live c (w.removed p) where
  phase := by simpa [World.removed, Function.update_of_ne hp.symm] using h.phase
  folder := h.folder
  original := by simpa [World.removed, Function.update_of_ne ho.symm] using h.original
  new := by simp [World.removed, Function.update_apply, h.new]
  override := by simp [World.removed, Function.update_apply, h.override]

theorem live_phase (h : Live c w) {b : Bytes} (hb : b ≠ bytes "restored") :
    Live c (w.placed .phase b) where
  phase := ⟨b, by simp [World.placed], hb⟩
  folder := h.folder
  original := by simp [World.placed, h.original]
  new := by simp [World.placed, h.new]
  override := by simp [World.placed, h.override]

theorem live_withFolder (h : Live c w) (d : Folder) : Live c (w.withFolder d) where
  phase := h.phase
  folder := by simp [World.withFolder, Function.update_apply, h.folder]
  original := h.original
  new := h.new
  override := h.override

structure Undone (c : Bytes) (w : World) : Prop extends Live c w where
  old : w.file .old = some c
  unstaged : w.stage .old = none

theorem undone_placed (h : Live c w) : Undone c (w.placed .old c) where
  toLive := live_placed h c (by decide) (by decide)
  old := by simp [World.placed]
  unstaged := by simp [World.placed]

theorem undone_removed (h : Undone c w) {p : Place} (hp : p = .new ∨ p = .override) :
    Undone c (w.removed p) := by
  obtain rfl | rfl := hp
  · exact ⟨live_removed h.toLive (by decide) (by decide), by simp [World.removed, h.old], h.unstaged⟩
  · exact ⟨live_removed h.toLive (by decide) (by decide), by simp [World.removed, h.old], h.unstaged⟩

theorem undone_drop (h : Undone c w) {p : Place} (hp : p = .new ∨ p = .override) {w' : World}
    (h' : w' = w ∨ w' = w.removed p) : Undone c w' := by
  obtain rfl | rfl := h'
  · exact h
  · exact undone_removed h hp

theorem undone_phase (h : Undone c w) {b : Bytes} (hb : b ≠ bytes "restored") :
    Undone c (w.placed .phase b) :=
  ⟨live_phase h.toLive hb, by simp [World.placed, h.old], by simp [World.placed, h.unstaged]⟩

theorem drop_frame {p q : Place} {w' : World} (h : w' = w ∨ w' = w.removed p) :
    w'.stage = w.stage ∧ (w.file q = none → w'.file q = none) := by
  obtain rfl | rfl := h
  · exact ⟨rfl, id⟩
  · refine ⟨rfl, fun hq => ?_⟩
    simp [World.removed, Function.update_apply, hq]

theorem back_placed (h : Undone c w) (hnew : w.file .new = none) (hover : w.file .override = none) :
    Back c (w.placed .phase (bytes "restored")) where
  phase := by simp [World.placed]
  folder := h.folder
  old := by simp [World.placed, h.old]
  new := by simp [World.placed, hnew]
  override := by simp [World.placed, hover]
  unstaged := by simp [World.placed, h.unstaged]

end

section
variable {start : Option Bytes} {c : Bytes} {w : World}

theorem rollback_keeps (h : Sound start w) :
    wpOk anyEnv (fun _ => Sound start) (Sound start) rollback w := by
  unfold rollback
  refine wpOk_lock h (wpOk_now h fun now hnow => ?_)
  split
  · exact (wpOk_pure () w).mpr ⟨h, h⟩
  · rename_i hopen
    obtain ⟨c, hc, hlive⟩ : ∃ c, start = some c ∧ Live c w := by
      cases h with
      | unrecorded hnone => exact absurd (hnow.symm.trans hnone) nofun
      | live hc hlive => exact ⟨_, hc, hlive⟩
      | back hc hback => exact absurd (.inr (Option.some.inj (hnow.symm.trans hback.phase))) hopen
    have hsound : ∀ {w'}, Live c w' → Sound start w' := .live hc
    refine wpOk_quiet _ _ nofun rfl h fun original horiginal => ?_
    obtain rfl : original = c := by
      obtain ho | ⟨ho, -⟩ := horiginal
      · exact Option.some.inj ((congrArg Prod.fst ho).symm.trans hlive.original)
      · cases ho
    have hput := undone_placed hlive
    refine wpOk_put _ _ h (fun s => hsound (live_staged hlive _ s)) (hsound hput.toLive) ?_
    refine wpOk_drop _ (hsound hput.toLive) fun w₁ hnew h₁ => ?_
    have hundone₁ := undone_drop hput (.inl rfl) h₁
    refine wpOk_drop _ (hsound hundone₁.toLive) fun w₂ hover h₂ => ?_
    have hundone₂ := undone_drop hundone₁ (.inr rfl) h₂
    have hnew₂ := (drop_frame h₂).2 hnew
    have hlive₂ := hundone₂.toLive
    have hne : bytes "restoring" ≠ bytes "restored" := by decide
    have hundone₃ := undone_phase hundone₂ hne
    have hlive₃ := hundone₃.toLive
    refine wpOk_phase _ (hsound hlive₂) (fun s => hsound (live_staged hlive₂ _ s)) (hsound hlive₃) ?_
    intro _
    have h₃ := hsound hlive₃
    refine wpOk_run _ _ h₃ fun _ => wpOk_run _ _ h₃ fun _ => wpOk_run _ _ h₃ fun _ => ?_
    have hback := back_placed hundone₃ (by simp [World.placed, hnew₂]) (by simp [World.placed, hover])
    have hend := Sound.back hc hback
    refine wpOk_phase _ h₃ (fun s => hsound (live_staged hlive₃ _ s)) hend fun _ => ?_
    exact wpOk_print _ hend hend

theorem migrate_keeps (draft policy ssid : Bytes) (h : Live c w) :
    wpOk anyEnv (fun _ => Live c) (Live c) (migrate draft policy ssid) w := by
  unfold migrate
  refine wpOk_lock h (wpOk_now h fun now _ => wpOk_require h fun _ => ?_)
  have h₁ := live_withFolder h .policy
  refine wpOk_makeFolder _ _ h (wpOk_quiet _ _ nofun ?_ h₁ fun _ _ => ?_)
  · simp only [serve]
    split <;> rfl
  have h₂ := live_placed h₁ (p := .new) draft (by decide) (by decide)
  refine wpOk_put _ _ h₁ (fun s => live_staged h₁ _ s) h₂ ?_
  have h₃ := live_removed h₂ (p := .old) (by decide) (by decide)
  refine wpOk_unlink _ h₂ ?_
  have h₄ := live_placed h₃ (p := .override) policy (by decide) (by decide)
  refine wpOk_put _ _ h₃ (fun s => live_staged h₃ _ s) h₄ ?_
  refine wpOk_quiet _ _ nofun rfl h₄ fun _ _ => wpOk_require h₄ fun _ => ?_
  have h₅ := live_withFolder h₄ .runtime
  refine wpOk_makeFolder _ _ h₄ ?_
  refine wpOk_run _ _ h₅ fun _ => wpOk_run _ _ h₅ fun _ => wpOk_run _ _ h₅ fun _ => ?_
  refine wpOk_quiet _ _ nofun rfl h₅ fun n _ => wpOk_await ssid h₅ ?_ n
  refine wpOk_run _ _ h₅ fun _ => wpOk_run _ _ h₅ fun _ => wpOk_run _ _ h₅ fun _ => ?_
  refine wpOk_lock h₅ ?_
  have hne : bytes "committed" ≠ bytes "restored" := by decide
  have h₆ := live_phase h₅ hne
  refine wpOk_confirms ssid h₅ fun _ => wpOk_require h₅ fun _ => ?_
  refine wpOk_phase _ h₅ (fun s => live_staged h₅ _ s) h₆ fun _ => wpOk_run _ _ h₆ fun _ => ?_
  refine (wpOk_bind _ _ _).mpr (wpOk_print _ h₆ ?_)
  refine (wpOk_bind _ _ _).mpr (wpOk_print _ h₆ ?_)
  exact (wpOk_bind _ _ _).mpr (wpOk_print _ h₆ (wpOk_print _ h₆ h₆))

theorem wpOk_absent {α : Type} {Q : α → World → Prop} {K : World → Prop} (p : Place)
    {f : Unit → Fallible α} (hK : K w)
    (hf : w.link p = false → wpOk anyEnv Q K (f ()) w) : wpOk anyEnv Q K (absent p >>= f) w := by
  unfold absent
  simp only [bind_assoc]
  refine wpOk_quiet _ _ nofun rfl hK fun there _ => ?_
  cases there with
  | true => exact wpOk_require hK nofun
  | false =>
    simp only [Bool.false_eq_true, if_false, bind_assoc, pure_bind]
    refine wpOk_quiet _ _ nofun rfl hK fun link hlink => wpOk_require hK fun hfree => hf ?_
    obtain h | ⟨h, -⟩ := hlink
    · have hvalue : w.link p = link := Option.some.inj (congrArg Prod.fst h)
      rw [hvalue]
      simpa using hfree
    · cases h

theorem apply_keeps (sha256 : Bytes → Bytes) (draftSsid : Bytes → Option Bytes) (h : Sound start w) :
    wpOk anyEnv (fun _ => Sound start) (Sound start) (apply sha256 draftSsid) w := by
  unfold apply
  refine wpOk_quiet _ _ nofun rfl h fun _ _ => wpOk_require h fun _ => ?_
  refine wpOk_quiet _ _ nofun rfl h fun known hknown => wpOk_require h fun hfirst => ?_
  -- the state folder is new: nothing is recorded yet
  have hfolder : w.folder .state = false := by
    obtain he | ⟨he, -⟩ := hknown
    · have hvalue : w.folder .state = known := Option.some.inj (congrArg Prod.fst he)
      rw [hvalue]
      simpa using hfirst
    · cases he
  obtain ⟨hphase, hold⟩ : w.file .phase = none ∧ w.file .old = start := by
    cases h with
    | unrecorded hphase hold => exact ⟨hphase, hold⟩
    | live _ hlive => exact absurd (hlive.folder.symm.trans hfolder) nofun
    | back _ hback => exact absurd (hback.folder.symm.trans hfolder) nofun
  refine wpOk_absent _ h fun hnew => wpOk_absent _ h fun hover => ?_
  rw [bind_assoc]
  refine wpOk_quiet _ _ nofun rfl h fun link _ => ?_
  cases link with
  | true => exact wpOk_require h nofun
  | false =>
    simp only [Bool.false_eq_true, if_false, bind_assoc, pure_bind]
    refine wpOk_quiet _ _ nofun rfl h fun _ _ => wpOk_require h fun _ => ?_
    refine wpOk_quiet _ _ nofun rfl h fun _ _ => wpOk_require h fun _ => ?_
    refine wpOk_run _ _ h fun _ => wpOk_run _ _ h fun _ => wpOk_require h fun _ => ?_
    refine wpOk_quiet _ _ nofun rfl h fun original horiginal => ?_
    obtain rfl : start = some original := by
      obtain ho | ⟨ho, -⟩ := horiginal
      · exact hold.symm.trans (congrArg Prod.fst ho)
      · cases ho
    refine wpOk_quiet _ _ nofun rfl h fun _ _ => wpOk_require h fun _ => ?_
    refine wpOk_quiet _ _ nofun rfl h fun draft _ => wpOk_quiet _ _ nofun rfl h fun policy _ => ?_
    refine wpOk_require h fun _ => wpOk_run _ _ h fun _ => ?_
    cases draftSsid draft with
    | none => exact (wpOk_throw _ w).mpr h
    | some ssid =>
      refine wpOk_quiet _ _ nofun rfl h fun _ _ => wpOk_require h fun _ => wpOk_makeFolder _ _ h ?_
      -- Until the phase is written the profile is where it was.
      have h₁ : Sound (some original) (w.withFolder .state) := .unrecorded hphase hold
      have h₂ : Sound (some original) ((w.withFolder .state).placed .original original) :=
        .unrecorded (by simp [World.placed, World.withFolder, hphase])
          (by simp [World.placed, World.withFolder, hold])
      refine wpOk_put _ _ h₁ (fun s => .unrecorded hphase hold) h₂ ?_
      have hlive : Live original
          (((w.withFolder .state).placed .original original).placed .phase (bytes "pending")) :=
        { phase := ⟨bytes "pending", by simp [World.placed], by decide⟩
          folder := by simp [World.placed, World.withFolder]
          original := by simp [World.placed]
          new := by simp [World.placed, World.withFolder, hnew]
          override := by simp [World.placed, World.withFolder, hover] }
      have h₃ := Sound.live rfl hlive
      refine wpOk_phase _ h₂ (fun s => ?_) h₃ fun _ => wpOk_run _ _ h₃ fun _ => ?_
      · exact .unrecorded (by simp [World.placed, World.staged, World.withFolder, hphase])
          (by simp [World.placed, World.staged, World.withFolder, hold])
      refine wpOk_tryCatch ?_ fun e w' h' => ?_
      · exact wp_mono (fun _ _ _ hq a ha => .live rfl (hq a ha)) (fun _ => .live rfl)
          (migrate_keeps draft policy ssid hlive)
      · refine (wpOk_bind _ _ _).mpr (wpOk_post (rollback_keeps h') fun _ _ _ hs => ?_)
        exact (wpOk_throw e _).mpr hs

theorem reached_sound {sha256 : Bytes → Bytes} {draftSsid : Bytes → Option Bytes} {w₀ : World}
    (hfresh : w₀.file .phase = none) (h : Reached sha256 draftSsid w₀ w) :
    Sound (w₀.file .old) w := by
  induction h with
  | refl => exact .unrecorded hfresh rfl
  | tail _ hstep ih =>
    obtain hstep | hstep := hstep
    · exact visits_of_wp (apply_keeps sha256 draftSsid ih) hstep
    · exact visits_of_wp (rollback_keeps ih) hstep

end

/-! ## A rollback that is left alone -/

section
variable {α : Type} {Q : Except Error α → World → Prop} {w w' : World}

theorem must_call {c : Call} {a : c.Answer} {f : c.Answer → Fallible α} (hc : c.outside = false)
    (hs : serve w c = (some a, w')) (hf : must workingEnv Q (f a).run w') :
    must workingEnv Q (call c >>= f).run w := by
  refine ⟨⟨some a, w', .inl hs.symm⟩, fun r w₁ he => ?_⟩
  obtain he | ⟨ho, -⟩ := he
  · rw [hs] at he
    cases he
    exact hf
  · exact absurd (hc.symm.trans ho) nofun

theorem must_call_fails {c : Call} {f : c.Answer → Fallible α} (hc : c.outside = false)
    (hs : serve w c = (none, w')) (hQ : Q (.error .failed) w') :
    must workingEnv Q (call c >>= f).run w := by
  refine ⟨⟨none, w', .inl hs.symm⟩, fun r w₁ he => ?_⟩
  obtain he | ⟨ho, -⟩ := he
  · rw [hs] at he
    cases he
    exact hQ
  · exact absurd (hc.symm.trans ho) nofun

theorem must_run {command : List String} {f : Bytes → Fallible α}
    (hf : ∀ out, must workingEnv Q (f out).run w) :
    must workingEnv Q (call (.run command) >>= f).run w := by
  refine ⟨⟨some [], w, .inl rfl⟩, fun r w₁ he => ?_⟩
  obtain he | ⟨-, hr, rfl⟩ := he
  · cases he
    exact hf []
  · obtain ⟨out, rfl⟩ := Option.isSome_iff_exists.mp hr
    exact hf out

theorem must_print {line : String} {Q : Except Error Unit → World → Prop} (hQ : Q (.ok ()) w) :
    must workingEnv Q (call (.print line)).run w := by
  refine ⟨⟨some (), w, .inl rfl⟩, fun r w₁ he => ?_⟩
  obtain he | ⟨-, hr, rfl⟩ := he
  · cases he
    exact hQ
  · obtain ⟨_, rfl⟩ := Option.isSome_iff_exists.mp hr
    exact hQ

theorem must_put {p : Place} {b : Bytes} {f : Unit → Fallible α} (hr : w.reaches p = true)
    (hs : w.stage p = none) (hf : must workingEnv Q (f ()).run (w.placed p b)) :
    must workingEnv Q (put p b >>= f).run w := by
  have hcreate : serve w (.create p) = (some (), w.staged p (some [])) := by simp [serve, hr, hs]
  have hstage : (w.staged p (some b)).stage p = some b := Function.update_self ..
  have hwrite : serve (w.staged p (some [])) (.write p b) = (some (), w.staged p (some b)) := by
    simp [serve]
  have hreplace : serve (w.staged p (some b)) (.replace p) = (some (), w.placed p b) := by
    simp only [serve, hstage, placed_staged]
  unfold put
  simp only [bind_assoc]
  refine must_call rfl hcreate (must_call rfl hwrite (must_call rfl rfl ?_))
  exact must_call rfl hreplace (must_call rfl rfl hf)

/-- The staging file is opened exclusively. -/
theorem must_put_fails {p : Place} {b : Bytes} {f : Unit → Fallible α} (hs : w.stage p ≠ none)
    (hQ : Q (.error .failed) w) : must workingEnv Q (put p b >>= f).run w := by
  have hcreate : serve w (.create p) = (none, w) := by
    simp [serve, Option.isNone_iff_eq_none, hs]
  unfold put
  simp only [bind_assoc]
  exact must_call_fails rfl hcreate hQ

theorem must_phase {v : String} {f : Bytes → Fallible α} (hr : w.folder .state = true)
    (hs : w.stage .phase = none)
    (hf : must workingEnv Q (f (bytes v)).run (w.placed .phase (bytes v))) :
    must workingEnv Q (phase (some v) >>= f).run w := by
  have hread : serve (w.placed .phase (bytes v)) (.read .phase) =
      (some (bytes v), w.placed .phase (bytes v)) := by
    simp [serve, World.placed]
  unfold phase
  simp only [bind_assoc]
  exact must_put (by simp [World.reaches, Place.folder, hr]) hs (must_call rfl hread hf)

theorem must_lock {f : Unit → Fallible α} (hr : w.folder .state = true)
    (hf : must workingEnv Q (f ()).run w) : must workingEnv Q (call .lock >>= f).run w := by
  have hlock : serve w .lock = (some (), w) := by simp [serve, hr]
  exact must_call rfl hlock hf

theorem must_now {b : Bytes} {f : Bytes → Fallible α} (hb : w.file .phase = some b)
    (hf : must workingEnv Q (f b).run w) : must workingEnv Q (phase none >>= f).run w := by
  have hread : serve w (.read .phase) = (some b, w) := by simp [serve, hb]
  exact must_call rfl hread hf

theorem must_phase_fails {v : String} {f : Bytes → Fallible α} (hs : w.stage .phase ≠ none)
    (hQ : Q (.error .failed) w) : must workingEnv Q (phase (some v) >>= f).run w := by
  unfold phase
  simp only [bind_assoc]
  exact must_put_fails hs hQ

theorem must_drop {p : Place} {f : Unit → Fallible α} (hlink : w.link p = false)
    (hf : ∀ w', w'.file p = none → (w' = w ∨ w' = w.removed p) → must workingEnv Q (f ()).run w') :
    must workingEnv Q (drop p >>= f).run w := by
  unfold drop
  rw [bind_assoc]
  refine must_call rfl rfl ?_
  cases hfile : w.file p with
  | none => exact hf w hfile (.inl rfl)
  | some b =>
    have hunlink : serve w (.unlink p) = (some (), w.removed p) := by simp [serve, hfile]
    simp only [Option.isSome_some, if_true, bind_assoc]
    refine must_call rfl rfl ?_
    rw [hlink]
    exact must_call rfl hunlink (hf _ (Function.update_self ..) (.inr rfl))

end

theorem rollback_must {w₀ w : World} (h : Sound (w₀.file .old) w) (hrecorded : w.file .phase ≠ none)
    (hopen : w.file .phase ≠ some (bytes "committed")) :
    must workingEnv (fun r w' => (r = .ok () ∧ Restored w₀ w') ↔
      w.stage .old = none ∧ w.stage .phase = none) rollback.run w := by
  cases h with
  | unrecorded hnone => exact absurd hnone hrecorded
  | back hc hback =>
    refine must_lock hback.folder (must_now hback.phase ?_)
    rw [if_pos (.inr rfl)]
    refine must_pure.mpr ⟨fun _ => hback.unstaged, fun _ => ⟨rfl, ?_⟩⟩
    exact ⟨hback.old.trans hc.symm, by simp [hback.old], hback.new, hback.override, hback.phase⟩
  | @live c hc hlive =>
    obtain ⟨now, hnow, hne⟩ := hlive.phase
    refine must_lock hlive.folder (must_now hnow ?_)
    have hgoes : ¬(now = bytes "committed" ∨ now = bytes "restored") := by
      rintro (rfl | rfl)
      · exact hopen hnow
      · exact hne rfl
    rw [if_neg hgoes]
    have hread : serve w (.read .original) = (some c, w) := by simp [serve, hlive.original]
    refine must_call rfl hread ?_
    -- each staging file is opened exclusively, so a left one stops the rollback
    by_cases hold : w.stage .old = none
    · have hput := undone_placed hlive
      refine must_put rfl hold (must_drop hput.new fun w₁ hnew h₁ => ?_)
      have hundone₁ := undone_drop hput (.inl rfl) h₁
      refine must_drop hundone₁.override fun w₂ hover h₂ => ?_
      have hundone₂ := undone_drop hundone₁ (.inr rfl) h₂
      have hnew₂ := (drop_frame h₂).2 hnew
      have hstage : w₂.stage .phase = w.stage .phase := by
        rw [(drop_frame (q := .old) h₂).1, (drop_frame (q := .old) h₁).1]
        simp [World.placed]
      by_cases hphase : w.stage .phase = none
      · refine must_phase hundone₂.folder (hstage.trans hphase) ?_
        refine must_run fun _ => must_run fun _ => must_run fun _ => ?_
        have hundone₃ := undone_phase hundone₂ (b := bytes "restoring") (by decide)
        have hback := back_placed hundone₃ (by simp [World.placed, hnew₂])
          (by simp [World.placed, hover])
        refine must_phase hundone₃.folder (by simp [World.placed]) (must_print ?_)
        refine ⟨fun _ => ⟨hold, hphase⟩, fun _ => ⟨rfl, ?_⟩⟩
        exact ⟨hback.old.trans hc.symm, by simp [hback.old], hback.new, hback.override, hback.phase⟩
      · refine must_phase_fails (fun hs => hphase (hstage.symm.trans hs)) ?_
        exact ⟨nofun, fun hs => absurd hs.2 hphase⟩
    · exact must_put_fails hold ⟨nofun, fun hs => absurd hs.1 hold⟩

/-- Whatever was killed before, a rollback that is left alone ends with the profile restored exactly
where no staging file of the profile and none of the phase is there when it begins. -/
theorem rollback_repeatable {sha256 : Bytes → Bytes} {draftSsid : Bytes → Option Bytes} {w₀ w : World}
    (hfresh : w₀.file .phase = none) (h : Reached sha256 draftSsid w₀ w)
    (hrecorded : w.file .phase ≠ none) (hopen : w.file .phase ≠ some (bytes "committed")) :
    must workingEnv (fun r w' => (r = .ok () ∧ Restored w₀ w') ↔
      w.stage .old = none ∧ w.stage .phase = none) rollback.run w :=
  rollback_must (reached_sound hfresh h) hrecorded hopen

/-! ### A migration that was killed -/

def sourceText : Bytes := bytes "network:\n"

def sourceDigest : Bytes := bytes "2e6a3e6eb070bce2010685c230b3b1c243d9f67afbcc2c939db942708f2a6de5"

def policyText : Bytes :=
  ["# Experimental: do not install before migration and recovery integration.",
    "# Keeps Netplan's device ordering; replaces only the wlan0 supplicant launch.",
    "[Service]",
    "User=root",
    "Group=root",
    "RuntimeDirectory=encoder-wifi-policy",
    "RuntimeDirectoryMode=0700",
    "RuntimeDirectoryPreserve=yes",
    "UMask=0077",
    "LimitCORE=0",
    "TimeoutStartSec=15s",
    "ExecStartPre=/opt/encoder/bin/encoder-wifi-policy-guard --stage",
    "ExecStart=",
    "ExecStart=/sbin/wpa_supplicant -c /run/encoder-wifi-policy/wpa-wlan0.conf -iwlan0 -Dnl80211,wext",
    "# Reload cannot bypass preparation: the adapter must use restart.",
    "ExecReload="].flatMap fun line => bytes line ++ [10]

def sha256Of (b : Bytes) : Bytes := if b = sourceText then sourceDigest else policyDigest

def preparedWorld : World where
  file := fun
    | .old => some sourceText
    | _ => none
  stage := fun _ => none
  link := fun _ => false
  folder := fun _ => false
  prepared := fun
    | .digest => some sourceDigest
    | .draft => some (bytes "network: {version: 2, wifis: {wlan0: {access-points: {Test: {}}}}}\n")
    | .policy => some policyText

def testSsid (_ : Bytes) : Option Bytes := some (bytes "Test")

def appliedWorld : World := cut serve 30 (apply sha256Of testSsid).run preparedWorld

/-- The timer's rollback, killed when it had opened the staging file of the profile. -/
def interruptedWorld : World := cut serve 4 rollback.run appliedWorld

theorem serve_any (w : World) (c : Call) : anyEnv w c (serve w c).1 (serve w c).2 := .inl rfl

theorem applied_reached : Reached sha256Of testSsid preparedWorld appliedWorld :=
  .single (.inl (visits_cut serve_any _ _ _))

theorem applied_files : appliedWorld.file .phase = some (bytes "pending") ∧
    appliedWorld.stage .old = none ∧ appliedWorld.stage .phase = none := by decide

theorem interrupted_files : interruptedWorld.file .phase = some (bytes "pending") ∧
    interruptedWorld.stage .old = some [] := by decide

theorem rollback_repeatable_applied :
    must workingEnv (fun r w' => (r = .ok () ∧ Restored preparedWorld w') ↔
      appliedWorld.stage .old = none ∧ appliedWorld.stage .phase = none) rollback.run appliedWorld := by
  have hpending : bytes "pending" ≠ bytes "committed" := by decide
  refine rollback_repeatable rfl applied_reached ?_ ?_
  · simp [applied_files.1]
  · simpa [applied_files.1] using hpending

/-- The staging file that the killed rollback left stands in the way of every later one. -/
theorem rollback_not_repeatable :
    ¬∀ (sha256 : Bytes → Bytes) (draftSsid : Bytes → Option Bytes) (w₀ w : World),
      w₀.file .phase = none → Reached sha256 draftSsid w₀ w → w.file .phase ≠ none →
      w.file .phase ≠ some (bytes "committed") →
      must workingEnv (fun r w' => r = .ok () ∧ Restored w₀ w') rollback.run w := by
  intro h
  obtain ⟨hphase, hstage⟩ := interrupted_files
  have hpending : bytes "pending" ≠ bytes "committed" := by decide
  have hreached : Reached sha256Of testSsid preparedWorld interruptedWorld :=
    applied_reached.tail (.inr (visits_cut serve_any _ _ _))
  have hrecorded : interruptedWorld.file .phase ≠ none := by simp [hphase]
  have hopen : interruptedWorld.file .phase ≠ some (bytes "committed") := by
    simpa [hphase] using hpending
  have hends := h sha256Of testSsid preparedWorld interruptedWorld rfl hreached hrecorded hopen
  obtain ⟨r, w', hrun⟩ := exists_of_must hends
  have hexact := rollback_must (reached_sound rfl hreached) hrecorded hopen
  have hsuccess : r = .ok () ∧ Restored preparedWorld w' :=
    runs_of_must (Q := fun r w' => r = .ok () ∧ Restored preparedWorld w') hends hrun
  have hunstaged := (runs_of_must hexact hrun).mp hsuccess
  rw [hstage] at hunstaged
  cases hunstaged.1

end Migration

end EncoderNext
