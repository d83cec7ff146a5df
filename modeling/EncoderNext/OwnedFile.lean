import EncoderNext.Program
import EncoderNext.WifiDraft

/-!
# The managed file, call by call

`NetplanFiles` in both of its formats: the Netplan draft and the supplicant's policy. The file
is opened, examined and read to its end before anything is done to it; reading and writing may
come in pieces of any size, and any call may fail.
-/

namespace EncoderNext

open Program

namespace OwnedFile

inductive Format where
  | netplan | supplicant
  deriving DecidableEq

def maximum : Nat := 4096

variable (kdf : Pbkdf2) (format : Format)

def readDraft : Format → Bytes → Except String WifiProfile
  | .netplan => WifiDraft.read kdf
  | .supplicant => WifiDraft.readSupplicant kdf

def canonical (contents : Bytes) : Bool :=
  contents != [] && contents.length ≤ maximum && (readDraft kdf format contents).isOk

def Rendered (contents : Bytes) : Prop :=
  ∃ p draft, WifiDraft.Made kdf p ∧ WifiDraft.make p = .ok draft ∧
    contents = match format with
      | .netplan => draft.netplanYaml
      | .supplicant => draft.supplicantConfig

/-- Ownership is told by the content alone: exactly what this program writes. -/
theorem canonical_iff (contents : Bytes) :
    canonical kdf format contents = true ↔ Rendered kdf format contents := by
  obtain ⟨hround, -, hread, hreadSupplicant⟩ := WifiDraft.drafts_exact kdf
  have hok : ∀ {x : Except String WifiProfile}, x.isOk = true ↔ ∃ p, x = .ok p := by
    intro x
    cases x <;> simp [Except.isOk, Except.toBool]
  unfold canonical
  rw [Bool.and_eq_true, Bool.and_eq_true, bne_iff_ne, decide_eq_true_eq, hok]
  constructor
  · rintro ⟨-, p, hp⟩
    cases format with
    | netplan =>
      obtain ⟨hmade, draft, hdraft, htext⟩ := hread contents p hp
      exact ⟨p, draft, hmade, hdraft, htext.symm⟩
    | supplicant =>
      obtain ⟨hmade, draft, hdraft, htext⟩ := hreadSupplicant contents p hp
      exact ⟨p, draft, hmade, hdraft, htext.symm⟩
  · rintro ⟨p, draft, hmade, hdraft, rfl⟩
    obtain ⟨draft', hdraft', hyaml, hsupplicant, hshort, hshortSupplicant⟩ := hround p hmade
    obtain rfl : draft' = draft := Except.ok.inj (hdraft'.symm.trans hdraft)
    obtain ⟨ssid, psk, hp, hs, hl, -, hk⟩ := WifiDraft.made_shape hmade
    have hshape : WifiDraft.make ⟨toHex ssid, psk, p.dhcp6⟩ = .ok (WifiDraft.draftOf p.dhcp6 ssid psk) :=
      WifiDraft.make_usable p.dhcp6 hs hl hk
    rw [← hp, hdraft'] at hshape
    cases hshape
    cases format with
    | netplan => exact ⟨⟨by simp [WifiDraft.draftOf], hshort⟩, p, hyaml⟩
    | supplicant =>
      have hend : WifiDraft.wpaEnd ≠ [] := by
        rw [← List.length_pos_iff, WifiDraft.length_wpaEnd]
        decide
      exact ⟨⟨by simp [WifiDraft.draftOf, hend], hshortSupplicant⟩, _, hsupplicant⟩

/-! ## The surroundings -/

structure Stat where
  regular : Bool
  owned : Bool
  hidden : Bool
  single : Bool
  size : Nat

structure Node where
  link : Bool := false
  regular : Bool := true
  owned : Bool := true
  hidden : Bool := true
  single : Bool := true
  content : Bytes

def Node.stat (node : Node) : Stat :=
  ⟨node.regular, node.owned, node.hidden, node.single, node.content.length⟩

inductive Opened where
  | absent | refused | opened

abbrev Chunk (n : Nat) := {b : Bytes // b.length ≤ n}

/-- An interrupted call of a loop is made again and is no call of its own here. -/
inductive FileCall where
  | openManaged
  | stat
  | read (n : Nat)
  | create
  | write (b : Bytes)
  | setMode
  | sync
  | rename
  | dropTemporary
  | unlink
  | syncDirectory

@[reducible] def FileCall.Reply : FileCall → Type
  | openManaged => Opened
  | stat => Option Stat
  | read n => Option (Chunk n)
  | write b => Option (Fin (b.length + 1))
  | _ => Bool

structure Disk where
  entry : Option Node
  offset : Nat := 0
  temporary : Bytes := []

def Node.written (content : Bytes) : Node := { content }

def kernel : Env Disk FileCall FileCall.Reply
  | d, .openManaged, .absent, d' => d' = d ∧ d.entry = none
  | d, .openManaged, .opened, d' =>
    d' = { d with offset := 0 } ∧ ∃ node, d.entry = some node ∧ node.link = false
  | d, .stat, some info, d' => d' = d ∧ ∃ node, d.entry = some node ∧ info = node.stat
  | d, .read n, some chunk, d' =>
    d' = { d with offset := d.offset + chunk.1.length } ∧ ∃ node rest, d.entry = some node ∧
      node.content.drop d.offset = chunk.1 ++ rest ∧ (chunk.1 = [] → n = 0 ∨ rest = [])
  | d, .create, true, d' => d' = { d with temporary := [] }
  | d, .write b, some n, d' => d' = { d with temporary := d.temporary ++ b.take n }
  | d, .rename, true, d' => d' = { d with entry := some (.written d.temporary) }
  | d, .unlink, true, d' => d' = { d with entry := none }
  | d, _, _, d' => d' = d

/-- The call did what it is for; only a file that is there is read. -/
def Works (d : Disk) : (c : FileCall) → c.Reply → Prop
  | .openManaged, .refused => ∃ node, d.entry = some node ∧ node.link = true
  | .openManaged, _ => True
  | .stat, info => d.entry.isSome → info.isSome
  | .read _, chunk => d.entry.isSome → chunk.isSome
  | .write b, n => ∃ k, n = some k ∧ (b ≠ [] → k.val ≠ 0)
  | .create, ok | .setMode, ok | .sync, ok | .rename, ok | .dropTemporary, ok | .unlink, ok
  | .syncDirectory, ok => ok = true

def working : Env Disk FileCall FileCall.Reply := fun d c r d' => kernel d c r d' ∧ Works d c r

/-! ## The code -/

abbrev FileProgram := Program FileCall FileCall.Reply

abbrev Fallible := ExceptT String FileProgram

abbrev file (c : FileCall) : FileProgram c.Reply := ask c

def readAll (n : Nat) : Fallible Bytes := do
  if n = 0 then return []
  else
    match ← file (.read n) with
    | none => throw "Incomplete Wi-Fi configuration backup"
    | some chunk =>
      if chunk.1 = [] then throw "Incomplete Wi-Fi configuration backup"
      else return chunk.1 ++ (← readAll (n - chunk.1.length))
termination_by n
decreasing_by
  rename_i hc
  have := List.length_pos_iff.mpr hc
  omega

def backup : Fallible (Option Bytes) := do
  match ← file .openManaged with
  | .absent => return none
  | .refused => throw "Cannot open managed Wi-Fi configuration"
  | .opened =>
    match ← file .stat with
    | none => throw "Unsafe managed Wi-Fi configuration"
    | some info =>
      ensure (info.regular && info.owned && info.hidden && info.single && info.size != 0 &&
        info.size ≤ maximum) "Unsafe managed Wi-Fi configuration"
      let data ← readAll info.size
      -- one byte more is asked for: the file ends where `stat` said
      let extra : Option (Chunk 1) ← file (.read 1)
      ensure (extra.any (·.1 == []) && canonical kdf format data)
        "Refusing noncanonical Wi-Fi configuration"
      return some data

def writeAll (b : Bytes) : FileProgram Bool := do
  if b = [] then return true
  else
    match ← file (.write b) with
    | none => return false
    | some n => if n.val = 0 then return false else writeAll (b.drop n)
termination_by b.length
decreasing_by
  rename_i hb hn
  rw [List.length_drop]
  have := List.length_pos_iff.mpr hb
  omega

def finish : FileProgram Bool := do
  if ← file .setMode then
    if ← file .sync then file .rename
    else return false
  else return false

def replace (contents : Bytes) : Fallible Unit := do
  ensure (canonical kdf format contents) "Unsupported managed Wi-Fi configuration format or size"
  let _ ← backup kdf format
  ensure (← file .create) "Cannot create managed Wi-Fi temporary file"
  let persisted ← (do if ← writeAll contents then finish else return false : FileProgram Bool)
  if persisted then
    ensure (← file .syncDirectory) "Wi-Fi configuration durability uncertain"
  else
    let _ ← file .dropTemporary
    throw "Cannot persist managed Wi-Fi configuration"

def restore (existed : Bool) (contents : Bytes) : Fallible Unit := do
  if existed then replace kdf format contents
  else
    ensure (contents == []) "Unexpected backup for absent Wi-Fi configuration"
    let current ← backup kdf format
    if current.isSome then
      ensure (← file .unlink) "Cannot remove managed Wi-Fi configuration"
    ensure (← file .syncDirectory) "Wi-Fi restoration durability uncertain"

/-! ## What the parts do -/

def Sound : Option Node → Prop
  | none => True
  | some node => node.link = false ∧ node.regular ∧ node.owned ∧ node.hidden ∧ node.single ∧
      canonical kdf format node.content

theorem sound_written {contents : Bytes} (h : canonical kdf format contents = true) :
    Sound kdf format (some (.written contents)) := ⟨rfl, rfl, rfl, rfl, rfl, h⟩

section
variable {kdf format} {env : Env Disk FileCall FileCall.Reply} {G : Prop}
  (henv : ∀ d c r d', env d c r d' → kernel d c r d' ∧ (G → Works d c r)) {d : Disk}
include henv

theorem readAll_spec {node : Node} (n : Nat) {d : Disk} (hnode : d.entry = some node)
    (hlen : d.offset + n ≤ node.content.length) {Q : Except String Bytes → Disk → Prop}
    (herr : ∀ o e, ¬G → Q (.error e) { d with offset := o })
    (hok : Q (.ok (slice node.content d.offset n)) { d with offset := d.offset + n }) :
    wp env Q (fun _ => True) (readAll n).run d := by
  induction n using Nat.strong_induction_on generalizing d Q with
  | h n ih =>
    unfold readAll
    by_cases hn : n = 0
    · subst hn
      rw [if_pos rfl]
      exact ⟨trivial, by simpa [slice] using hok⟩
    · rw [if_neg hn, wp_run_ask]
      refine ⟨trivial, fun chunk d₁ h₁ => ?_⟩
      obtain ⟨hkernel, hworks⟩ := henv _ _ _ _ h₁
      cases chunk with
      | none =>
        obtain rfl : d₁ = d := hkernel
        exact ⟨trivial, herr _ _ fun hG => absurd (hworks hG) (by simp [Works, hnode])⟩
      | some chunk =>
        obtain ⟨rfl, node', rest, hnode', hdrop, hend⟩ := hkernel
        obtain rfl : node = node' := Option.some.inj (hnode.symm.trans hnode')
        obtain ⟨b, hb⟩ := chunk
        -- the end is only seen behind the last byte
        have hne : b ≠ [] := by
          intro hnil
          subst hnil
          have hrest := (hend rfl).resolve_left hn
          rw [hrest, List.append_nil] at hdrop
          have := List.drop_eq_nil_iff.mp hdrop
          omega
        have hpos := List.length_pos_iff.mpr hne
        have hslice : slice node.content d.offset n =
            b ++ slice node.content (d.offset + b.length) (n - b.length) := by
          have hfirst : slice node.content d.offset b.length = b := by
            rw [slice, hdrop, List.take_left]
          have hsum := slice_add node.content d.offset b.length (n - b.length)
          rw [hfirst, Nat.add_sub_cancel' hb] at hsum
          exact hsum.symm
        dsimp only
        rw [if_neg hne, wp_run_bind]
        refine ih (n - b.length) (by omega) (d := { d with offset := d.offset + b.length }) hnode' ?_ ?_ ?_
        · show d.offset + b.length + (n - b.length) ≤ _
          omega
        · exact fun o e hG => herr o e hG
        · have hoffset : d.offset + b.length + (n - b.length) = d.offset + n := by omega
          rw [hslice] at hok
          rw [hoffset]
          exact ⟨trivial, hok⟩

theorem backup_spec {Q : Except String (Option Bytes) → Disk → Prop}
    (herr : ∀ o e, ¬(G ∧ Sound kdf format d.entry) → Q (.error e) { d with offset := o })
    (hok : ∀ o, Sound kdf format d.entry →
      Q (.ok (d.entry.map (·.content))) { d with offset := o }) :
    wp env Q (fun _ => True) (backup kdf format).run d := by
  unfold backup
  rw [wp_run_ask]
  refine ⟨trivial, fun reply d₁ h₁ => ?_⟩
  obtain ⟨hkernel, hworks⟩ := henv _ _ _ _ h₁
  cases reply with
  | absent =>
    obtain ⟨rfl, hnone⟩ := hkernel
    have hsound : Sound kdf format d₁.entry := by
      rw [hnone]
      trivial
    have hcontent : d₁.entry.map (·.content) = none := by rw [hnone]; rfl
    have hq := hok d₁.offset hsound
    rw [hcontent] at hq
    exact ⟨trivial, hq⟩
  -- a link is refused, and no link is sound
  | refused =>
    obtain rfl : d₁ = d := hkernel
    refine ⟨trivial, herr _ _ ?_⟩
    rintro ⟨hG, hsound⟩
    obtain ⟨node, hnode, hlink⟩ := hworks hG
    rw [hnode] at hsound
    exact absurd (hlink.symm.trans hsound.1) (by decide)
  | opened =>
    obtain ⟨rfl, node, hnode, hlink⟩ := hkernel
    dsimp only
    rw [wp_run_ask]
    refine ⟨trivial, fun info d₂ h₂ => ?_⟩
    obtain ⟨hkernel₂, hworks₂⟩ := henv _ _ _ _ h₂
    cases info with
    | none =>
      obtain rfl : d₂ = { d with offset := 0 } := hkernel₂
      exact ⟨trivial, herr _ _ fun h => absurd (hworks₂ h.1) (by simp [Works, hnode])⟩
    | some info =>
      obtain ⟨rfl, node', hnode', rfl⟩ := hkernel₂
      obtain rfl : node = node' := Option.some.inj (hnode.symm.trans hnode')
      dsimp only
      rw [wp_run_ensure]
      split
      · rename_i hsafe
        simp only [Node.stat, Bool.and_eq_true, bne_iff_ne] at hsafe
        obtain ⟨⟨⟨⟨⟨hregular, howned⟩, hhidden⟩, hsingle⟩, hsize⟩, hmax⟩ := hsafe
        rw [wp_run_bind]
        refine readAll_spec henv _ hnode' (by simp [Node.stat]) ?_ ?_
        · exact fun o e hG => herr o e fun h => hG h.1
        · dsimp only
          rw [wp_run_ask]
          refine ⟨trivial, fun extra d₃ h₃ => ?_⟩
          have hall : slice node.content 0 node.stat.size = node.content := by
            simp [slice, Node.stat]
          -- the read for the end of the file only moves the offset
          have hkeep : ∃ o, d₃ = { d with offset := o } := by
            have hkernel₃ := (henv _ _ _ _ h₃).1
            cases extra with
            | none => exact ⟨_, hkernel₃⟩
            | some chunk => exact ⟨_, hkernel₃.1⟩
          obtain ⟨o, rfl⟩ := hkeep
          rw [hall, wp_run_ensure]
          split
          · rename_i hcanonical
            rw [Bool.and_eq_true] at hcanonical
            have hsound : Sound kdf format d.entry := by
              rw [hnode]
              exact ⟨hlink, hregular, howned, hhidden, hsingle, hcanonical.2⟩
            have hcontent : d.entry.map (·.content) = some node.content := by rw [hnode]; rfl
            have hq := hok o hsound
            rw [hcontent] at hq
            exact ⟨trivial, hq⟩
          · rename_i hrefused
            refine ⟨trivial, herr _ _ ?_⟩
            rintro ⟨hG, hsound⟩
            obtain ⟨hkernel₃, hworks₃⟩ := henv _ _ _ _ h₃
            rw [hnode] at hsound
            cases extra with
            | none => exact absurd (hworks₃ hG) (by simp [Works, hnode])
            | some chunk =>
              obtain ⟨-, node', rest, hnode₃, hdrop, -⟩ := hkernel₃
              obtain rfl : node = node' := Option.some.inj (hnode.symm.trans hnode₃)
              -- behind the size that `stat` told there is nothing
              have hnil : chunk.1 = [] := by
                have hend : node.content.drop (0 + node.stat.size) = [] := by simp [Node.stat]
                exact (List.append_eq_nil_iff.mp (hdrop.symm.trans hend)).1
              apply hrefused
              simp [hnil, hsound.2.2.2.2.2]
      · rename_i hunsafe
        refine ⟨trivial, herr _ _ ?_⟩
        rintro ⟨-, hsound⟩
        rw [hnode] at hsound
        obtain ⟨-, hregular, howned, hhidden, hsingle, hcanonical⟩ := hsound
        apply hunsafe
        simp only [canonical, Bool.and_eq_true, decide_eq_true_eq, bne_iff_ne] at hcanonical
        simp [Node.stat, hregular, howned, hhidden, hsingle, hcanonical.1.1, hcanonical.1.2]

theorem writeAll_spec (b : Bytes) {d : Disk} {Q : Bool → Disk → Prop}
    (herr : ∀ t, ¬G → Q false { d with temporary := t })
    (hok : Q true { d with temporary := d.temporary ++ b }) :
    wp env Q (fun _ => True) (writeAll b) d := by
  induction b using writeAll.induct generalizing d Q with
  | case1 =>
    rw [writeAll, if_pos rfl]
    rw [List.append_nil] at hok
    exact ⟨trivial, hok⟩
  | case2 b hne ih =>
    rw [writeAll, if_neg hne, wp_ask_bind]
    refine ⟨trivial, fun reply d₁ h₁ => ?_⟩
    obtain ⟨hkernel, hworks⟩ := henv _ _ _ _ h₁
    cases reply with
    | none =>
      obtain rfl : d₁ = d := hkernel
      refine ⟨trivial, herr _ fun hG => ?_⟩
      obtain ⟨k, hk, -⟩ := hworks hG
      cases hk
    | some n =>
      obtain rfl : d₁ = { d with temporary := d.temporary ++ b.take n } := hkernel
      dsimp only
      split
      · rename_i hzero
        refine ⟨trivial, herr _ fun hG => ?_⟩
        obtain ⟨k, hk, hpos⟩ := hworks hG
        cases hk
        exact hpos hne hzero
      · rename_i hpos
        refine ih n hpos ?_ ?_
        · exact fun t hG => herr t hG
        · show Q true { d with temporary := d.temporary ++ b.take n ++ b.drop n }
          rw [List.append_assoc, List.take_append_drop]
          exact hok

theorem finish_spec {Q : Bool → Disk → Prop} (herr : ¬G → Q false d)
    (hok : Q true { d with entry := some (.written d.temporary) }) :
    wp env Q (fun _ => True) finish d := by
  unfold finish
  rw [wp_ask_bind]
  refine ⟨trivial, fun mode d₁ h₁ => ?_⟩
  obtain ⟨hkernel, hworks⟩ := henv _ _ _ _ h₁
  obtain rfl : d₁ = d := by cases mode <;> exact hkernel
  cases mode with
  | false => exact ⟨trivial, herr fun hG => absurd (hworks hG) (by simp [Works])⟩
  | true =>
    rw [if_pos rfl, wp_ask_bind]
    refine ⟨trivial, fun synced d₂ h₂ => ?_⟩
    obtain ⟨hkernel₂, hworks₂⟩ := henv _ _ _ _ h₂
    obtain rfl : d₂ = d₁ := by cases synced <;> exact hkernel₂
    cases synced with
    | false => exact ⟨trivial, herr fun hG => absurd (hworks₂ hG) (by simp [Works])⟩
    | true =>
      rw [if_pos rfl]
      refine ⟨trivial, fun renamed d₃ h₃ => ⟨trivial, ?_⟩⟩
      obtain ⟨hkernel₃, hworks₃⟩ := henv _ _ _ _ h₃
      cases renamed with
      | false =>
        obtain rfl : d₃ = d₂ := hkernel₃
        exact herr fun hG => absurd (hworks₃ hG) (by simp [Works])
      | true =>
        obtain rfl : d₃ = _ := hkernel₃
        exact hok

theorem syncDirectory_spec {Q : Except String Unit → Disk → Prop} {message : String}
    (herr : ¬G → Q (.error message) d) (hok : Q (.ok ()) d) :
    wp env Q (fun _ => True) (do ensure (← file .syncDirectory) message : Fallible Unit).run d := by
  rw [wp_run_ask]
  refine ⟨trivial, fun synced d₁ h₁ => ?_⟩
  obtain ⟨hkernel, hworks⟩ := henv _ _ _ _ h₁
  obtain rfl : d₁ = d := by cases synced <;> exact hkernel
  cases synced with
  | false => exact ⟨trivial, herr fun hG => absurd (hworks hG) (by simp [Works])⟩
  | true => exact ⟨trivial, hok⟩

/-- What a call may leave: the file as it was, or, where the file and the buffer allow it, the
file it is to leave. -/
def Leaves (kdf : Pbkdf2) (format : Format) (fit : Prop) (after : Option Bytes)
    (before now : Option Node) : Prop :=
  now = before ∨ Sound kdf format before ∧ fit ∧ now = after.map .written

structure Outcome (kdf : Pbkdf2) (format : Format) (G fit : Prop) (after : Option Bytes)
    (before : Option Node) (r : Except String Unit) (now : Option Node) : Prop where
  leaves : Leaves kdf format fit after before now
  ok : r = .ok () → Sound kdf format before ∧ fit ∧ now = after.map .written
  error : ∀ e, r = .error e → ¬(G ∧ Sound kdf format before ∧ fit)

theorem replace_spec (contents : Bytes) :
    wp env (fun r d' => Outcome kdf format G (canonical kdf format contents = true) (some contents)
      d.entry r d'.entry) (fun _ => True) (replace kdf format contents).run d := by
  have hrefused : ∀ e, ¬(G ∧ Sound kdf format d.entry ∧ canonical kdf format contents = true) →
      Outcome kdf format G (canonical kdf format contents = true) (some contents) d.entry (.error e)
        d.entry := fun e h => ⟨.inl rfl, nofun, fun _ _ => h⟩
  unfold replace
  rw [wp_run_ensure]
  split
  swap
  · rename_i hc
    exact ⟨trivial, hrefused _ fun h => hc h.2.2⟩
  rename_i hc
  rw [wp_run_bind]
  refine backup_spec henv (fun o e h => hrefused e fun hall => h ⟨hall.1, hall.2.1⟩) fun o hsound => ?_
  have hdone : ∀ r : Except String Unit, (∀ e, r = .error e → ¬G) →
      Outcome kdf format G (canonical kdf format contents = true) (some contents) d.entry r
        (some (.written contents)) := fun r h =>
    ⟨.inr ⟨hsound, hc, rfl⟩, fun _ => ⟨hsound, hc, rfl⟩, fun e he hall => h e he hall.1⟩
  dsimp only
  rw [wp_run_ask]
  refine ⟨trivial, fun created d₁ h₁ => ?_⟩
  obtain ⟨hkernel, hworks⟩ := henv _ _ _ _ h₁
  rw [wp_run_ensure]
  cases created with
  | false =>
    obtain rfl : d₁ = { d with offset := o } := hkernel
    exact ⟨trivial, hrefused _ fun hall => absurd (hworks hall.1) (by simp [Works])⟩
  | true =>
    obtain rfl : d₁ = { d with offset := o, temporary := [] } := hkernel
    -- a file that was not persisted is dropped, and the old one stands
    have hdrop : ∀ t, ¬G → wp env (fun r d' => Outcome kdf format G (canonical kdf format contents = true)
        (some contents) d.entry r d'.entry) (fun _ => True)
        (do
          let _ ← file .dropTemporary
          throw "Cannot persist managed Wi-Fi configuration" : Fallible Unit).run
        { d with offset := o, temporary := t } := by
      intro t hG
      rw [wp_run_ask]
      refine ⟨trivial, fun dropped d₂ h₂ => ?_⟩
      have hkernel₂ := (henv _ _ _ _ h₂).1
      obtain rfl : d₂ = { d with offset := o, temporary := t } := by cases dropped <;> exact hkernel₂
      exact ⟨trivial, hrefused _ fun hall => hG hall.1⟩
    rw [if_pos rfl, wp_run_bind]
    show wp env _ _ (Except.ok <$> (writeAll contents >>= fun written =>
      if written then finish else pure false)) _
    rw [wp_map, wp_bind]
    refine writeAll_spec henv contents ?_ ?_
    · intro t hG
      exact ⟨trivial, hdrop t hG⟩
    · rw [if_pos rfl]
      refine finish_spec henv ?_ ?_
      · exact fun hG => hdrop _ hG
      · refine syncDirectory_spec henv ?_ ?_
        · exact fun hG => hdone _ fun _ _ => hG
        · exact hdone _ nofun

theorem restore_spec (existed : Bool) (contents : Bytes) :
    wp env (fun r d' => Outcome kdf format G
      (if existed then canonical kdf format contents = true else contents = [])
      (if existed then some contents else none) d.entry r d'.entry) (fun _ => True)
      (restore kdf format existed contents).run d := by
  unfold restore
  cases existed with
  | true => exact replace_spec henv contents
  | false =>
    have hrefused : ∀ e, ¬(G ∧ Sound kdf format d.entry ∧ contents = []) →
        Outcome kdf format G (contents = []) none d.entry (.error e) d.entry :=
      fun e h => ⟨.inl rfl, nofun, fun _ _ => h⟩
    simp only [Bool.false_eq_true, if_false]
    rw [wp_run_ensure]
    split
    swap
    · rename_i hc
      exact ⟨trivial, hrefused _ fun h => hc (beq_iff_eq.mpr h.2.2)⟩
    rename_i hc
    have hnil : contents = [] := beq_iff_eq.mp hc
    rw [wp_run_bind]
    refine backup_spec henv (fun o e h => hrefused e fun hall => h ⟨hall.1, hall.2.1⟩)
      fun o hsound => ?_
    have hdone : ∀ r : Except String Unit, (∀ e, r = .error e → ¬G) →
        Outcome kdf format G (contents = []) none d.entry r none := fun r h =>
      ⟨.inr ⟨hsound, hnil, rfl⟩, fun _ => ⟨hsound, hnil, rfl⟩, fun e he hall => h e he hall.1⟩
    -- whether something was removed or nothing was there, the directory is synced
    have hsynced : ∀ d' : Disk, d'.entry = none →
        wp env (fun r d'' => Outcome kdf format G (contents = []) none d.entry r d''.entry)
          (fun _ => True) (do ensure (← file .syncDirectory) "Wi-Fi restoration durability uncertain" :
            Fallible Unit).run d' := by
      intro d' hd'
      refine syncDirectory_spec henv ?_ ?_
      · intro hG
        rw [hd']
        exact hdone _ fun _ _ => hG
      · rw [hd']
        exact hdone _ nofun
    dsimp only
    by_cases hsome : (d.entry.map (·.content)).isSome = true
    · rw [if_pos hsome, wp_run_ask]
      refine ⟨trivial, fun unlinked d₁ h₁ => ?_⟩
      obtain ⟨hkernel, hworks⟩ := henv _ _ _ _ h₁
      rw [wp_run_ensure]
      cases unlinked with
      | false =>
        obtain rfl : d₁ = { d with offset := o } := hkernel
        exact ⟨trivial, hrefused _ fun hall => absurd (hworks hall.1) (by simp [Works])⟩
      | true =>
        obtain rfl : d₁ = { d with offset := o, entry := none } := hkernel
        exact hsynced _ rfl
    · rw [if_neg hsome]
      exact hsynced _ (by simpa using hsome)

end

/-! ## Sequences of calls -/

def Disk.content (d : Disk) : Option Bytes := d.entry.map (·.content)

inductive Op where
  | backup
  | replace (contents : Bytes)
  | restore (existed : Bool) (contents : Bytes)

namespace Op

def run : Op → Fallible (Option Bytes)
  | .backup => OwnedFile.backup kdf format
  | .replace contents => (fun _ => none) <$> OwnedFile.replace kdf format contents
  | .restore existed contents => (fun _ => none) <$> OwnedFile.restore kdf format existed contents

def stores : Op → Option Bytes
  | .replace contents | .restore true contents => some contents
  | _ => none

end Op

inductive Calls : List (Op × Except String (Option Bytes)) → Disk → Disk → Prop where
  | nil (d : Disk) : Calls [] d d
  | cons {op : Op} {r : Except String (Option Bytes)} {calls : List (Op × Except String (Option Bytes))}
      {d d₁ d₂ : Disk} : Runs kernel (op.run kdf format).run d r d₁ → Calls calls d₁ d₂ →
        Calls ((op, r) :: calls) d d₂

section
variable {kdf format} {d d' : Disk}

theorem kernel_any (d : Disk) (c : FileCall) (r : c.Reply) (d' : Disk) (h : kernel d c r d') :
    kernel d c r d' ∧ (False → Works d c r) := ⟨h, False.elim⟩

theorem working_all (d : Disk) (c : FileCall) (r : c.Reply) (d' : Disk) (h : working d c r d') :
    kernel d c r d' ∧ (True → Works d c r) := ⟨h.1, fun _ => h.2⟩

theorem working_total (d : Disk) (c : FileCall) : ∃ r d', working d c r d' := by
  cases c with
  | openManaged =>
    cases hentry : d.entry with
    | none => exact ⟨.absent, d, ⟨rfl, hentry⟩, trivial⟩
    | some node =>
      cases hlink : node.link with
      | true => exact ⟨.refused, d, rfl, node, hentry, hlink⟩
      | false => exact ⟨.opened, _, ⟨rfl, node, hentry, hlink⟩, trivial⟩
  | stat =>
    cases hentry : d.entry with
    | none => exact ⟨none, d, rfl, by simp [Works, hentry]⟩
    | some node => exact ⟨some node.stat, d, ⟨rfl, node, hentry, rfl⟩, by simp [Works]⟩
  | read n =>
    cases hentry : d.entry with
    | none => exact ⟨none, d, rfl, by simp [Works, hentry]⟩
    | some node =>
      refine ⟨some ⟨slice node.content d.offset n, List.length_take_le _ _⟩, _,
        ⟨rfl, node, (node.content.drop d.offset).drop n, hentry, ?_, ?_⟩, by simp [Works]⟩
      · exact (List.take_append_drop n _).symm
      · intro hnil
        rcases List.take_eq_nil_iff.mp hnil with hn | hend
        · exact .inl hn
        · exact .inr (by rw [hend, List.drop_nil])
  | write b => exact ⟨some ⟨b.length, Nat.lt_succ_self _⟩, _, rfl, _, rfl, by simp⟩
  | create => exact ⟨true, _, rfl, rfl⟩
  | setMode => exact ⟨true, _, rfl, rfl⟩
  | sync => exact ⟨true, _, rfl, rfl⟩
  | rename => exact ⟨true, _, rfl, rfl⟩
  | dropTemporary => exact ⟨true, _, rfl, rfl⟩
  | unlink => exact ⟨true, _, rfl, rfl⟩
  | syncDirectory => exact ⟨true, _, rfl, rfl⟩

theorem runs_map {f : α → β} {x : Fallible α} {r : Except String β} {env : Env Disk FileCall FileCall.Reply}
    {Q : Except String β → Disk → Prop} (hwp : wp env (fun r d' => Q (f <$> r) d') (fun _ => True) x.run d)
    (h : Runs env (f <$> x).run d r d') : Q r d' :=
  runs_of_wp ((wp_run_map f x d).mpr hwp) h

/-- One call leaves the file, removes it, or stores a canonical buffer of its own; it
succeeds only on what is sound. -/
theorem op_spec {op : Op} {r : Except String (Option Bytes)}
    (h : Runs kernel (op.run kdf format).run d r d') :
    (d'.entry = d.entry ∨ Sound kdf format d.entry ∧ (d'.entry = none ∨ ∃ c, op.stores = some c ∧
      canonical kdf format c = true ∧ d'.entry = some (.written c))) ∧
    ((∃ v, r = .ok v) → Sound kdf format d.entry) := by
  have hother : ∀ {fit : Prop} {after : Option Bytes} {x : Fallible Unit},
      wp kernel (fun r d' => Outcome kdf format False fit after d.entry r d'.entry)
        (fun _ => True) x.run d → Runs kernel ((fun _ => (none : Option Bytes)) <$> x).run d r d' →
      (∀ c, after = some c → op.stores = some c ∧ (fit → canonical kdf format c = true)) →
      (d'.entry = d.entry ∨ Sound kdf format d.entry ∧ (d'.entry = none ∨ ∃ c, op.stores = some c ∧
        canonical kdf format c = true ∧ d'.entry = some (.written c))) ∧
      ((∃ v, r = .ok v) → Sound kdf format d.entry) := by
    intro fit after x hx hrun hafter
    refine runs_map (Q := fun r d' => (d'.entry = d.entry ∨ Sound kdf format d.entry ∧
      (d'.entry = none ∨ ∃ c, op.stores = some c ∧ canonical kdf format c = true ∧
        d'.entry = some (.written c))) ∧ ((∃ v, r = .ok v) → Sound kdf format d.entry))
      (wp_post hx fun r d' _ ho => ⟨?_, ?_⟩) hrun
    · rcases ho.leaves with hsame | ⟨hsound, hfit, hnow⟩
      · exact .inl hsame
      · refine .inr ⟨hsound, ?_⟩
        cases after with
        | none => exact .inl hnow
        | some c => exact .inr ⟨c, (hafter c rfl).1, (hafter c rfl).2 hfit, hnow⟩
    · rintro ⟨v, hv⟩
      cases r with
      | error e => cases hv
      | ok u => exact (ho.ok rfl).1
  cases op with
  | backup =>
    have hwp : wp kernel (fun r d' => d'.entry = d.entry ∧ ((∃ v, r = .ok v) → Sound kdf format d.entry))
        (fun _ => True) (backup kdf format).run d :=
      backup_spec kernel_any (fun o e _ => ⟨rfl, nofun⟩) fun o hs => ⟨rfl, fun _ => hs⟩
    obtain ⟨hsame, hok⟩ := runs_of_wp hwp h
    exact ⟨.inl hsame, hok⟩
  | replace contents =>
    refine hother (replace_spec kernel_any contents) h fun c hc => ?_
    cases hc
    exact ⟨rfl, id⟩
  | restore existed contents =>
    refine hother (restore_spec kernel_any existed contents) h fun c hc => ?_
    cases existed with
    | false => cases hc
    | true =>
      cases hc
      exact ⟨rfl, id⟩

theorem sound_of_op {op : Op} {r : Except String (Option Bytes)} (hs : Sound kdf format d.entry)
    (h : Runs kernel (op.run kdf format).run d r d') : Sound kdf format d'.entry := by
  rcases (op_spec h).1 with hsame | ⟨-, hnone | ⟨c, -, hc, hstored⟩⟩
  · exact hsame ▸ hs
  · rw [hnone]
    trivial
  · rw [hstored]
    exact sound_written kdf format hc

theorem sound_of_calls {calls : List (Op × Except String (Option Bytes))}
    (h : Calls kdf format calls d d') (hs : Sound kdf format d.entry) : Sound kdf format d'.entry := by
  induction h with
  | nil d => exact hs
  | cons hop _ ih => exact ih (sound_of_op hs hop)

theorem foreign_of_calls {calls : List (Op × Except String (Option Bytes))}
    (h : Calls kdf format calls d d') (hs : ¬Sound kdf format d.entry) :
    d'.entry = d.entry ∧ ∀ call ∈ calls, ∃ e, call.2 = .error e := by
  induction h with
  | nil d => exact ⟨rfl, by simp⟩
  | @cons op r _ _ _ _ hop _ ih =>
    obtain ⟨hentry, hok⟩ := op_spec hop
    have hsame := hentry.resolve_right fun hr => hs hr.1
    obtain ⟨hrest, herrors⟩ := ih (hsame ▸ hs)
    refine ⟨hrest.trans hsame, fun call hcall => ?_⟩
    rcases List.mem_cons.mp hcall with rfl | hcall
    · cases r with
      | error e => exact ⟨e, rfl⟩
      | ok v => exact absurd (hok ⟨v, rfl⟩) hs
    · exact herrors call hcall

theorem backup_ok {saved : Option Bytes} (h : Runs kernel (backup kdf format).run d (.ok saved) d') :
    saved = d.content ∧ Sound kdf format d.entry ∧ d'.entry = d.entry := by
  have hwp : wp kernel (fun r d' => ∀ v, r = .ok v →
      v = d.content ∧ Sound kdf format d.entry ∧ d'.entry = d.entry) (fun _ => True)
      (backup kdf format).run d :=
    backup_spec kernel_any (fun _ _ _ => nofun) fun o hs v hv => by
      cases hv
      exact ⟨rfl, hs, rfl⟩
  exact runs_of_wp hwp h saved rfl

theorem content_written (after : Option Bytes) (hd : d.entry = after.map .written) : d.content = after := by
  rw [Disk.content, hd]
  cases after <;> rfl

theorem saved_fits (hs : Sound kdf format d.entry) :
    if d.content.isSome then canonical kdf format (d.content.getD []) = true
    else d.content.getD [] = [] := by
  unfold Disk.content
  cases hentry : d.entry with
  | none => rfl
  | some node =>
    rw [hentry] at hs
    exact hs.2.2.2.2.2

theorem saved_after (content : Option Bytes) :
    (if content.isSome then some (content.getD []) else none) = content := by
  cases content <;> rfl

end

/-- **The managed file is left to its owner, and comes back.** Other content stays whatever is
called, and every call on it fails. Only canonical content is ever stored. What a backup
returned is restored exactly, after any calls; it fails only when something under it does; and
doing it again changes nothing. -/
theorem managed_file_owned (kdf : Pbkdf2) (format : Format) :
    (∀ d d' node calls, d.entry = some node → canonical kdf format node.content = false →
      Calls kdf format calls d d' → d'.entry = d.entry ∧ ∀ call ∈ calls, ∃ e, call.2 = .error e) ∧
    (∀ (op : Op) r d d', Runs kernel (op.run kdf format).run d r d' →
      d'.entry = d.entry ∨ d'.entry = none ∨ ∃ c, op.stores = some c ∧
        canonical kdf format c = true ∧ d'.entry = some (.written c)) ∧
    ∀ d d₁ d₂ saved calls, Runs kernel (backup kdf format).run d (.ok saved) d₁ →
      Calls kdf format calls d₁ d₂ →
        (∀ d₃, Runs kernel (restore kdf format saved.isSome (saved.getD [])).run d₂ (.ok ()) d₃ →
          d₃.content = d.content ∧
          ∀ r d₄, Runs kernel (restore kdf format saved.isSome (saved.getD [])).run d₃ r d₄ →
            d₄.content = d₃.content) ∧
        (∀ r d₃, Runs working (restore kdf format saved.isSome (saved.getD [])).run d₂ r d₃ →
          r = .ok ()) ∧
        ∃ d₃, Runs working (restore kdf format saved.isSome (saved.getD [])).run d₂ (.ok ()) d₃ := by
  refine ⟨?_, ?_, ?_⟩
  · intro d d' node calls hnode hforeign hcalls
    refine foreign_of_calls hcalls ?_
    rw [hnode]
    rintro ⟨-, -, -, -, -, hcanonical⟩
    rw [hforeign] at hcanonical
    cases hcanonical
  · intro op r d d' hrun
    rcases (op_spec hrun).1 with hsame | ⟨-, hstored⟩
    · exact .inl hsame
    · exact .inr hstored
  · intro d d₁ d₂ saved calls hbackup hcalls
    obtain ⟨rfl, hsound, hsame⟩ := backup_ok hbackup
    -- the calls in between leave the file sound
    have hsound₂ : Sound kdf format d₂.entry := sound_of_calls hcalls (hsame ▸ hsound)
    have hworks : ∀ r d₃, Runs working
        (restore kdf format d.content.isSome (d.content.getD [])).run d₂ r d₃ → r = .ok () := by
      intro r d₃ hrun
      have ho := runs_of_wp (restore_spec working_all d.content.isSome (d.content.getD [])) hrun
      cases r with
      | ok u => rfl
      | error e => exact absurd ⟨trivial, hsound₂, saved_fits hsound⟩ (ho.error e rfl)
    refine ⟨?_, hworks, ?_⟩
    · intro d₃ hrun
      have ho := runs_of_wp (restore_spec kernel_any d.content.isSome (d.content.getD [])) hrun
      have hback : d₃.content = d.content := by
        obtain ⟨-, -, hnow⟩ := ho.ok rfl
        rw [saved_after] at hnow
        exact content_written _ hnow
      refine ⟨hback, fun r d₄ hagain => ?_⟩
      have ho₂ := runs_of_wp (restore_spec kernel_any d.content.isSome (d.content.getD [])) hagain
      rcases ho₂.leaves with hleft | ⟨-, -, hnow⟩
      · rw [Disk.content, hleft]
        rfl
      · rw [saved_after] at hnow
        rw [content_written _ hnow, hback]
    · obtain ⟨r, d₃, hrun⟩ := exists_runs (fun d c (_ : True) => working_total d c) d₂
        (uses_true (restore kdf format d.content.isSome (d.content.getD [])).run)
      obtain rfl := hworks r d₃ hrun
      exact ⟨d₃, hrun⟩

/-! ## Two drafts -/

def draftText (ssid : Bytes) : Bytes := (WifiDraft.draftOf (some true) ssid (List.replicate 32 0)).netplanYaml

theorem draftText_canonical {ssid : Bytes}
    (h : ssid ≠ [] ∧ ssid.length ≤ 32 ∧ WifiProfile.validTextSsid ssid = true) :
    canonical noKdf .netplan (draftText ssid) = true := by
  refine (canonical_iff noKdf .netplan _).mpr
    ⟨⟨toHex ssid, List.replicate 32 0, some true⟩, _, ?_, ?_, rfl⟩
  · exact ⟨ssid, _, _, WifiProfile.make_key noKdf h.1 h.2.1 h.2.2 List.length_replicate, rfl⟩
  · exact WifiDraft.make_usable (some true) h.1 h.2.1 List.length_replicate

def holding (content : Bytes) : Disk := { entry := some (.written content) }

theorem exists_backup {content : Bytes} (h : canonical noKdf .netplan content = true) :
    ∃ d, Runs kernel (backup noKdf .netplan).run (holding content) (.ok (some content)) d ∧
      d.entry = some (.written content) := by
  have hsound : Sound noKdf .netplan (holding content).entry := sound_written _ _ h
  have hspec : wp working (fun r d => r = .ok (some content) ∧ d.entry = some (.written content))
      (fun _ => True) (backup noKdf .netplan).run (holding content) :=
    backup_spec working_all (fun _ _ hfailed => absurd ⟨trivial, hsound⟩ hfailed)
      fun _ _ => ⟨rfl, rfl⟩
  obtain ⟨r, d, hr⟩ := exists_runs (fun d c (_ : True) => working_total d c) (holding content)
    (uses_true (backup noKdf .netplan).run)
  obtain ⟨rfl, hd⟩ := runs_of_wp hspec hr
  exact ⟨d, runs_env (fun _ _ _ _ => And.left) hr, hd⟩

theorem exists_replace {d : Disk} {old new : Bytes} (hd : d.entry = some (.written old))
    (hold : canonical noKdf .netplan old = true) (hnew : canonical noKdf .netplan new = true) :
    ∃ d', Runs kernel ((Op.replace new).run noKdf .netplan).run d (.ok none) d' ∧
      d'.content = some new := by
  have hsound : Sound noKdf .netplan d.entry := hd ▸ sound_written _ _ hold
  have hspec : wp working (fun r d' => r = .ok none ∧ d'.content = some new) (fun _ => True)
      ((Op.replace new).run noKdf .netplan).run d := by
    rw [Op.run, wp_run_map]
    refine wp_post (replace_spec working_all new) fun r d' _ ho => ?_
    cases r with
    | error e => exact absurd ⟨trivial, hsound, hnew⟩ (ho.error e rfl)
    | ok u => exact ⟨rfl, content_written (some new) (ho.ok rfl).2.2⟩
  obtain ⟨r, d', hr⟩ := exists_runs (fun d c (_ : True) => working_total d c) d
    (uses_true ((Op.replace new).run noKdf .netplan).run)
  obtain ⟨rfl, hd'⟩ := runs_of_wp hspec hr
  exact ⟨d', runs_env (fun _ _ _ _ => And.left) hr, hd'⟩

/-- A draft is backed up, replaced by another one and put back; a foreign byte stays when a draft
is to replace it. -/
theorem managed_file_owned_restored :
    (∃ d₁ d₂ d₃, Runs kernel (backup noKdf .netplan).run (holding (draftText (bytes "home")))
        (.ok (some (draftText (bytes "home")))) d₁ ∧
      Calls noKdf .netplan [(.replace (draftText (bytes "work")), .ok none)] d₁ d₂ ∧
      d₂.content = some (draftText (bytes "work")) ∧
      Runs working (restore noKdf .netplan true (draftText (bytes "home"))).run d₂ (.ok ()) d₃ ∧
      d₃.content = some (draftText (bytes "home"))) ∧
    ∃ r d', Runs kernel ((Op.replace (draftText (bytes "work"))).run noKdf .netplan).run (holding [1]) r
        d' ∧ d'.entry = some (.written [1]) ∧ ∃ e, r = .error e := by
  have hhome : canonical noKdf .netplan (draftText (bytes "home")) = true :=
    draftText_canonical (by decide)
  have hwork : canonical noKdf .netplan (draftText (bytes "work")) = true :=
    draftText_canonical (by decide)
  obtain ⟨hforeign, -, hback⟩ := managed_file_owned noKdf .netplan
  constructor
  · obtain ⟨d₁, hbackup, hd₁⟩ := exists_backup hhome
    obtain ⟨d₂, hreplace, hd₂⟩ := exists_replace hd₁ hhome hwork
    have hcalls : Calls noKdf .netplan [(.replace (draftText (bytes "work")), .ok none)] d₁ d₂ :=
      .cons hreplace (.nil d₂)
    obtain ⟨hexact, -, d₃, hrestore⟩ := hback _ d₁ d₂ _ _ hbackup hcalls
    have hd₃ := (hexact d₃ (runs_env (fun _ _ _ _ => And.left) hrestore)).1
    exact ⟨d₁, d₂, d₃, hbackup, hcalls, hd₂, hrestore, hd₃⟩
  · obtain ⟨r, d', hr⟩ := exists_runs (fun d c (_ : True) => working_total d c) (holding [1])
      (uses_true ((Op.replace (draftText (bytes "work"))).run noKdf .netplan).run)
    have hrun := runs_env (fun _ _ _ _ => And.left) hr
    obtain ⟨hsame, herror⟩ := hforeign (holding [1]) d' (.written [1]) _ rfl (by decide +kernel)
      (.cons hrun (.nil d'))
    exact ⟨r, d', hrun, hsame, herror _ (List.mem_singleton_self _)⟩

end OwnedFile

end EncoderNext
