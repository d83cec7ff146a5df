import EncoderNext.NetworkStatus
import EncoderNext.Pool

/-!
# Publishing a snapshot

A collector writes a new file beside the snapshot and gives it the snapshot's name when it is whole.
The server reads piece by piece what has that name when it looks. Many do either at once, and any of
them may be killed anywhere.
-/

namespace EncoderNext

open Program
open NetworkStatus (wifiSnapshot)

inductive Created where
  | made | taken | failed
  deriving DecidableEq

inductive PublishCall where
  | openDirectory
  | create (name : Bytes)
  | write (b : Bytes)
  | chmod | sync | close
  | rename (name : Bytes)
  | unlink (name : Bytes)
  | openSnapshot
  | read (room : Nat)
  | now

/-- A write is made again where a signal interrupts it; nothing where it fails. Nothing read is the end. -/
abbrev PublishCall.Reply : PublishCall → Type
  | openDirectory | chmod | sync | close | rename _ | openSnapshot => Bool
  | create _ => Created
  | write _ => Option Nat
  | unlink _ => Unit
  | read _ => Option Bytes
  | now => Int

abbrev PublishProgram (α : Type) : Type := Program PublishCall PublishCall.Reply α

namespace SnapshotPublish

def snapshotName : Bytes := bytes "wifi.txt"

def temporaryName (pid sequence : Nat) : Bytes :=
  bytes ".wifi-" ++ decimal pid ++ bytes "-" ++ decimal sequence

/-- The first name that is not taken, of so many. -/
def createTemporary (pid : Nat) : Nat → Nat → PublishProgram (Option Bytes)
  | 0, _ => return none
  | attempts + 1, sequence => do
    let created : Created ← ask (PublishCall.create (temporaryName pid sequence))
    match created with
    | .made => return some (temporaryName pid sequence)
    | .taken => createTemporary pid attempts (sequence + 1)
    | .failed => return none

/-- Each write takes a byte at least, or is the last. -/
def writeAll : Nat → Bytes → PublishProgram Bool
  | 0, rest => return rest.isEmpty
  | fuel + 1, rest =>
    if rest = [] then return true
    else do
      let written : Option Nat ← ask (PublishCall.write rest)
      match written with
      | none | some 0 => return false
      | some n => writeAll fuel (rest.drop n)

def cannotPublish : String := "Cannot publish complete snapshot"

def discard (name : Bytes) : PublishProgram (Except String Unit) := do
  ask (PublishCall.unlink name)
  return .error cannotPublish

def completeTemporary (written : Bool) : PublishProgram Bool :=
  if written then do
    let moded : Bool ← ask PublishCall.chmod
    if moded then ask PublishCall.sync else return false
  else return false

/-- The file is closed in any case. -/
def finishTemporary (written : Bool) : PublishProgram Bool := do
  let complete ← completeTemporary written
  let closed : Bool ← ask PublishCall.close
  return complete && closed

def publishWifiSnapshot (pid sequence : Nat) (data : Bytes) : PublishProgram (Except String Unit) :=
  if data = [] ∨ data.length ≥ 65536 then return .error "Invalid snapshot size"
  else do
    let dir : Bool ← ask PublishCall.openDirectory
    if dir then
      let temporary ← createTemporary pid 16 sequence
      match temporary with
      | none => return .error "Cannot create snapshot temporary file"
      | some name =>
        let written ← writeAll data.length data
        let complete ← finishTemporary written
        if complete then
          -- only a complete file gets the name
          let renamed : Bool ← ask (PublishCall.rename name)
          if renamed then return .ok () else discard name
        else discard name
    else return .error "Snapshot directory must be owned by collector and not writable by others"

def readAll : Nat → Bytes → PublishProgram (Option Bytes)
  | 0, front => return some front
  | fuel + 1, front =>
    if 65536 ≤ front.length then return some front
    else do
      let chunk : Option Bytes ← ask (PublishCall.read (65536 - front.length))
      match chunk with
      | none => return none
      | some [] => return some front
      | some (b :: bs) => readAll fuel (front ++ b :: bs)

def readWifiSnapshot (currentStatus : Bool) : PublishProgram (Except String Bytes) := do
  let opened : Bool ← ask PublishCall.openSnapshot
  if opened then
    let content ← readAll 65536 []
    let now : Int ← ask PublishCall.now
    let _ : Bool ← ask PublishCall.close
    match content with
    | none => return .error "Wi-Fi snapshot is oversized or unreadable"
    | some content => return wifiSnapshot (some content) now currentStatus
  else return wifiSnapshot none 0 currentStatus

inductive Role where
  | collector (pid sequence : Nat) (data : Bytes)
  | server (currentStatus : Bool)

inductive Outcome where
  | published (r : Except String Unit)
  | shown (r : Except String Bytes)
  deriving DecidableEq

def Role.program : Role → PublishProgram Outcome
  | collector pid sequence data => Outcome.published <$> publishWifiSnapshot pid sequence data
  | server currentStatus => Outcome.shown <$> readWifiSnapshot currentStatus

end SnapshotPublish

/-! ## The directory -/

/-- Names and files. `fd` is the open file of each, with its position; `writer` who can still write a
file, `maker` who made a name that stands for its own file, `published` what was given the snapshot's
name, the last first. -/
structure PublishWorld (P : Type) where
  dir : Bytes → Option Nat
  data : Nat → Bytes
  next : Nat
  fd : P → Option (Nat × Nat)
  writer : Nat → Option P
  maker : Bytes → Option P
  published : List Bytes

namespace SnapshotPublish

open Function (update)

section
variable {P : Type} [DecidableEq P]

def released {A : Type} (owner : A → Option P) (p : P) : A → Option P :=
  fun a => if owner a = some p then none else owner a

def closed (p : P) (w : PublishWorld P) : PublishWorld P :=
  { w with fd := update w.fd p none, writer := released w.writer p }

/-- A killed program leaves its file behind. -/
def gone (p : P) (w : PublishWorld P) : PublishWorld P :=
  { closed p w with maker := released w.maker p }

def made (p : P) (name : Bytes) (w : PublishWorld P) : PublishWorld P :=
  { w with
    dir := update w.dir name (some w.next)
    data := update w.data w.next []
    next := w.next + 1
    fd := update w.fd p (some (w.next, 0))
    writer := update w.writer w.next (some p)
    maker := update w.maker name (some p) }

def removed (name : Bytes) (w : PublishWorld P) : PublishWorld P :=
  { w with dir := update w.dir name none, maker := update w.maker name none }

def renamed (name : Bytes) (i : Nat) (w : PublishWorld P) : PublishWorld P :=
  { removed name w with
    dir := update (update w.dir name none) snapshotName (some i)
    published := w.data i :: w.published }

/-- A new file is written at its end. -/
def publishEnv (p : P) : Env (PublishWorld P) PublishCall PublishCall.Reply := fun w c r w' =>
  match c, r with
  | .openDirectory, _ | .chmod, _ | .sync, _ | .now, _ => w' = w
  | .create name, (created : Created) =>
    match created with
    | .made => w.dir name = none ∧ w' = made p name w
    | .taken => w.dir name ≠ none ∧ w' = w
    | .failed => w' = w
  | .write b, (written : Option Nat) =>
    match written with
    | none => w' = w
    | some n => n ≤ b.length ∧ ∃ i at_, w.fd p = some (i, at_) ∧
        w' = { w with data := update w.data i (w.data i ++ b.take n) }
  | .close, _ => w' = closed p w
  | .rename name, (ok : Bool) =>
    -- The file is new, so this is never a rename between two names of one file.
    if ok then ∃ i, w.dir name = some i ∧ w' = renamed name i w else w' = w
  | .unlink name, _ => w' = removed name w ∨ w' = w
  | .openSnapshot, (ok : Bool) =>
    if ok then ∃ i, w.dir snapshotName = some i ∧ w' = { w with fd := update w.fd p (some (i, 0)) }
    else w' = w
  | .read room, (chunk : Option Bytes) =>
    match chunk with
    | none => w' = w
    | some chunk => ∃ i at_, w.fd p = some (i, at_) ∧ chunk <+: (w.data i).drop at_ ∧ chunk.length ≤ room ∧
        (chunk = [] → (w.data i).length ≤ at_) ∧
        w' = { w with fd := update w.fd p (some (i, at_ + chunk.length)) }

/-! ## What holds throughout -/

variable {role : P → Role} {first : Option Bytes} {p : P} {w w' : PublishWorld P} {name : Bytes} {i : Nat}

def Payload (role : P → Role) (b : Bytes) : Prop :=
  (∃ p pid sequence, role p = .collector pid sequence b) ∧ b ≠ [] ∧ b.length < 65536

structure Sound (role : P → Role) (first : Option Bytes) (w : PublishWorld P) : Prop where
  fresh : ∀ n i, w.dir n = some i → i < w.next
  named : ∀ n p, w.maker n = some p → n ≠ snapshotName ∧ w.dir n ≠ none
  written : ∀ i p, w.writer i = some p → i < w.next
  frozen : ∀ i, w.dir snapshotName = some i → w.writer i = none
  shown : (w.dir snapshotName).map w.data = w.published.head?.or first
  whole : ∀ b ∈ w.published, Payload role b

/-- What the others leave to this one. A file that no one can write stays as it is. -/
structure Rely (p : P) (w w' : PublishWorld P) : Prop where
  fd : w'.fd p = w.fd p
  next : w.next ≤ w'.next
  frozen : ∀ i < w.next, w.writer i = none → w'.writer i = none ∧ w'.data i = w.data i
  written : ∀ i, w.writer i = some p → w'.writer i = some p ∧ w'.data i = w.data i
  made : ∀ n, w.maker n = some p → w'.maker n = some p ∧ w'.dir n = w.dir n
  published : ∀ b ∈ w.published, b ∈ w'.published

omit [DecidableEq P] in
theorem Rely.refl (p : P) (w : PublishWorld P) : Rely p w w :=
  ⟨rfl, le_rfl, fun _ _ h => ⟨h, rfl⟩, fun _ h => ⟨h, rfl⟩, fun _ h => ⟨h, rfl⟩, fun _ => id⟩

omit [DecidableEq P] in
theorem Rely.trans (p : P) (w₁ w₂ w₃ : PublishWorld P) (h : Rely p w₁ w₂) (h' : Rely p w₂ w₃) :
    Rely p w₁ w₃ where
  fd := h'.fd.trans h.fd
  next := h.next.trans h'.next
  frozen i hi hw := by
    obtain ⟨h₁, hd⟩ := h.frozen i hi hw
    obtain ⟨h₂, hd'⟩ := h'.frozen i (hi.trans_le h.next) h₁
    exact ⟨h₂, hd'.trans hd⟩
  written i hw := by
    obtain ⟨h₁, hd⟩ := h.written i hw
    obtain ⟨h₂, hd'⟩ := h'.written i h₁
    exact ⟨h₂, hd'.trans hd⟩
  made n hm := by
    obtain ⟨h₁, hd⟩ := h.made n hm
    obtain ⟨h₂, hd'⟩ := h'.made n h₁
    exact ⟨h₂, hd'.trans hd⟩
  published b hb := h'.published b (h.published b hb)

theorem released_none {A : Type} {owner : A → Option P} {a : A} (h : owner a = none) :
    released owner p a = none := by
  simp [released, h]

theorem released_some {A : Type} {owner : A → Option P} {a : A} {q : P} (hq : q ≠ p) (h : owner a = some q) :
    released owner p a = some q := by
  simp [released, h, hq]

theorem of_released {A : Type} {owner : A → Option P} {a : A} {q : P} (h : released owner p a = some q) :
    owner a = some q := by
  unfold released at h
  by_cases ha : owner a = some p
  · simp [ha] at h
  · simpa [ha] using h

/-! ## The steps -/

theorem sound_closed (h : Sound role first w) : Sound role first (closed p w) :=
  { h with
    written := fun i q hq => h.written i q (of_released hq)
    frozen := fun i hi => released_none (h.frozen i hi) }

theorem rely_closed {q : P} (hq : q ≠ p) (w : PublishWorld P) : Rely q w (closed p w) where
  fd := Function.update_of_ne hq _ _
  next := le_rfl
  frozen _ _ hw := ⟨released_none hw, rfl⟩
  written _ hw := ⟨released_some hq hw, rfl⟩
  made _ hm := ⟨hm, rfl⟩
  published _ := id

theorem sound_gone (h : Sound role first w) : Sound role first (gone p w) :=
  { sound_closed h with named := fun n q hq => h.named n q (of_released hq) }

theorem rely_gone {q : P} (hq : q ≠ p) (w : PublishWorld P) : Rely q w (gone p w) :=
  { rely_closed hq w with made := fun _ hm => ⟨released_some hq hm, rfl⟩ }

theorem sound_made (h : Sound role first w) (hname : name ≠ snapshotName) (hfree : w.dir name = none) :
    Sound role first (made p name w) where
  fresh n i hn := by
    by_cases heq : n = name
    · subst heq
      have hi : w.next = i := by simpa [made] using hn
      exact hi ▸ Nat.lt_succ_self _
    · have hold : w.dir n = some i := by simpa [made, Function.update_of_ne heq] using hn
      exact Nat.lt_succ_of_lt (h.fresh n i hold)
  named n q hn := by
    by_cases heq : n = name
    · subst heq
      exact ⟨hname, by simp [made]⟩
    · have hold : w.maker n = some q := by simpa [made, Function.update_of_ne heq] using hn
      simpa [made, Function.update_of_ne heq] using h.named n q hold
  written i q hi := by
    by_cases heq : i = w.next
    · exact heq ▸ Nat.lt_succ_self _
    · have hold : w.writer i = some q := by simpa [made, Function.update_of_ne heq] using hi
      exact Nat.lt_succ_of_lt (h.written i q hold)
  frozen i hi := by
    have hold : w.dir snapshotName = some i := by simpa [made, Function.update_of_ne hname.symm] using hi
    have hne : i ≠ w.next := (h.fresh _ i hold).ne
    simpa [made, Function.update_of_ne hne] using h.frozen i hold
  shown := by
    refine Eq.trans ?_ h.shown
    show ((update w.dir name (some w.next)) snapshotName).map _ = _
    rw [Function.update_of_ne hname.symm]
    cases hsnap : w.dir snapshotName with
    | none => rfl
    | some i =>
      have hne : i ≠ w.next := (h.fresh _ i hsnap).ne
      simp [made, Function.update_of_ne hne]
  whole := h.whole

theorem rely_made {q : P} (h : Sound role first w) (hfree : w.dir name = none) (hq : q ≠ p) :
    Rely q w (made p name w) where
  fd := Function.update_of_ne hq _ _
  next := Nat.le_succ _
  frozen i hi hw := by
    have hne : i ≠ w.next := hi.ne
    simpa [made, Function.update_of_ne hne] using hw
  written i hw := by
    have hne : i ≠ w.next := (h.written i q hw).ne
    simpa [made, Function.update_of_ne hne] using hw
  made n hm := by
    have hne : n ≠ name := fun heq => (h.named n q hm).2 (heq ▸ hfree)
    simpa [made, Function.update_of_ne hne] using hm
  published _ := id

omit [DecidableEq P] in
theorem sound_wrote (h : Sound role first w) (hi : w.writer i = some p) (b : Bytes) :
    Sound role first { w with data := update w.data i b } :=
  { h with
    shown := by
      rw [← h.shown]
      cases hsnap : w.dir snapshotName with
      | none => rfl
      | some j =>
        have hne : j ≠ i := by
          rintro rfl
          rw [h.frozen j hsnap] at hi
          cases hi
        simp [Function.update_of_ne hne] }

omit [DecidableEq P] in
theorem rely_wrote {q : P} (hi : w.writer i = some p) (hq : q ≠ p) (b : Bytes) :
    Rely q w { w with data := update w.data i b } where
  fd := rfl
  next := le_rfl
  frozen j _ hw := by
    have hne : j ≠ i := by
      rintro rfl
      rw [hw] at hi
      cases hi
    exact ⟨hw, Function.update_of_ne hne _ _⟩
  written j hw := by
    have hne : j ≠ i := by
      rintro rfl
      rw [hw] at hi
      exact hq (Option.some_inj.mp hi)
    exact ⟨hw, Function.update_of_ne hne _ _⟩
  made _ hm := ⟨hm, rfl⟩
  published _ := id

omit [DecidableEq P] in
theorem sound_removed (h : Sound role first w) (hmine : w.maker name = some p) :
    Sound role first (removed name w) := by
  have hname := (h.named name p hmine).1
  have hdir {n : Bytes} {i : Nat} (hn : (removed name w).dir n = some i) : n ≠ name ∧ w.dir n = some i := by
    by_cases heq : n = name
    · simp [removed, heq] at hn
    · exact ⟨heq, by simpa [removed, Function.update_of_ne heq] using hn⟩
  have hsnap : (removed name w).dir snapshotName = w.dir snapshotName := Function.update_of_ne hname.symm _ _
  refine ⟨fun n i hn => h.fresh n i (hdir hn).2, fun n q hn => ?_, h.written, fun i hi => h.frozen i (hdir hi).2, ?_, h.whole⟩
  · by_cases heq : n = name
    · simp [removed, heq] at hn
    · have hold : w.maker n = some q := by simpa [removed, Function.update_of_ne heq] using hn
      simpa [removed, Function.update_of_ne heq] using h.named n q hold
  · rw [hsnap]
    exact h.shown

omit [DecidableEq P] in
theorem rely_removed {q : P} (hmine : w.maker name = some p) (hq : q ≠ p) : Rely q w (removed name w) where
  fd := rfl
  next := le_rfl
  frozen _ _ hw := ⟨hw, rfl⟩
  written _ hw := ⟨hw, rfl⟩
  made n hm := by
    have hne : n ≠ name := by
      rintro rfl
      exact hq (Option.some_inj.mp (hm.symm.trans hmine))
    exact ⟨(Function.update_of_ne hne _ _).trans hm, Function.update_of_ne hne _ _⟩
  published _ := id

omit [DecidableEq P] in
theorem sound_renamed (h : Sound role first w) (hmine : w.maker name = some p) (hdir : w.dir name = some i)
    (hclosed : w.writer i = none) (hdata : Payload role (w.data i)) : Sound role first (renamed name i w) := by
  have hold := sound_removed h hmine
  have hother {n : Bytes} (hn : n ≠ snapshotName) : (renamed name i w).dir n = (removed name w).dir n :=
    Function.update_of_ne hn _ _
  have hsnap : (renamed name i w).dir snapshotName = some i := by simp [renamed]
  constructor
  · intro n j hn
    by_cases heq : n = snapshotName
    · rw [heq, hsnap] at hn
      exact Option.some_inj.mp hn ▸ h.fresh name i hdir
    · exact hold.fresh n j (hother heq ▸ hn)
  · intro n q hn
    obtain ⟨hne, hdir⟩ := hold.named n q hn
    exact ⟨hne, (hother hne).symm ▸ hdir⟩
  · exact h.written
  · intro j hj
    rw [hsnap] at hj
    exact Option.some_inj.mp hj ▸ hclosed
  · rw [hsnap]
    rfl
  · intro b hb
    rcases List.mem_cons.mp hb with rfl | hb
    · exact hdata
    · exact h.whole b hb

omit [DecidableEq P] in
theorem rely_renamed {q : P} (h : Sound role first w) (hmine : w.maker name = some p) (hq : q ≠ p) :
    Rely q w (renamed name i w) :=
  { rely_removed hmine hq with
    made := fun n hm => by
      obtain ⟨hmaker, hdir⟩ := (rely_removed hmine hq).made n hm
      exact ⟨hmaker, (Function.update_of_ne (h.named n q hm).1 _ _).trans hdir⟩
    published := fun _ => List.mem_cons_of_mem _ }

omit [DecidableEq P] in
theorem sound_fd (h : Sound role first w) (fd : P → Option (Nat × Nat)) : Sound role first { w with fd := fd } :=
  { h with }

theorem rely_fd {q : P} (hq : q ≠ p) (w : PublishWorld P) (x : Option (Nat × Nat)) :
    Rely q w { w with fd := update w.fd p x } :=
  { Rely.refl q w with fd := Function.update_of_ne hq _ _ }

/-! ## One collector among others -/

abbrev Steady (role : P → Role) (first : Option Bytes) (p : P) {α : Type} (Q : α → PublishWorld P → Prop)
    (x : PublishProgram α) (w : PublishWorld P) : Prop :=
  steady publishEnv (Sound role first) Rely p Q x w

theorem steady_same {α : Type} {Q : α → PublishWorld P → Prop} {c : PublishCall}
    {f : c.Reply → PublishProgram α} (hsame : ∀ w r w', publishEnv p w c r w' → w' = w)
    (h : ∀ w₁, Rely p w w₁ → Sound role first w₁ → ∀ r, Steady role first p Q (f r) w₁) :
    Steady role first p Q (ask c >>= f) w := by
  intro w₁ hw hs r w₂ he
  obtain rfl := hsame w₁ r w₂ he
  exact ⟨hs, fun q _ => .refl q _, h w₂ hw hs r⟩

structure Owning (p : P) (name : Bytes) (i : Nat) (front : Bytes) (w : PublishWorld P) : Prop where
  fd : ∃ at_, w.fd p = some (i, at_)
  writer : w.writer i = some p
  maker : w.maker name = some p
  dir : w.dir name = some i
  data : w.data i = front

omit [DecidableEq P] in
theorem Owning.rely {front : Bytes} (h : Owning p name i front w) (hw : Rely p w w') : Owning p name i front w' where
  fd := hw.fd ▸ h.fd
  writer := (hw.written i h.writer).1
  maker := (hw.made name h.maker).1
  dir := (hw.made name h.maker).2.trans h.dir
  data := (hw.written i h.writer).2.trans h.data

structure Waiting (p : P) (name : Bytes) (i : Nat) (front : Bytes) (w : PublishWorld P) : Prop where
  next : i < w.next
  writer : w.writer i = none
  maker : w.maker name = some p
  dir : w.dir name = some i
  data : w.data i = front

omit [DecidableEq P] in
theorem Waiting.rely {front : Bytes} (h : Waiting p name i front w) (hw : Rely p w w') :
    Waiting p name i front w' := by
  have hfrozen := hw.frozen i h.next h.writer
  have hmade := hw.made name h.maker
  exact ⟨h.next.trans_le hw.next, hfrozen.1, hmade.1, hmade.2.trans h.dir, hfrozen.2.trans h.data⟩

theorem temporary_ne (pid sequence : Nat) : temporaryName pid sequence ≠ snapshotName := by
  intro h
  have hhead := congrArg List.head? h
  simp [temporaryName, snapshotName, bytes] at hhead
  exact absurd hhead (by decide)

theorem createTemporary_steady (pid : Nat) : ∀ (attempts sequence : Nat) (w : PublishWorld P),
    Steady role first p (fun r w => ∀ name ∈ r, ∃ i, Owning p name i [] w)
      (createTemporary pid attempts sequence) w
  | 0, _, _ => fun _ h => nomatch h
  | attempts + 1, sequence, w => by
    intro w₁ _ hs created w₂ he
    cases created with
    | made =>
      obtain ⟨hfree, rfl⟩ := he
      refine ⟨sound_made hs (temporary_ne pid sequence) hfree, fun q hq => rely_made hs hfree hq, ?_⟩
      intro name hname
      obtain rfl := Option.some_inj.mp hname
      refine ⟨w₁.next, ⟨0, ?_⟩, ?_, ?_, ?_, ?_⟩ <;> simp [made]
    | taken =>
      obtain ⟨-, rfl⟩ := he
      exact ⟨hs, fun q _ => .refl q _, createTemporary_steady pid attempts (sequence + 1) w₂⟩
    | failed =>
      obtain rfl : w₂ = w₁ := he
      exact ⟨hs, fun q _ => .refl q _, fun _ h => nomatch h⟩

theorem writeAll_steady : ∀ (fuel : Nat) {rest front : Bytes} {w : PublishWorld P}, rest.length ≤ fuel →
    Owning p name i front w → Steady role first p
      (fun ok w => ∃ front', Owning p name i front' w ∧ (ok = true → front' = front ++ rest))
      (writeAll fuel rest) w
  | 0, rest, front, w, hfuel, h => by
    obtain rfl := List.eq_nil_of_length_eq_zero (Nat.le_zero.mp hfuel)
    exact ⟨front, h, fun _ => by simp⟩
  | fuel + 1, rest, front, w, hfuel, h => by
    unfold writeAll
    by_cases hdone : rest = []
    · rw [if_pos hdone]
      exact ⟨front, h, fun _ => by simp [hdone]⟩
    rw [if_neg hdone]
    intro w₁ hw hs written w₂ he
    replace h := h.rely hw
    cases written with
    | none =>
      obtain rfl : w₂ = w₁ := he
      exact ⟨hs, fun q _ => .refl q _, front, h, nofun⟩
    | some n =>
      obtain ⟨hn, j, at_, hfd, rfl⟩ := he
      obtain ⟨at', hfd'⟩ := h.fd
      obtain ⟨rfl, -⟩ := Prod.mk.inj (Option.some_inj.mp (hfd'.symm.trans hfd))
      have hwrote : Owning p name i (front ++ rest.take n)
          { w₁ with data := update w₁.data i (w₁.data i ++ rest.take n) } :=
        ⟨h.fd, h.writer, h.maker, h.dir, by simp [h.data]⟩
      refine ⟨sound_wrote hs h.writer _, fun q hq => rely_wrote h.writer hq _, ?_⟩
      cases n with
      | zero => exact ⟨_, hwrote, nofun⟩
      | succ n =>
        have hshort : (rest.drop (n + 1)).length ≤ fuel := by
          rw [List.length_drop]
          omega
        refine steady_mono (fun ok w₃ hend => ?_) (writeAll_steady fuel hshort hwrote)
        obtain ⟨front', hown, hall⟩ := hend
        refine ⟨front', hown, fun hok => ?_⟩
        rw [hall hok, List.append_assoc, List.take_append_drop]

theorem completeTemporary_steady {front : Bytes} {written : Bool} (h : Owning p name i front w) :
    Steady role first p (fun complete w => Owning p name i front w ∧ (complete = true → written = true))
      (completeTemporary written) w := by
  cases written with
  | false => exact ⟨h, nofun⟩
  | true =>
    show Steady role first p _ (ask PublishCall.chmod >>= fun (moded : Bool) =>
      if moded then ask PublishCall.sync else pure false) w
    refine steady_same (fun _ _ _ he => he) fun w₁ hw₁ _ moded => ?_
    cases moded with
    | false => exact ⟨h.rely hw₁, fun _ => rfl⟩
    | true =>
      rintro w₂ hw₂ hs synced _ rfl
      exact ⟨hs, fun q _ => .refl q _, (h.rely hw₁).rely hw₂, fun _ => rfl⟩

theorem finishTemporary_steady {front : Bytes} {written : Bool} (h : Owning p name i front w) :
    Steady role first p (fun complete w => Waiting p name i front w ∧ (complete = true → written = true))
      (finishTemporary written) w := by
  unfold finishTemporary
  rw [Steady, steady_bind]
  refine steady_mono (fun complete w₁ h₁ => ?_) (completeTemporary_steady h)
  obtain ⟨hown, hall⟩ := h₁
  rintro w₂ hw hs closed_ _ rfl
  replace hown := hown.rely hw
  refine ⟨sound_closed hs, fun q hq => rely_closed hq w₂, ⟨hs.fresh name i hown.dir, ?_, hown.maker, hown.dir, hown.data⟩,
    fun hok => ?_⟩
  · simp [closed, released, hown.writer]
  · exact hall (Bool.and_eq_true_iff.mp hok).1

theorem discard_steady {Q : Except String Unit → PublishWorld P → Prop} {front : Bytes}
    (h : Waiting p name i front w) (hQ : ∀ e w, Q (.error e) w) :
    Steady role first p Q (discard name) w := by
  intro w₁ hw hs₁ _ w₂ he
  replace h := h.rely hw
  rcases he with rfl | rfl
  · exact ⟨sound_removed hs₁ h.maker, fun q hq => rely_removed h.maker hq, hQ _ _⟩
  · exact ⟨hs₁, fun q _ => .refl q _, hQ _ _⟩

theorem publish_steady {pid sequence : Nat} {data : Bytes} (hrole : role p = .collector pid sequence data)
    (w : PublishWorld P) :
    Steady role first p (fun r w => r = .ok () → data ∈ w.published) (publishWifiSnapshot pid sequence data) w := by
  unfold publishWifiSnapshot
  by_cases hsize : data = [] ∨ data.length ≥ 65536
  · rw [if_pos hsize]
    exact nofun
  rw [if_neg hsize]
  have hpayload : Payload role data :=
    ⟨⟨p, pid, sequence, hrole⟩, fun h => hsize (.inl h), Nat.not_le.mp fun h => hsize (.inr h)⟩
  refine steady_same (fun _ _ _ he => he) fun w₁ _ _ dir => ?_
  cases dir with
  | false => exact nofun
  | true =>
    simp only [if_true]
    rw [Steady, steady_bind]
    refine steady_mono (fun temporary w₂ h₂ => ?_) (createTemporary_steady pid 16 sequence w₁)
    cases temporary with
    | none => exact nofun
    | some name =>
      obtain ⟨i, hown⟩ := h₂ name rfl
      dsimp only
      rw [steady_bind]
      refine steady_mono (fun written w₃ h₃ => ?_) (writeAll_steady data.length le_rfl hown)
      obtain ⟨front, hown, hall⟩ := h₃
      rw [steady_bind]
      refine steady_mono (fun complete w₄ h₄ => ?_) (finishTemporary_steady hown)
      obtain ⟨hwaiting, hcomplete⟩ := h₄
      have hdiscard {w : PublishWorld P} (h : Waiting p name i front w) :
          Steady role first p (fun r w => r = .ok () → data ∈ w.published) (discard name) w :=
        discard_steady h fun _ _ => nofun
      cases complete with
      | false => exact hdiscard hwaiting
      | true =>
        obtain rfl : front = data := hall (hcomplete rfl)
        simp only [if_true]
        intro w₅ hw₅ hs ok w₆ he
        -- others may have moved before the rename, but not this file
        replace hwaiting := hwaiting.rely hw₅
        cases ok with
        | false =>
          obtain rfl : w₆ = w₅ := he
          exact ⟨hs, fun q _ => .refl q _, hdiscard hwaiting⟩
        | true =>
          obtain ⟨j, hj, rfl⟩ := he
          obtain rfl : i = j := Option.some_inj.mp (hwaiting.dir.symm.trans hj)
          refine ⟨sound_renamed hs hwaiting.maker hj hwaiting.writer (hwaiting.data.symm ▸ hpayload),
            fun q hq => rely_renamed hs hwaiting.maker hq, fun _ => ?_⟩
          exact List.mem_cons.mpr (.inl hwaiting.data.symm)

/-! ## The server among others -/

def Shown (first : Option Bytes) (b : Bytes) (w : PublishWorld P) : Prop := b ∈ w.published ∨ first = some b

omit [DecidableEq P] in
theorem Shown.rely {b : Bytes} (h : Shown first b w) (hw : Rely p w w') : Shown first b w' :=
  h.imp_left (hw.published b)

structure Reading (first : Option Bytes) (p : P) (b front : Bytes) (w : PublishWorld P) : Prop where
  file : ∃ i, w.fd p = some (i, front.length) ∧ i < w.next ∧ w.writer i = none ∧ w.data i = b
  front : front <+: b
  shown : Shown first b w

omit [DecidableEq P] in
theorem Reading.rely {b front : Bytes} (h : Reading first p b front w) (hw : Rely p w w') :
    Reading first p b front w' := by
  obtain ⟨i, hfd, hi, hwriter, hdata⟩ := h.file
  have hfrozen := hw.frozen i hi hwriter
  exact ⟨⟨i, hw.fd.trans hfd, hi.trans_le hw.next, hfrozen.1, hfrozen.2.trans hdata⟩, h.front, h.shown.rely hw⟩

omit [DecidableEq P] in
theorem shown_dir (hs : Sound role first w) (hi : w.dir snapshotName = some i) : Shown first (w.data i) w := by
  have hshown := hs.shown
  rw [hi, Option.map_some] at hshown
  cases hp : w.published with
  | nil =>
    rw [hp] at hshown
    exact .inr hshown.symm
  | cons b bs =>
    rw [hp] at hshown
    have hb : w.data i = b := Option.some_inj.mp hshown
    exact .inl (by simp [hp, hb])

theorem readAll_steady {b : Bytes} : ∀ (fuel : Nat) {front : Bytes} {w : PublishWorld P},
    65536 ≤ fuel + front.length → Reading first p b front w → Steady role first p
      (fun r w => Shown first b w ∧ ∀ content ∈ r, content = b ∨ 65536 ≤ content.length) (readAll fuel front) w
  | 0, front, w, hfuel, h => by
    refine ⟨h.shown, fun content hc => .inr ?_⟩
    obtain rfl := Option.some_inj.mp hc
    omega
  | fuel + 1, front, w, hfuel, h => by
    unfold readAll
    by_cases hlong : 65536 ≤ front.length
    · rw [if_pos hlong]
      refine ⟨h.shown, fun content hc => .inr ?_⟩
      exact Option.some_inj.mp hc ▸ hlong
    rw [if_neg hlong]
    intro w₁ hw hs chunk w₂ he
    replace h := h.rely hw
    cases chunk with
    | none =>
      obtain rfl : w₂ = w₁ := he
      exact ⟨hs, fun q _ => .refl q _, h.shown, fun _ hc => nomatch hc⟩
    | some chunk =>
      obtain ⟨j, at_, hfd, hchunk, -, hend, rfl⟩ := he
      obtain ⟨i, hfd', hi, hwriter, hdata⟩ := h.file
      obtain ⟨hj, hat⟩ := Prod.mk.inj (Option.some_inj.mp (hfd.symm.trans hfd'))
      rw [hj, hat, hdata] at hchunk hend
      refine ⟨sound_fd hs _, fun q hq => rely_fd hq _ _, ?_⟩
      -- no one writes the file any more, so a piece goes on where the last one ended
      have hfront : front ++ chunk <+: b := by
        obtain ⟨rest, hrest⟩ := h.front
        rw [← hrest, List.drop_left] at hchunk
        rw [← hrest]
        exact (List.prefix_append_right_inj front).mpr hchunk
      have hnext : Reading first p b (front ++ chunk)
          { w₁ with fd := update w₁.fd p (some (j, at_ + chunk.length)) } :=
        ⟨⟨i, by simp [hj, hat], hi, hwriter, hdata⟩, hfront, h.shown⟩
      cases chunk with
      | nil =>
        refine ⟨h.shown, fun content hc => .inl ?_⟩
        obtain rfl := Option.some_inj.mp hc
        exact h.front.eq_of_length_le (hend rfl)
      | cons c cs =>
        refine readAll_steady fuel ?_ hnext
        rw [List.length_append, List.length_cons]
        omega

def FromSnapshot (first : Option Bytes) (currentStatus : Bool) (r : Except String Bytes)
    (w : PublishWorld P) : Prop :=
  ∀ out, r = .ok out → ∃ b now, Shown first b w ∧ wifiSnapshot (some b) now currentStatus = .ok out

theorem read_steady (currentStatus : Bool) (w : PublishWorld P) :
    Steady role first p (FromSnapshot first currentStatus) (readWifiSnapshot currentStatus) w := by
  unfold readWifiSnapshot
  rw [Steady, steady_ask_bind]
  intro w₁ _ hs opened w₂ he
  cases opened with
  | false =>
    obtain rfl : w₂ = w₁ := he
    exact ⟨hs, fun q _ => .refl q _, nofun⟩
  | true =>
    obtain ⟨i, hi, rfl⟩ := he
    refine ⟨sound_fd hs _, fun q hq => rely_fd hq _ _, ?_⟩
    have hnamed : Shown first (w₁.data i) w₁ := shown_dir hs hi
    have hreading : Reading first p (w₁.data i) [] { w₁ with fd := update w₁.fd p (some (i, 0)) } :=
      ⟨⟨i, by simp, hs.fresh _ i hi, hs.frozen i hi, rfl⟩, List.nil_prefix, hnamed⟩
    simp only [if_true]
    rw [steady_bind]
    refine steady_mono (fun content w₃ h₃ => ?_) (readAll_steady 65536 (Nat.le_add_right _ _) hreading)
    obtain ⟨hshown, hwhole⟩ := h₃
    refine steady_same (fun _ _ _ he => he) fun w₄ hw₄ _ now => ?_
    rintro w₅ hw₅ hs₅ _ _ rfl
    refine ⟨sound_closed hs₅, fun q hq => rely_closed hq w₅, ?_⟩
    cases content with
    | none => exact nofun
    | some content =>
      intro out hout
      rcases hwhole content rfl with rfl | hlong
      · have hkept : Shown first (w₁.data i) w₅ := (hshown.rely hw₄).rely hw₅
        exact ⟨w₁.data i, now, hkept, hout⟩
      · have hrefused : wifiSnapshot (some content) now currentStatus =
            .error "Wi-Fi snapshot is oversized or unreadable" := if_pos hlong
        rw [hrefused] at hout
        cases hout

/-! ## All together -/

def Promise (role : P → Role) (first : Option Bytes) (p : P) (o : Outcome) (w : PublishWorld P) : Prop :=
  (∀ pid sequence data, role p = .collector pid sequence data → o = .published (.ok ()) → data ∈ w.published) ∧
  ∀ currentStatus r, role p = .server currentStatus → o = .shown r → FromSnapshot first currentStatus r w

theorem program_steady (p : P) (w : PublishWorld P) :
    Steady role first p (Promise role first p) (role p).program w := by
  cases hrole : role p with
  | collector pid sequence data =>
    rw [Role.program, map_eq_pure_bind, Steady, steady_bind]
    refine steady_mono (fun r w h => ⟨fun pid' sequence' data' heq hr => ?_, fun _ _ _ => nofun⟩)
      (publish_steady hrole w)
    rw [hrole] at heq
    cases heq
    exact h (Outcome.published.inj hr)
  | server currentStatus =>
    rw [Role.program, map_eq_pure_bind, Steady, steady_bind]
    refine steady_mono (fun r w h => ⟨fun _ _ _ _ => nofun, fun currentStatus' r' heq hr => ?_⟩)
      (read_steady currentStatus w)
    rw [hrole] at heq
    cases heq
    cases hr
    exact h

omit [DecidableEq P] in
theorem Promise.rely {o : Outcome} (h : Promise role first p o w) (hw : Rely p w w') :
    Promise role first p o w' := by
  refine ⟨fun pid sequence data hrole ho => hw.published _ (h.1 pid sequence data hrole ho), ?_⟩
  intro currentStatus r hrole hr out hout
  obtain ⟨b, now, hb, hread⟩ := h.2 currentStatus r hrole hr out hout
  exact ⟨b, now, hb.rely hw, hread⟩

structure Found (w : PublishWorld P) : Prop where
  fresh : ∀ n i, w.dir n = some i → i < w.next
  writer : ∀ i, w.writer i = none
  maker : ∀ n, w.maker n = none
  published : w.published = []

def snapshot (w : PublishWorld P) : Option Bytes := (w.dir snapshotName).map w.data

omit [DecidableEq P] in
theorem Found.sound (h : Found w) (role : P → Role) : Sound role (snapshot w) w where
  fresh := h.fresh
  named n p hn := by
    rw [h.maker] at hn
    cases hn
  written i p hi := by
    rw [h.writer] at hi
    cases hi
  frozen i _ := h.writer i
  shown := by
    rw [h.published]
    rfl
  whole b hb := by
    rw [h.published] at hb
    cases hb

/-- **Snapshots are published whole.** However many collectors and readers there are, in whatever pieces
they write and read, and whoever is killed anywhere: the name of the snapshot stands for what was
published last, or what was found; all that is published is some collector's whole data; a collector
that ends well has published it; and what the server shows it has read from one snapshot, not from two
halves. -/
theorem published_whole (role : P → Role)
    {s s' : Pool P (PublishWorld P) PublishCall PublishCall.Reply Outcome} (hstart : Found s.world)
    (hidle : ∀ p, s.left p = none) (h : PoolRuns publishEnv (fun p => (role p).program) gone s s') :
    (snapshot s'.world = s'.world.published.head?.or (snapshot s.world) ∧
      ∀ b ∈ s'.world.published, Payload role b) ∧
    (∀ p pid sequence data, role p = .collector pid sequence data →
      s'.left p = some (.done (.published (.ok ()))) → data ∈ s'.world.published) ∧
    ∀ p currentStatus out, role p = .server currentStatus → s'.left p = some (.done (.shown (.ok out))) →
      ∃ b now, Shown (snapshot s.world) b s'.world ∧ wifiSnapshot (some b) now currentStatus = .ok out := by
  have hall := pool_keeps (fun _ _ => True) (Promise role (snapshot s.world)) Rely.refl Rely.trans
    (fun _ _ _ _ _ => trivial) (fun _ _ _ _ hp hw => hp.rely hw) (fun p w _ _ => program_steady p w)
    (fun p w hs => ⟨sound_gone hs, trivial, fun q hq => rely_gone hq w⟩) h (hstart.sound role)
    fun p => by rw [hidle p]; exact trivial
  refine ⟨⟨hall.1.shown, hall.1.whole⟩, fun p pid sequence data hrole hdone => ?_,
    fun p currentStatus out hrole hdone => ?_⟩
  · exact (hall.2 p _ hdone).1 pid sequence data hrole rfl
  · exact (hall.2 p _ hdone).2 currentStatus _ hrole rfl out rfl

end

def publishAnswer (p : Bool) (w : PublishWorld Bool) : (c : PublishCall) → c.Reply × PublishWorld Bool
  | .openDirectory | .chmod | .sync => (true, w)
  | .now => (1700000000, w)
  | .create name => if w.dir name = none then (.made, made p name w) else (.taken, w)
  | .write b =>
    match w.fd p with
    | none => (none, w)
    | some f => (some b.length, { w with data := update w.data f.1 (w.data f.1 ++ b.take b.length) })
  | .close => (true, closed p w)
  | .rename name =>
    match w.dir name with
    | none => (false, w)
    | some i => (true, renamed name i w)
  | .unlink name => ((), removed name w)
  | .openSnapshot =>
    match w.dir snapshotName with
    | none => (false, w)
    | some i => (true, { w with fd := update w.fd p (some (i, 0)) })
  | .read room =>
    match w.fd p with
    | none => (none, w)
    | some f =>
      let chunk := ((w.data f.1).drop f.2).take room
      if room = 0 then (none, w)
      else (some chunk, { w with fd := update w.fd p (some (f.1, f.2 + chunk.length)) })

theorem publishAnswer_env (p : Bool) (w : PublishWorld Bool) (c : PublishCall) :
    publishEnv p w c (publishAnswer p w c).1 (publishAnswer p w c).2 := by
  cases c with
  | create name => by_cases hfree : w.dir name = none <;> simp [publishAnswer, publishEnv, hfree]
  | write b =>
    cases hfd : w.fd p with
    | none => simp [publishAnswer, publishEnv, hfd]
    | some f =>
      simp only [publishAnswer, publishEnv, hfd]
      exact ⟨le_rfl, f.1, f.2, rfl, rfl⟩
  | rename name => cases hdir : w.dir name <;> simp [publishAnswer, publishEnv, hdir]
  | unlink name => exact .inl rfl
  | openSnapshot => cases hdir : w.dir snapshotName <;> simp [publishAnswer, publishEnv, hdir]
  | read room =>
    cases hfd : w.fd p with
    | none => simp [publishAnswer, publishEnv, hfd]
    | some f =>
      by_cases hroom : room = 0
      · simp [publishAnswer, publishEnv, hfd, hroom]
      · simp only [publishAnswer, publishEnv, hfd, hroom, if_false]
        refine ⟨f.1, f.2, rfl, List.take_prefix _ _, List.length_take_le _ _, fun hempty => ?_, rfl⟩
        rw [List.take_eq_nil_iff] at hempty
        exact List.drop_eq_nil_iff.mp (hempty.resolve_left hroom)
  | _ => rfl

def sampleRole : Bool → Role
  | false => .collector 7 0 (bytes "encoder-wifi-v1 1700000000\n" ++ NetworkStatus.heading)
  | true => .server false

abbrev SamplePool : Type := Pool Bool (PublishWorld Bool) PublishCall PublishCall.Reply Outcome

def emptyDirectory : SamplePool :=
  ⟨{ dir := fun _ => none, data := fun _ => [], next := 0, fd := fun _ => none, writer := fun _ => none
     maker := fun _ => none, published := [] }, fun _ => none⟩

def ran (p : Bool) (s : SamplePool) : SamplePool :=
  let r := exec (publishAnswer p) (sampleRole p).program s.world
  s.set p r.2 (some (.done r.1))

theorem poolRuns_ran {s₀ s : SamplePool} (p : Bool)
    (h : PoolRuns publishEnv (fun p => (sampleRole p).program) gone s₀ s) (hleft : s.left p = none) :
    PoolRuns publishEnv (fun p => (sampleRole p).program) gone s₀ (ran p s) := by
  have hruns := runs_exec (publishAnswer_env p) (sampleRole p).program s.world
  have hown := poolRuns_of_runs (fun p => (sampleRole p).program) gone hruns
    (s.set p s.world (some (sampleRole p).program)) rfl (by simp [Pool.set])
  rw [Pool.set_set] at hown
  exact (h.tail (.start hleft)).trans hown

theorem published_whole_shown : ∃ b now, Shown none b (ran true (ran false emptyDirectory)).world ∧
    wifiSnapshot (some b) now false = .ok NetworkStatus.heading := by
  have hfound : Found emptyDirectory.world := ⟨nofun, fun _ => rfl, fun _ => rfl, rfl⟩
  have hruns := poolRuns_ran true (poolRuns_ran false (.refl (a := emptyDirectory)) rfl) rfl
  have hshown : (exec (publishAnswer true) (sampleRole true).program (ran false emptyDirectory).world).1 =
      .shown (.ok NetworkStatus.heading) := by decide
  have hdone : (ran true (ran false emptyDirectory)).left true =
      some (.done (.shown (.ok NetworkStatus.heading))) := congrArg (fun o => some (Program.done o)) hshown
  exact (published_whole sampleRole hfound (fun _ => rfl) hruns).2.2 true false _ rfl hdone

end SnapshotPublish

end EncoderNext
