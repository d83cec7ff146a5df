import EncoderNext.NetworkStatus
import EncoderNext.Pool

/-!
# The cooldown of scans

Whoever wants a scan takes a lock, compares the clock with a stamp in a file, and writes the new
stamp over the old one. Many may try at once, a write may stop half way, and any of them may be
killed anywhere.
-/

namespace EncoderNext

open Program
open NetworkStatus (fromChars)

/-! ## A stamp half over another -/

theorem digitsValue_append (x y : Bytes) :
    digitsValue (x ++ y) = digitsValue x * 10 ^ y.length + digitsValue y := by
  induction y using List.reverseRecOn with
  | nil => simp [digitsValue]
  | append_singleton y c ih =>
    rw [← List.append_assoc, digitsValue_snoc, ih, digitsValue_snoc, List.length_append,
      List.length_singleton, Nat.pow_succ, Nat.add_mul, Nat.mul_assoc, Nat.add_assoc]

theorem digit_value_lt : ∀ c : UInt8, isDigit c = true → (c - byte '0').toNat < 10 :=
  forall_byte (by decide +kernel)

theorem digitsValue_lt {ds : Bytes} (h : ∀ c ∈ ds, isDigit c = true) : digitsValue ds < 10 ^ ds.length := by
  induction ds using List.reverseRecOn with
  | nil => simp [digitsValue]
  | append_singleton ds c ih =>
    have hlast := digit_value_lt c (h c (by simp))
    have hfront := ih fun d hd => h d (by simp [hd])
    rw [digitsValue_snoc, List.length_append, List.length_singleton, Nat.pow_succ]
    omega

theorem length_decimal {k n : Nat} (hlow : 10 ^ k ≤ n) (hhigh : n < 10 ^ (k + 1)) :
    (decimal n).length = k + 1 := by
  have hle := length_decimal_le k n hhigh
  have hlt := digitsValue_lt (decimal_digits n)
  rw [digitsValue_decimal] at hlt
  have hge : k < (decimal n).length := (Nat.pow_lt_pow_iff_right (by omega)).mp (hlow.trans_lt hlt)
  omega

/-- A later stamp of the same length, written over the front only, counts no less. -/
theorem torn_ge {old new : Bytes} (hnew : ∀ c ∈ new, isDigit c = true) (hlen : new.length = old.length)
    (hle : digitsValue old ≤ digitsValue new) (n : Nat) :
    digitsValue old ≤ digitsValue (new.take n ++ old.drop n) := by
  have hrest : (new.drop n).length = (old.drop n).length := by simp [hlen]
  have hfull := digitsValue_append (old.take n) (old.drop n)
  have hfull' := digitsValue_append (new.take n) (new.drop n)
  rw [List.take_append_drop] at hfull hfull'
  rw [digitsValue_append, hfull]
  have hsmall := digitsValue_lt fun c hc => hnew c (List.mem_of_mem_drop (i := n) hc)
  rw [hrest] at hfull' hsmall
  have hfronts : digitsValue (old.take n) ≤ digitsValue (new.take n) := by
    by_contra hlt
    have hstep : (digitsValue (new.take n) + 1) * 10 ^ (old.drop n).length ≤
        digitsValue (old.take n) * 10 ^ (old.drop n).length := Nat.mul_le_mul_right _ (by omega)
    rw [Nat.add_mul] at hstep
    omega
  exact Nat.add_le_add_right (Nat.mul_le_mul_right _ hfronts) _

/-! ## Calls -/

inductive LimitCall where
  | openDirectory | openState | lock | read | now
  | pwrite (b : Bytes)
  | truncate (size : Nat)
  | sync | close | requestScan

/-- Whether directory and file can be opened and are safe, whether the lock is free; the first 64
bytes, seconds, bytes written. -/
abbrev LimitCall.Reply : LimitCall → Type
  | openDirectory | openState | lock => Bool
  | read => Option Bytes
  | now => Int
  | pwrite _ => Option Nat
  | truncate _ | sync => Bool
  | close => Unit
  | requestScan => Except String Unit

abbrev LimitProgram (α : Type) : Type := Program LimitCall LimitCall.Reply α

namespace ScanLimit

def cooldown (content : Bytes) (now : Int) : Except String Unit :=
  if content = [] then .ok ()
  else
    match fromChars content with
    | none => .error "Invalid scan state"
    | some last =>
      if last ≤ 0 then .error "Invalid scan state"
      else if last > now ∨ now - last < 30 then
        .error "Scan cooldown: wait at least 30 seconds between attempts"
      else .ok ()

def writeStamp (stamp : Bytes) : LimitProgram (Except String Unit) := do
  let written : Option Nat ← ask (LimitCall.pwrite stamp)
  if written ≠ some stamp.length then return .error "Cannot persist scan cooldown"
  else
    let cut : Bool ← ask (LimitCall.truncate stamp.length)
    if cut then
      let kept : Bool ← ask LimitCall.sync
      if kept then return .ok () else return .error "Cannot persist scan cooldown"
    else return .error "Cannot persist scan cooldown"

def recordStamp : LimitProgram (Except String Unit) := do
  let content : Option Bytes ← ask LimitCall.read
  let now : Int ← ask LimitCall.now
  match content with
  | none => return .error "Cannot read scan state"
  | some content =>
    -- 64 bytes were asked for, so the file may go on
    if content.length = 64 ∨ now ≤ 0 then return .error "Cannot read scan state"
    else
      match cooldown content now with
      | .error e => return .error e
      | .ok () => writeStamp (decimalInt now)

/-- The lock goes with the descriptor. -/
def reserveScanSlot : LimitProgram (Except String Unit) := do
  let dir : Bool ← ask LimitCall.openDirectory
  if dir then
    let file : Bool ← ask LimitCall.openState
    if file then
      let locked : Bool ← ask LimitCall.lock
      if locked then
        let r ← recordStamp
        ask LimitCall.close
        return r
      else
        ask LimitCall.close
        return .error "Scan state is unsafe or busy"
    else return .error "Scan state is unsafe or busy"
  else return .error "Unsafe or missing scan state directory"

def scan : LimitProgram (Except String Unit) := do
  let r ← reserveScanSlot
  match r with
  | .error e => return .error e
  | .ok () => ask LimitCall.requestScan

end ScanLimit

/-! ## The world -/

/-- The file, empty where there is none, and its lock. `clock` is what the clock last showed to
each; `reserved` has whose stamp was kept and when, `scans` who asked for a scan with which stamp. -/
structure LimitWorld (P : Type) where
  file : Bytes := []
  holder : Option P := none
  clock : P → Int := fun _ => 0
  reserved : List (P × Int) := []
  scans : List (P × Int) := []

namespace ScanLimit

section
variable {P : Type}

/-! ## What holds throughout -/

structure Sound (k : Nat) (w : LimitWorld P) : Prop where
  spaced : w.reserved.Pairwise fun newer older => older.2 + 30 ≤ newer.2
  length : w.reserved ≠ [] → w.file.length = k + 1
  digits : w.reserved ≠ [] → ∀ c ∈ w.file, isDigit c = true
  covered : ∀ e ∈ w.reserved, e.2 ≤ digitsValue w.file
  scanned : ∀ e ∈ w.scans, e ∈ w.reserved
  once : w.scans.Nodup

structure Rely (p : P) (w w' : LimitWorld P) : Prop where
  clock : w'.clock p = w.clock p
  held : w.holder = some p → w'.holder = some p ∧ w'.file = w.file ∧ w'.reserved = w.reserved
  reserved : ∀ e ∈ w.reserved, e ∈ w'.reserved
  scans : ∀ t, (p, t) ∈ w'.scans → (p, t) ∈ w.scans

theorem Rely.refl (p : P) (w : LimitWorld P) : Rely p w w :=
  ⟨rfl, fun h => ⟨h, rfl, rfl⟩, fun _ => id, fun _ => id⟩

theorem Rely.trans (p : P) (w₁ w₂ w₃ : LimitWorld P) (h : Rely p w₁ w₂) (h' : Rely p w₂ w₃) : Rely p w₁ w₃ where
  clock := h'.clock.trans h.clock
  held hp := by
    obtain ⟨h₁, hf, hr⟩ := h.held hp
    obtain ⟨h₂, hf', hr'⟩ := h'.held h₁
    exact ⟨h₂, hf'.trans hf, hr'.trans hr⟩
  reserved e he := h'.reserved e (h.reserved e he)
  scans t ht := h.scans t (h'.scans t ht)

theorem fromChars_pos {b : Bytes} {n : Int} (h : fromChars b = some n) (hn : 0 < n) :
    (digitsValue b : Int) = n := by
  cases b with
  | nil => simp [fromChars] at h
  | cons c rest =>
    by_cases hc : c = byte '-'
    · simp only [fromChars, hc, if_true] at h
      have hvalue := Option.some_inj.mp (Option.ite_none_left_eq_some.mp h).2
      omega
    · simp only [fromChars, hc, if_false] at h
      exact Option.some_inj.mp (Option.ite_none_left_eq_some.mp h).2

theorem cooldown_ok {content : Bytes} {now : Int} (h : cooldown content now = .ok ()) (hne : content ≠ []) :
    (digitsValue content : Int) + 30 ≤ now := by
  unfold cooldown at h
  rw [if_neg hne] at h
  split at h
  · cases h
  · rename_i last hlast
    split at h
    · cases h
    · rename_i hpos
      split at h
      · cases h
      · rename_i hlate
        rw [fromChars_pos hlast (by omega)]
        omega

/-! ## The stamp of one scan -/

variable {k : Nat} {p : P} {t : Int} {w w' : LimitWorld P}

structure Holding (p : P) (t : Int) (w : LimitWorld P) : Prop where
  holder : w.holder = some p
  clock : w.clock p = t
  late : ∀ e ∈ w.reserved, e.2 + 30 ≤ t
  above : w.reserved ≠ [] → (digitsValue w.file : Int) ≤ t

theorem Holding.rely (h : Holding p t w) (hw : Rely p w w') : Holding p t w' := by
  obtain ⟨hp, hf, hr⟩ := hw.held h.holder
  exact ⟨hp, hw.clock.trans h.clock, hr ▸ h.late, hr ▸ hf ▸ h.above⟩

def Reserved (p : P) (w : LimitWorld P) : Prop := (p, w.clock p) ∈ w.reserved ∧ (p, w.clock p) ∉ w.scans

theorem Reserved.rely (h : Reserved p w) (hw : Rely p w w') : Reserved p w' := by
  unfold Reserved
  rw [hw.clock]
  exact ⟨hw.reserved _ h.1, fun hm => h.2 (hw.scans _ hm)⟩

theorem rely_of_holder (hp : w.holder = some p) {q : P} (hq : q ≠ p) (hclock : w'.clock q = w.clock q)
    (hreserved : ∀ e ∈ w.reserved, e ∈ w'.reserved) (hscans : w'.scans = w.scans) : Rely q w w' where
  clock := hclock
  held h := absurd (Option.some_inj.mp (h.symm.trans hp)) hq
  reserved := hreserved
  scans _ ht := hscans ▸ ht

structure Stamp (k : Nat) (t : Int) : Prop where
  low : 10 ^ k ≤ t
  high : t < 10 ^ (k + 1)

theorem Stamp.nat (h : Stamp k t) : ∃ n : Nat, t = n ∧ 10 ^ k ≤ n ∧ n < 10 ^ (k + 1) := by
  have hpos : (0 : Int) ≤ t := le_trans (by positivity) h.low
  obtain ⟨n, rfl⟩ := Int.eq_ofNat_of_zero_le hpos
  refine ⟨n, rfl, ?_, ?_⟩
  · exact_mod_cast h.low
  · exact_mod_cast h.high

theorem Stamp.decimal (h : Stamp k t) : (decimalInt t).length = k + 1 ∧
    (∀ c ∈ decimalInt t, isDigit c = true) ∧ (digitsValue (decimalInt t) : Int) = t := by
  obtain ⟨n, rfl, hlow, hhigh⟩ := h.nat
  have htext : decimalInt n = EncoderNext.decimal n := by simp [decimalInt]
  rw [htext, length_decimal hlow hhigh, digitsValue_decimal]
  exact ⟨rfl, decimal_digits n, rfl⟩

theorem sound_torn (hs : Sound k w) (ht : Stamp k t) (h : Holding p t w) (n : Nat) :
    Sound k { w with file := (decimalInt t).take n ++ w.file.drop n } := by
  obtain ⟨hlen, hdigits, hvalue⟩ := ht.decimal
  refine ⟨hs.spaced, fun hne => ?_, fun hne c hc => ?_, fun e he => ?_, hs.scanned, hs.once⟩
  · have hold := hs.length hne
    simp only [List.length_append, List.length_take, List.length_drop, hlen, hold]
    omega
  · rcases List.mem_append.mp hc with hc | hc
    · exact hdigits c (List.mem_of_mem_take hc)
    · exact hs.digits hne c (List.mem_of_mem_drop hc)
  · have hne : w.reserved ≠ [] := List.ne_nil_of_mem he
    have hbelow := h.above hne
    rw [← hvalue] at hbelow
    have htorn := torn_ge hdigits (hlen.trans (hs.length hne).symm) (Int.ofNat_le.mp hbelow) n
    exact (hs.covered e he).trans (Int.ofNat_le.mpr htorn)

theorem sound_written (hs : Sound k w) (ht : Stamp k t) (h : Holding p t w) :
    Sound k { w with file := decimalInt t } := by
  obtain ⟨hlen, hdigits, hvalue⟩ := ht.decimal
  refine ⟨hs.spaced, fun _ => hlen, fun _ => hdigits, fun e he => ?_, hs.scanned, hs.once⟩
  rw [hvalue]
  have hlate := h.late e he
  omega

theorem sound_reserved (hs : Sound k w) (ht : Stamp k t) (h : Holding p t w) (hfile : w.file = decimalInt t) :
    Sound k { w with reserved := (p, w.clock p) :: w.reserved } := by
  obtain ⟨hlen, hdigits, hvalue⟩ := ht.decimal
  refine ⟨?_, fun _ => hfile ▸ hlen, fun _ => hfile ▸ hdigits, ?_, ?_, hs.once⟩
  · refine List.pairwise_cons.mpr ⟨fun e he => ?_, hs.spaced⟩
    rw [h.clock]
    exact h.late e he
  · intro e he
    rw [hfile, hvalue]
    rcases List.mem_cons.mp he with rfl | he
    · exact h.clock.le
    · have hlate := h.late e he
      omega
  · exact fun e he => List.mem_cons_of_mem _ (hs.scanned e he)

/-- The front of the file is the stamp, and so is the whole of it if a stamp was kept before. -/
theorem holding_written (hs : Sound k w) (ht : Stamp k t) (h : Holding p t w) :
    Holding p t { w with file := decimalInt t ++ w.file.drop (decimalInt t).length } := by
  obtain ⟨hlen, -, hvalue⟩ := ht.decimal
  refine ⟨h.holder, h.clock, h.late, fun hne => ?_⟩
  have hold : w.file.drop (decimalInt t).length = [] :=
    List.drop_eq_nil_of_le ((hs.length hne).trans hlen.symm).le
  show (digitsValue (decimalInt t ++ w.file.drop (decimalInt t).length) : Int) ≤ t
  rw [hold, List.append_nil]
  exact hvalue.le

theorem holding_read (hs : Sound k w) (hholder : w.holder = some p) (hclock : w.clock p = t)
    (hcool : cooldown w.file t = .ok ()) : Holding p t w := by
  have habove (hne : w.reserved ≠ []) : (digitsValue w.file : Int) + 30 ≤ t := by
    refine cooldown_ok hcool fun hempty => ?_
    have hlen := hs.length hne
    rw [hempty] at hlen
    cases hlen
  refine ⟨hholder, hclock, fun e he => ?_, fun hne => by have := habove hne; omega⟩
  have hcovered := hs.covered e he
  have hlate := habove (List.ne_nil_of_mem he)
  omega

theorem fresh_stamp (hs : Sound k w) (h : Holding p t w) : (p, t) ∉ w.scans := by
  intro hm
  have hlate := h.late _ (hs.scanned _ hm)
  simp at hlate

/-! ## The calls -/

variable [DecidableEq P]

def released (p : P) (w : LimitWorld P) : LimitWorld P :=
  if w.holder = some p then { w with holder := none } else w

def limitEnv (k : Nat) (p : P) : Env (LimitWorld P) LimitCall LimitCall.Reply := fun w c r w' =>
  match c, r with
  | .openDirectory, _ | .openState, _ => w' = w
  | .lock, (got : Bool) => if got then w.holder = none ∧ w' = { w with holder := some p } else w' = w
  | .read, (content : Option Bytes) => w' = w ∧ ∀ b ∈ content, b = w.file.take 64
  | .now, (t : Int) =>
    10 ^ k ≤ t ∧ t < 10 ^ (k + 1) ∧ w' = { w with clock := Function.update w.clock p t }
  | .pwrite b, (written : Option Nat) =>
    match written with
    | none => w' = w
    | some n => n ≤ b.length ∧ w' = { w with file := b.take n ++ w.file.drop n }
  | .truncate size, (cut : Bool) =>
    w' = if cut then { w with file := w.file.take size ++ List.replicate (size - w.file.length) 0 } else w
  | .sync, (kept : Bool) =>
    w' = if kept then { w with reserved := (p, w.clock p) :: w.reserved } else w
  | .close, _ => w' = released p w
  | .requestScan, _ => w' = { w with scans := (p, w.clock p) :: w.scans }

/-! ## One scan among others -/

abbrev Steady (k : Nat) (p : P) {α : Type} (Q : α → LimitWorld P → Prop) (x : LimitProgram α)
    (w : LimitWorld P) : Prop := steady (limitEnv k) (Sound k) Rely p Q x w

theorem steady_same {α : Type} {Q : α → LimitWorld P → Prop} {c : LimitCall} {f : c.Reply → LimitProgram α}
    (hsame : ∀ w r w', limitEnv k p w c r w' → w' = w)
    (h : ∀ w₁, Rely p w w₁ → Sound k w₁ → ∀ r, limitEnv k p w₁ c r w₁ → Steady k p Q (f r) w₁) :
    Steady k p Q (ask c >>= f) w := by
  intro w₁ hw hs r w₂ he
  obtain rfl := hsame w₁ r w₂ he
  exact ⟨hs, fun q _ => .refl q _, h w₂ hw hs r he⟩

def Settled (p : P) (r : Except String Unit) (w : LimitWorld P) : Prop :=
  w.holder = some p ∧ (r = .ok () → Reserved p w)

omit [DecidableEq P] in
theorem settled_error (h : w.holder = some p) (message : String) : Settled p (.error message) w := ⟨h, nofun⟩

theorem sync_steady (ht : Stamp k t) (h : Holding p t w) (hfile : w.file = decimalInt t) :
    Steady k p (Settled p) (do
      let kept : Bool ← ask LimitCall.sync
      if kept then return .ok () else return .error "Cannot persist scan cooldown") w := by
  rw [Steady, steady_ask_bind]
  intro w₁ hw hs kept w₂ he
  obtain ⟨-, hfile₁, -⟩ := hw.held h.holder
  replace h := h.rely hw
  cases kept with
  | false =>
    obtain rfl : w₂ = w₁ := he
    exact ⟨hs, fun q _ => .refl q _, settled_error h.holder _⟩
  | true =>
    obtain rfl : w₂ = { w₁ with reserved := (p, w₁.clock p) :: w₁.reserved } := he
    refine ⟨sound_reserved hs ht h (hfile₁.trans hfile), fun q hq => ?_, h.holder, fun _ => ?_⟩
    · exact rely_of_holder h.holder hq rfl (fun _ => List.mem_cons_of_mem _) rfl
    · refine ⟨List.mem_cons_self, ?_⟩
      show (p, w₁.clock p) ∉ w₁.scans
      rw [h.clock]
      exact fresh_stamp hs h

theorem truncate_steady {rest : Bytes} (ht : Stamp k t) (h : Holding p t w)
    (hfile : w.file = decimalInt t ++ rest) :
    Steady k p (Settled p) (do
      let cut : Bool ← ask (LimitCall.truncate (decimalInt t).length)
      if cut then
        let kept : Bool ← ask LimitCall.sync
        if kept then return .ok () else return .error "Cannot persist scan cooldown"
      else return .error "Cannot persist scan cooldown") w := by
  rw [Steady, steady_ask_bind]
  intro w₁ hw hs cut w₂ he
  obtain ⟨-, hfile₁, -⟩ := hw.held h.holder
  replace h := h.rely hw
  cases cut with
  | false =>
    obtain rfl : w₂ = w₁ := he
    exact ⟨hs, fun q _ => .refl q _, settled_error h.holder _⟩
  | true =>
    obtain rfl : w₂ = { w₁ with file := decimalInt t } := by
      refine he.trans ?_
      simp [hfile₁, hfile]
    have hdone : Holding p t { w₁ with file := decimalInt t } :=
      ⟨h.holder, h.clock, h.late, fun _ => ht.decimal.2.2.le⟩
    refine ⟨sound_written hs ht h, fun q hq => ?_, sync_steady ht hdone rfl⟩
    exact rely_of_holder h.holder hq rfl (fun _ => id) rfl

theorem writeStamp_steady (ht : Stamp k t) (h : Holding p t w) :
    Steady k p (Settled p) (writeStamp (decimalInt t)) w := by
  unfold writeStamp
  rw [Steady, steady_ask_bind]
  intro w₁ hw hs written w₂ he
  replace h := h.rely hw
  have hothers {file : Bytes} (q : P) (hq : q ≠ p) : Rely q w₁ { w₁ with file := file } :=
    rely_of_holder h.holder hq rfl (fun _ => id) rfl
  by_cases hall : written = some (decimalInt t).length
  · obtain rfl := hall
    obtain ⟨-, rfl⟩ := he
    have hs' := sound_torn hs ht h (decimalInt t).length
    rw [List.take_length] at hs' ⊢
    refine ⟨hs', hothers, ?_⟩
    rw [if_neg (not_not.mpr rfl)]
    exact truncate_steady ht (holding_written hs ht h) rfl
  · rw [if_pos hall]
    cases written with
    | none =>
      obtain rfl : w₂ = w₁ := he
      exact ⟨hs, fun q _ => .refl q _, settled_error h.holder _⟩
    | some n =>
      obtain ⟨-, rfl⟩ := he
      exact ⟨sound_torn hs ht h n, hothers, settled_error h.holder _⟩

theorem recordStamp_steady (hholder : w.holder = some p) : Steady k p (Settled p) recordStamp w := by
  unfold recordStamp
  rw [Steady, steady_ask_bind]
  rintro w₁ hw hs content _ ⟨rfl, hcontent⟩
  obtain ⟨hholder, -, -⟩ := hw.held hholder
  refine ⟨hs, fun q _ => .refl q _, ?_⟩
  rw [steady_ask_bind]
  rintro w₂ hw₂ hs₂ now _ ⟨hlow, hhigh, rfl⟩
  obtain ⟨hholder₂, hfile, -⟩ := hw₂.held hholder
  have hs₃ : Sound k { w₂ with clock := Function.update w₂.clock p now } := { hs₂ with }
  refine ⟨hs₃, fun q hq => ?_, ?_⟩
  · exact rely_of_holder hholder₂ hq (Function.update_of_ne hq _ _) (fun _ => id) rfl
  have hrefused (message : String) :
      Settled p (.error message) { w₂ with clock := Function.update w₂.clock p now } :=
    ⟨hholder₂, nofun⟩
  cases content with
  | none => exact hrefused _
  | some content =>
    dsimp only
    by_cases hlong : content.length = 64 ∨ now ≤ 0
    · rw [if_pos hlong]
      exact hrefused _
    rw [if_neg hlong]
    have hwhole : content = w₂.file := by
      rw [hfile, hcontent content rfl]
      refine List.take_of_length_le ?_
      have hshort := hcontent content rfl
      have hlen : content.length ≠ 64 := fun h => hlong (.inl h)
      rw [hshort, List.length_take] at hlen
      omega
    cases hcool : cooldown content now with
    | error e => exact hrefused e
    | ok _ =>
      have hclock : Function.update w₂.clock p now p = now := Function.update_self ..
      exact writeStamp_steady ⟨hlow, hhigh⟩ (holding_read hs₃ hholder₂ hclock (hwhole ▸ hcool))

/-! ## Without the lock -/

theorem sound_released (hs : Sound k w) : Sound k (released p w) := by
  unfold released
  by_cases h : w.holder = some p
  · rw [if_pos h]
    exact { hs with }
  · rw [if_neg h]
    exact hs

theorem rely_released {q : P} (hq : q ≠ p) (w : LimitWorld P) : Rely q w (released p w) := by
  unfold released
  by_cases h : w.holder = some p
  · rw [if_pos h]
    exact rely_of_holder h hq rfl (fun _ => id) rfl
  · rw [if_neg h]
    exact .refl q w

theorem reserved_released (h : Reserved p w) : Reserved p (released p w) := by
  unfold released
  by_cases hp : w.holder = some p
  · rw [if_pos hp]
    exact h
  · rw [if_neg hp]
    exact h

theorem reserveScanSlot_steady (w : LimitWorld P) :
    Steady k p (fun r w => r = .ok () → Reserved p w) reserveScanSlot w := by
  unfold reserveScanSlot
  refine steady_same (fun _ _ _ he => he) fun w₁ hw₁ _ dir _ => ?_
  cases dir with
  | false => exact nofun
  | true =>
    refine steady_same (fun _ _ _ he => he) fun w₂ hw₂ _ file _ => ?_
    cases file with
    | false => exact nofun
    | true =>
      simp only [if_true]
      rw [Steady, steady_ask_bind]
      intro w₃ hw₃ hs locked w₄ he
      cases locked with
      | false =>
        obtain rfl : w₄ = w₃ := he
        refine ⟨hs, fun q _ => .refl q _, ?_⟩
        rintro w₅ - hs₅ - _ rfl
        exact ⟨sound_released hs₅, fun q hq => rely_released hq w₅, nofun⟩
      | true =>
        obtain ⟨hnone, rfl⟩ := he
        have hs' : Sound k { w₃ with holder := some p } := { hs with }
        refine ⟨hs', fun q _ => ?_, ?_⟩
        · refine ⟨rfl, fun h => ?_, fun _ => id, fun _ => id⟩
          rw [hnone] at h
          cases h
        simp only [if_true]
        rw [steady_bind]
        refine steady_mono (fun r w₄ hr => ?_) (recordStamp_steady rfl)
        rintro w₅ hw₅ hs₅ - _ rfl
        refine ⟨sound_released hs₅, fun q hq => rely_released hq w₅, fun hok => ?_⟩
        exact reserved_released ((hr.2 hok).rely hw₅)

theorem scan_steady (w : LimitWorld P) : Steady k p (fun _ _ => True) scan w := by
  unfold scan
  rw [Steady, steady_bind]
  refine steady_mono (fun r w₁ hr => ?_) (reserveScanSlot_steady w)
  cases r with
  | error e => exact trivial
  | ok _ =>
    rintro w₂ hw₂ hs - _ rfl
    obtain ⟨hkept, hfresh⟩ := (hr rfl).rely hw₂
    refine ⟨⟨hs.spaced, hs.length, hs.digits, hs.covered, fun e he => ?_, ?_⟩, fun q hq => ?_, trivial⟩
    · rcases List.mem_cons.mp he with rfl | he
      · exact hkept
      · exact hs.scanned e he
    · exact List.nodup_cons.mpr ⟨hfresh, hs.once⟩
    · refine ⟨rfl, fun h => ⟨h, rfl, rfl⟩, fun _ => id, fun _ ht => ?_⟩
      rcases List.mem_cons.mp ht with heq | ht
      · exact absurd (Prod.mk.inj heq).1 hq
      · exact ht

/-- Everyone who wants a scan, from a state directory as it was found. -/
def LimitRuns (k : Nat) (file : Bytes) (clock : P → Int)
    (s : Pool P (LimitWorld P) LimitCall LimitCall.Reply (Except String Unit)) : Prop :=
  PoolRuns (limitEnv k) (fun _ => scan) released ⟨{ file := file, clock := clock }, fun _ => none⟩ s

theorem limit_sound {file : Bytes} {clock : P → Int}
    {s : Pool P (LimitWorld P) LimitCall LimitCall.Reply (Except String Unit)}
    (h : LimitRuns k file clock s) : Sound k s.world := by
  have hstart : Sound k ({ file := file, clock := clock } : LimitWorld P) := by
    constructor <;> simp
  exact (pool_keeps (fun _ _ => True) (fun _ _ _ => True) Rely.refl Rely.trans (fun _ _ _ _ _ => trivial)
    (fun _ _ _ _ _ _ => trivial)
    (fun p w _ _ => scan_steady w)
    (fun p w hs => ⟨sound_released hs, trivial, fun q hq => rely_released hq w⟩) h hstart
    fun _ => trivial).1

def Apart (a b : P × Int) : Prop := a.2 + 30 ≤ b.2 ∨ b.2 + 30 ≤ a.2

instance : Std.Symm (Apart : P × Int → P × Int → Prop) := ⟨fun _ _ => Or.symm⟩

/-- **Scans keep their distance.** However many ask for a scan at once, wherever writes stop half way
and whoever is killed, on any file that was found: the stamps of any two scans that are asked for lie at
least 30 seconds apart, as long as the seconds of the clock keep their number of digits. It does not
matter which way the clock goes. -/
theorem scans_spaced {file : Bytes} {clock : P → Int}
    {s : Pool P (LimitWorld P) LimitCall LimitCall.Reply (Except String Unit)}
    (h : LimitRuns k file clock s) :
    s.world.scans.Pairwise Apart ∧
    s.world.reserved.Pairwise (fun newer older => older.2 + 30 ≤ newer.2) ∧
    ∀ e ∈ s.world.scans, e ∈ s.world.reserved := by
  have hs := limit_sound h
  refine ⟨?_, hs.spaced, hs.scanned⟩
  have happart : s.world.reserved.Pairwise Apart := hs.spaced.imp fun hab => .inr hab
  refine hs.once.pairwise_of_forall_ne fun a ha b hb hne => ?_
  exact happart.forall (hs.scanned a ha) (hs.scanned b hb) hne

end

def limitAnswer (p : Bool) (t : Int) (w : LimitWorld Bool) : (c : LimitCall) → c.Reply × LimitWorld Bool
  | .openDirectory | .openState => (true, w)
  | .lock => (w.holder.isNone, if w.holder.isNone then { w with holder := some p } else w)
  | .read => (some (w.file.take 64), w)
  | .now => (t, { w with clock := Function.update w.clock p t })
  | .pwrite b => (some b.length, { w with file := b ++ w.file.drop b.length })
  | .truncate size =>
    (true, { w with file := w.file.take size ++ List.replicate (size - w.file.length) 0 })
  | .sync => (true, { w with reserved := (p, w.clock p) :: w.reserved })
  | .close => ((), released p w)
  | .requestScan => (.ok (), { w with scans := (p, w.clock p) :: w.scans })

theorem limitAnswer_env {p : Bool} {t : Int} (ht : 10 ^ 9 ≤ t ∧ t < 10 ^ 10) (w : LimitWorld Bool)
    (c : LimitCall) : limitEnv 9 p w c (limitAnswer p t w c).1 (limitAnswer p t w c).2 := by
  cases c with
  | lock => cases h : w.holder <;> simp [limitEnv, limitAnswer, h]
  | read => simp [limitEnv, limitAnswer]
  | now => exact ⟨ht.1, ht.2, rfl⟩
  | pwrite b => simp [limitEnv, limitAnswer]
  | _ => rfl

theorem limitRuns_scan {file : Bytes} {clock : Bool → Int} {p : Bool} {t : Int} (ht : 10 ^ 9 ≤ t ∧ t < 10 ^ 10)
    {s : Pool Bool (LimitWorld Bool) LimitCall LimitCall.Reply (Except String Unit)}
    (h : LimitRuns 9 file clock s) (hleft : s.left p = none) :
    LimitRuns 9 file clock (s.set p (exec (limitAnswer p t) scan s.world).2
      (some (.done (exec (limitAnswer p t) scan s.world).1))) := by
  have hruns := runs_exec (limitAnswer_env (p := p) ht) scan s.world
  have hown := poolRuns_of_runs (fun _ => scan) released hruns (s.set p s.world (some scan))
    rfl (by simp [Pool.set])
  rw [Pool.set_set] at hown
  exact (h.tail (.start hleft)).trans hown

theorem scans_spaced_two :
    ∃ s : Pool Bool (LimitWorld Bool) LimitCall LimitCall.Reply (Except String Unit),
      s.world.scans = [(true, 1000000030), (false, 1000000000)] ∧ s.world.scans.Pairwise Apart := by
  have hnone : LimitRuns 9 [] (fun _ => 0)
    (⟨{ clock := fun _ => 0 }, fun _ => none⟩ :
      Pool Bool (LimitWorld Bool) LimitCall LimitCall.Reply (Except String Unit)) := .refl
  have hone := limitRuns_scan (p := false) (t := 1000000000) (by decide) hnone rfl
  have htwo := limitRuns_scan (p := true) (t := 1000000030) (by decide) hone (by simp [Pool.set])
  exact ⟨_, by decide, (scans_spaced htwo).1⟩

end ScanLimit

end EncoderNext
