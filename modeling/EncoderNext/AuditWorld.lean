import EncoderNext.FileCalls
import EncoderNext.PanelReports
import Mathlib.Algebra.Order.BigOperators.Group.List

/-!
# What a request adds to the reports

A request puts its own values into the log, the tables and the records of files, beside
numbers and fixed words. A header bounds the sum of its values, so a short one leaves
short lines and short names.
-/

namespace EncoderNext

open Program Program.Stateful

/-! ## The size of a header -/

namespace Header

def size (h : Header) : Nat := (h.fields.entries.map fun f => f.1.length + f.2.length).sum

theorem size_set_le (h : Header) (key value : Bytes) :
    (h.set key value).size ≤ h.size + (key.length + value.length) := by
  have hrest : (h.fields.entries.kerase key).Sublist h.fields.entries := List.kerase_sublist key _
  have hsum := (hrest.map fun f : Field => f.1.length + f.2.length).sum_le_sum (fun _ _ => Nat.zero_le _)
  unfold size set
  rw [AList.entries_insert, List.map_cons, List.sum_cons, Nat.add_comm]
  exact Nat.add_le_add_right hsum _

theorem length_trim_le (s : Bytes) : (trim s).length ≤ s.length := by
  unfold trim
  exact ((List.rdropWhile_prefix _ _).length_le).trans (List.dropWhile_suffix _).length_le

theorem size_parseLine_le (h : Header) (l : Bytes) : (parseLine h l).size ≤ h.size + l.length := by
  unfold parseLine fieldOf
  cases hs : splitAt? (byte ':') l with
  | none => simp
  | some p =>
    obtain ⟨key, value⟩ := p
    dsimp only
    have hlen := AuditService.splitAt?_length hs
    have hkey := length_trim_le key
    have hvalue := length_trim_le value
    split
    · rename_i hnone
      simp
    · rename_i f hf
      split at hf
      · cases hf
      · cases hf
        have := size_set_le h (trim key) (trim value)
        dsimp only
        omega

theorem length_lines_le : ∀ s : Bytes, ((lines s).map List.length).sum ≤ s.length
  | [] => Nat.le_refl _
  | c :: s => by
    have ih := length_lines_le s
    rw [lines]
    split
    · rw [List.map_cons, List.sum_cons, List.length_cons, List.length_nil]
      omega
    · split
      · rw [List.map_singleton, List.sum_singleton, List.length_cons, List.length_cons, List.length_nil]
        omega
      · rename_i l ls hl
        rw [hl, List.map_cons, List.sum_cons] at ih
        rw [List.map_cons, List.sum_cons, List.length_cons, List.length_cons]
        omega

theorem size_parse_le (raw : Bytes) : (parse raw).size ≤ raw.length := by
  have hfold : ∀ (ls : List Bytes) (h : Header),
      (ls.foldl parseLine h).size ≤ h.size + (ls.map List.length).sum := by
    intro ls
    induction ls with
    | nil => simp
    | cons l ls ih =>
      intro h
      have hl := size_parseLine_le h l
      have hls := ih (parseLine h l)
      rw [List.foldl_cons, List.map_cons, List.sum_cons]
      omega
  have htake := ((List.takeWhile_sublist (l := lines raw) fun l => l != [] && l != [cr]).map
    List.length).sum_le_sum (fun _ _ => Nat.zero_le _)
  have hall := length_lines_le raw
  have hsize := hfold ((lines raw).takeWhile fun l => l != [] && l != [cr]) {}
  have hempty : ({} : Header).size = 0 := rfl
  refine le_trans hsize ?_
  omega

theorem values_le_size (h : Header) {keys : List Bytes} (hk : keys.Nodup) :
    (keys.map fun key => (h.get key).length).sum ≤ h.size := by
  let found : List Field := keys.filterMap fun key => (h.fields.lookup key).map fun value => ⟨key, value⟩
  have hnodup : found.Nodup := by
    refine hk.filterMap ?_
    intro key key' f hf hf'
    obtain ⟨value, -, rfl⟩ := Option.map_eq_some_iff.mp hf
    obtain ⟨value', -, he⟩ := Option.map_eq_some_iff.mp hf'
    exact (congrArg Sigma.fst he).symm
  have hsub : found ⊆ h.fields.entries := by
    intro f hf
    obtain ⟨key, -, hf⟩ := List.mem_filterMap.mp hf
    obtain ⟨value, hl, rfl⟩ := Option.map_eq_some_iff.mp hf
    exact List.of_mem_dlookup hl
  have hvalues : ∀ keys : List Bytes, (keys.map fun key => (h.get key).length).sum ≤
      ((keys.filterMap fun key => (h.fields.lookup key).map fun value => (⟨key, value⟩ : Field)).map
        fun f => f.1.length + f.2.length).sum := by
    intro keys
    induction keys with
    | nil => simp
    | cons key keys ih =>
      rw [List.map_cons, List.sum_cons, List.filterMap_cons, get]
      cases hl : h.fields.lookup key with
      | none => simpa using ih
      | some value =>
        simp only [Option.map_some, Option.getD_some, List.map_cons, List.sum_cons]
        omega
  obtain ⟨l, hperm, hl⟩ := hnodup.subperm hsub
  have hsum := (hl.map fun f : Field => f.1.length + f.2.length).sum_le_sum (fun _ _ => Nat.zero_le _)
  have hsame := (hperm.map fun f : Field => f.1.length + f.2.length).sum_eq
  have hfound : _ ≤ (found.map fun f => f.1.length + f.2.length).sum := hvalues keys
  exact hfound.trans (hsame ▸ hsum)

end Header

/-! ## The surroundings of a request -/

/-- The lines of the two audit files, and what has been written to files of hash records. -/
structure AuditWorld where
  log : List Bytes := []
  alerts : List Bytes := []
  records : List Bytes := []

def Clock (t : Int) : Prop := 0 ≤ t ∧ t < 2 ^ 62

/-- The source prints two rates more of a deviation, each in a few digits. -/
def Detailed (kind detail printed : Bytes) : Prop :=
  printed = detail ∨ kind = bytes "behavior_deviation" ∧ printed.length ≤ detail.length + 64

def HashFile (path : Bytes) : Prop := bytes ".hash" <:+ path

instance (path : Bytes) : Decidable (HashFile path) := inferInstanceAs (Decidable (_ <:+ _))

namespace AuditWorld

def appended (opened : Bool) (ls : List Bytes) (l : Bytes) : List Bytes := if opened then ls ++ [l] else ls

/-- A file may be written in part. A name without a zero byte that ends like a hash record's
opens nothing but what was written under such a name; any other may open anything. -/
def Answers : Env AuditWorld ServerCall ServerCall.Reply := fun w c r u =>
  match c, r with
  | .now, (t : Int) => Clock t ∧ u = w
  | .localHour _, (hour : Int) => 0 ≤ hour ∧ hour < 24 ∧ u = w
  | .logEvent kind who detail, _ => ∃ ts opened, Clock ts ∧
      u = { w with log := appended opened w.log (AuditService.formatEventLine ts kind who detail) }
  | .logAlert kind who detail, _ => ∃ id ts printed opened opened', id < 2 ^ 64 ∧ Clock ts ∧
      Detailed kind detail printed ∧
      u = { w with
        alerts := appended opened w.alerts (AuditService.formatAlertLine ⟨id, ts, kind, who, printed⟩)
        log := appended opened' w.log
          (AuditService.formatEventLine ts (bytes "alert:" ++ kind) who printed) }
  | .writeFile path b, _ => u = w ∨ ∃ written, written <+: b ∧
      u = { w with records := if HashFile path then written :: w.records else w.records }
  | .readFile path, (file : Option Bytes) => u = w ∧
      (HashFile path → 0 ∉ path → ∀ b, file = some b → b ∈ w.records)
  | .sendData b, _ => b.length < 2 ^ 64 ∧ u = w
  | _, _ => u = w

end AuditWorld

/-! ## What is short -/

def shortHeader : Nat := 16384

def ShortRecord (b : Bytes) : Prop :=
  ∀ r, HashRecord.ofFile (some b) = some r → r.alg.length + r.hex.length ≤ shortHeader + 128

/-- A call that adds no more than two short headers to a line, and short records only. -/
def ServerCall.Fits : ServerCall → Prop
  | .logEvent kind who detail | .logAlert kind who detail => kind.length + who.length + detail.length ≤ 33600
  | .writeFile path b => HashFile path → ∀ written, written <+: b → ShortRecord written
  | _ => True

structure AuditWorld.Short (w : AuditWorld) : Prop where
  log : ∀ l ∈ w.log, l.length ≤ 33800
  alerts : ∀ l ∈ w.alerts, l.length ≤ 33800
  records : ∀ b ∈ w.records, ShortRecord b

open AuditWorld

theorem mem_appended {opened : Bool} {ls : List Bytes} {l l' : Bytes} (h : l' ∈ appended opened ls l) :
    l' ∈ ls ∨ l' = l := by
  cases opened with
  | false => exact .inl h
  | true => exact (List.mem_append.mp h).imp_right List.mem_singleton.mp

theorem Clock.range {t : Int} (h : Clock t) : Int64Range t := by
  unfold Clock at h
  unfold Int64Range
  omega

theorem length_eventLine {ts : Int} (h : Clock ts) (kind who detail : Bytes) :
    (AuditService.formatEventLine ts kind who detail).length ≤
      kind.length + who.length + detail.length + 23 := by
  have := length_decimalInt h.range
  simp only [AuditService.formatEventLine, joined_cons_cons, joined_singleton, List.length_append, List.length_cons]
  omega

theorem length_alertLine {id : Nat} {ts : Int} (hid : id < 2 ^ 64) (h : Clock ts) (kind who detail : Bytes) :
    (AuditService.formatAlertLine ⟨id, ts, kind, who, detail⟩).length ≤
      kind.length + who.length + detail.length + 44 := by
  have := length_decimalInt h.range
  have := length_decimal_word hid
  simp only [AuditService.formatAlertLine, joined_cons_cons, joined_singleton, List.length_append, List.length_cons]
  omega

theorem short_call {w u : AuditWorld} {c : ServerCall} {r : c.Reply} (hw : w.Short) (hc : c.Fits)
    (h : Answers w c r u) : u.Short := by
  cases c with
  | logEvent kind who detail =>
    obtain ⟨ts, opened, hts, rfl⟩ := h
    refine ⟨fun l hl => ?_, hw.alerts, hw.records⟩
    rcases mem_appended hl with hl | rfl
    · exact hw.log l hl
    · have := length_eventLine hts kind who detail
      unfold ServerCall.Fits at hc
      omega
  | logAlert kind who detail =>
    obtain ⟨id, ts, printed, opened, opened', hid, hts, hprinted, rfl⟩ := h
    -- the two rates that a deviation prints
    have hlen : printed.length ≤ detail.length + 64 := by
      rcases hprinted with rfl | ⟨-, hlen⟩
      · omega
      · exact hlen
    unfold ServerCall.Fits at hc
    refine ⟨fun l hl => ?_, fun l hl => ?_, hw.records⟩
    · rcases mem_appended hl with hl | rfl
      · exact hw.log l hl
      · have hline := length_eventLine hts (bytes "alert:" ++ kind) who printed
        have halert : (bytes "alert:").length = 6 := by simp [bytes]
        rw [List.length_append, halert] at hline
        omega
    · rcases mem_appended hl with hl | rfl
      · exact hw.alerts l hl
      · have := length_alertLine hid hts kind who printed
        omega
  | writeFile path b =>
    rcases h with rfl | ⟨written, hpre, rfl⟩
    · exact hw
    · refine ⟨hw.log, hw.alerts, fun b' hb => ?_⟩
      dsimp only at hb
      split at hb
      · rename_i hpath
        rcases List.mem_cons.mp hb with rfl | hb
        · exact hc hpath _ hpre
        · exact hw.records b' hb
      · exact hw.records b' hb
  | now => exact h.2 ▸ hw
  | localHour t => exact h.2.2 ▸ hw
  | readFile path => exact h.1 ▸ hw
  | sendData b => exact h.2 ▸ hw
  | random n | readHeader n | receive n | sendHeader hd | walk users | writeText path text
  | rename source target | saveStats stats | savePolicy policy | report op req =>
    have hsame : u = w := h
    exact hsame ▸ hw

end EncoderNext
