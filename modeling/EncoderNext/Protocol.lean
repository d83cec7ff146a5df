import EncoderNext.Bytes
import Mathlib.Data.List.AList
import Mathlib.Data.List.DropRight

/-!
# Headers on the wire

A header is a map of named values. It is written as one line a field, in
whatever order the map is walked, and an empty line; it is read back line by
line with blanks cut off.
-/

namespace EncoderNext

def lf : UInt8 := 10
def cr : UInt8 := 13

abbrev Field : Type := Sigma fun _ : Bytes => Bytes

structure Header where
  fields : AList fun _ : Bytes => Bytes := ∅

structure Iteration where
  order : List Field → List Field
  perm : ∀ l, (order l).Perm l

def Iteration.stored : Iteration := ⟨id, fun l => List.Perm.refl l⟩

/-- `find_first_not_of` and `find_last_not_of` over these. -/
def isBlank (c : UInt8) : Bool := c == 32 || c == 9 || c == cr || c == lf

def trim (s : Bytes) : Bytes := (s.dropWhile isBlank).rdropWhile isBlank

/-- The lines that repeated `std::getline` gives. -/
def lines : Bytes → List Bytes
  | [] => []
  | c :: rest =>
    if c = lf then [] :: lines rest
    else
      match lines rest with
      | [] => [[c]]
      | l :: ls => (c :: l) :: ls

namespace Header

def get (h : Header) (key : Bytes) (default : Bytes := []) : Bytes :=
  (h.fields.lookup key).getD default

def set (h : Header) (key value : Bytes) : Header := ⟨h.fields.insert key value⟩

def line (f : Field) : Bytes := f.1 ++ bytes ": " ++ f.2

def serialize (it : Iteration) (h : Header) : Bytes :=
  (it.order h.fields.entries).flatMap (fun f => line f ++ [lf]) ++ [lf]

def fieldOf (l : Bytes) : Option Field :=
  match splitAt? (byte ':') l with
  | none => none
  | some (key, value) => if trim key = [] then none else some ⟨trim key, trim value⟩

def parseLine (h : Header) (l : Bytes) : Header :=
  match fieldOf l with
  | none => h
  | some f => h.set f.1 f.2

def parse (raw : Bytes) : Header :=
  ((lines raw).takeWhile fun l => l != [] && l != [cr]).foldl parseLine {}

/-- The bytes up to the empty line, read one by one while fewer than the limit
were read, and the rest of the stream. A carriage return does not end a run of
line feeds. -/
def readText : Nat → Bool → Bytes → Option (Bytes × Bytes)
  | 0, _, _ => none
  | _ + 1, _, [] => none
  | n + 1, last, c :: rest =>
    if c = lf ∧ last then if n = 0 then none else some ([c], rest)
    else (readText n (if c = lf then true else if c = cr then last else false) rest).map
      fun r => (c :: r.1, r.2)

def read (max : Nat) (stream : Bytes) : Option (Header × Bytes) :=
  (readText max false stream).map fun r => (parse r.1, r.2)

end Header

/-! ## Lookups -/

namespace Header

@[simp] theorem get_set_self (h : Header) (key value default : Bytes) :
    (h.set key value).get key default = value := by
  simp [get, set]

@[simp] theorem lookup_set_self (h : Header) (key value : Bytes) :
    (h.set key value).fields.lookup key = some value := by
  simp [set]

theorem lookup_set_ne (h : Header) {key key' : Bytes} (value : Bytes) (hne : key' ≠ key) :
    (h.set key value).fields.lookup key' = h.fields.lookup key' := by
  simp [set, AList.lookup_insert_ne hne]

theorem lookup_set (h : Header) (key value key' : Bytes) :
    (h.set key value).fields.lookup key' =
      if key' = key then some value else h.fields.lookup key' := by
  by_cases he : key' = key
  · subst he
    simp
  · rw [if_neg he, lookup_set_ne h value he]

theorem get_set (h : Header) (key value key' default : Bytes) :
    (h.set key value).get key' default = if key' = key then value else h.get key' default := by
  rw [get, lookup_set]
  split <;> rfl

@[simp] theorem lookup_empty (key : Bytes) : ({} : Header).fields.lookup key = none :=
  AList.lookup_empty key

/-! ## What may be written -/

def keyOk (key : Bytes) : Bool :=
  key != [] && trim key == key && key.all fun c => c != byte ':' && c != lf

def Writable (h : Header) : Prop :=
  ∀ key value, h.fields.lookup key = some value → keyOk key = true ∧ lf ∉ value

theorem writable_empty : Writable {} := by
  intro key value h
  simp at h

theorem writable_set {h : Header} {key value : Bytes} (hw : Writable h) (hk : keyOk key = true)
    (hv : lf ∉ value) : Writable (h.set key value) := by
  intro key' value' h'
  by_cases he : key' = key
  · subst he
    rw [lookup_set_self] at h'
    cases h'
    exact ⟨hk, hv⟩
  · rw [lookup_set_ne h value he] at h'
    exact hw key' value' h'

theorem fieldOf_line {f : Field} (hk : keyOk f.1 = true) :
    fieldOf (line f) = some ⟨f.1, trim f.2⟩ := by
  simp only [keyOk, Bool.and_eq_true, bne_iff_ne, beq_iff_eq, List.all_eq_true] at hk
  obtain ⟨⟨hne, htrim⟩, hall⟩ := hk
  have hsplit : splitAt? (byte ':') (line f) = some (f.1, 32 :: f.2) := by
    have hline : line f = f.1 ++ byte ':' :: 32 :: f.2 := by
      rw [line, List.append_assoc]
      rfl
    rw [hline]
    exact splitAt?_append fun hc => (hall _ hc).1 rfl
  have hblank : trim (32 :: f.2) = trim f.2 := by
    simp [trim, isBlank]
  simp [fieldOf, hsplit, htrim, hne, hblank]

/-! ## Reading what was written -/

theorem lines_append_lf {l : Bytes} (hl : lf ∉ l) (rest : Bytes) :
    lines (l ++ lf :: rest) = l :: lines rest := by
  induction l with
  | nil => simp [lines]
  | cons c l ih =>
    have hc : c ≠ lf := fun h => hl (by simp [h])
    rw [List.cons_append, lines, if_neg hc, ih fun h => hl (by simp [h])]

def LineOk (l : Bytes) : Prop := lf ∉ l ∧ ∃ c ∈ l, c ≠ cr

theorem lineOk_line {f : Field} (hk : keyOk f.1 = true) (hv : lf ∉ f.2) : LineOk (line f) := by
  simp only [keyOk, Bool.and_eq_true, bne_iff_ne, beq_iff_eq, List.all_eq_true] at hk
  refine ⟨fun hm => ?_, byte ':', by simp [line, bytes, byte], by decide⟩
  simp only [line, List.mem_append] at hm
  rcases hm with (hm | hm) | hm
  · exact (hk.2 lf hm).2 rfl
  · revert hm
    decide
  · exact hv hm

theorem lines_flatMap {ls : List Bytes} (h : ∀ l ∈ ls, lf ∉ l) (rest : Bytes) :
    lines (ls.flatMap (fun l => l ++ [lf]) ++ rest) = ls ++ lines rest := by
  induction ls with
  | nil => rfl
  | cons l ls ih =>
    rw [List.flatMap_cons, List.append_assoc, List.append_assoc, List.singleton_append,
      lines_append_lf (h l (by simp)), ih fun l' hl' => h l' (by simp [hl'])]
    rfl

theorem parse_lines {ls : List Bytes} (h : ∀ l ∈ ls, LineOk l) :
    parse (ls.flatMap (fun l => l ++ [lf]) ++ [lf]) = ls.foldl parseLine {} := by
  have hall : ∀ l ∈ ls, (l != [] && l != [cr]) = true := by
    intro l hl
    obtain ⟨-, c, hc, hcr⟩ := h l hl
    have hnil : l ≠ [] := List.ne_nil_of_mem hc
    have hone : l ≠ [cr] := fun he => hcr (List.mem_singleton.mp (he ▸ hc))
    simp [hnil, hone]
  unfold parse
  rw [lines_flatMap fun l hl => (h l hl).1, List.takeWhile_append_of_pos hall]
  simp [lines]

theorem readText_line {l : Bytes} (hlf : lf ∉ l) (n : Nat) {last : Bool}
    (hl : last = true → ∃ c ∈ l, c ≠ cr) (rest : Bytes) :
    readText (n + (l.length + 1)) last (l ++ lf :: rest) =
      (readText n true rest).map fun r => (l ++ lf :: r.1, r.2) := by
  induction l generalizing last with
  | nil =>
    cases last with
    | true => simp at hl
    | false => simp [readText]
  | cons c l ih =>
    have hc : c ≠ lf := fun h => hlf (by simp [h])
    have hnext : (if c = lf then true else if c = cr then last else false) = true →
        ∃ d ∈ l, d ≠ cr := by
      intro hflag
      by_cases hcr : c = cr
      · rw [if_neg hc, if_pos hcr] at hflag
        obtain ⟨d, hd, hne⟩ := hl hflag
        rcases List.mem_cons.mp hd with rfl | hd
        · exact absurd hcr hne
        · exact ⟨d, hd, hne⟩
      · simp [hc, hcr] at hflag
    rw [List.length_cons, List.cons_append, ← Nat.add_assoc n, readText, if_neg fun h => hc h.1,
      ih (fun h => hlf (by simp [h])) hnext, Option.map_map]
    rfl

theorem readText_front {ls : List Bytes} (h : ∀ l ∈ ls, LineOk l) (n : Nat) {last : Bool}
    (hlast : ls = [] → last = true) (rest : Bytes) :
    readText (n + (ls.flatMap fun l => l ++ [lf]).length) last
        (ls.flatMap (fun l => l ++ [lf]) ++ rest) =
      (readText n true rest).map fun r => (ls.flatMap (fun l => l ++ [lf]) ++ r.1, r.2) := by
  induction ls generalizing last with
  | nil =>
    rw [hlast rfl]
    simp
  | cons l ls ih =>
    have hl := h l (by simp)
    have hlen : n + ((l :: ls).flatMap fun l => l ++ [lf]).length =
        n + (ls.flatMap fun l => l ++ [lf]).length + (l.length + 1) := by
      simp only [List.flatMap_cons, List.length_append, List.length_singleton]
      omega
    have htext : (l :: ls).flatMap (fun l => l ++ [lf]) ++ rest =
        l ++ lf :: (ls.flatMap (fun l => l ++ [lf]) ++ rest) := by simp
    rw [hlen, htext, readText_line hl.1 _ fun _ => hl.2,
      ih (fun l' hl' => h l' (by simp [hl'])) fun _ => rfl, Option.map_map]
    congr 1
    funext r
    simp

theorem readText_blank {b : Bytes} (hb : ∀ c ∈ b, c = cr) (n : Nat) (rest : Bytes) :
    readText (n + 1 + (b.length + 1)) true (b ++ lf :: rest) = some (b ++ [lf], rest) := by
  induction b with
  | nil => simp [readText]
  | cons c b ih =>
    have hc : c = cr := hb c (by simp)
    have hlf : ¬ cr = lf := by decide
    rw [List.length_cons, List.cons_append, ← Nat.add_assoc _ (b.length + 1), readText, hc,
      if_neg (fun h => hlf h.1), if_neg hlf, if_pos rfl, ih fun d hd => hb d (by simp [hd])]
    rfl

theorem readText_written {ls : List Bytes} (h : ∀ l ∈ ls, LineOk l) (rest : Bytes) (n : Nat)
    {last : Bool} (hlast : ls = [] → last = true) :
    readText ((ls.flatMap (fun l => l ++ [lf]) ++ [lf]).length + (n + 1)) last
        (ls.flatMap (fun l => l ++ [lf]) ++ [lf] ++ rest) =
      some (ls.flatMap (fun l => l ++ [lf]) ++ [lf], rest) := by
  have hlen : (ls.flatMap (fun l => l ++ [lf]) ++ [lf]).length + (n + 1) =
      n + 1 + 1 + (ls.flatMap fun l => l ++ [lf]).length := by
    simp only [List.length_append, List.length_singleton]
    omega
  have hend : readText (n + 1 + 1) true (lf :: rest) = some ([lf], rest) := by
    simpa using readText_blank (b := []) (by simp) n rest
  rw [hlen, List.append_assoc, readText_front h _ hlast, List.singleton_append, hend]
  rfl

theorem readText_length : ∀ {m : Nat} {last : Bool} {s : Bytes} {r : Bytes × Bytes},
    readText m last s = some r → r.1.length < m
  | 0, _, _, _, h => by simp [readText] at h
  | _ + 1, _, [], _, h => by simp [readText] at h
  | m + 1, last, c :: s, r, h => by
    rw [readText] at h
    split at h
    · split at h
      · cases h
      · cases h
        simp only [List.length_singleton]
        omega
    · obtain ⟨r', hr', rfl⟩ := Option.map_eq_some_iff.mp h
      have := readText_length hr'
      simp only [List.length_cons]
      omega

theorem readText_mono : ∀ {m k : Nat} {last : Bool} {s : Bytes} {r : Bytes × Bytes},
    readText m last s = some r → readText (m + k) last s = some r
  | 0, _, _, _, _, h => by simp [readText] at h
  | _ + 1, _, _, [], _, h => by simp [readText] at h
  | m + 1, k, last, c :: s, r, h => by
    rw [readText] at h
    rw [Nat.add_right_comm, readText]
    split at h
    · rename_i hend
      rw [if_pos hend]
      split at h
      · cases h
      · rw [if_neg (by omega)]
        exact h
    · rename_i hend
      rw [if_neg hend]
      obtain ⟨r', hr', rfl⟩ := Option.map_eq_some_iff.mp h
      rw [readText_mono hr']
      rfl

/-- A header that was written is read exactly when it is shorter than the limit. -/
theorem readText_lines {ls : List Bytes} (h : ∀ l ∈ ls, LineOk l) (hne : ls ≠ []) (rest : Bytes)
    (max : Nat) : readText max false (ls.flatMap (fun l => l ++ [lf]) ++ [lf] ++ rest) =
      if (ls.flatMap (fun l => l ++ [lf]) ++ [lf]).length < max then
        some (ls.flatMap (fun l => l ++ [lf]) ++ [lf], rest)
      else none := by
  split
  · rename_i hlt
    obtain ⟨n, rfl⟩ := Nat.exists_eq_add_of_lt hlt
    exact readText_written h rest n fun h => absurd h hne
  · rename_i hge
    cases hr : readText max false (ls.flatMap (fun l => l ++ [lf]) ++ [lf] ++ rest) with
    | none => rfl
    | some r =>
      exfalso
      have hshort := readText_length hr
      have hlong := readText_mono (k := (ls.flatMap (fun l => l ++ [lf]) ++ [lf]).length + 1) hr
      have hbig : max + ((ls.flatMap (fun l => l ++ [lf]) ++ [lf]).length + 1) =
          (ls.flatMap (fun l => l ++ [lf]) ++ [lf]).length + (max + 1) := by omega
      rw [hbig, readText_written h rest max fun h => absurd h hne] at hlong
      cases hlong
      exact hge hshort

/-! ## The round trip -/

theorem lookup_foldl_parseLine {fs : List Field} (hk : ∀ f ∈ fs, keyOk f.1 = true)
    (hn : fs.NodupKeys) (key : Bytes) : ∀ h : Header,
    ((fs.map line).foldl parseLine h).fields.lookup key =
      match fs.dlookup key with
      | some value => some (trim value)
      | none => h.fields.lookup key := by
  induction fs with
  | nil => exact fun h => rfl
  | cons f fs ih =>
    intro h
    have hrest := ih (fun f' hf' => hk f' (by simp [hf'])) (List.nodupKeys_cons.mp hn).2
    have hstep : parseLine h (line f) = h.set f.1 (trim f.2) := by
      rw [parseLine, fieldOf_line (hk f (by simp))]
    rw [List.map_cons, List.foldl_cons, hstep, hrest]
    obtain ⟨name, value⟩ := f
    by_cases he : key = name
    · subst he
      have hnone : fs.dlookup key = none := List.dlookup_eq_none.mpr (List.nodupKeys_cons.mp hn).1
      simp [hnone]
    · rw [List.dlookup_cons_ne _ _ he, lookup_set_ne _ _ he]

theorem serialize_eq (it : Iteration) (h : Header) :
    h.serialize it =
      ((it.order h.fields.entries).map line).flatMap (fun l => l ++ [lf]) ++ [lf] := by
  simp [serialize, List.flatMap_map]

section
variable {h : Header} (hw : Writable h) (it : Iteration)
include hw

theorem writable_order : ∀ f ∈ it.order h.fields.entries, keyOk f.1 = true ∧ lf ∉ f.2 := by
  intro f hf
  have hmem := (it.perm _).mem_iff.mp hf
  exact hw f.1 f.2 (List.mem_dlookup h.fields.nodupKeys hmem)

theorem lineOk_order : ∀ l ∈ (it.order h.fields.entries).map line, LineOk l := by
  intro l hl
  obtain ⟨f, hf, rfl⟩ := List.mem_map.mp hl
  obtain ⟨hk, hv⟩ := writable_order hw it f hf
  exact lineOk_line hk hv

theorem lookup_parse_serialize (key : Bytes) :
    (parse (h.serialize it)).fields.lookup key = (h.fields.lookup key).map trim := by
  have hperm := it.perm h.fields.entries
  have hn : (it.order h.fields.entries).NodupKeys :=
    (List.perm_nodupKeys hperm).mpr h.fields.nodupKeys
  have hlookup : (it.order h.fields.entries).dlookup key = h.fields.lookup key :=
    List.perm_dlookup key hn hperm
  rw [serialize_eq, parse_lines (lineOk_order hw it),
    lookup_foldl_parseLine (fun f hf => (writable_order hw it f hf).1) hn, hlookup]
  cases h.fields.lookup key <;> simp

theorem get_parse_serialize (key default : Bytes) :
    (parse (h.serialize it)).get key default = ((h.fields.lookup key).map trim).getD default := by
  rw [get, lookup_parse_serialize hw it]

/-- **What is written is read.** The reader takes exactly the header from the
stream, if it is shorter than its limit. -/
theorem read_serialize (hne : h.fields.entries ≠ []) (max : Nat) (rest : Bytes) :
    read max (h.serialize it ++ rest) =
      if (h.serialize it).length < max then some (parse (h.serialize it), rest) else none := by
  have hlines : (it.order h.fields.entries).map line ≠ [] := by
    intro hnil
    rw [List.map_eq_nil_iff] at hnil
    have hlen := (it.perm h.fields.entries).length_eq
    rw [hnil] at hlen
    exact hne (List.eq_nil_of_length_eq_zero hlen.symm)
  unfold read
  rw [serialize_eq, readText_lines (lineOk_order hw it) hlines]
  split <;> rfl

end

end Header

end EncoderNext
