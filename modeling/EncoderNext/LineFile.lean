import EncoderNext.Protocol

/-!
# Tables kept in a file, one line an entry

`std::getline` with a delimiter cuts a text into parts, and a delimiter at the
end opens no further part. A file that is read line by line into a table, each
line inserting one entry, gives back the table whose entries were written, in
whatever order they were walked.
-/

namespace EncoderNext

abbrev Line : Type := {text : Bytes // lf ∉ text}

def Line.empty : Line := ⟨[], by decide⟩

/-- The parts that repeated `std::getline` with a delimiter gives. -/
def parts (d : UInt8) : Bytes → List Bytes
  | [] => []
  | c :: rest =>
    if c = d then [] :: parts d rest
    else
      match parts d rest with
      | [] => [[c]]
      | p :: ps => (c :: p) :: ps

theorem parts_append {d : UInt8} {p : Bytes} (hp : d ∉ p) (rest : Bytes) :
    parts d (p ++ d :: rest) = p :: parts d rest := by
  induction p with
  | nil => simp [parts]
  | cons c p ih =>
    have hc : c ≠ d := fun h => hp (by simp [h])
    rw [List.cons_append, parts, if_neg hc, ih fun h => hp (by simp [h])]

theorem parts_last {d : UInt8} {p : Bytes} (hp : d ∉ p) (hne : p ≠ []) : parts d p = [p] := by
  induction p with
  | nil => exact absurd rfl hne
  | cons c p ih =>
    have hc : c ≠ d := fun h => hp (by simp [h])
    by_cases hnil : p = []
    · subst hnil
      simp [parts, hc]
    · rw [parts, if_neg hc, ih (fun h => hp (by simp [h])) hnil]

theorem parts_of_not_mem {d : UInt8} {p : Bytes} (hp : d ∉ p) : parts d p = [] ∨ parts d p = [p] := by
  by_cases h : p = []
  · exact .inl (by simp [h, parts])
  · exact .inr (parts_last hp h)

theorem not_mem_parts {d : UInt8} {s : Bytes} : ∀ p ∈ parts d s, d ∉ p := by
  induction s with
  | nil => simp [parts]
  | cons c s ih =>
    intro p hp
    by_cases hc : c = d
    · rw [parts, if_pos hc] at hp
      rcases List.mem_cons.mp hp with rfl | hp
      · simp
      · exact ih p hp
    · rw [parts, if_neg hc] at hp
      have hd : d ≠ c := fun h => hc h.symm
      cases hs : parts d s with
      | nil =>
        rw [hs] at hp
        obtain rfl := List.mem_singleton.mp hp
        simpa using hd
      | cons q ps =>
        rw [hs] at hp ih
        rcases List.mem_cons.mp hp with rfl | hp
        · simpa [ih q (by simp)] using hd
        · exact ih p (by simp [hp])

theorem mem_of_mem_parts {c d : UInt8} {s p : Bytes} (hp : p ∈ parts d s) (hc : c ∈ p) : c ∈ s := by
  induction s generalizing p with
  | nil => simp [parts] at hp
  | cons e s ih =>
    by_cases he : e = d
    · rw [parts, if_pos he] at hp
      rcases List.mem_cons.mp hp with rfl | hp
      · simp at hc
      · exact List.mem_cons_of_mem e (ih hp hc)
    · rw [parts, if_neg he] at hp
      cases hs : parts d s with
      | nil =>
        rw [hs] at hp
        obtain rfl := List.mem_singleton.mp hp
        simp [List.mem_singleton.mp hc]
      | cons q ps =>
        rw [hs] at hp ih
        rcases List.mem_cons.mp hp with rfl | hp
        · rcases List.mem_cons.mp hc with rfl | hc
          · simp
          · exact List.mem_cons_of_mem e (ih (by simp) hc)
        · exact List.mem_cons_of_mem e (ih (by simp [hp]) hc)

theorem exists_part {c d : UInt8} {s : Bytes} (hc : c ∈ s) (hcd : c ≠ d) : ∃ p ∈ parts d s, c ∈ p := by
  induction s with
  | nil => simp at hc
  | cons e s ih =>
    by_cases he : e = d
    · rw [parts, if_pos he]
      have hs : c ∈ s := (List.mem_cons.mp hc).resolve_left fun h => hcd (h.trans he)
      obtain ⟨p, hp, hcp⟩ := ih hs
      exact ⟨p, List.mem_cons_of_mem [] hp, hcp⟩
    · rw [parts, if_neg he]
      rcases List.mem_cons.mp hc with rfl | hs
      · cases parts d s <;> simp
      · obtain ⟨p, hp, hcp⟩ := ih hs
        cases hps : parts d s with
        | nil => simp [hps] at hp
        | cons q ps =>
          rw [hps] at hp
          rcases List.mem_cons.mp hp with rfl | hp
          · exact ⟨e :: p, by simp, by simp [hcp]⟩
          · exact ⟨p, by simp [hp], hcp⟩

def joined (d : UInt8) (ps : List Bytes) : Bytes := [d].intercalate ps

@[simp] theorem joined_nil (d : UInt8) : joined d [] = [] := rfl

@[simp] theorem joined_singleton (d : UInt8) (p : Bytes) : joined d [p] = p := by
  simp [joined, List.intercalate]

@[simp] theorem joined_cons_cons (d : UInt8) (p q : Bytes) (ps : List Bytes) :
    joined d (p :: q :: ps) = p ++ d :: joined d (q :: ps) := by
  simp [joined, List.intercalate]

/-- Only an empty part at the end is lost. -/
theorem parts_joined {d : UInt8} {q : Bytes} (hq : d ∉ q) (hne : q ≠ []) :
    ∀ (ps : List Bytes), (∀ p ∈ ps, d ∉ p) → parts d (joined d (ps ++ [q])) = ps ++ [q]
  | [], _ => by simpa using parts_last hq hne
  | [p], h => by
    rw [List.singleton_append, joined_cons_cons, joined_singleton, parts_append (h p (by simp)),
      parts_last hq hne]
  | p :: p' :: ps, h => by
    rw [List.cons_append, List.cons_append, joined_cons_cons, parts_append (h p (by simp)),
      ← List.cons_append, parts_joined hq hne (p' :: ps) fun p hp => h p (by simp [hp])]

theorem parts_joined_nil {d : UInt8} {q : Bytes} (hq : d ∉ q) : ∀ {ps : List Bytes},
    (∀ p ∈ ps, d ∉ p) → parts d (joined d (ps ++ [q, []])) = ps ++ [q]
  | [], _ => by
    rw [List.nil_append, joined_cons_cons, joined_singleton]
    exact parts_append hq []
  | [p], h => by
    rw [List.singleton_append, joined_cons_cons, joined_cons_cons, joined_singleton,
      parts_append (h p (by simp)), parts_append hq]
    rfl
  | p :: p' :: ps, h => by
    rw [List.cons_append, List.cons_append, joined_cons_cons, parts_append (h p (by simp)),
      ← List.cons_append, parts_joined_nil hq fun p hp => h p (by simp [hp])]
    rfl

theorem not_mem_joined {c d : UInt8} (hcd : c ≠ d) : ∀ {ps : List Bytes}, (∀ p ∈ ps, c ∉ p) →
    c ∉ joined d ps
  | [], _ => by simp
  | [p], h => by simpa using h p (by simp)
  | p :: q :: ps, h => by
    have hrest : c ∉ joined d (q :: ps) := not_mem_joined hcd fun p hp => h p (by simp [hp])
    rw [joined_cons_cons, List.mem_append, List.mem_cons, not_or, not_or]
    exact ⟨h p (by simp), hcd, hrest⟩

theorem parts_lf : ∀ s : Bytes, parts lf s = lines s
  | [] => rfl
  | c :: s => by
    rw [parts, parts_lf s]
    rfl

theorem lf_not_mem_lines {s : Bytes} : ∀ l ∈ lines s, lf ∉ l := by
  rw [← parts_lf]
  exact not_mem_parts

theorem lines_flatMap {ls : List Bytes} (h : ∀ l ∈ ls, lf ∉ l) :
    lines (ls.flatMap fun l => l ++ [lf]) = ls := by
  simpa [lines] using Header.lines_flatMap h []

/-! ## What a parsed header can carry -/

theorem mem_trim {c : UInt8} {s : Bytes} (h : c ∈ trim s) : c ∈ s :=
  (List.dropWhile_suffix isBlank).subset ((List.rdropWhile_prefix isBlank _).subset h)

theorem splitAt?_mem {c : UInt8} {s : Bytes} {p : Bytes × Bytes} (h : splitAt? c s = some p) :
    ∀ d ∈ p.2, d ∈ s := by
  intro d hd
  rw [(splitAt?_eq h).1]
  simp [hd]

theorem lf_not_mem_value (raw : Bytes) {key value : Bytes}
    (h : (Header.parse raw).fields.lookup key = some value) : lf ∉ value := by
  let Clean (h : Header) : Prop := ∀ key value, h.fields.lookup key = some value → lf ∉ value
  have hclean : Clean (Header.parse raw) := by
    refine List.foldlRecOn (motive := Clean) _ Header.parseLine ?_ fun hd hh l hl => ?_
    · simp [Clean]
    · have hlf := lf_not_mem_lines l ((List.takeWhile_prefix _).subset hl)
      unfold Header.parseLine Header.fieldOf
      cases hs : splitAt? (byte ':') l with
      | none => simpa using hh
      | some p =>
        by_cases hk : trim p.1 = []
        · simpa [hk] using hh
        · intro key value hv
          simp only [hk, if_false] at hv
          by_cases hkey : key = trim p.1
          · subst hkey
            rw [Header.lookup_set_self] at hv
            cases hv
            exact fun hm => hlf (splitAt?_mem hs _ (mem_trim hm))
          · rw [Header.lookup_set_ne _ _ hkey] at hv
            exact hh key value hv
  exact hclean key value h

theorem lf_not_mem_get (raw key default : Bytes) (hd : lf ∉ default) :
    lf ∉ (Header.parse raw).get key default := by
  unfold Header.get
  cases h : (Header.parse raw).fields.lookup key with
  | none => exact hd
  | some value => exact lf_not_mem_value raw h

/-! ## Reading a table back -/

section
variable {α β σ : Type}

/-- What a line of an entry does to the table: it inserts a value, or is skipped. -/
def Inserts (table : σ → AList fun _ : Bytes => β) (step : σ → Bytes → σ) (line : Bytes)
    (key : Bytes) : Option β → Prop
  | some b => ∀ s, table (step s line) = (table s).insert key b
  | none => ∀ s, table (step s line) = table s

theorem lookup_inserts_self {step : σ → Bytes → σ} {table : σ → AList fun _ : Bytes => β}
    {line key : Bytes} {v : Option β} (h : Inserts table step line key v) (s : σ) :
    (table (step s line)).lookup key = v.or ((table s).lookup key) := by
  cases v with
  | none => simp [h s]
  | some b => simp [h s]

theorem lookup_inserts_ne {step : σ → Bytes → σ} {table : σ → AList fun _ : Bytes => β}
    {line name key : Bytes} {v : Option β} (h : Inserts table step line name v) (hne : key ≠ name)
    (s : σ) : (table (step s line)).lookup key = (table s).lookup key := by
  cases v with
  | none => rw [h s]
  | some b => rw [h s, AList.lookup_insert_ne hne]

theorem lookup_foldl_lines {step : σ → Bytes → σ} {table : σ → AList fun _ : Bytes => β}
    {line : (Sigma fun _ : Bytes => α) → Bytes} {value : α → Option β}
    {es : List (Sigma fun _ : Bytes => α)} (hn : es.NodupKeys)
    (hstep : ∀ e ∈ es, Inserts table step (line e) e.1 (value e.2)) (key : Bytes) : ∀ s : σ,
    (table ((es.map line).foldl step s)).lookup key =
      ((es.dlookup key).bind value).or ((table s).lookup key) := by
  induction es with
  | nil => exact fun s => rfl
  | cons e es ih =>
    intro s
    obtain ⟨name, a⟩ := e
    obtain ⟨hname, hes⟩ := List.nodupKeys_cons.mp hn
    have hfirst := hstep ⟨name, a⟩ (by simp)
    rw [List.map_cons, List.foldl_cons, ih hes fun e' he' => hstep e' (by simp [he'])]
    by_cases he : key = name
    · subst he
      have hnone : es.dlookup key = none := List.dlookup_eq_none.mpr hname
      simp [hnone, lookup_inserts_self hfirst s]
    · rw [List.dlookup_cons_ne _ _ he, lookup_inserts_ne hfirst he s]

/-- **What is written is read**, in whatever order the table is walked. -/
theorem lookup_read_lines {step : σ → Bytes → σ} (table : σ → AList fun _ : Bytes => β)
    {line : (Sigma fun _ : Bytes => α) → Bytes} {value : α → Option β}
    {t : AList fun _ : Bytes => α} {es : List (Sigma fun _ : Bytes => α)}
    (hp : es.Perm t.entries) (hlf : ∀ e ∈ es, lf ∉ line e)
    (hstep : ∀ e ∈ es, Inserts table step (line e) e.1 (value e.2)) {s : σ} (hs : table s = ∅)
    (key : Bytes) :
    (table ((lines (es.flatMap fun e => line e ++ [lf])).foldl step s)).lookup key =
      (t.lookup key).bind value := by
  have hn : es.NodupKeys := (List.perm_nodupKeys hp).mpr t.nodupKeys
  have hlookup : es.dlookup key = t.lookup key := List.perm_dlookup key hn hp
  have hlines : lines (es.flatMap fun e => line e ++ [lf]) = es.map line := by
    rw [← List.flatMap_map line fun l => l ++ [lf]]
    refine lines_flatMap fun l hl => ?_
    obtain ⟨e, he, rfl⟩ := List.mem_map.mp hl
    exact hlf e he
  simp [hlines, lookup_foldl_lines hn hstep key s, hlookup, hs]

end

end EncoderNext
