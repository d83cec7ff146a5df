import Mathlib.Data.List.Basic
import Mathlib.Data.List.TakeWhile

/-!
# Block mappings in YAML

A small part of YAML: comments on lines of their own, mappings by indentation, plain
scalars of safe characters, and double-quoted scalars in which only a backslash and a
quote are escaped. A mapping that is rendered in it is read back.
-/

namespace Yaml

structure Scalar where
  text : List Char
  quoted : Bool
  deriving DecidableEq

mutual

inductive Node where
  | scalar (s : Scalar)
  | sequence (items : Items)
  | mapping (entries : Entries)

inductive Items where
  | nil
  | cons (value : Node) (rest : Items)

inductive Entries where
  | nil
  | cons (key : Scalar) (value : Node) (rest : Entries)

end

/-! ## Mappings as dictionaries -/

namespace Entries

def keys : Entries → List (List Char)
  | nil => []
  | cons key _ rest => key.text :: rest.keys

def values : Entries → List Node
  | nil => []
  | cons _ value rest => value :: rest.values

def get (entries : Entries) (key : String) : Option Node :=
  match entries with
  | nil => none
  | cons k value rest => if k.text = key.toList then some value else rest.get key

def hasKeys (entries : Entries) (ks : List String) : Bool :=
  entries.keys.all (fun k => ks.any fun key => key.toList == k) &&
    ks.all fun key => entries.keys.contains key.toList

end Entries

def isText (node : Option Node) (text : String) : Bool :=
  match node with
  | some (.scalar s) => s.text == text.toList
  | _ => false

/-! ## Scalars -/

/-- A character that has no meaning of its own in a plain scalar. -/
def plainChar (c : Char) : Bool := c.isAlphanum || c == '-' || c == '_' || c == '.'

def scanQuoted : List Char → Option (List Char × List Char)
  | [] => none
  | '"' :: rest => some ([], rest)
  | '\\' :: c :: rest =>
    if c = '\\' ∨ c = '"' then (scanQuoted rest).map fun p => (c :: p.1, p.2) else none
  | ['\\'] => none
  | c :: rest => (scanQuoted rest).map fun p => (c :: p.1, p.2)

def plainText (s : List Char) : Bool := s.head?.any Char.isAlphanum && s.all plainChar

def scanScalar : List Char → Option (Scalar × List Char)
  | '"' :: rest => (scanQuoted rest).map fun p => (⟨p.1, true⟩, p.2)
  | s =>
    let text := s.takeWhile plainChar
    if plainText text then some (⟨text, false⟩, s.dropWhile plainChar) else none

def escape (c : Char) : List Char := if c = '\\' ∨ c = '"' then ['\\', c] else [c]

def Scalar.render (s : Scalar) : List Char :=
  if s.quoted then '"' :: s.text.flatMap escape ++ ['"'] else s.text

def Scalar.good (s : Scalar) : Bool :=
  if s.quoted then !s.text.contains '\n' else plainText s.text

/-! ## Lines -/

structure Line where
  indent : Nat
  key : Scalar
  value : Option Scalar
  deriving DecidableEq

def renderValue : Option Scalar → List Char
  | none => [':']
  | some v => ':' :: ' ' :: v.render

def Line.render (l : Line) : List Char :=
  List.replicate l.indent ' ' ++ (l.key.render ++ renderValue l.value)

def Line.good (l : Line) : Bool := l.key.good && l.value.all Scalar.good

/-- Nothing where the line is not understood, no line where it says nothing. -/
def parseLine (s : List Char) : Option (Option Line) :=
  let body := s.dropWhile (· == ' ')
  let indent := s.length - body.length
  if body = [] ∨ body.head? = some '#' then some none
  else
    match scanScalar body with
    | none => none
    | some (key, [':']) => some (some ⟨indent, key, none⟩)
    | some (key, ':' :: ' ' :: rest) =>
      match scanScalar rest with
      | some (value, []) => some (some ⟨indent, key, some value⟩)
      | _ => none
    | some _ => none

def block : Nat → Nat → List Line → Option (Entries × List Line)
  | 0, _, _ => none
  | _ + 1, _, [] => some (.nil, [])
  | fuel + 1, indent, l :: ls =>
    if l.indent < indent then some (.nil, l :: ls)
    else if l.indent > indent then none
    else
      match l.value with
      | some v => (block fuel indent ls).map fun p => (.cons l.key (.scalar v) p.1, p.2)
      | none =>
        match ls with
        | [] => none
        | next :: _ =>
          if next.indent ≤ indent then none
          else
            match block fuel next.indent ls with
            | none => none
            | some (entries, rest) =>
              (block fuel indent rest).map fun p => (.cons l.key (.mapping entries) p.1, p.2)

def read (text : List Char) : Option Node :=
  match (text.splitOn '\n').mapM parseLine with
  | none => none
  | some parsed =>
    let ls := parsed.filterMap id
    match block (ls.length + 1) 0 ls with
    | some (entries, []) => some (.mapping entries)
    | _ => none

/-! ## Rendering -/

mutual

def Node.lines (indent : Nat) (key : Scalar) : Node → List Line
  | .scalar v => [⟨indent, key, some v⟩]
  | .sequence _ => []
  | .mapping entries => ⟨indent, key, none⟩ :: entries.lines (indent + 2)

def Entries.lines (indent : Nat) : Entries → List Line
  | .nil => []
  | .cons key value rest => value.lines indent key ++ rest.lines indent

end

mutual

def Node.good : Node → Bool
  | .scalar v => v.good
  | .sequence _ => false
  | .mapping .nil => false
  | .mapping (.cons key value rest) => key.good && value.good && rest.good

def Entries.good : Entries → Bool
  | .nil => true
  | .cons key value rest => key.good && value.good && rest.good

end

def render (comments : List (List Char)) (ls : List Line) : List Char :=
  (comments ++ ls.map Line.render).flatMap fun l => l ++ ['\n']

/-! ## Reading what was rendered -/

theorem scanQuoted_escape (s rest : List Char) :
    scanQuoted (s.flatMap escape ++ '"' :: rest) = some (s, rest) := by
  induction s with
  | nil => rfl
  | cons c s ih =>
    rw [List.flatMap_cons, List.append_assoc]
    by_cases h : c = '\\' ∨ c = '"'
    · rw [escape, if_pos h]
      simp [scanQuoted, h, ih]
    · rw [escape, if_neg h]
      rw [not_or] at h
      rw [List.singleton_append, scanQuoted, ih]
      · rfl
      · exact h.2
      · simp [h.1]
      · simp [h.1]

theorem alphanum_of_plain {s : List Char} (h : plainText s = true) :
    ∃ c rest, s = c :: rest ∧ c.isAlphanum = true ∧ ∀ d ∈ s, plainChar d = true := by
  unfold plainText at h
  rw [Bool.and_eq_true, List.all_eq_true] at h
  cases s with
  | nil => simp at h
  | cons c rest => exact ⟨c, rest, rfl, by simpa using h.1, h.2⟩

theorem alphanum_ne {c d : Char} (h : c.isAlphanum = true) (hd : d.isAlphanum = false) : c ≠ d := by
  rintro rfl
  rw [h] at hd
  cases hd

theorem head_render {s : Scalar} (h : s.good = true) :
    ∃ c rest, s.render = c :: rest ∧ c ≠ ' ' ∧ c ≠ '#' := by
  unfold Scalar.good at h
  unfold Scalar.render
  split
  · exact ⟨_, _, rfl, by decide, by decide⟩
  · rename_i hq
    rw [if_neg hq] at h
    obtain ⟨c, rest, htext, hc, -⟩ := alphanum_of_plain h
    exact ⟨c, rest, htext, alphanum_ne hc (by decide), alphanum_ne hc (by decide)⟩

theorem scanScalar_render {s : Scalar} (h : s.good = true) {rest : List Char}
    (hrest : ∀ c ∈ rest.head?, plainChar c = false) : scanScalar (s.render ++ rest) = some (s, rest) := by
  obtain ⟨text, style⟩ := s
  cases style with
  | true =>
    show scanScalar (('"' :: text.flatMap escape ++ ['"']) ++ rest) = _
    have hquoted : ('"' :: text.flatMap escape ++ ['"']) ++ rest =
        '"' :: (text.flatMap escape ++ '"' :: rest) := by simp
    rw [hquoted, scanScalar, scanQuoted_escape]
    rfl
  | false =>
    have hplain : plainText text = true := h
    obtain ⟨c, tail, htext, hc, hall⟩ := alphanum_of_plain hplain
    have hne : c ≠ '"' := alphanum_ne hc (by decide)
    show scanScalar (text ++ rest) = _
    have htake : (text ++ rest).takeWhile plainChar = text := by
      rw [List.takeWhile_append_of_pos hall]
      cases rest with
      | nil => exact List.append_nil text
      | cons d rest => simp [hrest d rfl]
    have hdrop : (text ++ rest).dropWhile plainChar = rest := by
      rw [List.dropWhile_append_of_pos hall]
      cases rest with
      | nil => rfl
      | cons d rest => simp [hrest d rfl]
    rw [scanScalar]
    · rw [htake, hdrop, if_pos hplain]
    · intro rest' heq
      rw [htext] at heq
      exact hne (List.cons.inj heq).1

theorem parseLine_render {l : Line} (h : l.good = true) : parseLine l.render = some (some l) := by
  obtain ⟨indent, key, value⟩ := l
  rw [Line.good, Bool.and_eq_true] at h
  obtain ⟨c, rest, hkey, hblank, hhash⟩ := head_render h.1
  have hbody : (Line.render ⟨indent, key, value⟩).dropWhile (· == ' ') =
      key.render ++ renderValue value := by
    rw [Line.render, List.dropWhile_append_of_pos, hkey]
    · simp [hblank]
    · intro d hd
      rw [List.eq_of_mem_replicate hd]
      rfl
  have hindent : (Line.render ⟨indent, key, value⟩).length - (key.render ++ renderValue value).length =
      indent := by
    rw [Line.render, List.length_append, List.length_replicate, Nat.add_sub_cancel]
  have hscan : scanScalar (key.render ++ renderValue value) = some (key, renderValue value) := by
    refine scanScalar_render h.1 ?_
    cases value <;> simp [renderValue, plainChar]
  have hsays : ¬(key.render ++ renderValue value = [] ∨
      (key.render ++ renderValue value).head? = some '#') := by
    simp [hkey, hhash]
  unfold parseLine
  dsimp only
  rw [hbody, hindent, if_neg hsays, hscan]
  cases value with
  | none => rfl
  | some v =>
    have hv : v.good = true := h.2
    have hend : ∀ c ∈ ([] : List Char).head?, plainChar c = false := by simp
    have hvalue : scanScalar v.render = some (v, []) := by
      have hread := scanScalar_render hv hend
      rwa [List.append_nil] at hread
    simp only [renderValue, hvalue]

theorem parseLine_comment (s : List Char) : parseLine ('#' :: s) = some none := by
  simp [parseLine]

theorem parseLine_nil : parseLine [] = some none := rfl

/-! ## Blocks -/

theorem lines_node {value : Node} (h : value.good = true) (indent : Nat) (key : Scalar) :
    ∃ l ls, value.lines indent key = l :: ls ∧ l.indent = indent := by
  match value, h with
  | .scalar v, _ => exact ⟨_, _, rfl, rfl⟩
  | .mapping es, _ => exact ⟨_, _, by rw [Node.lines], rfl⟩

theorem lines_entries {es : Entries} (h : es.good = true) (hne : es ≠ .nil) (indent : Nat) :
    ∃ l ls, es.lines indent = l :: ls ∧ l.indent = indent := by
  match es, h, hne with
  | .cons key value es, h, _ =>
    simp only [Entries.good, Bool.and_eq_true] at h
    obtain ⟨l, ls, hl, hindent⟩ := lines_node h.1.2 indent key
    exact ⟨l, ls ++ es.lines indent, by rw [Entries.lines, hl]; rfl, hindent⟩

theorem good_mapping {es : Entries} (h : (Node.mapping es).good = true) : es.good = true ∧ es ≠ .nil := by
  match es, h with
  | .cons key value es, h => exact ⟨by simpa [Node.good, Entries.good] using h, nofun⟩

/-- Entries are read up to lines that stand further left. -/
theorem block_lines : ∀ (es : Entries) (fuel indent : Nat) (rest : List Line), es.good = true →
    (∀ l ∈ rest.head?, l.indent < indent) → (es.lines indent).length < fuel →
    block fuel indent (es.lines indent ++ rest) = some (es, rest)
  | .nil, fuel, indent, rest, _, hrest, hfuel => by
    obtain ⟨fuel, rfl⟩ := Nat.exists_eq_succ_of_ne_zero (by omega : fuel ≠ 0)
    cases rest with
    | nil => rfl
    | cons l rest => simp [Entries.lines, block, hrest l rfl]
  | .cons key (.scalar v) es, fuel, indent, rest, hgood, hrest, hfuel => by
    simp only [Entries.good, Bool.and_eq_true] at hgood
    simp only [Entries.lines, Node.lines, List.singleton_append, List.length_cons] at hfuel ⊢
    obtain ⟨fuel, rfl⟩ := Nat.exists_eq_succ_of_ne_zero (by omega : fuel ≠ 0)
    have ih := block_lines es fuel indent rest hgood.2 hrest (by omega)
    simp [block, ih]
  | .cons key (.sequence items) es, fuel, indent, rest, hgood, hrest, hfuel => by
    simp [Entries.good, Node.good] at hgood
  | .cons key (.mapping sub) es, fuel, indent, rest, hgood, hrest, hfuel => by
    simp only [Entries.good, Bool.and_eq_true] at hgood
    obtain ⟨hsub, hne⟩ := good_mapping hgood.1.2
    simp only [Entries.lines, Node.lines, List.cons_append, List.length_cons, List.length_append,
      List.append_assoc] at hfuel ⊢
    obtain ⟨fuel, rfl⟩ := Nat.exists_eq_succ_of_ne_zero (by omega : fuel ≠ 0)
    -- what follows the inner mapping stands further left
    have hafter : ∀ l ∈ (es.lines indent ++ rest).head?, l.indent < indent + 2 := by
      intro l hl
      by_cases hes : es = .nil
      · subst hes
        have := hrest l hl
        omega
      · obtain ⟨l', ls, hlines, hindent⟩ := lines_entries hgood.2 hes indent
        rw [hlines] at hl
        obtain rfl : l' = l := by simpa using hl
        omega
    have ihsub := block_lines sub fuel (indent + 2) (es.lines indent ++ rest) hsub hafter (by omega)
    have ih := block_lines es fuel indent rest hgood.2 hrest (by omega)
    obtain ⟨next, ls, hlines, hindent⟩ := lines_entries hsub hne (indent + 2)
    rw [hlines] at ihsub ⊢
    have hright : ¬next.indent ≤ indent := by omega
    rw [← hindent] at ihsub
    simp only [List.cons_append] at ihsub ⊢
    simp [block, hright, ihsub, ih]

/-! ## Texts -/

theorem splitOn_lines {ls : List (List Char)} (h : ∀ l ∈ ls, '\n' ∉ l) :
    (ls.flatMap fun l => l ++ ['\n']).splitOn '\n' = ls ++ [[]] := by
  induction ls with
  | nil => rfl
  | cons l ls ih =>
    rw [List.flatMap_cons, List.append_assoc, List.singleton_append,
      List.splitOn_append_cons_self_of_not_mem (h l (by simp)), ih fun l hl => h l (by simp [hl])]
    rfl

theorem mapM_some {α β : Type} {f : α → Option β} {g : α → β} : ∀ {l : List α},
    (∀ a ∈ l, f a = some (g a)) → l.mapM f = some (l.map g)
  | [], _ => rfl
  | a :: l, h => by
    rw [List.mapM_cons, h a (by simp), mapM_some fun a ha => h a (List.mem_cons_of_mem _ ha)]
    rfl

theorem newline_not_plain {s : List Char} (h : plainText s = true) : '\n' ∉ s := by
  obtain ⟨-, -, -, -, hall⟩ := alphanum_of_plain h
  exact fun hc => absurd (hall _ hc) (by decide)

theorem newline_not_scalar {s : Scalar} (h : s.good = true) : '\n' ∉ s.render := by
  unfold Scalar.good at h
  unfold Scalar.render
  split at h
  · rename_i hq
    rw [if_pos hq]
    have hno : '\n' ∉ s.text := by simpa using h
    simp only [List.cons_append, List.mem_cons, List.mem_append, List.mem_flatMap, List.not_mem_nil,
      or_false]
    rintro (hc | ⟨c, hc, hm⟩ | hc)
    · exact absurd hc (by decide)
    · unfold escape at hm
      split at hm
      · rename_i hesc
        rcases hesc with rfl | rfl <;> exact absurd hm (by decide)
      · rw [List.mem_singleton] at hm
        exact hno (hm ▸ hc)
    · exact absurd hc (by decide)
  · rename_i hq
    rw [if_neg hq]
    exact newline_not_plain h

theorem newline_not_line {l : Line} (h : l.good = true) : '\n' ∉ l.render := by
  obtain ⟨indent, key, value⟩ := l
  rw [Line.good, Bool.and_eq_true] at h
  have hkey := newline_not_scalar h.1
  have hvalue : '\n' ∉ renderValue value := by
    cases value with
    | none => decide
    | some v =>
      have hv := newline_not_scalar (s := v) h.2
      simp [renderValue, hv]
  simp [Line.render, hkey, hvalue]

theorem good_lines : ∀ (es : Entries) (indent : Nat), es.good = true →
    ∀ l ∈ es.lines indent, l.good = true
  | .nil, _, _, l, hl => by simp [Entries.lines] at hl
  | .cons key (.scalar v) es, indent, h, l, hl => by
    simp only [Entries.good, Node.good, Bool.and_eq_true] at h
    simp only [Entries.lines, Node.lines, List.singleton_append, List.mem_cons] at hl
    rcases hl with rfl | hl
    · simp [Line.good, h.1.1, h.1.2]
    · exact good_lines es indent h.2 l hl
  | .cons key (.sequence items) es, indent, h, l, hl => by
    simp [Entries.good, Node.good] at h
  | .cons key (.mapping sub) es, indent, h, l, hl => by
    simp only [Entries.good, Bool.and_eq_true] at h
    simp only [Entries.lines, Node.lines, List.cons_append, List.mem_cons, List.mem_append] at hl
    rcases hl with rfl | hl | hl
    · simp [Line.good, h.1.1]
    · exact good_lines sub (indent + 2) (good_mapping h.1.2).1 l hl
    · exact good_lines es indent h.2 l hl

/-- **What is rendered is read.** -/
theorem read_render {es : Entries} (h : es.good = true) {comments : List (List Char)}
    (hc : ∀ s ∈ comments, s.head? = some '#' ∧ '\n' ∉ s) :
    read (render comments (es.lines 0)) = some (.mapping es) := by
  have hsplit : (render comments (es.lines 0)).splitOn '\n' =
      comments ++ (es.lines 0).map Line.render ++ [[]] := by
    refine splitOn_lines fun s hs => ?_
    rcases List.mem_append.mp hs with hs | hs
    · exact (hc s hs).2
    · obtain ⟨l, hl, rfl⟩ := List.mem_map.mp hs
      exact newline_not_line (good_lines es 0 h l hl)
  let said (s : List Char) : Option Line := (parseLine s).getD none
  have hcomment : ∀ s ∈ comments, parseLine s = some none := by
    intro s hs
    obtain ⟨hhead, -⟩ := hc s hs
    cases s with
    | nil => cases hhead
    | cons c s => exact Option.some.inj hhead ▸ parseLine_comment s
  -- comments and the empty end say nothing, the others are read back
  have hparsed : (comments ++ (es.lines 0).map Line.render ++ [[]]).mapM parseLine =
      some ((comments ++ (es.lines 0).map Line.render ++ [[]]).map said) := by
    refine mapM_some fun s hs => ?_
    rcases List.mem_append.mp hs with hs | hs
    · rcases List.mem_append.mp hs with hs | hs
      · rw [hcomment s hs]
        simp [said, hcomment s hs]
      · obtain ⟨l, hl, rfl⟩ := List.mem_map.mp hs
        have hread := parseLine_render (good_lines es 0 h l hl)
        simp [said, hread]
    · rw [List.mem_singleton.mp hs]
      rfl
  have hkept : ((comments ++ (es.lines 0).map Line.render ++ [[]]).map said).filterMap id = es.lines 0 := by
    have hnone : comments.filterMap said = [] := by
      rw [List.filterMap_eq_nil_iff]
      intro s hs
      simp [said, hcomment s hs]
    have hall : ((es.lines 0).map Line.render).filterMap said = es.lines 0 := by
      rw [List.filterMap_map]
      refine (List.filterMap_congr fun l hl => ?_).trans List.filterMap_some
      simp [said, parseLine_render (good_lines es 0 h l hl)]
    rw [List.filterMap_map, Function.id_comp, List.filterMap_append, List.filterMap_append, hnone, hall]
    simp [said, parseLine_nil]
  have hblock := block_lines es ((es.lines 0).length + 1) 0 [] h (by simp) (Nat.lt_succ_self _)
  rw [List.append_nil] at hblock
  unfold read
  rw [hsplit, hparsed]
  dsimp only
  rw [hkept, hblock]

end Yaml
