import EncoderNext.Crypto
import EncoderNext.LineFile

/-!
# The request to encrypt a file

The client puts the name of the file into the header as it is. A name may hold
line feeds, and what follows one is a line of its own on the server's side.
-/

namespace EncoderNext.ClientCore

structure ClientConfig where
  defaultKeyStorage : Line
  clientId : Line
  hostLabel : Line

structure EncryptParams where
  username : Line
  password : Line
  filePath : Bytes
  cipher : Cipher
  hash : HashAlg
  keyStorage : Line

def fileName (path : Bytes) : Bytes := path.rtakeWhile fun c => c != byte '/'

def keyStorageOf (cfg : ClientConfig) (p : EncryptParams) : Line :=
  if p.keyStorage.1 = [] then cfg.defaultKeyStorage else p.keyStorage

def encryptRequest (cfg : ClientConfig) (p : EncryptParams) (data : Bytes) : Header :=
  let header := Header.set {} (bytes "op") (bytes "encrypt")
  let header := header.set (bytes "username") p.username.1
  let header := header.set (bytes "password") p.password.1
  let header := header.set (bytes "client_id") cfg.clientId.1
  let header := header.set (bytes "client_host") cfg.hostLabel.1
  let header := header.set (bytes "cipher") (CryptoEngine.cipherToString p.cipher)
  let header := header.set (bytes "hash") (CryptoEngine.hashToString p.hash)
  let header := header.set (bytes "key_storage") (keyStorageOf cfg p).1
  let header := header.set (bytes "file_name") (fileName p.filePath)
  header.set (bytes "file_size") (decimal data.length)

/-- The fields that say who asks for what. -/
def protectedKeys : List Bytes :=
  [bytes "op", bytes "username", bytes "password", bytes "client_id", bytes "cipher", bytes "hash",
    bytes "key_storage", bytes "file_size"]

end EncoderNext.ClientCore

namespace EncoderNext.Header

/-! ## A value with line feeds -/

def firstLine (value : Bytes) : Bytes := value.takeWhile (· != lf)

/-- The lines that follow; the field's own line feed ends the last of them. -/
def injected (value : Bytes) : List Bytes := (lines (value ++ [lf])).tail

theorem lines_value : ∀ value : Bytes, lines (value ++ [lf]) = firstLine value :: injected value
  | [] => rfl
  | c :: value => by
    have ih := lines_value value
    by_cases hc : c = lf
    · subst hc
      simp [injected, firstLine, lines]
    · have hcons : lines (c :: value ++ [lf]) = (c :: firstLine value) :: injected value := by
        rw [List.cons_append, lines, if_neg hc, ih]
      have hfirst : firstLine (c :: value) = c :: firstLine value := by
        rw [firstLine, List.takeWhile_cons_of_pos (by simpa using hc)]
        rfl
      rw [injected, hcons, hfirst]
      rfl

theorem unlines_value : ∀ value : Bytes,
    (lines (value ++ [lf])).flatMap (fun l => l ++ [lf]) = value ++ [lf]
  | [] => rfl
  | c :: value => by
    have ih := unlines_value value
    rw [lines_value value] at ih
    by_cases hc : c = lf
    · subst hc
      rw [List.cons_append, lines, if_pos rfl, lines_value value]
      simpa using ih
    · rw [List.cons_append, lines, if_neg hc, lines_value value]
      simpa using ih

theorem lf_not_mem_firstLine (value : Bytes) : lf ∉ firstLine value := by
  intro h
  simpa using List.mem_takeWhile_imp h

theorem lf_not_mem_injected {value l : Bytes} (h : l ∈ injected value) : lf ∉ l :=
  lf_not_mem_lines l (List.mem_of_mem_tail h)

theorem injected_of_line {value : Bytes} (h : lf ∉ value) : injected value = [] := by
  rw [injected, lines_append_lf h]
  rfl

theorem line_split (key value : Bytes) : line ⟨key, value⟩ ++ [lf] =
    (line ⟨key, firstLine value⟩ :: injected value).flatMap (fun l => l ++ [lf]) := by
  have h := unlines_value value
  rw [lines_value] at h
  simp only [List.flatMap_cons, List.append_assoc] at h ⊢
  simp only [line, List.append_assoc, h]

def assigned (ls : List Bytes) : Header := ls.foldl parseLine {}

theorem lookup_foldl_append (ls : List Bytes) (h : Header) (key : Bytes) :
    (ls.foldl parseLine h).fields.lookup key =
      ((assigned ls).fields.lookup key).or (h.fields.lookup key) := by
  induction ls using List.reverseRecOn with
  | nil => simp [assigned]
  | append_singleton ls l ih =>
    simp only [assigned, List.foldl_append, List.foldl_cons, List.foldl_nil] at ih ⊢
    unfold parseLine
    cases hf : fieldOf l with
    | none => exact ih
    | some f =>
      by_cases hk : key = f.1
      · subst hk
        simp
      · simp only [lookup_set_ne _ _ hk]
        exact ih

theorem assigned_append (ls ls' : List Bytes) (key : Bytes) :
    (assigned (ls ++ ls')).fields.lookup key =
      ((assigned ls').fields.lookup key).or ((assigned ls).fields.lookup key) := by
  rw [assigned, List.foldl_append, lookup_foldl_append]
  rfl

section
variable {h : Header} {key value : Bytes} (hkey : keyOk key = true)
  (hw : ∀ k v, h.fields.lookup k = some v → k = key ∧ v = value ∨ k ≠ key ∧ keyOk k = true ∧ lf ∉ v)
  {fs gs : List Field} (hp : (fs ++ ⟨key, value⟩ :: gs).Perm h.fields.entries)
include hkey hw hp

def writtenLines (key value : Bytes) (fs gs : List Field) : List Bytes :=
  fs.map line ++ (line ⟨key, firstLine value⟩ :: injected value) ++ gs.map line

omit hkey hw hp in
theorem text_eq (key value : Bytes) (fs gs : List Field) :
    (fs ++ ⟨key, value⟩ :: gs).flatMap (fun f => line f ++ [lf]) =
      (writtenLines key value fs gs).flatMap fun l => l ++ [lf] := by
  conv_rhs => rw [writtenLines, List.flatMap_append, List.flatMap_append, ← line_split,
    List.flatMap_map, List.flatMap_map, List.append_assoc]
  rw [List.flatMap_append, List.flatMap_cons]

omit hkey in
theorem other_fields : ∀ f ∈ fs ++ gs, f.1 ≠ key ∧ keyOk f.1 = true ∧ lf ∉ f.2 := by
  intro f hf
  have hnodup : (fs ++ ⟨key, value⟩ :: gs).NodupKeys :=
    (List.perm_nodupKeys hp).mpr h.fields.nodupKeys
  have hkeys := List.nodupKeys_middle.mp hnodup
  have hne : f.1 ≠ key := by
    intro he
    have hmem := List.mem_keys_of_mem hf
    rw [he] at hmem
    exact (List.nodupKeys_cons.mp hkeys).1 hmem
  have hmem : f ∈ h.fields.entries := by
    refine hp.mem_iff.mp ?_
    simp only [List.mem_append, List.mem_cons] at hf ⊢
    rcases hf with hf | hf
    · exact .inl hf
    · exact .inr (.inr hf)
  rcases hw f.1 f.2 (List.mem_dlookup h.fields.nodupKeys hmem) with ⟨he, -⟩ | hothers
  · exact absurd he hne
  · exact hothers

theorem lineOk_written (hin : ∀ l ∈ injected value, ∃ c ∈ l, c ≠ cr) :
    ∀ l ∈ writtenLines key value fs gs, LineOk l := by
  intro l hl
  have hothers := other_fields hw hp
  simp only [writtenLines, List.mem_append, List.mem_cons, List.mem_map] at hl hothers
  rcases hl with (⟨f, hf, rfl⟩ | rfl | hl) | ⟨f, hf, rfl⟩
  · obtain ⟨-, hk, hv⟩ := hothers f (.inl hf)
    exact lineOk_line hk hv
  · exact lineOk_line hkey (lf_not_mem_firstLine value)
  · exact ⟨lf_not_mem_injected hl, hin l hl⟩
  · obtain ⟨-, hk, hv⟩ := hothers f (.inr hf)
    exact lineOk_line hk hv

theorem assigned_written {k : Bytes} (hk : k ≠ key) :
    (assigned (writtenLines key value fs gs)).fields.lookup k =
      ((gs.dlookup k).map trim).or
        (((assigned (injected value)).fields.lookup k).or ((fs.dlookup k).map trim)) := by
  have hnodup : (fs ++ ⟨key, value⟩ :: gs).NodupKeys :=
    (List.perm_nodupKeys hp).mpr h.fields.nodupKeys
  have hfg : (fs ++ gs).NodupKeys := (List.nodupKeys_cons.mp (List.nodupKeys_middle.mp hnodup)).2
  have hothers := other_fields hw hp
  have hfs : (assigned (fs.map line)).fields.lookup k = (fs.dlookup k).map trim := by
    rw [assigned, lookup_foldl_parseLine (fun f hf => (hothers f (by simp [hf])).2.1)
      (hfg.sublist (List.sublist_append_left fs gs))]
    cases fs.dlookup k <;> simp
  have hgs : (assigned (gs.map line)).fields.lookup k = (gs.dlookup k).map trim := by
    rw [assigned, lookup_foldl_parseLine (fun f hf => (hothers f (by simp [hf])).2.1)
      (hfg.sublist (List.sublist_append_right fs gs))]
    cases gs.dlookup k <;> simp
  have hfirst : (assigned [line ⟨key, firstLine value⟩]).fields.lookup k = none := by
    have hfield : fieldOf (line ⟨key, firstLine value⟩) = some ⟨key, trim (firstLine value)⟩ :=
      fieldOf_line hkey
    simp [assigned, parseLine, hfield, lookup_set_ne _ _ hk]
  rw [writtenLines, assigned_append, assigned_append, hgs, hfs, ← List.singleton_append,
    assigned_append, hfirst, Option.or_none]

theorem lookup_written {k v : Bytes} (hk : k ≠ key) (hv : h.fields.lookup k = some v)
    (hin : ∀ u, (assigned (injected value)).fields.lookup k = some u → u = trim v) :
    (assigned (writtenLines key value fs gs)).fields.lookup k = some (trim v) := by
  have hnodup : (fs ++ ⟨key, value⟩ :: gs).NodupKeys :=
    (List.perm_nodupKeys hp).mpr h.fields.nodupKeys
  have hlookup : (fs ++ ⟨key, value⟩ :: gs).dlookup k = h.fields.lookup k :=
    List.perm_dlookup k hnodup hp
  rw [List.dlookup_append, List.dlookup_cons_ne _ _ hk, hv] at hlookup
  have hgs : ∀ u, gs.dlookup k = some u → u = v := by
    intro u hu
    have hmem : (⟨k, u⟩ : Field) ∈ fs ++ ⟨key, value⟩ :: gs := by
      simp [List.of_mem_dlookup hu]
    have hu' := List.mem_dlookup h.fields.nodupKeys (hp.mem_iff.mp hmem)
    exact Option.some.inj (hu'.symm.trans hv)
  rw [assigned_written hkey hw hp hk]
  cases hg : gs.dlookup k with
  | some u => simp [hgs u hg]
  | none =>
    rw [hg, Option.or_none] at hlookup
    cases hinj : (assigned (injected value)).fields.lookup k with
    | none => simp [hlookup]
    | some u => simp [hin u hinj]

theorem read_written (hin : ∀ l ∈ injected value, ∃ c ∈ l, c ≠ cr) {max : Nat} (rest : Bytes)
    (hmax : ((writtenLines key value fs gs).flatMap (fun l => l ++ [lf]) ++ [lf]).length < max) :
    read max ((writtenLines key value fs gs).flatMap (fun l => l ++ [lf]) ++ [lf] ++ rest) =
      some (assigned (writtenLines key value fs gs), rest) := by
  have hok := lineOk_written hkey hw hp hin
  rw [read, readText_lines hok (by simp [writtenLines]), if_pos hmax, Option.map_some,
    parse_lines hok]
  rfl

/-- A line of carriage returns ends the header, and the rest of the text goes to
what reads next. -/
theorem read_cut {ls ls' : List Bytes} {b : Bytes} (hb : ∀ c ∈ b, c = cr)
    (hinj : injected value = ls ++ b :: ls') (hin : ∀ l ∈ ls, ∃ c ∈ l, c ≠ cr) {max : Nat}
    (rest : Bytes)
    (hmax : ((writtenLines key value fs gs).flatMap (fun l => l ++ [lf]) ++ [lf]).length < max) :
    ∃ h' tail, tail ≠ [] ∧
      read max ((writtenLines key value fs gs).flatMap (fun l => l ++ [lf]) ++ [lf] ++ rest) =
        some (h', tail ++ rest) := by
  let front := fs.map line ++ line ⟨key, firstLine value⟩ :: ls
  let tail := (ls' ++ gs.map line).flatMap (fun l => l ++ [lf]) ++ [lf]
  have hfront : ∀ l ∈ front, LineOk l := by
    intro l hl
    have hothers := other_fields hw hp
    simp only [front, List.mem_append, List.mem_cons, List.mem_map] at hl hothers
    rcases hl with ⟨f, hf, rfl⟩ | rfl | hl
    · obtain ⟨-, hk, hv⟩ := hothers f (.inl hf)
      exact lineOk_line hk hv
    · exact lineOk_line hkey (lf_not_mem_firstLine value)
    · exact ⟨lf_not_mem_injected (by rw [hinj]; simp [hl]), hin l hl⟩
  have htext : (writtenLines key value fs gs).flatMap (fun l => l ++ [lf]) ++ [lf] =
      front.flatMap (fun l => l ++ [lf]) ++ (b ++ lf :: tail) := by
    simp [writtenLines, hinj, front, tail]
  rw [htext] at hmax ⊢
  obtain ⟨n, hn⟩ : ∃ n, max = n + 1 + (b.length + 1) + (front.flatMap fun l => l ++ [lf]).length := by
    have htail : 0 < tail.length := by simp [tail]
    simp only [List.length_append, List.length_cons] at hmax
    exact ⟨max - (1 + (b.length + 1) + (front.flatMap fun l => l ++ [lf]).length), by omega⟩
  have hread : readText max false (front.flatMap (fun l => l ++ [lf]) ++ (b ++ lf :: tail) ++ rest) =
      some (front.flatMap (fun l => l ++ [lf]) ++ (b ++ [lf]), tail ++ rest) := by
    rw [hn, List.append_assoc, readText_front hfront _ (by simp [front]), List.append_assoc,
      List.cons_append, readText_blank hb]
    rfl
  exact ⟨_, tail, by simp [tail], by rw [read, hread]; rfl⟩

end

end EncoderNext.Header

namespace EncoderNext.ClientCore

open Header

variable (cfg : ClientConfig) (p : EncryptParams) (data : Bytes)

/-! ## The fields of the request -/

theorem lookup_request (k : Bytes) : (encryptRequest cfg p data).fields.lookup k =
    if k = bytes "file_size" then some (decimal data.length)
    else if k = bytes "file_name" then some (fileName p.filePath)
    else if k = bytes "key_storage" then some (keyStorageOf cfg p).1
    else if k = bytes "hash" then some (CryptoEngine.hashToString p.hash)
    else if k = bytes "cipher" then some (CryptoEngine.cipherToString p.cipher)
    else if k = bytes "client_host" then some cfg.hostLabel.1
    else if k = bytes "client_id" then some cfg.clientId.1
    else if k = bytes "password" then some p.password.1
    else if k = bytes "username" then some p.username.1
    else if k = bytes "op" then some (bytes "encrypt")
    else none := by
  simp only [encryptRequest, lookup_set]
  rfl

theorem lookup_fileName : (encryptRequest cfg p data).fields.lookup (bytes "file_name") =
    some (fileName p.filePath) := by
  rw [lookup_request, if_neg (by decide), if_pos rfl]

theorem lookup_request_path (path : Bytes) {k : Bytes} (hk : k ≠ bytes "file_name") :
    (encryptRequest cfg { p with filePath := path } data).fields.lookup k =
      (encryptRequest cfg p data).fields.lookup k := by
  simp only [lookup_request, if_neg hk, keyStorageOf]

theorem protected_ne : ∀ k ∈ protectedKeys, k ≠ bytes "file_name" := by decide

theorem protected_some : ∀ k ∈ protectedKeys,
    ∃ v, (encryptRequest cfg p data).fields.lookup k = some v := by
  intro k hk
  simp only [protectedKeys, List.mem_cons, List.not_mem_nil, or_false] at hk
  rcases hk with rfl | rfl | rfl | rfl | rfl | rfl | rfl | rfl <;>
    exact ⟨_, by rw [lookup_request]; rfl⟩

theorem lf_not_blank {s : Bytes} (h : s.all (fun c => !isBlank c) = true) : lf ∉ s := by
  intro hm
  exact absurd (List.all_eq_true.mp h lf hm) (by decide)

theorem fields_request (k v : Bytes) (h : (encryptRequest cfg p data).fields.lookup k = some v) :
    k = bytes "file_name" ∧ v = fileName p.filePath ∨
      k ≠ bytes "file_name" ∧ keyOk k = true ∧ lf ∉ v := by
  have hsize : lf ∉ decimal data.length := not_numeral rfl (decimal_numeral _)
  have hcipher : lf ∉ CryptoEngine.cipherToString p.cipher :=
    lf_not_blank (CryptoEngine.cipherToString_spec p.cipher).2.1
  have hhash : lf ∉ CryptoEngine.hashToString p.hash := by
    intro hm
    exact absurd (List.all_eq_true.mp (CryptoEngine.hashToString_spec p.hash).2.1 lf hm) (by decide)
  have hother : ∀ {key u : Bytes}, keyOk key = true → lf ∉ u → k = key → ¬ k = bytes "file_name" →
      some u = some v → k ≠ bytes "file_name" ∧ keyOk k = true ∧ lf ∉ v := by
    rintro key u hkey hu rfl hne hv
    cases hv
    exact ⟨hne, hkey, hu⟩
  by_cases hname : k = bytes "file_name"
  · subst hname
    rw [lookup_fileName] at h
    exact .inl ⟨rfl, (Option.some.inj h).symm⟩
  · rw [lookup_request] at h
    refine .inr ?_
    split_ifs at h with h₁ h₃ h₄ h₅ h₆ h₇ h₈ h₉ h₁₀
    · exact hother (by decide) hsize h₁ hname h
    · exact hother (by decide) (keyStorageOf cfg p).2 h₃ hname h
    · exact hother (by decide) hhash h₄ hname h
    · exact hother (by decide) hcipher h₅ hname h
    · exact hother (by decide) cfg.hostLabel.2 h₆ hname h
    · exact hother (by decide) cfg.clientId.2 h₇ hname h
    · exact hother (by decide) p.password.2 h₈ hname h
    · exact hother (by decide) p.username.2 h₉ hname h
    · exact hother (by decide) (by decide) h₁₀ hname h

/-! ## What the server receives -/

def Fits (it : Iteration) (max : Nat) : Prop :=
  ((encryptRequest cfg p data).serialize it).length < max

def received (it : Iteration) (max : Nat) : Option (List (Option Bytes) × Bytes) :=
  (Header.read max ((encryptRequest cfg p data).serialize it ++ data)).map fun r =>
    (protectedKeys.map fun k => r.1.fields.lookup k, r.2)

def meant : List (Option Bytes) × Bytes :=
  (protectedKeys.map fun k => ((encryptRequest cfg p data).fields.lookup k).map trim, data)

/-- No line of the name but its first ends the header or gives a protected field
another value. -/
def Harmless : Prop :=
  (∀ l ∈ injected (fileName p.filePath), ∃ c ∈ l, c ≠ cr) ∧
  ∀ k ∈ protectedKeys, ∀ u, (assigned (injected (fileName p.filePath))).fields.lookup k = some u →
    some u = ((encryptRequest cfg p data).fields.lookup k).map trim

theorem meant_path (path : Bytes) : meant cfg { p with filePath := path } data = meant cfg p data := by
  have hfields : ∀ k ∈ protectedKeys,
      ((encryptRequest cfg { p with filePath := path } data).fields.lookup k).map trim =
        ((encryptRequest cfg p data).fields.lookup k).map trim := fun k hk => by
    rw [lookup_request_path cfg p data path (protected_ne k hk)]
  rw [meant, meant, List.map_congr_left hfields]

theorem order_split (it : Iteration) : ∃ fs gs : List Field,
    it.order (encryptRequest cfg p data).fields.entries =
      fs ++ ⟨bytes "file_name", fileName p.filePath⟩ :: gs := by
  have hmem := (it.perm _).mem_iff.mpr (List.of_mem_dlookup (lookup_fileName cfg p data))
  exact List.append_of_mem hmem

theorem serialize_split {it : Iteration} {fs gs : List Field}
    (h : it.order (encryptRequest cfg p data).fields.entries =
      fs ++ ⟨bytes "file_name", fileName p.filePath⟩ :: gs) :
    (encryptRequest cfg p data).serialize it =
      (writtenLines (bytes "file_name") (fileName p.filePath) fs gs).flatMap (fun l => l ++ [lf]) ++
        [lf] := by
  rw [serialize, h, text_eq]

theorem perm_split {it : Iteration} {fs gs : List Field}
    (h : it.order (encryptRequest cfg p data).fields.entries =
      fs ++ ⟨bytes "file_name", fileName p.filePath⟩ :: gs) :
    (fs ++ ⟨bytes "file_name", fileName p.filePath⟩ :: gs).Perm
      (encryptRequest cfg p data).fields.entries :=
  h ▸ it.perm _

theorem received_harmless (hh : Harmless cfg p data) (it : Iteration) {max : Nat}
    (hfits : Fits cfg p data it max) : received cfg p data it max = some (meant cfg p data) := by
  obtain ⟨fs, gs, hsplit⟩ := order_split cfg p data it
  have hperm := perm_split cfg p data hsplit
  have htext := serialize_split cfg p data hsplit
  rw [Fits, htext] at hfits
  have hread := read_written rfl (fields_request cfg p data) hperm hh.1 data hfits
  rw [received, htext, hread, meant, Option.map_some]
  congr 2
  refine List.map_congr_left fun k hk => ?_
  obtain ⟨v, hv⟩ := protected_some cfg p data k hk
  rw [hv, Option.map_some]
  refine lookup_written rfl (fields_request cfg p data) hperm (protected_ne k hk) hv fun u hu => ?_
  have hu' := hh.2 k hk u hu
  rw [hv] at hu'
  exact Option.some.inj hu'

/-! ## Names that do harm -/

def lastOf (name : Bytes) : Iteration where
  order l := l.filter (fun f => f.1 != name) ++ l.filter fun f => !(f.1 != name)
  perm l := List.filter_append_perm (fun f => f.1 != name) l

theorem filter_nodupKeys {l : List Field} {f : Field} (hl : l.NodupKeys) (hf : f ∈ l) :
    (l.filter fun g => !(g.1 != f.1)) = [f] := by
  obtain ⟨front, back, rfl⟩ := List.append_of_mem hf
  have hkeys := (List.nodupKeys_cons.mp (List.nodupKeys_middle.mp hl)).1
  have hnone : ∀ {part : List Field}, (∀ g ∈ part, g ∈ front ++ back) →
      (part.filter fun g => !(g.1 != f.1)) = [] := by
    intro part hpart
    rw [List.filter_eq_nil_iff]
    intro g hg heq
    have he : g.1 = f.1 := by simpa using heq
    have hmem := List.mem_keys_of_mem (hpart g hg)
    rw [he] at hmem
    exact hkeys hmem
  rw [List.filter_append, hnone fun g hg => by simp [hg],
    List.filter_cons_of_pos (by simp), hnone fun g hg => by simp [hg]]
  rfl

theorem order_lastOf : ∃ fs : List Field,
    (lastOf (bytes "file_name")).order (encryptRequest cfg p data).fields.entries =
      fs ++ [⟨bytes "file_name", fileName p.filePath⟩] := by
  have hlast := filter_nodupKeys (encryptRequest cfg p data).fields.nodupKeys
    (List.of_mem_dlookup (lookup_fileName cfg p data))
  exact ⟨(encryptRequest cfg p data).fields.entries.filter fun f => f.1 != bytes "file_name",
    by rw [← hlast]; rfl⟩

theorem exists_blank {ls : List Bytes} (h : ¬ ∀ l ∈ ls, ∃ c ∈ l, c ≠ cr) :
    ∃ front b back, ls = front ++ b :: back ∧ (∀ c ∈ b, c = cr) ∧
      ∀ l ∈ front, ∃ c ∈ l, c ≠ cr := by
  induction ls with
  | nil => exact absurd (by simp) h
  | cons l ls ih =>
    by_cases hl : ∃ c ∈ l, c ≠ cr
    · have hrest : ¬ ∀ l ∈ ls, ∃ c ∈ l, c ≠ cr := fun hall => h (by
        intro l' hl'
        rcases List.mem_cons.mp hl' with rfl | hl'
        · exact hl
        · exact hall l' hl')
      obtain ⟨front, b, back, rfl, hb, hfront⟩ := ih hrest
      refine ⟨l :: front, b, back, rfl, hb, fun l' hl' => ?_⟩
      rcases List.mem_cons.mp hl' with rfl | hl'
      · exact hl
      · exact hfront l' hl'
    · refine ⟨[], l, ls, rfl, fun c hc => ?_, by simp⟩
      by_contra hne
      exact hl ⟨c, hc, hne⟩

theorem received_blank (hblank : ¬ ∀ l ∈ injected (fileName p.filePath), ∃ c ∈ l, c ≠ cr)
    (it : Iteration) {max : Nat} (hfits : Fits cfg p data it max) :
    received cfg p data it max ≠ some (meant cfg p data) := by
  intro hmeant
  obtain ⟨fs, gs, hsplit⟩ := order_split cfg p data it
  have hperm := perm_split cfg p data hsplit
  have htext := serialize_split cfg p data hsplit
  rw [Fits, htext] at hfits
  obtain ⟨front, b, back, hinj, hb, hfront⟩ := exists_blank hblank
  obtain ⟨h', tail, htail, hread⟩ := read_cut rfl (fields_request cfg p data) hperm hb hinj hfront
    data hfits
  rw [received, htext, hread, meant, Option.map_some, Option.some.injEq, Prod.mk.injEq] at hmeant
  exact htail (List.append_left_eq_self.mp hmeant.2)

theorem received_harmful (hh : ¬ Harmless cfg p data) : ∃ it : Iteration, ∀ max,
    Fits cfg p data it max → received cfg p data it max ≠ some (meant cfg p data) := by
  by_cases hblank : ∀ l ∈ injected (fileName p.filePath), ∃ c ∈ l, c ≠ cr
  · refine ⟨lastOf (bytes "file_name"), fun max hfits hmeant => ?_⟩
    obtain ⟨fs, hsplit⟩ := order_lastOf cfg p data
    have hperm := perm_split cfg p data hsplit
    have htext := serialize_split cfg p data hsplit
    rw [Fits, htext] at hfits
    rw [received, htext, meant, read_written rfl (fields_request cfg p data) hperm hblank data hfits,
      Option.map_some, Option.some.injEq, Prod.mk.injEq, List.map_inj_left] at hmeant
    refine hh ⟨hblank, fun k hk u hu => ?_⟩
    rw [← hmeant.1 k hk, assigned_written rfl (fields_request cfg p data) hperm (protected_ne k hk),
      hu]
    rfl
  · exact ⟨.stored, fun max hfits => received_blank cfg p data hblank .stored hfits⟩

def SameRequest (q : EncryptParams) : Prop :=
  ∀ it it' max, Fits cfg p data it max → Fits cfg q data it' max →
    received cfg p data it max = received cfg q data it' max

theorem harmless_of_line (h : lf ∉ fileName p.filePath) : Harmless cfg p data := by
  rw [Harmless, injected_of_line h]
  exact ⟨by simp, fun k _ u hu => by simp [assigned] at hu⟩

/-- **When a file name leaves the request alone.** Against every name without a line
feed, a name makes the same request exactly when none of its further lines ends the
header or gives a protected field another value; and any two such names make the same
request. -/
theorem file_name_inert_iff :
    ((∀ path, lf ∉ fileName path → SameRequest cfg p data { p with filePath := path }) ↔
      Harmless cfg p data) ∧
    ∀ path, Harmless cfg p data → Harmless cfg { p with filePath := path } data →
      SameRequest cfg p data { p with filePath := path } := by
  have hboth : ∀ path, Harmless cfg p data → Harmless cfg { p with filePath := path } data →
      SameRequest cfg p data { p with filePath := path } := by
    intro path hp hq it it' max hfits hfits'
    rw [received_harmless cfg p data hp it hfits, received_harmless cfg _ data hq it' hfits',
      meant_path cfg p data path]
  refine ⟨⟨fun hsame => ?_, fun hh path hpath => ?_⟩, hboth⟩
  · by_contra hharm
    obtain ⟨it, hbad⟩ := received_harmful cfg p data hharm
    have hline : lf ∉ fileName (bytes "a") := by decide
    have hplain := harmless_of_line cfg { p with filePath := bytes "a" } data hline
    let max := ((encryptRequest cfg p data).serialize it).length +
      ((encryptRequest cfg { p with filePath := bytes "a" } data).serialize .stored).length + 1
    have hfits : Fits cfg p data it max := by
      simp only [Fits, max]
      omega
    have hfits' : Fits cfg { p with filePath := bytes "a" } data .stored max := by
      simp only [Fits, max]
      omega
    refine hbad max hfits ?_
    rw [hsame (bytes "a") hline it .stored max hfits hfits',
      received_harmless cfg _ data hplain .stored hfits', meant_path]
  · exact hboth path hh (harmless_of_line cfg _ data hpath)

/-! ## Two names -/

def sampleConfig : ClientConfig where
  defaultKeyStorage := ⟨bytes "server", by decide⟩
  clientId := ⟨bytes "c0ffee", by decide⟩
  hostLabel := ⟨bytes "desk", by decide⟩

def sampleParams (path : Bytes) : EncryptParams where
  username := ⟨bytes "bob", by decide⟩
  password := ⟨bytes "secret", by decide⟩
  filePath := path
  cipher := .aes256Gcm
  hash := .sha256
  keyStorage := Line.empty

theorem file_name_inert_twoLines :
    SameRequest sampleConfig (sampleParams (bytes "home/a.txt")) [1, 2, 3]
      (sampleParams (bytes "home/b\nc.txt")) := by
  have hplain : Harmless sampleConfig (sampleParams (bytes "home/a.txt")) [1, 2, 3] :=
    harmless_of_line _ _ _ (by decide)
  have htwo : Harmless sampleConfig (sampleParams (bytes "home/b\nc.txt")) [1, 2, 3] := by
    have hinj : injected (fileName (bytes "home/b\nc.txt")) = [bytes "c.txt"] := by decide
    have hnone : assigned [bytes "c.txt"] = {} := rfl
    refine ⟨?_, fun k _ u hu => ?_⟩
    · show ∀ l ∈ injected (fileName (bytes "home/b\nc.txt")), _
      rw [hinj]
      decide
    · change (assigned (injected (fileName (bytes "home/b\nc.txt")))).fields.lookup k = some u at hu
      rw [hinj, hnone] at hu
      simp at hu
  exact (file_name_inert_iff sampleConfig (sampleParams (bytes "home/a.txt")) [1, 2, 3]).2
    (bytes "home/b\nc.txt") hplain htwo

/-- An empty second line ends the header in every order, so what is left of it becomes payload. -/
theorem file_name_ends_header : ∃ path, ∀ it it' : Iteration,
    (∃ max, Fits sampleConfig (sampleParams (bytes "home/a.txt")) [1, 2, 3] it max ∧
      Fits sampleConfig (sampleParams path) [1, 2, 3] it' max) ∧
    ∀ max, Fits sampleConfig (sampleParams (bytes "home/a.txt")) [1, 2, 3] it max →
      Fits sampleConfig (sampleParams path) [1, 2, 3] it' max →
      received sampleConfig (sampleParams (bytes "home/a.txt")) [1, 2, 3] it max ≠
        received sampleConfig (sampleParams path) [1, 2, 3] it' max := by
  refine ⟨bytes "home/a\n\nb", fun it it' => ⟨?_, fun max hfits hfits' hsame => ?_⟩⟩
  · refine ⟨((encryptRequest sampleConfig (sampleParams (bytes "home/a.txt")) [1, 2, 3]).serialize it).length +
      ((encryptRequest sampleConfig (sampleParams (bytes "home/a\n\nb")) [1, 2, 3]).serialize it').length + 1,
      ?_, ?_⟩ <;> (simp only [Fits]; omega)
  · have hplain : Harmless sampleConfig (sampleParams (bytes "home/a.txt")) [1, 2, 3] :=
      harmless_of_line _ _ _ (by decide)
    have hblank : ¬ ∀ l ∈ injected (fileName (sampleParams (bytes "home/a\n\nb")).filePath),
        ∃ c ∈ l, c ≠ cr := by decide
    refine received_blank sampleConfig (sampleParams (bytes "home/a\n\nb")) [1, 2, 3] hblank it' hfits' ?_
    rw [← hsame, received_harmless _ _ _ hplain it hfits]
    exact congrArg some (meant_path sampleConfig (sampleParams (bytes "home/a\n\nb")) [1, 2, 3]
      (bytes "home/a.txt"))

end EncoderNext.ClientCore
