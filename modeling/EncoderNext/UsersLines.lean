import EncoderNext.UsersFile

/-!
# What a line of the accounts' file decides

The last record of a name is the one that is loaded. The file is cut by
`std::getline`, which gives no field after a separator at the end: a mask that was
cut off there passes for a line without one. A carriage return is taken from the
block and from the mask but not from the hash.
-/

namespace EncoderNext

/-! ## Parts and fields -/

/-- `std::getline` gives all fields of a text but an empty one at the end. -/
theorem parts_splitOn (d : UInt8) (s : Bytes) : parts d s =
    if (s.splitOn d).getLast? = some [] then (s.splitOn d).dropLast else s.splitOn d := by
  induction s with
  | nil => simp [parts, List.splitOn_nil]
  | cons c s ih =>
    obtain ⟨f, fs, hfs⟩ := List.exists_cons_of_ne_nil (List.splitOn_ne_nil d s)
    rw [parts, List.splitOn_cons_eq_if_modifyHead, ih, hfs]
    by_cases hc : c = d
    · simp only [hc, if_true, beq_self_eq_true, List.getLast?_cons_cons, List.dropLast_cons_cons]
      split <;> rfl
    simp only [hc, if_false, beq_eq_false_iff_ne.mpr hc, Bool.false_eq_true, List.modifyHead_cons]
    cases fs with
    | nil => cases f <;> simp
    | cons g fs => by_cases hlast : (g :: fs).getLast? = some [] <;> simp [hlast]

theorem length_splitOn (d : UInt8) (s : Bytes) : (s.splitOn d).length = s.count d + 1 := by
  induction s with
  | nil => simp [List.splitOn_nil]
  | cons c s ih =>
    rw [List.splitOn_cons_eq_if_modifyHead, List.count_cons]
    split <;> simp [ih]

theorem getLast_splitOn (d : UInt8) (s : Bytes) :
    (s.splitOn d).getLast? = some [] ↔ s = [] ∨ s.getLast? = some d := by
  induction s with
  | nil => simp [List.splitOn_nil]
  | cons c s ih =>
    obtain ⟨f, fs, hfs⟩ := List.exists_cons_of_ne_nil (List.splitOn_ne_nil d s)
    rw [List.splitOn_cons_eq_if_modifyHead, hfs]
    rw [hfs] at ih
    cases s with
    | nil =>
      rw [List.splitOn_nil] at hfs
      cases hfs
      by_cases hc : c = d <;> simp [hc]
    | cons e s =>
      rw [List.getLast?_cons_cons]
      by_cases hc : c = d
      · simpa [hc, List.getLast?_cons_cons] using ih
      cases fs with
      | nil =>
        have hf : f = e :: s := by
          have hjoin : [d].intercalate ((e :: s).splitOn d) = e :: s := List.intercalate_splitOn d
          simpa [hfs] using hjoin
        have hlast : (e :: s).getLast? ≠ some d := by
          intro h
          simp [hf] at ih
          exact ih h
        simp [hc, hlast]
      | cons g fs => simpa [hc, List.getLast?_cons_cons] using ih

namespace UserStore

/-! ## The deciding line -/

def recordWith (username saltHex hashHex : Bytes) (rest : List Bytes) : UserRecord :=
  { username := username, saltHex := saltHex, hashHex := hashHex
    blocked := match rest with
      | [] => false
      | blocked :: _ => dropCr blocked != bytes "0"
    permissions := match rest with
      | _ :: permissions :: _ => readPermissions (dropCr permissions)
      | _ => 3 }

def recordOf (line : Bytes) : Option UserRecord :=
  if line.head? = some (byte '#') then none
  else
    match parts (byte ':') line with
    | username :: saltHex :: hashHex :: rest => some (recordWith username saltHex hashHex rest)
    | _ => none

theorem recordOf_some {line : Bytes} {rec : UserRecord} (h : recordOf line = some rec) :
    ∃ rest, parts (byte ':') line = rec.username :: rec.saltHex :: rec.hashHex :: rest ∧
      rec.permissions = match rest with
        | _ :: permissions :: _ => readPermissions (dropCr permissions)
        | _ => 3 := by
  unfold recordOf at h
  split at h
  · cases h
  split at h
  · rename_i rest hparts
    cases h
    exact ⟨rest, hparts, rfl⟩
  · cases h

theorem loadLine_recordOf (users : UserStore) (line : Bytes) : loadLine users line =
    match recordOf line with
    | none => users
    | some rec => users.insert rec.username rec := by
  unfold loadLine recordOf
  by_cases hc : line.head? = some (byte '#')
  · rw [if_pos hc, if_pos hc]
  rw [if_neg hc, if_neg hc]
  match parts (byte ':') line with
  | [] => rfl
  | [_] => rfl
  | [_, _] => rfl
  | _ :: _ :: _ :: _ => rfl

def recordNamed (name line : Bytes) : Option UserRecord :=
  (recordOf line).filter fun rec => rec.username == name

theorem lookup_loadLine (users : UserStore) (name line : Bytes) :
    (loadLine users line).lookup name = (recordNamed name line).or (users.lookup name) := by
  rw [loadLine_recordOf, recordNamed]
  cases hr : recordOf line with
  | none => rfl
  | some rec =>
    by_cases hn : rec.username = name
    · subst hn
      simp [Option.filter]
    · simp [Option.filter, hn, AList.lookup_insert_ne (Ne.symm hn)]

structure Decides (ls : List Bytes) (name line : Bytes) (after : List Bytes) : Prop where
  place : ∃ before, ls = before ++ line :: after
  named : (recordNamed name line).isSome = true
  last : ∀ l ∈ after, recordNamed name l = none

theorem lookup_skipped {name : Bytes} {ls : List Bytes} (h : ∀ l ∈ ls, recordNamed name l = none)
    (users : UserStore) : (ls.foldl loadLine users).lookup name = users.lookup name := by
  induction ls generalizing users with
  | nil => rfl
  | cons l ls ih =>
    rw [List.foldl_cons, ih fun l hl => h l (List.mem_cons_of_mem _ hl), lookup_loadLine,
      h l (by simp), Option.none_or]

theorem lookup_decides {name line : Bytes} {ls after : List Bytes} (h : Decides ls name line after)
    (users : UserStore) : (ls.foldl loadLine users).lookup name = recordNamed name line := by
  obtain ⟨⟨before, rfl⟩, hnamed, hlast⟩ := h
  rw [List.foldl_append, List.foldl_cons, lookup_skipped hlast, lookup_loadLine,
    Option.or_of_isSome hnamed]

theorem decides_unique {name line line' : Bytes} {ls after after' : List Bytes}
    (h : Decides ls name line after) (h' : Decides ls name line' after') :
    line = line' ∧ after = after' := by
  obtain ⟨⟨before, rfl⟩, hnamed, hlast⟩ := h
  obtain ⟨⟨before', heq⟩, hnamed', hlast'⟩ := h'
  rcases List.append_eq_append_iff.mp heq with ⟨ls, -, hls⟩ | ⟨ls, -, hls⟩
  · cases ls with
    | nil => exact List.cons.inj hls
    | cons l ls =>
      have hmem : line' ∈ after := by simp [(List.cons.inj hls).2]
      rw [hlast line' hmem] at hnamed'
      cases hnamed'
  · cases ls with
    | nil => exact ⟨(List.cons.inj hls).1.symm, (List.cons.inj hls).2.symm⟩
    | cons l ls =>
      have hmem : line ∈ after' := by simp [(List.cons.inj hls).2]
      rw [hlast' line hmem] at hnamed
      cases hnamed

theorem decides_or_skipped (ls : List Bytes) (name : Bytes) :
    (∃ line after, Decides ls name line after) ∨ ∀ l ∈ ls, recordNamed name l = none := by
  induction ls with
  | nil => exact .inr (by simp)
  | cons l ls ih =>
    rcases ih with ⟨line, after, ⟨before, rfl⟩, hnamed, hlast⟩ | hnone
    · exact .inl ⟨line, after, ⟨l :: before, rfl⟩, hnamed, hlast⟩
    cases hl : recordNamed name l with
    | none => exact .inr (by simpa [hl] using hnone)
    | some rec => exact .inl ⟨l, ls, ⟨[], rfl⟩, by simp [hl], hnone⟩

/-! ## The mask -/

/-- What the documentation makes of a mask. -/
def documentedMask (field : Bytes) : UInt32 :=
  if field = bytes "1" then 1
  else if field = bytes "2" then 2
  else if field = bytes "3" then 3
  else 0

/-- The permissions that the documentation promises: those of the fifth field, where
there is one, and all of them elsewhere. -/
def documentedPermissions (line : Bytes) : UInt32 :=
  match line.splitOn (byte ':') with
  | _ :: _ :: _ :: _ :: mask :: _ => documentedMask (dropCr mask)
  | _ => 3

theorem readPermissions_documented (s : Bytes) : readPermissions s = documentedMask s := by
  match s with
  | [] => rfl
  | [c] =>
    revert c
    refine forall_byte ?_
    decide +kernel
  | a :: b :: s => simp [readPermissions, documentedMask, bytes]

def MaskCutOff (line : Bytes) : Prop :=
  line.count (byte ':') = 4 ∧ line.getLast? = some (byte ':')

theorem record_permissions {line : Bytes} {rec : UserRecord} (h : recordOf line = some rec) :
    rec.permissions = documentedPermissions line ↔ ¬MaskCutOff line := by
  obtain ⟨rest, hparts, hrec⟩ := recordOf_some h
  have hcount := length_splitOn (byte ':') line
  have hlast := getLast_splitOn (byte ':') line
  have hne : line ≠ [] := by
    rintro rfl
    cases hparts
  simp only [hne, false_or] at hlast
  rw [parts_splitOn] at hparts
  rw [hrec, documentedPermissions, MaskCutOff]
  by_cases hcut : line.getLast? = some (byte ':')
  · -- the last field is empty and was not read
    rw [if_pos (hlast.mpr hcut)] at hparts
    have hfields := List.dropLast_append_getLast? [] (hlast.mpr hcut)
    rw [hparts] at hfields
    rw [← hfields] at hcount ⊢
    cases rest with
    | nil =>
      have hthree : line.count (byte ':') = 3 := Nat.succ.inj hcount.symm
      simp [hthree]
    | cons flag rest =>
      cases rest with
      | nil =>
        have hfour : line.count (byte ':') = 4 := Nat.succ.inj hcount.symm
        simp [hfour, hcut, documentedMask, dropCr, bytes]
      | cons mask rest =>
        have hmore : line.count (byte ':') = rest.length + 5 := by
          simp at hcount
          omega
        simp [hmore, readPermissions_documented]
  · rw [if_neg fun h => hcut (hlast.mp h)] at hparts
    rw [hparts]
    cases rest with
    | nil => simp [hcut]
    | cons flag rest =>
      cases rest with
      | nil => simp [hcut]
      | cons mask rest => simp [hcut, readPermissions_documented]

/-- **A mask is read as documented** exactly if the line was not cut off before it. -/
theorem mask_read_iff {text name line : Bytes} {after : List Bytes}
    (h : Decides (lines text) name line after) :
    permissions (load (some text)) name = documentedPermissions line ↔ ¬MaskCutOff line := by
  obtain ⟨rec, hrec⟩ := Option.isSome_iff_exists.mp h.named
  have hload : (load (some text)).lookup name = some rec := (lookup_decides h ∅).trans hrec
  unfold permissions
  rw [hload]
  exact record_permissions (Option.filter_eq_some_iff.mp hrec).1

theorem mask_read_bob : permissions (load (some (bytes "bob:00:11:0:1\r\n"))) (bytes "bob") =
    documentedPermissions (bytes "bob:00:11:0:1\r") := by
  have hd : Decides (lines (bytes "bob:00:11:0:1\r\n")) (bytes "bob") (bytes "bob:00:11:0:1\r") [] :=
    ⟨⟨[], rfl⟩, by decide, by simp⟩
  exact (mask_read_iff hd).mpr fun h => absurd h.2 (by decide)

/-- A file that ends within the record of a user without permissions. -/
theorem mask_cut_off_bob :
    (bytes "bob:00:11:0:").splitOn (byte ':') = [bytes "bob", bytes "00", bytes "11", bytes "0", []] ∧
    documentedPermissions (bytes "bob:00:11:0:") = 0 ∧
    permissions (load (some (bytes "bob:00:11:0:"))) (bytes "bob") = 3 := by
  decide

/-! ## Carriage returns -/

def crlf (text : Bytes) : Bytes := text.flatMap fun c => if c = lf then [cr, lf] else [c]

structure Account (username saltHex hashHex : Bytes) : Prop where
  name : byte ':' ∉ username ∧ username.head? ≠ some (byte '#')
  salt : ∀ c ∈ saltHex, (hexNibble c).isSome
  hash : hashHex ≠ [] ∧ ∀ c ∈ hashHex, (hexNibble c).isSome

inductive RecordFields : List Bytes → Prop
  | plain {username saltHex hashHex : Bytes} : Account username saltHex hashHex →
      RecordFields [username, saltHex, hashHex]
  | blockable {username saltHex hashHex blocked : Bytes} : Account username saltHex hashHex →
      blocked ∈ [bytes "0", bytes "1"] → RecordFields [username, saltHex, hashHex, blocked]
  | full {username saltHex hashHex blocked mask : Bytes} : Account username saltHex hashHex →
      blocked ∈ [bytes "0", bytes "1"] →
      mask ∈ [bytes "0", bytes "1", bytes "2", bytes "3"] →
      RecordFields [username, saltHex, hashHex, blocked, mask]

inductive FileLine : Bytes → Prop
  | comment (text : Bytes) : FileLine (byte '#' :: text)
  | blank {line : Bytes} : (∀ c ∈ line, isBlank c = true) → FileLine line
  | record {fields : List Bytes} : RecordFields fields → FileLine (joined (byte ':') fields)

theorem splitOn_crlf (text : Bytes) : ∃ ls tail, text.splitOn lf = ls ++ [tail] ∧
    (crlf text).splitOn lf = ls.map (fun l => l ++ [cr]) ++ [tail] := by
  induction text with
  | nil => exact ⟨[], [], rfl, rfl⟩
  | cons c text ih =>
    obtain ⟨ls, tail, htext, hcrlf⟩ := ih
    by_cases hc : c = lf
    · subst hc
      refine ⟨[] :: ls, tail, ?_, ?_⟩
      · rw [List.splitOn_cons_eq_if_modifyHead, htext]
        rfl
      · show (cr :: lf :: crlf text).splitOn lf = _
        rw [List.splitOn_cons_eq_if_modifyHead, List.splitOn_cons_eq_if_modifyHead, hcrlf]
        rfl
    · have hcons : crlf (c :: text) = c :: crlf text := by simp [crlf, hc]
      have hbeq : (c == lf) = false := beq_eq_false_iff_ne.mpr hc
      rw [hcons, List.splitOn_cons_eq_if_modifyHead, List.splitOn_cons_eq_if_modifyHead, htext, hcrlf,
        hbeq]
      cases ls with
      | nil => exact ⟨[], c :: tail, rfl, rfl⟩
      | cons l ls => exact ⟨(c :: l) :: ls, tail, rfl, rfl⟩

theorem load_splitOn (text : Bytes) : load (some text) = (text.splitOn lf).foldl loadLine ∅ := by
  show (lines text).foldl loadLine ∅ = _
  rw [← parts_lf, parts_splitOn]
  split
  · rename_i hlast
    conv_rhs => rw [← List.dropLast_append_getLast? [] hlast]
    rw [List.foldl_append]
    rfl
  · rfl

theorem mem_lines_of_ended {text tail l : Bytes} {ls : List Bytes}
    (h : text.splitOn lf = ls ++ [tail]) (hl : l ∈ ls) : l ∈ lines text := by
  rw [← parts_lf, parts_splitOn, h]
  split <;> simp [hl]

theorem dropCr_cr (s : Bytes) : dropCr (s ++ [cr]) = s := by
  simp [dropCr]

theorem recordOf_no_separator {line : Bytes} (h : byte ':' ∉ line) : recordOf line = none := by
  unfold recordOf
  split
  · rfl
  rcases parts_of_not_mem h with hparts | hparts <;> rw [hparts]

theorem joined_cr (q : Bytes) : ∀ ps : List Bytes,
    joined (byte ':') (ps ++ [q]) ++ [cr] = joined (byte ':') (ps ++ [q ++ [cr]])
  | [] => by simp
  | [p] => by simp
  | p :: p' :: ps => by
    have ih := joined_cr q (p' :: ps)
    simp only [List.cons_append, joined_cons_cons, List.append_assoc] at ih ⊢
    rw [ih]

theorem recordOf_joined {username saltHex hashHex q : Bytes} {rest : List Bytes} (ps : List Bytes)
    (hfields : ps ++ [q] = username :: saltHex :: hashHex :: rest)
    (hname : username.head? ≠ some (byte '#')) (hps : ∀ p ∈ ps, byte ':' ∉ p) (hq : byte ':' ∉ q)
    (hne : q ≠ []) : recordOf (joined (byte ':') (ps ++ [q])) =
      some (recordWith username saltHex hashHex rest) := by
  have hhead : (joined (byte ':') (ps ++ [q])).head? ≠ some (byte '#') := by
    rw [hfields]
    cases username with
    | nil => exact fun h => absurd (Option.some.inj h) (by decide)
    | cons c username => exact hname
  rw [recordOf, if_neg hhead, parts_joined hq hne ps hps, hfields]

theorem nibble_plain : ∀ c : UInt8, (hexNibble c).isSome = true → c ≠ byte ':' := by
  refine forall_byte ?_
  decide +kernel

theorem Account.plain {username saltHex hashHex : Bytes} (h : Account username saltHex hashHex) :
    ∀ p ∈ [username, saltHex, hashHex], byte ':' ∉ p := by
  intro p hp hc
  simp only [List.mem_cons, List.not_mem_nil, or_false] at hp
  rcases hp with rfl | rfl | rfl
  · exact h.name.1 hc
  · exact nibble_plain _ (h.salt _ hc) rfl
  · exact nibble_plain _ (h.hash.2 _ hc) rfl

theorem count_joined {d : UInt8} : ∀ {ps : List Bytes}, (∀ p ∈ ps, d ∉ p) →
    (joined d ps).count d = ps.length - 1
  | [], _ => rfl
  | [p], h => by simpa using List.count_eq_zero.mpr (h p (by simp))
  | p :: q :: ps, h => by
    have ih : (joined d (q :: ps)).count d = (q :: ps).length - 1 :=
      count_joined fun p hp => h p (List.mem_cons_of_mem _ hp)
    have hp : p.count d = 0 := List.count_eq_zero.mpr (h p (by simp))
    simp [List.count_append, hp, ih]

theorem digit_field : ∀ p ∈ [bytes "0", bytes "1", bytes "2", bytes "3"],
    byte ':' ∉ p ∧ p ≠ [] ∧ dropCr p = p := by
  decide

theorem flag_digit : ∀ p ∈ [bytes "0", bytes "1"],
    p ∈ [bytes "0", bytes "1", bytes "2", bytes "3"] := by
  decide

theorem RecordFields.plain_fields {fields : List Bytes} (h : RecordFields fields) :
    ∀ p ∈ fields, byte ':' ∉ p := by
  cases h with
  | plain ha => exact ha.plain
  | blockable ha hb =>
    intro p hp
    rcases List.mem_append.mp (show p ∈ [_, _, _] ++ [_] from hp) with hp | hp
    · exact ha.plain p hp
    · exact List.mem_singleton.mp hp ▸ (digit_field _ (flag_digit _ hb)).1
  | full ha hb hm =>
    intro p hp
    rcases List.mem_append.mp (show p ∈ [_, _, _] ++ [_, _] from hp) with hp | hp
    · exact ha.plain p hp
    · rcases List.mem_pair.mp hp with rfl | rfl
      · exact (digit_field _ (flag_digit _ hb)).1
      · exact (digit_field _ hm).1

/-- What a carriage return at the end of a line does to its record. -/
theorem recordOf_cr {line : Bytes} (h : FileLine line) : recordOf (line ++ [cr]) =
    if line.count (byte ':') = 2 then
      (recordOf line).map fun rec => { rec with hashHex := rec.hashHex ++ [cr] }
    else recordOf line := by
  cases h with
  | comment text => simp [recordOf]
  | blank hblank =>
    have hno : byte ':' ∉ line := fun hc => absurd (hblank _ hc) (by decide)
    have hcr : byte ':' ∉ line ++ [cr] := by
      rw [List.mem_append]
      exact fun hc => hc.elim hno (by decide)
    rw [recordOf_no_separator hno, recordOf_no_separator hcr]
    simp
  | @record fields hf =>
    have hplain := hf.plain_fields
    have hcr {q : Bytes} (hq : byte ':' ∉ q) : byte ':' ∉ q ++ [cr] := by
      rw [List.mem_append]
      exact fun hc => hc.elim hq (by decide)
    rw [count_joined hplain]
    -- only in a record of three fields the return stays, in the hash
    cases hf with
    | @plain username saltHex hashHex ha =>
      have hps : ∀ p ∈ [username, saltHex], byte ':' ∉ p := fun p hp =>
        hplain p (List.mem_append_left [hashHex] hp)
      have hq := hplain hashHex (by simp)
      have hread := recordOf_joined [username, saltHex] rfl ha.name.2 hps hq ha.hash.1
      have hread' := recordOf_joined [username, saltHex] rfl ha.name.2 hps (hcr hq) (by simp)
      rw [← joined_cr] at hread'
      simp only [List.cons_append, List.nil_append] at hread hread'
      rw [hread, hread']
      rfl
    | @blockable username saltHex hashHex blocked ha hb =>
      have hps : ∀ p ∈ [username, saltHex, hashHex], byte ':' ∉ p := ha.plain
      have hq := hplain blocked (by simp)
      have hdrop := (digit_field _ (flag_digit _ hb)).2
      have hread := recordOf_joined [username, saltHex, hashHex] rfl ha.name.2 hps hq hdrop.1
      have hread' :=
        recordOf_joined [username, saltHex, hashHex] rfl ha.name.2 hps (hcr hq) (by simp)
      rw [← joined_cr] at hread'
      simp only [List.cons_append, List.nil_append] at hread hread'
      rw [hread, hread']
      simp [recordWith, dropCr_cr, hdrop.2]
    | @full username saltHex hashHex blocked mask ha hb hm =>
      have hps : ∀ p ∈ [username, saltHex, hashHex, blocked], byte ':' ∉ p := fun p hp =>
        hplain p (List.mem_append_left [mask] hp)
      have hq := hplain mask (by simp)
      have hdrop := (digit_field _ hm).2
      have hread :=
        recordOf_joined [username, saltHex, hashHex, blocked] rfl ha.name.2 hps hq hdrop.1
      have hread' :=
        recordOf_joined [username, saltHex, hashHex, blocked] rfl ha.name.2 hps (hcr hq) (by simp)
      rw [← joined_cr] at hread'
      simp only [List.cons_append, List.nil_append] at hread hread'
      rw [hread, hread']
      simp [recordWith, dropCr_cr, hdrop.2]

theorem recordNamed_cr {line : Bytes} (h : FileLine line) (name : Bytes) :
    recordNamed name (line ++ [cr]) =
      if line.count (byte ':') = 2 then
        (recordNamed name line).map fun rec => { rec with hashHex := rec.hashHex ++ [cr] }
      else recordNamed name line := by
  unfold recordNamed
  rw [recordOf_cr h]
  split
  · cases recordOf line with
    | none => rfl
    | some rec =>
      simp only [Option.map_some, Option.filter]
      split <;> rfl
  · rfl

theorem isSome_recordNamed_cr {line : Bytes} (h : FileLine line) (name : Bytes) :
    (recordNamed name (line ++ [cr])).isSome = (recordNamed name line).isSome := by
  rw [recordNamed_cr h]
  split
  · exact Option.isSome_map
  · rfl

theorem skipped_cr {ls : List Bytes} {tail name : Bytes} (hgood : ∀ l ∈ ls, FileLine l)
    (h : ∀ l ∈ ls ++ [tail], recordNamed name l = none) :
    ∀ l ∈ ls.map (fun l => l ++ [cr]) ++ [tail], recordNamed name l = none := by
  intro l hl
  rcases List.mem_append.mp hl with hl | hl
  · obtain ⟨line, hline, rfl⟩ := List.mem_map.mp hl
    have hsome := isSome_recordNamed_cr (hgood line hline) name
    rw [h line (List.mem_append_left _ hline)] at hsome
    exact Option.not_isSome_iff_eq_none.mp (by simp [hsome])
  · exact h l (List.mem_append_right _ hl)

theorem decides_cr {ls after : List Bytes} {tail name line : Bytes} (hgood : ∀ l ∈ ls, FileLine l)
    (h : Decides (ls ++ [tail]) name line after) :
    (after = [] ∧ Decides (ls.map (fun l => l ++ [cr]) ++ [tail]) name line []) ∨
    (after ≠ [] ∧ FileLine line ∧
      ∃ after', Decides (ls.map (fun l => l ++ [cr]) ++ [tail]) name (line ++ [cr]) after') := by
  obtain ⟨⟨before, hplace⟩, hnamed, hlast⟩ := h
  rcases List.eq_nil_or_concat after with rfl | ⟨after, l, rfl⟩
  · obtain ⟨-, htail⟩ := List.append_inj' hplace rfl
    obtain rfl := List.singleton_inj.mp htail
    exact .inl ⟨rfl, ⟨_, rfl⟩, hnamed, by simp⟩
  · rw [List.concat_eq_append] at hplace hlast ⊢
    have hsplit : ls ++ [tail] = (before ++ line :: after) ++ [l] := by simpa using hplace
    obtain ⟨rfl, htail⟩ := List.append_inj' hsplit rfl
    obtain rfl := List.singleton_inj.mp htail
    have hline : FileLine line := hgood line (by simp)
    refine .inr ⟨by simp, hline, after.map (fun l => l ++ [cr]) ++ [tail], ⟨before.map fun l => l ++ [cr], ?_⟩,
      ?_, ?_⟩
    · simp
    · rw [isSome_recordNamed_cr hline, hnamed]
    · exact skipped_cr (fun l hl => hgood l (List.mem_append_right _ (List.mem_cons_of_mem _ hl))) hlast

def ShortEnded (text name : Bytes) : Prop :=
  ∃ line after, Decides (text.splitOn lf) name line after ∧ after ≠ [] ∧ line.count (byte ':') = 2

/-- **Carriage returns change no account** exactly if no name has its last record on a
line of three fields with a line feed. -/
theorem crlf_same_iff {text : Bytes} (h : ∀ l ∈ lines text, FileLine l) :
    (∀ name, (load (some (crlf text))).lookup name = (load (some text)).lookup name) ↔
      ∀ name, ¬ShortEnded text name := by
  obtain ⟨ls, tail, htext, hcrlf⟩ := splitOn_crlf text
  have hgood : ∀ l ∈ ls, FileLine l := fun l hl => h l (mem_lines_of_ended htext hl)
  simp only [load_splitOn, hcrlf, ShortEnded]
  rw [htext]
  refine forall_congr' fun name => ?_
  rcases decides_or_skipped (ls ++ [tail]) name with ⟨line, after, hd⟩ | hnone
  · rw [lookup_decides hd]
    obtain ⟨rec, hrec⟩ := Option.isSome_iff_exists.mp hd.named
    rcases decides_cr hgood hd with ⟨rfl, hcr⟩ | ⟨hne, hline, after', hcr⟩
    · rw [lookup_decides hcr]
      refine iff_of_true rfl ?_
      rintro ⟨line', after', hd', hne, -⟩
      exact hne (decides_unique hd' hd).2
    · rw [lookup_decides hcr, recordNamed_cr hline, hrec]
      by_cases hcount : line.count (byte ':') = 2
      · refine iff_of_false (fun heq => ?_) fun hno => hno ⟨line, after, hd, hne, hcount⟩
        have hhash := congrArg (fun r => r.hashHex.length) (Option.some.inj ((if_pos hcount).symm.trans heq))
        simp at hhash
      · rw [if_neg hcount]
        refine iff_of_true rfl ?_
        rintro ⟨line', after'', hd', -, hcount'⟩
        exact hcount ((decides_unique hd' hd).1 ▸ hcount')
  · rw [lookup_skipped hnone, lookup_skipped (skipped_cr hgood hnone)]
    refine iff_of_true rfl ?_
    rintro ⟨line, after, ⟨⟨before, hplace⟩, hnamed, -⟩, -⟩
    rw [hnone line (by simp [hplace])] at hnamed
    cases hnamed

theorem crlf_same_bob :
    (fun name => (load (some (crlf (bytes "#\nbob:00:11:0\n")))).lookup name) =
      fun name => (load (some (bytes "#\nbob:00:11:0\n"))).lookup name := by
  have hbob : RecordFields [bytes "bob", bytes "00", bytes "11", bytes "0"] :=
    .blockable ⟨by decide, by decide +kernel, by decide +kernel⟩ (by decide)
  have hlines : lines (bytes "#\nbob:00:11:0\n") = [bytes "#",
      joined (byte ':') [bytes "bob", bytes "00", bytes "11", bytes "0"]] := by decide
  have hgood : ∀ l ∈ lines (bytes "#\nbob:00:11:0\n"), FileLine l := by
    intro l hl
    rw [hlines] at hl
    rcases List.mem_pair.mp hl with rfl | rfl
    · exact .comment []
    · exact .record hbob
  refine funext ((crlf_same_iff hgood).mpr fun name => ?_)
  rintro ⟨line, after, hd, -, hcount⟩
  obtain ⟨before, hplace⟩ := hd.place
  have hmem : line ∈ (bytes "#\nbob:00:11:0\n").splitOn lf := by simp [hplace]
  have hnone : ∀ l ∈ (bytes "#\nbob:00:11:0\n").splitOn lf, l.count (byte ':') ≠ 2 := by decide
  exact hnone line hmem hcount

/-- A record of three fields, and a function that derives only zeros. -/
theorem crlf_locks_out :
    let kdf : PasswordKdf := fun _ _ _ => some (Vector.replicate 32 0)
    let text := bytes "bob:00:" ++ List.replicate 64 (byte '0') ++ [lf]
    (∀ l ∈ lines text, FileLine l) ∧
    verify kdf (load (some text)) (bytes "bob") (bytes "secret") = true ∧
    verify kdf (load (some (crlf text))) (bytes "bob") (bytes "secret") = false ∧
    (load (some text)).lookup (bytes "bob") ≠ (load (some (crlf text))).lookup (bytes "bob") := by
  refine ⟨fun l hl => ?_, by decide⟩
  have hbob : RecordFields [bytes "bob", bytes "00", List.replicate 64 (byte '0')] :=
    .plain ⟨by decide, by decide +kernel, by decide +kernel⟩
  have hlines : lines (bytes "bob:00:" ++ List.replicate 64 (byte '0') ++ [lf]) =
      [joined (byte ':') [bytes "bob", bytes "00", List.replicate 64 (byte '0')]] := by decide
  rw [hlines] at hl
  exact List.mem_singleton.mp hl ▸ .record hbob

end UserStore

end EncoderNext
