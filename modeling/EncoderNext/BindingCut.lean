import Mathlib.Data.Fintype.EquivFin
import EncoderNext.BindingFile

/-!
# A save of the binding policy that is cut short

The file is truncated and written again in place, so the death of the server
leaves the first bytes of the new text. A cut inside the first line turns
binding off, and then every client is let in. A cut after it keeps binding on,
and the last line, whole or not, says of a client what its whole line says,
unless the client's name holds bars.
-/

namespace EncoderNext

theorem parts_take {d : UInt8} {p : Bytes} (hp : d ∉ p) (rest : Bytes) (k : Nat) :
    (parts d ((p ++ d :: rest).take k)).length ≤ 1 ∨
      ∃ j, parts d ((p ++ d :: rest).take k) = p :: parts d (rest.take j) := by
  by_cases hk : k ≤ p.length
  · have hcut : d ∉ p.take k := fun h => hp (List.mem_of_mem_take h)
    refine .inl ?_
    rw [List.take_append_of_le_length hk]
    rcases parts_of_not_mem hcut with h | h <;> simp [h]
  · obtain ⟨j, rfl⟩ : ∃ j, k = p.length + (j + 1) := ⟨k - p.length - 1, by omega⟩
    refine .inr ⟨j, ?_⟩
    rw [List.take_length_add_append, List.take_succ_cons, parts_append hp]

theorem prefix_of_mem_lines_take {ls : List Bytes} (hlf : ∀ l ∈ ls, lf ∉ l) : ∀ {k : Nat} {l : Bytes},
    l ∈ lines ((ls.flatMap fun l => l ++ [lf]).take k) → ∃ whole ∈ ls, l <+: whole := by
  induction ls with
  | nil =>
    intro k l hl
    simp [lines] at hl
  | cons first ls ih =>
    intro k l hl
    have hfirst : lf ∉ first := hlf first (by simp)
    rw [List.flatMap_cons, List.append_assoc, List.singleton_append] at hl
    by_cases hk : k ≤ first.length
    · have hcut : lf ∉ first.take k := fun h => hfirst (List.mem_of_mem_take h)
      rw [List.take_append_of_le_length hk, ← parts_lf] at hl
      rcases parts_of_not_mem hcut with h | h
      · simp [h] at hl
      · rw [h, List.mem_singleton] at hl
        exact ⟨first, by simp, hl ▸ List.take_prefix k first⟩
    · obtain ⟨j, rfl⟩ : ∃ j, k = first.length + (j + 1) := ⟨k - first.length - 1, by omega⟩
      rw [List.take_length_add_append, List.take_succ_cons, Header.lines_append_lf hfirst] at hl
      rcases List.mem_cons.mp hl with rfl | hl
      · exact ⟨l, by simp, List.prefix_rfl⟩
      · obtain ⟨whole, hmem, hpre⟩ := ih (fun l hl => hlf l (by simp [hl])) hl
        exact ⟨whole, by simp [hmem], hpre⟩

namespace BindingPolicy

def named (line : Bytes) : Option Entry :=
  match parts (byte '|') line with
  | _ :: id :: allowed :: first :: last :: label :: _ => some ⟨id, readClient allowed first last label⟩
  | _ => none

/-- No client that both policies refuse is let in once this text is loaded. -/
def OpensNothing (old new : BindingPolicy) (text : Bytes) : Prop :=
  ∀ id, old.isClientAllowed id = false → new.isClientAllowed id = false →
    (loadPolicy text).isClientAllowed id = false

def LastLine (ls : List Bytes) (id line : Bytes) (rec : ClientBindingRecord) : Prop :=
  ∃ front back, ls = front ++ line :: back ∧ named line = some ⟨id, rec⟩ ∧
    ∀ l ∈ back, ∀ rec', named l ≠ some ⟨id, rec'⟩

/-- The last line that names the client lets it in, and it is the line, whole or
cut, of a client whose name holds bars. -/
def Misread (policy : BindingPolicy) (text : Bytes) (id : Bytes) : Prop :=
  ∃ line rec, LastLine (lines text) id line rec ∧ rec.allowed = true ∧
    ∃ name whole, policy.clients.lookup name = some whole ∧ byte '|' ∈ name ∧
      line <+: clientLine ⟨name, whole⟩

/-! ## One line, whole or cut -/

theorem named_of_length {line : Bytes} (h : (parts (byte '|') line).length ≤ 5) :
    named line = none := by
  unfold named
  split
  · rename_i hparts
    simp only [hparts, List.length_cons] at h
    omega
  · rfl

def Speaks (line : Bytes) : Prop :=
  ∀ policy, loadLine policy line = match named line with
    | some e => { policy with clients := policy.clients.insert e.1 e.2 }
    | none => policy

theorem speaks_of_prefix {e : Entry} {line : Bytes} (h : line <+: clientLine e) : Speaks line := by
  intro policy
  rw [List.prefix_iff_eq_take.mp h]
  by_cases hk : line.length ≤ 6
  · -- not even the first bar is there
    have hcut : (clientLine e).take line.length = (bytes "client").take line.length :=
      List.take_append_of_le_length hk
    have hbar : byte '|' ∉ (clientLine e).take line.length := by
      rw [hcut]
      exact fun hm => absurd (List.mem_of_mem_take hm) (by decide)
    have hlength : ((clientLine e).take line.length).length ≤ 6 := by
      rw [List.length_take]
      omega
    have hnone : named ((clientLine e).take line.length) = none := by
      refine named_of_length ?_
      rcases parts_of_not_mem hbar with hp | hp <;> simp [hp]
    have hflag : ¬ bytes "enabled=" <+: (clientLine e).take line.length := fun hp =>
      absurd (hp.length_le.trans hlength) (by decide)
    have hclient : ¬ bytes "client|" <+: (clientLine e).take line.length := fun hp =>
      absurd (hp.length_le.trans hlength) (by decide)
    simp [hnone, loadLine, hflag, hclient]
  · obtain ⟨j, hj⟩ : ∃ j, line.length = 7 + j := ⟨line.length - 7, by omega⟩
    obtain ⟨rest, hrest⟩ : ∃ rest, clientLine e = bytes "client|" ++ rest := ⟨_, rfl⟩
    have hcut : (clientLine e).take line.length = bytes "client|" ++ rest.take j := by
      rw [hrest, hj]
      exact @List.take_length_add_append _ (bytes "client|") _ j
    rw [hcut, loadLine_client, named]
    split <;> simp_all

/-- A client without bars in its name: a line that names anyone says what the
whole line says. -/
theorem named_of_prefix {e : Entry} (hbar : byte '|' ∉ e.1) {line : Bytes}
    (h : line <+: clientLine e) {e' : Entry} (hn : named line = some e') :
    e'.1 = e.1 ∧ e'.2.allowed = e.2.allowed := by
  obtain ⟨tail, htail⟩ : ∃ tail, clientLine e =
      bytes "client" ++ byte '|' :: (e.1 ++ byte '|' :: (flagText e.2.allowed ++ byte '|' :: tail)) :=
    ⟨_, rfl⟩
  have hflag : byte '|' ∉ flagText e.2.allowed := not_mem_flagText rfl _
  have hlong : ¬ (parts (byte '|') line).length ≤ 5 := by
    intro hl
    rw [named_of_length hl] at hn
    cases hn
  rw [List.prefix_iff_eq_take.mp h, htail] at hlong hn
  generalize line.length = k at hlong hn
  -- every part but the last of the line is a part of the whole line
  rcases parts_take (show byte '|' ∉ bytes "client" by decide)
      (e.1 ++ byte '|' :: (flagText e.2.allowed ++ byte '|' :: tail)) k with h₁ | ⟨k₁, h₁⟩
  · exact absurd (Nat.le_trans h₁ (by decide)) hlong
  rcases parts_take hbar (flagText e.2.allowed ++ byte '|' :: tail) k₁ with h₂ | ⟨k₂, h₂⟩
  · rw [h₁, List.length_cons] at hlong
    omega
  rcases parts_take hflag tail k₂ with h₃ | ⟨k₃, h₃⟩
  · rw [h₁, h₂, List.length_cons, List.length_cons] at hlong
    omega
  rw [named, h₁, h₂, h₃] at hn
  split at hn
  · rename_i hparts
    simp only [List.cons.injEq] at hparts
    obtain ⟨-, rfl, rfl, -⟩ := hparts
    cases hn
    exact ⟨rfl, by cases e.2.allowed <;> rfl⟩
  · cases hn

/-! ## The lines of a text, read one after another -/

theorem lastLine_snoc {ls : List Bytes} {id line : Bytes} {rec : ClientBindingRecord}
    (h : LastLine ls id line rec) {l : Bytes} (hl : ∀ rec', named l ≠ some ⟨id, rec'⟩) :
    LastLine (ls ++ [l]) id line rec := by
  obtain ⟨front, back, rfl, hn, hback⟩ := h
  refine ⟨front, back ++ [l], by simp, hn, fun l' hl' => ?_⟩
  rcases List.mem_append.mp hl' with hl' | hl'
  · exact hback l' hl'
  · exact List.mem_singleton.mp hl' ▸ hl

theorem lastLine_cons {first : Bytes} (hf : named first = none) {ls : List Bytes} {id line : Bytes}
    {rec : ClientBindingRecord} : LastLine (first :: ls) id line rec ↔ LastLine ls id line rec := by
  constructor
  · rintro ⟨front, back, hsplit, hn, hback⟩
    cases front with
    | nil =>
      obtain ⟨rfl, -⟩ := List.cons.inj hsplit
      rw [hf] at hn
      cases hn
    | cons _ front =>
      obtain ⟨-, rfl⟩ := List.cons.inj hsplit
      exact ⟨front, back, rfl, hn, hback⟩
  · rintro ⟨front, back, rfl, hn, hback⟩
    exact ⟨first :: front, back, rfl, hn, hback⟩

theorem lookup_speaking {ls : List Bytes} (hls : ∀ l ∈ ls, Speaks l) (policy : BindingPolicy)
    (id : Bytes) : ((ls.foldl loadLine policy).clients.lookup id = policy.clients.lookup id ∧
      ∀ l ∈ ls, ∀ rec, named l ≠ some ⟨id, rec⟩) ∨
    ∃ line rec, LastLine ls id line rec ∧
      (ls.foldl loadLine policy).clients.lookup id = some rec := by
  induction ls using List.reverseRecOn with
  | nil => exact .inl ⟨rfl, by simp⟩
  | append_singleton ls l ih =>
    have ih := ih fun l hl => hls l (by simp [hl])
    have hl := hls l (by simp)
    rw [List.foldl_append, List.foldl_cons, List.foldl_nil, hl]
    by_cases hn : ∃ rec, named l = some ⟨id, rec⟩
    · obtain ⟨rec, hn⟩ := hn
      exact .inr ⟨l, rec, ⟨ls, [], rfl, hn, by simp⟩, by simp [hn]⟩
    · have hother : ∀ rec, named l ≠ some ⟨id, rec⟩ := fun rec h => hn ⟨rec, h⟩
      have hsame : (match named l with
          | some e => { ls.foldl loadLine policy with
              clients := (ls.foldl loadLine policy).clients.insert e.1 e.2 }
          | none => ls.foldl loadLine policy).clients.lookup id =
          (ls.foldl loadLine policy).clients.lookup id := by
        cases hl : named l with
        | none => rfl
        | some e =>
          obtain ⟨name, rec⟩ := e
          have hne : id ≠ name := by
            rintro rfl
            exact hother rec hl
          exact AList.lookup_insert_ne hne
      rw [hsame]
      rcases ih with ⟨hlookup, hnone⟩ | ⟨line, rec, hlast, hlookup⟩
      · refine .inl ⟨hlookup, fun l' hl' => ?_⟩
        rcases List.mem_append.mp hl' with hl' | hl'
        · exact hnone l' hl'
        · exact List.mem_singleton.mp hl' ▸ hother
      · exact .inr ⟨line, rec, lastLine_snoc hlast hother, hlookup⟩

theorem lookup_of_lastLine {ls : List Bytes} (hls : ∀ l ∈ ls, Speaks l) {id line : Bytes}
    {rec : ClientBindingRecord} (h : LastLine ls id line rec) (policy : BindingPolicy) :
    (ls.foldl loadLine policy).clients.lookup id = some rec := by
  obtain ⟨front, back, rfl, hn, hlast⟩ := h
  rw [List.foldl_append, List.foldl_cons, hls line (by simp), hn]
  have hback : ∀ l ∈ back, Speaks l := fun l hl => hls l (by simp [hl])
  rcases lookup_speaking hback _ id with ⟨hlookup, -⟩ | ⟨l, rec', ⟨_, _, rfl, hl, -⟩, -⟩
  · rw [hlookup]
    exact AList.lookup_insert _
  · exact absurd hl (hlast l (by simp) rec')

theorem enabled_speaking {ls : List Bytes} (hls : ∀ l ∈ ls, Speaks l) (policy : BindingPolicy) :
    (ls.foldl loadLine policy).enabled = policy.enabled := by
  refine List.foldlRecOn (motive := fun p : BindingPolicy => p.enabled = policy.enabled) ls loadLine
    rfl fun p hp l hl => ?_
  rw [hls l hl]
  cases named l <;> exact hp

/-! ## The cut -/

theorem enabled_of_refused {policy : BindingPolicy} {id : Bytes}
    (h : policy.isClientAllowed id = false) : policy.enabled = true := by
  by_contra hoff
  simp [isClientAllowed, hoff] at h

theorem exists_refused {old new : BindingPolicy} (hold : old.enabled = true)
    (hnew : new.enabled = true) :
    ∃ id, old.isClientAllowed id = false ∧ new.isClientAllowed id = false := by
  obtain ⟨id, hid⟩ := Infinite.exists_notMem_finset (old.clients.keys ++ new.clients.keys).toFinset
  simp only [List.mem_toFinset, List.mem_append, not_or] at hid
  have hlookup := AList.lookup_eq_none.mpr hid.1
  have hlookup' := AList.lookup_eq_none.mpr hid.2
  exact ⟨id, by simp [isClientAllowed, hold, hlookup], by simp [isClientAllowed, hnew, hlookup']⟩

theorem off_of_short (es : List Entry) {k : Nat} (hk : k < 9) :
    (loadPolicy ((policyText true es).take k)).enabled = false := by
  have hcut : (policyText true es).take k = (bytes "enabled=1").take k := by
    have htext : policyText true es =
        bytes "enabled=1" ++ ([lf] ++ es.flatMap fun e => clientLine e ++ [lf]) := rfl
    rw [htext]
    exact List.take_append_of_le_length (Nat.le_of_lt hk)
  have hall : ∀ k < 9, (loadPolicy ((bytes "enabled=1").take k)).enabled = false := by decide
  rw [hcut]
  exact hall k hk

theorem lines_cut (es : List Entry) {k : Nat} (hk : 9 ≤ k) :
    lines ((policyText true es).take k) = bytes "enabled=1" ::
      lines ((es.flatMap fun e => clientLine e ++ [lf]).take (k - 10)) := by
  have htext : policyText true es =
      bytes "enabled=1" ++ lf :: es.flatMap fun e => clientLine e ++ [lf] := rfl
  rcases Nat.eq_or_lt_of_le hk with rfl | hk
  · rfl
  · have hlength : (bytes "enabled=1").length = 9 := rfl
    obtain ⟨j, rfl⟩ : ∃ j, k = (bytes "enabled=1").length + (j + 1) := ⟨k - 10, by omega⟩
    have hj : (bytes "enabled=1").length + (j + 1) - 10 = j := by omega
    rw [htext, List.take_length_add_append, List.take_succ_cons,
      Header.lines_append_lf (by decide), hj]

section
variable {first old new : BindingPolicy} {ops : List Op} (h : Served first new ops)
  {es : List Entry} (hp : es.Perm new.clients.entries)
include h hp

theorem prefix_of_mem_lines_cut {k : Nat} {l : Bytes}
    (hl : l ∈ lines ((es.flatMap fun e => clientLine e ++ [lf]).take k)) :
    ∃ e ∈ es, l <+: clientLine e := by
  rw [← List.flatMap_map clientLine fun l => l ++ [lf]] at hl
  have hlf : ∀ l ∈ es.map clientLine, lf ∉ l := by
    intro l hl
    obtain ⟨e, he, rfl⟩ := List.mem_map.mp hl
    exact lf_not_mem_text hp (kept_served h) e he
  obtain ⟨whole, hmem, hpre⟩ := prefix_of_mem_lines_take hlf hl
  obtain ⟨e, he, rfl⟩ := List.mem_map.mp hmem
  exact ⟨e, he, hpre⟩

/-- Past the flag binding stays on, and a client is let in by the last line that
names it. -/
theorem isClientAllowed_cut {k : Nat} (hk : 9 ≤ k) (id : Bytes) :
    (loadPolicy ((policyText true es).take k)).isClientAllowed id = true ↔
      ∃ line rec, LastLine (lines ((policyText true es).take k)) id line rec ∧
        rec.allowed = true ∧ ∃ e ∈ es, line <+: clientLine e := by
  have hfirst : named (bytes "enabled=1") = none := by decide
  have hpre := fun l => prefix_of_mem_lines_cut h hp (k := k - 10) (l := l)
  rw [loadPolicy, lines_cut es hk]
  simp only [lastLine_cons hfirst]
  generalize lines ((es.flatMap fun e => clientLine e ++ [lf]).take (k - 10)) = ls at hpre
  have hspeaks : ∀ l ∈ ls, Speaks l := fun l hl => by
    obtain ⟨e, -, hpre⟩ := hpre l hl
    exact speaks_of_prefix hpre
  have hloaded : (bytes "enabled=1" :: ls).foldl loadLine {} =
      ls.foldl loadLine { enabled := true } := rfl
  have hon := enabled_speaking hspeaks { enabled := true }
  rw [hloaded, isClientAllowed, hon]
  constructor
  · intro hallowed
    rcases lookup_speaking hspeaks { enabled := true } id with
      ⟨hlookup, -⟩ | ⟨line, rec, hlast, hlookup⟩
    · rw [hlookup] at hallowed
      cases hallowed
    · rw [hlookup] at hallowed
      have hmem : line ∈ ls := by
        obtain ⟨front, back, rfl, -⟩ := hlast
        simp
      exact ⟨line, rec, hlast, hallowed, hpre line hmem⟩
  · rintro ⟨line, rec, hlast, hallowed, -⟩
    rw [lookup_of_lastLine hspeaks hlast]
    exact hallowed

/-- **What a cut save lets in.** A save that is cut anywhere lets in nobody whom the
policies before and after it refuse exactly when binding is off in one of them, or
the cut leaves the first line's flag and no line is misread in favour of a client
whom both refuse; nothing is misread when no name holds a bar. -/
theorem cut_save_iff (k : Nat) :
    (OpensNothing old new ((policyText new.enabled es).take k) ↔
      ¬ (old.enabled = true ∧ new.enabled = true) ∨
      9 ≤ k ∧ ∀ id, Misread new ((policyText new.enabled es).take k) id →
        old.isClientAllowed id = true ∨ new.isClientAllowed id = true) ∧
    (Clients (fun id _ => byte '|' ∉ id) new →
      (OpensNothing old new ((policyText new.enabled es).take k) ↔
        ¬ (old.enabled = true ∧ new.enabled = true) ∨ 9 ≤ k)) := by
  have hmem : ∀ e ∈ es, new.clients.lookup e.1 = some e.2 := fun e he =>
    List.mem_dlookup new.clients.nodupKeys (hp.mem_iff.mp he)
  have hiff : OpensNothing old new ((policyText new.enabled es).take k) ↔
      ¬ (old.enabled = true ∧ new.enabled = true) ∨
      9 ≤ k ∧ ∀ id, Misread new ((policyText new.enabled es).take k) id →
        old.isClientAllowed id = true ∨ new.isClientAllowed id = true := by
    by_cases hboth : old.enabled = true ∧ new.enabled = true
    · obtain ⟨hold, hnew⟩ := hboth
      rw [hnew]
      by_cases hk : 9 ≤ k
      · refine ⟨fun hopens => .inr ⟨hk, fun id hmisread => ?_⟩, fun hor id hrefused hrefused' => ?_⟩
        · obtain ⟨line, rec, hlast, hallowed, name, whole, hlookup, -, hpre⟩ := hmisread
          have he : (⟨name, whole⟩ : Entry) ∈ es := hp.mem_iff.mpr (List.of_mem_dlookup hlookup)
          have hloaded := (isClientAllowed_cut h hp hk id).mpr
            ⟨line, rec, hlast, hallowed, _, he, hpre⟩
          by_contra hrefused
          simp only [not_or, Bool.not_eq_true] at hrefused
          rw [hopens id hrefused.1 hrefused.2] at hloaded
          cases hloaded
        · refine Bool.eq_false_iff.mpr fun hloaded => ?_
          obtain ⟨line, rec, hlast, hallowed, e, he, hpre⟩ :=
            (isClientAllowed_cut h hp hk id).mp hloaded
          by_cases hbar : byte '|' ∈ e.1
          · rcases hor with hor | ⟨-, hor⟩
            · exact absurd ⟨hold, rfl⟩ hor
            · have hmisread := hor id ⟨line, rec, hlast, hallowed, e.1, e.2, hmem e he, hbar, hpre⟩
              simp [hrefused, hrefused'] at hmisread
          · -- the line of a client without bars only lets that client in
            obtain ⟨_, _, _, hn, -⟩ := hlast
            obtain ⟨hid, hsame⟩ := named_of_prefix hbar hpre hn
            obtain rfl : id = e.1 := hid
            have hlet : new.isClientAllowed e.1 = true := by
              have hgranted : e.2.allowed = true := hsame ▸ hallowed
              simp [isClientAllowed, hmem e he, hgranted]
            rw [hrefused'] at hlet
            cases hlet
      -- a cut within the flag reads as off
      · have hoff := off_of_short es (Nat.lt_of_not_le hk)
        refine ⟨fun hopens => ?_, fun hor => ?_⟩
        · obtain ⟨id, hrefused, hrefused'⟩ := exists_refused hold hnew
          have hloaded := enabled_of_refused (hopens id hrefused hrefused')
          rw [hoff] at hloaded
          cases hloaded
        · simp [hold, hk] at hor
    · exact ⟨fun _ => .inl hboth, fun _ id hrefused hrefused' =>
        absurd ⟨enabled_of_refused hrefused, enabled_of_refused hrefused'⟩ hboth⟩
  refine ⟨hiff, fun hplain => ?_⟩
  rw [hiff]
  refine or_congr_right (and_iff_left fun id hmisread => ?_)
  obtain ⟨_, _, _, _, name, whole, hlookup, hbar, _⟩ := hmisread
  exact absurd hbar (hplain name whole hlookup)

end

/-! ## A save after a request -/

def before : BindingPolicy := { loadPolicy [] with enabled := true }

def after : BindingPolicy := (afterRequest plainRequest).1

theorem plain_after : Clients Plain after :=
  plain_served (served_afterRequest plainRequest) (fun id rec h => by simp [loadPolicy, lines] at h)
    (by simp only [List.mem_singleton, forall_eq, PlainOp]; decide)

theorem cut_save_after :
    OpensNothing before after ((policyText after.enabled after.clients.entries).take 40) :=
  ((cut_save_iff (served_afterRequest plainRequest) (List.Perm.refl _) 40).2
    fun id rec h => (plain_after id rec h).1).mpr (.inr (by decide))

/-- The process dies before the flag is written, and everybody is let in. -/
theorem cut_save_opens :
    Served (loadPolicy []) before [] ∧ (∃ ops, Served (loadPolicy []) after ops) ∧
      ¬ OpensNothing before after ((policyText after.enabled after.clients.entries).take 8) := by
  refine ⟨.startEnabled [], ⟨_, served_afterRequest plainRequest⟩, fun hopens => ?_⟩
  have hrefused := hopens (bytes "intruder") (by decide) (by decide)
  revert hrefused
  decide

end BindingPolicy

end EncoderNext
