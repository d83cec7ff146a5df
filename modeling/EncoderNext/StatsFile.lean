import EncoderNext.LineFile
import EncoderNext.Monitor

/-!
# The statistics file

One line a name: the name, its logins, the logins of each hour and the end of
its lock, between bars. A line that does not read is skipped, and what comes
after the fourth part of a line is not looked at.
-/

namespace EncoderNext.SecurityMonitor

open Program

/-- `std::stoul` where it takes 64 bits, cut to 32. -/
def readCount (s : Bytes) : Option UInt32 := (stoull s).map UInt32.ofNat

/-- Hours beyond the last part and hours that do not read are empty. -/
def readHours (s : Bytes) : Vector UInt32 24 :=
  Vector.ofFn fun i => ((parts (byte ',') s)[i.val]?.bind readCount).getD 0

def loadLine (table : Table UserStats) (line : Bytes) : Table UserStats :=
  match parts (byte '|') line with
  | who :: total :: hours :: rest =>
    match readCount total with
    | none => table
    | some total =>
      table.insert who
        { totalLogins := total
          hourCounts := readHours hours
          lockUntilTs := (stoll (rest.headD [])).getD 0 }
  | _ => table

def loadStats (text : Bytes) : Table UserStats := (lines text).foldl loadLine ∅

def hoursText (hours : Vector UInt32 24) : Bytes :=
  joined (byte ',') (hours.toList.map fun n => decimal n.toNat)

abbrev Entry : Type := Sigma fun _ : Bytes => UserStats

def statsLine (e : Entry) : Bytes :=
  joined (byte '|') [e.1, decimal e.2.totalLogins.toNat, hoursText e.2.hourCounts,
    decimalInt e.2.lockUntilTs]

/-- What `save_stats` writes when it walks the table in this order. -/
def statsText (es : List Entry) : Bytes := es.flatMap fun e => statsLine e ++ [lf]

/-! ## One line -/

theorem readCount_decimal (n : UInt32) : readCount (decimal n.toNat) = some n := by
  have hlt := n.toNat_lt
  rw [readCount, stoull_decimal, if_pos (by omega)]
  simp

theorem numeral_count (n : UInt32) : ∀ c ∈ decimal n.toNat, isNumeral c = true :=
  decimal_numeral n.toNat

theorem readHours_hoursText (hours : Vector UInt32 24) : readHours (hoursText hours) = hours := by
  obtain ⟨front, last, hlist⟩ : ∃ front last, hours.toList = front ++ [last] := by
    refine List.eq_nil_or_concat' hours.toList |>.resolve_left fun hnil => ?_
    have hlen := congrArg List.length hnil
    simp at hlen
  have hparts : parts (byte ',') (hoursText hours) = hours.toList.map fun n => decimal n.toNat := by
    rw [hoursText, hlist, List.map_append, List.map_singleton]
    refine parts_joined (not_numeral rfl (numeral_count last)) (decimal_ne_nil _) _ fun p hp => ?_
    obtain ⟨n, -, rfl⟩ := List.mem_map.mp hp
    exact not_numeral rfl (numeral_count n)
  ext i hi
  simp [readHours, hparts, readCount_decimal]

theorem not_mem_hoursText {c : UInt8} (hc : isNumeral c = false) (hne : c ≠ byte ',')
    (hours : Vector UInt32 24) : c ∉ hoursText hours := by
  refine not_mem_joined hne fun p hp => ?_
  obtain ⟨n, -, rfl⟩ := List.mem_map.mp hp
  exact not_numeral hc (numeral_count n)

theorem parts_statsLine {e : Entry} (h : byte '|' ∉ e.1) :
    parts (byte '|') (statsLine e) = [e.1, decimal e.2.totalLogins.toNat, hoursText e.2.hourCounts,
      decimalInt e.2.lockUntilTs] := by
  refine parts_joined (not_numeral rfl (decimalInt_numeral _))
    (decimalInt_ne_nil _) [_, _, _] fun p hp => ?_
  simp only [List.mem_cons, List.not_mem_nil, or_false] at hp
  rcases hp with rfl | rfl | rfl
  · exact h
  · exact not_numeral rfl (numeral_count _)
  · exact not_mem_hoursText rfl (by decide) _

theorem loadLine_statsLine {e : Entry} (h : byte '|' ∉ e.1) (hr : Int64Range e.2.lockUntilTs)
    (table : Table UserStats) : loadLine table (statsLine e) = table.insert e.1 (restarted e.2) := by
  simp [loadLine, parts_statsLine h, readCount_decimal, readHours_hoursText, stoll_decimalInt, hr,
    restarted]

theorem lf_not_mem_statsLine {e : Entry} (h : lf ∉ e.1) : lf ∉ statsLine e := by
  refine not_mem_joined (by decide) fun p hp => ?_
  simp only [List.mem_cons, List.not_mem_nil, or_false] at hp
  rcases hp with rfl | rfl | rfl | rfl
  · exact h
  · exact not_numeral rfl (numeral_count _)
  · exact not_mem_hoursText rfl (by decide) _
  · exact not_numeral rfl (decimalInt_numeral _)

/-! ## The names in the table -/

theorem mem_loadLine {table : Table UserStats} {line who : Bytes} (h : who ∈ loadLine table line) :
    who ∈ parts (byte '|') line ∨ who ∈ table := by
  unfold loadLine at h
  split at h
  · rename_i name total hours rest hparts
    cases hc : readCount total with
    | none => exact .inr (by simpa [hc] using h)
    | some n =>
      rw [hc, AList.mem_insert] at h
      rcases h with rfl | h
      · exact .inl (by simp [hparts])
      · exact .inr h
  · exact .inr h

theorem mem_loadStats {text who : Bytes} (h : who ∈ loadStats text) :
    byte '|' ∉ who ∧ lf ∉ who := by
  refine List.foldlRecOn (motive := fun t : Table UserStats => ∀ who ∈ t, byte '|' ∉ who ∧ lf ∉ who)
    (lines text) loadLine (fun who hw => absurd hw (AList.notMem_empty who)) (fun t ht l hl => ?_) who h
  intro who hw
  rcases mem_loadLine hw with hp | hw
  · exact ⟨not_mem_parts _ hp, fun hc => lf_not_mem_lines l hl (mem_of_mem_parts hp hc)⟩
  · exact ht who hw

section
variable {W : Type} {env : Env W ServerCall ServerCall.Reply} {cfg : MonitorConfig}
  {table : Table UserStats} {w : W}

def NamesFrom (table : Table UserStats) (who : Bytes) (table' : Table UserStats) : Prop :=
  ∀ name ∈ table', name = who ∨ name ∈ table

theorem keep_names (who : Bytes) (stats : UserStats) :
    wp env (fun table' _ => NamesFrom table who table') (fun _ => True) (keep table who stats) w := by
  refine ⟨trivial, fun _ _ _ => ⟨trivial, fun name hn => ?_⟩⟩
  rwa [AList.mem_insert] at hn

theorem keep_after {α : Type} (p : ServerProgram α) (who : Bytes) (stats : α → UserStats) :
    wp env (fun table' _ => NamesFrom table who table') (fun _ => True)
      (p >>= fun a => keep table who (stats a)) w := by
  rw [wp_bind]
  exact wp_post (wp_true p w) fun a w' _ _ => keep_names who (stats a)

theorem recordLoginFailure_names (who : Bytes) :
    wp env (fun table' _ => NamesFrom table who table') (fun _ => True)
      (recordLoginFailure cfg table who) w := by
  unfold recordLoginFailure
  rw [wp_ask_bind]
  refine ⟨trivial, fun now w₁ _ => ?_⟩
  dsimp only
  split
  · exact ⟨trivial, fun _ _ _ => keep_after _ who id⟩
  · exact keep_names who _

theorem recordLoginSuccess_names (who : Bytes) :
    wp env (fun table' _ => NamesFrom table who table') (fun _ => True)
      (recordLoginSuccess cfg table who) w := by
  unfold recordLoginSuccess
  rw [wp_ask_bind]
  refine ⟨trivial, fun now w₁ _ => ?_⟩
  rw [wp_ask_bind]
  refine ⟨trivial, fun hour w₂ _ => ?_⟩
  dsimp only
  split
  · exact ⟨trivial, fun _ _ _ => keep_after _ who id⟩
  · exact keep_names who _

theorem recordFileOp_names (who op : Bytes) (count size : Nat) :
    wp env (fun table' _ => NamesFrom table who table') (fun _ => True)
      (recordFileOp cfg table who op count size) w := by
  unfold recordFileOp
  rw [wp_ask_bind]
  refine ⟨trivial, fun now w₁ _ => ?_⟩
  dsimp only
  rw [wp_bind]
  refine wp_post (wp_true _ w₁) fun stats w₂ _ _ => ?_
  by_cases hd : op = bytes "decrypt"
  · rw [if_pos hd]
    exact keep_after _ who id
  · rw [if_neg hd]
    exact keep_names who stats

theorem unlockUser_names (who : Bytes) :
    wp env (fun r _ => NamesFrom table who r.2) (fun _ => True) (unlockUser table who) w := by
  unfold unlockUser
  cases table.lookup who with
  | none => exact ⟨trivial, fun _ hn => .inr hn⟩
  | some stats =>
    dsimp only
    rw [wp_ask_bind]
    refine ⟨trivial, fun _ w₁ _ => ?_⟩
    rw [wp_bind]
    exact wp_post (keep_names who _) fun table' w₂ _ hk => ⟨trivial, hk⟩

theorem op_names (op : Op) :
    wp env (fun table' _ => NamesFrom table op.who table') (fun _ => True) (op.run cfg table) w := by
  cases op with
  | failure who => exact recordLoginFailure_names who
  | success who => exact recordLoginSuccess_names who
  | fileOp who op count size => exact recordFileOp_names who op count size
  | unlock who =>
    show wp env _ _ (Prod.snd <$> unlockUser table who) w
    rw [wp_map]
    exact unlockUser_names who

end

/-! ## Runs -/

/-- A name as a parsed request carries it. -/
def Carried (who : Bytes) : Prop := ∃ raw, (Header.parse raw).get (bytes "username") = who

/-- The tables of a server from its start, in any surroundings. -/
inductive Served (cfg : MonitorConfig) : Table UserStats → List Op → Prop where
  | start (text : Bytes) : Served cfg (loadStats text) []
  | step {table table' : Table UserStats} {ops : List Op} (op : Op) {W : Type}
      {env : Env W ServerCall ServerCall.Reply} {w w' : W} : Served cfg table ops → Carried op.who →
      Runs env (op.run cfg table) w table' w' → Served cfg table' (ops ++ [op])

variable {cfg : MonitorConfig} {table : Table UserStats} {ops : List Op}

theorem lf_not_mem_served (h : Served cfg table ops) : ∀ who ∈ table, lf ∉ who := by
  induction h with
  | start text => exact fun who hw => (mem_loadStats hw).2
  | step op _ hc hr ih =>
    intro who hw
    rcases runs_of_wp (op_names op) hr who hw with rfl | hw
    · obtain ⟨raw, hraw⟩ := hc
      rw [← hraw]
      exact lf_not_mem_get raw _ _ (by simp)
    · exact ih who hw

theorem bar_not_mem_served (h : Served cfg table ops) (hops : ∀ op ∈ ops, byte '|' ∉ op.who) :
    ∀ who ∈ table, byte '|' ∉ who := by
  induction h with
  | start text => exact fun who hw => (mem_loadStats hw).1
  | step op _ _ hr ih =>
    intro who hw
    rcases runs_of_wp (op_names op) hr who hw with rfl | hw
    · exact hops op (by simp)
    · exact ih (fun op' hop' => hops op' (by simp [hop'])) who hw

def SameStats (table table' : Table UserStats) : Prop :=
  ∀ who, (table.lookup who).map restarted = (table'.lookup who).map restarted

def Representable (table : Table UserStats) : Prop :=
  ∀ who stats, table.lookup who = some stats → Int64Range stats.lockUntilTs

theorem representable_of_entries (h : ∀ e ∈ table.entries, Int64Range e.2.lockUntilTs) :
    Representable table :=
  fun _ _ hl => h _ (List.of_mem_dlookup hl)

theorem loaded_saved {es : List Entry} (hp : es.Perm table.entries) (hr : Representable table)
    (hlf : ∀ who ∈ table, lf ∉ who) (hbar : ∀ who ∈ table, byte '|' ∉ who) (who : Bytes) :
    (loadStats (statsText es)).lookup who = (table.lookup who).map restarted := by
  have hmem : ∀ e ∈ es, table.lookup e.1 = some e.2 := fun e he =>
    List.mem_dlookup table.nodupKeys (hp.mem_iff.mp he)
  have hkey : ∀ e ∈ es, e.1 ∈ table := fun e he =>
    AList.lookup_isSome.mp (by rw [hmem e he]; rfl)
  have hstep : ∀ e ∈ es, Inserts id loadLine (statsLine e) e.1 (some (restarted e.2)) :=
    fun e he => loadLine_statsLine (hbar _ (hkey e he)) (hr _ _ (hmem e he))
  have hempty : id (∅ : Table UserStats) = ∅ := rfl
  rw [Option.map_eq_bind]
  exact lookup_read_lines id hp (fun e he => lf_not_mem_statsLine (hlf _ (hkey e he))) hstep hempty who

/-- **When the statistics survive a restart.** A table that any run leaves is
loaded as it was saved exactly when no name in it holds a bar, whatever the order
of its lines; and no name does in a run whose requests name none. -/
theorem stats_survive_iff (h : Served cfg table ops) (hr : Representable table) {es : List Entry}
    (hp : es.Perm table.entries) :
    (SameStats (loadStats (statsText es)) table ↔ ∀ who ∈ table, byte '|' ∉ who) ∧
    ((∀ op ∈ ops, byte '|' ∉ op.who) → SameStats (loadStats (statsText es)) table) := by
  have hiff : SameStats (loadStats (statsText es)) table ↔ ∀ who ∈ table, byte '|' ∉ who := by
    constructor
    · intro hsame who hw
      have hsome : (loadStats (statsText es)).lookup who ≠ none := by
        intro hnone
        have hw' := hsame who
        rw [hnone, Option.map_none, eq_comm, Option.map_eq_none_iff, AList.lookup_eq_none] at hw'
        exact hw' hw
      rw [ne_eq, AList.lookup_eq_none, not_not] at hsome
      exact (mem_loadStats hsome).1
    · intro hbar who
      rw [loaded_saved hp hr (lf_not_mem_served h) hbar]
      cases table.lookup who <;> rfl
  exact ⟨hiff, fun hops => hiff.mpr (bar_not_mem_served h hops)⟩

/-! ## A name with bars -/

def craftedName : Bytes := bytes "bob|7|0|9999999999"

theorem carried_of_line {who : Bytes} (h : (Header.parse (bytes "username: " ++ who)).get
    (bytes "username") = who) : Carried who := ⟨_, h⟩

def afterFailure (who : Bytes) (now : Int) : Table UserStats × Unit :=
  exec (fun (_ : Unit) c => (c.plain now, ())) (Op.run {} (loadStats []) (.failure who)) ()

theorem served_afterFailure {who : Bytes} (hc : Carried who) (now : Int) :
    Served {} (afterFailure who now).1 [.failure who] := by
  have hruns : Runs (fun _ _ _ _ => True) (Op.run {} (loadStats []) (.failure who)) ()
      (afterFailure who now).1 () := runs_exec (fun _ _ => trivial) _ ()
  exact .step (.failure who) (.start []) hc hruns

theorem stats_survive_plainName : SameStats
    (loadStats (statsText (afterFailure (bytes "bob") 1000000).1.entries))
    (afterFailure (bytes "bob") 1000000).1 := by
  have hserved := served_afterFailure (@carried_of_line (bytes "bob") (by decide)) 1000000
  exact (stats_survive_iff hserved (representable_of_entries (by decide)) (List.Perm.refl _)).2
    (by decide)

/-- A login as `bob|7|0|9999999999` locks `bob` out after the restart. -/
theorem craftedName_locks_bob : ∃ (table : Table UserStats) (ops : List Op),
    Served {} table ops ∧ Representable table ∧ (∀ op ∈ ops, op.who = craftedName) ∧
      bytes "bob" ∉ table ∧ ¬ SameStats (loadStats (statsText table.entries)) table ∧
      (lockedAt (loadStats (statsText table.entries)) (bytes "bob") 1000000).isSome = true := by
  refine ⟨_, _, served_afterFailure (@carried_of_line craftedName (by decide)) 1000000,
    representable_of_entries (by decide), by simp [Op.who], by decide, fun hsame => ?_,
    by decide⟩
  have hbob := congrArg Option.isSome (hsame (bytes "bob"))
  revert hbob
  decide

end EncoderNext.SecurityMonitor
