import EncoderNext.MonitorLocks

/-!
# The windows over whole runs

Four windows of each name are pushed at their end and cut at their front, each on
some events only. While the clock does not go back, right after such an event a
window holds exactly the recent entries of the whole history.
-/

namespace EncoderNext.SecurityMonitor

open Program SlidingWindow

/-! ## The history of a name -/

def eventOf (s : Step) : Option Event :=
  match s.call with
  | .record op => some ⟨op, s.now⟩
  | .isLocked _ => none

def past (steps : List Step) : List Event := steps.filterMap eventOf

section
variable (who : Bytes)

def filesOf (e : Event) : List Int :=
  match e.op with
  | .fileOp name _ count _ => if name = who then List.replicate (repeats count) e.time else []
  | _ => []

def decryptsOf (e : Event) : List Int :=
  match e.op with
  | .fileOp name op count _ =>
    if name = who ∧ op = bytes "decrypt" then List.replicate (repeats count) e.time else []
  | _ => []

def sizesOf (e : Event) : List (Int × Nat) :=
  match e.op with
  | .fileOp name op _ size => if name = who ∧ op = bytes "decrypt" then [(e.time, size)] else []
  | _ => []

def loginsOf (e : Event) : Nat :=
  match e.op with
  | .success name => if name = who then 1 else 0
  | _ => 0

def files (events : List Event) : List Int := events.flatMap (filesOf who)

def decrypts (events : List Event) : List Int := events.flatMap (decryptsOf who)

def sizes (events : List Event) : List (Int × Nat) := events.flatMap (sizesOf who)

def logins (events : List Event) : Nat := (events.map (loginsOf who)).sum

end

def hourSum (s : UserStats) : UInt32 := s.hourCounts.toList.sum

/-- The statistics of a name against its history, at a time. -/
structure Tallies (cfg : MonitorConfig) (who : Bytes) (t : Int) (s : UserStats) (events : List Event) :
    Prop where
  failed : Tail id cfg.failedLoginWindowSec t s.failedLoginTimes (failuresSince who events)
  files : Tail id cfg.bulkFilesWindowSec t s.fileOpTimes (files who events)
  decrypts : Tail id cfg.decryptBurstWindowSec t s.decryptTimes (decrypts who events)
  sizes : Tail Prod.fst cfg.decryptVolumeWindowSec t s.decryptSizeTimes (sizes who events)
  logins : s.totalLogins = UInt32.ofNat (logins who events)
  hours : hourSum s = s.totalLogins

variable {cfg : MonitorConfig} {who : Bytes} {t now hour : Int} {s s' : UserStats} {events : List Event}

theorem tallies_empty (who : Bytes) (t : Int) : Tallies cfg who t {} [] :=
  ⟨.nil, .nil, .nil, .nil, rfl, by decide⟩

theorem Tallies.later (h : Tallies cfg who t s events) {t' : Int} (ht : t ≤ t') :
    Tallies cfg who t' s events :=
  ⟨h.failed.later ht, h.files.later ht, h.decrypts.later ht, h.sizes.later ht, h.logins, h.hours⟩

theorem Tallies.same (h : Tallies cfg who t s events) (hs : SameCounts s s') :
    Tallies cfg who t s' events := by
  refine ⟨?_, ?_, ?_, ?_, ?_, ?_⟩
  · rw [hs.failed]
    exact h.failed
  · rw [hs.files]
    exact h.files
  · rw [hs.decrypts]
    exact h.decrypts
  · rw [hs.sizes]
    exact h.sizes
  · rw [hs.logins]
    exact h.logins
  · rw [hourSum, hs.hours, hs.logins]
    exact h.hours

/-! ## The hours of the day -/

theorem sum_set : ∀ {l : List UInt32} {i : Nat}, i < l.length →
    (l.set i (l.getD i 0 + 1)).sum = l.sum + 1
  | [], i, h => absurd h (Nat.not_lt_zero i)
  | x :: l, 0, _ => by
    simp only [List.set_cons_zero, List.getD_cons_zero, List.sum_cons]
    ac_rfl
  | x :: l, i + 1, h => by
    have ih := sum_set (Nat.lt_of_succ_lt_succ h)
    simp only [List.set_cons_succ, List.getD_cons_succ, List.sum_cons, ih]
    ac_rfl

theorem hourSum_count (s : UserStats) {h : Nat} (hh : h < 24) :
    (countHour s h).toList.sum = hourSum s + 1 := by
  have hlist : (countHour s h).toList = s.hourCounts.toList.set h (s.hourCounts.toList.getD h 0 + 1) := by
    simp [countHour, Vector.setIfInBounds, hh]
    rfl
  rw [hlist]
  exact sum_set (by simpa using hh)

/-! ## The bytes in the volume window -/

theorem foldl_bytes (items : List (Int × Nat)) : ∀ sum : UInt64,
    items.foldl (fun sum item => sum + UInt64.ofNat item.2) sum =
      sum + UInt64.ofNat (items.map Prod.snd).sum := by
  induction items with
  | nil => simp
  | cons item items ih =>
    intro sum
    rw [List.foldl_cons, ih, List.map_cons, List.sum_cons, UInt64.ofNat_add, UInt64.add_assoc]

theorem windowBytes_eq (s : UserStats) :
    (windowBytes s).toNat = (s.decryptSizeTimes.map Prod.snd).sum % 2 ^ 64 := by
  rw [windowBytes, foldl_bytes, UInt64.zero_add]
  simp

/-! ## One event -/

theorem files_snoc (e : Event) : files who (events ++ [e]) = files who events ++ filesOf who e := by
  simp [files]

theorem decrypts_snoc (e : Event) :
    decrypts who (events ++ [e]) = decrypts who events ++ decryptsOf who e := by
  simp [decrypts]

theorem sizes_snoc (e : Event) : sizes who (events ++ [e]) = sizes who events ++ sizesOf who e := by
  simp [sizes]

theorem logins_snoc (e : Event) : logins who (events ++ [e]) = logins who events + loginsOf who e := by
  simp [logins]

theorem tallies_snoc {op : Op}
    (hfailed : Tail id cfg.failedLoginWindowSec now s.failedLoginTimes
      (sinceAfter op now who (failuresSince who events)))
    (hfiles : Tail id cfg.bulkFilesWindowSec now s.fileOpTimes
      (files who events ++ filesOf who ⟨op, now⟩))
    (hdecrypts : Tail id cfg.decryptBurstWindowSec now s.decryptTimes
      (decrypts who events ++ decryptsOf who ⟨op, now⟩))
    (hsizes : Tail Prod.fst cfg.decryptVolumeWindowSec now s.decryptSizeTimes
      (sizes who events ++ sizesOf who ⟨op, now⟩))
    (hlogins : s.totalLogins = UInt32.ofNat (logins who events + loginsOf who ⟨op, now⟩))
    (hhours : hourSum s = s.totalLogins) : Tallies cfg who now s (events ++ [⟨op, now⟩]) := by
  rw [← failuresSince_snoc] at hfailed
  rw [← files_snoc] at hfiles
  rw [← decrypts_snoc] at hdecrypts
  rw [← sizes_snoc] at hsizes
  rw [← logins_snoc] at hlogins
  exact ⟨hfailed, hfiles, hdecrypts, hsizes, hlogins, hhours⟩

theorem tallies_other (h : Tallies cfg who now s events) {op : Op}
    (hop : who ≠ op.who ∨ ∃ name, op = .unlock name) :
    Tallies cfg who now s (events ++ [⟨op, now⟩]) := by
  have hsame : sinceAfter op now who (failuresSince who events) = failuresSince who events ∧
      filesOf who ⟨op, now⟩ = [] ∧ decryptsOf who ⟨op, now⟩ = [] ∧ sizesOf who ⟨op, now⟩ = [] ∧
      loginsOf who ⟨op, now⟩ = 0 := by
    rcases hop with hw | ⟨name, rfl⟩
    · have hw' := Ne.symm hw
      cases op <;> simp_all [sinceAfter, filesOf, decryptsOf, sizesOf, loginsOf, Op.who]
    · exact ⟨rfl, rfl, rfl, rfl, rfl⟩
  obtain ⟨hfailed, hfiles, hdecrypts, hsizes, hlogins⟩ := hsame
  apply tallies_snoc
  · rw [hfailed]
    exact h.failed
  · simpa [hfiles] using h.files
  · simpa [hdecrypts] using h.decrypts
  · simpa [hsizes] using h.sizes
  · simpa [hlogins] using h.logins
  · exact h.hours

theorem tallies_failure (h : Tallies cfg who now s events) :
    Tallies cfg who now (counted cfg now hour s (.failure who)) (events ++ [⟨.failure who, now⟩]) := by
  apply tallies_snoc
  · rw [sinceAfter, if_pos rfl]
    exact h.failed.push (by simp)
  · simpa [filesOf, counted] using h.files
  · simpa [decryptsOf, counted] using h.decrypts
  · simpa [sizesOf, counted] using h.sizes
  · simpa [loginsOf, counted] using h.logins
  · exact h.hours

theorem tallies_success (h : Tallies cfg who now s events) (h0 : 0 ≤ hour) (h24 : hour < 24) :
    Tallies cfg who now (counted cfg now hour s (.success who)) (events ++ [⟨.success who, now⟩]) := by
  apply tallies_snoc
  · rw [sinceAfter, if_pos rfl]
    exact .nil
  · simpa [filesOf, counted] using h.files
  · simpa [decryptsOf, counted] using h.decrypts
  · simpa [sizesOf, counted] using h.sizes
  · have hone : loginsOf who ⟨.success who, now⟩ = 1 := if_pos rfl
    rw [hone, UInt32.ofNat_add, ← h.logins]
    rfl
  · have hcount := hourSum_count s (show hour.toNat < 24 by omega)
    have hrange : hour ≥ 0 ∧ hour < 24 := ⟨h0, h24⟩
    simp only [hourSum, counted, hrange, and_self, if_true]
    rw [hcount, h.hours]

theorem tallies_fileOp (h : Tallies cfg who now s events) (op : Bytes) (count size : Nat) :
    Tallies cfg who now (counted cfg now hour s (.fileOp who op count size))
      (events ++ [⟨.fileOp who op count size, now⟩]) := by
  have hfiles : Tail id cfg.bulkFilesWindowSec now (countFiles cfg now count s).fileOpTimes
      (files who events ++ filesOf who ⟨.fileOp who op count size, now⟩) := by
    have hnew : filesOf who ⟨.fileOp who op count size, now⟩ = List.replicate (repeats count) now :=
      if_pos rfl
    rw [hnew]
    exact h.files.push (by simp)
  have hlogins : s.totalLogins =
      UInt32.ofNat (logins who events + loginsOf who ⟨.fileOp who op count size, now⟩) := h.logins
  unfold counted
  dsimp only
  by_cases hd : op = bytes "decrypt"
  · rw [if_pos hd]
    refine @tallies_snoc cfg who now (countDecrypt cfg now (repeats count) size _) events _
      h.failed hfiles ?_ ?_ hlogins h.hours
    · have hnew : decryptsOf who ⟨.fileOp who op count size, now⟩ =
          List.replicate (repeats count) now := if_pos ⟨rfl, hd⟩
      rw [hnew]
      exact h.decrypts.push (by simp)
    · have hnew : sizesOf who ⟨.fileOp who op count size, now⟩ = [(now, size)] := if_pos ⟨rfl, hd⟩
      rw [hnew]
      exact h.sizes.push (by simp)
  · rw [if_neg hd]
    apply tallies_snoc h.failed hfiles _ _ hlogins h.hours
    · simpa [decryptsOf, hd, countFiles] using h.decrypts
    · simpa [sizesOf, hd, countFiles] using h.sizes

theorem tallies_recorded {table : Table UserStats} {op : Op}
    (h : Tallies cfg who now (lookup table who) events) (h0 : 0 ≤ hour) (h24 : hour < 24) :
    Tallies cfg who now
      (lookup (table.insert op.who (recorded cfg now hour (lookup table op.who) op).1) who)
      (events ++ [⟨op, now⟩]) := by
  by_cases hw : who = op.who
  · subst hw
    rw [lookup_insert]
    refine Tallies.same ?_ (recorded_counts _ op)
    cases op with
    | failure who => exact tallies_failure h
    | success who => exact tallies_success h h0 h24
    | fileOp who op count size => exact tallies_fileOp h op count size
    | unlock who => exact (tallies_other h (.inr ⟨who, rfl⟩)).same ⟨rfl, rfl, rfl, rfl, rfl, rfl⟩
  · rw [lookup_insert_ne hw]
    exact tallies_other h (.inl hw)

/-! ## Runs -/

def Forward (steps : List Step) : Prop := steps.Pairwise (·.now ≤ ·.now)

def HoursOfDay (steps : List Step) : Prop := ∀ s ∈ steps, 0 ≤ s.hour ∧ s.hour < 24

theorem past_snoc (steps : List Step) (s : Step) :
    past (steps ++ [s]) = past steps ++ (eventOf s).toList := by
  cases h : eventOf s <;> simp [past, h]

variable {steps : List Step} {last : Table UserStats}

theorem tallies_trace (h : Trace cfg ∅ steps last) (hf : Forward steps) (hh : HoursOfDay steps)
    (who : Bytes) : ∀ t, (∀ s ∈ steps, s.now ≤ t) → Tallies cfg who t (lookup last who) (past steps) := by
  induction h with
  | nil => exact fun t _ => tallies_empty who t
  | @snoc steps table table' log call now hour hrun hr ih =>
    intro t ht
    obtain ⟨hf, -, hnow⟩ := List.pairwise_append.mp hf
    have hown := List.mem_append_right steps
      (List.mem_singleton_self (⟨call, now, hour, table, log⟩ : Step))
    obtain ⟨h0, h24⟩ := hh _ hown
    have hbefore := ih hf (fun s hs => hh s (List.mem_append_left _ hs)) now fun s hs =>
      hnow s hs _ (List.mem_singleton_self _)
    refine Tallies.later ?_ (ht _ hown)
    rw [past_snoc]
    rcases call_cases hr with ⟨op, rfl, rfl, -⟩ | ⟨rfl, -, ⟨name, rfl⟩ | ⟨name, rfl, -⟩⟩
    · exact tallies_recorded hbefore h0 h24
    · simpa [eventOf] using hbefore
    · exact tallies_other hbefore (.inr ⟨name, rfl⟩)

theorem lookup_recorded {s : Step} {op : Op} (hcall : s.call = .record op)
    (hop : ∀ who, op ≠ .unlock who)
    (h : Runs (moment s.now s.hour) (s.call.run cfg s.before) [] last s.log) :
    SameCounts (counted cfg s.now s.hour (lookup s.before op.who) op) (lookup last op.who) := by
  rcases call_cases h with ⟨op', hop', rfl, -⟩ | ⟨-, -, ⟨name, hname⟩ | ⟨name, hname, -⟩⟩
  · rw [hcall] at hop'
    cases hop'
    rw [lookup_insert]
    exact recorded_counts _ op
  · rw [hcall] at hname
    cases hname
  · rw [hcall] at hname
    cases hname
    exact absurd rfl (hop name)

theorem counted_files (s : UserStats) (op : Bytes) (count size : Nat) :
    (counted cfg now hour s (.fileOp who op count size)).fileOpTimes =
      cut id cfg.bulkFilesWindowSec now (s.fileOpTimes ++ List.replicate (repeats count) now) := by
  unfold counted
  dsimp only
  by_cases hd : op = bytes "decrypt"
  · rw [if_pos hd]
    rfl
  · rw [if_neg hd]
    rfl

/-- **The windows are exact.** In every run from empty statistics whose clock does not
go back, right after a failure the failures since the last success that are no older
than their window are kept, and nothing else; so are the file operations right after
one, and the decryptions with their sizes, whose bytes are summed in 64 bits. The
logins are counted in 32 bits, in all and by the hour. -/
theorem windows_exact {s : Step} (h : Trace cfg ∅ (steps ++ [s]) last)
    (hf : Forward (steps ++ [s])) (hh : HoursOfDay (steps ++ [s])) :
    (∀ who, s.call = .record (.failure who) → (lookup last who).failedLoginTimes =
      within id cfg.failedLoginWindowSec s.now (failuresSince who (past (steps ++ [s])))) ∧
    (∀ who op count size, s.call = .record (.fileOp who op count size) →
      (lookup last who).fileOpTimes =
        within id cfg.bulkFilesWindowSec s.now (files who (past (steps ++ [s]))) ∧
      (op = bytes "decrypt" →
        (lookup last who).decryptTimes =
          within id cfg.decryptBurstWindowSec s.now (decrypts who (past (steps ++ [s]))) ∧
        (lookup last who).decryptSizeTimes =
          within Prod.fst cfg.decryptVolumeWindowSec s.now (sizes who (past (steps ++ [s]))) ∧
        (windowBytes (lookup last who)).toNat = ((within Prod.fst cfg.decryptVolumeWindowSec s.now
          (sizes who (past (steps ++ [s])))).map Prod.snd).sum % 2 ^ 64)) ∧
    ∀ who, (lookup last who).totalLogins = UInt32.ofNat (logins who (past (steps ++ [s]))) ∧
      hourSum (lookup last who) = (lookup last who).totalLogins := by
  obtain ⟨hrun, hr⟩ := trace_snoc h
  obtain ⟨hforward, -, hnow⟩ := List.pairwise_append.mp hf
  have hhours : HoursOfDay steps := fun s hs => hh s (List.mem_append_left _ hs)
  -- the statistics before the call, against the past at its time
  have hbefore (who : Bytes) := tallies_trace hrun hforward hhours who s.now fun s' hs' =>
    hnow s' hs' s (List.mem_singleton_self s)
  have hpast {op : Op} (hcall : s.call = .record op) : past (steps ++ [s]) = past steps ++ [⟨op, s.now⟩] := by
    simp [past_snoc, eventOf, hcall]
  refine ⟨?_, ?_, ?_⟩
  · intro who hcall
    have hcounts := lookup_recorded hcall (fun _ he => by cases he) hr
    rw [hpast hcall, failuresSince_snoc, sinceAfter, if_pos rfl]
    exact hcounts.failed.trans ((hbefore who).failed.exact (by simp))
  · intro who op count size hcall
    have hcounts := lookup_recorded hcall (fun _ he => by cases he) hr
    refine ⟨?_, fun hd => ?_⟩
    · have hnew : filesOf who ⟨.fileOp who op count size, s.now⟩ =
          List.replicate (repeats count) s.now := if_pos rfl
      rw [hpast hcall, files_snoc, hnew]
      exact hcounts.files.trans ((counted_files ..).trans ((hbefore who).files.exact (by simp)))
    · have hcounted : counted cfg s.now s.hour (lookup s.before who) (.fileOp who op count size) =
          countDecrypt cfg s.now (repeats count) size (countFiles cfg s.now count (lookup s.before who)) :=
        if_pos hd
      have hcounts : SameCounts _ (lookup last who) := hcounted ▸ hcounts
      have htimes : decryptsOf who ⟨.fileOp who op count size, s.now⟩ =
          List.replicate (repeats count) s.now := if_pos ⟨rfl, hd⟩
      have hsize : sizesOf who ⟨.fileOp who op count size, s.now⟩ = [(s.now, size)] := if_pos ⟨rfl, hd⟩
      have hsizes : (lookup last who).decryptSizeTimes =
          within Prod.fst cfg.decryptVolumeWindowSec s.now (sizes who (past (steps ++ [s]))) := by
        rw [hpast hcall, sizes_snoc, hsize]
        exact hcounts.sizes.trans ((hbefore who).sizes.exact (by simp))
      refine ⟨?_, hsizes, ?_⟩
      · rw [hpast hcall, decrypts_snoc, htimes]
        exact hcounts.decrypts.trans ((hbefore who).decrypts.exact (by simp))
      · rw [windowBytes_eq, hsizes]
  · intro who
    have hlast := tallies_trace h hf hh who s.now fun s' hs' => by
      rcases List.mem_append.mp hs' with hs' | hs'
      · exact hnow s' hs' s (List.mem_singleton_self s)
      · exact (congrArg Step.now (List.mem_singleton.mp hs')).le
    exact ⟨hlast.logins, hlast.hours⟩

/-! ## Two decryptions -/

def decryptions (size : Nat) : List (Op × Int) :=
  [(.fileOp eve (bytes "decrypt") 1 size, 1000002), (.fileOp eve (bytes "decrypt") 1 size, 1000001)]

theorem forward_decryptions (size : Nat) : Forward (ranSteps (decryptions size)) := by
  simp [Forward, ranSteps, decryptions]

theorem hours_ran (ops : List (Op × Int)) : HoursOfDay (ranSteps ops) := by
  apply ranSteps_spec
  intro op t table log _
  have hnoon : (0 : Int) ≤ 12 ∧ (12 : Int) < 24 := by decide
  exact hnoon

theorem windows_exact_two : (windowBytes (lookup (ran (decryptions 10)) eve)).toNat = 20 :=
  (((windows_exact (trace_ran (decryptions 10)) (forward_decryptions 10)
    (hours_ran (decryptions 10))).2.1 eve _ 1 10
    rfl).2 rfl).2.2

/-- Two files of half the 64-bit range count as nothing together. -/
theorem volume_wraps : ∃ (cfg : MonitorConfig) (steps : List Step) (last : Table UserStats),
    Trace cfg ∅ steps last ∧ Forward steps ∧ HoursOfDay steps ∧
      (∀ s ∈ steps, s.call = .record (.fileOp eve (bytes "decrypt") 1 (2 ^ 63))) ∧
      (windowBytes (lookup last eve)).toNat = 0 ∧
      ((within Prod.fst cfg.decryptVolumeWindowSec 1000002 (sizes eve (past steps))).map Prod.snd).sum =
        2 ^ 64 := by
  refine ⟨{}, _, _, trace_ran (decryptions (2 ^ 63)), forward_decryptions _, hours_ran _, ?_, ?_, ?_⟩
  · apply ranSteps_spec
    intro op t _ _ hop
    simp only [decryptions, List.mem_cons, List.not_mem_nil, or_false, Prod.mk.injEq] at hop
    rcases hop with ⟨rfl, -⟩ | ⟨rfl, -⟩ <;> rfl
  · decide
  · decide

end EncoderNext.SecurityMonitor
