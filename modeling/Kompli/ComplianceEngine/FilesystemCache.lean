import Kompli.ComplianceEngine.FilesystemScanner
import Kompli.ComplianceEngine.MmiResults
import Kompli.Foundation.Loop

/-! The scanner over all of its calls: when it loads the cache, waits for one, or gives up one that has expired. -/
namespace Kompli.FilesystemScanner
open Foundation Streams
open Foundation.Loop (Turn run run_rule)

/-- The timeouts that the constructor accepts, in seconds. -/
structure Timeouts where
  softTimeout : Int
  hardTimeout : Int
  waitTimeout : Int
  soft_pos : 0 < softTimeout
  soft_le_hard : softTimeout ≤ hardTimeout

/-- The cache that is kept, how often the clock has been read, the file opened and a background scan started. -/
structure Scanner where
  cache : Option FSCache := none
  samples : Nat := 0
  loads : Nat := 0
  scans : Nat := 0

/-- There is a header, so that the clock is read. -/
def headed (content : Bytes) : Bool :=
  match lines content with
  | [] => false
  | first :: _ => (readHeader first).isSome

/-- The hard timeout is over. -/
def hardExpired (timeouts : Timeouts) (now : Int) (cache : FSCache) : Bool :=
  let age := if 0 < cache.scanEndTime.toInt then now - cache.scanEndTime.toInt else 0
  0 < timeouts.hardTimeout && timeouts.hardTimeout ≤ age

def softExpired (timeouts : Timeouts) (now : Int) (cache : FSCache) : Bool :=
  let age := if 0 < cache.scanEndTime.toInt then now - cache.scanEndTime.toInt else 0
  0 < timeouts.softTimeout && timeouts.softTimeout ≤ age

def unavailable : Error := { message := utf8 "filesystem cache unavailable; background scan started" }

def expired : Error := { message := utf8 "filesystem cache expired (hard timeout); refresh started" }

section Calls

variable (timeouts : Timeouts) (clock : Nat → Int) (file : Nat → Option Bytes)

/-- The clock may show anything at each of its readings. -/
def time (s : Scanner) : Int × Scanner := (clock s.samples, { s with samples := s.samples + 1 })

def backgroundScan (s : Scanner) : Scanner := { s with scans := s.scans + 1 }

/-- `LoadCache`: the file may hold anything each time it is opened. -/
def load (s : Scanner) : Bool × Scanner :=
  let opened := { s with loads := s.loads + 1 }
  match file s.loads with
  | none => (false, opened)
  | some content =>
    if headed content then
      let (now, sampled) := time clock opened
      match loadCache now timeouts.hardTimeout content with
      | none => (false, sampled)
      | some cache => (true, { sampled with cache := some cache })
    else (false, opened)

/-- One turn of waiting for the first cache. -/
def awaitTurn (startWait : Int) (s : Scanner) : Turn Scanner Scanner :=
  let (now, s) := time clock s
  if now - startWait < timeouts.waitTimeout then
    match load timeouts clock file s with
    | (true, s) => .leave s
    | (false, s) => .again s
  else .leave s

/-- One turn of waiting for a cache that replaces the expired one. -/
def renewTurn (startWait : Int) (s : Scanner) : Turn (Option FSCache × Scanner) Scanner :=
  let (now, s) := time clock s
  if now - startWait < timeouts.waitTimeout then
    match load timeouts clock file s with
    | (true, s) =>
      let (now, s) := time clock s
      match s.cache with
      | none => .again s
      | some cache => if now - cache.scanEndTime.toInt < timeouts.hardTimeout then .leave (some cache, s) else .again s
    | (false, s) => .again s
  else .leave (none, s)

/-- What is done with the cache that is kept. Nothing where a loop is not left in as many turns. -/
def useCache (fuel : Nat) (cache : FSCache) (s : Scanner) : Option (Except Error FSCache × Scanner) :=
  let (now, s) := time clock s
  if hardExpired timeouts now cache then
    let s := backgroundScan s
    let renewed :=
      if 0 < timeouts.waitTimeout then
        let (startWait, s) := time clock s
        run (renewTurn timeouts clock file startWait) fuel s
      else some (none, s)
    match renewed with
    | none => none
    | some (some cache, s) => some (.ok cache, s)
    | some (none, s) => some (.error expired, { s with cache := none })
  else if softExpired timeouts now cache then some (.ok cache, backgroundScan s)
  else some (.ok cache, s)

def getFullFilesystem (fuel : Nat) (s : Scanner) : Option (Except Error FSCache × Scanner) :=
  match s.cache with
  | some cache => useCache timeouts clock file fuel cache s
  | none =>
    let (loaded, s) := load timeouts clock file s
    let ready :=
      if loaded then some s
      else
        let s := backgroundScan s
        if 0 < timeouts.waitTimeout then
          let (startWait, s) := time clock s
          run (awaitTurn timeouts clock file startWait) fuel s
        else some s
    match ready with
    | none => none
    | some s =>
      match s.cache with
      | none => some (.error unavailable, s)
      | some cache => useCache timeouts clock file fuel cache s

/-- The scanner after some calls. -/
inductive Reached : Scanner → Prop where
  | start : Reached {}
  | call {s t : Scanner} {fuel : Nat} {result : Except Error FSCache} (before : Reached s)
      (h : getFullFilesystem timeouts clock file fuel s = some (result, t)) : Reached t

/-- Whenever the file is opened, a scan that it holds ended after the start of the clock. -/
def Dated : Prop :=
  ∀ n content first rest start stop, file n = some content → lines content = first :: rest →
    readHeader first = some (start, stop) → 0 < stop

end Calls

section Invariant

variable {timeouts : Timeouts} {clock : Nat → Int} {file : Nat → Option Bytes} {s t : Scanner} {fuel : Nat}

theorem signed_range {width : Nat} {text rest : Bytes} {i : Int} (h : signed width text = some (i, rest)) :
    -2 ^ (width - 1) ≤ i ∧ i < 2 ^ (width - 1) := by
  rw [signed] at h
  have hpos : (0 : Int) < 2 ^ (width - 1) := by positivity
  split at h
  · cases h
  · split_ifs at h with hlarge
    cases h
    have hcast : ((2 ^ (width - 1) : Nat) : Int) = 2 ^ (width - 1) := by push_cast; rfl
    omega
  · split_ifs at h with hlarge
    cases h
    have hcast : ((2 ^ (width - 1) : Nat) : Int) = 2 ^ (width - 1) := by push_cast; rfl
    omega

/-- The cache that is kept has a positive end. -/
def HasEnd (s : Scanner) : Prop := ∀ cache, s.cache = some cache → 0 < cache.scanEndTime.toInt

theorem readHeader_range {line : Bytes} {start stop : Int} (h : readHeader line = some (start, stop)) :
    -2 ^ 63 ≤ stop ∧ stop < 2 ^ 63 := by
  simp only [readHeader, Option.bind_eq_bind, Option.bind_eq_some_iff] at h
  obtain ⟨_, -, _, -, _, -, ⟨stop', _⟩, hstop, h⟩ := h
  split_ifs at h
  cases h
  exact signed_range hstop

theorem scanEndTime_pos (hfile : Dated file) {now : Int} {n : Nat} {content : Bytes} {cache : FSCache}
    (hcontent : file n = some content) (h : loadCache now timeouts.hardTimeout content = some cache) :
    0 < cache.scanEndTime.toInt := by
  rw [loadCache] at h
  split at h
  · cases h
  · rename_i first rest hlines
    split at h
    · cases h
    · rename_i start stop hheader
      split_ifs at h
      cases h
      obtain ⟨hlow, hhigh⟩ := readHeader_range hheader
      have hsize : ((Int64.size : Nat) : Int) = 2 ^ 64 := rfl
      rw [Int64.toInt_ofInt, Int.bmod_eq_of_le (by omega) (by omega)]
      exact hfile n content first rest start stop hcontent hlines hheader

/-- The clock has not been read less often, nor the file opened. -/
def Later (s t : Scanner) : Prop := s.samples ≤ t.samples ∧ s.loads ≤ t.loads

theorem Later.refl (s : Scanner) : Later s s := ⟨le_rfl, le_rfl⟩

theorem Later.trans {u : Scanner} (h : Later s t) (h' : Later t u) : Later s u :=
  ⟨h.1.trans h'.1, h.2.trans h'.2⟩

variable (clock) in
theorem later_time (s : Scanner) : Later s (time clock s).2 := ⟨Nat.le_succ _, le_rfl⟩

/-- Loading opens the file and keeps what it has loaded. -/
theorem load_spec (hfile : Dated file) (h : HasEnd s) : HasEnd (load timeouts clock file s).2 ∧
    Later s (load timeouts clock file s).2 ∧ s.loads < (load timeouts clock file s).2.loads := by
  rw [load]
  cases hcontent : file s.loads with
  | none => exact ⟨h, ⟨le_rfl, Nat.le_succ _⟩, Nat.lt_succ_self _⟩
  | some content =>
    dsimp only
    split_ifs with hheaded
    · cases hload : loadCache (time clock { s with loads := s.loads + 1 }).1 timeouts.hardTimeout content with
      | none => exact ⟨h, ⟨Nat.le_succ _, Nat.le_succ _⟩, Nat.lt_succ_self _⟩
      | some cache =>
        refine ⟨fun other hother => ?_, ⟨Nat.le_succ _, Nat.le_succ _⟩, Nat.lt_succ_self _⟩
        cases hother
        exact scanEndTime_pos hfile hcontent hload
    · exact ⟨h, ⟨le_rfl, Nat.le_succ _⟩, Nat.lt_succ_self _⟩

/-- At the last reading of the clock the cache has not expired. -/
def Fresh (timeouts : Timeouts) (clock : Nat → Int) (cache : FSCache) (t : Scanner) : Prop :=
  clock (t.samples - 1) - cache.scanEndTime.toInt < timeouts.hardTimeout

theorem fresh_time {cache : FSCache} (h : (time clock s).1 - cache.scanEndTime.toInt < timeouts.hardTimeout) :
    Fresh timeouts clock cache (time clock s).2 := h

theorem fresh_of_not_expired {cache : FSCache} (hpos : 0 < cache.scanEndTime.toInt)
    (h : hardExpired timeouts (time clock s).1 cache = false) : Fresh timeouts clock cache (time clock s).2 := by
  have hhard : 0 < timeouts.hardTimeout := timeouts.soft_pos.trans_le timeouts.soft_le_hard
  rw [hardExpired, if_pos hpos] at h
  simp only [hhard, decide_true, Bool.true_and, decide_eq_false_iff_not, not_le] at h
  exact fresh_time h

theorem awaitTurn_cases (hfile : Dated file) (h : HasEnd s) (startWait : Int) : ∃ next, HasEnd next ∧ Later s next ∧
    (awaitTurn timeouts clock file startWait s = .leave next ∨
      awaitTurn timeouts clock file startWait s = .again next) := by
  obtain ⟨hloaded, hafter, -⟩ := @load_spec timeouts clock file (time clock s).2 hfile h
  rw [awaitTurn]
  dsimp only
  split_ifs with hwait
  · generalize load timeouts clock file (time clock s).2 = loaded at hloaded hafter ⊢
    obtain ⟨success, next⟩ := loaded
    refine ⟨next, hloaded, (later_time clock s).trans hafter, ?_⟩
    cases success with
    | true => exact .inl rfl
    | false => exact .inr rfl
  · exact ⟨(time clock s).2, h, later_time clock s, .inl rfl⟩

theorem await_spec (hfile : Dated file) (h : HasEnd s) {startWait : Int}
    (hrun : run (awaitTurn timeouts clock file startWait) fuel s = some t) : HasEnd t ∧ Later s t := by
  refine run_rule (fun u => HasEnd u ∧ Later s u) (fun u => HasEnd u ∧ Later s u) ?_ ?_ ⟨h, .refl s⟩ hrun
  · rintro u next ⟨hend, hlater⟩ hturn
    obtain ⟨other, hother, hafter, hleave | hagain⟩ := @awaitTurn_cases timeouts clock file u hfile hend startWait
    · rw [hturn] at hleave
      cases hleave
    · rw [hturn] at hagain
      cases hagain
      exact ⟨hother, hlater.trans hafter⟩
  · rintro u next ⟨hend, hlater⟩ hturn
    obtain ⟨other, hother, hafter, hleave | hagain⟩ := @awaitTurn_cases timeouts clock file u hfile hend startWait
    · rw [hturn] at hleave
      cases hleave
      exact ⟨hother, hlater.trans hafter⟩
    · rw [hturn] at hagain
      cases hagain

theorem renewTurn_cases (hfile : Dated file) (h : HasEnd s) (startWait : Int) : ∃ next, HasEnd next ∧ Later s next ∧
    (renewTurn timeouts clock file startWait s = .again next ∨
      renewTurn timeouts clock file startWait s = .leave (none, next) ∨
      ∃ cache, renewTurn timeouts clock file startWait s = .leave (some cache, next) ∧ Fresh timeouts clock cache next) := by
  obtain ⟨hloaded, hafter, -⟩ := @load_spec timeouts clock file (time clock s).2 hfile h
  rw [renewTurn]
  dsimp only
  split_ifs with hwait
  · generalize load timeouts clock file (time clock s).2 = loaded at hloaded hafter ⊢
    obtain ⟨success, next⟩ := loaded
    have hnext := (later_time clock s).trans hafter
    cases success with
    | false => exact ⟨next, hloaded, hnext, .inl rfl⟩
    | true =>
      refine ⟨(time clock next).2, hloaded, hnext.trans (later_time clock next), ?_⟩
      dsimp only
      cases hcache : (time clock next).2.cache with
      | none => exact .inl rfl
      | some cache =>
        dsimp only
        split_ifs with hfresh
        · exact .inr (.inr ⟨cache, rfl, hfresh⟩)
        · exact .inl rfl
  · exact ⟨(time clock s).2, h, later_time clock s, .inr (.inl rfl)⟩

theorem renew_spec (hfile : Dated file) (h : HasEnd s) {startWait : Int} {renewed : Option FSCache}
    (hrun : run (renewTurn timeouts clock file startWait) fuel s = some (renewed, t)) :
    HasEnd t ∧ Later s t ∧ ∀ cache, renewed = some cache → Fresh timeouts clock cache t := by
  refine run_rule (fun u => HasEnd u ∧ Later s u)
    (fun left => HasEnd left.2 ∧ Later s left.2 ∧ ∀ cache, left.1 = some cache → Fresh timeouts clock cache left.2)
    ?_ ?_ ⟨h, .refl s⟩ hrun
  · rintro u next ⟨hend, hlater⟩ hturn
    obtain ⟨other, hother, hafter, hagain | hnone | ⟨cache, hsome, -⟩⟩ :=
      @renewTurn_cases timeouts clock file u hfile hend startWait
    · rw [hturn] at hagain
      cases hagain
      exact ⟨hother, hlater.trans hafter⟩
    · rw [hturn] at hnone
      cases hnone
    · rw [hturn] at hsome
      cases hsome
  · rintro u left ⟨hend, hlater⟩ hturn
    obtain ⟨other, hother, hafter, hagain | hnone | ⟨cache, hsome, hfresh⟩⟩ :=
      @renewTurn_cases timeouts clock file u hfile hend startWait
    · rw [hturn] at hagain
      cases hagain
    · rw [hturn] at hnone
      cases hnone
      exact ⟨hother, hlater.trans hafter, nofun⟩
    · rw [hturn] at hsome
      cases hsome
      refine ⟨hother, hlater.trans hafter, fun found hfound => ?_⟩
      cases hfound
      exact hfresh

/-- How a call ends: with a cache that has not expired, or with no cache at all. -/
structure Ends (timeouts : Timeouts) (clock : Nat → Int) (s t : Scanner) (result : Except Error FSCache) : Prop where
  hasEnd : HasEnd t
  later : Later s t
  fresh : ∀ cache, result = .ok cache → s.samples < t.samples ∧ Fresh timeouts clock cache t
  dropped : ∀ e, result = .error e → t.cache = none

theorem Ends.of_later {u : Scanner} {result : Except Error FSCache} (hlater : Later s t) (h : Ends timeouts clock t u result) :
    Ends timeouts clock s u result :=
  ⟨h.hasEnd, hlater.trans h.later, fun cache hok => (h.fresh cache hok).imp_left hlater.1.trans_lt, h.dropped⟩

theorem useCache_spec (hfile : Dated file) (h : HasEnd s) {cache : FSCache} (hpos : 0 < cache.scanEndTime.toInt)
    {result : Except Error FSCache} (hrun : useCache timeouts clock file fuel cache s = some (result, t)) :
    Ends timeouts clock s t result := by
  rw [useCache] at hrun
  dsimp only at hrun
  have hsampled : HasEnd (backgroundScan (time clock s).2) := h
  have hlater : Later s (backgroundScan (time clock s).2) := later_time clock s
  split_ifs at hrun with hhard hwait hsoft
  · generalize backgroundScan (time clock s).2 = u at hrun hsampled hlater
    cases hloop : run (renewTurn timeouts clock file (time clock u).1) fuel (time clock u).2 with
    | none =>
      rw [hloop] at hrun
      cases hrun
    | some left =>
      obtain ⟨renewed, v⟩ := left
      obtain ⟨hend, hafter, hfresh⟩ := renew_spec (s := (time clock u).2) hfile hsampled hloop
      rw [hloop] at hrun
      have hwhole := (hlater.trans (later_time clock u)).trans hafter
      cases renewed with
      | none =>
        cases hrun
        exact ⟨nofun, hwhole, nofun, fun _ _ => rfl⟩
      | some found =>
        cases hrun
        refine ⟨hend, hwhole, fun other hother => ?_, nofun⟩
        cases hother
        exact ⟨(hlater.1.trans_lt (Nat.lt_succ_self _)).trans_le hafter.1, hfresh found rfl⟩
  · cases hrun
    exact ⟨nofun, hlater, nofun, fun _ _ => rfl⟩
  · cases hrun
    have hfresh := fresh_of_not_expired hpos (Bool.eq_false_iff.mpr hhard)
    refine ⟨hsampled, hlater, fun other hother => ?_, nofun⟩
    cases hother
    exact ⟨Nat.lt_succ_self _, hfresh⟩
  · cases hrun
    have hfresh := fresh_of_not_expired hpos (Bool.eq_false_iff.mpr hhard)
    refine ⟨h, later_time clock s, fun other hother => ?_, nofun⟩
    cases hother
    exact ⟨Nat.lt_succ_self _, hfresh⟩

/-- A call ends so, and opens the file where no cache is kept. -/
theorem getFullFilesystem_spec (hfile : Dated file) (h : HasEnd s) {result : Except Error FSCache}
    (hrun : getFullFilesystem timeouts clock file fuel s = some (result, t)) :
    Ends timeouts clock s t result ∧ (s.cache = none → s.loads < t.loads) := by
  rw [getFullFilesystem] at hrun
  cases hcache : s.cache with
  | some cache =>
    rw [hcache] at hrun
    exact ⟨useCache_spec hfile h (h cache hcache) hrun, nofun⟩
  | none =>
    rw [hcache] at hrun
    dsimp only at hrun
    obtain ⟨hloaded, hafter, hopened⟩ := @load_spec timeouts clock file s hfile h
    generalize load timeouts clock file s = loaded at hrun hloaded hafter hopened
    obtain ⟨success, u⟩ := loaded
    dsimp only at hrun hloaded hafter hopened
    -- What is waited for, if anything, is there in the end or not.
    have hready : ∀ v, HasEnd v → Later u v →
        (match v.cache with
          | none => some (.error unavailable, v)
          | some cache => useCache timeouts clock file fuel cache v) = some (result, t) →
        Ends timeouts clock s t result ∧ s.loads < t.loads := by
      intro v hv hlater hused
      cases hkept : v.cache with
      | none =>
        rw [hkept] at hused
        cases hused
        exact ⟨⟨hv, hafter.trans hlater, nofun, fun _ _ => hkept⟩, hopened.trans_le hlater.2⟩
      | some cache =>
        rw [hkept] at hused
        have hends := useCache_spec hfile hv (hv cache hkept) hused
        exact ⟨hends.of_later (hafter.trans hlater), hopened.trans_le (hlater.2.trans hends.later.2)⟩
    refine (?_ : Ends timeouts clock s t result ∧ s.loads < t.loads).imp_right fun hless _ => hless
    split_ifs at hrun with hsuccess hwait
    · exact hready u hloaded (.refl u) hrun
    · cases hloop : run (awaitTurn timeouts clock file (time clock (backgroundScan u)).1) fuel
        (time clock (backgroundScan u)).2 with
      | none =>
        rw [hloop] at hrun
        cases hrun
      | some v =>
        obtain ⟨hv, hlater⟩ := await_spec (s := (time clock (backgroundScan u)).2) hfile hloaded hloop
        rw [hloop] at hrun
        exact hready v hv ((later_time clock (backgroundScan u)).trans hlater) hrun
    · exact hready (backgroundScan u) hloaded ⟨le_rfl, le_rfl⟩ hrun

theorem Reached.hasEnd (hfile : Dated file) (h : Reached timeouts clock file s) : HasEnd s := by
  induction h with
  | start => exact nofun
  | call before hrun ih => exact (getFullFilesystem_spec hfile ih hrun).1.hasEnd

/-- In any history of calls, a cache that is returned has not expired when the clock is read last, and after a call that
fails the next one opens the file again. -/
theorem cache_never_expired (hfile : Dated file) (hreached : Reached timeouts clock file s) {result : Except Error FSCache}
    (hrun : getFullFilesystem timeouts clock file fuel s = some (result, t)) :
    (∀ cache, result = .ok cache → s.samples < t.samples ∧
      clock (t.samples - 1) - cache.scanEndTime.toInt < timeouts.hardTimeout) ∧
    ∀ e, result = .error e → t.cache = none ∧ ∀ more next u,
      getFullFilesystem timeouts clock file more t = some (next, u) → t.loads < u.loads := by
  obtain ⟨hends, -⟩ := getFullFilesystem_spec hfile (hreached.hasEnd hfile) hrun
  refine ⟨hends.fresh, fun e herror => ⟨hends.dropped e herror, fun more next u hnext => ?_⟩⟩
  exact (getFullFilesystem_spec hfile hends.hasEnd hnext).2 (hends.dropped e herror)

end Invariant

private def shortCache : Bytes := utf8 "# FilesystemScanCache-V1 1 100\n/a 1 1 1 1 1 1 1 1 1\n"

private def anHour : Timeouts where
  softTimeout := 1800
  hardTimeout := 3600
  waitTimeout := 0
  soft_pos := by decide
  soft_le_hard := by decide

private theorem dated_shortCache : Dated fun _ => some shortCache := by
  intro _ content first rest start stop hcontent hlines hheader
  cases hcontent
  have hfirst : (lines shortCache).head? = some (utf8 "# FilesystemScanCache-V1 1 100") := by decide +kernel
  have hread : readHeader (utf8 "# FilesystemScanCache-V1 1 100") = some (1, 100) := by decide +kernel
  rw [hlines] at hfirst
  cases hfirst
  rw [hread] at hheader
  cases hheader
  decide

/-- A scan that is fifty seconds old is returned. -/
theorem cache_fifty_seconds : ∃ cache after,
    getFullFilesystem anHour (fun _ => 150) (fun _ => some shortCache) 0 {} = some (.ok cache, after) ∧
      150 - cache.scanEndTime.toInt < anHour.hardTimeout := by
  have hreturns : (getFullFilesystem anHour (fun _ => 150) (fun _ => some shortCache) 0 {}).any (·.1.isOk) = true := by
    decide +kernel
  obtain ⟨⟨result, after⟩, hrun, hok⟩ := (Option.any_eq_true _ _).mp hreturns
  cases result with
  | error e => cases hok
  | ok cache => exact ⟨cache, after, hrun, ((cache_never_expired dated_shortCache .start hrun).1 cache rfl).2⟩

end Kompli.FilesystemScanner
