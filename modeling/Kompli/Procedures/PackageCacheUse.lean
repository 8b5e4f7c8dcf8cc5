import Kompli.Foundation.Lines
import Kompli.Procedures.PackageCache

/-! The package cache is read as it was written, and how old the packages are that an audit goes by. -/
namespace Kompli.PackageInstalled
open Parson Ascii Foundation Streams

section Entries

/-- A package that fits on a line of its own: the name has no space to end it early. -/
structure IsPackage (name version : Bytes) : Prop where
  space_not_mem : space ∉ name
  name_line : newline ∉ name
  version_line : newline ∉ version

def IsPackages (packages : ByteMap Bytes) : Prop := ∀ name version, packages[name]? = some version → IsPackage name version

theorem isPackages_empty : IsPackages ∅ := by
  intro name version h
  rw [Std.ExtTreeMap.getElem?_empty] at h
  cases h

theorem IsPackages.insert {packages : ByteMap Bytes} (h : IsPackages packages) {name version : Bytes}
    (hpackage : IsPackage name version) : IsPackages (packages.insert name version) := by
  intro other value hvalue
  rw [getElem?_insert_eq] at hvalue
  split_ifs at hvalue with hname
  · cases hvalue
    exact hname ▸ hpackage
  · exact h other value hvalue

private theorem newline_not_mem_line {line output : Bytes} (h : line ∈ lines output) : newline ∉ line :=
  not_mem_of_mem_splitOn (mem_lines h)

theorem addLine_isPackages {packages : ByteMap Bytes} (h : IsPackages packages) {line : Bytes} (hline : newline ∉ line) :
    IsPackages (addLine packages line) := by
  rw [addLine]
  split_ifs
  · refine h.insert ⟨not_mem_takeWhile _, fun hmem => hline ((List.takeWhile_prefix _).subset hmem), fun hmem => ?_⟩
    exact hline ((List.dropWhile_suffix _).subset (List.mem_of_mem_tail hmem))
  · exact h

theorem readRpm_isPackages (output : Bytes) : IsPackages (readRpm output) := by
  rw [readRpm]
  apply List.foldlRecOn (motive := IsPackages) (lines output) addLine isPackages_empty
  intro packages h line hline
  exact addLine_isPackages h (newline_not_mem_line hline)

private theorem nextWord_blank (line : Bytes) : ∀ c ∈ (nextWord line).1, blank c = false := by
  intro c hc
  rw [nextWord] at hc
  cases hword : word line with
  | none =>
    rw [hword] at hc
    cases hc
  | some read =>
    rw [hword] at hc
    exact (word_some hword).2 c hc

theorem addDpkgLine_isPackages {read : Bool × ByteMap Bytes} (h : IsPackages read.2) (line : Bytes) :
    IsPackages (addDpkgLine read line).2 := by
  rw [addDpkgLine]
  split_ifs with hheader hstatus
  · exact h
  · have hname := nextWord_blank (nextWord line).2
    have hversion := nextWord_blank (nextWord (nextWord line).2).2
    have hblank : ∀ c : UInt8, c = space ∨ c = newline → blank c = true := by
      rintro c (rfl | rfl) <;> rfl
    dsimp only
    split_ifs
    · refine h.insert ⟨fun hmem => ?_, fun hmem => ?_, fun hmem => ?_⟩
      · exact absurd (hblank _ (.inl rfl)) (by simp [hname _ ((List.takeWhile_prefix _).subset hmem)])
      · exact absurd (hblank _ (.inr rfl)) (by simp [hname _ ((List.takeWhile_prefix _).subset hmem)])
      · exact absurd (hblank _ (.inr rfl)) (by simp [hversion _ hmem])
    · exact h
  · exact h

theorem readDpkg_isPackages (output : Bytes) : IsPackages (readDpkg output) := by
  rw [readDpkg]
  apply List.foldlRecOn (motive := fun read : Bool × ByteMap Bytes => IsPackages read.2) (lines output) addDpkgLine
    isPackages_empty
  intro read h line _
  exact addDpkgLine_isPackages h line

theorem getInstalledPackages_ok {host : Host} {packageManager : PackageManagerType} {cache : PackageCache}
    (h : getInstalledPackages host packageManager = .ok cache) :
    cache.packageManager = packageManager ∧ packageManager ≠ .autodetect ∧ IsPackages cache.packages := by
  cases packageManager with
  | autodetect => cases h
  | rpm =>
    rw [getInstalledPackages, getInstalledPackagesRpm] at h
    split at h
    · cases h
    · cases h
      exact ⟨rfl, by decide, readRpm_isPackages _⟩
  | dpkg =>
    rw [getInstalledPackages, getInstalledPackagesDpkg] at h
    split at h
    · cases h
    · cases h
      exact ⟨rfl, by decide, readDpkg_isPackages _⟩

end Entries

section RoundTrip

theorem addLine_lineOf (packages : ByteMap Bytes) {package : Bytes × Bytes} (h : space ∉ package.1) :
    addLine packages (lineOf package) = packages.insert package.1 package.2 := by
  have hline : lineOf package = package.1 ++ space :: package.2 := by
    rw [lineOf, List.append_assoc]
    rfl
  rw [addLine, hline, if_pos (by simp), takeWhile_cut h, dropWhile_cut h, List.tail_cons]

theorem stol_printSigned (time : Int64) : stol (printSigned time.toInt) = some time := by
  have hread := @signed_print 64 time.toInt time.le_toInt time.toInt_lt [] (fun c hc => by cases hc)
  rw [List.append_nil] at hread
  rw [stol, hread, Option.map_some, Int64.ofInt_toInt]

/-- What is written of a cache is read as that cache. -/
theorem loadPackageCache_cacheText {cache : PackageCache} (hmanager : cache.packageManager ≠ .autodetect)
    (hpackages : IsPackages cache.packages) (path : Bytes) :
    loadPackageCache path (some { contents := cacheText cache }) = .ok cache := by
  have hentry : ∀ package ∈ cache.packages.toList, IsPackage package.1 package.2 := fun package hpackage =>
    hpackages _ _ (Std.ExtTreeMap.mem_toList_iff_getElem?_eq_some.mp hpackage)
  have hlabel : atSign ∉ pkgCacheHeader ++ cache.packageManager.label ∧
      newline ∉ pkgCacheHeader ++ cache.packageManager.label := by
    cases cache.packageManager <;> decide +kernel
  have hheader : headerOf cache =
      (pkgCacheHeader ++ cache.packageManager.label) ++ atSign :: printSigned cache.lastUpdateTime.toInt := by
    rw [headerOf, List.append_assoc _ (utf8 "@")]
    rfl
  have hnewline : newline ∉ headerOf cache := by
    rw [hheader, List.mem_append, List.mem_cons, not_or, not_or]
    exact ⟨hlabel.2, by decide, newline_not_mem_printSigned _⟩
  have hlines : lines (cacheText cache) = headerOf cache :: cache.packages.toList.map lineOf := by
    have hbody := @lines_flatMap _ lineOf cache.packages.toList fun package hpackage => by
      have h := hentry package hpackage
      rw [lineOf, List.mem_append, List.mem_append, not_or, not_or]
      exact ⟨⟨h.name_line, by decide⟩, h.version_line⟩
    rw [cacheText, List.append_assoc]
    exact (lines_append hnewline _).trans (congrArg _ hbody)
  have hstart : startsWith pkgCacheHeader (headerOf cache) = true := by
    rw [headerOf, List.append_assoc, List.append_assoc]
    exact List.isPrefixOf_iff_prefix.mpr (List.prefix_append _ _)
  have hat : atSign ∈ headerOf cache := by
    rw [hheader]
    simp
  have hbody : (cache.packages.toList.map lineOf).foldl addLine ∅ = cache.packages :=
    foldl_toList cache.packages fun read package hpackage => addLine_lineOf read (hentry package hpackage).space_not_mem
  have htake : ((headerOf cache).takeWhile (· ≠ atSign)).drop pkgCacheHeader.length = cache.packageManager.label := by
    rw [hheader, takeWhile_cut hlabel.1, List.drop_left]
  have htime : stol ((headerOf cache).dropWhile (· ≠ atSign)).tail = some cache.lastUpdateTime := by
    rw [hheader, dropWhile_cut hlabel.1, List.tail_cons, stol_printSigned]
  rw [loadPackageCache]
  simp only [hlines, Bool.false_and, Bool.false_eq_true, if_false, hstart, hat, not_true, htake, htime, hbody,
    Bool.true_eq_false]
  obtain ⟨time, manager, packages⟩ := cache
  cases manager with
  | autodetect => exact absurd rfl hmanager
  | rpm => rfl
  | dpkg => rfl

theorem savePackageCache_ok {calls : SaveCalls} {cache : PackageCache} {path text : Bytes}
    (h : savePackageCache calls cache path = .ok text) : text = cacheText cache := by
  rw [savePackageCache] at h
  split at h
  · cases h
  · split_ifs at h
    exact (Except.ok.inj h).symm

end RoundTrip

section Age

variable {host : Host} {params : AuditParams}

/-- The package manager that an audit is to go by: the one asked for, else the one of the cache, else the one found. -/
def IsMeant (host : Host) (params : AuditParams) (packageManager : PackageManagerType) : Prop :=
  if params.packageManager ≠ .autodetect then packageManager = params.packageManager
  else
    match loadPackageCache host.cachePath host.cacheFile with
    | .ok cache => packageManager = cache.packageManager
    | .error _ => detectPackageManager host = .ok packageManager

/-- The packages come from the right manager, and they are new or not too old. -/
def Justified (host : Host) (params : AuditParams) : Chosen → Prop
  | .notApplicable _ => True
  | .packages packageManager origin cache =>
    IsMeant host params packageManager ∧ cache.packageManager = packageManager ∧
      match origin with
      | .command => getInstalledPackages host packageManager = .ok cache
      | .file =>
        loadPackageCache host.cachePath host.cacheFile = .ok cache ∧
          host.now.toInt - cache.lastUpdateTime.toInt ≤ PACKAGELIST_STALE_TTL.toInt

/-- What is reported of what the audit goes by. -/
def reported (params : AuditParams) : Chosen → Indicator
  | .notApplicable message => { message, status := .notApplicable }
  | .packages _ _ cache => reportInstalled params.toParams cache.packages

/-- The time in the file is so early that the age is not one of its type. -/
def AgeOverflows (host : Host) (params : AuditParams) : Prop :=
  ∃ cache, loadPackageCache host.cachePath host.cacheFile = .ok cache ∧
    (params.packageManager = .autodetect ∨ cache.packageManager = params.packageManager) ∧
    2 ^ 63 ≤ host.now.toInt - cache.lastUpdateTime.toInt

private theorem lt_age_iff (ttl now time : Int64) :
    ttl < now - time ↔ ttl.toInt < (now.toInt - time.toInt).bmod (2 ^ 64) := by
  rw [Int64.lt_iff_toInt_lt, Int64.toInt_sub]

/-- The difference of two times, as it is kept. -/
private theorem bmod_age {age : Int} (hlow : -2 ^ 64 < age) (hhigh : age < 2 ^ 64) :
    age.bmod (2 ^ 64) = if 2 ^ 63 ≤ age then age - 2 ^ 64 else if age < -2 ^ 63 then age + 2 ^ 64 else age := by
  rw [Int.bmod]
  split_ifs <;> omega

theorem refresh_justified {packageManager : PackageManagerType} {stale : Option PackageCache} {chosen : Chosen}
    (hmeant : IsMeant host params packageManager)
    (hstale : ∀ cache ∈ stale, Justified host params (.packages packageManager .file cache))
    (h : refresh host packageManager stale = .ok chosen) : Justified host params chosen := by
  rw [refresh] at h
  cases hinstalled : getInstalledPackages host packageManager with
  | ok cache =>
    rw [hinstalled] at h
    cases h
    exact ⟨hmeant, (getInstalledPackages_ok hinstalled).1, hinstalled⟩
  | error e =>
    rw [hinstalled] at h
    cases stale with
    | none => cases h
    | some cache =>
      cases h
      exact hstale cache rfl

theorem chooseByAge_justified {cache : PackageCache} {chosen : Chosen}
    (hload : loadPackageCache host.cachePath host.cacheFile = .ok cache)
    (hmeant : IsMeant host params cache.packageManager)
    (hage : host.now.toInt - cache.lastUpdateTime.toInt < 2 ^ 63) (h : chooseByAge host cache = .ok chosen) :
    Justified host params chosen := by
  have hlow := host.now.le_toInt
  have hhigh := cache.lastUpdateTime.toInt_lt
  have hold : ¬ PACKAGELIST_STALE_TTL < host.now - cache.lastUpdateTime →
      Justified host params (.packages cache.packageManager .file cache) := by
    intro hnot
    refine ⟨hmeant, rfl, hload, ?_⟩
    have hstale : PACKAGELIST_STALE_TTL.toInt = 12600 := rfl
    rw [lt_age_iff, bmod_age (by omega) (by omega)] at hnot
    split_ifs at hnot <;> omega
  rw [chooseByAge] at h
  split_ifs at h with hinvalid hstale
  · exact refresh_justified hmeant (fun _ hmem => by cases hmem) h
  · refine refresh_justified hmeant (fun other hother => ?_) h
    cases hother
    exact hold hinvalid
  · cases h
    exact hold hinvalid

/-- An age that overflows is negative, and the cache is taken for a new one. -/
theorem chooseByAge_of_overflow {cache : PackageCache} (hage : 2 ^ 63 ≤ host.now.toInt - cache.lastUpdateTime.toInt) :
    chooseByAge host cache = .ok (.packages cache.packageManager .file cache) := by
  have hhigh := host.now.toInt_lt
  have hlow := cache.lastUpdateTime.le_toInt
  have hwrapped : (host.now.toInt - cache.lastUpdateTime.toInt).bmod (2 ^ 64) < 0 := by
    rw [bmod_age (by omega) (by omega), if_pos hage]
    omega
  have hnot {ttl : Int64} (hpos : 0 ≤ ttl.toInt) : ¬ ttl < host.now - cache.lastUpdateTime := by
    rw [lt_age_iff]
    omega
  rw [chooseByAge, if_neg (hnot (by decide)), if_neg (hnot (by decide))]

theorem choosePackages_justified {chosen : Chosen} (hage : ¬ AgeOverflows host params)
    (h : choosePackages host params = .ok chosen) : Justified host params chosen := by
  have hnone {packageManager : PackageManagerType} :
      ∀ cache ∈ (none : Option PackageCache), Justified host params (.packages packageManager .file cache) := by
    intro cache hcache
    cases hcache
  have hasked (hne : params.packageManager ≠ .autodetect) : IsMeant host params params.packageManager := by
    rw [IsMeant, if_pos hne]
  rw [choosePackages] at h
  cases hload : loadPackageCache host.cachePath host.cacheFile with
  | ok cache =>
    rw [hload] at h
    dsimp only at h
    split_ifs at h with hmanager
    · have hmeant : IsMeant host params cache.packageManager := by
        rw [IsMeant]
        split_ifs with hne
        · exact hmanager.resolve_left hne
        · rw [hload]
      refine chooseByAge_justified hload hmeant (not_le.mp fun hoverflow => hage ?_) h
      exact ⟨cache, hload, hmanager, hoverflow⟩
    · exact refresh_justified (hasked (not_or.mp hmanager).1) hnone h
  | error e =>
    rw [hload] at h
    dsimp only at h
    split_ifs at h with hmanager
    · cases hdetect : detectPackageManager host with
      | ok packageManager =>
        rw [hdetect] at h
        refine refresh_justified ?_ hnone h
        rw [IsMeant, if_neg (not_not.mpr hmanager), hload]
        exact hdetect
      | error e =>
        rw [hdetect] at h
        dsimp only at h
        split_ifs at h
        cases h
        trivial
    · exact refresh_justified (hasked hmanager) hnone h

theorem choosePackages_of_overflow (h : AgeOverflows host params) :
    ∃ packageManager cache, choosePackages host params = .ok (.packages packageManager .file cache) ∧
      PACKAGELIST_STALE_TTL.toInt < host.now.toInt - cache.lastUpdateTime.toInt := by
  obtain ⟨cache, hload, hmanager, hage⟩ := h
  refine ⟨cache.packageManager, cache, ?_, ?_⟩
  · rw [choosePackages, hload]
    dsimp only
    rw [if_pos hmanager, chooseByAge_of_overflow hage]
  · have hstale : PACKAGELIST_STALE_TTL.toInt = 12600 := rfl
    omega

theorem auditPackageInstalled_ok_iff {indicator : Indicator} : auditPackageInstalled host params = .ok indicator ↔
    ∃ chosen, choosePackages host params = .ok chosen ∧ indicator = reported params chosen := by
  rw [auditPackageInstalled]
  cases choosePackages host params with
  | error e => exact iff_of_false nofun (by rintro ⟨chosen, ⟨⟩, -⟩)
  | ok chosen =>
    cases chosen <;>
    · simp only [Except.ok.injEq, exists_eq_left', reported]
      exact eq_comm

/-- The cache is restored as it was saved, and the verdict of an audit is taken from packages that are not too old unless
the age of the cache overflows. -/
theorem package_cache_kept_iff (host : Host) (params : AuditParams) :
    ((∀ calls path packageManager cache text, getInstalledPackages host packageManager = .ok cache →
        savePackageCache calls cache path = .ok text →
        loadPackageCache path (some { contents := text }) = .ok cache) ∧
      ∀ indicator, auditPackageInstalled host params = .ok indicator →
        ∃ chosen, choosePackages host params = .ok chosen ∧ indicator = reported params chosen ∧
          Justified host params chosen) ↔
      ¬ AgeOverflows host params := by
  constructor
  · rintro ⟨-, hjustified⟩ hoverflow
    obtain ⟨packageManager, cache, hchosen, hold⟩ := choosePackages_of_overflow hoverflow
    obtain ⟨chosen, hsame, -, hchosenJustified⟩ := hjustified _ (auditPackageInstalled_ok_iff.mpr ⟨_, hchosen, rfl⟩)
    cases hchosen.symm.trans hsame
    obtain ⟨-, -, -, hage⟩ := hchosenJustified
    omega
  · intro hage
    refine ⟨fun calls path packageManager cache text hcache hsave => ?_, fun indicator haudit => ?_⟩
    · obtain ⟨hmanager, hne, hpackages⟩ := getInstalledPackages_ok hcache
      rw [savePackageCache_ok hsave]
      exact loadPackageCache_cacheText (hmanager ▸ hne) hpackages path
    · obtain ⟨chosen, hchosen, hreported⟩ := auditPackageInstalled_ok_iff.mp haudit
      exact ⟨chosen, hchosen, hreported, choosePackages_justified hage hchosen⟩

private def oldHost : Host where
  statePath := utf8 "/var/lib"
  cacheFile := some { contents := utf8 "# PackageCache dpkg@-9223372036854775808\nvim 9.0\n" }
  executeCommand := fun _ => .error { message := [] }
  now := 1700000000
  fetchTime := 1700000000

/-- The oldest cache of all is taken for a new one. -/
theorem oldest_cache_used :
    ∃ cache indicator, choosePackages oldHost { packageName := utf8 "vim" } = .ok (.packages .dpkg .file cache) ∧
      PACKAGELIST_STALE_TTL.toInt < oldHost.now.toInt - cache.lastUpdateTime.toInt ∧
      auditPackageInstalled oldHost { packageName := utf8 "vim" } = .ok indicator ∧ indicator.status = .compliant := by
  refine ⟨{ lastUpdateTime := Int64.minValue, packageManager := .dpkg
            packages := (∅ : ByteMap Bytes).insert (utf8 "vim") (utf8 "9.0") }, _, ?_, by decide, rfl, ?_⟩
  · rfl
  · rfl

end Age

end Kompli.PackageInstalled
