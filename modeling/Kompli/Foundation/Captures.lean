import Kompli.Foundation.Regex

/-! Regular expressions with groups that are numbered: the ways to match, in the order in which they are tried, and
what the groups match then. A repetition tries to go on before it ends. -/
namespace Kompli.Foundation

inductive Capturing (α : Type) where
  | empty
  | char (p : α → Bool)
  | seq (first second : Capturing α)
  | alt (left right : Capturing α)
  | star (body : Capturing α)
  | group (n : Nat) (body : Capturing α)
  | start
  | stop
  | boundary (word : α → Bool)

namespace Capturing

variable {α : Type}

def optional (r : Capturing α) : Capturing α := alt r empty

/-- One after the other. -/
def seqs : List (Capturing α) → Capturing α
  | [] => empty
  | r :: rs => seq r (seqs rs)

/-- What is matched, whatever the groups. -/
def erase : Capturing α → Regex α
  | empty => .empty
  | char p => .char p
  | seq r t => .seq r.erase t.erase
  | alt r t => .alt r.erase t.erase
  | star r => .star r.erase
  | group _ r => r.erase
  | start => .start
  | stop => .stop
  | boundary word => .boundary word

def groups : Capturing α → List Nat
  | seq r t | alt r t => r.groups ++ t.groups
  | star r => r.groups
  | group n r => n :: r.groups
  | _ => []

/-- An expression without groups. -/
def ofRegex : Regex α → Capturing α
  | .empty => empty
  | .char p => char p
  | .seq r t => seq (ofRegex r) (ofRegex t)
  | .alt r t => alt (ofRegex r) (ofRegex t)
  | .star r => star (ofRegex r)
  | .start => start
  | .stop => stop
  | .boundary word => boundary word

@[simp] theorem erase_ofRegex (r : Regex α) : (ofRegex r).erase = r := by
  induction r with
  | seq r t ihr iht => rw [ofRegex, erase, ihr, iht]
  | alt r t ihr iht => rw [ofRegex, erase, ihr, iht]
  | star r ih => rw [ofRegex, erase, ih]
  | _ => rfl

@[simp] theorem groups_ofRegex (r : Regex α) : (ofRegex r).groups = [] := by
  induction r with
  | seq r t ihr iht => rw [ofRegex, groups, ihr, iht, List.append_nil]
  | alt r t ihr iht => rw [ofRegex, groups, ihr, iht, List.append_nil]
  | star r ih => rw [ofRegex, groups, ih]
  | _ => rfl

/-- How far a match has come: what is before and what is left, and for each group where it starts and what it is. -/
@[ext] structure Way (α : Type) where
  before : List α
  rest : List α
  found : Nat → Option (Nat × List α) := fun _ => none

/-- The text of a group, which is empty where the group has not been matched. -/
def Way.str (w : Way α) (n : Nat) : List α := ((w.found n).map Prod.snd).getD []

section Ways

/-- One more round that takes something, or the end. -/
def rounds (body : Way α → List (Way α)) : Nat → Way α → List (Way α)
  | 0, w => [w]
  | fuel + 1, w => ((body w).filter fun v => v.rest.length < w.rest.length).flatMap (rounds body fuel) ++ [w]

/-- The group is what has been taken since. -/
def Way.capture (w : Way α) (n : Nat) (v : Way α) : Way α :=
  { v with found := fun m => if m = n then some (w.before.length, v.before.drop w.before.length) else v.found m }

def ways : Capturing α → Way α → List (Way α)
  | empty, w => [w]
  | char p, w =>
    match w.rest with
    | [] => []
    | c :: rest => if p c then [{ w with before := w.before ++ [c], rest }] else []
  | seq r t, w => (ways r w).flatMap (ways t)
  | alt r t, w => ways r w ++ ways t w
  | star r, w => rounds (ways r) w.rest.length w
  | group n r, w => (ways r w).map (w.capture n)
  | start, w => if w.before.isEmpty then [w] else []
  | stop, w => if w.rest.isEmpty then [w] else []
  | boundary word, w => if Regex.atBoundary word w.before w.rest then [w] else []

/-- `std::regex_search`: the first way to match, from the first place where there is one. -/
def search (r : Capturing α) (text : List α) : Option (Way α) :=
  (List.range (text.length + 1)).findSome? fun i => (r.ways { before := text.take i, rest := text.drop i }).head?

/-- `std::regex_match`: the first way to match all of the text. -/
def isMatch (r : Capturing α) (text : List α) : Option (Way α) :=
  (r.ways { before := [], rest := text }).find? (·.rest.isEmpty)

variable {r t : Capturing α} {w : Way α}

theorem ways_char_of_cons {p : α → Bool} {c : α} {rest : List α} (hrest : w.rest = c :: rest) (hp : p c = true) :
    ways (char p) w = [{ w with before := w.before ++ [c], rest }] := by
  obtain ⟨before, text, found⟩ := w
  obtain rfl : text = c :: rest := hrest
  exact if_pos hp

/-- A character is taken, or there is no way. -/
theorem ways_char_cases (p : α → Bool) (w : Way α) : ways (char p) w = [] ∨ ∃ c rest, w.rest = c :: rest ∧ p c = true ∧
    ways (char p) w = [{ w with before := w.before ++ [c], rest }] := by
  cases hrest : w.rest with
  | nil =>
    obtain ⟨before, text, found⟩ := w
    obtain rfl : text = [] := hrest
    exact .inl rfl
  | cons c rest =>
    by_cases hp : p c = true
    · exact .inr ⟨c, rest, rfl, hp, ways_char_of_cons hrest hp⟩
    · obtain ⟨before, text, found⟩ := w
      obtain rfl : text = c :: rest := hrest
      exact .inl (if_neg hp)

theorem ways_seq : ways (seq r t) w = (ways r w).flatMap (ways t) := rfl

theorem ways_group {n : Nat} : ways (group n r) w = (ways r w).map (w.capture n) := rfl

theorem ways_start : ways start w = if w.before.isEmpty then [w] else [] := rfl

theorem ways_stop : ways stop w = if w.rest.isEmpty then [w] else [] := rfl

theorem ways_boundary {word : α → Bool} :
    ways (boundary word) w = if Regex.atBoundary word w.before w.rest then [w] else [] := rfl

end Ways

section Members

variable {r t : Capturing α} {w v : Way α}

/-- So much has been taken between the two. -/
def Way.Takes (w : Way α) (s : List α) (v : Way α) : Prop := v.before = w.before ++ s ∧ w.rest = s ++ v.rest

theorem Way.Takes.nil (w : Way α) : w.Takes [] w := ⟨(List.append_nil _).symm, rfl⟩

theorem Way.Takes.append {u : Way α} {s s' : List α} (h : w.Takes s u) (h' : u.Takes s' v) : w.Takes (s ++ s') v := by
  refine ⟨?_, ?_⟩
  · rw [h'.1, h.1, List.append_assoc]
  · rw [h.2, h'.2, List.append_assoc]

theorem Way.Takes.capture {s : List α} (h : w.Takes s v) (n : Nat) :
    w.capture n v = { v with found := fun m => if m = n then some (w.before.length, s) else v.found m } := by
  rw [Way.capture, h.1, List.drop_left]

/-- What a way takes the expression matches, and the other groups stay. -/
structure Reads (r : Capturing α) (w v : Way α) (s : List α) : Prop where
  takes : w.Takes s v
  erased : r.erase.Matches w.before s v.rest
  others : ∀ n ∉ r.groups, v.found n = w.found n

theorem reads_of_mem_rounds {body : Way α → List (Way α)} (hbody : ∀ w v, v ∈ body w → ∃ s, Reads r w v s) {fuel : Nat}
    (h : v ∈ rounds body fuel w) : ∃ s, Reads (star r) w v s := by
  induction fuel generalizing w with
  | zero =>
    obtain rfl := List.mem_singleton.mp h
    exact ⟨[], .nil _, .nil, fun _ _ => rfl⟩
  | succ fuel ih =>
    rw [rounds, List.mem_append, List.mem_singleton] at h
    rcases h with h | rfl
    · obtain ⟨u, hu, hv⟩ := List.mem_flatMap.mp h
      obtain ⟨hu, hless⟩ := List.mem_filter.mp hu
      obtain ⟨s, hs⟩ := hbody w u hu
      obtain ⟨s', hs'⟩ := ih hv
      have hne : s ≠ [] := by
        rintro rfl
        have hsame := hs.takes.2
        rw [decide_eq_true_eq, hsame] at hless
        simp at hless
      refine ⟨s ++ s', hs.takes.append hs'.takes, ?_, ?_⟩
      · have hlater := hs'.erased
        rw [hs.takes.1] at hlater
        refine Regex.Repeats.cons hne ?_ hlater
        rw [← hs'.takes.2]
        exact hs.erased
      · intro n hn
        rw [hs'.others n hn, hs.others n hn]
    · exact ⟨[], .nil _, .nil, fun _ _ => rfl⟩

theorem reads_of_mem (h : v ∈ r.ways w) : ∃ s, Reads r w v s := by
  induction r generalizing w v with
  | empty =>
    obtain rfl := List.mem_singleton.mp h
    exact ⟨[], .nil _, rfl, fun _ _ => rfl⟩
  | char p =>
    rcases ways_char_cases p w with hnone | ⟨c, rest, hrest, hp, hone⟩
    · rw [hnone] at h
      cases h
    · rw [hone] at h
      obtain rfl := List.mem_singleton.mp h
      exact ⟨[c], ⟨rfl, hrest⟩, ⟨c, rfl, hp⟩, fun _ _ => rfl⟩
  | seq r t ihr iht =>
    obtain ⟨u, hu, hv⟩ := List.mem_flatMap.mp h
    obtain ⟨s, hs⟩ := ihr hu
    obtain ⟨s', hs'⟩ := iht hv
    refine ⟨s ++ s', hs.takes.append hs'.takes, ⟨s, s', rfl, ?_, ?_⟩, fun n hn => ?_⟩
    · rw [← hs'.takes.2]
      exact hs.erased
    · rw [← hs.takes.1]
      exact hs'.erased
    · rw [groups, List.mem_append, not_or] at hn
      rw [hs'.others n hn.2, hs.others n hn.1]
  | alt r t ihr iht =>
    rcases List.mem_append.mp h with h | h
    · obtain ⟨s, hs⟩ := ihr h
      exact ⟨s, hs.takes, .inl hs.erased, fun n hn => hs.others n fun hr => hn (List.mem_append_left _ hr)⟩
    · obtain ⟨s, hs⟩ := iht h
      exact ⟨s, hs.takes, .inr hs.erased, fun n hn => hs.others n fun ht => hn (List.mem_append_right _ ht)⟩
  | star r ih => exact reads_of_mem_rounds (fun w v hv => ih hv) h
  | group m r ih =>
    obtain ⟨u, hu, rfl⟩ := List.mem_map.mp h
    obtain ⟨s, hs⟩ := ih hu
    refine ⟨s, hs.takes, hs.erased, fun n hn => ?_⟩
    rw [groups, List.mem_cons, not_or] at hn
    rw [← hs.others n hn.2]
    exact if_neg hn.1
  | start =>
    rw [ways_start] at h
    split_ifs at h with hempty
    · obtain rfl := List.mem_singleton.mp h
      exact ⟨[], .nil _, ⟨rfl, List.isEmpty_iff.mp hempty⟩, fun _ _ => rfl⟩
    · cases h
  | stop =>
    rw [ways_stop] at h
    split_ifs at h with hempty
    · obtain rfl := List.mem_singleton.mp h
      exact ⟨[], .nil _, ⟨rfl, List.isEmpty_iff.mp hempty⟩, fun _ _ => rfl⟩
    · cases h
  | boundary word =>
    rw [ways_boundary] at h
    split_ifs at h with hboundary
    · obtain rfl := List.mem_singleton.mp h
      exact ⟨[], .nil _, ⟨rfl, hboundary⟩, fun _ _ => rfl⟩
    · cases h

theorem exists_mem_rounds {body : Way α → List (Way α)} {matchesBody : List α → List α → List α → Prop}
    (hbody : ∀ (w : Way α) s rest, w.rest = s ++ rest → matchesBody w.before s rest →
      ∃ v ∈ body w, v.before = w.before ++ s ∧ v.rest = rest)
    {fuel : Nat} (hfuel : w.rest.length ≤ fuel) {s rest : List α} (hrest : w.rest = s ++ rest)
    (h : Regex.Repeats matchesBody w.before s rest) : ∃ v ∈ rounds body fuel w, v.before = w.before ++ s ∧ v.rest = rest := by
  induction fuel generalizing w s with
  | zero =>
    have hnone : w.rest = [] := List.eq_nil_of_length_eq_zero (by omega)
    rw [hnone] at hrest
    obtain ⟨rfl, rfl⟩ := List.append_eq_nil_iff.mp hrest.symm
    exact ⟨w, List.mem_singleton_self w, (List.append_nil _).symm, hnone⟩
  | succ fuel ih =>
    cases h with
    | nil => exact ⟨w, List.mem_append_right _ (List.mem_singleton_self w), (List.append_nil _).symm, hrest⟩
    | @cons _ first more _ hne hfirst hmore =>
      rw [List.append_assoc] at hrest
      obtain ⟨u, hu, hbefore, hleft⟩ := hbody w first (more ++ rest) hrest hfirst
      have hpos := List.length_pos_iff.mpr hne
      have hless : u.rest.length < w.rest.length := by
        have hlength : w.rest.length = first.length + (more ++ rest).length := by rw [hrest, List.length_append]
        rw [hleft]
        omega
      obtain ⟨v, hv, hvbefore, hvrest⟩ := ih (by omega) hleft (by rwa [hbefore])
      refine ⟨v, List.mem_append_left _ (List.mem_flatMap.mpr ⟨u, List.mem_filter.mpr ⟨hu, decide_eq_true hless⟩, hv⟩), ?_, hvrest⟩
      rw [hvbefore, hbefore, List.append_assoc]

/-- What the expression matches is taken in some way. -/
theorem exists_mem {s rest : List α} (hrest : w.rest = s ++ rest) (h : r.erase.Matches w.before s rest) :
    ∃ v ∈ r.ways w, v.before = w.before ++ s ∧ v.rest = rest := by
  induction r generalizing w s rest with
  | empty =>
    obtain rfl : s = [] := h
    exact ⟨w, List.mem_singleton_self w, (List.append_nil _).symm, hrest⟩
  | char p =>
    obtain ⟨c, rfl, hp⟩ := h
    rw [ways_char_of_cons hrest hp]
    exact ⟨_, List.mem_singleton_self _, rfl, rfl⟩
  | seq r t ihr iht =>
    obtain ⟨first, second, rfl, hr, ht⟩ := h
    rw [List.append_assoc] at hrest
    obtain ⟨u, hu, hbefore, hleft⟩ := ihr hrest hr
    obtain ⟨v, hv, hvbefore, hvrest⟩ := iht hleft (by rwa [hbefore])
    refine ⟨v, List.mem_flatMap.mpr ⟨u, hu, hv⟩, ?_, hvrest⟩
    rw [hvbefore, hbefore, List.append_assoc]
  | alt r t ihr iht =>
    rcases h with h | h
    · obtain ⟨v, hv, hresult⟩ := ihr hrest h
      exact ⟨v, List.mem_append_left _ hv, hresult⟩
    · obtain ⟨v, hv, hresult⟩ := iht hrest h
      exact ⟨v, List.mem_append_right _ hv, hresult⟩
  | star r ih => exact exists_mem_rounds (fun w s rest hrest h => ih hrest h) le_rfl hrest h
  | group n r ih =>
    obtain ⟨v, hv, hresult⟩ := ih hrest h
    exact ⟨w.capture n v, List.mem_map_of_mem hv, hresult⟩
  | start =>
    obtain ⟨rfl, hbefore⟩ := h
    have hways : ways start w = [w] := if_pos (List.isEmpty_iff.mpr hbefore)
    rw [hways]
    exact ⟨w, List.mem_singleton_self w, (List.append_nil _).symm, hrest⟩
  | stop =>
    obtain ⟨rfl, rfl⟩ := h
    have hways : ways stop w = [w] := if_pos (List.isEmpty_iff.mpr hrest)
    rw [hways]
    exact ⟨w, List.mem_singleton_self w, (List.append_nil _).symm, hrest⟩
  | boundary word =>
    obtain ⟨rfl, hboundary⟩ := h
    have hways : ways (boundary word) w = [w] := by
      rw [ways_boundary, hrest]
      exact if_pos hboundary
    rw [hways]
    exact ⟨w, List.mem_singleton_self w, (List.append_nil _).symm, hrest⟩

end Members

section Rules

variable {r t : Capturing α} {rs : List (Capturing α)} {w v : Way α}

/-- So much more has been taken. -/
def Way.next (w : Way α) (s rest : List α) : Way α := { w with before := w.before ++ s, rest }

/-- An expression without groups only takes something. -/
theorem mem_ways (hr : r.groups = []) :
    v ∈ r.ways w ↔ ∃ s rest, w.rest = s ++ rest ∧ r.erase.Matches w.before s rest ∧ v = w.next s rest := by
  have hnext {u : Way α} {s : List α} (h : Reads r w u s) : u = w.next s u.rest := by
    ext1
    · exact h.takes.1
    · rfl
    · funext n
      exact h.others n (by simp [hr])
  constructor
  · intro h
    obtain ⟨s, hs⟩ := reads_of_mem h
    exact ⟨s, v.rest, hs.takes.2, hs.erased, hnext hs⟩
  · rintro ⟨s, rest, hrest, hmatches, rfl⟩
    obtain ⟨u, hu, hbefore, rfl⟩ := exists_mem hrest hmatches
    obtain ⟨s', hs'⟩ := reads_of_mem hu
    obtain rfl : s = s' := List.append_cancel_left (hbefore.symm.trans hs'.takes.1)
    rwa [← hnext hs']

theorem mem_ways_seq (hr : r.groups = []) :
    v ∈ (seq r t).ways w ↔
      ∃ s rest, w.rest = s ++ rest ∧ r.erase.Matches w.before s rest ∧ v ∈ t.ways (w.next s rest) := by
  rw [ways_seq, List.mem_flatMap]
  constructor
  · rintro ⟨u, hu, hv⟩
    obtain ⟨s, rest, hrest, hmatches, rfl⟩ := (mem_ways hr).mp hu
    exact ⟨s, rest, hrest, hmatches, hv⟩
  · rintro ⟨s, rest, hrest, hmatches, hv⟩
    exact ⟨_, (mem_ways hr).mpr ⟨s, rest, hrest, hmatches, rfl⟩, hv⟩

theorem mem_ways_empty : v ∈ empty.ways w ↔ v = w := List.mem_singleton

/-- A group is found where it starts. -/
def Way.nextGroup (w : Way α) (n : Nat) (s rest : List α) : Way α :=
  { before := w.before ++ s, rest, found := fun m => if m = n then some (w.before.length, s) else w.found m }

theorem mem_ways_group {n : Nat} (hr : r.groups = []) :
    v ∈ (group n r).ways w ↔ ∃ s rest, w.rest = s ++ rest ∧ r.erase.Matches w.before s rest ∧ v = w.nextGroup n s rest := by
  rw [ways_group, List.mem_map]
  constructor
  · rintro ⟨u, hu, rfl⟩
    obtain ⟨s, rest, hrest, hmatches, rfl⟩ := (mem_ways hr).mp hu
    exact ⟨s, rest, hrest, hmatches, Way.Takes.capture ⟨rfl, hrest⟩ n⟩
  · rintro ⟨s, rest, hrest, hmatches, rfl⟩
    exact ⟨w.next s rest, (mem_ways hr).mpr ⟨s, rest, hrest, hmatches, rfl⟩, Way.Takes.capture ⟨rfl, hrest⟩ n⟩

theorem mem_ways_seq_group {n : Nat} (hr : r.groups = []) :
    v ∈ (seq (group n r) t).ways w ↔
      ∃ s rest, w.rest = s ++ rest ∧ r.erase.Matches w.before s rest ∧ v ∈ t.ways (w.nextGroup n s rest) := by
  rw [ways_seq, List.mem_flatMap]
  constructor
  · rintro ⟨u, hu, hv⟩
    obtain ⟨s, rest, hrest, hmatches, rfl⟩ := (mem_ways_group hr).mp hu
    exact ⟨s, rest, hrest, hmatches, hv⟩
  · rintro ⟨s, rest, hrest, hmatches, hv⟩
    exact ⟨_, (mem_ways_group hr).mpr ⟨s, rest, hrest, hmatches, rfl⟩, hv⟩

/-- What has to be at the start is not searched for elsewhere. -/
theorem search_start (text : List α) :
    (seqs (start :: rs)).search text = ((seqs rs).ways { before := [], rest := text }).head? := by
  have hways (i : Nat) : (seqs (start :: rs)).ways { before := text.take i, rest := text.drop i } =
      if (text.take i).isEmpty then (seqs rs).ways { before := text.take i, rest := text.drop i } else [] := by
    change (ways start _).flatMap _ = _
    rw [ways_start]
    split_ifs
    · exact List.flatMap_singleton _ _
    · rfl
  rw [search, List.range_succ_eq_map, List.findSome?_cons, hways, if_pos (by simp)]
  cases hhead : ((seqs rs).ways { before := text.take 0, rest := text.drop 0 }).head? with
  | some v => exact hhead.symm
  | none =>
    rw [List.take_zero, List.drop_zero] at hhead
    dsimp only
    rw [hhead, List.findSome?_eq_none_iff]
    rintro i hi
    obtain ⟨j, hj, rfl⟩ := List.mem_map.mp hi
    have hlength := List.mem_range.mp hj
    rw [hways, if_neg]
    · rfl
    · rw [List.isEmpty_iff]
      intro hnone
      have hzero := congrArg List.length hnone
      rw [List.length_take] at hzero
      simp only [List.length_nil] at hzero
      omega

end Rules

section Order

variable {β : Type} {f : β → Nat}

/-- No other is further than the first. -/
def Leads (f : β → Nat) (xs : List β) : Prop := ∀ x ∈ xs.head?, ∀ y ∈ xs, f y ≤ f x

theorem Leads.nil : Leads f [] := by
  intro x hx
  cases hx

/-- Where what a later choice leads to is no further than what an earlier one leads to. -/
theorem leads_flatMap {γ : Type} {g : γ → List β} {xs : List γ} (hg : ∀ x ∈ xs, Leads f (g x))
    (hxs : xs.Pairwise fun x y => ∀ u ∈ g x, ∀ v ∈ g y, ∃ u' ∈ g x, f v ≤ f u') : Leads f (xs.flatMap g) := by
  induction xs with
  | nil => exact .nil
  | cons x xs ih =>
    rw [List.pairwise_cons] at hxs
    rw [List.forall_mem_cons] at hg
    rw [List.flatMap_cons]
    cases hfirst : g x with
    | nil => exact ih hg.2 hxs.2
    | cons u us =>
      have hhead : (g x).head? = some u := by rw [hfirst]; rfl
      intro u' hu' v hv
      obtain rfl : u = u' := by simpa using hu'
      rcases List.mem_append.mp hv with hv | hv
      · exact hg.1 u hhead v (hfirst ▸ hv)
      · obtain ⟨y, hy, hv⟩ := List.mem_flatMap.mp hv
        obtain ⟨u', hu', hle⟩ := hxs.1 y hy u (by rw [hfirst]; exact List.mem_cons_self) v hv
        exact hle.trans (hg.1 u hhead u' hu')

theorem head?_flatMap {γ : Type} {g : γ → List β} {b : β} {xs : List γ} (h : (xs.flatMap g).head? = some b) :
    ∃ x ∈ xs, (g x).head? = some b := by
  induction xs with
  | nil => cases h
  | cons x xs ih =>
    rw [List.flatMap_cons] at h
    cases hfirst : g x with
    | nil =>
      rw [hfirst] at h
      obtain ⟨y, hy, hhead⟩ := ih h
      exact ⟨y, List.mem_cons_of_mem _ hy, hhead⟩
    | cons u us =>
      rw [hfirst] at h
      refine ⟨x, List.mem_cons_self, ?_⟩
      rw [hfirst]
      exact h

/-- The first way is the first from some way to match the first expression. -/
theorem head?_ways_seq {r t : Capturing α} {w v : Way α} (hr : r.groups = []) (h : ((seq r t).ways w).head? = some v) :
    ∃ s rest, w.rest = s ++ rest ∧ r.erase.Matches w.before s rest ∧ (t.ways (w.next s rest)).head? = some v := by
  obtain ⟨u, hu, hv⟩ := head?_flatMap h
  obtain ⟨s, rest, hrest, hmatches, rfl⟩ := (mem_ways hr).mp hu
  exact ⟨s, rest, hrest, hmatches, hv⟩

/-- The longest repetition of a character is tried first. -/
theorem descending_rounds (p : α → Bool) (fuel : Nat) (w : Way α) :
    (rounds (ways (char p)) fuel w).Pairwise fun u v => v.before.length ≤ u.before.length := by
  induction fuel generalizing w with
  | zero => exact List.pairwise_singleton _ _
  | succ fuel ih =>
    rw [rounds, List.pairwise_append]
    refine ⟨?_, List.pairwise_singleton _ _, ?_⟩
    · rcases ways_char_cases p w with hnone | ⟨c, rest, -, -, hone⟩
      · rw [hnone]
        exact .nil
      · rw [hone]
        generalize ({ w with before := w.before ++ [c], rest } : Way α) = u
        by_cases hless : u.rest.length < w.rest.length
        · rw [List.filter_cons, if_pos (decide_eq_true hless), List.filter_nil, List.flatMap_singleton]
          exact ih u
        · rw [List.filter_cons, if_neg (by rw [decide_eq_true_eq]; exact hless), List.filter_nil]
          exact .nil
    · intro u hu v hv
      obtain rfl := List.mem_singleton.mp hv
      have hmem : u ∈ rounds (ways (char p)) (fuel + 1) v := by
        rw [rounds]
        exact List.mem_append_left _ hu
      obtain ⟨s, hs⟩ := reads_of_mem_rounds (fun w v h => reads_of_mem h) hmem
      rw [hs.takes.1, List.length_append]
      exact Nat.le_add_right _ _

theorem descending_plus (p : α → Bool) (w : Way α) :
    ((ofRegex (.plus (.char p))).ways w).Pairwise fun u v => v.before.length ≤ u.before.length := by
  change ((ways (char p) w).flatMap (ways (star (char p)))).Pairwise _
  rcases ways_char_cases p w with hnone | ⟨c, rest, -, -, hone⟩
  · rw [hnone]
    exact .nil
  · rw [hone, List.flatMap_singleton]
    exact descending_rounds p _ _

end Order

end Capturing

end Kompli.Foundation
