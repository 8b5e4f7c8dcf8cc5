import Kompli.ComplianceEngine.StringTools

/-! Views, which are read one element at a time, and what they say once they are read: the values up to the end or to
the first error. -/
namespace Kompli.Ranges
open StringTools (ERANGE)

/-- What a source gives when it is asked for the next element: a value, the end, or an error. -/
abbrev Next (α : Type) := Except Error (Option α)

/-- A source may look for its next element for ever. It then has none in any number of turns; more turns never change
an element that it has. -/
structure Source (σ α : Type) where
  next : Nat → σ → Option (Next α × σ)
  mono : ∀ {fuel more state found}, next fuel state = some found → fuel ≤ more → next more state = some found

section Sources

variable {σ α : Type}

def Source.Returns (src : Source σ α) (state : σ) (next : Next α) (after : σ) : Prop :=
  ∃ fuel, src.next fuel state = some (next, after)

/-- These values come first, and none of them is the last word. -/
inductive Source.Run (src : Source σ α) : σ → List α → σ → Prop where
  | nil (state : σ) : Run src state [] state
  | cons {state between after : σ} {value : α} {values : List α} (head : src.Returns state (.ok (some value)) between)
      (tail : Run src between values after) : Run src state (value :: values) after

def stops : Next α → Bool
  | .ok (some _) => false
  | _ => true

/-- A source that is always asked at once. -/
def Source.ofStep (step : σ → Next α × σ) : Source σ α where
  next _ state := some (step state)
  mono h _ := h

structure ViewState (σ : Type) where
  source : σ
  stopped : Bool := false

/-- After the end or an error nothing is asked of the source any more. -/
def view (src : Source σ α) : Source (ViewState σ) α where
  next fuel state :=
    if state.stopped then some (.ok none, state)
    else (src.next fuel state.source).map fun (next, source) => (next, { source, stopped := stops next })
  mono := by
    intro fuel more state found h hle
    split_ifs at h ⊢
    · exact h
    · obtain ⟨inner, hinner, hfound⟩ := Option.map_eq_some_iff.mp h
      rw [src.mono hinner hle, Option.map_some, hfound]

/-- The element at which an iterator stands; none at the end. -/
def current : Next α → Option (Except Error α)
  | .error e => some (.error e)
  | .ok none => none
  | .ok (some value) => some (.ok value)

/-- A loop over the elements of a view. It is left with a result, or goes on with what it has gathered. -/
def forEach {β γ : Type} (src : Source σ α) (body : β → Except Error α → γ ⊕ β) : Nat → σ → β → Option ((γ ⊕ β) × σ)
  | 0, _, _ => none
  | fuel + 1, state, gathered =>
    match src.next (fuel + 1) state with
    | none => none
    | some (next, after) =>
      match current next with
      | none => some (.inr gathered, after)
      | some element =>
        match body gathered element with
        | .inl result => some (.inl result, after)
        | .inr gathered => forEach src body fuel after gathered

/-- The elements that a loop comes upon. -/
def elements (src : Source σ α) (fuel : Nat) (state : σ) : Option (List (Except Error α) × σ) :=
  (forEach src (fun gathered element => (.inr (gathered ++ [element]) : Empty ⊕ _)) fuel state []).map fun
    | (.inr gathered, after) => (gathered, after)

section Unique

variable [DecidableEq α]

structure UniqueState (σ α : Type) where
  source : σ
  seen : List α := []

def uniqueNext (src : Source σ α) (fuel : Nat) : Nat → UniqueState σ α → Option (Next α × UniqueState σ α)
  | 0, _ => none
  | turns + 1, state =>
    match src.next fuel state.source with
    | none => none
    | some (.error e, source) => some (.error e, { state with source })
    | some (.ok none, source) => some (.ok none, { state with source })
    | some (.ok (some value), source) =>
      if value ∈ state.seen then uniqueNext src fuel turns { state with source }
      else some (.ok (some value), { source, seen := value :: state.seen })

theorem uniqueNext_mono {src : Source σ α} {fuel more turns rest : Nat} {state : UniqueState σ α}
    {found : Next α × UniqueState σ α} (h : uniqueNext src fuel turns state = some found) (hfuel : fuel ≤ more)
    (hturns : turns ≤ rest) : uniqueNext src more rest state = some found := by
  induction turns generalizing rest state with
  | zero => cases h
  | succ turns ih =>
    obtain ⟨rest, rfl⟩ := Nat.exists_eq_add_of_le' hturns
    rw [← Nat.add_assoc, uniqueNext]
    rw [uniqueNext] at h
    cases hnext : src.next fuel state.source with
    | none =>
      rw [hnext] at h
      cases h
    | some inner =>
      rw [hnext] at h
      rw [src.mono hnext hfuel]
      match inner with
      | (.error e, source) => exact h
      | (.ok none, source) => exact h
      | (.ok (some value), source) =>
        dsimp only at h ⊢
        split_ifs at h ⊢
        · exact ih h (by omega)
        · exact h

def uniqueSource (src : Source σ α) : Source (UniqueState σ α) α where
  next fuel state := uniqueNext src fuel fuel state
  mono h hle := uniqueNext_mono h hle hle

def unique (src : Source σ α) : Source (ViewState (UniqueState (ViewState σ) α)) α := view (uniqueSource (view src))

/-- Nothing has been seen of the view yet. -/
def uniqueOf (state : ViewState σ) : ViewState (UniqueState (ViewState σ) α) := { source := { source := state } }

end Unique

def countBody (count : UInt64) : Except Error α → Except Error UInt64 ⊕ UInt64
  | .error e => .inl (.error e)
  | .ok _ =>
    if count = 0xFFFFFFFFFFFFFFFF then .inl (.error { message := utf8 "Range count out of range", code := ERANGE })
    else .inr (count + 1)

def count (src : Source σ α) (fuel : Nat) (state : ViewState σ) : Option (Except Error UInt64 × ViewState σ) :=
  (forEach (view src) countBody fuel state 0).map fun
    | (.inl result, after) => (result, after)
    | (.inr count, after) => (.ok count, after)

end Sources

section Loops

variable {σ α β γ : Type} {src : Source σ α} {body : β → Except Error α → γ ⊕ β} {state between after : σ} {next : Next α}
  {element : Except Error α} {value : α} {values : List α} {gathered more : β} {result : γ ⊕ β}

theorem forEach_mono {fuel more : Nat} (h : forEach src body fuel state gathered = some (result, after)) (hle : fuel ≤ more) :
    forEach src body more state gathered = some (result, after) := by
  induction fuel generalizing more state gathered with
  | zero => cases h
  | succ fuel ih =>
    obtain ⟨more, rfl⟩ := Nat.exists_eq_add_of_le' hle
    rw [← Nat.add_assoc, forEach]
    rw [forEach] at h
    cases hnext : src.next (fuel + 1) state with
    | none =>
      rw [hnext] at h
      cases h
    | some found =>
      obtain ⟨next, source⟩ := found
      rw [hnext] at h
      rw [src.mono hnext (by omega)]
      dsimp only at h ⊢
      cases hcurrent : current next with
      | none =>
        rw [hcurrent] at h
        exact h
      | some element =>
        rw [hcurrent] at h
        dsimp only at h ⊢
        cases hbody : body gathered element with
        | inl result =>
          rw [hbody] at h
          exact h
        | inr gathered =>
          rw [hbody] at h
          exact ih h (by omega)

/-- The loop ends with the result. -/
def Loops (src : Source σ α) (body : β → Except Error α → γ ⊕ β) (state : σ) (gathered : β) (result : γ ⊕ β) (after : σ) :
    Prop :=
  ∃ fuel, forEach src body fuel state gathered = some (result, after)

variable (body gathered) in
/-- One turn in which the source is asked, with as many turns as there are. -/
theorem forEach_returns (h : src.Returns state next between) : ∃ enough, ∀ fuel, enough ≤ fuel + 1 →
    forEach src body (fuel + 1) state gathered =
      match current next with
      | none => some (.inr gathered, between)
      | some element =>
        match body gathered element with
        | .inl result => some (.inl result, between)
        | .inr gathered => forEach src body fuel between gathered := by
  obtain ⟨enough, henough⟩ := h
  refine ⟨enough, fun fuel hle => ?_⟩
  rw [forEach, src.mono henough hle]

theorem Loops.ends (h : src.Returns state next after) (hcurrent : current next = none) :
    Loops src body state gathered (.inr gathered) after := by
  obtain ⟨enough, hturn⟩ := forEach_returns body gathered h
  refine ⟨enough + 1, ?_⟩
  rw [hturn enough (by omega), hcurrent]

theorem Loops.left {left : γ} (h : src.Returns state next after) (hcurrent : current next = some element)
    (hbody : body gathered element = .inl left) : Loops src body state gathered (.inl left) after := by
  obtain ⟨enough, hturn⟩ := forEach_returns body gathered h
  refine ⟨enough + 1, ?_⟩
  rw [hturn enough (by omega), hcurrent]
  dsimp only
  rw [hbody]

theorem Loops.again (h : src.Returns state next between) (hcurrent : current next = some element)
    (hbody : body gathered element = .inr more) (hloop : Loops src body between more result after) :
    Loops src body state gathered result after := by
  obtain ⟨enough, hturn⟩ := forEach_returns body gathered h
  obtain ⟨fuel, hfuel⟩ := hloop
  refine ⟨max enough fuel + 1, ?_⟩
  rw [hturn _ (by omega), hcurrent]
  dsimp only
  rw [hbody]
  exact forEach_mono hfuel (by omega)

theorem Source.Run.append {more : List α} (h : src.Run state values between) (hmore : src.Run between more after) :
    src.Run state (values ++ more) after := by
  induction h with
  | nil state => exact hmore
  | cons head tail ih => exact .cons head (ih hmore)

/-- A loop that is not left over values. -/
theorem Loops.run (step : β → α → β) (hrun : src.Run state values between)
    (hbody : ∀ gathered value, body gathered (.ok value) = .inr (step gathered value))
    (hloop : Loops src body between (values.foldl step gathered) result after) : Loops src body state gathered result after := by
  induction hrun generalizing gathered with
  | nil state => exact hloop
  | cons head tail ih => exact .again head rfl (hbody gathered _) (ih hloop)

theorem foldl_concat {δ : Type} (f : α → δ) (gathered : List δ) :
    values.foldl (fun gathered value => gathered ++ [f value]) gathered = gathered ++ values.map f := by
  induction values generalizing gathered with
  | nil => exact (List.append_nil gathered).symm
  | cons value values ih => rw [List.foldl_cons, ih, List.append_assoc, List.map_cons, List.singleton_append]

theorem elements_run (hrun : src.Run state values between) (hend : src.Returns between next after)
    (hafter : ∀ element, current next = some element → src.Returns after (.ok none) after) :
    ∃ fuel, elements src fuel state = some (values.map .ok ++ (current next).toList, after) := by
  have hlast : ∀ gathered : List (Except Error α), Loops src (fun gathered element => (.inr (gathered ++ [element]) : Empty ⊕ _))
      between gathered (.inr (gathered ++ (current next).toList)) after := by
    intro gathered
    cases hcurrent : current next with
    | none =>
      rw [Option.toList_none, List.append_nil]
      exact .ends hend hcurrent
    | some element => exact .again hend hcurrent rfl (.ends (hafter element hcurrent) rfl)
  have hloop := hlast ([] ++ values.map .ok)
  rw [← foldl_concat] at hloop
  obtain ⟨fuel, hfuel⟩ := Loops.run (fun gathered value => gathered ++ [Except.ok value]) hrun (fun _ _ => rfl) hloop
  refine ⟨fuel, ?_⟩
  rw [elements, hfuel, foldl_concat]
  rfl

end Loops

section Views

variable {σ α : Type} {src : Source σ α} {state between after : ViewState σ} {source source' : σ} {next : Next α}
  {values : List α}

theorem view_of_stopped (h : state.stopped = true) (fuel : Nat) : (view src).next fuel state = some (.ok none, state) :=
  if_pos h

theorem view_returns (h : src.Returns source next source') :
    (view src).Returns { source } next { source := source', stopped := stops next } := by
  obtain ⟨fuel, hfuel⟩ := h
  refine ⟨fuel, ?_⟩
  have hview : (view src).next fuel { source } =
      (src.next fuel source).map fun (next, source) => (next, { source, stopped := stops next }) := rfl
  rw [hview, hfuel, Option.map_some]

theorem view_run (h : src.Run source values source') : (view src).Run { source } values { source := source' } := by
  induction h with
  | nil source => exact .nil _
  | cons head tail ih => exact .cons (view_returns head) ih

theorem stopped_of_returns (h : (view src).Returns state next after) (hstops : stops next = true) :
    after.stopped = true := by
  obtain ⟨fuel, hfuel⟩ := h
  rw [view] at hfuel
  dsimp only at hfuel
  split_ifs at hfuel with hstopped
  · cases hfuel
    exact hstopped
  · obtain ⟨inner, -, hinner⟩ := Option.map_eq_some_iff.mp hfuel
    cases hinner
    exact hstops

/-- Iterating a view gives its values, and then what it stopped for if that is an error. -/
theorem elements_view (hrun : (view src).Run state values between) (hend : (view src).Returns between next after)
    (hstops : stops next = true) :
    ∃ fuel, elements (view src) fuel state = some (values.map .ok ++ (current next).toList, after) :=
  elements_run hrun hend fun _ _ => ⟨0, view_of_stopped (stopped_of_returns hend hstops) 0⟩

end Views

section Counts

variable {σ α : Type} {src : Source σ α} {state between after : ViewState σ} {next : Next α} {values : List α}

theorem ofNat_ne_max {n : Nat} (h : n + 1 < 2 ^ 64) : UInt64.ofNat n ≠ 0xFFFFFFFFFFFFFFFF := by
  intro hmax
  have hvalue := congrArg UInt64.toNat hmax
  have hsize : UInt64.size = 2 ^ 64 := rfl
  rw [UInt64.toNat_ofNat_of_lt' (by omega)] at hvalue
  have hlast : (0xFFFFFFFFFFFFFFFF : UInt64).toNat = 2 ^ 64 - 1 := rfl
  omega

/-- A loop that counts goes on over values as long as they can be counted. -/
theorem count_run {result : Except Error UInt64 ⊕ UInt64} (hrun : (view src).Run state values between) {n : Nat}
    (hroom : n + values.length < 2 ^ 64)
    (hloop : Loops (view src) countBody between (UInt64.ofNat (n + values.length)) result after) :
    Loops (view src) countBody state (UInt64.ofNat n) result after := by
  induction hrun generalizing n with
  | nil state => exact hloop
  | cons head tail ih =>
    rw [List.length_cons, Nat.add_comm _ 1, ← Nat.add_assoc] at hroom hloop
    refine .again head rfl (if_neg (ofNat_ne_max (by omega))) ?_
    have hsucc : UInt64.ofNat n + 1 = UInt64.ofNat (n + 1) := (UInt64.ofNat_add n 1).symm
    rw [hsucc]
    exact ih hroom hloop

theorem count_of_loops {result : Except Error UInt64 ⊕ UInt64} (h : Loops (view src) countBody state 0 result after) :
    ∃ fuel, count src fuel state = some (result.elim id .ok, after) := by
  obtain ⟨fuel, hfuel⟩ := h
  refine ⟨fuel, ?_⟩
  rw [count, hfuel]
  cases result <;> rfl

theorem count_stops (hrun : (view src).Run state values between) (hend : (view src).Returns between next after)
    (hlength : values.length < 2 ^ 64) (hstops : stops next = true) :
    ∃ fuel, count src fuel state = some (next.map fun _ => UInt64.ofNat values.length, after) := by
  match next with
  | .error e => exact count_of_loops (@count_run _ _ _ _ _ _ _ _ hrun 0 (by omega) (.left hend rfl rfl))
  | .ok none =>
    have hloop := @count_run _ _ _ _ _ _ _ _ hrun 0 (by omega) (.ends hend rfl)
    rw [Nat.zero_add] at hloop
    exact count_of_loops hloop
  | .ok (some value) => cases hstops

theorem count_overflow {value : α} (hrun : (view src).Run state values between)
    (hend : (view src).Returns between (.ok (some value)) after) (hlength : values.length = 2 ^ 64 - 1) :
    ∃ fuel, count src fuel state =
      some (.error { message := utf8 "Range count out of range", code := ERANGE }, after) := by
  refine count_of_loops (@count_run _ _ _ _ _ _ _ _ hrun 0 (by omega) (.left hend rfl ?_))
  rw [Nat.zero_add, hlength]
  rfl

end Counts

section Firsts

variable {σ α : Type} [DecidableEq α] {src : Source σ α} {source between source' : σ} {next : Next α} {value : α}
  {values seen : List α} {after : UniqueState σ α}

/-- The first occurrences of the values that have not been seen. -/
def firsts (seen : List α) : List α → List α
  | [] => []
  | value :: values => if value ∈ seen then firsts seen values else value :: firsts (value :: seen) values

theorem firsts_eq (seen values : List α) : firsts seen values = (values.filter (· ∉ seen)).eraseDups := by
  induction values generalizing seen with
  | nil => rfl
  | cons value values ih =>
    by_cases hseen : value ∈ seen
    · rw [firsts, if_pos hseen, ih, List.filter_cons_of_neg (by simpa using hseen)]
    · rw [firsts, if_neg hseen, ih, List.filter_cons_of_pos (by simpa using hseen), List.eraseDups_cons, List.filter_filter]
      congr 2
      refine List.filter_congr fun other _ => ?_
      by_cases hsame : other = value <;> simp [hsame]

theorem firsts_nil (values : List α) : firsts [] values = values.eraseDups := by
  rw [firsts_eq, List.filter_eq_self.mpr (by simp)]

theorem eraseDups_concat (h : value ∉ values) : (values ++ [value]).eraseDups = values.eraseDups ++ [value] := by
  rw [List.eraseDups_append]
  simp [List.removeAll, h, List.eraseDups_cons]

/-- One turn of the loop that looks for a value, with as many turns as there are. -/
theorem uniqueNext_returns (seen : List α) (h : src.Returns source next between) : ∃ enough, ∀ fuel, enough ≤ fuel →
    ∀ turns, uniqueNext src fuel (turns + 1) { source, seen } =
      match next with
      | .error e => some (.error e, { source := between, seen })
      | .ok none => some (.ok none, { source := between, seen })
      | .ok (some value) =>
        if value ∈ seen then uniqueNext src fuel turns { source := between, seen }
        else some (.ok (some value), { source := between, seen := value :: seen }) := by
  obtain ⟨enough, henough⟩ := h
  refine ⟨enough, fun fuel hle turns => ?_⟩
  rw [uniqueNext, src.mono henough hle]
  match next with
  | .error e => rfl
  | .ok none => rfl
  | .ok (some value) => rfl

theorem unique_stops (seen : List α) (h : src.Returns source next between) (hstops : stops next = true) :
    (uniqueSource src).Returns { source, seen } next { source := between, seen } := by
  obtain ⟨enough, hturn⟩ := uniqueNext_returns seen h
  refine ⟨enough + 1, (hturn _ (by omega) enough).trans ?_⟩
  match next with
  | .error e => rfl
  | .ok none => rfl
  | .ok (some value) => cases hstops

theorem unique_new (h : src.Returns source (.ok (some value)) between) (hnew : value ∉ seen) :
    (uniqueSource src).Returns { source, seen } (.ok (some value)) { source := between, seen := value :: seen } := by
  obtain ⟨enough, hturn⟩ := uniqueNext_returns seen h
  exact ⟨enough + 1, (hturn _ (by omega) enough).trans (if_neg hnew)⟩

theorem unique_again (h : src.Returns source (.ok (some value)) between) (hseen : value ∈ seen)
    (hnext : (uniqueSource src).Returns { source := between, seen } next after) :
    (uniqueSource src).Returns { source, seen } next after := by
  obtain ⟨enough, hturn⟩ := uniqueNext_returns seen h
  obtain ⟨fuel, hfuel⟩ := hnext
  refine ⟨max enough fuel + 1, (hturn _ (by omega) _).trans ?_⟩
  dsimp only
  rw [if_pos hseen]
  exact uniqueNext_mono hfuel (by omega) (by omega)

/-- What comes after the values comes after the first occurrences of them. -/
theorem unique_run (hrun : src.Run source values between) (seen : List α)
    (hlast : ∀ known : List α, (∀ old ∈ known, old ∈ seen ∨ old ∈ values) →
      ∃ last, (uniqueSource src).Returns { source := between, seen := known } next last ∧ last.source = source') :
    ∃ before last, (uniqueSource src).Run { source, seen } (firsts seen values) before ∧
      (uniqueSource src).Returns before next last ∧ last.source = source' := by
  induction hrun generalizing seen with
  | nil source =>
    obtain ⟨last, hreturns, hsource⟩ := hlast seen fun _ hold => .inl hold
    exact ⟨_, last, .nil _, hreturns, hsource⟩
  | @cons source middle between value values head tail ih =>
    rw [firsts]
    by_cases hseen : value ∈ seen
    · rw [if_pos hseen]
      obtain ⟨before, last, hvalues, hreturns, hsource⟩ := ih seen fun known hknown =>
        hlast known fun old hold => (hknown old hold).imp_right (List.mem_cons_of_mem value)
      generalize firsts seen values = found at hvalues ⊢
      cases hvalues with
      | nil => exact ⟨_, last, .nil _, unique_again head hseen hreturns, hsource⟩
      | cons first rest => exact ⟨before, last, .cons (unique_again head hseen first) rest, hreturns, hsource⟩
    · rw [if_neg hseen]
      obtain ⟨before, last, hvalues, hreturns, hsource⟩ := ih (value :: seen) fun known hknown =>
        hlast known fun old hold => by
          rcases hknown old hold with hold | hold
          · rcases List.mem_cons.mp hold with rfl | hold
            · exact .inr (List.mem_cons_self ..)
            · exact .inl hold
          · exact .inr (List.mem_cons_of_mem value hold)
      exact ⟨before, last, .cons (unique_new head hseen) hvalues, hreturns, hsource⟩

end Firsts
end Kompli.Ranges
