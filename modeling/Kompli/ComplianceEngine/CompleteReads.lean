import Kompli.ComplianceEngine.FileObjectCollector

/-! What is done of a file that is collected: it is read to its end within the limits,
and what is opened is closed again. -/
namespace Kompli.FileObjectCollector
open Foundation Foundation.Loop VariableResolution

namespace Event

def opened : Event → Option Int
  | opens _ _ (.returned descriptor _) => if 0 ≤ descriptor then some descriptor else none
  | _ => none

def closed : Event → Option Int
  | closes descriptor _ => some descriptor
  | _ => none

/-- What is found by an inspection that succeeds. -/
def inspected : Event → Option FileMetadata
  | stats _ (.returned (0, metadata) _) => some metadata
  | _ => none

def read : Event → Option (Outcome ReadResult)
  | reads _ _ outcome => some outcome
  | _ => none

def retained : Event → Option Bytes
  | retains content => some content
  | _ => none

end Event

def Interrupted : Outcome ReadResult → Prop
  | .returned result errno => result.count < 0 ∧ errno = EINTR
  | .thrown _ => False

instance : DecidablePred Interrupted
  | .returned result errno => inferInstanceAs (Decidable (result.count < 0 ∧ errno = EINTR))
  | .thrown _ => inferInstanceAs (Decidable False)

/-- Nothing is given by a read that fails. -/
def bytesOf : Outcome ReadResult → Bytes
  | .returned result _ => delivered result
  | .thrown _ => []

def EndOfFile (outcome : Outcome ReadResult) : Prop := ∃ result errno, outcome = .returned result errno ∧ result.count = 0

def opened (events : List Event) : List Int := events.filterMap Event.opened
def closed (events : List Event) : List Int := events.filterMap Event.closed
def inspected (events : List Event) : List FileMetadata := events.filterMap Event.inspected
def reads (events : List Event) : List (Outcome ReadResult) := events.filterMap Event.read
def retained (events : List Event) : List Bytes := events.filterMap Event.retained

section Append

variable (events more : List Event) (event : Event)

theorem filterMap_concat {α β : Type} (f : α → Option β) (xs : List α) (x : α) :
    (xs ++ [x]).filterMap f = xs.filterMap f ++ (f x).toList := by
  rw [List.filterMap_append, List.filterMap_cons, List.filterMap_nil]
  cases f x <;> rfl

theorem opened_append : opened (events ++ more) = opened events ++ opened more := List.filterMap_append
theorem closed_append : closed (events ++ more) = closed events ++ closed more := List.filterMap_append
theorem inspected_append : inspected (events ++ more) = inspected events ++ inspected more :=
  List.filterMap_append
theorem reads_append : reads (events ++ more) = reads events ++ reads more := List.filterMap_append
theorem retained_append : retained (events ++ more) = retained events ++ retained more := List.filterMap_append

theorem opened_concat : opened (events ++ [event]) = opened events ++ event.opened.toList := filterMap_concat _ _ _
theorem closed_concat : closed (events ++ [event]) = closed events ++ event.closed.toList := filterMap_concat _ _ _
theorem inspected_concat : inspected (events ++ [event]) = inspected events ++ event.inspected.toList :=
  filterMap_concat _ _ _
theorem reads_concat : reads (events ++ [event]) = reads events ++ event.read.toList := filterMap_concat _ _ _
theorem retained_concat : retained (events ++ [event]) = retained events ++ event.retained.toList :=
  filterMap_concat _ _ _

end Append

section Call

variable {α : Type} {context : ContextInterface} {events : List Event}

theorem call_spec (outcome : List Event → Outcome α) (event : Outcome α → Event) (events : List Event) :
    Triple (fun t => t = events) (call outcome event)
      (fun returned t => t = events ++ [event (.returned returned.1 returned.2)])
      fun failure t => ∃ what, failure = .thrown what ∧ t = events ++ [event (.thrown what)] := by
  rintro _ rfl
  rw [call]
  simp only [record, bind_run_ok _ (get_run _), bind_run_ok _ (modify_run _ _)]
  cases outcome _ with
  | returned value errno => exact rfl
  | thrown what => exact ⟨what, rfl, rfl⟩

theorem fail_spec {σ : Type} {P : σ → Prop} {Q : α → σ → Prop} {E : Failure → σ → Prop} {message : String} {code : Int}
    (h : ∀ e s, P s → E e s) : Triple P (fail message code) Q E := Triple.throw fun s => h _ s

/-- A descriptor that is opened is one event more. -/
theorem openExistingFile_spec (path : Bytes) (flags : Nat) (message : String) (events : List Event) :
    Triple (fun t => t = events) (openExistingFile context path flags message)
      (fun descriptor t => 0 ≤ descriptor ∧ ∃ errno, t = events ++ [.opens path flags (.returned descriptor errno)])
      fun _ t => ∃ event, event.opened = none ∧ t = events ++ [event] ∧ ∃ outcome, event = .opens path flags outcome := by
  rw [openExistingFile]
  refine Triple.bind ((call_spec _ _ events).mono (fun _ h => h) (fun _ _ h => h) ?_) ?_
  · rintro _ _ ⟨what, -, rfl⟩
    exact ⟨_, rfl, rfl, _, rfl⟩
  · rintro ⟨descriptor, errno⟩
    dsimp only
    split_ifs with hneg
    · refine fail_spec fun _ t ht => ⟨_, ?_, ht, _, rfl⟩
      exact if_neg (not_le.mpr hneg)
    · exact Triple.pure fun t ht => ⟨not_lt.mp hneg, errno, ht⟩

variable (context) in
theorem statFileDescriptor_spec (descriptor : Int) (message : String) (events : List Event) :
    Triple (fun t => t = events) (statFileDescriptor context descriptor message)
      (fun metadata t => ∃ errno, t = events ++ [.stats descriptor (.returned (0, metadata) errno)])
      fun _ t => ∃ outcome, t = events ++ [.stats descriptor outcome] := by
  rw [statFileDescriptor]
  refine Triple.bind ((call_spec _ _ events).mono (fun _ h => h) (fun _ _ h => h) ?_) ?_
  · rintro _ _ ⟨what, -, rfl⟩
    exact ⟨_, rfl⟩
  · rintro ⟨⟨status, metadata⟩, errno⟩
    dsimp only
    split_ifs with hstatus
    · exact fail_spec fun _ t ht => ⟨_, ht⟩
    · rw [not_not] at hstatus
      subst hstatus
      exact Triple.pure fun t ht => ⟨errno, ht⟩

end Call

section Read

variable {policy : FileCollectionPolicy} {context : ContextInterface} {state next : Reading policy} {calls : List Event}

/-- Only reads from the state on, and no more of them than its budget. -/
structure ReadsFrom (state : Reading policy) (calls : List Event) : Prop where
  opened : opened calls = []
  closed : closed calls = []
  inspected : inspected calls = []
  length : (reads calls).length ≤ state.budget + 1
  retried : (reads calls).dropLast.countP Interrupted ≤ policy.readRetries.toNat - state.retries.toNat
  retained : ∀ content ∈ retained calls, content.length ≤ policy.contentBytes.toNat

/-- The file is read to its end. -/
structure ReadToEnd (state : Reading policy) (calls : List Event) (content : Bytes) : Prop where
  content : content = state.content ++ (reads calls).flatMap bytesOf
  ending : ∃ before last, reads calls = before ++ [last] ∧ EndOfFile last

theorem ReadsFrom.last (descriptor : Int) (request : UInt64) (outcome : Outcome ReadResult) :
    ReadsFrom state [.reads descriptor request outcome] where
  opened := rfl
  closed := rfl
  inspected := rfl
  length := Nat.le_add_left _ _
  retried := Nat.zero_le _
  retained := List.forall_mem_nil _

variable {result : ReadResult} {errno : Int}

/-- A read that goes on, and what comes after it. -/
theorem ReadOn.readsFrom (h : ReadOn state next result errno) (descriptor : Int) (hcalls : ReadsFrom next calls)
    (hreads : reads calls ≠ []) :
    ReadsFrom state
      ([.reads descriptor state.request (.returned result errno), .retains next.content] ++ calls) where
  opened := hcalls.opened
  closed := hcalls.closed
  inspected := hcalls.inspected
  length := by
    have hlength := hcalls.length
    have hbudget := h.budget_lt
    rw [reads_append, List.length_append]
    change 1 + _ ≤ _
    omega
  retried := by
    have hretried := hcalls.retried
    rw [reads_append]
    change ((Outcome.returned result errno :: reads calls).dropLast.countP _) ≤ _
    rw [List.dropLast_cons_of_ne_nil hreads, List.countP_cons]
    cases h with
    | interrupted count errno_eq content left retries =>
      split_ifs <;> omega
    | given count some content retries =>
      have hnot : ¬ Interrupted (.returned result errno) := fun hint => absurd hint.1 (Int64.not_lt.mpr (Int64.le_of_lt count))
      rw [if_neg (by simpa using hnot), ← retries]
      exact hretried
  retained := by
    rw [retained_append]
    change ∀ content ∈ next.content :: retained calls, _
    rw [List.forall_mem_cons]
    exact ⟨next.within, hcalls.retained⟩

theorem delivered_eq_nil {result : ReadResult} (h : result.count ≤ 0) : delivered result = [] := by
  have hcount : result.count.toNatClampNeg = 0 := by
    have hint := Int64.le_iff_toInt_le.mp h
    rw [Int64.toInt_zero] at hint
    rw [← Int64.toNat_toInt]
    omega
  rw [delivered, hcount, List.take_zero]

theorem ReadOn.content (h : ReadOn state next result errno) : next.content = state.content ++ delivered result := by
  cases h with
  | interrupted count errno_eq content left retries =>
    rw [content, delivered_eq_nil (Int64.le_of_lt count), List.append_nil]
  | given count some content retries => exact content

theorem ReadOn.readToEnd {content : Bytes} (h : ReadOn state next result errno) (descriptor : Int)
    (hcalls : ReadToEnd next calls content) :
    ReadToEnd state
      ([.reads descriptor state.request (.returned result errno), .retains next.content] ++ calls) content where
  content := by
    have hfirst : (reads [.reads descriptor state.request (.returned result errno), .retains next.content]).flatMap
        bytesOf = delivered result := List.append_nil _
    rw [hcalls.content, reads_append, List.flatMap_append, hfirst, h.content, List.append_assoc]
  ending := by
    obtain ⟨before, last, hreads, hlast⟩ := hcalls.ending
    refine ⟨.returned result errno :: before, last, ?_, hlast⟩
    rw [reads_append, hreads]
    rfl

theorem readTurn_ok {content : Bytes} (h : readTurn state result errno = .leave (.ok content)) :
    result.count = 0 ∧ content = state.content := by
  rw [readTurn] at h
  dsimp only at h
  split_ifs at h with hzero
  · cases h
    exact ⟨hzero, rfl⟩
  all_goals cases h

theorem readLoop_spec (context : ContextInterface) (descriptor : Int) (state : Reading policy) (events : List Event) :
    Triple (fun t => t = events) (readLoop context descriptor state)
      (fun content t => ∃ calls, t = events ++ calls ∧ ReadsFrom state calls ∧ reads calls ≠ [] ∧
        ReadToEnd state calls content)
      fun _ t => ∃ calls, t = events ++ calls ∧ ReadsFrom state calls ∧ reads calls ≠ [] := by
  induction hbudget : state.budget using Nat.strong_induction_on generalizing state events with
  | _ budget ih =>
    rw [readLoop]
    refine Triple.bind ((call_spec _ _ events).mono (fun _ h => h) (fun _ _ h => h) ?_) ?_
    · rintro _ _ ⟨what, -, rfl⟩
      exact ⟨_, rfl, .last _ _ _, List.cons_ne_nil _ _⟩
    · rintro ⟨result, errno⟩
      dsimp only
      split
      · next content hturn =>
        obtain ⟨hcount, rfl⟩ := readTurn_ok hturn
        refine Triple.pure fun t ht => ⟨_, ht, .last _ _ _, List.cons_ne_nil _ _, ?_, [], _, rfl, result, errno, rfl, hcount⟩
        change _ = _ ++ (delivered result ++ [])
        rw [delivered_eq_nil (hcount ▸ Int64.le_refl _), List.append_nil, List.append_nil]
      · exact Triple.throw fun t ht => ⟨_, ht, .last _ _ _, List.cons_ne_nil _ _⟩
      · next next hturn =>
        have hon := readTurn_again hturn
        have hnext := ih next.budget (hbudget ▸ hon.budget_lt) next
          (events ++ [.reads descriptor state.request (.returned result errno), .retains next.content]) rfl
        refine Triple.bind (Triple.modify (Q := fun _ t => t = events ++
          [.reads descriptor state.request (.returned result errno), .retains next.content]) ?_) fun _ => ?_
        · rintro t rfl
          rw [List.append_assoc]
          rfl
        · refine hnext.mono (fun _ h => h) ?_ ?_
          · rintro content t ⟨calls, rfl, hcalls, hreads, hend⟩
            refine ⟨_, List.append_assoc _ _ _, hon.readsFrom descriptor hcalls hreads, ?_, hon.readToEnd descriptor hend⟩
            exact List.cons_ne_nil _ _
          · rintro _ t ⟨calls, rfl, hcalls, hreads⟩
            exact ⟨_, List.append_assoc _ _ _, hon.readsFrom descriptor hcalls hreads, List.cons_ne_nil _ _⟩

/-- Nothing is opened or closed, and the file is read within the limits. -/
structure Quiet (policy : FileCollectionPolicy) (calls : List Event) : Prop where
  opened : opened calls = []
  closed : closed calls = []
  length : (reads calls).length ≤ policy.contentBytes.toNat + policy.readRetries.toNat + 1
  retried : (reads calls).dropLast.countP Interrupted ≤ policy.readRetries.toNat
  retained : ∀ content ∈ retained calls, content.length ≤ policy.contentBytes.toNat

theorem Quiet.nil : Quiet policy [] where
  opened := rfl
  closed := rfl
  length := Nat.zero_le _
  retried := Nat.zero_le _
  retained := List.forall_mem_nil _

theorem ReadsFrom.quiet (h : ReadsFrom (.start policy) calls) : Quiet policy calls where
  opened := h.opened
  closed := h.closed
  length := h.length
  retried := h.retried
  retained := h.retained

theorem Quiet.stats (h : Quiet policy calls) (descriptor : Int) (outcome : Outcome (Int × FileMetadata)) :
    Quiet policy (calls ++ [.stats descriptor outcome]) where
  opened := by simpa [opened_concat, Event.opened] using h.opened
  closed := by simpa [closed_concat, Event.closed] using h.closed
  length := by simpa [reads_concat, Event.read] using h.length
  retried := by simpa [reads_concat, Event.read] using h.retried
  retained := by simpa [retained_concat, Event.retained] using h.retained

/-- What a complete reading has found. -/
structure ReadCompletely (policy : FileCollectionPolicy) (before after : FileMetadata) (calls : List Event)
    (content : Bytes) : Prop where
  quiet : Quiet policy calls
  content_eq : content = (reads calls).flatMap bytesOf
  ending : ∃ others last, reads calls = others ++ [last] ∧ EndOfFile last
  size : 0 < before.size → content.length = before.size
  inspected : inspected calls = [after]
  same : sameObservedFile before after

theorem readCompleteFile_spec (context : ContextInterface) (maxSize : UInt64) (descriptor : Int) (before : FileMetadata)
    (policy : FileCollectionPolicy) (events : List Event) :
    Triple (fun t => t = events) (readCompleteFile context maxSize descriptor before policy)
      (fun content t => ∃ calls after, t = events ++ calls ∧ ReadCompletely policy before after calls content)
      fun _ t => ∃ calls, t = events ++ calls ∧ Quiet policy calls := by
  rw [readCompleteFile]
  split_ifs with hmax
  · exact fail_spec fun _ t ht => ⟨[], by rw [ht, List.append_nil], .nil⟩
  · refine Triple.bind ((readLoop_spec context descriptor (.start policy) events).mono (fun _ h => h) (fun _ _ h => h) ?_) ?_
    · rintro _ t ⟨calls, ht, hcalls, -⟩
      exact ⟨calls, ht, hcalls.quiet⟩
    intro content
    refine Triple.of_exists fun calls => ?_
    split_ifs with hsize
    · exact fail_spec fun _ t ht => ⟨calls, ht.1, ht.2.1.quiet⟩
    refine Triple.at_state fun t => ?_
    rintro ⟨rfl, hcalls, -, hend⟩
    have hstat := statFileDescriptor_spec context descriptor "Failed to verify exact file after reading"
      (events ++ calls)
    refine Triple.bind (hstat.mono (fun _ h => h) (fun _ _ h => h) ?_) ?_
    · rintro _ _ ⟨outcome, rfl⟩
      exact ⟨_, List.append_assoc _ _ _, hcalls.quiet.stats _ _⟩
    intro after
    refine Triple.of_exists fun errno => ?_
    split_ifs with hsame
    · exact fail_spec fun _ t ht => ⟨_, ht.trans (List.append_assoc _ _ _), hcalls.quiet.stats _ _⟩
    · refine Triple.pure fun t ht => ⟨_, after, ht.trans (List.append_assoc _ _ _), ?_⟩
      have hreads : reads (calls ++ [.stats descriptor (.returned (0, after) errno)]) = reads calls := by
        rw [reads_append]
        exact List.append_nil _
      refine ⟨hcalls.quiet.stats _ _, ?_, ?_, ?_, ?_, by simpa using hsame⟩
      · rw [hreads]
        exact hend.content
      · rw [hreads]
        exact hend.ending
      · intro hpos
        by_contra hne
        exact hsize ⟨hpos, hne⟩
      · rw [inspected_append, hcalls.inspected]
        rfl

end Read

section Custody

variable {policy : FileCollectionPolicy} {context : ContextInterface} {events calls : List Event} {live : List Int}
  {descriptor : Int}

/-- What is opened and not closed is held by the live objects, the innermost first. -/
structure Owing (policy : FileCollectionPolicy) (live : List Int) (events : List Event) : Prop where
  opened_le : (opened events).length ≤ 2
  closed : closed events ++ live.filter (0 ≤ ·) = (opened events).reverse
  length : (reads events).length ≤ policy.contentBytes.toNat + policy.readRetries.toNat + 1
  retried : (reads events).dropLast.countP Interrupted ≤ policy.readRetries.toNat
  retained : ∀ content ∈ retained events, content.length ≤ policy.contentBytes.toNat

/-- Before the file is read. -/
structure Opened (descriptors : List Int) (found : List FileMetadata) (events : List Event) : Prop where
  opened : opened events = descriptors
  closed : closed events = []
  inspected : inspected events = found
  reads : reads events = []
  retained : retained events = []

theorem Opened.nil : Opened [] [] [] := ⟨rfl, rfl, rfl, rfl, rfl⟩

theorem Opened.opens {descriptors : List Int} {found : List FileMetadata} (h : Opened descriptors found events)
    (path : Bytes) (flags : Nat) (outcome : Outcome Int) :
    Opened (descriptors ++ (Event.opens path flags outcome).opened.toList) found
      (events ++ [.opens path flags outcome]) where
  opened := by rw [opened_concat, h.opened]
  closed := by simp [closed_concat, Event.closed, h.closed]
  inspected := by simp [inspected_concat, Event.inspected, h.inspected]
  reads := by simp [reads_concat, Event.read, h.reads]
  retained := by simp [retained_concat, Event.retained, h.retained]

theorem Opened.stats {descriptors : List Int} {found : List FileMetadata} (h : Opened descriptors found events)
    (descriptor : Int) (outcome : Outcome (Int × FileMetadata)) :
    Opened descriptors (found ++ (Event.stats descriptor outcome).inspected.toList)
      (events ++ [.stats descriptor outcome]) where
  opened := by simp [opened_concat, Event.opened, h.opened]
  closed := by simp [closed_concat, Event.closed, h.closed]
  inspected := by rw [inspected_concat, h.inspected]
  reads := by simp [reads_concat, Event.read, h.reads]
  retained := by simp [retained_concat, Event.retained, h.retained]

variable (policy) in
theorem Opened.owing {descriptors : List Int} {found : List FileMetadata} (h : Opened descriptors found events)
    (hle : descriptors.length ≤ 2) (hopen : ∀ descriptor ∈ descriptors, 0 ≤ descriptor) (hcalls : Quiet policy calls) :
    Owing policy descriptors.reverse (events ++ calls) where
  opened_le := by
    rw [opened_append, h.opened, hcalls.opened, List.append_nil]
    exact hle
  closed := by
    have hfilter : descriptors.reverse.filter (0 ≤ ·) = descriptors.reverse :=
      List.filter_eq_self.mpr fun d hd => decide_eq_true (hopen d (List.mem_reverse.mp hd))
    rw [closed_append, opened_append, h.opened, h.closed, hcalls.opened, hcalls.closed, List.append_nil, List.append_nil,
      hfilter, List.nil_append]
  length := by
    rw [reads_append, h.reads]
    exact hcalls.length
  retried := by
    rw [reads_append, h.reads]
    exact hcalls.retried
  retained := by
    rw [retained_append, h.retained]
    exact hcalls.retained

/-- The object that is closed holds nothing any more. -/
theorem Owing.closes (dead : List Int) (h : Owing policy (dead ++ descriptor :: live) events)
    (hdead : ∀ d ∈ dead, d < 0) (hopen : 0 ≤ descriptor) (outcome : Outcome Int) :
    Owing policy (dead ++ -1 :: live) (events ++ [.closes descriptor outcome]) where
  opened_le := by simpa [opened_concat, Event.opened] using h.opened_le
  closed := by
    have hnone : dead.filter (0 ≤ ·) = [] :=
      List.filter_eq_nil_iff.mpr fun d hd => by simpa using hdead d hd
    have hclosed := h.closed
    rw [List.filter_append, hnone, List.nil_append, List.filter_cons, if_pos (decide_eq_true hopen)] at hclosed
    rw [closed_concat, List.filter_append, hnone, List.nil_append, List.filter_cons, if_neg (by decide), opened_concat]
    simpa [Event.closed, Event.opened] using hclosed
  length := by simpa [reads_concat, Event.read] using h.length
  retried := by simpa [reads_concat, Event.read] using h.retried
  retained := by simpa [retained_concat, Event.retained] using h.retained

/-- The innermost object goes. -/
theorem Owing.destroy (h : Owing policy (descriptor :: live) events) :
    Owing policy live (Descriptor.destroy context descriptor events) := by
  by_cases hopen : 0 ≤ descriptor
  · have hcloses := h.closes [] (List.forall_mem_nil _) hopen (context.closeFileDescriptor events descriptor)
    rw [Descriptor.destroy, if_pos hopen]
    exact { hcloses with closed := by simpa using hcloses.closed }
  · rw [Descriptor.destroy, if_neg hopen]
    exact { h with closed := by simpa [hopen] using h.closed }

/-- The file is read to its end and has not changed; `pinned` is what its path stands for. -/
structure Complete (pinned before after : FileMetadata) (events : List Event) (content : Bytes) : Prop where
  inspected : inspected events = [pinned, before, after]
  identity : sameIdentity pinned before
  content_eq : content = (reads events).flatMap bytesOf
  ending : ∃ others last, reads events = others ++ [last] ∧ EndOfFile last
  size : 0 < before.size → content.length = before.size
  same : sameObservedFile before after

variable {pinned before after : FileMetadata} {content : Bytes}

theorem Complete.closes (h : Complete pinned before after events content) (outcome : Outcome Int) :
    Complete pinned before after (events ++ [.closes descriptor outcome]) content where
  inspected := by simpa [inspected_concat, Event.inspected] using h.inspected
  identity := h.identity
  content_eq := by simpa [reads_concat, Event.read] using h.content_eq
  ending := by simpa [reads_concat, Event.read] using h.ending
  size := h.size
  same := h.same

theorem Complete.destroy (h : Complete pinned before after events content) :
    Complete pinned before after (Descriptor.destroy context descriptor events) content := by
  rw [Descriptor.destroy]
  split_ifs
  · exact h.closes _
  · exact h

/-- The file is read while its two descriptors are open. -/
theorem Opened.complete {descriptors : List Int} (h : Opened descriptors [pinned, before] events)
    (hidentity : sameIdentity pinned before) (hread : ReadCompletely policy before after calls content) :
    Complete pinned before after (events ++ calls) content where
  inspected := by
    rw [inspected_append, h.inspected, hread.inspected]
    rfl
  identity := hidentity
  content_eq := by
    rw [reads_append, h.reads]
    exact hread.content_eq
  ending := by
    rw [reads_append, h.reads]
    exact hread.ending
  size := hread.size
  same := hread.same

theorem finalize_spec (descriptor : Int) (events : List Event) :
    Triple (fun t => t = events) (Descriptor.finalize context descriptor)
      (fun _ t => ∃ outcome, t = events ++ [.closes descriptor outcome])
      fun _ t => ∃ outcome, t = events ++ [.closes descriptor outcome] := by
  rintro _ rfl
  rw [Descriptor.finalize]
  simp only [record, bind_run_ok _ (get_run _), bind_run_ok _ (modify_run _ _)]
  cases context.closeFileDescriptor _ descriptor with
  | returned status errno =>
    dsimp only
    split_ifs
    · exact ⟨_, rfl⟩
    · exact ⟨_, rfl⟩
  | thrown what => cases what <;> exact ⟨_, rfl⟩

/-- An open descriptor is given up and closed, whatever comes of it. -/
theorem close_spec {σ : Type} {s : σ} {Q : Unit → Int × σ → Prop} {E : Failure → Int × σ → Prop}
    {finalize : Int → EStateM Failure σ Unit} (hopen : 0 ≤ descriptor)
    (h : Triple (fun t => t = s) (finalize descriptor) (fun u t => Q u (-1, t)) fun e t => E e (-1, t)) :
    Triple (fun t => t = (descriptor, s)) (Descriptor.close finalize) Q E := by
  rw [Descriptor.close]
  refine Triple.get_bind fun t => ?_
  dsimp only
  rintro _ ⟨rfl, rfl⟩
  rw [if_neg (not_lt.mpr hopen)]
  exact Triple.bind (P := fun t => t = (descriptor, s)) (Q := fun _ t => t = (-1, s))
    (Triple.modify fun t ht => by rw [ht]) (fun _ => (h.aside_at (-1)).mono (fun _ h => h)
      (by rintro u _ ⟨t, rfl, ht⟩; exact ht) (by rintro e _ ⟨t, rfl, ht⟩; exact ht)) _ rfl

end Custody

section Collect

variable {context : ContextInterface} {maxSize : UInt64} {path : Bytes} {policy : FileCollectionPolicy}

/-- What a collection that succeeds has done. -/
def Collected (path : Bytes) (policy : FileCollectionPolicy) (collection : ObjectCollection) (events : List Event) : Prop :=
  ∃ pinned before after content, Complete pinned before after events content ∧
    selectNameservers policy path content = .ok collection

theorem Collected.destroy {collection : ObjectCollection} {descriptor : Int} {events : List Event}
    (h : Collected path policy collection events) :
    Collected path policy collection (Descriptor.destroy context descriptor events) := by
  obtain ⟨pinned, before, after, content, hcomplete, hselected⟩ := h
  exact ⟨pinned, before, after, content, hcomplete.destroy, hselected⟩

/-- What holds of the two objects and of what is done, however `readPinned` ends. -/
def OwingBoth (policy : FileCollectionPolicy) (s : Int × Int × List Event) : Prop := Owing policy [s.1, s.2.1] s.2.2

theorem readPinned_spec {pinned : FileMetadata} {pathDescriptor descriptor : Int} {events : List Event}
    (hpath : 0 ≤ pathDescriptor) (hopen : 0 ≤ descriptor) (hevents : Opened [pathDescriptor, descriptor] [pinned] events) :
    Triple (fun s => s = (descriptor, pathDescriptor, events))
      (readPinned context maxSize path policy pinned descriptor)
      (fun collection s => OwingBoth policy s ∧ Collected path policy collection s.2.2) fun _ => OwingBoth policy := by
  have hboth : ∀ d ∈ [pathDescriptor, descriptor], 0 ≤ d := by simp [hpath, hopen]
  rw [readPinned]
  refine Triple.bind (((statFileDescriptor_spec _ _ _ events).aside_at _).aside_at _ |>.mono (fun _ h => h)
    (fun _ _ h => h) ?_) ?_
  · rintro _ _ ⟨_, rfl, _, rfl, outcome, rfl⟩
    exact hevents.owing policy (le_refl 2) hboth (Quiet.nil.stats _ outcome)
  intro before
  refine Triple.at_state ?_
  rintro _ ⟨_, rfl, _, rfl, errno, rfl⟩
  have hevents := hevents.stats descriptor (.returned (0, before) errno)
  split_ifs with hidentity
  · refine fail_spec ?_
    rintro _ _ rfl
    simpa [OwingBoth] using hevents.owing policy (le_refl 2) hboth Quiet.nil
  refine Triple.bind (((readCompleteFile_spec context maxSize _ before policy _).aside_at _).aside_at _ |>.mono
    (fun _ h => h) (fun _ _ h => h) ?_) ?_
  · rintro _ _ ⟨_, rfl, _, rfl, calls, rfl, hcalls⟩
    exact hevents.owing policy (le_refl 2) hboth hcalls
  intro content
  refine Triple.at_state ?_
  rintro _ ⟨_, rfl, _, rfl, calls, after, rfl, hread⟩
  have howing : Owing policy [descriptor, pathDescriptor] (_ ++ calls) := hevents.owing policy (le_refl 2) hboth hread.quiet
  have hcomplete := hevents.complete (by simpa using hidentity) hread
  refine Triple.bind (close_spec (Q := fun _ s => ∃ t, s = (-1, pathDescriptor, t) ∧
    Owing policy [-1, pathDescriptor] t ∧ Complete pinned before after t content) hopen
    ((finalize_spec descriptor _).aside_at _ |>.mono (fun _ h => h) ?_ ?_)) fun _ => ?_
  · rintro _ _ ⟨_, rfl, outcome, rfl⟩
    exact ⟨_, rfl, howing.closes [] (List.forall_mem_nil _) hopen outcome, hcomplete.closes outcome⟩
  · rintro _ _ ⟨_, rfl, outcome, rfl⟩
    exact howing.closes [] (List.forall_mem_nil _) hopen outcome
  refine Triple.at_state ?_
  rintro _ ⟨events, rfl, howing, hcomplete⟩
  have hdead : ∀ d ∈ ([-1] : List Int), d < 0 := by simp
  refine Triple.bind ((close_spec (Q := fun _ s => ∃ t, s = (-1, t) ∧ Owing policy [-1, -1] t ∧
    Complete pinned before after t content) (E := fun _ s => ∃ t, s = (-1, t) ∧ Owing policy [-1, -1] t) hpath
    ((finalize_spec pathDescriptor _).mono (fun _ h => h) ?_ ?_)).aside_at _ |>.mono (fun _ h => h) (fun _ _ h => h) ?_)
    fun _ => ?_
  · rintro _ _ ⟨outcome, rfl⟩
    exact ⟨_, rfl, howing.closes [-1] hdead hpath outcome, hcomplete.closes outcome⟩
  · rintro _ _ ⟨outcome, rfl⟩
    exact ⟨_, rfl, howing.closes [-1] hdead hpath outcome⟩
  · rintro _ _ ⟨_, rfl, _, rfl, howing⟩
    exact howing
  split
  · next collection hselected =>
    refine Triple.pure ?_
    rintro _ ⟨_, rfl, _, rfl, howing, hcomplete⟩
    exact ⟨howing, pinned, before, after, content, hcomplete, hselected⟩
  · refine Triple.throw ?_
    rintro _ ⟨_, rfl, _, rfl, howing, -⟩
    exact howing

theorem openPinned_spec {descriptor : Int} {events : List Event} (hopen : 0 ≤ descriptor)
    (hevents : Opened [descriptor] [] events) :
    Triple (fun s => s = (descriptor, events)) (openPinned context maxSize path policy descriptor)
      (fun collection s => Owing policy [s.1] s.2 ∧ Collected path policy collection s.2)
      fun _ s => Owing policy [s.1] s.2 := by
  have hone : ∀ d ∈ [descriptor], 0 ≤ d := by simp [hopen]
  rw [openPinned]
  refine Triple.bind ((statFileDescriptor_spec _ _ _ events).aside_at _ |>.mono (fun _ h => h) (fun _ _ h => h) ?_) ?_
  · rintro _ _ ⟨_, rfl, outcome, rfl⟩
    exact hevents.owing policy one_le_two hone (Quiet.nil.stats _ outcome)
  intro pinned
  refine Triple.at_state ?_
  rintro _ ⟨_, rfl, errno, rfl⟩
  have hevents := hevents.stats descriptor (.returned (0, pinned) errno)
  have howing : Owing policy [descriptor] (events ++ [.stats descriptor (.returned (0, pinned) errno)]) := by
    simpa using hevents.owing policy one_le_two hone Quiet.nil
  split_ifs with hlink hregular
  · refine fail_spec ?_
    rintro _ _ rfl
    exact howing
  · refine fail_spec ?_
    rintro _ _ rfl
    exact howing
  refine Triple.bind ((openExistingFile_spec _ _ _ _).aside_at _ |>.mono (fun _ h => h) (fun _ _ h => h) ?_) ?_
  · rintro _ _ ⟨_, rfl, _, hnone, rfl, outcome, rfl⟩
    have hfails := hevents.opens (descriptorPath descriptor) (O_RDONLY ||| O_CLOEXEC) outcome
    rw [hnone] at hfails
    simpa using hfails.owing policy one_le_two hone Quiet.nil
  intro dataDescriptor
  refine Triple.at_state ?_
  rintro _ ⟨_, rfl, hdata, errno, rfl⟩
  have hboth := hevents.opens (descriptorPath descriptor) (O_RDONLY ||| O_CLOEXEC) (.returned dataDescriptor errno)
  rw [Event.opened, if_pos hdata] at hboth
  refine Triple.inScope ((readPinned_spec hopen hdata hboth).mono ?_ ?_ ?_)
  · rintro _ ⟨_, rfl, rfl⟩
    rfl
  · rintro collection s ⟨howing, hcollected⟩
    exact ⟨howing.destroy, hcollected.destroy⟩
  · rintro _ s howing
    exact howing.destroy

theorem collect_spec (pathFlags : Nat) :
    Triple (fun events => events = []) (collect context maxSize path policy pathFlags)
      (fun collection events => Owing policy [] events ∧ Collected path policy collection events)
      fun _ events => Owing policy [] events := by
  rw [collect]
  refine Triple.bind ((openExistingFile_spec _ _ _ _).mono (fun _ h => h) (fun _ _ h => h) ?_) ?_
  · rintro _ _ ⟨_, hnone, rfl, outcome, rfl⟩
    have hfails := Opened.nil.opens path pathFlags outcome
    rw [hnone] at hfails
    simpa using hfails.owing policy (Nat.zero_le 2) (List.forall_mem_nil _) Quiet.nil
  intro descriptor
  refine Triple.at_state ?_
  rintro _ ⟨hopen, errno, rfl⟩
  have hone := Opened.nil.opens path pathFlags (.returned descriptor errno)
  rw [Event.opened, if_pos hopen] at hone
  refine Triple.inScope ((openPinned_spec hopen hone).mono ?_ ?_ ?_)
  · rintro _ ⟨_, rfl, rfl⟩
    rfl
  · rintro collection s ⟨howing, hcollected⟩
    exact ⟨howing.destroy, hcollected.destroy⟩
  · rintro _ s howing
    exact howing.destroy

theorem collectNameserverObject_triple (context : ContextInterface) (maxSize : UInt64) (path : Bytes)
    (policy : FileCollectionPolicy) :
    Triple (fun events => events = []) (collectNameserverObject context maxSize path policy)
      (fun collection events => Owing policy [] events ∧ Collected path policy collection events)
      fun _ events => Owing policy [] events := by
  have hnothing : Owing policy [] [] := by simpa using Opened.nil.owing policy (Nat.zero_le 2) (List.forall_mem_nil _) Quiet.nil
  rw [collectNameserverObject]
  split_ifs
  · exact Triple.throw fun _ h => h ▸ hnothing
  · exact Triple.throw fun _ h => h ▸ hnothing
  split
  · exact Triple.throw fun _ h => h ▸ hnothing
  · exact Triple.caught (collect_spec _)

theorem sameObservedFile_iff {before after : FileMetadata} : sameObservedFile before after ↔
    after.isRegular ∧ before.device = after.device ∧ before.inode = after.inode ∧ before.size = after.size ∧
      before.modified = after.modified ∧ before.changed = after.changed := by
  simp only [sameObservedFile, sameIdentity, Bool.and_eq_true, decide_eq_true_eq]
  tauto

variable (context : ContextInterface) (maxSize : UInt64) (path : Bytes) (policy : FileCollectionPolicy)

/-- All that a call does. -/
def eventsOf : List Event := leaves (collectNameserverObject context maxSize path policy) []

theorem eventsOf_owing : Owing policy [] (eventsOf context maxSize path policy) := by
  have hrun := collectNameserverObject_triple context maxSize path policy [] rfl
  rw [eventsOf, leaves]
  cases h : collectNameserverObject context maxSize path policy [] with
  | ok collection events =>
    rw [h] at hrun
    exact hrun.1
  | error error events =>
    rw [h] at hrun
    exact hrun

/-- Whatever the outcomes of the calls, a file is read within the limits and what is opened is closed once; a collection
that succeeds is of all bytes up to the end of a file that has not changed meanwhile. -/
theorem collectNameserverObject_complete :
    (reads (eventsOf context maxSize path policy)).length ≤ policy.contentBytes.toNat + policy.readRetries.toNat + 2 ∧
      (opened (eventsOf context maxSize path policy)).length ≤ 2 ∧
      closed (eventsOf context maxSize path policy) = (opened (eventsOf context maxSize path policy)).reverse ∧
      (∀ content ∈ retained (eventsOf context maxSize path policy), content.length ≤ policy.contentBytes.toNat) ∧
      (reads (eventsOf context maxSize path policy)).dropLast.countP Interrupted ≤ policy.readRetries.toNat ∧
      ∀ collection events, collectNameserverObject context maxSize path policy [] = .ok collection events →
        ∃ pinned before after content, inspected events = [pinned, before, after] ∧ sameIdentity pinned before ∧
          content = (reads events).flatMap bytesOf ∧
          (∃ others last, reads events = others ++ [last] ∧ EndOfFile last) ∧
          (0 < before.size → content.length = before.size) ∧
          (after.isRegular ∧ before.device = after.device ∧ before.inode = after.inode ∧ before.size = after.size ∧
            before.modified = after.modified ∧ before.changed = after.changed) ∧
          selectNameservers policy path content = .ok collection := by
  have howing := eventsOf_owing context maxSize path policy
  have hclosed := howing.closed
  rw [List.filter_nil, List.append_nil] at hclosed
  refine ⟨howing.length.trans (Nat.le_succ _), howing.opened_le, hclosed, howing.retained, howing.retried, ?_⟩
  intro collection events hrun
  have hspec := collectNameserverObject_triple context maxSize path policy [] rfl
  rw [hrun] at hspec
  obtain ⟨-, pinned, before, after, content, hcomplete, hselected⟩ := hspec
  exact ⟨pinned, before, after, content, hcomplete.inspected, hcomplete.identity, hcomplete.content_eq, hcomplete.ending,
    hcomplete.size, sameObservedFile_iff.mp hcomplete.same, hselected⟩

end Collect

section Run

/-- A file of three bytes that are all the same, given at once. -/
def threeBytes : ContextInterface where
  openExistingFile events _ _ := .returned (3 + (opened events).length) 0
  statFileDescriptor _ _ := .returned (0, { device := 1, inode := 2, mode := 0o100644, size := 3, modified := (5, 6),
                                            changed := (7, 8) }) 0
  readFileDescriptor events _ _ :=
    .returned { count := if retained events = [] then 3 else 0, buffer := Vector.replicate 8192 0x61 } 0
  closeFileDescriptor _ _ := .returned 0 0

def returns {ε σ α : Type} : EStateM.Result ε σ α → Bool
  | .ok _ _ => true
  | .error _ _ => false

theorem collectNameserverObject_threeBytes :
    ∃ collection events, collectNameserverObject threeBytes 4096000 [0x2F] {} [] = .ok collection events ∧
      ∃ pinned before after content, inspected events = [pinned, before, after] ∧ sameIdentity pinned before ∧
        content = (reads events).flatMap bytesOf ∧
        (∃ others last, reads events = others ++ [last] ∧ EndOfFile last) ∧
        (0 < before.size → content.length = before.size) ∧
        (after.isRegular ∧ before.device = after.device ∧ before.inode = after.inode ∧ before.size = after.size ∧
          before.modified = after.modified ∧ before.changed = after.changed) ∧
        selectNameservers {} [0x2F] content = .ok collection := by
  have hreturns : returns (collectNameserverObject threeBytes 4096000 [0x2F] {} []) := by decide +kernel
  cases hrun : collectNameserverObject threeBytes 4096000 [0x2F] {} [] with
  | ok collection events =>
    exact ⟨collection, events, rfl, (collectNameserverObject_complete threeBytes 4096000 [0x2F] {}).2.2.2.2.2 _ _ hrun⟩
  | error error events =>
    rw [hrun] at hreturns
    cases hreturns

end Run

end Kompli.FileObjectCollector
