import Kompli.AtomicFile.Calls
import Kompli.Foundation.MapEntries

/-! What the parts of an operation do to what it holds and to the files. -/
namespace Kompli.AtomicFile
open Foundation

variable {process : Process} {held : List (Nat × Nat)} {fs : FileSystem} {t : Temporary}

/-- Nothing was changed yet. -/
abbrev Same (fs : FileSystem) : FileSystem → List Failure → Prop := fun g _ => g = fs

theorem Beside.refl (fs : FileSystem) : Beside fs none fs :=
  ⟨rfl, fun _ _ h => h, rfl, rfl, Nat.le_refl _, by rintro _ ⟨⟩⟩

/-- The temporary file, whatever it holds by now. -/
abbrev Scratch (fs : FileSystem) (t : Temporary) : FileSystem → List Failure → Prop :=
  fun g _ => ∃ node, Beside fs (some { t with node }) g

theorem Holds.scratch {h : Host} (hh : Holds held (With fs t) h) : Holds held (Scratch fs t) h :=
  ⟨hh.1, t.node, hh.2⟩

/-! Writing -/

theorem writeLoop_spec {fd : Nat} (hfd : (fd, t.number) ∈ held) (path : Bytes) (fuel : Nat) (rest : Bytes) :
    Spec (Holds held (With fs t)) (writeLoop process fd path fuel rest)
      (fun _ => Holds held
        (With fs { t with node := { t.node with contents := t.node.contents ++ rest } }))
      (Holds held (Scratch fs t)) := by
  induction fuel generalizing t rest with
  | zero => exact Spec.throw fun _ h => h.scratch
  | succ fuel ih =>
    unfold writeLoop
    split
    · rename_i hrest
      refine Spec.pure fun _ h => ?_
      rw [hrest, List.append_nil]
      exact h
    · refine Spec.bindCall (write_call hfd rest) (fun n => ?_) fun e => ?_
      · cases n with
        | zero => exact Spec.throw fun _ h => ⟨h.1, _, h.2⟩
        | succ n =>
          have hrest := ih (t := { t with
            node := { t.node with contents := t.node.contents ++ rest.take (n + 1) } }) hfd (rest.drop (n + 1))
          refine Spec.mono hrest (fun _ h => h) (fun _ _ h => ?_) fun _ h => h
          rw [List.append_assoc, List.take_append_drop] at h
          exact h
      · dsimp only
        split
        · exact ih hfd rest
        · exact Spec.throw fun _ h => h.scratch

/-- The fuel of the loop does not run out: more of it changes nothing. -/
theorem writeLoop_fuel (fd : Nat) (path : Bytes) (fuel extra : Nat) (rest : Bytes) (w : World)
    (hfuel : w.script.length + 2 ≤ fuel ∨ rest = [] ∧ 1 ≤ fuel) :
    writeLoop process fd path (fuel + extra) rest w = writeLoop process fd path fuel rest w := by
  induction fuel generalizing rest w with
  | zero => omega
  | succ fuel ih =>
    rw [Nat.add_right_comm]
    unfold writeLoop
    by_cases hrest : rest = []
    · rw [if_pos hrest, if_pos hrest]
    rw [if_neg hrest, if_neg hrest]
    have hlong := hfuel.resolve_right fun h => hrest h.1
    have hwrite : ∃ r w', write fd rest w = .ok r w' ∧ (w'.script.length + 2 ≤ fuel ∨
        (∀ n, r = .ok n → rest.drop n = []) ∧ (∀ e, r = .error e → e ≠ EINTR) ∧ 1 ≤ fuel) := by
      unfold write syscall
      cases hscript : w.script with
      | cons outcome script =>
        refine ⟨_, _, rfl, .inl ?_⟩
        rw [hscript, List.length_cons] at hlong
        dsimp only
        omega
      | nil =>
        refine ⟨_, _, rfl, .inr ⟨fun n hn => ?_, fun e he => ?_, by omega⟩⟩
        · dsimp only [Host.withInode] at hn
          split at hn
          · cases hn
          split at hn
          · cases hn
          · cases hn
            exact List.drop_length
        · dsimp only [Host.withInode] at he
          split at he
          · cases he
            decide
          split at he
          · cases he
            decide
          · cases he
    obtain ⟨r, w', hrun, hafter⟩ := hwrite
    rw [bind_run_ok _ hrun, bind_run_ok _ hrun]
    cases r with
    | error e =>
      dsimp only
      by_cases he : e = EINTR
      · rw [if_pos he, if_pos he]
        exact ih rest w' (.inl (hafter.resolve_right fun h => h.2.1 e rfl he))
      · rw [if_neg he, if_neg he]
    | ok n =>
      cases n with
      | zero => rfl
      | succ n => exact ih _ w' (hafter.imp_right fun h => ⟨h.1 (n + 1) rfl, h.2.2⟩)

/-- A call that is tried again does not end interrupted. -/
theorem retry_ne_interrupted {α : Type} {effect : Outcome → Host → Except Int α × Host}
    (h : ∀ host, (effect .proceed host).1 ≠ .error EINTR) (w : World) :
    ∃ r w', retry (syscall effect) w = .ok r w' ∧ r ≠ .error EINTR := by
  change ∃ r w', uninterrupted (syscall effect) w.script.length w = .ok r w' ∧ r ≠ .error EINTR
  generalize hlen : w.script.length = turns
  induction turns generalizing w with
  | zero =>
    have hscript : w.script = [] := List.length_eq_zero_iff.mp hlen
    refine ⟨_, { w with host := (effect .proceed w.host).2 }, ?_, h w.host⟩
    simp only [uninterrupted, syscall, hscript]
  | succ turns ih =>
    obtain ⟨outcome, script, hscript⟩ := List.exists_cons_of_length_eq_add_one hlen
    have hcall : syscall effect w = .ok (effect outcome w.host).1
        { w with host := (effect outcome w.host).2, script } := by
      simp only [syscall, hscript]
    rw [uninterrupted, bind_run_ok _ hcall]
    cases hresult : (effect outcome w.host).1 with
    | ok a => exact ⟨.ok a, _, rfl, by simp⟩
    | error e =>
      dsimp only
      split
      · refine ih _ ?_
        rw [hscript, List.length_cons] at hlen
        exact Nat.succ.inj hlen
      · rename_i hne
        exact ⟨.error e, _, rfl, by simpa using hne⟩

theorem writeContents_spec {fd : Nat} (hfd : (fd, t.number) ∈ held) (path contents : Bytes) :
    Spec (Holds held (With fs t)) (writeContents process fd path contents)
      (fun _ => Holds held
        (With fs { t with node := { t.node with contents := t.node.contents ++ contents } }))
      (Holds held (Scratch fs t)) :=
  Triple.get_bind fun w => Triple.strengthen (writeLoop_spec hfd path (w.script.length + 2) contents)
    fun _ ⟨heq, h⟩ => heq ▸ h

/-! The parent directory -/

/-- The directory that components lead to, without links. -/
def FileSystem.walk (fs : FileSystem) : Nat → List Bytes → Option Nat
  | d, [] => some d
  | d, component :: rest =>
    if component = utf8 ".." then none
    else if component = utf8 "." then fs.walk d rest
    else
      match fs.entries d (cString component) with
      | none => none
      | some i =>
        match fs.inodes i with
        | none => none
        | some node => if node.kind = .directory then fs.walk i rest else none

/-- The directory and the name in it that a path stands for. -/
def FileSystem.resolve (fs : FileSystem) (path : Bytes) : Option (Nat × Bytes) :=
  if path.head? ≠ some slash ∨ lastName path = [] ∨ lastName path = utf8 "." ∨ lastName path = utf8 ".." then none
  else (fs.walk fs.root (components (parentPath path))).map (·, cString (lastName path))

theorem walkParents_spec (path : Bytes) (rest : List Bytes) (parent d : Nat) :
    Spec (Holds [(parent, d)] (Same fs)) (walkParents process path parent rest)
      (fun fd h => ∃ d', fs.walk d rest = some d' ∧ Holds [(fd, d')] (Same fs) h)
      (Holds [] (Same fs)) := by
  have hclose := close_call (F := Same fs) [] [] parent d
  induction rest generalizing parent d with
  | nil => exact Spec.pure fun _ h => ⟨d, rfl, h⟩
  | cons component rest ih =>
    unfold walkParents FileSystem.walk
    split
    · exact Spec.bindCall hclose (fun _ => Spec.throw fun _ h => h) fun _ => Spec.throw fun _ h => h
    split
    · exact ih parent d hclose
    refine Spec.bindCall (openat_call List.mem_cons_self component true) (fun next => ?_) fun e => ?_
    · refine Spec.of_exists fun i => Spec.of_exists fun node => ?_
      by_cases hfound : fs.entries d (cString component) = some i ∧ fs.inodes i = some node ∧
          node.kind = .directory
      · rw [hfound.1]
        dsimp only
        rw [hfound.2.1]
        dsimp only
        rw [if_pos hfound.2.2]
        have hnext := close_call (F := Same fs) [(next, i)] [] parent d
        refine Spec.mono (E := Holds [] (Same fs)) ?_ (fun _ h => h.2.2) (fun _ _ h => h) fun _ h => h
        have hrest := ih next i (close_call [] [] next i)
        exact Spec.bindCall hnext (fun _ => hrest) fun _ => hrest
      · intro w ⟨hfinds, hdirectory, hh⟩
        rw [hh.2] at hfinds
        exact absurd ⟨hfinds.1, hfinds.2, hdirectory rfl⟩ hfound
    · exact Spec.bindCall hclose (fun _ => Spec.throw fun _ h => h) fun _ => Spec.throw fun _ h => h

theorem resolveParentNoFollow_spec (path : Bytes) :
    Spec (Holds [] (Same fs)) (resolveParentNoFollow process path)
      (fun resolved h => ∃ d, fs.resolve path = some (d, cString resolved.2) ∧
        Holds [(resolved.1, d)] (Same fs) h)
      (Holds [] (Same fs)) := by
  unfold resolveParentNoFollow
  split
  · exact Spec.throw fun _ h => h
  split
  · exact Spec.throw fun _ h => h
  rename_i habsolute hname
  refine Spec.bindCall (openRoot_call fun g _ h => congrArg FileSystem.root h) (fun root => ?_) fun e =>
    Spec.throw fun _ h => h
  refine Spec.bind (walkParents_spec path _ root fs.root) fun parent => Spec.pure fun h => ?_
  rintro ⟨d, hwalk, hh⟩
  refine ⟨d, ?_, hh⟩
  rw [FileSystem.resolve, if_neg (not_or.mpr ⟨habsolute, hname⟩), hwalk]
  rfl

/-! The temporary file -/

theorem createTemporaryFile_spec {parent d : Nat} (hparent : (parent, d) ∈ held) (path : Bytes) (attempts : Nat) :
    Spec (Holds held fun g _ => Beside fs none g) (createTemporaryFile process parent path attempts)
      (fun file h => ∃ number sequence, file.2 = temporaryName process sequence ∧
        Holds ((file.1, number) :: held)
          (With fs ⟨d, cString file.2, number,
            { uid := process.uid, gid := process.gid, permissions := 0o600, attributes := fs.inherited d }⟩) h)
      (Holds held fun g _ => Beside fs none g) := by
  induction attempts with
  | zero => exact Spec.throw fun _ h => h
  | succ attempts ih =>
    have hfetch : Spec (Holds held fun g _ => Beside fs none g) fetchSequence
        (fun _ => Holds held fun g _ => Beside fs none g) (Holds held fun g _ => Beside fs none g) :=
      fun _ h => h
    refine Spec.bind hfetch fun sequence => ?_
    refine Spec.bindCall (openExclusive_call _ _ hparent _) (fun descriptor => ?_) fun e => ?_
    · refine Spec.pure fun _ h => ?_
      obtain ⟨number, h⟩ := h
      exact ⟨number, sequence, rfl, h⟩
    · dsimp only
      split
      · exact Spec.throw fun _ h => h
      · exact ih

/-! Attributes -/

theorem attributeNames_cons {name : Bytes} (h : NulFree name) (rest : Bytes) :
    attributeNames (name ++ 0 :: rest) = (name :: (attributeNames rest).1, (attributeNames rest).2) := by
  induction name with
  | nil =>
    rw [List.nil_append, attributeNames]
    simp only [if_true]
  | cons c name ih =>
    have hc : ¬ c = 0 := fun heq => h (heq ▸ List.mem_cons_self)
    rw [List.cons_append, attributeNames, ih fun hmem => h (List.mem_cons_of_mem c hmem)]
    simp only [if_neg hc]

theorem attributeNames_nameList (names : List Bytes) (h : ∀ name ∈ names, NulFree name) :
    attributeNames (names.flatMap (· ++ [0])) = (names, []) := by
  induction names with
  | nil => rfl
  | cons name names ih =>
    rw [List.flatMap_cons, List.append_assoc, List.singleton_append,
      attributeNames_cons (h name List.mem_cons_self), ih fun n hn => h n (List.mem_cons_of_mem name hn)]

namespace ExtendedAttributes

theorem getElem?_of_nameList {attributes : ExtendedAttributes} (h : attributes.nameList = []) (name : Bytes) :
    attributes.values[name]? = none := by
  rw [nameList, List.flatMap_eq_nil_iff] at h
  cases hvalue : attributes.values[name]? with
  | none => rfl
  | some value =>
    have hmem : name ∈ attributes.values.keys := by
      rw [Std.ExtTreeMap.mem_keys, Std.ExtTreeMap.mem_iff_isSome_getElem?, hvalue]
      rfl
    exact absurd (h name hmem) (by simp)

/-- Attributes set to the values that `original` has for the names. -/
def copied (original : ExtendedAttributes) (names : List Bytes) (attributes : ExtendedAttributes) :
    ExtendedAttributes :=
  names.foldl (fun attributes name => attributes.set name (original.values[name]?.getD [])) attributes

theorem copied_values (original : ExtendedAttributes) (names : List Bytes)
    (h : ∀ name ∈ names, NulFree name) (attributes : ExtendedAttributes) :
    (original.copied names attributes).values =
      names.foldl (fun m name => m.insert name (original.values[name]?.getD [])) attributes.values := by
  induction names generalizing attributes with
  | nil => rfl
  | cons name names ih =>
    rw [copied, List.foldl_cons, ← copied, ih fun n hn => h n (List.mem_cons_of_mem name hn), List.foldl_cons,
      set_values, cString_of_nulFree (h name List.mem_cons_self)]

/-- Where all names are copied, the values of the original one are there, and what was there before beside them. -/
theorem getElem?_copied_keys (original attributes : ExtendedAttributes) (name : Bytes) :
    (original.copied original.values.keys attributes).values[name]? =
      original.values[name]?.or attributes.values[name]? := by
  rw [copied_values _ _ fun name hname => original.nulFree name (Std.ExtTreeMap.mem_keys.mp hname)]
  have hnodup : (original.values.keys.map id).Nodup := by
    rw [List.map_id]
    refine Std.ExtTreeMap.distinct_keys.imp fun hne heq => hne ?_
    rw [heq]
    exact Std.ReflCmp.compare_self
  have hfold : (original.values.keys.foldl (fun m x => m.insert (id x) (original.values[x]?.getD []))
      attributes.values)[name]? = _ := getElem?_foldl_insert hnodup attributes.values name
  refine hfold.trans ?_
  cases hvalue : original.values[name]? with
  | none =>
    have hnone : original.values.keys.find? (fun x => decide (id x = name)) = none := by
      rw [List.find?_eq_none]
      intro x hx hid
      rw [decide_eq_true_eq, id] at hid
      subst hid
      rw [Std.ExtTreeMap.mem_keys, Std.ExtTreeMap.mem_iff_isSome_getElem?, hvalue] at hx
      cases hx
    rw [hnone]
    rfl
  | some value =>
    have hsome : original.values.keys.find? (fun x => decide (id x = name)) = some name := by
      rw [List.find?_eq_some_iff_append]
      have hmem : name ∈ original.values.keys := by
        rw [Std.ExtTreeMap.mem_keys, Std.ExtTreeMap.mem_iff_isSome_getElem?, hvalue]
        rfl
      obtain ⟨before, after, hsplit⟩ := List.append_of_mem hmem
      refine ⟨by simp, before, after, hsplit, fun x hx => ?_⟩
      rw [List.map_id, hsplit, List.nodup_append] at hnodup
      simpa using fun heq : x = name => hnodup.2.2 x hx name List.mem_cons_self heq
    rw [hsome, Option.map_some, hvalue]
    rfl

/-- What a copy has: the original's values over those it started with, or those alone where listing is not supported. -/
def CopiedOver (original inherited : ExtendedAttributes) (i : Nat) (attributes : ExtendedAttributes)
    (failures : List Failure) : Prop :=
  (∀ name : Bytes, attributes.values[name]? = original.values[name]?.or inherited.values[name]?) ∨
    attributes = inherited ∧ Failure.flistxattr i ENOTSUP ∈ failures

end ExtendedAttributes

section
variable {source target i : Nat} {original : Inode}

theorem copyAttribute_spec (hsource : (source, i) ∈ held) (hnode : fs.inodes i = some original)
    (htarget : (target, t.number) ∈ held) (path : Bytes) {name : Bytes} (hname : NulFree name) :
    Spec (Holds held (With fs t)) (copyAttribute process source target path name)
      (fun _ => Holds held (With fs { t with node := { t.node with
        attributes := t.node.attributes.set name (original.attributes.values[name]?.getD []) } }))
      (Holds held (Scratch fs t)) := by
  have hget := (fgetxattr_call (t := t) hsource hnode name).retry fun _ _ h => h
  rw [cString_of_nulFree hname] at hget
  unfold copyAttribute
  refine Spec.bindCall hget (fun sized => ?_) fun e => Spec.throw fun _ h => h.scratch
  refine Spec.of_and fun hsized => ?_
  have hread : Spec (Holds held (With fs t)) (readAttribute process source name path sized.length)
      (fun value h => value = sized ∧ Holds held (With fs t) h) (Holds held (Scratch fs t)) := by
    unfold readAttribute
    split
    · rename_i hempty
      exact Spec.pure fun _ h => ⟨(List.length_eq_zero_iff.mp hempty).symm, h⟩
    refine Spec.bindCall hget (fun value => ?_) fun e => Spec.throw fun _ h => h.scratch
    dsimp only
    split
    · exact Spec.throw fun _ h => h.2.scratch
    · refine Spec.pure fun _ h => ⟨?_, h.2⟩
      rw [hsized] at h
      exact (Option.some.inj h.1).symm
  refine Spec.bind hread fun value => Spec.of_and fun hvalue => ?_
  subst hvalue
  refine Spec.bindCall (changeInode_call htarget _) (fun _ => Spec.pure fun _ h => ?_) fun e =>
    Spec.throw fun _ h => h.scratch
  rw [hsized]
  exact h

theorem copyAttributes_spec (hsource : (source, i) ∈ held) (hnode : fs.inodes i = some original)
    (htarget : (target, t.number) ∈ held) (path : Bytes) (names : List Bytes)
    (hnames : ∀ name ∈ names, NulFree name) :
    Spec (Holds held (With fs t)) (names.forM (copyAttribute process source target path))
      (fun _ => Holds held (With fs { t with node := { t.node with
        attributes := original.attributes.copied names t.node.attributes } }))
      (Holds held (Scratch fs t)) := by
  induction names generalizing t with
  | nil => exact Spec.pure fun _ h => h
  | cons name names ih =>
    refine Spec.bind (copyAttribute_spec hsource hnode htarget path (hnames name List.mem_cons_self)) fun _ => ?_
    exact ih htarget fun n hn => hnames n (List.mem_cons_of_mem name hn)

theorem copyExtendedAttributes_spec (hsource : (source, i) ∈ held) (hnode : fs.inodes i = some original)
    (htarget : (target, t.number) ∈ held) (path : Bytes) :
    Spec (Holds held (With fs t)) (copyExtendedAttributes process source target path)
      (fun _ h => ∃ attributes, Holds held (fun g failures =>
        Beside fs (some { t with node := { t.node with attributes } }) g ∧
          original.attributes.CopiedOver t.node.attributes i attributes failures) h)
      (Holds held (Scratch fs t)) := by
  have hlist := (flistxattr_call (t := t) hsource hnode).retry fun _ _ h => ⟨h.1, h.2.1⟩
  have hscratch (e : Int) (h : Host)
      (hh : Holds held (fun g failures => Beside fs (some t) g ∧ Failure.flistxattr i e ∈ failures) h) :
      Holds held (Scratch fs t) h := Holds.scratch ⟨hh.1, hh.2.1⟩
  unfold copyExtendedAttributes
  refine Spec.bindCall hlist (fun sized => ?_) fun e => ?_
  · refine Spec.of_and fun hsized => ?_
    dsimp only
    split
    · rename_i hno
      refine Spec.pure fun h hh => ⟨t.node.attributes, hh.1, hh.2, .inl fun name => ?_⟩
      rw [@ExtendedAttributes.getElem?_of_nameList original.attributes (hsized ▸ hno) name, Option.none_or]
    refine Spec.bindCall hlist (fun names => ?_) fun e => Spec.throw (hscratch e)
    refine Spec.of_and fun hnames => ?_
    have hnulFree : ∀ name ∈ original.attributes.values.keys, NulFree name := fun name hname =>
      original.attributes.nulFree name (Std.ExtTreeMap.mem_keys.mp hname)
    dsimp only
    rw [hnames, ExtendedAttributes.nameList, attributeNames_nameList _ hnulFree]
    refine Spec.bind (copyAttributes_spec hsource hnode htarget path _ hnulFree) fun _ => ?_
    refine Spec.pure fun h hh => ⟨_, hh.1, hh.2, .inl fun name => ?_⟩
    exact ExtendedAttributes.getElem?_copied_keys original.attributes t.node.attributes name
  · dsimp only
    split
    · rename_i he
      rw [he]
      exact Spec.pure fun h hh => ⟨t.node.attributes, hh.1, hh.2.1, .inr ⟨rfl, hh.2.2⟩⟩
    · exact Spec.throw (hscratch e)

end
end Kompli.AtomicFile
