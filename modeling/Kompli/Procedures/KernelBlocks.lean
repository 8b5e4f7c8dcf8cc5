import Kompli.Foundation.Split
import Kompli.Procedures.KernelModule
import Mathlib.Data.List.Nodup

/-! The blocks that calls for several modules leave in the managed configuration of modprobe. -/
namespace Kompli.KernelModule
open Parson Ascii Foundation Streams

def hash : UInt8 := 0x23

/-- The two directives of a module between its marks. -/
def block (moduleName : Bytes) : Bytes :=
  (managedBlockStart moduleName ++ [newline]) ++ (utf8 "blacklist " ++ moduleName ++ [newline]) ++
    (utf8 "install " ++ moduleName ++ utf8 " /bin/false\n") ++ (managedBlockEnd moduleName ++ [newline])

/-- A text with a newline at its end. -/
def closed (contents : Bytes) : Bytes :=
  contents ++ if contents ≠ [] ∧ contents.getLast? ≠ some newline then [newline] else []

def run (original : Bytes) (moduleNames : List Bytes) : Except Error Bytes := moduleNames.foldlM updateManagedConfig original

/-- After the original text there is one block for each module that was set. -/
def HoldsBlocks (original : Bytes) (moduleNames : List Bytes) (contents : Bytes) : Prop :=
  ∃ blocks : List Bytes, blocks.Nodup ∧ (∀ moduleName, moduleName ∈ blocks ↔ moduleName ∈ moduleNames) ∧
    contents = closed original ++ blocks.flatMap block

section Names

theorem updateManagedConfig_eq (contents moduleName : Bytes) :
    updateManagedConfig contents moduleName =
      (removeBlocks moduleName contents).map fun contents => closed contents ++ block moduleName := by
  rw [updateManagedConfig]
  cases removeBlocks moduleName contents with
  | error e => rfl
  | ok contents => simp [Except.map, closed, block]

private theorem validName_bytes {moduleName : Bytes} (h : isValidModuleName moduleName = true) {c : UInt8}
    (hc : c ∈ moduleName) : c ≠ hash ∧ c ≠ newline := by
  rw [isValidModuleName, Bool.and_eq_true, List.all_eq_true] at h
  exact forall_byte (P := fun c => (isAlnum c || c ∈ utf8 "_-") = true → c ≠ hash ∧ c ≠ newline) (by decide +kernel) c
    (h.2 c hc)

theorem startLine_eq (moduleName : Bytes) :
    managedBlockStart moduleName ++ [newline] = hash :: (utf8 " BEGIN KOMPLI DISABLE " ++ moduleName ++ [newline]) := by
  have hstart : utf8 "# BEGIN KOMPLI DISABLE " = hash :: utf8 " BEGIN KOMPLI DISABLE " := by decide
  rw [managedBlockStart, hstart]
  rfl

theorem endLine_eq (moduleName : Bytes) :
    managedBlockEnd moduleName ++ [newline] = hash :: (utf8 " END KOMPLI DISABLE " ++ moduleName ++ [newline]) := by
  have hend : utf8 "# END KOMPLI DISABLE " = hash :: utf8 " END KOMPLI DISABLE " := by decide
  rw [managedBlockEnd, hend]
  rfl

/-- What is between the marks of a block. -/
private def directives (moduleName : Bytes) : Bytes :=
  utf8 "blacklist " ++ moduleName ++ [newline] ++ (utf8 "install " ++ moduleName ++ utf8 " /bin/false\n")

private theorem block_eq (moduleName : Bytes) :
    block moduleName = (managedBlockStart moduleName ++ [newline]) ++
      (directives moduleName ++ (managedBlockEnd moduleName ++ [newline])) := by
  simp [block, directives]

private theorem hash_not_mem_directives {moduleName : Bytes} (h : isValidModuleName moduleName = true) :
    hash ∉ directives moduleName := by
  have hname : hash ∉ moduleName := fun hmem => (validName_bytes h hmem).1 rfl
  have hblacklist : hash ∉ utf8 "blacklist " := by decide
  have hinstall : hash ∉ utf8 "install " := by decide
  have hfalse : hash ∉ utf8 " /bin/false\n" := by decide
  have hnewline : hash ∉ [newline] := by decide
  simp only [directives, List.mem_append, not_or]
  exact ⟨⟨⟨hblacklist, hname⟩, hnewline⟩, ⟨hinstall, hname⟩, hfalse⟩

/-- Texts without a newline are the same if one is found with its newline where the other is. -/
private theorem line_prefix_eq {line other s : Bytes} (hline : newline ∉ line) (hother : newline ∉ other)
    (h : line ++ [newline] <+: other ++ newline :: s) : line = other := by
  obtain ⟨rest, hrest⟩ := h
  rw [List.append_assoc, List.singleton_append] at hrest
  rw [← takeWhile_cut hline rest, hrest, takeWhile_cut hother]

end Names

section Search

variable {moduleName other : Bytes}

private theorem hash_not_mem (h : isValidModuleName moduleName = true) : hash ∉ moduleName :=
  fun hmem => (validName_bytes h hmem).1 rfl

theorem newline_not_mem (h : isValidModuleName moduleName = true) : newline ∉ moduleName :=
  fun hmem => (validName_bytes h hmem).2 rfl

/-- A mark of another kind, or of another module, is passed over with what follows it up to the next mark. -/
private theorem cutAt_mark {text : Bytes} (htext : hash ∉ text) {s : Bytes}
    (h : ¬ managedBlockStart moduleName ++ [newline] <+: hash :: (text ++ s)) :
    cutAt (managedBlockStart moduleName ++ [newline]) (hash :: (text ++ s)) =
      (cutAt (managedBlockStart moduleName ++ [newline]) s).map fun (before, after) =>
        (hash :: text ++ before, after) := by
  rw [cutAt_cons h, startLine_eq, cutAt_append_of_not_mem htext, Option.map_map]
  rfl

/-- The block of another module is passed over. -/
private theorem cutAt_block (hname : isValidModuleName moduleName = true) (hother : isValidModuleName other = true)
    (hne : moduleName ≠ other) (s : Bytes) :
    cutAt (managedBlockStart moduleName ++ [newline]) (block other ++ s) =
      (cutAt (managedBlockStart moduleName ++ [newline]) s).map fun (before, after) => (block other ++ before, after) := by
  have hbegin : hash ∉ utf8 " BEGIN KOMPLI DISABLE " := by decide
  have hend : hash ∉ utf8 " END KOMPLI DISABLE " := by decide
  have hnewline : hash ∉ [newline] := by decide
  have hstartText : hash ∉ utf8 " BEGIN KOMPLI DISABLE " ++ other ++ [newline] ++ directives other := by
    simp only [List.mem_append, not_or]
    exact ⟨⟨⟨hbegin, hash_not_mem hother⟩, hnewline⟩, hash_not_mem_directives hother⟩
  have hendText : hash ∉ utf8 " END KOMPLI DISABLE " ++ other ++ [newline] := by
    simp only [List.mem_append, not_or]
    exact ⟨⟨hend, hash_not_mem hother⟩, hnewline⟩
  have hblock : block other ++ s = hash :: ((utf8 " BEGIN KOMPLI DISABLE " ++ other ++ [newline] ++ directives other) ++
      hash :: ((utf8 " END KOMPLI DISABLE " ++ other ++ [newline]) ++ s)) := by
    rw [block_eq, startLine_eq, endLine_eq]
    simp
  have hstart : ¬ managedBlockStart moduleName ++ [newline] <+: hash :: ((utf8 " BEGIN KOMPLI DISABLE " ++ other ++
      [newline] ++ directives other) ++ hash :: ((utf8 " END KOMPLI DISABLE " ++ other ++ [newline]) ++ s)) := by
    intro hstarts
    rw [startLine_eq, List.cons_prefix_cons] at hstarts
    simp only [List.append_assoc, List.singleton_append] at hstarts
    rw [List.prefix_append_right_inj] at hstarts
    exact hne (line_prefix_eq (newline_not_mem hname) (newline_not_mem hother) hstarts.2)
  have hstop : ¬ managedBlockStart moduleName ++ [newline] <+:
      hash :: ((utf8 " END KOMPLI DISABLE " ++ other ++ [newline]) ++ s) := by
    have hB : utf8 " BEGIN KOMPLI DISABLE " = 0x20 :: 0x42 :: utf8 "EGIN KOMPLI DISABLE " := by decide
    have hE : utf8 " END KOMPLI DISABLE " = 0x20 :: 0x45 :: utf8 "ND KOMPLI DISABLE " := by decide
    rw [startLine_eq, hB, hE]
    simp only [List.cons_append, List.cons_prefix_cons, true_and]
    rintro ⟨h, -⟩
    exact absurd h (by decide)
  rw [hblock, cutAt_mark hstartText hstart, cutAt_mark hendText hstop, Option.map_map]
  refine congrArg (Option.map · _) (funext fun cut => ?_)
  rw [block_eq, startLine_eq, endLine_eq]
  simp

private theorem closed_eq_or (contents : Bytes) :
    closed contents = contents ∨ closed contents = contents ++ [newline] := by
  rw [closed]
  split_ifs
  · exact .inr rfl
  · exact .inl (List.append_nil contents)

/-- What is not empty ends with a newline. -/
theorem getLast?_closed {contents : Bytes} (h : closed contents ≠ []) :
    (closed contents).getLast? = some newline := by
  rw [closed] at h ⊢
  split_ifs at h ⊢ with hopen
  · exact List.getLast?_concat
  · rw [List.append_nil] at h ⊢
    by_contra hne
    exact hopen ⟨h, hne⟩

/-- The start of a block is not found before the blocks. -/
private theorem cutAt_closed {original : Bytes} (hplain : ¬ utf8 "# BEGIN KOMPLI DISABLE " <:+: original)
    (hname : isValidModuleName moduleName = true) (s : Bytes) :
    cutAt (managedBlockStart moduleName ++ [newline]) (closed original ++ s) =
      (cutAt (managedBlockStart moduleName ++ [newline]) s).map fun (before, after) =>
        (closed original ++ before, after) := by
  have hmark : newline ∉ utf8 "# BEGIN KOMPLI DISABLE " := by decide
  have hclosed : ¬ utf8 "# BEGIN KOMPLI DISABLE " <:+: closed original := by
    rcases closed_eq_or original with heq | heq
    · rwa [heq]
    · rw [heq]
      exact fun h => hplain (infix_of_infix_concat hmark h)
  apply cutAt_append
  intro u v huv hv hstarts
  -- The part of the text from there on has a newline, where the line of the mark would have to end.
  have hnewline : newline ∈ v := by
    have hlast := @getLast?_closed original (by rw [huv]; simp [hv])
    rw [huv, List.getLast?_append_of_ne_nil u hv] at hlast
    exact List.mem_of_getLast? hlast
  have hcut := cut_append hnewline
  have hline : newline ∉ managedBlockStart moduleName := by
    rw [managedBlockStart, List.mem_append, not_or]
    exact ⟨hmark, newline_not_mem hname⟩
  rw [← hcut, List.append_assoc, List.cons_append] at hstarts
  have heq := line_prefix_eq hline (not_mem_takeWhile v) hstarts
  apply hclosed
  have hstart : utf8 "# BEGIN KOMPLI DISABLE " <+: v.takeWhile (· ≠ newline) := by
    rw [← heq]
    exact List.prefix_append _ _
  rw [huv]
  exact (hstart.trans (List.takeWhile_prefix _)).isInfix.trans (List.suffix_append u v).isInfix

end Search

section Remove

variable {original moduleName : Bytes} {blocks : List Bytes}

private theorem cutAt_none (hplain : ¬ utf8 "# BEGIN KOMPLI DISABLE " <:+: original)
    (hname : isValidModuleName moduleName = true) (hblocks : ∀ other ∈ blocks, isValidModuleName other = true)
    (hmem : moduleName ∉ blocks) :
    cutAt (managedBlockStart moduleName ++ [newline]) (closed original ++ blocks.flatMap block) = none := by
  have hrest : cutAt (managedBlockStart moduleName ++ [newline]) (blocks.flatMap block) = none := by
    induction blocks with
    | nil =>
      rw [List.flatMap_nil, startLine_eq]
      rfl
    | cons other blocks ih =>
      rw [List.forall_mem_cons] at hblocks
      rw [List.mem_cons, not_or] at hmem
      rw [List.flatMap_cons, cutAt_block hname hblocks.1 hmem.1, ih hblocks.2 hmem.2]
      rfl
  rw [cutAt_closed hplain hname, hrest]
  rfl

/-- The first block of a module is found where it starts. -/
private theorem cutAt_some_block (hplain : ¬ utf8 "# BEGIN KOMPLI DISABLE " <:+: original)
    (hname : isValidModuleName moduleName = true) {before : List Bytes}
    (hbefore : ∀ other ∈ before, isValidModuleName other = true) (hmem : moduleName ∉ before) (s : Bytes) :
    cutAt (managedBlockStart moduleName ++ [newline]) (closed original ++ (before.flatMap block ++ (block moduleName ++ s))) =
      some (closed original ++ before.flatMap block,
        directives moduleName ++ ((managedBlockEnd moduleName ++ [newline]) ++ s)) := by
  have hrest : cutAt (managedBlockStart moduleName ++ [newline]) (before.flatMap block ++ (block moduleName ++ s)) =
      some (before.flatMap block, directives moduleName ++ ((managedBlockEnd moduleName ++ [newline]) ++ s)) := by
    induction before with
    | nil =>
      rw [List.flatMap_nil, List.nil_append, block_eq, List.append_assoc, cutAt_prefix, List.append_assoc]
    | cons other before ih =>
      rw [List.forall_mem_cons] at hbefore
      rw [List.mem_cons, not_or] at hmem
      rw [List.flatMap_cons, List.append_assoc, cutAt_block hname hbefore.1 hmem.1, ih hbefore.2 hmem.2]
      rfl
  rw [cutAt_closed hplain hname, hrest]
  rfl

private theorem removeBlocks_of_none {contents : Bytes}
    (h : cutAt (managedBlockStart moduleName ++ [newline]) contents = none) :
    removeBlocks moduleName contents = .ok contents := by
  rw [removeBlocks]
  split
  · rfl
  · next hsome =>
    rw [h] at hsome
    cases hsome

private theorem removeBlocks_of_some {contents before after inside rest : Bytes}
    (h : cutAt (managedBlockStart moduleName ++ [newline]) contents = some (before, after))
    (hend : cutAt (managedBlockEnd moduleName ++ [newline]) after = some (inside, rest)) :
    removeBlocks moduleName contents = removeBlocks moduleName (before ++ rest) := by
  rw [removeBlocks]
  split
  · next hnone =>
    rw [h] at hnone
    cases hnone
  · next before' after' hsome =>
    rw [h] at hsome
    cases hsome
    split
    · next hend' =>
      rw [hend] at hend'
      cases hend'
      rfl
    · next hend' =>
      rw [hend] at hend'
      cases hend'

/-- Only the block of the module is taken out. -/
theorem removeBlocks_blocks (hplain : ¬ utf8 "# BEGIN KOMPLI DISABLE " <:+: original)
    (hname : isValidModuleName moduleName = true) (hblocks : ∀ other ∈ blocks, isValidModuleName other = true)
    (hnodup : blocks.Nodup) :
    removeBlocks moduleName (closed original ++ blocks.flatMap block) =
      .ok (closed original ++ (blocks.erase moduleName).flatMap block) := by
  by_cases hmem : moduleName ∈ blocks
  · obtain ⟨before, after, rfl, hnot⟩ := List.eq_append_cons_of_mem hmem
    have hafter : moduleName ∉ after := (List.nodup_cons.mp (List.nodup_append.mp hnodup).2.1).1
    have herase : (before ++ moduleName :: after).erase moduleName = before ++ after := by
      rw [List.erase_append_right _ hnot, List.erase_cons_head]
    rw [List.forall_mem_append, List.forall_mem_cons] at hblocks
    have hcut := cutAt_some_block hplain hname hblocks.1 hnot (after.flatMap block)
    have hend : cutAt (managedBlockEnd moduleName ++ [newline])
        (directives moduleName ++ ((managedBlockEnd moduleName ++ [newline]) ++ after.flatMap block)) =
          some (directives moduleName, after.flatMap block) := by
      rw [endLine_eq, cutAt_append_of_not_mem (hash_not_mem_directives hname), ← endLine_eq, cutAt_prefix]
      simp
    rw [herase, List.flatMap_append, List.flatMap_cons, removeBlocks_of_some hcut hend, List.append_assoc,
      ← List.flatMap_append]
    refine removeBlocks_of_none (cutAt_none hplain hname ?_ ?_)
    · rw [List.forall_mem_append]
      exact ⟨hblocks.1, hblocks.2.2⟩
    · rw [List.mem_append, not_or]
      exact ⟨hnot, hafter⟩
  · rw [List.erase_of_not_mem hmem]
    exact removeBlocks_of_none (cutAt_none hplain hname hblocks hmem)

end Remove

section Runs

variable {original : Bytes} {moduleNames : List Bytes} {contents last : Bytes}

private theorem getLast?_block (moduleName : Bytes) : (block moduleName).getLast? = some newline := by
  rw [block_eq, ← List.append_assoc, ← List.append_assoc]
  exact List.getLast?_concat

private theorem closed_closed_blocks (original : Bytes) (blocks : List Bytes) :
    closed (closed original ++ blocks.flatMap block) = closed original ++ blocks.flatMap block := by
  have hclosed {contents : Bytes} (h : contents ≠ [] → contents.getLast? = some newline) : closed contents = contents := by
    rw [closed, if_neg, List.append_nil]
    rintro ⟨hne, hlast⟩
    exact hlast (h hne)
  refine hclosed fun hne => ?_
  cases blocks using List.reverseRecOn with
  | nil =>
    rw [List.flatMap_nil, List.append_nil] at hne ⊢
    exact getLast?_closed hne
  | append_singleton blocks moduleName =>
    have hblock : block moduleName ≠ [] := by
      intro hnil
      have hlast := getLast?_block moduleName
      rw [hnil] at hlast
      cases hlast
    rw [List.flatMap_append, List.flatMap_singleton, ← List.append_assoc, List.getLast?_append_of_ne_nil _ hblock,
      getLast?_block]

/-- The block of the module comes last. -/
private theorem updateManagedConfig_blocks (hplain : ¬ utf8 "# BEGIN KOMPLI DISABLE " <:+: original)
    (hname : isValidModuleName last = true) {blocks : List Bytes}
    (hblocks : ∀ other ∈ blocks, isValidModuleName other = true) (hnodup : blocks.Nodup) :
    updateManagedConfig (closed original ++ blocks.flatMap block) last =
      .ok (closed original ++ (blocks.erase last ++ [last]).flatMap block) := by
  rw [updateManagedConfig_eq, removeBlocks_blocks hplain hname hblocks hnodup, Except.map, closed_closed_blocks,
    List.flatMap_append, List.flatMap_singleton, List.append_assoc]

private theorem updateManagedConfig_original (hplain : ¬ utf8 "# BEGIN KOMPLI DISABLE " <:+: original) (last : Bytes) :
    updateManagedConfig original last = .ok (closed original ++ [last].flatMap block) := by
  have hnone : cutAt (managedBlockStart last ++ [newline]) original = none := by
    rw [cutAt_eq_none_iff, managedBlockStart, List.append_assoc]
    exact fun h => hplain ((List.prefix_append _ _).isInfix.trans h)
  rw [updateManagedConfig_eq, removeBlocks_of_none hnone, List.flatMap_singleton]
  rfl

private theorem nodup_erase_concat {blocks : List Bytes} (h : blocks.Nodup) (last : Bytes) :
    (blocks.erase last ++ [last]).Nodup := by
  rw [List.nodup_append]
  refine ⟨h.erase last, List.nodup_singleton last, fun name hname other hother => ?_⟩
  rw [List.mem_singleton] at hother
  rw [hother]
  exact ((h.mem_erase_iff).mp hname).1

/-- A call leaves the blocks of the other modules, and the last of its module's. -/
theorem HoldsBlocks.update (hplain : ¬ utf8 "# BEGIN KOMPLI DISABLE " <:+: original)
    (hnames : ∀ moduleName ∈ moduleNames, isValidModuleName moduleName = true) (hlast : isValidModuleName last = true)
    (h : HoldsBlocks original moduleNames contents) :
    ∃ updated, updateManagedConfig contents last = .ok updated ∧ HoldsBlocks original (moduleNames ++ [last]) updated ∧
      updateManagedConfig updated last = .ok updated := by
  obtain ⟨blocks, hnodup, hmem, rfl⟩ := h
  have hblocks : ∀ other ∈ blocks, isValidModuleName other = true :=
    fun other hother => hnames other ((hmem other).mp hother)
  have hblocks' : ∀ other ∈ blocks.erase last ++ [last], isValidModuleName other = true := by
    rw [List.forall_mem_append, List.forall_mem_singleton]
    exact ⟨fun other hother => hblocks other (List.mem_of_mem_erase hother), hlast⟩
  have hsame : (blocks.erase last ++ [last]).erase last = blocks.erase last := by
    have hnot : last ∉ blocks.erase last := fun hin => ((hnodup.mem_erase_iff).mp hin).1 rfl
    rw [List.erase_append_right _ hnot, List.erase_cons_head, List.append_nil]
  refine ⟨_, updateManagedConfig_blocks hplain hlast hblocks hnodup, ⟨_, nodup_erase_concat hnodup last, ?_, rfl⟩, ?_⟩
  · intro moduleName
    rw [List.mem_append, List.mem_append, hnodup.mem_erase_iff, hmem, List.mem_singleton]
    constructor
    · exact Or.imp_left And.right
    · rintro (hold | hnew)
      · by_cases heq : moduleName = last
        · exact .inr heq
        · exact .inl ⟨heq, hold⟩
      · exact .inr hnew
  · rw [updateManagedConfig_blocks hplain hlast hblocks' (nodup_erase_concat hnodup last), hsame]

/-- Every run ends without an error, with one block for each module that was set. -/
theorem run_holdsBlocks (hplain : ¬ utf8 "# BEGIN KOMPLI DISABLE " <:+: original)
    (hnames : ∀ moduleName ∈ moduleNames, isValidModuleName moduleName = true) :
    ∃ contents, run original moduleNames = .ok contents ∧ (moduleNames = [] → contents = original) ∧
      (moduleNames ≠ [] → HoldsBlocks original moduleNames contents) ∧
      ∀ last ∈ moduleNames.getLast?, updateManagedConfig contents last = .ok contents := by
  induction moduleNames using List.reverseRecOn with
  | nil => exact ⟨original, rfl, fun _ => rfl, fun h => absurd rfl h, fun last hlast => by cases hlast⟩
  | append_singleton moduleNames last ih =>
    rw [List.forall_mem_append, List.forall_mem_singleton] at hnames
    obtain ⟨contents, hrun, hempty, hholds, -⟩ := ih hnames.1
    have hconcat : run original (moduleNames ++ [last]) = updateManagedConfig contents last := by
      rw [run, List.foldlM_append, ← run, hrun]
      change (updateManagedConfig contents last >>= pure) = _
      rw [bind_pure]
    have hne : moduleNames ++ [last] ≠ [] := by simp
    have hdone {updated : Bytes} (hupdate : updateManagedConfig contents last = .ok updated)
        (hblocks : HoldsBlocks original (moduleNames ++ [last]) updated)
        (hagain : updateManagedConfig updated last = .ok updated) :
        ∃ contents, run original (moduleNames ++ [last]) = .ok contents ∧
          (moduleNames ++ [last] = [] → contents = original) ∧
          (moduleNames ++ [last] ≠ [] → HoldsBlocks original (moduleNames ++ [last]) contents) ∧
          ∀ last' ∈ (moduleNames ++ [last]).getLast?, updateManagedConfig contents last' = .ok contents := by
      refine ⟨updated, hconcat.trans hupdate, fun h => absurd h hne, fun _ => hblocks, fun last' hlast' => ?_⟩
      rw [List.getLast?_concat, Option.mem_some] at hlast'
      rw [← hlast', hagain]
    by_cases hnil : moduleNames = []
    · subst hnil
      rw [hempty rfl] at hdone
      have hsame : ([last] : List Bytes).erase last ++ [last] = [last] := by simp
      refine hdone (updateManagedConfig_original hplain last) ⟨[last], List.nodup_singleton last, fun _ => Iff.rfl, rfl⟩ ?_
      have hvalid : ∀ other ∈ [last], isValidModuleName other = true := by
        rw [List.forall_mem_singleton]
        exact hnames.2
      rw [updateManagedConfig_blocks hplain hnames.2 hvalid (List.nodup_singleton last), hsame]
    · obtain ⟨updated, hupdate, hblocks, hagain⟩ := (hholds hnil).update hplain hnames.1 hnames.2
      exact hdone hupdate hblocks hagain

/-- Of two modules the name of one goes on from that of the other; the text has no newline at its end. -/
theorem run_holdsBlocks_dccp :
    ∃ contents, run (utf8 "options a b") [utf8 "dccp_ipv4", utf8 "dccp", utf8 "dccp_ipv4"] = .ok contents ∧
      HoldsBlocks (utf8 "options a b") [utf8 "dccp_ipv4", utf8 "dccp", utf8 "dccp_ipv4"] contents := by
  have hplain : ¬ utf8 "# BEGIN KOMPLI DISABLE " <:+: utf8 "options a b" := by
    rw [← cutAt_eq_none_iff]
    decide +kernel
  have hnames : ∀ moduleName ∈ [utf8 "dccp_ipv4", utf8 "dccp", utf8 "dccp_ipv4"],
      isValidModuleName moduleName = true := by
    decide +kernel
  obtain ⟨contents, hrun, -, hholds, -⟩ := run_holdsBlocks hplain hnames
  exact ⟨contents, hrun, hholds (by simp)⟩

end Runs

end Kompli.KernelModule
