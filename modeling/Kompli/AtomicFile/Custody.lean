import Kompli.AtomicFile.AtomicFile
import Kompli.Foundation.Triple

/-! What an operation holds while it runs: descriptors to close and a temporary file. -/
namespace Kompli.AtomicFile
open Foundation

/-- The open descriptors are those held, with their inodes; the others were closed once. -/
structure Owns (held : List (Nat × Nat)) (descriptors : List Descriptor) : Prop where
  distinct : (held.map Prod.fst).Nodup
  opened : ∀ x ∈ held, descriptors[x.1]? = some { inode := x.2 }
  closed : ∀ (fd : Nat) (d : Descriptor), descriptors[fd]? = some d →
    fd ∈ held.map Prod.fst ∨ d.closes = 1

namespace Owns

variable {held : List (Nat × Nat)} {descriptors : List Descriptor}

theorem openNew (h : Owns held descriptors) (i : Nat) :
    Owns ((descriptors.length, i) :: held) (descriptors ++ [{ inode := i }]) where
  distinct := by
    rw [List.map_cons, List.nodup_cons]
    refine ⟨fun hmem => ?_, h.distinct⟩
    obtain ⟨x, hx, heq⟩ := List.mem_map.mp hmem
    have := h.opened x hx
    rw [heq, List.getElem?_eq_none (Nat.le_refl _)] at this
    cases this
  opened := by
    rintro x hx
    rcases List.mem_cons.mp hx with rfl | hx
    · simp
    · have hopened := h.opened x hx
      have hlt := (List.getElem?_eq_some_iff.mp hopened).1
      rw [List.getElem?_append_left hlt]
      exact hopened
  closed := by
    intro fd d hd
    rcases Nat.lt_or_ge fd descriptors.length with hlt | hge
    · rw [List.getElem?_append_left hlt] at hd
      exact (h.closed fd d hd).imp_left fun hmem => List.mem_cons_of_mem _ hmem
    · left
      rw [List.getElem?_append_right hge] at hd
      have hzero : fd - descriptors.length = 0 := by
        by_contra hne
        obtain ⟨k, hk⟩ := Nat.exists_eq_succ_of_ne_zero hne
        rw [hk] at hd
        simp at hd
      have : fd = descriptors.length := by omega
      rw [this]
      exact List.mem_cons_self

theorem close {before after : List (Nat × Nat)} {fd i : Nat}
    (h : Owns (before ++ (fd, i) :: after) descriptors) :
    Owns (before ++ after) (descriptors.modify fd fun d => { d with closes := d.closes + 1 }) := by
  have hperm : (((fd, i) :: (before ++ after)).map Prod.fst).Nodup :=
    ((List.perm_middle.map Prod.fst).nodup_iff).mp h.distinct
  rw [List.map_cons, List.nodup_cons] at hperm
  refine ⟨hperm.2, fun x hx => ?_, fun other d hd => ?_⟩
  · have hne : fd ≠ x.1 := by
      intro heq
      apply hperm.1
      rw [heq]
      exact List.mem_map.mpr ⟨x, hx, rfl⟩
    rw [List.getElem?_modify_ne _ _ hne]
    exact h.opened x (List.perm_middle.mem_iff.mpr (List.mem_cons_of_mem _ hx))
  · by_cases heq : fd = other
    · subst heq
      right
      rw [List.getElem?_modify_eq] at hd
      rw [h.opened (fd, i) (by simp)] at hd
      cases hd
      rfl
    · rw [List.getElem?_modify_ne _ _ heq] at hd
      refine (h.closed other d hd).imp_left fun hmem => ?_
      have hmem := ((List.perm_middle.map Prod.fst).mem_iff).mp hmem
      rw [List.map_cons, List.mem_cons] at hmem
      exact hmem.resolve_left (Ne.symm heq)

end Owns

/-- A file that is new, and not meant to stay under the name it has. -/
structure Temporary where
  directory : Nat
  name : Bytes
  number : Nat
  node : Inode

def withTemporary (entries : Nat → Bytes → Option Nat) (temporary : Option Temporary)
    (d : Nat) (name : Bytes) : Option Nat :=
  match temporary with
  | none => entries d name
  | some t => if d = t.directory ∧ name = t.name then some t.number else entries d name

/-- The file system is `fs` with a temporary file perhaps. -/
structure Beside (fs : FileSystem) (temporary : Option Temporary) (g : FileSystem) : Prop where
  root : g.root = fs.root
  inodes : ∀ (i : Nat) (node : Inode), fs.inodes i = some node → g.inodes i = some node
  entries : g.entries = withTemporary fs.entries temporary
  inherited : g.inherited = fs.inherited
  next : fs.next ≤ g.next
  temporary : ∀ t ∈ temporary, fs.entries t.directory t.name = none ∧ fs.inodes t.number = none ∧
    g.inodes t.number = some t.node

/-- What is held, and what is true of the files. -/
def Holds (held : List (Nat × Nat)) (F : FileSystem → List Failure → Prop) (h : Host) : Prop :=
  Owns held h.descriptors ∧ F h.fs h.failures

theorem Holds.inode? {held : List (Nat × Nat)} {F : FileSystem → List Failure → Prop} {h : Host}
    (hh : Holds held F h) {fd i : Nat} (hfd : (fd, i) ∈ held) : h.inode? fd = some i := by
  rw [Host.inode?, hh.1.opened _ hfd]
  rfl

/-- A computation on the world, by what it does to the host. -/
def Spec {α : Type} (P : Host → Prop) (m : SysM α) (Q : α → Host → Prop) (E : Host → Prop) : Prop :=
  Triple (fun w => P w.host) m (fun a w => Q a w.host) (fun _ w => E w.host)

def Ends {α : Type} (Q : α → Host → Prop) (R : Int → Host → Prop) : Except Int α → Host → Prop
  | .ok a, h => Q a h
  | .error e, h => R e h

/-- A system call: what holds where it returns, and where it reports an error. -/
def Call {α : Type} (P : Host → Prop) (call : SysM (Except Int α)) (Q : α → Host → Prop)
    (R : Int → Host → Prop) : Prop :=
  ∀ E, Spec P call (Ends Q R) E

section
variable {α β : Type} {P E : Host → Prop} {Q : α → Host → Prop} {R : Int → Host → Prop}

theorem Spec.bind {m : SysM α} {f : α → SysM β} {Q' : β → Host → Prop} (first : Spec P m Q E)
    (second : ∀ a, Spec (Q a) (f a) Q' E) : Spec P (m >>= f) Q' E :=
  Triple.bind first second

theorem Spec.pure {a : α} (h : ∀ s, P s → Q a s) : Spec P (Pure.pure a) Q E :=
  fun w hw => h w.host hw

theorem Spec.throw {e : Error} (h : ∀ s, P s → E s) : Spec P (MonadExcept.throw e) Q E :=
  fun w hw => h w.host hw

theorem Spec.mono {P' E' : Host → Prop} {Q' : α → Host → Prop} {m : SysM α} (h : Spec P m Q E)
    (hP : ∀ s, P' s → P s) (hQ : ∀ a s, Q a s → Q' a s) (hE : ∀ s, E s → E' s) : Spec P' m Q' E' :=
  Triple.mono h (fun w => hP w.host) (fun a w => hQ a w.host) (fun _ w => hE w.host)

theorem Spec.of_and {p : Prop} {m : SysM α} (h : p → Spec P m Q E) : Spec (fun s => p ∧ P s) m Q E :=
  Triple.of_and h

theorem Spec.of_exists {γ : Type} {P : γ → Host → Prop} {m : SysM α} (h : ∀ x, Spec (P x) m Q E) :
    Spec (fun s => ∃ x, P x s) m Q E :=
  Triple.of_exists h

/-- A system call followed by the two ways it can go. -/
theorem Spec.bindCall {call : SysM (Except Int α)} {f : Except Int α → SysM β} {Q' : β → Host → Prop}
    (first : Call P call Q R) (ok : ∀ a, Spec (Q a) (f (.ok a)) Q' E)
    (error : ∀ e, Spec (R e) (f (.error e)) Q' E) : Spec P (call >>= f) Q' E := by
  refine Spec.bind (first E) fun r => ?_
  cases r with
  | ok a => exact ok a
  | error e => exact error e

theorem Spec.orElse {call : SysM (Except Int α)} {failed : Int → SysM α} (first : Call P call Q R)
    (error : ∀ e, Spec (R e) (failed e) Q E) : Spec P (orElse call failed) Q E :=
  Spec.bindCall first (fun _ => Spec.pure fun _ h => h) error

theorem Spec.orHandle {m : SysM α} {failed : Error → SysM α} {E' : Host → Prop} (first : Spec P m Q E')
    (error : ∀ e, Spec E' (failed e) Q E) : Spec P (orHandle m failed) Q E := by
  intro w hw
  have hfirst := first w hw
  unfold AtomicFile.orHandle
  cases hm : m w with
  | ok a w' =>
    rw [hm] at hfirst
    exact hfirst
  | error e w' =>
    rw [hm] at hfirst
    exact error e w' hfirst

private theorem syscall_run (effect : Outcome → Host → Except Int α × Host) (w : World) :
    ∃ outcome w', syscall effect w = .ok (effect outcome w.host).1 w' ∧
      w'.host = (effect outcome w.host).2 := by
  unfold syscall
  cases w.script with
  | nil => exact ⟨.proceed, _, rfl, rfl⟩
  | cons outcome script => exact ⟨outcome, _, rfl, rfl⟩

/-- What a system call does, outcome by outcome. -/
theorem syscall_call {effect : Outcome → Host → Except Int α × Host}
    (h : ∀ outcome s, P s → Ends Q R (effect outcome s).1 (effect outcome s).2) :
    Call P (syscall effect) Q R := by
  intro E w hw
  obtain ⟨outcome, w', hrun, hhost⟩ := syscall_run effect w
  rw [hrun]
  dsimp only
  rw [hhost]
  exact h outcome w.host hw

theorem attempt_call {effect : Host → Except Int α × Host} (hfail : ∀ e s, P s → R e s)
    (h : ∀ s, P s → Ends Q R (effect s).1 (effect s).2) : Call P (attempt effect) Q R := by
  refine syscall_call fun outcome s hs => ?_
  cases outcome with
  | fail e => exact hfail e s hs
  | proceed => exact h s hs
  | short n => exact h s hs

/-- A call that changes nothing when it fails can be tried again. -/
theorem Call.retry {call : SysM (Except Int α)} (h : Call P call Q R) (hR : ∀ e s, R e s → P s) :
    Call P (AtomicFile.retry call) Q R := by
  intro E
  refine Triple.get_bind fun w => ?_
  generalize w.script.length = turns
  refine Triple.strengthen (P := fun w => P w.host) ?_ fun t ⟨heq, hw⟩ => heq ▸ hw
  induction turns with
  | zero => exact h E
  | succ turns ih =>
    refine Spec.bindCall h (fun a => Spec.pure fun _ hq => hq) fun e => ?_
    dsimp only
    split
    · exact Spec.mono ih (hR e) (fun _ _ hq => hq) fun _ he => he
    · exact Spec.pure fun _ hr => hr

end
end Kompli.AtomicFile
