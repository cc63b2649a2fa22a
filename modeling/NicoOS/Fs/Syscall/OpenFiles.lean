import NicoOS.Fs.Syscall.Plain
import NicoOS.Lib.Counting
import NicoOS.Lib.Transition

/-!
# Open files

Every entry of the file table is counted by the descriptors that point at it, and
what an entry stands for is put or closed once, by the close that drops the last of
its references.
-/

namespace NicoOS
namespace Fs
namespace Syscall

open Lib
open Program (op Ends)
open Inode (InodeType)

/-!
# The ledger of openings
-/

def File.object (file : File) : Nat :=
  match file.type with
  | FdType.pipe => file.pipe
  | _ => file.inode

def File.opening (file : File) : Opening :=
  ⟨file.id, file.type, file.object⟩

/-- Openings in use, and those let go of except for one that is about to be. -/
structure Ledger (s : State) (pending : Option Opening) : Prop where
  bound : forall f, 0 < (s.files f).refs -> (s.files f).id < s.openings
  boundAttached : forall o, o ∈ s.attached -> o.id < s.openings
  alone : forall f g, 0 < (s.files f).refs -> 0 < (s.files g).refs ->
    (s.files f).id = (s.files g).id -> f = g
  unique : forall o p, o ∈ s.attached -> p ∈ s.attached -> o.id = p.id -> o = p
  opened : forall f, 0 < (s.files f).refs -> (s.files f).type ≠ FdType.none ->
    (s.files f).opening ∈ s.attached
  unopened : forall f, 0 < (s.files f).refs -> (s.files f).type = FdType.none ->
    forall o, o ∈ s.attached -> o.id ≠ (s.files f).id
  nodup : s.released.Nodup
  letGo : forall o, o ∈ s.released ∨ pending = some o <->
    o ∈ s.attached ∧ forall f, 0 < (s.files f).refs -> (s.files f).id ≠ o.id
  pendingNew : forall o, pending = some o -> Not (o ∈ s.released)

namespace Ledger

variable {s s' : State} {pending : Option Opening}

theorem congr (h : Ledger s pending)
    (hlive : forall f, 0 < (s'.files f).refs <-> 0 < (s.files f).refs)
    (hfile : forall f, 0 < (s.files f).refs -> (s'.files f).id = (s.files f).id ∧
      (s'.files f).type = (s.files f).type ∧ (s'.files f).object = (s.files f).object)
    (hopenings : s'.openings = s.openings) (hattached : s'.attached = s.attached)
    (hreleased : s'.released = s.released) : Ledger s' pending where
  bound f hf := by
    have hold := (hlive f).mp hf
    rw [(hfile f hold).left, hopenings]
    exact h.bound f hold
  boundAttached o ho := by
    rw [hopenings]
    rw [hattached] at ho
    exact h.boundAttached o ho
  alone f g hf hg hid := by
    have holdf := (hlive f).mp hf
    have holdg := (hlive g).mp hg
    rw [(hfile f holdf).left, (hfile g holdg).left] at hid
    exact h.alone f g holdf holdg hid
  unique o p ho hp hid := by
    rw [hattached] at ho hp
    exact h.unique o p ho hp hid
  opened f hf htype := by
    have hold := (hlive f).mp hf
    rcases hfile f hold with ⟨hid, ht, hobject⟩
    rw [ht] at htype
    have hsame : (s'.files f).opening = (s.files f).opening := by
      rw [File.opening, File.opening, hid, ht, hobject]
    rw [hsame, hattached]
    exact h.opened f hold htype
  unopened f hf htype o ho := by
    have hold := (hlive f).mp hf
    rcases hfile f hold with ⟨hid, ht, -⟩
    rw [ht] at htype
    rw [hattached] at ho
    rw [hid]
    exact h.unopened f hold htype o ho
  nodup := by
    rw [hreleased]
    exact h.nodup
  letGo o := by
    rw [hreleased, hattached, h.letGo o]
    constructor
    · intro hboth
      rcases hboth with ⟨ho, hgone⟩
      refine ⟨ho, fun f hf => ?_⟩
      have hold := (hlive f).mp hf
      rw [(hfile f hold).left]
      exact hgone f hold
    · intro hboth
      rcases hboth with ⟨ho, hgone⟩
      refine ⟨ho, fun f hf => ?_⟩
      rw [<- (hfile f hf).left]
      exact hgone f ((hlive f).mpr hf)
  pendingNew o ho := by
    rw [hreleased]
    exact h.pendingNew o ho

theorem sameTable (h : Ledger s pending) (same : SameTable s s') : Ledger s' pending := by
  apply h.congr
  · intro f
    rw [same.files]
  · intro f hf
    rw [same.files]
    exact ⟨rfl, rfl, rfl⟩
  · exact same.openings
  · exact same.attached
  · exact same.released

theorem alloc (h : Ledger s none) {f : Nat} (hfree : (s.files f).refs = 0)
    (hidle : (s.files f).type = FdType.none) :
    Ledger { s.setFile f { s.files f with refs := 1, id := s.openings } with
      openings := s.openings + 1 } none := by
  have hother : forall g, g ≠ f ->
      (s.setFile f { s.files f with refs := 1, id := s.openings }).files g = s.files g :=
    fun g hg => by rw [setFile_other hg]
  have hself : (s.setFile f { s.files f with refs := 1, id := s.openings }).files f =
      { s.files f with refs := 1, id := s.openings } := by rw [setFile_self]
  constructor
  · intro g hg
    dsimp only at hg ⊢
    by_cases hgf : g = f
    · rw [hgf, hself]
      exact Nat.lt_succ_self _
    · rw [hother g hgf] at hg ⊢
      exact Nat.lt_succ_of_lt (h.bound g hg)
  · exact fun o ho => Nat.lt_succ_of_lt (h.boundAttached o ho)
  · intro g k hg hk hid
    dsimp only at hg hk hid
    by_cases hgf : g = f
    · by_cases hkf : k = f
      · rw [hgf, hkf]
      · rw [hgf, hself, hother k hkf] at hid
        rw [hother k hkf] at hk
        have hbound := h.bound k hk
        dsimp only at hid
        lia
    · by_cases hkf : k = f
      · rw [hkf, hself, hother g hgf] at hid
        rw [hother g hgf] at hg
        have hbound := h.bound g hg
        dsimp only at hid
        lia
      · rw [hother g hgf] at hg hid
        rw [hother k hkf] at hk hid
        exact h.alone g k hg hk hid
  · exact h.unique
  · intro g hg htype
    dsimp only at hg htype ⊢
    by_cases hgf : g = f
    · rw [hgf, hself] at htype
      exact absurd hidle htype
    · rw [hother g hgf] at hg htype ⊢
      exact h.opened g hg htype
  · intro g hg htype o ho
    dsimp only at hg htype ho ⊢
    by_cases hgf : g = f
    · rw [hgf, hself]
      exact Nat.ne_of_lt (h.boundAttached o ho)
    · rw [hother g hgf] at hg htype ⊢
      exact h.unopened g hg htype o ho
  · exact h.nodup
  · intro o
    dsimp only
    rw [show (s.setFile f { s.files f with refs := 1, id := s.openings }).released = s.released
      from rfl, show (s.setFile f { s.files f with refs := 1, id := s.openings }).attached =
      s.attached from rfl, h.letGo o]
    constructor
    · intro hboth
      rcases hboth with ⟨ho, hgone⟩
      refine ⟨ho, fun g hg => ?_⟩
      by_cases hgf : g = f
      · rw [hgf, hself]
        exact (Nat.ne_of_lt (h.boundAttached o ho)).symm
      · rw [hother g hgf] at hg ⊢
        exact hgone g hg
    · intro hboth
      rcases hboth with ⟨ho, hgone⟩
      refine ⟨ho, fun g hg => ?_⟩
      have hgf : g ≠ f := by
        intro heq
        rw [heq, hfree] at hg
        exact Nat.lt_irrefl 0 hg
      rw [<- hother g hgf]
      apply hgone g
      rw [hother g hgf]
      exact hg
  · exact h.pendingNew

/-- The last reference of an entry is dropped; what it stood for is about to be let go of. -/
theorem drop (h : Ledger s none) {f : Nat} (hlast : (s.files f).refs = 1) :
    Ledger (s.setFile f { s.files f with refs := 0, type := FdType.none })
      (if (s.files f).type = FdType.none then none else some (s.files f).opening) := by
  have hother : forall g, g ≠ f ->
      (s.setFile f { s.files f with refs := 0, type := FdType.none }).files g = s.files g :=
    fun g hg => by rw [setFile_other hg]
  have hlive : forall g,
      0 < ((s.setFile f { s.files f with refs := 0, type := FdType.none }).files g).refs ->
      g ≠ f ∧ 0 < (s.files g).refs := by
    intro g hg
    by_cases hgf : g = f
    · rw [hgf, setFile_self] at hg
      exact absurd hg (Nat.lt_irrefl 0)
    · rw [hother g hgf] at hg
      exact ⟨hgf, hg⟩
  have hposf : 0 < (s.files f).refs := by lia
  constructor
  · intro g hg
    rcases hlive g hg with ⟨hgf, hold⟩
    rw [hother g hgf]
    exact h.bound g hold
  · exact h.boundAttached
  · intro g k hg hk hid
    rcases hlive g hg with ⟨hgf, holdg⟩
    rcases hlive k hk with ⟨hkf, holdk⟩
    rw [hother g hgf, hother k hkf] at hid
    exact h.alone g k holdg holdk hid
  · exact h.unique
  · intro g hg htype
    rcases hlive g hg with ⟨hgf, hold⟩
    rw [hother g hgf] at htype ⊢
    exact h.opened g hold htype
  · intro g hg htype
    rcases hlive g hg with ⟨hgf, hold⟩
    rw [hother g hgf] at htype ⊢
    exact h.unopened g hold htype
  · exact h.nodup
  · intro o
    have hold := h.letGo o
    constructor
    · intro hor
      rcases hor with ho | ho
      · rcases hold.mp (Or.inl ho) with ⟨hmem, hgone⟩
        refine ⟨hmem, fun g hg => ?_⟩
        rcases hlive g hg with ⟨hgf, hpos⟩
        rw [hother g hgf]
        exact hgone g hpos
      · split at ho
        · cases ho
        · rename_i htype
          cases ho
          refine ⟨h.opened f hposf htype, fun g hg => ?_⟩
          rcases hlive g hg with ⟨hgf, hpos⟩
          rw [hother g hgf]
          exact fun hid => hgf (h.alone g f hpos hposf hid)
    · intro hboth
      rcases hboth with ⟨hmem, hgone⟩
      by_cases hid : (s.files f).id = o.id
      · right
        by_cases htype : (s.files f).type = FdType.none
        · exact absurd hid.symm (h.unopened f hposf htype o hmem)
        · rw [if_neg htype]
          exact congrArg some (h.unique _ _ (h.opened f hposf htype) hmem hid)
      · left
        have hall : o ∈ s.released ∨ none = some o := by
          apply hold.mpr
          refine ⟨hmem, fun g hg => ?_⟩
          by_cases hgf : g = f
          · rw [hgf]
            exact hid
          · rw [<- hother g hgf]
            apply hgone g
            rw [hother g hgf]
            exact hg
        rcases hall with ho | ho
        · exact ho
        · cases ho
  · intro o ho hmem
    split at ho
    · cases ho
    · rename_i htype
      cases ho
      rcases (h.letGo _).mp (Or.inl hmem) with ⟨-, hgone⟩
      exact hgone f hposf rfl

theorem release {o : Opening} (h : Ledger s (some o)) :
    Ledger (Syscall.release (some o) s) none where
  bound := h.bound
  boundAttached := h.boundAttached
  alone := h.alone
  unique := h.unique
  opened := h.opened
  unopened := h.unopened
  nodup := by
    have hnew : Not (o ∈ s.released) := h.pendingNew o rfl
    show (s.released ++ [o]).Nodup
    rw [List.nodup_append]
    refine ⟨h.nodup, List.nodup_singleton o, ?_⟩
    intro p hp q hq heq
    rw [List.mem_singleton.mp hq] at heq
    exact hnew (heq ▸ hp)
  letGo p := by
    apply Iff.trans _ (h.letGo p)
    show p ∈ s.released ++ [o] ∨ none = some p <-> _
    constructor
    · intro hor
      rcases hor with hp | hp
      · rcases List.mem_append.mp hp with hp | hp
        · exact Or.inl hp
        · exact Or.inr (congrArg some (List.mem_singleton.mp hp).symm)
      · cases hp
    · intro hor
      rcases hor with hp | hp
      · exact Or.inl (List.mem_append_left _ hp)
      · cases hp
        exact Or.inl (List.mem_append_right _ (List.mem_singleton_self o))
  pendingNew p hp := by cases hp

theorem attach (h : Ledger s none) {f : Nat} {file : File} (hlive : 0 < (s.files f).refs)
    (htype : (s.files f).type = FdType.none) (hrefs : 0 < file.refs)
    (hopen : file.type ≠ FdType.none) (hid : file.id = (s.files f).id) :
    Ledger { s.setFile f file with attached := s.attached ++ [file.opening] } none := by
  have hself : (s.setFile f file).files f = file := by rw [setFile_self]
  have hother : forall g, g ≠ f -> (s.setFile f file).files g = s.files g :=
    fun g hg => by rw [setFile_other hg]
  have hpos : forall g, 0 < ((s.setFile f file).files g).refs <-> 0 < (s.files g).refs := by
    intro g
    by_cases hgf : g = f
    · rw [hgf, hself]
      exact ⟨fun _ => hlive, fun _ => hrefs⟩
    · rw [hother g hgf]
  have hids : forall g, ((s.setFile f file).files g).id = (s.files g).id := by
    intro g
    by_cases hgf : g = f
    · rw [hgf, hself, hid]
    · rw [hother g hgf]
  have hnew : forall o, o ∈ s.attached -> o.id ≠ file.opening.id := by
    intro o ho heq
    exact h.unopened f hlive htype o ho (heq.trans hid)
  constructor
  · intro g hg
    rw [show (s.setFile f file).openings = s.openings from rfl, hids g]
    exact h.bound g ((hpos g).mp hg)
  · intro o ho
    rcases List.mem_append.mp ho with ho | ho
    · exact h.boundAttached o ho
    · rw [List.mem_singleton.mp ho]
      show file.id < s.openings
      rw [hid]
      exact h.bound f hlive
  · intro g k hg hk heq
    dsimp only at heq
    rw [hids g, hids k] at heq
    exact h.alone g k ((hpos g).mp hg) ((hpos k).mp hk) heq
  · intro o p ho hp heq
    rcases List.mem_append.mp ho with ho | ho
    · rcases List.mem_append.mp hp with hp | hp
      · exact h.unique o p ho hp heq
      · rw [List.mem_singleton.mp hp] at heq
        exact absurd heq (hnew o ho)
    · rcases List.mem_append.mp hp with hp | hp
      · rw [List.mem_singleton.mp ho] at heq
        exact absurd heq.symm (hnew p hp)
      · rw [List.mem_singleton.mp ho, List.mem_singleton.mp hp]
  · intro g hg hsome
    dsimp only at hg hsome ⊢
    by_cases hgf : g = f
    · rw [hgf, hself]
      exact List.mem_append_right _ (List.mem_singleton_self _)
    · rw [hother g hgf] at hg hsome ⊢
      exact List.mem_append_left _ (h.opened g hg hsome)
  · intro g hg hnone o ho
    dsimp only at hg hnone ho ⊢
    by_cases hgf : g = f
    · rw [hgf, hself] at hnone
      exact absurd hnone hopen
    · rw [hother g hgf] at hg hnone ⊢
      rcases List.mem_append.mp ho with ho | ho
      · exact h.unopened g hg hnone o ho
      · rw [List.mem_singleton.mp ho]
        exact fun heq => hgf (h.alone g f hg hlive (heq.symm.trans hid))
  · exact h.nodup
  · intro o
    have hsame : (forall g, 0 < ((s.setFile f file).files g).refs ->
        ((s.setFile f file).files g).id ≠ o.id) <->
        forall g, 0 < (s.files g).refs -> (s.files g).id ≠ o.id := by
      constructor
      · intro hgone g hg
        rw [<- hids g]
        exact hgone g ((hpos g).mpr hg)
      · intro hgone g hg
        rw [hids g]
        exact hgone g ((hpos g).mp hg)
    constructor
    · intro ho
      rcases (h.letGo o).mp ho with ⟨hmem, hgone⟩
      exact ⟨List.mem_append_left _ hmem, hsame.mpr hgone⟩
    · intro hboth
      rcases hboth with ⟨hmem, hgone⟩
      rcases List.mem_append.mp hmem with hmem | hmem
      · exact (h.letGo o).mpr ⟨hmem, hsame.mp hgone⟩
      · have hne := hsame.mp hgone f hlive
        rw [List.mem_singleton.mp hmem] at hne
        exact absurd hid.symm hne
  · exact h.pendingNew

end Ledger

/-!
# The table of files
-/

def fileSlot (s : State) : Nat × Nat -> Option Nat := fun x => (s.tasks x.1).ofiles x.2

structure Table (s : State) (extra : Nat -> Int) (pending : Option Opening) : Prop where
  balanced : Balanced (fun f => (s.files f).refs) (fileSlot s) extra
  idle : forall f, (s.files f).refs = 0 -> (s.files f).type = FdType.none
  unused : forall t fd, (s.tasks t).state = TaskState.unused -> (s.tasks t).ofiles fd = none
  bounded : forall t fd, nofile ≤ fd -> (s.tasks t).ofiles fd = none
  ledger : Ledger s pending

/-- Descriptors and task states stay as they are. -/
structure SameSlots (s s' : State) : Prop where
  state : forall t, (s'.tasks t).state = (s.tasks t).state
  ofiles : forall t, (s'.tasks t).ofiles = (s.tasks t).ofiles

theorem SameTable.sameSlots {s s' : State} (h : SameTable s s') : SameSlots s s' :=
  ⟨h.state, h.ofiles⟩

theorem SameSlots.trans {r s t : State} (hrs : SameSlots r s) (hst : SameSlots s t) :
    SameSlots r t where
  state u := (hst.state u).trans (hrs.state u)
  ofiles u := (hst.ofiles u).trans (hrs.ofiles u)

theorem SameSlots.fileSlot {s s' : State} (h : SameSlots s s') (x : Nat × Nat) :
    fileSlot s' x = fileSlot s x :=
  congrFun (h.ofiles x.1) x.2

namespace Table

variable {s s' : State} {extra extra' : Nat -> Int} {pending : Option Opening}

theorem recredit (h : Table s extra pending) (hextra : forall f, extra' f = extra f) :
    Table s extra' pending where
  balanced := h.balanced.recount (fun _ => rfl) (fun f => by rw [hextra f])
  idle := h.idle
  unused := h.unused
  bounded := h.bounded
  ledger := h.ledger

theorem sameTable (h : Table s extra pending) (same : SameTable s s') :
    Table s' extra pending where
  balanced := h.balanced.recount same.sameSlots.fileSlot (fun f => by rw [same.files])
  idle f := by
    rw [same.files]
    exact h.idle f
  unused t fd := by
    rw [same.state t, same.ofiles t]
    exact h.unused t fd
  bounded t fd := by
    rw [same.ofiles t]
    exact h.bounded t fd
  ledger := h.ledger.sameTable same

theorem release {o : Opening} (h : Table s extra (some o)) :
    Table (Syscall.release (some o) s) extra none where
  balanced := h.balanced
  idle := h.idle
  unused := h.unused
  bounded := h.bounded
  ledger := h.ledger.release

theorem setFile (h : Table s extra pending) (f : Nat) (file : File)
    (hidle : file.refs = 0 -> file.type = FdType.none)
    (hextra : forall g, extra' g - extra g =
      if g = f then (file.refs : Int) - (s.files f).refs else 0)
    {pending' : Option Opening} (hfiles : s'.files = (s.setFile f file).files)
    (htasks : s'.tasks = s.tasks) (hledger : Ledger s' pending') :
    Table s' extra' pending' where
  balanced := by
    apply h.balanced.recount
    · intro x
      rw [fileSlot, fileSlot, htasks]
    · intro g
      have hg := hextra g
      rw [hfiles, setFile_files]
      by_cases hgf : g = f
      · rw [if_pos hgf] at hg ⊢
        rw [hgf] at hg ⊢
        lia
      · rw [if_neg hgf] at hg ⊢
        lia
  idle g := by
    rw [hfiles, setFile_files]
    by_cases hgf : g = f
    · rw [if_pos hgf]
      exact hidle
    · rw [if_neg hgf]
      exact h.idle g
  unused t fd := by
    rw [htasks]
    exact h.unused t fd
  bounded t fd := by
    rw [htasks]
    exact h.bounded t fd
  ledger := hledger

theorem setDescriptor (h : Table s extra pending) {t fd : Nat} {f : Option Nat}
    (hfd : fd < nofile) (hstate : (s.tasks t).state ≠ TaskState.unused)
    (hextra : forall g, extra' g =
      extra g + credit ((s.tasks t).ofiles fd) g - credit f g) :
    Table (Syscall.setDescriptor t fd f s) extra' pending := by
  have hself : (Syscall.setDescriptor t fd f s).tasks t =
      { s.tasks t with ofiles := Function.update (s.tasks t).ofiles fd f } := by
    rw [Syscall.setDescriptor, setTask_self]
  have hother : forall u, u ≠ t ->
      (Syscall.setDescriptor t fd f s).tasks u = s.tasks u := by
    intro u hu
    rw [Syscall.setDescriptor, setTask_other hu]
  constructor
  · apply h.balanced.set_slot (t, fd)
    · intro y hy
      unfold fileSlot
      by_cases hyt : y.1 = t
      · rw [hyt, hself]
        apply Function.update_of_ne
        intro hfd
        exact hy (Prod.ext hyt hfd)
      · rw [hother _ hyt]
    · intro g
      have hnew : fileSlot (Syscall.setDescriptor t fd f s) (t, fd) = f := by
        unfold fileSlot
        rw [hself]
        exact Function.update_self _ _ _
      rw [hnew, hextra g]
      show ((s.files g).refs : Int) - _ - _ = (s.files g).refs - extra g - _
      unfold fileSlot
      lia
  · exact h.idle
  · intro u k hu
    by_cases hut : u = t
    · rw [hut, hself] at hu
      exact absurd hu hstate
    · rw [hother u hut] at hu ⊢
      exact h.unused u k hu
  · intro u k hk
    by_cases hut : u = t
    · rw [hut, hself]
      have hne : k ≠ fd := by lia
      exact (Function.update_of_ne hne _ _).trans (h.bounded t k hk)
    · rw [hother u hut]
      exact h.bounded u k hk
  · apply h.ledger.congr
    · exact fun _ => Iff.rfl
    · exact fun _ _ => ⟨rfl, rfl, rfl⟩
    · rfl
    · rfl
    · rfl

/-- A task changes its state; without a descriptor it may become unused. -/
theorem setTask (h : Table s extra pending) {t : Nat} {task : Task}
    (hofiles : task.ofiles = (s.tasks t).ofiles)
    (hunused : task.state = TaskState.unused -> forall fd, (s.tasks t).ofiles fd = none) :
    Table (s.setTask t task) extra pending := by
  have hsame : forall u, ((s.setTask t task).tasks u).ofiles = (s.tasks u).ofiles := by
    intro u
    rw [setTask_tasks]
    by_cases hut : u = t
    · rw [if_pos hut, hofiles, hut]
    · rw [if_neg hut]
  constructor
  · apply h.balanced.recount
    · intro x
      rw [fileSlot, fileSlot, hsame]
    · exact fun _ => rfl
  · exact h.idle
  · intro u fd hu
    rw [hsame]
    rw [setTask_tasks] at hu
    by_cases hut : u = t
    · rw [if_pos hut] at hu
      rw [hut]
      exact hunused hu fd
    · rw [if_neg hut] at hu
      exact h.unused u fd hu
  · intro u fd hfd
    rw [hsame]
    exact h.bounded u fd hfd
  · apply h.ledger.congr
    · exact fun _ => Iff.rfl
    · exact fun _ _ => ⟨rfl, rfl, rfl⟩
    · rfl
    · rfl
    · rfl

end Table

/-!
# Files
-/

section Files

variable {t : Nat} {s : State} {extra : Nat -> Int}

/-- A new entry, with one reference that no descriptor has yet. -/
theorem fileAlloc_ends (h : Table s extra none) {α : Type} {next : Option Nat -> Code α}
    {Q : α -> State -> Prop} (hnone : Ends (perform t) (next none) s Q)
    (hsome : forall f s', (s.files f).refs = 0 -> 
      Table s' (fun g => extra g + credit (some f) g) none ->
      s'.tasks = s.tasks -> 0 < (s'.files f).refs -> (s'.files f).type = FdType.none ->
      (forall g, g ≠ f -> s'.files g = s.files g) -> Ends (perform t) (next (some f)) s' Q) :
    Ends (perform t) (op Op.fileAlloc >>= next) s Q := by
  apply Program.ends_op
  intro f s' hrun
  have heq : fileAlloc s = (f, s') := Except.ok.inj hrun
  rcases fileAlloc_cases s with hfull | ⟨g, hfree, hg⟩
  · rw [hfull] at heq
    cases heq
    exact hnone
  · rw [hg] at heq
    cases heq
    have hidle := h.idle g hfree
    apply hsome g _ hfree
    · apply h.setFile g { s.files g with refs := 1, id := s.openings }
      · exact fun hzero => absurd hzero Nat.one_ne_zero
      · intro k
        rw [credit_some, hfree]
        dsimp only
        split
        · lia
        · lia
      · rfl
      · rfl
      · exact h.ledger.alloc hfree hidle
    · rfl
    · dsimp only
      rw [setFile_self]
      exact Nat.one_pos
    · dsimp only
      rw [setFile_self]
      exact hidle
    · intro k hk
      dsimp only
      rw [setFile_other hk]

/-- A program that leaves the table alone, and the rest behind it. -/
theorem plain_bind {α β : Type} {p : Code α} {f : α -> Code β} {Q : β -> State -> Prop}
    (hp : Plain p) (h : forall a s', SameTable s s' -> Ends (perform t) (f a) s' Q) :
    Ends (perform t) (p >>= f) s Q :=
  Program.ends_bind (plain_ends hp s) (fun a s' _ => h a s')

theorem plain_op_bind (o : Op) {β : Type} {f : o.Answer -> Code β} {Q : β -> State -> Prop}
    (ho : o.plain = true) (h : forall a s', SameTable s s' -> Ends (perform t) (f a) s' Q) :
    Ends (perform t) (op o >>= f) s Q :=
  plain_bind (plain_op ho) h

/-- The `inode_put` of `file_close` is the one that the file was due. -/
theorem inodePut_release_ends {i : Nat} {o : Opening} (h : Table s extra (some o)) :
    Ends (perform t) (inodePut i (some o)) s
      (fun _ s' => Table s' extra none ∧ SameSlots s s') := by
  apply Program.ends_op
  intro (frees : Bool) s1 hstart
  rw [(putStart_ok hstart).right.right]
  have hlocked := SameTable.setInode s i { s.icache i with locked := true }
  have hreleased := (h.sameTable hlocked).release
  apply Program.ends_mono (plain_ends (plain_putRest i frees) _)
  intro _ s2 hs2
  have hlater : SameSlots s s2 := ⟨hs2.state, hs2.ofiles⟩
  exact ⟨hreleased.sameTable hs2, hlater⟩

theorem fileClose_ends (h : Table s extra none) (f : Nat) :
    Ends (perform t) (fileClose f) s (fun _ s' =>
      Table s' (fun g => extra g - credit (some f) g) none ∧ SameSlots s s') := by
  apply Program.ends_op
  intro file s1 hdrop
  rcases fileDrop_ok hdrop with ⟨href, ⟨hmore, hfile, hs⟩ | ⟨hlast, hfile, hs⟩⟩
  · rw [hfile, hs]
    apply Program.ends_pure
    constructor
    · apply h.setFile f { s.files f with refs := (s.files f).refs - 1 }
      · intro hzero
        dsimp only at hzero
        lia
      · intro g
        rw [credit_some]
        dsimp only
        split
        · lia
        · lia
      · rfl
      · rfl
      · apply h.ledger.congr
        · intro g
          rw [setFile_files]
          split
          · rename_i hgf
            rw [hgf]
            dsimp only
            lia
          · exact Iff.rfl
        · intro g _
          rw [setFile_files]
          split
          · rename_i hgf
            rw [hgf]
            exact ⟨rfl, rfl, rfl⟩
          · exact ⟨rfl, rfl, rfl⟩
        · rfl
        · rfl
        · rfl
    · exact ⟨fun _ => rfl, fun _ => rfl⟩
  · have hslots : SameSlots s s1 := by
      rw [hs]
      exact ⟨fun _ => rfl, fun _ => rfl⟩
    have hdropped : Table s1 (fun g => extra g - credit (some f) g)
        (if (s.files f).type = FdType.none then none else some (s.files f).opening) := by
      rw [hs]
      apply h.setFile f { s.files f with refs := 0, type := FdType.none }
      · exact fun _ => rfl
      · intro g
        rw [credit_some]
        dsimp only
        split
        · lia
        · lia
      · rfl
      · rfl
      · exact h.ledger.drop hlast
    rw [hfile]
    dsimp only
    cases htype : (s.files f).type with
    | none =>
        rw [if_pos htype] at hdropped
        apply Program.ends_pure
        exact ⟨hdropped, hslots⟩
    | inode =>
        have hopening : (s.files f).opening =
            ⟨(s.files f).id, FdType.inode, (s.files f).inode⟩ := by
          rw [File.opening, File.object, htype]
        have hopen : (s.files f).type ≠ FdType.none := by
          rw [htype]
          exact fun heq => by cases heq
        rw [if_neg hopen, hopening] at hdropped
        dsimp only
        apply plain_op_bind Op.logBegin rfl
        intro _ s2 hs2
        apply Program.ends_bind (inodePut_release_ends (hdropped.sameTable hs2))
        intro _ s3 _ hput
        apply Program.ends_mono (plain_ends plain_logEndOp s3)
        intro _ s4 hs4
        refine ⟨hput.left.sameTable hs4, ?_⟩
        exact ((hslots.trans hs2.sameSlots).trans hput.right).trans hs4.sameSlots
    | pipe =>
        have hopening : (s.files f).opening =
            ⟨(s.files f).id, FdType.pipe, (s.files f).pipe⟩ := by
          rw [File.opening, File.object, htype]
        have hopen : (s.files f).type ≠ FdType.none := by
          rw [htype]
          exact fun heq => by cases heq
        rw [if_neg hopen, hopening] at hdropped
        dsimp only
        apply Program.ends_last
        intro _ s2 hclose
        cases hclose
        have hended : SameTable s1 { s1 with
            pipes := Function.update s1.pipes (s.files f).pipe
              (if (s.files f).writable then { s1.pipes (s.files f).pipe with writeClosed := true }
               else { s1.pipes (s.files f).pipe with readClosed := true }) } :=
          SameTable.of_tasks rfl rfl rfl rfl rfl
        exact ⟨(hdropped.sameTable hended).release, hslots.trans ⟨hended.state, hended.ofiles⟩⟩

/-- `fd_alloc` stores the file in an empty descriptor. -/
theorem fdAlloc_ends (h : Table s extra none) (hstate : (s.tasks t).state ≠ TaskState.unused)
    {f : Nat} {α : Type} {next : Option Nat -> Code α} {Q : α -> State -> Prop}
    (hnone : Ends (perform t) (next none) s Q)
    (hsome : forall fd s', fd < nofile ->
      Table s' (fun g => extra g - credit (some f) g) none ->
      s'.files = s.files -> (s'.tasks t).state = (s.tasks t).state ->
      (s'.tasks t).ofiles fd = some f -> Ends (perform t) (next (some fd)) s' Q) :
    Ends (perform t) (op (Op.fdAlloc f) >>= next) s Q := by
  apply Program.ends_op
  intro fd s' hrun
  have heq : fdAlloc t f s = (fd, s') := Except.ok.inj hrun
  rcases fdAlloc_cases t f s with hfull | ⟨k, hk, hfree, hg⟩
  · rw [hfull] at heq
    cases heq
    exact hnone
  · rw [hg] at heq
    cases heq
    apply hsome k _ hk
    · apply h.setDescriptor hk hstate
      intro g
      rw [hfree, credit_none]
      lia
    · rfl
    · rw [setDescriptor, setTask_self]
    · rw [setDescriptor, setTask_self]
      exact Function.update_self _ _ _

theorem Table.fileDup {s' : State} (h : Table s extra none) {f : Nat}
    (hdup : 1 ≤ (s.files f).refs ∧
      s' = s.setFile f { s.files f with refs := (s.files f).refs + 1 })
    {extra' : Nat -> Int} (hextra : forall g, extra' g = extra g + credit (some f) g) :
    Table s' extra' none := by
  rcases hdup with ⟨href, hs⟩
  rw [hs]
  apply h.setFile f { s.files f with refs := (s.files f).refs + 1 }
  · exact fun hzero => absurd hzero (Nat.succ_ne_zero _)
  · intro g
    rw [hextra g, credit_some]
    dsimp only
    split
    · lia
    · lia
  · rfl
  · rfl
  · apply h.ledger.congr
    · intro g
      rw [setFile_files]
      split
      · rename_i hgf
        rw [hgf]
        dsimp only
        lia
      · exact Iff.rfl
    · intro g _
      rw [setFile_files]
      split
      · rename_i hgf
        rw [hgf]
        exact ⟨rfl, rfl, rfl⟩
      · exact ⟨rfl, rfl, rfl⟩
    · rfl
    · rfl
    · rfl

theorem Table.openInode (h : Table s extra none) {f : Nat} (hlive : 0 < (s.files f).refs)
    (htype : (s.files f).type = FdType.none) (i : Nat) (readable writable : Bool) :
    Table (openInode f i readable writable s) extra none := by
  let file : File :=
    { s.files f with
      type := FdType.inode
      inode := i
      readable := readable
      writable := writable }
  have hopen : file.type ≠ FdType.none := fun heq => by cases heq
  apply h.setFile f file
  · intro hzero
    have hrefs : (s.files f).refs = 0 := hzero
    lia
  · intro g
    have hrefs : file.refs = (s.files f).refs := rfl
    rw [hrefs]
    split
    · lia
    · lia
  · rfl
  · rfl
  · exact h.ledger.attach hlive htype hlive hopen rfl

/-- An entry without an object gets an end of a pipe. -/
theorem Table.openPipe (h : Table s extra none) {f : Nat} (hlive : 0 < (s.files f).refs)
    (htype : (s.files f).type = FdType.none) (p : Nat) (writable : Bool) :
    Table (openPipe f p writable s) extra none := by
  let file : File :=
    { s.files f with
      type := FdType.pipe
      pipe := p
      readable := !writable
      writable := writable }
  have hopen : file.type ≠ FdType.none := fun heq => by cases heq
  apply h.setFile f file
  · intro hzero
    have hrefs : (s.files f).refs = 0 := hzero
    lia
  · intro g
    have hrefs : file.refs = (s.files f).refs := rfl
    rw [hrefs]
    split
    · lia
    · lia
  · rfl
  · rfl
  · exact h.ledger.attach hlive htype hlive hopen rfl

end Files

end Syscall
end Fs
end NicoOS
