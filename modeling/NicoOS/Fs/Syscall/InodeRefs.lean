import NicoOS.Fs.Syscall.OpenRuns
import Mathlib.Tactic.Abel
import NicoOS.Fs.Syscall.Paths

/-!
# References to inodes

A cached inode is counted by the open files that stand for it and by the tasks that
have it as their current directory.  In the middle of a call the task holds further
references.
-/

namespace NicoOS
namespace Fs
namespace Syscall

open Lib
open Program (op Ends Only)
open Inode (InodeType)

/-!
# What points at inodes
-/

def File.inodeOf (file : File) : Option Nat :=
  if file.type = FdType.inode then some file.inode else none

/-- Files and current directories that point at inodes. -/
def inodeSlot (s : State) : Nat ⊕ Nat -> Option Nat
  | Sum.inl f => (s.files f).inodeOf
  | Sum.inr t => (s.tasks t).cwd

/-- The counts of the inodes are what points at them, up to `extra`. -/
structure Counted (s : State) (extra : Nat -> Int) : Prop where
  balanced : Balanced (fun i => (s.icache i).ref) (inodeSlot s) extra
  idle : forall f, (s.files f).refs = 0 -> (s.files f).type = FdType.none
  unused : forall t, (s.tasks t).state = TaskState.unused -> (s.tasks t).cwd = none

/-- Counts and pointers stay as they are. -/
structure SameRefs (s s' : State) : Prop where
  ref : forall i, (s'.icache i).ref = (s.icache i).ref
  type : forall f, (s'.files f).type = (s.files f).type
  inode : forall f, (s'.files f).inode = (s.files f).inode
  live : forall f, (s'.files f).refs = 0 -> (s.files f).refs = 0
  cwd : forall t, (s'.tasks t).cwd = (s.tasks t).cwd
  unused : forall t, (s'.tasks t).state = TaskState.unused ->
    (s.tasks t).state = TaskState.unused

namespace SameRefs

variable {s : State}

theorem refl (s : State) : SameRefs s s :=
  ⟨fun _ => rfl, fun _ => rfl, fun _ => rfl, fun _ h => h, fun _ => rfl, fun _ h => h⟩

theorem trans {r s t : State} (hrs : SameRefs r s) (hst : SameRefs s t) : SameRefs r t where
  ref i := (hst.ref i).trans (hrs.ref i)
  type f := (hst.type f).trans (hrs.type f)
  inode f := (hst.inode f).trans (hrs.inode f)
  live f h := hrs.live f (hst.live f h)
  cwd u := (hst.cwd u).trans (hrs.cwd u)
  unused u h := hrs.unused u (hst.unused u h)

theorem of_eq {s' : State} (hicache : s'.icache = s.icache) (hfiles : s'.files = s.files)
    (htasks : s'.tasks = s.tasks) : SameRefs s s' where
  ref i := by rw [hicache]
  type f := by rw [hfiles]
  inode f := by rw [hfiles]
  live f h := by
    rw [hfiles] at h
    exact h
  cwd u := by rw [htasks]
  unused u h := by
    rw [htasks] at h
    exact h

theorem setLog (s : State) (outstanding : Nat) (committing : Bool) :
    SameRefs s (s.setLog outstanding committing) :=
  of_eq rfl rfl rfl

theorem setInode {i : Nat} {ip : CachedInode} (href : ip.ref = (s.icache i).ref) :
    SameRefs s (s.setInode i ip) where
  ref j := by
    show (Function.update s.icache i ip j).ref = (s.icache j).ref
    by_cases h : j = i
    · rw [h, Function.update_self, href]
    · rw [Function.update_of_ne h]
  type _ := rfl
  inode _ := rfl
  live _ h := h
  cwd _ := rfl
  unused _ h := h

theorem setFile {f : Nat} {file : File} (htype : file.type = (s.files f).type)
    (hinode : file.inode = (s.files f).inode)
    (hlive : file.refs = 0 -> (s.files f).refs = 0) : SameRefs s (s.setFile f file) where
  ref _ := rfl
  type g := by
    by_cases h : g = f
    · rw [setFile_files, if_pos h, htype, h]
    · rw [setFile_other h]
  inode g := by
    by_cases h : g = f
    · rw [setFile_files, if_pos h, hinode, h]
    · rw [setFile_other h]
  live g hg := by
    by_cases h : g = f
    · rw [setFile_files, if_pos h] at hg
      rw [h]
      exact hlive hg
    · rw [setFile_other h] at hg
      exact hg
  cwd _ := rfl
  unused _ h := h

theorem setTask {t : Nat} {task : Task} (hcwd : task.cwd = (s.tasks t).cwd)
    (hstate : task.state = TaskState.unused -> (s.tasks t).state = TaskState.unused) :
    SameRefs s (s.setTask t task) where
  ref _ := rfl
  type _ := rfl
  inode _ := rfl
  live _ h := h
  cwd u := by
    by_cases h : u = t
    · rw [setTask_tasks, if_pos h, hcwd, h]
    · rw [setTask_other h]
  unused u hu := by
    by_cases h : u = t
    · rw [setTask_tasks, if_pos h] at hu
      rw [h]
      exact hstate hu
    · rw [setTask_other h] at hu
      exact hu

end SameRefs

/-!
# Operations that keep the counts
-/

def Op.steady : Op -> Bool
  | Op.iget _ => false
  | Op.inodeDup _ => false
  | Op.putEnd _ => false
  | Op.fileDrop _ => false
  | Op.openInode _ _ _ _ => false
  | Op.openPipe _ _ _ => false
  | Op.setCwd _ _ => false
  | Op.taskAlloc _ => false
  | Op.setState _ _ => false
  | _ => true

theorem writeDirent_sameRefs {i k : Nat} {e : Dirent} {stored : Bool} {s s' : State}
    (h : writeDirent i k e s = Except.ok (stored, s')) : SameRefs s s' := by
  rcases writeDirent_ok h with ⟨-, hs, -⟩ | ⟨-, ⟨-, hs⟩ | ⟨-, hs⟩⟩
  · rw [hs]
    exact SameRefs.refl s
  · rw [hs]
    exact SameRefs.of_eq rfl rfl rfl
  · rw [hs]
    exact SameRefs.of_eq rfl rfl rfl

theorem perform_steady {t : Nat} {o : Op} {s s' : State} {a : o.Answer}
    (hsteady : o.steady = true) (h : perform t o s = Except.ok (a, s')) : SameRefs s s' := by
  cases o with
  | assert holds stop =>
      cases holds with
      | true =>
          cases h
          exact SameRefs.refl s
      | false => cases h
  | logBegin =>
      rw [(logBegin_ok (done_ok h)).right]
      apply SameRefs.trans (SameRefs.setLog s _ _)
      exact SameRefs.setTask rfl (fun hu => hu)
  | logEnd =>
      rw [(logEnd_ok h).right.right]
      apply SameRefs.trans (SameRefs.setLog s _ _)
      exact SameRefs.setTask rfl (fun hu => hu)
  | commitEnd =>
      cases h
      exact SameRefs.of_eq rfl rfl rfl
  | inodeLock i =>
      rcases inodeLock_ok (done_ok h) with ⟨-, -, ⟨-, hs⟩ | ⟨-, -, hs⟩⟩
      · rw [hs]
        exact SameRefs.setInode rfl
      · rw [hs]
        exact SameRefs.setInode rfl
  | inodeUnlock i =>
      rw [inodeUnlock_ok (done_ok h)]
      exact SameRefs.setInode rfl
  | inode i =>
      cases h
      exact SameRefs.refl s
  | setNlink i nlink =>
      cases h
      exact SameRefs.setInode rfl
  | inodeUpdate i =>
      rw [inodeUpdate_ok (done_ok h)]
      exact SameRefs.of_eq rfl rfl rfl
  | putStart i o =>
      rw [(putStart_ok h).right.right]
      cases o with
      | none => exact SameRefs.setInode rfl
      | some o =>
          have hset : SameRefs s (s.setInode i { s.icache i with locked := true }) :=
            SameRefs.setInode rfl
          exact hset.trans (SameRefs.of_eq rfl rfl rfl)
  | itruncate i =>
      rw [itruncate_ok (done_ok h)]
      exact SameRefs.of_eq rfl rfl rfl
  | clearType i =>
      rw [clearType_ok (done_ok h)]
      have hset : SameRefs s (s.setInode i
          { s.icache i with
            valid := false
            diskInode := { (s.icache i).diskInode with type := InodeType.none } }) :=
        SameRefs.setInode rfl
      exact hset.trans (SameRefs.of_eq rfl rfl rfl)
  | inodeAlloc typ =>
      rw [(inodeAlloc_ok h).right.right.right]
      exact SameRefs.of_eq rfl rfl rfl
  | bmap i blocks =>
      cases h
      exact SameRefs.refl s
  | balloc =>
      rw [(logWrite_ok (done_ok h)).right]
      exact SameRefs.refl s
  | dirFind i name =>
      rw [(dirFind_ok h).right.right.right]
      exact SameRefs.refl s
  | dirAdd i e => exact writeDirent_sameRefs (dirAdd_ok h)
  | dirUnlink i k =>
      rcases dirUnlink_ok h with ⟨e, -, -, -, hs⟩
      rw [hs]
      exact SameRefs.of_eq rfl rfl rfl
  | dirIsempty i =>
      rw [(dirIsempty_ok h).right]
      exact SameRefs.refl s
  | inodeWrite i =>
      rw [(logWrite_ok (done_ok h)).right]
      exact SameRefs.refl s
  | fileAlloc =>
      rcases fileAlloc_cases s with heq | ⟨f, hfree, heq⟩
      · have hpair : (none, s) = (a, s') := heq.symm.trans (Except.ok.inj h)
        cases hpair
        exact SameRefs.refl s
      · have hpair := heq.symm.trans (Except.ok.inj h)
        cases hpair
        have hset : SameRefs s (s.setFile f { s.files f with refs := 1, id := s.openings }) :=
          SameRefs.setFile rfl rfl (fun _ => hfree)
        exact hset.trans (SameRefs.of_eq rfl rfl rfl)
  | fileDup f =>
      rw [(fileDup_ok (done_ok h)).right]
      exact SameRefs.setFile rfl rfl (fun hzero => absurd hzero (Nat.succ_ne_zero _))
  | file f =>
      cases h
      exact SameRefs.refl s
  | newPipe =>
      cases h
      exact SameRefs.of_eq rfl rfl rfl
  | pipeClose p writable o =>
      cases h
      exact SameRefs.of_eq rfl rfl rfl
  | fdAlloc f =>
      rcases fdAlloc_cases t f s with heq | ⟨fd, -, -, heq⟩
      · have hpair : (none, s) = (a, s') := heq.symm.trans (Except.ok.inj h)
        cases hpair
        exact SameRefs.refl s
      · have hpair := heq.symm.trans (Except.ok.inj h)
        cases hpair
        exact SameRefs.setTask rfl (fun hu => hu)
  | fetchFile fd =>
      cases h
      exact SameRefs.refl s
  | setDescriptor u fd f =>
      cases h
      exact SameRefs.setTask rfl (fun hu => hu)
  | cwd =>
      cases h
      exact SameRefs.refl s
  | self =>
      cases h
      exact SameRefs.refl s
  | iget inum => cases hsteady
  | inodeDup i => cases hsteady
  | putEnd i => cases hsteady
  | fileDrop f => cases hsteady
  | openInode f i readable writable => cases hsteady
  | openPipe f p writable => cases hsteady
  | setCwd u cwd => cases hsteady
  | taskAlloc child => cases hsteady
  | setState u state => cases hsteady

abbrev Steady {α : Type} (p : Code α) : Prop := Only (fun o => o.steady = true) p

theorem steady_ends {α : Type} {t : Nat} {p : Code α} (h : Steady p) (s : State) :
    Ends (perform t) p s (fun _ s' => SameRefs s s') :=
  Program.only_exec SameRefs.refl (fun _ _ _ => SameRefs.trans)
    (fun _ _ _ _ hop hrun => perform_steady hop hrun) h s

theorem steady_op {o : Op} (h : o.steady = true) : Steady (op o) := Program.only_op h

theorem steady_logEndOp : Steady logEndOp := by
  apply Program.only_bind (steady_op rfl)
  intro (last : Bool)
  exact Program.only_ite (steady_op rfl) (Program.only_pure ())

/-!
# Counts through programs
-/

theorem SameRefs.inodeSlot {s s' : State} (h : SameRefs s s') (x : Nat ⊕ Nat) :
    inodeSlot s' x = inodeSlot s x := by
  cases x with
  | inl f =>
      show (s'.files f).inodeOf = (s.files f).inodeOf
      unfold File.inodeOf
      rw [h.type f, h.inode f]
  | inr t => exact h.cwd t

theorem Counted.same {s s' : State} {extra : Nat -> Int} (h : Counted s extra)
    (same : SameRefs s s') : Counted s' extra where
  balanced := h.balanced.recount same.inodeSlot (fun i => by rw [same.ref i])
  idle f hf := by
    rw [same.type f]
    exact h.idle f (same.live f hf)
  unused t ht := by
    rw [same.cwd t]
    exact h.unused t (same.unused t ht)

theorem Counted.setInode {s : State} {extra extra' : Nat -> Int} (h : Counted s extra) {i : Nat}
    {ip : CachedInode} (hextra : forall j, extra' j - extra j =
      if j = i then (ip.ref : Int) - (s.icache i).ref else 0) :
    Counted (s.setInode i ip) extra' where
  balanced := by
    apply h.balanced.recount (fun _ => rfl)
    intro j
    have hj := hextra j
    show ((Function.update s.icache i ip j).ref : Int) - extra' j = (s.icache j).ref - extra j
    by_cases hji : j = i
    · rw [if_pos hji] at hj
      rw [hji] at hj ⊢
      rw [Function.update_self]
      lia
    · rw [if_neg hji] at hj
      rw [Function.update_of_ne hji]
      lia
  idle := h.idle
  unused := h.unused

/-- Task `t` runs in directory `cwd`. -/
structure At (t : Nat) (cwd : Option Nat) (s : State) (extra : Nat -> Int) : Prop
    extends Counted s extra where
  active : (s.tasks t).state ≠ TaskState.unused
  here : (s.tasks t).cwd = cwd

/-- A program of the task takes one credit to another. -/
def Turns {α : Type} (t : Nat) (cwd : Option Nat) (extra : Nat -> Int) (p : Code α)
    (extra' : α -> Nat -> Int) : Prop :=
  forall s, At t cwd s extra -> Ends (perform t) p s (fun a s' => At t cwd s' (extra' a))

section Turns

variable {α β : Type} {t : Nat} {cwd : Option Nat} {extra : Nat -> Int}

theorem At.same {s s' : State} (h : At t cwd s extra) (same : SameRefs s s') :
    At t cwd s' extra where
  toCounted := h.toCounted.same same
  active := fun ht => h.active (same.unused t ht)
  here := (same.cwd t).trans h.here

theorem turns_pure {a : α} {extra' : α -> Nat -> Int} (h : extra' a = extra) :
    Turns t cwd extra (pure a) extra' := by
  intro s hs
  apply Program.ends_pure
  rw [h]
  exact hs

theorem turns_bind {p : Code α} {f : α -> Code β} {middle : α -> Nat -> Int}
    {extra' : β -> Nat -> Int} (hp : Turns t cwd extra p middle)
    (hf : forall a, Turns t cwd (middle a) (f a) extra') :
    Turns t cwd extra (p >>= f) extra' := by
  intro s hs
  exact Program.ends_bind (hp s hs) (fun a s' _ hs' => hf a s' hs')

theorem turns_mono {p : Code α} {middle extra' : α -> Nat -> Int}
    (hp : Turns t cwd extra p middle) (h : forall a, middle a = extra' a) :
    Turns t cwd extra p extra' := by
  intro s hs
  apply Program.ends_mono (hp s hs)
  intro a s' hs'
  rw [<- h a]
  exact hs'

theorem turns_ite {c : Prop} [Decidable c] {p q : Code α} {extra' : α -> Nat -> Int}
    (hp : Turns t cwd extra p extra') (hq : Turns t cwd extra q extra') :
    Turns t cwd extra (if c then p else q) extra' := by
  intro s hs
  exact Program.ends_ite (fun _ => hp s hs) (fun _ => hq s hs)

theorem turns_steady {p : Code α} (h : Steady p) : Turns t cwd extra p (fun _ => extra) := by
  intro s hs
  exact Program.ends_mono (steady_ends h s) (fun _ _ same => hs.same same)

/-- An operation that keeps the counts, and the rest of the program behind it. -/
theorem turns_op {o : Op} (ho : o.steady = true) {f : o.Answer -> Code β}
    {extra' : β -> Nat -> Int} (hf : forall a, Turns t cwd extra (f a) extra') :
    Turns t cwd extra (op o >>= f) extra' :=
  turns_bind (turns_steady (steady_op ho)) hf

theorem turns_assert (holds : Bool) (stop : Stop) {f : Unit -> Code β}
    {extra' : β -> Nat -> Int} (hf : forall a, Turns t cwd extra (f a) extra') :
    Turns t cwd extra (assert holds stop >>= f) extra' :=
  turns_op (o := Op.assert holds stop) rfl hf

theorem At.setInode {s : State} {extra' : Nat -> Int} (h : At t cwd s extra) {i : Nat}
    {ip : CachedInode} (hextra : forall j, extra' j - extra j =
      if j = i then (ip.ref : Int) - (s.icache i).ref else 0) :
    At t cwd (s.setInode i ip) extra' where
  toCounted := h.toCounted.setInode hextra
  active := h.active
  here := h.here

theorem At.take {s : State} (h : At t cwd s extra) {i : Nat} {ip : CachedInode}
    (href : ip.ref = (s.icache i).ref + 1) :
    At t cwd (s.setInode i ip) (extra + credit (some i)) := by
  apply h.setInode
  intro j
  rw [Pi.add_apply, credit_some, href]
  split
  · lia
  · lia

theorem turns_iget (inum : Nat) :
    Turns t cwd extra (op (Op.iget inum)) (fun i : Nat => extra + credit (some i)) := by
  intro s hs
  apply Program.ends_last
  intro (i : Nat) s' hget
  rcases iget_ok hget with ⟨-, -, heq⟩ | ⟨hzero, -, heq⟩
  · rw [heq]
    apply hs.take
    rfl
  · rw [heq]
    apply hs.take
    rw [hzero]

theorem turns_inodeDup (i : Nat) :
    Turns t cwd extra (op (Op.inodeDup i)) (fun _ => extra + credit (some i)) := by
  intro s hs
  apply Program.ends_last
  intro a s' hdup
  cases hdup
  apply hs.take
  rfl

theorem At.drop {s : State} (h : At t cwd s extra) {i : Nat} (href : 1 ≤ (s.icache i).ref) :
    At t cwd (putEnd i s) (extra - credit (some i)) := by
  apply h.setInode
  intro j
  rw [Pi.sub_apply, credit_some]
  split
  · show extra j - 1 - extra j = (((s.icache i).ref - 1 : Nat) : Int) - (s.icache i).ref
    lia
  · lia

theorem turns_inodePut (i : Nat) {o : Option Opening} :
    Turns t cwd extra (inodePut i o) (fun _ => extra - credit (some i)) := by
  intro s hs
  apply Program.ends_op
  intro (frees : Bool) s1 hstart
  have href := (putStart_ok hstart).left
  have hfirst : SameRefs s s1 := perform_steady (o := Op.putStart i o) rfl hstart
  have hlast : forall s2, SameRefs s s2 -> Ends (perform t) (op (Op.putEnd i)) s2
      (fun _ s' => At t cwd s' (extra - credit (some i))) := by
    intro s2 same
    apply Program.ends_last
    intro a s' hput
    cases hput
    apply (hs.same same).drop
    rw [same.ref i]
    exact href
  apply Program.ends_ite
  · intro _
    apply Program.ends_op
    intro _ s2 htruncate
    have hsecond : SameRefs s1 s2 := perform_steady (o := Op.itruncate i) rfl htruncate
    apply Program.ends_op
    intro _ s3 hclear
    have hthird : SameRefs s2 s3 := perform_steady (o := Op.clearType i) rfl hclear
    exact hlast s3 ((hfirst.trans hsecond).trans hthird)
  · exact fun _ => hlast s1 hfirst

theorem turns_inodeUnlockput (i : Nat) :
    Turns t cwd extra (inodeUnlockput i) (fun _ => extra - credit (some i)) :=
  turns_op rfl (fun _ => turns_inodePut i)

/-!
# Lookups
-/

theorem steady_inodeRead (i : Nat) (blocks : List Dirent -> List Nat) :
    Steady (inodeRead i blocks) := by
  apply Program.only_bind (steady_op rfl)
  intro (hole : Bool)
  exact Program.only_ite (steady_op rfl) (Program.only_pure ())

/-- The inode that a lookup returns is one more reference of the task. -/
theorem turns_dirLookup (dir : Nat) (name : Name) :
    Turns t cwd extra (dirLookup dir name)
      (fun found => extra + credit (found.map Prod.snd)) := by
  apply turns_op rfl
  intro found
  apply turns_bind (turns_steady (steady_inodeRead dir _))
  intro _
  cases found with
  | none =>
      apply turns_pure
      rw [Option.map_none, credit_zero, add_zero]
  | some entry =>
      apply turns_bind (turns_iget entry.2)
      intro ip
      exact turns_pure rfl

/-- A reference given up by a program that gives its result afterwards. -/
theorem turns_putThen {p : Code Unit} {i : Nat}
    (hp : Turns t cwd extra p (fun _ => extra - credit (some i))) (b : β)
    {extra' : β -> Nat -> Int} (h : extra' b = extra - credit (some i)) :
    Turns t cwd extra (p >>= fun _ => pure b) extra' :=
  turns_bind hp (fun _ => turns_pure h)

theorem turns_dirLink (dir : Nat) (e : Dirent) :
    Turns t cwd extra (dirLink dir e) (fun _ => extra) := by
  apply turns_bind (turns_dirLookup dir e.name)
  intro found
  cases found with
  | none =>
      rw [Option.map_none, credit_zero, add_zero]
      exact turns_steady (steady_op rfl)
  | some entry =>
      apply turns_putThen (turns_inodePut entry.2)
      exact (add_sub_cancel_right _ _).symm

theorem turns_dirMake (parent dir : Nat) :
    Turns t cwd extra (dirMake parent dir) (fun _ => extra) := by
  apply turns_op rfl
  intro ip
  apply turns_bind (turns_dirLink dir _)
  intro (dot : Bool)
  apply turns_ite
  · apply turns_op rfl
    intro pp
    apply turns_bind (turns_dirLink dir _)
    intro (dotdot : Bool)
    apply turns_ite
    · exact turns_op rfl (fun _ => turns_steady (steady_op rfl))
    · exact turns_pure rfl
  · exact turns_pure rfl

theorem turns_pathLookupFrom (nameiparent : Bool) (fuel parent : Nat) (path name : Name)
    (hfuel : path.length < fuel) :
    Turns t cwd (extra + credit (some parent))
      (pathLookupFrom nameiparent fuel parent path name)
      (fun found => extra + credit (found.map Prod.fst)) := by
  have hgone : extra + credit none = extra + credit (some parent) - credit (some parent) := by
    rw [credit_zero, add_zero, add_sub_cancel_right]
  induction fuel generalizing parent path name with
  | zero => exact absurd hfuel (Nat.not_lt_zero _)
  | succ fuel ih =>
      rw [pathLookupFrom]
      cases helem : pathSkipelem path with
      | none =>
          apply turns_ite
          · exact turns_putThen (turns_inodePut parent) none hgone
          · exact turns_pure rfl
      | some elem =>
          have hshort : (skipSlashes elem.2).length < path.length := length_pathSkipelem helem
          apply turns_assert
          intro _
          apply turns_op rfl
          intro _
          apply turns_op rfl
          intro ip
          apply turns_ite
          · exact turns_putThen (turns_inodeUnlockput parent) none hgone
          · apply turns_ite
            · exact turns_op rfl (fun _ => turns_pure rfl)
            · apply turns_bind (turns_dirLookup parent _)
              intro found
              cases found with
              | none =>
                  rw [Option.map_none, credit_zero, add_zero]
                  exact turns_putThen (turns_inodeUnlockput parent) none hgone
              | some entry =>
                  apply turns_bind (turns_inodeUnlockput parent)
                  intro _
                  have hnext : extra + credit (some parent) +
                      credit (Option.map Prod.snd (some entry)) - credit (some parent) =
                      extra + credit (some entry.2) := by
                    rw [Option.map_some, add_right_comm, add_sub_cancel_right]
                  rw [hnext]
                  apply ih
                  · lia
                  · rw [credit_zero, add_zero, add_sub_cancel_right]

theorem turns_startAtCwd :
    Turns t cwd extra startAtCwd (fun i => extra + credit (some i)) := by
  apply turns_op rfl
  intro found
  cases found with
  | none =>
      intro s hs
      apply Program.ends_op
      intro a s' hfails
      cases hfails
  | some i =>
      apply turns_bind (turns_inodeDup i)
      intro _
      exact turns_pure rfl

theorem turns_pathStart (path : Name) :
    Turns t cwd extra (pathStart path) (fun i => extra + credit (some i)) := by
  cases path with
  | nil => exact turns_startAtCwd
  | cons c rest => exact turns_ite (turns_iget rootInum) turns_startAtCwd

theorem turns_pathLookup0 (nameiparent : Bool) (path : Name) :
    Turns t cwd extra (pathLookup0 nameiparent path)
      (fun found => extra + credit (found.map Prod.fst)) := by
  apply turns_bind (turns_pathStart path)
  intro parent
  exact turns_pathLookupFrom nameiparent _ parent path [] (Nat.lt_succ_self _)

theorem turns_pathLookup (path : Name) :
    Turns t cwd extra (pathLookup path) (fun found => extra + credit found) := by
  apply turns_bind (turns_pathLookup0 false path)
  intro found
  cases found with
  | none => exact turns_pure rfl
  | some entry => exact turns_pure rfl

/-!
# New files
-/

theorem turns_putHeld (i : Nat) {o : Option Opening} :
    Turns t cwd (extra + credit (some i)) (inodePut i o) (fun _ => extra) :=
  turns_mono (turns_inodePut i) (fun _ => add_sub_cancel_right _ _)

theorem turns_unlockputHeld (i : Nat) :
    Turns t cwd (extra + credit (some i)) (inodeUnlockput i) (fun _ => extra) :=
  turns_mono (turns_inodeUnlockput i) (fun _ => add_sub_cancel_right _ _)

theorem turns_noInode :
    Turns t cwd extra (pure none) (fun found : Option Nat => extra + credit found) := by
  apply turns_pure
  rw [credit_zero, add_zero]

theorem turns_createBad (ip dir : Nat) :
    Turns t cwd (extra + credit (some dir) + credit (some ip)) (createBad ip dir)
      (fun found => extra + credit found) := by
  apply turns_bind (turns_unlockputHeld ip)
  intro _
  apply turns_bind (turns_unlockputHeld dir)
  intro _
  exact turns_noInode

theorem turns_returnInode (ip dir : Nat) :
    Turns t cwd (extra + credit (some dir) + credit (some ip))
      (inodeUnlockput dir >>= fun _ => pure (some ip)) (fun found => extra + credit found) := by
  rw [add_right_comm]
  apply turns_bind (turns_unlockputHeld dir)
  intro _
  exact turns_pure rfl

theorem turns_createExisting (dir ip : Nat) (typ : InodeType) :
    Turns t cwd (extra + credit (some dir) + credit (some ip)) (createExisting dir ip typ)
      (fun found => extra + credit found) := by
  apply turns_op rfl
  intro _
  apply turns_op rfl
  intro inode
  apply turns_ite
  · exact turns_op rfl (fun _ => turns_returnInode ip dir)
  · exact turns_createBad ip dir

theorem turns_createEntries (dir ip : Nat) (typ : InodeType) :
    Turns t cwd extra (createEntries dir ip typ) (fun _ => extra) :=
  turns_ite (turns_dirMake dir ip) (turns_pure rfl)

theorem turns_createNew (dir : Nat) (name : Name) (typ : InodeType) :
    Turns t cwd (extra + credit (some dir)) (createNew dir name typ)
      (fun found => extra + credit found) := by
  apply turns_op rfl
  intro (inum : Nat)
  apply turns_bind (turns_iget inum)
  intro (ip : Nat)
  apply turns_op rfl
  intro _
  apply turns_op rfl
  intro _
  apply turns_op rfl
  intro _
  apply turns_bind (turns_dirLink dir _)
  intro (linked : Bool)
  apply turns_ite
  · apply turns_bind (turns_createEntries dir ip typ)
    intro _
    exact turns_op rfl (fun _ => turns_returnInode ip dir)
  · exact turns_op rfl (fun _ => turns_createBad ip dir)

theorem turns_createFile (path : Name) (typ : InodeType) :
    Turns t cwd extra (createFile path typ) (fun found => extra + credit found) := by
  apply turns_bind (turns_pathLookup0 true path)
  intro found
  cases found with
  | none =>
      rw [Option.map_none, credit_zero, add_zero]
      exact turns_noInode
  | some entry =>
      apply turns_ite
      · apply turns_op rfl
        intro _
        apply turns_op rfl
        intro parent
        apply turns_assert
        intro _
        apply turns_bind (turns_dirLookup entry.1 entry.2)
        intro old
        cases old with
        | none =>
            rw [Option.map_none, credit_zero, add_zero]
            exact turns_createNew entry.1 entry.2 typ
        | some old => exact turns_createExisting entry.1 old.2 typ
      · apply turns_bind (turns_putHeld entry.1)
        intro _
        exact turns_noInode

theorem turns_openExisting (path : Name) (omode : UInt32) :
    Turns t cwd extra (openExisting path omode) (fun found => extra + credit found) := by
  apply turns_bind (turns_pathLookup path)
  intro found
  cases found with
  | none =>
      rw [credit_zero, add_zero]
      exact turns_noInode
  | some ip =>
      apply turns_op rfl
      intro _
      apply turns_op rfl
      intro inode
      apply turns_ite
      · apply turns_bind (turns_unlockputHeld ip)
        intro _
        exact turns_noInode
      · exact turns_op rfl (fun _ => turns_pure rfl)

theorem turns_openPath (path : Name) (omode : UInt32) :
    Turns t cwd extra (openPath path omode) (fun found => extra + credit found) :=
  turns_ite (turns_createFile path _) (turns_openExisting path omode)

/-!
# The ends of calls
-/

theorem turns_end (r : Int) :
    Turns t cwd extra (logEndOp >>= fun _ => (pure r : Code Int)) (fun _ => extra) :=
  turns_bind (turns_steady steady_logEndOp) (fun _ => turns_pure rfl)

theorem turns_putEnd (ip : Nat) (r : Int) :
    Turns t cwd (extra + credit (some ip))
      (inodePut ip >>= fun _ => logEndOp >>= fun _ => (pure r : Code Int)) (fun _ => extra) :=
  turns_bind (turns_putHeld ip) (fun _ => turns_end r)

theorem turns_unlockputEnd (ip : Nat) (r : Int) :
    Turns t cwd (extra + credit (some ip))
      (inodeUnlockput ip >>= fun _ => logEndOp >>= fun _ => (pure r : Code Int))
      (fun _ => extra) :=
  turns_bind (turns_unlockputHeld ip) (fun _ => turns_end r)

theorem turns_sysMkdir (path : Option Name) :
    Turns t cwd extra (sysMkdir path) (fun _ => extra) := by
  cases path with
  | none => exact turns_pure rfl
  | some path =>
      apply turns_op rfl
      intro _
      apply turns_bind (turns_createFile path _)
      intro found
      cases found with
      | none =>
          rw [credit_zero, add_zero]
          exact turns_end _
      | some ip => exact turns_putEnd ip _

theorem turns_unlinkBad (ip parent : Nat) :
    Turns t cwd (extra + credit (some parent) + credit (some ip)) (unlinkBad ip parent)
      (fun _ => extra) :=
  turns_bind (turns_unlockputHeld ip) (fun _ => turns_unlockputEnd parent _)

theorem steady_dropDotdot (parent : Nat) (isDir : Bool) : Steady (dropDotdot parent isDir) := by
  apply Program.only_ite _ (Program.only_pure ())
  apply Program.only_bind (steady_op rfl)
  intro pp
  exact Program.only_bind (steady_op rfl) (fun _ => steady_op rfl)

theorem steady_unlinkAllowed (ip : Nat) (isDir : Bool) : Steady (unlinkAllowed ip isDir) := by
  apply Program.only_ite _ (Program.only_pure true)
  apply Program.only_bind (steady_op rfl)
  intro empty
  exact Program.only_bind (steady_inodeRead ip _) (fun _ => Program.only_pure empty)

theorem turns_unlinkEntry (parent ip k : Nat) :
    Turns t cwd (extra + credit (some parent) + credit (some ip)) (unlinkEntry parent ip k)
      (fun _ => extra) := by
  apply turns_op rfl
  intro _
  apply turns_op rfl
  intro inode
  apply turns_assert
  intro _
  apply turns_bind (turns_steady (steady_unlinkAllowed ip _))
  intro empty
  apply turns_ite
  · apply turns_op rfl
    intro (unlinked : Bool)
    apply turns_ite
    · apply turns_bind (turns_steady (steady_dropDotdot parent _))
      intro _
      apply turns_op rfl
      intro _
      apply turns_op rfl
      intro _
      apply turns_bind (turns_unlockputHeld ip)
      intro _
      exact turns_unlockputEnd parent 0
    · exact turns_unlinkBad ip parent
  · exact turns_unlinkBad ip parent

theorem turns_sysStat (path : Option Name) (buffer : Bool) :
    Turns t cwd extra (sysStat path buffer) (fun _ => extra) := by
  cases path with
  | none => exact turns_pure rfl
  | some path =>
      apply turns_ite
      · apply turns_bind (turns_pathLookup path)
        intro found
        cases found with
        | none =>
            apply turns_pure
            rw [credit_zero, add_zero]
        | some ip =>
            apply turns_op rfl
            intro _
            apply turns_bind (turns_unlockputHeld ip)
            intro _
            exact turns_pure rfl
      · exact turns_pure rfl

theorem turns_procExecv (path : Name) (result : ExecResult) :
    Turns t cwd extra (procExecv path result) (fun _ => extra) := by
  apply turns_ite
  · apply turns_op rfl
    intro _
    apply turns_bind (turns_pathLookup path)
    intro found
    cases found with
    | none =>
        rw [credit_zero, add_zero]
        exact turns_end _
    | some ip =>
        apply turns_op rfl
        intro _
        apply turns_op rfl
        intro inode
        apply turns_ite
        · apply turns_bind (turns_steady (steady_inodeRead ip _))
          intro _
          apply turns_bind (turns_unlockputHeld ip)
          intro _
          apply turns_bind (turns_steady steady_logEndOp)
          intro _
          exact turns_ite (turns_pure rfl) (turns_pure rfl)
        · exact turns_unlockputEnd ip _
  · exact turns_pure rfl

/-!
# Files
-/

theorem Counted.setFile {s s' : State} {extra' : Nat -> Int} (h : Counted s extra) (f : Nat)
    (file : File) (hidle : file.refs = 0 -> file.type = FdType.none)
    (hextra : forall i, extra' i =
      extra i + credit (s.files f).inodeOf i - credit file.inodeOf i)
    (hfiles : s'.files = (s.setFile f file).files) (hicache : s'.icache = s.icache)
    (htasks : s'.tasks = s.tasks) : Counted s' extra' where
  balanced := by
    apply h.balanced.set_slot (Sum.inl f)
    · intro x hx
      cases x with
      | inl g =>
          have hgf : g ≠ f := fun heq => hx (congrArg Sum.inl heq)
          show (s'.files g).inodeOf = (s.files g).inodeOf
          rw [hfiles, setFile_other hgf]
      | inr u =>
          show (s'.tasks u).cwd = (s.tasks u).cwd
          rw [htasks]
    · intro i
      have hi := hextra i
      have hnew : inodeSlot s' (Sum.inl f) = file.inodeOf := by
        show (s'.files f).inodeOf = file.inodeOf
        rw [hfiles, setFile_self]
      show ((s'.icache i).ref : Int) - extra' i - credit (inodeSlot s' (Sum.inl f)) i =
        (s.icache i).ref - extra i - credit (s.files f).inodeOf i
      rw [hnew, hicache, hi]
      lia
  idle g hg := by
    rw [hfiles, setFile_files] at hg ⊢
    by_cases hgf : g = f
    · rw [if_pos hgf] at hg ⊢
      exact hidle hg
    · rw [if_neg hgf] at hg ⊢
      exact h.idle g hg
  unused u hu := by
    rw [htasks] at hu ⊢
    exact h.unused u hu

theorem At.setFile {s s' : State} {extra' : Nat -> Int} (h : At t cwd s extra) (f : Nat)
    (file : File) (hidle : file.refs = 0 -> file.type = FdType.none)
    (hextra : forall i, extra' i =
      extra i + credit (s.files f).inodeOf i - credit file.inodeOf i)
    (hfiles : s'.files = (s.setFile f file).files) (hicache : s'.icache = s.icache)
    (htasks : s'.tasks = s.tasks) : At t cwd s' extra' where
  toCounted := h.toCounted.setFile f file hidle hextra hfiles hicache htasks
  active := by
    rw [htasks]
    exact h.active
  here := by
    rw [htasks]
    exact h.here

theorem turns_closeObject (file : File) :
    Turns t cwd (extra + credit file.inodeOf)
      (match file.type with
        | FdType.none => pure ()
        | FdType.inode => do
            op Op.logBegin
            inodePut file.inode (some ⟨file.id, FdType.inode, file.inode⟩)
            logEndOp
        | FdType.pipe =>
            op (Op.pipeClose file.pipe file.writable ⟨file.id, FdType.pipe, file.pipe⟩) :
          Code Unit)
      (fun _ => extra) := by
  rcases file with ⟨typ, refs, writable, readable, inode, pipe, id⟩
  have hnone : forall {o : Option Nat}, o = none -> extra = extra + credit o := by
    intro o ho
    rw [ho, credit_zero, add_zero]
  cases typ with
  | none => exact turns_pure (hnone rfl)
  | inode =>
      apply turns_op rfl
      intro _
      apply turns_bind (turns_putHeld inode)
      intro _
      exact turns_steady steady_logEndOp
  | pipe =>
      have hsame : Turns t cwd extra
          (op (Op.pipeClose pipe writable ⟨id, FdType.pipe, pipe⟩)) (fun _ => extra) :=
        turns_steady (steady_op rfl)
      rw [hnone (o := File.inodeOf ⟨FdType.pipe, refs, writable, readable, inode, pipe, id⟩) rfl]
        at hsame
      exact turns_mono hsame (fun _ => (hnone rfl).symm)

theorem turns_fileClose (f : Nat) : Turns t cwd extra (fileClose f) (fun _ => extra) := by
  intro s hs
  apply Program.ends_op
  intro found s1 hdrop
  rcases fileDrop_ok hdrop with ⟨-, ⟨hmore, hfound, heq⟩ | ⟨hlast, hfound, heq⟩⟩
  · rw [hfound]
    apply Program.ends_pure
    have same : SameRefs s s1 := by
      rw [heq]
      apply SameRefs.setFile
      · rfl
      · rfl
      · intro hzero
        dsimp only at hzero
        lia
    exact hs.same same
  · rw [hfound]
    apply turns_closeObject (s.files f)
    rw [heq]
    apply hs.setFile f { s.files f with refs := 0, type := FdType.none }
    · exact fun _ => rfl
    · intro i
      have hnone : File.inodeOf { s.files f with refs := 0, type := FdType.none } = none := rfl
      rw [hnone, credit_none, Pi.add_apply, Int.sub_zero]
    · rfl
    · rfl
    · rfl

def Fresh (s : State) (f : Nat) : Prop := 0 < (s.files f).refs ∧ (s.files f).type = FdType.none

theorem Fresh.same {s s' : State} {f : Nat} (h : Fresh s f) (same : SameRefs s s') :
    Fresh s' f := by
  constructor
  · have hlive := same.live f
    have hpos := h.left
    lia
  · rw [same.type f]
    exact h.right

theorem Fresh.inodeOf {s : State} {f : Nat} (h : Fresh s f) : (s.files f).inodeOf = none := by
  unfold File.inodeOf
  rw [h.right]
  rfl

theorem fileAlloc_fresh {s s' : State} {found : Option Nat} (h : At t cwd s extra)
    (halloc : perform t Op.fileAlloc s = Except.ok (found, s')) :
    (found = none ∧ s' = s) ∨
      exists f, found = some f ∧ (s.files f).refs = 0 ∧ Fresh s' f := by
  rcases fileAlloc_cases s with heq | ⟨f, hfree, heq⟩
  · have hpair : (none, s) = (found, s') := heq.symm.trans (Except.ok.inj halloc)
    cases hpair
    exact Or.inl ⟨rfl, rfl⟩
  · have hpair := heq.symm.trans (Except.ok.inj halloc)
    cases hpair
    refine Or.inr ⟨f, rfl, hfree, ?_⟩
    have hself : (s.setFile f { s.files f with refs := 1, id := s.openings }).files f =
        { s.files f with refs := 1, id := s.openings } := by
      rw [setFile_self]
    constructor
    · show 0 < ((s.setFile f { s.files f with refs := 1, id := s.openings }).files f).refs
      rw [hself]
      exact Nat.one_pos
    · show ((s.setFile f { s.files f with refs := 1, id := s.openings }).files f).type = _
      rw [hself]
      exact h.idle f hfree

theorem At.openInode {s : State} {f i : Nat} (h : At t cwd s (extra + credit (some i)))
    (hfresh : Fresh s f) (readable writable : Bool) :
    At t cwd (openInode f i readable writable s) extra := by
  apply h.setFile f
    { s.files f with
      type := FdType.inode
      inode := i
      readable := readable
      writable := writable }
  · intro hzero
    exact absurd hzero (Nat.ne_of_gt hfresh.left)
  · intro j
    have hsome : File.inodeOf
        { s.files f with
          type := FdType.inode
          inode := i
          readable := readable
          writable := writable } = some i := rfl
    rw [hsome, hfresh.inodeOf, credit_none, Pi.add_apply]
    lia
  · rfl
  · rfl
  · rfl

theorem At.openPipe {s : State} {f : Nat} (h : At t cwd s extra) (hfresh : Fresh s f) (p : Nat)
    (writable : Bool) : At t cwd (openPipe f p writable s) extra := by
  apply h.setFile f
    { s.files f with
      type := FdType.pipe
      pipe := p
      readable := !writable
      writable := writable }
  · intro hzero
    exact absurd hzero (Nat.ne_of_gt hfresh.left)
  · intro j
    have hnone : File.inodeOf
        { s.files f with
          type := FdType.pipe
          pipe := p
          readable := !writable
          writable := writable } = none := rfl
    rw [hnone, hfresh.inodeOf, credit_none]
    lia
  · rfl
  · rfl
  · rfl

/-- `sys_open` hands its reference over to the new file or puts it. -/
theorem turns_openFile (ip : Nat) (omode : UInt32) :
    Turns t cwd (extra + credit (some ip)) (openFile ip omode) (fun _ => extra) := by
  intro s hs
  apply Program.ends_op
  intro found s1 halloc
  have hfirst : SameRefs s s1 := perform_steady (o := Op.fileAlloc) rfl halloc
  rcases fileAlloc_fresh hs halloc with ⟨hfound, -⟩ | ⟨f, hfound, -, hfresh⟩
  · rw [hfound]
    exact turns_putEnd ip (-1) s1 (hs.same hfirst)
  · rw [hfound]
    apply Program.ends_op
    intro fd s2 hfd
    have hsecond : SameRefs s1 s2 := perform_steady (o := Op.fdAlloc f) rfl hfd
    have hs2 := (hs.same hfirst).same hsecond
    cases fd with
    | none =>
        have hclose : Turns t cwd (extra + credit (some ip))
            (fileClose f >>= fun _ => inodePut ip >>= fun _ => logEndOp >>= fun _ =>
              (pure (-1) : Code Int)) (fun _ => extra) :=
          turns_bind (turns_fileClose f) (fun _ => turns_putEnd ip (-1))
        exact hclose s2 hs2
    | some fd =>
        apply Program.ends_bind (steady_ends steady_logEndOp s2)
        intro _ s3 _ hthird
        apply Program.ends_op
        intro _ s4 hopen
        cases hopen
        apply Program.ends_pure
        exact (hs2.same hthird).openInode ((hfresh.same hsecond).same hthird) _ _

theorem turns_sysOpen (path : Option Name) (omode : UInt32) :
    Turns t cwd extra (sysOpen path omode) (fun _ => extra) := by
  cases path with
  | none => exact turns_pure rfl
  | some path =>
      apply turns_op rfl
      intro _
      apply turns_bind (turns_openPath path omode)
      intro found
      cases found with
      | none =>
          rw [credit_zero, add_zero]
          exact turns_end _
      | some ip => exact turns_openFile ip omode

theorem turns_sysClose (fd : Int) : Turns t cwd extra (sysClose fd) (fun _ => extra) := by
  apply turns_op rfl
  intro found
  cases found with
  | none => exact turns_pure rfl
  | some f =>
      apply turns_op rfl
      intro (u : Nat)
      apply turns_op rfl
      intro _
      exact turns_bind (turns_fileClose f) (fun _ => turns_pure rfl)

/-!
# Calls without references of their own
-/

theorem steady_sysDup (fd : Int) : Steady (sysDup fd) := by
  apply Program.only_bind (steady_op rfl)
  intro found
  cases found with
  | none => exact Program.only_pure _
  | some f =>
      apply Program.only_bind (steady_op rfl)
      intro fd
      cases fd with
      | none => exact Program.only_pure _
      | some fd => exact Program.only_bind (steady_op rfl) (fun _ => Program.only_pure _)

theorem steady_fail {p : Code Unit} (hp : Steady p) (r : Int) :
    Steady (p >>= fun _ => (pure r : Code Int)) :=
  Program.only_bind hp (fun _ => Program.only_pure r)

theorem steady_sysRead (fd : Int) (blocks : List Nat) (answer : Int) :
    Steady (sysRead fd blocks answer) := by
  apply Program.only_bind (steady_op rfl)
  intro found
  cases found with
  | none => exact Program.only_pure _
  | some f =>
      apply Program.only_bind (steady_op rfl)
      intro (file : File)
      apply Program.only_ite _ (Program.only_pure _)
      cases file.type with
      | none => exact steady_fail (steady_op (o := Op.assert false Stop.noFile) rfl) _
      | pipe => exact Program.only_pure _
      | inode =>
          apply Program.only_bind (steady_op rfl)
          intro _
          apply Program.only_bind (steady_inodeRead file.inode _)
          intro _
          exact steady_fail (steady_op rfl) _

theorem steady_writeChunks (ip : Nat) (chunks : List Bool) : Steady (writeChunks ip chunks) := by
  induction chunks with
  | nil => exact Program.only_pure _
  | cons accepted rest ih =>
      apply Program.only_bind (steady_op rfl)
      intro _
      apply Program.only_bind (steady_op rfl)
      intro _
      apply Program.only_ite
      · apply Program.only_bind (steady_op rfl)
        intro _
        apply Program.only_bind (steady_op rfl)
        intro _
        exact Program.only_bind steady_logEndOp (fun _ => ih)
      · apply Program.only_bind (steady_op rfl)
        intro _
        exact steady_fail steady_logEndOp _

theorem steady_sysWrite (fd : Int) (chunks : List Bool) (answer : Int) :
    Steady (sysWrite fd chunks answer) := by
  apply Program.only_bind (steady_op rfl)
  intro found
  cases found with
  | none => exact Program.only_pure _
  | some f =>
      apply Program.only_bind (steady_op rfl)
      intro (file : File)
      apply Program.only_ite _ (Program.only_pure _)
      cases file.type with
      | none => exact steady_fail (steady_op (o := Op.assert false Stop.noFile) rfl) _
      | pipe => exact Program.only_pure _
      | inode => exact steady_writeChunks file.inode chunks

theorem turns_closeIfAny (f : Option Nat) :
    Turns t cwd extra (closeIfAny f) (fun _ => extra) := by
  cases f with
  | none => exact turns_pure rfl
  | some f => exact turns_fileClose f

theorem turns_pipeBad (rfp wfp : Option Nat) :
    Turns t cwd extra (pipeBad rfp wfp) (fun _ => extra) := by
  apply turns_bind (turns_closeIfAny rfp)
  intro _
  exact turns_bind (turns_closeIfAny wfp) (fun _ => turns_pure rfl)

theorem turns_pipeAlloc (memory : PipeMemory) :
    Turns t cwd extra (pipeAlloc memory) (fun _ => extra) := by
  intro s hs
  apply Program.ends_op
  intro found s1 halloc
  have hfirst : SameRefs s s1 := perform_steady (o := Op.fileAlloc) rfl halloc
  rcases fileAlloc_fresh hs halloc with ⟨hfound, -⟩ | ⟨rfp, hfound, -, hread⟩
  · rw [hfound]
    exact turns_pipeBad none none s1 (hs.same hfirst)
  · rw [hfound]
    apply Program.ends_op
    intro second s2 hmore
    have hs1 := hs.same hfirst
    have hsecond : SameRefs s1 s2 := perform_steady (o := Op.fileAlloc) rfl hmore
    rcases fileAlloc_fresh hs1 hmore with ⟨hnone, -⟩ | ⟨wfp, hsome, hfree, hwrite⟩
    · rw [hnone]
      exact turns_pipeBad (some rfp) none s2 (hs1.same hsecond)
    · rw [hsome]
      have hs2 := hs1.same hsecond
      apply Program.ends_ite
      · intro _
        apply Program.ends_op
        intro p s3 hpipe
        have hthird : SameRefs s2 s3 := perform_steady (o := Op.newPipe) rfl hpipe
        apply Program.ends_op
        intro _ s4 hopen
        cases hopen
        apply Program.ends_op
        intro _ s5 hopen
        cases hopen
        apply Program.ends_pure
        have hne : wfp ≠ rfp := by
          intro heq
          rw [heq] at hfree
          exact absurd hfree (Nat.ne_of_gt hread.left)
        have hs4 := (hs2.same hthird).openPipe ((hread.same hsecond).same hthird) p false
        apply hs4.openPipe
        have hkeep : (openPipe rfp p false s3).files wfp = s3.files wfp := by
          show (s3.setFile rfp _).files wfp = s3.files wfp
          rw [setFile_other hne]
        unfold Fresh
        rw [hkeep]
        exact hwrite.same hthird
      · exact fun _ => turns_pipeBad (some rfp) (some wfp) s2 hs2

theorem turns_sysPipeBad (rfp wfp : Nat) (rfd : Option Nat) :
    Turns t cwd extra (sysPipeBad rfp wfp rfd) (fun _ => extra) := by
  apply turns_bind (turns_fileClose rfp)
  intro _
  apply turns_bind (turns_fileClose wfp)
  intro _
  cases rfd with
  | none => exact turns_pure rfl
  | some fd =>
      apply turns_op rfl
      intro (u : Nat)
      exact turns_op rfl (fun _ => turns_pure rfl)

theorem turns_sysPipe (buffer : Bool) (memory : PipeMemory) :
    Turns t cwd extra (sysPipe buffer memory) (fun _ => extra) := by
  apply turns_ite
  · apply turns_bind (turns_pipeAlloc memory)
    intro found
    cases found with
    | none => exact turns_pure rfl
    | some ends =>
        apply turns_op rfl
        intro rfd
        cases rfd with
        | none => exact turns_sysPipeBad ends.1 ends.2 none
        | some rfd =>
            apply turns_op rfl
            intro wfd
            cases wfd with
            | none => exact turns_sysPipeBad ends.1 ends.2 (some rfd)
            | some wfd => exact turns_pure rfl
  · exact turns_pure rfl

/-!
# Current directories
-/

theorem Counted.setTask {s : State} {extra' : Nat -> Int} (h : Counted s extra) (u : Nat)
    (task : Task) (hunused : task.state = TaskState.unused -> task.cwd = none)
    (hextra : forall i, extra' i = extra i + credit (s.tasks u).cwd i - credit task.cwd i) :
    Counted (s.setTask u task) extra' where
  balanced := by
    apply h.balanced.set_slot (Sum.inr u)
    · intro x hx
      cases x with
      | inl f => rfl
      | inr v =>
          have hvu : v ≠ u := fun heq => hx (congrArg Sum.inr heq)
          show ((s.setTask u task).tasks v).cwd = (s.tasks v).cwd
          rw [setTask_other hvu]
    · intro i
      have hi := hextra i
      have hnew : inodeSlot (s.setTask u task) (Sum.inr u) = task.cwd := by
        show ((s.setTask u task).tasks u).cwd = task.cwd
        rw [setTask_self]
      show ((s.icache i).ref : Int) - extra' i -
        credit (inodeSlot (s.setTask u task) (Sum.inr u)) i =
        (s.icache i).ref - extra i - credit (s.tasks u).cwd i
      rw [hnew, hi]
      lia
  idle := h.idle
  unused v hv := by
    rw [setTask_tasks] at hv ⊢
    by_cases hvu : v = u
    · rw [if_pos hvu] at hv ⊢
      exact hunused hv
    · rw [if_neg hvu] at hv ⊢
      exact h.unused v hv

theorem At.setCwd {s : State} (h : At t cwd s extra) (c : Option Nat) :
    At t c (setCwd t c s) (extra + credit cwd - credit c) where
  toCounted := by
    apply h.toCounted.setTask t { s.tasks t with cwd := c }
    · intro hu
      exact absurd hu h.active
    · intro i
      rw [h.here, Pi.sub_apply, Pi.add_apply]
  active := by
    show ((s.setTask t { s.tasks t with cwd := c }).tasks t).state ≠ TaskState.unused
    rw [setTask_self]
    exact h.active
  here := by
    show ((s.setTask t { s.tasks t with cwd := c }).tasks t).cwd = c
    rw [setTask_self]

theorem At.ends {s : State} (h : At t none s extra) :
    Counted (setState t TaskState.unused s) extra := by
  apply h.toCounted.setTask t { s.tasks t with state := TaskState.unused }
  · exact fun _ => h.here
  · intro i
    show extra i = extra i + credit (s.tasks t).cwd i - credit (s.tasks t).cwd i
    lia

theorem At.other {s : State} {u : Nat} {task : Task} {extra' : Nat -> Int}
    (h : At t cwd s extra) (hut : u ≠ t) (hcounted : Counted (s.setTask u task) extra') :
    At t cwd (s.setTask u task) extra' where
  toCounted := hcounted
  active := by
    rw [setTask_other (Ne.symm hut)]
    exact h.active
  here := by
    rw [setTask_other (Ne.symm hut)]
    exact h.here

theorem sysChdir_counted (path : Option Name) {s : State} (h : At t cwd s extra) :
    Ends (perform t) (sysChdir path) s (fun _ s' => Counted s' extra) := by
  cases path with
  | none => exact Program.ends_pure h.toCounted
  | some path =>
      apply Program.ends_op
      intro _ s1 hbegin
      have hfirst : SameRefs s s1 := perform_steady (o := Op.logBegin) rfl hbegin
      apply Program.ends_bind (turns_pathLookup path s1 (h.same hfirst))
      intro found s2 _ hs2
      cases found with
      | none =>
          dsimp only at hs2
          rw [credit_zero, add_zero] at hs2
          exact Program.ends_mono (turns_end (-1) s2 hs2) (fun _ _ hend => hend.toCounted)
      | some ip =>
          apply Program.ends_op
          intro _ s3 hlock
          have hthird : SameRefs s2 s3 := perform_steady (o := Op.inodeLock ip) rfl hlock
          apply Program.ends_op
          intro inode s4 hread
          cases hread
          have hs3 := hs2.same hthird
          apply Program.ends_ite
          · intro _
            exact Program.ends_mono (turns_unlockputEnd ip (-1) s3 hs3)
              (fun _ _ hend => hend.toCounted)
          · intro _
            apply Program.ends_op
            intro prev s5 hcwd
            cases hcwd
            have hprev := hs3.here
            cases hc : (s3.tasks t).cwd with
            | none =>
                apply Program.ends_op
                intro _ s6 hfails
                cases hfails
            | some prev =>
                apply Program.ends_op
                intro u s6 hself
                cases hself
                apply Program.ends_op
                intro _ s7 hdup
                cases hdup
                have hs7 : At t cwd (inodeDup ip s3)
                    (extra + credit (some ip) + credit (some ip)) := by
                  apply hs3.take
                  rfl
                apply Program.ends_op
                intro _ s8 hset
                cases hset
                have hs8 := hs7.setCwd (some ip)
                have hcredit : extra + credit (some ip) + credit (some ip) + credit cwd -
                    credit (some ip) = extra + credit (some prev) + credit (some ip) := by
                  rw [<- hprev, hc]
                  abel
                rw [hcredit] at hs8
                have hrest : Turns t (some ip) (extra + credit (some prev) + credit (some ip))
                    (inodeUnlockput ip >>= fun _ => inodePut prev >>= fun _ =>
                      logEndOp >>= fun _ => (pure 0 : Code Int)) (fun _ => extra) :=
                  turns_bind (turns_unlockputHeld ip) (fun _ => turns_putEnd prev 0)
                exact Program.ends_mono (hrest _ hs8) (fun _ _ hend => hend.toCounted)

theorem steady_copyFiles (child : Nat) (fds : List Nat) : Steady (copyFiles child fds) := by
  induction fds with
  | nil => exact Program.only_pure ()
  | cons fd rest ih =>
      apply Program.only_bind (steady_op rfl)
      intro found
      cases found with
      | none => exact ih
      | some f =>
          apply Program.only_bind (steady_op rfl)
          intro _
          exact Program.only_bind (steady_op rfl) (fun _ => ih)

/-- A task that was just taken, or one without a directory, gets one. -/
theorem turns_procFork (child : Option Nat) (copied : Bool) :
    Turns t cwd extra (procFork child copied) (fun _ => extra) := by
  intro s hs
  cases child with
  | none => exact Program.ends_pure hs
  | some child =>
      apply Program.ends_op
      intro _ s1 halloc
      rcases taskAlloc_ok (done_ok halloc) with ⟨hunused, heq⟩
      have hct : child ≠ t := fun e => hs.active (e ▸ hunused)
      have hs1 : At t cwd s1 extra := by
        rw [heq]
        apply hs.other hct
        apply hs.toCounted.setTask child
        · exact fun _ => rfl
        · intro i
          rw [hs.unused child hunused, credit_none]
          lia
      have hchild : s1.tasks child =
          { state := TaskState.allocated, cwd := none, ofiles := fun _ => none, depth := 0 } := by
        rw [heq, setTask_self]
      apply Program.ends_ite
      · intro _
        apply Program.ends_bind (steady_ends (steady_copyFiles child _) s1)
        intro _ s2 _ same
        have hs2 := hs1.same same
        have hnone : (s2.tasks child).cwd = none := by rw [same.cwd child, hchild]
        have hstate : (s2.tasks child).state ≠ TaskState.unused := by
          intro hu
          have hold := same.unused child hu
          rw [hchild] at hold
          cases hold
        apply Program.ends_op
        intro found s3 hcwd
        cases hcwd
        cases hc : (s2.tasks t).cwd with
        | none =>
            apply Program.ends_op
            intro _ s4 hfails
            cases hfails
        | some c =>
            apply Program.ends_op
            intro _ s4 hdup
            cases hdup
            have hs4 : At t cwd (inodeDup c s2) (extra + credit (some c)) := by
              apply hs2.take
              rfl
            apply Program.ends_op
            intro _ s5 hset
            cases hset
            have hs5 : At t cwd (setCwd child (some c) (inodeDup c s2)) extra := by
              apply hs4.other hct
              apply hs4.toCounted.setTask child
              · intro hu
                exact absurd hu hstate
              · intro i
                have hold : ((inodeDup c s2).tasks child).cwd = none := hnone
                show extra i = (extra + credit (some c)) i +
                  credit ((inodeDup c s2).tasks child).cwd i - credit (some c) i
                rw [hold, credit_none, Pi.add_apply]
                lia
            apply Program.ends_op
            intro _ s6 hready
            cases hready
            apply Program.ends_pure
            apply hs5.same
            apply SameRefs.setTask
            · rfl
            · intro hu
              cases hu
      · intro _
        apply Program.ends_op
        intro _ s2 hset
        cases hset
        apply Program.ends_pure
        apply hs1.other hct
        apply hs1.toCounted.setTask child
        · intro _
          show (s1.tasks child).cwd = none
          rw [hchild]
        · intro i
          show extra i = extra i + credit (s1.tasks child).cwd i - credit (s1.tasks child).cwd i
          lia

theorem turns_closeFiles (fds : List Nat) :
    Turns t cwd extra (closeFiles fds) (fun _ => extra) := by
  induction fds with
  | nil => exact turns_pure rfl
  | cons fd rest ih =>
      apply turns_op rfl
      intro found
      cases found with
      | none => exact ih
      | some f =>
          apply turns_bind (turns_fileClose f)
          intro _
          apply turns_op rfl
          intro (u : Nat)
          exact turns_op rfl (fun _ => ih)

theorem taskExit_counted {s : State} (h : At t cwd s extra) :
    Ends (perform t) taskExit s (fun _ s' => Counted s' extra) := by
  apply Program.ends_bind (turns_closeFiles _ s h)
  intro _ s1 _ hs1
  apply Program.ends_op
  intro u s2 hself
  cases hself
  apply Program.ends_op
  intro found s2 hcwd
  cases hcwd
  cases hc : (s1.tasks t).cwd with
  | none =>
      apply Program.ends_op
      intro _ s3 hset
      cases hset
      apply Program.ends_pure
      have hgone : At t none s1 extra := ⟨hs1.toCounted, hs1.active, hc⟩
      exact hgone.ends
  | some c =>
      apply Program.ends_op
      intro _ s3 hbegin
      have hfirst : SameRefs s1 s3 := perform_steady (o := Op.logBegin) rfl hbegin
      apply Program.ends_bind (turns_inodePut c s3 (hs1.same hfirst))
      intro _ s4 _ hs4
      apply Program.ends_bind (steady_ends steady_logEndOp s4)
      intro _ s5 _ hlast
      apply Program.ends_op
      intro _ s6 hset
      cases hset
      have hs6 := (hs4.same hlast).setCwd none
      have hcredit : extra - credit (some c) + credit cwd - credit none = extra := by
        rw [<- hs1.here, hc, credit_zero]
        abel
      rw [hcredit] at hs6
      apply Program.ends_op
      intro _ s7 hset
      cases hset
      apply Program.ends_pure
      exact hs6.ends

end Turns

/-!
# Runs of calls
-/

/-- `sys_unlink` finds the parent of a `.` or `..`. -/
def UnlinksDots (s : State) : Nat × Call -> Prop
  | (t, Call.unlink (some path)) => exists parent name s',
      Program.exec (perform t) (op Op.logBegin >>= fun _ => pathLookupParent path) s =
        Except.ok (some (parent, name), s') ∧ (name = dotName ∨ name = dotdotName)
  | _ => False

theorem exec_logBegin {t : Nat} {s s1 : State} {a : Op.logBegin.Answer} {α : Type}
    {f : Op.logBegin.Answer -> Code α} (h : perform t Op.logBegin s = Except.ok (a, s1)) :
    Program.exec (perform t) (op Op.logBegin >>= f) s = Program.exec (perform t) (f a) s1 := by
  show (perform t Op.logBegin s >>= fun r => Program.exec (perform t) (f r.1) r.2) = _
  rw [h]
  rfl

theorem sysUnlink_counted {t : Nat} {cwd : Option Nat} {extra : Nat -> Int} {s : State}
    (path : Option Name) (h : At t cwd s extra) (hok : Not (UnlinksDots s (t, Call.unlink path))) :
    Ends (perform t) (sysUnlink path) s (fun _ s' => At t cwd s' extra) := by
  cases path with
  | none => exact Program.ends_pure h
  | some path =>
      apply Program.ends_op
      intro _ s1 hbegin
      have hfirst : SameRefs s s1 := perform_steady (o := Op.logBegin) rfl hbegin
      apply Program.ends_bind (turns_pathLookup0 true path s1 (h.same hfirst))
      intro found s2 hlookup hs2
      cases found with
      | none =>
          dsimp only at hs2
          rw [Option.map_none, credit_zero, add_zero] at hs2
          exact turns_end (-1) s2 hs2
      | some entry =>
          apply Program.ends_ite
          · intro hdots
            apply absurd _ hok
            refine ⟨entry.1, entry.2, s2, ?_, hdots⟩
            rw [exec_logBegin hbegin]
            exact hlookup
          · intro _
            apply Program.ends_op
            intro _ s3 hlock
            have hthird : SameRefs s2 s3 := perform_steady (o := Op.inodeLock entry.1) rfl hlock
            apply Program.ends_bind
              (turns_dirLookup entry.1 entry.2 s3 (hs2.same hthird))
            intro old s4 _ hs4
            cases old with
            | none =>
                dsimp only at hs4
                rw [Option.map_none, credit_zero, add_zero] at hs4
                exact turns_unlockputEnd entry.1 (-1) s4 hs4
            | some old => exact turns_unlinkEntry entry.1 old.2 old.1 s4 hs4

/-- The parent of a `.` or `..` keeps the reference that `sys_unlink` took. -/
theorem sysUnlink_leaks {t : Nat} {cwd : Option Nat} {extra : Nat -> Int} {s : State}
    {path : Option Name} (h : At t cwd s extra) (hdots : UnlinksDots s (t, Call.unlink path)) :
    exists parent, Ends (perform t) (sysUnlink path) s
      (fun _ s' => At t cwd s' (extra + credit (some parent))) := by
  cases path with
  | none => exact hdots.elim
  | some path =>
      rcases hdots with ⟨parent, name, s2, hrun, hname⟩
      refine ⟨parent, ?_⟩
      apply Program.ends_op
      intro _ s1 hbegin
      have hfirst : SameRefs s s1 := perform_steady (o := Op.logBegin) rfl hbegin
      rw [exec_logBegin hbegin] at hrun
      apply Program.ends_bind (turns_pathLookup0 true path s1 (h.same hfirst))
      intro found s2' hlookup hs2
      have hsame := Except.ok.inj (hlookup.symm.trans hrun)
      cases hsame
      apply Program.ends_ite
      · exact fun _ => turns_end (-1) s2 hs2
      · exact fun hnot => absurd hname hnot

/-- Every call ends with the references it began with. -/
theorem call_counted {s : State} (t : Nat) (call : Call) {extra : Nat -> Int}
    (h : Counted s extra) (hstate : (s.tasks t).state ≠ TaskState.unused)
    (hok : Not (UnlinksDots s (t, call))) :
    Ends (perform t) call.code s (fun _ s' => Counted s' extra) := by
  have hat : At t (s.tasks t).cwd s extra := ⟨h, hstate, rfl⟩
  have hturns : forall {p : Code Int}, Turns t (s.tasks t).cwd extra p (fun _ => extra) ->
      Ends (perform t) p s (fun _ s' => Counted s' extra) := by
    intro p hp
    exact Program.ends_mono (hp s hat) (fun _ _ hend => hend.toCounted)
  cases call with
  | openFile path omode => exact hturns (turns_sysOpen path omode)
  | close fd => exact hturns (turns_sysClose fd)
  | dup fd => exact hturns (turns_steady (steady_sysDup fd))
  | mkdir path => exact hturns (turns_sysMkdir path)
  | unlink path =>
      exact Program.ends_mono (sysUnlink_counted path hat hok) (fun _ _ hend => hend.toCounted)
  | read fd blocks answer => exact hturns (turns_steady (steady_sysRead fd blocks answer))
  | write fd chunks answer => exact hturns (turns_steady (steady_sysWrite fd chunks answer))
  | stat path buffer => exact hturns (turns_sysStat path buffer)
  | chdir path => exact sysChdir_counted path hat
  | pipe buffer memory => exact hturns (turns_sysPipe buffer memory)
  | execv path result => exact hturns (turns_procExecv path result)
  | fork child copied => exact hturns (turns_procFork child copied)
  | exit => exact taskExit_counted hat

theorem counted_boot (disk : Tree) : Counted (boot disk) 0 where
  balanced := by
    apply Balanced.of_encard
    intro i
    have hfiles : forall f, inodeSlot (boot disk) (Sum.inl f) = none := fun _ => rfl
    by_cases hi : i = 0
    · have hset : pointing (inodeSlot (boot disk)) i = {Sum.inr initTask} := by
        ext x
        constructor
        · intro hx
          cases x with
          | inl f =>
              rw [pointing, Set.mem_ofPred_eq, hfiles f] at hx
              cases hx
          | inr t =>
              have hx' : (if t = initTask then some 0 else none) = some i := hx
              split at hx'
              · rename_i ht
                rw [ht]
                rfl
              · cases hx'
        · intro hx
          rw [Set.mem_singleton_iff.mp hx, hi]
          rfl
      rw [hset, Set.encard_singleton, hi]
      rfl
    · have hset : pointing (inodeSlot (boot disk)) i = ∅ := by
        ext x
        constructor
        · intro hx
          cases x with
          | inl f =>
              rw [pointing, Set.mem_ofPred_eq, hfiles f] at hx
              cases hx
          | inr t =>
              have hx' : (if t = initTask then some 0 else none) = some i := hx
              split at hx'
              · cases hx'
                exact absurd rfl hi
              · cases hx'
        · exact fun hx => by cases hx
      have href : (bootInode i).ref = 0 := if_neg hi
      rw [hset, Set.encard_empty]
      show (0 : ℕ∞) = ((bootInode i).ref : ℕ∞)
      rw [href]
      rfl
  idle _ _ := rfl
  unused t ht := by
    have hstate : (bootTask t).state = TaskState.unused := ht
    show (bootTask t).cwd = none
    unfold bootTask at hstate ⊢
    dsimp only at hstate ⊢
    split
    · rename_i heq
      rw [heq] at hstate
      cases hstate
    · rfl

def liveFiles (s : State) (i : Nat) : Set Nat :=
  { f | 0 < (s.files f).refs ∧ (s.files f).type = FdType.inode ∧ (s.files f).inode = i }

/-- Tasks that have an inode as their current directory. -/
def cwdTasks (s : State) (i : Nat) : Set Nat := { t | (s.tasks t).cwd = some i }

theorem Counted.encard_sum {s : State} {extra : Nat -> Int} (h : Counted s extra) (i : Nat) :
    exists n : Nat, (liveFiles s i).encard + (cwdTasks s i).encard = n ∧
      ((s.icache i).ref : Int) = n + extra i := by
  rcases h.balanced i with ⟨n, hcard, hn⟩
  refine ⟨n, ?_, hn⟩
  rw [encard_pointing_sum] at hcard
  have hfiles : pointing (fun f => inodeSlot s (Sum.inl f)) i = liveFiles s i := by
    ext f
    show (s.files f).inodeOf = some i <-> _
    unfold File.inodeOf liveFiles
    constructor
    · intro hf
      split at hf
      · rename_i htype
        refine ⟨?_, htype, Option.some.inj hf⟩
        apply Nat.pos_of_ne_zero
        intro hzero
        rw [h.idle f hzero] at htype
        cases htype
      · cases hf
    · intro hall
      rcases hall with ⟨-, htype, hinode⟩
      rw [if_pos htype, hinode]
  rw [<- hcard, hfiles]
  rfl

/--
After every run of calls in which no `sys_unlink` finds the parent of a `.` or `..`, every
cached inode is counted by the open files and the current directories.
-/
theorem inode_references_counted (disk : Tree) {s : State}
    (h : Reaches step (fun r a => Not (UnlinksDots r a)) (boot disk) s) (i : Nat) :
    ((s.icache i).ref : ℕ∞) = (liveFiles s i).encard + (cwdTasks s i).encard := by
  have hcounted : Counted s 0 := by
    apply h.invariant (P := fun r => Counted r 0) (counted_boot disk)
    intro r r' a hr hok hstep
    rcases step_some hstep with ⟨hready, answer, hrun⟩
    apply (call_counted a.1 a.2 hr _ hok).run answer r' hrun
    rw [hready]
    exact fun e => by cases e
  rcases hcounted.encard_sum i with ⟨n, hsum, hn⟩
  have heq : (s.icache i).ref = n := by
    rw [Pi.zero_apply] at hn
    lia
  rw [hsum, heq]

def unlinksDotsTest (s : State) : Nat × Call -> Bool
  | (t, Call.unlink (some path)) =>
      match Program.exec (perform t) (op Op.logBegin >>= fun _ => pathLookupParent path) s with
      | Except.ok (some (_, name), _) => decide (name = dotName ∨ name = dotdotName)
      | _ => false
  | _ => false

theorem unlinksDots_test (s : State) (a : Nat × Call) :
    unlinksDotsTest s a = true <-> UnlinksDots s a := by
  rcases a with ⟨t, call⟩
  cases call with
  | unlink path =>
      cases path with
      | none => exact ⟨fun h => (nomatch h), fun h => h.elim⟩
      | some path =>
          unfold unlinksDotsTest UnlinksDots
          dsimp only
          constructor
          · intro h
            split at h
            · rename_i parent name s' hrun
              exact ⟨parent, name, s', hrun, of_decide_eq_true h⟩
            · cases h
          · intro hex
            rcases hex with ⟨parent, name, s', hrun, hname⟩
            rw [hrun]
            exact decide_eq_true hname
  | _ => exact ⟨fun h => (nomatch h), fun h => h.elim⟩

/-- A file is made, opened again by the child of the task and removed. -/
def sharedRun : List (Nat × Call) :=
  [(initTask, Call.openFile (some [47, 102]) (oCreat ||| oRdwr)),
    (initTask, Call.fork (some 3) true), (3, Call.openFile (some [102]) 0),
    (3, Call.unlink (some [47, 102])), (initTask, Call.close 0), (3, Call.exit)]

theorem inode_references_counted_sharedRun :
    exists s, runFrom step (boot rootDisk) sharedRun = some s ∧
      forall i, ((s.icache i).ref : ℕ∞) = (liveFiles s i).encard + (cwdTasks s i).encard := by
  have hcheck : runCheck step (fun s a => !unlinksDotsTest s a) (boot rootDisk) sharedRun =
      true := by
    decide +kernel
  have hrun : (runFrom step (boot rootDisk) sharedRun).isSome = true := by decide +kernel
  have hreached : exists s, runFrom step (boot rootDisk) sharedRun = some s ∧
      Reaches step (fun r a => Not (UnlinksDots r a)) (boot rootDisk) s := by
    apply reaches_of_runCheck _ hcheck hrun
    intro r a htest hdots
    rw [(unlinksDots_test r a).mpr hdots] at htest
    cases htest
  rcases hreached with ⟨s, hs, hreach⟩
  exact ⟨s, hs, fun i => inode_references_counted rootDisk hreach i⟩

/-- `sys_unlink` of `"/."` leaves the root with a reference that nothing accounts for. -/
theorem unlink_of_dot_leaks :
    exists s i, step (boot rootDisk) (initTask, Call.unlink (some [47, 46])) = some s ∧
      ((s.icache i).ref : ℕ∞) ≠ (liveFiles s i).encard + (cwdTasks s i).encard := by
  have hstep : (step (boot rootDisk) (initTask, Call.unlink (some [47, 46]))).isSome = true := by
    decide +kernel
  have hdots : UnlinksDots (boot rootDisk) (initTask, Call.unlink (some [47, 46])) := by
    apply (unlinksDots_test _ _).mp
    decide +kernel
  rcases Option.isSome_iff_exists.mp hstep with ⟨s, hs⟩
  rcases step_some hs with ⟨hready, answer, hrun⟩
  have hat : At initTask ((boot rootDisk).tasks initTask).cwd (boot rootDisk) 0 := by
    refine ⟨counted_boot rootDisk, ?_, rfl⟩
    rw [hready]
    exact fun e => by cases e
  rcases sysUnlink_leaks hat hdots with ⟨i, hends⟩
  rcases (hends.run answer s hrun).toCounted.encard_sum i with ⟨n, hsum, hn⟩
  refine ⟨s, i, hs, ?_⟩
  have hmore : (s.icache i).ref = n + 1 := by
    rw [Pi.add_apply, Pi.zero_apply, credit_self] at hn
    lia
  rw [hsum, hmore]
  intro heq
  have hnat : n + 1 = n := by exact_mod_cast heq
  lia

end Syscall
end Fs
end NicoOS
