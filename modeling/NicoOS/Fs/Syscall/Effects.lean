import NicoOS.Fs.Syscall.Calls

/-!
# What operations do

For every operation that may stop, the state that it leaves where it does not.
-/

namespace NicoOS
namespace Fs
namespace Syscall

open Lib
open Inode (InodeType nicache)

section Effects

variable {s s' : State}

theorem done_ok {r : Except Stop State} {a : Unit} (h : done r = Except.ok (a, s')) :
    r = Except.ok s' := by
  rcases bind_ok h with ⟨s1, hr, hrest⟩
  cases hrest
  exact hr

theorem setFile_files (f : Nat) (file : File) (g : Nat) :
    (s.setFile f file).files g = if g = f then file else s.files g :=
  Function.update_apply s.files f file g

theorem setTask_tasks (t : Nat) (task : Task) (u : Nat) :
    (s.setTask t task).tasks u = if u = t then task else s.tasks u :=
  Function.update_apply s.tasks t task u

@[simp] theorem setFile_self (f : Nat) (file : File) : (s.setFile f file).files f = file :=
  (setFile_files f file f).trans (if_pos rfl)

theorem setFile_other {f g : Nat} (h : g ≠ f) (file : File) :
    (s.setFile f file).files g = s.files g :=
  (setFile_files f file g).trans (if_neg h)

@[simp] theorem setTask_self (t : Nat) (task : Task) : (s.setTask t task).tasks t = task :=
  (setTask_tasks t task t).trans (if_pos rfl)

theorem setTask_other {t u : Nat} (h : u ≠ t) (task : Task) :
    (s.setTask t task).tasks u = s.tasks u :=
  (setTask_tasks t task u).trans (if_neg h)

/-!
# The log
-/

theorem logBegin_ok {t : Nat} (h : logBegin t s = Except.ok s') :
    s.committing = false ∧
      s' = (s.setLog (s.outstanding + 1) s.committing).setTask t
        { s.tasks t with depth := (s.tasks t).depth + 1 } := by
  unfold logBegin at h
  split at h
  · cases h
  · rename_i hcommit
    cases h
    exact ⟨eq_false_of_ne_true hcommit, rfl⟩

theorem logEnd_ok {t : Nat} {last : Bool} (h : logEnd t s = Except.ok (last, s')) :
    s.committing = false ∧
      last = decide (s.outstanding - 1 = 0) ∧
      s' = (s.setLog (s.outstanding - 1) last).setTask t
        { s.tasks t with depth := (s.tasks t).depth - 1 } := by
  unfold logEnd at h
  split at h
  · cases h
  · rename_i hcommit
    have hfalse : s.committing = false := eq_false_of_ne_true hcommit
    cases h
    exact ⟨hfalse, rfl, rfl⟩

theorem logWrite_ok (h : logWrite s = Except.ok s') : 1 ≤ s.outstanding ∧ s' = s := by
  unfold logWrite at h
  split at h
  · rename_i hopen
    cases h
    exact ⟨hopen, rfl⟩
  · cases h

/-!
# Inodes
-/

/-- The search ends at a place in use for the inode or at an empty place. -/
theorem findInode_cases (icache : Nat -> CachedInode) (inum : Nat) (k i : Nat)
    (empty : Option Nat) (hempty : forall j, empty = some j -> (icache j).ref = 0) :
    (exists j, findInode icache inum k i empty = Sum.inl j ∧ i ≤ j ∧ j < i + k ∧
      0 < (icache j).ref ∧ (icache j).inum = inum) ∨
      ((exists found, findInode icache inum k i empty = Sum.inr found ∧
        forall j, found = some j -> (icache j).ref = 0) ∧
        forall j, i ≤ j -> j < i + k -> 0 < (icache j).ref -> (icache j).inum ≠ inum) := by
  induction k generalizing i empty with
  | zero =>
      right
      exact ⟨⟨empty, rfl, hempty⟩, fun j hi hj => by lia⟩
  | succ k ih =>
      rw [findInode]
      by_cases hhere : (icache i).ref > 0 ∧ (icache i).inum = inum
      · rw [if_pos hhere]
        left
        exact ⟨i, rfl, by lia, by lia, hhere.left, hhere.right⟩
      · rw [if_neg hhere]
        have hnext : forall j,
            (if empty = none ∧ (icache i).ref = 0 then some i else empty) = some j ->
              (icache j).ref = 0 := by
          intro j hj
          split at hj
          · rename_i hfree
            cases hj
            exact hfree.right
          · exact hempty j hj
        rcases ih (i + 1) _ hnext with ⟨j, hj, hlow, hhigh, href, hinum⟩ | ⟨hfound, hnone⟩
        · left
          exact ⟨j, hj, by lia, by lia, href, hinum⟩
        · right
          refine ⟨hfound, ?_⟩
          intro j hlow hhigh href
          by_cases hji : j = i
          · rw [hji] at href ⊢
            exact fun hinum => hhere ⟨href, hinum⟩
          · exact hnone j (by lia) (by lia) href

theorem iget_ok {inum i : Nat} (h : iget inum s = Except.ok (i, s')) :
    (0 < (s.icache i).ref ∧ (s.icache i).inum = inum ∧
      s' = s.setInode i { s.icache i with ref := (s.icache i).ref + 1 }) ∨
    ((s.icache i).ref = 0 ∧
      (forall j, j < nicache -> 0 < (s.icache j).ref -> (s.icache j).inum ≠ inum) ∧
      s' = s.setInode i { s.icache i with inum := inum, ref := 1, valid := false }) := by
  unfold iget at h
  rcases findInode_cases s.icache inum nicache 0 none (fun j hj => by cases hj) with
    ⟨j, hj, -, -, href, hinum⟩ | ⟨⟨found, hfound, hfree⟩, hnone⟩
  · rw [hj] at h
    cases h
    exact Or.inl ⟨href, hinum, rfl⟩
  · rw [hfound] at h
    cases found with
    | none => cases h
    | some j =>
        cases h
        exact Or.inr ⟨hfree _ rfl, fun j hj href => hnone j (by lia) (by lia) href, rfl⟩

theorem inodeLock_ok {i : Nat} (h : inodeLock i s = Except.ok s') :
    1 ≤ (s.icache i).ref ∧ (s.icache i).locked = false ∧
      (((s.icache i).valid = true ∧ s' = s.setInode i { s.icache i with locked := true }) ∨
        ((s.icache i).valid = false ∧
          (s.dinodes (s.icache i).inum).type ≠ InodeType.none ∧
          s' = s.setInode i
            { s.icache i with
              locked := true
              valid := true
              diskInode := s.dinodes (s.icache i).inum })) := by
  unfold inodeLock at h
  dsimp only at h
  by_cases href : (s.icache i).ref ≥ 1
  · rw [if_pos href] at h
    by_cases hlocked : (s.icache i).locked = true
    · rw [if_pos hlocked] at h
      cases h
    · rw [if_neg hlocked] at h
      refine ⟨href, eq_false_of_ne_true hlocked, ?_⟩
      by_cases hvalid : (s.icache i).valid = true
      · rw [if_pos hvalid] at h
        cases h
        exact Or.inl ⟨hvalid, rfl⟩
      · rw [if_neg hvalid] at h
        by_cases htype : (s.dinodes (s.icache i).inum).type ≠ InodeType.none
        · rw [if_pos htype] at h
          cases h
          exact Or.inr ⟨eq_false_of_ne_true hvalid, htype, rfl⟩
        · rw [if_neg htype] at h
          cases h
  · rw [if_neg href] at h
    cases h

theorem inodeUnlock_ok {i : Nat} (h : inodeUnlock i s = Except.ok s') :
    s' = s.setInode i { s.icache i with locked := false } := by
  unfold inodeUnlock at h
  dsimp only at h
  split at h
  · cases h
    rfl
  · cases h

theorem inodeUpdate_ok {i : Nat} (h : inodeUpdate i s = Except.ok s') :
    s' = s.setDinode (s.icache i).inum (s.icache i).diskInode := by
  rcases bind_ok h with ⟨s1, hwrite, hrest⟩
  rw [(logWrite_ok hwrite).right] at hrest
  cases hrest
  rfl

theorem putStart_ok {i : Nat} {o : Option Opening} {frees : Bool}
    (h : putStart i o s = Except.ok (frees, s')) :
    1 ≤ (s.icache i).ref ∧
      frees = decide ((s.icache i).valid = true ∧ (s.icache i).diskInode.nlink = 0 ∧
        (s.icache i).ref = 1) ∧
      s' = release o (s.setInode i { s.icache i with locked := true }) := by
  unfold putStart at h
  by_cases href : (s.icache i).ref ≥ 1
  · by_cases hlocked : (s.icache i).locked = true
    · simp only [href, hlocked, if_true] at h
      cases h
    · simp only [href, hlocked, if_true, if_false, Bool.false_eq_true] at h
      cases h
      exact ⟨href, rfl, rfl⟩
  · simp only [href, if_false] at h
    cases h

theorem itruncate_ok {i : Nat} (h : itruncate i s = Except.ok s') :
    s' = (s.setDinode (s.icache i).inum (s.icache i).diskInode).clear (s.icache i).inum := by
  rcases bind_ok h with ⟨s1, hupdate, hrest⟩
  rw [inodeUpdate_ok hupdate] at hrest
  cases hrest
  rfl

theorem clearType_ok {i : Nat} (h : clearType i s = Except.ok s') :
    s' = (s.setInode i
      { s.icache i with
        valid := false
        diskInode := { (s.icache i).diskInode with type := InodeType.none } }).setDinode
      (s.icache i).inum { (s.icache i).diskInode with type := InodeType.none } := by
  rcases bind_ok h with ⟨s1, hupdate, hrest⟩
  rw [inodeUpdate_ok hupdate] at hrest
  cases hrest
  simp only [State.setInode, State.setDinode, Function.update_self, Function.update_idem]

theorem findFree_some {dinodes : Nat -> Dinode} {ninodes fuel inum x : Nat}
    (h : findFree dinodes ninodes fuel inum = some x) :
    inum ≤ x ∧ x < ninodes ∧ (dinodes x).type = InodeType.none := by
  induction fuel generalizing inum with
  | zero => cases h
  | succ fuel ih =>
      rw [findFree] at h
      by_cases hin : inum < ninodes
      · rw [if_pos hin] at h
        by_cases hfree : (dinodes inum).type = InodeType.none
        · rw [if_pos hfree] at h
          cases h
          exact ⟨Nat.le_refl _, hin, hfree⟩
        · rw [if_neg hfree] at h
          rcases ih h with ⟨hlow, hhigh, htype⟩
          exact ⟨by lia, hhigh, htype⟩
      · rw [if_neg hin] at h
        cases h

theorem inodeAlloc_ok {typ : InodeType} {inum : Nat}
    (h : inodeAlloc typ s = Except.ok (inum, s')) :
    1 ≤ inum ∧ inum < s.ninodes ∧ (s.dinodes inum).type = InodeType.none ∧
      s' = (s.setDinode inum { type := typ, nlink := 0 }).clear inum := by
  unfold inodeAlloc at h
  split at h
  · cases h
  · rename_i x hx
    rcases findFree_some hx with ⟨hlow, hhigh, hfree⟩
    rcases bind_ok h with ⟨s1, hwrite, hrest⟩
    rw [(logWrite_ok hwrite).right] at hrest
    cases hrest
    exact ⟨hlow, hhigh, hfree, rfl⟩

@[simp] theorem release_icache (o : Option Opening) : (release o s).icache = s.icache := by
  cases o with
  | none => rfl
  | some o => rfl

@[simp] theorem release_dinodes (o : Option Opening) : (release o s).dinodes = s.dinodes := by
  cases o with
  | none => rfl
  | some o => rfl

@[simp] theorem release_data (o : Option Opening) : (release o s).data = s.data := by
  cases o with
  | none => rfl
  | some o => rfl

@[simp] theorem release_tree (o : Option Opening) : (release o s).tree = s.tree := by
  cases o with
  | none => rfl
  | some o => rfl

/-- `inode_read` has written to the log or found no hole. -/
theorem inodeRead_ends (t i : Nat) (blocks : List Dirent -> List Nat) (s : State) :
    Program.Ends (perform t) (inodeRead i blocks) s (fun _ s' => s' = s) := by
  apply Program.ends_op
  intro (hole : Bool) u hbmap
  cases hbmap
  cases hhole : meetsHole i blocks s with
  | false => exact Program.ends_pure rfl
  | true =>
      apply Program.ends_last
      intro _ v hwrite
      exact (logWrite_ok (done_ok hwrite)).right

theorem ends_inodeRead {α : Type} {t i : Nat} {blocks : List Dirent -> List Nat}
    {f : Unit -> Code α} {Q : α -> State -> Prop} (h : Program.Ends (perform t) (f ()) s Q) :
    Program.Ends (perform t) (inodeRead i blocks >>= f) s Q := by
  apply Program.ends_bind (inodeRead_ends t i blocks s)
  intro _ s' _ hsame
  rw [hsame]
  exact h

theorem meetsHole_of_nil {i : Nat} {blocks : List Dirent -> List Nat}
    (h : s.holes (s.icache i).inum = []) : meetsHole i blocks s = false := by
  simp [meetsHole, h]

/-- A read that finds every address, or inside a log operation. -/
theorem exec_inodeRead {t i : Nat} {blocks : List Dirent -> List Nat}
    (h : s.holes (s.icache i).inum = [] ∨ 1 ≤ s.outstanding) :
    Program.exec (perform t) (inodeRead i blocks) s = Except.ok ((), s) := by
  have hbmap : perform t (Op.bmap i blocks) s = Except.ok (meetsHole i blocks s, s) := rfl
  refine (Program.exec_op_ok hbmap).trans ?_
  cases hhole : meetsHole i blocks s with
  | false => rfl
  | true =>
      rcases h with hnone | hopen
      · rw [meetsHole_of_nil hnone] at hhole
        cases hhole
      · have hwrite : perform t Op.balloc s = Except.ok ((), s) := by
          show done (logWrite s) = _
          rw [logWrite, if_pos hopen]
          rfl
        exact (Program.exec_op_ok (f := Program.ret) hwrite).trans rfl

/-!
# Directories
-/

theorem heldDirectory_ok {i : Nat} {a : Unit} (h : heldDirectory i s = Except.ok a) :
    (s.icache i).diskInode.type = InodeType.directory ∧ (s.icache i).locked = true := by
  unfold heldDirectory at h
  split at h
  · rename_i htype
    split at h
    · rename_i hlocked
      exact ⟨htype, hlocked⟩
    · cases h
  · cases h

theorem dirFind_ok {i : Nat} {name : Name} {found : Option (Nat × Nat)}
    (h : dirFind i name s = Except.ok (found, s')) :
    (s.icache i).diskInode.type = InodeType.directory ∧ (s.icache i).locked = true ∧
      found = findEntry name 0 (s.data (s.icache i).inum) ∧ s' = s := by
  rcases bind_ok h with ⟨u, hheld, hrest⟩
  rcases heldDirectory_ok hheld with ⟨htype, hlocked⟩
  split at hrest
  · cases hrest
    exact ⟨htype, hlocked, rfl, rfl⟩
  · cases hrest

theorem writeDirent_ok {i k : Nat} {e : Dirent} {stored : Bool}
    (h : writeDirent i k e s = Except.ok (stored, s')) :
    (stored = false ∧ s' = s ∧ Not (k < (s.data (s.icache i).inum).length) ∧
      Not (k = (s.data (s.icache i).inum).length ∧ k < maxDirents)) ∨
    (stored = true ∧
      ((k < (s.data (s.icache i).inum).length ∧
        s' = s.setData (s.icache i).inum ((s.data (s.icache i).inum).set k e)) ∨
       (k = (s.data (s.icache i).inum).length ∧
        s' = s.setData (s.icache i).inum (s.data (s.icache i).inum ++ [e])))) := by
  unfold writeDirent at h
  by_cases hin : k < (s.data (s.icache i).inum).length
  · simp only [hin, if_true] at h
    rcases bind_ok h with ⟨s1, hwrite, hrest⟩
    rw [(logWrite_ok hwrite).right] at hrest
    cases hrest
    exact Or.inr ⟨rfl, Or.inl ⟨hin, rfl⟩⟩
  · simp only [hin, if_false] at h
    by_cases hend : k = (s.data (s.icache i).inum).length ∧ k < maxDirents
    · rw [if_pos hend] at h
      rcases bind_ok h with ⟨s1, hwrite, hrest⟩
      rw [(logWrite_ok hwrite).right] at hrest
      cases hrest
      exact Or.inr ⟨rfl, Or.inr ⟨hend.left, rfl⟩⟩
    · rw [if_neg hend] at h
      cases h
      exact Or.inl ⟨rfl, rfl, hin, hend⟩

theorem dirAdd_ok {i : Nat} {e : Dirent} {stored : Bool}
    (h : dirAdd i e s = Except.ok (stored, s')) :
    writeDirent i (freeEntry 0 (s.data (s.icache i).inum)) e s = Except.ok (stored, s') := by
  rcases bind_ok h with ⟨u, hheld, hrest⟩
  exact hrest

theorem dirUnlink_ok {i k : Nat} {unlinked : Bool}
    (h : dirUnlink i k s = Except.ok (unlinked, s')) :
    exists e, (s.data (s.icache i).inum)[k]? = some e ∧ e.inum ≠ 0 ∧ unlinked = true ∧
      s' = s.setData (s.icache i).inum
        ((s.data (s.icache i).inum).set k { inum := 0, name := [] }) := by
  rcases bind_ok h with ⟨u, hheld, hrest⟩
  split at hrest
  · cases hrest
  · rename_i e he
    split at hrest
    · rename_i hused
      have hin : k < (s.data (s.icache i).inum).length := (List.getElem?_eq_some_iff.mp he).1
      rcases writeDirent_ok hrest with ⟨-, -, hout, -⟩ | ⟨htrue, ⟨-, hs⟩ | ⟨hlen, -⟩⟩
      · exact absurd hin hout
      · exact ⟨e, he, hused, htrue, hs⟩
      · lia
    · cases hrest

theorem dirIsempty_ok {i : Nat} {empty : Bool} (h : dirIsempty i s = Except.ok (empty, s')) :
    empty = ((s.data (s.icache i).inum).drop 2).all (fun e => decide (e.inum = 0)) ∧
      s' = s := by
  rcases bind_ok h with ⟨u, hheld, hrest⟩
  cases hrest
  exact ⟨rfl, rfl⟩

/-!
# Files and tasks
-/

theorem fileAlloc_cases (s : State) :
    fileAlloc s = (none, s) ∨
      exists f, (s.files f).refs = 0 ∧
        fileAlloc s = (some f, { s.setFile f { s.files f with refs := 1, id := s.openings } with
          openings := s.openings + 1 }) := by
  unfold fileAlloc
  split
  · exact Or.inl rfl
  · rename_i f hf
    have hfree := List.find?_some hf
    exact Or.inr ⟨f, of_decide_eq_true hfree, rfl⟩

theorem fileDrop_ok {f : Nat} {file : Option File} (h : fileDrop f s = Except.ok (file, s')) :
    1 ≤ (s.files f).refs ∧
      ((1 < (s.files f).refs ∧ file = none ∧
        s' = s.setFile f { s.files f with refs := (s.files f).refs - 1 }) ∨
       ((s.files f).refs = 1 ∧ file = some (s.files f) ∧
        s' = s.setFile f { s.files f with refs := 0, type := FdType.none })) := by
  unfold fileDrop at h
  by_cases href : (s.files f).refs ≥ 1
  · refine ⟨href, ?_⟩
    by_cases hmore : (s.files f).refs - 1 > 0
    · simp only [href, hmore, if_true] at h
      cases h
      exact Or.inl ⟨by lia, rfl, rfl⟩
    · simp only [href, hmore, if_true, if_false] at h
      cases h
      have hone : (s.files f).refs = 1 := by lia
      refine Or.inr ⟨hone, rfl, ?_⟩
      rw [hone]
  · simp only [href, if_false] at h
    cases h

theorem fileDup_ok {f : Nat} (h : fileDup f s = Except.ok s') :
    1 ≤ (s.files f).refs ∧
      s' = s.setFile f { s.files f with refs := (s.files f).refs + 1 } := by
  unfold fileDup at h
  by_cases href : (s.files f).refs ≥ 1
  · simp only [href, if_true] at h
    cases h
    exact ⟨href, rfl⟩
  · simp only [href, if_false] at h
    cases h

theorem fdAlloc_cases (t f : Nat) (s : State) :
    fdAlloc t f s = (none, s) ∨
      exists fd, fd < nofile ∧ (s.tasks t).ofiles fd = none ∧
        fdAlloc t f s = (some fd, setDescriptor t fd (some f) s) := by
  unfold fdAlloc
  split
  · exact Or.inl rfl
  · rename_i fd hfd
    have hfree := List.find?_some hfd
    exact Or.inr ⟨fd, List.mem_range.mp (List.mem_of_find?_eq_some hfd),
      of_decide_eq_true hfree, rfl⟩

theorem fetchFile_some {t f : Nat} {fd : Int} (h : fetchFile t fd s = some f) :
    fd.toNat < nofile ∧ (s.tasks t).ofiles fd.toNat = some f := by
  unfold fetchFile at h
  split at h
  · cases h
  · rename_i hin
    exact ⟨by lia, h⟩

theorem taskAlloc_ok {child : Nat} (h : taskAlloc child s = Except.ok s') :
    (s.tasks child).state = TaskState.unused ∧
      s' = s.setTask child
        { state := TaskState.allocated, cwd := none, ofiles := fun _ => none, depth := 0 } := by
  unfold taskAlloc at h
  split at h
  · rename_i hunused
    cases h
    exact ⟨hunused, rfl⟩
  · cases h

/-!
# What stays on the disk
-/

/-- Operations beside the inodes and the directories. -/
def Op.beside : Op -> Bool
  | Op.iget _ => false
  | Op.inodeDup _ => false
  | Op.inodeLock _ => false
  | Op.inodeUnlock _ => false
  | Op.setNlink _ _ => false
  | Op.inodeUpdate _ => false
  | Op.putStart _ _ => false
  | Op.itruncate _ => false
  | Op.clearType _ => false
  | Op.putEnd _ => false
  | Op.inodeAlloc _ => false
  | Op.dirAdd _ _ => false
  | Op.dirUnlink _ _ => false
  | _ => true

theorem perform_beside {t : Nat} {o : Op} {u v : State} {a : o.Answer} (h : o.beside = true)
    (hrun : perform t o u = Except.ok (a, v)) : v.icache = u.icache ∧ v.tree = u.tree := by
  cases o with
  | assert holds stop =>
      cases holds with
      | true =>
          cases hrun
          exact ⟨rfl, rfl⟩
      | false => cases hrun
  | logBegin =>
      rw [(logBegin_ok (done_ok hrun)).right]
      exact ⟨rfl, rfl⟩
  | logEnd =>
      rw [(logEnd_ok hrun).right.right]
      exact ⟨rfl, rfl⟩
  | balloc =>
      rw [(logWrite_ok (done_ok hrun)).right]
      exact ⟨rfl, rfl⟩
  | dirFind i name =>
      rw [(dirFind_ok hrun).right.right.right]
      exact ⟨rfl, rfl⟩
  | dirIsempty i =>
      rw [(dirIsempty_ok hrun).right]
      exact ⟨rfl, rfl⟩
  | inodeWrite i =>
      rw [(logWrite_ok (done_ok hrun)).right]
      exact ⟨rfl, rfl⟩
  | fileAlloc =>
      have halloc : fileAlloc u = (a, v) := Except.ok.inj hrun
      rcases fileAlloc_cases u with hnone | ⟨f, -, hsome⟩
      · cases halloc.symm.trans hnone
        exact ⟨rfl, rfl⟩
      · cases halloc.symm.trans hsome
        exact ⟨rfl, rfl⟩
  | fileDrop f =>
      rcases (fileDrop_ok hrun).right with ⟨-, -, rfl⟩ | ⟨-, -, rfl⟩
      · exact ⟨rfl, rfl⟩
      · exact ⟨rfl, rfl⟩
  | fileDup f =>
      rw [(fileDup_ok (done_ok hrun)).right]
      exact ⟨rfl, rfl⟩
  | fdAlloc f =>
      have halloc : fdAlloc t f u = (a, v) := Except.ok.inj hrun
      rcases fdAlloc_cases t f u with hnone | ⟨fd, -, -, hsome⟩
      · cases halloc.symm.trans hnone
        exact ⟨rfl, rfl⟩
      · cases halloc.symm.trans hsome
        exact ⟨rfl, rfl⟩
  | taskAlloc child =>
      rw [(taskAlloc_ok (done_ok hrun)).right]
      exact ⟨rfl, rfl⟩
  | iget inum => cases h
  | inodeDup i => cases h
  | inodeLock i => cases h
  | inodeUnlock i => cases h
  | setNlink i nlink => cases h
  | inodeUpdate i => cases h
  | putStart i o => cases h
  | itruncate i => cases h
  | clearType i => cases h
  | putEnd i => cases h
  | inodeAlloc typ => cases h
  | dirAdd i e => cases h
  | dirUnlink i k => cases h
  | _ =>
      cases hrun
      exact ⟨rfl, rfl⟩

end Effects

end Syscall
end Fs
end NicoOS
