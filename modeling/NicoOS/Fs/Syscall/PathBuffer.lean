import NicoOS.Fs.Syscall.Plain

/-!
# The buffer for a component

`path_skipelem` copies a component through its argument without a bound, and every
caller passes an array of `DIRENT_NAME_LENGTH` bytes.  The stores stay inside for
exactly the paths whose components leave room for the terminating NUL.
-/

namespace NicoOS
namespace Fs
namespace Syscall

open Lib
open Program (op)
open Inode (InodeType)

/-- The stores of `path_skipelem` from index `k` on, with `c` the next character. -/
def copyStores : Nat -> UInt8 -> Name -> List (Nat × UInt8)
  | k, c, [] => [(k, c), (k + 1, 0)]
  | k, c, d :: rest =>
      if d = slash then [(k, c), (k + 1, 0)] else (k, c) :: copyStores (k + 1) d rest

/-- The stores that `path_skipelem` makes through `name`. -/
def skipelemStores (path : Name) : List (Nat × UInt8) :=
  match skipSlashes path with
  | [] => []
  | c :: rest => copyStores 0 c rest

theorem copyStores_eq (k : Nat) (c : UInt8) (rest : Name) :
    (copyStores k c rest).map Prod.fst = List.range' k ((takeElem rest).1.length + 2) := by
  induction rest generalizing k c with
  | nil => rfl
  | cons d tail ih =>
      rw [copyStores, takeElem]
      split
      · rfl
      · rw [List.map_cons, ih]
        rfl

/-- The stores are inside exactly if the element and its NUL are. -/
theorem skipelemStores_inside_iff {path name rest : Name}
    (h : pathSkipelem path = some (name, rest)) :
    (forall x, x ∈ skipelemStores path -> x.1 < direntNameLength) <->
      name.length < direntNameLength := by
  unfold pathSkipelem at h
  unfold skipelemStores
  cases hskip : skipSlashes path with
  | nil =>
      rw [hskip] at h
      cases h
  | cons c tail =>
      rw [hskip] at h
      dsimp only at h ⊢
      rw [takeElem_cons (head_skipSlashes hskip)] at h
      cases h
      have hindices := copyStores_eq 0 c tail
      constructor
      · intro hall
        have hlast : (takeElem tail).1.length + 1 ∈ (copyStores 0 c tail).map Prod.fst := by
          rw [hindices]
          exact List.mem_range'_1.mpr ⟨Nat.zero_le _, by lia⟩
        rcases List.mem_map.mp hlast with ⟨x, hx, heq⟩
        have hlt := hall x hx
        rw [heq] at hlt
        exact hlt
      · intro hlt x hx
        have hmem : x.1 ∈ (copyStores 0 c tail).map Prod.fst := List.mem_map.mpr ⟨x, hx, rfl⟩
        rw [hindices] at hmem
        have hbound := (List.mem_range'_1.mp hmem).right
        rw [List.length_cons] at hlt
        lia

/-!
# Programs that stay inside
-/

/-- No store behind the end of a buffer, and no name that `dir_lookup` asserts against. -/
def StaysInside {α : Type} (code : Code α) : Prop :=
  forall t s, Program.exec (perform t) code s ≠ Except.error Stop.overrun

/-- A name that fits into a buffer of `DIRENT_NAME_LENGTH` bytes. -/
def Short (name : Name) : Prop := name.length < direntNameLength

instance (name : Name) : Decidable (Short name) :=
  inferInstanceAs (Decidable (name.length < direntNameLength))

/-- With short names only, no operation overruns a buffer. -/
theorem perform_short (t : Nat) (o : Op) (s : State) (h : o.Named Short) :
    perform t o s ≠ Except.error Stop.overrun := by
  rcases h with ⟨-, hnamed⟩
  cases o with
  | assert holds stop =>
      intro hfails
      have hstop : holds = false ∧ stop = Stop.overrun := by
        cases holds with
        | true => cases hfails
        | false => exact ⟨rfl, Except.error.inj hfails⟩
      rcases hnamed hstop.right with ⟨name, hname, heq⟩
      rw [hstop.left] at heq
      exact of_decide_eq_false heq.symm hname
  | dirFind i name =>
      have hlen : name.length ≤ direntNameLength := Nat.le_of_lt hnamed
      simp only [perform, dirFind, heldDirectory, hlen, if_true, bind, Except.bind]
      grind
  | _ =>
      simp only [perform, done, logBegin, logEnd, iget, inodeLock, inodeUnlock, inodeUpdate,
        logWrite, putStart, itruncate, clearType, inodeAlloc, heldDirectory, dirAdd,
        writeDirent, dirUnlink, dirIsempty, fileDrop, fileDup, taskAlloc, bind, Except.bind]
      grind

theorem staysInside_of_named {α : Type} {code : Code α} (h : Named Short code) :
    StaysInside code :=
  fun t s => Program.only_ne_error (fun o u ho => perform_short t o u ho) h s

/-!
# A long component is reached

In a directory whose entries all lead back to it the lookup gets to every component.
-/

/-- The root at place 0 of the cache, with `ref` references. -/
def rootPlace (ref : Nat) (locked : Bool) : CachedInode :=
  { inum := rootInum
    ref := ref
    locked := locked
    valid := true
    diskInode := { type := InodeType.directory, nlink := 1 } }

def withRoot (s : State) (ref : Nat) (locked : Bool) : State :=
  s.setInode 0 (rootPlace ref locked)

def loops (names : List Name) : List Dirent :=
  names.map (fun name => { inum := rootInum, name := name })

theorem findEntry_loops {names : List Name} {name : Name} (h : name ∈ names) (k : Nat) :
    exists offset, findEntry name k (loops names) = some (offset, rootInum) := by
  induction names generalizing k with
  | nil => cases h
  | cons first rest ih =>
      show exists offset, (if rootInum ≠ 0 ∧ first = name then some (k, rootInum)
        else findEntry name (k + 1) (loops rest)) = some (offset, rootInum)
      by_cases heq : first = name
      · exact ⟨k, if_pos ⟨by decide, heq⟩⟩
      · rw [if_neg (fun hboth => heq hboth.right)]
        rcases List.mem_cons.mp h with rfl | hrest
        · exact absurd rfl heq
        · exact ih hrest (k + 1)

section Loops

variable {s : State} {ref : Nat} {locked : Bool}

@[simp] theorem withRoot_icache : (withRoot s ref locked).icache 0 = rootPlace ref locked := by
  unfold withRoot State.setInode
  dsimp only
  rw [Function.update_self]

theorem withRoot_setInode (ref' : Nat) (locked' : Bool) :
    (withRoot s ref locked).setInode 0 (rootPlace ref' locked') = withRoot s ref' locked' := by
  unfold withRoot State.setInode
  dsimp only
  rw [Function.update_idem]

theorem iget_withRoot : iget rootInum (withRoot s (ref + 1) locked) =
    Except.ok (0, withRoot s (ref + 2) locked) := by
  unfold iget
  have hfound : findInode (withRoot s (ref + 1) locked).icache rootInum Inode.nicache 0 none =
      Sum.inl 0 := by
    show findInode _ _ (_ + 1) _ _ = _
    rw [findInode, withRoot_icache]
    exact if_pos ⟨Nat.succ_pos ref, rfl⟩
  rw [hfound]
  dsimp only
  rw [withRoot_icache]
  exact congrArg (fun u => Except.ok (0, u)) (withRoot_setInode (ref + 2) locked)

theorem inodeLock_withRoot :
    inodeLock 0 (withRoot s (ref + 1) false) = Except.ok (withRoot s (ref + 1) true) := by
  unfold inodeLock
  rw [withRoot_icache]
  exact congrArg Except.ok (withRoot_setInode (ref + 1) true)

theorem inodeUnlock_withRoot :
    inodeUnlock 0 (withRoot s (ref + 1) true) = Except.ok (withRoot s (ref + 1) false) := by
  unfold inodeUnlock
  rw [withRoot_icache]
  exact congrArg Except.ok (withRoot_setInode (ref + 1) false)

theorem exec_inodePut_withRoot (t : Nat) :
    Program.exec (perform t) (inodePut 0) (withRoot s (ref + 2) false) =
      Except.ok ((), withRoot s (ref + 1) false) := by
  have hstart : putStart 0 none (withRoot s (ref + 2) false) =
      Except.ok (false, withRoot s (ref + 2) true) := by
    unfold putStart
    rw [withRoot_icache]
    exact congrArg (fun u => Except.ok (false, u)) (withRoot_setInode (ref + 2) true)
  have hend : putEnd 0 (withRoot s (ref + 2) true) = withRoot s (ref + 1) false := by
    unfold putEnd
    rw [withRoot_icache]
    exact withRoot_setInode (ref + 1) false
  refine (Program.exec_op_ok (o := Op.putStart 0 none) hstart).trans ?_
  exact congrArg (fun u => Except.ok ((), u)) hend

theorem exec_unlockput_withRoot (t : Nat) :
    Program.exec (perform t) (inodeUnlockput 0) (withRoot s (ref + 2) true) =
      Except.ok ((), withRoot s (ref + 1) false) := by
  have hunlock : done (inodeUnlock 0 (withRoot s (ref + 2) true)) =
      Except.ok ((), withRoot s (ref + 2) false) := by
    rw [inodeUnlock_withRoot]
    rfl
  exact (Program.exec_op_ok (o := Op.inodeUnlock 0) hunlock).trans (exec_inodePut_withRoot t)

theorem exec_dirLookup_withRoot {r : Nat} (t : Nat) {names : List Name} {name : Name}
    (hdata : s.data rootInum = loops names) (hholes : s.holes rootInum = [])
    (hmem : name ∈ names) (hname : Short name) :
    exists offset, Program.exec (perform t) (dirLookup 0 name) (withRoot s (r + 1) true) =
      Except.ok (some (offset, 0), withRoot s (r + 2) true) := by
  rcases findEntry_loops hmem 0 with ⟨offset, hfound⟩
  refine ⟨offset, ?_⟩
  have hheld : heldDirectory 0 (withRoot s (r + 1) true) = Except.ok () := by
    unfold heldDirectory
    rw [withRoot_icache]
    rfl
  have hfind : dirFind 0 name (withRoot s (r + 1) true) =
      Except.ok (some (offset, rootInum), withRoot s (r + 1) true) := by
    unfold dirFind
    rw [hheld, withRoot_icache, if_pos (Nat.le_of_lt hname)]
    show Except.ok (findEntry name 0 (s.data rootInum), _) = _
    rw [hdata, hfound]
  have hnone : (withRoot s (r + 1) true).holes ((withRoot s (r + 1) true).icache 0).inum = [] := by
    rw [withRoot_icache]
    exact hholes
  refine (Program.exec_op_ok (o := Op.dirFind 0 name) hfind).trans ?_
  refine (Program.exec_bind_ok (exec_inodeRead (Or.inl hnone))).trans ?_
  exact (Program.exec_op_ok (o := Op.iget rootInum) iget_withRoot).trans rfl

theorem exec_walk_round (t : Nat) (nameiparent : Bool) {names rest : List Name}
    {first : Name} (name : Name) (hdata : s.data rootInum = loops names)
    (hholes : s.holes rootInum = []) (hmem : first ∈ names) (hfirst : Short first)
    (hrest : rest ≠ []) :
    Program.exec (perform t) (walk nameiparent 0 (first :: rest) name) (withRoot s 2 false) =
      Program.exec (perform t) (walk nameiparent 0 rest first) (withRoot s 2 false) := by
  have hlock : done (inodeLock 0 (withRoot s 2 false)) =
      Except.ok ((), withRoot s 2 true) := by
    rw [inodeLock_withRoot]
    rfl
  have hinode : Except.ok ((withRoot s 2 true).icache 0, withRoot s 2 true) =
      (Except.ok (rootPlace 2 true, withRoot s 2 true) : Except Stop _) := by
    rw [withRoot_icache]
  rcases exec_dirLookup_withRoot (r := 1) t hdata hholes hmem hfirst with ⟨offset, hlookup⟩
  rw [walk, decide_eq_true (show first.length < direntNameLength from hfirst)]
  refine (Program.exec_op_ok (o := Op.assert true Stop.overrun) rfl).trans ?_
  refine (Program.exec_op_ok (o := Op.inodeLock 0) hlock).trans ?_
  refine (Program.exec_op_ok (o := Op.inode 0) hinode).trans ?_
  rw [if_neg (fun hdir => hdir rfl), if_neg (fun hlast => hrest hlast.left)]
  refine (Program.exec_bind_ok hlookup).trans ?_
  exact (Program.exec_bind_ok (exec_unlockput_withRoot t)).trans rfl

/-- The first component that is too long stops the lookup. -/
theorem exec_walk_overruns (t : Nat) (nameiparent : Bool) {names left : List Name}
    (name : Name) (hdata : s.data rootInum = loops names) (hholes : s.holes rootInum = [])
    (hsub : forall name, name ∈ left -> name ∈ names)
    (hlong : exists name, name ∈ left ∧ Not (Short name)) :
    Program.exec (perform t) (walk nameiparent 0 left name) (withRoot s 2 false) =
      Except.error Stop.overrun := by
  induction left generalizing name with
  | nil =>
      rcases hlong with ⟨name, hmem, _⟩
      cases hmem
  | cons first rest ih =>
      by_cases hfirst : Short first
      · have hlong' : exists name, name ∈ rest ∧ Not (Short name) := by
          rcases hlong with ⟨name, hmem, hname⟩
          rcases List.mem_cons.mp hmem with rfl | hrest
          · exact absurd hfirst hname
          · exact ⟨name, hrest, hname⟩
        have hrest : rest ≠ [] := by
          rcases hlong' with ⟨name, hmem, _⟩
          exact List.ne_nil_of_mem hmem
        rw [exec_walk_round t nameiparent name hdata hholes (hsub first List.mem_cons_self) hfirst
          hrest]
        exact ih first (fun name hmem => hsub name (List.mem_cons_of_mem first hmem)) hlong'
      · rw [walk, decide_eq_false (show Not (first.length < direntNameLength) from hfirst)]
        exact Program.exec_op_error (o := Op.assert false Stop.overrun) rfl

theorem exec_pathStart_withRoot (t : Nat) (path : Name) (hcwd : (s.tasks t).cwd = some 0) :
    Program.exec (perform t) (pathStart path) (withRoot s 1 false) =
      Except.ok (0, withRoot s 2 false) := by
  have hcwd' : Program.exec (perform t) startAtCwd (withRoot s 1 false) =
      Except.ok (0, withRoot s 2 false) := by
    have hop : Except.ok ((s.tasks t).cwd, withRoot s 1 false) =
        (Except.ok (some 0, withRoot s 1 false) : Except Stop _) := by
      rw [hcwd]
    have hdup : inodeDup 0 (withRoot s 1 false) = withRoot s 2 false := by
      unfold inodeDup
      rw [withRoot_icache]
      exact withRoot_setInode 2 false
    refine (Program.exec_op_ok (o := Op.cwd) hop).trans ?_
    exact congrArg (fun u => Except.ok (0, u)) hdup
  have higet : Program.exec (perform t) (op (Op.iget rootInum) : Code Nat)
      (withRoot s 1 false) = Except.ok ((0 : Nat), withRoot s 2 false) := by
    show (iget rootInum (withRoot s 1 false) >>= _) = _
    rw [iget_withRoot]
    rfl
  cases path with
  | nil => exact hcwd'
  | cons c rest =>
      by_cases hc : c = slash
      · have hstart : pathStart (c :: rest) = op (Op.iget rootInum) := if_pos hc
        rw [hstart]
        exact higet
      · have hstart : pathStart (c :: rest) = startAtCwd := if_neg hc
        rw [hstart]
        exact hcwd'

theorem exec_pathLookup0_overruns (t : Nat) (nameiparent : Bool) {path : Name}
    (hdata : s.data rootInum = loops (components path)) (hholes : s.holes rootInum = [])
    (hcwd : (s.tasks t).cwd = some 0)
    (hlong : exists name, name ∈ components path ∧ Not (Short name)) :
    Program.exec (perform t) (pathLookup0 nameiparent path) (withRoot s 1 false) =
      Except.error Stop.overrun := by
  rw [pathLookup0_eq, Program.exec_bind_ok (exec_pathStart_withRoot t path hcwd)]
  exact exec_walk_overruns t nameiparent [] hdata hholes (fun _ hmem => hmem) hlong

end Loops

/-- The first process in a root whose entries are the components of the path. -/
def loopBoot (path : Name) : State :=
  boot
    { ninodes := 2
      dinodes := fun _ => { type := InodeType.directory, nlink := 1 }
      data := fun _ => loops (components path) }

def loopState (path : Name) : State := withRoot (loopBoot path) 1 false

theorem lookup0_overruns (nameiparent : Bool) {path : Name}
    (hlong : Not (forall name, name ∈ components path -> Short name)) :
    Program.exec (perform initTask) (pathLookup0 nameiparent path) (loopState path) =
      Except.error Stop.overrun :=
  exec_pathLookup0_overruns initTask nameiparent rfl rfl rfl
    (by simpa only [not_forall, exists_prop] using hlong)

theorem pathLookup_overruns {path : Name}
    (hlong : Not (forall name, name ∈ components path -> Short name)) :
    Not (StaysInside (pathLookup path)) :=
  fun h => h initTask (loopState path) (Program.exec_bind_error (lookup0_overruns false hlong))

theorem pathLookupParent_overruns {path : Name}
    (hlong : Not (forall name, name ∈ components path -> Short name)) :
    Not (StaysInside (pathLookupParent path)) :=
  fun h => h initTask (loopState path) (lookup0_overruns true hlong)

theorem createFile_overruns {path : Name} (typ : InodeType)
    (hlong : Not (forall name, name ∈ components path -> Short name)) :
    Not (StaysInside (createFile path typ)) :=
  fun h => h initTask (loopState path) (Program.exec_bind_error (lookup0_overruns true hlong))

theorem sysUnlink_overruns {path : Name}
    (hlong : Not (forall name, name ∈ components path -> Short name)) :
    Not (StaysInside (sysUnlink (some path))) := by
  intro h
  refine h initTask (loopState path) ?_
  have hbegin : done (logBegin initTask (loopState path)) =
      Except.ok ((), withRoot (((loopBoot path).setLog 1 false).setTask initTask
        { bootTask initTask with depth := 1 }) 1 false) := rfl
  refine (Program.exec_op_ok (o := Op.logBegin) hbegin).trans ?_
  exact Program.exec_bind_error (exec_pathLookup0_overruns initTask true rfl rfl rfl
    (by simpa only [not_forall, exists_prop] using hlong))

/-!
# The condition on a path
-/

/--
A component fits exactly if all stores for it are inside the buffer, and the four
callers never overrun one exactly if every component of the path fits.
-/
theorem path_buffers_kept_iff (path : Name) :
    (forall rest name next, pathSkipelem rest = some (name, next) ->
      ((forall x, x ∈ skipelemStores rest -> x.1 < direntNameLength) <-> Short name)) ∧
      (StaysInside (pathLookup path) <-> forall name, name ∈ components path -> Short name) ∧
      (StaysInside (pathLookupParent path) <->
        forall name, name ∈ components path -> Short name) ∧
      (forall typ, StaysInside (createFile path typ) <->
        forall name, name ∈ components path -> Short name) ∧
      (StaysInside (sysUnlink (some path)) <->
        forall name, name ∈ components path -> Short name) := by
  refine ⟨fun _ _ _ h => skipelemStores_inside_iff h, ?_, ?_, ?_, ?_⟩
  · constructor
    · intro h
      by_contra hlong
      exact pathLookup_overruns hlong h
    · intro h
      exact staysInside_of_named (named_pathLookup h)
  · constructor
    · intro h
      by_contra hlong
      exact pathLookupParent_overruns hlong h
    · intro h
      exact staysInside_of_named (named_pathLookup0 true h)
  · intro typ
    constructor
    · intro h
      by_contra hlong
      exact createFile_overruns typ hlong h
    · intro h
      exact staysInside_of_named (named_createFile typ h (by decide) (by decide))
  · constructor
    · intro h
      by_contra hlong
      exact sysUnlink_overruns hlong h
    · intro h
      exact staysInside_of_named (named_sysUnlink h)

/-- A name of `DIRENT_NAME_LENGTH` bytes, whose NUL is stored behind the buffer. -/
def longName : Name := List.replicate direntNameLength 97

theorem longName_overruns :
    (direntNameLength, 0) ∈ skipelemStores longName ∧
      Not (forall path, StaysInside (pathLookup path) ∧ StaysInside (pathLookupParent path) ∧
        (forall typ, StaysInside (createFile path typ)) ∧
        StaysInside (sysUnlink (some path))) := by
  constructor
  · decide
  · intro h
    have hlong : Not (forall name, name ∈ components longName -> Short name) :=
      fun hshort => absurd (hshort longName (by decide)) (by decide)
    exact pathLookup_overruns hlong (h longName).left

end Syscall
end Fs
end NicoOS
