import NicoOS.Fs.Dir.Names
import NicoOS.Fs.Syscall.PathFold

/-!
# The names of new files

`create_file` takes the names that `path_valid_name` accepts.  It keeps what the other
names of the directory stand for, but a name of `DIRENT_NAME_LENGTH` bytes leaves no room
for its NUL.
-/

namespace NicoOS
namespace Fs
namespace Syscall

open Lib
open Program (op)
open Inode (InodeType)

/-!
# Accepted names
-/

theorem pathValidName_ne_nil {name : Name} (h : pathValidName name = true) : name ≠ [] := by
  intro hnil
  rw [hnil] at h
  cases h

theorem pathValidName_fits {name : Name} (h : pathValidName name = true) : Dir.Fits name := by
  cases name with
  | nil => cases h
  | cons c rest =>
      unfold pathValidName at h
      rw [Bool.and_eq_true, Bool.and_eq_true] at h
      rcases h with ⟨⟨hlen, -⟩, hchars⟩
      constructor
      · intro hzero
        have hchar := List.all_eq_true.mp hchars 0 hzero
        exact absurd hchar (by decide)
      · exact of_decide_eq_true hlen

/-!
# A table with one more entry
-/

def stored (e : Dirent) : List Dirent -> List Dirent
  | [] => [e]
  | first :: rest => if first.inum = 0 then e :: rest else first :: stored e rest

theorem freeEntry_eq (k : Nat) (entries : List Dirent) :
    freeEntry k entries = k + freeEntry 0 entries := by
  induction entries generalizing k with
  | nil => rfl
  | cons first rest ih =>
      rw [freeEntry, freeEntry]
      split
      · rfl
      · rw [ih (k + 1), ih (0 + 1)]
        lia

theorem set_freeEntry (e : Dirent) {entries : List Dirent}
    (h : freeEntry 0 entries < entries.length) :
    entries.set (freeEntry 0 entries) e = stored e entries := by
  induction entries with
  | nil => cases h
  | cons first rest ih =>
      rw [freeEntry] at h ⊢
      rw [stored]
      split
      · rfl
      · rename_i hused
        rw [if_neg hused, freeEntry_eq, Nat.zero_add, Nat.add_comm, List.length_cons] at h
        rw [freeEntry_eq, Nat.zero_add, Nat.add_comm, List.set_cons_succ,
          ih (Nat.lt_of_succ_lt_succ h)]

theorem append_freeEntry (e : Dirent) {entries : List Dirent}
    (h : freeEntry 0 entries = entries.length) : entries ++ [e] = stored e entries := by
  induction entries with
  | nil => rfl
  | cons first rest ih =>
      rw [freeEntry] at h
      rw [stored]
      split
      · rename_i hfree
        rw [if_pos hfree] at h
        cases h
      · rename_i hused
        rw [if_neg hused, freeEntry_eq, Nat.zero_add, Nat.add_comm, List.length_cons] at h
        rw [List.cons_append, ih (Nat.succ.inj h)]

theorem findEntry_stored_self {e : Dirent} (hinum : e.inum ≠ 0) {k : Nat}
    {entries : List Dirent} (hnone : findEntry e.name k entries = none) :
    (findEntry e.name k (stored e entries)).map Prod.snd = some e.inum := by
  induction entries generalizing k with
  | nil =>
      rw [stored, findEntry, if_pos ⟨hinum, rfl⟩]
      rfl
  | cons first rest ih =>
      rw [findEntry] at hnone
      rw [stored]
      split at hnone
      · cases hnone
      · rename_i hmiss
        split
        · rw [findEntry, if_pos ⟨hinum, rfl⟩]
          rfl
        · rw [findEntry, if_neg hmiss]
          exact ih hnone

theorem findEntry_stored_other {e : Dirent} {other : Name} (hname : other ≠ e.name) (k : Nat)
    (entries : List Dirent) : findEntry other k (stored e entries) = findEntry other k entries := by
  induction entries generalizing k with
  | nil =>
      show findEntry other k [e] = none
      rw [findEntry, if_neg (fun hboth => hname hboth.right.symm)]
      rfl
  | cons first rest ih =>
      rw [stored]
      split
      · rename_i hfree
        rw [findEntry, findEntry, if_neg (fun hboth => hname hboth.right.symm),
          if_neg (fun hboth => hboth.left hfree)]
      · rw [findEntry, findEntry, ih]

/-!
# The state inside of `create_file`
-/

/-- The directory at place `dir` is locked, and `inode_put` will not free it. -/
structure Holding (dir inum : Nat) (entries : List Dirent) (u : State) : Prop where
  number : (u.icache dir).inum = inum
  used : 0 < (u.icache dir).ref
  type : (u.icache dir).diskInode.type = InodeType.directory
  kept : (u.icache dir).diskInode.nlink ≠ 0 ∨ 1 < (u.icache dir).ref
  disk : (u.dinodes inum).type = InodeType.directory
  data : u.data inum = entries

/-- The inode at place `ip` is another one, with the entries `new`. -/
structure Making (dir inum : Nat) (entries : List Dirent) (ip num : Nat) (new : List Dirent)
    (u : State) : Prop extends Holding dir inum entries u where
  place : ip ≠ dir
  apart : num ≠ inum
  name : (u.icache ip).inum = num
  fresh : u.data num = new

section Making

variable {dir inum ip num : Nat} {entries new : List Dirent} {u : State}

theorem Holding.setInode_other (h : Holding dir inum entries u) {i : Nat} (hi : i ≠ dir)
    (x : CachedInode) : Holding dir inum entries (u.setInode i x) := by
  have hplace : (u.setInode i x).icache dir = u.icache dir := setInode_of_ne x hi.symm
  constructor
  · rw [hplace]
    exact h.number
  · rw [hplace]
    exact h.used
  · rw [hplace]
    exact h.type
  · rw [hplace]
    exact h.kept
  · exact h.disk
  · exact h.data

theorem Holding.setDinode_other (h : Holding dir inum entries u) (hapart : num ≠ inum)
    (d : Dinode) : Holding dir inum entries (u.setDinode num d) where
  number := h.number
  used := h.used
  type := h.type
  kept := h.kept
  disk := by
    rw [show (u.setDinode num d).dinodes inum = u.dinodes inum from
      Function.update_of_ne hapart.symm ..]
    exact h.disk
  data := h.data

theorem Holding.setData_other (h : Holding dir inum entries u) (hapart : num ≠ inum)
    (list : List Dirent) : Holding dir inum entries (u.setData num list) where
  number := h.number
  used := h.used
  type := h.type
  kept := h.kept
  disk := h.disk
  data := (Function.update_of_ne hapart.symm ..).trans h.data

theorem Holding.clear_other (h : Holding dir inum entries u) (hapart : num ≠ inum) :
    Holding dir inum entries (u.clear num) where
  number := h.number
  used := h.used
  type := h.type
  kept := h.kept
  disk := h.disk
  data := (Function.update_of_ne hapart.symm ..).trans h.data

theorem Making.setPlace (h : Making dir inum entries ip num new u) {x : CachedInode}
    (hx : x.inum = num) : Making dir inum entries ip num new (u.setInode ip x) where
  toHolding := h.toHolding.setInode_other h.place x
  place := h.place
  apart := h.apart
  name := (congrArg CachedInode.inum (setInode_self x)).trans hx
  fresh := h.fresh

theorem Making.setDinode (h : Making dir inum entries ip num new u) (d : Dinode) :
    Making dir inum entries ip num new (u.setDinode num d) where
  toHolding := h.toHolding.setDinode_other h.apart d
  place := h.place
  apart := h.apart
  name := h.name
  fresh := h.fresh

theorem Making.setFresh (h : Making dir inum entries ip num new u) (list : List Dirent) :
    Making dir inum entries ip num list (u.setData num list) where
  toHolding := h.toHolding.setData_other h.apart list
  place := h.place
  apart := h.apart
  name := h.name
  fresh := Function.update_self ..

theorem Making.setData (h : Making dir inum entries ip num new u) (list : List Dirent) :
    Making dir inum list ip num new (u.setData inum list) where
  number := h.number
  used := h.used
  type := h.type
  kept := h.kept
  disk := h.disk
  data := Function.update_self ..
  place := h.place
  apart := h.apart
  name := h.name
  fresh := (Function.update_of_ne h.apart ..).trans h.fresh

/-- `dir_make` counts the entry `..` as a link to the directory. -/
theorem Making.addLink (h : Making dir inum entries ip num new u) (nlink : Nat) :
    Making dir inum entries ip num new (u.setInode dir { u.icache dir with
      diskInode := { (u.icache dir).diskInode with nlink := nlink + 1 } }) where
  number := (congrArg CachedInode.inum (setInode_self _)).trans h.number
  used := by
    rw [setInode_self]
    exact h.used
  type := by
    rw [setInode_self]
    exact h.type
  kept := by
    rw [setInode_self]
    exact Or.inl (Nat.succ_ne_zero nlink)
  disk := h.disk
  data := h.data
  place := h.place
  apart := h.apart
  name := (congrArg CachedInode.inum (setInode_of_ne _ h.place)).trans h.name
  fresh := h.fresh

theorem Making.update (h : Making dir inum entries ip num new u) :
    Making dir inum entries ip num new (u.setDinode inum (u.icache dir).diskInode) where
  number := h.number
  used := h.used
  type := h.type
  kept := h.kept
  disk := by
    rw [show (u.setDinode inum (u.icache dir).diskInode).dinodes inum =
      (u.icache dir).diskInode from Function.update_self ..]
    exact h.type
  data := h.data
  place := h.place
  apart := h.apart
  name := h.name
  fresh := h.fresh

/-- `iget` leaves the directory alone, but for a reference if it is the inode. -/
theorem Holding.iget (h : Holding dir inum entries u) {v : State}
    (hget : Syscall.iget num u = Except.ok (ip, v)) :
    (v.icache ip).inum = num ∧ v.data = u.data ∧
      (v.icache ip).locked = (u.icache ip).locked ∧
      (num ≠ inum -> ip ≠ dir) ∧ (ip ≠ dir -> Holding dir inum entries v) := by
  rcases iget_ok hget with ⟨-, hnumber, hv⟩ | ⟨hempty, -, hv⟩
  · rw [hv, setInode_self]
    refine ⟨hnumber, rfl, rfl, ?_, fun hplace => h.setInode_other hplace _⟩
    intro hapart heq
    rw [heq, h.number] at hnumber
    exact hapart hnumber.symm
  · rw [hv, setInode_self]
    refine ⟨rfl, rfl, rfl, ?_, fun hplace => h.setInode_other hplace _⟩
    intro _ heq
    have hused := h.used
    rw [heq] at hempty
    lia

end Making

/-!
# Parts of `create_file`
-/

section Parts

variable {t dir inum ip num : Nat} {entries new : List Dirent} {u : State}

theorem ends_dirLookup_none {i : Nat} {name : Name}
    (hnone : findEntry name 0 (u.data (u.icache i).inum) = none) :
    Program.Ends (perform t) (dirLookup i name) u (fun found v => found = none ∧ v = u) := by
  apply Program.ends_op
  intro found v hfind
  rcases dirFind_ok hfind with ⟨-, -, hfound, hv⟩
  rw [hfound, hnone, hv]
  exact ends_inodeRead (Program.ends_pure ⟨rfl, rfl⟩)

theorem ends_dirLookup_some (h : Holding dir inum entries u) {name : Name} {offset : Nat}
    (hfind : findEntry name 0 entries = some (offset, num)) :
    Program.Ends (perform t) (dirLookup dir name) u (fun found v =>
      exists ip, found = some (offset, ip) ∧ (v.icache ip).inum = num ∧
        (v.icache ip).locked = (u.icache ip).locked ∧
        (ip ≠ dir -> Holding dir inum entries v)) := by
  apply Program.ends_op
  intro found v hrun
  rcases dirFind_ok hrun with ⟨-, -, hfound, hv⟩
  rw [h.number, h.data, hfind] at hfound
  rw [hfound, hv]
  apply ends_inodeRead
  apply Program.ends_op
  intro (ip : Nat) w hget
  apply Program.ends_pure
  rcases h.iget hget with ⟨hnumber, -, hlocked, -, hkeeps⟩
  exact ⟨ip, rfl, hnumber, hlocked, hkeeps⟩

/-- `dir_link` of a name that is free stores the entry, if there is room. -/
theorem ends_dirLink {i : Nat} {e : Dirent}
    (hnone : findEntry e.name 0 (u.data (u.icache i).inum) = none) :
    Program.Ends (perform t) (dirLink i e) u (fun linked v =>
      (linked = true ∧ v = u.setData (u.icache i).inum (stored e (u.data (u.icache i).inum))) ∨
        (linked = false ∧ v = u)) := by
  apply Program.ends_bind (ends_dirLookup_none hnone)
  intro found v _ hfound
  rcases hfound with ⟨rfl, rfl⟩
  apply Program.ends_last
  intro (linked : Bool) w hadd
  rcases writeDirent_ok (dirAdd_ok hadd) with
    ⟨hrefused, hsame, -, -⟩ | ⟨hlinked, ⟨hin, hw⟩ | ⟨hend, hw⟩⟩
  · exact Or.inr ⟨hrefused, hsame⟩
  · rw [set_freeEntry e hin] at hw
    exact Or.inl ⟨hlinked, hw⟩
  · rw [append_freeEntry e hend] at hw
    exact Or.inl ⟨hlinked, hw⟩

/-- `dir_make` leaves the directory with its entries. -/
theorem ends_dirMake (h : Making dir inum entries ip num [] u) :
    Program.Ends (perform t) (dirMake dir ip) u (fun _ v =>
      exists list, Making dir inum entries ip num list v) := by
  apply Program.ends_op
  intro (found : CachedInode) v hinode
  cases hinode
  have hdot : findEntry dotName 0 (u.data (u.icache ip).inum) = none := by
    rw [h.name, h.fresh]
    rfl
  apply Program.ends_bind (ends_dirLink (e := { inum := (u.icache ip).inum, name := dotName }) hdot)
  intro linked v _ hlinked
  rcases hlinked with ⟨rfl, rfl⟩ | ⟨rfl, rfl⟩
  · rw [h.name, h.fresh]
    have h1 := h.setFresh (stored { inum := num, name := dotName } [])
    generalize u.setData num (stored { inum := num, name := dotName } []) = v at h1
    apply Program.ends_op
    intro (parent : CachedInode) w hparent
    cases hparent
    have hdotdot : findEntry dotdotName 0 (v.data (v.icache ip).inum) = none := by
      have hdiffers : dotdotName ≠ dotName := by decide
      rw [h1.name, h1.fresh]
      exact findEntry_stored_other hdiffers 0 []
    apply Program.ends_bind
      (ends_dirLink (e := { inum := (v.icache dir).inum, name := dotdotName }) hdotdot)
    intro linked w _ hlinked
    rcases hlinked with ⟨rfl, rfl⟩ | ⟨rfl, rfl⟩
    · rw [h1.name]
      have h2 := h1.setFresh
        (stored { inum := (v.icache dir).inum, name := dotdotName } (v.data num))
      have h3 := h2.addLink (v.icache dir).diskInode.nlink
      apply Program.ends_op
      intro _ x hlink
      cases hlink
      apply Program.ends_last
      intro _ y hupdate
      rw [inodeUpdate_ok (done_ok hupdate), h3.number]
      exact ⟨_, h3.update⟩
    · exact Program.ends_pure ⟨_, h1⟩
  · exact Program.ends_pure ⟨[], h⟩

/-- `inode_unlockput` of the directory changes its place in the cache only. -/
theorem ends_unlockput (h : Holding dir inum entries u) :
    Program.Ends (perform t) (inodeUnlockput dir) u (fun _ v =>
      v.dinodes = u.dinodes ∧ v.data = u.data ∧ forall j, j ≠ dir -> v.icache j = u.icache j) := by
  apply Program.ends_op
  intro _ v hunlock
  rw [inodeUnlock_ok (done_ok hunlock)]
  apply Program.ends_op
  intro (frees : Bool) w hput
  rcases putStart_ok hput with ⟨-, hfrees, hw⟩
  rw [setInode_self] at hfrees
  have hstays : frees = false := by
    rw [hfrees]
    apply decide_eq_false
    intro hall
    rcases hall with ⟨-, hnlink, href⟩
    rcases h.kept with hlink | hmore
    · exact hlink hnlink
    · exact absurd href (Nat.ne_of_gt hmore)
  rw [hstays, hw]
  apply Program.ends_last
  intro _ x hend
  cases hend
  refine ⟨rfl, rfl, ?_⟩
  intro j hj
  unfold putEnd
  rw [release, setInode_of_ne _ hj, setInode_of_ne _ hj, setInode_of_ne _ hj]

/-- The names of the directory behind `create_file`. -/
structure Created (inum : Nat) (entries : List Dirent) (name : Name) (ip : Nat) (v : State) :
    Prop where
  directory : (v.dinodes inum).type = InodeType.directory
  self : (findEntry name 0 (v.data inum)).map Prod.snd = some (v.icache ip).inum
  others : forall other, other ≠ name ->
    findEntry other 0 (v.data inum) = findEntry other 0 entries

theorem ends_createBad (i : Nat) :
    Program.Ends (perform t) (createBad i dir) u (fun r _ => r = none) := by
  constructor
  intro r v hrun
  unfold createBad at hrun
  rw [Program.bind_def, Program.exec_bind] at hrun
  rcases bind_ok hrun with ⟨x, -, hrest⟩
  rw [Program.bind_def, Program.exec_bind] at hrest
  rcases bind_ok hrest with ⟨y, -, hlast⟩
  cases hlast
  rfl

/-- `create_file` where the entry names an inode of the right type. -/
theorem ends_createExisting (h : Holding dir inum entries u) (hplace : ip ≠ dir) {name : Name}
    (hname : (findEntry name 0 entries).map Prod.snd = some (u.icache ip).inum)
    (typ : InodeType) :
    Program.Ends (perform t) (createExisting dir ip typ) u (fun r v =>
      forall j, r = some j -> Created inum entries name j v) := by
  apply Program.ends_op
  intro _ v hlock
  have hlocked : exists x, v = u.setInode ip x ∧ x.inum = (u.icache ip).inum := by
    rcases inodeLock_ok (done_ok hlock) with ⟨-, -, ⟨-, hv⟩ | ⟨-, -, hv⟩⟩
    · exact ⟨_, hv, rfl⟩
    · exact ⟨_, hv, rfl⟩
  rcases hlocked with ⟨x, rfl, hx⟩
  apply Program.ends_op
  intro (inode : CachedInode) w hinode
  cases hinode
  apply Program.ends_ite
  · intro _
    apply Program.ends_op
    intro _ w hunlock
    rw [inodeUnlock_ok (done_ok hunlock), setInode_self]
    have h2 := (h.setInode_other hplace x).setInode_other hplace { x with locked := false }
    apply Program.ends_bind (ends_unlockput h2)
    intro _ y _ hput
    rcases hput with ⟨hdinodes, hdata, hothers⟩
    apply Program.ends_pure
    intro j hj
    cases hj
    constructor
    · rw [hdinodes]
      exact h.disk
    · rw [hdata, hothers ip hplace, setInode_self, hx]
      exact (congrArg (fun list => (findEntry name 0 list).map Prod.snd) h.data).trans hname
    · intro other _
      rw [hdata]
      exact congrArg (findEntry other 0) h.data
  · intro _
    apply Program.ends_mono (ends_createBad ip)
    intro r v hr j hj
    cases hr.symm.trans hj

theorem ends_createNew (h : Holding dir inum entries u) {name : Name}
    (hnone : findEntry name 0 entries = none) (typ : InodeType) :
    Program.Ends (perform t) (createNew dir name typ) u (fun r v =>
      forall j, r = some j -> Created inum entries name j v) := by
  apply Program.ends_op
  intro (num : Nat) v halloc
  rcases inodeAlloc_ok halloc with ⟨hpos, -, hfree, rfl⟩
  have hapart : num ≠ inum := by
    intro heq
    rw [heq, h.disk] at hfree
    cases hfree
  have h1 : Holding dir inum entries ((u.setDinode num { type := typ, nlink := 0 }).clear num) :=
    (h.setDinode_other hapart _).clear_other hapart
  have hfresh : ((u.setDinode num { type := typ, nlink := 0 }).clear num).data num = [] :=
    Function.update_self ..
  generalize (u.setDinode num { type := typ, nlink := 0 }).clear num = u1 at h1 hfresh
  apply Program.ends_op
  intro (ip : Nat) v hget
  have h2 : Making dir inum entries ip num [] v := by
    rcases h1.iget hget with ⟨hnumber, hdata, -, hother, hkeeps⟩
    have hplace := hother hapart
    exact ⟨hkeeps hplace, hplace, hapart, hnumber, (congrFun hdata num).trans hfresh⟩
  apply Program.ends_op
  intro _ w hlock
  have h3 : Making dir inum entries ip num [] w := by
    rcases inodeLock_ok (done_ok hlock) with ⟨-, -, ⟨-, rfl⟩ | ⟨-, -, rfl⟩⟩
    · exact h2.setPlace h2.name
    · exact h2.setPlace h2.name
  apply Program.ends_op
  intro _ x hlink
  cases hlink
  have h4 := h3.setPlace (x := { w.icache ip with
    diskInode := { (w.icache ip).diskInode with nlink := 1 } }) h3.name
  apply Program.ends_op
  intro _ x hupdate
  have h5 : Making dir inum entries ip num [] x := by
    rw [inodeUpdate_ok (done_ok hupdate), h4.name]
    exact h4.setDinode _
  have hfree5 : findEntry name 0 (x.data (x.icache dir).inum) = none := by
    rw [h5.number, h5.data]
    exact hnone
  apply Program.ends_bind (ends_dirLink (e := { inum := num, name := name }) hfree5)
  intro linked y _ hlinked
  rcases hlinked with ⟨rfl, rfl⟩ | ⟨rfl, rfl⟩
  · rw [h5.number, h5.data]
    have h6 := h5.setData (stored { inum := num, name := name } entries)
    have hentries : Program.Ends (perform t) (createEntries dir ip typ)
        (x.setData inum (stored { inum := num, name := name } entries)) (fun _ v =>
          exists list, Making dir inum (stored { inum := num, name := name } entries) ip num
            list v) := by
      apply Program.ends_ite
      · exact fun _ => ends_dirMake h6
      · exact fun _ => Program.ends_pure ⟨[], h6⟩
    apply Program.ends_bind hentries
    intro _ y _ hput
    rcases hput with ⟨list, h7⟩
    apply Program.ends_op
    intro _ z hunlock
    rw [inodeUnlock_ok (done_ok hunlock)]
    have h8 := h7.setPlace (x := { y.icache ip with locked := false }) h7.name
    apply Program.ends_bind (ends_unlockput h8.toHolding)
    intro _ v _ hput
    rcases hput with ⟨hdinodes, hdata, hothers⟩
    apply Program.ends_pure
    intro j hj
    cases hj
    constructor
    · rw [hdinodes]
      exact h8.disk
    · rw [hdata, hothers ip h8.place, h8.name, h8.data]
      exact findEntry_stored_self (e := { inum := num, name := name }) (Nat.ne_of_gt hpos) hnone
    · intro other hother
      rw [hdata, h8.data]
      exact findEntry_stored_other hother 0 entries
  · apply Program.ends_op
    intro _ z hlink
    apply Program.ends_mono (ends_createBad ip)
    intro r v hr j hj
    cases hr.symm.trans hj

/-- The part of `create_file` behind `path_lookup_parent`. -/
def createIn (dir : Nat) (name : Name) (typ : InodeType) : Code (Option Nat) :=
  if pathValidName name then do
    op (Op.inodeLock dir)
    let parent <- op (Op.inode dir)
    assert (decide (parent.diskInode.type = InodeType.directory)) Stop.notDirectory
    match <- dirLookup dir name with
    | some (_, ip) => createExisting dir ip typ
    | none => createNew dir name typ
  else do
    inodePut dir
    pure none

theorem createFile_eq (path : Name) (typ : InodeType) :
    createFile path typ = pathLookupParent path >>= fun found =>
      match found with
      | none => pure none
      | some (dir, name) => createIn dir name typ := rfl

/--
The directory that `path_lookup_parent` returned: a valid copy is that of the disk, and a
link or another reference keeps it.
-/
structure Settled (u : State) (dir : Nat) : Prop where
  coherent : (u.icache dir).valid = true ->
    (u.icache dir).diskInode = u.dinodes (u.icache dir).inum
  kept : (u.dinodes (u.icache dir).inum).nlink ≠ 0 ∨ 1 < (u.icache dir).ref

theorem Settled.lock (h : Settled u dir) {v : State} (hlock : inodeLock dir u = Except.ok v) :
    v.data = u.data ∧ v.dinodes = u.dinodes ∧ (v.icache dir).inum = (u.icache dir).inum ∧
      0 < (v.icache dir).ref ∧ (v.icache dir).ref = (u.icache dir).ref ∧
      (v.icache dir).diskInode = u.dinodes (u.icache dir).inum ∧
      (v.icache dir).locked = true := by
  rcases inodeLock_ok hlock with ⟨hused, -, ⟨hvalid, rfl⟩ | ⟨-, -, rfl⟩⟩
  · rw [setInode_self]
    exact ⟨rfl, rfl, rfl, hused, rfl, h.coherent hvalid, rfl⟩
  · rw [setInode_self]
    exact ⟨rfl, rfl, rfl, hused, rfl, rfl, rfl⟩

/-- Behind `create_file` the name stands for its inode and the others for what they did. -/
theorem ends_createIn (h : Settled u dir) (name : Name) (typ : InodeType) :
    Program.Ends (perform t) (createIn dir name typ) u (fun r v => forall ip, r = some ip ->
      (u.dinodes (u.icache dir).inum).type = InodeType.directory ∧
        Created (u.icache dir).inum (u.data (u.icache dir).inum) name ip v) := by
  apply Program.ends_ite
  · intro _
    apply Program.ends_op
    intro _ v hlock
    rcases h.lock (done_ok hlock) with ⟨hdata, hdinodes, hnumber, hused, href, hcopy, hlocked⟩
    apply Program.ends_op
    intro (parent : CachedInode) w hparent
    cases hparent
    apply Program.ends_op
    intro _ w hassert
    have hdir : (v.icache dir).diskInode.type = InodeType.directory ∧ w = v := by
      by_cases hc : (v.icache dir).diskInode.type = InodeType.directory
      · rw [decide_eq_true hc] at hassert
        cases hassert
        exact ⟨hc, rfl⟩
      · rw [decide_eq_false hc] at hassert
        cases hassert
    rcases hdir with ⟨htype, rfl⟩
    have hdisk : (u.dinodes (u.icache dir).inum).type = InodeType.directory := hcopy ▸ htype
    have hholding : Holding dir (u.icache dir).inum (u.data (u.icache dir).inum) w := by
      refine ⟨hnumber, hused, htype, ?_, ?_, ?_⟩
      · rw [hcopy, href]
        exact h.kept
      · rw [hdinodes]
        exact hdisk
      · rw [hdata]
    apply Program.ends_mono
      (P := fun r x => forall ip, r = some ip ->
        Created (u.icache dir).inum (u.data (u.icache dir).inum) name ip x)
    · cases hfind : findEntry name 0 (u.data (u.icache dir).inum) with
      | none =>
          have hnone : findEntry name 0 (w.data (w.icache dir).inum) = none := by
            rw [hnumber, hdata]
            exact hfind
          apply Program.ends_bind (ends_dirLookup_none hnone)
          intro found x _ hfound
          rcases hfound with ⟨rfl, rfl⟩
          exact ends_createNew hholding hfind typ
      | some entry =>
          rcases entry with ⟨offset, num⟩
          apply Program.ends_bind (ends_dirLookup_some hholding hfind)
          intro found x _ hfound
          rcases hfound with ⟨ip, rfl, hip, hheld, hkeeps⟩
          by_cases hne : ip = dir
          · apply Program.ends_op
            intro _ y hlock2
            rcases inodeLock_ok (done_ok hlock2) with ⟨-, hopen, -⟩
            rw [hheld, hne, hlocked] at hopen
            cases hopen
          · apply ends_createExisting (hkeeps hne) hne
            rw [hfind, hip]
            rfl
    · intro r x hcreated ip hip
      exact ⟨hdisk, hcreated ip hip⟩
  · intro _
    constructor
    intro r v hrun ip hip
    rw [Program.bind_def, Program.exec_bind] at hrun
    rcases bind_ok hrun with ⟨x, -, hlast⟩
    cases hlast
    cases hip

end Parts

/-!
# Lookups keep what is in use
-/

/-- What is in use in `v` was so in `u`, with the same entries. -/
def Lasts (u v : State) : Prop :=
  forall inum, (v.dinodes inum).type ≠ InodeType.none ->
    (u.dinodes inum).type ≠ InodeType.none ∧ v.data inum = u.data inum

theorem Lasts.of_same {u v : State} (hdinodes : v.dinodes = u.dinodes)
    (hdata : v.data = u.data) : Lasts u v := by
  intro inum hused
  rw [hdinodes] at hused
  exact ⟨hused, congrFun hdata inum⟩

theorem Lasts.trans {u v w : State} (h1 : Lasts u v) (h2 : Lasts v w) : Lasts u w := by
  intro inum hused
  rcases h2 inum hused with ⟨hv, hdata2⟩
  rcases h1 inum hv with ⟨hu, hdata1⟩
  exact ⟨hu, hdata2.trans hdata1⟩

section Lasting

variable {t : Nat} {α β : Type}

def Lasting (t : Nat) {α : Type} (p : Code α) : Prop :=
  forall u, Program.Ends (perform t) p u (fun _ v => Lasts u v)

theorem lasting_pure (a : α) : Lasting t (pure a : Code α) :=
  fun _ => Program.ends_pure (Lasts.of_same rfl rfl)

theorem lasting_bind {p : Code α} {f : α -> Code β} (hp : Lasting t p)
    (hf : forall a, Lasting t (f a)) : Lasting t (p >>= f) := by
  intro u
  apply Program.ends_bind (hp u)
  intro a v _ hfirst
  exact Program.ends_mono (hf a v) (fun _ _ hrest => hfirst.trans hrest)

theorem lasting_ite {c : Prop} [Decidable c] {p q : Code α} (hp : Lasting t p)
    (hq : Lasting t q) : Lasting t (if c then p else q) :=
  fun u => Program.ends_ite (fun _ => hp u) (fun _ => hq u)

def Op.cached : Op -> Bool
  | Op.assert _ _ => true
  | Op.cwd => true
  | Op.inode _ => true
  | Op.iget _ => true
  | Op.inodeDup _ => true
  | Op.inodeLock _ => true
  | Op.inodeUnlock _ => true
  | Op.bmap _ _ => true
  | Op.balloc => true
  | Op.dirFind _ _ => true
  | _ => false

theorem perform_cached {o : Op} (h : o.cached = true) {u v : State} {a : o.Answer}
    (hrun : perform t o u = Except.ok (a, v)) : v.dinodes = u.dinodes ∧ v.data = u.data := by
  cases o with
  | assert holds stop =>
      cases holds with
      | true =>
          cases hrun
          exact ⟨rfl, rfl⟩
      | false => cases hrun
  | cwd =>
      cases hrun
      exact ⟨rfl, rfl⟩
  | inode i =>
      cases hrun
      exact ⟨rfl, rfl⟩
  | iget inum =>
      rcases iget_ok hrun with ⟨-, -, rfl⟩ | ⟨-, -, rfl⟩
      · exact ⟨rfl, rfl⟩
      · exact ⟨rfl, rfl⟩
  | inodeDup i =>
      cases hrun
      exact ⟨rfl, rfl⟩
  | inodeLock i =>
      rcases inodeLock_ok (done_ok hrun) with ⟨-, -, ⟨-, rfl⟩ | ⟨-, -, rfl⟩⟩
      · exact ⟨rfl, rfl⟩
      · exact ⟨rfl, rfl⟩
  | inodeUnlock i =>
      rw [inodeUnlock_ok (done_ok hrun)]
      exact ⟨rfl, rfl⟩
  | bmap i blocks =>
      cases hrun
      exact ⟨rfl, rfl⟩
  | balloc =>
      rw [(logWrite_ok (done_ok hrun)).right]
      exact ⟨rfl, rfl⟩
  | dirFind i name =>
      rw [(dirFind_ok hrun).right.right.right]
      exact ⟨rfl, rfl⟩
  | _ => cases h

theorem lasting_op {o : Op} (h : o.cached = true) : Lasting t (op o : Code o.Answer) := by
  intro u
  apply Program.ends_last
  intro a v hrun
  rcases perform_cached h hrun with ⟨hdinodes, hdata⟩
  exact Lasts.of_same hdinodes hdata

theorem lasting_inodePut (i : Nat) : Lasting t (inodePut i) := by
  intro u
  apply Program.ends_op
  intro (frees : Bool) v hstart
  have hv := (putStart_ok hstart).right.right
  have hsame : v.dinodes = u.dinodes ∧ v.data = u.data := by
    rw [hv]
    exact ⟨rfl, rfl⟩
  apply Program.ends_ite
  · intro _
    apply Program.ends_op
    intro _ w htruncate
    apply Program.ends_op
    intro _ x hclear
    apply Program.ends_last
    intro _ y hend
    cases hend
    rw [clearType_ok (done_ok hclear), itruncate_ok (done_ok htruncate)]
    intro inum hused
    change (Function.update (Function.update v.dinodes (v.icache i).inum
      (v.icache i).diskInode) (v.icache i).inum
        { (v.icache i).diskInode with type := InodeType.none } inum).type ≠ _ at hused
    by_cases heq : inum = (v.icache i).inum
    · rw [heq, Function.update_self] at hused
      exact absurd rfl hused
    · rw [Function.update_of_ne heq, Function.update_of_ne heq, hsame.left] at hused
      exact ⟨hused, (Function.update_of_ne heq ..).trans (congrFun hsame.right inum)⟩
  · intro _
    apply Program.ends_last
    intro _ y hend
    cases hend
    exact Lasts.of_same hsame.left hsame.right

theorem lasting_inodeUnlockput (i : Nat) : Lasting t (inodeUnlockput i) :=
  lasting_bind (lasting_op rfl) (fun _ => lasting_inodePut i)

theorem lasting_inodeRead (i : Nat) (blocks : List Dirent -> List Nat) :
    Lasting t (inodeRead i blocks) := by
  apply lasting_bind (lasting_op rfl)
  intro (hole : Bool)
  exact lasting_ite (lasting_op rfl) (lasting_pure ())

theorem lasting_dirLookup (i : Nat) (name : Name) : Lasting t (dirLookup i name) := by
  apply lasting_bind (lasting_op rfl)
  intro found
  apply lasting_bind (lasting_inodeRead i _)
  intro _
  cases found with
  | none => exact lasting_pure none
  | some entry => exact lasting_bind (lasting_op rfl) (fun _ => lasting_pure _)

theorem lasting_walk (nameiparent : Bool) (parent : Nat) (names : List Name) (last : Name) :
    Lasting t (walk nameiparent parent names last) := by
  induction names generalizing parent last with
  | nil =>
      apply lasting_ite
      · exact lasting_bind (lasting_inodePut parent) (fun _ => lasting_pure none)
      · exact lasting_pure _
  | cons name rest ih =>
      have hgone : Lasting t (do
          inodeUnlockput parent
          pure none : Code (Option (Nat × Name))) :=
        lasting_bind (lasting_inodeUnlockput parent) (fun _ => lasting_pure none)
      apply lasting_bind (lasting_op rfl)
      intro _
      apply lasting_bind (lasting_op rfl)
      intro _
      apply lasting_bind (lasting_op rfl)
      intro _
      apply lasting_ite hgone
      apply lasting_ite
      · exact lasting_bind (lasting_op rfl) (fun _ => lasting_pure _)
      · apply lasting_bind (lasting_dirLookup parent name)
        intro found
        cases found with
        | none => exact hgone
        | some entry =>
            exact lasting_bind (lasting_inodeUnlockput parent) (fun _ => ih entry.2 name)

theorem lasting_startAtCwd : Lasting t startAtCwd := by
  apply lasting_bind (lasting_op rfl)
  intro cwd
  cases cwd with
  | none => exact lasting_bind (lasting_op rfl) (fun _ => lasting_pure 0)
  | some i => exact lasting_bind (lasting_op rfl) (fun _ => lasting_pure i)

theorem lasting_pathLookupParent (path : Name) : Lasting t (pathLookupParent path) := by
  have hstart : Lasting t (pathStart path) := by
    cases path with
    | nil => exact lasting_startAtCwd
    | cons c rest => exact lasting_ite (lasting_op rfl) lasting_startAtCwd
  unfold pathLookupParent
  rw [pathLookup0_eq]
  exact lasting_bind hstart (fun parent => lasting_walk true parent _ [])

end Lasting

/-!
# The law of names
-/

/-- What `dir_lookup` finds before it calls `iget`, whoever holds the directory. -/
def Finds (s : State) (inum : Nat) (name : Name) (answer : Option Nat) : Prop :=
  forall u i, u.data = s.data -> (u.icache i).inum = inum -> heldDirectory i u = Except.ok () ->
    exists found, dirFind i name u = Except.ok (found, u) ∧ found.map Prod.snd = answer

theorem finds_entry (s : State) (inum : Nat) {name : Name}
    (h : name.length ≤ direntNameLength) :
    Finds s inum name ((findEntry name 0 (s.data inum)).map Prod.snd) := by
  intro u i hdata hnumber hheld
  refine ⟨findEntry name 0 (s.data inum), ?_, rfl⟩
  unfold dirFind
  rw [hheld, ok_bind, if_pos h, hnumber, hdata]

/-- The name and its NUL fit into the buffers, and a file with that name is found. -/
structure StoredAndFound (name : Name) : Prop where
  pathBuffer : forall path rest, pathSkipelem path = some (name, rest) ->
    forall x, x ∈ skipelemStores path -> x.1 < direntNameLength
  direntBuffer : forall x, x ∈ Dir.strcpyStores 0 name -> x.1 < direntNameLength
  record : forall (s v : Inode.State) i junk inum r, Dir.Listed s i -> inum < s.vol.sb.ninodes ->
    Dir.dirLink i { inum := inum, name := Dir.strcpy junk 0 name } s = Except.ok (r, v) ->
      Not (r < 0) -> Dir.Answers v i name (some inum) ∧
        forall other, pathValidName other = true -> other ≠ name ->
          exists answer, Dir.Answers s i other answer ∧ Dir.Answers v i other answer
  created : forall t s path typ dir u ip v,
    Program.exec (perform t) (pathLookupParent path) s = Except.ok (some (dir, name), u) ->
    Settled u dir ->
    Program.exec (perform t) (createFile path typ) s = Except.ok (some ip, v) ->
      (v.dinodes (u.icache dir).inum).type = InodeType.directory ∧
        Finds v (u.icache dir).inum name (some (v.icache ip).inum) ∧
        forall other, pathValidName other = true -> other ≠ name ->
          exists answer, Finds s (u.icache dir).inum other answer ∧
            Finds v (u.icache dir).inum other answer

theorem createFile_finds {name : Name} (hlen : name.length ≤ direntNameLength)
    {t : Nat} {s u v : State} {path : Name} {typ : InodeType} {dir ip : Nat}
    (hlookup : Program.exec (perform t) (pathLookupParent path) s =
      Except.ok (some (dir, name), u)) (hsettled : Settled u dir)
    (hcreate : Program.exec (perform t) (createFile path typ) s = Except.ok (some ip, v)) :
    (v.dinodes (u.icache dir).inum).type = InodeType.directory ∧
      Finds v (u.icache dir).inum name (some (v.icache ip).inum) ∧
      forall other, pathValidName other = true -> other ≠ name ->
        exists answer, Finds s (u.icache dir).inum other answer ∧
          Finds v (u.icache dir).inum other answer := by
  rw [createFile_eq, Program.exec_bind_ok hlookup] at hcreate
  rcases (ends_createIn hsettled name typ).run (some ip) v hcreate ip rfl with
    ⟨hdisk, hcreated⟩
  have hlasts : Lasts s u := (lasting_pathLookupParent path s).run _ u hlookup
  have hused : (u.dinodes (u.icache dir).inum).type ≠ InodeType.none := by
    rw [hdisk]
    decide
  have hdata := (hlasts _ hused).right
  refine ⟨hcreated.directory, ?_, ?_⟩
  · rw [<- hcreated.self]
    exact finds_entry v _ hlen
  · intro other hother hdiffers
    have hfits := (pathValidName_fits hother).length
    refine ⟨_, finds_entry s (u.icache dir).inum hfits, ?_⟩
    rw [<- hdata, <- hcreated.others other hdiffers]
    exact finds_entry v _ hfits

/--
An accepted name can be stored and found exactly if it leaves room for its NUL;
`path_valid_name` also accepts names of `DIRENT_NAME_LENGTH` bytes.
-/
theorem accepted_names_stored_iff {name : Name} (h : pathValidName name = true) :
    StoredAndFound name <-> name.length < direntNameLength := by
  have hfits := pathValidName_fits h
  constructor
  · intro hstored
    exact (Dir.strcpyStores_inside_iff name).mp hstored.direntBuffer
  · intro hlt
    constructor
    · intro path rest helem
      exact (skipelemStores_inside_iff helem).mpr hlt
    · exact (Dir.strcpyStores_inside_iff name).mpr hlt
    · intro s v i junk inum r hlisted hin hrun hr
      rcases Dir.dirLink_answers hlisted hfits (pathValidName_ne_nil h) hlt hin hrun hr with
        ⟨hself, hothers⟩
      exact ⟨hself, fun other hother => hothers other (pathValidName_fits hother)⟩
    · intro t s path typ dir u ip v hlookup hsettled hcreate
      exact createFile_finds hfits.length hlookup hsettled hcreate

theorem accepted_names_stored_iff_a : StoredAndFound [97] :=
  (accepted_names_stored_iff (by decide : pathValidName [97] = true)).mpr (by decide)

/-- The longest name that is accepted: its NUL is stored behind the buffers. -/
theorem longest_name_not_stored :
    pathValidName longName = true ∧ (direntNameLength, 0) ∈ Dir.strcpyStores 0 longName ∧
      (direntNameLength, 0) ∈ skipelemStores longName ∧ Not (StoredAndFound longName) := by
  refine ⟨by decide, by decide, by decide, ?_⟩
  intro hstored
  have hlt := (Dir.strcpyStores_inside_iff longName).mp hstored.direntBuffer
  exact absurd hlt (by decide)

end Syscall
end Fs
end NicoOS
