import NicoOS.Fs.Syscall.ForestCalls
import NicoOS.Fs.Syscall.CreateFile

/-!
# Calls that change the forest

`create_file` enters a new inode in a directory that is in the tree, and `sys_unlink` removes
an empty one that no removed directory names.
-/

namespace NicoOS
namespace Fs
namespace Syscall

open Lib
open Program (op Ends ends_op ends_pure ends_last ends_bind ends_mono ends_ite)
open Inode (InodeType nicache)

/-!
# The entry that `dir_link` stores
-/

section Stored

variable {e f : Dirent} {entries : List Dirent}

theorem freeEntry_cons (first : Dirent) (rest : List Dirent) :
    freeEntry 0 (first :: rest) = if first.inum = 0 then 0 else freeEntry 0 rest + 1 := by
  rw [freeEntry, freeEntry_eq, Nat.add_comm]

theorem freeEntry_le (entries : List Dirent) : freeEntry 0 entries ≤ entries.length := by
  induction entries with
  | nil => exact Nat.le_refl 0
  | cons first rest ih =>
      rw [freeEntry_cons, List.length_cons]
      split
      · exact Nat.zero_le _
      · exact Nat.succ_le_succ ih

theorem freeEntry_unused (h : entries[freeEntry 0 entries]? = some f) : f.inum = 0 := by
  induction entries with
  | nil => cases h
  | cons first rest ih =>
      rw [freeEntry_cons] at h
      split at h
      · rename_i hfree
        rw [List.getElem?_cons_zero] at h
        rw [← Option.some.inj h]
        exact hfree
      · rw [List.getElem?_cons_succ] at h
        exact ih h

theorem getElem?_stored_self (e : Dirent) (entries : List Dirent) :
    (stored e entries)[freeEntry 0 entries]? = some e := by
  induction entries with
  | nil => rfl
  | cons first rest ih =>
      rw [freeEntry_cons, stored]
      split
      · rfl
      · rw [List.getElem?_cons_succ]
        exact ih

theorem getElem?_stored_other (e : Dirent) {j : Nat} (h : j ≠ freeEntry 0 entries) :
    (stored e entries)[j]? = entries[j]? := by
  induction entries generalizing j with
  | nil =>
      cases j with
      | zero => exact absurd rfl h
      | succ j => rfl
  | cons first rest ih =>
      rw [freeEntry_cons] at h
      rw [stored]
      split
      · rename_i hfree
        rw [if_pos hfree] at h
        cases j with
        | zero => exact absurd rfl h
        | succ j => rfl
      · rename_i hused
        rw [if_neg hused] at h
        cases j with
        | zero => rfl
        | succ j =>
            rw [List.getElem?_cons_succ, List.getElem?_cons_succ]
            exact ih (fun heq => h (congrArg Nat.succ heq))

theorem Forest.two_le_freeEntry {tr : Tree} {home : Nat -> Option Nat} {rank : Nat -> Nat}
    {d : Nat} (h : Forest tr home rank) (hdir : (tr.dinodes d).type = InodeType.directory) :
    2 ≤ freeEntry 0 (tr.data d) := by
  have hused : forall {j}, (tr.dinodes j).type = InodeType.directory -> j ≠ 0 := by
    intro j hj
    have hpos := (h.inside j (by rw [hj]; exact InodeType.noConfusion)).left
    exact Nat.ne_of_gt hpos
  rcases h.dots d hdir with ⟨p, hdots⟩
  by_contra hlt
  have hcases : freeEntry 0 (tr.data d) = 0 ∨ freeEntry 0 (tr.data d) = 1 := by lia
  rcases hcases with hzero | hone
  · have hself := hdots.self
    rw [← hzero] at hself
    exact hused hdir (freeEntry_unused hself)
  · have hparent := hdots.parent
    rw [← hone] at hparent
    exact hused hdots.directory (freeEntry_unused hparent)

end Stored

/-- `dir_link` of a free name always stores it in a table that is not full. -/
theorem ends_dirLink_room {t i : Nat} {u : State} {e : Dirent}
    (hnone : findEntry e.name 0 (u.data (u.icache i).inum) = none)
    (hroom : (u.data (u.icache i).inum).length < maxDirents) :
    Ends (perform t) (dirLink i e) u (fun linked v => linked = true ∧
      v = u.setData (u.icache i).inum (stored e (u.data (u.icache i).inum))) := by
  apply ends_bind (ends_dirLookup_none hnone)
  intro found v _ hfound
  rcases hfound with ⟨rfl, rfl⟩
  apply ends_last
  intro (linked : Bool) w hadd
  have hle := freeEntry_le (v.data (v.icache i).inum)
  rcases writeDirent_ok (dirAdd_ok hadd) with
    ⟨-, -, hout, hfull⟩ | ⟨hlinked, ⟨hin, hw⟩ | ⟨hend, hw⟩⟩
  · exact absurd ⟨by lia, by lia⟩ hfull
  · rw [set_freeEntry e hin] at hw
    exact ⟨hlinked, hw⟩
  · rw [append_freeEntry e hend] at hw
    exact ⟨hlinked, hw⟩

/-!
# A directory and an inode are changed
-/

/-- The directory `d` at place `dir` and the inode `n` at place `ip` differ, also on the disk. -/
structure Edited (u v : State) (dir ip d n : Nat) : Prop where
  ninodes : v.ninodes = u.ninodes
  dinodes : forall j, j ≠ n -> j ≠ d -> v.dinodes j = u.dinodes j
  data : forall j, j ≠ n -> j ≠ d -> v.data j = u.data j
  dirPlace : v.icache dir = { u.icache dir with diskInode := v.dinodes d }
  inum : (v.icache ip).inum = n
  copy : (v.icache ip).diskInode = v.dinodes n
  icache : forall j, j ≠ ip -> j ≠ dir -> v.icache j = u.icache j

section Edited

variable {home home' : Nat -> Option Nat} {rank rank' : Nat -> Nat} {t dir ip d n : Nat}
  {u v : State}

theorem Edited.orderly (h : Edited u v dir ip d n) (hu : Orderly home rank u)
    (hd : (u.icache dir).inum = d) (href : 0 < (u.icache dir).ref) (hip : ip < nicache)
    (halone : forall j, j ≠ ip -> 0 < (u.icache j).ref -> (u.icache j).inum ≠ n)
    (hforest : Forest v.tree home' rank')
    (hntype : (v.dinodes n).type ≠ InodeType.none)
    (hdtype : (v.dinodes d).type ≠ InodeType.none) : Orderly home' rank' v := by
  -- A place in use is that of the inode, or it was there with the same inode.
  have hcases : forall j, 0 < (v.icache j).ref -> j = ip ∨
      (j ≠ ip ∧ 0 < (u.icache j).ref ∧ (v.icache j).inum = (u.icache j).inum ∧
        (u.icache j).inum ≠ n) := by
    intro j hj
    cases Classical.em (j = ip) with
    | inl heq => exact Or.inl heq
    | inr hne =>
        right
        have hsame : (v.icache j).ref = (u.icache j).ref ∧
            (v.icache j).inum = (u.icache j).inum := by
          cases Classical.em (j = dir) with
          | inl heq =>
              rw [heq, h.dirPlace]
              exact ⟨rfl, rfl⟩
          | inr hother =>
              rw [h.icache j hne hother]
              exact ⟨rfl, rfl⟩
        rw [hsame.left] at hj
        exact ⟨hne, hj, hsame.right, halone j hne hj⟩
  refine ⟨hforest, ⟨?_, ?_, ?_⟩, ?_⟩
  · intro j hj
    rcases hcases j hj with heq | ⟨-, hold, -⟩
    · rw [heq]
      exact hip
    · exact hu.cache.inside j hold
  · intro j k hj hk heq
    rcases hcases j hj with hji | ⟨-, hjold, hjnum, hjn⟩
    · rcases hcases k hk with hki | ⟨-, -, hknum, hkn⟩
      · exact hji.trans hki.symm
      · rw [hji, h.inum, hknum] at heq
        exact absurd heq.symm hkn
    · rcases hcases k hk with hki | ⟨-, hkold, hknum, -⟩
      · rw [hki, h.inum, hjnum] at heq
        exact absurd heq hjn
      · rw [hjnum, hknum] at heq
        exact hu.cache.distinct j k hjold hkold heq
  · intro j hj hvalid
    rcases hcases j hj with heq | ⟨hne, hold, hnum, hjn⟩
    · rw [heq, h.copy, h.inum]
    · cases Classical.em (j = dir) with
      | inl heq =>
          rw [heq, h.dirPlace]
          exact congrArg v.dinodes hd.symm
      | inr hother =>
          have hjd : (u.icache j).inum ≠ d := by
            intro heq
            exact hother (hu.cache.distinct j dir hold href (heq.trans hd.symm))
          rw [h.icache j hne hother] at hvalid ⊢
          rw [h.dinodes _ hjn hjd]
          exact hu.cache.coherent j hold hvalid
  · intro j hj
    rcases hcases j hj with heq | ⟨hne, hold, hnum, hjn⟩
    · rw [heq, h.inum]
      exact hntype
    · rw [hnum]
      cases Classical.em ((u.icache j).inum = d) with
      | inl heq =>
          rw [heq]
          exact hdtype
      | inr hjd =>
          rw [h.dinodes _ hjn hjd]
          exact hu.typed j hold

end Edited

/-!
# `create_file`
-/

def newPlace (num : Nat) (typ : InodeType) : CachedInode :=
  { inum := num, ref := 1, locked := true, valid := true, diskInode := { type := typ, nlink := 1 } }

/-- A new inode with one link, before it is entered. -/
def withNew (u : State) (ip num : Nat) (typ : InodeType) : State :=
  ((u.setDinode num { type := typ, nlink := 1 }).clear num).setInode ip (newPlace num typ)

/-- A directory that is in the tree is held for a new entry. -/
structure Enters (home : Nat -> Option Nat) (rank : Nat -> Nat) (u : State) (dir d : Nat)
    (name : Name) : Prop where
  orderly : Orderly home rank u
  number : (u.icache dir).inum = d
  used : 0 < (u.icache dir).ref
  copy : (u.icache dir).diskInode = u.dinodes d
  directory : (u.dinodes d).type = InodeType.directory
  inTree : InTree home d
  free : findEntry name 0 (u.data d) = none
  not_dot : name ≠ dotName
  not_dotdot : name ≠ dotdotName

/-- A free inode at a new place, behind `inode_alloc` and `iget`. -/
structure Opens (u : State) (dir ip d num : Nat) : Prop where
  free : (u.dinodes num).type = InodeType.none
  inside : 0 < num ∧ num < u.ninodes
  apart : num ≠ d
  place : ip ≠ dir
  table : ip < nicache
  alone : forall j, 0 < (u.icache j).ref -> (u.icache j).inum ≠ num

/-- The entry is stored; a directory has its first entries, and its parent one more link. -/
structure Entered (u v : State) (dir ip d num : Nat) (name : Name) (typ : InodeType) :
    Prop extends Edited u v dir ip d num where
  newType : v.dinodes num = { type := typ, nlink := 1 }
  dirType : v.dinodes d = { u.dinodes d with
    nlink := (u.dinodes d).nlink + if typ = InodeType.directory then 1 else 0 }
  newData : typ = InodeType.directory -> v.data num = firstEntries num d
  dirData : v.data d = stored { inum := num, name := name } (u.data d)

section Create

variable {home : Nat -> Option Nat} {rank : Nat -> Nat} {t dir ip d num : Nat} {u v : State}
  {name : Name} {typ : InodeType}

theorem Entered.orderly (h : Entered u v dir ip d num name typ)
    (henters : Enters home rank u dir d name)
    (hopens : Opens u dir ip d num) (htyp : typ ≠ InodeType.none) :
    Orderly (Function.update home num (some d)) (Function.update rank num (rank d + 1)) v := by
  have hforest := henters.orderly.forest
  have hntype : (v.dinodes num).type = typ := congrArg Dinode.type h.newType
  have hdtype : (v.dinodes d).type = InodeType.directory := by
    rw [h.dirType]
    exact henters.directory
  have hgrown : Grown u.tree v.tree d num (freeEntry 0 (u.data d)) name typ := by
    have hdir : v.tree.data d = stored { inum := num, name := name } (u.data d) := h.dirData
    constructor
    · exact h.ninodes
    · exact h.newType
    · exact h.dirType
    · exact h.dinodes
    · exact h.newData
    · rw [hdir]
      exact getElem?_stored_self _ _
    · intro l hl
      rw [hdir]
      exact getElem?_stored_other _ hl
    · exact h.data
  have hlinked := hforest.grown hgrown (hforest.two_le_freeEntry henters.directory)
    (fun _ hf => freeEntry_unused hf) henters.not_dot henters.not_dotdot henters.directory
    henters.inTree hopens.free hopens.inside htyp
  exact h.toEdited.orderly henters.orderly henters.number henters.used hopens.table
    (fun j _ hj => hopens.alone j hj) hlinked (by rw [hntype]; exact htyp)
    (by rw [hdtype]; exact InodeType.noConfusion)

theorem Opens.abandon (hopens : Opens u dir ip d num) (henters : Enters home rank u dir d name)
    (hninodes : v.ninodes = u.ninodes) (hgone : (v.dinodes num).type = InodeType.none)
    (hdinodes : forall j, j ≠ num -> v.dinodes j = u.dinodes j)
    (hdata : forall j, j ≠ num -> v.data j = u.data j) (hplace : (v.icache ip).ref = 0)
    (hicache : forall j, j ≠ ip -> v.icache j = u.icache j) : Orderly home rank v := by
  have hu := henters.orderly
  have hlive : forall j, 0 < (v.icache j).ref ->
      v.icache j = u.icache j ∧ 0 < (u.icache j).ref ∧
        v.dinodes (u.icache j).inum = u.dinodes (u.icache j).inum := by
    intro j hj
    have hne : j ≠ ip := by
      intro heq
      rw [heq, hplace] at hj
      cases hj
    rw [hicache j hne] at hj
    exact ⟨hicache j hne, hj, hdinodes _ (hopens.alone j hj)⟩
  constructor
  · let middle : Tree :=
      { ninodes := u.ninodes
        dinodes := Function.update u.dinodes num { type := InodeType.file, nlink := 0 }
        data := u.data }
    have hadded : Added u.tree middle d num InodeType.file := by
      constructor
      · rfl
      · exact congrArg Dinode.type (Function.update_self num _ u.dinodes)
      · exact congrArg Dinode.nlink (Function.update_self num _ u.dinodes)
      · intro hdir
        cases hdir
      · exact fun j hj => Function.update_of_ne hj ..
      · exact fun j _ => rfl
    have hfreed : Freed middle v.tree num := by
      constructor
      · exact hninodes
      · exact hgone
      · exact fun j hj => (hdinodes j hj).trans (hadded.dinodes j hj).symm
      · exact hdata
    have hmiddle := (hu.forest.added hadded hopens.free hopens.inside henters.directory
      henters.inTree).left
    apply hmiddle.freed hfreed _ hadded.nlink
    rw [hadded.type]
    exact InodeType.noConfusion
  · constructor
    · exact fun j hj => hu.cache.inside j (hlive j hj).right.left
    · intro j k hj hk heq
      rcases hlive j hj with ⟨hjsame, hj, -⟩
      rcases hlive k hk with ⟨hksame, hk, -⟩
      rw [hjsame, hksame] at heq
      exact hu.cache.distinct j k hj hk heq
    · intro j hj hvalid
      rcases hlive j hj with ⟨hsame, hj, hdinode⟩
      rw [hsame] at hvalid ⊢
      rw [hdinode]
      exact hu.cache.coherent j hj hvalid
  · intro j hj
    rcases hlive j hj with ⟨hsame, hj, hdinode⟩
    rw [hsame, hdinode]
    exact hu.typed j hj

/-- The new inode has its entry. -/
def withEntry (u : State) (ip d num : Nat) (name : Name) (typ : InodeType) : State :=
  (withNew u ip num typ).setData d (stored { inum := num, name := name } (u.data d))

/-- The new directory has its first entries, and its parent one more link. -/
def withDots (u : State) (dir d num : Nat) : State :=
  let parent := u.icache dir
  let linked := { parent.diskInode with nlink := parent.diskInode.nlink + 1 }
  ((u.setData num (firstEntries num d)).setInode dir { parent with diskInode := linked }).setDinode
    d linked

theorem ends_dirMake_new (hip : u.icache ip = newPlace num typ) (hdir : (u.icache dir).inum = d)
    (hnew : u.data num = []) (hnum : num ≠ 0) :
    Ends (perform t) (dirMake dir ip) u (fun _ v => v = withDots u dir d num) := by
  have hinum : (u.icache ip).inum = num := congrArg CachedInode.inum hip
  apply ends_op
  intro (found : CachedInode) v hinode
  cases hinode
  have hdot : findEntry dotName 0 (u.data (u.icache ip).inum) = none := by
    rw [hinum, hnew]
    rfl
  have hroom : (u.data (u.icache ip).inum).length < maxDirents := by
    rw [hinum, hnew]
    decide
  apply ends_bind (ends_dirLink_room (e := { inum := (u.icache ip).inum, name := dotName })
    hdot hroom)
  intro linked v1 _ hlinked
  rcases hlinked with ⟨rfl, hv1⟩
  rw [hinum, hnew] at hv1
  have hv1ip : (v1.icache ip).inum = num := by
    rw [hv1]
    exact hinum
  have hv1dir : v1.icache dir = u.icache dir := by
    rw [hv1]
    rfl
  have hv1data : v1.data num = [{ inum := num, name := dotName }] := by
    rw [hv1]
    exact Function.update_self ..
  apply ends_op
  intro (pp : CachedInode) v hparent
  cases hparent
  have hdotdot : findEntry dotdotName 0 (v1.data (v1.icache ip).inum) = none := by
    rw [hv1ip, hv1data]
    exact if_neg (fun hboth => dotName_ne_dotdotName hboth.right)
  have hroom1 : (v1.data (v1.icache ip).inum).length < maxDirents := by
    rw [hv1ip, hv1data]
    show 1 < maxDirents
    decide
  apply ends_bind (ends_dirLink_room
    (e := { inum := (v1.icache dir).inum, name := dotdotName }) hdotdot hroom1)
  intro linked v2 _ hlinked
  rcases hlinked with ⟨rfl, hv2⟩
  have htable : stored { inum := d, name := dotdotName } [{ inum := num, name := dotName }] =
      firstEntries num d := if_neg hnum
  rw [hv1ip, hv1data, hv1dir, hdir, htable] at hv2
  have hv2dir : v2.icache dir = u.icache dir := by
    rw [hv2]
    exact hv1dir
  apply ends_op
  intro _ v3 hlink
  cases hlink
  apply ends_last
  intro _ v4 hupdate
  rw [inodeUpdate_ok (done_ok hupdate), setInode_self, hv2dir, hv1dir, hdir, hv2, hv1]
  unfold withDots
  simp only [State.setData, State.setInode, State.setDinode, Function.update_idem, hdir]

theorem entered_file (henters : Enters home rank u dir d name) (hopens : Opens u dir ip d num)
    (htyp : typ ≠ InodeType.directory) :
    Entered u (withEntry u ip d num name typ) dir ip d num name typ := by
  have hdir : (withEntry u ip d num name typ).icache dir = u.icache dir :=
    setInode_of_ne _ hopens.place.symm
  have hip : (withEntry u ip d num name typ).icache ip = newPlace num typ := setInode_self _
  have hdinode : (withEntry u ip d num name typ).dinodes d = u.dinodes d :=
    Function.update_of_ne hopens.apart.symm ..
  have hnew : (withEntry u ip d num name typ).dinodes num = { type := typ, nlink := 1 } :=
    Function.update_self ..
  constructor
  · constructor
    · rfl
    · exact fun j hjn _ => Function.update_of_ne hjn ..
    · exact fun j hjn hjd =>
        (Function.update_of_ne hjd ..).trans (Function.update_of_ne hjn ..)
    · rw [hdir, hdinode, ← henters.copy]
    · rw [hip]
      rfl
    · rw [hip, hnew]
      rfl
    · exact fun j hjip _ => setInode_of_ne _ hjip
  · exact hnew
  · rw [hdinode, if_neg htyp, Nat.add_zero]
  · exact fun hdirectory => absurd hdirectory htyp
  · exact Function.update_self ..

theorem entered_directory (henters : Enters home rank u dir d name)
    (hopens : Opens u dir ip d num) (htyp : typ = InodeType.directory) :
    Entered u (withDots (withEntry u ip d num name typ) dir d num) dir ip d num name typ := by
  have hapart := hopens.apart
  generalize hv : withDots (withEntry u ip d num name typ) dir d num = v
  have hdir : (withEntry u ip d num name typ).icache dir = u.icache dir :=
    setInode_of_ne _ hopens.place.symm
  unfold withDots at hv
  dsimp only at hv
  rw [hdir, henters.copy] at hv
  have hdinode : v.dinodes d = { u.dinodes d with nlink := (u.dinodes d).nlink + 1 } := by
    rw [← hv]
    exact Function.update_self ..
  have hnew : v.dinodes num = { type := typ, nlink := 1 } := by
    rw [← hv]
    exact (Function.update_of_ne hapart ..).trans (Function.update_self ..)
  have hip : v.icache ip = newPlace num typ := by
    rw [← hv]
    exact (setInode_of_ne _ hopens.place).trans (setInode_self _)
  constructor
  · constructor
    · rw [← hv]
      rfl
    · intro j hjn hjd
      rw [← hv]
      exact (Function.update_of_ne hjd ..).trans (Function.update_of_ne hjn ..)
    · intro j hjn hjd
      rw [← hv]
      exact (Function.update_of_ne hjn ..).trans
        ((Function.update_of_ne hjd ..).trans (Function.update_of_ne hjn ..))
    · rw [hdinode, ← hv]
      exact setInode_self _
    · rw [hip]
      rfl
    · rw [hip, hnew]
      rfl
    · intro j hjip hjdir
      rw [← hv]
      exact (setInode_of_ne _ hjdir).trans (setInode_of_ne _ hjip)
  · exact hnew
  · rw [hdinode, if_pos htyp]
  · intro _
    rw [← hv]
    exact Function.update_self ..
  · rw [← hv]
    exact (Function.update_of_ne hapart.symm ..).trans (Function.update_self ..)

/-- `create_file` fills in the new inode, whose entry is stored. -/
theorem ends_createEntries (henters : Enters home rank u dir d name)
    (hopens : Opens u dir ip d num) :
    Ends (perform t) (createEntries dir ip typ) (withEntry u ip d num name typ)
      (fun _ v => Entered u v dir ip d num name typ) := by
  apply ends_ite
  · intro htyp
    have hip : (withEntry u ip d num name typ).icache ip = newPlace num typ := setInode_self _
    have hdir : ((withEntry u ip d num name typ).icache dir).inum = d :=
      (congrArg CachedInode.inum (setInode_of_ne _ hopens.place.symm)).trans henters.number
    have hnew : (withEntry u ip d num name typ).data num = [] :=
      (Function.update_of_ne hopens.apart ..).trans (Function.update_self ..)
    apply ends_mono (ends_dirMake_new hip hdir hnew (Nat.ne_of_gt hopens.inside.left))
    intro _ v hv
    rw [hv]
    exact entered_directory henters hopens htyp
  · intro htyp
    exact ends_pure (entered_file henters hopens htyp)

theorem orderly_createNew (henters : Enters home rank u dir d name)
    (htyp : typ ≠ InodeType.none) :
    Ends (perform t) (createNew dir name typ) u (fun _ v =>
      exists home' rank', Orderly home' rank' v) := by
  have hu := henters.orderly
  apply ends_op
  intro (num : Nat) v halloc
  rcases inodeAlloc_ok halloc with ⟨hpos, hlt, hfree, hv⟩
  have halone : forall j, 0 < (u.icache j).ref -> (u.icache j).inum ≠ num := by
    intro j hj heq
    have htype := hu.typed j hj
    rw [heq] at htype
    exact htype hfree
  apply ends_op
  intro (ip : Nat) w hget
  have hv' : v.icache = u.icache := by
    rw [hv]
    rfl
  rcases iget_ok hget with ⟨href, hinum, -⟩ | ⟨hempty, -, hw⟩
  · rw [hv'] at href hinum
    exact absurd hinum (halone ip href)
  rw [hv'] at hempty
  have hopens : Opens u dir ip d num := by
    refine ⟨hfree, ⟨hpos, hlt⟩, ?_, ?_, iget_lt hget, halone⟩
    · intro heq
      rw [heq, henters.directory] at hfree
      cases hfree
    · intro heq
      have hused := henters.used
      rw [← heq, hempty] at hused
      cases hused
  apply ends_op
  intro _ x hlock
  rcases inodeLock_ok (done_ok hlock) with ⟨-, -, ⟨hvalid, -⟩ | ⟨-, -, hx⟩⟩
  · rw [hw, setInode_self] at hvalid
    cases hvalid
  apply ends_op
  intro _ y hlink
  cases hlink
  apply ends_op
  intro _ z hupdate
  have hz : z = withNew u ip num typ := by
    rw [inodeUpdate_ok (done_ok hupdate), hx, hw, hv]
    simp only [withNew, newPlace, State.setInode, State.setDinode, State.clear,
      Function.update_self, Function.update_idem]
  rw [hz]
  have hzdir : (withNew u ip num typ).icache dir = u.icache dir :=
    setInode_of_ne _ hopens.place.symm
  have hzip : (withNew u ip num typ).icache ip = newPlace num typ := setInode_self _
  have hzdata : (withNew u ip num typ).data d = u.data d :=
    Function.update_of_ne hopens.apart.symm ..
  have hnone : findEntry name 0 ((withNew u ip num typ).data
      ((withNew u ip num typ).icache dir).inum) = none := by
    rw [hzdir, henters.number, hzdata]
    exact henters.free
  apply ends_bind (ends_dirLink (e := { inum := num, name := name }) hnone)
  intro linked y _ hlinked
  rw [hzdir, henters.number, hzdata] at hlinked
  rcases hlinked with ⟨rfl, rfl⟩ | ⟨rfl, rfl⟩
  · apply ends_bind (ends_createEntries henters hopens)
    intro _ y _ hentered
    have hend : Gentle t (op (Op.inodeUnlock ip) >>= fun _ => inodeUnlockput dir >>= fun _ =>
        (pure (some ip) : Code (Option Nat))) :=
      gentle_bind (gentle_inodeUnlock ip)
        (fun _ => gentle_bind (gentle_inodeUnlockput dir) (fun _ => gentle_pure _))
    apply ends_mono (hend _ _ y (hentered.orderly henters hopens htyp))
    exact fun _ w hw => ⟨_, _, hw⟩
  · apply ends_op
    intro _ y hlink
    cases hlink
    apply ends_bind
    · -- The inode has no links in the cache only, and `inode_put` stores that.
      apply ends_op
      intro _ y hunlock
      have hy := inodeUnlock_ok (done_ok hunlock)
      apply ends_mono (ends_inodePut t ip none y)
      intro _ w hboth
      rcases hboth with ⟨-, ⟨hnot, -⟩ | ⟨-, -, -, hw⟩⟩
      · exfalso
        apply hnot
        rw [hy, setInode_self, setInode_self, hzip]
        exact ⟨rfl, rfl, rfl⟩
      · have hplace : (y.icache ip).inum = num := by
          rw [hy, setInode_self, setInode_self, hzip]
          rfl
        rw [hplace] at hw
        have horderly : Orderly home rank w := by
          apply hopens.abandon henters
          · rw [hw, hy]
            rfl
          · rw [hw]
            show (Function.update y.dinodes num _ num).type = _
            rw [Function.update_self]
          · intro j hj
            rw [hw, hy]
            exact (Function.update_of_ne hj ..).trans (Function.update_of_ne hj ..)
          · intro j hj
            rw [hw, hy]
            exact (Function.update_of_ne hj ..).trans (Function.update_of_ne hj ..)
          · rw [hw, release, setInode_self]
          · intro j hj
            rw [hw, hy]
            exact (setInode_of_ne _ hj).trans ((setInode_of_ne _ hj).trans
              ((setInode_of_ne _ hj).trans (setInode_of_ne _ hj)))
        exact horderly
    · intro _ w _ hw
      have hend : Gentle t (inodeUnlockput dir >>= fun _ => (pure none : Code (Option Nat))) :=
        gentle_bind (gentle_inodeUnlockput dir) (fun _ => gentle_pure _)
      exact ends_mono (hend home rank w hw) (fun _ x hx => ⟨home, rank, hx⟩)

end Create

/-!
# `sys_unlink`
-/

/-- An entry is found in a directory that is held, and its inode is at the place `ip`. -/
structure Removes (home : Nat -> Option Nat) (rank : Nat -> Nat) (u : State) (parent ip d n : Nat)
    (k : Nat) (name : Name) : Prop where
  orderly : Orderly home rank u
  number : (u.icache parent).inum = d
  used : 0 < (u.icache parent).ref
  copy : (u.icache parent).diskInode = u.dinodes d
  entry : u.tree.Entry d k { inum := n, name := name }
  not_dot : name ≠ dotName
  not_dotdot : name ≠ dotdotName
  inum : (u.icache ip).inum = n
  unnamed : ((u.data n).drop 2).all (fun e => decide (e.inum = 0)) = true ->
    forall c, (u.dinodes c).type = InodeType.directory -> Dots u.tree home c n -> InTree home c

/-- The directory behind the changes of its links. -/
structure DropsDotdot (u v : State) (parent d : Nat) (drop : Nat) : Prop where
  ninodes : v.ninodes = u.ninodes
  data : v.data = u.data
  dinode : v.dinodes d = { u.dinodes d with nlink := (u.dinodes d).nlink - drop }
  dinodes : forall j, j ≠ d -> v.dinodes j = u.dinodes j
  place : v.icache parent = { u.icache parent with diskInode := v.dinodes d }
  icache : forall j, j ≠ parent -> v.icache j = u.icache j

section Unlink

variable {home : Nat -> Option Nat} {rank : Nat -> Nat} {t parent ip d n k : Nat} {u v : State}
  {name : Name}

theorem Removes.home_eq (h : Removes home rank u parent ip d n k name) :
    2 ≤ k ∧ home n = some d := by
  rcases h.orderly.forest.entry_cases h.entry with ⟨-, heq⟩ | ⟨-, p, heq, -⟩ | ⟨hk, hhome, -⟩
  · exact absurd (congrArg Dirent.name heq) h.not_dot
  · exact absurd (congrArg Dirent.name heq) h.not_dotdot
  · exact ⟨hk, hhome⟩

theorem Removes.apart (h : Removes home rank u parent ip d n k name) : n ≠ d := by
  intro heq
  have hlt := h.orderly.forest.rank n d h.home_eq.right
  rw [heq] at hlt
  exact Nat.lt_irrefl _ hlt

theorem Removes.place (h : Removes home rank u parent ip d n k name) : ip ≠ parent := by
  intro heq
  have hnumber := h.number
  rw [← heq, h.inum] at hnumber
  exact h.apart hnumber

theorem ends_unlinkAllowed (ip : Nat) (isDir : Bool) (u : State) :
    Ends (perform t) (unlinkAllowed ip isDir) u (fun empty v => v = u ∧
      (empty = true -> isDir = true ->
        ((u.data (u.icache ip).inum).drop 2).all (fun e => decide (e.inum = 0)) = true)) := by
  cases isDir with
  | false => exact ends_pure ⟨rfl, fun _ hdir => by cases hdir⟩
  | true =>
      apply ends_op
      intro (empty : Bool) v hrun
      rcases dirIsempty_ok hrun with ⟨hempty, hv⟩
      exact ends_inodeRead (ends_pure ⟨hv, fun hyes _ => hempty.symm.trans hyes⟩)

theorem ends_dropDotdot (isDir : Bool) (hd : (u.icache parent).inum = d)
    (hcopy : (u.icache parent).diskInode = u.dinodes d) :
    Ends (perform t) (dropDotdot parent isDir) u (fun _ v =>
      DropsDotdot u v parent d (if isDir = true then 1 else 0)) := by
  subst hd
  cases isDir with
  | false =>
      apply ends_pure
      exact ⟨rfl, rfl, rfl, fun _ _ => rfl, by rw [← hcopy], fun _ _ => rfl⟩
  | true =>
      apply ends_op
      intro (pp : CachedInode) v hinode
      cases hinode
      apply ends_op
      intro _ w hlink
      cases hlink
      apply ends_last
      intro _ x hupdate
      have hx := inodeUpdate_ok (done_ok hupdate)
      rw [setInode_self, hcopy] at hx
      have hdinode : x.dinodes (u.icache parent).inum =
          { u.dinodes (u.icache parent).inum with
            nlink := (u.dinodes (u.icache parent).inum).nlink - 1 } := by
        rw [hx]
        exact Function.update_self ..
      constructor
      · rw [hx]
        rfl
      · rw [hx]
        rfl
      · exact hdinode
      · intro j hj
        rw [hx]
        exact Function.update_of_ne hj ..
      · rw [hdinode, hx]
        exact setInode_self _
      · intro j hj
        rw [hx]
        exact setInode_of_ne _ hj

/-- The inode of the entry is locked, and nothing else changes. -/
theorem Removes.lock (h : Removes home rank u parent ip d n k name)
    (hlock : inodeLock ip u = Except.ok v) :
    Removes home rank v parent ip d n k name ∧ 0 < (v.icache ip).ref ∧
      (v.icache ip).diskInode = v.dinodes n := by
  rcases h.orderly.lock hlock with ⟨href, -, hv, heq⟩
  have hvip : v.icache ip = { u.icache ip with
      locked := true
      valid := true
      diskInode := u.dinodes n } := by
    rw [heq, setInode_self, h.inum]
  have hvparent : v.icache parent = u.icache parent := by
    rw [heq]
    exact setInode_of_ne _ h.place.symm
  have htree : v.tree = u.tree := by
    rw [heq]
    rfl
  have hvdinodes : v.dinodes = u.dinodes := congrArg Tree.dinodes htree
  have hvdata : v.data = u.data := congrArg Tree.data htree
  refine ⟨?_, ?_, ?_⟩
  · constructor
    · exact hv
    · rw [hvparent]
      exact h.number
    · rw [hvparent]
      exact h.used
    · rw [hvparent, hvdinodes]
      exact h.copy
    · rw [htree]
      exact h.entry
    · exact h.not_dot
    · exact h.not_dotdot
    · rw [hvip]
      exact h.inum
    · rw [hvdata, hvdinodes, htree]
      exact h.unnamed
  · rw [hvip]
    exact href
  · rw [hvip, hvdinodes]

/-- The entry is cleared, and the links of the inode and of its directory are stored. -/
structure Unlinked (u v : State) (d n k : Nat) : Prop where
  ninodes : v.ninodes = u.ninodes
  node : v.dinodes n = { u.dinodes n with nlink := (u.dinodes n).nlink - 1 }
  dir : v.dinodes d = { u.dinodes d with
    nlink := (u.dinodes d).nlink - if (u.dinodes n).type = InodeType.directory then 1 else 0 }
  dinodes : forall j, j ≠ n -> j ≠ d -> v.dinodes j = u.dinodes j
  data : v.data = Function.update u.data d ((u.data d).set k { inum := 0, name := [] })

theorem Unlinked.type (h : Unlinked u v d n k) (j : Nat) :
    (v.dinodes j).type = (u.dinodes j).type := by
  cases Decidable.em (j = n) with
  | inl heq => rw [heq, h.node]
  | inr hjn =>
      cases Decidable.em (j = d) with
      | inl heq => rw [heq, h.dir]
      | inr hjd => rw [h.dinodes j hjn hjd]

theorem Unlinked.relinked (h : Unlinked u v d n k) (hentry : u.tree.Entry d k e) :
    Relinked u.tree v.tree d n k { inum := 0, name := [] } := by
  have hlt := (List.getElem?_eq_some_iff.mp hentry.right.left).choose
  have hd : v.tree.data d = (u.data d).set k { inum := 0, name := [] } := by
    show v.data d = _
    rw [h.data, Function.update_self]
  constructor
  · exact h.ninodes
  · exact h.type
  · exact fun j hjn hjd => congrArg Dinode.nlink (h.dinodes j hjn hjd)
  · intro j hjd
    show v.data j = u.data j
    rw [h.data]
    exact Function.update_of_ne hjd ..
  · rw [hd]
    exact List.getElem?_set_self hlt
  · intro l hl
    rw [hd]
    exact List.getElem?_set_ne (Ne.symm hl)

theorem Removes.unlinking (h : Removes home rank u parent ip d n k name)
    (hv : Unlinked u v d n k) (hempty : (u.dinodes n).type = InodeType.directory ->
      ((u.data n).drop 2).all (fun e => decide (e.inum = 0)) = true) :
    Unlinking u.tree v.tree home d n k { inum := n, name := name } := by
  refine ⟨hv.relinked h.entry, h.home_eq.left, h.entry, rfl, ?_, ?_, ?_, ?_⟩
  · intro hdir l f hf
    by_contra hge
    have hmem : f ∈ (u.data n).drop 2 := by
      apply List.mem_of_getElem? (i := l - 2)
      rw [List.getElem?_drop, show 2 + (l - 2) = l by lia]
      exact hf.right.left
    have hfree := List.all_eq_true.mp (hempty hdir) f hmem
    exact hf.right.right (of_decide_eq_true hfree)
  · exact fun c hc hdots => h.unnamed (hempty hdots.directory) c hc hdots
  · exact congrArg Dinode.nlink hv.node
  · exact congrArg Dinode.nlink hv.dir

/-- `sys_unlink` has stored the links of both inodes. -/
theorem Removes.orderly_of_unlinked (h : Removes home rank u parent ip d n k name)
    (href : 0 < (u.icache ip).ref) (hv : Unlinked u v d n k) (hedited : Edited u v parent ip d n)
    (hempty : (u.dinodes n).type = InodeType.directory ->
      ((u.data n).drop 2).all (fun e => decide (e.inum = 0)) = true) :
    Orderly (Function.update home n none) rank v := by
  have hu := h.orderly
  apply hedited.orderly hu h.number h.used (hu.cache.inside ip href)
  · intro j hj hused heq
    exact hj (hu.cache.distinct j ip hused href (heq.trans h.inum.symm))
  · exact hu.forest.unlinked (h.unlinking hv hempty)
  · rw [hv.type]
    exact hu.forest.typed n d h.home_eq.right
  · rw [hv.type, show (u.dinodes d).type = InodeType.directory from h.entry.left]
    exact InodeType.noConfusion

section Stores

variable {w x y : State} {inode : CachedInode}

theorem Removes.stores (h : Removes home rank u parent ip d n k name)
    (hcopy : (u.icache ip).diskInode = u.dinodes n)
    (hx : x = u.setData d ((u.data d).set k { inum := 0, name := [] }))
    (hdrop : DropsDotdot x y parent d
      (if (u.dinodes n).type = InodeType.directory then 1 else 0))
    (hinode : inode = { u.icache ip with
      diskInode := { (u.icache ip).diskInode with nlink := (u.dinodes n).nlink - 1 } })
    (hv : v = (y.setInode ip inode).setDinode inode.inum inode.diskInode) :
    Unlinked u v d n k ∧ Edited u v parent ip d n := by
  have hapart := h.apart
  have hinum : inode.inum = n := by
    rw [hinode]
    exact h.inum
  rw [hinum] at hv
  have hnode : v.dinodes n = { u.dinodes n with nlink := (u.dinodes n).nlink - 1 } := by
    rw [hv, hinode, hcopy]
    exact Function.update_self ..
  have hother : forall j, j ≠ n -> v.dinodes j = y.dinodes j := by
    intro j hj
    rw [hv]
    exact Function.update_of_ne hj ..
  have hydata : y.data = Function.update u.data d
      ((u.data d).set k { inum := 0, name := [] }) := by
    rw [hdrop.data, hx]
    rfl
  have hvdata : v.data = y.data := by
    rw [hv]
    rfl
  have hninodes : v.ninodes = u.ninodes := by
    rw [hv]
    refine (show _ = y.ninodes from rfl).trans ?_
    rw [hdrop.ninodes, hx]
    rfl
  have hothers : forall j, j ≠ n -> j ≠ d -> v.dinodes j = u.dinodes j := by
    intro j hjn hjd
    rw [hother j hjn, hdrop.dinodes j hjd, hx]
    rfl
  constructor
  · constructor
    · exact hninodes
    · exact hnode
    · rw [hother d hapart.symm, hdrop.dinode, hx]
      rfl
    · exact hothers
    · rw [hvdata, hydata]
  · constructor
    · exact hninodes
    · exact hothers
    · intro j _ hjd
      rw [hvdata, hydata]
      exact Function.update_of_ne hjd ..
    · have hplace : v.icache parent = y.icache parent := by
        rw [hv]
        exact setInode_of_ne _ h.place.symm
      rw [hplace, hdrop.place, ← hother d hapart.symm, hx]
      rfl
    · rw [hv]
      exact (congrArg CachedInode.inum (setInode_self _)).trans hinum
    · rw [hnode, hv]
      refine (congrArg CachedInode.diskInode (setInode_self _)).trans ?_
      rw [hinode, hcopy]
    · intro j hjip hjparent
      rw [hv]
      refine (setInode_of_ne _ hjip).trans ?_
      rw [hdrop.icache j hjparent, hx]
      rfl

end Stores

theorem orderly_unlinkEntry (h : Removes home rank u parent ip d n k name) :
    Ends (perform t) (unlinkEntry parent ip k) u (fun _ v =>
      exists home' rank', Orderly home' rank' v) := by
  apply ends_op
  intro _ v hlock
  rcases h.lock (done_ok hlock) with ⟨hv, href, hcopy⟩
  have hbad : Ends (perform t) (unlinkBad ip parent) v (fun _ w =>
      exists home' rank', Orderly home' rank' w) :=
    ends_mono (gentle_unlinkBad ip parent home rank v hv.orderly) (fun _ w hw => ⟨home, rank, hw⟩)
  apply ends_op
  intro (inode : CachedInode) w hinode
  cases hinode
  rw [hcopy]
  apply ends_op
  intro _ w hassert
  have hw : w = v := by
    cases hd : decide ((v.dinodes n).nlink ≥ 1) with
    | true =>
        rw [hd] at hassert
        cases hassert
        rfl
    | false =>
        rw [hd] at hassert
        cases hassert
  rw [hw]
  apply ends_bind (ends_unlinkAllowed ip _ v)
  intro empty w _ hboth
  rcases hboth with ⟨rfl, hempty⟩
  rw [hv.inum] at hempty
  apply ends_ite
  · intro hyes
    apply ends_op
    intro (unlinked : Bool) x hunlink
    rcases dirUnlink_ok hunlink with ⟨e, -, -, rfl, hx⟩
    rw [hv.number] at hx
    have hxnumber : (x.icache parent).inum = d := by
      rw [hx]
      exact hv.number
    have hxcopy : (x.icache parent).diskInode = x.dinodes d := by
      rw [hx]
      exact hv.copy
    apply ends_ite
    · intro _
      apply ends_bind (ends_dropDotdot _ hxnumber hxcopy)
      intro _ y _ hdrop
      simp only [decide_eq_true_eq] at hdrop
      have hyip : y.icache ip = w.icache ip := by
        rw [hdrop.icache ip hv.place, hx]
        rfl
      apply ends_op
      intro _ z hlink
      cases hlink
      apply ends_op
      intro _ z hupdate
      have hz := inodeUpdate_ok (done_ok hupdate)
      rw [setInode_self, hyip] at hz
      rcases hv.stores hcopy hx hdrop rfl hz with ⟨hunlinked, hedited⟩
      have horderly := hv.orderly_of_unlinked href hunlinked hedited
        (fun hdir => hempty hyes (decide_eq_true hdir))
      have hend : Gentle t (inodeUnlockput ip >>= fun _ => inodeUnlockput parent >>= fun _ =>
          logEndOp >>= fun _ => (pure 0 : Code Int)) :=
        gentle_bind (gentle_inodeUnlockput ip) (fun _ => gentle_unlockputEnd parent 0)
      exact ends_mono (hend _ _ z horderly) (fun _ w hw => ⟨_, _, hw⟩)
    · intro hno
      exact absurd rfl hno
  · exact fun _ => hbad

end Unlink

end Syscall
end Fs
end NicoOS
