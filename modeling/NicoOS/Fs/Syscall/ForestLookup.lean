import NicoOS.Fs.Syscall.Forest
import NicoOS.Lib.Program

/-!
# Lookups in a forest

Operations on the cache keep the forest of directories, and `inode_put` frees what has no
links.  A lookup never locks an inode that is not in use, and what it says about a directory
was so at its start.
-/

namespace NicoOS
namespace Fs
namespace Syscall

open Lib
open Program (op Ends ends_op ends_last ends_mono Avoids avoids_op avoids_bind avoids_pure
  avoids_last avoids_of_ends avoids_mono)
open Inode (InodeType nicache)

/-- The tree is a forest, and what the cache has references to is in use. -/
structure Orderly (home : Nat -> Option Nat) (rank : Nat -> Nat) (u : State) : Prop where
  forest : Forest u.tree home rank
  cache : CacheSound u
  typed : forall i, 0 < (u.icache i).ref ->
    (u.dinodes (u.icache i).inum).type ≠ InodeType.none

/-- What is in use in `v` was so in `u`, and is the same. -/
structure Thinned (u v : State) : Prop where
  dinodes : forall j, (v.dinodes j).type ≠ InodeType.none -> v.dinodes j = u.dinodes j
  data : forall j, (v.dinodes j).type ≠ InodeType.none -> v.data j = u.data j

section Thinned

variable {u v w : State}

theorem Thinned.of_tree (h : v.tree = u.tree) : Thinned u v where
  dinodes j _ := congrFun (congrArg Tree.dinodes h) j
  data j _ := congrFun (congrArg Tree.data h) j

theorem Thinned.trans (h1 : Thinned u v) (h2 : Thinned v w) : Thinned u w where
  dinodes := by
    intro j hj
    have hsecond := h2.dinodes j hj
    rw [hsecond] at hj ⊢
    exact h1.dinodes j hj
  data := by
    intro j hj
    rw [h2.data j hj]
    rw [h2.dinodes j hj] at hj
    exact h1.data j hj

theorem Thinned.entryAt (h : Thinned u v) {cur next : Nat} {name : Name}
    (hentry : entryAt v cur name = some next) : entryAt u cur name = some next := by
  unfold Syscall.entryAt at hentry ⊢
  split at hentry
  · rename_i hdir
    have hused : (v.dinodes cur).type ≠ InodeType.none := by
      rw [hdir]
      exact InodeType.noConfusion
    rw [h.dinodes cur hused] at hdir
    rw [h.data cur hused] at hentry
    rw [if_pos hdir]
    exact hentry
  · cases hentry

theorem Thinned.foldEntries (h : Thinned u v) {cur last : Nat} {names : List Name}
    (hfold : foldEntries v cur names = some last) : foldEntries u cur names = some last := by
  induction names generalizing cur with
  | nil => exact hfold
  | cons name rest ih =>
      cases hentry : Syscall.entryAt v cur name with
      | none =>
          rw [foldEntries_cons_none rest hentry] at hfold
          cases hfold
      | some next =>
          rw [foldEntries_cons_some rest hentry] at hfold
          rw [foldEntries_cons_some rest (h.entryAt hentry)]
          exact ih hfold

end Thinned

/-!
# Operations on the cache
-/

section Cache

variable {home : Nat -> Option Nat} {rank : Nat -> Nat} {u v : State} {i num : Nat}

theorem Orderly.same (h : Orderly home rank u) (hicache : v.icache = u.icache)
    (htree : v.tree = u.tree) : Orderly home rank v where
  forest := htree ▸ h.forest
  cache := by
    have hdinodes : v.dinodes = u.dinodes := congrArg Tree.dinodes htree
    constructor
    · rw [hicache]
      exact h.cache.inside
    · rw [hicache]
      exact h.cache.distinct
    · rw [hicache, hdinodes]
      exact h.cache.coherent
  typed := by
    have hdinodes : v.dinodes = u.dinodes := congrArg Tree.dinodes htree
    rw [hicache, hdinodes]
    exact h.typed

theorem Orderly.setInode (h : Orderly home rank u) (hi : i < nicache) {ip : CachedInode}
    (hnew : forall j, j ≠ i -> 0 < (u.icache j).ref -> 0 < ip.ref -> (u.icache j).inum ≠ ip.inum)
    (hcopy : 0 < ip.ref -> ip.valid = true -> ip.diskInode = u.dinodes ip.inum)
    (htyped : 0 < ip.ref -> (u.dinodes ip.inum).type ≠ InodeType.none) :
    Orderly home rank (u.setInode i ip) where
  forest := h.forest
  cache := h.cache.setInode hi hnew hcopy
  typed := by
    intro j hj
    cases Classical.em (j = i) with
    | inl heq =>
        rw [heq, setInode_self] at hj ⊢
        exact htyped hj
    | inr hne =>
        rw [setInode_of_ne ip hne] at hj ⊢
        exact h.typed j hj

theorem Orderly.touch (h : Orderly home rank u) (href : 0 < (u.icache i).ref) {ip : CachedInode}
    (hinum : ip.inum = (u.icache i).inum)
    (hcopy : 0 < ip.ref -> ip.valid = true -> ip.diskInode = u.dinodes ip.inum) :
    Orderly home rank (u.setInode i ip) := by
  apply h.setInode (h.cache.inside i href) _ hcopy
  · intro _
    rw [hinum]
    exact h.typed i href
  · intro j hji hj _ heq
    rw [hinum] at heq
    exact hji (h.cache.distinct j i hj href heq)

theorem Orderly.dup (h : Orderly home rank u) (href : 0 < (u.icache i).ref) :
    Orderly home rank (inodeDup i u) :=
  h.touch href rfl (fun _ => h.cache.coherent i href)

theorem Orderly.lock (h : Orderly home rank u) (hlock : inodeLock i u = Except.ok v) :
    0 < (u.icache i).ref ∧ (u.icache i).locked = false ∧ Orderly home rank v ∧
      v = u.setInode i { u.icache i with
        locked := true
        valid := true
        diskInode := u.dinodes (u.icache i).inum } := by
  rcases inodeLock_ok hlock with ⟨href, hopen, hv⟩
  have heq : v = u.setInode i { u.icache i with
      locked := true
      valid := true
      diskInode := u.dinodes (u.icache i).inum } := by
    rcases hv with ⟨hvalid, hv⟩ | ⟨-, -, hv⟩
    · rw [hv, ← h.cache.coherent i href hvalid, ← hvalid]
    · exact hv
  refine ⟨href, hopen, ?_, heq⟩
  rw [heq]
  exact h.touch href rfl (fun _ _ => rfl)

theorem Orderly.lock_ne_noType (h : Orderly home rank u) :
    inodeLock i u ≠ Except.error Stop.noType := by
  intro hlock
  unfold inodeLock at hlock
  dsimp only at hlock
  split at hlock
  · rename_i href
    split at hlock
    · cases hlock
    · split at hlock
      · cases hlock
      · split at hlock
        · cases hlock
        · rename_i htype
          exact htype (h.typed i href)
  · cases hlock

theorem inodeUnlock_ref (h : inodeUnlock i u = Except.ok v) : 0 < (u.icache i).ref := by
  unfold inodeUnlock at h
  dsimp only at h
  split at h
  · rename_i hboth
    exact hboth.right
  · cases h

theorem Orderly.unlock (h : Orderly home rank u) (hunlock : inodeUnlock i u = Except.ok v) :
    Orderly home rank v ∧ v = u.setInode i { u.icache i with locked := false } := by
  have href := inodeUnlock_ref hunlock
  have hv := inodeUnlock_ok hunlock
  refine ⟨?_, hv⟩
  rw [hv]
  exact h.touch href rfl (fun _ => h.cache.coherent i href)

theorem findInode_lt {icache : Nat -> CachedInode} {b : Nat} (k i : Nat) (empty : Option Nat)
    (hempty : forall j, empty = some j -> j < b) (hk : i + k ≤ b) :
    forall j, findInode icache num k i empty = Sum.inl j ∨
      findInode icache num k i empty = Sum.inr (some j) -> j < b := by
  induction k generalizing i empty with
  | zero =>
      intro j hor
      rcases hor with hj | hj
      · cases hj
      · exact hempty j (Sum.inr.inj hj)
  | succ k ih =>
      intro j hj
      rw [findInode] at hj
      split at hj
      · rcases hj with hj | hj
        · cases hj
          lia
        · cases hj
      · refine ih (i + 1) _ ?_ (by lia) j hj
        intro l hl
        split at hl
        · cases hl
          lia
        · exact hempty l hl

theorem iget_lt (h : iget num u = Except.ok (i, v)) : i < nicache := by
  have hlt : forall j, findInode u.icache num nicache 0 none = Sum.inl j ∨
      findInode u.icache num nicache 0 none = Sum.inr (some j) -> j < nicache :=
    findInode_lt nicache 0 none (fun j hj => by cases hj) (Nat.le_of_eq (Nat.zero_add nicache))
  unfold iget at h
  split at h
  · rename_i j hj
    cases h
    exact hlt i (Or.inl hj)
  · rename_i j hj
    cases h
    exact hlt i (Or.inr hj)
  · cases h

/-- `iget` of an inode in use; what has references keeps its place. -/
theorem Orderly.iget (h : Orderly home rank u)
    (htyped : (u.dinodes num).type ≠ InodeType.none)
    (hget : iget num u = Except.ok (i, v)) :
    Orderly home rank v ∧ v.tree = u.tree ∧ (v.icache i).inum = num ∧
      forall j, 0 < (u.icache j).ref ->
        v.icache j = { u.icache j with ref := (v.icache j).ref } ∧ 0 < (v.icache j).ref := by
  rcases iget_ok hget with ⟨href, hinum, hv⟩ | ⟨hfree, hnone, hv⟩
  · rw [hv]
    refine ⟨h.touch href rfl (fun _ => h.cache.coherent i href), rfl, ?_, ?_⟩
    · rw [setInode_self]
      exact hinum
    · intro j hj
      cases Classical.em (j = i) with
      | inl heq =>
          rw [heq, setInode_self]
          exact ⟨rfl, Nat.succ_pos _⟩
      | inr hne =>
          rw [setInode_of_ne _ hne]
          exact ⟨rfl, hj⟩
  · rw [hv]
    refine ⟨?_, rfl, ?_, ?_⟩
    · apply h.setInode (iget_lt hget)
      · exact fun j _ hj _ => hnone j (h.cache.inside j hj) hj
      · intro _ hvalid
        cases hvalid
      · exact fun _ => htyped
    · rw [setInode_self]
    · intro j hj
      have hne : j ≠ i := by
        intro heq
        rw [heq, hfree] at hj
        cases hj
      rw [setInode_of_ne _ hne]
      exact ⟨rfl, hj⟩

/-!
# `inode_put`
-/

/-- `inode_put` lets a place go, or frees its inode with it. -/
theorem ends_inodePut (t i : Nat) (o : Option Opening) (u : State) :
    Ends (perform t) (inodePut i o) u (fun _ v => 0 < (u.icache i).ref ∧
      ((Not ((u.icache i).valid = true ∧ (u.icache i).diskInode.nlink = 0 ∧
          (u.icache i).ref = 1) ∧
        v = release o (u.setInode i
          { u.icache i with locked := false, ref := (u.icache i).ref - 1 })) ∨
      ((u.icache i).valid = true ∧ (u.icache i).diskInode.nlink = 0 ∧ (u.icache i).ref = 1 ∧
        v = release o (((u.setDinode (u.icache i).inum
          { (u.icache i).diskInode with type := InodeType.none }).clear
            (u.icache i).inum).setInode i { u.icache i with
              locked := false
              ref := 0
              valid := false
              diskInode := { (u.icache i).diskInode with type := InodeType.none } })))) := by
  apply ends_op
  intro (frees : Bool) v hstart
  rcases putStart_ok hstart with ⟨href, hfrees, hv⟩
  have hback : forall x : CachedInode, (u.setInode i { u.icache i with locked := true }).setInode i
      x = u.setInode i x := by
    intro x
    unfold State.setInode
    dsimp only
    rw [Function.update_idem]
  apply Program.ends_ite
  · intro hyes
    rw [hyes] at hfrees
    rcases of_decide_eq_true hfrees.symm with ⟨hvalid, hlink, hone⟩
    apply ends_op
    intro _ w htruncate
    apply ends_op
    intro _ x hclear
    apply ends_last
    intro _ y hend
    cases hend
    refine ⟨href, Or.inr ⟨hvalid, hlink, hone, ?_⟩⟩
    rw [clearType_ok (done_ok hclear), itruncate_ok (done_ok htruncate), hv]
    cases o with
    | none =>
        simp only [release, putEnd, State.setInode, State.setDinode, State.clear,
          Function.update_self, Function.update_idem, hone, Nat.sub_self]
    | some o =>
        simp only [release, putEnd, State.setInode, State.setDinode, State.clear,
          Function.update_self, Function.update_idem, hone, Nat.sub_self]
  · intro hno
    apply ends_last
    intro _ y hend
    cases hend
    refine ⟨href, Or.inl ⟨?_, ?_⟩⟩
    · rw [hfrees] at hno
      exact fun hall => hno (decide_eq_true hall)
    · rw [hv]
      unfold putEnd
      rw [release_icache, setInode_self]
      cases o with
      | none => exact hback _
      | some o => exact congrArg (release (some o)) (hback _)

/-- Where a copy is that of the disk, `inode_put` frees what has no links. -/
theorem Orderly.put (h : Orderly home rank u) (t i : Nat) {o : Option Opening} :
    Ends (perform t) (inodePut i o) u (fun _ v => Orderly home rank v ∧ Thinned u v ∧
      forall j, (v.icache j).inum = (u.icache j).inum) := by
  apply ends_mono (ends_inodePut t i o u)
  intro _ x hx
  suffices hput : exists v, x = release o v ∧ Orderly home rank v ∧ Thinned u v ∧
      forall j, (v.icache j).inum = (u.icache j).inum by
    rcases hput with ⟨v, rfl, hv, hthinned, hinum⟩
    have hicache : (release o v).icache = v.icache := release_icache o
    have htree : (release o v).tree = v.tree := release_tree o
    refine ⟨hv.same hicache htree, ?_, ?_⟩
    · exact hthinned.trans (Thinned.of_tree htree)
    · rw [hicache]
      exact hinum
  rcases hx with ⟨href, ⟨-, hx⟩ | ⟨hvalid, hlink, -, hx⟩⟩
  · refine ⟨_, hx, ?_⟩
    refine ⟨h.touch href rfl (fun _ => h.cache.coherent i href), Thinned.of_tree rfl, ?_⟩
    intro j
    cases Classical.em (j = i) with
    | inl heq => rw [heq, setInode_self]
    | inr hne => rw [setInode_of_ne _ hne]
  · refine ⟨_, hx, ?_⟩
    generalize hv : ((u.setDinode (u.icache i).inum
      { (u.icache i).diskInode with type := InodeType.none }).clear
        (u.icache i).inum).setInode i { u.icache i with
          locked := false
          ref := 0
          valid := false
          diskInode := { (u.icache i).diskInode with type := InodeType.none } } = v
    replace hv := hv.symm
    have hcopy := h.cache.coherent i href hvalid
    rw [hcopy] at hlink
    have htyped := h.typed i href
    have hicache : forall j, j ≠ i -> v.icache j = u.icache j := by
      intro j hji
      rw [hv]
      exact setInode_of_ne _ hji
    have hgone : (v.icache i).ref = 0 ∧ (v.icache i).inum = (u.icache i).inum := by
      rw [hv, setInode_self]
      exact ⟨rfl, rfl⟩
    have hlive : forall j, 0 < (v.icache j).ref ->
        j ≠ i ∧ 0 < (u.icache j).ref ∧ (u.icache j).inum ≠ (u.icache i).inum := by
      intro j hj
      have hji : j ≠ i := by
        intro heq
        rw [heq, hgone.left] at hj
        cases hj
      rw [hicache j hji] at hj
      exact ⟨hji, hj, fun heq => hji (h.cache.distinct j i hj href heq)⟩
    have hdinodes : forall j, j ≠ (u.icache i).inum -> v.dinodes j = u.dinodes j := by
      intro j hj
      rw [hv]
      exact Function.update_of_ne hj ..
    have hdata : forall j, j ≠ (u.icache i).inum -> v.data j = u.data j := by
      intro j hj
      rw [hv]
      exact Function.update_of_ne hj ..
    have hnone : (v.dinodes (u.icache i).inum).type = InodeType.none := by
      rw [hv]
      show (Function.update u.dinodes (u.icache i).inum _ (u.icache i).inum).type = _
      rw [Function.update_self]
    have hused : forall j, (v.dinodes j).type ≠ InodeType.none -> j ≠ (u.icache i).inum := by
      intro j hj heq
      rw [heq] at hj
      exact hj hnone
    refine ⟨?_, ?_, ?_⟩
    · constructor
      · refine h.forest.freed (n := (u.icache i).inum) ⟨?_, hnone, hdinodes, hdata⟩ htyped hlink
        rw [hv]
        rfl
      · constructor
        · exact fun j hj => h.cache.inside j (hlive j hj).right.left
        · intro j k hj hk heq
          rcases hlive j hj with ⟨hji, hj, -⟩
          rcases hlive k hk with ⟨hki, hk, -⟩
          rw [hicache j hji, hicache k hki] at heq
          exact h.cache.distinct j k hj hk heq
        · intro j hj hvj
          rcases hlive j hj with ⟨hji, hj, hne⟩
          rw [hicache j hji] at hvj ⊢
          rw [hdinodes _ hne]
          exact h.cache.coherent j hj hvj
      · intro j hj
        rcases hlive j hj with ⟨hji, hj, hne⟩
        rw [hicache j hji, hdinodes _ hne]
        exact h.typed j hj
    · exact ⟨fun j hj => hdinodes j (hused j hj), fun j hj => hdata j (hused j hj)⟩
    · intro j
      cases Classical.em (j = i) with
      | inl heq =>
          rw [heq]
          exact hgone.right
      | inr hne => rw [hicache j hne]

theorem Orderly.unlockput (h : Orderly home rank u) (t i : Nat) :
    Ends (perform t) (inodeUnlockput i) u (fun _ v => Orderly home rank v ∧ Thinned u v ∧
      forall j, (v.icache j).inum = (u.icache j).inum) := by
  apply ends_op
  intro _ v hunlock
  rcases h.unlock (done_ok hunlock) with ⟨hv, heq⟩
  apply ends_mono (hv.put t i)
  intro _ w hall
  rcases hall with ⟨hw, hthin, hinum⟩
  have htree : v.tree = u.tree := by
    rw [heq]
    rfl
  refine ⟨hw, (Thinned.of_tree htree).trans hthin, ?_⟩
  intro j
  rw [hinum j, heq]
  cases Classical.em (j = i) with
  | inl heq => rw [heq, setInode_self]
  | inr hne => rw [setInode_of_ne _ hne]

end Cache

/-!
# The walk
-/

/-- Operations that do not look at the type of an inode. -/
def Op.typeless : Op -> Bool
  | Op.inodeLock _ => false
  | Op.assert _ stop => decide (stop ≠ Stop.noType)
  | _ => true

theorem perform_typeless (t : Nat) (o : Op) (u : State) (h : o.typeless = true) :
    perform t o u ≠ Except.error Stop.noType := by
  cases o with
  | inodeLock i => cases h
  | assert holds stop =>
      have hstop := of_decide_eq_true h
      cases holds with
      | true =>
          intro heq
          cases heq
      | false => exact fun heq => hstop (Except.error.inj heq)
  | _ =>
      simp only [perform, done, logBegin, logEnd, iget, inodeUnlock, inodeUpdate,
        logWrite, putStart, itruncate, clearType, inodeAlloc, heldDirectory, dirAdd, dirFind,
        writeDirent, dirUnlink, dirIsempty, fileDrop, fileDup, taskAlloc, bind, Except.bind]
      grind

theorem avoids_inodeRead {α : Type} {t i : Nat} {blocks : List Dirent -> List Nat}
    {f : Unit -> Code α} {u : State} {Q : α -> State -> Prop}
    (h : Avoids (perform t) Stop.noType (f ()) u Q) :
    Avoids (perform t) Stop.noType (inodeRead i blocks >>= f) u Q := by
  have honly : Program.Only (fun o => o.typeless = true) (inodeRead i blocks) := by
    refine ⟨rfl, fun hole => ?_⟩
    cases hole with
    | false => exact trivial
    | true => exact ⟨rfl, fun _ => trivial⟩
  have hread := avoids_of_ends
    (Program.only_ne_error (fun o s ho => perform_typeless t o s ho) honly u)
    (inodeRead_ends t i blocks u)
  apply Program.avoids_bind hread
  intro _ v hsame
  rw [hsame]
  exact h

theorem findEntry_getElem? {name : Name} {k offset inum : Nat} {entries : List Dirent}
    (h : findEntry name k entries = some (offset, inum)) :
    k ≤ offset ∧ entries[offset - k]? = some { inum := inum, name := name } ∧ inum ≠ 0 := by
  induction entries generalizing k with
  | nil => cases h
  | cons e rest ih =>
      rw [findEntry] at h
      split at h
      · rename_i hfound
        cases h
        refine ⟨Nat.le_refl _, ?_, hfound.left⟩
        rw [Nat.sub_self, List.getElem?_cons_zero, ← hfound.right]
      · rcases ih h with ⟨hle, hentry, hne⟩
        refine ⟨by lia, ?_, hne⟩
        have hstep : offset - k = offset - (k + 1) + 1 := by lia
        rw [hstep, List.getElem?_cons_succ]
        exact hentry

theorem entry_of_findEntry {tr : Tree} {d offset inum : Nat} {name : Name}
    (hdir : (tr.dinodes d).type = InodeType.directory)
    (h : findEntry name 0 (tr.data d) = some (offset, inum)) :
    tr.Entry d offset { inum := inum, name := name } := by
  rcases findEntry_getElem? h with ⟨-, hentry, hne⟩
  exact ⟨hdir, hentry, hne⟩

/-- `dir_lookup` leaves everything but one more reference. -/
structure LooksUp (u : State) (dir : Nat) (name : Name) (answer : Option (Nat × Nat))
    (v : State) : Prop where
  tree : v.tree = u.tree
  kept : forall j, 0 < (u.icache j).ref ->
    v.icache j = { u.icache j with ref := (v.icache j).ref } ∧ 0 < (v.icache j).ref
  found : findEntry name 0 (u.data (u.icache dir).inum) =
    answer.map (fun x => (x.1, (v.icache x.2).inum))
  same : answer = none -> v = u

/-- `path_lookup_parent` has found a directory, and `name` is the last component. -/
structure FindsParent (s : State) (start : Nat) (names : List Name) (dir : Nat) (name : Name)
    (v : State) : Prop where
  last : names.getLast? = some name
  used : 0 < (v.icache dir).ref
  directory : (v.dinodes (v.icache dir).inum).type = InodeType.directory
  folds : foldEntries s start names.dropLast = some (v.icache dir).inum

section Walk

variable {home : Nat -> Option Nat} {rank : Nat -> Nat} {t : Nat} {u : State}

theorem Orderly.dirLookup (h : Orderly home rank u) {dir : Nat}
    (hdir : (u.dinodes (u.icache dir).inum).type = InodeType.directory) (name : Name) :
    Avoids (perform t) Stop.noType (dirLookup dir name) u (fun found v =>
      Orderly home rank v ∧ LooksUp u dir name found v) := by
  apply avoids_op (perform_typeless t (Op.dirFind dir name) u rfl)
  intro found v hrun
  rcases dirFind_ok hrun with ⟨-, -, hfound, rfl⟩
  apply avoids_inodeRead
  cases found with
  | none =>
      apply avoids_pure
      refine ⟨h, rfl, fun j hj => ⟨rfl, hj⟩, hfound.symm, fun _ => rfl⟩
  | some entry =>
      rcases entry with ⟨offset, num⟩
      have hentry := @entry_of_findEntry v.tree _ _ _ _ hdir hfound.symm
      have htyped := h.forest.noDangling.typed _ _ _ hentry
      apply avoids_op (perform_typeless t (Op.iget num) v rfl)
      intro (ip : Nat) w hget
      apply avoids_pure
      rcases h.iget htyped hget with ⟨hw, htree, hnumber, hkept⟩
      refine ⟨hw, htree, hkept, ?_, fun hnone => by cases hnone⟩
      rw [← hfound, Option.map_some, hnumber]

theorem avoids_inodeUnlockput (h : Orderly home rank u) (i : Nat) :
    Avoids (perform t) Stop.noType (inodeUnlockput i) u (fun _ v => Orderly home rank v ∧
      Thinned u v ∧ forall j, (v.icache j).inum = (u.icache j).inum) := by
  apply avoids_of_ends _ (h.unlockput t i)
  have honly : Program.Only (fun o => o.typeless = true) (inodeUnlockput i) := by
    refine ⟨rfl, fun _ => ⟨rfl, fun frees => ?_⟩⟩
    cases frees with
    | false => exact ⟨rfl, fun _ => trivial⟩
    | true => exact ⟨rfl, fun _ => ⟨rfl, fun _ => ⟨rfl, fun _ => trivial⟩⟩⟩
  exact Program.only_ne_error (fun o s ho => perform_typeless t o s ho) honly u

theorem avoids_walk_none (h : Orderly home rank u) (i : Nat) {Q : Option (Nat × Name) -> Prop}
    (hQ : Q none) :
    Avoids (perform t) Stop.noType (inodeUnlockput i >>= fun _ => pure none) u (fun r v =>
      Orderly home rank v ∧ Thinned u v ∧ Q r) := by
  apply avoids_bind (avoids_inodeUnlockput h i)
  intro _ v hall
  rcases hall with ⟨hv, hthin, -⟩
  exact avoids_pure ⟨hv, hthin, hQ⟩

theorem Orderly.perform_lock_ne (h : Orderly home rank u) (i : Nat) :
    perform t (Op.inodeLock i) u ≠ Except.error Stop.noType := by
  intro herror
  have hdone : done (inodeLock i u) = Except.error Stop.noType := herror
  apply h.lock_ne_noType (i := i)
  cases hlock : inodeLock i u with
  | error e =>
      rw [hlock] at hdone
      exact congrArg Except.error (Except.error.inj hdone)
  | ok v =>
      rw [hlock] at hdone
      cases hdone

/-- The walk is at the end of the path. -/
theorem Orderly.walk_nil (h : Orderly home rank u) (nameiparent : Bool) (parent : Nat)
    (last : Name) :
    Avoids (perform t) Stop.noType (walk nameiparent parent [] last) u (fun r v =>
      Orderly home rank v ∧ Thinned u v ∧ (nameiparent = true -> r = none)) := by
  apply Program.avoids_ite
  · intro _
    have honly : Program.Only (fun o => o.typeless = true) (inodePut parent) := by
      refine ⟨rfl, fun frees => ?_⟩
      cases frees with
      | false => exact ⟨rfl, fun _ => trivial⟩
      | true => exact ⟨rfl, fun _ => ⟨rfl, fun _ => ⟨rfl, fun _ => trivial⟩⟩⟩
    apply avoids_bind (avoids_of_ends
      (Program.only_ne_error (fun o s ho => perform_typeless t o s ho) honly u)
      (h.put t parent))
    intro _ v hput
    exact avoids_pure ⟨hput.left, hput.right.left, fun _ => rfl⟩
  · intro hno
    exact avoids_pure ⟨h, Thinned.of_tree rfl, fun hyes => absurd hyes hno⟩

/-- The walk ends at the last component, with the lock of the directory given back. -/
theorem Orderly.finds_here (h : Orderly home rank u) {v w : State} {parent : Nat} (name : Name)
    (hlock : inodeLock parent u = Except.ok v)
    (htype : (u.dinodes (u.icache parent).inum).type = InodeType.directory)
    (hunlock : inodeUnlock parent v = Except.ok w) :
    Orderly home rank w ∧ Thinned u w ∧
      FindsParent u (u.icache parent).inum [name] parent name w := by
  rcases h.lock hlock with ⟨href, -, hv, heq⟩
  rcases hv.unlock hunlock with ⟨hw, hback⟩
  have htree : w.tree = u.tree := by
    rw [hback, heq]
    rfl
  have hplace : w.icache parent = { u.icache parent with
      valid := true
      diskInode := u.dinodes (u.icache parent).inum
      locked := false } := by
    rw [hback, setInode_self, heq, setInode_self]
  refine ⟨hw, Thinned.of_tree htree, ?_⟩
  constructor
  · rfl
  · rw [hplace]
    exact href
  · have hdinodes : w.dinodes = u.dinodes := congrArg Tree.dinodes htree
    rw [hplace, hdinodes]
    exact htype
  · rw [hplace]
    rfl

/-- One more component in front, whose entry leads to the rest. -/
theorem FindsParent.cons {v w : State} {start next dir : Nat} {name last : Name}
    {rest : List Name} (h : FindsParent v next rest dir last w) (hthin : Thinned u v)
    (hentry : entryAt u start name = some next) (hne : rest ≠ []) :
    FindsParent u start (name :: rest) dir last w := by
  constructor
  · rw [List.getLast?_cons_of_ne_nil hne]
    exact h.last
  · exact h.used
  · exact h.directory
  · rw [List.dropLast_cons_of_ne_nil hne, foldEntries_cons_some _ hentry]
    exact hthin.foldEntries h.folds

/-- From an orderly state the walk does not find an inode that is not in use. -/
theorem Orderly.walk (h : Orderly home rank u) (nameiparent : Bool) (parent : Nat)
    (names : List Name) (last : Name) :
    Avoids (perform t) Stop.noType (walk nameiparent parent names last) u (fun r v =>
      Orderly home rank v ∧ Thinned u v ∧ forall dir name, r = some (dir, name) ->
        nameiparent = true -> FindsParent u (u.icache parent).inum names dir name v) := by
  induction names generalizing u parent last with
  | nil =>
      apply avoids_mono (h.walk_nil nameiparent parent last)
      intro r v hr
      refine ⟨hr.left, hr.right.left, fun dir name hsome hparent => ?_⟩
      rw [hr.right.right hparent] at hsome
      cases hsome
  | cons name rest ih =>
      apply avoids_op (perform_typeless t (Op.assert _ Stop.overrun) u rfl)
      intro _ u0 hassert
      have hu0 : u0 = u := by
        cases hd : decide (name.length < direntNameLength) with
        | true =>
            rw [hd] at hassert
            cases hassert
            rfl
        | false =>
            rw [hd] at hassert
            cases hassert
      rw [hu0]
      apply avoids_op (h.perform_lock_ne parent)
      intro _ u1 hlock
      rcases h.lock (done_ok hlock) with ⟨-, -, h1, hu1⟩
      have htree1 : u1.tree = u.tree := by
        rw [hu1]
        rfl
      have hplace : u1.icache parent = { u.icache parent with
          locked := true
          valid := true
          diskInode := u.dinodes (u.icache parent).inum } := by
        rw [hu1, setInode_self]
      have hthin1 : Thinned u u1 := Thinned.of_tree htree1
      apply avoids_op (perform_typeless t (Op.inode parent) u1 rfl)
      intro (ip : CachedInode) u2 hinode
      cases hinode
      apply Program.avoids_ite
      · intro _
        apply avoids_mono (avoids_walk_none h1 parent
          (Q := fun r => forall dir name, r ≠ some (dir, name)) (fun _ _ hnone => by cases hnone))
        intro r v hr
        exact ⟨hr.left, hthin1.trans hr.right.left,
          fun dir name hsome => absurd hsome (hr.right.right dir name)⟩
      intro htype
      have hdisk : (u.dinodes (u.icache parent).inum).type = InodeType.directory := by
        rw [hplace] at htype
        exact not_not.mp htype
      apply Program.avoids_ite
      · intro hends
        apply avoids_op (perform_typeless t (Op.inodeUnlock parent) u1 rfl)
        intro _ u3 hunlock
        rcases h.finds_here name (done_ok hlock) hdisk (done_ok hunlock) with ⟨h3, hthin, hfinds⟩
        apply avoids_pure
        refine ⟨h3, hthin, ?_⟩
        intro dir found hfound _
        cases hfound
        rw [hends.left]
        exact hfinds
      · intro hmore
        have hdir1 : (u1.dinodes (u1.icache parent).inum).type = InodeType.directory := by
          have hdinodes : u1.dinodes = u.dinodes := congrArg Tree.dinodes htree1
          rw [hplace, hdinodes]
          exact hdisk
        apply avoids_bind (h1.dirLookup hdir1 name)
        intro found u3 hlooked
        rcases hlooked with ⟨h3, hlooks⟩
        have hthin3 := hthin1.trans (Thinned.of_tree hlooks.tree)
        cases found with
        | none =>
            apply avoids_mono (avoids_walk_none h3 parent
              (Q := fun r => forall dir name, r ≠ some (dir, name))
              (fun _ _ hnone => by cases hnone))
            intro r v hr
            exact ⟨hr.left, hthin3.trans hr.right.left,
              fun dir name hsome => absurd hsome (hr.right.right dir name)⟩
        | some entry =>
            rcases entry with ⟨offset, next⟩
            apply avoids_bind (avoids_inodeUnlockput h3 parent)
            intro _ u4 hput
            rcases hput with ⟨h4, hthin4, hinum⟩
            have hthin := hthin3.trans hthin4
            have hentry : entryAt u (u.icache parent).inum name =
                some (u4.icache next).inum := by
              have hfound := hlooks.found
              have hdata : u1.data = u.data := congrArg Tree.data htree1
              rw [hplace, hdata] at hfound
              unfold entryAt
              rw [if_pos hdisk, hfound, hinum next]
              rfl
            apply avoids_mono (ih h4 next name)
            intro r v hr
            refine ⟨hr.left, hthin.trans hr.right.left, ?_⟩
            intro dir lastName hsome hparent
            have hne : rest ≠ [] := fun hnil => hmore ⟨hnil, hparent⟩
            exact (hr.right.right dir lastName hsome hparent).cons hthin hentry hne

def Grounded (t : Nat) (u : State) : Prop :=
  forall i, (u.tasks t).cwd = some i -> 0 < (u.icache i).ref

theorem Orderly.pathStart (h : Orderly home rank u) (hcwd : Grounded t u) (path : Name) :
    Avoids (perform t) Stop.noType (pathStart path) u (fun parent v =>
      Orderly home rank v ∧ v.tree = u.tree ∧ (v.icache parent).inum = startOf t u path) := by
  have hstart : path.head? ≠ some slash -> Avoids (perform t) Stop.noType startAtCwd u
      (fun parent v => Orderly home rank v ∧ v.tree = u.tree ∧
        (v.icache parent).inum = startOf t u path) := by
    intro hhead
    apply avoids_op (perform_typeless t Op.cwd u rfl)
    intro (cwd : Option Nat) v hrun
    cases hrun
    cases hi : (u.tasks t).cwd with
    | none =>
        apply avoids_op (perform_typeless t (Op.assert false Stop.noRef) u rfl)
        intro _ v hassert
        cases hassert
    | some i =>
        have href := hcwd i hi
        apply avoids_op (perform_typeless t (Op.inodeDup i) u rfl)
        intro _ v hdup
        cases hdup
        apply avoids_pure
        refine ⟨h.dup href, rfl, ?_⟩
        unfold startOf inodeDup
        rw [if_neg hhead, hi, setInode_self]
        rfl
  cases path with
  | nil => exact hstart (fun hhead => by cases hhead)
  | cons c rest =>
      apply Program.avoids_ite
      · intro hc
        have htyped : (u.dinodes rootInum).type ≠ InodeType.none := by
          rw [show (u.dinodes rootInum).type = InodeType.directory from h.forest.rootDir]
          exact InodeType.noConfusion
        apply avoids_last (perform_typeless t (Op.iget rootInum) u rfl)
        intro (parent : Nat) v hget
        rcases h.iget htyped hget with ⟨hv, htree, hnumber, -⟩
        have hhead : (c :: rest).head? = some slash := congrArg some hc
        refine ⟨hv, htree, hnumber.trans ?_⟩
        unfold startOf
        rw [if_pos hhead]
      · intro hc
        exact hstart (fun hhead => hc (Option.some.inj hhead))

/-- `path_lookup0` does not find an inode that is not in use. -/
theorem Orderly.pathLookup0 (h : Orderly home rank u) (hcwd : Grounded t u)
    (nameiparent : Bool) (path : Name) :
    Avoids (perform t) Stop.noType (pathLookup0 nameiparent path) u (fun r v =>
      Orderly home rank v ∧ Thinned u v ∧ forall dir name, r = some (dir, name) ->
        nameiparent = true ->
          FindsParent u (startOf t u path) (components path) dir name v) := by
  rw [pathLookup0_eq]
  apply avoids_bind (h.pathStart hcwd path)
  intro parent v hall
  rcases hall with ⟨hv, htree, hnumber⟩
  have hthin := Thinned.of_tree htree
  apply avoids_mono (hv.walk nameiparent parent (components path) [])
  intro r w hall
  rcases hall with ⟨hw, hlater, hfinds⟩
  refine ⟨hw, hthin.trans hlater, ?_⟩
  intro dir name hr hparent
  have hfound := hfinds dir name hr hparent
  rw [hnumber] at hfound
  exact ⟨hfound.last, hfound.used, hfound.directory, hthin.foldEntries hfound.folds⟩

theorem Orderly.pathLookup (h : Orderly home rank u) (hcwd : Grounded t u) (path : Name) :
    Avoids (perform t) Stop.noType (pathLookup path) u (fun _ v => Orderly home rank v) := by
  apply avoids_bind (h.pathLookup0 hcwd false path)
  intro found v hall
  rcases hall with ⟨hv, -, -⟩
  cases found with
  | none => exact avoids_pure hv
  | some entry => exact avoids_pure hv

end Walk

end Syscall
end Fs
end NicoOS
