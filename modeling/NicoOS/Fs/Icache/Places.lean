import NicoOS.Fs.Icache.Model

/-!
# Places of the inode cache

The invariant of the shared inode cache is one statement about each place, which steps
at other places keep, and two about all places.
-/

namespace NicoOS
namespace Fs
namespace Icache

open Inode (InodeType Dinode nicache)
open Lib

set_option linter.unusedSectionVars false

section Invariant

variable {T D : Type} [DecidableEq T] [DecidableEq D]

def State.held (s : State T D) (i : Nat) : Nat :=
  s.refs.countP (fun p => decide (p.2 = i))

def Has (s : State T D) (i : Nat) (disk : D) (inum : UInt32) : Prop :=
  0 < (s.icache i).ref ∧ (s.icache i).disk = disk ∧ (s.icache i).inum = inum

def InUse (d : Dinode) : Prop := d.type ≠ InodeType.none.code

structure PlaceSound (s : State T D) (i : Nat) : Prop where
  inRange : 0 < (s.icache i).ref -> i < nicache
  counted : (s.icache i).ref = s.held i
  holder : forall t, (s.icache i).sem = some t -> (t, i) ∈ s.refs
  used : 0 < (s.icache i).ref -> InUse (s.home i)
  typed : 0 < (s.icache i).ref -> (s.icache i).valid = true -> InUse (s.icache i).diskInode
  synced : 0 < (s.icache i).ref -> (s.icache i).valid = true -> (s.icache i).sem = none ->
    (s.home i).nlink = (s.icache i).diskInode.nlink
  ready : forall t, (s.icache i).sem = some t -> (s.icache i).valid = true ∨
    s.phase t = Phase.loading i
  loading : forall t, s.phase t = Phase.loading i ->
    (s.icache i).sem = some t ∧ (s.icache i).valid = false
  freeing : forall t, s.phase t = Phase.freeing i -> (s.icache i).sem = some t ∧
    (s.icache i).valid = true ∧ (s.icache i).diskInode.nlink = 0 ∧ (s.home i).nlink = 0 ∧
    (s.icache i).ref = 1

structure Sound (s : State T D) : Prop where
  place : forall i, PlaceSound s i
  unique : forall i j disk inum, Has s i disk inum -> Has s j disk inum -> i = j
  clear : forall disk inum, Not (InUse (s.stored disk inum)) -> (s.stored disk inum).nlink = 0

/-!
# Steps at other places
-/

/-- A place keeps its inode, its references and the calls that are at it. -/
structure Keeps (s s' : State T D) (j : Nat) : Prop where
  entry : s'.icache j = s.icache j
  home : 0 < (s.icache j).ref -> s'.home j = s.home j
  held : s'.held j = s.held j
  mem : forall t, (t, j) ∈ s.refs -> (t, j) ∈ s'.refs
  loading : forall t, s'.phase t = Phase.loading j <-> s.phase t = Phase.loading j
  freeing : forall t, s'.phase t = Phase.freeing j <-> s.phase t = Phase.freeing j

theorem PlaceSound.keep {s s' : State T D} {j : Nat} (h : PlaceSound s j) (hkeep : Keeps s s' j) :
    PlaceSound s' j where
  inRange := by
    rw [hkeep.entry]
    exact h.inRange
  counted := by
    rw [hkeep.entry, hkeep.held]
    exact h.counted
  holder t := by
    rw [hkeep.entry]
    exact fun hsem => hkeep.mem t (h.holder t hsem)
  used := by
    rw [hkeep.entry]
    intro hpos
    rw [hkeep.home hpos]
    exact h.used hpos
  typed := by
    rw [hkeep.entry]
    exact h.typed
  synced := by
    rw [hkeep.entry]
    intro hpos
    rw [hkeep.home hpos]
    exact h.synced hpos
  ready t := by
    rw [hkeep.entry, hkeep.loading t]
    exact h.ready t
  loading t := by
    rw [hkeep.entry, hkeep.loading t]
    exact h.loading t
  freeing t := by
    rw [hkeep.entry, hkeep.freeing t]
    intro hfree
    have hold := h.freeing t hfree
    have hpos : 0 < (s.icache j).ref := by
      rw [hold.right.right.right.right]
      exact Nat.one_pos
    rw [hkeep.home hpos]
    exact hold

section Frames

variable {s : State T D} {i : Nat}

theorem setInode_self (ip : CachedInode T D) : (s.setInode i ip).icache i = ip := if_pos rfl

theorem setInode_of_ne {j : Nat} (ip : CachedInode T D) (h : j ≠ i) :
    (s.setInode i ip).icache j = s.icache j :=
  if_neg h

theorem held_cons_self (t : T) (refs : List (T × Nat)) (i : Nat) :
    ((t, i) :: refs).countP (fun p => decide (p.2 = i)) =
      refs.countP (fun p => decide (p.2 = i)) + 1 :=
  List.countP_cons_of_pos (decide_eq_true rfl)

theorem held_cons_of_ne (t : T) (refs : List (T × Nat)) {i j : Nat} (h : j ≠ i) :
    ((t, i) :: refs).countP (fun p => decide (p.2 = j)) =
      refs.countP (fun p => decide (p.2 = j)) :=
  List.countP_cons_of_neg (fun hd => h (of_decide_eq_true hd).symm)

theorem held_erase {refs : List (T × Nat)} {t : T} (h : (t, i) ∈ refs) (j : Nat) :
    refs.countP (fun p => decide (p.2 = j)) =
      ((t, i) :: refs.erase (t, i)).countP (fun p => decide (p.2 = j)) :=
  (List.perm_cons_erase h).countP_eq _

/-- Places with different inodes have different homes. -/
theorem home_setHome_of_ne {j : Nat} (d : Dinode)
    (hne : Not ((s.icache j).disk = (s.icache i).disk ∧ (s.icache j).inum = (s.icache i).inum)) :
    (s.setHome i d).home j = s.home j :=
  if_neg hne

theorem home_setHome_self (d : Dinode) : (s.setHome i d).home i = d := if_pos ⟨rfl, rfl⟩

theorem Sound.apart (h : Sound s) {j : Nat} (hne : j ≠ i) (hi : 0 < (s.icache i).ref)
    (hj : 0 < (s.icache j).ref) :
    Not ((s.icache j).disk = (s.icache i).disk ∧ (s.icache j).inum = (s.icache i).inum) :=
  fun hsame => hne (h.unique j i (s.icache i).disk (s.icache i).inum
    ⟨hj, hsame.left, hsame.right⟩ ⟨hi, rfl, rfl⟩)

end Frames

section Setters

variable {s : State T D} {i j : Nat} {t u : T}

@[simp] theorem setPhase_icache (p : Phase) : (s.setPhase t p).icache = s.icache := rfl

theorem home_setPhase (p : Phase) : (s.setPhase t p).home j = s.home j := rfl

theorem setPhase_self (p : Phase) : (s.setPhase t p).phase t = p := if_pos rfl

theorem setPhase_of_ne {p : Phase} (h : u ≠ t) : (s.setPhase t p).phase u = s.phase u := if_neg h

theorem home_setInode {ip : CachedInode T D} (hdisk : ip.disk = (s.icache i).disk)
    (hinum : ip.inum = (s.icache i).inum) : (s.setInode i ip).home i = s.home i := by
  unfold State.home
  rw [setInode_self, hdisk, hinum]
  rfl

theorem setSem_self (o : Option T) :
    (s.setSem i o).icache i = { s.icache i with sem := o } := setInode_self _

theorem home_setSem (o : Option T) : (s.setSem i o).home i = s.home i :=
  home_setInode rfl rfl

theorem setDinode_self (d : Dinode) :
    (s.setDinode i d).icache i = { s.icache i with diskInode := d } := setInode_self _

theorem home_setDinode (d : Dinode) : (s.setDinode i d).home i = s.home i :=
  home_setInode rfl rfl

theorem home_setInode_of_ne {ip : CachedInode T D} (h : j ≠ i) :
    (s.setInode i ip).home j = s.home j := by
  unfold State.home
  rw [setInode_of_ne ip h]
  rfl

theorem keeps_setInode {ip : CachedInode T D} (h : j ≠ i) : Keeps s (s.setInode i ip) j where
  entry := setInode_of_ne ip h
  home _ := home_setInode_of_ne h
  held := rfl
  mem _ hu := hu
  loading _ := Iff.rfl
  freeing _ := Iff.rfl

theorem keeps_setPhase {s' : State T D} {p : Phase} (h : Keeps s s' j)
    (hload : p = Phase.loading j <-> s'.phase t = Phase.loading j)
    (hfree : p = Phase.freeing j <-> s'.phase t = Phase.freeing j) :
    Keeps s (s'.setPhase t p) j where
  entry := h.entry
  home := h.home
  held := h.held
  mem := h.mem
  loading u := by
    by_cases hu : u = t
    · rw [hu, setPhase_self, hload]
      exact h.loading t
    · rw [setPhase_of_ne hu]
      exact h.loading u
  freeing u := by
    by_cases hu : u = t
    · rw [hu, setPhase_self, hfree]
      exact h.freeing t
    · rw [setPhase_of_ne hu]
      exact h.freeing u

theorem Keeps.trans {s1 s2 : State T D} (h : Keeps s s1 j) (h1 : Keeps s1 s2 j) :
    Keeps s s2 j where
  entry := h1.entry.trans h.entry
  home hpos := (h1.home (by rw [h.entry]; exact hpos)).trans (h.home hpos)
  held := h1.held.trans h.held
  mem u hu := h1.mem u (h.mem u hu)
  loading u := (h1.loading u).trans (h.loading u)
  freeing u := (h1.freeing u).trans (h.freeing u)

end Setters

/-- A step at one place that keeps the inode of the place. -/
theorem Sound.at_place {s s' : State T D} {i : Nat} {ip : CachedInode T D} (h : Sound s)
    (hentry : s'.icache i = ip) (hdisk : ip.disk = (s.icache i).disk)
    (hinum : ip.inum = (s.icache i).inum) (href : 0 < ip.ref -> 0 < (s.icache i).ref)
    (hplace : PlaceSound s' i) (hkeep : forall j, j ≠ i -> Keeps s s' j)
    (hclear : forall disk inum, Not (InUse (s'.stored disk inum)) ->
      (s'.stored disk inum).nlink = 0) : Sound s' := by
  have hhas : forall j disk inum, Has s' j disk inum -> Has s j disk inum := by
    intro j disk inum hj
    unfold Has at hj ⊢
    by_cases hji : j = i
    · rw [hji, hentry, hdisk, hinum] at hj
      rw [hji]
      exact ⟨href hj.left, hj.right⟩
    · rw [(hkeep j hji).entry] at hj
      exact hj
  constructor
  · intro j
    by_cases hji : j = i
    · rw [hji]
      exact hplace
    · exact (h.place j).keep (hkeep j hji)
  · exact fun j k disk inum hj hk =>
      h.unique j k disk inum (hhas j disk inum hj) (hhas k disk inum hk)
  · exact hclear

/-!
# References
-/

section References

variable {s : State T D}

/-- A place whose freeing has begun is nobody else's. -/
theorem Sound.only_ref (h : Sound s) {t u : T} {i : Nat} (hfree : s.phase u = Phase.freeing i)
    (hmem : (t, i) ∈ s.refs) : t = u := by
  have hu := (h.place i).freeing u hfree
  have hmemU := (h.place i).holder u hu.left
  have hone : s.held i = 1 := (h.place i).counted.symm.trans hu.right.right.right.right
  by_cases heq : t = u
  · exact heq
  · have hne : (t, i) ≠ (u, i) := fun e => heq (congrArg Prod.fst e)
    have hrest : (t, i) ∈ s.refs.erase (u, i) := (List.mem_erase_of_ne hne).mpr hmem
    have hpos : 0 < (s.refs.erase (u, i)).countP (fun p => decide (p.2 = i)) :=
      List.countP_pos_iff.mpr ⟨(t, i), hrest, decide_eq_true rfl⟩
    have hcount := held_erase hmemU i
    rw [held_cons_self] at hcount
    unfold State.held at hone
    lia

theorem Sound.ref_pos (h : Sound s) {t : T} {i : Nat} (hmem : (t, i) ∈ s.refs) :
    0 < (s.icache i).ref := by
  rw [(h.place i).counted]
  exact List.countP_pos_iff.mpr ⟨(t, i), hmem, decide_eq_true rfl⟩

theorem Sound.addRef (h : Sound s) {i : Nat} {t : T} (hpos : 0 < (s.icache i).ref)
    (hnot : forall u, s.phase u ≠ Phase.freeing i) : Sound (s.addRef i t) := by
  have hsame : forall j, (s.addRef i t).home j = s.home j := by
    intro j
    by_cases hj : j = i
    · rw [hj]
      unfold State.home State.addRef
      dsimp only
      rw [setInode_self]
      rfl
    · unfold State.home State.addRef
      dsimp only
      rw [setInode_of_ne _ hj]
      rfl
  have hold := h.place i
  have hentry : (s.addRef i t).icache i = { s.icache i with ref := (s.icache i).ref + 1 } :=
    setInode_self _
  apply h.at_place hentry rfl rfl (fun _ => hpos) _ _ h.clear
  · constructor
    · exact fun _ => hold.inRange hpos
    · rw [hentry]
      show (s.icache i).ref + 1 = ((t, i) :: s.refs).countP _
      rw [held_cons_self, hold.counted]
      rfl
    · rw [hentry]
      exact fun u hu => List.mem_cons_of_mem _ (hold.holder u hu)
    · rw [hsame]
      exact fun _ => hold.used hpos
    · rw [hentry]
      exact fun _ => hold.typed hpos
    · rw [hentry, hsame]
      exact fun _ => hold.synced hpos
    · rw [hentry]
      exact hold.ready
    · rw [hentry]
      exact hold.loading
    · exact fun u hu => absurd hu (hnot u)
  · intro j hj
    constructor
    · exact setInode_of_ne _ hj
    · exact fun _ => hsame j
    · exact held_cons_of_ne t s.refs hj
    · exact fun u hu => List.mem_cons_of_mem _ hu
    · exact fun u => Iff.rfl
    · exact fun u => Iff.rfl

theorem Sound.occupy (h : Sound s) {i : Nat} {t : T} {disk : D} {inum : UInt32}
    (hi : i < nicache) (hempty : (s.icache i).ref = 0)
    (hnew : forall j, Not (Has s j disk inum)) (hused : InUse (s.stored disk inum)) :
    Sound (s.occupy i disk inum t) := by
  have hold := h.place i
  have hentry : (s.occupy i disk inum t).icache i =
      { s.icache i with disk := disk, inum := inum, ref := 1, valid := false } := setInode_self _
  have hhome : (s.occupy i disk inum t).home i = s.stored disk inum := by
    unfold State.home
    rw [hentry]
    rfl
  have hheld : s.held i = 0 := hold.counted.symm.trans hempty
  have hnobody : forall u, (u, i) ∈ s.refs -> False := by
    intro u hu
    have hpos := h.ref_pos hu
    lia
  have hother : forall j, j ≠ i -> (s.occupy i disk inum t).icache j = s.icache j :=
    fun j hj => setInode_of_ne _ hj
  constructor
  · intro j
    by_cases hj : j = i
    · rw [hj]
      constructor
      · exact fun _ => hi
      · rw [hentry]
        show 1 = ((t, i) :: s.refs).countP _
        rw [held_cons_self]
        unfold State.held at hheld
        rw [hheld]
      · rw [hentry]
        exact fun u hu => absurd (hold.holder u hu) (hnobody u)
      · rw [hhome]
        exact fun _ => hused
      · rw [hentry]
        exact fun _ hv => Bool.noConfusion hv
      · rw [hentry]
        exact fun _ hv => Bool.noConfusion hv
      · rw [hentry]
        exact fun u hu => absurd (hold.holder u hu) (hnobody u)
      · exact fun u hu => absurd (hold.holder u (hold.loading u hu).left) (hnobody u)
      · exact fun u hu => absurd (hold.holder u (hold.freeing u hu).left) (hnobody u)
    · apply (h.place j).keep
      constructor
      · exact hother j hj
      · intro _
        unfold State.home
        rw [hother j hj]
        rfl
      · exact held_cons_of_ne t s.refs hj
      · exact fun u hu => List.mem_cons_of_mem _ hu
      · exact fun u => Iff.rfl
      · exact fun u => Iff.rfl
  · intro j k disk' inum' hj hk
    have hcase : forall l, Has (s.occupy i disk inum t) l disk' inum' ->
        (l = i ∧ disk' = disk ∧ inum' = inum) ∨ (l ≠ i ∧ Has s l disk' inum') := by
      intro l hl
      unfold Has at hl ⊢
      by_cases hli : l = i
      · rw [hli, hentry] at hl
        exact Or.inl ⟨hli, hl.right.left.symm, hl.right.right.symm⟩
      · rw [hother l hli] at hl
        exact Or.inr ⟨hli, hl⟩
    rcases hcase j hj with ⟨hji, hd, hn⟩ | ⟨hji, hj⟩
    · rcases hcase k hk with ⟨hki, -, -⟩ | ⟨-, hk⟩
      · rw [hji, hki]
      · rw [hd, hn] at hk
        exact absurd hk (hnew k)
    · rcases hcase k hk with ⟨-, hd, hn⟩ | ⟨-, hk⟩
      · rw [hd, hn] at hj
        exact absurd hj (hnew j)
      · exact h.unique j k disk' inum' hj hk
  · exact h.clear

/-- The end of a call at a place that takes back one reference. -/
theorem held_dropRef {t : T} {i : Nat} (hmem : (t, i) ∈ s.refs) :
    (s.dropRef i t).held i + 1 = s.held i := by
  unfold State.held
  rw [held_erase hmem i, held_cons_self]
  rfl

theorem held_dropRef_of_ne {t : T} {i j : Nat} (hmem : (t, i) ∈ s.refs) (hne : j ≠ i) :
    (s.dropRef i t).held j = s.held j := by
  unfold State.held
  rw [held_erase hmem j, held_cons_of_ne _ _ hne]
  rfl

theorem home_dropRef_of_ne {t : T} {i j : Nat} (hne : j ≠ i) :
    (s.dropRef i t).home j = s.home j := by
  unfold State.home State.dropRef
  dsimp only
  rw [setInode_of_ne _ hne]
  rfl

theorem mem_dropRef_of_ne {t u : T} {i j : Nat} (hne : j ≠ i) (hu : (u, j) ∈ s.refs) :
    (u, j) ∈ (s.dropRef i t).refs :=
  (List.mem_erase_of_ne (fun e => hne (congrArg Prod.snd e))).mpr hu

end References

/-!
# Searches
-/

section Searches

variable {s : State T D} {disk : D} {inum : UInt32} {i : Nat}

theorem findInode_some (h : s.findInode disk inum = some i) : Has s i disk inum := by
  unfold State.findInode at h
  have htest := List.find?_some h
  unfold Has
  exact of_decide_eq_true htest

theorem findInode_none (hs : Sound s) (h : s.findInode disk inum = none) (j : Nat) :
    Not (Has s j disk inum) := by
  intro hj
  unfold State.findInode at h
  have hmem : j ∈ List.range nicache := List.mem_range.mpr ((hs.place j).inRange hj.left)
  exact List.find?_eq_none.mp h j hmem (decide_eq_true hj)

theorem findEmpty_some (h : s.findEmpty = some i) : i < nicache ∧ (s.icache i).ref = 0 := by
  unfold State.findEmpty at h
  have htest := List.find?_some h
  exact ⟨List.mem_range.mp (List.mem_of_find?_eq_some h), of_decide_eq_true htest⟩

end Searches

end Invariant

end Icache
end Fs
end NicoOS
