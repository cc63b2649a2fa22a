import NicoOS.Fs.Syscall.PathBuffer

/-!
# Path lookup is a fold

`path_lookup` walks from the root or from the current directory along the components of
the path, one `dir_lookup` for each, and leaves one more reference on what it returns.
-/

namespace NicoOS
namespace Fs
namespace Syscall

open Lib
open Inode (InodeType nicache)

/-!
# Names in directories
-/

/-- The inode behind one component; the component is looked up in the inode `cur`. -/
def entryAt (s : State) (cur : Nat) (name : Name) : Option Nat :=
  if (s.dinodes cur).type = InodeType.directory then
    (findEntry name 0 (s.data cur)).map Prod.snd
  else
    none

/-- The components in order, as long as there is something behind them. -/
def foldEntries (s : State) (start : Nat) (names : List Name) : Option Nat :=
  names.foldl (fun cur name => cur.bind (fun inum => entryAt s inum name)) (some start)

theorem foldEntries_none (s : State) (names : List Name) :
    names.foldl (fun cur name => cur.bind (fun inum => entryAt s inum name)) none = none := by
  induction names with
  | nil => rfl
  | cons name rest ih => exact ih

theorem foldEntries_cons_none {s : State} {cur : Nat} {name : Name} (rest : List Name)
    (h : entryAt s cur name = none) : foldEntries s cur (name :: rest) = none := by
  unfold foldEntries
  rw [List.foldl_cons, Option.bind_some, h]
  exact foldEntries_none s rest

theorem foldEntries_cons_some {s : State} {cur next : Nat} {name : Name} (rest : List Name)
    (h : entryAt s cur name = some next) :
    foldEntries s cur (name :: rest) = foldEntries s next rest := by
  unfold foldEntries
  rw [List.foldl_cons, Option.bind_some, h]

/-- An inode in use that has a link or a place in the cache. -/
def Anchored (s : State) (inum : Nat) : Prop :=
  (s.dinodes inum).type ≠ InodeType.none ∧
    ((s.dinodes inum).nlink ≠ 0 ∨ exists i, 0 < (s.icache i).ref ∧ (s.icache i).inum = inum)

/-- The entries of the directories name inodes in use that have a link or a place. -/
def EntriesAnchored (s : State) : Prop :=
  forall inum e, (s.dinodes inum).type = InodeType.directory -> e ∈ s.data inum -> e.inum ≠ 0 ->
    Anchored s e.inum

/-- Directories have no holes, unless a log operation has begun. -/
def Readable (s : State) : Prop :=
  forall inum, (s.dinodes inum).type = InodeType.directory ->
    s.holes inum = [] ∨ 1 ≤ s.outstanding

theorem findEntry_some {name : Name} {k offset inum : Nat} {entries : List Dirent}
    (h : findEntry name k entries = some (offset, inum)) :
    exists e, e ∈ entries ∧ e.inum ≠ 0 ∧ e.inum = inum := by
  induction entries generalizing k with
  | nil => cases h
  | cons e rest ih =>
      rw [findEntry] at h
      split at h
      · rename_i hfound
        cases h
        exact ⟨e, List.mem_cons_self, hfound.left, rfl⟩
      · rcases ih h with ⟨e', hmem, hne, heq⟩
        exact ⟨e', List.mem_cons_of_mem e hmem, hne, heq⟩

theorem EntriesAnchored.next {s : State} {cur next : Nat} {name : Name} (h : EntriesAnchored s)
    (hentry : entryAt s cur name = some next) : Anchored s next := by
  unfold entryAt at hentry
  split at hentry
  · rename_i hdir
    rcases Option.map_eq_some_iff.mp hentry with ⟨⟨offset, inum⟩, hfound, heq⟩
    cases heq
    rcases findEntry_some hfound with ⟨e, hmem, hne, rfl⟩
    exact h cur e hdir hmem hne
  · cases hentry

/-!
# The cache
-/

/-- Each inode has one place, and a copy that is there is that of the disk. -/
structure CacheSound (s : State) : Prop where
  inside : forall i, 0 < (s.icache i).ref -> i < nicache
  distinct : forall i j, 0 < (s.icache i).ref -> 0 < (s.icache j).ref ->
    (s.icache i).inum = (s.icache j).inum -> i = j
  coherent : forall i, 0 < (s.icache i).ref -> (s.icache i).valid = true ->
    (s.icache i).diskInode = s.dinodes (s.icache i).inum

def one (i : Nat) : Nat -> Nat := fun j => if j = i then 1 else 0

theorem one_self (i : Nat) : one i i = 1 := if_pos rfl

theorem one_of_ne {i j : Nat} (h : j ≠ i) : one i j = 0 := if_neg h

/--
The state `u` behind `s` on the way of a lookup: only references in `extra` have been
added, and only the place `held` is locked.
-/
structure Underway (s : State) (extra : Nat -> Nat) (held : Option Nat) (u : State) : Prop where
  rest : u = { s with icache := u.icache }
  ref : forall i, (u.icache i).ref = (s.icache i).ref + extra i
  inum : forall i, 0 < (s.icache i).ref -> (u.icache i).inum = (s.icache i).inum
  locked : forall i, (u.icache i).locked = true <-> held = some i
  cache : CacheSound u

section Steps

variable {s u : State} {extra : Nat -> Nat} {i : Nat}

theorem setInode_self (ip : CachedInode) : (u.setInode i ip).icache i = ip :=
  Function.update_self ..

theorem setInode_of_ne {j : Nat} (ip : CachedInode) (h : j ≠ i) :
    (u.setInode i ip).icache j = u.icache j :=
  Function.update_of_ne h ..

/-- A place with a reference keeps its inode, and the copy is that of the disk. -/
theorem CacheSound.setInode (h : CacheSound u) (hi : i < nicache) {ip : CachedInode}
    (hnew : forall j, j ≠ i -> 0 < (u.icache j).ref -> 0 < ip.ref -> (u.icache j).inum ≠ ip.inum)
    (hcopy : 0 < ip.ref -> ip.valid = true -> ip.diskInode = u.dinodes ip.inum) :
    CacheSound (u.setInode i ip) where
  inside j hj := by
    by_cases hji : j = i
    · rw [hji]
      exact hi
    · rw [setInode_of_ne ip hji] at hj
      exact h.inside j hj
  distinct j k hj hk heq := by
    by_cases hji : j = i
    · by_cases hki : k = i
      · rw [hji, hki]
      · rw [hji, setInode_self] at hj heq
        rw [setInode_of_ne ip hki] at hk heq
        exact absurd heq.symm (hnew k hki hk hj)
    · rw [setInode_of_ne ip hji] at hj heq
      by_cases hki : k = i
      · rw [hki, setInode_self] at hk heq
        exact absurd heq (hnew j hji hj hk)
      · rw [setInode_of_ne ip hki] at hk heq
        exact h.distinct j k hj hk heq
  coherent j hj hvalid := by
    by_cases hji : j = i
    · rw [hji, setInode_self] at hj hvalid ⊢
      exact hcopy hj hvalid
    · rw [setInode_of_ne ip hji] at hj hvalid ⊢
      exact h.coherent j hj hvalid

/-- A place in use gets a new count and lock, and a valid copy. -/
theorem Underway.update {extra' : Nat -> Nat} {held held' : Option Nat} {ip : CachedInode}
    (h : Underway s extra held u) (hi : i < nicache) (hinum : 0 < (u.icache i).ref)
    (hsame : ip.inum = (u.icache i).inum)
    (hcopy : ip.valid = true -> ip.diskInode = u.dinodes ip.inum)
    (href : ip.ref = (s.icache i).ref + extra' i)
    (hextra : forall j, j ≠ i -> extra' j = extra j)
    (hlocked : ip.locked = true <-> held' = some i)
    (hheld : forall j, j ≠ i -> (held' = some j <-> held = some j)) :
    Underway s extra' held' (u.setInode i ip) where
  rest := by
    have hrest := h.rest
    unfold State.setInode
    rw [hrest]
  ref j := by
    by_cases hji : j = i
    · rw [hji, setInode_self]
      exact href
    · rw [setInode_of_ne ip hji, hextra j hji]
      exact h.ref j
  inum j hj := by
    by_cases hji : j = i
    · rw [hji] at hj ⊢
      rw [setInode_self, hsame]
      exact h.inum i hj
    · rw [setInode_of_ne ip hji]
      exact h.inum j hj
  locked j := by
    by_cases hji : j = i
    · rw [hji, setInode_self]
      exact hlocked
    · rw [setInode_of_ne ip hji, hheld j hji]
      exact h.locked j
  cache := by
    apply h.cache.setInode hi
    · intro j hji hj _ heq
      rw [hsame] at heq
      exact hji (h.cache.distinct j i hj hinum heq)
    · exact fun _ hvalid => hcopy hvalid

theorem Underway.lock (h : Underway s extra none u) (hi : 0 < (u.icache i).ref)
    (htype : (u.dinodes (u.icache i).inum).type ≠ InodeType.none) :
    inodeLock i u = Except.ok (u.setInode i { u.icache i with
        locked := true
        valid := true
        diskInode := u.dinodes (u.icache i).inum }) ∧
      Underway s extra (some i) (u.setInode i { u.icache i with
        locked := true
        valid := true
        diskInode := u.dinodes (u.icache i).inum }) := by
  have hunlocked : Not ((u.icache i).locked = true) := by
    intro hlocked
    cases (h.locked i).mp hlocked
  constructor
  · unfold inodeLock
    dsimp only
    rw [if_pos (Nat.succ_le_of_lt hi), if_neg hunlocked]
    by_cases hvalid : (u.icache i).valid = true
    · rw [if_pos hvalid, <- h.cache.coherent i hi hvalid, <- hvalid]
    · rw [if_neg hvalid, if_pos htype]
  · refine h.update (h.cache.inside i hi) hi rfl ?_ (h.ref i) (fun _ _ => rfl) ?_ ?_
    · exact fun _ => rfl
    · exact ⟨fun _ => rfl, fun _ => rfl⟩
    · intro j hji
      constructor
      · intro hsome
        exact absurd (Option.some.inj hsome).symm hji
      · intro hnone
        cases hnone

theorem iget_present (hcache : CacheSound u) {inum : Nat} (hi : 0 < (u.icache i).ref)
    (hinum : (u.icache i).inum = inum) :
    iget inum u = Except.ok (i, u.setInode i { u.icache i with ref := (u.icache i).ref + 1 }) := by
  unfold iget
  rcases findInode_cases u.icache inum nicache 0 none (fun j hj => by cases hj) with
    ⟨j, hj, -, -, href, hsame⟩ | ⟨-, hnone⟩
  · have hji : j = i := hcache.distinct j i href hi (hsame.trans hinum.symm)
    rw [hj, hji]
  · exact absurd hinum (hnone i (Nat.zero_le i) (by have := hcache.inside i hi; lia) hi)

/-- The search for an inode without a place ends at an empty one. -/
theorem findInode_empty {icache : Nat -> CachedInode} {inum : Nat} (k i : Nat)
    (empty : Option Nat)
    (hnone : forall j, i ≤ j -> j < i + k -> 0 < (icache j).ref -> (icache j).inum ≠ inum)
    (hempty : forall j, empty = some j -> j < i ∧ (icache j).ref = 0)
    (hfree : empty ≠ none ∨ exists j, i ≤ j ∧ j < i + k ∧ (icache j).ref = 0) :
    exists j, findInode icache inum k i empty = Sum.inr (some j) ∧ j < i + k ∧
      (icache j).ref = 0 := by
  induction k generalizing i empty with
  | zero =>
      rcases hfree with hsome | ⟨j, hlow, hhigh, -⟩
      · rcases Option.ne_none_iff_exists'.mp hsome with ⟨j, hj⟩
        exact ⟨j, congrArg Sum.inr hj, (hempty j hj).left, (hempty j hj).right⟩
      · lia
  | succ k ih =>
      have hhere : Not ((icache i).ref > 0 ∧ (icache i).inum = inum) :=
        fun hboth => hnone i (Nat.le_refl i) (by lia) hboth.left hboth.right
      rw [findInode, if_neg hhere]
      have hkeeps : forall j,
          (if empty = none ∧ (icache i).ref = 0 then some i else empty) = some j ->
            j < i + 1 ∧ (icache j).ref = 0 := by
        intro j hj
        split at hj
        · rename_i hboth
          cases hj
          exact ⟨Nat.lt_succ_self i, hboth.right⟩
        · rcases hempty j hj with ⟨hlt, hzero⟩
          exact ⟨by lia, hzero⟩
      have hstill : (if empty = none ∧ (icache i).ref = 0 then some i else empty) ≠ none ∨
          exists j, i + 1 ≤ j ∧ j < i + 1 + k ∧ (icache j).ref = 0 := by
        split
        · exact Or.inl (Option.some_ne_none i)
        · rename_i hboth
          rcases hfree with hsome | ⟨j, hlow, hhigh, hzero⟩
          · exact Or.inl hsome
          · by_cases hji : j = i
            · left
              intro hnil
              exact hboth ⟨hnil, hji ▸ hzero⟩
            · exact Or.inr ⟨j, by lia, by lia, hzero⟩
      rcases ih (i + 1) _ (fun j hlow hhigh => hnone j (by lia) (by lia)) hkeeps hstill with
        ⟨j, hj, hlt, hzero⟩
      exact ⟨j, hj, by lia, hzero⟩

theorem iget_absent {inum : Nat}
    (hnone : forall j, 0 < (u.icache j).ref -> (u.icache j).inum ≠ inum)
    (hfree : exists j, j < nicache ∧ (u.icache j).ref = 0) :
    exists i, i < nicache ∧ (u.icache i).ref = 0 ∧ iget inum u = Except.ok (i, u.setInode i
      { u.icache i with inum := inum, ref := 1, valid := false }) := by
  rcases hfree with ⟨j, hj, hzero⟩
  rcases findInode_empty nicache 0 none (fun j _ _ => hnone j) (fun j hj => by cases hj)
    (Or.inr ⟨j, Nat.zero_le j, by lia, hzero⟩) with ⟨i, hi, hlt, hempty⟩
  refine ⟨i, by lia, hempty, ?_⟩
  unfold iget
  rw [hi]

/-- `iget` where an empty place is left; the places in use change in their count only. -/
theorem Underway.get {held : Option Nat} (h : Underway s extra held u) (inum : Nat)
    (hfree : exists j, j < nicache ∧ (u.icache j).ref = 0)
    (hheld : forall i, held = some i -> 0 < (u.icache i).ref) :
    exists i u', iget inum u = Except.ok (i, u') ∧
      Underway s (fun j => extra j + one i j) held u' ∧ (u'.icache i).inum = inum ∧
      forall j, 0 < (u.icache j).ref ->
        u'.icache j = { u.icache j with ref := (u.icache j).ref + one i j } := by
  by_cases hthere : exists i, 0 < (u.icache i).ref ∧ (u.icache i).inum = inum
  · rcases hthere with ⟨i, hi, hinum⟩
    refine ⟨i, _, iget_present h.cache hi hinum, ?_, ?_, ?_⟩
    · refine h.update (h.cache.inside i hi) hi rfl ?_ ?_ ?_ (h.locked i) (fun _ _ => Iff.rfl)
      · exact fun hvalid => h.cache.coherent i hi hvalid
      · show (u.icache i).ref + 1 = (s.icache i).ref + (extra i + one i i)
        rw [h.ref i, one_self i, Nat.add_assoc]
      · intro j hji
        show extra j + one i j = extra j
        rw [one_of_ne hji, Nat.add_zero]
    · rw [setInode_self]
      exact hinum
    · intro j hj
      by_cases hji : j = i
      · rw [hji, setInode_self, one_self i]
      · rw [setInode_of_ne _ hji, one_of_ne hji, Nat.add_zero]
  · have hnone : forall j, 0 < (u.icache j).ref -> (u.icache j).inum ≠ inum :=
      fun j hj hinum => hthere ⟨j, hj, hinum⟩
    rcases iget_absent hnone hfree with ⟨i, hi, hzero, hrun⟩
    have hcount : (s.icache i).ref = 0 ∧ extra i = 0 := by
      have href := h.ref i
      rw [hzero] at href
      lia
    have hunlocked : Not (held = some i) := by
      intro hsome
      have hpos := hheld i hsome
      lia
    refine ⟨i, _, hrun, ?_, ?_, ?_⟩
    · constructor
      · have hrest := h.rest
        unfold State.setInode
        rw [hrest]
      · intro j
        by_cases hji : j = i
        · rw [hji, setInode_self, one_self i, hcount.left, hcount.right]
        · rw [setInode_of_ne _ hji, one_of_ne hji, Nat.add_zero]
          exact h.ref j
      · intro j hj
        have hji : j ≠ i := by
          intro e
          rw [e, hcount.left] at hj
          cases hj
        rw [setInode_of_ne _ hji]
        exact h.inum j hj
      · intro j
        by_cases hji : j = i
        · rw [hji, setInode_self]
          exact h.locked i
        · rw [setInode_of_ne _ hji]
          exact h.locked j
      · apply h.cache.setInode hi
        · exact fun j _ hj _ => hnone j hj
        · intro _ hvalid
          cases hvalid
    · rw [setInode_self]
    · intro j hj
      have hji : j ≠ i := by
        intro e
        rw [e, hzero] at hj
        cases hj
      rw [setInode_of_ne _ hji, one_of_ne hji, Nat.add_zero]

/-- `inode_unlockput` of an inode that has a link or another reference. -/
theorem Underway.unlockput (t : Nat) (h : Underway s extra (some i) u)
    (hextra : 0 < extra i)
    (hkept : (u.icache i).diskInode.nlink ≠ 0 ∨ 1 < (u.icache i).ref) :
    exists u', Program.exec (perform t) (inodeUnlockput i) u = Except.ok ((), u') ∧
      Underway s (fun j => extra j - one i j) none u' ∧
      (forall j, (u'.icache j).inum = (u.icache j).inum) := by
  have hlocked : (u.icache i).locked = true := (h.locked i).mpr rfl
  have hpos : 0 < (u.icache i).ref := by
    rw [h.ref i]
    lia
  have hunlock : done (inodeUnlock i u) =
      Except.ok ((), u.setInode i { u.icache i with locked := false }) := by
    unfold inodeUnlock
    dsimp only
    rw [if_pos ⟨hlocked, hpos⟩]
    rfl
  have hstart : putStart i none (u.setInode i { u.icache i with locked := false }) =
      Except.ok (false, u) := by
    have hback : (u.setInode i { u.icache i with locked := false }).setInode i
        { u.icache i with locked := true } = u := by
      unfold State.setInode
      dsimp only
      rw [Function.update_idem, <- hlocked, Function.update_eq_self]
    have hstays : decide ((u.icache i).valid = true ∧ (u.icache i).diskInode.nlink = 0 ∧
        (u.icache i).ref = 1) = false := by
      apply decide_eq_false
      intro hall
      rcases hall with ⟨-, hnlink, href⟩
      rcases hkept with hlink | hmore
      · exact hlink hnlink
      · lia
    unfold putStart
    dsimp only
    rw [setInode_self]
    dsimp only
    rw [if_pos (Nat.succ_le_of_lt hpos), if_neg (by decide), hstays, hback]
    rfl
  refine ⟨putEnd i u, ?_, ?_, ?_⟩
  · refine (Program.exec_op_ok (o := Op.inodeUnlock i) hunlock).trans ?_
    exact (Program.exec_op_ok (o := Op.putStart i none) hstart).trans rfl
  · have hcount := h.ref i
    unfold putEnd
    refine h.update (h.cache.inside i hpos) hpos rfl ?_ ?_ ?_ ?_ ?_
    · exact fun hvalid => h.cache.coherent i hpos hvalid
    · show (u.icache i).ref - 1 = (s.icache i).ref + (extra i - one i i)
      rw [one_self i]
      lia
    · intro j hji
      show extra j - one i j = extra j
      rw [one_of_ne hji, Nat.sub_zero]
    · constructor
      · intro hfalse
        cases hfalse
      · intro hnone
        cases hnone
    · intro j hji
      constructor
      · intro hnone
        cases hnone
      · intro hsome
        exact absurd (Option.some.inj hsome).symm hji
  · intro j
    unfold putEnd
    by_cases hji : j = i
    · rw [hji, setInode_self]
    · rw [setInode_of_ne _ hji]

end Steps

/-!
# The walk
-/

/-- The references that the answer of a lookup stands for. -/
def refsOf (r : Option Nat) : Nat -> Nat := fun j => if r = some j then 1 else 0

theorem refsOf_some (i : Nat) : refsOf (some i) = one i := by
  funext j
  unfold refsOf one
  by_cases h : j = i
  · rw [if_pos h, if_pos (congrArg some h.symm)]
  · rw [if_neg h, if_neg (fun e => h (Option.some.inj e).symm)]

/-- What a lookup leaves: one more reference at the place that it answers, if any. -/
structure Leaves (s : State) (r : Option Nat) (want : Option Nat) (u : State) : Prop where
  underway : Underway s (refsOf r) none u
  answer : r.map (fun i => (u.icache i).inum) = want

/-- An inode that `inode_put` behind the lookup does not free. -/
def Kept (s : State) (i inum : Nat) : Prop :=
  (s.dinodes inum).type ≠ InodeType.none ∧ ((s.dinodes inum).nlink ≠ 0 ∨ 0 < (s.icache i).ref)

def TwoFree (s : State) : Prop :=
  exists a b, a ≠ b ∧ (a < nicache ∧ (s.icache a).ref = 0) ∧ b < nicache ∧ (s.icache b).ref = 0

/-- One of the two places is left while one inode is held. -/
theorem TwoFree.left {s u : State} {i : Nat} {held : Option Nat} (h : TwoFree s)
    (hu : Underway s (one i) held u) : exists j, j < nicache ∧ (u.icache j).ref = 0 := by
  rcases h with ⟨a, b, hne, ⟨ha, hfreeA⟩, hb, hfreeB⟩
  have hcount : forall j, j ≠ i -> (s.icache j).ref = 0 -> (u.icache j).ref = 0 := by
    intro j hji hzero
    rw [hu.ref j, hzero, one_of_ne hji]
  by_cases hai : a = i
  · exact ⟨b, hb, hcount b (fun e => hne (hai.trans e.symm)) hfreeB⟩
  · exact ⟨a, ha, hcount a hai hfreeA⟩

section Walk

variable {s u : State} {i : Nat}

theorem Underway.dinodes {extra : Nat -> Nat} {held : Option Nat} (h : Underway s extra held u) :
    u.dinodes = s.dinodes := by
  have hrest := congrArg State.dinodes h.rest
  exact hrest

theorem Underway.data {extra : Nat -> Nat} {held : Option Nat} (h : Underway s extra held u) :
    u.data = s.data := by
  have hrest := congrArg State.data h.rest
  exact hrest

theorem Underway.holes {extra : Nat -> Nat} {held : Option Nat} (h : Underway s extra held u) :
    u.holes = s.holes := by
  have hrest := congrArg State.holes h.rest
  exact hrest

theorem Underway.outstanding {extra : Nat -> Nat} {held : Option Nat}
    (h : Underway s extra held u) : u.outstanding = s.outstanding := by
  have hrest := congrArg State.outstanding h.rest
  exact hrest

theorem Underway.pos {held : Option Nat} (h : Underway s (one i) held u) :
    0 < (u.icache i).ref := by
  rw [h.ref i, one_self i]
  exact Nat.succ_pos _

/-- What is in the cache of `s` still is there, and at one place only. -/
theorem Anchored.kept {j : Nat} (h : Anchored s (u.icache j).inum)
    (hu : Underway s (one j) none u) : Kept s j (u.icache j).inum := by
  refine ⟨h.left, ?_⟩
  rcases h.right with hlink | ⟨k, href, hinum⟩
  · exact Or.inl hlink
  · have hused : 0 < (u.icache k).ref := by
      rw [hu.ref k]
      exact Nat.lt_add_right _ href
    have hsame : k = j := hu.cache.distinct k j hused hu.pos ((hu.inum k href).trans hinum)
    exact Or.inr (hsame ▸ href)

/-- The lookup ends without an answer, and the directory is put. -/
theorem exec_walk_nothing (t : Nat) {inum : Nat} (h : Underway s (one i) (some i) u)
    (hcopy : (u.icache i).diskInode = s.dinodes inum) (hkept : Kept s i inum) :
    exists u', Program.exec (perform t) (inodeUnlockput i) u = Except.ok ((), u') ∧
      Leaves s none none u' := by
  have hstays : (u.icache i).diskInode.nlink ≠ 0 ∨ 1 < (u.icache i).ref := by
    rcases hkept.right with hlink | hpos
    · left
      rw [hcopy]
      exact hlink
    · right
      rw [h.ref i, one_self i]
      lia
  rcases h.unlockput t (one_self i ▸ Nat.one_pos) hstays with ⟨u', hput, hu', -⟩
  refine ⟨u', hput, ?_, rfl⟩
  have hnobody : (fun j => one i j - one i j) = refsOf none := by
    funext j
    exact Nat.sub_self _
  rw [<- hnobody]
  exact hu'

theorem exec_dirLookup (t : Nat) {inum : Nat} {name : Name} (h : Underway s (one i) (some i) u)
    (hinum : (u.icache i).inum = inum) (hcopy : (u.icache i).diskInode = s.dinodes inum)
    (hdir : (s.dinodes inum).type = InodeType.directory) (hread : Readable s)
    (hshort : Short name) (hfree : TwoFree s) :
    (findEntry name 0 (s.data inum) = none ∧
      Program.exec (perform t) (dirLookup i name) u = Except.ok (none, u)) ∨
    exists offset next j u', findEntry name 0 (s.data inum) = some (offset, next) ∧
      Program.exec (perform t) (dirLookup i name) u = Except.ok (some (offset, j), u') ∧
      Underway s (fun k => one i k + one j k) (some i) u' ∧ (u'.icache j).inum = next ∧
      (u'.icache i).diskInode = s.dinodes inum := by
  have hheld : heldDirectory i u = Except.ok () := by
    unfold heldDirectory
    rw [hcopy, if_pos hdir, if_pos ((h.locked i).mpr rfl)]
  have hfind : dirFind i name u = Except.ok (findEntry name 0 (s.data inum), u) := by
    unfold dirFind
    rw [hheld, ok_bind, if_pos (Nat.le_of_lt hshort), hinum, h.data]
  have hreads : u.holes (u.icache i).inum = [] ∨ 1 ≤ u.outstanding := by
    rw [hinum, h.holes, h.outstanding]
    exact hread inum hdir
  cases hentry : findEntry name 0 (s.data inum) with
  | none =>
      left
      rw [hentry] at hfind
      refine ⟨rfl, (Program.exec_op_ok (o := Op.dirFind i name) hfind).trans ?_⟩
      exact (Program.exec_bind_ok (exec_inodeRead hreads)).trans rfl
  | some found =>
      right
      rcases found with ⟨offset, next⟩
      rw [hentry] at hfind
      have hpos : forall k, some i = some k -> 0 < (u.icache k).ref := by
        intro k hk
        cases hk
        exact h.pos
      rcases h.get next (hfree.left h) hpos with ⟨j, u', hget, hu', hnext, hsame⟩
      refine ⟨offset, next, j, u', rfl, ?_, hu', hnext, ?_⟩
      · refine (Program.exec_op_ok (o := Op.dirFind i name) hfind).trans ?_
        refine (Program.exec_bind_ok (exec_inodeRead hreads)).trans ?_
        exact (Program.exec_op_ok (o := Op.iget next) hget).trans rfl
      · rw [hsame i h.pos]
        exact hcopy

theorem exec_walk_file (t : Nat) {u1 : State} {name : Name} (rest : List Name) (last : Name)
    (hname : Short name) (hlock : inodeLock i u = Except.ok u1)
    (hfile : (u1.icache i).diskInode.type ≠ InodeType.directory) :
    Program.exec (perform t) (walk false i (name :: rest) last) u =
      Program.exec (perform t) (do
        inodeUnlockput i
        pure none) u1 := by
  have hlocked : done (inodeLock i u) = Except.ok ((), u1) := by
    rw [hlock]
    rfl
  have hinode : Except.ok (u1.icache i, u1) =
      (Except.ok (u1.icache i, u1) : Except Stop (CachedInode × State)) := rfl
  rw [walk, decide_eq_true (show name.length < direntNameLength from hname)]
  refine (Program.exec_op_ok (o := Op.assert true Stop.overrun) rfl).trans ?_
  refine (Program.exec_op_ok (o := Op.inodeLock i) hlocked).trans ?_
  refine (Program.exec_op_ok (o := Op.inode i) hinode).trans ?_
  rw [if_pos hfile]

theorem exec_walk_directory (t : Nat) {u1 v : State} {name : Name} {rest : List Name}
    (last : Name) (hname : Short name) (hlock : inodeLock i u = Except.ok u1)
    (hdir : (u1.icache i).diskInode.type = InodeType.directory) {found : Option (Nat × Nat)}
    (hlookup : Program.exec (perform t) (dirLookup i name) u1 = Except.ok (found, v)) :
    Program.exec (perform t) (walk false i (name :: rest) last) u =
      Program.exec (perform t) (do
        inodeUnlockput i
        match found with
        | none => pure none
        | some (_, next) => walk false next rest name) v := by
  have hlocked : done (inodeLock i u) = Except.ok ((), u1) := by
    rw [hlock]
    rfl
  have hinode : Except.ok (u1.icache i, u1) =
      (Except.ok (u1.icache i, u1) : Except Stop (CachedInode × State)) := rfl
  rw [walk, decide_eq_true (show name.length < direntNameLength from hname)]
  refine (Program.exec_op_ok (o := Op.assert true Stop.overrun) rfl).trans ?_
  refine (Program.exec_op_ok (o := Op.inodeLock i) hlocked).trans ?_
  refine (Program.exec_op_ok (o := Op.inode i) hinode).trans ?_
  rw [if_neg (fun hne => hne hdir), if_neg (fun hboth => by cases hboth.right)]
  refine (Program.exec_bind_ok hlookup).trans ?_
  cases found with
  | none => rfl
  | some entry => rfl

/-- The walk from a place that is held ends as the fold says. -/
theorem exec_walk (t : Nat) (hentries : EntriesAnchored s) (hread : Readable s)
    (hfree : TwoFree s) {names : List Name} (hshort : forall name, name ∈ names -> Short name)
    (last : Name)
    (h : Underway s (one i) none u) (hkept : Kept s i (u.icache i).inum) :
    exists r u', Program.exec (perform t) (walk false i names last) u = Except.ok (r, u') ∧
      Leaves s (r.map Prod.fst) (foldEntries s (u.icache i).inum names) u' := by
  induction names generalizing i u last with
  | nil =>
      refine ⟨some (i, last), u, rfl, ?_, rfl⟩
      show Underway s (refsOf (some i)) none u
      rw [refsOf_some]
      exact h
  | cons name rest ih =>
      have hname := hshort name List.mem_cons_self
      have htype : (u.dinodes (u.icache i).inum).type ≠ InodeType.none := by
        rw [h.dinodes]
        exact hkept.left
      rcases h.lock h.pos htype with ⟨hlock, h1⟩
      generalize hu1 : u.setInode i { u.icache i with
        locked := true
        valid := true
        diskInode := u.dinodes (u.icache i).inum } = u1 at hlock h1
      have hplace : u1.icache i = { u.icache i with
          locked := true
          valid := true
          diskInode := u.dinodes (u.icache i).inum } := by
        rw [<- hu1, setInode_self]
      generalize hcur : (u.icache i).inum = cur at hkept hplace ⊢
      have hinum : (u1.icache i).inum = cur := by
        rw [hplace]
        exact hcur
      have hcopy : (u1.icache i).diskInode = s.dinodes cur := by
        rw [hplace, h.dinodes]
      by_cases hdir : (s.dinodes cur).type = InodeType.directory
      · have hentry : entryAt s cur name = (findEntry name 0 (s.data cur)).map Prod.snd :=
          if_pos hdir
        have hdir1 : (u1.icache i).diskInode.type = InodeType.directory := hcopy ▸ hdir
        rcases exec_dirLookup t h1 hinum hcopy hdir hread hname hfree with
          ⟨hfound, hlookup⟩ | ⟨offset, next, j, u2, hfound, hlookup, h2, hnext, hcopy2⟩
        · rcases exec_walk_nothing t h1 hcopy hkept with ⟨u', hput, hleaves⟩
          rw [hfound] at hentry
          refine ⟨none, u', ?_, ?_⟩
          · rw [exec_walk_directory t last hname hlock hdir1 hlookup]
            exact (Program.exec_bind_ok hput).trans rfl
          · rw [foldEntries_cons_none rest hentry]
            exact hleaves
        · have hstays : (u2.icache i).diskInode.nlink ≠ 0 ∨ 1 < (u2.icache i).ref := by
            rcases hkept.right with hlink | hpos
            · left
              rw [hcopy2]
              exact hlink
            · right
              rw [h2.ref i, one_self i]
              lia
          have hadded : 0 < one i i + one j i := by
            rw [one_self i]
            exact Nat.lt_add_right _ Nat.one_pos
          rcases h2.unlockput t hadded hstays with ⟨u3, hput, h3, hinums⟩
          have hextra : (fun k => one i k + one j k - one i k) = one j := by
            funext k
            exact Nat.add_sub_cancel_left _ _
          rw [hextra] at h3
          have hinum3 : (u3.icache j).inum = next := (hinums j).trans hnext
          rw [hfound] at hentry
          have hanchored : Anchored s (u3.icache j).inum := hinum3 ▸ hentries.next hentry
          have hkept3 : Kept s j (u3.icache j).inum := hanchored.kept h3
          rcases ih (fun name hmem => hshort name (List.mem_cons_of_mem _ hmem)) name h3 hkept3 with
            ⟨r, u', hrun, hleaves⟩
          refine ⟨r, u', ?_, ?_⟩
          · rw [exec_walk_directory t last hname hlock hdir1 hlookup]
            exact (Program.exec_bind_ok hput).trans hrun
          · rw [foldEntries_cons_some rest hentry, <- hinum3]
            exact hleaves
      · have hentry : entryAt s cur name = none := if_neg hdir
        rcases exec_walk_nothing t h1 hcopy hkept with ⟨u', hput, hleaves⟩
        refine ⟨none, u', ?_, ?_⟩
        · rw [exec_walk_file t rest last hname hlock (fun heq => hdir (hcopy ▸ heq))]
          exact (Program.exec_bind_ok hput).trans rfl
        · rw [foldEntries_cons_none rest hentry]
          exact hleaves

end Walk

/-!
# Lookups
-/

/-- The inode that a lookup of the task starts at. -/
def startOf (t : Nat) (s : State) (path : Name) : Nat :=
  if path.head? = some slash then
    rootInum
  else
    ((s.tasks t).cwd.map (fun i => (s.icache i).inum)).getD 0

def lookupOf (t : Nat) (s : State) (path : Name) : Option Nat :=
  foldEntries s (startOf t s path) (components path)

theorem lookupOf_slashes (t : Nat) (s : State) (before rest : Name) :
    lookupOf t s (before ++ slash :: slash :: rest) = lookupOf t s (before ++ slash :: rest) := by
  have hstart : startOf t s (before ++ slash :: slash :: rest) =
      startOf t s (before ++ slash :: rest) := by
    unfold startOf
    cases before with
    | nil => rfl
    | cons c tail => rfl
  unfold lookupOf
  rw [hstart, components_append_slash, components_append_slash, components_slash]

theorem lookupOf_trailing (t : Nat) (s : State) {path : Name} (hne : path ≠ []) :
    lookupOf t s (path ++ [slash]) = lookupOf t s path := by
  have hstart : startOf t s (path ++ [slash]) = startOf t s path := by
    unfold startOf
    cases path with
    | nil => exact absurd rfl hne
    | cons c tail => rfl
  unfold lookupOf
  rw [hstart, components_append_slash]
  exact congrArg (foldEntries s (startOf t s path)) (List.append_nil _)

/--
A file system at rest: no call holds an inode, the root and all that an entry names is in
use and has a link or a place in the cache, directories can be read, and the task has a
directory.
-/
structure AtRest (t : Nat) (s : State) : Prop where
  cache : CacheSound s
  unlocked : forall i, (s.icache i).locked = false
  root : Anchored s rootInum
  entries : EntriesAnchored s
  readable : Readable s
  cwd : exists i, (s.tasks t).cwd = some i ∧ 0 < (s.icache i).ref ∧
    (s.dinodes (s.icache i).inum).type ≠ InodeType.none

section Lookup

variable {t : Nat} {s : State}

theorem AtRest.underway (h : AtRest t s) : Underway s (fun _ => 0) none s where
  rest := rfl
  ref _ := rfl
  inum _ _ := rfl
  locked i := by
    rw [h.unlocked i]
    constructor
    · intro hfalse
      cases hfalse
    · intro hnone
      cases hnone
  cache := h.cache

theorem AtRest.exec_iget (h : AtRest t s) (hfree : TwoFree s) :
    exists i u, Program.exec (perform t) (Program.op (Op.iget rootInum) : Code Nat) s =
        Except.ok (i, u) ∧
      Underway s (one i) none u ∧ (u.icache i).inum = rootInum ∧ Kept s i rootInum := by
  rcases hfree with ⟨j, -, -, hj, -⟩
  rcases h.underway.get rootInum ⟨j, hj⟩ (fun i hi => by cases hi) with ⟨i, u, hget, hu, hinum, -⟩
  have hcount : (fun j => 0 + one i j) = one i := by
    funext j
    exact Nat.zero_add _
  rw [hcount] at hu
  have hanchored : Anchored s (u.icache i).inum := hinum ▸ h.root
  have hkept := hanchored.kept hu
  rw [hinum] at hkept
  exact ⟨i, u, (Program.exec_op_ok (o := Op.iget rootInum) hget).trans rfl, hu, hinum, hkept⟩

theorem AtRest.exec_startAtCwd (h : AtRest t s) {i : Nat} (hcwd : (s.tasks t).cwd = some i) :
    exists u, Program.exec (perform t) startAtCwd s = Except.ok (i, u) ∧
      Underway s (one i) none u ∧ (u.icache i).inum = (s.icache i).inum ∧
      Kept s i (s.icache i).inum := by
  rcases h.cwd with ⟨j, hj, href, htype⟩
  cases hcwd.symm.trans hj
  refine ⟨inodeDup i s, ?_, ?_, ?_, htype, Or.inr href⟩
  · have hop : Except.ok ((s.tasks t).cwd, s) = (Except.ok (some i, s) : Except Stop _) := by
      rw [hcwd]
    exact (Program.exec_op_ok (o := Op.cwd) hop).trans rfl
  · refine h.underway.update (h.cache.inside i href) href rfl ?_ ?_ ?_ ?_ ?_
    · exact fun hvalid => h.cache.coherent i href hvalid
    · show (s.icache i).ref + 1 = (s.icache i).ref + one i i
      rw [one_self i]
    · exact fun j hji => if_neg hji
    · exact h.underway.locked i
    · exact fun _ _ => Iff.rfl
  · unfold inodeDup
    rw [setInode_self]

theorem AtRest.exec_pathStart (h : AtRest t s) (hfree : TwoFree s) (path : Name) :
    exists i u, Program.exec (perform t) (pathStart path) s = Except.ok (i, u) ∧
      Underway s (one i) none u ∧ (u.icache i).inum = startOf t s path ∧
      Kept s i (startOf t s path) := by
  rcases h.cwd with ⟨cwd, hcwd, -, -⟩
  cases path with
  | nil =>
      have hstart : startOf t s [] = (s.icache cwd).inum := by
        unfold startOf
        rw [hcwd]
        rfl
      rw [hstart]
      rcases h.exec_startAtCwd hcwd with ⟨u, hrun, hu, hinum, hkept⟩
      exact ⟨cwd, u, hrun, hu, hinum, hkept⟩
  | cons c rest =>
      by_cases hc : c = slash
      · have hstart : startOf t s (c :: rest) = rootInum := by
          unfold startOf
          exact if_pos (congrArg some hc)
        have hcode : pathStart (c :: rest) = Program.op (Op.iget rootInum) := if_pos hc
        rw [hstart, hcode]
        exact h.exec_iget hfree
      · have hstart : startOf t s (c :: rest) = (s.icache cwd).inum := by
          unfold startOf
          rw [hcwd]
          exact if_neg (fun e => hc (Option.some.inj e))
        have hcode : pathStart (c :: rest) = startAtCwd := if_neg hc
        rw [hstart, hcode]
        rcases h.exec_startAtCwd hcwd with ⟨u, hrun, hu, hinum, hkept⟩
        exact ⟨cwd, u, hrun, hu, hinum, hkept⟩

/--
`path_lookup` computes the fold, whatever the slashes are, and leaves one more reference on
what it returns and nothing else.
-/
theorem path_lookup_folds (h : AtRest t s) (hfree : TwoFree s) {path : Name}
    (hshort : forall name, name ∈ components path -> Short name) :
    (exists r u, Program.exec (perform t) (pathLookup path) s = Except.ok (r, u) ∧
      Leaves s r (lookupOf t s path) u) ∧
    (forall before rest, path = before ++ slash :: slash :: rest ->
      lookupOf t s path = lookupOf t s (before ++ slash :: rest)) ∧
    (forall before, before ≠ [] -> path = before ++ [slash] ->
      lookupOf t s path = lookupOf t s before) := by
  refine ⟨?_, ?_, ?_⟩
  · rcases h.exec_pathStart hfree path with ⟨i, u, hstart, hu, hinum, hkept⟩
    rw [<- hinum] at hkept
    rcases exec_walk t h.entries h.readable hfree hshort [] hu hkept with ⟨r, u', hwalk, hleaves⟩
    rw [hinum] at hleaves
    refine ⟨r.map Prod.fst, u', ?_, hleaves⟩
    have hrun : Program.exec (perform t) (pathLookup0 false path) s = Except.ok (r, u') := by
      rw [pathLookup0_eq, Program.exec_bind_ok hstart]
      exact hwalk
    refine (Program.exec_bind_ok hrun).trans ?_
    cases r with
    | none => rfl
    | some found => rfl
  · intro before rest heq
    subst heq
    exact lookupOf_slashes t s before rest
  · intro before hne heq
    subst heq
    exact lookupOf_trailing t s hne

end Lookup

/-!
# A directory in the root
-/

/-- The root has a directory `a` with as many links, and `b` and `..` are in it. -/
def nestedTree (links : Nat) : Tree :=
  { ninodes := 64
    dinodes := fun inum => { type := InodeType.directory, nlink := if inum = 2 then links else 1 }
    data := fun inum =>
      if inum = rootInum then
        [{ inum := 2, name := [97] }]
      else if inum = 2 then
        [{ inum := 3, name := [98] }, { inum := rootInum, name := [46, 46] }]
      else
        [] }

def nested : State := boot (nestedTree 1)

theorem anchored_nested {s : State} (h : s.dinodes = (nestedTree 1).dinodes) (inum : Nat) :
    Anchored s inum := by
  unfold Anchored
  rw [h]
  constructor
  · intro hnone
    cases hnone
  · left
    show (if inum = 2 then 1 else 1) ≠ 0
    rw [ite_self]
    exact Nat.one_ne_zero

theorem bootInode_zero {i : Nat} (h : 0 < (bootInode i).ref) : i = 0 := by
  by_contra hne
  rw [show (bootInode i).ref = 0 from if_neg hne] at h
  cases h

/-- The cache that the kernel boots with, whatever the disk is. -/
theorem bootInode_cacheSound {s : State} (href : forall i, (s.icache i).ref = (bootInode i).ref)
    (hvalid : forall i, (s.icache i).valid = false) : CacheSound s where
  inside i hi := by
    rw [href i] at hi
    rw [bootInode_zero hi]
    decide
  distinct i j hi hj _ := by
    rw [href i] at hi
    rw [href j] at hj
    rw [bootInode_zero hi, bootInode_zero hj]
  coherent i _ hcopy := by
    rw [hvalid i] at hcopy
    cases hcopy

theorem nested_atRest : AtRest initTask nested where
  cache := bootInode_cacheSound (fun _ => rfl) (fun _ => rfl)
  unlocked _ := rfl
  root := anchored_nested rfl rootInum
  entries _ e _ _ _ := anchored_nested rfl e.inum
  readable _ _ := Or.inl rfl
  cwd := ⟨0, rfl, Nat.one_pos, (anchored_nested rfl rootInum).left⟩

/-- The directory 2 has been removed, and the task is still in it. -/
def removed : State :=
  { boot
      { ninodes := 64
        dinodes := fun inum =>
          { type := InodeType.directory, nlink := if inum = 2 then 0 else 1 }
        data := fun inum =>
          if inum = rootInum then
            [{ inum := 3, name := [97] }]
          else if inum = 2 then
            [{ inum := 2, name := dotName }, { inum := rootInum, name := dotdotName }]
          else
            [] } with
    icache := fun i =>
      { bootInode i with
        inum := i + 1
        ref := if i < 2 then 1 else 0 }
    tasks := fun t => { bootTask t with cwd := some 1 } }

theorem anchored_removed (inum : Nat) : Anchored removed inum := by
  constructor
  · intro hnone
    cases hnone
  · by_cases hgone : inum = 2
    · exact Or.inr ⟨1, Nat.one_pos, hgone.symm⟩
    · left
      show (if inum = 2 then 0 else 1) ≠ 0
      rw [if_neg hgone]
      exact Nat.one_ne_zero

theorem removed_atRest : AtRest initTask removed where
  cache :=
    { inside := by
        intro i hi
        by_contra hge
        rw [show (removed.icache i).ref = 0 from if_neg (by unfold nicache at hge; lia)] at hi
        cases hi
      distinct := fun _ _ _ _ heq => Nat.succ.inj heq
      coherent := by
        intro i _ hvalid
        cases hvalid }
  unlocked _ := rfl
  root := anchored_removed rootInum
  entries _ e _ _ _ := anchored_removed e.inum
  readable _ _ := Or.inl rfl
  cwd := ⟨1, rfl, Nat.one_pos, (anchored_removed 2).left⟩

/-- The lookup of `a//b/` at boot, and that of `./../a` from a removed directory. -/
theorem path_lookup_folds_nested :
    (exists r u, Program.exec (perform initTask) (pathLookup [97, 47, 47, 98, 47]) nested =
        Except.ok (r, u) ∧
      Leaves nested r (some 3) u) ∧
    (exists r u, Program.exec (perform initTask) (pathLookup [46, 47, 46, 46, 47, 97]) removed =
        Except.ok (r, u) ∧
      Leaves removed r (some 3) u) := by
  have hfree : TwoFree nested := ⟨1, 2, by decide, ⟨by decide, rfl⟩, by decide, rfl⟩
  have hroom : TwoFree removed := ⟨2, 3, by decide, ⟨by decide, rfl⟩, by decide, rfl⟩
  have hshort : forall name, name ∈ components [97, 47, 47, 98, 47] -> Short name := by decide
  have hdots : forall name, name ∈ components [46, 47, 46, 46, 47, 97] -> Short name := by decide
  exact ⟨(path_lookup_folds nested_atRest hfree hshort).left,
    (path_lookup_folds removed_atRest hroom hdots).left⟩

/-!
# Lookups that stop
-/

/-- The lookup returns what the fold gives, with one more reference on it. -/
def Folds (t : Nat) (s : State) (path : Name) : Prop :=
  exists r u, Program.exec (perform t) (pathLookup path) s = Except.ok (r, u) ∧
    Leaves s r (lookupOf t s path) u

theorem not_folds_of_error {t : Nat} {s : State} {path : Name} {stop : Stop}
    (h : Program.exec (perform t) (pathLookup path) s = Except.error stop) :
    Not (Folds t s path) := by
  intro hex
  rcases hex with ⟨r, u, hrun, -⟩
  cases h.symm.trans hrun

/-- The entries of the directories name inodes in use. -/
def EntriesAllocated (s : State) : Prop :=
  forall inum e, (s.dinodes inum).type = InodeType.directory -> e ∈ s.data inum -> e.inum ≠ 0 ->
    (s.dinodes e.inum).type ≠ InodeType.none

/-- All places but one hold an inode of their own. -/
def crowded : State :=
  { nested with
    icache := fun i =>
      { bootInode i with
        inum := if i = 0 then rootInum else i + 3
        ref := if i + 1 < nicache then 1 else 0 } }

theorem crowded_inum {i j : Nat} (h : (crowded.icache i).inum = (crowded.icache j).inum) :
    i = j := by
  change (if i = 0 then rootInum else i + 3) = (if j = 0 then rootInum else j + 3) at h
  unfold rootInum at h
  split at h <;> split at h <;> lia

theorem crowded_atRest : AtRest initTask crowded where
  cache :=
    { inside := by
        intro i hi
        by_contra hge
        rw [show (crowded.icache i).ref = 0 from if_neg (by lia)] at hi
        cases hi
      distinct := fun _ _ _ _ heq => crowded_inum heq
      coherent := by
        intro i _ hvalid
        cases hvalid }
  unlocked _ := rfl
  root := anchored_nested rfl rootInum
  entries _ e _ _ _ := anchored_nested rfl e.inum
  readable _ _ := Or.inl rfl
  cwd := ⟨0, rfl, Nat.one_pos, (anchored_nested rfl rootInum).left⟩

def holed : State :=
  { nested with holes := fun inum => if inum = rootInum then [0] else [] }

/-- The directory `a` has no link, and a log operation has begun. -/
def linkless : State := { boot (nestedTree 0) with outstanding := 1 }

def rootHeld : State := nested.setInode 0 { bootInode 0 with locked := true }

theorem rootHeld_icache {i : Nat} (h : i ≠ 0) : rootHeld.icache i = bootInode i :=
  setInode_of_ne _ h

set_option maxRecDepth 4000 in
theorem exec_crowded : Program.exec (perform initTask) (pathLookup [97, 47, 98]) crowded =
    Except.error Stop.noSlot := by
  rfl

set_option maxRecDepth 4000 in
theorem exec_linkless :
    Program.exec (perform initTask) (pathLookup [97, 47, 46, 46, 47, 97, 47, 98]) linkless =
      Except.error Stop.noType := by
  rfl

theorem exec_holed : Program.exec (perform initTask) (pathLookup [97]) holed =
    Except.error Stop.noOperation := by
  rfl

theorem exec_rootHeld : Program.exec (perform initTask) (pathLookup [97]) rootHeld =
    Except.error Stop.waits := by
  rfl

/--
One empty place is not enough: a directory on the way and the inode that its entry names
are held at once.  A directory without a link is freed on the way, an inode that is locked
makes the lookup wait, and a hole is filled where no log operation has begun.
-/
theorem path_lookup_stops :
    (AtRest initTask crowded ∧ (exists i, i < nicache ∧ (crowded.icache i).ref = 0) ∧
      (forall name, name ∈ components [97, 47, 98] -> Short name) ∧
      lookupOf initTask crowded [97, 47, 98] = some 3 ∧
      Not (Folds initTask crowded [97, 47, 98])) ∧
    (CacheSound linkless ∧ (forall i, (linkless.icache i).locked = false) ∧
      Anchored linkless rootInum ∧ EntriesAllocated linkless ∧ TwoFree linkless ∧
      (forall name, name ∈ components [97, 47, 46, 46, 47, 97, 47, 98] -> Short name) ∧
      lookupOf initTask linkless [97, 47, 46, 46, 47, 97, 47, 98] = some 3 ∧
      Not (Folds initTask linkless [97, 47, 46, 46, 47, 97, 47, 98])) ∧
    (CacheSound rootHeld ∧ Anchored rootHeld rootInum ∧ EntriesAnchored rootHeld ∧
      TwoFree rootHeld ∧ (forall name, name ∈ components [97] -> Short name) ∧
      lookupOf initTask rootHeld [97] = some 2 ∧ Not (Folds initTask rootHeld [97])) ∧
    (CacheSound holed ∧ (forall i, (holed.icache i).locked = false) ∧
      Anchored holed rootInum ∧ EntriesAnchored holed ∧ TwoFree holed ∧
      (forall name, name ∈ components [97] -> Short name) ∧
      lookupOf initTask holed [97] = some 2 ∧ Not (Folds initTask holed [97])) := by
  refine ⟨⟨crowded_atRest, ⟨49, by decide, rfl⟩, by decide, rfl, not_folds_of_error exec_crowded⟩,
    ⟨?_, fun _ => rfl, ⟨by decide, Or.inl (by decide)⟩, ?_, ?_, by decide, rfl,
      not_folds_of_error exec_linkless⟩,
    ⟨?_, anchored_nested rfl rootInum, fun _ e _ _ _ => anchored_nested rfl e.inum, ?_, by decide,
      rfl, not_folds_of_error exec_rootHeld⟩,
    ⟨?_, fun _ => rfl, anchored_nested rfl rootInum,
      fun _ e _ _ _ => anchored_nested rfl e.inum, ?_, by decide, rfl,
      not_folds_of_error exec_holed⟩⟩
  · exact bootInode_cacheSound (fun _ => rfl) (fun _ => rfl)
  · intro inum e _ _ _ hnone
    cases hnone
  · exact ⟨1, 2, by decide, ⟨by decide, rfl⟩, by decide, rfl⟩
  · apply bootInode_cacheSound
    · intro i
      by_cases hi : i = 0
      · rw [hi]
        rfl
      · rw [rootHeld_icache hi]
    · intro i
      by_cases hi : i = 0
      · rw [hi]
        rfl
      · rw [rootHeld_icache hi]
        rfl
  · refine ⟨1, 2, by decide, ⟨by decide, ?_⟩, by decide, ?_⟩
    · rw [rootHeld_icache (by decide)]
      rfl
    · rw [rootHeld_icache (by decide)]
      rfl
  · exact bootInode_cacheSound (fun _ => rfl) (fun _ => rfl)
  · exact ⟨1, 2, by decide, ⟨by decide, rfl⟩, by decide, rfl⟩

end Syscall
end Fs
end NicoOS
