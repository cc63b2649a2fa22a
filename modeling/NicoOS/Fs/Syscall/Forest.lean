import NicoOS.Fs.Syscall.CreateFile
import Mathlib.Data.Set.Card

/-!
# The tree of directories

Which directory an inode is entered in is a function: there are no hard links.  With it the
link counts, the entries `.` and `..` and the way from the root are statements about one inode
each, which the four changes of a directory keep.
-/

namespace NicoOS
namespace Fs
namespace Syscall

open Lib
open Inode (InodeType)

namespace Tree

/-- An entry in use of a directory in use. -/
def Entry (tr : Tree) (d k : Nat) (e : Dirent) : Prop :=
  (tr.dinodes d).type = InodeType.directory ∧ (tr.data d)[k]? = some e ∧ e.inum ≠ 0

/-- The entries that name an inode. -/
def naming (tr : Tree) (j : Nat) : Set (Nat × Nat) :=
  { x | exists e, tr.Entry x.1 x.2 e ∧ e.inum = j }

/-- The entries other than `.` and `..` that name an inode. -/
def linking (tr : Tree) (j : Nat) : Set (Nat × Nat) :=
  { x | exists e, tr.Entry x.1 x.2 e ∧ e.inum = j ∧ e.name ≠ dotName ∧ e.name ≠ dotdotName }

/-- The entries `..` of the subdirectories of a directory. -/
def backLinks (tr : Tree) (j : Nat) : Set (Nat × Nat) :=
  { x | (exists k, (j, k) ∈ tr.linking x.1) ∧
      exists e, tr.Entry x.1 x.2 e ∧ e.name = dotdotName }

/-- What entries lead to, from the root on. -/
inductive FromRoot (tr : Tree) : Nat -> Prop where
  | root : FromRoot tr rootInum
  | entry {d k : Nat} {e : Dirent} (h : FromRoot tr d) (he : tr.Entry d k e) : FromRoot tr e.inum

/-- Every link count is that of the entries, and what has links is below the root. -/
structure LinkCounts (tr : Tree) : Prop where
  file : forall j, (tr.dinodes j).type ≠ InodeType.none ->
    (tr.dinodes j).type ≠ InodeType.directory -> (tr.naming j).encard = (tr.dinodes j).nlink
  directory : forall j, (tr.dinodes j).type = InodeType.directory -> j ≠ rootInum ->
    (tr.linking j).encard + (tr.backLinks j).encard = (tr.dinodes j).nlink
  reached : forall j, (tr.dinodes j).type ≠ InodeType.none -> 0 < (tr.dinodes j).nlink ->
    tr.FromRoot j

/-- Every entry in use names an inode in use, and `..` names a directory. -/
structure NoDangling (tr : Tree) : Prop where
  typed : forall d k e, tr.Entry d k e -> (tr.dinodes e.inum).type ≠ InodeType.none
  parent : forall d k e, tr.Entry d k e -> e.name = dotdotName ->
    (tr.dinodes e.inum).type = InodeType.directory

end Tree

/-!
# Homes
-/

/-- The directory of an inode is known, or it is the root. -/
def InTree (home : Nat -> Option Nat) (j : Nat) : Prop := j = rootInum ∨ home j ≠ none

def childSet (tr : Tree) (home : Nat -> Option Nat) (j : Nat) : Set Nat :=
  { c | home c = some j ∧ (tr.dinodes c).type = InodeType.directory }

/-- The first two entries of a directory. -/
structure Dots (tr : Tree) (home : Nat -> Option Nat) (d p : Nat) : Prop where
  self : (tr.data d)[0]? = some { inum := d, name := dotName }
  parent : (tr.data d)[1]? = some { inum := p, name := dotdotName }
  directory : (tr.dinodes p).type = InodeType.directory
  inTree : InTree home p
  home_eq : forall q, home d = some q -> p = q
  root_eq : d = rootInum -> p = rootInum

/--
Every inode has at most one home, where one entry names it; removed directories are empty and
their parents are still there.
-/
structure Forest (tr : Tree) (home : Nat -> Option Nat) (rank : Nat -> Nat) : Prop where
  rootDir : (tr.dinodes rootInum).type = InodeType.directory
  rootHome : home rootInum = none
  inside : forall j, (tr.dinodes j).type ≠ InodeType.none -> 0 < j ∧ j < tr.ninodes
  dots : forall d, (tr.dinodes d).type = InodeType.directory -> exists p, Dots tr home d p
  entries : forall d k e, tr.Entry d k e -> 2 ≤ k ->
    home e.inum = some d ∧ e.name ≠ dotName ∧ e.name ≠ dotdotName
  entered : forall j d, home j = some d -> exists k e, 2 ≤ k ∧ tr.Entry d k e ∧ e.inum = j
  typed : forall j d, home j = some d -> (tr.dinodes j).type ≠ InodeType.none
  above : forall j d, home j = some d -> InTree home d
  once : forall d k l e f, tr.Entry d k e -> tr.Entry d l f -> 2 ≤ k -> 2 ≤ l ->
    e.inum = f.inum -> k = l
  rank : forall j d, home j = some d -> rank d < rank j
  links : forall j, (tr.dinodes j).type ≠ InodeType.none -> j ≠ rootInum ->
    (tr.dinodes j).nlink = (if home j = none then 0 else 1) + (childSet tr home j).ncard
  rootLinks : (childSet tr home rootInum).ncard + 1 ≤ (tr.dinodes rootInum).nlink

section Forest

variable {tr tr' : Tree} {home : Nat -> Option Nat} {rank : Nat -> Nat} {j d n : Nat}

theorem Forest.home_directory (h : Forest tr home rank) (hj : home j = some d) :
    (tr.dinodes d).type = InodeType.directory := by
  rcases h.entered j d hj with ⟨k, e, -, he, -⟩
  exact he.left

theorem Forest.finite_childSet (h : Forest tr home rank) (j : Nat) :
    (childSet tr home j).Finite := by
  apply Set.Finite.subset (Set.finite_lt_nat tr.ninodes)
  intro c hc
  exact (h.inside c (h.typed c j hc.left)).right

theorem Forest.childSet_eq_empty (h : Forest tr home rank)
    (hj : (tr.dinodes j).type ≠ InodeType.directory) : childSet tr home j = ∅ := by
  apply Set.eq_empty_of_forall_notMem
  intro c hc
  exact hj (h.home_directory hc.left)

/-- A directory that is not in the tree has no entries, and no links. -/
theorem Forest.nlink_eq_zero_iff (h : Forest tr home rank)
    (hd : (tr.dinodes d).type = InodeType.directory) :
    (tr.dinodes d).nlink = 0 <-> Not (InTree home d) := by
  constructor
  · intro hzero hor
    rcases hor with hroot | hhome
    · have hlinks := h.rootLinks
      rw [hroot] at hzero
      lia
    · cases Classical.em (d = rootInum) with
      | inl hroot =>
          rw [hroot] at hhome
          exact hhome h.rootHome
      | inr hne =>
          have hlinks := h.links d (by rw [hd]; exact InodeType.noConfusion) hne
          rw [if_neg hhome] at hlinks
          lia
  · intro hnot
    have hroot : d ≠ rootInum := fun heq => hnot (Or.inl heq)
    have hhome : home d = none := by
      by_contra hne
      exact hnot (Or.inr hne)
    have hnone : childSet tr home d = ∅ := by
      apply Set.eq_empty_of_forall_notMem
      intro c hc
      exact hnot (h.above c d hc.left)
    rw [h.links d (by rw [hd]; exact InodeType.noConfusion) hroot, if_pos hhome, hnone,
      Set.ncard_empty]

/-- The entries of a directory: itself, its parent, and what has its home there. -/
theorem Forest.entry_cases (h : Forest tr home rank) {k : Nat} {e : Dirent}
    (he : tr.Entry d k e) :
    (k = 0 ∧ e = { inum := d, name := dotName }) ∨
      (k = 1 ∧ exists p, e = { inum := p, name := dotdotName } ∧ Dots tr home d p) ∨
        (2 ≤ k ∧ home e.inum = some d ∧ e.name ≠ dotName ∧ e.name ≠ dotdotName) := by
  rcases h.dots d he.left with ⟨p, hdots⟩
  rcases k with _ | _ | k
  · have heq := Option.some.inj (he.right.left.symm.trans hdots.self)
    exact Or.inl ⟨rfl, heq⟩
  · have heq := Option.some.inj (he.right.left.symm.trans hdots.parent)
    exact Or.inr (Or.inl ⟨rfl, p, heq, hdots⟩)
  · have htwo : 2 ≤ k + 1 + 1 := by lia
    exact Or.inr (Or.inr ⟨htwo, h.entries d _ e he htwo⟩)

theorem dotName_ne_dotdotName : dotName ≠ dotdotName := by decide

/-!
# What the homes say
-/

theorem Forest.fromRoot (h : Forest tr home rank) (hj : InTree home j) : tr.FromRoot j := by
  induction hn : rank j using Nat.strong_induction_on generalizing j with
  | _ m ih =>
      rcases hj with hroot | hhome
      · rw [hroot]
        exact Tree.FromRoot.root
      · rcases Option.ne_none_iff_exists'.mp hhome with ⟨d, hd⟩
        have hlt := h.rank j d hd
        have habove := ih (rank d) (by lia) (h.above j d hd) rfl
        rcases h.entered j d hd with ⟨k, e, -, he, heq⟩
        rw [← heq]
        exact Tree.FromRoot.entry habove he

/-- The entries other than `.` and `..` that name an inode are those at its home. -/
theorem Forest.linking_eq (h : Forest tr home rank) (j : Nat) :
    (tr.linking j).encard = (if home j = none then 0 else 1 : Nat) := by
  split
  · rename_i hnone
    apply Set.encard_eq_zero.mpr
    apply Set.eq_empty_of_forall_notMem
    intro x hex
    rcases hex with ⟨e, he, heq, hdot, hdotdot⟩
    rcases h.entry_cases he with ⟨-, rfl⟩ | ⟨-, p, rfl, -⟩ | ⟨-, hhome, -⟩
    · exact hdot rfl
    · exact hdotdot rfl
    · rw [heq, hnone] at hhome
      cases hhome
  · rename_i hsome
    rcases Option.ne_none_iff_exists'.mp hsome with ⟨d, hd⟩
    rcases h.entered j d hd with ⟨k, e, hk, he, heq⟩
    have hset : tr.linking j = {(d, k)} := by
      ext x
      constructor
      · intro hex
        rcases hex with ⟨f, hf, hfeq, hdot, hdotdot⟩
        rcases h.entry_cases hf with ⟨-, rfl⟩ | ⟨-, p, rfl, -⟩ | ⟨hl, hhome, -⟩
        · exact absurd rfl hdot
        · exact absurd rfl hdotdot
        · rw [hfeq, hd] at hhome
          have hdir := Option.some.inj hhome
          have hplace := h.once x.1 x.2 k f e hf (hdir ▸ he) hl hk (hfeq.trans heq.symm)
          exact Prod.ext hdir.symm hplace
      · intro hx
        rw [Set.mem_singleton_iff.mp hx]
        exact ⟨e, he, heq, (h.entries d k e he hk).right⟩
    rw [hset, Set.encard_singleton]
    rfl

theorem Forest.mem_linking (h : Forest tr home rank) {c k : Nat} (hc : (j, k) ∈ tr.linking c) :
    home c = some j := by
  rcases hc with ⟨e, he, heq, hdot, hdotdot⟩
  rcases h.entry_cases he with ⟨-, rfl⟩ | ⟨-, p, rfl, -⟩ | ⟨-, hhome, -⟩
  · exact absurd rfl hdot
  · exact absurd rfl hdotdot
  · rw [heq] at hhome
    exact hhome

theorem Forest.backLinks_eq (h : Forest tr home rank) (j : Nat) :
    (tr.backLinks j).encard = (childSet tr home j).ncard := by
  have himage : tr.backLinks j = (fun c => (c, 1)) '' childSet tr home j := by
    ext x
    constructor
    · intro hall
      rcases hall with ⟨⟨k, hlink⟩, e, he, hname⟩
      have hhome := h.mem_linking hlink
      have hplace : x.2 = 1 := by
        rcases h.entry_cases he with ⟨-, rfl⟩ | ⟨hone, -⟩ | ⟨-, -, -, hdotdot⟩
        · exact absurd hname dotName_ne_dotdotName
        · exact hone
        · exact absurd hname hdotdot
      exact ⟨x.1, ⟨hhome, he.left⟩, Prod.ext rfl hplace.symm⟩
    · intro hex
      rcases hex with ⟨c, hc, rfl⟩
      rcases h.entered c j hc.left with ⟨k, e, hk, he, heq⟩
      rcases h.dots c hc.right with ⟨p, hdots⟩
      refine ⟨⟨k, e, he, heq, (h.entries j k e he hk).right⟩, _, ⟨hc.right, hdots.parent, ?_⟩, rfl⟩
      have hp : (tr.dinodes p).type ≠ InodeType.none := by
        rw [hdots.directory]
        exact InodeType.noConfusion
      exact Nat.ne_of_gt (h.inside p hp).left
  rw [himage, Function.Injective.encard_image (fun a b hab => congrArg Prod.fst hab),
    (h.finite_childSet j).cast_ncard_eq]

theorem Forest.naming_eq (h : Forest tr home rank)
    (hj : (tr.dinodes j).type ≠ InodeType.directory) : tr.naming j = tr.linking j := by
  ext x
  constructor
  · intro hex
    rcases hex with ⟨e, he, heq⟩
    rcases h.entry_cases he with ⟨-, rfl⟩ | ⟨-, p, rfl, hdots⟩ | ⟨-, -, hnames⟩
    · exact absurd (heq ▸ he.left) hj
    · exact absurd (heq ▸ hdots.directory) hj
    · exact ⟨e, he, heq, hnames⟩
  · intro hex
    rcases hex with ⟨e, he, heq, -⟩
    exact ⟨e, he, heq⟩

theorem Forest.linkCounts (h : Forest tr home rank) : tr.LinkCounts where
  file := by
    intro j hj hdir
    have hroot : j ≠ rootInum := fun heq => hdir (heq ▸ h.rootDir)
    rw [h.naming_eq hdir, h.linking_eq, h.links j hj hroot, h.childSet_eq_empty hdir,
      Set.ncard_empty, Nat.add_zero]
  directory := by
    intro j hdir hroot
    have hj : (tr.dinodes j).type ≠ InodeType.none := by
      rw [hdir]
      exact InodeType.noConfusion
    rw [h.linking_eq, h.backLinks_eq, h.links j hj hroot, Nat.cast_add]
  reached := by
    intro j hj hlink
    apply h.fromRoot
    cases Classical.em ((tr.dinodes j).type = InodeType.directory) with
    | inl hdir =>
        by_contra hnot
        have hzero := (h.nlink_eq_zero_iff hdir).mpr hnot
        lia
    | inr hfile =>
        have hroot : j ≠ rootInum := fun heq => hfile (heq ▸ h.rootDir)
        have hlinks := h.links j hj hroot
        rw [h.childSet_eq_empty hfile, Set.ncard_empty] at hlinks
        right
        intro hnone
        rw [if_pos hnone] at hlinks
        lia

theorem Forest.noDangling (h : Forest tr home rank) : tr.NoDangling where
  typed := by
    intro d k e he
    rcases h.entry_cases he with ⟨-, rfl⟩ | ⟨-, p, rfl, hdots⟩ | ⟨-, hhome, -⟩
    · rw [he.left]
      exact InodeType.noConfusion
    · rw [hdots.directory]
      exact InodeType.noConfusion
    · exact h.typed _ d hhome
  parent := by
    intro d k e he hname
    rcases h.entry_cases he with ⟨-, rfl⟩ | ⟨-, p, rfl, hdots⟩ | ⟨-, -, -, hdotdot⟩
    · exact absurd hname dotName_ne_dotdotName
    · exact hdots.directory
    · exact absurd hname hdotdot

end Forest

/-!
# Changes of the tree
-/

section Changes

variable {tr tr' : Tree} {home : Nat -> Option Nat} {rank : Nat -> Nat} {d n k : Nat}

theorem inTree_update_of_ne {j : Nat} {x : Option Nat} (h : InTree home j) (hne : j ≠ n) :
    InTree (Function.update home n x) j := by
  rcases h with hroot | hhome
  · exact Or.inl hroot
  · right
    rw [Function.update_of_ne hne]
    exact hhome

theorem Forest.home_ne (h : Forest tr home rank) (hn : Not (InTree home n)) (j : Nat) :
    home j ≠ some n :=
  fun hj => hn (h.above j n hj)

/-- An inode without links is gone. -/
structure Freed (tr tr' : Tree) (n : Nat) : Prop where
  ninodes : tr'.ninodes = tr.ninodes
  gone : (tr'.dinodes n).type = InodeType.none
  dinodes : forall j, j ≠ n -> tr'.dinodes j = tr.dinodes j
  data : forall j, j ≠ n -> tr'.data j = tr.data j

theorem Freed.entry (h : Freed tr tr' n) {l : Nat} {e : Dirent} :
    tr'.Entry d l e <-> d ≠ n ∧ tr.Entry d l e := by
  unfold Tree.Entry
  cases Classical.em (d = n) with
  | inl heq =>
      constructor
      · intro hboth
        rcases hboth with ⟨hdir, -⟩
        rw [heq, h.gone] at hdir
        cases hdir
      · exact fun hboth => absurd heq hboth.left
  | inr hne =>
      rw [h.dinodes d hne, h.data d hne]
      exact ⟨fun he => And.intro hne he, fun hboth => hboth.right⟩

theorem Forest.freed (h : Forest tr home rank) (hfreed : Freed tr tr' n)
    (hn : (tr.dinodes n).type ≠ InodeType.none) (hlink : (tr.dinodes n).nlink = 0) :
    Forest tr' home rank := by
  have hroot : n ≠ rootInum := by
    intro heq
    have hlinks := h.rootLinks
    rw [heq] at hlink
    lia
  have hhome : home n = none := by
    by_contra hne
    have hlinks := h.links n hn hroot
    rw [if_neg hne] at hlinks
    lia
  have hout : Not (InTree home n) := by
    intro hor
    rcases hor with heq | hne
    · exact hroot heq
    · exact hne hhome
  have hne_of_home : forall {j d}, home j = some d -> j ≠ n := by
    intro j d hj heq
    rw [heq, hhome] at hj
    cases hj
  have htype : forall {j}, (tr'.dinodes j).type ≠ InodeType.none -> j ≠ n := by
    intro j hj heq
    rw [heq] at hj
    exact hj hfreed.gone
  have hchildren : forall j, childSet tr' home j = childSet tr home j := by
    intro j
    ext c
    constructor
    · intro hboth
      rcases hboth with ⟨hc, hdir⟩
      rw [hfreed.dinodes c (hne_of_home hc)] at hdir
      exact ⟨hc, hdir⟩
    · intro hboth
      rcases hboth with ⟨hc, hdir⟩
      rw [← hfreed.dinodes c (hne_of_home hc)] at hdir
      exact ⟨hc, hdir⟩
  constructor
  · rw [hfreed.dinodes _ (Ne.symm hroot)]
    exact h.rootDir
  · exact h.rootHome
  · intro j hj
    rw [hfreed.ninodes]
    rw [hfreed.dinodes j (htype hj)] at hj
    exact h.inside j hj
  · intro c hc
    have hcn : c ≠ n := htype (by rw [hc]; exact InodeType.noConfusion)
    rw [hfreed.dinodes c hcn] at hc
    rcases h.dots c hc with ⟨p, hp⟩
    have hpn : p ≠ n := fun heq => hout (heq ▸ hp.inTree)
    refine ⟨p, ?_, ?_, ?_, hp.inTree, hp.home_eq, hp.root_eq⟩
    · rw [hfreed.data c hcn]
      exact hp.self
    · rw [hfreed.data c hcn]
      exact hp.parent
    · rw [hfreed.dinodes p hpn]
      exact hp.directory
  · exact fun c l e he => h.entries c l e (hfreed.entry.mp he).right
  · intro j c hj
    rcases h.entered j c hj with ⟨l, e, hl, he, heq⟩
    have hcn : c ≠ n := fun heq => h.home_ne hout j (heq ▸ hj)
    exact ⟨l, e, hl, hfreed.entry.mpr ⟨hcn, he⟩, heq⟩
  · intro j c hj
    rw [hfreed.dinodes j (hne_of_home hj)]
    exact h.typed j c hj
  · exact h.above
  · exact fun c l m e f he hf => h.once c l m e f (hfreed.entry.mp he).right
      (hfreed.entry.mp hf).right
  · exact h.rank
  · intro j hj
    rw [hfreed.dinodes j (htype hj), hchildren]
    rw [hfreed.dinodes j (htype hj)] at hj
    exact h.links j hj
  · rw [hchildren, hfreed.dinodes _ (Ne.symm hroot)]
    exact h.rootLinks

/-- An inode without links is there; a directory has its first two entries. -/
structure Added (tr tr' : Tree) (d n : Nat) (typ : InodeType) : Prop where
  ninodes : tr'.ninodes = tr.ninodes
  type : (tr'.dinodes n).type = typ
  nlink : (tr'.dinodes n).nlink = 0
  empty : typ = InodeType.directory ->
    tr'.data n = [{ inum := n, name := dotName }, { inum := d, name := dotdotName }]
  dinodes : forall j, j ≠ n -> tr'.dinodes j = tr.dinodes j
  data : forall j, j ≠ n -> tr'.data j = tr.data j

theorem Forest.added (h : Forest tr home rank) {typ : InodeType} (hadded : Added tr tr' d n typ)
    (hn : (tr.dinodes n).type = InodeType.none) (hin : 0 < n ∧ n < tr.ninodes)
    (hdir : (tr.dinodes d).type = InodeType.directory)
    (hd : InTree home d) : Forest tr' home rank ∧ home n = none := by
  have hroot : n ≠ rootInum := by
    intro heq
    have hrootDir := h.rootDir
    rw [← heq, hn] at hrootDir
    cases hrootDir
  have hhome : home n = none := by
    by_contra hne
    rcases Option.ne_none_iff_exists'.mp hne with ⟨q, hq⟩
    exact h.typed n q hq hn
  have hne_of_home : forall {j q}, home j = some q -> j ≠ n := by
    intro j q hj heq
    rw [heq, hhome] at hj
    cases hj
  have hne_of_type : forall {j}, (tr.dinodes j).type = InodeType.directory -> j ≠ n := by
    intro j hj heq
    rw [heq, hn] at hj
    cases hj
  have hchildren : forall j, childSet tr' home j = childSet tr home j := by
    intro j
    ext c
    constructor
    · intro hboth
      rcases hboth with ⟨hc, hcdir⟩
      rw [hadded.dinodes c (hne_of_home hc)] at hcdir
      exact ⟨hc, hcdir⟩
    · intro hboth
      rcases hboth with ⟨hc, hcdir⟩
      rw [← hadded.dinodes c (hne_of_home hc)] at hcdir
      exact ⟨hc, hcdir⟩
  -- The new directory has no entries but the first two.
  have hentry : forall {c l e}, tr'.Entry c l e -> 2 ≤ l -> tr.Entry c l e := by
    intro c l e hall hl
    rcases hall with ⟨hcdir, he, hused⟩
    cases Classical.em (c = n) with
    | inl heq =>
        rw [heq] at hcdir he
        rw [hadded.empty (hadded.type.symm.trans hcdir)] at he
        rw [List.getElem?_eq_none (by simpa using hl)] at he
        cases he
    | inr hne =>
        rw [hadded.dinodes c hne] at hcdir
        rw [hadded.data c hne] at he
        exact ⟨hcdir, he, hused⟩
  have hback : forall {c l e}, tr.Entry c l e -> tr'.Entry c l e := by
    intro c l e hall
    rcases hall with ⟨hcdir, he, hused⟩
    have hne := hne_of_type hcdir
    rw [← hadded.dinodes c hne] at hcdir
    rw [← hadded.data c hne] at he
    exact ⟨hcdir, he, hused⟩
  refine And.intro ?_ hhome
  constructor
  · rw [hadded.dinodes _ (Ne.symm hroot)]
    exact h.rootDir
  · exact h.rootHome
  · intro j hj
    rw [hadded.ninodes]
    cases Classical.em (j = n) with
    | inl heq =>
        rw [heq]
        exact hin
    | inr hne =>
        rw [hadded.dinodes j hne] at hj
        exact h.inside j hj
  · intro c hc
    cases Classical.em (c = n) with
    | inl heq =>
        rw [heq] at hc ⊢
        have hdata := hadded.empty (hadded.type.symm.trans hc)
        refine ⟨d, ?_, ?_, ?_, hd, ?_, fun heq => absurd heq hroot⟩
        · rw [hdata]
          rfl
        · rw [hdata]
          rfl
        · rw [hadded.dinodes d (hne_of_type hdir)]
          exact hdir
        · intro q hq
          rw [hhome] at hq
          cases hq
    | inr hne =>
        rw [hadded.dinodes c hne] at hc
        rcases h.dots c hc with ⟨p, hp⟩
        refine ⟨p, ?_, ?_, ?_, hp.inTree, hp.home_eq, hp.root_eq⟩
        · rw [hadded.data c hne]
          exact hp.self
        · rw [hadded.data c hne]
          exact hp.parent
        · rw [hadded.dinodes p (hne_of_type hp.directory)]
          exact hp.directory
  · exact fun c l e he hl => h.entries c l e (hentry he hl) hl
  · intro j c hj
    rcases h.entered j c hj with ⟨l, e, hl, he, heq⟩
    exact ⟨l, e, hl, hback he, heq⟩
  · intro j c hj
    rw [hadded.dinodes j (hne_of_home hj)]
    exact h.typed j c hj
  · exact h.above
  · exact fun c l m e f he hf hl hm => h.once c l m e f (hentry he hl) (hentry hf hm) hl hm
  · exact h.rank
  · intro j hj hjroot
    rw [hchildren]
    cases Classical.em (j = n) with
    | inl heq =>
        have hnone : childSet tr home j = ∅ := by
          apply h.childSet_eq_empty
          rw [heq, hn]
          exact InodeType.noConfusion
        rw [hnone, heq, hhome, if_pos rfl, hadded.nlink, Set.ncard_empty]
    | inr hne =>
        rw [hadded.dinodes j hne] at hj ⊢
        exact h.links j hj hjroot
  · rw [hchildren, hadded.dinodes _ (Ne.symm hroot)]
    exact h.rootLinks

/-- Entry `k` of the directory `d` is another one, and the links of `n` and `d` follow. -/
structure Relinked (tr tr' : Tree) (d n k : Nat) (e : Dirent) : Prop where
  ninodes : tr'.ninodes = tr.ninodes
  type : forall j, (tr'.dinodes j).type = (tr.dinodes j).type
  nlink : forall j, j ≠ n -> j ≠ d -> (tr'.dinodes j).nlink = (tr.dinodes j).nlink
  data : forall j, j ≠ d -> tr'.data j = tr.data j
  here : (tr'.data d)[k]? = some e
  rest : forall l, l ≠ k -> (tr'.data d)[l]? = (tr.data d)[l]?

theorem same_or_other_place (c l d k : Nat) : (c = d ∧ l = k) ∨ (c ≠ d ∨ l ≠ k) := by
  cases Decidable.em (c = d) with
  | inr hne => exact Or.inr (Or.inl hne)
  | inl hc =>
      cases Decidable.em (l = k) with
      | inl hl => exact Or.inl ⟨hc, hl⟩
      | inr hne => exact Or.inr (Or.inr hne)

theorem update_home_cases {x : Option Nat} {j q : Nat}
    (h : Function.update home n x j = some q) :
    (j = n ∧ x = some q) ∨ (j ≠ n ∧ home j = some q) := by
  cases Decidable.em (j = n) with
  | inl heq =>
      rw [heq, Function.update_self] at h
      exact Or.inl ⟨heq, h⟩
  | inr hne =>
      rw [Function.update_of_ne hne] at h
      exact Or.inr ⟨hne, h⟩

theorem Relinked.entry_of_ne {e f : Dirent} (h : Relinked tr tr' d n k e) {c l : Nat}
    (hne : c ≠ d ∨ l ≠ k) : tr'.Entry c l f <-> tr.Entry c l f := by
  have hsame : (tr'.data c)[l]? = (tr.data c)[l]? := by
    cases Classical.em (c = d) with
    | inl heq =>
        rcases hne with hne | hne
        · exact absurd heq hne
        · rw [heq]
          exact h.rest l hne
    | inr hcd => rw [h.data c hcd]
  unfold Tree.Entry
  rw [h.type, hsame]

theorem Relinked.dots {e : Dirent} (h : Relinked tr tr' d n k e) (hk : 2 ≤ k) {c p : Nat}
    (hdots : Dots tr home c p) {home' : Nat -> Option Nat} (hp : InTree home' p)
    (hhome : forall q, home' c = some q -> p = q) : Dots tr' home' c p := by
  have hsame : forall l, l < 2 -> (tr'.data c)[l]? = (tr.data c)[l]? := by
    intro l hl
    cases Classical.em (c = d) with
    | inl heq =>
        rw [heq]
        exact h.rest l (by lia)
    | inr hcd => rw [h.data c hcd]
  constructor
  · rw [hsame 0 (by decide)]
    exact hdots.self
  · rw [hsame 1 (by decide)]
    exact hdots.parent
  · rw [h.type]
    exact hdots.directory
  · exact hp
  · exact hhome
  · exact hdots.root_eq

theorem childSet_linked (htype : forall j, (tr'.dinodes j).type = (tr.dinodes j).type)
    (hhome : home n = none) (j : Nat) :
    childSet tr' (Function.update home n (some d)) j =
      if j = d ∧ (tr.dinodes n).type = InodeType.directory then insert n (childSet tr home j)
      else childSet tr home j := by
  have hmem : forall c, c ∈ childSet tr' (Function.update home n (some d)) j <->
      (c = n ∧ j = d ∧ (tr.dinodes n).type = InodeType.directory) ∨ c ∈ childSet tr home j := by
    intro c
    cases Classical.em (c = n) with
    | inl heq =>
        rw [heq]
        constructor
        · intro hboth
          rcases hboth with ⟨hc, hdir⟩
          rw [Function.update_self] at hc
          rw [htype] at hdir
          exact Or.inl ⟨rfl, (Option.some.inj hc).symm, hdir⟩
        · intro hor
          rcases hor with ⟨-, hj, hdir⟩ | ⟨hc, -⟩
          · refine ⟨?_, ?_⟩
            · rw [Function.update_self, hj]
            · rw [htype]
              exact hdir
          · rw [hhome] at hc
            cases hc
    | inr hne =>
        constructor
        · intro hboth
          rcases hboth with ⟨hc, hdir⟩
          rw [Function.update_of_ne hne] at hc
          rw [htype] at hdir
          exact Or.inr ⟨hc, hdir⟩
        · intro hor
          rcases hor with ⟨heq, -⟩ | ⟨hc, hdir⟩
          · exact absurd heq hne
          · refine ⟨?_, ?_⟩
            · rw [Function.update_of_ne hne]
              exact hc
            · rw [htype]
              exact hdir
  ext c
  rw [hmem]
  split
  · rename_i hboth
    rw [Set.mem_insert_iff]
    exact ⟨fun h => h.imp_left And.left, fun h => h.imp_left (fun heq => ⟨heq, hboth⟩)⟩
  · rename_i hnot
    exact ⟨fun h => h.resolve_left (fun heq => hnot heq.right), Or.inr⟩

/-- The inode `n`, which has no home, is entered in the directory `d`. -/
structure Linking (tr tr' : Tree) (home : Nat -> Option Nat) (d n k : Nat) (name : Name) : Prop
    extends Relinked tr tr' d n k { inum := n, name := name } where
  behind : 2 ≤ k
  free : forall f, (tr.data d)[k]? = some f -> f.inum = 0
  not_dot : name ≠ dotName
  not_dotdot : name ≠ dotdotName
  directory : (tr.dinodes d).type = InodeType.directory
  parent_inTree : InTree home d
  used : (tr.dinodes n).type ≠ InodeType.none
  not_root : n ≠ rootInum
  homeless : home n = none
  parent : (tr.dinodes n).type = InodeType.directory -> forall p, Dots tr home n p -> p = d
  link : (tr'.dinodes n).nlink = (tr.dinodes n).nlink + 1
  back : (tr'.dinodes d).nlink = (tr.dinodes d).nlink +
    if (tr.dinodes n).type = InodeType.directory then 1 else 0

section Linking

variable {name : Name} {c l m p j : Nat} {e f : Dirent}

theorem Linking.ne_of_inTree (h : Linking tr tr' home d n k name) (hj : InTree home j) :
    j ≠ n := by
  intro heq
  rw [heq] at hj
  rcases hj with hroot | hhome
  · exact h.not_root hroot
  · exact hhome h.homeless

theorem Linking.entry_iff (h : Linking tr tr' home d n k name) (hn : n ≠ 0) :
    tr'.Entry c l e <->
      (c = d ∧ l = k ∧ e = { inum := n, name := name }) ∨ tr.Entry c l e := by
  constructor
  · intro he
    rcases same_or_other_place c l d k with ⟨hc, hl⟩ | hne
    · have heq := he.right.left
      rw [hc, hl, h.here] at heq
      exact Or.inl ⟨hc, hl, (Option.some.inj heq).symm⟩
    · exact Or.inr ((h.entry_of_ne hne).mp he)
  · intro hor
    rcases hor with ⟨hc, hl, heq⟩ | he
    · rw [hc, hl, heq]
      refine ⟨?_, h.here, hn⟩
      rw [h.type]
      exact h.directory
    · rcases same_or_other_place c l d k with ⟨hc, hl⟩ | hne
      · have hfound := he.right.left
        rw [hc, hl] at hfound
        exact absurd (h.free e hfound) he.right.right
      · exact (h.entry_of_ne hne).mpr he

/-- The parent counts a subdirectory more, and the other inodes keep their links. -/
theorem Linking.nlink_of_ne (h : Linking tr tr' home d n k name) (hj : j ≠ n) :
    (tr'.dinodes j).nlink = (tr.dinodes j).nlink +
      if j = d ∧ (tr.dinodes n).type = InodeType.directory then 1 else 0 := by
  cases Decidable.em (j = d) with
  | inl heq =>
      rw [heq, h.back]
      congr 1
      exact if_congr (by rw [eq_self, true_and]) rfl rfl
  | inr hne =>
      rw [if_neg (fun hboth => hne hboth.left)]
      exact h.nlink j hj hne

theorem Linking.ncard_childSet (h : Linking tr tr' home d n k name) (hf : Forest tr home rank)
    (j : Nat) : (childSet tr' (Function.update home n (some d)) j).ncard =
      (childSet tr home j).ncard +
        if j = d ∧ (tr.dinodes n).type = InodeType.directory then 1 else 0 := by
  rw [childSet_linked h.type h.homeless]
  split
  · apply Set.ncard_insert_of_notMem _ (hf.finite_childSet j)
    intro hmem
    have hhome := hmem.left
    rw [h.homeless] at hhome
    cases hhome
  · rfl

/-- Directories keep their parents, and that of `n` is its home. -/
theorem Linking.dots_update (h : Linking tr tr' home d n k name)
    (hc : (tr.dinodes c).type = InodeType.directory) (hp : Dots tr home c p) :
    Dots tr' (Function.update home n (some d)) c p := by
  apply h.dots h.behind hp (inTree_update_of_ne hp.inTree (h.ne_of_inTree hp.inTree))
  intro q hq
  rcases update_home_cases hq with ⟨heq, hd⟩ | ⟨-, hhome⟩
  · rw [heq] at hc hp
    rw [h.parent hc p hp]
    exact Option.some.inj hd
  · exact hp.home_eq q hhome

theorem Linking.inum_ne (h : Linking tr tr' home d n k name) (hf : Forest tr home rank)
    (he : tr.Entry c l e) (hl : 2 ≤ l) : e.inum ≠ n := by
  intro heq
  have hhome := (hf.entries c l e he hl).left
  rw [heq, h.homeless] at hhome
  cases hhome

theorem Linking.once (h : Linking tr tr' home d n k name) (hf : Forest tr home rank) (hn : n ≠ 0)
    (he : tr'.Entry c l e) (hg : tr'.Entry c m f) (hl : 2 ≤ l) (hm : 2 ≤ m)
    (heq : e.inum = f.inum) : l = m := by
  rcases (h.entry_iff hn).mp he with ⟨-, hlk, he⟩ | he
  · rcases (h.entry_iff hn).mp hg with ⟨-, hmk, -⟩ | hg
    · rw [hlk, hmk]
    · rw [he] at heq
      exact absurd heq.symm (h.inum_ne hf hg hm)
  · rcases (h.entry_iff hn).mp hg with ⟨-, -, hg⟩ | hg
    · rw [hg] at heq
      exact absurd heq (h.inum_ne hf he hl)
    · exact hf.once c l m e f he hg hl hm heq

theorem Linking.links (h : Linking tr tr' home d n k name) (hf : Forest tr home rank)
    (hj : (tr.dinodes j).type ≠ InodeType.none) (hroot : j ≠ rootInum) :
    (tr'.dinodes j).nlink = (if Function.update home n (some d) j = none then 0 else 1) +
      (childSet tr' (Function.update home n (some d)) j).ncard := by
  have hlinks := hf.links j hj hroot
  rw [h.ncard_childSet hf]
  cases Decidable.em (j = n) with
  | inl heq =>
      have hnd : Not (n = d ∧ (tr.dinodes n).type = InodeType.directory) :=
        fun hboth => h.ne_of_inTree h.parent_inTree hboth.left.symm
      rw [heq, h.homeless, if_pos rfl] at hlinks
      rw [heq, h.link, Function.update_self, if_neg (Option.some_ne_none d), if_neg hnd]
      lia
  | inr hne => rw [h.nlink_of_ne hne, Function.update_of_ne hne, hlinks, Nat.add_assoc]

end Linking

/-- An inode without a home is entered in a directory. -/
theorem Forest.linked (h : Forest tr home rank) {name : Name}
    (hl : Linking tr tr' home d n k name) :
    Forest tr' (Function.update home n (some d)) (Function.update rank n (rank d + 1)) := by
  have hn : n ≠ 0 := Nat.ne_of_gt (h.inside n hl.used).left
  have hrootn : rootInum ≠ n := Ne.symm hl.not_root
  constructor
  · rw [hl.type]
    exact h.rootDir
  · rw [Function.update_of_ne hrootn]
    exact h.rootHome
  · intro j hj
    rw [hl.type] at hj
    rw [hl.ninodes]
    exact h.inside j hj
  · intro c hc
    rw [hl.type] at hc
    rcases h.dots c hc with ⟨p, hp⟩
    exact ⟨p, hl.dots_update hc hp⟩
  · intro c l e he hplace
    rcases (hl.entry_iff hn).mp he with ⟨hc, -, heq⟩ | hold
    · rw [heq, hc]
      exact ⟨Function.update_self .., hl.not_dot, hl.not_dotdot⟩
    · rw [Function.update_of_ne (hl.inum_ne h hold hplace)]
      exact h.entries c l e hold hplace
  · intro j q hj
    rcases update_home_cases hj with ⟨heq, hq⟩ | ⟨-, hhome⟩
    · refine ⟨k, _, hl.behind, (hl.entry_iff hn).mpr (Or.inl ⟨?_, rfl, rfl⟩), heq.symm⟩
      exact (Option.some.inj hq).symm
    · rcases h.entered j q hhome with ⟨l, e, hplace, he, heq⟩
      exact ⟨l, e, hplace, (hl.entry_iff hn).mpr (Or.inr he), heq⟩
  · intro j q hj
    rw [hl.type]
    rcases update_home_cases hj with ⟨heq, -⟩ | ⟨-, hhome⟩
    · rw [heq]
      exact hl.used
    · exact h.typed j q hhome
  · intro j q hj
    have hq : InTree home q := by
      rcases update_home_cases hj with ⟨-, hq⟩ | ⟨-, hhome⟩
      · exact Option.some.inj hq ▸ hl.parent_inTree
      · exact h.above j q hhome
    exact inTree_update_of_ne hq (hl.ne_of_inTree hq)
  · exact fun c l m e f he hf => hl.once h hn he hf
  · intro j q hj
    rcases update_home_cases hj with ⟨heq, hq⟩ | ⟨hne, hhome⟩
    · rw [heq, ← Option.some.inj hq, Function.update_self,
        Function.update_of_ne (hl.ne_of_inTree hl.parent_inTree)]
      exact Nat.lt_succ_self _
    · rw [Function.update_of_ne (hl.ne_of_inTree (h.above j q hhome)), Function.update_of_ne hne]
      exact h.rank j q hhome
  · intro j hj hjroot
    rw [hl.type] at hj
    exact hl.links h hj hjroot
  · have hlinks := h.rootLinks
    rw [hl.ncard_childSet h, hl.nlink_of_ne hrootn]
    lia

theorem childSet_unlinked (htype : forall j, (tr'.dinodes j).type = (tr.dinodes j).type)
    (j : Nat) : childSet tr' (Function.update home n none) j = childSet tr home j \ {n} := by
  ext c
  rw [Set.mem_sdiff, Set.mem_singleton_iff]
  constructor
  · intro hboth
    rcases hboth with ⟨hc, hdir⟩
    have hne : c ≠ n := by
      intro heq
      rw [heq, Function.update_self] at hc
      cases hc
    rw [Function.update_of_ne hne] at hc
    rw [htype] at hdir
    exact ⟨⟨hc, hdir⟩, hne⟩
  · intro hboth
    rcases hboth with ⟨⟨hc, hdir⟩, hne⟩
    rw [← htype] at hdir
    exact ⟨(Function.update_of_ne hne ..).trans hc, hdir⟩

/-- An empty inode `n` loses its entry; no removed directory names it as its parent. -/
structure Unlinking (tr tr' : Tree) (home : Nat -> Option Nat) (d n k : Nat) (e : Dirent) : Prop
    extends Relinked tr tr' d n k { inum := 0, name := [] } where
  behind : 2 ≤ k
  entry : tr.Entry d k e
  inum : e.inum = n
  empty : (tr.dinodes n).type = InodeType.directory -> forall l f, tr.Entry n l f -> l < 2
  parents : forall c, (tr.dinodes c).type = InodeType.directory -> Dots tr home c n ->
    InTree home c
  link : (tr'.dinodes n).nlink = (tr.dinodes n).nlink - 1
  back : (tr'.dinodes d).nlink = (tr.dinodes d).nlink -
    if (tr.dinodes n).type = InodeType.directory then 1 else 0

section Unlinking

variable {c l p j : Nat} {e f : Dirent}

theorem Unlinking.home_eq (h : Unlinking tr tr' home d n k e) (hf : Forest tr home rank) :
    home n = some d := h.inum ▸ (hf.entries d k e h.entry h.behind).left

theorem Unlinking.not_root (h : Unlinking tr tr' home d n k e) (hf : Forest tr home rank) :
    n ≠ rootInum := by
  intro heq
  have hhome := h.home_eq hf
  rw [heq, hf.rootHome] at hhome
  cases hhome

theorem Unlinking.leaf (h : Unlinking tr tr' home d n k e) (hf : Forest tr home rank) :
    home j ≠ some n := by
  intro hj
  rcases hf.entered j n hj with ⟨l, f, hl, hentry, -⟩
  have hlt := h.empty (hf.home_directory hj) l f hentry
  lia

theorem Unlinking.entry_iff (h : Unlinking tr tr' home d n k e) :
    tr'.Entry c l f <-> tr.Entry c l f ∧ (c ≠ d ∨ l ≠ k) := by
  constructor
  · intro hentry
    rcases same_or_other_place c l d k with ⟨hc, hl⟩ | hne
    · have heq := hentry.right.left
      rw [hc, hl, h.here] at heq
      exact absurd (congrArg Dirent.inum (Option.some.inj heq)).symm hentry.right.right
    · exact ⟨(h.entry_of_ne hne).mp hentry, hne⟩
  · intro hboth
    exact (h.entry_of_ne hboth.right).mpr hboth.left

theorem Unlinking.inum_ne (h : Unlinking tr tr' home d n k e) (hf : Forest tr home rank)
    (hentry : tr'.Entry c l f) (hl : 2 ≤ l) : f.inum ≠ n := by
  intro heq
  rcases h.entry_iff.mp hentry with ⟨hold, hne⟩
  have hc := (hf.entries c l f hold hl).left
  rw [heq, h.home_eq hf] at hc
  have hdc := Option.some.inj hc
  have hlk := hf.once d l k f e (hdc ▸ hold) h.entry hl h.behind (heq.trans h.inum.symm)
  exact hne.elim (fun hcd => hcd hdc.symm) (fun hkl => hkl hlk)

/-- The parent counts a subdirectory less, and the other inodes keep their links. -/
theorem Unlinking.nlink_of_ne (h : Unlinking tr tr' home d n k e) (hj : j ≠ n) :
    (tr'.dinodes j).nlink = (tr.dinodes j).nlink -
      if j = d ∧ (tr.dinodes n).type = InodeType.directory then 1 else 0 := by
  cases Decidable.em (j = d) with
  | inl heq =>
      rw [heq, h.back]
      congr 1
      exact if_congr (by rw [eq_self, true_and]) rfl rfl
  | inr hne =>
      rw [if_neg (fun hboth => hne hboth.left)]
      exact h.nlink j hj hne

theorem Unlinking.ncard_childSet (h : Unlinking tr tr' home d n k e) (hf : Forest tr home rank)
    (j : Nat) : (childSet tr' (Function.update home n none) j).ncard +
      (if j = d ∧ (tr.dinodes n).type = InodeType.directory then 1 else 0) =
        (childSet tr home j).ncard := by
  rw [childSet_unlinked h.type]
  split
  · rename_i hboth
    have hmem : n ∈ childSet tr home j := ⟨hboth.left ▸ h.home_eq hf, hboth.right⟩
    exact Set.ncard_sdiff_singleton_add_one hmem (hf.finite_childSet j)
  · rename_i hnot
    rw [Set.sdiff_singleton_eq_self, Nat.add_zero]
    intro hmem
    exact hnot ⟨Option.some.inj (hmem.left.symm.trans (h.home_eq hf)), hmem.right⟩

/-- Directories keep their parents, of which `n` is none. -/
theorem Unlinking.dots_update (h : Unlinking tr tr' home d n k e) (hf : Forest tr home rank)
    (hc : (tr.dinodes c).type = InodeType.directory) (hp : Dots tr home c p) :
    Dots tr' (Function.update home n none) c p := by
  have hpn : p ≠ n := by
    intro heq
    rw [heq] at hp
    rcases h.parents c hc hp with hroot | hhome
    · exact h.not_root hf (hp.root_eq hroot)
    · rcases Option.ne_none_iff_exists'.mp hhome with ⟨q, hq⟩
      rw [← hp.home_eq q hq] at hq
      exact h.leaf hf hq
  apply h.dots h.behind hp (inTree_update_of_ne hp.inTree hpn)
  intro q hq
  rcases update_home_cases hq with ⟨-, hnone⟩ | ⟨-, hhome⟩
  · cases hnone
  · exact hp.home_eq q hhome

theorem Unlinking.entered (h : Unlinking tr tr' home d n k e) (hf : Forest tr home rank)
    (hjn : j ≠ n) (hj : home j = some p) :
    exists l f, 2 ≤ l ∧ tr'.Entry p l f ∧ f.inum = j := by
  rcases hf.entered j p hj with ⟨l, f, hl, hentry, heq⟩
  refine ⟨l, f, hl, h.entry_iff.mpr ⟨hentry, ?_⟩, heq⟩
  rcases same_or_other_place p l d k with ⟨hp, hlk⟩ | hne
  · have hfound := hentry.right.left
    rw [hp, hlk, h.entry.right.left] at hfound
    have hsame := congrArg Dirent.inum (Option.some.inj hfound)
    exact absurd (heq.symm.trans (hsame.symm.trans h.inum)) hjn
  · exact hne

theorem Unlinking.links (h : Unlinking tr tr' home d n k e) (hf : Forest tr home rank)
    (hj : (tr.dinodes j).type ≠ InodeType.none) (hroot : j ≠ rootInum) :
    (tr'.dinodes j).nlink = (if Function.update home n none j = none then 0 else 1) +
      (childSet tr' (Function.update home n none) j).ncard := by
  have hlinks := hf.links j hj hroot
  have hchildren := h.ncard_childSet hf j
  cases Decidable.em (j = n) with
  | inl heq =>
      have hnd : Not (n = d ∧ (tr.dinodes n).type = InodeType.directory) :=
        fun hboth => h.leaf hf ((h.home_eq hf).trans (congrArg some hboth.left.symm))
      rw [heq, h.home_eq hf, if_neg (Option.some_ne_none d)] at hlinks
      rw [heq, if_neg hnd] at hchildren
      rw [heq, h.link, Function.update_self, if_pos rfl]
      lia
  | inr hne =>
      rw [h.nlink_of_ne hne, Function.update_of_ne hne, hlinks]
      lia

end Unlinking

theorem Forest.unlinked (h : Forest tr home rank) {e : Dirent}
    (hu : Unlinking tr tr' home d n k e) : Forest tr' (Function.update home n none) rank := by
  have hrootn : rootInum ≠ n := Ne.symm (hu.not_root h)
  have hhomed : forall {j q}, Function.update home n none j = some q ->
      j ≠ n ∧ home j = some q := by
    intro j q hj
    rcases update_home_cases hj with ⟨-, hnone⟩ | hother
    · cases hnone
    · exact hother
  constructor
  · rw [hu.type]
    exact h.rootDir
  · rw [Function.update_of_ne hrootn]
    exact h.rootHome
  · intro j hj
    rw [hu.type] at hj
    rw [hu.ninodes]
    exact h.inside j hj
  · intro c hc
    rw [hu.type] at hc
    rcases h.dots c hc with ⟨p, hp⟩
    exact ⟨p, hu.dots_update h hc hp⟩
  · intro c l f hf hl
    rw [Function.update_of_ne (hu.inum_ne h hf hl)]
    exact h.entries c l f (hu.entry_iff.mp hf).left hl
  · exact fun j q hj => hu.entered h (hhomed hj).left (hhomed hj).right
  · intro j q hj
    rw [hu.type]
    exact h.typed j q (hhomed hj).right
  · intro j q hj
    have hhome := (hhomed hj).right
    exact inTree_update_of_ne (h.above j q hhome) (fun heq => hu.leaf h (heq ▸ hhome))
  · exact fun c l m f g hf hg =>
      h.once c l m f g (hu.entry_iff.mp hf).left (hu.entry_iff.mp hg).left
  · exact fun j q hj => h.rank j q (hhomed hj).right
  · intro j hj hjroot
    rw [hu.type] at hj
    exact hu.links h hj hjroot
  · have hlinks := h.rootLinks
    have hchildren := hu.ncard_childSet h rootInum
    rw [hu.nlink_of_ne hrootn]
    lia

/-- The first two entries of the directory `n` below `d`. -/
def firstEntries (n d : Nat) : List Dirent :=
  [{ inum := n, name := dotName }, { inum := d, name := dotdotName }]

/-- A new inode is entered in the directory `d`, which counts a new subdirectory. -/
structure Grown (tr tr' : Tree) (d n k : Nat) (name : Name) (typ : InodeType) : Prop where
  ninodes : tr'.ninodes = tr.ninodes
  newDinode : tr'.dinodes n = { type := typ, nlink := 1 }
  dirDinode : tr'.dinodes d = { tr.dinodes d with
    nlink := (tr.dinodes d).nlink + if typ = InodeType.directory then 1 else 0 }
  dinodes : forall j, j ≠ n -> j ≠ d -> tr'.dinodes j = tr.dinodes j
  newData : typ = InodeType.directory -> tr'.data n = firstEntries n d
  here : (tr'.data d)[k]? = some { inum := n, name := name }
  rest : forall l, l ≠ k -> (tr'.data d)[l]? = (tr.data d)[l]?
  data : forall j, j ≠ n -> j ≠ d -> tr'.data j = tr.data j

/-- A free inode becomes a file or a directory of the tree. -/
theorem Forest.grown (h : Forest tr home rank) {name : Name} {typ : InodeType}
    (hg : Grown tr tr' d n k name typ) (hk : 2 ≤ k)
    (hold : forall f, (tr.data d)[k]? = some f -> f.inum = 0) (hdot : name ≠ dotName)
    (hdotdot : name ≠ dotdotName) (hdir : (tr.dinodes d).type = InodeType.directory)
    (hd : InTree home d) (hn : (tr.dinodes n).type = InodeType.none)
    (hin : 0 < n ∧ n < tr.ninodes) (htyp : typ ≠ InodeType.none) :
    Forest tr' (Function.update home n (some d)) (Function.update rank n (rank d + 1)) := by
  have hdn : d ≠ n := by
    intro heq
    rw [heq, hn] at hdir
    cases hdir
  -- First the inode is there without links, then it is entered.
  let middle : Tree :=
    { ninodes := tr.ninodes
      dinodes := Function.update tr.dinodes n { type := typ, nlink := 0 }
      data := Function.update tr.data n (tr'.data n) }
  have hadded : Added tr middle d n typ := by
    constructor
    · rfl
    · exact congrArg Dinode.type (Function.update_self n _ tr.dinodes)
    · exact congrArg Dinode.nlink (Function.update_self n _ tr.dinodes)
    · intro hdir
      exact (Function.update_self n _ tr.data).trans (hg.newData hdir)
    · exact fun j hj => Function.update_of_ne hj ..
    · exact fun j hj => Function.update_of_ne hj ..
  rcases h.added hadded hn hin hdir hd with ⟨hmiddle, hhome⟩
  have hdinode : middle.dinodes d = tr.dinodes d := hadded.dinodes d hdn
  have hdata : middle.data d = tr.data d := hadded.data d hdn
  have hrelinked : Relinked middle tr' d n k { inum := n, name := name } := by
    constructor
    · exact hg.ninodes
    · intro j
      cases Classical.em (j = n) with
      | inl heq => rw [heq, hadded.type, hg.newDinode]
      | inr hne =>
          rw [hadded.dinodes j hne]
          cases Classical.em (j = d) with
          | inl heq => rw [heq, hg.dirDinode]
          | inr hjd => rw [hg.dinodes j hne hjd]
    · intro j hne hjd
      rw [hadded.dinodes j hne, hg.dinodes j hne hjd]
    · intro j hjd
      cases Classical.em (j = n) with
      | inl heq =>
          rw [heq]
          exact (Function.update_self n _ tr.data).symm
      | inr hne =>
          rw [hadded.data j hne]
          exact hg.data j hne hjd
    · exact hg.here
    · intro l hl
      rw [hdata]
      exact hg.rest l hl
  have hroot : n ≠ rootInum := by
    intro heq
    have hrootDir := h.rootDir
    rw [← heq, hn] at hrootDir
    cases hrootDir
  apply hmiddle.linked
  refine ⟨hrelinked, hk, ?_, hdot, hdotdot, ?_, hd, ?_, hroot, hhome, ?_, ?_, ?_⟩
  · rw [hdata]
    exact hold
  · rw [hdinode]
    exact hdir
  · rw [hadded.type]
    exact htyp
  · intro hdir p hp
    have hparent := hp.parent
    rw [hadded.empty (hadded.type.symm.trans hdir)] at hparent
    exact (congrArg Dirent.inum (Option.some.inj hparent)).symm
  · rw [hadded.nlink, hg.newDinode]
  · rw [hdinode, hadded.type, hg.dirDinode]

end Changes

end Syscall
end Fs
end NicoOS
