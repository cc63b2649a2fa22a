import NicoOS.Mkfs.Nodes

/-!
# Calls that build the list

Where the list that a call of `mkfs/fs.c` leads to has room on the image, the call returns and
the image holds that list.
-/

namespace NicoOS
namespace Mkfs

open Lib
open Fs
open Fs.Inode (Dinode InodeType Sound Stepped sourceBytes)

section Calls

variable {d : Disk} {nodes : List Node} {k : Nat} {n : Node}

theorem Holds.used (h : Holds d nodes) (hk : nodes[k]? = some n) : Used d (inumOf k) := by
  rcases h.node k n hk with ⟨c, hc, -⟩
  constructor
  · exact hc.inside
  · rw [hc.type]
    exact InodeType.code_ne_none hc.inUse

/-- `ialloc` and the first fields of `create_file` make the next file. -/
theorem createInode_holds (h : Holds d nodes) (major minor : Int32) {typ : InodeType}
    (htyp : typ ≠ InodeType.none) (hroom : nodes.length + 1 < d.sb.ninodes.toNat) :
    exists d', createInode major minor typ d = Except.ok (inumOf nodes.length, d') ∧
      d'.sb = d.sb ∧ Holds d' (nodes ++ [{ nlink := 1, content := Content.empty typ }]) := by
  have hnext := h.toNat (Nat.le_refl nodes.length)
  have hfree : FreeInode d := by
    refine ⟨inumOf nodes.length, ?_, ?_, ?_⟩
    · apply UInt32.le_iff_toNat_le.mpr
      rw [hnext]
      exact Nat.le_add_left _ _
    · apply UInt32.lt_iff_toNat_lt.mpr
      rw [hnext]
      exact hroom
    · apply h.free
      · apply UInt32.lt_iff_toNat_lt.mpr
        rw [hnext]
        exact hroom
      · intro k hk heq
        have hkeq := h.inumOf_inj (Nat.le_refl _) (Nat.le_of_lt hk) heq
        lia
  rcases ((createInode_meets h.image.formatted major minor typ).and
    (createInode_reads h.sound major minor htyp)).ok (fun e he => he.left.right hfree) with
      ⟨r, hrun, ⟨-, hcreated⟩, hfirst, hstep, hreads⟩
  rcases r with ⟨inum, d'⟩
  have hinum := h.firstFree hroom hfirst
  dsimp only at hinum hcreated hstep hreads
  rw [hinum] at hrun hcreated hstep hreads
  have hcost : cost [{ nlink := 1, content := Content.empty typ }] = 0 := by
    unfold cost Node.cost
    simp only [List.map_cons, List.map_nil, Content.length_empty]
    rfl
  refine ⟨d', hrun, hcreated.sb, ?_⟩
  constructor
  · exact (hcreated.changes h.image htyp).image h.image
  · exact hstep.sound
  · rw [List.length_append, hcreated.sb]
    exact hroom
  · intro k m hk
    cases Nat.lt_or_ge k nodes.length with
    | inl hlt =>
        rw [List.getElem?_append_left hlt] at hk
        rcases h.node k m hk with ⟨c, hc, hshows⟩
        refine ⟨c, hc.stepped hstep ?_, hshows⟩
        intro heq
        have hkeq := h.inumOf_inj (Nat.le_of_lt hlt) (Nat.le_refl _) heq
        lia
    | inr hge =>
        rw [List.getElem?_append_right hge] at hk
        have hzero : k - nodes.length = 0 := by
          have hlt := lt_of_getElem? hk
          rw [List.length_singleton] at hlt
          lia
        have hkeq : k = nodes.length := by lia
        rw [hzero] at hk
        cases hk
        refine ⟨[], ?_, Content.shows_empty typ⟩
        rw [hkeq]
        simp only [Content.typ_empty htyp]
        exact hreads
  · intro j hj hnone
    rw [List.length_append] at hnone
    rw [hcreated.sb] at hj
    rw [hcreated.others j hj (hnone _ (Nat.lt_succ_self _))]
    exact h.free j hj (fun k hk => hnone k (Nat.lt_succ_of_lt hk))
  · rw [cost_append, hcost, hcreated.free_eq h.image.formatted, hcreated.sb]
    exact h.paid

theorem iappend_holds (h : Holds d nodes) (hk : nodes[k]? = some n) (src : Memory) (sz : UInt32)
    (f : Node -> Node) (htyp : (f n).content.typ = n.content.typ) (hlink : (f n).nlink = n.nlink)
    (hlen : (f n).content.length = n.content.length + sz.toNat)
    (hshows : forall c, n.content.Shows c ->
      (f n).content.Shows (c ++ sourceBytes src sz.toNat))
    (hroom : Room d.sb (nodes.modify k f)) :
    exists d', iappend (inumOf k) src sz d = Except.ok d' ∧ d'.sb = d.sb ∧
      Holds d' (nodes.modify k f) := by
  rcases h.node k n hk with ⟨c, hc, hold⟩
  have hused := h.used hk
  have hsize : (iread d (inumOf k)).size.toNat = n.content.length := hc.size.trans hold.length
  have hmem : f n ∈ nodes.modify k f := by
    apply List.mem_of_getElem? (i := k)
    rw [List.getElem?_modify_eq, hk]
    rfl
  have hsmall := hroom.small (f n) hmem
  have hblocks := hroom.blocks
  have hcost := cost_modify f hk
  have hpaid := h.paid
  have hgrow : n.cost + growCost (blocksOf n.content.length) (blocksOf (f n).content.length) =
      (f n).cost :=
    growCost_trans (Nat.zero_le _) (blocksOf_mono (by lia))
  have hfinish : (f n).content.length = (iread d (inumOf k)).size.toNat + sz.toNat := by
    rw [hsize]
    exact hlen
  have hmeets := (iappend_meets h.image.formatted (h.image.stored _ hused) src sz hfinish).and
    (iappend_reads h.sound hc src sz)
  rw [hsize] at hmeets
  have hno : forall e, Not (AppendStops d (blocksOf n.content.length) (f n).content.length e ∧
      True) := by
    intro e he
    cases e with
    | exit =>
        have hlt : d.free < growCost (blocksOf n.content.length)
          (min (blocksOf (f n).content.length) maxDataBlocks) := he.left
        rw [Nat.min_eq_left (blocksOf_le_max hsmall)] at hlt
        lia
    | overrun => exact absurd he.left.left (Nat.not_lt_of_le hsmall)
  rcases hmeets.ok hno with ⟨d', hrun, ⟨-, happended⟩, hstep, hreads⟩
  refine ⟨d', hrun, happended.sb, ?_⟩
  apply h.modify hk f
  · exact (happended.changes h.image hused).image h.image
  · exact happended.sb
  · exact hstep
  · refine ⟨_, ?_, hshows c hold⟩
    rw [htyp, hlink]
    exact hreads
  · have hspent := happended.paid
    rw [hsize] at hspent
    lia

theorem link_holds (h : Holds d nodes) (hk : nodes[k]? = some n) :
    Holds (iwrite { iread d (inumOf k) with nlink := (iread d (inumOf k)).nlink + 1 } (inumOf k) d)
      (nodes.modify k Node.link) := by
  rcases h.node k n hk with ⟨c, hc, hshows⟩
  have hl := h.image.formatted
  generalize hi : { iread d (inumOf k) with nlink := (iread d (inumOf k)).nlink + 1 } = i
  have haddrs : i.addrs = (iread d (inumOf k)).addrs := by rw [← hi]
  have hsize : i.size = (iread d (inumOf k)).size := by rw [← hi]
  have htype : i.type = (iread d (inumOf k)).type := by rw [← hi]
  have hlink : i.nlink = n.nlink + 1 := by rw [← hi, ← hc.nlink]
  have hdone := iwrite_reads h.sound hc haddrs hsize htype
  rw [hlink] at hdone
  apply h.modify hk
  · exact (iwrite_changes h.image (h.used hk) haddrs hsize htype).image h.image
  · rfl
  · exact hdone.left
  · exact ⟨c, hdone.right, hshows⟩
  · have hfree := (tableOnly_iwrite hl i hc.inside).freeBits hl
    unfold Disk.free
    rw [hfree]
    rfl

end Calls

/-!
# Lists that get longer
-/

/-- The files of the second list are those of the first one, not shorter, and others. -/
def Below : List Node -> List Node -> Prop
  | [], _ => True
  | _ :: _, [] => False
  | n :: rest, m :: more => n.content.length ≤ m.content.length ∧ Below rest more

section Below

variable {a b c : List Node} {sb : Superblock}

theorem below_refl (a : List Node) : Below a a := by
  induction a with
  | nil => exact True.intro
  | cons n rest ih => exact And.intro (Nat.le_refl _) ih

theorem Below.trans (h1 : Below a b) (h2 : Below b c) : Below a c := by
  induction a generalizing b c with
  | nil => exact True.intro
  | cons n rest ih =>
      cases b with
      | nil => cases h1
      | cons m more =>
          cases c with
          | nil => cases h2
          | cons l less =>
              exact And.intro (Nat.le_trans h1.left h2.left) (ih h1.right h2.right)

theorem below_append (a more : List Node) : Below a (a ++ more) := by
  induction a with
  | nil => exact True.intro
  | cons n rest ih => exact And.intro (Nat.le_refl _) ih

theorem below_modify (a : List Node) (k : Nat) {f : Node -> Node}
    (hf : forall n, n.content.length ≤ (f n).content.length) : Below a (a.modify k f) := by
  induction a generalizing k with
  | nil => exact True.intro
  | cons n rest ih =>
      cases k with
      | zero => exact And.intro (hf n) (below_refl rest)
      | succ k => exact And.intro (Nat.le_refl _) (ih k)

theorem Below.length (h : Below a b) : a.length ≤ b.length := by
  induction a generalizing b with
  | nil => exact Nat.zero_le _
  | cons n rest ih =>
      cases b with
      | nil => cases h
      | cons m more => exact Nat.succ_le_succ (ih h.right)

theorem Below.cost (h : Below a b) : cost a ≤ cost b := by
  induction a generalizing b with
  | nil => exact Nat.zero_le _
  | cons n rest ih =>
      cases b with
      | nil => cases h
      | cons m more =>
          have hfirst : n.cost ≤ m.cost :=
            growCost_mono (Nat.zero_le _) (blocksOf_mono h.left)
          have hrest := ih h.right
          show n.cost + Mkfs.cost rest ≤ m.cost + Mkfs.cost more
          lia

/-- The room for a list is room for the lists that it grew from. -/
theorem Room.below (h : Room sb b) (hab : Below a b) : Room sb a where
  inodes := Nat.lt_of_le_of_lt hab.length h.inodes
  small := by
    intro n hn
    have hsmall := h.small
    clear h
    induction a generalizing b with
    | nil => cases hn
    | cons m rest ih =>
        cases b with
        | nil => cases hab
        | cons l more =>
            cases List.mem_cons.mp hn with
            | inl heq =>
                rw [heq]
                exact Nat.le_trans hab.left (hsmall l List.mem_cons_self)
            | inr hrest =>
                exact ih hab.right hrest (fun i hi => hsmall i (List.mem_cons_of_mem l hi))
  blocks := Nat.le_trans hab.cost h.blocks

end Below

/-!
# Directories and files
-/

def DirAt (nodes : List Node) (k : Nat) : Prop :=
  exists n, nodes[k]? = some n ∧ n.content.typ = InodeType.directory

/-- What `dir_make` does to the list, for the new directory `c` below `p`. -/
def made (p c : Nat) (nodes : List Node) : List Node :=
  ((nodes.modify c (Node.enter [46] (inumOf c))).modify c
    (Node.enter [46, 46] (inumOf p))).modify p Node.link

/-- The entry of a new file in the directory `p`, if it is not the root. -/
def entered (p : Option Nat) (name : List UInt8) (c : Nat) (nodes : List Node) : List Node :=
  match p with
  | some p => nodes.modify p (Node.enter name (inumOf c))
  | none => nodes

def created (typ : InodeType) (p : Option Nat) (name : List UInt8) (nodes : List Node) :
    List Node :=
  let c := nodes.length
  let nodes := entered p name c (nodes ++ [{ nlink := 1, content := Content.empty typ }])
  if typ = InodeType.directory then made (p.getD c) c nodes else nodes

def written (p : Nat) (bytes name : List UInt8) (nodes : List Node) : List Node :=
  (created InodeType.file (some p) name nodes).modify nodes.length (Node.extend bytes)

def pinumOf (p : Option Nat) : UInt32 :=
  match p with
  | some p => inumOf p
  | none => 0

section Lists

variable {nodes : List Node} {k c : Nat}

theorem DirAt.lt (h : DirAt nodes k) : k < nodes.length := by
  rcases h with ⟨n, hn, -⟩
  exact lt_of_getElem? hn

theorem DirAt.modify (h : DirAt nodes k) (j : Nat) {f : Node -> Node}
    (hf : forall n, (f n).content.typ = n.content.typ) : DirAt (nodes.modify j f) k := by
  rcases h with ⟨n, hn, htyp⟩
  cases Classical.em (j = k) with
  | inl heq =>
      refine ⟨f n, ?_, (hf n).trans htyp⟩
      rw [heq, List.getElem?_modify_eq, hn]
      rfl
  | inr hne =>
      refine ⟨n, ?_, htyp⟩
      rw [List.getElem?_modify_ne _ _ hne]
      exact hn

theorem DirAt.append (h : DirAt nodes k) (more : List Node) : DirAt (nodes ++ more) k := by
  rcases h with ⟨n, hn, htyp⟩
  refine ⟨n, ?_, htyp⟩
  rw [List.getElem?_append_left (lt_of_getElem? hn)]
  exact hn

theorem Node.typ_enter (name : List UInt8) (inum : UInt32) (n : Node) :
    (n.enter name inum).content.typ = n.content.typ :=
  Content.typ_enter name inum n.content

theorem below_enter (nodes : List Node) (k : Nat) (name : List UInt8) (inum : UInt32) :
    Below nodes (nodes.modify k (Node.enter name inum)) :=
  below_modify nodes k (fun n => Content.length_le_enter name inum n.content)

theorem below_link (nodes : List Node) (k : Nat) : Below nodes (nodes.modify k Node.link) :=
  below_modify nodes k (fun _ => Nat.le_refl _)

theorem below_made (p c : Nat) (nodes : List Node) : Below nodes (made p c nodes) :=
  ((below_enter nodes c _ _).trans (below_enter _ c _ _)).trans (below_link _ p)

theorem below_entered (p : Option Nat) (name : List UInt8) (c : Nat) (nodes : List Node) :
    Below nodes (entered p name c nodes) := by
  cases p with
  | none => exact below_refl nodes
  | some p => exact below_enter nodes p name _

theorem below_created (typ : InodeType) (p : Option Nat) (name : List UInt8)
    (nodes : List Node) : Below nodes (created typ p name nodes) := by
  have hentered := (below_append nodes [{ nlink := 1, content := Content.empty typ }]).trans
    (below_entered p name nodes.length _)
  unfold created
  dsimp only
  split
  · exact hentered.trans (below_made _ _ _)
  · exact hentered

theorem created_of_ne {typ : InodeType} (htyp : typ ≠ InodeType.directory) (p : Option Nat)
    (name : List UInt8) (nodes : List Node) :
    created typ p name nodes =
      entered p name nodes.length (nodes ++ [{ nlink := 1, content := Content.empty typ }]) := by
  unfold created
  exact if_neg htyp

theorem created_directory (p : Option Nat) (name : List UInt8) (nodes : List Node) :
    created InodeType.directory p name nodes =
      made (p.getD nodes.length) nodes.length (entered p name nodes.length
        (nodes ++ [{ nlink := 1, content := Content.empty InodeType.directory }])) := by
  unfold created
  exact if_pos rfl

theorem below_written (p : Nat) (bytes name : List UInt8) (nodes : List Node) :
    Below nodes (written p bytes name nodes) :=
  (below_created _ _ name nodes).trans
    (below_modify _ _ (fun n => Content.length_le_extend bytes n.content))

end Lists

section Files

variable {d : Disk} {nodes : List Node} {p c : Nat} {name : List UInt8}

theorem dirLink_holds (h : Holds d nodes) (hdir : DirAt nodes p) (hname : EntryName name)
    (hc : c < nodes.length) (stack : Memory)
    (hroom : Room d.sb (nodes.modify p (Node.enter name (inumOf c)))) :
    exists d', dirLink (inumOf p) name (inumOf c) stack d = Except.ok d' ∧ d'.sb = d.sb ∧
      Holds d' (nodes.modify p (Node.enter name (inumOf c))) := by
  rcases hdir with ⟨n, hn, htyp⟩
  unfold dirLink
  rw [if_neg (Nat.not_le_of_lt hname.short)]
  apply iappend_holds h hn _ _ _ (Node.typ_enter name (inumOf c) n) rfl
  · exact Content.length_enter name _ htyp
  · intro b hb
    exact hb.enter htyp hname (h.inumOf_ne_zero (Nat.le_of_lt hc)) stack
  · exact hroom

theorem dirMake_holds (h : Holds d nodes) (hp : DirAt nodes p) (hc : DirAt nodes c)
    (stack : Memory) (hroom : Room d.sb (made p c nodes)) :
    exists d', dirMake (inumOf p) (inumOf c) stack d = Except.ok d' ∧ d'.sb = d.sb ∧
      Holds d' (made p c nodes) := by
  have hdot : EntryName [46] := ⟨by decide, by decide⟩
  have hdots : EntryName [46, 46] := ⟨by decide, by decide⟩
  have htyp := Node.typ_enter
  have hroom2 := hroom.below (below_link _ p)
  have hroom1 := hroom2.below (below_enter _ c _ _)
  rcases dirLink_holds h hc hdot hc.lt stack hroom1 with ⟨d1, hrun1, hsb1, h1⟩
  rw [← hsb1] at hroom2
  have hp1 := hp.modify c (htyp [46] (inumOf c))
  have hc1 := hc.modify c (htyp [46] (inumOf c))
  rcases dirLink_holds h1 hc1 hdots hp1.lt stack hroom2 with ⟨d2, hrun2, hsb2, h2⟩
  rcases hp1.modify c (htyp [46, 46] (inumOf p)) with ⟨n, hn, -⟩
  unfold dirMake
  rw [hrun1, ok_bind, hrun2, ok_bind]
  exact ⟨_, rfl, hsb2.trans hsb1, link_holds h2 hn⟩

theorem enter_holds (h : Holds d nodes) {p : Option Nat}
    (hp : forall k, p = some k -> DirAt nodes k) (hname : EntryName name) (hc : c < nodes.length)
    (stack : Memory) (hroom : Room d.sb (entered p name c nodes)) :
    exists d', (if pinumOf p ≠ 0 then dirLink (pinumOf p) name (inumOf c) stack d
        else Except.ok d) = Except.ok d' ∧
      d'.sb = d.sb ∧ Holds d' (entered p name c nodes) := by
  cases p with
  | none =>
      rw [if_neg (not_not_intro (show pinumOf none = 0 from rfl))]
      exact ⟨d, rfl, rfl, h⟩
  | some k =>
      have hdir := hp k rfl
      have hne : pinumOf (some k) ≠ 0 := h.inumOf_ne_zero (Nat.le_of_lt hdir.lt)
      rw [if_pos hne]
      exact dirLink_holds h hdir hname hc stack hroom

theorem DirAt.entered {k : Nat} (h : DirAt nodes k) (p : Option Nat) (name : List UInt8)
    (c : Nat) : DirAt (entered p name c nodes) k := by
  cases p with
  | none => exact h
  | some p => exact h.modify p (Node.typ_enter name (inumOf c))

theorem dirAt_new (nodes : List Node) :
    DirAt (nodes ++ [{ nlink := 1, content := Content.empty InodeType.directory }])
      nodes.length := by
  refine ⟨{ nlink := 1, content := Content.empty InodeType.directory }, ?_, rfl⟩
  exact List.getElem?_concat_length

/-- `create_file` below a directory of the list, or of the root. -/
theorem createFile_holds (h : Holds d nodes) {p : Option Nat}
    (hp : forall k, p = some k -> DirAt nodes k) (hname : EntryName name) (major minor : Int32)
    {typ : InodeType} (htyp : typ ≠ InodeType.none) (stack : Memory)
    (hroom : Room d.sb (created typ p name nodes)) :
    exists d', createFile major minor typ (pinumOf p) name stack d =
        Except.ok (inumOf nodes.length, d') ∧
      d'.sb = d.sb ∧ Holds d' (created typ p name nodes) := by
  have hentered : Below (entered p name nodes.length
      (nodes ++ [{ nlink := 1, content := Content.empty typ }])) (created typ p name nodes) := by
    unfold created
    dsimp only
    split
    · exact below_made _ _ _
    · exact below_refl _
  have hroom2 := hroom.below hentered
  have hroom1 := hroom2.below (below_entered p name nodes.length _)
  have hlen := hroom1.inodes
  rw [List.length_append] at hlen
  rcases createInode_holds h major minor htyp hlen with ⟨d1, hrun1, hsb1, h1⟩
  rw [← hsb1] at hroom2
  have hparent : forall k, p = some k ->
      DirAt (nodes ++ [{ nlink := 1, content := Content.empty typ }]) k :=
    fun k hk => (hp k hk).append _
  rcases enter_holds h1 hparent hname (c := nodes.length) (by simp) stack hroom2 with
    ⟨d2, hrun2, hsb2, h2⟩
  unfold createFile
  rw [hrun1, ok_bind]
  dsimp only
  rw [hrun2, ok_bind]
  cases Classical.em (typ = InodeType.directory) with
  | inr hne =>
      rw [if_neg hne, created_of_ne hne]
      exact ⟨d2, rfl, hsb2.trans hsb1, h2⟩
  | inl heq =>
      subst heq
      have hnumber : (if pinumOf p = 0 then inumOf nodes.length else pinumOf p) =
          inumOf (p.getD nodes.length) := by
        cases p with
        | none => exact if_pos rfl
        | some k => exact if_neg (h.inumOf_ne_zero (Nat.le_of_lt (hp k rfl).lt))
      have hnew : DirAt (entered p name nodes.length
          (nodes ++ [{ nlink := 1, content := Content.empty InodeType.directory }])) nodes.length :=
        (dirAt_new nodes).entered p name _
      have hold : DirAt (entered p name nodes.length
          (nodes ++ [{ nlink := 1, content := Content.empty InodeType.directory }]))
          (p.getD nodes.length) := by
        cases p with
        | none => exact hnew
        | some k => exact (hparent k rfl).entered _ name _
      rw [created_directory, ← hsb1, ← hsb2] at hroom
      rcases dirMake_holds h2 hold hnew stack hroom with ⟨d3, hrun3, hsb3, h3⟩
      rw [if_pos rfl, hnumber, hrun3, created_directory]
      exact ⟨d3, rfl, hsb3.trans (hsb2.trans hsb1), h3⟩

def HostFile.bytes (file : HostFile) : List UInt8 := sourceBytes file.content file.length

/-- `write_to_fsfile` below a directory of the list, for a file that can be read. -/
theorem writeToFsfile_holds (h : Holds d nodes) (hp : DirAt nodes p) (hname : EntryName name)
    {file : HostFile} (hloaded : file.loaded = true) (stack : Memory)
    (hsmall : file.length ≤ maxFileSize)
    (hroom : Room d.sb (written p file.bytes name nodes)) :
    exists d', writeToFsfile (inumOf p) file name stack d =
        Except.ok (inumOf nodes.length, d') ∧
      d'.sb = d.sb ∧ Holds d' (written p file.bytes name nodes) := by
  have hfile : InodeType.file ≠ InodeType.none := InodeType.noConfusion
  have hsize := size_eq_length hsmall
  have hparent : forall k, some p = some k -> DirAt nodes k := by
    intro k hk
    rw [← Option.some.inj hk]
    exact hp
  have hroom1 := hroom.below (below_modify (created InodeType.file (some p) name nodes)
    nodes.length (fun n => Content.length_le_extend file.bytes n.content))
  rcases createFile_holds h hparent hname 0 0 hfile stack hroom1 with ⟨d1, hrun1, hsb1, h1⟩
  have hne : nodes.length ≠ p := Nat.ne_of_gt hp.lt
  have hnew : (created InodeType.file (some p) name nodes)[nodes.length]? =
      some { nlink := 1, content := Content.file [] } := by
    have hkind : InodeType.file ≠ InodeType.directory := InodeType.noConfusion
    rw [created_of_ne hkind, entered, List.getElem?_modify_ne _ _ hne.symm]
    exact List.getElem?_concat_length
  rw [← hsb1] at hroom
  rcases iappend_holds h1 hnew file.content file.size (Node.extend file.bytes) rfl rfl (by
      rw [hsize]
      show ([] ++ file.bytes).length = 0 + file.length
      rw [List.nil_append, Nat.zero_add]
      exact Inode.length_sourceBytes _ _) (by
      intro c hc
      have hextend := hc.extend rfl file.bytes
      rw [hsize]
      exact hextend) hroom with ⟨d2, hrun2, hsb2, h2⟩
  unfold writeToFsfile
  rw [if_pos hloaded]
  have hstart : createFile 0 0 InodeType.file (inumOf p) name stack d =
      Except.ok (inumOf nodes.length, d1) := hrun1
  rw [hstart, ok_bind]
  dsimp only
  rw [hrun2]
  exact ⟨d2, rfl, hsb2.trans hsb1, h2⟩

end Files

end Mkfs
end NicoOS
