import NicoOS.Kernel.Vm.Exec

/-!
# Hostile programs

The stages of `proc_execv` on headers and arguments that nobody has vouched for: a stage
ends well, or it has found the free list empty, or it has met a page that is there.
-/

namespace NicoOS
namespace Kernel
namespace Vm

open Lib

/-!
# What an address space keeps while it is built
-/

structure Builds (s : Phys) (free : List Nat) (L : Layout) (s' : Phys) (free' : List Nat)
    (L' : Layout) : Prop where
  grows : Grows s free L s' free' L'
  keeps : forall x f, L.frame x = some f -> L'.frame x = some f
  covers : forall f, f ∈ free -> f ∈ free' ∨ exists x, L'.frame x = some f
  exhausted : s'.exhausted = s.exhausted

section Building

variable {s : Phys} {free : List Nat} {L : Layout}

theorem Builds.refl (h : Sound s free L) : Builds s free L s free L where
  grows := (Extends.refl h).grows
  keeps _ _ hx := hx
  covers _ hf := Or.inl hf
  exhausted := rfl

theorem Grows.apart {s1 : Phys} {free1 : List Nat} {L1 : Layout} (h : Grows s free L s1 free1 L1)
    {f : Nat} (hunused : L.Unused f) (hfree : Not (f ∈ free)) :
    L1.Unused f ∧ Not (f ∈ free1) := by
  constructor
  · intro x hx
    rcases h.fresh x f hx with hold | hmem
    · exact hunused x hold
    · exact hfree hmem
  · exact fun hmem => hfree (h.taken f hmem)

theorem Builds.trans {s1 s2 : Phys} {free1 free2 : List Nat} {L1 L2 : Layout}
    (h : Builds s free L s1 free1 L1) (h1 : Builds s1 free1 L1 s2 free2 L2) :
    Builds s free L s2 free2 L2 where
  grows := by
    constructor
    · exact h1.grows.sound
    · exact h1.grows.dir.trans h.grows.dir
    · intro x f hx
      rcases h1.grows.fresh x f hx with hold | hfree
      · exact h.grows.fresh x f hold
      · exact Or.inr (h.grows.taken f hfree)
    · exact fun f hf => h.grows.taken f (h1.grows.taken f hf)
    · intro f hunused hfree
      rcases h.grows.apart hunused hfree with ⟨hunused1, hfree1⟩
      exact (h1.grows.others f hunused1 hfree1).trans (h.grows.others f hunused hfree)
  keeps x f hx := h1.keeps x f (h.keeps x f hx)
  covers f hf := by
    rcases h.covers f hf with hfree | ⟨x, hx⟩
    · exact h1.covers f hfree
    · exact Or.inr ⟨x, h1.keeps x f hx⟩
  exhausted := h1.exhausted.trans h.exhausted

theorem Extends.builds {s' : Phys} {free' : List Nat} {L' : Layout}
    (h : Extends s free L s' free' L')
    (hcovers : forall f, f ∈ free -> f ∈ free' ∨ exists x, L'.frame x = some f) :
    Builds s free L s' free' L' where
  grows := h.grows
  keeps := h.keeps
  covers := hcovers
  exhausted := h.exhausted

theorem Wrote.builds {s' : Phys} {P : Nat -> Nat -> Prop} (hs : Sound s free L)
    (h : Wrote s s' L P) : Builds s free L s' free L where
  grows := by
    constructor
    · exact h.sound hs
    · rfl
    · exact fun x f hx => Or.inl hx
    · exact fun f hf => hf
    · exact fun f hunused _ => h.frame (fun v hv => hunused (Slot.page v) hv)
  keeps _ _ hx := hx
  covers _ hf := Or.inl hf
  exhausted := h.exhausted

/-- The address space is given back: its frames are free, and no other frame has changed. -/
structure Undone (s : Phys) (free : List Nat) (C : Layout) (s' : Phys) : Prop where
  frees : exists free', Pool s' free' ∧
    forall f, f ∈ free' <-> f ∈ free ∨ exists x, C.frame x = some f
  others : forall f, C.Unused f -> Not (f ∈ free) -> s'.frame f = s.frame f

/-- What has been built in between is given back as well. -/
theorem Builds.undone {s1 s' : Phys} {free1 : List Nat} {L1 : Layout}
    (h : Builds s free L s1 free1 L1) (hundone : Undone s1 free1 L1 s') : Undone s free L s' where
  frees := by
    rcases hundone.frees with ⟨free', hpool, hmem⟩
    refine ⟨free', hpool, ?_⟩
    intro f
    rw [hmem]
    constructor
    · intro hor
      rcases hor with hfree | ⟨x, hx⟩
      · exact Or.inl (h.grows.taken f hfree)
      · rcases h.grows.fresh x f hx with hold | hfree
        · exact Or.inr ⟨x, hold⟩
        · exact Or.inl hfree
    · intro hor
      rcases hor with hfree | ⟨x, hx⟩
      · exact h.covers f hfree
      · exact Or.inr ⟨x, h.keeps x f hx⟩
  others f hunused hfree := by
    rcases h.grows.apart hunused hfree with ⟨hunused1, hfree1⟩
    exact (hundone.others f hunused1 hfree1).trans (h.grows.others f hunused hfree)

/-!
# Segments
-/

theorem wordAt_lt (bytes : List UInt8) (a : Nat) : wordAt bytes a < 0x100000000 := by
  have h0 := (bytesMemory bytes a).toNat_lt
  have h1 := (bytesMemory bytes (a + 1)).toNat_lt
  have h2 := (bytesMemory bytes (a + 2)).toNat_lt
  have h3 := (bytesMemory bytes (a + 3)).toNat_lt
  unfold wordAt Memory.word
  omega

theorem readProghdr_word {file : List UInt8} {off : Nat} {ph : Proghdr}
    (h : readProghdr file off = some ph) : ph.Word := by
  unfold readProghdr at h
  rcases Option.map_eq_some_iff.mp h with ⟨bytes, -, hph⟩
  rw [<- hph]
  exact ⟨wordAt_lt bytes 8, wordAt_lt bytes 20⟩

theorem readProghdrs_word {file : List UInt8} {k off : Nat} {ph : Proghdr}
    (h : some ph ∈ readProghdrs file k off) : ph.Word := by
  induction k generalizing off with
  | zero => cases h
  | succ k ih =>
      rcases List.mem_cons.mp h with hhead | hrest
      · exact readProghdr_word hhead.symm
      · exact ih hrest

theorem vmLoadFrom_loads {base sz : Nat} (file : List UInt8) (k done off : Nat) (h : Sound s free L)
    (hbase : base % 4096 = 0) (htop : base + sz ≤ userHeapBase)
    (hdone : done % 4096 = 0 ∨ sz ≤ done)
    (hpresent : forall v, base / 4096 ≤ v -> 4096 * v < base + sz -> L.page v ≠ none) :
    exists s', vmLoadFrom (kernelAddr L.dir) file sz k done off (base + done) s =
      Except.ok (loads file sz k done off, s') := by
  have htopEq : userHeapBase = 134512640 := rfl
  have hpgSize : pgSize = 4096 := rfl
  induction k generalizing s done off with
  | zero => exact ⟨s, rfl⟩
  | succ k ih =>
      unfold vmLoadFrom loads
      by_cases hlt : done < sz
      · rw [if_pos hlt, if_pos hlt]
        dsimp only
        have hdone0 : done % 4096 = 0 := by
          rcases hdone with hzero | hge
          · exact hzero
          · lia
        have hv : base + done < kernelBase := by
          rw [kernelBase_eq]
          omega
        generalize hper : (if pgSize > sz - done then sz - done else pgSize) = perSz
        have hperLe : perSz ≤ 4096 ∧ done + perSz ≤ sz ∧
            ((done + perSz) % 4096 = 0 ∨ sz ≤ done + perSz) := by
          rw [hpgSize] at hper
          split at hper <;> omega
        cases hpage : L.page ((base + done) / 4096) with
        | none => exact absurd hpage (hpresent _ (by omega) (by omega))
        | some f =>
            rw [pageFramePtr_some h hv hpage, ok_bind, if_neg (kernelAddr_ne_zero f)]
            cases hread : inodeRead file off perSz with
            | none => exact ⟨s, rfl⟩
            | some bytes =>
                dsimp only
                have hlen := inodeRead_length hread
                have hwrite : Wrote s (s.setFrame f (writeBytes (s.frame f) bytes)) L
                    (fun _ _ => True) := by
                  apply wrote_page hpage
                  exact fun x => Or.inr trivial
                have hnext : wrap (base + done + perSz) = base + (done + perSz) := by
                  rw [wrap_eq]
                  omega
                rw [pageAt_kernelAddr (h.page_inPool hpage), ok_bind, hnext]
                exact ih _ _ (hwrite.sound h) hperLe.right.right
      · rw [if_neg hlt, if_neg hlt]
        exact ⟨s, rfl⟩

/-- The frames that a new page takes are the page's and its table's. -/
theorem NewPage.covers {f vaddr : Nat} {rest free' : List Nat} {s' : Phys} {L' : Layout}
    (h : Sound s (f :: rest) L) (hpage : NewPage s f rest L vaddr s' free' L') {g : Nat}
    (hg : g ∈ f :: rest) : g ∈ free' ∨ exists x, L'.frame x = some g := by
  have hpageOf : L'.frame (Slot.page (vaddr / 4096)) = some f :=
    (hpage.page _ f).mpr (Or.inl ⟨rfl, rfl⟩)
  rcases List.mem_cons.mp hg with hgf | hgrest
  · exact Or.inr ⟨Slot.page (vaddr / 4096), hgf ▸ hpageOf⟩
  · have hleft := hpage.left
    cases hhas : L.hasTable (vaddr / 4096 / 1024) with
    | true =>
        rw [if_pos hhas] at hleft
        exact Or.inl (hleft ▸ hgrest)
    | false =>
        rw [if_neg (Bool.eq_false_iff.mp hhas)] at hleft
        cases rest with
        | nil => cases hgrest
        | cons t rest =>
            rcases List.mem_cons.mp hgrest with hgt | hgtail
            · right
              have hmarked : L'.hasTable (vaddr / 4096 / 1024) = true := by
                rw [hpage.tables]
                exact if_pos rfl
              rcases Option.isSome_iff_exists.mp hmarked with ⟨u, hu⟩
              have hu' : L'.frame (Slot.table (vaddr / 4096 / 1024)) = some u := hu
              refine ⟨Slot.table (vaddr / 4096 / 1024), ?_⟩
              rcases hpage.grown.fresh _ u hu' with hold | hfresh
              · rw [Layout.hasTable_of_some hold] at hhas
                cases hhas
              · rcases List.mem_cons.mp hfresh with huf | hurest
                · have hslot := hpage.grown.sound.own _ _ u hu' (huf ▸ hpageOf)
                  cases hslot
                · rcases List.mem_cons.mp hurest with hut | hutail
                  · rw [hu', hut, hgt]
                  · exact absurd (hleft ▸ hutail) (hpage.grown.sound.used _ u hu')
            · exact Or.inl (hleft ▸ hgtail)

/-- The frames that a range takes become frames of the address space. -/
theorem vallocFrom_covers (cnt : Nat) {k vaddr : Nat} {s' : Phys} {free' : List Nat}
    {L' : Layout} (h : Sound s free L) (hrange : vaddr + 4096 * k ≤ kernelBase)
    (henough : vallocNeed k (vaddr / 4096) L.hasTable L.hasPage ≤ free.length)
    (hrun : vallocFrom (kernelAddr L.dir) pgUser k cnt vaddr s = Except.ok (true, s'))
    (hserved : Served s free L k (vaddr / 4096) s' free' L') {g : Nat} (hg : g ∈ free) :
    g ∈ free' ∨ exists x, L'.frame x = some g := by
  induction k generalizing s free L cnt vaddr with
  | zero =>
      cases hrun
      rw [<- h.pool.unique hserved.grown.sound.pool]
      exact Or.inl hg
  | succ k ih =>
      have hv : vaddr < kernelBase := by lia
      cases hold : L.page (vaddr / 4096) with
      | some f =>
          rcases vallocFrom_enough cnt h hrange henough with
            ⟨s2, free2, L2, -, -, hnone⟩ | ⟨-, s2, hstop, -⟩
          · rw [hnone _ (Nat.le_refl _) (by lia)] at hold
            cases hold
          · rw [hstop] at hrun
            cases hrun
      | none =>
          rw [vallocNeed_none hold] at henough
          cases free with
          | nil => cases hg
          | cons f rest =>
              rcases newPage h hv hold (by lia) with ⟨s1, free1, L1, hpage, hlen⟩
              have hneed : vallocNeed k ((vaddr + 4096) / 4096) L1.hasTable L1.hasPage ≤
                  free1.length := by
                rw [next_page, hpage.tables, hpage.hasPages]
                lia
              rw [vallocFrom_step k cnt h hv hpage] at hrun
              have hrange1 : vaddr + 4096 + 4096 * k ≤ kernelBase := by lia
              rcases vallocFrom_enough (cnt + 1) hpage.grown.sound hrange1 hneed with
                ⟨s2, free2, L2, hrun2, hserved2, -⟩ | ⟨-, s2, hstop, -⟩
              · rw [hrun2] at hrun
                cases hrun
                have hfree : free2 = free' :=
                  hserved2.grown.sound.pool.unique hserved.grown.sound.pool
                have hlayout : L2 = L' := by
                  have hdir2 := hserved2.grown.dir.trans hpage.grown.dir
                  rw [<- hserved2.grown.sound.layout, hdir2, <- hserved.grown.sound.layout,
                    hserved.grown.dir]
                rw [hfree, hlayout] at hserved2
                rcases hpage.covers h hg with hfree1 | ⟨x, hx⟩
                · exact ih (cnt + 1) hpage.grown.sound hrange1 hneed hrun2 hserved2 hfree1
                · exact Or.inr ⟨x, hserved2.grown.keeps x g hx⟩
              · rw [hstop] at hrun
                cases hrun

/-- `vm_valloc` gets its pages, or meets one that is there, or finds the list empty. -/
theorem vmValloc_cases {vm : AddressSpace} {vaddr pgcnt : Nat} (h : Sound s free L)
    (hvm : vm.pgdir = kernelAddr L.dir) (hpos : 0 < pgcnt)
    (hrange : vaddr + 4096 * pgcnt ≤ kernelBase) :
    (exists s' free' L', vmValloc vm vaddr pgcnt s = Except.ok (true, s') ∧
      Served s free L pgcnt (vaddr / 4096) s' free' L' ∧ Builds s free L s' free' L' ∧
      forall w, vaddr / 4096 ≤ w -> w < vaddr / 4096 + pgcnt -> L.page w = none) ∨
    ((exists w, vaddr / 4096 ≤ w ∧ w < vaddr / 4096 + pgcnt ∧ L.page w ≠ none) ∧
      exists s', vmValloc vm vaddr pgcnt s = Except.error (Stop.assertion, s')) ∨
    (free.length < vallocNeed pgcnt (vaddr / 4096) L.hasTable L.hasPage ∧
      EndsDry (vmValloc vm vaddr pgcnt s)) := by
  have hpgSize : pgSize = 4096 := rfl
  have hasserts : pgcnt ≠ 0 ∧ wrap (vaddr + pgcnt * pgSize) > vaddr ∧
      wrap (vaddr + pgcnt * pgSize) ≤ kernelBase := by
    rw [kernelBase_eq] at hrange ⊢
    rw [wrap_eq, hpgSize]
    omega
  unfold vmValloc
  rw [if_pos hasserts]
  unfold pgdirValloc
  rw [hvm]
  by_cases henough : vallocNeed pgcnt (vaddr / 4096) L.hasTable L.hasPage ≤ free.length
  · rcases vallocFrom_enough 0 h hrange henough with
      ⟨s1, free1, L1, hok, hserved, hnone⟩ | ⟨hmet, s1, hstop, -⟩
    · have hcovers := fun f hf => vallocFrom_covers 0 h hrange henough hok hserved (g := f) hf
      exact Or.inl ⟨s1, free1, L1, hok, hserved, hserved.grown.builds hcovers, hnone⟩
    · exact Or.inr (Or.inl ⟨hmet, s1, hstop⟩)
  · have hshort := Nat.lt_of_not_le henough
    exact Or.inr (Or.inr ⟨hshort, vallocFrom_short 0 h hrange hshort⟩)

theorem Served.page_iff {k v : Nat} {s' : Phys} {free' : List Nat} {L' : Layout}
    (h : Served s free L k v s' free' L') (w : Nat) :
    L'.page w ≠ none <-> L.page w ≠ none ∨ (v ≤ w ∧ w < v + k) := by
  constructor
  · intro hw
    cases hpage : L'.page w with
    | none => exact absurd hpage hw
    | some f =>
        rcases (h.page w f).mp hpage with hold | hplan
        · left
          rw [hold]
          exact Option.some_ne_none f
        · exact Or.inr (plan_range hplan)
  · intro hor
    rcases hor with hold | ⟨hlow, hhigh⟩
    · cases hpage : L.page w with
      | none => exact absurd hpage hold
      | some f =>
          have hkept : L'.page w = some f := (h.page w f).mpr (Or.inl hpage)
          rw [hkept]
          exact Option.some_ne_none f
    · exact h.present w hlow hhigh

structure Segment (s : Phys) (free : List Nat) (L : Layout) (ph : Proghdr) (s' : Phys)
    (free' : List Nat) (L' : Layout) : Prop where
  builds : Builds s free L s' free' L'
  planned : Planned [(ph.vaddr / 4096, ph.pages)] free L free' L'
  pages : forall v, L'.page v ≠ none <-> L.page v ≠ none ∨ ph.Covers v
  clear : forall v, ph.Covers v -> L.page v = none

theorem loadProghdrs_header {vm : AddressSpace} {ph : Proghdr} (file : List UInt8)
    (h : Sound s free L) (hvm : vm.pgdir = kernelAddr L.dir) (hword : ph.Word)
    (hmem : ph.memsz ≠ 0) (hverify : verifyProghdr ph = true) :
    (exists s' free' L', Segment s free L ph s' free' L' ∧
      forall rest, loadProghdrs vm file (some ph :: rest) s =
        if ph.loads file then loadProghdrs vm file rest s' else Except.ok (false, s')) ∨
    ((exists v, ph.Covers v ∧ L.page v ≠ none) ∧
      exists e, forall rest, loadProghdrs vm file (some ph :: rest) s = Except.error e) ∨
    (forall rest, StaysDry (loadProghdrs vm file (some ph :: rest) s)) := by
  rcases verify_bounds hword.left hword.right hverify with ⟨htop, hpages⟩
  rcases verify_parts hverify with ⟨hfilesz, halign, -, -⟩
  have htopEq : userHeapBase = 134512640 := rfl
  have hrange : ph.vaddr + 4096 * ph.pages ≤ kernelBase := by
    rw [kernelBase_eq]
    omega
  have hverified : Not (verifyProghdr ph = false) := by
    intro e
    rw [hverify] at e
    cases e
  have hstart : forall rest, loadProghdrs vm file (some ph :: rest) s =
      (vmValloc vm ph.vaddr ph.pages s >>= fun a =>
        if a.1 then do
          let b <- vmLoad vm ph.vaddr file ph.offset ph.filesz a.2
          if b.1 then loadProghdrs vm file rest b.2 else Except.ok (false, b.2)
        else
          Except.ok (false, a.2)) := by
    intro rest
    conv => lhs; unfold loadProghdrs
    rw [if_neg hmem, if_neg hverified]
  rcases vmValloc_cases h hvm (by omega) hrange with
    ⟨s1, free1, L1, hrun, hserved, hbuilds, hnone⟩ | ⟨⟨w, hlow, hhigh, hw⟩, s1, hrun⟩ | ⟨-, hdry⟩
  · left
    have hgrown := hserved.grown
    have hpresent : forall v, ph.vaddr / 4096 ≤ v -> 4096 * v < ph.vaddr + ph.filesz ->
        L1.page v ≠ none := by
      intro v hlow hhigh
      exact hserved.present v hlow (by omega)
    rcases vmLoadFrom_loads file (ph.filesz / pgSize + 1) 0 ph.offset hgrown.sound halign
      (by omega) (Or.inl rfl) hpresent with ⟨s2, hload⟩
    have hwrote := vmLoadFrom_wrote hgrown.sound halign (by omega) (Or.inl rfl) hload
    have hload' : vmLoad vm ph.vaddr file ph.offset ph.filesz s1 =
        Except.ok (ph.loads file, s2) := by
      have hvm1 : vm.pgdir = kernelAddr L1.dir := by
        rw [hgrown.dir]
        exact hvm
      unfold vmLoad
      rw [hvm1]
      exact hload
    refine ⟨s2, free1, L1, ⟨hbuilds.trans (hwrote.builds hgrown.sound), hserved.planned, ?_, ?_⟩,
      ?_⟩
    · exact hserved.page_iff
    · exact fun v hv => hnone v hv.left hv.right
    · intro rest
      rw [hstart rest, hrun, ok_bind]
      dsimp only
      rw [if_pos rfl, hload', ok_bind]
  · right
    left
    refine ⟨⟨w, ⟨hlow, hhigh⟩, hw⟩, (Stop.assertion, s1), ?_⟩
    intro rest
    rw [hstart rest, hrun, error_bind]
  · right
    right
    intro rest
    rw [hstart rest]
    refine Meets.bind hdry ?_
    intro r hboth
    rcases r with ⟨mapped, s1⟩
    rcases hboth with ⟨hmapped, h1⟩
    dsimp only at hmapped h1 ⊢
    rw [if_pos hmapped]
    have hload : StaysDry (Vm.vmLoad vm ph.vaddr file ph.offset ph.filesz s1) :=
      h1.vmLoadFrom _ _ _ _ _ _ _
    refine hload.bind ?_
    intro r h2
    rcases r with ⟨loaded, s2⟩
    dsimp only at h2 ⊢
    split
    · exact h2.loadProghdrs vm file rest
    · exact h2

def ProgramPage (v : Nat) : Prop := userBase / 4096 ≤ v ∧ v < userHeapBase / 4096

theorem Proghdr.Covers.program {ph : Proghdr} {v : Nat} (hword : ph.Word)
    (hverify : verifyProghdr ph = true) (hv : ph.Covers v) : ProgramPage v := by
  rcases verify_bounds hword.left hword.right hverify with ⟨htop, hpages⟩
  rcases verify_parts hverify with ⟨-, halign, -, -⟩
  have htopEq : userHeapBase = 134512640 := rfl
  have hbaseEq : userBase = 67403776 := rfl
  have hbase : ph.vaddr ≥ userBase := by
    unfold verifyProghdr at hverify
    split at hverify
    · cases hverify
    · split at hverify
      · cases hverify
      · exact (of_decide_eq_true hverify).left
  unfold Proghdr.Covers at hv
  unfold ProgramPage
  omega

/-- The space behind `load_proghdrs`, and that it has the pages of every space on the way. -/
structure Loaded (vm : AddressSpace) (file : List UInt8) (headers : List (Option Proghdr))
    (s : Phys) (free : List Nat) (L : Layout) (s' : Phys) (free' : List Nat) (L' : Layout) :
    Prop where
  builds : Builds s free L s' free' L'
  inside : forall v, L'.page v ≠ none -> L.page v ≠ none ∨ ProgramPage v
  kept : forall n s1 v f, loadProghdrs vm file (headers.take n) s = Except.ok (true, s1) ->
    (layoutOf s1 L.dir).page v = some f -> L'.page v = some f

/-- Nothing has been loaded but what was there before. -/
theorem Loaded.nothing {vm : AddressSpace} {file : List UInt8} {headers : List (Option Proghdr)}
    (h : Sound s free L)
    (hstop : forall n s1, loadProghdrs vm file (headers.take n) s = Except.ok (true, s1) ->
      s1 = s) : Loaded vm file headers s free L s free L where
  builds := Builds.refl h
  inside v hv := Or.inl hv
  kept n s1 v f hrun hv := by
    rw [hstop n s1 hrun, h.layout] at hv
    exact hv

def LoadEnd (vm : AddressSpace) (file : List UInt8) (headers : List (Option Proghdr))
    (Taken : Nat -> Prop) (s : Phys) (free : List Nat) (L : Layout) (a : Bool × Phys) : Prop :=
  HeadersApart file Taken headers ∧ (a.1 = true <-> Accepted file headers) ∧
    exists free' L', Loaded vm file headers s free L a.2 free' L' ∧
      (a.1 = true -> Planned (ranges headers) free L free' L')

theorem accepted_cons {file : List UInt8} {ph : Proghdr} {rest : List (Option Proghdr)} :
    Accepted file (some ph :: rest) <->
      (ph.memsz = 0 ∨ (verifyProghdr ph = true ∧ ph.loads file = true)) ∧ Accepted file rest := by
  constructor
  · intro h
    constructor
    · rcases h (some ph) List.mem_cons_self with ⟨qh, hq, hgood⟩
      cases hq
      exact hgood
    · exact fun header hheader => h header (List.mem_cons_of_mem _ hheader)
  · intro hboth header hheader
    rcases hboth with ⟨hph, hrest⟩
    rcases List.mem_cons.mp hheader with hsame | hmem
    · exact ⟨ph, hsame, hph⟩
    · exact hrest header hmem

theorem not_accepted_none {file : List UInt8} {rest : List (Option Proghdr)} :
    Not (Accepted file (none :: rest)) := by
  intro h
  rcases h none List.mem_cons_self with ⟨ph, hph, -⟩
  cases hph

/-- The rest of the headers behind one that is loaded. -/
theorem Segment.loadEnd {vm : AddressSpace} {file : List UInt8} {ph : Proghdr}
    {rest : List (Option Proghdr)} {Taken : Nat -> Prop} {s1 : Phys} {free1 : List Nat}
    {L1 : Layout} {a : Bool × Phys} (h : Sound s free L) (hword : ph.Word)
    (hmem : ph.memsz ≠ 0) (hverify : verifyProghdr ph = true) (hload : ph.loads file = true)
    (htaken : forall v, L.page v ≠ none <-> Taken v)
    (hsegment : Segment s free L ph s1 free1 L1)
    (hstep : forall rest, loadProghdrs vm file (some ph :: rest) s =
      if ph.loads file then loadProghdrs vm file rest s1 else Except.ok (false, s1))
    (hend : LoadEnd vm file rest (fun v => Taken v ∨ ph.Covers v) s1 free1 L1 a) :
    LoadEnd vm file (some ph :: rest) Taken s free L a := by
  rcases hend with ⟨hapart, haccepted, free', L', hloaded, hplanned⟩
  refine ⟨Or.inr ⟨hmem, fun _ => ⟨?_, fun _ => hapart⟩⟩, ?_, free', L', ?_, ?_⟩
  · intro v hv ht
    exact (htaken v).mpr ht (hsegment.clear v hv)
  · rw [accepted_cons, haccepted]
    constructor
    · exact fun hrest => ⟨Or.inr ⟨hverify, hload⟩, hrest⟩
    · exact fun hboth => hboth.right
  · constructor
    · exact hsegment.builds.trans hloaded.builds
    · intro v hv
      rcases hloaded.inside v hv with hold | hprogram
      · rcases (hsegment.pages v).mp hold with hthere | hcovers
        · exact Or.inl hthere
        · exact Or.inr (hcovers.program hword hverify)
      · exact Or.inr hprogram
    · intro n s2 v f hrun hv
      cases n with
      | zero =>
          cases hrun
          rw [h.layout] at hv
          exact hloaded.builds.keeps (Slot.page v) f (hsegment.builds.keeps (Slot.page v) f hv)
      | succ n =>
          rw [List.take_succ_cons, hstep, if_pos hload] at hrun
          rw [<- hsegment.builds.grows.dir] at hv
          exact hloaded.kept n s2 v f hrun hv
  · intro hyes
    rw [show ranges (some ph :: rest) = [(ph.vaddr / 4096, ph.pages)] ++ ranges rest from
      if_neg hmem]
    exact hsegment.planned.append (hplanned hyes)

section Ends

variable {vm : AddressSpace} {file : List UInt8} {ph : Proghdr} {rest : List (Option Proghdr)}
  {Taken : Nat -> Prop}

theorem LoadEnd.skip {a : Bool × Phys} (hmem : ph.memsz = 0)
    (hend : LoadEnd vm file rest Taken s free L a) :
    LoadEnd vm file (some ph :: rest) Taken s free L a := by
  rcases hend with ⟨hapart, haccepted, free', L', hloaded, hplanned⟩
  refine ⟨Or.inl ⟨hmem, hapart⟩, ?_, free', L', ⟨hloaded.builds, hloaded.inside, ?_⟩, ?_⟩
  · rw [accepted_cons, haccepted]
    exact ⟨fun hrest => ⟨Or.inl hmem, hrest⟩, fun hboth => hboth.right⟩
  · intro n s1 v f hrun hv
    cases n with
    | zero => exact hloaded.kept 0 s1 v f hrun hv
    | succ n =>
        rw [List.take_succ_cons, loadProghdrs_skip hmem] at hrun
        exact hloaded.kept n s1 v f hrun hv
  · rw [show ranges (some ph :: rest) = ranges rest from if_pos hmem]
    exact hplanned

theorem Loaded.refused {header : Option Proghdr} (h : Sound s free L)
    (hstop : forall rest, loadProghdrs vm file (header :: rest) s = Except.ok (false, s)) :
    Loaded vm file (header :: rest) s free L s free L := by
  apply Loaded.nothing h
  intro n s1 hrun
  cases n with
  | zero =>
      cases hrun
      rfl
  | succ n =>
      rw [List.take_succ_cons, hstop] at hrun
      cases hrun

/-- The pages of a header are there, but its bytes cannot be read. -/
theorem Segment.loadEnd_short {s1 : Phys} {free1 : List Nat} {L1 : Layout} (h : Sound s free L)
    (hword : ph.Word) (hmem : ph.memsz ≠ 0) (hverify : verifyProghdr ph = true)
    (hload : Not (ph.loads file = true)) (htaken : forall v, L.page v ≠ none <-> Taken v)
    (hsegment : Segment s free L ph s1 free1 L1)
    (hstep : forall rest, loadProghdrs vm file (some ph :: rest) s =
      if ph.loads file then loadProghdrs vm file rest s1 else Except.ok (false, s1)) :
    LoadEnd vm file (some ph :: rest) Taken s free L (false, s1) := by
  refine ⟨Or.inr ⟨hmem, fun _ => ⟨?_, fun hyes => absurd hyes hload⟩⟩, ?_, free1, L1,
    ⟨hsegment.builds, ?_, ?_⟩, fun hno => by cases hno⟩
  · exact fun v hv ht => (htaken v).mpr ht (hsegment.clear v hv)
  · constructor
    · intro hfalse
      cases hfalse
    · intro haccepted
      rcases (accepted_cons.mp haccepted).left with hzero | hgood
      · exact absurd hzero hmem
      · exact absurd hgood.right hload
  · intro v hv
    rcases (hsegment.pages v).mp hv with hold | hcovers
    · exact Or.inl hold
    · exact Or.inr (hcovers.program hword hverify)
  · intro n s2 v f hrun hv
    cases n with
    | zero =>
        cases hrun
        rw [h.layout] at hv
        exact hsegment.builds.keeps (Slot.page v) f hv
    | succ n =>
        rw [List.take_succ_cons, hstep, if_neg hload] at hrun
        cases hrun

theorem loadProghdrs_refused {ph : Proghdr} (hmem : ph.memsz ≠ 0)
    (hverify : Not (verifyProghdr ph = true)) (rest : List (Option Proghdr)) (s : Phys) :
    loadProghdrs vm file (some ph :: rest) s = Except.ok (false, s) := by
  unfold loadProghdrs
  rw [if_neg hmem, if_pos (Bool.eq_false_iff.mpr hverify)]

theorem LoadEnd.refused (h : Sound s free L) (hmem : ph.memsz ≠ 0)
    (hverify : Not (verifyProghdr ph = true)) :
    LoadEnd vm file (some ph :: rest) Taken s free L (false, s) := by
  refine ⟨Or.inr ⟨hmem, fun hyes => absurd hyes hverify⟩, ?_, free, L,
    Loaded.refused h (fun rest => loadProghdrs_refused hmem hverify rest s),
    fun hno => by cases hno⟩
  constructor
  · intro hfalse
    cases hfalse
  · intro haccepted
    rcases (accepted_cons.mp haccepted).left with hzero | hgood
    · exact absurd hzero hmem
    · exact absurd hgood.left hverify

end Ends

theorem loadProghdrs_meets {vm : AddressSpace} {file : List UInt8}
    {headers : List (Option Proghdr)} (Taken : Nat -> Prop) (h : Sound s free L)
    (hvm : vm.pgdir = kernelAddr L.dir) (hword : forall ph, some ph ∈ headers -> ph.Word)
    (htaken : forall v, L.page v ≠ none <-> Taken v) :
    Meets (fun a => Dry a.2 ∨ LoadEnd vm file headers Taken s free L a)
      (fun e => Dry e.2 ∨ Not (HeadersApart file Taken headers))
      (loadProghdrs vm file headers s) := by
  induction headers generalizing s free L Taken with
  | nil =>
      right
      refine ⟨trivial, ?_, free, L, Loaded.nothing h ?_, fun _ => Planned.nothing free L⟩
      · constructor
        · exact fun _ header hheader => absurd hheader List.not_mem_nil
        · exact fun _ => rfl
      · intro n s1 hrun
        rw [List.take_nil] at hrun
        cases hrun
        rfl
  | cons header rest ih =>
      have hwordRest : forall ph, some ph ∈ rest -> ph.Word :=
        fun ph hph => hword ph (List.mem_cons_of_mem header hph)
      cases header with
      | none =>
          right
          refine ⟨trivial, ?_, free, L, Loaded.refused h (fun _ => rfl), fun hno => by cases hno⟩
          constructor
          · intro hfalse
            cases hfalse
          · exact fun haccepted => absurd haccepted not_accepted_none
      | some ph =>
          have hphWord := hword ph List.mem_cons_self
          by_cases hmem : ph.memsz = 0
          · rw [loadProghdrs_skip hmem rest s]
            refine (ih _ h hvm hwordRest htaken).mono ?_ ?_
            · intro a hor
              rcases hor with hdry | hend
              · exact Or.inl hdry
              · exact Or.inr (hend.skip hmem)
            · intro e hor
              rcases hor with hdry | hmet
              · exact Or.inl hdry
              · right
                intro hor
                rcases hor with ⟨-, hapart⟩ | ⟨hne, -⟩
                · exact hmet hapart
                · exact hne hmem
          · by_cases hverify : verifyProghdr ph = true
            · rcases loadProghdrs_header file h hvm hphWord hmem hverify with
                ⟨s1, free1, L1, hsegment, hstep⟩ | ⟨⟨v, hcovers, hv⟩, e, hstop⟩ | hdry
              · have hsound1 := hsegment.builds.grows.sound
                have hvm1 : vm.pgdir = kernelAddr L1.dir := by
                  rw [hsegment.builds.grows.dir]
                  exact hvm
                have htaken1 : forall v, L1.page v ≠ none <-> (Taken v ∨ ph.Covers v) := by
                  intro v
                  rw [hsegment.pages, htaken]
                rw [hstep rest]
                by_cases hload : ph.loads file = true
                · rw [if_pos hload]
                  refine (ih _ hsound1 hvm1 hwordRest htaken1).mono ?_ ?_
                  · intro a hor
                    rcases hor with hdry | hend
                    · exact Or.inl hdry
                    · exact Or.inr (hsegment.loadEnd h hphWord hmem hverify hload htaken hstep hend)
                  · intro e hor
                    rcases hor with hdry | hmet
                    · exact Or.inl hdry
                    · right
                      intro hor
                      rcases hor with ⟨hzero, -⟩ | ⟨-, happly⟩
                      · exact hmem hzero
                      · exact hmet ((happly hverify).right hload)
                · rw [if_neg hload]
                  exact Or.inr (hsegment.loadEnd_short h hphWord hmem hverify hload htaken hstep)
              · rw [hstop rest]
                right
                intro hor
                rcases hor with ⟨hzero, -⟩ | ⟨-, happly⟩
                · exact hmem hzero
                · exact (happly hverify).left v hcovers ((htaken v).mp hv)
              · exact (hdry rest).mono (fun a ha => Or.inl ha) (fun e he => Or.inl he)
            · rw [loadProghdrs_refused hmem hverify rest s]
              exact Or.inr (LoadEnd.refused h hmem hverify)

/-!
# The stack
-/

def StackPage (v : Nat) : Prop := bottomUserStack / 4096 ≤ v ∧ v < kernelBase / 4096

theorem setrangeFrom_ok {base n : Nat} (val : UInt8) (k done : Nat) (h : Sound s free L)
    (htop : base + n ≤ kernelBase)
    (hpresent : forall v, base / 4096 ≤ v -> 4096 * v < base + n -> L.page v ≠ none) :
    exists s', setrangeFrom (kernelAddr L.dir) val n k done (base + done) s =
      Except.ok (true, s') := by
  have hpgSize : pgSize = 4096 := rfl
  induction k generalizing s done with
  | zero => exact ⟨s, rfl⟩
  | succ k ih =>
      unfold setrangeFrom
      by_cases hlt : done < n
      · rw [if_pos hlt]
        have hv : base + done < kernelBase := by lia
        cases hpage : L.page ((base + done) / 4096) with
        | none => exact absurd hpage (hpresent _ (by omega) (by omega))
        | some f =>
            rw [pageFramePtr_some h hv hpage, ok_bind, if_neg (kernelAddr_ne_zero f)]
            dsimp only
            generalize hper : (if pgSize - (base + done) % pgSize > n - done then n - done
              else pgSize - (base + done) % pgSize) = per
            have hperLe : done + per ≤ n := by
              split at hper <;> omega
            have hwrite : Wrote s (s.setFrame f ((s.frame f).fill ((base + done) % pgSize) val per))
                L (fun _ _ => True) := by
              apply wrote_page hpage
              exact fun x => Or.inr trivial
            have hnext : wrap (base + done + per) = base + (done + per) := by
              rw [kernelBase_eq] at htop
              rw [wrap_eq]
              omega
            rw [pageAt_kernelAddr (h.page_inPool hpage), ok_bind, hnext]
            exact ih _ (hwrite.sound h)
      · rw [if_neg hlt]
        exact ⟨s, rfl⟩

def stackNeed (L : Layout) : Nat :=
  vallocNeed npagesUserStack (bottomUserStack / 4096) L.hasTable L.hasPage

theorem setupUstack_meets (vm : AddressSpace) (h : Sound s free L)
    (hvm : vm.pgdir = kernelAddr L.dir) (hclear : forall v, StackPage v -> L.page v = none) :
    Meets (fun a => (free.length < stackNeed L ∧ Dry a.2) ∨
        (a.1 = true ∧ exists free' L', Builds s free L a.2 free' L' ∧
          (forall v, L'.page v ≠ none <-> L.page v ≠ none ∨ StackPage v) ∧
          Planned [(bottomUserStack / 4096, npagesUserStack)] free L free' L'))
      (fun e => free.length < stackNeed L ∧ Dry e.2) (setupUstack vm s) := by
  have hbottom : bottomUserStack = 2147467264 := rfl
  have hpgSize : pgSize = 4096 := rfl
  have hpages : npagesUserStack = 4 := rfl
  have hrange : bottomUserStack + 4096 * npagesUserStack ≤ kernelBase := by decide
  have hstack : forall v, StackPage v <->
      bottomUserStack / 4096 ≤ v ∧ v < bottomUserStack / 4096 + npagesUserStack := by
    intro v
    unfold StackPage
    rw [kernelBase_eq, hbottom, hpages]
  unfold setupUstack
  rcases vmValloc_cases h hvm (by decide) hrange with
    ⟨s1, free1, L1, hrun, hserved, hbuilds, -⟩ | ⟨⟨w, hlow, hhigh, hw⟩, -⟩ | ⟨hshort, hdry⟩
  · have hgrown := hserved.grown
    have hvm1 : vm.pgdir = kernelAddr L1.dir := by
      rw [hgrown.dir]
      exact hvm
    have htop : bottomUserStack + npagesUserStack * pgSize ≤ kernelBase := by decide
    have hpresent : forall v, bottomUserStack / 4096 ≤ v ->
        4096 * v < bottomUserStack + npagesUserStack * pgSize -> L1.page v ≠ none := by
      intro v hlow hhigh
      apply hserved.present v hlow
      rw [hpages, hpgSize] at hhigh
      omega
    rcases setrangeFrom_ok 0 (npagesUserStack + 1) 0 hgrown.sound htop
      hpresent with ⟨s2, hset⟩
    have hwrote := setrangeFrom_wrote hgrown.sound htop hset
    have hset' : setrangeFrom vm.pgdir 0 (npagesUserStack * pgSize) (npagesUserStack + 1) 0
        bottomUserStack s1 = Except.ok (true, s2) := by
      rw [hvm1]
      exact hset
    rw [hrun, ok_bind]
    dsimp only
    rw [if_pos rfl, hset']
    right
    refine ⟨rfl, free1, L1, hbuilds.trans (hwrote.builds hgrown.sound), ?_, hserved.planned⟩
    intro v
    rw [hserved.page_iff, hstack]
  · exact absurd (hclear w ((hstack w).mpr ⟨hlow, hhigh⟩)) hw
  · have hpast : forall s1, Dry s1 -> free.length < stackNeed L ∧ Dry s1 :=
      fun s1 h1 => ⟨hshort, h1⟩
    refine Meets.bind (hdry.mono (fun _ ha => ha) (fun e he => hpast e.2 he)) ?_
    intro r hboth
    rcases r with ⟨mapped, s1⟩
    rcases hboth with ⟨hmapped, h1⟩
    dsimp only at hmapped h1 ⊢
    rw [if_pos hmapped]
    exact (h1.setrangeFrom _ _ _ _ _ _).mono (fun a ha => Or.inl (hpast a.2 ha))
      (fun e he => hpast e.2 he)

/-!
# Arguments
-/

theorem below_eq (ptr : Nat) (arg : List UInt8) :
    below ptr arg = (ptr + (4294967296 - (arg.length + 1) % 4294967296)) % 4294967296 :=
  wrap_eq _

/-- The pages below the stack keep their contents. -/
def KeepsProgram (s : Phys) (L : Layout) (s' : Phys) : Prop :=
  forall v f, L.page v = some f -> v < bottomUserStack / 4096 -> s'.frame f = s.frame f

theorem KeepsProgram.trans {s1 s2 : Phys} (h : KeepsProgram s L s1)
    (h1 : KeepsProgram s1 L s2) : KeepsProgram s L s2 :=
  fun v f hv hlow => (h1 v f hv hlow).trans (h v f hv hlow)

theorem Wrote.keepsProgram {s' : Phys} {dst : Nat} (hs : Sound s free L)
    (h : Wrote s s' L (fun v _ => dst / 4096 ≤ v)) (hlow : bottomUserStack ≤ dst) :
    KeepsProgram s L s' := by
  intro v f hv hbelow
  funext x
  apply h.byte_kept hs hv
  omega

theorem vmCopyout_stack {vm : AddressSpace} (dst : Nat) (src : List UInt8) (h : Sound s free L)
    (hvm : vm.pgdir = kernelAddr L.dir) (hstack : forall v, StackPage v -> L.page v ≠ none)
    (hlow : bottomUserStack ≤ dst) (hhigh : dst + src.length ≤ kernelBase)
    (hfollow : StepsFollow L.page dst src.length) :
    exists s', vmCopyout vm dst src s = Except.ok (true, s') ∧ Builds s free L s' free L ∧
      KeepsProgram s L s' := by
  rcases vmCopyout_writes dst src h hvm hhigh hfollow with ⟨r, s', hrun, hwrote, hr⟩
  have hbottom : bottomUserStack = 2147467264 := rfl
  have hyes : r = true := by
    rw [hr]
    intro j hj
    apply hstack
    unfold StackPage
    rw [kernelBase_eq] at hhigh ⊢
    omega
  rw [hyes] at hrun
  exact ⟨s', hrun, hwrote.builds h, hwrote.keepsProgram h hlow⟩

/-- A string that begins below the stack reaches a page that is not there. -/
theorem vmCopyout_below {vm : AddressSpace} (dst : Nat) (src : List UInt8) (h : Sound s free L)
    (hvm : vm.pgdir = kernelAddr L.dir)
    (hgap : forall v, userHeapBase / 4096 ≤ v -> v < bottomUserStack / 4096 -> L.page v = none)
    (hlow : dst < bottomUserStack) (hreach : userHeapBase + 4096 ≤ dst + src.length)
    (hsrc : 0 < src.length) (hhigh : dst + src.length ≤ kernelBase)
    (hfollow : StepsFollow L.page dst src.length) :
    exists s', vmCopyout vm dst src s = Except.ok (false, s') ∧ Builds s free L s' free L := by
  rcases vmCopyout_writes dst src h hvm hhigh hfollow with ⟨r, s', hrun, hwrote, hr⟩
  have hbottom : bottomUserStack = 2147467264 := rfl
  have hbase : userHeapBase = 134512640 := rfl
  have hno : r = false := by
    cases r with
    | false => rfl
    | true =>
        have hall := hr.mp rfl
        have hheapPage : userHeapBase / 4096 = 32840 := rfl
        have hstackPage : bottomUserStack / 4096 = 524284 := rfl
        rw [hheapPage, hstackPage] at hgap
        by_cases hheap : 32840 ≤ dst / 4096
        · exact absurd (hgap (dst / 4096 + 0) (by omega) (by omega)) (hall 0 (by omega))
        · have hat : dst / 4096 + (32840 - dst / 4096) = 32840 := by omega
          have hpage := hall (32840 - dst / 4096) (by omega)
          rw [hat] at hpage
          exact absurd (hgap 32840 (by omega) (by omega)) hpage
  rw [hno] at hrun
  exact ⟨s', hrun, hwrote.builds h⟩

theorem argvPtr_sum {argc : Nat} (h : 4 * argc ≤ kernelBase) :
    argvPtr argc + 4 * argc = kernelBase := by
  unfold argvPtr
  rw [kernelBase_eq] at h ⊢
  rw [wrap_eq]
  omega

/-- The arguments are copied as far as they have room, and the pages stay. -/
theorem copyArgsFrom_ok {vm : AddressSpace} {ptr : Nat} {args : List (List UInt8)} (argc i : Nat)
    (h : Sound s free L) (hvm : vm.pgdir = kernelAddr L.dir)
    (hstack : forall v, StackPage v -> L.page v ≠ none)
    (hgap : forall v, userHeapBase / 4096 ≤ v -> v < bottomUserStack / 4096 -> L.page v = none)
    (hargc : 4 * argc ≤ 0x40000000) (hi : i + args.length ≤ argc) (hptr : ptr ≤ argvPtr argc)
    (hlow : 0x40000000 ≤ ptr) (hlen : forall arg, arg ∈ args -> arg.length < 0x40000000)
    (hfollow : ArgsFollow L.page ptr args) :
    exists r s', copyArgsFrom vm (argvPtr argc) i args ptr s = Except.ok (r, s') ∧
      Builds s free L s' free L ∧ (r = none <-> Not (ArgsRoom ptr args)) ∧
      (r ≠ none -> KeepsProgram s L s') := by
  have hbottom : bottomUserStack = 2147467264 := rfl
  have hbase : userHeapBase = 134512640 := rfl
  have hkernel := kernelBase_eq
  have hsum := argvPtr_sum (show 4 * argc ≤ kernelBase by omega)
  rw [hkernel] at hsum
  induction args generalizing s i ptr with
  | nil =>
      refine ⟨some ptr, s, rfl, Builds.refl h, ?_, fun _ _ _ _ _ => rfl⟩
      constructor
      · intro hnone
        cases hnone
      · exact fun hroom => absurd trivial hroom
  | cons arg rest ih =>
      rw [List.length_cons] at hi
      have hshort := hlen arg List.mem_cons_self
      have hlength : (arg ++ [0]).length = arg.length + 1 := List.length_append
      have hbelow := below_eq ptr arg
      have hend : below ptr arg + (arg.length + 1) = ptr := by omega
      rcases hfollow with ⟨hsteps, hrest⟩
      rw [<- hlength] at hsteps hend
      unfold copyArgsFrom
      dsimp only
      by_cases hdst : bottomUserStack ≤ below ptr arg
      · rcases vmCopyout_stack (below ptr arg) (arg ++ [0]) h hvm hstack hdst (by omega) hsteps with
          ⟨s1, hcopy, hbuilds1, hkeeps1⟩
        have hslot : wrap (argvPtr argc + 4 * i) = argvPtr argc + 4 * i := by
          rw [wrap_eq]
          omega
        have hfour : (pointerBytes (below ptr arg)).length = 4 := rfl
        rcases vmCopyout_stack (argvPtr argc + 4 * i) (pointerBytes (below ptr arg))
          hbuilds1.grows.sound hvm hstack (by omega) (by omega)
          (stepsFollow_inside (by omega)) with ⟨s2, hpointer, hbuilds2, hkeeps2⟩
        rcases ih (i + 1) hbuilds2.grows.sound (by omega) (by omega) (by omega)
          (fun a ha => hlen a (List.mem_cons_of_mem arg ha)) (hrest hdst) with
          ⟨r, s3, hrun, hbuilds3, hroom, hkeeps3⟩
        refine ⟨r, s3, ?_, (hbuilds1.trans hbuilds2).trans hbuilds3, ?_,
          fun hr => (hkeeps1.trans hkeeps2).trans (hkeeps3 hr)⟩
        · rw [hcopy, ok_bind]
          dsimp only
          rw [if_pos rfl, hslot, hpointer, ok_bind]
          exact hrun
        · rw [hroom]
          constructor
          · exact fun hno hall => hno hall.right
          · exact fun hno hall => hno ⟨hdst, hall⟩
      · rcases vmCopyout_below (below ptr arg) (arg ++ [0]) h hvm hgap (by omega) (by omega)
          (by omega) (by omega) hsteps with ⟨s1, hcopy, hbuilds1⟩
        refine ⟨none, s1, ?_, hbuilds1, ?_, fun hno => absurd rfl hno⟩
        · rw [hcopy, ok_bind]
          rfl
        · constructor
          · exact fun _ hroom => hdst hroom.left
          · exact fun _ => rfl

end Building

/-!
# Runs that found the list empty
-/

section DryRuns

variable {s : Phys}

theorem Dry.copyBytes (h : Dry s) (addr : Nat) (bytes : List UInt8) :
    Meets (fun s' => Dry s') (fun e => Dry e.2) (Vm.copyBytes addr bytes s) := by
  unfold Vm.copyBytes
  split
  · exact ⟨h.freeList, h.exhausted⟩
  · exact h

theorem Dry.vmCopyout (h : Dry s) (vm : AddressSpace) (dst : Nat) (src : List UInt8) :
    StaysDry (Vm.vmCopyout vm dst src s) := by
  unfold Vm.vmCopyout
  generalize src.length / pgSize + 1 = k
  induction k generalizing s dst src with
  | zero => exact h
  | succ k ih =>
      unfold vmCopyoutFrom
      split
      · refine (h.pageFramePtr _ dst).bind (fun page _ => ?_)
        split
        · exact h
        · exact (h.copyBytes _ _).bind (fun s1 h1 => ih h1 _ _)
      · exact h

theorem Dry.copyArgsFrom (h : Dry s) (vm : AddressSpace) (argv i ptr : Nat)
    (args : List (List UInt8)) :
    Meets (fun a => Dry a.2) (fun e => Dry e.2) (Vm.copyArgsFrom vm argv i args ptr s) := by
  induction args generalizing s i ptr with
  | nil => exact h
  | cons arg rest ih =>
      unfold Vm.copyArgsFrom
      refine (h.vmCopyout vm _ _).bind ?_
      intro r h1
      rcases r with ⟨copied, s1⟩
      dsimp only at h1 ⊢
      split
      · refine (h1.vmCopyout vm _ _).bind ?_
        intro r h2
        rcases r with ⟨copied, s2⟩
        dsimp only at h2 ⊢
        split
        · exact ih h2 _ _
        · exact h2
      · exact h1

end DryRuns

end Vm
end Kernel
end NicoOS
