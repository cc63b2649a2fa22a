import NicoOS.Kernel.Vm.Copy

/-!
# Copies of page directories

The loop of `pgdir_copy` over the tables of a sound address space, and the copy that
it returns.
-/

namespace NicoOS
namespace Kernel
namespace Vm

open Lib

namespace Layout

def inner (C : Layout) : Slot -> Option Nat
  | Slot.dir => none
  | Slot.table i => C.table i
  | Slot.page v => C.page v

/-- A layout that gets table `i` with the given pages. -/
def graft (C : Layout) (i t : Nat) (m : Nat -> Option Nat) : Layout where
  dir := C.dir
  table n := if n = i then some t else C.table n
  page v := if v / 1024 = i then m (v % 1024) else C.page v

section Graft

variable {C : Layout} {i t : Nat} {m : Nat -> Option Nat}

theorem graft_table_self : (C.graft i t m).table i = some t := if_pos rfl

theorem graft_table_of_ne {n : Nat} (h : n ≠ i) : (C.graft i t m).table n = C.table n := if_neg h

theorem graft_page_self {v : Nat} (h : v / 1024 = i) : (C.graft i t m).page v = m (v % 1024) :=
  if_pos h

theorem graft_page_of_ne {v : Nat} (h : v / 1024 ≠ i) : (C.graft i t m).page v = C.page v :=
  if_neg h

theorem graft_inner {x : Slot} {f : Nat} (h : (C.graft i t m).inner x = some f) :
    (x = Slot.table i ∧ f = t) ∨
    (exists v, x = Slot.page v ∧ v / 1024 = i ∧ m (v % 1024) = some f) ∨
      C.inner x = some f := by
  cases x with
  | dir => cases h
  | table n =>
      by_cases hn : n = i
      · have hsome : some t = some f := by
          rw [<- h]
          exact (if_pos hn).symm
        cases hsome
        rw [hn]
        exact Or.inl ⟨rfl, rfl⟩
      · have hold : (C.graft i t m).inner (Slot.table n) = C.table n := if_neg hn
        rw [hold] at h
        exact Or.inr (Or.inr h)
  | page v =>
      by_cases hv : v / 1024 = i
      · have hold : (C.graft i t m).inner (Slot.page v) = m (v % 1024) := if_pos hv
        rw [hold] at h
        exact Or.inr (Or.inl ⟨v, rfl, hv, h⟩)
      · have hold : (C.graft i t m).inner (Slot.page v) = C.page v := if_neg hv
        rw [hold] at h
        exact Or.inr (Or.inr h)

end Graft

end Layout

/-- The tables `i` to `i + k` are copied behind the directory in frame `c`. -/
structure CopiedDir (s : Phys) (free : List Nat) (L : Layout) (c i k : Nat) (s' : Phys)
    (free' : List Nat) (C : Layout) : Prop where
  sound : Sound s' free' L
  dir : C.dir = c
  taken : forall f, f ∈ free' -> f ∈ free
  dirEntry : forall n, i ≤ n -> n < i + k -> target (s'.entry c n) = C.table n
  keepDir : forall n, n < i ∨ i + k ≤ n -> s'.entry c n = s.entry c n
  tableRange : forall n t, C.table n = some t -> i ≤ n ∧ n < i + k
  pageTable : forall v f, C.page v = some f -> exists t, C.table (v / 1024) = some t
  tableEntry : forall n t, C.table n = some t -> forall j, j < 1024 ->
    target (s'.entry t j) = C.page (1024 * n + j)
  hasTable : forall n, i ≤ n -> n < i + k -> C.hasTable n = L.hasTable n
  hasPage : forall v, i ≤ v / 1024 -> v / 1024 < i + k -> C.hasPage v = L.hasPage v
  fresh : forall x f, C.inner x = some f -> f ∈ free ∧ Not (f ∈ free')
  inj : forall x y f, C.inner x = some f -> C.inner y = some f -> x = y
  contents : forall v f g, C.page v = some f -> L.page v = some g -> s'.frame f = s.frame g
  others : forall f, f ≠ c -> Not (f ∈ free) -> s'.frame f = s.frame f
  exhausted : s'.exhausted = s.exhausted

section Directory

variable {s : Phys} {free : List Nat} {L : Layout}

theorem CopiedDir.nothing (h : Sound s free L) (c i : Nat) :
    CopiedDir s free L c i 0 s free ⟨c, fun _ => none, fun _ => none⟩ where
  sound := h
  dir := rfl
  taken _ hf := hf
  dirEntry n hlow hhigh := by lia
  keepDir _ _ := rfl
  tableRange n t ht := by cases ht
  pageTable v f hv := by cases hv
  tableEntry n t ht := by cases ht
  hasTable n hlow hhigh := by lia
  hasPage v hlow hhigh := by lia
  fresh x f hx := by
    cases x with
    | dir => cases hx
    | table n => cases hx
    | page v => cases hx
  inj x y f hx := by
    cases x with
    | dir => cases hx
    | table n => cases hx
    | page v => cases hx
  contents v f g hv := by cases hv
  others _ _ _ := rfl
  exhausted := rfl

theorem CopiedDir.skip {c i k : Nat} {s' : Phys} {free' : List Nat} {C : Layout}
    (hsound : Sound s free L) (hentry : target (s.entry c i) = none) (hnone : L.table i = none)
    (h : CopiedDir s free L c (i + 1) k s' free' C) :
    CopiedDir s free L c i (k + 1) s' free' C := by
  have htable : C.table i = none := by
    cases ht : C.table i with
    | none => rfl
    | some t =>
        have hrange := h.tableRange i t ht
        lia
  constructor
  · exact h.sound
  · exact h.dir
  · exact h.taken
  · intro n hlow hhigh
    by_cases hn : n = i
    · rw [hn, h.keepDir i (by lia), htable]
      exact hentry
    · exact h.dirEntry n (by lia) (by lia)
  · exact fun n hn => h.keepDir n (by lia)
  · intro n t ht
    have hrange := h.tableRange n t ht
    lia
  · exact h.pageTable
  · exact h.tableEntry
  · intro n hlow hhigh
    by_cases hn : n = i
    · rw [hn, Layout.hasTable_of_none htable, Layout.hasTable_of_none hnone]
    · exact h.hasTable n (by lia) (by lia)
  · intro v hlow hhigh
    by_cases hv : v / 1024 = i
    · have hmine : C.page v = none := by
        cases hp : C.page v with
        | none => rfl
        | some f =>
            rcases h.pageTable v f hp with ⟨t, ht⟩
            rw [hv, htable] at ht
            cases ht
      have hparent : L.page v = none := by
        cases hp : L.page v with
        | none => rfl
        | some f =>
            rcases (hsound.page_table hp).right with ⟨t, ht⟩
            rw [hv, hnone] at ht
            cases ht
      rw [Layout.hasPage_of_none hmine, Layout.hasPage_of_none hparent]
    · exact h.hasPage v (by lia) (by lia)
  · exact h.fresh
  · exact h.inj
  · exact h.contents
  · exact h.others
  · exact h.exhausted

/-- The state behind the directory entry of a copied table. -/
def enterTable (s : Phys) (c i t : Nat) : Phys := (s.pop t).setEntry c i (link t)

theorem enterTable_frame {c i t f : Nat} (h : f ≠ c) : (enterTable s c i t).frame f = s.frame f :=
  setEntry_of_ne h

theorem sound_enterTable {c i t : Nat} {rest : List Nat} (h : Sound s (t :: rest) L)
    (hc : Fresh (t :: rest) L c) : Sound (enterTable s c i t) rest L := by
  apply h.outside _ (fun _ hx => List.mem_cons_of_mem t hx) hc.unused hc.inPool
  · exact fun f hf _ => enterTable_frame hf
  · refine h.pop.pool.congr rfl ?_
    intro f hf
    exact enterTable_frame (fun e => hc.notFree (e ▸ List.mem_cons_of_mem t hf))

theorem fresh_head {t : Nat} {rest : List Nat} (h : Sound s (t :: rest) L) : Fresh rest L t where
  inPool := h.pool.inPool t List.mem_cons_self
  notFree := (List.nodup_cons.mp h.pool.nodup).left
  unused := h.unused_of_free List.mem_cons_self

section Take

variable {c i k t : Nat} {rest free1 free2 : List Nat} {s1 s2 : Phys} {m : Nat -> Option Nat}
  {C : Layout}

theorem CopiedDir.graft_tableEntry
    (htab : Copied (enterTable s c i t) rest L i t 0 1024 s1 free1 m)
    (h : CopiedDir s1 free1 L c (i + 1) k s2 free2 C) (htc : t ≠ c) (htfree : Not (t ∈ free1))
    {n u j : Nat} (hu : (C.graft i t m).table n = some u) (hj : j < 1024) :
    target (s2.entry u j) = (C.graft i t m).page (1024 * n + j) := by
  by_cases hn : n = i
  · have hdiv : (1024 * n + j) / 1024 = i := by lia
    have hmod : (1024 * n + j) % 1024 = j := by lia
    rw [hn, Layout.graft_table_self] at hu
    cases hu
    rw [Layout.graft_page_self hdiv, hmod, entry_congr (h.others t htc htfree)]
    exact htab.entry j (by lia) (by lia)
  · rw [Layout.graft_table_of_ne hn] at hu
    rw [Layout.graft_page_of_ne (by lia)]
    exact h.tableEntry n u hu j hj

theorem CopiedDir.graft_hasPage
    (htab : Copied (enterTable s c i t) rest L i t 0 1024 s1 free1 m)
    (h : CopiedDir s1 free1 L c (i + 1) k s2 free2 C) {v : Nat} (hlow : i ≤ v / 1024)
    (hhigh : v / 1024 < i + (k + 1)) : (C.graft i t m).hasPage v = L.hasPage v := by
  by_cases hv : v / 1024 = i
  · have hpage : (C.graft i t m).hasPage v = (m (v % 1024)).isSome := by
      unfold Layout.hasPage
      rw [Layout.graft_page_self hv]
    rw [hpage, htab.present (v % 1024) (by lia) (by lia)]
    congr 1
    lia
  · have hpage : (C.graft i t m).hasPage v = C.hasPage v := by
      unfold Layout.hasPage
      rw [Layout.graft_page_of_ne hv]
    rw [hpage]
    exact h.hasPage v (by lia) (by lia)

/-- The frames of the copy were free, and none of them is left on the free list. -/
theorem CopiedDir.graft_fresh
    (htab : Copied (enterTable s c i t) rest L i t 0 1024 s1 free1 m)
    (h : CopiedDir s1 free1 L c (i + 1) k s2 free2 C) (htfree : Not (t ∈ free1)) {x : Slot}
    {f : Nat} (hx : (C.graft i t m).inner x = some f) : f ∈ t :: rest ∧ Not (f ∈ free2) := by
  rcases Layout.graft_inner hx with ⟨-, hft⟩ | ⟨v, -, -, hm⟩ | hold
  · rw [hft]
    exact ⟨List.mem_cons_self, fun hmem => htfree (h.taken t hmem)⟩
  · rcases htab.fresh _ f hm with ⟨hin, hout⟩
    exact ⟨List.mem_cons_of_mem t hin, fun hmem => hout (h.taken f hmem)⟩
  · rcases h.fresh x f hold with ⟨hin, hout⟩
    exact ⟨List.mem_cons_of_mem t (htab.taken f hin), hout⟩

/-- The table, its pages and the frames of the later tables are different frames. -/
theorem CopiedDir.graft_inj
    (htab : Copied (enterTable s c i t) rest L i t 0 1024 s1 free1 m)
    (h : CopiedDir s1 free1 L c (i + 1) k s2 free2 C) (htrest : Not (t ∈ rest))
    (htfree : Not (t ∈ free1)) {x y : Slot} {f : Nat} (hx : (C.graft i t m).inner x = some f)
    (hy : (C.graft i t m).inner y = some f) : x = y := by
  rcases Layout.graft_inner hx with ⟨hx, hft⟩ | ⟨v, hx, hv, hm⟩ | hold
  · rcases Layout.graft_inner hy with ⟨hy, -⟩ | ⟨w, -, -, hm⟩ | hold
    · rw [hx, hy]
    · exact absurd (hft ▸ (htab.fresh _ f hm).left) htrest
    · exact absurd (hft ▸ (h.fresh y f hold).left) htfree
  · rcases Layout.graft_inner hy with ⟨-, hft⟩ | ⟨w, hy, hw, hm'⟩ | hold
    · exact absurd (hft ▸ (htab.fresh _ f hm).left) htrest
    · have hsame := htab.inj _ _ f hm hm'
      have hvw : v = w := by lia
      rw [hx, hy, hvw]
    · exact absurd (h.fresh y f hold).left (htab.fresh _ f hm).right
  · rcases Layout.graft_inner hy with ⟨-, hft⟩ | ⟨w, -, -, hm⟩ | hold'
    · exact absurd (hft ▸ (h.fresh x f hold).left) htfree
    · exact absurd (h.fresh x f hold).left (htab.fresh _ f hm).right
    · exact h.inj x y f hold hold'

theorem CopiedDir.graft_others
    (htab : Copied (enterTable s c i t) rest L i t 0 1024 s1 free1 m)
    (h : CopiedDir s1 free1 L c (i + 1) k s2 free2 C) {f : Nat} (hf : f ≠ c)
    (hfree : Not (f ∈ t :: rest)) : s2.frame f = s.frame f := by
  have hft : f ≠ t := fun e => hfree (e ▸ List.mem_cons_self)
  have hfrest : Not (f ∈ rest) := fun hmem => hfree (List.mem_cons_of_mem t hmem)
  rw [h.others f hf (fun hmem => hfrest (htab.taken f hmem)), htab.others f hft hfrest]
  exact enterTable_frame hf

theorem CopiedDir.graft_contents (hsound : Sound s (t :: rest) L) (hc : Fresh (t :: rest) L c)
    (htab : Copied (enterTable s c i t) rest L i t 0 1024 s1 free1 m)
    (h : CopiedDir s1 free1 L c (i + 1) k s2 free2 C) {v f g : Nat}
    (hv : (C.graft i t m).page v = some f) (hg : L.page v = some g) :
    s2.frame f = s.frame g := by
  have hgc : g ≠ c := fun e => hc.unused (Slot.page v) (e ▸ hg)
  by_cases hi : v / 1024 = i
  · rw [Layout.graft_page_self hi] at hv
    have hf := htab.fresh _ f hv
    have hfc : f ≠ c := fun e => hc.tail.notFree (e ▸ hf.left)
    have hg' : L.page (1024 * i + v % 1024) = some g := by
      rw [<- hg]
      congr 1
      lia
    rw [h.others f hfc hf.right, htab.contents _ f g hv hg']
    exact enterTable_frame hgc
  · rw [Layout.graft_page_of_ne hi] at hv
    have hgt : g ≠ t := fun e => hsound.used (Slot.page v) g hg (e ▸ List.mem_cons_self)
    have hgrest : Not (g ∈ rest) :=
      fun hmem => hsound.used (Slot.page v) g hg (List.mem_cons_of_mem t hmem)
    rw [h.contents v f g hv hg, htab.others g hgt hgrest]
    exact enterTable_frame hgc

/-- A directory whose table `i` is copied behind the first free frame. -/
theorem CopiedDir.take (hsound : Sound s (t :: rest) L) (hc : Fresh (t :: rest) L c)
    (hi : L.hasTable i = true) (htab : Copied (enterTable s c i t) rest L i t 0 1024 s1 free1 m)
    (h : CopiedDir s1 free1 L c (i + 1) k s2 free2 C) :
    CopiedDir s (t :: rest) L c i (k + 1) s2 free2 (C.graft i t m) := by
  have ht := hsound.pool.inPool t List.mem_cons_self
  have htrest := (List.nodup_cons.mp hsound.pool.nodup).left
  have hct : c ≠ t := fun e => hc.notFree (e ▸ List.mem_cons_self)
  have htfree : Not (t ∈ free1) := fun hmem => htrest (htab.taken t hmem)
  have hdirs : forall n, s1.entry c n = (enterTable s c i t).entry c n :=
    fun n => entry_congr (htab.others c hct hc.tail.notFree) n
  constructor
  · exact h.sound
  · exact h.dir
  · exact fun f hf => List.mem_cons_of_mem t (htab.taken f (h.taken f hf))
  · intro n hlow hhigh
    by_cases hn : n = i
    · rw [hn, h.keepDir i (by lia), hdirs, Layout.graft_table_self]
      unfold enterTable
      rw [entry_setEntry_self (link_lt ht), target_link ht]
    · rw [Layout.graft_table_of_ne hn]
      exact h.dirEntry n (by lia) (by lia)
  · intro n hn
    rw [h.keepDir n (by lia), hdirs]
    unfold enterTable
    rw [entry_setEntry_of_ne (by lia)]
    rfl
  · intro n u hu
    by_cases hn : n = i
    · lia
    · rw [Layout.graft_table_of_ne hn] at hu
      have hrange := h.tableRange n u hu
      lia
  · intro v f hv
    by_cases hi : v / 1024 = i
    · exact ⟨t, by rw [hi, Layout.graft_table_self]⟩
    · rw [Layout.graft_page_of_ne hi] at hv
      rw [Layout.graft_table_of_ne hi]
      exact h.pageTable v f hv
  · exact fun n u hu j hj => graft_tableEntry htab h hct.symm htfree hu hj
  · intro n hlow hhigh
    by_cases hn : n = i
    · rw [hn, hi]
      exact Layout.hasTable_of_some Layout.graft_table_self
    · have hsame : (C.graft i t m).hasTable n = C.hasTable n := by
        unfold Layout.hasTable
        rw [Layout.graft_table_of_ne hn]
      rw [hsame]
      exact h.hasTable n (by lia) (by lia)
  · exact fun v hlow hhigh => graft_hasPage htab h hlow hhigh
  · exact fun x f hx => graft_fresh htab h htfree hx
  · exact fun x y f hx hy => graft_inj htab h htrest htfree hx hy
  · exact fun v f g hv hg => graft_contents hsound hc htab h hv hg
  · exact fun f hf hfree => graft_others htab h hf hfree
  · exact h.exhausted.trans htab.exhausted

end Take

/-!
# The loop of `pgdir_copy`
-/

theorem tablesNeed_none {k i : Nat} (h : L.table i = none) :
    tablesNeed L.hasTable L.hasPage (k + 1) i = tablesNeed L.hasTable L.hasPage k (i + 1) := by
  show (if L.hasTable i = true then _ else _) + _ = _
  rw [if_neg (Bool.eq_false_iff.mp (Layout.hasTable_of_none h)), Nat.zero_add]

theorem tablesNeed_some {k i t : Nat} (h : L.table i = some t) :
    tablesNeed L.hasTable L.hasPage (k + 1) i = 1 + pagesNeed L.hasPage 1024 (1024 * i) +
      tablesNeed L.hasTable L.hasPage k (i + 1) := by
  show (if L.hasTable i = true then _ else _) + _ = _
  rw [if_pos (Layout.hasTable_of_some h)]

theorem pgdirCopyFrom_skip {cp c k i : Nat} (h : Sound s free L) (hi : i < 512)
    (hnone : L.table i = none) :
    pgdirCopyFrom L.dir cp c (k + 1) i s = pgdirCopyFrom L.dir cp c k (i + 1) s := by
  conv => lhs; unfold pgdirCopyFrom
  dsimp only
  rw [if_neg (not_present h hi hnone)]

theorem pgdirCopyFrom_enter {cp c k i src t : Nat} {rest : List Nat} (h : Sound s (t :: rest) L)
    (hsrc : L.table i = some src) :
    pgdirCopyFrom L.dir cp c (k + 1) i s =
      (pgtabCopyFrom src t 1024 0 (enterTable s c i t) >>= fun a =>
        if a.1 = true then pgdirCopyFrom L.dir cp c k (i + 1) a.2 else copyBad cp a.2) := by
  have htarget : target (s.entry L.dir i) = some src := by
    rw [h.target_dir (h.table_lt hsrc), hsrc]
  rcases target_some htarget with ⟨hpresent, hpaddr⟩
  have ht := h.pool.inPool t List.mem_cons_self
  conv => lhs; unfold pgdirCopyFrom
  dsimp only
  rw [if_pos hpresent, h.pool.palloc_cons.left, ok_bind]
  dsimp only
  rw [if_neg (paddr_ne_zero h), hpaddr, pageAt_paddr (h.table_inPool hsrc), ok_bind,
    pageAt_paddr ht, ok_bind]
  rfl

/-- The directory is copied where the frames suffice. -/
theorem pgdirCopyFrom_enough (cp : Nat) {c k i : Nat} (h : Sound s free L) (hc : Fresh free L c)
    (hempty : forall n, i ≤ n -> n < i + k -> target (s.entry c n) = none) (hk : i + k = 512)
    (henough : tablesNeed L.hasTable L.hasPage k i ≤ free.length) :
    exists s' free' C, pgdirCopyFrom L.dir cp c k i s = Except.ok (cp, s') ∧
      CopiedDir s free L c i k s' free' C := by
  induction k generalizing s free i with
  | zero => exact ⟨s, free, _, rfl, CopiedDir.nothing h c i⟩
  | succ k ih =>
      have hi : i < 512 := by lia
      cases hsrc : L.table i with
      | none =>
          rw [tablesNeed_none hsrc] at henough
          have hrest : forall n, i + 1 ≤ n -> n < i + 1 + k -> target (s.entry c n) = none :=
            fun n hlow hhigh => hempty n (by lia) (by lia)
          rcases ih h hc hrest (by lia) henough with ⟨s', free', C, hrun, hcopied⟩
          exact ⟨s', free', C, (pgdirCopyFrom_skip h hi hsrc).trans hrun,
            hcopied.skip h (hempty i (by lia) (by lia)) hsrc⟩
      | some src =>
          rw [tablesNeed_some hsrc] at henough
          cases free with
          | nil =>
              have hlen : ([] : List Nat).length = 0 := rfl
              lia
          | cons t rest =>
              rw [List.length_cons] at henough
              have ht := fresh_head h
              have hct : c ≠ t := fun e => hc.notFree (e ▸ List.mem_cons_self)
              have hone : pagesNeed L.hasPage 1024 (1024 * i + 0) ≤ rest.length := by
                rw [Nat.add_zero]
                lia
              rcases pgtabCopyFrom_enough (sound_enterTable (i := i) h hc) hsrc ht rfl hone with
                ⟨s1, free1, m, hrun, htab, hlen⟩
              rw [Nat.add_zero] at hlen
              have hc1 : Fresh free1 L c :=
                ⟨hc.inPool, fun hmem => hc.tail.notFree (htab.taken c hmem), hc.unused⟩
              have hrest : forall n, i + 1 ≤ n -> n < i + 1 + k ->
                  target (s1.entry c n) = none := by
                intro n hlow hhigh
                rw [entry_congr (htab.others c hct hc.tail.notFree)]
                unfold enterTable
                rw [entry_setEntry_of_ne (by lia)]
                exact hempty n (by lia) (by lia)
              rcases ih htab.sound hc1 hrest (by lia) (by lia) with
                ⟨s2, free2, C, hrun2, hcopied⟩
              have hboth : pgdirCopyFrom L.dir cp c (k + 1) i s = Except.ok (cp, s2) := by
                rw [pgdirCopyFrom_enter h hsrc, hrun, ok_bind, if_pos rfl, hrun2]
              exact ⟨s2, free2, C.graft i t m, hboth,
                hcopied.take h hc (Layout.hasTable_of_some hsrc) htab⟩

/-- A copy that runs out of frames ends in a page fault of the kernel. -/
theorem pgdirCopyFrom_short (cp : Nat) {c k i : Nat} (h : Sound s free L) (hc : Fresh free L c)
    (hk : i + k = 512) (hshort : free.length < tablesNeed L.hasTable L.hasPage k i) :
    exists s', pgdirCopyFrom L.dir cp c k i s = Except.error (Stop.fault, s') ∧
      s'.exhausted = true := by
  have hanswer : kernelBase ≠ 0 := by decide
  induction k generalizing s free i with
  | zero => cases hshort
  | succ k ih =>
      have hi : i < 512 := by lia
      cases hsrc : L.table i with
      | none =>
          rw [tablesNeed_none hsrc] at hshort
          rw [pgdirCopyFrom_skip h hi hsrc]
          exact ih h hc (by lia) hshort
      | some src =>
          rw [tablesNeed_some hsrc] at hshort
          cases free with
          | nil =>
              have htarget : target (s.entry L.dir i) = some src := by
                rw [h.target_dir hi, hsrc]
              rcases target_some htarget with ⟨hpresent, hpaddr⟩
              let s1 : Phys := { s with exhausted := true }
              refine ⟨s1.setEntry c i (kernelBase ||| pgUser ||| pgPresent), ?_, rfl⟩
              unfold pgdirCopyFrom
              dsimp only
              rw [if_pos hpresent, h.pool.palloc_nil, ok_bind]
              dsimp only
              rw [if_neg hanswer, hpaddr, pageAt_paddr (h.table_inPool hsrc), ok_bind,
                pageAt_kernelBase, error_bind]
          | cons t rest =>
              rw [List.length_cons] at hshort
              have ht := fresh_head h
              have hsound := sound_enterTable (i := i) h hc
              by_cases hone : pagesNeed L.hasPage 1024 (1024 * i + 0) ≤ rest.length
              · rcases pgtabCopyFrom_enough hsound hsrc ht rfl hone with
                  ⟨s1, free1, m, hrun, htab, hlen⟩
                rw [Nat.add_zero] at hlen
                have hc1 : Fresh free1 L c :=
                  ⟨hc.inPool, fun hmem => hc.tail.notFree (htab.taken c hmem), hc.unused⟩
                have hnext : i + 1 + k = 512 := by lia
                rcases ih htab.sound hc1 hnext (by lia) with ⟨s2, hrun2, hex⟩
                refine ⟨s2, ?_, hex⟩
                rw [pgdirCopyFrom_enter h hsrc, hrun, ok_bind, if_pos rfl, hrun2]
              · rcases pgtabCopyFrom_short hsound hsrc ht rfl (Nat.lt_of_not_le hone) with
                  ⟨s1, hrun, hex⟩
                refine ⟨s1, ?_, hex⟩
                rw [pgdirCopyFrom_enter h hsrc, hrun, error_bind]

/-!
# `pgdir_copy`
-/

/-- The state behind `pgdir_new` on the first free frame. -/
def newDir (s : Phys) (c : Nat) : Phys := copyKernelEntries c ((s.pop c).clear c)

theorem newDir_frame {c f : Nat} (h : f ≠ c) : (newDir s c).frame f = s.frame f := by
  unfold newDir copyKernelEntries
  rw [setFrame_of_ne _ h, clear_of_ne h]
  rfl

theorem newDir_user {c n : Nat} (h : n < 512) : (newDir s c).entry c n = 0 := by
  have hword : ((newDir s c).frame c).word (4 * n) =
      (((s.pop c).clear c).frame c).word (4 * n) := by
    unfold newDir copyKernelEntries
    rw [setFrame_self]
    apply Memory.word_congr
    intro x hlow hhigh
    exact if_neg (by lia)
  exact hword.trans (entry_clear c n)

theorem newDir_kernel {c n : Nat} (hc : InPool c) (hlow : 512 ≤ n) (hhigh : n < 768) :
    (newDir s c).entry c n = s.entry kpgdirFrame n := by
  have hsource : ((s.pop c).clear c).frame kpgdirFrame = s.frame kpgdirFrame :=
    clear_of_ne (Sound.ne_kpgdir hc)
  unfold newDir copyKernelEntries Phys.entry
  rw [setFrame_self]
  apply Memory.word_congr
  intro x hxlow hxhigh
  rw [if_pos (by lia), hsource]

theorem sound_newDir {c : Nat} {rest : List Nat} (h : Sound s (c :: rest) L) :
    Sound (newDir s c) rest L := by
  have hc := fresh_head h
  apply h.outside _ (fun _ hx => List.mem_cons_of_mem c hx) (h.unused_of_free List.mem_cons_self)
    hc.inPool
  · exact fun f hf _ => newDir_frame hf
  · refine h.pop.pool.congr rfl ?_
    intro f hf
    exact newDir_frame (fun e => hc.notFree (e ▸ hf))

theorem pgdirNew_cons {c : Nat} {rest : List Nat} (h : Pool s (c :: rest)) :
    pgdirNew s = Except.ok (kernelAddr c, newDir s c) := by
  have hc := h.inPool c List.mem_cons_self
  unfold pgdirNew
  rw [h.palloc_cons.left, ok_bind]
  dsimp only
  rw [pageAt_paddr hc, ok_bind, kp2v_paddr hc, if_pos (kernelAddr_ne_zero c)]
  rfl

theorem pgdirNew_nil (h : Pool s []) :
    pgdirNew s = Except.error (Stop.fault, { s with exhausted := true }) := by
  unfold pgdirNew
  rw [h.palloc_nil, ok_bind]
  dsimp only
  rw [pageAt_kernelBase, error_bind]

/-- The layouts share no frame. -/
def Layout.Apart (L C : Layout) : Prop := forall x y f, L.frame x = some f -> C.frame y ≠ some f

/-- `C` is a copy of `L` in frames that were free. -/
structure CopyOf (s : Phys) (free : List Nat) (L : Layout) (s' : Phys) (free' : List Nat)
    (C : Layout) : Prop where
  parent : Sound s' free' L
  child : Sound s' free' C
  apart : L.Apart C
  present : forall v, C.hasPage v = L.hasPage v
  contents : forall v f g, C.page v = some f -> L.page v = some g -> s'.frame f = s.frame g
  fresh : forall x f, C.frame x = some f -> f ∈ free
  taken : forall f, f ∈ free' -> f ∈ free
  others : forall f, Not (f ∈ free) -> s'.frame f = s.frame f
  exhausted : s'.exhausted = s.exhausted

section CopyOf

variable {c : Nat} {rest free' : List Nat} {s' : Phys} {C : Layout}

/-- A frame of the copy is its directory or comes from the loop. -/
theorem CopiedDir.frame_cases (h : CopiedDir (newDir s c) rest L c 0 512 s' free' C) {x : Slot}
    {f : Nat} (hx : C.frame x = some f) :
    (x = Slot.dir ∧ f = c) ∨ (C.inner x = some f ∧ f ∈ rest ∧ Not (f ∈ free')) := by
  cases x with
  | dir =>
      have hf : some C.dir = some f := hx
      cases hf
      exact Or.inl ⟨rfl, h.dir⟩
  | table n => exact Or.inr ⟨hx, h.fresh (Slot.table n) f hx⟩
  | page v => exact Or.inr ⟨hx, h.fresh (Slot.page v) f hx⟩

theorem CopiedDir.frame_fresh (h : CopiedDir (newDir s c) rest L c 0 512 s' free' C)
    (hc : Not (c ∈ rest)) {x : Slot} {f : Nat} (hx : C.frame x = some f) :
    f ∈ c :: rest ∧ Not (f ∈ free') := by
  rcases h.frame_cases hx with ⟨-, hf⟩ | ⟨-, hin, hout⟩
  · rw [hf]
    exact ⟨List.mem_cons_self, fun hmem => hc (h.taken c hmem)⟩
  · exact ⟨List.mem_cons_of_mem c hin, hout⟩

theorem CopiedDir.frame_inj (h : CopiedDir (newDir s c) rest L c 0 512 s' free' C)
    (hc : Not (c ∈ rest)) {x y : Slot} {f : Nat} (hx : C.frame x = some f)
    (hy : C.frame y = some f) : x = y := by
  rcases h.frame_cases hx with ⟨hx, hf⟩ | ⟨hx, hf, -⟩
  · rcases h.frame_cases hy with ⟨hy, -⟩ | ⟨-, hf', -⟩
    · rw [hx, hy]
    · exact absurd (hf ▸ hf') hc
  · rcases h.frame_cases hy with ⟨-, hf'⟩ | ⟨hy, -⟩
    · exact absurd (hf' ▸ hf) hc
    · exact h.inj x y f hx hy

theorem CopiedDir.table_none (h : CopiedDir (newDir s c) rest L c 0 512 s' free' C) {n : Nat}
    (hn : 512 ≤ n) : C.table n = none := by
  cases ht : C.table n with
  | none => rfl
  | some t =>
      have hrange := h.tableRange n t ht
      lia

theorem CopiedDir.page_none (h : CopiedDir (newDir s c) rest L c 0 512 s' free' C) {v : Nat}
    (hnone : C.table (v / 1024) = none) : C.page v = none := by
  cases hp : C.page v with
  | none => rfl
  | some f =>
      rcases h.pageTable v f hp with ⟨t, ht⟩
      rw [hnone] at ht
      cases ht

/-- The tables of the copy are what its directory says. -/
theorem CopiedDir.layout (h : CopiedDir (newDir s c) rest L c 0 512 s' free' C) :
    layoutOf s' C.dir = C := by
  apply layoutOf_eq
  · intro n hn
    rw [h.dir]
    exact h.dirEntry n (by lia) (by lia)
  · exact fun n t _ ht j hj => h.tableEntry n t ht j hj
  · intro n _ hnone j hj
    apply h.page_none
    rw [<- hnone]
    congr 1
    lia
  · exact fun n hn => h.table_none hn
  · exact fun v hv => h.page_none (h.table_none hv)

/-- What `pgdir_copy` has built is a sound address space. -/
theorem CopiedDir.child (h : Sound s (c :: rest) L)
    (hcopied : CopiedDir (newDir s c) rest L c 0 512 s' free' C) : Sound s' free' C := by
  have hc := fresh_head h
  constructor
  · exact hcopied.sound.pool
  · exact hcopied.layout
  · intro n hlow hhigh
    have hkern : Not (kpgdirFrame ∈ rest) := by
      intro hmem
      have hin := h.pool.inPool kpgdirFrame (List.mem_cons_of_mem c hmem)
      exact Sound.ne_kpgdir hin rfl
    rw [hcopied.dir, hcopied.keepDir n (by lia), newDir_kernel hc.inPool hlow hhigh,
      entry_congr (hcopied.others kpgdirFrame (Sound.ne_kpgdir hc.inPool) hkern),
      entry_congr (newDir_frame (Sound.ne_kpgdir hc.inPool))]
  · exact fun x f hx => h.pool.inPool f (hcopied.frame_fresh hc.notFree hx).left
  · exact fun x f hx => (hcopied.frame_fresh hc.notFree hx).right
  · exact fun x y f hx hy => hcopied.frame_inj hc.notFree hx hy

theorem CopiedDir.copyOf (h : Sound s (c :: rest) L)
    (hcopied : CopiedDir (newDir s c) rest L c 0 512 s' free' C) :
    CopyOf s (c :: rest) L s' free' C := by
  have hc := fresh_head h
  constructor
  · exact hcopied.sound
  · exact hcopied.child h
  · exact fun x y f hx hy => h.used x f hx (hcopied.frame_fresh hc.notFree hy).left
  · intro v
    by_cases hv : v / 1024 < 512
    · exact hcopied.hasPage v (by lia) (by lia)
    · rw [Layout.hasPage_of_none (hcopied.page_none (hcopied.table_none (by lia))),
        Layout.hasPage_of_none (h.page_none (by lia))]
  · intro v f g hf hg
    rw [hcopied.contents v f g hf hg]
    exact newDir_frame (fun e => h.used (Slot.page v) g hg (e ▸ List.mem_cons_self))
  · exact fun x f hx => (hcopied.frame_fresh hc.notFree hx).left
  · exact fun f hf => List.mem_cons_of_mem c (hcopied.taken f hf)
  · intro f hf
    have hfc : f ≠ c := fun e => hf (e ▸ List.mem_cons_self)
    rw [hcopied.others f hfc (fun hmem => hf (List.mem_cons_of_mem c hmem))]
    exact newDir_frame hfc
  · exact hcopied.exhausted

end CopyOf

theorem pgdirCopy_enough (h : Sound s free L)
    (henough : copyNeed L.hasTable L.hasPage ≤ free.length) :
    exists c s' free' C, pgdirCopy (kernelAddr L.dir) s = Except.ok (kernelAddr c, s') ∧
      C.dir = c ∧ CopyOf s free L s' free' C := by
  unfold copyNeed at henough
  cases free with
  | nil =>
      have hlen : ([] : List Nat).length = 0 := rfl
      lia
  | cons c rest =>
      rw [List.length_cons] at henough
      have hc := fresh_head h
      have hempty : forall n, 0 ≤ n -> n < 0 + 512 -> target ((newDir s c).entry c n) = none := by
        intro n _ hn
        rw [newDir_user (by lia)]
        rfl
      have hneed : tablesNeed L.hasTable L.hasPage 512 0 ≤ rest.length := by lia
      rcases pgdirCopyFrom_enough (kernelAddr c) (sound_newDir h) hc hempty rfl hneed with
        ⟨s', free', C, hrun, hcopied⟩
      refine ⟨c, s', free', C, ?_, hcopied.dir, hcopied.copyOf h⟩
      unfold pgdirCopy
      rw [pgdirNew_cons h.pool, ok_bind]
      dsimp only
      rw [if_neg (kernelAddr_ne_zero c), pageAt_kernelAddr h.dir_inPool, ok_bind,
        pageAt_kernelAddr hc.inPool, ok_bind, hrun]

/-- A copy that runs out of frames ends in a page fault of the kernel. -/
theorem pgdirCopy_short (h : Sound s free L)
    (hshort : free.length < copyNeed L.hasTable L.hasPage) :
    exists s', pgdirCopy (kernelAddr L.dir) s = Except.error (Stop.fault, s') ∧
      s'.exhausted = true := by
  unfold copyNeed at hshort
  cases free with
  | nil =>
      refine ⟨{ s with exhausted := true }, ?_, rfl⟩
      unfold pgdirCopy
      rw [pgdirNew_nil h.pool, error_bind]
  | cons c rest =>
      rw [List.length_cons] at hshort
      have hc := fresh_head h
      have hneed : rest.length < tablesNeed L.hasTable L.hasPage 512 0 := by lia
      rcases pgdirCopyFrom_short (kernelAddr c) (sound_newDir h) hc rfl hneed with
        ⟨s', hrun, hex⟩
      refine ⟨s', ?_, hex⟩
      unfold pgdirCopy
      rw [pgdirNew_cons h.pool, ok_bind]
      dsimp only
      rw [if_neg (kernelAddr_ne_zero c), pageAt_kernelAddr h.dir_inPool, ok_bind,
        pageAt_kernelAddr hc.inPool, ok_bind, hrun]

end Directory

end Vm
end Kernel
end NicoOS
