import NicoOS.User.Malloc.Take

/-!
# The loop of malloc

The loop goes once around the ring.  Where no block is large enough it gets a new one and goes
around again, which then ends at a block.
-/

namespace NicoOS
namespace User
namespace Malloc

open Lib
open Kernel.Vm (pgSize userHeapBase userHeapTop)

/-- The first header of some blocks before `base`. -/
def headOf (base : Nat) (ys : List Extent) : Nat := (ys.map Extent.addr).headD base

/-- The call of `morecore` in the loop, and what follows. -/
def refill (nunits fuel : Nat) (s : Process) : Run (Nat × Process) := do
  let (p, s) <- morecore nunits s
  if p = 0 then
    Except.ok (0, s)
  else
    let next <- s.load p
    mallocFrom nunits fuel p next s

def Small (s : Process) (nunits : Nat) (z : Extent) : Prop := s.mem.word (z.addr + 4) < nunits

section Loop

variable {base nunits fuel : Nat} {s : Process} {fs us xs ys : List Extent}
  {G : Nat × Process -> Prop} {B : Stop -> Prop}

/-- What the rest of a loop does with the first block that is large enough. -/
def Taken (base nunits : Nat) (s : Process) (fs : List Extent) (G : Nat × Process -> Prop)
    (B : Stop -> Prop) : Prop :=
  forall xs z ys, fs = xs ++ z :: ys -> nunits ≤ s.mem.word (z.addr + 4) ->
    Meets G B (takeBlock nunits (lastOf base xs) z.addr (s.mem.word (z.addr + 4)) s)

theorem Heap.block_within (h : Heap base s fs us) {z : Extent} (hz : z ∈ fs) :
    Within base s z.addr ∧ Within base s (z.addr + 4) := by
  have hin := h.inside z (List.mem_append_left us hz)
  have hsized := h.ring.sizes z hz
  exact ⟨hin.within hsized (Or.inl rfl), hin.within hsized (Or.inr rfl)⟩

/-- The loop over blocks that are not the one of `freep`. -/
theorem walk (fuel : Nat) (xs zs rest : List Extent) (h : Heap base s fs us)
    (hB : forall e, Hole base s e -> B e)
    (htake : Taken base nunits s fs G B) (hsplit : fs = xs ++ (zs ++ rest))
    (hfreep : forall z, z ∈ zs -> z.addr ≠ s.freep)
    (hrest : (forall z, z ∈ zs -> Small s nunits z) ->
      Meets G B (mallocFrom nunits fuel (lastOf base (xs ++ zs)) (headOf base rest) s)) :
    Meets G B (mallocFrom nunits (fuel + zs.length) (lastOf base xs)
      (headOf base (zs ++ rest)) s) := by
  induction zs generalizing xs with
  | nil =>
      rw [List.append_nil] at hrest
      exact hrest (fun z hz => (List.not_mem_nil hz).elim)
  | cons z more ih =>
      have hz : z ∈ fs := by
        rw [hsplit]
        exact List.mem_append_right xs List.mem_cons_self
      have hin := h.block_within hz
      have hfuel : fuel + (z :: more).length = fuel + more.length + 1 := rfl
      have hhead : headOf base (z :: more ++ rest) = z.addr := rfl
      have hsplit' : fs = (xs ++ [z]) ++ (more ++ rest) := by
        rw [hsplit, List.append_assoc]
        rfl
      rw [hfuel, hhead, mallocFrom]
      apply Meets.bind ((load_meets hin.right).mono (fun _ hv => hv) hB)
      intro size heq
      subst heq
      cases Nat.lt_or_ge (s.mem.word (z.addr + 4)) nunits with
      | inr hge =>
          rw [if_pos hge]
          exact htake xs z (more ++ rest) hsplit hge
      | inl hlt =>
          rw [if_neg (Nat.not_le_of_lt hlt), if_neg (hfreep z List.mem_cons_self)]
          apply Meets.bind ((load_meets hin.left).mono (fun _ hv => hv) hB)
          intro next heq
          subst heq
          have hring := h.ring
          rw [hsplit'] at hring
          have hnext := hring.last
          rw [lastOf_concat] at hnext
          have hfar : forall c, c ∈ more -> c.addr ≠ s.freep :=
            fun c hc => hfreep c (List.mem_cons_of_mem z hc)
          have hwalk := ih (xs ++ [z]) hsplit' hfar (by
            intro hsmall
            rw [List.append_assoc]
            apply hrest
            intro c hc
            cases List.mem_cons.mp hc with
            | inl heq => exact heq ▸ hlt
            | inr hmem => exact hsmall c hmem)
          rw [lastOf_concat] at hwalk
          rw [hnext]
          exact hwalk

theorem at_base (h : Heap base s fs us) (hpos : 0 < nunits) (hB : forall e, Hole base s e -> B e)
    {prevp : Nat}
    (hstop : s.freep = base -> Meets G B (refill nunits fuel s))
    (hgo : s.freep ≠ base -> Meets G B (mallocFrom nunits fuel base (headOf base fs) s)) :
    Meets G B (mallocFrom nunits (fuel + 1) prevp base s) := by
  rw [mallocFrom]
  apply Meets.bind ((load_meets (within_base base s (Or.inr rfl))).mono (fun _ hv => hv) hB)
  intro size heq
  subst heq
  rw [h.empty, if_neg (by lia)]
  cases Classical.em (base = s.freep) with
  | inl heq =>
      rw [if_pos heq]
      exact hstop heq.symm
  | inr hne =>
      rw [if_neg hne]
      apply Meets.bind ((load_meets (within_base base s (Or.inl rfl))).mono (fun _ hv => hv) hB)
      intro next heq
      subst heq
      rw [h.ring.first]
      exact hgo (fun heq => hne heq.symm)

theorem Heap.freep_ne (h : Heap base s (xs ++ ys) us) {f z : Extent} (hf : f ∈ xs) (hz : z ∈ ys) :
    f.addr ≠ z.addr := by
  have haddrs := h.packed.addrs
  rw [List.map_append] at haddrs
  have hlt := (List.pairwise_append.mp haddrs).right.right f.addr (List.mem_map_of_mem hf) z.addr
    (List.mem_map_of_mem hz)
  exact Nat.ne_of_lt hlt

theorem loop_meets (h : Heap base s fs us) (hpos : 0 < nunits)
    (hB : forall e, Hole base s e -> B e) (htake : Taken base nunits s fs G B)
    (hmore : (forall z, z ∈ fs -> Small s nunits z) -> Meets G B (refill nunits fuel s)) :
    Meets G B (mallocFrom nunits (fuel + (fs.length + 1)) s.freep
      (s.mem.word s.freep) s) := by
  have hsorted := h.sorted
  rcases h.freep with heq | ⟨f, hf, heq⟩
  · have hword : s.mem.word s.freep = headOf base fs := by
      rw [heq]
      exact h.ring.first
    have hfuel : fuel + (fs.length + 1) = fuel + 1 + fs.length := by lia
    have hwalk := walk (fuel + 1) [] fs [] h hB htake (by rw [List.append_nil]; rfl) (by
        intro z hz hzeq
        have hlt := (List.pairwise_cons.mp hsorted).left z.addr (List.mem_map_of_mem hz)
        rw [hzeq, heq] at hlt
        exact Nat.lt_irrefl _ hlt) (by
        intro hsmall
        exact at_base h hpos hB (fun _ => hmore hsmall) (fun hne => absurd heq hne))
    rw [List.append_nil, lastOf_nil] at hwalk
    rw [hfuel, hword, heq]
    exact hwalk
  · rcases List.append_of_mem hf with ⟨as, bs, hsplit⟩
    have hsplit' : fs = (as ++ [f]) ++ (bs ++ []) := by
      rw [hsplit, List.append_nil, List.append_assoc]
      rfl
    have hring := h.ring
    rw [hsplit'] at hring
    have hnext := hring.last
    rw [lastOf_concat, List.append_nil] at hnext
    have hne : s.freep ≠ base := by
      intro hbase
      have hlt := (List.pairwise_cons.mp hsorted).left f.addr (List.mem_map_of_mem hf)
      rw [← heq, hbase] at hlt
      exact Nat.lt_irrefl _ hlt
    have hbehind : forall z, z ∈ bs -> z.addr ≠ s.freep := by
      intro z hz hzeq
      have hheap := h
      rw [hsplit', List.append_nil] at hheap
      exact hheap.freep_ne (List.mem_append_right as List.mem_cons_self) hz (heq ▸ hzeq.symm)
    have hbefore : forall z, z ∈ as -> z.addr ≠ s.freep := by
      intro z hz hzeq
      have hheap := h
      rw [hsplit] at hheap
      exact hheap.freep_ne hz List.mem_cons_self (hzeq.trans heq)
    have hfuel : fuel + (fs.length + 1) = fuel + 1 + as.length + 1 + bs.length := by
      rw [hsplit, List.length_append, List.length_cons]
      lia
    have hwalk := walk (fuel + 1 + as.length + 1) (as ++ [f]) bs [] h hB htake hsplit'
      hbehind (by
        intro hsmallB
        refine at_base h hpos hB (fun hbase => absurd hbase hne) (fun _ => ?_)
        have hfront := walk (fuel + 1) [] as (f :: bs) h hB htake hsplit hbefore (by
            intro hsmallA
            have hin := h.block_within hf
            have hhead : headOf base (f :: bs) = f.addr := rfl
            rw [hhead, mallocFrom]
            apply Meets.bind ((load_meets hin.right).mono (fun _ hv => hv) hB)
            intro size heq
            subst heq
            cases Nat.lt_or_ge (s.mem.word (f.addr + 4)) nunits with
            | inr hge =>
                rw [if_pos hge, List.nil_append]
                exact htake as f bs hsplit hge
            | inl hlt =>
                rw [if_neg (Nat.not_le_of_lt hlt), if_pos heq.symm]
                apply hmore
                intro z hz
                rw [hsplit] at hz
                rcases List.mem_append.mp hz with hz | hz
                · exact hsmallA z hz
                · cases List.mem_cons.mp hz with
                  | inl hzf => exact hzf ▸ hlt
                  | inr hmem => exact hsmallB z hmem)
        rw [lastOf_nil, ← hsplit] at hfront
        exact hfront)
    rw [lastOf_concat, List.append_nil] at hwalk
    rw [hfuel, heq, hnext]
    exact hwalk

end Loop

end Malloc
end User
end NicoOS
