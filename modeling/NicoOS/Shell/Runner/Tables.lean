import NicoOS.Shell.Runner.Meaning

/-!
# Descriptors

Descriptors 0 and 1 are always open, so what the shell closes there is what the next call takes.
-/

namespace NicoOS
namespace Shell
namespace Runner

/-- `close` and `dup`. -/
inductive Plumb where
  | close (fd : Nat)
  | dup (fd : Nat)

def Plumb.apply (fds : Table) : Plumb -> Table
  | close fd => Function.update fds fd none
  | dup fd => dupFd fds fd

/--
The table `fds` that began as `given`: only 0 and 1 are other than there, both are open, and no
pipe has both its ends in it.
-/
structure Plumbed (given fds : Table) : Prop where
  stdin : fds 0 ≠ none
  stdout : fds 1 ≠ none
  rest : forall fd, 2 ≤ fd -> fds fd = given fd
  apart : forall k i j,
    Not (fds i = some (Stream.readEnd k) ∧ fds j = some (Stream.writeEnd k))

section Tables

variable {given fds fds' : Table} {k n rd wr : Nat} {stream : Stream}

theorem firstFree_eq_some :
    firstFree fds = some n <-> n < nofile ∧ fds n = none ∧ forall m, m < n -> fds m ≠ none := by
  unfold firstFree
  rw [List.find?_range_eq_some]
  constructor
  · intro h
    refine ⟨List.mem_range.mp h.right.left, Option.isNone_iff_eq_none.mp h.left, ?_⟩
    intro m hm hnone
    have hsome := h.right.right m hm
    rw [hnone] at hsome
    cases hsome
  · intro h
    refine ⟨Option.isNone_iff_eq_none.mpr h.right.left, List.mem_range.mpr h.left, ?_⟩
    intro m hm
    cases hfd : fds m with
    | none => exact absurd hfd (h.right.right m hm)
    | some stream => rfl

/-- A free place among the first two is the one that is taken. -/
theorem firstFree_closed (hfds : fds 0 ≠ none ∧ fds 1 ≠ none) (hn : n = 0 ∨ n = 1) :
    firstFree (Function.update fds n none) = some n := by
  rw [firstFree_eq_some]
  refine ⟨?_, Function.update_self n none fds, ?_⟩
  · unfold nofile
    lia
  · intro m hm
    have hm0 : m = 0 := by lia
    rw [Function.update_of_ne (Nat.ne_of_lt hm), hm0]
    exact hfds.left

theorem firstFree_two_le (hfds : fds 0 ≠ none ∧ fds 1 ≠ none) (h : firstFree fds = some n) :
    2 ≤ n ∧ fds n = none := by
  have hfree := (firstFree_eq_some.mp h).right.left
  refine ⟨?_, hfree⟩
  cases Nat.lt_or_ge n 2 with
  | inr hge => exact hge
  | inl hlt =>
      have hor : n = 0 ∨ n = 1 := by lia
      cases hor with
      | inl h0 => exact absurd (h0 ▸ hfree) hfds.left
      | inr h1 => exact absurd (h1 ▸ hfree) hfds.right

/-- The descriptors of a new pipe. -/
structure Piped (fds : Table) (k rd wr : Nat) (fds' : Table) : Prop where
  rd_ge : 2 ≤ rd
  wr_ge : 2 ≤ wr
  ne : rd ≠ wr
  rd_free : fds rd = none
  wr_free : fds wr = none
  table : fds' = Function.update (Function.update fds rd (some (Stream.readEnd k))) wr
    (some (Stream.writeEnd k))

theorem newPipe_piped (hfds : fds 0 ≠ none ∧ fds 1 ≠ none)
    (h : newPipe fds k = some (rd, wr, fds')) : Piped fds k rd wr fds' := by
  unfold newPipe at h
  cases hrd : firstFree fds with
  | none =>
      rw [hrd] at h
      cases h
  | some n =>
      rw [hrd] at h
      dsimp only at h
      have hn := firstFree_two_le hfds hrd
      cases hwr : firstFree (Function.update fds n (some (Stream.readEnd k))) with
      | none =>
          rw [hwr] at h
          cases h
      | some m =>
          rw [hwr] at h
          cases h
          have hfds' : Function.update fds rd (some (Stream.readEnd k)) 0 ≠ none ∧
              Function.update fds rd (some (Stream.readEnd k)) 1 ≠ none := by
            rw [Function.update_of_ne (by lia), Function.update_of_ne (by lia)]
            exact hfds
          have hm := firstFree_two_le hfds' hwr
          have hne : rd ≠ wr := by
            intro heq
            rw [← heq, Function.update_self] at hm
            cases hm.right
          refine ⟨hn.left, hm.left, hne, hn.right, ?_, rfl⟩
          rw [← hm.right, Function.update_of_ne hne.symm]

/-- Both sides of a pipe end with one more stream at 0 or 1, and without the new descriptors. -/
theorem Piped.plumb (h : Piped fds k rd wr fds') (hfds : fds 0 ≠ none ∧ fds 1 ≠ none)
    (hn : n = 0 ∨ n = 1) {fd : Nat} (hfd : fd = rd ∨ fd = wr) (hstream : fds' fd = some stream) :
    [Plumb.close n, Plumb.dup fd, Plumb.close rd, Plumb.close wr].foldl Plumb.apply fds' =
      Function.update fds n (some stream) := by
  have hrd := h.rd_ge
  have hwr := h.wr_ge
  have hfds' : fds' 0 ≠ none ∧ fds' 1 ≠ none := by
    rw [h.table, Function.update_of_ne (by lia), Function.update_of_ne (by lia),
      Function.update_of_ne (by lia), Function.update_of_ne (by lia)]
    exact hfds
  have hnfd : n ≠ fd := by lia
  have hdup : dupFd (Function.update fds' n none) fd = Function.update fds' n (some stream) := by
    unfold dupFd
    rw [firstFree_closed hfds' hn, Function.update_of_ne hnfd.symm, hstream]
    exact Function.update_idem (β := fun _ => Option Stream) none (some stream) fds'
  show Function.update (Function.update (dupFd (Function.update fds' n none) fd) rd none) wr none =
    Function.update fds n (some stream)
  rw [hdup]
  funext i
  cases Classical.em (i = wr) with
  | inl heq =>
      rw [heq, Function.update_self, Function.update_of_ne (by lia), h.wr_free]
  | inr hiwr =>
      rw [Function.update_of_ne hiwr]
      cases Classical.em (i = rd) with
      | inl heq =>
          rw [heq, Function.update_self, Function.update_of_ne (by lia), h.rd_free]
      | inr hird =>
          rw [Function.update_of_ne hird]
          cases Classical.em (i = n) with
          | inl heq => rw [heq, Function.update_self, Function.update_self]
          | inr hin =>
              rw [Function.update_of_ne hin, Function.update_of_ne hin, h.table,
                Function.update_of_ne hiwr, Function.update_of_ne hird]

theorem Plumbed.std (h : Plumbed given fds) : fds 0 ≠ none ∧ fds 1 ≠ none :=
  ⟨h.stdin, h.stdout⟩

/-- A stream at 0 or 1, of which the other end is not in the table. -/
theorem Plumbed.update (h : Plumbed given fds) (hn : n = 0 ∨ n = 1)
    (hread : forall k, stream = Stream.readEnd k -> forall i, fds i ≠ some (Stream.writeEnd k))
    (hwrite : forall k, stream = Stream.writeEnd k -> forall i, fds i ≠ some (Stream.readEnd k)) :
    Plumbed given (Function.update fds n (some stream)) := by
  have hsome : forall i, fds i ≠ none -> Function.update fds n (some stream) i ≠ none := by
    intro i hi
    cases Classical.em (i = n) with
    | inl heq =>
        rw [heq, Function.update_self]
        exact Option.some_ne_none stream
    | inr hne =>
        rw [Function.update_of_ne hne]
        exact hi
  constructor
  · exact hsome 0 h.stdin
  · exact hsome 1 h.stdout
  · intro fd hfd
    rw [Function.update_of_ne (by lia)]
    exact h.rest fd hfd
  · intro k i j hboth
    cases Classical.em (i = n) with
    | inl hi =>
        rw [hi, Function.update_self] at hboth
        have heq := Option.some.inj hboth.left
        cases Classical.em (j = n) with
        | inl hj =>
            rw [hj, Function.update_self, heq] at hboth
            cases hboth.right
        | inr hj =>
            rw [Function.update_of_ne hj] at hboth
            exact hread k heq j hboth.right
    | inr hi =>
        rw [Function.update_of_ne hi] at hboth
        cases Classical.em (j = n) with
        | inl hj =>
            rw [hj, Function.update_self] at hboth
            exact hwrite k (Option.some.inj hboth.right) i hboth.left
        | inr hj =>
            rw [Function.update_of_ne hj] at hboth
            exact h.apart k i j hboth

def Below (k : Nat) (fds : Table) : Prop := forall m, k ≤ m -> Fresh fds m

theorem Below.closed (h : Below k fds) (n : Nat) : Below k (Function.update fds n none) := by
  intro m hm fd
  cases Classical.em (fd = n) with
  | inl heq =>
      rw [heq, Function.update_self]
      exact ⟨nofun, nofun⟩
  | inr hne =>
      rw [Function.update_of_ne hne]
      exact h m hm fd

theorem Below.update (h : Below k fds)
    (hstream : forall m, k ≤ m -> stream ≠ Stream.readEnd m ∧ stream ≠ Stream.writeEnd m)
    (n : Nat) : Below k (Function.update fds n (some stream)) := by
  intro m hm fd
  cases Classical.em (fd = n) with
  | inl heq =>
      rw [heq, Function.update_self]
      have hne := hstream m hm
      exact ⟨fun he => hne.left (Option.some.inj he), fun he => hne.right (Option.some.inj he)⟩
  | inr hne =>
      rw [Function.update_of_ne hne]
      exact h m hm fd

theorem Below.file (h : Below k fds) (path : Text) (mode n : Nat) :
    Below k (Function.update fds n (some (Stream.file path mode))) := by
  apply h.update
  exact fun _ _ => ⟨nofun, nofun⟩

theorem Below.mono (h : Below k fds) {k' : Nat} (hle : k ≤ k') : Below k' fds :=
  fun m hm => h m (Nat.le_trans hle hm)

theorem Below.dup (h : Below k fds) (fd : Nat) : Below k (dupFd fds fd) := by
  unfold dupFd
  split
  · rename_i stream new hfd _
    apply h.update
    intro m hm
    have hne := h m hm fd
    rw [hfd] at hne
    exact ⟨fun he => hne.left (congrArg some he), fun he => hne.right (congrArg some he)⟩
  · exact h

theorem Below.plumb (h : Below k fds) (op : Plumb) : Below k (op.apply fds) := by
  cases op with
  | close fd => exact h.closed fd
  | dup fd => exact h.dup fd

theorem Below.pipe (h : Below k fds) (hpiped : Piped fds k rd wr fds') : Below (k + 1) fds' := by
  rw [hpiped.table]
  apply Below.update
  · apply Below.update
    · exact h.mono (Nat.le_succ k)
    · intro m hm
      refine ⟨?_, nofun⟩
      intro heq
      cases heq
      exact Nat.lt_irrefl _ hm
  · intro m hm
    refine ⟨nofun, ?_⟩
    intro heq
    cases heq
    exact Nat.lt_irrefl _ hm

end Tables

end Runner
end Shell
end NicoOS
