import NicoOS.Kernel.Disk.Coherence

/-!
# Reads that end with an error

`ide_intr_handler` with the answer of `idewait`.  A record says of each buffer whether
its data came from its block since it was assigned to the block.
-/

namespace NicoOS
namespace Kernel
namespace Disk

open Lib

variable {α : Type}

/-!
# The handler
-/

/-- The flags of the head of the queue are set, and no data are transferred. -/
def completeEmpty (b : Nat) (rest : List Nat) (s : State α) : State α :=
  { s.setBuf b { s.bufs b with valid := true, dirty := false } with
    queue := rest
    service := none
    completed := s.completed ++ [b] }

/-- The head of the queue is done; a read whose `idewait` failed transfers nothing. -/
def completeWith (idewait : Int) (b : Nat) (rest : List Nat) (s : State α) : State α :=
  if (s.bufs b).dirty = false ∧ idewait ≠ 0 then completeEmpty b rest s else complete b rest s

def ideIntrHandlerWith (idewait : Int) (s : State α) : Except Stop (State α) :=
  match s.service, s.queue with
  | none, _ => Except.error Stop.disabled
  | some _, [] => Except.ok { s with service := none }
  | some _, b :: rest =>
      match s.chan.signal with
      | none => Except.error Stop.assertion
      | some sem =>
          let s1 := { completeWith idewait b rest s with chan := sem }
          match rest with
          | [] => Except.ok s1
          | c :: _ => idestart c s1

/-- The cache, and the buffers whose data came from their blocks. -/
structure Traced (α : Type) where
  cache : State α
  transferred : Nat -> Bool

inductive Event (α : Type) where
  | act (a : Action α) (ha : a ≠ Action.interrupt)
  | interrupt (idewait : Int)

/-- The interrupt ends a read, and `idewait` returned an error. -/
def ReadFails (s : Traced α) : Event α -> Prop
  | Event.act _ _ => False
  | Event.interrupt idewait =>
      idewait ≠ 0 ∧ exists b, s.cache.queue.head? = some b ∧ (s.cache.bufs b).dirty = false

/-- The data of the head of the queue are transferred. -/
def transfers (idewait : Int) (s : State α) (b : Nat) : Bool :=
  decide (s.queue.head? = some b) && !(s.bufs b).dirty && decide (idewait = 0)

/-- A recycled buffer is invalid, and so its data came from no block. -/
def Traced.next (s : Traced α) (cache : State α) (fresh : Nat -> Bool) : Traced α :=
  { cache := cache
    transferred := fun b => fresh b || s.transferred b && (cache.bufs b).valid }

def tracedStep (s : Traced α) : Event α -> Option (Traced α)
  | Event.act a _ => (step s.cache a).map (fun cache => s.next cache (fun _ => false))
  | Event.interrupt idewait =>
      if s.cache.panicked then
        none
      else
        match ideIntrHandlerWith idewait s.cache with
        | Except.ok cache => some (s.next cache (transfers idewait s.cache))
        | Except.error Stop.disabled => none
        | Except.error Stop.assertion =>
            some (s.next { s.cache with panicked := true } (fun _ => false))

def tracedInit (storage : Nat -> UInt32 -> α) (data : Nat -> α) : Traced α :=
  { cache := bioInit storage data, transferred := fun _ => false }

def LegalEvent (s : Traced α) : Event α -> Prop
  | Event.act a _ => Legal s.cache a
  | Event.interrupt _ => True

/-- A legal event that is no failed read. -/
def GoodEvent (s : Traced α) (e : Event α) : Prop := LegalEvent s e ∧ Not (ReadFails s e)

/-- The data of every valid buffer came from its block. -/
def Genuine (s : Traced α) : Prop :=
  forall b, (s.cache.bufs b).valid = true -> s.transferred b = true

/-- A call of `buf_read` returns the buffer. -/
def Returns (s s' : Traced α) (b : Nat) : Prop :=
  exists t, (s.cache.calls t).fetching = some b ∧ s'.cache.calls t = Call.idle

/-!
# Only interrupts make buffers valid
-/

section Validity

variable {s s' : State α} {t d b : Nat} {k : UInt32}

/-- No buffer becomes valid. -/
def Stays (s s' : State α) : Prop :=
  forall b, (s'.bufs b).valid = true -> (s.bufs b).valid = true

theorem stays_of_bufs (h : s'.bufs = s.bufs) : Stays s s' := by
  intro b hb
  rw [h] at hb
  exact hb

theorem stays_of_buf {buf : Buf α} (h : s'.bufs = Function.update s.bufs b buf)
    (hvalid : buf.valid = true -> (s.bufs b).valid = true) : Stays s s' := by
  intro c hc
  rw [h] at hc
  by_cases hcb : c = b
  · rw [hcb, Function.update_self] at hc
    rw [hcb]
    exact hvalid hc
  · rw [Function.update_of_ne hcb] at hc
    exact hc

theorem bufGet_stays (h : bufGet t d k s = Except.ok s') : Stays s s' := by
  unfold bufGet at h
  cases hfind : walk s.lru.next (isCached s d k) (nbuf + 1) (s.lru.next none) with
  | some b =>
      rw [hfind] at h
      cases h
      exact stays_of_buf rfl (fun hvalid => hvalid)
  | none =>
      rw [hfind] at h
      dsimp only at h
      cases hfree : walk s.lru.prev (isUnused s) (nbuf + 1) (s.lru.prev none) with
      | some b =>
          rw [hfree] at h
          cases h
          apply stays_of_buf rfl
          intro hvalid
          cases hvalid
      | none =>
          rw [hfree] at h
          cases h

theorem iderw_stays (hreq : Requests s) {result : Bool × State α}
    (h : iderw t b s = Except.ok result) : result.1 = false ∧ result.2.bufs = s.bufs := by
  rcases iderw_spec hreq h with ⟨s1, henqueued, hresult, -, -⟩
  rw [hresult]
  exact ⟨rfl, henqueued.cache.bufs⟩

theorem lockBuf_stays : Stays s (lockBuf t d k b s) := by
  unfold lockBuf
  rcases hwait : (s.bufs b).sem.wait t with ⟨passed, sem⟩
  cases passed with
  | true => exact stays_of_buf rfl (fun hvalid => hvalid)
  | false => exact stays_of_buf rfl (fun hvalid => hvalid)

theorem run_stays (hreq : Requests s) (h : run t s = Except.ok s') : Stays s s' := by
  have hrun := h
  unfold run at h
  cases hcall : s.calls t with
  | idle =>
      rw [hcall] at h
      cases h
  | got d k b =>
      rw [hcall] at h
      cases h
      exact lockBuf_stays
  | locking d k b =>
      rw [hcall] at h
      dsimp only at h
      split at h
      · cases h
        exact stays_of_buf rfl (fun hvalid => hvalid)
      · cases h
  | locked d k b =>
      rw [hcall] at h
      dsimp only at h
      unfold checkValid at h
      split at h
      · cases h
        exact stays_of_bufs rfl
      · rcases bind_ok h with ⟨result, hio, hrest⟩
        rcases iderw_stays hreq hio with ⟨hwaits, hbufs⟩
        rw [hwaits, if_neg Bool.false_ne_true] at hrest
        cases hrest
        exact stays_of_bufs hbufs
  | reading d k b =>
      rw [hcall] at h
      dsimp only at h
      split at h
      · rename_i hwoken
        have hclean := hreq.clean_of_woken (b := b) hwoken (by rw [hcall]; rfl)
        rw [run_reading hcall hwoken hclean] at hrun
        cases hrun
        exact stays_of_bufs rfl
      · cases h
  | marked b =>
      rw [hcall] at h
      rcases bind_ok h with ⟨result, hio, hrest⟩
      rcases iderw_stays hreq hio with ⟨-, hbufs⟩
      cases hrest
      exact stays_of_bufs hbufs
  | flushing b =>
      rw [hcall] at h
      dsimp only at h
      split at h
      · rename_i hwoken
        have hclean := hreq.clean_of_woken (b := b) hwoken (by rw [hcall]; rfl)
        rw [run_flushing hcall hwoken hclean] at hrun
        cases hrun
        exact stays_of_bufs rfl
      · cases h
  | releasing b =>
      rw [hcall] at h
      cases h
      exact stays_of_buf rfl (fun hvalid => hvalid)

theorem perform_stays {a : Action α} (hreq : Requests s) (ha : a ≠ Action.interrupt)
    (h : perform s a = Except.ok s') : Stays s s' := by
  cases a with
  | read t d k => exact bufGet_stays (idle_of_ok h).right
  | store t b data =>
      cases (idle_of_ok h).right
      exact stays_of_buf rfl (fun hvalid => hvalid)
  | write t b =>
      have hwrite := (idle_of_ok h).right
      unfold bufWrite at hwrite
      split at hwrite
      · cases hwrite
        exact stays_of_buf rfl (fun hvalid => hvalid)
      · cases hwrite
  | logWrite t b =>
      cases (idle_of_ok h).right
      exact stays_of_buf rfl (fun hvalid => hvalid)
  | release t b =>
      have hrelease := (idle_of_ok h).right
      unfold unlockBuf at hrelease
      cases hsignal : (s.bufs b).sem.signal with
      | none =>
          rw [hsignal] at hrelease
          cases hrelease
      | some sem =>
          rw [hsignal] at hrelease
          cases hrelease
          exact stays_of_buf rfl (fun hvalid => hvalid)
  | run t => exact run_stays hreq h
  | interrupt => exact absurd rfl ha

theorem step_stays {a : Action α} (hreq : Requests s) (ha : a ≠ Action.interrupt)
    (h : step s a = some s') : Stays s s' := by
  unfold step at h
  split at h
  · cases h
  · cases hperform : perform s a with
    | ok s1 =>
        rw [hperform] at h
        cases h
        exact perform_stays hreq ha hperform
    | error stop =>
        rw [hperform] at h
        cases stop with
        | disabled => cases h
        | assertion =>
            cases h
            exact stays_of_bufs rfl

end Validity

/-!
# Calls of `buf_read` return valid buffers
-/

section Returning

variable {s s' : State α} {t b : Nat}

theorem fetching_of_other {u : Nat} {c : Call} (hfetch : (s.calls t).fetching = some b)
    (hidle : (s.setCall u c).calls t = Call.idle) : t = u ∧ c = Call.idle := by
  by_cases htu : t = u
  · rw [htu, setCall_self] at hidle
    exact ⟨htu, hidle⟩
  · rw [setCall_of_ne htu] at hidle
    rw [hidle] at hfetch
    cases hfetch

theorem Moves.returns_valid (hmove : Moves s s') (hfetch : (s.calls t).fetching = some b)
    (hidle : s'.calls t = Call.idle) : (s'.bufs b).valid = true := by
  have hstays : s'.calls = s.calls -> (s'.bufs b).valid = true := by
    intro hcalls
    rw [hcalls] at hidle
    rw [hidle] at hfetch
    cases hfetch
  cases hmove with
  | hit u d k e hfree hfind =>
      rcases fetching_of_other (s := s.setBuf e _) hfetch hidle with ⟨-, hc⟩
      cases hc
  | recycle u d k e hfree hmiss hfind =>
      rcases fetching_of_other (s := s.setBuf e _) hfetch hidle with ⟨-, hc⟩
      cases hc
  | lock u d k e sem hcall hwait =>
      rcases fetching_of_other (s := s.setBuf e _) hfetch hidle with ⟨-, hc⟩
      cases hc
  | join u d k e sem hcall hwait =>
      rcases fetching_of_other (s := s.setBuf e _) hfetch hidle with ⟨-, hc⟩
      cases hc
  | wake u d k e hcall hwoken =>
      rcases fetching_of_other (s := s.setBuf e _) hfetch hidle with ⟨-, hc⟩
      cases hc
  | found u d k e hcall hvalid =>
      rcases fetching_of_other (s := s) hfetch hidle with ⟨htu, -⟩
      rw [htu, hcall] at hfetch
      cases hfetch
      exact hvalid
  | load u d k e s1 hcall hvalid henqueued =>
      have hfetch' : ((blockOnChan u s1).calls t).fetching = some b := by
        show (s1.calls t).fetching = some b
        rw [henqueued.cache.calls]
        exact hfetch
      rcases fetching_of_other hfetch' hidle with ⟨-, hc⟩
      cases hc
  | loaded u d k e hcall hwoken hclean =>
      rcases fetching_of_other (s := { s with chan := s.chan.resume u }) hfetch hidle with ⟨htu, -⟩
      rw [htu, hcall] at hfetch
      cases hfetch
      exact (Bool.and_eq_true_iff.mp hclean).left
  | store u e data hfree hheld => exact hstays rfl
  | log u e hfree hheld => exact hstays rfl
  | mark u e hfree hheld =>
      rcases fetching_of_other (s := markDirty e s) hfetch hidle with ⟨-, hc⟩
      cases hc
  | flush u e s1 hcall hclean henqueued =>
      have hfetch' : ((blockOnChan u s1).calls t).fetching = some b := by
        show (s1.calls t).fetching = some b
        rw [henqueued.cache.calls]
        exact hfetch
      rcases fetching_of_other hfetch' hidle with ⟨-, hc⟩
      cases hc
  | flushed u e hcall hwoken hclean =>
      rcases fetching_of_other (s := { s with chan := s.chan.resume u }) hfetch hidle with ⟨htu, -⟩
      rw [htu, hcall] at hfetch
      cases hfetch
  | unlock u e sem hfree hheld hmarked hsignal =>
      rcases fetching_of_other (s := s.setBuf e _) hfetch hidle with ⟨-, hc⟩
      cases hc
  | drop u e hcall =>
      rcases fetching_of_other (s := s.setBuf e _) hfetch hidle with ⟨htu, -⟩
      rw [htu, hcall] at hfetch
      cases hfetch
  | interrupt e rest s1 hdone => exact hstays hdone.calls

end Returning

/-!
# Good and bad interrupts
-/

section Interrupts

variable {s s' : Traced α} {idewait : Int}

theorem completeWith_of_good {c : State α} {b : Nat} {rest : List Nat}
    (h : (c.bufs b).dirty = false -> idewait = 0) : completeWith idewait b rest c =
      complete b rest c := by
  unfold completeWith
  rw [if_neg]
  intro hboth
  rcases hboth with ⟨hdirty, hfailed⟩
  exact hfailed (h hdirty)

/-- An interrupt that ends no read with an error is that of a device without errors. -/
theorem handler_of_good (h : Not (ReadFails s (Event.interrupt idewait))) :
    ideIntrHandlerWith idewait s.cache = ideIntrHandler s.cache := by
  unfold ideIntrHandlerWith ideIntrHandler
  cases hqueue : s.cache.queue with
  | nil =>
      cases s.cache.service with
      | none => rfl
      | some c => rfl
  | cons b rest =>
      have hgood : (s.cache.bufs b).dirty = false -> idewait = 0 := by
        intro hdirty
        by_contra hfailed
        apply h
        exact ⟨hfailed, b, congrArg List.head? hqueue, hdirty⟩
      cases s.cache.service with
      | none => rfl
      | some c =>
          dsimp only
          rewrite [completeWith_of_good hgood]
          cases s.cache.chan.signal with
          | none => rfl
          | some sem =>
              cases rest with
              | nil => rfl
              | cons e others => rfl

theorem step_of_good {e : Event α} (hgood : GoodEvent s e) (h : tracedStep s e = some s') :
    exists a, Legal s.cache a ∧ step s.cache a = some s'.cache := by
  rcases hgood with ⟨hlegal, hread⟩
  cases e with
  | act a ha =>
      refine ⟨a, hlegal, ?_⟩
      rcases Option.map_eq_some_iff.mp h with ⟨cache, hcache, hnext⟩
      rw [<- hnext]
      exact hcache
  | interrupt idewait =>
      refine ⟨Action.interrupt, trivial, ?_⟩
      unfold tracedStep at h
      dsimp only at h
      unfold step perform
      split at h
      · cases h
      · rename_i hup
        rw [if_neg hup]
        rw [handler_of_good hread] at h
        cases hrun : ideIntrHandler s.cache with
        | ok cache =>
            rw [hrun] at h
            cases h
            rfl
        | error stop =>
            rw [hrun] at h
            cases stop with
            | disabled => cases h
            | assertion =>
                cases h
                rfl

theorem reaches_cache {storage : Nat -> UInt32 -> α} {data : Nat -> α}
    (h : Reaches tracedStep GoodEvent (tracedInit storage data) s) :
    Reaches step Legal (bioInit storage data) s.cache := by
  induction h with
  | refl => exact Reaches.refl
  | next _ hgood hstep ih =>
      rcases step_of_good hgood hstep with ⟨a, hlegal, hcache⟩
      exact Reaches.next ih hlegal hcache

/-- The first to wait for a buffer that is not valid is its reader. -/
theorem reader_of_waiting (hsound : Sound s.cache) {b t : Nat} {rest others : List Nat}
    (hqueue : s.cache.queue = b :: rest) (hwait : s.cache.chan.waiting = t :: others)
    (hvalid : (s.cache.bufs b).valid = false) :
    exists d k, s.cache.calls t = Call.reading d k b := by
  have howners := hsound.consistent.requests.owners
  rw [hqueue, hwait] at howners
  cases howners with
  | cons hio _ =>
      cases hcall : s.cache.calls t with
      | reading d k c =>
          rw [hcall] at hio
          cases hio
          exact ⟨d, k, rfl⟩
      | flushing c =>
          have hheld := hsound.consistent.locked.owned b t (Call.owned_of_io hio)
          have hset := hsound.targeted.valid_of_held hheld (by
            rw [hcall]
            exact (Option.some_ne_none b).symm)
          rw [hvalid] at hset
          cases hset
      | _ =>
          rw [hcall] at hio
          cases hio

/-- A read that fails makes its buffer valid, and wakes up the task that waits for it. -/
theorem handler_of_failed (hsound : Sound s.cache)
    (h : ReadFails s (Event.interrupt idewait)) :
    exists b t cache, s.cache.queue.head? = some b ∧ (s.cache.bufs b).valid = false ∧
      ideIntrHandlerWith idewait s.cache = Except.ok cache ∧
      cache.bufs = Function.update s.cache.bufs b
        { s.cache.bufs b with valid := true, dirty := false } ∧
      cache.calls = s.cache.calls ∧ cache.panicked = s.cache.panicked ∧
      (exists d k, s.cache.calls t = Call.reading d k b) ∧ t ∈ cache.chan.released := by
  rcases h with ⟨hfailed, b, hhead, hdirty⟩
  have hreq := hsound.consistent.requests
  cases hqueue : s.cache.queue with
  | nil =>
      rw [hqueue] at hhead
      cases hhead
  | cons e rest =>
      rw [hqueue] at hhead
      cases hhead
      have hservice : s.cache.service = some b := by
        rw [hreq.service, hqueue]
        rfl
      have hpending := hreq.pending b (by rw [hqueue]; exact List.mem_cons_self)
      have hvalid : (s.cache.bufs b).valid = false := by
        unfold Buf.isClean at hpending
        rw [hdirty, Bool.not_false, Bool.and_true] at hpending
        exact hpending
      have howners := hreq.owners
      rw [hqueue] at howners
      have hcomplete : completeWith idewait b rest s.cache = completeEmpty b rest s.cache :=
        if_pos ⟨hdirty, hfailed⟩
      cases hwait : s.cache.chan.waiting with
      | nil =>
          rw [hwait] at howners
          cases howners
      | cons t others =>
          have hcall := reader_of_waiting hsound hqueue hwait hvalid
          have hsignal := Turnstile.signal_waiting hreq.sound hwait
          cases rest with
          | nil =>
              refine ⟨b, t, { completeEmpty b [] s.cache with
                chan := ⟨⟨s.cache.chan.val + 1, others⟩, t :: s.cache.chan.released⟩ },
                rfl, hvalid, ?_, rfl, rfl, rfl, hcall, List.mem_cons_self⟩
              unfold ideIntrHandlerWith
              rw [hservice, hqueue]
              dsimp only
              rw [hsignal, hcomplete]
          | cons c more =>
              have hmem : c ∈ s.cache.queue := by
                rw [hqueue]
                exact List.mem_cons_of_mem b List.mem_cons_self
              rcases queued_caches hsound.coherent hsound.targeted hsound.consistent.locked
                hreq hmem with ⟨d, k, hdisk, -⟩
              have hnodup := hreq.nodup
              rw [hqueue] at hnodup
              have hne : c ≠ b := by
                intro heq
                apply (List.nodup_cons.mp hnodup).left
                rw [heq]
                exact List.mem_cons_self
              cases hstart : idestart c { completeEmpty b (c :: more) s.cache with
                  chan := ⟨⟨s.cache.chan.val + 1, others⟩, t :: s.cache.chan.released⟩ } with
              | error stop =>
                  have hsame : ((s.cache.setBuf b { s.cache.bufs b with
                      valid := true, dirty := false }).bufs c).disk = some d := by
                    rw [setBuf_of_ne hne]
                    exact hdisk
                  unfold idestart completeEmpty at hstart
                  dsimp only at hstart
                  rw [hsame] at hstart
                  cases hstart
              | ok started =>
                  rcases idestart_ok hstart with ⟨heq, -⟩
                  refine ⟨b, t, started, rfl, hvalid, ?_, ?_, ?_, ?_, hcall, ?_⟩
                  · unfold ideIntrHandlerWith
                    rw [hservice, hqueue]
                    dsimp only
                    rw [hsignal, hcomplete]
                    exact hstart
                  · rw [heq]
                    rfl
                  · rw [heq]
                    rfl
                  · rw [heq]
                    rfl
                  · rw [heq]
                    exact List.mem_cons_self

end Interrupts

/-!
# Runs
-/

/-- What the record and the flags of the buffers have to do with each other. -/
structure Recorded (s : Traced α) : Prop where
  sound : Sound s.cache
  genuine : Genuine s
  valid : forall b, s.transferred b = true -> (s.cache.bufs b).valid = true

section Runs

variable {s s' : Traced α}

theorem transfers_valid {idewait : Int} {c c' : State α} {b : Nat} {rest : List Nat}
    (hdone : Completed b rest c c') {e : Nat} (h : transfers idewait c e = true) :
    (c'.bufs e).valid = true := by
  unfold transfers at h
  rw [Bool.and_eq_true, Bool.and_eq_true, hdone.busy] at h
  have heq : b = e := Option.some.inj (of_decide_eq_true h.left.left)
  rw [<- heq, hdone.bufs]
  exact (Bool.and_eq_true_iff.mp (complete_isClean b rest c)).left

/-- A buffer becomes valid where its data are transferred, and stays genuine. -/
theorem Recorded.interrupt {idewait : Int} {c : State α} (h : Recorded s)
    (hgood : Not (ReadFails s (Event.interrupt idewait)))
    (hrun : ideIntrHandlerWith idewait s.cache = Except.ok c) :
    Genuine (s.next c (transfers idewait s.cache)) ∧
      forall b, (s.next c (transfers idewait s.cache)).transferred b = true ->
        (c.bufs b).valid = true := by
  rw [handler_of_good hgood] at hrun
  rcases ideIntrHandler_spec h.sound.consistent.requests.service hrun with ⟨b, rest, hdone⟩
  constructor
  · intro e he
    show (transfers idewait s.cache e || s.transferred e && (c.bufs e).valid) = true
    have hvalid : (c.bufs e).valid = true := he
    rw [hvalid, Bool.and_true, Bool.or_eq_true]
    have hold : (s.cache.bufs e).valid = true -> s.transferred e = true := h.genuine e
    by_cases heb : e = b
    · cases hdirty : (s.cache.bufs e).dirty with
      | true => exact Or.inr (hold (h.sound.coherent.marked e hdirty))
      | false =>
          left
          have hwait : idewait = 0 := by
            by_contra hfailed
            apply hgood
            refine ⟨hfailed, b, ?_, ?_⟩
            · rw [hdone.busy]
              rfl
            · rw [<- heb]
              exact hdirty
          unfold transfers
          rw [hdirty, hdone.busy, hwait, heb]
          simp
    · right
      apply hold
      rw [<- complete_of_ne heb rest s.cache, <- hdone.bufs]
      exact hvalid
  · intro e he
    have hor : (transfers idewait s.cache e || s.transferred e && (c.bufs e).valid) = true := he
    rcases (Bool.or_eq_true _ _).mp hor with hfresh | hboth
    · exact transfers_valid hdone hfresh
    · exact (Bool.and_eq_true_iff.mp hboth).right

/-- An event that transfers nothing keeps the record of what stays valid. -/
theorem Recorded.quiet {c : State α} (h : Recorded s) (hstays : Stays s.cache c) :
    Genuine (s.next c (fun _ => false)) ∧
      forall b, (s.next c (fun _ => false)).transferred b = true -> (c.bufs b).valid = true := by
  constructor
  · intro b hb
    have hvalid : (c.bufs b).valid = true := hb
    have hold := h.genuine b (hstays b hvalid)
    show (false || s.transferred b && (c.bufs b).valid) = true
    rw [hold, hvalid]
    rfl
  · intro b hb
    have hboth : (s.transferred b && (c.bufs b).valid) = true := hb
    exact (Bool.and_eq_true_iff.mp hboth).right

theorem Recorded.step {e : Event α} (h : Recorded s) (hgood : GoodEvent s e)
    (hstep : tracedStep s e = some s') : Recorded s' := by
  have hsound : Sound s'.cache := by
    rcases step_of_good hgood hstep with ⟨a, hlegal, hcache⟩
    rcases step_moves h.sound.consistent.requests hlegal hcache with hmove | hpanic
    · exact h.sound.moves hmove
    · rw [hpanic]
      exact h.sound.panic
  cases e with
  | act a ha =>
      rcases Option.map_eq_some_iff.mp hstep with ⟨c, hcache, hnext⟩
      cases hnext
      rcases h.quiet (step_stays h.sound.consistent.requests ha hcache) with ⟨hgenuine, hvalid⟩
      exact ⟨hsound, hgenuine, hvalid⟩
  | interrupt idewait =>
      unfold tracedStep at hstep
      dsimp only at hstep
      split at hstep
      · cases hstep
      · cases hrun : ideIntrHandlerWith idewait s.cache with
        | ok c =>
            rw [hrun] at hstep
            cases hstep
            rcases h.interrupt hgood.right hrun with ⟨hgenuine, hvalid⟩
            exact ⟨hsound, hgenuine, hvalid⟩
        | error stop =>
            rw [hrun] at hstep
            cases stop with
            | disabled => cases hstep
            | assertion =>
                cases hstep
                rcases h.quiet (c := { s.cache with panicked := true }) (stays_of_bufs rfl) with
                  ⟨hgenuine, hvalid⟩
                exact ⟨hsound, hgenuine, hvalid⟩

theorem reaches_recorded {storage : Nat -> UInt32 -> α} {data : Nat -> α}
    (h : Reaches tracedStep GoodEvent (tracedInit storage data) s) : Recorded s := by
  apply Reaches.invariant _ (fun r r' e hr hgood hstep => Recorded.step hr hgood hstep) h
  constructor
  · exact bioInit_sound storage data
  · intro b hb
    cases hb
  · intro b hb
    cases hb

/-- After a failed read a task returns from `buf_read` with data of another block. -/
theorem Recorded.failed {idewait : Int} (h : Recorded s)
    (hfails : ReadFails s (Event.interrupt idewait))
    (hstep : tracedStep s (Event.interrupt idewait) = some s') :
    Not (Genuine s') ∧ exists t b s'', (exists ha, tracedStep s' (Event.act (Action.run t) ha) =
      some s'') ∧ Returns s' s'' b ∧ (s''.cache.bufs b).valid = true ∧
        s''.transferred b = false := by
  rcases handler_of_failed h.sound hfails with
    ⟨b, t, c, hhead, hinvalid, hrun, hbufs, hcalls, hpanicked, ⟨d, k, hcall⟩, hreleased⟩
  have hfresh : s.transferred b = false := by
    cases htransferred : s.transferred b with
    | false => rfl
    | true =>
        have hvalid := h.valid b htransferred
        rw [hinvalid] at hvalid
        cases hvalid
  have hno : transfers idewait s.cache b = false := by
    unfold transfers
    rw [decide_eq_false hfails.left, Bool.and_false]
  unfold tracedStep at hstep
  dsimp only at hstep
  split at hstep
  · cases hstep
  · rename_i hup
    rw [hrun] at hstep
    cases hstep
    have hstale : (s.next c (transfers idewait s.cache)).transferred b = false := by
      show (transfers idewait s.cache b || s.transferred b && (c.bufs b).valid) = false
      rw [hno, hfresh]
      rfl
    have hclean : (c.bufs b).isClean = true := by
      rw [hbufs, Function.update_self]
      rfl
    have hset : (c.bufs b).valid = true := (Bool.and_eq_true_iff.mp hclean).left
    have hrunning : (Action.run t : Action α) ≠ Action.interrupt := fun heq => by cases heq
    refine ⟨?_, t, b, (s.next c (transfers idewait s.cache)).next
      (returnRead t d k b { c with chan := c.chan.resume t }) (fun _ => false), ⟨hrunning, ?_⟩,
      ⟨t, ?_, ?_⟩, ?_, ?_⟩
    · intro hgenuine
      rw [hgenuine b hset] at hstale
      cases hstale
    · have hcall' : c.calls t = Call.reading d k b := by
        rw [hcalls]
        exact hcall
      have hnotUp : c.panicked = false := by
        rw [hpanicked]
        exact Bool.eq_false_iff.mpr hup
      exact Option.map_eq_some_iff.mpr
        ⟨_, step_of_ok hnotUp (run_reading hcall' hreleased hclean), rfl⟩
    · show (c.calls t).fetching = some b
      rw [hcalls, hcall]
      rfl
    · exact setCall_self _ t Call.idle
    · exact hset
    · show (false || (s.next c (transfers idewait s.cache)).transferred b && _) = false
      rw [hstale]
      rfl

end Runs

/--
As long as no read ends with an error, every `buf_read` returns a valid buffer with the
data of its block.  The first read that ends with one makes a buffer valid whose data
are not those of its block, and the task that waits for it returns from `buf_read`.
-/
theorem read_errors_seen_iff {storage : Nat -> UInt32 -> α} {data : Nat -> α} {s : Traced α}
    (h : Reaches tracedStep GoodEvent (tracedInit storage data) s) (e : Event α)
    (hlegal : LegalEvent s e) (s' : Traced α) (hstep : tracedStep s e = some s') :
    (forall b, Returns s s' b -> (s'.cache.bufs b).valid = true ∧ s'.transferred b = true) ∧
    (Genuine s' <-> Not (ReadFails s e)) ∧
    (ReadFails s e -> exists t b s'', (exists ha, tracedStep s' (Event.act (Action.run t) ha) =
      some s'') ∧ Returns s' s'' b ∧ (s''.cache.bufs b).valid = true ∧
        s''.transferred b = false) := by
  have hrecorded := reaches_recorded h
  by_cases hfails : ReadFails s e
  · cases e with
    | act a ha => exact hfails.elim
    | interrupt idewait =>
        have hfailed := hrecorded.failed hfails hstep
        refine ⟨?_, ⟨fun hgenuine => absurd hgenuine hfailed.left, fun hnot => absurd hfails hnot⟩,
          fun _ => hfailed.right⟩
        intro b hex
        rcases hex with ⟨t, hfetch, hidle⟩
        rcases handler_of_failed hrecorded.sound hfails with
          ⟨-, -, c, -, -, hrun, -, hcalls, -, -⟩
        unfold tracedStep at hstep
        dsimp only at hstep
        split at hstep
        · cases hstep
        · rw [hrun] at hstep
          cases hstep
          have hcall : c.calls t = Call.idle := hidle
          rw [hcalls] at hcall
          rw [hcall] at hfetch
          cases hfetch
  · have hgood : GoodEvent s e := ⟨hlegal, hfails⟩
    have hnext := hrecorded.step hgood hstep
    refine ⟨?_, ⟨fun _ => hfails, fun _ => hnext.genuine⟩, fun hread => absurd hread hfails⟩
    intro b hex
    rcases hex with ⟨t, hfetch, hidle⟩
    have hvalid : (s'.cache.bufs b).valid = true := by
      rcases step_of_good hgood hstep with ⟨a, hlegal', hcache⟩
      rcases step_moves hrecorded.sound.consistent.requests hlegal' hcache with hmove | hpanic
      · exact hmove.returns_valid hfetch hidle
      · rw [hpanic] at hidle
        have hcall : s.cache.calls t = Call.idle := hidle
        rw [hcall] at hfetch
        cases hfetch
    exact ⟨hvalid, hnext.genuine b hvalid⟩

/-!
# One task reads
-/

def goodTest (s : Traced α) : Event α -> Bool
  | Event.act a _ => legalTest s.cache a
  | Event.interrupt idewait => decide (idewait = 0)

theorem good_of_goodTest (s : Traced α) (e : Event α) (h : goodTest s e = true) :
    GoodEvent s e := by
  cases e with
  | act a ha => exact ⟨legal_of_legalTest s.cache a h, fun hfails => hfails⟩
  | interrupt idewait => exact ⟨trivial, fun hfails => hfails.left (of_decide_eq_true h)⟩

/-- Block `k` of every disk holds the number `k`. -/
def numbered : Traced Nat := tracedInit (fun _ k => k.toNat) (fun _ => 0)

def oneRead : List (Event Nat) :=
  [Event.act (Action.read 1 0 5) (fun h => by cases h),
    Event.act (Action.run 1) (fun h => by cases h), Event.act (Action.run 1) (fun h => by cases h)]

theorem oneRead_reaches :
    exists s, runFrom tracedStep numbered oneRead = some s ∧
      Reaches tracedStep GoodEvent numbered s :=
  reaches_of_runCheck good_of_goodTest
    (show runCheck tracedStep goodTest numbered oneRead = true by decide +kernel)
    (show (runFrom tracedStep numbered oneRead).isSome = true by decide +kernel)

theorem oneRead_queue {s : Traced Nat} (h : runFrom tracedStep numbered oneRead = some s) :
    s.cache.queue.head? = some 0 ∧ (s.cache.bufs 0).dirty = false ∧
      (forall idewait, idewait = 0 ∨ idewait = -1 ->
        exists s', tracedStep s (Event.interrupt idewait) = some s') := by
  have hqueue : (runFrom tracedStep numbered oneRead).map (fun s => s.cache.queue.head?) =
      some (some 0) := by decide +kernel
  have hdirty : (runFrom tracedStep numbered oneRead).map (fun s => (s.cache.bufs 0).dirty) =
      some false := by decide +kernel
  have hgood : (runFrom tracedStep numbered oneRead).map
      (fun s => (tracedStep s (Event.interrupt 0)).isSome) = some true := by decide +kernel
  have hbad : (runFrom tracedStep numbered oneRead).map
      (fun s => (tracedStep s (Event.interrupt (-1))).isSome) = some true := by decide +kernel
  rw [h] at hqueue hdirty hgood hbad
  refine ⟨Option.some.inj hqueue, Option.some.inj hdirty, ?_⟩
  intro idewait hor
  rcases hor with rfl | rfl
  · exact Option.isSome_iff_exists.mp (Option.some.inj hgood)
  · exact Option.isSome_iff_exists.mp (Option.some.inj hbad)

/-- The device fails, and `buf_read` returns what was in the buffer before. -/
theorem failed_read_returned :
    exists s s' s'' b, runFrom tracedStep numbered oneRead = some s ∧
      tracedStep s (Event.interrupt (-1)) = some s' ∧
      (exists e, tracedStep s' e = some s'') ∧ Returns s' s'' b ∧
      (s''.cache.bufs b).valid = true ∧ s''.transferred b = false := by
  rcases oneRead_reaches with ⟨s, hrun, hreach⟩
  rcases oneRead_queue hrun with ⟨hhead, hdirty, hevents⟩
  rcases hevents (-1) (Or.inr rfl) with ⟨s', hstep⟩
  have hrecorded := reaches_recorded hreach
  rcases hrecorded.failed ⟨by decide, 0, hhead, hdirty⟩ hstep with
    ⟨-, t, b, s'', ⟨hact, hreturn⟩, hreturns, hvalid, hstale⟩
  exact ⟨s, s', s'', b, hrun, hstep, ⟨_, hreturn⟩, hreturns, hvalid, hstale⟩

theorem read_errors_seen_iff_oneRead :
    exists s s', runFrom tracedStep numbered oneRead = some s ∧
      tracedStep s (Event.interrupt 0) = some s' ∧ Genuine s' := by
  rcases oneRead_reaches with ⟨s, hrun, hreach⟩
  rcases oneRead_queue hrun with ⟨-, -, hevents⟩
  rcases hevents 0 (Or.inl rfl) with ⟨s', hstep⟩
  have hseen := read_errors_seen_iff hreach (Event.interrupt 0) trivial s' hstep
  exact ⟨s, s', hrun, hstep, hseen.right.left.mpr (fun hfails => hfails.left rfl)⟩

end Disk
end Kernel
end NicoOS
