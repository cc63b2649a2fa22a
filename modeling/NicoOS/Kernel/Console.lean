import Mathlib.Tactic.Common

/-!
# Console input

`console_readline` and `console_read` of `kernel/device/console.c`.  No task is killed, so
`keyboard_read` gives a character or waits; what is typed is the list of those that it gives.
-/

namespace NicoOS
namespace Kernel
namespace Console

def newline : UInt8 := 0x0a

def backspace : UInt8 := 0x08

def bufSize : Nat := 1024

structure Inputbuf where
  buf : List UInt8
  p : Nat
  size : Nat
  deriving DecidableEq, Repr

/-- The buffer, the cursor of `console_readline`, and the places that it has written. -/
structure Editor where
  buf : List UInt8
  cursor : Nat
  stores : List Nat
  deriving DecidableEq, Repr

namespace Editor

/-- A byte at the cursor.  Behind the buffer lies `inputbuf.p`, which is set before it is read. -/
def store (e : Editor) (ch : UInt8) : Editor :=
  { e with buf := e.buf.set e.cursor ch, stores := e.stores ++ [e.cursor] }

def put (e : Editor) (ch : UInt8) : Editor := { e.store ch with cursor := e.cursor + 1 }

/-- A character from the keyboard, with the answer whether it ends the loop. -/
def key (e : Editor) (ch : UInt8) : Bool × Editor :=
  if bufSize ≤ e.cursor then (true, e)
  else if ch = newline ∨ ch = 0 then (true, e.put ch)
  else if ch = backspace then
    (false, if e.cursor ≠ 0 then { e.store 0 with cursor := e.cursor - 1 } else e)
  else (false, e.put ch)

/-- The loop, with what is left of the typed characters; `none` if it waits for more. -/
def readline : Editor -> List UInt8 -> Editor × Option (List UInt8)
  | e, [] => (e, none)
  | e, ch :: rest =>
      if (e.key ch).1 then ((e.key ch).2, some rest) else readline (e.key ch).2 rest

end Editor

/-- The console: what is still typed, and all places that were written. -/
structure State where
  inputbuf : Inputbuf
  typed : List UInt8
  stores : List Nat
  deriving DecidableEq, Repr

def consoleInit (typed : List UInt8) : State := ⟨⟨List.replicate bufSize 0, 0, 0⟩, typed, []⟩

/-- `console_readline`, which answers `false` if it waits for characters. -/
def consoleReadline (c : State) : Bool × State :=
  match Editor.readline ⟨c.inputbuf.buf, 0, c.stores⟩ c.typed with
  | (e, none) =>
      (false, { c with inputbuf.buf := e.buf, typed := [], stores := e.stores })
  | (e, some rest) =>
      let e' := e.store 0
      (true, { inputbuf := ⟨e'.buf, 0, e'.cursor⟩, typed := rest, stores := e'.stores })

def serve (nbytes : Int) (c : State) : List UInt8 × State :=
  let size := if (c.inputbuf.size : Int) > nbytes then nbytes.toNat else c.inputbuf.size
  ((c.inputbuf.buf.drop c.inputbuf.p).take size,
    { c with inputbuf.p := c.inputbuf.p + size, inputbuf.size := c.inputbuf.size - size })

/-- `console_read`; `none` for a call that waits. -/
def consoleRead (nbytes : Int) (c : State) : Option (List UInt8) × State :=
  if nbytes ≤ 0 then (some [], c)
  else
    let (ready, c) := if c.inputbuf.size = 0 then consoleReadline c else (true, c)
    if ready then
      let (bytes, c) := serve nbytes c
      (some bytes, c)
    else (none, c)

/-- Calls with these sizes, up to one that waits, with the bytes that each returns. -/
def run : List Int -> State -> List (List UInt8) × State
  | [], c => ([], c)
  | nbytes :: rest, c =>
      match consoleRead nbytes c with
      | (none, c) => ([], c)
      | (some bytes, c) =>
          let (returned, c) := run rest c
          (bytes :: returned, c)

/-- The bytes of the line that are not returned yet. -/
def State.pending (c : State) : List UInt8 :=
  (c.inputbuf.buf.drop c.inputbuf.p).take c.inputbuf.size

/-!
# Edited lines

What the console is for: the typed characters come as lines, and every line is served in
pieces.
-/

def Ends (ch : UInt8) : Prop := ch = newline ∨ ch = 0

instance (ch : UInt8) : Decidable (Ends ch) := inferInstanceAs (Decidable (_ ∨ _))

/-- A character that ends no line, behind the line so far. -/
def edit (line : List UInt8) (ch : UInt8) : List UInt8 :=
  if ch = backspace then line.dropLast else line ++ [ch]

def nextLine : List UInt8 -> List UInt8 -> Option (List UInt8 × List UInt8)
  | _, [] => none
  | line, ch :: rest =>
      if Ends ch then some (line ++ [ch], rest) else nextLine (edit line ch) rest

def edited : List UInt8 -> List UInt8 -> List (List UInt8)
  | _, [] => []
  | line, ch :: rest =>
      if Ends ch then (line ++ [ch]) :: edited [] rest else edited (edit line ch) rest

/-- The line that is typed next, with a place for a `NUL`, stays in the buffer. -/
def LineFits : List UInt8 -> List UInt8 -> Prop
  | _, [] => True
  | line, ch :: rest =>
      if Ends ch then line.length + 1 < bufSize
      else line.length < bufSize ∧ LineFits (edit line ch) rest

/-- What a reader sees: the rest of a line, and the characters behind it. -/
structure Session where
  pending : List UInt8
  typed : List UInt8
  deriving DecidableEq, Repr

namespace Session

def read (nbytes : Int) (s : Session) : Option (List UInt8 × Session) :=
  if nbytes ≤ 0 then some ([], s)
  else if s.pending ≠ [] then
    some (s.pending.take nbytes.toNat, { s with pending := s.pending.drop nbytes.toNat })
  else
    match nextLine [] s.typed with
    | none => none
    | some (line, rest) => some (line.take nbytes.toNat, ⟨line.drop nbytes.toNat, rest⟩)

/-- Every line that these calls begin fits in the buffer. -/
def Fits : List Int -> Session -> Prop
  | [], _ => True
  | nbytes :: rest, s =>
      (0 < nbytes -> s.pending = [] -> LineFits [] s.typed) ∧
        forall bytes t, s.read nbytes = some (bytes, t) -> Fits rest t

def bytes (s : Session) : List UInt8 := s.pending ++ (edited [] s.typed).flatten

end Session

section Lines

variable {line typed : List UInt8}

theorem edited_of_next (typed : List UInt8) : forall line, edited line typed =
    match nextLine line typed with
    | none => []
    | some (full, rest) => full :: edited [] rest := by
  induction typed with
  | nil => exact fun _ => rfl
  | cons ch rest ih =>
      intro line
      rw [edited, nextLine]
      split
      · rfl
      · exact ih (edit line ch)

/-- A call returns the first of the bytes that are there, and all if it waits. -/
theorem Session.read_bytes (nbytes : Int) (s : Session) :
    match s.read nbytes with
    | none => s.bytes = []
    | some (returned, t) => s.bytes = returned ++ t.bytes := by
  unfold read
  by_cases hzero : nbytes ≤ 0
  · rw [if_pos hzero]
    rfl
  · rw [if_neg hzero]
    by_cases hpending : s.pending = []
    · rw [if_neg (fun hne => hne hpending)]
      have hbytes : s.bytes = (edited [] s.typed).flatten := by
        rw [bytes, hpending]
        rfl
      rw [hbytes, edited_of_next]
      cases nextLine [] s.typed with
      | none => rfl
      | some next =>
          simp only [List.flatten_cons, bytes]
          rw [<- List.append_assoc, List.take_append_drop]
    · rw [if_pos hpending]
      simp only [bytes]
      rw [<- List.append_assoc, List.take_append_drop]

end Lines

/-!
# The line in the buffer
-/

def Inside (stores : List Nat) : Prop := forall i, i ∈ stores -> i < bufSize

namespace Editor

/-- The line so far is before the cursor. -/
structure Holds (e : Editor) (line : List UInt8) : Prop where
  length : e.buf.length = bufSize
  cursor : e.cursor = line.length
  line : e.buf.take e.cursor = line

section Keys

variable {e : Editor} {line typed : List UInt8} {ch : UInt8}

theorem inside_store (ch : UInt8) (h : Inside e.stores) (hroom : e.cursor < bufSize) :
    Inside (e.store ch).stores := by
  intro i hi
  rcases List.mem_append.mp hi with hold | hnew
  · exact h i hold
  · rw [List.mem_singleton.mp hnew]
    exact hroom

theorem Holds.put (h : Holds e line) (ch : UInt8) (hroom : e.cursor < bufSize) :
    Holds (e.put ch) (line ++ [ch]) where
  length := (List.length_set).trans h.length
  cursor := by simp [Editor.put, h.cursor]
  line := by
    have hlt : e.cursor < (e.buf.set e.cursor ch).length := by
      rw [List.length_set, h.length]
      exact hroom
    show (e.buf.set e.cursor ch).take (e.cursor + 1) = line ++ [ch]
    rw [<- List.take_append_getElem hlt, List.getElem_set_self,
      List.take_set_of_le (Nat.le_refl _), h.line]

theorem Holds.erase (h : Holds e line) (hroom : e.cursor < bufSize) :
    Holds { e.store 0 with cursor := e.cursor - 1 } line.dropLast where
  length := (List.length_set).trans h.length
  cursor := by simp [h.cursor]
  line := by
    show (e.buf.set e.cursor 0).take (e.cursor - 1) = line.dropLast
    have hle : e.cursor ≤ e.buf.length := by
      rw [h.length]
      exact Nat.le_of_lt hroom
    rw [List.take_set_of_le (Nat.sub_le _ _), <- h.line, List.dropLast_eq_take, List.take_take,
      List.length_take]
    congr 1
    lia

theorem key_ends (hroom : e.cursor < bufSize) (hends : Ends ch) :
    e.key ch = (true, e.put ch) := by
  unfold key
  rw [if_neg (Nat.not_le_of_lt hroom)]
  exact if_pos hends

theorem key_edits (h : Holds e line) (hstores : Inside e.stores) (hroom : e.cursor < bufSize)
    (hends : Not (Ends ch)) :
    exists e', e.key ch = (false, e') ∧ Holds e' (edit line ch) ∧ Inside e'.stores := by
  have hplain : Not (ch = newline ∨ ch = 0) := hends
  unfold key edit
  rw [if_neg (Nat.not_le_of_lt hroom), if_neg hplain]
  by_cases hback : ch = backspace
  · rw [if_pos hback, if_pos hback]
    by_cases hzero : e.cursor = 0
    · have hline : line = [] := List.length_eq_zero_iff.mp (h.cursor.symm.trans hzero)
      rw [if_neg (fun hne => hne hzero)]
      rw [hline] at h ⊢
      exact ⟨e, rfl, h, hstores⟩
    · rw [if_pos hzero]
      exact ⟨_, rfl, h.erase hroom, inside_store 0 hstores hroom⟩
  · rw [if_neg hback, if_neg hback]
    exact ⟨_, rfl, h.put ch hroom, inside_store ch hstores hroom⟩

theorem length_edit (line : List UInt8) (ch : UInt8) : (edit line ch).length ≤ line.length + 1 := by
  unfold edit
  split
  · rw [List.length_dropLast]
    lia
  · exact Nat.le_of_eq List.length_append

theorem readline_again {e' : Editor} {rest : List UInt8} (h : e.key ch = (false, e')) :
    e.readline (ch :: rest) = e'.readline rest := by
  simp [readline, h]

theorem readline_done {e' : Editor} {rest : List UInt8} (h : e.key ch = (true, e')) :
    e.readline (ch :: rest) = (e', some rest) := by
  simp [readline, h]

def Reads (e : Editor) (line typed : List UInt8) : Prop :=
  match nextLine line typed with
  | none => exists e', e.readline typed = (e', none) ∧ e'.buf.length = bufSize ∧ Inside e'.stores
  | some (full, rest) => exists e', e.readline typed = (e', some rest) ∧ Holds e' full ∧
      full.length < bufSize ∧ Inside e'.stores

theorem readline_fits (typed : List UInt8) : forall (e : Editor) (line : List UInt8),
    Holds e line -> Inside e.stores -> LineFits line typed -> Reads e line typed := by
  induction typed with
  | nil => exact fun e line h hstores _ => ⟨e, rfl, h.length, hstores⟩
  | cons ch rest ih =>
      intro e line h hstores hfits
      rw [LineFits] at hfits
      rw [Reads, nextLine]
      by_cases hends : Ends ch
      · rw [if_pos hends] at hfits
        rw [if_pos hends]
        have hroom : e.cursor < bufSize := by
          rw [h.cursor]
          lia
        refine ⟨e.put ch, readline_done (key_ends hroom hends), h.put ch hroom, ?_,
          inside_store ch hstores hroom⟩
        rw [List.length_append]
        exact hfits
      · rw [if_neg hends] at hfits
        rw [if_neg hends]
        rcases hfits with ⟨hlen, hfits⟩
        rw [<- h.cursor] at hlen
        rcases key_edits h hstores hlen hends with ⟨e', hkey, hline, hinside⟩
        rw [readline_again hkey]
        exact ih e' _ hline hinside hfits

/-- A line that does not fit moves the cursor behind the buffer. -/
theorem readline_overruns (typed : List UInt8) : forall (e : Editor) (line : List UInt8),
    Holds e line -> Inside e.stores -> line.length ≤ bufSize -> Not (LineFits line typed) ->
    exists e' rest, e.readline typed = (e', some rest) ∧ e'.cursor = bufSize := by
  induction typed with
  | nil => exact fun _ _ _ _ _ hover => absurd trivial hover
  | cons ch rest ih =>
      intro e line h hstores hlen hover
      rw [<- h.cursor] at hlen
      by_cases hroom : e.cursor < bufSize
      · by_cases hends : Ends ch
        · refine ⟨e.put ch, rest, readline_done (key_ends hroom hends), ?_⟩
          rw [LineFits, if_pos hends, <- h.cursor] at hover
          show e.cursor + 1 = bufSize
          lia
        · rcases key_edits h hstores hroom hends with ⟨e', hkey, hline, hinside⟩
          rw [LineFits, if_neg hends, <- h.cursor] at hover
          rw [readline_again hkey]
          apply ih e' _ hline hinside
          · have hedit := length_edit line ch
            rw [<- h.cursor] at hedit
            lia
          · exact fun hfits => hover ⟨hroom, hfits⟩
      · have hfull : bufSize ≤ e.cursor := Nat.le_of_not_lt hroom
        have hkey : e.key ch = (true, e) := if_pos hfull
        exact ⟨e, rest, readline_done hkey, Nat.le_antisymm hlen hfull⟩

end Keys

end Editor

/-!
# Calls
-/

/-- The console serves what the reader of the session sees. -/
structure Agrees (c : State) (s : Session) : Prop where
  typed : c.typed = s.typed
  pending : c.pending = s.pending
  length : c.inputbuf.buf.length = bufSize
  room : c.inputbuf.p + c.inputbuf.size ≤ bufSize

section Calls

variable {c : State} {s : Session} {nbytes : Int}

theorem Agrees.length_pending (h : Agrees c s) : s.pending.length = c.inputbuf.size := by
  have hroom := h.room
  rw [<- h.pending, State.pending, List.length_take, List.length_drop, h.length]
  lia

theorem Agrees.size_eq_zero (h : Agrees c s) : c.inputbuf.size = 0 <-> s.pending = [] := by
  rw [<- h.length_pending, List.length_eq_zero_iff]

theorem serve_agrees (h : Agrees c s) (hpos : Not (nbytes ≤ 0)) :
    exists c', serve nbytes c = (s.pending.take nbytes.toNat, c') ∧ c'.stores = c.stores ∧
      Agrees c' { s with pending := s.pending.drop nbytes.toNat } := by
  have hlen := h.length_pending
  have hroom := h.room
  have hbuf := h.length
  unfold serve
  by_cases hlarge : (c.inputbuf.size : Int) > nbytes
  · rw [if_pos hlarge]
    refine ⟨_, Prod.ext ?_ rfl, rfl, h.typed, ?_, hbuf, ?_⟩
    · dsimp only
      rw [<- h.pending, State.pending, List.take_take]
      congr 1
      lia
    · dsimp only [State.pending]
      rw [<- h.pending, State.pending, List.drop_take, List.drop_drop]
    · dsimp only
      lia
  · rw [if_neg hlarge]
    have hall : s.pending.take nbytes.toNat = s.pending := List.take_of_length_le (by lia)
    have hnone : s.pending.drop nbytes.toNat = [] := List.drop_eq_nil_of_le (by lia)
    rw [hall, hnone]
    refine ⟨_, Prod.ext h.pending rfl, rfl, h.typed, ?_, hbuf, ?_⟩
    · dsimp only [State.pending]
      rw [Nat.sub_self, List.take_zero]
    · dsimp only
      lia

/-- What `console_readline` comes to on a line that fits. -/
def Begins (c : State) (typed : List UInt8) : Prop :=
  match nextLine [] typed with
  | none => exists c', consoleReadline c = (false, c') ∧ Agrees c' ⟨[], []⟩ ∧ Inside c'.stores
  | some (full, rest) =>
      exists c', consoleReadline c = (true, c') ∧ Agrees c' ⟨full, rest⟩ ∧ Inside c'.stores

theorem holds_nil (h : Agrees c s) : Editor.Holds ⟨c.inputbuf.buf, 0, c.stores⟩ [] :=
  ⟨h.length, rfl, rfl⟩

theorem consoleReadline_begins (h : Agrees c s) (hstores : Inside c.stores)
    (hempty : s.pending = []) (hfits : LineFits [] s.typed) : Begins c s.typed := by
  have hreads := Editor.readline_fits s.typed _ [] (holds_nil h) hstores hfits
  have hsize := h.size_eq_zero.mpr hempty
  unfold Editor.Reads at hreads
  unfold Begins consoleReadline
  rw [h.typed]
  cases hnext : nextLine [] s.typed with
  | none =>
      rw [hnext] at hreads
      rcases hreads with ⟨e, hread, hlen, hinside⟩
      rw [hread]
      refine ⟨_, rfl, ⟨rfl, ?_, hlen, ?_⟩, hinside⟩
      · dsimp only [State.pending]
        rw [hsize, List.take_zero]
      · have hroom := h.room
        exact hroom
  | some next =>
      rcases next with ⟨full, rest⟩
      rw [hnext] at hreads
      rcases hreads with ⟨e, hread, hholds, hlen, hinside⟩
      rw [<- hholds.cursor] at hlen
      rw [hread]
      refine ⟨_, rfl, ⟨rfl, ?_, ?_, ?_⟩, Editor.inside_store 0 hinside hlen⟩
      · show ((e.buf.set e.cursor 0).drop 0).take e.cursor = full
        rw [List.drop_zero, List.take_set_of_le (Nat.le_refl _)]
        exact hholds.line
      · exact (List.length_set).trans hholds.length
      · show 0 + e.cursor ≤ bufSize
        lia

/-- The `NUL` of a line that does not fit is stored behind the buffer. -/
theorem consoleReadline_overruns (h : Agrees c s) (hstores : Inside c.stores)
    (hover : Not (LineFits [] s.typed)) :
    exists c', consoleReadline c = (true, c') ∧ bufSize ∈ c'.stores := by
  rcases Editor.readline_overruns s.typed _ [] (holds_nil h) hstores (Nat.zero_le _) hover
    with ⟨e, rest, hread, hcursor⟩
  unfold consoleReadline
  rw [h.typed, hread]
  refine ⟨_, rfl, ?_⟩
  show bufSize ∈ e.stores ++ [e.cursor]
  rw [hcursor]
  exact List.mem_append_right _ (List.mem_singleton.mpr rfl)

/-- What a call comes to that begins no line too long. -/
def Answers (nbytes : Int) (c : State) (s : Session) : Prop :=
  match s.read nbytes with
  | none => exists c', consoleRead nbytes c = (none, c') ∧ Agrees c' ⟨[], []⟩ ∧ Inside c'.stores
  | some (returned, t) =>
      exists c', consoleRead nbytes c = (some returned, c') ∧ Agrees c' t ∧ Inside c'.stores

theorem consoleRead_answers (h : Agrees c s) (hstores : Inside c.stores)
    (hfits : 0 < nbytes -> s.pending = [] -> LineFits [] s.typed) : Answers nbytes c s := by
  unfold Answers Session.read consoleRead
  by_cases hzero : nbytes ≤ 0
  · rw [if_pos hzero, if_pos hzero]
    exact ⟨c, rfl, h, hstores⟩
  · rw [if_neg hzero, if_neg hzero]
    by_cases hempty : s.pending = []
    · rw [if_neg (fun hne => hne hempty), if_pos (h.size_eq_zero.mpr hempty)]
      have hbegins := consoleReadline_begins h hstores hempty (hfits (Int.not_le.mp hzero) hempty)
      unfold Begins at hbegins
      cases hnext : nextLine [] s.typed with
      | none =>
          rw [hnext] at hbegins
          rcases hbegins with ⟨c1, hread, hagrees, hinside⟩
          rw [hread]
          exact ⟨c1, rfl, hagrees, hinside⟩
      | some next =>
          rw [hnext] at hbegins
          rcases hbegins with ⟨c1, hread, hagrees, hinside⟩
          rcases serve_agrees hagrees hzero with ⟨c2, hserve, hsame, hagrees2⟩
          dsimp only
          rw [hread]
          dsimp only
          rw [if_pos rfl, hserve]
          refine ⟨c2, rfl, hagrees2, ?_⟩
          rw [hsame]
          exact hinside
    · rcases serve_agrees h hzero with ⟨c2, hserve, hsame, hagrees2⟩
      rw [if_pos hempty, if_neg (fun hsize => hempty (h.size_eq_zero.mp hsize))]
      dsimp only
      rw [if_pos rfl, hserve]
      refine ⟨c2, rfl, hagrees2, ?_⟩
      rw [hsame]
      exact hstores

theorem consoleRead_overruns (h : Agrees c s) (hstores : Inside c.stores) (hpos : 0 < nbytes)
    (hempty : s.pending = []) (hover : Not (LineFits [] s.typed)) :
    bufSize ∈ (consoleRead nbytes c).2.stores := by
  rcases consoleReadline_overruns h hstores hover with ⟨c1, hread, hmem⟩
  unfold consoleRead
  rw [if_neg (Int.not_le.mpr hpos), if_pos (h.size_eq_zero.mpr hempty), hread]
  exact hmem

end Calls

/-!
# Runs
-/

section Runs

variable {c : State} {s : Session} {sizes : List Int}

theorem mem_stores_readline (typed : List UInt8) : forall (e : Editor) (i : Nat), i ∈ e.stores ->
    i ∈ (e.readline typed).1.stores := by
  induction typed with
  | nil => exact fun _ _ hi => hi
  | cons ch rest ih =>
      intro e i hi
      have hkey : i ∈ (e.key ch).2.stores := by
        unfold Editor.key
        split
        · exact hi
        · split
          · exact List.mem_append_left _ hi
          · split
            · dsimp only
              split
              · exact List.mem_append_left _ hi
              · exact hi
            · exact List.mem_append_left _ hi
      rw [Editor.readline]
      split
      · exact hkey
      · exact ih _ i hkey

theorem mem_stores_consoleRead (nbytes : Int) {i : Nat} (hi : i ∈ c.stores) :
    i ∈ (consoleRead nbytes c).2.stores := by
  have hline : i ∈ (consoleReadline c).2.stores := by
    have hread := mem_stores_readline c.typed ⟨c.inputbuf.buf, 0, c.stores⟩ i hi
    unfold consoleReadline
    rcases h : Editor.readline ⟨c.inputbuf.buf, 0, c.stores⟩ c.typed with ⟨e, - | rest⟩
    · rw [h] at hread
      exact hread
    · rw [h] at hread
      exact List.mem_append_left _ hread
  unfold consoleRead
  by_cases hzero : nbytes ≤ 0
  · rw [if_pos hzero]
    exact hi
  · rw [if_neg hzero]
    by_cases hsize : c.inputbuf.size = 0
    · rw [if_pos hsize]
      rcases h : consoleReadline c with ⟨ready, c1⟩
      rw [h] at hline
      cases ready with
      | false => exact hline
      | true => exact hline
    · rw [if_neg hsize]
      exact hi

theorem mem_stores_run (sizes : List Int) : forall (c : State) (i : Nat), i ∈ c.stores ->
    i ∈ (run sizes c).2.stores := by
  induction sizes with
  | nil => exact fun _ _ hi => hi
  | cons nbytes rest ih =>
      intro c i hi
      have hread := mem_stores_consoleRead nbytes hi
      rw [run]
      rcases h : consoleRead nbytes c with ⟨- | bytes, c1⟩
      · rw [h] at hread
        exact hread
      · rw [h] at hread
        exact ih c1 i hread

/--
What was stored is in the buffer, and the bytes that the calls returned, with those that are
still there for later calls, are the bytes of the edited lines.
-/
structure Serves (sizes : List Int) (c : State) (bytes : List UInt8) : Prop where
  inside : Inside (run sizes c).2.stores
  served : (run sizes c).1.flatten ++ (run sizes c).2.pending ++
    (edited [] (run sizes c).2.typed).flatten = bytes

theorem run_serves (sizes : List Int) : forall (c : State) (s : Session), Agrees c s ->
    Inside c.stores -> s.Fits sizes -> Serves sizes c s.bytes := by
  induction sizes with
  | nil =>
      intro c s h hstores _
      refine ⟨hstores, ?_⟩
      show [] ++ c.pending ++ (edited [] c.typed).flatten = s.bytes
      rw [h.pending, h.typed]
      rfl
  | cons nbytes rest ih =>
      intro c s h hstores hfits
      rcases hfits with ⟨hline, hrest⟩
      have hanswers := consoleRead_answers h hstores hline
      have hbytes := Session.read_bytes nbytes s
      unfold Answers at hanswers
      cases hread : s.read nbytes with
      | none =>
          rw [hread] at hanswers hbytes
          rcases hanswers with ⟨c1, hcall, hagrees, hinside⟩
          have hrun : run (nbytes :: rest) c = ([], c1) := by rw [run, hcall]
          refine ⟨?_, ?_⟩
          · rw [hrun]
            exact hinside
          · rw [hrun, hagrees.pending, hagrees.typed]
            exact hbytes.symm
      | some answer =>
          rcases answer with ⟨returned, t⟩
          rw [hread] at hanswers hbytes
          rcases hanswers with ⟨c1, hcall, hagrees, hinside⟩
          rcases ih c1 t hagrees hinside (hrest returned t hread) with ⟨hlater, hserved⟩
          have hrun : run (nbytes :: rest) c = (returned :: (run rest c1).1, (run rest c1).2) := by
            rw [run, hcall]
          refine ⟨?_, ?_⟩
          · rw [hrun]
            exact hlater
          · rw [hrun, hbytes, <- hserved]
            simp

/-- A run in which a line does not fit writes behind the buffer. -/
theorem run_overruns (sizes : List Int) : forall (c : State) (s : Session), Agrees c s ->
    Inside c.stores -> Not (s.Fits sizes) -> bufSize ∈ (run sizes c).2.stores := by
  induction sizes with
  | nil => exact fun _ _ _ _ hover => absurd trivial hover
  | cons nbytes rest ih =>
      intro c s h hstores hover
      by_cases hline : 0 < nbytes -> s.pending = [] -> LineFits [] s.typed
      · have hanswers := consoleRead_answers h hstores hline
        unfold Answers at hanswers
        cases hread : s.read nbytes with
        | none => exact absurd ⟨hline, fun bytes t hsome => nomatch hread.symm.trans hsome⟩ hover
        | some answer =>
            rcases answer with ⟨returned, t⟩
            rw [hread] at hanswers
            rcases hanswers with ⟨c1, hcall, hagrees, hinside⟩
            have hrest : Not (t.Fits rest) := by
              intro hfits
              apply hover
              refine ⟨hline, ?_⟩
              intro bytes u hsome
              cases hread.symm.trans hsome
              exact hfits
            rw [run, hcall]
            exact ih c1 t hagrees hinside hrest
      · have hcall : bufSize ∈ (consoleRead nbytes c).2.stores := by
          by_contra hin
          apply hline
          intro hpos hempty
          by_contra hlong
          exact hin (consoleRead_overruns h hstores hpos hempty hlong)
        rw [run]
        rcases hread : consoleRead nbytes c with ⟨- | bytes, c1⟩
        · rw [hread] at hcall
          exact hcall
        · rw [hread] at hcall
          exact mem_stores_run rest c1 bufSize hcall

theorem agrees_init (typed : List UInt8) : Agrees (consoleInit typed) ⟨[], typed⟩ where
  typed := rfl
  pending := rfl
  length := List.length_replicate
  room := Nat.zero_le _

/--
In every run of calls the console stores inside its buffer and serves the edited lines, if and
only if every line that a call begins stays, with a place for the `NUL`, in the buffer.
-/
theorem consoleRead_serves_iff (sizes : List Int) (typed : List UInt8) :
    Serves sizes (consoleInit typed) (edited [] typed).flatten <->
      (Session.mk [] typed).Fits sizes := by
  have hinit : Inside (consoleInit typed).stores := fun i hi => nomatch hi
  constructor
  · intro hserves
    by_contra hover
    have hmem := run_overruns sizes _ _ (agrees_init typed) hinit hover
    exact Nat.lt_irrefl bufSize (hserves.inside bufSize hmem)
  · exact run_serves sizes _ _ (agrees_init typed) hinit

/-- A line that fills the buffer, and no character behind it. -/
theorem lineFits_letters (n : Nat) : forall line : List UInt8, line.length + n + 1 = bufSize ->
    Not (LineFits line (List.replicate n 0x61 ++ [newline])) := by
  induction n with
  | zero =>
      intro line hlen hfits
      have hroom : line.length + 1 < bufSize := hfits
      lia
  | succ n ih =>
      intro line hlen hfits
      rw [List.replicate_succ, List.cons_append, LineFits,
        if_neg (show Not (Ends 0x61) by decide)] at hfits
      apply ih (edit line 0x61) _ hfits.right
      rw [edit, if_neg (by decide), List.length_append, List.length_singleton]
      lia

/-- The `NUL` of a line of 1023 letters and a newline is stored behind the buffer. -/
theorem consoleRead_overrun :
    bufSize ∈ (run [1] (consoleInit (List.replicate 1023 0x61 ++ [newline]))).2.stores ∧
      Not (Serves [1] (consoleInit (List.replicate 1023 0x61 ++ [newline]))
        (edited [] (List.replicate 1023 0x61 ++ [newline])).flatten) := by
  have hmem : bufSize ∈
      (run [1] (consoleInit (List.replicate 1023 0x61 ++ [newline]))).2.stores := by
    apply run_overruns [1] _ _ (agrees_init _)
    · exact fun i hi => nomatch hi
    · intro hfits
      exact lineFits_letters 1023 [] rfl (hfits.left Int.one_pos rfl)
  exact ⟨hmem, fun hserves => Nat.lt_irrefl bufSize (hserves.inside bufSize hmem)⟩

end Runs

end Console
end Kernel
end NicoOS
