import NicoOS.Shell.Parser

/-!
# The grammar of the shell

The grammar in the comments of `shell/sh/sh_parser.c`, with the tree of each derivation, and
the readings of the parser: the token lists that it takes as a whole, with what it makes of
them.
-/

namespace NicoOS
namespace Shell

inductive NonTerminal where
  | cmd
  | list
  | binary
  | redir
  | primary
  deriving DecidableEq, Repr

open NonTerminal

/-- The tokens of a chain of redirections. -/
def redirTokens : List (Token × Text) -> List Token
  | [] => []
  | (optok, text) :: rest => optok :: Token.string text :: redirTokens rest

def redirAll (cmd : Cmd) : List (Token × Text) -> Cmd
  | [] => cmd
  | (optok, text) :: rest => redirAll (redirTo cmd optok text) rest

/-!
# Derivations
-/

/--
The documented grammar with its trees; an empty `Cmd` has none.  A strict derivation has a
command inside every pair of parentheses and fewer than `MAX_ARGV` strings in every `Execcmd`.
-/
inductive Derives (strict : Bool) : NonTerminal -> List Token -> Option Cmd -> Prop where
  | exec (texts : List Text) :
      texts ≠ [] -> (strict = true -> texts.length < maxArgv) ->
      Derives strict primary (texts.map Token.string) (some (Cmd.exec (texts.map copyPeekString)))
  | group {ts : List Token} {tree : Option Cmd} :
      Derives strict cmd ts tree -> (strict = true -> tree ≠ none) ->
      Derives strict primary (Token.lparen :: ts ++ [Token.rparen]) tree
  | redir {ts : List Token} {tree : Option Cmd} (rs : List (Token × Text)) :
      Derives strict primary ts tree -> (forall r, r ∈ rs -> r.1.isRedir = true) ->
      Derives strict redir (ts ++ redirTokens rs) (tree.map (fun c => redirAll c rs))
  | single {ts : List Token} {tree : Option Cmd} :
      Derives strict redir ts tree -> Derives strict binary ts tree
  | join {ts us : List Token} {left right : Option Cmd} {operator : Token} :
      Derives strict redir ts left -> operator.isBinary = true ->
      Derives strict binary us right ->
      Derives strict binary (ts ++ operator :: us)
        (left.bind (fun c => right.map (fun d => joined operator c d)))
  | last {ts : List Token} {tree : Option Cmd} :
      Derives strict binary ts tree -> Derives strict list ts tree
  | next {ts us : List Token} {left right : Option Cmd} {operator : Token} :
      Derives strict binary ts left -> operator.isList = true -> Derives strict cmd us right ->
      Derives strict list (ts ++ operator :: us) (left.map (fun c => listed operator c right))
  | empty : Derives strict cmd [] none
  | full {ts : List Token} {tree : Option Cmd} :
      Derives strict list ts tree -> Derives strict cmd ts tree

/-!
# Readings
-/

/--
What the parser takes as a whole, the command that it makes of it, and whether it reports.
The first flag says that the end of the input follows, and not another token.  A command is
lost where a group is left open, a command or a path is missing, or a group is empty.
-/
inductive Reads : NonTerminal -> Bool -> List Token -> Option Cmd -> Bool -> Prop where
  | exec {ends : Bool} (texts : List Text) :
      texts ≠ [] -> texts.length < maxArgv ->
      Reads primary ends (texts.map Token.string) (some (Cmd.exec (texts.map copyPeekString))) false
  | group {ends : Bool} {ts : List Token} {value : Option Cmd} {noisy : Bool} :
      Reads cmd false ts value noisy ->
      Reads primary ends (Token.lparen :: ts ++ [Token.rparen]) value noisy
  | leftOpen {ts : List Token} {value : Option Cmd} {noisy : Bool} :
      Reads cmd true ts value noisy -> Reads primary true (Token.lparen :: ts) none true
  | missing {ends : Bool} : Reads primary ends [] none true
  | bare {ends : Bool} {ts : List Token} {value : Option Cmd} {noisy : Bool} :
      Reads primary ends ts value noisy -> Reads redir ends ts value noisy
  | redir {ends : Bool} {ts : List Token} {c : Cmd} {noisy : Bool} (rs : List (Token × Text)) :
      Reads primary false ts (some c) noisy -> rs ≠ [] ->
      (forall r, r ∈ rs -> r.1.isRedir = true) ->
      Reads redir ends (ts ++ redirTokens rs) (some (redirAll c rs)) noisy
  | noPath {ends : Bool} {ts : List Token} {c : Cmd} {noisy : Bool} (rs : List (Token × Text))
      (optok : Token) :
      Reads primary false ts (some c) noisy -> (forall r, r ∈ rs -> r.1.isRedir = true) ->
      optok.isRedir = true ->
      Reads redir ends (ts ++ (redirTokens rs ++ [optok])) none true
  | single {ends : Bool} {ts : List Token} {value : Option Cmd} {noisy : Bool} :
      Reads redir ends ts value noisy -> Reads binary ends ts value noisy
  | join {ends : Bool} {ts us : List Token} {c : Cmd} {value : Option Cmd} {noisy noisy' : Bool}
      {operator : Token} :
      Reads redir false ts (some c) noisy -> operator.isBinary = true ->
      Reads binary ends us value noisy' ->
      Reads binary ends (ts ++ operator :: us) (value.map (fun d => joined operator c d))
        (noisy || noisy')
  | last {ends : Bool} {ts : List Token} {value : Option Cmd} {noisy : Bool} :
      Reads binary ends ts value noisy -> Reads list ends ts value noisy
  | next {ends : Bool} {ts us : List Token} {c : Cmd} {value : Option Cmd} {noisy noisy' : Bool}
      {operator : Token} :
      Reads binary false ts (some c) noisy -> operator.isList = true ->
      Reads cmd ends us value noisy' ->
      Reads list ends (ts ++ operator :: us) (some (listed operator c value)) (noisy || noisy')
  | empty {ends : Bool} : Reads cmd ends [] none false
  | full {ends : Bool} {ts : List Token} {value : Option Cmd} {noisy : Bool} :
      ts ≠ [] -> Reads list ends ts value noisy -> Reads cmd ends ts value noisy

/-- A strict derivation of anything but `Cmd` has a tree. -/
theorem Derives.valued {nt : NonTerminal} {ts : List Token} {tree : Option Cmd}
    (h : Derives true nt ts tree) : nt ≠ cmd -> exists c, tree = some c := by
  induction h with
  | exec texts => exact fun _ => ⟨_, rfl⟩
  | group _ htree _ => exact fun _ => Option.ne_none_iff_exists'.mp (htree rfl)
  | redir rs _ _ ih =>
      intro _
      rcases ih (by decide) with ⟨c, hc⟩
      exact ⟨_, by rw [hc]; rfl⟩
  | single _ ih => exact fun _ => ih (by decide)
  | join _ _ _ ihl ihr =>
      intro _
      rcases ihl (by decide) with ⟨c, hc⟩
      rcases ihr (by decide) with ⟨d, hd⟩
      exact ⟨_, by rw [hc, hd]; rfl⟩
  | last _ ih => exact fun _ => ih (by decide)
  | next _ _ _ ihl _ =>
      intro _
      rcases ihl (by decide) with ⟨c, hc⟩
      exact ⟨_, by rw [hc]; rfl⟩
  | empty => exact fun hne => absurd rfl hne
  | full _ ih => exact fun hne => absurd rfl hne

theorem Derives.ne_nil {strict : Bool} {nt : NonTerminal} {ts : List Token} {tree : Option Cmd}
    (h : Derives strict nt ts tree) : nt ≠ cmd -> ts ≠ [] := by
  induction h with
  | exec texts hne _ =>
      intro _ hnil
      exact hne (List.map_eq_nil_iff.mp hnil)
  | group => exact fun _ => List.cons_ne_nil _ _
  | redir rs _ _ ih => exact fun _ hnil => ih (by decide) (List.append_eq_nil_iff.mp hnil).left
  | single _ ih => exact fun _ => ih (by decide)
  | join => exact fun _ => List.append_ne_nil_of_right_ne_nil _ (List.cons_ne_nil _ _)
  | last _ ih => exact fun _ => ih (by decide)
  | next => exact fun _ => List.append_ne_nil_of_right_ne_nil _ (List.cons_ne_nil _ _)
  | empty => exact fun hne => absurd rfl hne
  | full => exact fun hne => absurd rfl hne

/-- The parser reads a strict derivation as its tree. -/
theorem Derives.reads {nt : NonTerminal} {ts : List Token} {tree : Option Cmd}
    (h : Derives true nt ts tree) : forall ends, Reads nt ends ts tree false := by
  induction h with
  | exec texts hne hlen => exact fun _ => Reads.exec texts hne (hlen rfl)
  | group _ _ ih => exact fun _ => Reads.group (ih false)
  | redir rs hprimary hops ih =>
      intro ends
      rcases hprimary.valued (by decide) with ⟨c, hc⟩
      rw [hc] at ih ⊢
      cases rs with
      | nil =>
          rw [redirTokens, List.append_nil]
          exact Reads.bare (ih ends)
      | cons r rest => exact Reads.redir (r :: rest) (ih false) (List.cons_ne_nil _ _) hops
  | single _ ih => exact fun ends => Reads.single (ih ends)
  | join hleft hop _ ihl ihr =>
      intro ends
      rcases hleft.valued (by decide) with ⟨c, hc⟩
      rw [hc] at ihl ⊢
      exact Reads.join (ihl false) hop (ihr ends)
  | last _ ih => exact fun ends => Reads.last (ih ends)
  | next hleft hop _ ihl ihr =>
      intro ends
      rcases hleft.valued (by decide) with ⟨c, hc⟩
      rw [hc] at ihl ⊢
      exact Reads.next (ihl false) hop (ihr ends)
  | empty => exact fun _ => Reads.empty
  | full hlist ih => exact fun ends => Reads.full (hlist.ne_nil (by decide)) (ih ends)

/-- A reading without a report is a derivation of the documented grammar. -/
theorem Reads.derives {nt : NonTerminal} {ends noisy : Bool} {ts : List Token}
    {value : Option Cmd} (h : Reads nt ends ts value noisy) :
    noisy = false -> Derives false nt ts value := by
  induction h with
  | exec texts hne _ => exact fun _ => Derives.exec texts hne (fun hs => nomatch hs)
  | group _ ih => exact fun hquiet => Derives.group (ih hquiet) (fun hs => nomatch hs)
  | leftOpen => exact fun hquiet => nomatch hquiet
  | missing => exact fun hquiet => nomatch hquiet
  | bare _ ih =>
      intro hquiet
      have hderived := Derives.redir [] (ih hquiet) (fun _ hr => nomatch hr)
      rw [redirTokens, List.append_nil] at hderived
      have hsame : forall v : Option Cmd, v.map (fun c => redirAll c []) = v := by
        intro v
        cases v with
        | none => rfl
        | some c => rfl
      rw [hsame] at hderived
      exact hderived
  | redir rs _ _ hops ih => exact fun hquiet => Derives.redir rs (ih hquiet) hops
  | noPath => exact fun hquiet => nomatch hquiet
  | single _ ih => exact fun hquiet => Derives.single (ih hquiet)
  | join _ hop _ ihl ihr =>
      intro hquiet
      rcases Bool.or_eq_false_iff.mp hquiet with ⟨hl, hr⟩
      exact Derives.join (ihl hl) hop (ihr hr)
  | last _ ih => exact fun hquiet => Derives.last (ih hquiet)
  | next _ hop _ ihl ihr =>
      intro hquiet
      rcases Bool.or_eq_false_iff.mp hquiet with ⟨hl, hr⟩
      exact Derives.next (ihl hl) hop (ihr hr)
  | empty => exact fun _ => Derives.empty
  | full _ _ ih => exact fun hquiet => Derives.full (ih hquiet)

/-!
# Steps of the parser
-/

def Token.starts : Token -> Bool
  | Token.lparen | Token.string _ => true
  | _ => false

/-- The tokens that may stand behind a phrase without being taken into it. -/
def NonTerminal.follows : NonTerminal -> Token -> Bool
  | primary, t => !t.starts
  | redir, t => !t.starts && !t.isRedir
  | binary, t => !t.starts && !t.isRedir && !t.isBinary
  | _, t => !t.starts && !t.isRedir && !t.isBinary && !t.isList

def EndsBefore (nt : NonTerminal) (rest : List Token) : Prop :=
  forall t, rest.head? = some t -> nt.follows t = true

def NonTerminal.parse : NonTerminal -> Nat -> Parser -> Option (Option Cmd × Parser)
  | cmd => parseCmd
  | list => parseList
  | binary => parseBinary
  | redir => parseRedir
  | primary => parsePrimary

/-- The calls on the way from a phrase to its first primary. -/
def NonTerminal.rank : NonTerminal -> Nat
  | cmd => 5
  | list => 4
  | binary => 3
  | redir => 2
  | primary => 1

theorem endsBefore_nil (nt : NonTerminal) : EndsBefore nt [] := fun _ h => nomatch h

theorem endsBefore_cons {nt : NonTerminal} {t : Token} {rest : List Token}
    (h : nt.follows t = true) : EndsBefore nt (t :: rest) := by
  intro u hu
  cases hu
  exact h

theorem EndsBefore.mono {nt nt' : NonTerminal} {rest : List Token} (h : EndsBefore nt rest)
    (hmono : forall t, nt.follows t = true -> nt'.follows t = true) : EndsBefore nt' rest :=
  fun t ht => hmono t (h t ht)

section Steps

variable {k : Nat} {sh sh' : Parser} {c : Cmd} {value : Option Cmd} {t : Token}
  {us rest : List Token} {reports : List Report}

theorem parseCmd_starts (hpeek : sh.peek = some t) (hstarts : t.starts = true) :
    parseCmd (k + 1) sh = parseList k sh := by
  rw [parseCmd, hpeek]
  cases t with
  | lparen => rfl
  | string text => rfl
  | _ => cases hstarts

theorem parseCmd_empty (h : forall t, sh.peek = some t -> t.starts = false) :
    parseCmd (k + 1) sh = some (none, sh) := by
  rw [parseCmd]
  cases hpeek : sh.peek with
  | none => rfl
  | some t =>
      have hno := h t hpeek
      cases t with
      | lparen => cases hno
      | string text => cases hno
      | _ => rfl

theorem parseList_none (h : parseBinary k sh = some (none, sh')) :
    parseList (k + 1) sh = some (none, sh') := by
  rw [parseList, h]
  rfl

theorem parseList_stop (h : parseBinary k sh = some (some c, sh'))
    (hstop : forall t, sh'.peek = some t -> t.isList = false) :
    parseList (k + 1) sh = some (some c, sh') := by
  simp only [parseList, h]
  cases hpeek : sh'.peek with
  | none => simp [hpeek]
  | some t => simp [hpeek, hstop t hpeek]

theorem parseList_next (h : parseBinary k sh = some (some c, ⟨t :: us, reports⟩))
    (hop : t.isList = true) (hright : parseCmd k ⟨us, reports⟩ = some (value, sh')) :
    parseList (k + 1) sh = some (some (listed t c value), sh') := by
  rw [parseList, h]
  show (if t.isList = true then _ else _) = _
  rw [if_pos hop]
  show (parseCmd k ⟨us, reports⟩ >>= _) = _
  rw [hright]
  rfl

theorem parseBinary_none (h : parseRedir k sh = some (none, sh')) :
    parseBinary (k + 1) sh = some (none, sh') := by
  rw [parseBinary, h]
  rfl

theorem parseBinary_stop (h : parseRedir k sh = some (some c, sh'))
    (hstop : forall t, sh'.peek = some t -> t.isBinary = false) :
    parseBinary (k + 1) sh = some (some c, sh') := by
  simp only [parseBinary, h]
  cases hpeek : sh'.peek with
  | none => simp [hpeek]
  | some t => simp [hpeek, hstop t hpeek]

theorem parseBinary_join (h : parseRedir k sh = some (some c, ⟨t :: us, reports⟩))
    (hop : t.isBinary = true) (hright : parseBinary k ⟨us, reports⟩ = some (value, sh')) :
    parseBinary (k + 1) sh = some (value.map (fun d => joined t c d), sh') := by
  rw [parseBinary, h]
  show (if t.isBinary = true then _ else _) = _
  rw [if_pos hop]
  show (parseBinary k ⟨us, reports⟩ >>= _) = _
  rw [hright]
  cases value with
  | none => rfl
  | some d => rfl

theorem parseRedir_none (h : parsePrimary k sh = some (none, sh')) :
    parseRedir (k + 1) sh = some (none, sh') := by
  rw [parseRedir, h]
  rfl

theorem parseRedir_some (h : parsePrimary k sh = some (some c, sh')) :
    parseRedir (k + 1) sh = some (redirFrom sh'.rest.length c sh') := by
  rw [parseRedir, h]
  rfl

theorem parsePrimary_group {reports' : List Report} (hinner : parseCmd k ⟨us, reports⟩ =
      some (value, ⟨Token.rparen :: rest, reports'⟩)) :
    parsePrimary (k + 1) ⟨Token.lparen :: us, reports⟩ = some (value, ⟨rest, reports'⟩) := by
  rw [parsePrimary]
  show (parseCmd k ⟨us, reports⟩ >>= _) = _
  rw [hinner]
  rfl

theorem parsePrimary_open (hinner : parseCmd k ⟨us, reports⟩ = some (value, sh'))
    (hno : sh'.peek ≠ some Token.rparen) :
    parsePrimary (k + 1) ⟨Token.lparen :: us, reports⟩ =
      some (none, sh'.report Report.missingParen) := by
  rw [parsePrimary]
  show (parseCmd k ⟨us, reports⟩ >>= _) = _
  rw [hinner]
  show (if sh'.peek = some Token.rparen then _ else _) = _
  rw [if_neg hno]

theorem parsePrimary_missing (h : forall t, sh.peek = some t -> t.starts = false) :
    parsePrimary (k + 1) sh = some (none, sh.report (Report.unexpected sh.peek)) := by
  rw [parsePrimary]
  cases hpeek : sh.peek with
  | none => rfl
  | some t =>
      have hno := h t hpeek
      cases t with
      | lparen => cases hno
      | string text => cases hno
      | _ => rfl

theorem execFrom_texts (texts : List Text) : forall (argv : List Text) (rest : List Token)
    (reports : List Report), argv.length + texts.length < maxArgv ->
    (forall t, rest.head? = some t -> t.starts = false) ->
    execFrom argv (texts.map Token.string ++ rest) reports =
      (some (Cmd.exec (argv ++ texts.map copyPeekString)), ⟨rest, reports⟩) := by
  induction texts with
  | nil =>
      intro argv rest reports _ hstop
      rw [List.map_nil, List.map_nil, List.append_nil, List.nil_append]
      cases rest with
      | nil => rfl
      | cons t rest =>
          have hno := hstop t rfl
          cases t with
          | string text => cases hno
          | _ => rfl
  | cons text texts ih =>
      intro argv rest reports hlen hstop
      rw [List.length_cons] at hlen
      rw [List.map_cons, List.cons_append, execFrom, if_neg (by omega), ih _ rest reports _ hstop,
        List.map_cons, List.append_assoc]
      · rfl
      · rw [List.length_append, List.length_singleton]
        omega

theorem redirFrom_some (m : Nat) {d : Cmd} (hop : t.isRedir = true)
    (h : parseRedircmd c t ⟨rest, reports⟩ = (some d, sh)) :
    redirFrom (m + 1) c ⟨t :: rest, reports⟩ = redirFrom m d sh := by
  simp [redirFrom, Parser.peek, Parser.advance, hop, h]

theorem redirFrom_none (m : Nat) (hop : t.isRedir = true)
    (h : parseRedircmd c t ⟨rest, reports⟩ = (none, sh)) :
    redirFrom (m + 1) c ⟨t :: rest, reports⟩ = (none, sh) := by
  simp [redirFrom, Parser.peek, Parser.advance, hop, h]

theorem peek_nil {p : Token -> Bool} : forall t, Parser.peek ⟨[], reports⟩ = some t ->
    p t = false := by
  intro t ht
  cases ht

theorem redirFrom_all (rs : List (Token × Text)) : forall (m : Nat) (c : Cmd),
    (forall r, r ∈ rs -> r.1.isRedir = true) ->
    redirFrom (rs.length + m) c ⟨redirTokens rs ++ rest, reports⟩ =
      redirFrom m (redirAll c rs) ⟨rest, reports⟩ := by
  induction rs with
  | nil =>
      intro m c _
      rw [List.length_nil, Nat.zero_add]
      rfl
  | cons r rs ih =>
      intro m c hops
      rcases r with ⟨optok, text⟩
      have hop : optok.isRedir = true := hops (optok, text) List.mem_cons_self
      have hsum : (((optok, text) :: rs).length + m) = (rs.length + m) + 1 := by
        rw [List.length_cons]
        omega
      rw [hsum]
      exact (redirFrom_some _ hop rfl).trans
        (ih m _ (fun r hr => hops r (List.mem_cons_of_mem _ hr)))

theorem redirFrom_stop (m : Nat) (c : Cmd)
    (h : forall t, rest.head? = some t -> t.isRedir = false) :
    redirFrom m c ⟨rest, reports⟩ = (some c, ⟨rest, reports⟩) := by
  cases m with
  | zero => rfl
  | succ m =>
      rw [redirFrom]
      cases rest with
      | nil => rfl
      | cons t rest =>
          show (if t.isRedir = true then _ else _) = _
          rw [h t rfl, if_neg Bool.false_ne_true]

theorem redirFrom_noPath (m : Nat) (c : Cmd) (hop : t.isRedir = true)
    (h : forall u, rest.head? = some u -> u.starts = false) :
    redirFrom (m + 1) c ⟨t :: rest, reports⟩ =
      (none, ⟨rest, reports ++ [Report.expectedPath]⟩) := by
  have hno : parseRedircmd c t ⟨rest, reports⟩ =
      (none, ⟨rest, reports ++ [Report.expectedPath]⟩) := by
    unfold parseRedircmd
    cases rest with
    | nil => rfl
    | cons u rest =>
        have hu := h u rfl
        cases u with
        | string text => cases hu
        | _ => rfl
  exact redirFrom_none m hop hno

theorem length_redirTokens (rs : List (Token × Text)) :
    (redirTokens rs).length = 2 * rs.length := by
  induction rs with
  | nil => rfl
  | cons r rs ih =>
      rcases r with ⟨optok, text⟩
      rw [redirTokens, List.length_cons, List.length_cons, List.length_cons, ih]
      omega

/-- The loop of `parse_redir` has a round for each of the tokens ahead. -/
theorem redirFrom_chain (rs : List (Token × Text)) (c : Cmd)
    (hops : forall r, r ∈ rs -> r.1.isRedir = true) :
    redirFrom (redirTokens rs ++ rest).length c ⟨redirTokens rs ++ rest, reports⟩ =
      redirFrom (rs.length + rest.length) (redirAll c rs) ⟨rest, reports⟩ := by
  have hlen : (redirTokens rs ++ rest).length = rs.length + (rs.length + rest.length) := by
    rw [List.length_append, length_redirTokens]
    omega
  rw [hlen, redirFrom_all rs _ c hops]

end Steps

/-!
# What is read is parsed
-/

/-- The parser goes over a phrase to `rest`, with messages only if the phrase has an error. -/
def Parses (nt : NonTerminal) (ts rest : List Token) (value : Option Cmd) (noisy : Bool) : Prop :=
  forall (k : Nat) (reports : List Report), 5 * ts.length + nt.rank ≤ k ->
    exists new, nt.parse k ⟨ts ++ rest, reports⟩ = some (value, ⟨rest, reports ++ new⟩) ∧
      (noisy = true <-> new ≠ [])

section Parses

variable {ts us rest : List Token} {c : Cmd} {value : Option Cmd} {noisy noisy' : Bool}
  {t : Token}

theorem noisy_append {new new' : List Report} (h : noisy = true <-> new ≠ [])
    (h' : noisy' = true <-> new' ≠ []) : (noisy || noisy') = true <-> new ++ new' ≠ [] := by
  rw [Bool.or_eq_true_iff, h, h', ne_eq, ne_eq, ne_eq, List.append_eq_nil_iff, not_and_or]

theorem EndsBefore.starts {nt : NonTerminal} (h : EndsBefore nt rest) :
    forall t, rest.head? = some t -> t.starts = false := by
  intro t ht
  have hfollows := h t ht
  cases nt <;> simp [NonTerminal.follows] at hfollows <;> simp [hfollows]

theorem EndsBefore.isRedir (h : EndsBefore redir rest) :
    forall t, rest.head? = some t -> t.isRedir = false := by
  intro t ht
  have hfollows := h t ht
  simp only [NonTerminal.follows, Bool.and_eq_true, Bool.not_eq_true'] at hfollows
  exact hfollows.right

theorem EndsBefore.isBinary (h : EndsBefore binary rest) :
    forall t, rest.head? = some t -> t.isBinary = false := by
  intro t ht
  have hfollows := h t ht
  simp only [NonTerminal.follows, Bool.and_eq_true, Bool.not_eq_true'] at hfollows
  exact hfollows.right

theorem EndsBefore.isList (h : EndsBefore list rest) :
    forall t, rest.head? = some t -> t.isList = false := by
  intro t ht
  have hfollows := h t ht
  simp only [NonTerminal.follows, Bool.and_eq_true, Bool.not_eq_true'] at hfollows
  exact hfollows.right

theorem EndsBefore.binary_of_list (h : EndsBefore list rest) : EndsBefore binary rest := by
  apply h.mono
  intro t ht
  simp only [NonTerminal.follows, Bool.and_eq_true] at ht ⊢
  exact ht.left

theorem EndsBefore.redir_of_binary (h : EndsBefore binary rest) : EndsBefore redir rest := by
  apply h.mono
  intro t ht
  simp only [NonTerminal.follows, Bool.and_eq_true] at ht ⊢
  exact ht.left

theorem EndsBefore.primary_of_redir (h : EndsBefore redir rest) : EndsBefore primary rest := by
  apply h.mono
  intro t ht
  simp only [NonTerminal.follows, Bool.and_eq_true] at ht ⊢
  exact ht.left

theorem EndsBefore.list_of_cmd (h : EndsBefore cmd rest) : EndsBefore list rest :=
  h.mono (fun _ ht => ht)

theorem follows_redir_op (h : t.isRedir = true) : primary.follows t = true := by
  cases t <;> first | rfl | cases h

theorem follows_binary_op (h : t.isBinary = true) : redir.follows t = true := by
  cases t <;> first | rfl | cases h

theorem follows_list_op (h : t.isList = true) : binary.follows t = true := by
  cases t <;> first | rfl | cases h

theorem Parses.exec (texts : List Text) (hlen : texts.length < maxArgv) (hne : texts ≠ [])
    (hrest : EndsBefore primary rest) :
    Parses primary (texts.map Token.string) rest (some (Cmd.exec (texts.map copyPeekString)))
      false := by
  intro k reports hk
  refine ⟨[], ?_, by simp⟩
  cases k with
  | zero => exact absurd hk (by simp [NonTerminal.rank])
  | succ k =>
      have hexec := execFrom_texts texts [] rest reports (by simpa using hlen) hrest.starts
      rw [List.append_nil]
      show parsePrimary (k + 1) _ = _
      cases texts with
      | nil => exact absurd rfl hne
      | cons text texts =>
          rw [parsePrimary]
          exact congrArg some hexec

theorem Parses.group (h : Parses cmd ts (Token.rparen :: rest) value noisy) :
    Parses primary (Token.lparen :: ts ++ [Token.rparen]) rest value noisy := by
  intro k reports hk
  cases k with
  | zero => exact absurd hk (by simp [NonTerminal.rank])
  | succ k =>
      have hlen : (Token.lparen :: ts ++ [Token.rparen]).length = ts.length + 2 := by simp
      rw [hlen] at hk
      rcases h k reports (by simp only [NonTerminal.rank] at hk ⊢; omega) with ⟨new, hrun, hnew⟩
      refine ⟨new, ?_, hnew⟩
      have htokens : Token.lparen :: ts ++ [Token.rparen] ++ rest =
          Token.lparen :: (ts ++ Token.rparen :: rest) := by simp
      rw [htokens]
      exact parsePrimary_group hrun

theorem Parses.leftOpen (h : Parses cmd ts [] value noisy) :
    Parses primary (Token.lparen :: ts) [] none true := by
  intro k reports hk
  cases k with
  | zero => exact absurd hk (by simp [NonTerminal.rank])
  | succ k =>
      rw [List.length_cons] at hk
      rcases h k reports (by simp only [NonTerminal.rank] at hk ⊢; omega) with ⟨new, hrun, -⟩
      refine ⟨new ++ [Report.missingParen], ?_, by simp⟩
      have hopen := parsePrimary_open hrun (fun hp => nomatch hp)
      rw [<- List.append_assoc]
      exact hopen

theorem Parses.missing (hrest : EndsBefore primary rest) :
    Parses primary [] rest none true := by
  intro k reports hk
  cases k with
  | zero => exact absurd hk (by simp [NonTerminal.rank])
  | succ k => exact ⟨_, parsePrimary_missing hrest.starts, by simp⟩

theorem Parses.bare (h : Parses primary ts rest value noisy)
    (hrest : value ≠ none -> EndsBefore redir rest) : Parses redir ts rest value noisy := by
  intro k reports hk
  cases k with
  | zero => exact absurd hk (by simp [NonTerminal.rank])
  | succ k =>
      rcases h k reports (by simp only [NonTerminal.rank] at hk ⊢; omega) with ⟨new, hrun, hnew⟩
      refine ⟨new, ?_, hnew⟩
      cases value with
      | none => exact parseRedir_none hrun
      | some c =>
          have hstop := (hrest (Option.some_ne_none c)).isRedir
          exact (parseRedir_some hrun).trans (congrArg some (redirFrom_stop _ c hstop))

theorem Parses.redirs (rs : List (Token × Text))
    (h : Parses primary ts (redirTokens rs ++ rest) (some c) noisy)
    (hops : forall r, r ∈ rs -> r.1.isRedir = true) (hrest : EndsBefore redir rest) :
    Parses redir (ts ++ redirTokens rs) rest (some (redirAll c rs)) noisy := by
  intro k reports hk
  cases k with
  | zero => exact absurd hk (by simp [NonTerminal.rank])
  | succ k =>
      rw [List.length_append] at hk
      rcases h k reports (by simp only [NonTerminal.rank] at hk ⊢; omega) with ⟨new, hrun, hnew⟩
      refine ⟨new, ?_, hnew⟩
      rw [List.append_assoc]
      apply (parseRedir_some hrun).trans
      rw [redirFrom_chain rs c hops, redirFrom_stop _ _ hrest.isRedir]

theorem Parses.noPath (rs : List (Token × Text))
    (h : Parses primary ts (redirTokens rs ++ t :: rest) (some c) noisy)
    (hops : forall r, r ∈ rs -> r.1.isRedir = true) (hop : t.isRedir = true)
    (hrest : EndsBefore redir rest) :
    Parses redir (ts ++ (redirTokens rs ++ [t])) rest none true := by
  intro k reports hk
  cases k with
  | zero => exact absurd hk (by simp [NonTerminal.rank])
  | succ k =>
      rw [List.length_append] at hk
      rcases h k reports (by simp only [NonTerminal.rank] at hk ⊢; omega) with ⟨new, hrun, -⟩
      refine ⟨new ++ [Report.expectedPath], ?_, by simp⟩
      have htokens : ts ++ (redirTokens rs ++ [t]) ++ rest =
          ts ++ (redirTokens rs ++ t :: rest) := by
        simp
      have hlen : rs.length + (t :: rest).length = (rs.length + rest.length) + 1 := by
        rw [List.length_cons]
        omega
      rw [htokens]
      apply (parseRedir_some hrun).trans
      rw [redirFrom_chain rs c hops, hlen, redirFrom_noPath _ _ hop hrest.starts,
        List.append_assoc]

theorem Parses.single (h : Parses redir ts rest value noisy)
    (hrest : value ≠ none -> EndsBefore binary rest) : Parses binary ts rest value noisy := by
  intro k reports hk
  cases k with
  | zero => exact absurd hk (by simp [NonTerminal.rank])
  | succ k =>
      rcases h k reports (by simp only [NonTerminal.rank] at hk ⊢; omega) with ⟨new, hrun, hnew⟩
      refine ⟨new, ?_, hnew⟩
      cases value with
      | none => exact parseBinary_none hrun
      | some c => exact parseBinary_stop hrun (hrest (Option.some_ne_none c)).isBinary

theorem Parses.join (h : Parses NonTerminal.redir ts (t :: (us ++ rest)) (some c) noisy)
    (hop : t.isBinary = true) (hright : Parses binary us rest value noisy') :
    Parses binary (ts ++ t :: us) rest (value.map (fun d => joined t c d)) (noisy || noisy') := by
  intro k reports hk
  cases k with
  | zero => exact absurd hk (by simp [NonTerminal.rank])
  | succ k =>
      rw [List.length_append, List.length_cons] at hk
      rcases h k reports (by simp only [NonTerminal.rank] at hk ⊢; omega) with ⟨new, hrun, hnew⟩
      rcases hright k (reports ++ new) (by simp only [NonTerminal.rank] at hk ⊢; omega) with
        ⟨new', hrun', hnew'⟩
      refine ⟨new ++ new', ?_, noisy_append hnew hnew'⟩
      rw [List.append_assoc, <- List.append_assoc reports]
      exact parseBinary_join hrun hop hrun'

theorem Parses.last (h : Parses binary ts rest value noisy)
    (hrest : value ≠ none -> EndsBefore list rest) : Parses list ts rest value noisy := by
  intro k reports hk
  cases k with
  | zero => exact absurd hk (by simp [NonTerminal.rank])
  | succ k =>
      rcases h k reports (by simp only [NonTerminal.rank] at hk ⊢; omega) with ⟨new, hrun, hnew⟩
      refine ⟨new, ?_, hnew⟩
      cases value with
      | none => exact parseList_none hrun
      | some c => exact parseList_stop hrun (hrest (Option.some_ne_none c)).isList

theorem Parses.next (h : Parses binary ts (t :: (us ++ rest)) (some c) noisy)
    (hop : t.isList = true) (hright : Parses cmd us rest value noisy') :
    Parses list (ts ++ t :: us) rest (some (listed t c value)) (noisy || noisy') := by
  intro k reports hk
  cases k with
  | zero => exact absurd hk (by simp [NonTerminal.rank])
  | succ k =>
      rw [List.length_append, List.length_cons] at hk
      rcases h k reports (by simp only [NonTerminal.rank] at hk ⊢; omega) with ⟨new, hrun, hnew⟩
      rcases hright k (reports ++ new) (by simp only [NonTerminal.rank] at hk ⊢; omega) with
        ⟨new', hrun', hnew'⟩
      refine ⟨new ++ new', ?_, noisy_append hnew hnew'⟩
      rw [List.append_assoc, <- List.append_assoc reports]
      exact parseList_next hrun hop hrun'

theorem Parses.empty (hrest : EndsBefore cmd rest) : Parses cmd [] rest none false := by
  intro k reports hk
  cases k with
  | zero => exact absurd hk (by simp [NonTerminal.rank])
  | succ k =>
      refine ⟨[], ?_, by simp⟩
      rw [List.append_nil]
      exact parseCmd_empty hrest.starts

theorem Parses.full (h : Parses list ts rest value noisy)
    (hstarts : exists t, (ts ++ rest).head? = some t ∧ t.starts = true) :
    Parses cmd ts rest value noisy := by
  intro k reports hk
  cases k with
  | zero => exact absurd hk (by simp [NonTerminal.rank])
  | succ k =>
      rcases h k reports (by simp only [NonTerminal.rank] at hk ⊢; omega) with ⟨new, hrun, hnew⟩
      rcases hstarts with ⟨t, ht, hstarts⟩
      have hpeek : Parser.peek ⟨ts ++ rest, reports⟩ = some t := ht
      exact ⟨new, (parseCmd_starts hpeek hstarts).trans hrun, hnew⟩

end Parses

/-- A phrase that is not empty begins with a parenthesis or a string. -/
theorem Reads.starts {nt : NonTerminal} {ends noisy : Bool} {ts : List Token}
    {value : Option Cmd} (h : Reads nt ends ts value noisy) :
    ts ≠ [] ∨ value ≠ none -> exists t rest, ts = t :: rest ∧ t.starts = true := by
  have happend : forall {ts us : List Token},
      (exists t rest, ts = t :: rest ∧ t.starts = true) ->
      exists t rest, ts ++ us = t :: rest ∧ t.starts = true := by
    intro ts us hex
    rcases hex with ⟨t, rest, hts, hstarts⟩
    exact ⟨t, rest ++ us, by rw [hts]; rfl, hstarts⟩
  induction h with
  | exec texts hne _ =>
      intro _
      cases texts with
      | nil => exact absurd rfl hne
      | cons text texts => exact ⟨_, _, rfl, rfl⟩
  | group => exact fun _ => ⟨_, _, rfl, rfl⟩
  | leftOpen => exact fun _ => ⟨_, _, rfl, rfl⟩
  | missing =>
      intro hor
      rcases hor with hne | hne
      · exact absurd rfl hne
      · exact absurd rfl hne
  | bare _ ih => exact ih
  | redir _ _ _ _ ih => exact fun _ => happend (ih (Or.inr (Option.some_ne_none _)))
  | noPath _ _ _ _ _ ih => exact fun _ => happend (ih (Or.inr (Option.some_ne_none _)))
  | single _ ih => exact ih
  | join _ _ _ ih _ => exact fun _ => happend (ih (Or.inr (Option.some_ne_none _)))
  | last _ ih => exact ih
  | next _ _ _ ih _ => exact fun _ => happend (ih (Or.inr (Option.some_ne_none _)))
  | empty =>
      intro hor
      rcases hor with hne | hne
      · exact absurd rfl hne
      · exact absurd rfl hne
  | full hne _ ih => exact fun _ => ih (Or.inl hne)

/-- Every reading is what the parser does, before any tokens that may follow. -/
theorem Reads.parses {nt : NonTerminal} {ends noisy : Bool} {ts : List Token}
    {value : Option Cmd} (h : Reads nt ends ts value noisy) : forall rest,
      (ends = true -> rest = []) -> EndsBefore nt rest -> Parses nt ts rest value noisy := by
  induction h with
  | exec texts hne hlen => exact fun rest _ hrest => Parses.exec texts hlen hne hrest
  | group _ ih =>
      intro rest _ _
      exact Parses.group (ih _ (fun hf => nomatch hf) (endsBefore_cons rfl))
  | leftOpen _ ih =>
      intro rest hends _
      rw [hends rfl]
      exact Parses.leftOpen (ih [] (fun _ => rfl) (endsBefore_nil _))
  | missing => exact fun rest _ hrest => Parses.missing hrest
  | bare _ ih =>
      intro rest hends hrest
      exact Parses.bare (ih rest hends hrest.primary_of_redir) (fun _ => hrest)
  | redir rs _ hne hops ih =>
      intro rest _ hrest
      have hfirst : EndsBefore primary (redirTokens rs ++ rest) := by
        cases rs with
        | nil => exact absurd rfl hne
        | cons r rs => exact endsBefore_cons (follows_redir_op (hops r List.mem_cons_self))
      exact Parses.redirs rs (ih _ (fun hf => nomatch hf) hfirst) hops hrest
  | noPath rs optok _ hops hop ih =>
      intro rest _ hrest
      have hfirst : EndsBefore primary (redirTokens rs ++ optok :: rest) := by
        cases rs with
        | nil => exact endsBefore_cons (follows_redir_op hop)
        | cons r rs => exact endsBefore_cons (follows_redir_op (hops r List.mem_cons_self))
      exact Parses.noPath rs (ih _ (fun hf => nomatch hf) hfirst) hops hop hrest
  | single _ ih =>
      intro rest hends hrest
      exact Parses.single (ih rest hends hrest.redir_of_binary) (fun _ => hrest)
  | join _ hop _ ihl ihr =>
      intro rest hends hrest
      exact Parses.join (ihl _ (fun hf => nomatch hf) (endsBefore_cons (follows_binary_op hop)))
        hop (ihr rest hends hrest)
  | last _ ih =>
      intro rest hends hrest
      exact Parses.last (ih rest hends hrest.binary_of_list) (fun _ => hrest)
  | next _ hop _ ihl ihr =>
      intro rest hends hrest
      have hcmd : EndsBefore cmd rest := hrest.mono (fun _ ht => ht)
      exact Parses.next (ihl _ (fun hf => nomatch hf) (endsBefore_cons (follows_list_op hop)))
        hop (ihr rest hends hcmd)
  | empty => exact fun rest _ hrest => Parses.empty hrest
  | full hne hlist ih =>
      intro rest hends hrest
      rcases hlist.starts (Or.inl hne) with ⟨t, us, hts, hstarts⟩
      exact Parses.full (ih rest hends hrest.list_of_cmd) ⟨t, by rw [hts]; rfl, hstarts⟩

/-!
# The documented grammar is accepted
-/

theorem shParse_of_parses {ts : List Token} {value : Option Cmd} {noisy : Bool}
    (h : Parses cmd ts [] value noisy) :
    exists new, shParse ts = some (value, ⟨[], new⟩) ∧ (noisy = true <-> new ≠ []) := by
  rcases h (5 * ts.length + 5) [] (Nat.le_refl _) with ⟨new, hrun, hnew⟩
  rw [List.append_nil] at hrun
  refine ⟨new, ?_, hnew⟩
  have hrun' : parseCmd (5 * ts.length + 5) ⟨ts, []⟩ = some (value, ⟨[], new⟩) := hrun
  unfold shParse
  rw [hrun']
  cases value with
  | none => rfl
  | some c => rfl

/--
A token list that the documented grammar derives is parsed without a message, to its end,
and into the tree of its derivation; the tree of the empty list is `NULL`.
-/
theorem shParse_accepts_grammar (ts : List Token) (tree : Option Cmd)
    (h : Derives true cmd ts tree) : shParse ts = some (tree, ⟨[], []⟩) := by
  have hparses := (h.reads true).parses [] (fun _ => rfl) (endsBefore_nil _)
  rcases shParse_of_parses hparses with ⟨new, hrun, hnew⟩
  have hnil : new = [] := by
    by_contra hne
    exact Bool.false_ne_true (hnew.mpr hne)
  rw [hnil] at hrun
  exact hrun

/-- `a & ( b || c ) > d`, as it is derived. -/
theorem shParse_accepts_grammar_background :
    shParse [Token.string [97], Token.back, Token.lparen, Token.string [98], Token.or,
        Token.string [99], Token.rparen, Token.gt, Token.string [100]] =
      some
        (some (Cmd.list (Cmd.back (Cmd.exec [[97]]))
          (Cmd.redir (Cmd.binary (Cmd.exec [[98]]) (Cmd.exec [[99]]) Token.or) 1 65 [100])),
          ⟨[], []⟩) := by
  have hword : forall b : UInt8, Derives true primary [Token.string [b]]
      (some (Cmd.exec [[b]])) := by
    intro b
    have hone : 1 < maxArgv := by decide
    exact Derives.exec [[b]] (List.cons_ne_nil _ _) (fun _ => hone)
  have hredir : forall b : UInt8, Derives true redir [Token.string [b]]
      (some (Cmd.exec [[b]])) := by
    intro b
    exact Derives.redir [] (hword b) (fun _ hr => nomatch hr)
  have hinner : Derives true cmd [Token.string [98], Token.or, Token.string [99]]
      (some (Cmd.binary (Cmd.exec [[98]]) (Cmd.exec [[99]]) Token.or)) :=
    Derives.full (Derives.last (Derives.join (hredir 98) rfl (Derives.single (hredir 99))))
  have hgroup : Derives true redir [Token.lparen, Token.string [98], Token.or, Token.string [99],
      Token.rparen, Token.gt, Token.string [100]]
      (some (Cmd.redir (Cmd.binary (Cmd.exec [[98]]) (Cmd.exec [[99]]) Token.or) 1 65 [100])) := by
    have hops : forall r, r ∈ [(Token.gt, ([100] : Text))] -> r.1.isRedir = true := by decide
    exact Derives.redir [(Token.gt, [100])]
      (Derives.group hinner (fun _ => Option.some_ne_none _)) hops
  have hright := Derives.full (Derives.last (Derives.single hgroup))
  exact shParse_accepts_grammar _ _
    (Derives.full (Derives.next (Derives.single (hredir 97)) rfl hright))

end Shell
end NicoOS
