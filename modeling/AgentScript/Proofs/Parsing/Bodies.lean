import AgentScript.Proofs.Parsing.Agreement
import Mathlib.Logic.Function.Iterate

/-!
# Bodies of lines

A body is a sequence of logical lines, each with the block of lines below it if there is one.
Skipping goes by the layout tokens alone: from within a line it passes the rest of the line
and the block below, and from the beginning of a block it passes that block.
-/
namespace AgentScript

/-- A layout token of the kind as a text leaves it, over whitespace at most. -/
structure Token.IsMark (k : TokenKind) (t : Token) : Prop where
  kind_eq : t.kind = k
  blank : ∀ c ∈ t.text.toList, CharClass.isWhitespace c = true

/-- Lines, each perhaps with a block of any lines below it. The condition is for the kinds of
the words that the lines begin with. -/
inductive LinesOf : (TokenKind → Prop) → List Token → Prop
  | nil {K : TokenKind → Prop} : LinesOf K []
  | line {K : TokenKind → Prop} {words rest : List Token} {newline : Token}
      (inLine : ∀ t ∈ words, t.isStructural = false) (allowed : ∀ t ∈ words.head?, K t.kind)
      (ends : newline.IsMark .newline) (later : LinesOf K rest) :
      LinesOf K (words ++ newline :: rest)
  | block {K : TokenKind → Prop} {words body rest : List Token} {newline indent dedent : Token}
      (inLine : ∀ t ∈ words, t.isStructural = false) (allowed : ∀ t ∈ words.head?, K t.kind)
      (ends : newline.IsMark .newline) (opens : indent.IsMark .indent)
      (inner : LinesOf (fun _ => True) body) (closes : dedent.IsMark .dedent)
      (later : LinesOf K rest) :
      LinesOf K (words ++ newline :: indent :: (body ++ dedent :: rest))

/-- Lines with any words. -/
abbrev IsBody (tokens : List Token) : Prop := LinesOf (fun _ => True) tokens

/-- What can stand below a line: nothing, or a block. -/
inductive IsBelow : List Token → Prop
  | none : IsBelow []
  | block {body : List Token} {indent dedent : Token} (opens : indent.IsMark .indent)
      (inner : IsBody body) (closes : dedent.IsMark .dedent) :
      IsBelow (indent :: (body ++ [dedent]))

variable {K : TokenKind → Prop} {tokens more words below u v l : List Token} {x y : Token}

theorem LinesOf.append (h : LinesOf K tokens) (h' : LinesOf K more) :
    LinesOf K (tokens ++ more) := by
  induction h with
  | nil => exact h'
  | line inLine allowed ends later ih =>
    rw [List.append_assoc, List.cons_append]
    exact .line inLine allowed ends (ih h')
  | block inLine allowed ends opens inner closes later _ ih =>
    simp only [List.append_assoc, List.cons_append]
    exact .block inLine allowed ends opens inner closes (ih h')

theorem Token.IsMark.ne_eof {k : TokenKind} (h : x.IsMark k) (hk : k ≠ .eof) : x.kind ≠ .eof := by
  rw [h.kind_eq]
  exact hk

theorem Token.ne_of_word {k : TokenKind} (h : x.isStructural = false) (hk : k.isStructural = true) :
    x.kind ≠ k :=
  TokenKind.ne_of_isStructural h hk

theorem LinesOf.ne_eof (h : LinesOf K tokens) : ∀ t ∈ tokens, t.kind ≠ .eof := by
  induction h with
  | nil => simp
  | line inLine allowed ends later ih =>
    simp only [List.forall_mem_append, List.forall_mem_cons]
    exact ⟨fun t ht => Token.ne_of_word (inLine t ht) rfl, ends.ne_eof (by decide), ih⟩
  | block inLine allowed ends opens inner closes later ihinner ih =>
    simp only [List.forall_mem_append, List.forall_mem_cons]
    exact ⟨fun t ht => Token.ne_of_word (inLine t ht) rfl, ends.ne_eof (by decide),
      opens.ne_eof (by decide), ihinner, closes.ne_eof (by decide), ih⟩

theorem IsBelow.ne_eof (h : IsBelow below) : ∀ t ∈ below, t.kind ≠ .eof := by
  cases h with
  | none => simp
  | block opens inner closes =>
    simp only [List.forall_mem_append, List.forall_mem_cons]
    exact ⟨opens.ne_eof (by decide), inner.ne_eof, closes.ne_eof (by decide), by simp⟩

/-- A body begins with a word or with the end of an empty line. -/
theorem LinesOf.head_ne_indent (h : LinesOf K tokens) : ∀ t ∈ tokens.head?, t.kind ≠ .indent := by
  have hwords {words rest : List Token} {newline : Token}
      (inLine : ∀ t ∈ words, t.isStructural = false) (ends : newline.IsMark .newline) :
      ∀ t ∈ (words ++ newline :: rest).head?, t.kind ≠ .indent := by
    intro t ht hk
    cases words with
    | nil =>
      cases ht
      rw [ends.kind_eq] at hk
      exact nomatch hk
    | cons y words =>
      cases ht
      exact Token.ne_of_word (inLine _ (List.mem_cons_self ..)) rfl hk
  cases h with
  | nil => simp
  | line inLine allowed ends later => exact hwords inLine ends
  | block inLine allowed ends opens inner closes later => exact hwords inLine ends

theorem LinesOf.head_append_ne_indent (h : LinesOf K tokens)
    (hmore : ∀ t ∈ more.head?, t.kind ≠ .indent) :
    ∀ t ∈ (tokens ++ more).head?, t.kind ≠ .indent := by
  cases tokens with
  | nil => exact hmore
  | cons x tokens => exact h.head_ne_indent

namespace ParserState

variable {s : ParserState} {fuel depth : Nat}

theorem kind_ne_of_head {k : TokenKind} (h : s.tokens = l) (hl : ∀ t ∈ l.head?, t.kind ≠ k) :
    s.kind ≠ k := by
  obtain ⟨rest, hrest⟩ := s.exists_tokens
  exact hl s.current (by rw [← h, hrest]; rfl)

theorem atEnd_of_tokens (he : s.ending.kind = .eof) (h : s.tokens = x :: l) (hx : x.kind ≠ .eof) :
    s.atEnd = false :=
  atEnd_of_ne he (kind_of_tokens h ▸ hx)

theorem ending_iterate (n : Nat) (s : ParserState) : (advance^[n] s).ending = s.ending := by
  induction n generalizing s with
  | zero => rfl
  | succ n ih => rw [Function.iterate_succ_apply, ih, advance_ending]

theorem tokens_iterate (he : s.ending.kind = .eof) (h : s.tokens = u ++ v)
    (hu : ∀ t ∈ u, t.kind ≠ .eof) : (advance^[u.length] s).tokens = v := by
  induction u generalizing s with
  | nil => exact h
  | cons x u ih =>
    have hnext := (advance_of_tokens he h (hu x (List.mem_cons_self ..))).1
    rw [List.length_cons, Function.iterate_succ_apply]
    exact ih (by simpa using he) hnext fun t ht => hu t (List.mem_cons_of_mem _ ht)

theorem remaining_of_tokens (h : s.tokens = u) : s.remaining + 1 = u.length := by
  rw [← h, tokens, List.length_append]
  rfl

/-- How many levels are left behind a token of the kind, where `depth + 1` are left before it. -/
def levelsBehind (depth : Nat) : TokenKind → Nat
  | .indent => depth + 2
  | .dedent => depth
  | _ => depth + 1

theorem levelsBehind_of_ne {k : TokenKind} (hindent : k ≠ .indent) (hdedent : k ≠ .dedent) :
    levelsBehind depth k = depth + 1 := by
  cases k with
  | indent => exact absurd rfl hindent
  | dedent => exact absurd rfl hdedent
  | _ => rfl

theorem skipLevels_succ (he : s.ending.kind = .eof) (hk : s.kind ≠ .eof) :
    skipLevels (fuel + 1) (depth + 1) s =
      skipLevels fuel (levelsBehind depth s.kind) s.advance := by
  rw [skipLevels, if_neg (by simp [atEnd_of_ne he hk])]
  cases s.kind <;> rfl

theorem skipLevels_token (he : s.ending.kind = .eof) (h : s.tokens = x :: l) (hx : x.kind ≠ .eof) :
    skipLevels (fuel + 1) (depth + 1) s =
      skipLevels fuel (levelsBehind depth x.kind) s.advance := by
  rw [skipLevels_succ he (kind_of_tokens h ▸ hx), kind_of_tokens h]

/-- Skipping levels passes the tokens and is at the same depth behind them. -/
def Skippable (u : List Token) : Prop :=
  ∀ ⦃s : ParserState⦄ ⦃v : List Token⦄ (fuel depth : Nat), s.ending.kind = .eof →
    s.tokens = u ++ v →
    skipLevels (fuel + u.length) (depth + 1) s = skipLevels fuel (depth + 1) (advance^[u.length] s)

theorem skippable_nil : Skippable [] := fun _ _ _ _ _ _ => rfl

theorem Skippable.append (h : Skippable u) (h' : Skippable v) (hu : ∀ t ∈ u, t.kind ≠ .eof) :
    Skippable (u ++ v) := by
  intro s l fuel depth he htokens
  rw [List.append_assoc] at htokens
  have hlength : fuel + (u ++ v).length = fuel + v.length + u.length := by
    rw [List.length_append]
    omega
  have hiterate : advance^[(u ++ v).length] s = advance^[v.length] (advance^[u.length] s) := by
    rw [List.length_append, Nat.add_comm, Function.iterate_add_apply]
  rw [hlength, hiterate, h _ _ he htokens]
  exact h' _ _ ((ending_iterate _ s).symm ▸ he) (tokens_iterate he htokens hu)

theorem skippable_single (hx : x.kind ≠ .eof) (hindent : x.kind ≠ .indent)
    (hdedent : x.kind ≠ .dedent) : Skippable [x] := by
  intro s l fuel depth he htokens
  rw [List.length_singleton, skipLevels_token he htokens hx, levelsBehind_of_ne hindent hdedent]
  rfl

theorem skippable_words (hwords : ∀ t ∈ words, t.isStructural = false) : Skippable words := by
  induction words with
  | nil => exact skippable_nil
  | cons x words ih =>
    have hx := hwords x (List.mem_cons_self ..)
    have hne : x.kind ≠ .eof := Token.ne_of_word hx rfl
    have hfirst : Skippable [x] :=
      skippable_single hne (Token.ne_of_word hx rfl) (Token.ne_of_word hx rfl)
    exact hfirst.append (ih fun t ht => hwords t (List.mem_cons_of_mem _ ht)) (by simpa using hne)

theorem skippable_newline (hx : x.IsMark .newline) : Skippable [x] := by
  apply skippable_single
  · exact hx.ne_eof (by decide)
  · simp [hx.kind_eq]
  · simp [hx.kind_eq]

/-- Within a block the depth is one more. -/
theorem skippable_block {indent dedent : Token} {body : List Token}
    (hindent : indent.IsMark .indent)
    (h : Skippable body) (hbody : ∀ t ∈ body, t.kind ≠ .eof) (hdedent : dedent.IsMark .dedent) :
    Skippable (indent :: (body ++ [dedent])) := by
  intro s l fuel depth he htokens
  have htokens' : s.tokens = indent :: (body ++ dedent :: l) := by simpa using htokens
  have hne : indent.kind ≠ .eof := hindent.ne_eof (by decide)
  have hlength : fuel + (indent :: (body ++ [dedent])).length = fuel + 1 + body.length + 1 := by
    simp only [List.length_cons, List.length_append, List.length_nil]
    omega
  have hiterate : advance^[(indent :: (body ++ [dedent])).length] s =
      (advance^[body.length] s.advance).advance := by
    rw [List.length_cons, List.length_append, List.length_singleton, Function.iterate_succ_apply,
      Function.iterate_succ_apply']
  have hinner := (advance_of_tokens he htokens' hne).1
  have heinner : s.advance.ending.kind = .eof := by simpa using he
  have hclose := tokens_iterate heinner hinner hbody
  have heclose : (advance^[body.length] s.advance).ending.kind = .eof := by
    rw [ending_iterate, heinner]
  have hopens : levelsBehind depth indent.kind = depth + 1 + 1 := by rw [hindent.kind_eq]; rfl
  have hcloses : levelsBehind (depth + 1) dedent.kind = depth + 1 := by rw [hdedent.kind_eq]; rfl
  rw [hlength, hiterate, skipLevels_token he htokens' hne, hopens, h _ _ heinner hinner,
    skipLevels_token heclose hclose (hdedent.ne_eof (by decide)), hcloses]

theorem skippable_body (h : LinesOf K tokens) : Skippable tokens := by
  induction h with
  | nil => exact skippable_nil
  | line inLine allowed ends later ih =>
    have hlater := (skippable_newline ends).append ih (by simpa using ends.ne_eof (by decide))
    exact (skippable_words inLine).append hlater fun t ht => Token.ne_of_word (inLine t ht) rfl
  | @block K words body rest newline indent dedent inLine allowed ends opens inner closes later
      ihinner ih =>
    have hbelow := skippable_block opens ihinner inner.ne_eof closes
    have hlater := hbelow.append ih (IsBelow.block opens inner closes).ne_eof
    have hline := (skippable_newline ends).append hlater (by simpa using ends.ne_eof (by decide))
    have hall := (skippable_words inLine).append hline
      fun t ht => Token.ne_of_word (inLine t ht) rfl
    simpa using hall

/-- A block is passed as a whole. -/
theorem skipBlock_of_below (h : IsBelow below) (he : s.ending.kind = .eof)
    (htokens : s.tokens = below ++ v) (hv : ∀ t ∈ v.head?, t.kind ≠ .indent) :
    s.skipBlock = advance^[below.length] s := by
  unfold skipBlock
  cases h with
  | none =>
    rw [if_neg]
    · rfl
    · exact fun hk => kind_ne_of_head htokens hv (beq_iff_eq.mp hk)
  | @block body indent dedent opens inner closes =>
    have htokens' : s.tokens = indent :: (body ++ dedent :: v) := by simpa using htokens
    have hne : indent.kind ≠ .eof := opens.ne_eof (by decide)
    have hkind := (kind_of_tokens htokens').trans opens.kind_eq
    have hinner := (advance_of_tokens he htokens' hne).1
    have heinner : s.advance.ending.kind = .eof := by simpa using he
    have hclose := tokens_iterate heinner hinner inner.ne_eof
    have heclose : (advance^[body.length] s.advance).ending.kind = .eof := by
      rw [ending_iterate, heinner]
    -- The bound is the number of tokens to come, so some of it is left behind the block.
    obtain ⟨fuel, hfuel⟩ : ∃ fuel, s.remaining = fuel + 1 + body.length := by
      have hremaining := remaining_of_tokens htokens'
      simp only [List.length_cons, List.length_append] at hremaining
      exact ⟨v.length, by omega⟩
    rw [if_pos (by simpa using hkind), hfuel, skippable_body inner _ _ heinner hinner,
      skipLevels_token heclose hclose (closes.ne_eof (by decide)), closes.kind_eq, List.length_cons,
      List.length_append, List.length_singleton, Function.iterate_succ_apply,
      Function.iterate_succ_apply']
    cases fuel <;> rfl

/-- From within a line the rest of it is passed with the block below. -/
theorem skipLine_of_words (hwords : ∀ t ∈ words, t.isStructural = false) {newline : Token}
    (hnewline : newline.IsMark .newline) (h : IsBelow below) (hv : ∀ t ∈ v.head?, t.kind ≠ .indent)
    {moved : Bool} {fuel : Nat} (hfuel : words.length < fuel)
    (hmoved : moved = true → s.atLineStart = false) (he : s.ending.kind = .eof)
    (htokens : s.tokens = words ++ newline :: (below ++ v)) :
    skipLine moved fuel s = advance^[words.length + (below.length + 1)] s := by
  induction words generalizing s moved fuel with
  | nil =>
    obtain ⟨fuel, rfl⟩ := Nat.exists_eq_succ_of_ne_zero (Nat.ne_zero_of_lt hfuel)
    have hkind := (kind_of_tokens htokens).trans hnewline.kind_eq
    have hnext := (advance_of_tokens he htokens (hnewline.ne_eof (by decide))).1
    rw [skipLine, hkind, List.length_nil, Nat.zero_add, Function.iterate_succ_apply]
    exact skipBlock_of_below h (by simpa using he) hnext hv
  | cons x words ih =>
    obtain ⟨fuel, rfl⟩ := Nat.exists_eq_succ_of_ne_zero (Nat.ne_zero_of_lt hfuel)
    have hx := hwords x (List.mem_cons_self ..)
    have hkind := kind_of_tokens htokens
    obtain ⟨hnext, hprevious, -⟩ := advance_of_tokens he htokens (Token.ne_of_word hx rfl)
    have hmiddle : s.advance.atLineStart = false := by
      have hne {k : TokenKind} (hk : k.isStructural = true) : (x.kind == k) = false :=
        beq_eq_false_iff_ne.mpr (Token.ne_of_word hx hk)
      unfold atLineStart
      rw [hprevious]
      dsimp only
      rw [hne rfl, hne rfl, hne rfl]
      rfl
    have hskip : skipLine true fuel s.advance =
        advance^[words.length + (below.length + 1)] s.advance :=
      ih (fun t ht => hwords t (List.mem_cons_of_mem _ ht)) (by simpa using hfuel)
        (fun _ => hmiddle) (by simpa using he) hnext
    rw [List.length_cons, Nat.succ_add, Function.iterate_succ_apply, ← hskip, skipLine]
    split
    case h_1 hk => exact absurd (hkind.symm.trans hk) (Token.ne_of_word hx rfl)
    case h_2 hk => exact absurd (hkind.symm.trans hk) (Token.ne_of_word hx rfl)
    case h_3 hk => exact absurd (hkind.symm.trans hk) (Token.ne_of_word hx rfl)
    case h_4 hk => exact absurd (hkind.symm.trans hk) (Token.ne_of_word hx rfl)
    case h_5 =>
      rw [if_neg]
      intro hstop
      simp only [Bool.and_eq_true] at hstop
      rw [hmoved hstop.2] at hstop
      cases hstop.1.2

end ParserState

namespace Frame

variable {F : Frame} {b : Footing} {s s' : ParserState}

/-- No block begins at the frame, and problems are not counted. -/
structure Clear (F : Frame) : Prop where
  left : ∀ t ∈ F.left.head?, t.kind ≠ .indent
  right : ∀ t ∈ F.right.head?, t.kind ≠ .indent
  uncapped : F.cap = 0

/-- The frame behind further tokens that both parses share. -/
def push (F : Frame) (v : List Token) : Frame :=
  { F with left := v ++ F.left, right := v ++ F.right }

theorem alike_push : (F.push v).Alike b u s s' ↔ F.Alike b (u ++ v) s s' := by
  constructor
  · intro h
    exact { h with
      left := by rw [List.append_assoc]; exact h.left
      right := by rw [List.append_assoc]; exact h.right }
  · intro h
    exact { h with
      left := by rw [h.left, List.append_assoc]; rfl
      right := by rw [h.right, List.append_assoc]; rfl }

theorem Clear.push (h : F.Clear) (hv : ∀ t ∈ v.head?, t.kind ≠ .indent) : (F.push v).Clear := by
  cases v with
  | nil => exact h
  | cons x v => exact ⟨hv, hv, h.uncapped⟩

theorem Alike.advances (h : F.Alike b (u ++ v) s s') (hb : b ≤ .text)
    (hu : ∀ t ∈ u, t.kind ≠ .eof) :
    F.Alike b v (ParserState.advance^[u.length] s) (ParserState.advance^[u.length] s') := by
  induction u generalizing s s' with
  | nil => exact h
  | cons x u ih =>
    rw [List.length_cons, Function.iterate_succ_apply, Function.iterate_succ_apply]
    refine ih ?_ fun t ht => hu t (List.mem_cons_of_mem _ ht)
    cases hx : x.isStructural with
    | false => exact (h.advance_word hx).weaken b.le_word
    | true => exact h.advance_layout hx (hu x (List.mem_cons_self ..)) hb

/-- Two parses recover alike from within a line. -/
theorem Alike.recover_line {newline : Token} (hF : F.Clear)
    (hwords : ∀ t ∈ words, t.isStructural = false) (hnewline : newline.IsMark .newline)
    (hbelow : IsBelow below) (hb : b ≤ .text) (h : F.Alike b (words ++ newline :: below) s s')
    (p : ParseProblem) : F.Alike b [] (s.recover p) (s'.recover p) := by
  have hreport := h.report p
  have hskip {u : ParserState} {behind : List Token} (he : u.ending.kind = .eof)
      (htokens : u.tokens = (words ++ newline :: below) ++ behind)
      (hbehind : ∀ t ∈ behind.head?, t.kind ≠ .indent) :
      u.synchronize = ParserState.advance^[(words ++ newline :: below).length] u := by
    have htokens' : u.tokens = words ++ newline :: (below ++ behind) := by simpa using htokens
    have hfuel : words.length < u.remaining + 1 := by
      rw [ParserState.remaining_of_tokens htokens', List.length_append, List.length_cons]
      omega
    rw [List.length_append, List.length_cons]
    exact ParserState.skipLine_of_words hwords hnewline hbelow hbehind hfuel
      (fun hmoved => nomatch hmoved) he htokens'
  unfold ParserState.recover
  rw [hskip hreport.leftEnding hreport.left hF.left,
    hskip hreport.rightEnding hreport.right hF.right]
  apply Alike.advances ((List.append_nil _).symm ▸ hreport) hb
  simp only [List.forall_mem_append, List.forall_mem_cons]
  exact ⟨fun t ht => Token.ne_of_word (hwords t ht) rfl, hnewline.ne_eof (by decide), hbelow.ne_eof⟩

/-- Two parses recover alike from the beginning of a block. -/
theorem Alike.recover_block {indent dedent : Token} {body : List Token}
    (hindent : indent.IsMark .indent) (hbody : IsBody body) (hdedent : dedent.IsMark .dedent)
    (hb : b ≤ .text) (h : F.Alike b (indent :: (body ++ [dedent])) s s') (p : ParseProblem)
    (hF : F.Clear) :
    F.Alike b [] (s.recover p) (s'.recover p) := by
  have hbelow : IsBelow (indent :: (body ++ [dedent])) := .block hindent hbody hdedent
  have hreport := h.report p
  have hskip {u : ParserState} {behind : List Token} (he : u.ending.kind = .eof)
      (htokens : u.tokens = (indent :: (body ++ [dedent])) ++ behind)
      (hbehind : ∀ t ∈ behind.head?, t.kind ≠ .indent) :
      u.synchronize = ParserState.advance^[(indent :: (body ++ [dedent])).length] u := by
    have hkind : u.kind = .indent := (ParserState.kind_of_tokens htokens).trans hindent.kind_eq
    rw [← ParserState.skipBlock_of_below hbelow he htokens hbehind, ParserState.synchronize,
      ParserState.skipLine, hkind]
  unfold ParserState.recover
  rw [hskip hreport.leftEnding hreport.left hF.left,
    hskip hreport.rightEnding hreport.right hF.right]
  exact Alike.advances ((List.append_nil _).symm ▸ hreport) hb hbelow.ne_eof

end Frame

end AgentScript
