import AgentScript.Proofs.Reading.Coverage
import AgentScript.Proofs.Reading.LineStructure
import AgentScript.Proofs.Writing.Marks

/-!
# Outlines

An outline is written one line after the other, every line two spaces deeper than the line
it belongs to. It is read as the tokens of its lines, each with the end of its line, and
around the lines below a line as the beginning and the end of a block. The ends of blocks
are only read where the next line begins, so what has been read so far is compared with
the tokens that are due. A line can also be read with text that it captures from below, as
long as what comes next is not captured too.
-/
namespace AgentScript

open CharClass Lexeme

/-- Lines with the lines below each of them. -/
inductive Outline (α : Type)
  | nil
  | line (head : α) (body next : Outline α)

namespace Outline

variable {α : Type}

/-- Items with the outlines below them, one after the other. -/
def ofList : List (α × Outline α) → Outline α
  | [] => nil
  | (head, body) :: rest => line head body (ofList rest)

/-- The text of an outline that stands at a depth. -/
def print (text : α → List Char) : Nat → Outline α → List Char
  | _, nil => []
  | depth, line head body next =>
    List.replicate (2 * depth) ' ' ++ text head ++
      '\n' :: (print text (depth + 1) body ++ print text depth next)

/-- The tokens of a block, if there is one. -/
def blockForms : Outline α → List TokenForm → List TokenForm
  | nil, _ => []
  | line .., forms => .ofKind .indent :: forms ++ [.ofKind .dedent]

/-- The tokens of an outline. -/
def forms (words : α → List TokenForm) : Outline α → List TokenForm
  | nil => []
  | line head body next =>
    words head ++ .ofKind .newline :: (blockForms body (forms words body) ++ forms words next)

/-- The tokens of an item with what is below it. -/
def itemForms (words : α → List TokenForm) (item : α × Outline α) : List TokenForm :=
  words item.1 ++ .ofKind .newline :: blockForms item.2 (forms words item.2)

theorem forms_ofList (words : α → List TokenForm) (items : List (α × Outline α)) :
    forms words (ofList items) = items.flatMap (itemForms words) := by
  induction items with
  | nil => rfl
  | cons item items ih => simp [ofList, forms, itemForms, ih]

end Outline

/-- A text that begins neither with a blank nor with a line break or a comment. -/
def OpensLine (text : List Char) : Prop := ∃ c rest, text = c :: rest ∧ Significant c

/-- A text that can stand alone in a line, and what it is read as. -/
structure LineReadsAs (text : List Char) (forms : List TokenForm) : Prop where
  opens : OpensLine text
  reads : WithinLine (· = .default) BeginsValue text forms Anything (·.head? = some '\n')

/-- The levels of a line at a depth. -/
def evenLevels : Nat → List Nat
  | 0 => []
  | depth + 1 => 2 * (depth + 1) :: evenLevels depth

theorem length_evenLevels (depth : Nat) : (evenLevels depth).length = depth := by
  induction depth with
  | zero => rfl
  | succ depth ih => rw [evenLevels, List.length_cons, ih]

theorem headD_evenLevels (depth : Nat) : (evenLevels depth).headD 0 = 2 * depth := by
  cases depth <;> rfl

/-- The levels above a depth are closed by a line at the depth. -/
theorem takeWhile_evenLevels (depth n : Nat) :
    (evenLevels (depth + n)).takeWhile (2 * depth < ·) = (evenLevels (depth + n)).take n := by
  induction n with
  | zero =>
    cases depth with
    | zero => rfl
    | succ depth =>
      rw [Nat.add_zero, evenLevels, List.takeWhile_cons_of_neg (by simp), List.take_zero]
  | succ n ih =>
    have hlt : 2 * depth < 2 * (depth + n + 1) := by omega
    rw [← Nat.add_assoc, evenLevels, List.takeWhile_cons_of_pos (by exact decide_eq_true hlt), ih,
      List.take_succ_cons]

theorem drop_evenLevels (depth n : Nat) : (evenLevels (depth + n)).drop n = evenLevels depth := by
  induction n with
  | zero => rfl
  | succ n ih => rw [← Nat.add_assoc, evenLevels, List.drop_succ_cons, ih]

namespace Reindent

theorem ofWidth_evenLevels_succ (depth : Nat) :
    ofWidth (evenLevels depth) (2 * (depth + 1)) = ⟨evenLevels (depth + 1), true, 0, true⟩ :=
  ofWidth_opens (by rw [headD_evenLevels]; omega)

theorem ofWidth_evenLevels_add (depth n : Nat) :
    ofWidth (evenLevels (depth + n)) (2 * depth) = ⟨evenLevels depth, false, n, true⟩ := by
  have hlength : ((evenLevels (depth + n)).takeWhile (2 * depth < ·)).length = n := by
    rw [takeWhile_evenLevels, List.length_take, length_evenLevels]
    omega
  have htop : ¬ (evenLevels (depth + n)).headD 0 < 2 * depth := by
    rw [headD_evenLevels]
    omega
  have hlanding : ((evenLevels (depth + n)).drop n).headD 0 = 2 * depth := by
    rw [drop_evenLevels, headD_evenLevels]
  unfold ofWidth
  rw [if_neg htop]
  dsimp only
  rw [hlength, hlanding, if_pos rfl, drop_evenLevels]
  simp

end Reindent

/-- Behind the end of a line, when nothing is left of it but the levels. -/
structure Layout.PastLine (levels : List Nat) (l : Layout) : Prop where
  atLineStart : l.atLineStart = true
  levels_eq : l.levels = levels
  brackets_eq : l.brackets = []
  modes_eq : l.modes = .initial

/-- A text that can stand at a depth, and what it is read as with its end, where `follow` holds of
what comes next. -/
structure EntryReadsAs (depth : Nat) (text : List Char) (forms : List TokenForm)
    (follow : List Char → Prop) : Prop where
  opens : OpensLine text
  reads : ReadsAs (Layout.InLine (evenLevels depth) [] (· = .default)) BeginsValue (text ++ ['\n'])
    (forms ++ [.ofKind .newline]) (Layout.PastLine (evenLevels depth)) follow

/-- The end of a line that no bracket holds open. -/
theorem readsAs_newline {levels : List Nat} :
    ReadsAs (Layout.InLine levels [] Anything) Anything ['\n'] [.ofKind .newline]
      (Layout.PastLine levels) Anything := by
  refine readsAs_of_within fun l previous p rest hl _ _ => ?_
  have hopen : l.brackets = [] := List.map_eq_nil_iff.mp hl.brackets_eq
  refine ⟨⟨[.token .newline 1], l.leaveLine⟩, ?_, .mark fun _ _ => rfl, rfl, hl.levels_eq, hopen,
    hl.leaves⟩
  change Round.endLine l 1 = _
  simp [Round.endLine, hopen]

/-- A line that nothing is captured below. -/
theorem LineReadsAs.entry {text : List Char} {forms : List TokenForm} (h : LineReadsAs text forms)
    (depth : Nat) : EntryReadsAs depth text forms Anything :=
  ⟨h.opens, (h.reads (evenLevels depth) []).append readsAs_newline (fun _ _ => trivial)
    fun _ _ => rfl⟩

/-- The text is not captured below a line of the width. -/
def EndsBlock (width : Nat) (text : List Char) : Prop := text = [] ∨ captures width text = false

theorem EndsBlock.mono {width width' : Nat} {text : List Char} (h : EndsBlock width text)
    (hle : width ≤ width') : EndsBlock width' text := by
  refine h.imp_right fun h => ?_
  rw [captures, Bool.or_eq_false_iff, decide_eq_false_iff_not] at h ⊢
  exact ⟨h.1, fun hlt => h.2 (Nat.lt_of_le_of_lt hle hlt)⟩

namespace Outline

variable {α : Type} {print : α → List Char} {words : α → List TokenForm} {depth : Nat}
  {o : Outline α}

/-- An outline with entries that are read as their tokens. There are no lines below an entry that
captures what is below it. -/
inductive Readable (print : α → List Char) (words : α → List TokenForm) : Nat → Outline α → Prop
  | nil (depth : Nat) : Readable print words depth .nil
  | line {depth : Nat} {head : α} {body next : Outline α}
    (hhead : LineReadsAs (print head) (words head)) (hbody : Readable print words (depth + 1) body)
    (hnext : Readable print words depth next) : Readable print words depth (.line head body next)
  | capture {depth : Nat} {head : α} {next : Outline α}
    (hhead : EntryReadsAs depth (print head) (words head) (EndsBlock (2 * depth)))
    (hnext : Readable print words depth next) : Readable print words depth (.line head .nil next)

theorem readable_of_lines (h : ∀ a, LineReadsAs (print a) (words a)) (o : Outline α)
    (depth : Nat) : o.Readable print words depth := by
  induction o generalizing depth with
  | nil => exact .nil depth
  | line head body next ihbody ihnext => exact .line (h head) (ihbody _) (ihnext _)

theorem readable_ofList {items : List (α × Outline α)}
    (h : ∀ item ∈ items, Readable print words depth (.line item.1 item.2 .nil)) :
    (ofList items).Readable print words depth := by
  induction items with
  | nil => exact .nil depth
  | cons item items ih =>
    obtain ⟨head, body⟩ := item
    obtain ⟨hitem, hitems⟩ := List.forall_mem_cons.mp h
    cases hitem with
    | line hhead hbody _ => exact .line hhead hbody (ih hitems)
    | capture hhead _ => exact .capture hhead (ih hitems)

end Outline

namespace Reading

/-- What has been read of a text so far, without a fault. -/
structure Reached (text : List Char) (forms : List TokenForm) (r : Reading) : Prop where
  rounds : ∃ n, rounds n (start text) = r
  tokens : Token.Match r.transcript.tokens.toList forms
  faults : r.transcript.faults = #[]

theorem Reached.yields {text text' : List Char} {forms forms' : List TokenForm} {r r' : Reading}
    (h : Reached text forms r) (h' : r.Yields r' text' forms') :
    Reached text (forms ++ forms') r' := by
  obtain ⟨m, hm⟩ := h.rounds
  obtain ⟨n, hn⟩ := h'.rounds
  obtain ⟨added, hadded, hforms⟩ := h'.gains.tokens
  refine ⟨⟨m + n, by rw [rounds_add, hm, hn]⟩, ?_, h'.gains.faults.trans h.faults⟩
  rw [hadded]
  exact List.rel_append h.tokens hforms

/-- The layout before a line. -/
structure AtLine (depth : Nat) (r : Reading) : Prop where
  atLineStart : r.layout.atLineStart = true
  levels : r.layout.levels = evenLevels depth
  brackets : r.layout.brackets = []
  modes : r.layout.modes = .initial
  previous : BeginsValue r.transcript.cursor.previous
  closed : r.transcript.endsInLine = false

/-- The tokens of the lines so far with the ends of the blocks deeper than `depth`. -/
structure Closing (text : List Char) (depth : Nat) (forms : List TokenForm) (r : Reading) :
    Prop where
  due : ∃ n read, r.AtLine (depth + n) ∧ Reached text read r ∧
    forms = read ++ List.replicate n (.ofKind .dedent)

/-- The next line can stand at the depth, where the tokens of its block's beginning or of the
ends of blocks are added to what has been read. -/
inductive Awaits (text : List Char) (depth : Nat) (forms : List TokenForm) (r : Reading) : Prop
  | closing (h : Closing text depth forms r)
  | opening (outer : Nat) (read : List TokenForm) (hdepth : depth = outer + 1)
    (hline : r.AtLine outer) (hread : Reached text read r)
    (hforms : forms = read ++ [.ofKind .indent])

variable {text : List Char} {depth : Nat} {forms : List TokenForm} {r : Reading}

theorem closing_start (text : List Char) : Closing text 0 [] (start text) :=
  ⟨⟨0, [], ⟨rfl, rfl, rfl, rfl, rfl, rfl⟩, ⟨⟨0, rfl⟩, .nil, rfl⟩, rfl⟩⟩

/-- A block that has been read is closed before anything at the depth of its line. -/
theorem Closing.leave (h : Closing text (depth + 1) forms r) :
    Closing text depth (forms ++ [.ofKind .dedent]) r := by
  obtain ⟨n, read, hline, hread, rfl⟩ := h.due
  refine ⟨⟨n + 1, read, ?_, hread, ?_⟩⟩
  · rwa [Nat.add_right_comm] at hline
  · rw [List.append_assoc, List.replicate_succ']

/-- The pieces of a line's indentation. -/
theorem divides_indentation (blanks closes : Nat) :
    Divides (.skip blanks :: List.replicate closes (.token .dedent 0)) (List.replicate blanks ' ')
      (List.replicate closes (.ofKind .dedent)) := by
  have hmarks : Divides (List.replicate closes (.token .dedent 0)) []
      (List.replicate closes (.ofKind .dedent)) := by
    induction closes with
    | zero => exact .nil
    | succ n ih => exact .token [] (fun _ _ => rfl) ih
  simpa using Divides.skip (List.replicate blanks ' ') hmarks

theorem restIsBlank_blanks {n : Nat} {c : Char} {rest : List Char} (hc : Significant c) :
    restIsBlank (List.replicate n ' ' ++ c :: rest) = false := by
  have hnext : nextSignificant? (List.replicate n ' ' ++ c :: rest) = some c := by
    rw [nextSignificant?, List.dropWhile_append_of_pos (by simp [isInlineSpace]),
      List.dropWhile_cons_of_neg (by simp [hc.notSpace])]
    rfl
  simp [restIsBlank, hnext, hc.notBreak, hc.notComment]

theorem blankLength_blanks {n : Nat} {c : Char} {rest : List Char} (hc : Significant c) :
    blankLength (List.replicate n ' ' ++ c :: rest) = n := by
  rw [blankLength, spanLength, List.takeWhile_append_of_pos (by simp [isInlineSpace]),
    List.takeWhile_cons_of_neg (by simp [hc.notSpace]), List.append_nil, List.length_replicate]

/-- What stands no deeper than the width is not captured. -/
theorem endsBlock_blanks {n width : Nat} {c : Char} {rest : List Char} (hc : Significant c)
    (hle : n ≤ width) : EndsBlock width (List.replicate n ' ' ++ c :: rest) := by
  refine .inr ?_
  rw [captures, blankLength_blanks hc, List.dropWhile_append_of_pos (by simp [isInlineSpace]),
    List.dropWhile_cons_of_neg (by simp [hc.notSpace]), List.head?_cons, Option.all_some,
    hc.notBreak, Bool.false_or, decide_eq_false_iff_not]
  exact Nat.not_lt.mpr hle

/-- A line's indentation brings the levels to those of its depth. -/
theorem AtLine.yields_indentation {outer closes : Nat} {opens : Bool} {added : List TokenForm}
    {c : Char} {rest : List Char} (h : r.AtLine outer)
    (hindent : Reindent.ofWidth (evenLevels outer) (2 * depth) =
      ⟨evenLevels depth, opens, closes, true⟩)
    (hdivides : Divides (Round.indentation ⟨evenLevels depth, opens, closes, true⟩ (2 * depth))
      (List.replicate (2 * depth) ' ') added)
    (hr : r.rest = List.replicate (2 * depth) ' ' ++ c :: rest) (hc : Significant c) :
    ∃ r', r.Yields r' (List.replicate (2 * depth) ' ') added ∧
      BeginsValue r'.transcript.cursor.previous ∧
      r'.layout.InLine (evenLevels depth) [] (· = .default) := by
  have hne : r.rest ≠ [] := by simp [hr]
  have hbegins : r.layout.beginsLine = true := by
    simp [Layout.beginsLine, h.atLineStart, h.brackets]
  have hround : Round.next r.layout r.transcript.cursor =
      ⟨Round.indentation ⟨evenLevels depth, opens, closes, true⟩ (2 * depth),
        r.layout.enterLine (2 * depth)⟩ := by
    have hnext : Round.next r.layout r.transcript.cursor = Round.beginLine r.layout r.rest :=
      Round.next_beginsLine hbegins hne
    rw [hnext, hr, Round.beginLine, restIsBlank_blanks hc, if_neg Bool.false_ne_true]
    simp only [blankLength_blanks hc, h.levels, hindent]
  have hyields := yields_round hround hr hne hdivides
  refine ⟨_, hyields, ?_, ⟨rfl, (headD_evenLevels depth).symm, ?_, ?_, ?_, ?_⟩⟩
  · rw [hyields.gains.previous]
    cases hlast : (List.replicate (2 * depth) ' ').getLast? with
    | none => exact h.previous
    | some p =>
      obtain rfl : p = ' ' := (List.mem_replicate.mp (List.mem_of_getLast? hlast)).2
      rfl
  · change (Reindent.ofWidth r.layout.levels (2 * depth)).levels = evenLevels depth
    rw [h.levels, hindent]
  · change r.layout.brackets.map Prod.fst = []
    rw [h.brackets]
    rfl
  · change r.layout.modes.endLine = .initial
    rw [h.modes, ModeStack.endLine_initial]
  · change r.layout.modes.current = .default
    rw [h.modes]
    rfl

/-- A line at the depth begins with the tokens that are due. -/
theorem Awaits.beginLine {c : Char} {rest : List Char} (h : Awaits text depth forms r)
    (hr : r.rest = List.replicate (2 * depth) ' ' ++ c :: rest) (hc : Significant c) :
    ∃ r', Reached text forms r' ∧ r'.rest = c :: rest ∧
      BeginsValue r'.transcript.cursor.previous ∧
      r'.layout.InLine (evenLevels depth) [] (· = .default) := by
  cases h with
  | closing h =>
    obtain ⟨n, read, hline, hread, rfl⟩ := h.due
    obtain ⟨r', hyields, hprevious, hlayout⟩ := hline.yields_indentation
      (Reindent.ofWidth_evenLevels_add depth n) (divides_indentation (2 * depth) n) hr hc
    exact ⟨r', hread.yields hyields, hyields.rest_eq hr, hprevious, hlayout⟩
  | opening outer read hdepth hline hread hforms =>
    subst hdepth hforms
    have hdivides : Divides [.token .indent (List.replicate (2 * (outer + 1)) ' ').length]
        (List.replicate (2 * (outer + 1)) ' ') [.ofKind .indent] := .single fun _ _ => rfl
    rw [List.length_replicate] at hdivides
    obtain ⟨r', hyields, hprevious, hlayout⟩ := hline.yields_indentation
      (Reindent.ofWidth_evenLevels_succ outer) hdivides hr hc
    exact ⟨r', hread.yields hyields, hyields.rest_eq hr, hprevious, hlayout⟩

theorem endsInLine_of_match {t : Transcript} {forms : List TokenForm} {k : TokenKind}
    (h : Token.Match t.tokens.toList (forms ++ [.ofKind k])) (hk : k.isStructural = true) :
    t.endsInLine = false := by
  have hlast := List.forall₂_drop_append _ _ _ h
  cases hdrop : t.tokens.toList.drop forms.length with
  | nil => simp [hdrop] at hlast
  | cons x more =>
    rw [hdrop] at hlast
    cases hlast with
    | cons hx hnil =>
      cases hnil with
      | nil =>
        obtain ⟨front, hfront⟩ : ∃ front, t.tokens.toList = front ++ [x] :=
          ⟨_, by rw [← hdrop, List.take_append_drop]⟩
        have hkind : x.kind = k := hx
        simp [Transcript.endsInLine_eq, Transcript.kinds, hfront, hkind, hk]

/-- An entry is read as its tokens and the end of a line. -/
theorem Awaits.entry {entry rest : List Char} {words : List TokenForm} {follow : List Char → Prop}
    (h : Awaits text depth forms r) (hentry : EntryReadsAs depth entry words follow)
    (hr : r.rest = List.replicate (2 * depth) ' ' ++ entry ++ '\n' :: rest) (hrest : follow rest) :
    ∃ r', r'.rest = rest ∧ r'.AtLine depth ∧
      Reached text (forms ++ (words ++ [.ofKind .newline])) r' := by
  obtain ⟨c, tail, rfl, hc⟩ := hentry.opens
  have hr₁ : r.rest = List.replicate (2 * depth) ' ' ++ c :: (tail ++ '\n' :: rest) := by
    simpa using hr
  obtain ⟨r₁, hread, hrest₁, hprevious, hlayout⟩ := h.beginLine hr₁ hc
  have hrest₂ : r₁.rest = c :: tail ++ ['\n'] ++ rest := by simpa using hrest₁
  obtain ⟨r', hyields, hpast⟩ := hentry.reads hlayout hprevious hrest₂ hrest
  have hlast : r'.transcript.cursor.previous = some '\n' := by
    rw [hyields.gains.previous, List.getLast?_concat]
    rfl
  have hreached := hread.yields hyields
  refine ⟨r', hyields.rest_eq hrest₂, ⟨hpast.atLineStart, hpast.levels_eq,
    hpast.brackets_eq, hpast.modes_eq, ?_, ?_⟩, hreached⟩
  · rw [hlast]
    rfl
  · exact endsInLine_of_match (List.append_assoc .. ▸ hreached.tokens) rfl

section

variable {α : Type} {print : α → List Char} {words : α → List TokenForm}

/-- An outline is not captured below a line that is no less deep. -/
theorem endsBlock_print {o : Outline α} {width : Nat} {rest : List Char}
    (ho : o.Readable print words depth) (hrest : EndsBlock width rest) (hle : 2 * depth ≤ width) :
    EndsBlock width (o.print print depth ++ rest) := by
  have hline (head : α) (body next : Outline α) (h : OpensLine (print head)) :
      EndsBlock width ((Outline.line head body next).print print depth ++ rest) := by
    obtain ⟨c, tail, htext, hc⟩ := h
    rw [Outline.print, htext, List.append_assoc, List.append_assoc]
    exact endsBlock_blanks hc hle
  cases ho with
  | nil => exact hrest
  | line hhead => exact hline _ _ _ hhead.opens
  | capture hhead => exact hline _ _ _ hhead.opens

/-- An outline at the depth is read as its tokens. -/
theorem Awaits.outline {o : Outline α} (ho : o.Readable print words depth) {rest : List Char}
    (h : Awaits text depth forms r) (hnil : o = .nil → Closing text depth forms r)
    (hrest : EndsBlock (2 * depth) rest) (hr : r.rest = o.print print depth ++ rest) :
    ∃ r', r'.rest = rest ∧ Closing text depth (forms ++ o.forms words) r' := by
  induction ho generalizing forms r rest with
  | nil depth => exact ⟨r, hr, by simpa [Outline.forms] using hnil rfl⟩
  | @line depth head body next hhead hbody hnext ihbody ihnext =>
    have hfirst : r.rest = List.replicate (2 * depth) ' ' ++ print head ++
        '\n' :: (body.print print (depth + 1) ++ (next.print print depth ++ rest)) := by
      simpa [Outline.print] using hr
    obtain ⟨r₁, hrest₁, hline₁, hread₁⟩ := h.entry (hhead.entry depth) hfirst trivial
    obtain ⟨r₂, hrest₂, hclosing₂⟩ : ∃ r₂, r₂.rest = next.print print depth ++ rest ∧
        Closing text depth (forms ++ (words head ++ [.ofKind .newline]) ++
          body.blockForms (body.forms words)) r₂ := by
      cases body with
      | nil => exact ⟨r₁, hrest₁, ⟨⟨0, _, hline₁, hread₁, by simp [Outline.blockForms]⟩⟩⟩
      | line head' body' next' =>
        -- What follows the body stands less deep, so the last line of the body cannot capture it.
        have hbehind : EndsBlock (2 * (depth + 1)) (next.print print depth ++ rest) :=
          (endsBlock_print hnext hrest (Nat.le_refl _)).mono (by omega)
        obtain ⟨r₂, hrest₂, hclosing₂⟩ :=
          ihbody (.opening depth _ rfl hline₁ hread₁ rfl) nofun hbehind hrest₁
        exact ⟨r₂, hrest₂, by simpa [Outline.blockForms] using hclosing₂.leave⟩
    obtain ⟨r', hrest', hclosing'⟩ :=
      ihnext (.closing hclosing₂) (fun _ => hclosing₂) hrest hrest₂
    exact ⟨r', hrest', by simpa [Outline.forms] using hclosing'⟩
  | @capture depth head next hhead hnext ihnext =>
    have hfirst : r.rest = List.replicate (2 * depth) ' ' ++ print head ++
        '\n' :: (next.print print depth ++ rest) := by
      simpa [Outline.print] using hr
    obtain ⟨r₁, hrest₁, hline₁, hread₁⟩ :=
      h.entry hhead hfirst (endsBlock_print hnext hrest (Nat.le_refl _))
    have hclosing₁ : Closing text depth (forms ++ (words head ++ [.ofKind .newline])) r₁ :=
      ⟨⟨0, _, hline₁, hread₁, by simp⟩⟩
    obtain ⟨r', hrest', hclosing'⟩ :=
      ihnext (.closing hclosing₁) (fun _ => hclosing₁) hrest hrest₁
    exact ⟨r', hrest', by simpa [Outline.forms, Outline.blockForms] using hclosing'⟩

/-- Readings that use up a text agree. -/
theorem transcribe_eq_finish {r : Reading} {n : Nat} (h : rounds n (start text) = r)
    (hr : r.rest = []) : transcribe text = r.finish := by
  have hend : (rounds (2 * text.length + 1) (start text)).rest = [] :=
    rounds_rest_eq_nil (roundsLeft_start text).le
  have hsame : rounds (2 * text.length + 1) (start text) = r := by
    calc rounds (2 * text.length + 1) (start text)
        = rounds n (rounds (2 * text.length + 1) (start text)) :=
          (rounds_of_rest_isEmpty (by simp [hend]) n).symm
      _ = rounds (2 * text.length + 1) r := by rw [← rounds_add, Nat.add_comm, rounds_add, h]
      _ = r := rounds_of_rest_isEmpty (by simp [hr]) _
  rw [transcribe, hsame]

/-- At the end of the text the blocks still open are closed. -/
theorem Closing.finish (h : Closing text 0 forms r) (hr : r.rest = []) :
    Token.Match (transcribe text).tokens.toList (forms ++ [.ofKind .eof]) ∧
      (transcribe text).faults = #[] := by
  obtain ⟨n, read, hline, hread, rfl⟩ := h.due
  obtain ⟨m, hm⟩ := hread.rounds
  have hmarks : r.endMarks = List.replicate n .dedent ++ [.eof] := by
    rw [endMarks, hline.closed, if_neg Bool.false_ne_true, hline.levels, length_evenLevels,
      Nat.zero_add, List.nil_append]
  rw [transcribe_eq_finish hm hr]
  constructor
  · rw [tokens_finish, hmarks, List.append_assoc]
    refine List.rel_append hread.tokens ?_
    rw [List.forall₂_map_left_iff]
    refine List.rel_append ?_ (.cons rfl .nil)
    rw [List.forall₂_iff_get]
    exact ⟨by simp, fun i hi hi' => by simp [TokenForm.ofKind, Token.mark]⟩
  · rw [finish_eq, faults_foldl_mark, reportUnclosed, hline.brackets, hread.faults]
    rfl

/-- A printed outline is read as its tokens and nothing else. -/
theorem transcribe_print {o : Outline α} (ho : o.Readable print words 0) :
    Token.Match (transcribe (o.print print 0)).tokens.toList (o.forms words ++ [.ofKind .eof]) ∧
      (transcribe (o.print print 0)).faults = #[] := by
  obtain ⟨r, hrest, hclosing⟩ := Awaits.outline ho (.closing (closing_start _))
    (fun _ => closing_start _) (.inl rfl) (List.append_nil _).symm
  exact hclosing.finish hrest

end

end Reading

end AgentScript
