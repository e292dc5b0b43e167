import AgentScript.Proofs.Reflow.Rounds
import AgentScript.Proofs.Writing.Indentation

/-!
# Outlines up to a token

A line can be known up to a token only. An outline with such a line is read as the tokens before
it, whatever else stands on the line and on those below.
-/
namespace AgentScript

open CharClass Lexeme

/-- Rounds from one reading to the other add tokens of the forms, whatever else they add. -/
structure Reading.Gathers (r r' : Reading) (forms : List TokenForm) : Prop where
  rounds : ∃ n, Reading.rounds n r = r'
  tokens : ∃ added, r'.transcript.tokens.toList = r.transcript.tokens.toList ++ added ∧
    Token.Match added forms

namespace Reading

variable {r r' r'' : Reading} {text : List Char} {forms forms' : List TokenForm}

theorem Yields.gathers (h : r.Yields r' text forms) : r.Gathers r' forms :=
  ⟨h.rounds, h.gains.tokens⟩

theorem Gathers.trans (h : r.Gathers r' forms) (h' : r'.Gathers r'' forms') :
    r.Gathers r'' (forms ++ forms') := by
  obtain ⟨m, hm⟩ := h.rounds
  obtain ⟨n, hn⟩ := h'.rounds
  obtain ⟨added, hadded, hforms⟩ := h.tokens
  obtain ⟨added', hadded', hforms'⟩ := h'.tokens
  refine ⟨⟨m + n, by rw [rounds_add, hm, hn]⟩, added ++ added', ?_, List.rel_append hforms hforms'⟩
  rw [hadded', hadded, List.append_assoc]

/-- One round that makes one token. -/
theorem gathers_round {kind : TokenKind} {form : TokenForm} {l : Layout} {n : Nat}
    (hne : r.rest ≠ [])
    (hround : Round.next r.layout r.transcript.cursor = ⟨[.token kind n], l⟩)
    (hform : ∀ text p q, form ⟨kind, text, p, q⟩) : r.Gathers r.round [form] := by
  refine ⟨⟨1, rounds_one hne⟩, _, tokens_round r, ?_⟩
  rw [hround]
  exact .cons (hform _ _ _) .nil

theorem Reached.gathers (h : Reached text forms r) : (start text).Gathers r forms :=
  ⟨h.rounds, _, (List.nil_append _).symm, h.tokens⟩

end Reading

/-- A text that can stand in a line and is read as tokens of the forms up to a token of the kinds
`follow`. -/
structure LineBegins (text : List Char) (forms : List TokenForm) (follow : TokenKind → Prop) :
    Prop where
  opens : OpensLine text
  reads : ∀ ⦃levels : List Nat⦄ ⦃r : Reading⦄ ⦃rest : List Char⦄,
    r.layout.InLine levels [] (· = .default) → BeginsValue r.transcript.cursor.previous →
    r.rest = text ++ '\n' :: rest → ∃ r', r.Gathers r' (forms ++ [fun t => follow t.kind])

/-- A part of the line is read, and one token behind it. -/
theorem LineBegins.of_withinLine {text more : List Char} {forms : List TokenForm}
    {modes : Mode → Prop} {before : List Char → Prop} {follow : TokenKind → Prop}
    (hopens : OpensLine (text ++ more))
    (h : WithinLine (· = .default) BeginsValue text forms modes before)
    (hbefore : ∀ rest, before (more ++ '\n' :: rest))
    (hnext : ∀ ⦃levels : List Nat⦄ ⦃r : Reading⦄ ⦃rest : List Char⦄,
      r.layout.InLine levels [] modes → r.rest = more ++ '\n' :: rest →
      ∃ r', r.Gathers r' [fun t => follow t.kind]) :
    LineBegins (text ++ more) forms follow := by
  refine ⟨hopens, fun levels r rest hl hb hr => ?_⟩
  rw [List.append_assoc] at hr
  obtain ⟨r₁, hyields, hl₁⟩ := h levels [] hl hb hr (hbefore rest)
  obtain ⟨r₂, hgathers⟩ := hnext hl₁ (hyields.rest_eq hr)
  exact ⟨r₂, hyields.gathers.trans hgathers⟩

namespace Outline

variable {α : Type} {print : α → List Char} {words : α → List TokenForm}
  {follow : TokenKind → Prop} {depth : Nat}

/-- An outline that is read as tokens of the forms up to a token of the kinds `follow`, which
stands on its first line, below this or later. -/
inductive Begins (print : α → List Char) (words : α → List TokenForm) (follow : TokenKind → Prop) :
    Nat → Outline α → List TokenForm → Prop
  | here {depth : Nat} {head : α} {body next : Outline α} {forms : List TokenForm}
    (h : LineBegins (print head) forms follow) :
    Begins print words follow depth (.line head body next) forms
  | inside {depth : Nat} {head : α} {body next : Outline α} {forms : List TokenForm}
    (hhead : LineReadsAs (print head) (words head))
    (h : Begins print words follow (depth + 1) body forms) :
    Begins print words follow depth (.line head body next)
      (words head ++ .ofKind .newline :: .ofKind .indent :: forms)
  | behind {depth : Nat} {head : α} {body next : Outline α} {forms : List TokenForm}
    (hhead : LineReadsAs (print head) (words head)) (hbody : Readable print words (depth + 1) body)
    (h : Begins print words follow depth next forms) :
    Begins print words follow depth (.line head body next)
      (itemForms words (head, body) ++ forms)

theorem Begins.opens {o : Outline α} {forms : List TokenForm}
    (h : o.Begins print words follow depth forms) :
    ∃ head body next, o = .line head body next ∧ OpensLine (print head) := by
  cases h with
  | here h => exact ⟨_, _, _, rfl, h.opens⟩
  | inside hhead => exact ⟨_, _, _, rfl, hhead.opens⟩
  | behind hhead => exact ⟨_, _, _, rfl, hhead.opens⟩

/-- Items that lines can be read of, and one that they are read of up to a token. -/
theorem Begins.ofList {items more : List (α × Outline α)} {item : α × Outline α}
    {forms : List TokenForm}
    (hitems : ∀ x ∈ items, LineReadsAs (print x.1) (words x.1) ∧
      x.2.Readable print words (depth + 1))
    (h : Begins print words follow depth (.line item.1 item.2 (ofList more)) forms) :
    Begins print words follow depth (ofList (items ++ item :: more))
      ((ofList items).forms words ++ forms) := by
  induction items with
  | nil => exact h
  | cons x items ih =>
    rw [List.forall_mem_cons] at hitems
    rw [forms_ofList, List.flatMap_cons, ← forms_ofList, List.append_assoc]
    exact .behind hitems.1.1 hitems.1.2 (ih hitems.2)

end Outline

namespace Reading

variable {α : Type} {print : α → List Char} {words : α → List TokenForm}
  {follow : TokenKind → Prop} {depth : Nat} {text : List Char} {r : Reading}

theorem endsBlock_of_begins {o : Outline α} {forms : List TokenForm} {width : Nat}
    {rest : List Char} (h : o.Begins print words follow depth forms) (hle : 2 * depth ≤ width) :
    EndsBlock width (o.print print depth ++ rest) := by
  obtain ⟨head, body, next, rfl, c, tail, htext, hc⟩ := h.opens
  rw [Outline.print, htext, List.append_assoc, List.append_assoc]
  exact endsBlock_blanks hc hle

/-- An outline at the depth is read up to the token. -/
theorem Awaits.begins {o : Outline α} {due forms : List TokenForm} {rest : List Char}
    (ho : o.Begins print words follow depth due) (h : Awaits text depth forms r)
    (hr : r.rest = o.print print depth ++ rest) :
    ∃ r', (start text).Gathers r' (forms ++ (due ++ [fun t => follow t.kind])) := by
  -- The induction goes along the way to the token; what stands behind it is never read.
  induction ho generalizing forms r rest with
  | @here depth head body next due hhead =>
    obtain ⟨c, tail, htext, hc⟩ := hhead.opens
    obtain ⟨behind, hbehind⟩ : ∃ behind, (Outline.line head body next).print print depth ++ rest =
        List.replicate (2 * depth) ' ' ++ (print head ++ '\n' :: behind) :=
      ⟨_, by simp only [Outline.print, List.append_assoc, List.cons_append]; rfl⟩
    have hr₁ : r.rest = List.replicate (2 * depth) ' ' ++ c :: (tail ++ '\n' :: behind) := by
      rw [hr, hbehind, htext, List.cons_append]
    obtain ⟨r₁, hread, hrest₁, hprevious, hlayout⟩ := h.beginLine hr₁ hc
    rw [← List.cons_append, ← htext] at hrest₁
    obtain ⟨r', hgathers⟩ := hhead.reads hlayout hprevious hrest₁
    exact ⟨r', hread.gathers.trans hgathers⟩
  | @inside depth head body next due hhead _ ih =>
    have hfirst : r.rest = List.replicate (2 * depth) ' ' ++ print head ++
        '\n' :: (body.print print (depth + 1) ++ (next.print print depth ++ rest)) := by
      simpa [Outline.print] using hr
    obtain ⟨r₁, hrest₁, hline₁, hread₁⟩ := h.entry (hhead.entry depth) hfirst trivial
    obtain ⟨r', hread⟩ := ih (.opening depth _ rfl hline₁ hread₁ rfl) hrest₁
    exact ⟨r', by simpa using hread⟩
  | @behind depth head body next due hhead hbody hnext ih =>
    have hfirst : r.rest = List.replicate (2 * depth) ' ' ++ print head ++
        '\n' :: (body.print print (depth + 1) ++ (next.print print depth ++ rest)) := by
      simpa [Outline.print] using hr
    obtain ⟨r₁, hrest₁, hline₁, hread₁⟩ := h.entry (hhead.entry depth) hfirst trivial
    obtain ⟨r₂, hrest₂, hclosing₂⟩ : ∃ r₂, r₂.rest = next.print print depth ++ rest ∧
        Closing text depth (forms ++ Outline.itemForms words (head, body)) r₂ := by
      cases body with
      | nil =>
        exact ⟨r₁, hrest₁, ⟨⟨0, _, hline₁, hread₁, by simp [Outline.itemForms,
          Outline.blockForms]⟩⟩⟩
      | line head' body' next' =>
        have hbehind : EndsBlock (2 * (depth + 1)) (next.print print depth ++ rest) :=
          endsBlock_of_begins hnext (by omega)
        obtain ⟨r₂, hrest₂, hclosing₂⟩ :=
          Awaits.outline hbody (.opening depth _ rfl hline₁ hread₁ rfl) (by simp) hbehind hrest₁
        exact ⟨r₂, hrest₂, by simpa [Outline.itemForms, Outline.blockForms] using hclosing₂.leave⟩
    obtain ⟨r', hread⟩ := ih (.closing hclosing₂) hrest₂
    exact ⟨r', by simpa using hread⟩

/-- A printed outline is read as the tokens up to the one it is known to have. -/
theorem tokens_of_begins {o : Outline α} {forms : List TokenForm}
    (ho : o.Begins print words follow 0 forms) :
    ∃ passed x more, (transcribe (o.print print 0)).tokens.toList = passed ++ x :: more ∧
      Token.Match passed forms ∧ follow x.kind := by
  obtain ⟨r, hread⟩ := Awaits.begins ho (.closing (closing_start _)) (List.append_nil _).symm
  rw [List.nil_append] at hread
  obtain ⟨n, rfl⟩ := hread.rounds
  obtain ⟨added, hadded, hmatch⟩ := hread.tokens
  obtain ⟨more, hmore⟩ := tokens_isPrefix_complete (rounds n (start (o.print print 0)))
  rw [complete_rounds, complete_start, hadded] at hmore
  obtain ⟨passed, last, rfl, hpassed, hlast⟩ := hmatch.split
  obtain ⟨x, _, hx, hnil, rfl⟩ := List.forall₂_cons_right_iff.mp hlast
  obtain rfl := List.forall₂_nil_right_iff.mp hnil
  refine ⟨passed, x, more, ?_, hpassed, hx⟩
  rw [← hmore, List.append_assoc, List.append_assoc]
  rfl

end Reading

end AgentScript
