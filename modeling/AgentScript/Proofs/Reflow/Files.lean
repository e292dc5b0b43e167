import AgentScript.Proofs.Reading.LineStructure
import AgentScript.Proofs.Reflow.Sections
import AgentScript.Proofs.Rendering.Files

/-!
# Files laid out anew

Where the tokens of two texts differ in their layout only, the parses of the texts give the same
tree, and the same problems up to line ends that have been moved. The tokens before a line whose
end differs may be taken from one text, as they are the same.
-/
namespace AgentScript

open ParserState
open Token (Closing)

variable {Moved : Position → Position → Prop} {st : Stance} {d : Nat} {s s' : ParserState}

namespace FileParts

/-- An item does the same in two texts. -/
theorem reflows_itemLine : itemLine.Reflows Moved fun _ => True := by
  rintro d s s' f ⟨hs, -⟩
  have hkind := hs.kind_eq rfl
  by_cases himport : s.kind = .keyword .importWord
  · have hp := Parser.reflows_importLine (K := fun s => s.kind = .keyword .importWord)
      (fun s hk => by rw [hk]; rfl) ⟨hs, himport⟩
    rw [itemLine_import f himport, itemLine_import f (hkind ▸ himport)]
    generalize Parser.importLine s = left at hp
    generalize Parser.importLine s' = right at hp
    cases hp with
    | ok i after => exact .done after.1
    | error problem after => exact .failed problem after
  by_cases hagent : s.kind = .keyword (.opening .agent)
  · have hp := Parser.reflows_agent (K := fun s => s.kind = .keyword (.opening .agent))
      (fun s hk => by rw [hk]; rfl) ⟨hs, hagent⟩
    have hcurrent : s.current = s'.current := hs.current_eq (by rw [hagent]; rfl)
    rw [itemLine_agent f hagent, itemLine_agent f (hkind ▸ hagent), ← hcurrent]
    generalize Parser.agent s = left at hp
    generalize Parser.agent s' = right at hp
    cases hp with
    | error problem after => exact .failed problem after
    | ok a after =>
      cases f.agent with
      | none => exact .done after.1
      | some _ => exact .done (after.1.report (.located (hs.placed (by rw [hagent]; rfl)) _))
  · rw [itemLine_stray f himport hagent, itemLine_stray f (hkind ▸ himport) (hkind ▸ hagent)]
    refine .failed ?_ ⟨_, hs⟩
    obtain ⟨e, l, l', -, -, htokens, -⟩ := hs.exists_tokens
    unfold strayProblem
    rw [← hkind]
    split_ifs
    · exact ⟨rfl, .some htokens.meets⟩
    · rw [hkind]
      conv_lhs => rw [← hkind]
      exact .expected _ hkind (fun hk => hs.current_eq hk) htokens.meets

theorem runItems_of_halted (h : s.halted = true) (f : FileParts) : f.runItems s = (f, s) := by
  unfold runItems
  cases s.remaining with
  | zero => rfl
  | succ n => rw [readItems_succ, if_pos (by simp [h])]

/-- Behind the last line of a file only empty lines are passed. -/
theorem closes_runItems (he : s.ending.kind = .eof) (h : Closing 0 s.tokens) (f : FileParts) :
    ∃ t, f.runItems s = (f, t) ∧ s.Closes 0 t := by
  induction hremaining : s.remaining using Nat.strong_induction_on generalizing s with
  | _ remaining ih =>
  subst hremaining
  cases hhalted : s.halted with
  | true => exact ⟨s, runItems_of_halted hhalted f, .refl h⟩
  | false =>
    obtain hk | hk | ⟨hk, -⟩ := kind_of_closing h
    · have hend := atEnd_of_ne he (by simp [hk])
      have hlt := advance_remaining_lt hend
      have hnext := Closes.advance_newline he hk h
      obtain ⟨t, ht, hcloses⟩ := ih _ hlt (by simpa using he) hnext.tokens rfl
      exact ⟨t, (lineLoop_runItems.newline f _ hk hend hhalted).trans ht, hnext.trans hcloses⟩
    · obtain ⟨e, hlevel, -⟩ := Closes.advance_dedent he hk h
      exact nomatch hlevel
    · exact ⟨s, runItems_of_atEnd (by simp [atEnd, hk]), .refl h⟩

/-- Both texts go through the items alike, by induction on the tokens to come. -/
theorem reflowed_runItems (h : s.Reflowed Moved st 0 s') (hst : st ≠ .captured) (f : FileParts) :
    (f.runItems s).1 = (f.runItems s').1 ∧
      (f.runItems s).2.Reflowed Moved .between 0 (f.runItems s').2 := by
  induction hremaining : s.remaining using Nat.strong_induction_on generalizing st s s' f with
  | _ remaining ih =>
  subst hremaining
  cases hhalted : s.halted with
  | true =>
    rw [runItems_of_halted hhalted, runItems_of_halted (h.halted_eq ▸ hhalted)]
    exact ⟨rfl, h.weaken hst⟩
  | false =>
  have hhalted' : s'.halted = false := h.halted_eq ▸ hhalted
  have hround (hk : s.kind.isStructural = false ∨ s.kind = .indent) :
      (f.runItems s).1 = (f.runItems s').1 ∧
        (f.runItems s).2.Reflowed Moved .between 0 (f.runItems s').2 := by
    obtain ⟨a, t, t', hs, hs', hlt, hnext⟩ :=
      h.exists_resumed lineLoop_runItems reflows_itemLine hst hk hhalted f
    rw [hs, hs']
    exact ih _ hlt hnext Stance.noConfusion _ rfl
  cases h.next with
  | word hk => exact hround (.inl hk)
  | indent hk => exact hround (.inr hk)
  | newline hk hk' =>
    have hend := atEnd_of_ne h.ending (by simp [hk])
    rw [lineLoop_runItems.newline f _ hk hend hhalted,
      lineLoop_runItems.newline f _ hk' (atEnd_of_ne h.ending' (by simp [hk'])) hhalted']
    exact ih _ (advance_remaining_lt hend) (h.advance_newline hk hk')
      Stance.noConfusion f rfl
  | dedent _ hk hk' =>
    obtain ⟨e, l, l', -, -, htokens, hlevel⟩ := h.exists_tokens
    obtain ⟨n, rfl, -⟩ := htokens.dedent_cases hk hk'
    cases hlevel hhalted
  | closing _ closes closes' level =>
    obtain rfl := level hhalted
    obtain ⟨t, ht, hclose⟩ := closes_runItems h.ending closes f
    obtain ⟨t', ht', hclose'⟩ := closes_runItems h.ending' closes' f
    rw [ht, ht']
    exact ⟨rfl, h.close hclose hclose' fun _ => rfl⟩

end FileParts

/-- The same error of two texts, where the places of errors are moved as the relation says. -/
structure ParseError.Alike (Moved : Position → Position → Prop) (e e' : ParseError) : Prop where
  message : e.message = e'.message
  file : e.file = e'.file
  start : Option.Rel (fun l l' => Moved l.start l'.start) e.location e'.location

namespace ParsedFile

/-- Files that begin at the same place have the same tree and the same problems, and so have files
of which nothing is recognized. -/
theorem read_reflowed (h : s.Reflowed Moved .between 0 s')
    (hstart : s.current.start = s'.current.start ∨ Closing 0 s.tokens) :
    (read s).1 = (read s').1 ∧ List.Forall₂ (ParseProblem.Alike Moved)
      (read s).2.problems.toList (read s').2.problems.toList := by
  obtain ⟨hparts, hafter⟩ := FileParts.reflowed_runItems h nofun .empty
  have hbegins : (FileParts.empty.runItems s).1.recognized = true →
      s.current.start = s'.current.start := by
    rcases hstart with heq | hclosing
    · exact fun _ => heq
    · obtain ⟨t, ht, -⟩ := FileParts.closes_runItems h.ending hclosing .empty
      rw [ht]
      exact nofun
  unfold read
  dsimp only
  rw [← FileParts.runItems, ← FileParts.runItems, ← hparts]
  generalize (FileParts.empty.runItems s).2 = t at hafter ⊢
  generalize (FileParts.empty.runItems s').2 = t' at hafter ⊢
  split_ifs with hrecognized hagent
  · have hreport := hafter.report (.unlocated .missingAgent)
    rw [hbegins hrecognized, hreport.spanFrom_eq]
    exact ⟨rfl, hreport.problems⟩
  · rw [hbegins hrecognized, hafter.spanFrom_eq]
    exact ⟨rfl, hafter.problems⟩
  · exact ⟨rfl, (hafter.report (.unlocated .nothingRecognized)).problems⟩

/-- Texts whose tokens differ in their layout only, or which have nothing but empty lines, have
the same tree and the same errors, up to line ends that have been moved. -/
theorem ofTokens_reflowed {body body' : List Token} {last last' : Token}
    (hlast : last.kind = .eof) (hlast' : last'.kind = .eof)
    (h : Token.Reflowed Moved .opened 0 (body ++ [last]) (body' ++ [last']) ∨
      Closing 0 (body ++ [last]) ∧ Closing 0 (body' ++ [last'])) (options : ParseOptions) :
    (ofTokens (body ++ [last]) options).tree = (ofTokens (body' ++ [last']) options).tree ∧
      List.Forall₂ (ParseError.Alike Moved) (ofTokens (body ++ [last]) options).errors
        (ofTokens (body' ++ [last']) options).errors := by
  have hbegin (body : List Token) {last : Token} (hlast : last.kind = .eof) :
      ParserState.ofTokens (body ++ [last]) options.maxErrors =
        ⟨none, none, body, last, #[], options.maxErrors⟩ :=
    ParserState.ofTokens_eq (Token.terminated_of_eof List.getLast?_concat hlast) _
  unfold ofTokens
  rw [hbegin body hlast, hbegin body' hlast']
  generalize hs : (⟨none, none, body, last, #[], options.maxErrors⟩ : ParserState) = s
  generalize hs' : (⟨none, none, body', last', #[], options.maxErrors⟩ : ParserState) = s'
  have htokens : s.tokens = body ++ [last] := hs ▸ rfl
  have hread : (read s).1 = (read s').1 ∧ List.Forall₂ (ParseProblem.Alike Moved)
      (read s).2.problems.toList (read s').2.problems.toList := by
    have hreflowed {st : Stance} (h : Token.Reflowed Moved st 0 (body ++ [last]) (body' ++ [last']))
        (hst : st ≠ .captured) : s.Reflowed Moved st 0 s' := by
      subst hs hs'
      exact ⟨⟨0, h, fun _ => rfl⟩, hlast, hlast', rfl, rfl, .nil, .inl rfl, fun hc => (hst hc).elim⟩
    rcases h with h | ⟨h, h'⟩
    · have hsame := hreflowed h nofun
      obtain ⟨e, l, l', -, -, htokens, -⟩ := hsame.exists_tokens
      exact read_reflowed (hsame.weaken nofun) (.inl htokens.meets)
    · refine read_reflowed (hreflowed ?_ nofun) (.inr (htokens ▸ h))
      obtain ⟨x, l, hl⟩ := h.exists_cons
      obtain ⟨x', l', hl'⟩ := h'.exists_cons
      rw [hl, hl']
      exact .closing rfl trivial (hl ▸ h) (hl' ▸ h')
  dsimp only
  refine ⟨hread.1, ?_⟩
  rw [List.forall₂_map_left_iff, List.forall₂_map_right_iff]
  exact hread.2.imp fun _ _ hp => ⟨hp.message, rfl, hp.start⟩

end ParsedFile

end AgentScript
