import AgentScript.Proofs.Writing.Indentation

/-!
# Phrases

Parts of a line that can be absent or repeated, each behind a separator, and the headers of
sections.
-/
namespace AgentScript

open CharClass Lexeme

namespace Writing

def quoted (text : String) : List Char := Quoted.encode text.toList

/-- The text behind a separator, if there is any. -/
def behind {α : Type} (separator : String) (text : α → List Char) (x : Option α) : List Char :=
  x.elim [] fun a => separator.toList ++ text a

/-- The texts that each follow a separator. -/
def eachBehind {α : Type} (separator : String) (text : α → List Char) (xs : List α) : List Char :=
  xs.flatMap fun a => separator.toList ++ text a

theorem eachBehind_append_cons {α : Type} (separator : String) (text : α → List Char)
    (xs : List α) (x : α) (ys : List α) : eachBehind separator text (xs ++ x :: ys) =
      eachBehind separator text xs ++
        (separator.toList ++ text x ++ eachBehind separator text ys) := by
  rw [eachBehind, List.flatMap_append, List.flatMap_cons]
  rfl

/-- The header of a section, which can have a name. -/
def headerText (form : SectionForm) (name : Option Name) : List Char :=
  form.word.toList ++ behind " " (·.text.toList) name ++ [':']

def headerForms (form : SectionForm) (name : Option Name) : List TokenForm :=
  [.ofKind (.keyword (.opening form))] ++ name.elim [] (fun n => [.word n.text]) ++ [.ofKind .colon]

section

variable {α : Type} {modes : Mode → Prop} {separator : String} {text : α → List Char}
  {forms : α → List TokenForm} {follow : List Char → Prop}

theorem readsAs_behind
    (h : ∀ a, WithinLine modes Anything (separator.toList ++ text a) (forms a) modes follow)
    (x : Option α) :
    WithinLine modes Anything (behind separator text x) (x.elim [] forms) modes follow := by
  cases x with
  | none => exact .nil
  | some a => exact h a

theorem readsAs_eachBehind {xs : List α}
    (h : ∀ a ∈ xs, WithinLine modes Anything (separator.toList ++ text a) (forms a) modes follow)
    (hfollow : ∀ a rest, follow (separator.toList ++ text a ++ rest)) :
    WithinLine modes Anything (eachBehind separator text xs) (xs.flatMap forms) modes follow := by
  induction xs with
  | nil => exact .nil
  | cons a xs ih =>
    rw [List.forall_mem_cons] at h
    refine h.1.append (ih h.2) (fun _ _ => trivial) fun rest hrest => ?_
    cases xs with
    | nil => exact hrest
    | cons b xs =>
      have hb := hfollow b (eachBehind separator text xs ++ rest)
      rwa [← List.append_assoc] at hb

/-- Each part leaves a mode in which the next one is read. -/
theorem readsAs_eachBehind_modes {xs : List α} {valid : Mode → Prop}
    {after : Mode → α → Option Mode} (hafter : ∀ a m m', valid m → after m a = some m' → valid m')
    (h : ∀ a ∈ xs, ∀ m m', valid m → after m a = some m' →
      WithinLine (· = m) Anything (separator.toList ++ text a) (forms a) (· = m') follow)
    (hfollow : ∀ a rest, follow (separator.toList ++ text a ++ rest)) {m m' : Mode} (hm : valid m)
    (hxs : xs.foldlM after m = some m') :
    WithinLine (· = m) Anything (eachBehind separator text xs) (xs.flatMap forms) (· = m')
      follow := by
  induction xs generalizing m with
  | nil =>
    cases hxs
    exact .nil
  | cons a xs ih =>
    rw [List.forall_mem_cons] at h
    rw [List.foldlM_cons] at hxs
    obtain ⟨m₁, ha, hxs⟩ := Option.bind_eq_some_iff.mp hxs
    refine (h.1 m m₁ hm ha).append (ih h.2 (hafter a m m₁ hm ha) hxs) (fun _ _ => trivial)
      fun rest hrest => ?_
    cases xs with
    | nil => exact hrest
    | cons b xs =>
      have hb := hfollow b (eachBehind separator text xs ++ rest)
      rwa [← List.append_assoc] at hb

theorem endsRun_behind (h : ∀ a rest, EndsRun (separator.toList ++ text a ++ rest)) (x : Option α)
    {rest : List Char} (hrest : EndsRun rest) : EndsRun (behind separator text x ++ rest) := by
  cases x with
  | none => exact hrest
  | some a => exact h a rest

theorem endsRun_eachBehind (h : ∀ a rest, EndsRun (separator.toList ++ text a ++ rest))
    (xs : List α) {rest : List Char} (hrest : EndsRun rest) :
    EndsRun (eachBehind separator text xs ++ rest) := by
  cases xs with
  | nil => exact hrest
  | cons a xs =>
    have ha := h a (eachBehind separator text xs ++ rest)
    rwa [← List.append_assoc] at ha

end

theorem readsAs_blank_then {modes modes' : Mode → Prop} {text : List Char}
    {forms : List TokenForm} {before : Option Char → Prop} {follow : List Char → Prop}
    (h : WithinLine modes before text forms modes' follow) (hbefore : before (some ' ')) :
    WithinLine modes Anything (' ' :: text) forms modes' follow :=
  readsAs_blank.append h (fun _ _ => hbefore) fun _ _ => trivial

/-- A keyword and something behind it, each after a blank. -/
theorem readsAs_clause {α : Type} (k : Keyword) {text : α → List Char} {form : α → TokenForm}
    {follow : List Char → Prop} (hk : (TokenKind.keyword k).isSectionKeyword = false)
    (h : ∀ a, WithinLine (· = .default) Anything (text a) [form a] (· = .default) follow) (a : α) :
    WithinLine (· = .default) Anything (' ' :: (k.word.toList ++ ' ' :: text a))
      [.ofKind (.keyword k), form a] (· = .default) follow :=
  readsAs_blank_then ((readsAs_keyword k hk).append (readsAs_blank_then (h a) trivial)
    (fun _ _ => trivial) fun _ _ => rfl) trivial

theorem significant_of_isWordChar {c : Char} (h : isWordChar c = true) : Significant c := by
  have hne : ∀ mark, isWordChar mark = false → c ≠ mark := fun mark => ne_of_isWordChar h
  refine ⟨?_, ?_, hne '#' rfl⟩
  · simp [isInlineSpace, hne ' ' rfl, hne '\t' rfl]
  · simp [isLineBreak, hne '\n' rfl, hne '\r' rfl]

theorem opensLine_name (n : Name) (rest : List Char) : OpensLine (n.text.toList ++ rest) := by
  obtain ⟨c, tail, htext, hc⟩ := n.exists_cons
  exact ⟨c, tail ++ rest, by rw [htext, List.cons_append], significant_of_isWordChar hc⟩

theorem opensLine_quoted (text : String) (rest : List Char) : OpensLine (quoted text ++ rest) :=
  ⟨'"', _, rfl, rfl, rfl, by decide⟩

theorem opensLine_atom (name : AtomName) (rest : List Char) :
    OpensLine (':' :: name.text.toList ++ rest) :=
  ⟨':', _, rfl, rfl, rfl, by decide⟩

theorem endsRun_of_newline {rest : List Char} (h : rest.head? = some '\n') : EndsRun rest := by
  obtain ⟨rest', rfl⟩ := List.head?_eq_some_iff.mp h
  rfl

theorem restIsBlank_blank {text : List Char} (h : OpensLine text) :
    restIsBlank (' ' :: text) = false := by
  obtain ⟨c, rest, rfl, hc⟩ := h
  have hnext : nextSignificant? (' ' :: c :: rest) = some c := by
    rw [nextSignificant?, List.dropWhile_cons_of_pos rfl,
      List.dropWhile_cons_of_neg (by simp [hc.notSpace]), List.head?_cons]
  simp [restIsBlank, hnext, hc.notBreak, hc.notComment]

/-- A colon, and a value behind it. -/
theorem readsAs_colon_then {modes modes' : Mode → Prop} {before : Option Char → Prop}
    {text : List Char} {forms : List TokenForm} {follow : List Char → Prop}
    (h : WithinLine (· = .booleanContext) before text forms modes' follow)
    (hbefore : before (some ' ')) (hopens : ∀ rest, OpensLine (text ++ rest)) :
    WithinLine modes Anything (": ".toList ++ text) (.ofKind .colon :: forms) modes' follow :=
  readsAs_colon_value.append (readsAs_blank_then h hbefore) (fun _ _ => trivial)
    fun rest _ => ⟨rfl, restIsBlank_blank (hopens rest)⟩

theorem readsAs_header (form : SectionForm) (name : Option Name) :
    WithinLine (· = .default) Anything (headerText form name) (headerForms form name)
      Anything (·.head? = some '\n') := by
  have hname : WithinLine Mode.Naming Anything (behind " " (·.text.toList) name)
      (name.elim [] fun n => [.word n.text]) Mode.Naming EndsRun :=
    readsAs_behind (fun n => readsAs_blank_then (readsAs_name n) trivial) name
  refine ((readsAs_opening form).append hname (fun _ _ => trivial) fun rest hrest => ?_).append
    readsAs_colon_end (fun _ _ => trivial) fun _ _ => rfl
  cases name with
  | none => exact endsWord_of_endsRun hrest
  | some n => rfl

theorem lineReadsAs_header (form : SectionForm) (name : Option Name) :
    LineReadsAs (headerText form name) (headerForms form name) := by
  refine ⟨?_, (readsAs_header form name).around (fun _ _ => trivial) fun _ hf => hf⟩
  cases form <;> exact ⟨_, _, rfl, significant_of_isWordChar rfl⟩

end Writing

end AgentScript
