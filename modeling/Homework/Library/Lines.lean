import Mathlib.Data.List.Basic

/-!
# Lines

A line is a text that ends with a stop sign and holds no other. A text is made of lines in at most
one way: two texts that start with lines and are equal start with the same line
(`IsLine.eq_of_append`). So a text of lines that goes on as one of lines goes on with lines
(`exists_append_of_flatten`), and a text of lines up to a first special one, followed by anything,
can be taken apart in one way only (`eq_of_flatten_append`).

Any text is split into its lines and a last piece without a stop sign, if it does not end with a
line (`splitLines`); what holds of these holds of all texts (`lines_induction`).
-/

set_option autoImplicit false
set_option relaxedAutoImplicit false

namespace Homework.Library.Lines

variable {α : Type*} {stop : α}

/-- A line: what stands before the stop sign holds none. -/
def IsLine (stop : α) (line : List α) : Prop := ∃ body, stop ∉ body ∧ line = body ++ [stop]

theorem isLine_append {body : List α} (hbody : stop ∉ body) : IsLine stop (body ++ [stop]) :=
  ⟨body, hbody, rfl⟩

theorem not_isLine_nil : ¬ IsLine stop [] := by
  rintro ⟨body, -, hline⟩
  exact List.append_ne_nil_of_right_ne_nil body (List.cons_ne_nil stop []) hline.symm

/-- What stands before the first stop sign of a text, and behind it, is determined. -/
theorem eq_of_append_stop {body body' rest rest' : List α} (hbody : stop ∉ body)
    (hbody' : stop ∉ body') (heq : body ++ stop :: rest = body' ++ stop :: rest') :
    body = body' ∧ rest = rest' := by
  induction body generalizing body' with
  | nil =>
    rcases body' with _ | ⟨first, more⟩
    · exact ⟨rfl, (List.cons.inj heq).2⟩
    · exact absurd ((List.cons.inj heq).1 ▸ List.mem_cons_self) hbody'
  | cons first more ih =>
    rcases body' with _ | ⟨first', more'⟩
    · exact absurd ((List.cons.inj heq).1 ▸ List.mem_cons_self) hbody
    · obtain ⟨rfl, hmore⟩ := List.cons.inj heq
      obtain ⟨rfl, hrest⟩ := ih (fun hmem ↦ hbody (List.mem_cons_of_mem _ hmem))
        (fun hmem ↦ hbody' (List.mem_cons_of_mem _ hmem)) hmore
      exact ⟨rfl, hrest⟩

/-- The first line of a text, and what stands behind it, is determined. -/
theorem IsLine.eq_of_append {line line' rest rest' : List α} (hline : IsLine stop line)
    (hline' : IsLine stop line') (heq : line ++ rest = line' ++ rest') :
    line = line' ∧ rest = rest' := by
  obtain ⟨body, hbody, rfl⟩ := hline
  obtain ⟨body', hbody', rfl⟩ := hline'
  rw [List.append_assoc, List.append_assoc] at heq
  obtain ⟨rfl, hrest⟩ := eq_of_append_stop hbody hbody' heq
  exact ⟨rfl, hrest⟩

/-- A text of lines that starts with lines goes on with lines. -/
theorem exists_append_of_flatten {lines all : List (List α)} {rest : List α}
    (hlines : ∀ line ∈ lines, IsLine stop line) (hall : ∀ line ∈ all, IsLine stop line)
    (heq : lines.flatten ++ rest = all.flatten) :
    ∃ more, all = lines ++ more ∧ rest = more.flatten := by
  induction lines generalizing all with
  | nil => exact ⟨all, rfl, heq⟩
  | cons line lines ih =>
    have hline := hlines line List.mem_cons_self
    rw [List.flatten_cons, List.append_assoc] at heq
    rcases all with _ | ⟨line', all⟩
    · have hnil : line = [] := (List.append_eq_nil_iff.mp heq).1
      exact absurd (hnil ▸ hline) not_isLine_nil
    · obtain ⟨rfl, hmore⟩ := hline.eq_of_append (hall line' List.mem_cons_self) heq
      obtain ⟨more, rfl, hrest⟩ := ih
        (fun other hother ↦ hlines other (List.mem_cons_of_mem _ hother))
        (fun other hother ↦ hall other (List.mem_cons_of_mem _ hother)) hmore
      exact ⟨more, rfl, hrest⟩

/-- The lines of a text of lines are determined. -/
theorem eq_of_flatten_eq {lines lines' : List (List α)} (hlines : ∀ line ∈ lines, IsLine stop line)
    (hlines' : ∀ line ∈ lines', IsLine stop line) (heq : lines.flatten = lines'.flatten) :
    lines = lines' := by
  obtain ⟨more, rfl, hrest⟩ :=
    exists_append_of_flatten hlines hlines' ((List.append_nil _).trans heq)
  rcases more with _ | ⟨line, more⟩
  · exact (List.append_nil lines).symm
  · have hline := hlines' line (List.mem_append_right _ List.mem_cons_self)
    exact absurd ((List.append_eq_nil_iff.mp hrest.symm).1 ▸ hline) not_isLine_nil

/-- The lines of a text up to a first special one, and what stands behind it, are determined. -/
theorem eq_of_flatten_append {special : List α} (hspecial : IsLine stop special)
    {lines lines' : List (List α)} {rest rest' : List α}
    (hlines : ∀ line ∈ lines, IsLine stop line ∧ line ≠ special)
    (hlines' : ∀ line ∈ lines', IsLine stop line ∧ line ≠ special)
    (heq : lines.flatten ++ (special ++ rest) = lines'.flatten ++ (special ++ rest')) :
    lines = lines' ∧ rest = rest' := by
  induction lines generalizing lines' with
  | nil =>
    rcases lines' with _ | ⟨line', lines'⟩
    · exact ⟨rfl, List.append_cancel_left heq⟩
    · obtain ⟨hline', hne⟩ := hlines' line' List.mem_cons_self
      rw [List.flatten_cons, List.append_assoc] at heq
      exact absurd (hspecial.eq_of_append hline' heq).1.symm hne
  | cons line lines ih =>
    obtain ⟨hline, hne⟩ := hlines line List.mem_cons_self
    rw [List.flatten_cons, List.append_assoc] at heq
    rcases lines' with _ | ⟨line', lines'⟩
    · exact absurd (hline.eq_of_append hspecial heq).1 hne
    · rw [List.flatten_cons, List.append_assoc] at heq
      obtain ⟨rfl, hmore⟩ := hline.eq_of_append (hlines' line' List.mem_cons_self).1 heq
      obtain ⟨rfl, hrest⟩ := ih
        (fun other hother ↦ hlines other (List.mem_cons_of_mem _ hother))
        (fun other hother ↦ hlines' other (List.mem_cons_of_mem _ hother)) hmore
      exact ⟨rfl, hrest⟩

/-! ### Splitting a text -/

section Split

variable [DecidableEq α]

/-- The lines of a text, each with its stop sign, and the last piece without one, if there is
such. -/
def splitLines (stop : α) : List α → List (List α)
  | [] => []
  | symbol :: rest =>
    if symbol = stop then [symbol] :: splitLines stop rest
    else
      match splitLines stop rest with
      | [] => [[symbol]]
      | line :: more => (symbol :: line) :: more

@[simp] theorem splitLines_nil : splitLines stop [] = [] :=
  rfl

/-- A line is split off the text behind it. -/
theorem splitLines_append_stop {body : List α} (hbody : stop ∉ body) (rest : List α) :
    splitLines stop (body ++ stop :: rest) = (body ++ [stop]) :: splitLines stop rest := by
  induction body with
  | nil => rw [List.nil_append, splitLines, if_pos rfl, List.nil_append]
  | cons symbol more ih =>
    obtain ⟨hsymbol, hmore⟩ := List.ne_and_not_mem_of_not_mem_cons hbody
    rw [List.cons_append, splitLines, if_neg hsymbol.symm, ih hmore, List.cons_append]

/-- A text without a stop sign is one piece. -/
theorem splitLines_of_notMem {body : List α} (hbody : stop ∉ body) (hne : body ≠ []) :
    splitLines stop body = [body] := by
  induction body with
  | nil => exact absurd rfl hne
  | cons symbol more ih =>
    obtain ⟨hsymbol, hmore⟩ := List.ne_and_not_mem_of_not_mem_cons hbody
    rw [splitLines, if_neg hsymbol.symm]
    rcases more with _ | ⟨next, others⟩
    · rfl
    · rw [ih hmore (List.cons_ne_nil _ _)]

/-- A text is split into the lines it is made of. -/
theorem splitLines_flatMap {bodies : List (List α)} (hbodies : ∀ body ∈ bodies, stop ∉ body) :
    splitLines stop (bodies.flatMap (· ++ [stop])) = bodies.map (· ++ [stop]) := by
  induction bodies with
  | nil => rfl
  | cons body rest ih =>
    have hrest := ih fun other hother ↦ hbodies other (List.mem_cons_of_mem _ hother)
    rw [List.flatMap_cons, List.append_assoc, List.singleton_append,
      splitLines_append_stop (hbodies body List.mem_cons_self), hrest, List.map_cons]

/-- What holds of the empty text, of texts without a stop sign, and of a line with a text behind it
when it holds of that text, holds of every text. -/
theorem lines_induction (stop : α) {motive : List α → Prop} (hnil : motive [])
    (hlast : ∀ body, stop ∉ body → body ≠ [] → motive body)
    (hline : ∀ body rest, stop ∉ body → motive rest → motive (body ++ stop :: rest))
    (text : List α) : motive text := by
  induction hlength : text.length using Nat.strongRecOn generalizing text with
  | ind length ih =>
    by_cases hstop : stop ∈ text
    · obtain ⟨body, rest, rfl, hbody⟩ := List.eq_append_cons_of_mem hstop
      refine hline body rest hbody (ih rest.length ?_ rest rfl)
      rw [← hlength, List.length_append, List.length_cons]
      omega
    · by_cases hempty : text = []
      · exact hempty ▸ hnil
      · exact hlast text hstop hempty

/-- The pieces of a text make it up. -/
theorem flatten_splitLines (text : List α) : (splitLines stop text).flatten = text := by
  induction text using lines_induction stop with
  | hnil => rfl
  | hlast body hbody hne => rw [splitLines_of_notMem hbody hne, List.flatten_singleton]
  | hline body rest hbody ih =>
    rw [splitLines_append_stop hbody, List.flatten_cons, ih, List.append_assoc]
    rfl

/-- A piece of a text is a line, or has no stop sign. -/
theorem isLine_or_of_mem_splitLines {text line : List α} (hline : line ∈ splitLines stop text) :
    IsLine stop line ∨ (stop ∉ line ∧ line ≠ []) := by
  induction text using lines_induction stop with
  | hnil => exact absurd hline List.not_mem_nil
  | hlast body hbody hne =>
    rw [splitLines_of_notMem hbody hne, List.mem_singleton] at hline
    exact Or.inr (hline ▸ ⟨hbody, hne⟩)
  | hline body rest hbody ih =>
    rw [splitLines_append_stop hbody] at hline
    rcases List.mem_cons.mp hline with rfl | hrest
    · exact Or.inl (isLine_append hbody)
    · exact ih hrest

end Split

end Homework.Library.Lines
