import Mathlib.Data.List.TakeDrop
import Mathlib.Data.List.TakeWhile
import Mathlib.Tactic.Linarith

/-!
# Words of a bounded length

A scanner skips blanks and then reads a word of signs that are no blanks, up to a width. Called
again and again it reads the pieces of the text between the blanks, each cut into words of the width
and a shorter last one (`scanWords_eq`). Together the words hold the signs of the text that are no
blanks (`flatten_scanWords`). Pieces that fit into the width are not cut (`flatMap_cut_of_fits`).
-/

set_option autoImplicit false
set_option relaxedAutoImplicit false

namespace Homework.Library.Words

variable {α : Type*} (isBlank : α → Bool) (width : ℕ)

/-- A word and the text behind it, if there is anything but blanks. -/
def scanWord (text : List α) : Option (List α × List α) :=
  let rest := text.dropWhile isBlank
  let word := (rest.takeWhile fun sign ↦ !isBlank sign).take width
  if word.isEmpty then none else some (word, rest.drop word.length)

variable {isBlank width}

theorem scanWord_eq_some {text word rest : List α}
    (hscan : scanWord isBlank width text = some (word, rest)) :
    word = ((text.dropWhile isBlank).takeWhile fun sign ↦ !isBlank sign).take width ∧
      word ≠ [] ∧ text.dropWhile isBlank = word ++ rest := by
  unfold scanWord at hscan
  dsimp only at hscan
  split_ifs at hscan with hempty
  obtain ⟨rfl, rfl⟩ := Prod.mk.inj (Option.some.inj hscan)
  have hprefix : ((text.dropWhile isBlank).takeWhile fun sign ↦ !isBlank sign).take width <+:
      text.dropWhile isBlank :=
    (List.take_prefix _ _).trans (List.takeWhile_prefix _)
  exact ⟨rfl, fun hnil ↦ hempty (List.isEmpty_iff.mpr hnil),
    (List.prefix_iff_eq_append.mp hprefix).symm⟩

theorem length_lt_of_scanWord {text word rest : List α}
    (hscan : scanWord isBlank width text = some (word, rest)) : rest.length < text.length := by
  obtain ⟨-, hne, happend⟩ := scanWord_eq_some hscan
  have hlength := congrArg List.length happend
  have hdrop := (List.dropWhile_sublist isBlank (l := text)).length_le
  have hpos := List.length_pos_iff.mpr hne
  rw [List.length_append] at hlength
  omega

variable (isBlank width)

/-- The words that a loop reads, until there are none left. -/
def scanWords (text : List α) : List (List α) :=
  match _hscan : scanWord isBlank width text with
  | none => []
  | some (word, rest) => word :: scanWords rest
termination_by text.length
decreasing_by exact length_lt_of_scanWord _hscan

/-- The pieces of a text between its blanks. -/
def pieces (text : List α) : List (List α) :=
  (text.splitOnP isBlank).filter fun piece ↦ !piece.isEmpty

/-- A piece cut into words of the width, and a last one that may be shorter. -/
def cut (piece : List α) : List (List α) :=
  if _hpiece : piece = [] ∨ width = 0 then []
  else piece.take width :: cut (piece.drop width)
termination_by piece.length
decreasing_by
  obtain ⟨hne, hwidth⟩ := not_or.mp _hpiece
  have hpos := List.length_pos_iff.mpr hne
  rw [List.length_drop]
  omega

/-! ### Pieces -/

variable {isBlank width} {text word rest : List α}

theorem pieces_cons_blank {sign : α} (hsign : isBlank sign = true) :
    pieces isBlank (sign :: text) = pieces isBlank text := by
  rw [pieces, List.splitOnP_cons_eq_if_modifyHead, if_pos hsign]
  rfl

/-- Blanks in front of a text do not count. -/
theorem pieces_dropWhile : pieces isBlank (text.dropWhile isBlank) = pieces isBlank text := by
  induction text with
  | nil => rfl
  | cons sign text ih =>
    by_cases hsign : isBlank sign = true
    · rw [List.dropWhile_cons_of_pos hsign, ih, pieces_cons_blank hsign]
    · rw [List.dropWhile_cons_of_neg hsign]

/-- Signs that are no blanks are a piece, if a blank comes next or nothing. -/
theorem pieces_append {piece : List α} (hpiece : ∀ sign ∈ piece, isBlank sign = false)
    (hne : piece ≠ []) (hnext : ∀ sign ∈ rest.head?, isBlank sign = true) :
    pieces isBlank (piece ++ rest) = piece :: pieces isBlank rest := by
  have hfull : (!piece.isEmpty) = true := by
    rw [Bool.not_eq_true', List.isEmpty_eq_false_iff]
    exact hne
  rcases rest with _ | ⟨sign, rest⟩
  · rw [List.append_nil, pieces, List.splitOnP_eq_singleton hpiece,
      List.filter_cons, if_pos hfull]
    rfl
  · have hsign : isBlank sign = true := hnext sign rfl
    rw [pieces_cons_blank hsign, pieces, List.splitOnP_append_cons_of_forall_mem hpiece sign hsign,
      List.filter_cons, if_pos hfull]
    rfl

/-- A piece holds a sign, and no blanks. -/
theorem of_mem_pieces {piece : List α} (hpiece : piece ∈ pieces isBlank text) :
    piece ≠ [] ∧ ∀ sign ∈ piece, isBlank sign = false := by
  obtain ⟨hsplit, hfull⟩ := List.mem_filter.mp hpiece
  refine ⟨fun hnil ↦ by simp [hnil] at hfull, ?_⟩
  clear hpiece hfull
  induction text generalizing piece with
  | nil =>
    rw [List.splitOnP_nil, List.mem_singleton] at hsplit
    exact hsplit ▸ fun sign hsign ↦ absurd hsign List.not_mem_nil
  | cons first text ih =>
    rw [List.splitOnP_cons_eq_if_modifyHead] at hsplit
    split_ifs at hsplit with hfirst
    · rcases List.mem_cons.mp hsplit with rfl | hmem
      · exact fun sign hsign ↦ absurd hsign List.not_mem_nil
      · exact ih hmem
    · obtain ⟨head, others, hparts⟩ :=
        List.exists_cons_of_ne_nil (List.splitOnP_ne_nil isBlank text)
      rw [hparts, List.modifyHead_cons] at hsplit
      rw [hparts] at ih
      rcases List.mem_cons.mp hsplit with rfl | hmem
      · intro sign hsign
        rcases List.mem_cons.mp hsign with rfl | hsign
        · exact Bool.eq_false_iff.mpr hfirst
        · exact ih List.mem_cons_self sign hsign
      · exact ih (List.mem_cons_of_mem _ hmem)

/-! ### Cutting -/

@[simp] theorem cut_nil : cut width ([] : List α) = [] := by
  rw [cut, dif_pos (Or.inl rfl)]

theorem cut_of_ne_nil {piece : List α} (hne : piece ≠ []) (hwidth : 0 < width) :
    cut width piece = piece.take width :: cut width (piece.drop width) := by
  rw [cut, dif_neg (not_or.mpr ⟨hne, hwidth.ne'⟩)]

/-- A piece that fits into the width is one word. -/
theorem cut_of_le {piece : List α} (hne : piece ≠ []) (hfits : piece.length ≤ width) :
    cut width piece = [piece] := by
  have hpos := List.length_pos_iff.mpr hne
  rw [cut_of_ne_nil hne (by omega), List.take_of_length_le hfits, List.drop_of_length_le hfits,
    cut_nil]

theorem flatten_cut (hwidth : 0 < width) (piece : List α) : (cut width piece).flatten = piece := by
  induction hlength : piece.length using Nat.strongRecOn generalizing piece with
  | ind length ih =>
    by_cases hne : piece = []
    · rw [hne, cut_nil]
      rfl
    · have hpos := List.length_pos_iff.mpr hne
      rw [cut_of_ne_nil hne hwidth, List.flatten_cons,
        ih _ (by rw [List.length_drop]; omega) _ rfl, List.take_append_drop]

/-- A word that is cut off holds a sign, fits into the width and is part of the piece. -/
theorem of_mem_cut (hwidth : 0 < width) {piece : List α} (hword : word ∈ cut width piece) :
    word ≠ [] ∧ word.length ≤ width ∧ word ⊆ piece := by
  induction hlength : piece.length using Nat.strongRecOn generalizing piece with
  | ind length ih =>
    by_cases hne : piece = []
    · rw [hne, cut_nil] at hword
      exact absurd hword List.not_mem_nil
    · have hpos := List.length_pos_iff.mpr hne
      rw [cut_of_ne_nil hne hwidth] at hword
      rcases List.mem_cons.mp hword with rfl | htail
      · refine ⟨?_, List.length_take_le _ _, List.take_subset _ _⟩
        rw [← List.length_pos_iff, List.length_take]
        omega
      · obtain ⟨hword, hfits, hsub⟩ := ih _ (by rw [List.length_drop]; omega) htail rfl
        exact ⟨hword, hfits, fun sign hsign ↦ List.mem_of_mem_drop (hsub hsign)⟩

/-! ### The words of a text -/

theorem scanWords_of_none (hscan : scanWord isBlank width text = none) :
    scanWords isBlank width text = [] := by
  rw [scanWords]
  split
  · rfl
  · next heq => cases hscan.symm.trans heq

theorem scanWords_of_some (hscan : scanWord isBlank width text = some (word, rest)) :
    scanWords isBlank width text = word :: scanWords isBlank width rest := by
  rw [scanWords]
  split
  · next heq => cases hscan.symm.trans heq
  · next heq =>
    obtain ⟨rfl, rfl⟩ := Prod.mk.inj (Option.some.inj (hscan.symm.trans heq))
    rfl

/-- Behind the blanks of a text stands a run of other signs, and behind it a blank or nothing. -/
structure Splits (isBlank : α → Bool) (text run behind : List α) : Prop where
  text_eq : text.dropWhile isBlank = run ++ behind
  clean : ∀ sign ∈ run, isBlank sign = false
  next : ∀ sign ∈ behind.head?, isBlank sign = true

theorem exists_splits (isBlank : α → Bool) (text : List α) :
    ∃ run behind, Splits isBlank text run behind := by
  refine ⟨(text.dropWhile isBlank).takeWhile fun sign ↦ !isBlank sign,
    (text.dropWhile isBlank).dropWhile fun sign ↦ !isBlank sign,
    List.takeWhile_append_dropWhile.symm, fun sign hsign ↦ ?_, fun sign hsign ↦ ?_⟩
  · simpa using List.mem_takeWhile_imp hsign
  · have hhead := List.head?_dropWhile_not (fun sign ↦ !isBlank sign) (text.dropWhile isBlank)
    rw [hsign] at hhead
    simpa using hhead

section Splits

variable {run behind : List α} (hsplits : Splits isBlank text run behind)
include hsplits

/-- If the run is empty, the text was nothing but blanks. -/
theorem Splits.behind_eq_nil (hrun : run = []) : behind = [] := by
  rcases behind with _ | ⟨sign, more⟩
  · rfl
  · have hhead := List.head?_dropWhile_not isBlank text
    rw [hsplits.text_eq, hrun] at hhead
    have hblank := hsplits.next sign rfl
    simp [hblank] at hhead

theorem Splits.takeWhile_eq : (run ++ behind).takeWhile (fun sign ↦ !isBlank sign) = run := by
  have hrun : ∀ sign ∈ run, (!isBlank sign) = true := by
    intro sign hsign
    rw [hsplits.clean sign hsign]
    rfl
  have hbehind : behind.takeWhile (fun sign ↦ !isBlank sign) = [] := by
    rcases behind with _ | ⟨sign, more⟩
    · rfl
    · rw [List.takeWhile_cons, hsplits.next sign rfl]
      rfl
  rw [List.takeWhile_append_of_pos hrun, hbehind, List.append_nil]

/-- A scan takes the front of the run, and leaves the rest of it. -/
theorem Splits.scanWord_eq : scanWord isBlank width text =
    if (run.take width).isEmpty then none else some (run.take width, run.drop width ++ behind) := by
  have hrest : (run ++ behind).drop (run.take width).length = run.drop width ++ behind := by
    rcases Nat.le_total width run.length with hle | hle
    · rw [List.length_take_of_le hle, List.drop_append_of_le_length hle]
    · rw [List.take_of_length_le hle, List.drop_left, List.drop_of_length_le hle]
      rfl
  unfold scanWord
  dsimp only
  rw [hsplits.text_eq, hsplits.takeWhile_eq, hrest]

end Splits

/-- The cut pieces of a text that starts with signs that are no blanks. -/
theorem flatMap_cut_pieces {piece : List α} (hpiece : ∀ sign ∈ piece, isBlank sign = false)
    (hnext : ∀ sign ∈ rest.head?, isBlank sign = true) :
    (pieces isBlank (piece ++ rest)).flatMap (cut width) =
      cut width piece ++ (pieces isBlank rest).flatMap (cut width) := by
  by_cases hne : piece = []
  · rw [hne, cut_nil]
    rfl
  · rw [pieces_append hpiece hne hnext, List.flatMap_cons]

/-- The words that are read are the pieces of the text, each cut to the width. -/
theorem scanWords_eq (hwidth : 0 < width) (text : List α) :
    scanWords isBlank width text = (pieces isBlank text).flatMap (cut width) := by
  induction hlength : text.length using Nat.strongRecOn generalizing text with
  | ind length ih =>
    obtain ⟨run, behind, hsplits⟩ := exists_splits isBlank text
    have hscan : scanWord isBlank width text = _ := hsplits.scanWord_eq
    rw [← pieces_dropWhile, hsplits.text_eq, flatMap_cut_pieces hsplits.clean hsplits.next]
    by_cases hne : run = []
    · rw [hne, List.take_nil] at hscan
      rw [scanWords_of_none hscan, hne, hsplits.behind_eq_nil hne, cut_nil]
      rfl
    · have hword : (run.take width).isEmpty = false := by
        rw [List.isEmpty_eq_false_iff, ← List.length_pos_iff, List.length_take]
        have hpos := List.length_pos_iff.mpr hne
        omega
      rw [hword] at hscan
      have hlt := length_lt_of_scanWord hscan
      have hclean : ∀ sign ∈ run.drop width, isBlank sign = false :=
        fun sign hsign ↦ hsplits.clean sign (List.mem_of_mem_drop hsign)
      rw [scanWords_of_some hscan, ih _ (hlength ▸ hlt) _ rfl,
        flatMap_cut_pieces hclean hsplits.next, cut_of_ne_nil hne hwidth]
      rfl

/-- Pieces that fit into the width are not cut. -/
theorem flatMap_cut_of_fits (hfits : ∀ piece ∈ pieces isBlank text, piece.length ≤ width) :
    (pieces isBlank text).flatMap (cut width) = pieces isBlank text := by
  have hcut : ∀ piece ∈ pieces isBlank text, cut width piece = [piece] := fun piece hpiece ↦
    cut_of_le (of_mem_pieces hpiece).1 (hfits piece hpiece)
  rw [List.flatMap_def, List.map_congr_left hcut, ← List.flatMap_def, List.flatMap_singleton']

/-- The pieces of a text hold its signs that are no blanks. -/
theorem flatten_pieces (text : List α) :
    (pieces isBlank text).flatten = text.filter fun sign ↦ !isBlank sign := by
  have hsplit : (text.splitOnP isBlank).flatten = text.filter fun sign ↦ !isBlank sign := by
    induction text with
    | nil => rfl
    | cons sign text ih =>
      rw [List.splitOnP_cons_eq_if_modifyHead]
      by_cases hsign : isBlank sign = true
      · rw [if_pos hsign, List.flatten_cons, List.nil_append, ih,
          List.filter_cons_of_neg (by simp [hsign])]
      · obtain ⟨head, others, hparts⟩ :=
          List.exists_cons_of_ne_nil (List.splitOnP_ne_nil isBlank text)
        rw [if_neg hsign, List.filter_cons_of_pos (by simp [hsign]), ← ih, hparts,
          List.modifyHead_cons]
        rfl
  rw [pieces, List.flatten_filter_not_isEmpty, hsplit]

/-- The words hold the signs of the text that are no blanks, in their order. -/
theorem flatten_scanWords (hwidth : 0 < width) (text : List α) :
    (scanWords isBlank width text).flatten = text.filter fun sign ↦ !isBlank sign := by
  have hcut : ∀ parts : List (List α), (parts.flatMap (cut width)).flatten = parts.flatten := by
    intro parts
    induction parts with
    | nil => rfl
    | cons part parts ih =>
      rw [List.flatMap_cons, List.flatten_append, flatten_cut hwidth, ih, List.flatten_cons]
  rw [scanWords_eq hwidth, hcut, flatten_pieces]

/-- A word that is read holds a sign and no blank, and fits into the width. -/
theorem of_mem_scanWords (hwidth : 0 < width) (hword : word ∈ scanWords isBlank width text) :
    word ≠ [] ∧ word.length ≤ width ∧ ∀ sign ∈ word, isBlank sign = false := by
  rw [scanWords_eq hwidth, List.mem_flatMap] at hword
  obtain ⟨piece, hpiece, hcut⟩ := hword
  obtain ⟨hne, hfits, hsub⟩ := of_mem_cut hwidth hcut
  exact ⟨hne, hfits, fun sign hsign ↦ (of_mem_pieces hpiece).2 sign (hsub hsign)⟩

end Homework.Library.Words
