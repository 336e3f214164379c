import Mathlib.Data.List.DropRight
import ParenCall.Text.Line

/-! # Lines of a text

The line around a position runs from the newline before it to the one behind it,
and the search for these two newlines finds just that. It is one of the lines
that the newlines split the text into: its number is the number of newlines
before the position. A character that is not blank is kept when its line is
trimmed, so the line around it has something to show. -/

namespace ParenCall.Text

/-- The characters between the newlines around a position. -/
def lineAround (cs : List Char) (p : Nat) : List Char :=
  ((cs.take p).reverse.takeWhile (· != '\n')).reverse ++ (cs.drop p).takeWhile (· != '\n')

/-! ## The search -/

theorem position_le (length : Nat) (offset : Int) : position length offset ≤ length := by
  unfold position
  split <;> omega

theorem position_min (length : Nat) (offset : Int) :
    position length (min offset length) = position length offset := by
  unfold position
  split <;> split <;> omega

theorem length_takeWhile_eq (c : Char) (cs : List Char) :
    (cs.takeWhile (· != c)).length = (cs.findIdx? (· == c)).getD cs.length := by
  induction cs with
  | nil => rfl
  | cons d cs ih =>
    rw [List.findIdx?_cons]
    by_cases hd : d = c
    · simp [hd]
    · have hne : (d == c) = false := beq_eq_false_iff_ne.mpr hd
      rw [List.takeWhile_cons_of_pos (by simp [hd]), List.length_cons, ih, hne]
      cases cs.findIdx? (· == c) <;> rfl

theorem lineEnd_eq (cs : List Char) (offset : Int) :
    lineEnd cs offset =
      position cs.length offset +
        ((cs.drop (position cs.length offset)).takeWhile (· != '\n')).length := by
  have hle := position_le cs.length offset
  rw [lineEnd, find?, length_takeWhile_eq]
  cases (cs.drop (position cs.length offset)).findIdx? (· == '\n') with
  | some i => rfl
  | none =>
    show cs.length = position cs.length offset + (cs.drop (position cs.length offset)).length
    rw [List.length_drop]
    omega

theorem lineStart_eq (cs : List Char) (offset : Int) :
    lineStart cs offset =
      position cs.length offset -
        ((cs.take (position cs.length offset)).reverse.takeWhile (· != '\n')).length := by
  have hle := position_le cs.length offset
  have hlength : (cs.take (position cs.length offset)).reverse.length =
      position cs.length offset := by
    rw [List.length_reverse, List.length_take_of_le hle]
  have hzero : position cs.length 0 = 0 := position_of_le (Nat.zero_le _)
  rw [lineStart, findLast?, length_takeWhile_eq, hzero, List.drop_zero]
  cases hfind : (cs.take (position cs.length offset)).reverse.findIdx? (· == '\n') with
  | some i =>
    have hlt := (List.findIdx?_eq_some_iff_findIdx_eq.mp hfind).1
    rw [hlength] at hlt
    simp only [Option.map_some, Option.getD_some]
    omega
  | none =>
    simp only [Option.map_none, Option.getD_none, hlength]
    omega

/-- The search finds the newlines around the position of the offset. -/
theorem slice_line_eq (cs : List Char) (offset : Int) :
    slice cs (lineStart cs offset) (lineEnd cs offset) =
      lineAround cs (position cs.length offset) := by
  have hle := position_le cs.length offset
  rw [slice, lineStart_eq, lineEnd_eq, lineAround]
  generalize position cs.length offset = p at hle ⊢
  have hsuffix : ((cs.take p).reverse.takeWhile (· != '\n')).reverse <:+ cs.take p :=
    List.rtakeWhile_suffix ..
  have hstem : (cs.drop p).takeWhile (· != '\n') <+: cs.drop p := List.takeWhile_prefix _
  have hbefore := hsuffix.length_le
  have hafter := hstem.length_le
  rw [List.length_reverse, List.length_take] at hbefore
  rw [List.length_drop] at hafter
  rw [position_of_le (by omega), position_of_le (by omega), List.take_add,
    List.drop_append_of_le_length (by rw [List.length_take]; omega),
    ← List.prefix_iff_eq_take.mp hstem]
  congr 1
  rw [List.suffix_iff_eq_drop.mp hsuffix, List.length_reverse, List.length_take_of_le hle]

/-! ## Line numbers -/

theorem splitOn_newline_cons (c : Char) (cs : List Char) :
    (c :: cs).splitOn '\n' =
      if c = '\n' then [] :: cs.splitOn '\n' else (cs.splitOn '\n').modifyHead (c :: ·) := by
  simp only [List.splitOn_eq_splitOnP, List.splitOnP_cons_eq_if_modifyHead, beq_iff_eq]

theorem length_splitOn_newline (cs : List Char) :
    (cs.splitOn '\n').length = cs.count '\n' + 1 := by
  induction cs with
  | nil => simp
  | cons c cs ih =>
    rw [splitOn_newline_cons]
    by_cases hc : c = '\n'
    · rw [if_pos hc, hc, List.length_cons, ih, List.count_cons_self]
    · rw [if_neg hc, List.length_modifyHead, ih, List.count_cons_of_ne hc]

theorem lineAround_newline_cons (cs : List Char) (p : Nat) :
    lineAround ('\n' :: cs) (p + 1) = lineAround cs p := by
  have hbefore : ((cs.take p).reverse ++ ['\n']).takeWhile (· != '\n') =
      (cs.take p).reverse.takeWhile (· != '\n') := by
    rw [List.takeWhile_append]
    split
    · rename_i hlength
      have hself := (List.takeWhile_prefix (· != '\n')).eq_of_length hlength
      simp [hself]
    · rfl
  simp [lineAround, hbefore]

theorem lineAround_cons {c : Char} (hc : c ≠ '\n') (cs : List Char) (p : Nat) :
    lineAround (c :: cs) (p + 1) =
      if (cs.take p).count '\n' = 0 then c :: lineAround cs p else lineAround cs p := by
  rw [lineAround, lineAround, List.take_succ_cons, List.reverse_cons, List.drop_succ_cons]
  split
  · rename_i hzero
    have hrun : ∀ d ∈ (cs.take p).reverse, (d != '\n') = true := by
      intro d hd
      rw [bne_iff_ne]
      rintro rfl
      exact List.count_eq_zero.mp hzero (List.mem_reverse.mp hd)
    rw [List.takeWhile_append_of_pos hrun, List.takeWhile_eq_self_iff.mpr hrun]
    simp [hc]
  · rename_i hpos
    have hmem : '\n' ∈ (cs.take p).reverse := by
      rw [List.mem_reverse]
      exact List.count_pos_iff.mp (Nat.pos_of_ne_zero hpos)
    rw [List.takeWhile_append, if_neg]
    intro hlength
    have hself := (List.takeWhile_prefix (· != '\n')).eq_of_length hlength
    have hne := List.takeWhile_eq_self_iff.mp hself '\n' hmem
    simp at hne

/-- The number of a line is the number of newlines before any position on it. -/
theorem getElem?_splitOn_newline (cs : List Char) (p : Nat) :
    (cs.splitOn '\n')[(cs.take p).count '\n']? = some (lineAround cs p) := by
  induction cs generalizing p with
  | nil => simp [lineAround]
  | cons c cs ih =>
    rw [splitOn_newline_cons]
    by_cases hc : c = '\n'
    · subst hc
      rw [if_pos rfl]
      cases p with
      | zero => simp [lineAround]
      | succ p =>
        rw [lineAround_newline_cons, List.take_succ_cons, List.count_cons_self,
          List.getElem?_cons_succ]
        exact ih p
    · rw [if_neg hc, List.getElem?_modifyHead]
      cases p with
      | zero =>
        have hfirst := ih 0
        simp only [List.take_zero, List.count_nil] at hfirst ⊢
        rw [hfirst]
        simp [lineAround, hc]
      | succ p =>
        rw [lineAround_cons hc, List.take_succ_cons, List.count_cons_of_ne hc, ih p]
        split <;> rfl

/-! ## Trimmed lines -/

theorem dropWhile_append_cons {p : Char → Bool} {c : Char} (hc : p c = false)
    (xs ys : List Char) : (xs ++ c :: ys).dropWhile p = xs.dropWhile p ++ c :: ys := by
  induction xs with
  | nil => simp [hc]
  | cons x xs ih => by_cases hx : p x = true <;> simp [hx, ih]

theorem trim_append_cons {c : Char} (hc : isBlank c = false) (before after : List Char) :
    trim (before ++ c :: after) =
      before.dropWhile isBlank ++ c :: after.rdropWhile isBlank := by
  rw [trim, trimBy, dropWhile_append_cons hc, List.reverse_append, List.reverse_cons,
    List.append_assoc, List.singleton_append, dropWhile_append_cons hc, List.rdropWhile]
  simp

/-- A position just before or just behind a character is on its line. -/
theorem lineAround_append_cons {c : Char} (hc : c ≠ '\n') (before after : List Char) {p : Nat}
    (hp : p = before.length ∨ p = before.length + 1) :
    lineAround (before ++ c :: after) p =
      before.rtakeWhile (· != '\n') ++ c :: after.takeWhile (· != '\n') := by
  rcases hp with rfl | rfl
  · simp [lineAround, hc, List.rtakeWhile]
  · have htake : (before ++ c :: after).take (before.length + 1) = before ++ [c] := by
      simp [List.take_append, List.take_of_length_le]
    simp [lineAround, htake, hc, List.rtakeWhile]

/-- A part of a text that a position lies in. -/
def Covers (cs part : List Char) (i : Nat) : Prop :=
  ∃ before after, cs = before ++ part ++ after ∧ before.length ≤ i ∧
    i < before.length + part.length

theorem covers_of_suffix_of_prefix {before after left right : List Char} (c : Char)
    (hleft : left <:+ before) (hright : right <+: after) :
    Covers (before ++ c :: after) (left ++ c :: right) before.length := by
  obtain ⟨pre, rfl⟩ := hleft
  obtain ⟨post, rfl⟩ := hright
  exact ⟨pre, post, by simp, by simp, by simp⟩

theorem lineContext_eq (source : String) (offset : Int) :
    lineContext source offset =
      let shown := trim (lineAround source.toList (position source.length offset))
      if shown = [] then none else some (String.ofList shown) := by
  rw [lineContext, slice_line_eq, position_min, String.length_toList]
  dsimp only
  split
  · rename_i h
    rw [h, if_pos rfl]
  · rename_i h
    rw [if_neg h]

theorem lineContext_of_ne_nil {source : String} {p : Nat} (hp : p ≤ source.length)
    (h : trim (lineAround source.toList p) ≠ []) :
    lineContext source p = some (String.ofList (trim (lineAround source.toList p))) := by
  rw [lineContext_eq, position_of_le hp]
  exact if_neg h

/-- The context of a position next to a character that is not blank is the
trimmed line of that character, and the character is still on it. -/
theorem lineContext_next_to {source : String} {i p : Nat} {c : Char}
    (hc : source.toList[i]? = some c) (hblank : isBlank c = false) (hp : p = i ∨ p = i + 1) :
    ∃ line, lineContext source p = some line ∧ line ≠ "" ∧
      (source.toList.splitOn '\n')[(source.toList.take p).count '\n']?.map trim =
        some line.toList ∧
      Covers source.toList line.toList i := by
  obtain ⟨hi, hget⟩ := List.getElem?_eq_some_iff.mp hc
  have hnewline : c ≠ '\n' := by
    rintro rfl
    contradiction
  let before := source.toList.take i
  let after := source.toList.drop (i + 1)
  have hbefore : before.length = i := List.length_take_of_le (Nat.le_of_lt hi)
  have hsplit : source.toList = before ++ c :: after := by
    rw [← hget, List.getElem_cons_drop, List.take_append_drop]
  have hline : trim (lineAround source.toList p) =
      (before.rtakeWhile (· != '\n')).dropWhile isBlank ++
        c :: (after.takeWhile (· != '\n')).rdropWhile isBlank := by
    rw [hsplit, lineAround_append_cons hnewline before after (hbefore.symm ▸ hp),
      trim_append_cons hblank]
  have hne : trim (lineAround source.toList p) ≠ [] := by simp [hline]
  have hlength : p ≤ source.length := by
    rw [← String.length_toList]
    omega
  refine ⟨_, lineContext_of_ne_nil hlength hne, ?_, ?_, ?_⟩
  · simpa using hne
  · rw [getElem?_splitOn_newline, Option.map_some, String.toList_ofList]
  · have hleft := (List.dropWhile_suffix isBlank).trans
      (List.rtakeWhile_suffix (· != '\n') before)
    have hright := (List.rdropWhile_prefix isBlank (after.takeWhile (· != '\n'))).trans
      (List.takeWhile_prefix (· != '\n'))
    have hcovers := covers_of_suffix_of_prefix c hleft hright
    rwa [← hline, ← hsplit, hbefore, ← String.toList_ofList (l := trim _)] at hcovers

end ParenCall.Text
