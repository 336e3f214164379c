import ParenCall.Proofs.Lines

/-! # The context of any offset

An offset can be any integer: past the end it means the end, below zero it
counts back from the end, and it never gets past the start. Whatever position
that is, the context is the line of that position without the blanks at its two
ends, and there is none exactly if the line is blank. What trimming leaves is
described here without saying how it is found. -/

namespace ParenCall.Text

/-! ## Trimming -/

/-- The part of a line that is left without the blanks at its ends. -/
structure Trims (line shown : List Char) : Prop where
  around : ∃ left right, line = left ++ shown ++ right ∧
    (∀ c ∈ left, isBlank c = true) ∧ ∀ c ∈ right, isBlank c = true
  first : ∀ c, shown.head? = some c → isBlank c = false
  last : ∀ c, shown.getLast? = some c → isBlank c = false

theorem Trims.within {line shown : List Char} (h : Trims line shown) : shown <:+: line := by
  obtain ⟨left, right, hline, _⟩ := h.around
  exact ⟨left, right, hline.symm⟩

theorem trim_eq_rdropWhile (line : List Char) :
    trim line = (line.dropWhile isBlank).rdropWhile isBlank := rfl

theorem trims_trim (line : List Char) : Trims line (trim line) := by
  let rest := line.dropWhile isBlank
  have hrest : rest.rdropWhile isBlank ++ rest.rtakeWhile isBlank = rest :=
    List.rdropWhile_append_rtakeWhile
  rw [trim_eq_rdropWhile]
  refine ⟨⟨line.takeWhile isBlank, rest.rtakeWhile isBlank, ?_, ?_, ?_⟩, ?_, ?_⟩
  · rw [List.append_assoc, hrest, List.takeWhile_append_dropWhile]
  · intro c hc
    exact List.mem_takeWhile_imp hc
  · intro c hc
    exact List.mem_rtakeWhile_imp hc
  · intro c hc
    have hfirst : rest.head? = some c := by
      rw [← hrest, List.head?_append, hc]
      rfl
    have hnot := List.head?_dropWhile_not isBlank line
    rw [hfirst] at hnot
    exact hnot
  · intro c hc
    have hne : rest.rdropWhile isBlank ≠ [] := by
      intro hnil
      rw [hnil] at hc
      cases hc
    have hnot := List.rdropWhile_last_not isBlank rest hne
    rw [List.getLast?_eq_some_getLast hne] at hc
    rw [Option.some.inj hc] at hnot
    exact Bool.eq_false_iff.mpr hnot

/-- Trimming leaves one thing only: the last character that is left has nothing
but blanks behind it, and what is before it starts where the blanks end. -/
theorem Trims.eq_trim {line shown : List Char} (h : Trims line shown) : shown = trim line := by
  obtain ⟨left, right, rfl, hleft, hright⟩ := h.around
  by_cases hnil : shown = []
  · subst hnil
    have hblank : ∀ c ∈ left ++ [] ++ right, isBlank c = true := by
      intro c hc
      rw [List.append_nil] at hc
      exact (List.mem_append.mp hc).elim (hleft c) (hright c)
    rw [trim_eq_rdropWhile, List.dropWhile_eq_nil_iff.mpr hblank, List.rdropWhile_nil]
  · obtain ⟨start, c, rfl⟩ := List.eq_nil_or_concat' shown |>.resolve_left hnil
    have hc : isBlank c = false := h.last c List.getLast?_concat
    have hstart : start.dropWhile isBlank = start := by
      cases start with
      | nil => rfl
      | cons d start => exact List.dropWhile_cons_of_neg (by simp [h.first d rfl])
    have hsplit : left ++ (start ++ [c]) ++ right = (left ++ start) ++ c :: right := by simp
    rw [hsplit, trim_append_cons hc, List.dropWhile_append_of_pos hleft, hstart,
      List.rdropWhile_eq_nil_iff.mpr hright]

theorem trims_iff {line shown : List Char} : Trims line shown ↔ shown = trim line := by
  constructor
  · exact Trims.eq_trim
  · intro h
    rw [h]
    exact trims_trim line

theorem trim_eq_nil_iff {line : List Char} : trim line = [] ↔ ∀ c ∈ line, isBlank c = true := by
  rw [trim_eq_rdropWhile, List.rdropWhile_eq_nil_iff]
  constructor
  · intro h c hc
    rw [← List.takeWhile_append_dropWhile (p := isBlank) (l := line)] at hc
    exact (List.mem_append.mp hc).elim List.mem_takeWhile_imp (h c)
  · intro h c hc
    exact h c ((List.dropWhile_suffix isBlank).mem hc)

/-! ## Lines within the text -/

theorem lineAround_within (cs : List Char) (p : Nat) : lineAround cs p <:+: cs := by
  obtain ⟨before, hbefore⟩ := List.rtakeWhile_suffix (· != '\n') (cs.take p)
  obtain ⟨after, hafter⟩ := List.takeWhile_prefix (· != '\n') (l := cs.drop p)
  refine ⟨before, after, ?_⟩
  calc before ++ lineAround cs p ++ after
      = (before ++ (cs.take p).rtakeWhile (· != '\n')) ++
          ((cs.drop p).takeWhile (· != '\n') ++ after) := by
        simp only [lineAround, List.rtakeWhile, List.append_assoc]
    _ = cs := by rw [hbefore, hafter, List.take_append_drop]

theorem newline_notMem_lineAround (cs : List Char) (p : Nat) : '\n' ∉ lineAround cs p := by
  intro h
  rw [lineAround, List.mem_append, List.mem_reverse] at h
  have hne : ('\n' != '\n') = true := h.elim List.mem_takeWhile_imp List.mem_takeWhile_imp
  exact absurd hne (by decide)

/-! ## The context -/

theorem position_eq (length : Nat) (offset : Int) :
    position length offset =
      (if 0 ≤ offset then min offset length else max 0 (length + offset)).toNat := by
  unfold position
  split <;> split <;> omega

theorem lineContext_eq_none_iff {source : String} {offset : Int} :
    lineContext source offset = none ↔
      trim (lineAround source.toList (position source.length offset)) = [] := by
  rw [lineContext_eq]
  simp

theorem lineContext_eq_some_iff {source : String} {offset : Int} {shown : String} :
    lineContext source offset = some shown ↔ shown ≠ "" ∧
      shown.toList = trim (lineAround source.toList (position source.length offset)) := by
  rw [lineContext_eq]
  dsimp only
  split
  · rename_i h
    simp [h]
  · rename_i h
    constructor
    · intro he
      rw [← Option.some.inj he, String.toList_ofList]
      exact ⟨by simpa using h, rfl⟩
    · intro he
      rw [← he.2, String.ofList_toList]

/-- At every offset the context is what trimming leaves of the line with as many
newlines before it as there are before the offset's position. It is a part of
the source that holds no newline and neither starts nor ends with a blank. -/
theorem lineContext_is_trimmed_line (source : String) (offset : Int) :
    let p := (if 0 ≤ offset then min offset source.length
      else max 0 (source.length + offset)).toNat
    ∃ line, (source.toList.splitOn '\n')[(source.toList.take p).count '\n']? = some line ∧
      (lineContext source offset = none ↔ ∀ c ∈ line, isBlank c = true) ∧
      (∀ shown, lineContext source offset = some shown ↔
        shown ≠ "" ∧ Trims line shown.toList) ∧
      ∀ shown, lineContext source offset = some shown →
        shown.toList <:+: source.toList ∧ '\n' ∉ shown.toList ∧
        (∀ c, shown.toList.head? = some c → isBlank c = false) ∧
        ∀ c, shown.toList.getLast? = some c → isBlank c = false := by
  intro p
  have hp : position source.length offset = p := position_eq source.length offset
  have hsome : ∀ shown, lineContext source offset = some shown ↔
      shown ≠ "" ∧ Trims (lineAround source.toList p) shown.toList := by
    intro shown
    rw [lineContext_eq_some_iff, trims_iff, hp]
  refine ⟨lineAround source.toList p, getElem?_splitOn_newline source.toList p, ?_, hsome, ?_⟩
  · rw [lineContext_eq_none_iff, trim_eq_nil_iff, hp]
  · intro shown hshown
    have htrims := ((hsome shown).mp hshown).2
    refine ⟨htrims.within.trans (lineAround_within source.toList p), ?_, htrims.first, htrims.last⟩
    intro hmem
    exact newline_notMem_lineAround source.toList p (htrims.within.mem hmem)

end ParenCall.Text
