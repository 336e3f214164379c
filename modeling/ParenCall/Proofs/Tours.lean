import Mathlib.Data.List.Nodup
import ParenCall.Proofs.Induction
import ParenCall.Walk

/-! # Tours of a tree

A walk that visits all of a tree enters and leaves every node of it. Nodes are
told apart here by the path that leads to them, a list of positions among
children, since equal nodes may stand in several places. The steps of the walk,
each a phase and a path, hold every path once in each phase, and between the two
steps of a node stand exactly those of the nodes below it. -/

namespace ParenCall

namespace Tree

/-- The nodes of a tree with their parents, a parent after its children. -/
def postorder (parent t : Tree) : List (Tree × Tree) :=
  t.fold (fun node (below : List (Tree → List (Tree × Tree))) parent =>
    below.flatMap (fun part => part node) ++ [(node, parent)]) parent

theorem postorder_eq (parent t : Tree) :
    postorder parent t = t.children.flatMap (postorder t) ++ [(t, parent)] := by
  rw [postorder, fold_eq, List.flatMap_map]
  rfl

/-- The node that a path leads to, with its parent. -/
def locate? (parent t : Tree) : List Nat → Option (Tree × Tree)
  | [] => some (t, parent)
  | i :: path => t.children[i]?.bind fun child => locate? t child path

/-- A step of a walk below the child at position `i`. -/
def under (i : Nat) (step : Phase × List Nat) : Phase × List Nat := (step.1, i :: step.2)

/-- The steps of a walk, by phase and path. -/
def tour (t : Tree) : List (Phase × List Nat) :=
  t.fold fun _ below =>
    (.enter, []) :: (below.zipIdx.flatMap (fun x => x.1.map (under x.2)) ++ [(.exit, [])])

/-- The steps of a walk below its root. -/
def toursBelow (t : Tree) : List (Phase × List Nat) :=
  t.children.zipIdx.flatMap fun x => x.1.tour.map (under x.2)

theorem tour_eq (t : Tree) : t.tour = (.enter, []) :: (t.toursBelow ++ [(.exit, [])]) := by
  rw [tour, fold_eq, List.zipIdx_map, List.flatMap_map]
  rfl

theorem mem_toursBelow {t : Tree} {phase : Phase} {path : List Nat} :
    (phase, path) ∈ t.toursBelow ↔
      ∃ i rest child, path = i :: rest ∧ t.children[i]? = some child ∧
        (phase, rest) ∈ child.tour := by
  simp only [toursBelow, List.mem_flatMap, List.mem_map, Prod.exists,
    List.mk_mem_zipIdx_iff_getElem?, under, Prod.mk.injEq]
  constructor
  · rintro ⟨child, i, hchild, phase, rest, hrest, rfl, rfl⟩
    exact ⟨i, rest, child, rfl, hchild, hrest⟩
  · rintro ⟨i, rest, child, rfl, hchild, hrest⟩
    exact ⟨child, i, hchild, phase, rest, hrest, rfl, rfl⟩

theorem mem_tour_iff {t parent : Tree} {phase : Phase} {path : List Nat} :
    (phase, path) ∈ t.tour ↔ (locate? parent t path).isSome = true := by
  induction path generalizing t parent with
  | nil => cases phase <;> simp [tour_eq, locate?]
  | cons i rest ih =>
    have hstep : (phase, i :: rest) ∈ t.tour ↔ (phase, i :: rest) ∈ t.toursBelow := by
      simp [tour_eq]
    rw [hstep, mem_toursBelow, locate?]
    cases hchild : t.children[i]? with
    | none => simp [hchild]
    | some child =>
      rw [Option.bind_some, ← ih]
      simp [hchild]

theorem under_injective (i : Nat) : Function.Injective (under i) := by
  rintro ⟨phase, path⟩ ⟨phase', path'⟩ h
  simpa [under] using h

theorem nodup_toursBelow {t : Tree} (h : ∀ child ∈ t.children, child.tour.Nodup) :
    t.toursBelow.Nodup := by
  refine List.nodup_flatMap.mpr ⟨fun x hx => ?_, ?_⟩
  · exact (h x.1 (List.fst_mem_of_mem_zipIdx hx)).map (under_injective x.2)
  · -- steps below different children differ in the first position of their paths
    have hpositions : (t.children.zipIdx.map Prod.snd).Nodup := by
      rw [List.zipIdx_map_snd]
      exact List.nodup_range'
    refine (List.pairwise_map.mp hpositions).imp ?_
    intro x y hne step hx hy
    obtain ⟨_, _, rfl⟩ := List.mem_map.mp hx
    obtain ⟨_, _, heq⟩ := List.mem_map.mp hy
    exact hne (List.cons.inj (Prod.mk.inj heq).2).1.symm

theorem nodup_tour (t : Tree) : t.tour.Nodup := by
  induction t using Tree.induction with
  | node t ih =>
    have hroot (phase : Phase) : (phase, []) ∉ t.toursBelow := by
      simp [mem_toursBelow]
    rw [tour_eq, List.nodup_cons, ← List.concat_eq_append, List.nodup_concat]
    exact ⟨by simp [hroot], hroot .exit, nodup_toursBelow ih⟩

/-- Entering and leaving a node stand around the steps of the nodes below it and
around no others. -/
def Encloses (parent root : Tree) (steps : List (Phase × List Nat)) (path : List Nat) : Prop :=
  ∃ before inside after,
    steps = before ++ (.enter, path) :: (inside ++ (.exit, path) :: after) ∧
    ∀ phase below, (phase, below) ∈ inside ↔
      (locate? parent root below).isSome = true ∧ path <+: below ∧ path ≠ below

/-- Steps that visit each node of a tree once, entering it before the nodes below
it and leaving it after them. -/
structure IsTour (parent root : Tree) (steps : List (Phase × List Nat)) : Prop where
  nodup : steps.Nodup
  mem_iff : ∀ phase path, (phase, path) ∈ steps ↔ (locate? parent root path).isSome = true
  nested : ∀ path, (locate? parent root path).isSome = true → Encloses parent root steps path

theorem encloses_root (parent root : Tree) : Encloses parent root root.tour [] := by
  refine ⟨[], root.toursBelow, [], root.tour_eq, fun phase below => ?_⟩
  have hmem : (phase, below) ∈ root.tour ↔ (locate? parent root below).isSome = true :=
    mem_tour_iff
  rw [← hmem, tour_eq]
  cases below with
  | nil => simp [mem_toursBelow]
  | cons i rest => simp

/-- The steps of a child stand together among those of its parent. -/
theorem exists_toursBelow_eq {t child : Tree} {i : Nat} (h : t.children[i]? = some child) :
    ∃ first last, t.toursBelow = first ++ (child.tour.map (under i) ++ last) := by
  obtain ⟨first, last, hsplit⟩ := List.append_of_mem (List.mk_mem_zipIdx_iff_getElem?.mpr h)
  rw [toursBelow, hsplit, List.flatMap_append, List.flatMap_cons]
  exact ⟨_, _, rfl⟩

theorem Encloses.under {parent root child : Tree} {i : Nat} {path : List Nat}
    (hchild : root.children[i]? = some child) (h : Encloses root child child.tour path) :
    Encloses parent root root.tour (i :: path) := by
  obtain ⟨before, inside, after, htour, hinside⟩ := h
  obtain ⟨first, last, hbelow⟩ := exists_toursBelow_eq hchild
  refine ⟨(.enter, []) :: (first ++ before.map (Tree.under i)), inside.map (Tree.under i),
    after.map (Tree.under i) ++ (last ++ [(.exit, [])]), ?_, fun phase below => ?_⟩
  · simp [tour_eq root, hbelow, htour, Tree.under]
  · cases below with
    | nil => simp [Tree.under]
    | cons j below =>
      have hmem : (phase, j :: below) ∈ inside.map (Tree.under i) ↔
          i = j ∧ (phase, below) ∈ inside := by
        simp [Tree.under, and_comm, eq_comm]
      rw [hmem, hinside, List.cons_prefix_cons]
      constructor
      · rintro ⟨rfl, hlocated, hbegins, hne⟩
        refine ⟨?_, ⟨rfl, hbegins⟩, fun h => hne (List.cons.inj h).2⟩
        rwa [locate?, hchild]
      · rintro ⟨hlocated, ⟨rfl, hbegins⟩, hne⟩
        rw [locate?, hchild] at hlocated
        exact ⟨rfl, hlocated, hbegins, fun h => hne (congrArg _ h)⟩

theorem encloses_tour {parent root : Tree} {path : List Nat}
    (h : (locate? parent root path).isSome = true) : Encloses parent root root.tour path := by
  induction path generalizing parent root with
  | nil => exact encloses_root parent root
  | cons i rest ih =>
    rw [locate?] at h
    cases hchild : root.children[i]? with
    | none => simp [hchild] at h
    | some child =>
      rw [hchild] at h
      exact .under hchild (ih h)

theorem isTour_tour (parent root : Tree) : IsTour parent root root.tour :=
  ⟨root.nodup_tour, fun _ _ => mem_tour_iff, fun _ => encloses_tour⟩

end Tree

end ParenCall
