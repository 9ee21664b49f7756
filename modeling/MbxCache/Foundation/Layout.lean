/-
# Layouts

The flat form of a tree with named branches: what it holds, each under its path. A
layout is unambiguous when no path occurs twice and nothing lies under something that
is not a branch.

Layouts of parts that start with different names combine, and a layout can be hung
under a branch.
-/

import Mathlib.Data.List.Nodup

namespace MbxCache.Foundation.Layout

variable {α β : Type}

/-- Every path occurs once, is not empty, and only branches have something below
them. -/
structure Unambiguous (branch : β → Prop) (entries : List (List α × β)) : Prop where
  named : ∀ entry ∈ entries, entry.1 ≠ []
  unique : (entries.map Prod.fst).Nodup
  above : ∀ entry ∈ entries, ∀ other ∈ entries, entry.1 <+: other.1 → entry.1 ≠ other.1 →
    branch entry.2

/-- An entry one level further down. -/
def under (name : α) (entry : List α × β) : List α × β := (name :: entry.1, entry.2)

/-- All paths start with one of the names. -/
def Headed (names : List α) (entries : List (List α × β)) : Prop :=
  ∀ entry ∈ entries, ∃ name ∈ names, entry.1.head? = some name

variable {branch : β → Prop} {first second entries : List (List α × β)} {name : α} {node : β}

theorem unambiguous_nil : Unambiguous branch ([] : List (List α × β)) where
  named _ hmem := absurd hmem List.not_mem_nil
  unique := List.nodup_nil
  above _ hmem := absurd hmem List.not_mem_nil

/-- A path that extends another starts with the same name. -/
theorem head?_of_prefix {path longer : List α} (h : path <+: longer) (hne : path ≠ []) :
    path.head? = longer.head? := by
  obtain ⟨rest, rfl⟩ := h
  cases path with
  | nil => exact absurd rfl hne
  | cons name path => rfl

/-- Parts without a common first name. -/
theorem Unambiguous.append (hfirst : Unambiguous branch first)
    (hsecond : Unambiguous branch second)
    (hapart : ∀ entry ∈ first, ∀ other ∈ second, entry.1.head? ≠ other.1.head?) :
    Unambiguous branch (first ++ second) := by
  constructor
  case named =>
    intro entry hmem
    rcases List.mem_append.mp hmem with hmem | hmem
    · exact hfirst.named entry hmem
    · exact hsecond.named entry hmem
  case unique =>
    rw [List.map_append, List.nodup_append]
    refine ⟨hfirst.unique, hsecond.unique, ?_⟩
    intro path hpath other hother heq
    obtain ⟨entry, hentry, rfl⟩ := List.mem_map.mp hpath
    obtain ⟨entry', hentry', rfl⟩ := List.mem_map.mp hother
    exact hapart entry hentry entry' hentry' (congrArg List.head? heq)
  case above =>
    intro entry hentry other hother hprefix hne
    rcases List.mem_append.mp hentry with hentry | hentry
    · have hhead := head?_of_prefix hprefix (hfirst.named entry hentry)
      rcases List.mem_append.mp hother with hother | hother
      · exact hfirst.above entry hentry other hother hprefix hne
      · exact absurd hhead (hapart entry hentry other hother)
    · have hhead := head?_of_prefix hprefix (hsecond.named entry hentry)
      rcases List.mem_append.mp hother with hother | hother
      · exact absurd hhead.symm (hapart other hother entry hentry)
      · exact hsecond.above entry hentry other hother hprefix hne

/-- A layout under a branch. -/
theorem Unambiguous.hang (h : Unambiguous branch entries) (hbranch : branch node) :
    Unambiguous branch (([name], node) :: entries.map (under name)) := by
  have hunder : ∀ entry ∈ entries.map (under name), ∃ inner ∈ entries,
      entry.1 = name :: inner.1 ∧ entry.2 = inner.2 := by
    intro entry hmem
    obtain ⟨inner, hinner, rfl⟩ := List.mem_map.mp hmem
    exact ⟨inner, hinner, rfl, rfl⟩
  constructor
  case named =>
    intro entry hmem
    rcases List.mem_cons.mp hmem with rfl | hmem
    · exact List.cons_ne_nil _ _
    · obtain ⟨inner, _, hpath, _⟩ := hunder entry hmem
      rw [hpath]
      exact List.cons_ne_nil _ _
  case unique =>
    rw [List.map_cons, List.nodup_cons]
    constructor
    · intro hmem
      obtain ⟨entry, hentry, hpath⟩ := List.mem_map.mp hmem
      obtain ⟨inner, hinner, hpath', _⟩ := hunder entry hentry
      rw [hpath'] at hpath
      exact h.named inner hinner (List.cons.inj hpath).2
    · have hmap : (entries.map (under name)).map Prod.fst =
          (entries.map Prod.fst).map (name :: ·) := by
        rw [List.map_map, List.map_map]
        rfl
      rw [hmap]
      exact h.unique.map (List.cons_injective)
  case above =>
    intro entry hentry other hother hprefix hne
    rcases List.mem_cons.mp hentry with rfl | hentry
    · exact hbranch
    · obtain ⟨inner, hinner, hpath, hnode⟩ := hunder entry hentry
      rw [hpath] at hprefix hne
      rcases List.mem_cons.mp hother with rfl | hother
      · have hnil : inner.1 = [] := List.prefix_nil.mp (List.cons_prefix_cons.mp hprefix).2
        exact absurd hnil (h.named inner hinner)
      · obtain ⟨inner', hinner', hpath', _⟩ := hunder other hother
        rw [hpath'] at hprefix hne
        rw [hnode]
        apply h.above inner hinner inner' hinner' (List.cons_prefix_cons.mp hprefix).2
        exact fun heq => hne (by rw [heq])

theorem headed_hang : Headed [name] (([name], node) :: entries.map (under name)) := by
  intro entry hmem
  refine ⟨name, List.mem_singleton.mpr rfl, ?_⟩
  rcases List.mem_cons.mp hmem with rfl | hmem
  · rfl
  · obtain ⟨inner, _, rfl⟩ := List.mem_map.mp hmem
    rfl

/-- Something by itself, with nothing below. -/
theorem unambiguous_single : Unambiguous branch [([name], node)] where
  named entry hmem := by
    rw [List.mem_singleton.mp hmem]
    exact List.cons_ne_nil _ _
  unique := List.nodup_singleton _
  above entry hentry other hother _ hne := by
    rw [List.mem_singleton.mp hentry, List.mem_singleton.mp hother] at hne
    exact absurd rfl hne

theorem headed_single : Headed [name] [([name], node)] := by
  intro entry hmem
  rw [List.mem_singleton.mp hmem]
  exact ⟨name, List.mem_singleton.mpr rfl, rfl⟩

/-- Parts whose names are all different. -/
theorem unambiguous_flatten {names : List α} {parts : List (List (List α × β))}
    (hnames : names.Nodup)
    (hparts : List.Forall₂ (fun name part => Unambiguous branch part ∧ Headed [name] part)
      names parts) :
    Unambiguous branch parts.flatten ∧ Headed names parts.flatten := by
  induction hparts with
  | nil => exact ⟨unambiguous_nil, fun entry hmem => absurd hmem List.not_mem_nil⟩
  | cons hpart hparts ih =>
      rw [List.nodup_cons] at hnames
      obtain ⟨hpart, hheaded⟩ := hpart
      obtain ⟨hrest, hheads⟩ := ih hnames.2
      rw [List.flatten_cons]
      constructor
      · apply hpart.append hrest
        intro entry hentry other hother heq
        obtain ⟨name, hname, hhead⟩ := hheaded entry hentry
        obtain ⟨name', hname', hhead'⟩ := hheads other hother
        rw [hhead, hhead'] at heq
        obtain rfl := Option.some.inj heq
        rw [List.mem_singleton.mp hname] at hname'
        exact hnames.1 hname'
      · intro entry hmem
        rcases List.mem_append.mp hmem with hmem | hmem
        · obtain ⟨name, hname, hhead⟩ := hheaded entry hmem
          exact ⟨name, List.mem_cons.mpr (.inl (List.mem_singleton.mp hname)), hhead⟩
        · obtain ⟨name, hname, hhead⟩ := hheads entry hmem
          exact ⟨name, List.mem_cons_of_mem _ hname, hhead⟩

/-- Parts that are settled from some depth on are all settled from one depth on. -/
theorem exists_mapM {τ γ : Type} {f : ℕ → τ → Option γ} {P : τ → γ → Prop} {items : List τ}
    (h : ∀ item ∈ items, ∃ depth part, (∀ more, depth ≤ more → f more item = some part) ∧
      P item part) :
    ∃ depth parts, (∀ more, depth ≤ more → items.mapM (f more) = some parts) ∧
      List.Forall₂ P items parts := by
  induction items with
  | nil => exact ⟨0, [], fun _ _ => rfl, .nil⟩
  | cons item items ih =>
      obtain ⟨depth, part, hpart, hP⟩ := h item List.mem_cons_self
      obtain ⟨depth', parts, hparts, hall⟩ := ih fun other hmem =>
        h other (List.mem_cons_of_mem _ hmem)
      refine ⟨max depth depth', part :: parts, ?_, .cons hP hall⟩
      intro more hmore
      rw [List.mapM_cons, hpart more (Nat.le_trans (Nat.le_max_left _ _) hmore),
        hparts more (Nat.le_trans (Nat.le_max_right _ _) hmore)]
      rfl

end MbxCache.Foundation.Layout
