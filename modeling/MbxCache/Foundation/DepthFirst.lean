/-
# Depth-first search on a stack of visits

A search that refuses cycles keeps a stack of visits, to enter a node or to leave
it, beside the nodes on the current path and the finished ones. The rules here say
what one turn of such a search keeps and what follows where it stops.

With an empty stack, everything reachable from the root is good, lies on no cycle
and is not too much. Where the search gives up, one of the three fails.
-/

import Mathlib.Data.Set.Card
import Mathlib.Logic.Relation

namespace MbxCache.Foundation.DepthFirst

open Relation

variable {α : Type}

/-- A node is entered, or left. -/
inductive Visit (α : Type) where
  | enter (node : α)
  | exit (node : α)

def Visit.node : Visit α → α
  | .enter node => node
  | .exit node => node

/-- The nodes that are still to be left, the current one first. -/
def path : List (Visit α) → List α
  | [] => []
  | .enter _ :: pending => path pending
  | .exit node :: pending => node :: path pending

/-- What is pushed when a node is entered. -/
def push (node : α) (children : List α) (pending : List (Visit α)) : List (Visit α) :=
  children.map .enter ++ .exit node :: pending

section

variable (edge : α → α → Prop) (good : α → Prop) (limit : ℕ) (root : α)

/-! ## What is decided -/

/-- The part of a graph under a root is in order. -/
structure Orderly : Prop where
  good : ∀ node, ReflTransGen edge root node → good node
  acyclic : ∀ node, ReflTransGen edge root node → ¬ TransGen edge node node
  bounded : {node | ReflTransGen edge root node}.encard ≤ limit

/-! ## What the stack says -/

/-- A visit is to a child of the first node on a path, or to the root. -/
def Descends (node : α) : List α → Prop
  | [] => node = root
  | parent :: _ => edge parent node

def Lineage : List (Visit α) → Prop
  | [] => True
  | visit :: pending => Descends edge root visit.node (path pending) ∧ Lineage pending

/-- By the time a node is left, its children are finished. -/
def Owes (finished : Set α) : List (Visit α) → Prop
  | [] => True
  | .enter node :: pending => Owes (insert node finished) pending
  | .exit node :: pending =>
      (∀ child, edge node child → child ∈ finished) ∧ Owes (insert node finished) pending

/-- What holds before each turn of a search. -/
structure Searching (pending : List (Visit α)) (visiting seen : Finset α) : Prop where
  lineage : Lineage edge root pending
  owes : Owes edge seen pending
  onPath : ∀ node, node ∈ visiting ↔ node ∈ path pending
  nodup : (path pending).Nodup
  apart : ∀ node ∈ path pending, node ∉ seen
  entered : ∀ node, node ∈ path pending ∨ node ∈ seen → good node
  reached : ∀ node ∈ seen, ReflTransGen edge root node
  closed : ∀ node ∈ seen, ∀ child, edge node child → child ∈ seen
  acyclic : ∀ node ∈ seen, ¬ TransGen edge node node
  bounded : seen.card + visiting.card ≤ limit
  rooted : root ∈ seen ∨ ∃ visit ∈ pending, visit.node = root

end

variable {edge : α → α → Prop} {good : α → Prop} {limit : ℕ} {root node : α}
variable {pending : List (Visit α)} {children : List α}

/-! ## Paths -/

theorem path_enters (children : List α) (pending : List (Visit α)) :
    path (children.map .enter ++ pending) = path pending := by
  induction children with
  | nil => rfl
  | cons child children ih => exact ih

theorem path_push (node : α) (children : List α) (pending : List (Visit α)) :
    path (push node children pending) = node :: path pending :=
  path_enters children _

theorem exists_visit_of_mem_path (h : node ∈ path pending) :
    ∃ visit ∈ pending, visit.node = node := by
  induction pending with
  | nil => cases h
  | cons visit pending ih =>
      cases visit with
      | enter other =>
          obtain ⟨visit, hvisit, hnode⟩ := ih h
          exact ⟨visit, List.mem_cons_of_mem _ hvisit, hnode⟩
      | exit other =>
          rcases List.mem_cons.mp h with rfl | hrest
          · exact ⟨_, List.mem_cons_self, rfl⟩
          · obtain ⟨visit, hvisit, hnode⟩ := ih hrest
            exact ⟨visit, List.mem_cons_of_mem _ hvisit, hnode⟩

theorem Lineage.reaches (h : Lineage edge root pending) :
    ∀ visit ∈ pending, ReflTransGen edge root visit.node := by
  induction pending with
  | nil => exact fun visit hmem => absurd hmem List.not_mem_nil
  | cons first pending ih =>
      intro visit hmem
      rcases List.mem_cons.mp hmem with rfl | hrest
      · have hfirst := h.1
        cases hpath : path pending with
        | nil =>
            rw [hpath] at hfirst
            rw [show visit.node = root from hfirst]
        | cons parent rest =>
            rw [hpath] at hfirst
            obtain ⟨below, hbelow, hparent⟩ :=
              exists_visit_of_mem_path (hpath ▸ List.mem_cons_self : parent ∈ path pending)
            have hreach := ih h.2 below hbelow
            rw [hparent] at hreach
            exact hreach.tail hfirst
      · exact ih h.2 visit hrest

/-- Whatever is on the path leads to the visit on top. -/
theorem Lineage.above {visit : Visit α} (h : Lineage edge root (visit :: pending)) :
    ∀ other ∈ path pending, TransGen edge other visit.node := by
  induction pending generalizing visit with
  | nil => exact fun other hmem => absurd hmem List.not_mem_nil
  | cons second pending ih =>
      cases second with
      | enter node => exact ih ⟨h.1, h.2.2⟩
      | exit node =>
          have hedge : edge node visit.node := h.1
          intro other hmem
          rcases List.mem_cons.mp hmem with rfl | hrest
          · exact .single hedge
          · exact (ih h.2 other hrest).tail hedge

theorem lineage_push (h : Lineage edge root (.enter node :: pending))
    (hchildren : ∀ child ∈ children, edge node child) :
    Lineage edge root (push node children pending) := by
  have hexit : Lineage edge root (.exit node :: pending) := h
  show Lineage edge root (children.map .enter ++ .exit node :: pending)
  clear h
  induction children with
  | nil => exact hexit
  | cons child children ih =>
      refine ⟨?_, ih fun other hother => hchildren other (List.mem_cons_of_mem _ hother)⟩
      show Descends edge root child (path (push node children pending))
      rw [path_push]
      exact hchildren child List.mem_cons_self

/-! ## What is owed -/

theorem Owes.mono {finished more : Set α} (h : Owes edge finished pending)
    (hsubset : finished ⊆ more) : Owes edge more pending := by
  induction pending generalizing finished more with
  | nil => trivial
  | cons visit pending ih =>
      cases visit with
      | enter node => exact ih h (Set.insert_subset_insert hsubset)
      | exit node =>
          exact ⟨fun child hedge => hsubset (h.1 child hedge),
            ih h.2 (Set.insert_subset_insert hsubset)⟩

/-- Entering a node puts its children before its exit. -/
theorem owes_push {finished : Set α} (h : Owes edge (insert node finished) pending)
    (hchildren : ∀ child, edge node child → child ∈ finished ∨ child ∈ children) :
    Owes edge finished (push node children pending) := by
  induction children generalizing finished with
  | nil => exact ⟨fun child hedge => (hchildren child hedge).resolve_right List.not_mem_nil, h⟩
  | cons child children ih =>
      apply ih (h.mono (Set.insert_subset_insert (Set.subset_insert child finished)))
      intro other hedge
      rcases hchildren other hedge with hfinished | hmem
      · exact .inl (Set.mem_insert_of_mem _ hfinished)
      · rcases List.mem_cons.mp hmem with rfl | hrest
        · exact .inl (Set.mem_insert other finished)
        · exact .inr hrest

/-- A closed set holds what its members lead to. -/
theorem mem_of_reflTransGen {s : Finset α}
    (hclosed : ∀ node ∈ s, ∀ child, edge node child → child ∈ s) {first last : α} (hfirst : first ∈ s) (h : ReflTransGen edge first last) : last ∈ s := by
  induction h with
  | refl => exact hfirst
  | tail _ hedge ih => exact hclosed _ ih _ hedge

/-- Under a root in order, everything can be done by induction from the leaves. -/
theorem Orderly.acc (h : Orderly edge good limit root) :
    Acc (fun child parent => edge parent child) root := by
  have hfinite : {node | ReflTransGen edge root node}.Finite :=
    Set.finite_of_encard_le_coe h.bounded
  have hall : ∀ size node, ReflTransGen edge root node →
      {other | TransGen edge node other}.ncard = size →
      Acc (fun child parent => edge parent child) node := by
    intro size
    induction size using Nat.strong_induction_on with
    | _ size ih =>
        rintro node hreach rfl
        constructor
        intro child hedge
        apply ih _ _ child (hreach.tail hedge) rfl
        apply Set.ncard_lt_ncard
        · constructor
          · exact fun other hother => hother.head hedge
          · exact fun hsubset => h.acyclic child (hreach.tail hedge) (hsubset (.single hedge))
        · exact hfinite.subset fun other hother => hreach.trans hother.to_reflTransGen
  exact hall _ root .refl rfl

/-! ## Turns -/

namespace Searching

variable {visiting seen : Finset α}

theorem start (limit : ℕ) (edge : α → α → Prop) (good : α → Prop) (root : α) :
    Searching edge good limit root [.enter root] ∅ ∅ where
  lineage := ⟨rfl, trivial⟩
  owes := trivial
  onPath node := by simp [path]
  nodup := List.nodup_nil
  apart node hmem := absurd hmem List.not_mem_nil
  entered node hmem := by simp [path] at hmem
  reached node hmem := absurd hmem (Finset.notMem_empty node)
  closed node hmem := absurd hmem (Finset.notMem_empty node)
  acyclic node hmem := absurd hmem (Finset.notMem_empty node)
  bounded := Nat.zero_le limit
  rooted := .inr ⟨_, List.mem_cons_self, rfl⟩

/-- A finished node is not entered again. -/
theorem skip (h : Searching edge good limit root (.enter node :: pending) visiting seen)
    (hseen : node ∈ seen) : Searching edge good limit root pending visiting seen where
  lineage := h.lineage.2
  owes := by
    have howes : Owes edge (insert node seen) pending := h.owes
    exact howes.mono (Set.insert_subset hseen subset_rfl)
  onPath := h.onPath
  nodup := h.nodup
  apart := h.apart
  entered := h.entered
  reached := h.reached
  closed := h.closed
  acyclic := h.acyclic
  bounded := h.bounded
  rooted := by
    rcases h.rooted with hroot | ⟨visit, hvisit, hnode⟩
    · exact .inl hroot
    · rcases List.mem_cons.mp hvisit with rfl | hrest
      · exact .inl (hnode ▸ hseen)
      · exact .inr ⟨visit, hrest, hnode⟩

variable [DecidableEq α]

/-- A node that is left is finished: its children are, so it cannot be reached from
itself. -/
theorem leave (h : Searching edge good limit root (.exit node :: pending) visiting seen) :
    Searching edge good limit root pending (visiting.erase node) (insert node seen) := by
  have hfresh : node ∉ seen := h.apart node List.mem_cons_self
  have hvisiting : node ∈ visiting := (h.onPath node).mpr List.mem_cons_self
  have hunique : node ∉ path pending := (List.nodup_cons.mp h.nodup).1
  have hchildren : ∀ child, edge node child → child ∈ seen := h.owes.1
  constructor
  case lineage => exact h.lineage.2
  case owes =>
    rw [Finset.coe_insert]
    exact h.owes.2
  case onPath =>
    intro other
    rw [Finset.mem_erase, h.onPath]
    show other ≠ node ∧ other ∈ node :: path pending ↔ other ∈ path pending
    rw [List.mem_cons]
    constructor
    · exact fun hother => hother.2.resolve_left hother.1
    · intro hother
      refine ⟨?_, .inr hother⟩
      rintro rfl
      exact hunique hother
  case nodup => exact (List.nodup_cons.mp h.nodup).2
  case apart =>
    intro other hother hmem
    rcases Finset.mem_insert.mp hmem with rfl | hseen
    · exact hunique hother
    · exact h.apart other (List.mem_cons_of_mem _ hother) hseen
  case entered =>
    rintro other (hother | hother)
    · exact h.entered other (.inl (List.mem_cons_of_mem _ hother))
    · rcases Finset.mem_insert.mp hother with rfl | hseen
      · exact h.entered other (.inl List.mem_cons_self)
      · exact h.entered other (.inr hseen)
  case reached =>
    intro other hother
    rcases Finset.mem_insert.mp hother with rfl | hseen
    · exact h.lineage.reaches _ List.mem_cons_self
    · exact h.reached other hseen
  case closed =>
    intro other hother child hedge
    rcases Finset.mem_insert.mp hother with rfl | hseen
    · exact Finset.mem_insert_of_mem (hchildren child hedge)
    · exact Finset.mem_insert_of_mem (h.closed other hseen child hedge)
  case acyclic =>
    intro other hother hcycle
    rcases Finset.mem_insert.mp hother with rfl | hseen
    · obtain ⟨child, hedge, hback⟩ := TransGen.head'_iff.mp hcycle
      exact hfresh (mem_of_reflTransGen h.closed (hchildren child hedge) hback)
    · exact h.acyclic other hseen hcycle
  case bounded =>
    rw [Finset.card_insert_of_notMem hfresh, Finset.card_erase_of_mem hvisiting]
    have hpos := Finset.card_pos.mpr ⟨node, hvisiting⟩
    have hbounded := h.bounded
    omega
  case rooted =>
    rcases h.rooted with hroot | ⟨visit, hvisit, hnode⟩
    · exact .inl (Finset.mem_insert_of_mem hroot)
    · rcases List.mem_cons.mp hvisit with rfl | hrest
      · exact .inl (hnode ▸ Finset.mem_insert_self _ _)
      · exact .inr ⟨visit, hrest, hnode⟩

/-- A good node joins the path, with its children above it. -/
theorem enter (h : Searching edge good limit root (.enter node :: pending) visiting seen)
    (hseen : node ∉ seen) (hvisiting : node ∉ visiting)
    (hbound : seen.card + (insert node visiting).card ≤ limit) (hgood : good node)
    (hchildren : ∀ child, edge node child ↔ child ∈ children) :
    Searching edge good limit root (push node children pending) (insert node visiting) seen := by
  have hunique : node ∉ path pending := fun hmem => hvisiting ((h.onPath node).mpr hmem)
  constructor
  case lineage => exact lineage_push h.lineage fun child hmem => (hchildren child).mpr hmem
  case owes => exact owes_push h.owes fun child hedge => .inr ((hchildren child).mp hedge)
  case onPath =>
    intro other
    rw [Finset.mem_insert, path_push, List.mem_cons, h.onPath]
    rfl
  case nodup =>
    rw [path_push]
    exact List.nodup_cons.mpr ⟨hunique, h.nodup⟩
  case apart =>
    intro other hother
    rw [path_push] at hother
    rcases List.mem_cons.mp hother with rfl | hrest
    · exact hseen
    · exact h.apart other hrest
  case entered =>
    rintro other (hother | hother)
    · rw [path_push] at hother
      rcases List.mem_cons.mp hother with rfl | hrest
      · exact hgood
      · exact h.entered other (.inl hrest)
    · exact h.entered other (.inr hother)
  case reached => exact h.reached
  case closed => exact h.closed
  case acyclic => exact h.acyclic
  case bounded => exact hbound
  case rooted =>
    rcases h.rooted with hroot | ⟨visit, hvisit, hnode⟩
    · exact .inl hroot
    · right
      rcases List.mem_cons.mp hvisit with rfl | hrest
      · exact ⟨.exit node, List.mem_append_right _ List.mem_cons_self, hnode⟩
      · exact ⟨visit, List.mem_append_right _ (List.mem_cons_of_mem _ hrest), hnode⟩

omit [DecidableEq α] in
theorem reaches (h : Searching edge good limit root (.enter node :: pending) visiting seen) :
    ReflTransGen edge root node :=
  h.lineage.reaches _ List.mem_cons_self

/-! ## Ends -/

omit [DecidableEq α] in
/-- A search that runs to its end has seen all there is. -/
theorem orderly (h : Searching edge good limit root [] visiting seen) :
    Orderly edge good limit root := by
  have hroot : root ∈ seen := by
    rcases h.rooted with hroot | ⟨visit, hvisit, _⟩
    · exact hroot
    · cases hvisit
  have hall : ∀ node, ReflTransGen edge root node → node ∈ seen :=
    fun node hreach => mem_of_reflTransGen h.closed hroot hreach
  constructor
  · exact fun node hreach => h.entered node (.inr (hall node hreach))
  · exact fun node hreach => h.acyclic node (hall node hreach)
  · calc {node | ReflTransGen edge root node}.encard
        ≤ (seen : Set α).encard := Set.encard_le_encard fun node hreach => hall node hreach
      _ = seen.card := Set.encard_coe_eq_coe_finsetCard seen
      _ ≤ limit := by
          have hbounded := h.bounded
          exact_mod_cast (show seen.card ≤ limit by omega)

omit [DecidableEq α] in
/-- A node that is entered while it is on the path is on a cycle. -/
theorem cycle (h : Searching edge good limit root (.enter node :: pending) visiting seen)
    (hvisiting : node ∈ visiting) : TransGen edge node node :=
  h.lineage.above node ((h.onPath node).mp hvisiting)

/-- All nodes seen are reachable, and so are those on the path. -/
theorem overflow (h : Searching edge good limit root (.enter node :: pending) visiting seen)
    (hseen : node ∉ seen) (hbound : limit < seen.card + (insert node visiting).card) :
    limit < {node | ReflTransGen edge root node}.encard := by
  have hdisjoint : Disjoint seen (insert node visiting) := by
    rw [Finset.disjoint_right]
    intro other hother
    rcases Finset.mem_insert.mp hother with rfl | hmem
    · exact hseen
    · exact h.apart other ((h.onPath other).mp hmem)
  have hsubset : ((seen ∪ insert node visiting : Finset α) : Set α) ⊆
      {node | ReflTransGen edge root node} := by
    intro other hother
    rcases Finset.mem_union.mp (Finset.mem_coe.mp hother) with hmem | hmem
    · exact h.reached other hmem
    · rcases Finset.mem_insert.mp hmem with rfl | hvisiting
      · exact h.reaches
      · obtain ⟨visit, hvisit, hnode⟩ :=
          exists_visit_of_mem_path ((h.onPath other).mp hvisiting)
        exact hnode ▸ h.lineage.reaches visit hvisit
  calc (limit : ℕ∞) < ((seen ∪ insert node visiting).card : ℕ∞) := by
        rw [Finset.card_union_of_disjoint hdisjoint]
        exact_mod_cast hbound
    _ = ((seen ∪ insert node visiting : Finset α) : Set α).encard :=
        (Set.encard_coe_eq_coe_finsetCard _).symm
    _ ≤ {node | ReflTransGen edge root node}.encard := Set.encard_le_encard hsubset

end Searching

end MbxCache.Foundation.DepthFirst
