/-
# Stores that answer alike

A store is a function from an operation and a state to an answer and a state. Two
stores answer alike when a relation between their states forces equal answers and
is kept. Run on the same calls they then give the same transcript.
-/

namespace MbxCache.Foundation

variable {Op : Type} {Answer : Op → Type} {S T : Type}

/-- Calls with their answers, in order. -/
abbrev Transcript (Op : Type) (Answer : Op → Type) := List ((op : Op) × Answer op)

/-- Make the calls one after another. -/
def transcript (exec : (op : Op) → S → Answer op × S) : List Op → S → Transcript Op Answer
  | [], _ => []
  | op :: ops, s => ⟨op, (exec op s).1⟩ :: transcript exec ops (exec op s).2

/-- Related states give equal answers to the calls that are allowed, and stay
related. -/
def AnswersAlike (exec : (op : Op) → S → Answer op × S) (exec' : (op : Op) → T → Answer op × T)
    (allowed : Op → Prop) (related : S → T → Prop) : Prop :=
  ∀ op s t, allowed op → related s t →
    (exec op s).1 = (exec' op t).1 ∧ related (exec op s).2 (exec' op t).2

/-- The run lemma. -/
theorem AnswersAlike.transcript_eq {exec : (op : Op) → S → Answer op × S}
    {exec' : (op : Op) → T → Answer op × T} {allowed : Op → Prop} {related : S → T → Prop}
    (h : AnswersAlike exec exec' allowed related) (ops : List Op)
    (hallowed : ∀ op ∈ ops, allowed op) {s : S} {t : T} (hrelated : related s t) :
    transcript exec ops s = transcript exec' ops t := by
  induction ops generalizing s t with
  | nil => rfl
  | cons op ops ih =>
      obtain ⟨hanswer, hnext⟩ := h op s t (hallowed op (by simp)) hrelated
      have hrest := ih (fun other hmem => hallowed other (by simp [hmem])) hnext
      rw [transcript, transcript, hanswer, hrest]

end MbxCache.Foundation
