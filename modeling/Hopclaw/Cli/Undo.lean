import Hopclaw.Interleaving.Trace

/-!
# Undo and redo in the editor

The undo stack of `internal/cli/richedit` and what `handleEvent` does with it. The stack keeps
states with a pointer to the present one, while the editor pushes the state before each edit. So the
state after the last edit is on no stack, and the one below the pointer is not the one before it.
-/

namespace Hopclaw.Richedit

open Interleaving List

variable {S : Type}

def maxUndoStates : ℕ := 100

/-- `UndoStack`, once `Run` has pushed the first state: the state at `pos`, those before it with the
    latest first, and those after it. -/
structure UndoStack (S : Type) where
  present : S
  past : List S := []
  future : List S := []

/-- The states after the pointer are given up, and the oldest ones above the limit. -/
def UndoStack.push (u : UndoStack S) (snap : S) : UndoStack S :=
  { present := snap, past := (u.present :: u.past).take (maxUndoStates - 1) }

def UndoStack.undo (u : UndoStack S) : Option (UndoStack S) :=
  match u.past with
  | [] => none
  | snap :: past => some ⟨snap, past, u.present :: u.future⟩

def UndoStack.redo (u : UndoStack S) : Option (UndoStack S) :=
  match u.future with
  | [] => none
  | snap :: future => some ⟨snap, u.present :: u.past, future⟩

/-- The content is the document with the cursor, which is inside it, so that restoring a snapshot
    does not move it. -/
structure Editor (S : Type) where
  content : S
  undo : UndoStack S

/-- The actions by what they do to the stack: an edit pushes the content first. Other actions move
    the cursor or bring back a draft. -/
inductive Action (S : Type)
  | edit (change : S → S)
  | other (change : S → S)
  | undo
  | redo

def Editor.restoreSnapshot (e : Editor S) : Option (UndoStack S) → Editor S
  | some u => ⟨u.present, u⟩
  | none => e

def Editor.handleEvent (e : Editor S) : Action S → Editor S
  | .edit change => ⟨change e.content, e.undo.push e.content⟩
  | .other change => { e with content := change e.content }
  | .undo => e.restoreSnapshot e.undo.undo
  | .redo => e.restoreSnapshot e.undo.redo

/-- The editor after the actions, when `Run` begins with a content. -/
def reached (content : S) (actions : List (Action S)) : Editor S :=
  runAll Editor.handleEvent ⟨content, { present := content }⟩ actions

/-- The editor after some edits. -/
def Editor.edited (e : Editor S) (edits : List (S → S)) : Editor S :=
  runAll Editor.handleEvent e (edits.map .edit)

/-- After the edits, undoing the last ones restores what was there before them, and redoing one what
    was there after it. -/
def Restores (e : Editor S) (edits : List (S → S)) : Prop :=
  (∀ kept undone, edits = kept ++ undone →
    (runAll Editor.handleEvent (e.edited edits) (List.replicate undone.length .undo)).content =
      (e.edited kept).content) ∧
  (edits ≠ [] → (runAll Editor.handleEvent (e.edited edits) [.undo, .redo]).content =
    (e.edited edits).content)

open Editor

theorem undo_of_past {e : Editor S} {snap : S} {past : List S} (h : e.undo.past = snap :: past) :
    (e.handleEvent .undo).undo.past = past ∧ (e.handleEvent .undo).content = snap := by
  rw [handleEvent, UndoStack.undo, h]
  exact ⟨rfl, rfl⟩

section Edits

variable {e : Editor S} {f : S → S} {edits : List (S → S)}

theorem past_edit (h : e.undo.past.length + (f :: edits).length < maxUndoStates) :
    (e.handleEvent (.edit f)).undo.past = e.undo.present :: e.undo.past :=
  take_of_length_le (by rw [length_cons] at h ⊢; omega)

/-- Undoing all edits gives the state at the pointer, not the one before them. -/
theorem undo_edits (h : e.undo.past.length + edits.length < maxUndoStates) :
    let back := runAll handleEvent (e.edited edits) (replicate edits.length .undo)
    back.undo.past = e.undo.past ∧ (edits ≠ [] → back.content = e.undo.present) := by
  induction edits generalizing e with
  | nil => exact ⟨rfl, fun h => absurd rfl h⟩
  | cons f edits ih =>
    have hpush := past_edit h
    obtain ⟨hpast, -⟩ := ih (by
      rw [hpush, length_cons]
      rw [length_cons] at h
      omega)
    obtain ⟨hpast, hcontent⟩ := undo_of_past (hpast.trans hpush)
    rw [length_cons, replicate_succ', runAll_append]
    exact ⟨hpast, fun _ => hcontent⟩

/-- Undo and redo give the state at the pointer again. -/
theorem redo_undo (h : e.undo.past ≠ []) :
    (runAll handleEvent e [.undo, .redo]).content = e.undo.present := by
  obtain ⟨content, present, _ | ⟨snap, past⟩, future⟩ := e
  · exact absurd rfl h
  · rfl

theorem restores_cons (h : e.undo.past.length + (f :: edits).length < maxUndoStates) :
    Restores e (f :: edits) ↔ e.undo.present = e.content ∧
      (edits = [] → f e.content = e.content) ∧ Restores (e.handleEvent (.edit f)) edits := by
  have hundo := (undo_edits h).2 (by simp)
  have hredo : edits = [] →
      (runAll handleEvent (e.edited (f :: edits)) [.undo, .redo]).content = e.content := by
    rintro rfl
    exact redo_undo (e := e.handleEvent (.edit f)) (by simp [past_edit h])
  constructor
  · rintro ⟨hkept, hlast⟩
    refine ⟨hundo.symm.trans (hkept [] _ rfl), fun hnil => ?_, fun kept undone hsplit => ?_,
      fun _ => hlast (by simp)⟩
    · have := (hredo hnil).symm.trans (hlast (by simp))
      subst hnil
      exact this.symm
    · exact hkept (f :: kept) undone (by rw [hsplit, cons_append])
  · rintro ⟨hpresent, hone, hkept, hlast⟩
    refine ⟨fun kept undone hsplit => ?_, fun _ => ?_⟩
    · rcases cons_eq_append_iff.mp hsplit with ⟨rfl, rfl⟩ | ⟨kept, rfl, hrest⟩
      · exact hundo.trans hpresent
      · exact hkept kept undone hrest
    · by_cases hnil : edits = []
      · subst hnil
        exact (hone rfl).symm
      · exact hlast hnil

/-- The state at the pointer is the content, and the edits change nothing. -/
def Settled (e : Editor S) (edits : List (S → S)) : Prop :=
  edits ≠ [] → e.undo.present = e.content ∧ ∀ f ∈ edits, f e.content = e.content

theorem restores_iff_settled (h : e.undo.past.length + edits.length < maxUndoStates) :
    Restores e edits ↔ Settled e edits := by
  induction edits generalizing e with
  | nil => simp [Restores, Settled]
  | cons f edits ih =>
    rw [restores_cons h, ih (by rw [past_edit h]; simp only [length_cons] at h ⊢; omega)]
    have hpresent : (e.handleEvent (.edit f)).undo.present = e.content := rfl
    have hcontent : (e.handleEvent (.edit f)).content = f e.content := rfl
    by_cases hnil : edits = []
    · simp [Settled, hnil]
    · simp only [Settled, hnil, hpresent, hcontent, forall_mem_cons, ne_eq, reduceCtorEq,
        not_false_eq_true, forall_const, IsEmpty.forall_iff, true_and]
      -- The second edit asks that the first one left the content as it was.
      constructor
      · rintro ⟨hhere, hfirst, hrest⟩
        exact ⟨hhere, hfirst.symm, fun g hg => hfirst ▸ hrest g hg⟩
      · rintro ⟨hhere, hfirst, hrest⟩
        rw [hfirst]
        exact ⟨hhere, rfl, hrest⟩

end Edits

theorem past_handleEvent (e : Editor S) (a : Action S) :
    (e.handleEvent a).undo.past.length ≤ e.undo.past.length + 1 := by
  obtain ⟨content, present, past, future⟩ := e
  cases a with
  | edit change => exact length_take_le' ..
  | other change => exact Nat.le_succ _
  | undo => cases past <;> simp [handleEvent, UndoStack.undo, restoreSnapshot]; omega
  | redo => cases future <;> simp [handleEvent, UndoStack.redo, restoreSnapshot]

theorem past_runAll (e : Editor S) (actions : List (Action S)) :
    (runAll handleEvent e actions).undo.past.length ≤
      e.undo.past.length + actions.length := by
  induction actions generalizing e with
  | nil => exact le_rfl
  | cons a actions ih =>
    have hstep := past_handleEvent e a
    have hrun := ih (e.handleEvent a)
    rw [runAll_cons, length_cons]
    omega

/-- After fewer actions and edits than the limit, the edits are undone and redone right exactly if
    the editor was settled before them. -/
theorem restores_iff (content : S) (actions : List (Action S)) (edits : List (S → S))
    (h : actions.length + edits.length < maxUndoStates) :
    Restores (reached content actions) edits ↔ Settled (reached content actions) edits := by
  have hpast : (reached content actions).undo.past.length ≤ 0 + actions.length :=
    past_runAll _ actions
  exact restores_iff_settled (by omega)

/-- Nothing is deleted from an empty document. A character typed into it is undone, but not brought
    back. -/
theorem restores_unchanged :
    Restores (reached "".toList []) [dropLast] ∧
      ([[.undo], [.undo, .redo]].map fun after =>
        (reached "".toList (.edit (· ++ ['a']) :: after)).content) = [[], []] :=
  ⟨(restores_iff "".toList [] [dropLast] (by decide)).mpr fun _ => ⟨rfl, by simp [reached]⟩,
    by decide⟩

/-- After two characters are typed, undoing one removes both, and redoing it brings back one. -/
theorem undo_goes_back_two_edits :
    ([[], [.undo], [.undo, .redo]].map fun after =>
      (reached "" ([.edit (· ++ "a"), .edit (· ++ "b")] ++ after)).content) = ["ab", "", "a"] := by
  decide

end Hopclaw.Richedit
