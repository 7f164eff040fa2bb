import Hopclaw.Domain.Maps
import Hopclaw.Model.ToolNames

/-! # Tool names survive the wire

Every byte is read back from what was written for it, whatever follows, so the names a provider
sends back are those that were offered. -/

namespace Hopclaw.Model

open GoBytes List

/-- The bytes a provider takes. -/
def wireByte (ch : UInt8) : Bool :=
  keptByte ch || ch = 95

theorem wireByte_of_mem {name : Bytes} {ch : UInt8} (h : ch ∈ sanitizeToolName name) :
    wireByte ch = true := by
  have hall : ∀ b, (sanitizeByte b).all wireByte := forall_byte (by decide +kernel)
  obtain ⟨b, -, hb⟩ := mem_flatMap.mp h
  exact all_eq_true.mp (hall b) ch hb

/-- One byte is read back. -/
theorem desanitizeToolName_sanitizeByte (ch : UInt8) (rest : Bytes) :
    desanitizeToolName (sanitizeByte ch ++ rest) = ch :: desanitizeToolName rest := by
  have hscan : scanHex (upperHex (ch / 16)) (upperHex (ch % 16)) = some ch := by
    revert ch
    exact forall_byte (by decide +kernel)
  have hkept : keptByte ch = true → ch ≠ 95 := by
    rintro h rfl
    cases h
  unfold sanitizeByte
  split_ifs with h
  · -- a kept byte does not begin an escape
    rcases rest with _ | ⟨b₁, _ | ⟨b₂, _ | ⟨b₃, _ | ⟨b₄, rest⟩⟩⟩⟩ <;>
      simp [desanitizeToolName, hkept h]
  · simp [desanitizeToolName, hscan]

theorem desanitizeToolName_sanitizeToolName (name : Bytes) :
    desanitizeToolName (sanitizeToolName name) = name := by
  induction name with
  | nil => rfl
  | cons ch name ih =>
    rw [sanitizeToolName, flatMap_cons, desanitizeToolName_sanitizeByte]
    exact congrArg (ch :: ·) ih

theorem sanitizeToolName_injective : Function.Injective sanitizeToolName :=
  Function.LeftInverse.injective desanitizeToolName_sanitizeToolName

/-- A name without an escape was not changed. -/
theorem sanitizeToolName_eq_self {name : Bytes} (h : ¬ [95, 120] <:+: sanitizeToolName name) :
    sanitizeToolName name = name := by
  induction name with
  | nil => rfl
  | cons ch name ih =>
    rw [sanitizeToolName, flatMap_cons] at h ⊢
    have hrest : ¬ [95, 120] <:+: sanitizeToolName name := fun hin =>
      h (hin.trans (suffix_append _ _).isInfix)
    have hch : sanitizeByte ch = [ch] := by
      unfold sanitizeByte at h ⊢
      split_ifs at h ⊢ with hkept
      · rfl
      · exact absurd ⟨[], _, rfl⟩ h
    rw [hch]
    exact congrArg (ch :: ·) (ih hrest)

/-- A wire name in the map of a request stands for the tool it was made from. -/
theorem eq_of_lookup_wireToInternal {names : List Bytes} {name original : Bytes}
    (h : (wireToInternal names).lookup (sanitizeToolName name) = some original) :
    original = name := by
  unfold wireToInternal at h
  induction names using reverseRecOn with
  | nil => cases h
  | append_singleton names last ih =>
    rw [foldl_append, foldl_cons, foldl_nil, Maps.lookup_insert_if] at h
    split_ifs at h with heq
    · rw [← Option.some.inj h]
      exact (sanitizeToolName_injective heq).symm
    · exact ih h

/-- For names without white space around them, what is sent consists of letters, digits, `-` and
    `_`, different names are sent differently, and the name that comes back is the one that was
    sent, with the map of the request and without one. -/
theorem tool_names_restored (names : List Bytes) {name : Bytes} (htrim : trimSpace name = name)
    (hne : name ≠ []) :
    (∀ ch ∈ sanitizeToolName name, wireByte ch = true) ∧
      Function.Injective sanitizeToolName ∧
      restoreToolName (sanitizeToolName name) (wireToInternal names) = name ∧
      restoreToolName (sanitizeToolName name) ∅ = name ∧
      desanitizeToolName (sanitizeToolName name) = name := by
  have hback := desanitizeToolName_sanitizeToolName name
  have hwire : trimSpace (sanitizeToolName name) = sanitizeToolName name :=
    trimSpace_eq_self (p := wireByte) (by decide +kernel) fun ch => wireByte_of_mem
  have hwireNe : sanitizeToolName name ≠ [] := by
    intro hnil
    rw [hnil] at hback
    exact hne hback.symm
  have hunmapped : (if [95, 120] <:+: sanitizeToolName name then
      desanitizeToolName (sanitizeToolName name) else sanitizeToolName name) = name := by
    split_ifs with hescaped
    · exact hback
    · exact sanitizeToolName_eq_self hescaped
  have hrestored : ∀ m : AList fun _ : Bytes => Bytes, (∀ original,
      m.lookup (sanitizeToolName name) = some original → original = name) →
      restoreToolName (sanitizeToolName name) m = name := by
    intro m hm
    simp only [restoreToolName]
    rw [hwire, if_neg hwireNe]
    cases hl : m.lookup (sanitizeToolName name) with
    | none => exact hunmapped
    | some original =>
      obtain rfl := hm original hl
      simp [Option.filter, htrim, hne]
  exact ⟨fun ch => wireByte_of_mem, sanitizeToolName_injective,
    hrestored _ fun original => eq_of_lookup_wireToInternal, hrestored _ (by simp), hback⟩

/-- The tool `fs.read` is offered as `fs_x2E_read`. -/
theorem dotted_name_restored :
    sanitizeToolName [102, 115, 46, 114] = [102, 115, 95, 120, 50, 69, 95, 114] ∧
      restoreToolName (sanitizeToolName [102, 115, 46, 114]) (wireToInternal [[102], [46]]) =
        [102, 115, 46, 114] :=
  ⟨by decide +kernel, (tool_names_restored [[102], [46]] (by decide +kernel) (by decide)).2.2.1⟩

end Hopclaw.Model
