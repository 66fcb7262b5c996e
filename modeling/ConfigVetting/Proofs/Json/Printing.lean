import ConfigVetting.Json.Printer
import Mathlib.Tactic.SplitIfs

/-! # Printed values stand on one line

What is written of a JSON value holds no line break (`ConfigVetting.Json.isLine_render`): texts have
theirs escaped, and nothing else that is written has any.
-/

namespace ConfigVetting

namespace Text

/-- Whether a text holds no line break. -/
def IsLine (text : String) : Prop :=
  '\n' ∉ text.toList

instance (text : String) : Decidable (IsLine text) :=
  inferInstanceAs (Decidable (_ ∉ _))

private theorem isLine_ofList {characters : List Char} : IsLine (String.ofList characters) ↔
    '\n' ∉ characters := by
  rw [IsLine, String.toList_ofList]

private theorem isLine_append {first second : String} :
    IsLine (first ++ second) ↔ IsLine first ∧ IsLine second := by
  simp only [IsLine, String.toList_append, List.mem_append, not_or]

/-- Lines that are joined by one are a line. -/
theorem isLine_joinWith {separator : String} {parts : List String} (plain : IsLine separator)
    (lines : ∀ part ∈ parts, IsLine part) : IsLine (joinWith separator parts) := by
  rw [IsLine, joinWith, String.toList_intercalate]
  induction parts with
  | nil => exact List.not_mem_nil
  | cons part parts ih =>
      rw [List.forall_mem_cons] at lines
      cases parts with
      | nil =>
          rw [List.map_singleton, List.intercalate_singleton]
          exact lines.1
      | cons next others =>
          have rest := ih lines.2
          simp only [List.map_cons, List.intercalate_cons_cons, List.mem_append, not_or] at rest ⊢
          exact ⟨⟨lines.1, plain⟩, rest⟩

private theorem isLine_repr (value : Nat) : IsLine value.repr := by
  intro held
  rw [Nat.toList_repr] at held
  exact absurd (Nat.isDigit_of_mem_toDigits (by decide) (by decide) held) (by decide)

private theorem isLine_toString (value : Int) : IsLine (toString value) := by
  cases value with
  | ofNat value => exact isLine_repr value
  | negSucc value => exact isLine_append.mpr ⟨by decide, isLine_repr _⟩

end Text

open Text

namespace Number

private theorem isLine_layout (decimal : Decimal) : IsLine (layout decimal) := by
  have digits : IsLine (toString decimal.digits) := isLine_repr _
  have zeros : ∀ count, IsLine (String.ofList (List.replicate count '0')) := fun count =>
    isLine_ofList.mpr fun held => absurd (List.eq_of_mem_replicate held) (by decide)
  have front : ∀ count, IsLine (String.ofList ((toString decimal.digits).toList.take count)) :=
    fun count => isLine_ofList.mpr fun held => digits (List.mem_of_mem_take held)
  have back : ∀ count, IsLine (String.ofList ((toString decimal.digits).toList.drop count)) :=
    fun count => isLine_ofList.mpr fun held => digits (List.mem_of_mem_drop held)
  have point : IsLine "." := by decide
  have mark : IsLine "e" := by decide
  unfold layout
  dsimp only
  split_ifs
  · exact isLine_append.mpr ⟨isLine_append.mpr ⟨digits, zeros _⟩, by decide⟩
  · exact isLine_append.mpr ⟨isLine_append.mpr ⟨front _, point⟩, back _⟩
  · exact isLine_append.mpr ⟨isLine_append.mpr ⟨by decide, zeros _⟩, digits⟩
  · exact isLine_append.mpr ⟨digits, isLine_append.mpr ⟨mark, isLine_toString _⟩⟩
  · exact isLine_append.mpr ⟨isLine_append.mpr ⟨isLine_append.mpr ⟨front _, point⟩, back _⟩,
      isLine_append.mpr ⟨mark, isLine_toString _⟩⟩

theorem isLine_render (value : Number) : IsLine value.render := by
  cases value with
  | whole value => exact isLine_toString value
  | real value =>
      have sign : IsLine (if value.negative then "-" else "") := by
        cases value.negative <;> decide
      change IsLine (if value.isZero then _ ++ "0.0" else _ ++ layout value.shortest)
      by_cases zero : value.isZero
      · rw [if_pos zero]
        exact isLine_append.mpr ⟨sign, by decide⟩
      · rw [if_neg zero]
        exact isLine_append.mpr ⟨sign, isLine_layout _⟩

end Number

namespace Json

private theorem hexDigit_ne_newline : ∀ value < 16, hexDigit value ≠ '\n' := by
  decide

/-- No character is written with a line break inside a quoted text. -/
theorem newline_notMem_quotedChar (c : Char) : '\n' ∉ quotedChar c := by
  unfold quotedChar
  split_ifs with quote backslash newline ret tab back feed control <;> try decide
  · have first := hexDigit_ne_newline (c.toNat / 16) (by omega)
    have second := hexDigit_ne_newline (c.toNat % 16) (by omega)
    simp [first.symm, second.symm]
  · exact fun held => newline (List.mem_singleton.mp held).symm

private theorem isLine_quoted (value : String) : IsLine (quoted value) := by
  rw [quoted, isLine_ofList]
  simp only [List.mem_append, List.mem_flatMap, not_or, not_exists, not_and]
  exact ⟨⟨by decide, fun c _ => newline_notMem_quotedChar c⟩, by decide⟩

mutual

/-- What is written of a value stands on one line. -/
theorem isLine_render : (value : Json) → IsLine value.render
  | .null => by decide
  | .bool true => by decide
  | .bool false => by decide
  | .number value => value.isLine_render
  | .text value => isLine_quoted value
  | .array items => isLine_append.mpr ⟨isLine_append.mpr ⟨by decide,
      isLine_joinWith (by decide) (isLine_renderItems items)⟩, by decide⟩
  | .object members => isLine_append.mpr ⟨isLine_append.mpr ⟨by decide,
      isLine_joinWith (by decide) (isLine_renderMembers members)⟩, by decide⟩

theorem isLine_renderItems : (items : List Json) → ∀ part ∈ renderItems items, IsLine part
  | [] => fun _ member => nomatch member
  | item :: rest => List.forall_mem_cons.mpr ⟨isLine_render item, isLine_renderItems rest⟩

theorem isLine_renderMembers :
    (members : List (String × Json)) → ∀ part ∈ renderMembers members, IsLine part
  | [] => fun _ member => nomatch member
  | (name, value) :: rest => List.forall_mem_cons.mpr ⟨isLine_append.mpr ⟨isLine_append.mpr
      ⟨isLine_quoted name, by decide⟩, isLine_render value⟩, isLine_renderMembers rest⟩

end

end Json

end ConfigVetting
